import Mathlib.Algebra.BigOperators.Group.List.Basic
import SecantDescent.Objective.Differences
import SecantDescent.Proofs.Run.Transcript

/-!
# Counting the calls in a transcript

Tallies are added component by component, and every line of a transcript counts
one call of one callable, except for the lines of an update rule, which call no
callable of the objective.  Callables that keep a transcript know more than
callables that count, as the tally can be read off the transcript.  The
operations on differences make a fixed number of calls, whatever the answers
are.
-/

namespace SecantDescent

open Eval

variable {σ σ' τ ω ι α β γ : Type}

/-! ## Tallies -/

attribute [ext] Tally

namespace Tally

instance instZero : Zero Tally where
  zero := {}

instance instAdd : Add Tally where
  add tally more :=
    ⟨tally.cost + more.cost, tally.gradient + more.gradient, tally.hessian + more.hessian⟩

instance instAddCommMonoid : AddCommMonoid Tally where
  add_assoc _ _ _ :=
    Tally.ext (Nat.add_assoc _ _ _) (Nat.add_assoc _ _ _) (Nat.add_assoc _ _ _)
  zero_add _ := Tally.ext (Nat.zero_add _) (Nat.zero_add _) (Nat.zero_add _)
  add_zero _ := rfl
  add_comm _ _ := Tally.ext (Nat.add_comm _ _) (Nat.add_comm _ _) (Nat.add_comm _ _)
  nsmul := nsmulRec

theorem mk_add_mk (c g h c' g' h' : Nat) :
    (⟨c, g, h⟩ + ⟨c', g', h'⟩ : Tally) = ⟨c + c', g + g', h + h'⟩ := rfl

theorem nsmul_mk (k c g h : Nat) : k • (⟨c, g, h⟩ : Tally) = ⟨k * c, k * g, k * h⟩ := by
  induction k with
  | zero => simp only [zero_nsmul, Nat.zero_mul]; rfl
  | succ k ih => rw [succ_nsmul, ih, mk_add_mk, Nat.succ_mul, Nat.succ_mul, Nat.succ_mul]

/-- The number of all calls. -/
def total (tally : Tally) : Nat :=
  tally.cost + tally.gradient + tally.hessian

theorem total_add (tally more : Tally) : (tally + more).total = tally.total + more.total := by
  change tally.cost + more.cost + (tally.gradient + more.gradient) +
    (tally.hessian + more.hessian) = _
  simp only [total]
  omega

end Tally

/-- The call that a line counts for, if it is one of the objective. -/
def Exchange.tally : Exchange α → Tally
  | cost _ _ => ⟨1, 0, 0⟩
  | gradient _ _ => ⟨0, 1, 0⟩
  | hessian _ _ => ⟨0, 0, 1⟩
  | refresh _ _ _ _ => 0

def Exchange.isEvaluation : Exchange α → Bool
  | refresh _ _ _ _ => false
  | _ => true

namespace Transcript

def tally (lines : Transcript α) : Tally :=
  (lines.map Exchange.tally).sum

/-- The lines of the callables of the objective. -/
def evaluations (lines : Transcript α) : Transcript α :=
  lines.filter Exchange.isEvaluation

@[simp] theorem tally_nil : tally ([] : Transcript α) = 0 := rfl

@[simp] theorem tally_cons (line : Exchange α) (lines : Transcript α) :
    tally (line :: lines) = line.tally + tally lines := by
  simp [tally]

@[simp] theorem tally_append (lines more : Transcript α) :
    tally (lines ++ more) = tally lines + tally more := by
  simp [tally]

theorem tally_evaluations (lines : Transcript α) : tally lines.evaluations = tally lines := by
  induction lines with
  | nil => rfl
  | cons line lines ih =>
      rw [evaluations] at ih
      cases line with
      | refresh held s y answer =>
          rw [tally_cons, Exchange.tally, zero_add, ← ih]
          rfl
      | cost | gradient | hessian =>
          rw [evaluations, List.filter_cons_of_pos rfl, tally_cons, tally_cons, ih]

/-- Each line of an objective counts for one call. -/
theorem total_evaluations (lines : Transcript α) :
    lines.tally.total = lines.evaluations.length := by
  induction lines with
  | nil => rfl
  | cons line lines ih =>
      rw [tally_cons, Tally.total_add, ih]
      cases line with
      | refresh => exact Nat.zero_add _
      | cost | gradient | hessian =>
          rw [evaluations, evaluations, List.filter_cons_of_pos rfl, List.length_cons]
          exact Nat.add_comm _ _

end Transcript

/-! ## Operations on lists -/

theorem Eval.Follows.mapM {view : σ' → σ} {rich : ι → Eval σ' α β} {act : ι → Eval σ α β}
    (h : ∀ i, Follows view (rich i) (act i)) (is : List ι) :
    Follows view (is.mapM rich) (is.mapM act) := by
  induction is with
  | nil => exact .pure view []
  | cons i is ih =>
      rw [List.mapM_cons, List.mapM_cons]
      refine (h i).bind fun value => ih.bind fun values => ?_
      exact .pure view _

theorem Eval.Follows.foldlM {view : σ' → σ} {rich : β → ι → Eval σ' α β}
    {act : β → ι → Eval σ α β} (h : ∀ value i, Follows view (rich value i) (act value i))
    (is : List ι) (value : β) : Follows view (is.foldlM rich value) (is.foldlM act value) := by
  induction is generalizing value with
  | nil => exact .pure view value
  | cons i is ih =>
      rw [List.foldlM_cons, List.foldlM_cons]
      exact (h value i).bind ih

/-! ## What a computation is charged -/

/-- The calls of a computation with a result: those it is charged for with the
value it returns, and no call after one that was refused. -/
structure Charged (charge : β → Tally) (result : Except (Failure α) β)
    (lines : Transcript α) : Prop where
  tally : ∀ value, result = .ok value → lines.tally = charge value
  refused : ∀ before line after refusal, lines = before ++ line :: after →
    line.failure? = some refusal → after = [] ∧ result = .error refusal

/-- From every state the computation adds the calls to the transcript that it
is charged for. -/
def Charges (record : ω → Transcript α) (charge : β → Tally) (act : Eval ω α β) : Prop :=
  ∀ state, ∃ lines, record (act.outcome state).2 = record state ++ lines ∧
    Charged charge (act.outcome state).1 lines

theorem Charged.quiet {charge : β → Tally} {result : Except (Failure α) β}
    (hfree : ∀ value, result = .ok value → charge value = 0) : Charged charge result [] where
  tally value hvalue := (hfree value hvalue).symm
  refused := by
    intro before line after refusal hlines
    simp at hlines

theorem Charged.answered {charge : β → Tally} {value : β} {lines : Transcript α}
    (h : Charged charge (.ok value) lines) : ∀ line ∈ lines, line.failure? = none := by
  intro line hline
  obtain ⟨before, after, hlines⟩ := List.append_of_mem hline
  cases hfailure : line.failure? with
  | none => rfl
  | some refusal => cases (h.refused before line after refusal hlines hfailure).2

theorem Charged.append {charge : γ → Tally} {result : Except (Failure α) γ}
    {first rest : Transcript α} (hfirst : ∀ line ∈ first, line.failure? = none)
    (h : Charged charge result rest) :
    Charged (fun value => first.tally + charge value) result (first ++ rest) where
  tally value hvalue := by
    rw [Transcript.tally_append, h.tally value hvalue]
  refused before line after refusal hlines hfailure := by
    rcases List.append_eq_append_iff.mp hlines with ⟨skipped, -, hrest⟩
      | ⟨skipped, hcut, hrest⟩
    · exact h.refused skipped line after refusal hrest hfailure
    · cases skipped with
      | nil => exact h.refused [] line after refusal hrest.symm hfailure
      | cons head skipped =>
          obtain ⟨rfl, -⟩ := List.cons.inj hrest
          have hanswered := hfirst line (by simp [hcut])
          rw [hfailure] at hanswered
          cases hanswered

namespace Charges

variable {record : ω → Transcript α} {charge : β → Tally} {act : Eval ω α β}

theorem quiet (hrecord : ∀ state, record (act.outcome state).2 = record state)
    (hfree : ∀ state value, (act.outcome state).1 = .ok value → charge value = 0) :
    Charges record charge act := by
  intro state
  refine ⟨[], ?_, .quiet (hfree state)⟩
  rw [hrecord, List.append_nil]

theorem ofExcept (result : Except (Failure α) β) :
    Charges record (fun _ => 0) (.ofExcept result : Eval ω α β) :=
  quiet (fun _ => rfl) fun _ _ _ => rfl

theorem pure {value : β} (hfree : charge value = 0) :
    Charges record charge (pure value : Eval ω α β) := by
  refine quiet (fun _ => rfl) ?_
  intro state result hresult
  cases hresult
  exact hfree

theorem throw (failure : Failure α) : Charges record charge (throw failure : Eval ω α β) :=
  quiet (fun _ => rfl) nofun

theorem bind {each : Tally} {next : β → Eval ω α γ} {rest : γ → Tally}
    (h : Charges record (fun _ => each) act)
    (hnext : ∀ value, Charges record rest (next value)) :
    Charges record (fun value => each + rest value) (act >>= next) := by
  intro state
  obtain ⟨lines, hrecord, hcharged⟩ := h state
  rw [outcome_bind]
  rcases hact : act.outcome state with ⟨failure | value, middle⟩
  · rw [hact] at hrecord hcharged
    refine ⟨lines, hrecord, nofun, ?_⟩
    intro before line after refusal hlines hfailure
    obtain ⟨hlast, hresult⟩ := hcharged.refused before line after refusal hlines hfailure
    cases hresult
    exact ⟨hlast, rfl⟩
  · rw [hact] at hrecord hcharged
    obtain ⟨more, hmore, hrest⟩ := hnext value middle
    refine ⟨lines ++ more, ?_, ?_⟩
    · rw [hmore, hrecord, List.append_assoc]
    · rw [← hcharged.tally value rfl]
      exact hrest.append hcharged.answered

theorem bind_total {each total : Tally} {next : β → Eval ω α γ} (rest : Tally)
    (htotal : each + rest = total) (h : Charges record (fun _ => each) act)
    (hnext : ∀ value, Charges record (fun _ => rest) (next value)) :
    Charges record (fun _ => total) (act >>= next) := by
  rw [← htotal]
  exact h.bind hnext

/-- A computation followed by one that makes no calls. -/
theorem bind_quiet {each : Tally} {next : β → Eval ω α γ}
    (h : Charges record (fun _ => each) act)
    (hnext : ∀ value, Charges record (fun _ => 0) (next value)) :
    Charges record (fun _ => each) (act >>= next) :=
  h.bind hnext

theorem ite {condition : Prop} [Decidable condition] {other : Eval ω α β}
    (h : Charges record charge act) (hother : Charges record charge other) :
    Charges record charge (if condition then act else other) := by
  by_cases hcondition : condition
  · rw [if_pos hcondition]
    exact h
  · rw [if_neg hcondition]
    exact hother

theorem mapM {each : Tally} {step : ι → Eval ω α β}
    (h : ∀ i, Charges record (fun _ => each) (step i)) (is : List ι) :
    Charges record (fun _ => is.length • each) (is.mapM step) := by
  induction is with
  | nil => exact .pure (zero_nsmul each)
  | cons i is ih =>
      rw [List.mapM_cons, List.length_cons, succ_nsmul']
      refine (h i).bind fun value => ih.bind_quiet fun values => ?_
      exact .pure rfl

theorem foldlM {each : Tally} {step : β → ι → Eval ω α β}
    (h : ∀ value i, Charges record (fun _ => each) (step value i)) (is : List ι) (value : β) :
    Charges record (fun _ => is.length • each) (is.foldlM step value) := by
  induction is generalizing value with
  | nil => exact .pure (zero_nsmul each)
  | cons i is ih =>
      rw [List.foldlM_cons, List.length_cons, succ_nsmul']
      exact (h value i).bind ih

end Charges

/-! ## Operations on differences -/

section Transcribed

variable {f : Objective σ α} (x : Array α)

theorem Eval.transcribing_charges (line : Except (Failure α) β → Exchange α) {each : Tally}
    (hcounts : ∀ answer, (line answer).tally = each)
    (hrefused : ∀ answer, (line answer).failure? = Exchange.refusal answer)
    (act : Eval σ α β) :
    Charges Prod.fst (fun _ => each) (act.transcribing line) := by
  intro state
  refine ⟨[line (act.outcome state.2).1], rfl, ?_, ?_⟩
  · intro value hvalue
    rw [Transcript.tally_cons, hcounts, Transcript.tally_nil, add_zero]
  · intro before called after refusal hlines hfailure
    obtain ⟨rfl, hsingle⟩ : before = [] ∧
      called :: after = [line (act.outcome state.2).1] := by
      cases before with
      | nil => exact ⟨rfl, hlines.symm⟩
      | cons head before => simp at hlines
    obtain ⟨rfl, rfl⟩ := List.cons.inj hsingle
    rw [hrefused] at hfailure
    refine ⟨rfl, ?_⟩
    change (act.outcome state.2).1 = .error refusal
    cases hanswer : (act.outcome state.2).1 with
    | ok value =>
        rw [hanswer] at hfailure
        cases hfailure
    | error failure =>
        rw [hanswer] at hfailure
        cases hfailure
        rfl

namespace Objective

theorem cost_charges : Charges Prod.fst (fun _ => ⟨1, 0, 0⟩) (f.transcribed.cost x) :=
  transcribing_charges (.cost x) (fun _ => rfl) (fun _ => rfl) (f.cost x)

theorem gradient_charges : Charges Prod.fst (fun _ => ⟨0, 1, 0⟩) (f.transcribed.gradient x) :=
  transcribing_charges (.gradient x) (fun _ => rfl) (fun _ => rfl) (f.gradient x)

theorem hessian_charges : Charges Prod.fst (fun _ => ⟨0, 0, 1⟩) (f.transcribed.hessian x) :=
  transcribing_charges (.hessian x) (fun _ => rfl) (fun _ => rfl) (f.hessian x)

variable [Scalar α] (h : α)

theorem gradientByDifferences_charges :
    Charges Prod.fst (fun _ => ⟨2 * x.size, 0, 0⟩)
      (f.transcribed.gradientByDifferences h x) := by
  have hpartial (i : Fin x.size) :
      Charges Prod.fst (fun _ => ⟨2, 0, 0⟩) (f.transcribed.partialByDifferences h x i) := by
    refine .bind_total ⟨1, 0, 0⟩ rfl (cost_charges _) fun above => ?_
    exact (cost_charges _).bind_quiet fun below => .pure rfl
  have hall := Charges.mapM hpartial (List.finRange x.size)
  rw [List.length_finRange, Tally.nsmul_mk, Nat.mul_comm] at hall
  exact hall.bind_quiet fun partials => .pure rfl

theorem compareGradient_charges (tolerance : α) :
    Charges Prod.fst (fun _ => ⟨2 * x.size, 1, 0⟩)
      (f.transcribed.compareGradient h x tolerance) := by
  have htotal : (⟨0, 1, 0⟩ + ⟨2 * x.size, 0, 0⟩ : Tally) = ⟨2 * x.size, 1, 0⟩ := by
    rw [Tally.mk_add_mk, Nat.zero_add, Nat.add_zero]
  simp only [compareGradient, ExceptT.bind_throw]
  refine .bind_total _ htotal (gradient_charges x) fun gradient => .ite (.throw _) ?_
  exact (gradientByDifferences_charges x h).bind_quiet fun estimate => .pure rfl

theorem columnByDifferences_charges (i : Fin x.size) :
    Charges Prod.fst (fun _ => ⟨0, 2, 0⟩) (f.transcribed.columnByDifferences h x i) := by
  simp only [columnByDifferences, ExceptT.bind_throw]
  refine .bind_total ⟨0, 1, 0⟩ rfl (gradient_charges _) fun above => ?_
  exact (gradient_charges _).bind_quiet fun below => .ite (.throw _) (.pure rfl)

theorem compareHessian_charges (tolerance : α) :
    Charges Prod.fst (fun _ => ⟨0, 2 * x.size, 1⟩)
      (f.transcribed.compareHessian h x tolerance) := by
  have htotal : (⟨0, 0, 1⟩ + x.size • ⟨0, 2, 0⟩ : Tally) = ⟨0, 2 * x.size, 1⟩ := by
    rw [Tally.nsmul_mk, Tally.mk_add_mk, Nat.mul_zero, Nat.zero_add, Nat.zero_add,
      Nat.add_zero, Nat.mul_comm]
  refine .bind_total _ htotal (hessian_charges x) fun hessian => ?_
  cases hessian.toGrid? x.size x.size with
  | none => exact .throw _
  | some entries =>
      have hcolumns := Charges.foldlM (fun best i =>
        (columnByDifferences_charges (f := f) x h i).bind_quiet fun estimate =>
          .ofExcept (columnError entries i estimate best)) (List.finRange x.size) 0
      rw [List.length_finRange] at hcolumns
      exact hcolumns.bind_quiet fun maxError => .pure rfl

end Objective

end Transcribed

/-! ## Tallies read off a transcript -/

def Solver.beneath (solver : Solver σ α) : Solver (τ × σ) α where
  step := solver.step
  rule := solver.rule.map UpdateRule.beneath

section Views

variable (f : Objective σ α) (solver : Solver σ α)

theorem Eval.transcribing_follows_after (tally : Tally) {count : Tally → Tally} {each : Tally}
    (line : Except (Failure α) β → Exchange α) (hline : ∀ answer, (line answer).tally = each)
    (hcount : ∀ tally, count tally = tally + each) (act : Eval σ α β) :
    Eval.Follows (Prod.map (fun lines => tally + Transcript.tally lines) id)
      (act.transcribing line) (act.after count) := by
  rintro ⟨lines, state⟩
  simp [transcribing, outcome_after, hline, hcount, add_assoc]

theorem Objective.transcribed_follows_counted (tally : Tally) :
    Objective.Follows (Prod.map (fun lines => tally + Transcript.tally lines) id)
      f.transcribed f.counted where
  cost x := transcribing_follows_after tally (.cost x) (fun _ => rfl) (fun _ => rfl) _
  gradient x := transcribing_follows_after tally (.gradient x) (fun _ => rfl) (fun _ => rfl) _
  hessian x := transcribing_follows_after tally (.hessian x) (fun _ => rfl) (fun _ => rfl) _

theorem Solver.beneath_follows (change : τ → ω) :
    Solver.Follows (Prod.map change id)
    (solver.beneath : Solver (τ × σ) α) solver.beneath where
  step := rfl
  rule := by
    rw [beneath, beneath]
    cases solver.rule with
    | none => exact .none
    | some rule => exact .some ⟨rfl, fun held pair state => rfl⟩

theorem Solver.beneath_follows_self :
    Solver.Follows Prod.snd (solver.beneath : Solver (τ × σ) α) solver where
  step := rfl
  rule := by
    rw [beneath]
    cases solver.rule with
    | none => exact .none
    | some rule => exact .some ⟨rfl, fun held pair state => rfl⟩

/-- Leaving the lines of the rule out of a transcript. -/
theorem Solver.transcribed_follows_beneath :
    Solver.Follows (Prod.map Transcript.evaluations id) solver.transcribed solver.beneath where
  step := rfl
  rule := by
    rw [transcribed, beneath]
    cases solver.rule with
    | none => exact .none
    | some rule =>
        refine .some ⟨rfl, fun held pair => ?_⟩
        rintro ⟨lines, state⟩
        simp [UpdateRule.beneath, UpdateRule.transcribed, transcribing, Transcript.evaluations,
          Exchange.isEvaluation]

theorem Eval.transcribing_follows_evaluations (line : Except (Failure α) β → Exchange α)
    (hkept : ∀ answer, (line answer).isEvaluation = true) (act : Eval σ α β) :
    Eval.Follows (Prod.map Transcript.evaluations id) (act.transcribing line)
      (act.transcribing line) := by
  rintro ⟨lines, state⟩
  simp [transcribing, Transcript.evaluations, hkept]

theorem Objective.transcribed_follows_evaluations :
    Objective.Follows (Prod.map Transcript.evaluations id) f.transcribed f.transcribed where
  cost x := transcribing_follows_evaluations (.cost x) (fun _ => rfl) _
  gradient x := transcribing_follows_evaluations (.gradient x) (fun _ => rfl) _
  hessian x := transcribing_follows_evaluations (.hessian x) (fun _ => rfl) _

end Views

section Follows

variable [Scalar α] {view : σ' → σ} {rich : Objective σ' α} {f : Objective σ α}

namespace Objective.Follows

variable (h : α) (x : Array α)

theorem gradientByDifferences (hf : Objective.Follows view rich f) :
    Eval.Follows view (rich.gradientByDifferences h x) (f.gradientByDifferences h x) := by
  have hpartial (i : Fin x.size) :
      Eval.Follows view (rich.partialByDifferences h x i) (f.partialByDifferences h x i) := by
    refine (hf.cost _).bind fun above => (hf.cost _).bind fun below => ?_
    exact .pure view _
  exact (Eval.Follows.mapM hpartial _).bind fun partials => .pure view _

theorem compareGradient (hf : Objective.Follows view rich f) (tolerance : α) :
    Eval.Follows view (rich.compareGradient h x tolerance)
    (f.compareGradient h x tolerance) := by
  simp only [Objective.compareGradient, ExceptT.bind_throw]
  refine (hf.gradient x).bind fun gradient => .ite (.throw view _) ?_
  exact (hf.gradientByDifferences h x).bind fun estimate => .pure view _

theorem columnByDifferences (hf : Objective.Follows view rich f) (i : Fin x.size) :
    Eval.Follows view (rich.columnByDifferences h x i) (f.columnByDifferences h x i) := by
  simp only [Objective.columnByDifferences, ExceptT.bind_throw]
  refine (hf.gradient _).bind fun above => (hf.gradient _).bind fun below => ?_
  exact .ite (.throw view _) (.pure view _)

theorem compareHessian (hf : Objective.Follows view rich f) (tolerance : α) :
    Eval.Follows view (rich.compareHessian h x tolerance)
    (f.compareHessian h x tolerance) := by
  refine (hf.hessian x).bind fun hessian => ?_
  cases hessian.toGrid? x.size x.size with
  | none => exact .throw view _
  | some entries =>
      refine (Eval.Follows.foldlM (fun best i => ?_) _ 0).bind fun maxError => .pure view _
      exact (hf.columnByDifferences h x i).bind fun estimate => .ofExcept view _

end Objective.Follows

end Follows

end SecantDescent
