import SecantDescent.Proofs.Run.Counting
import SecantDescent.Proofs.Run.Heads
import SecantDescent.Proofs.Run.Schedule

/-!
# Accounting for evaluations

What a run or an operation on an objective is charged for depends on its result
alone: on the number of iterations of a run and on the length of the point of
an operation.  A caller who counts the calls finds the charge in the tally, and
a run reports it.  What fails is charged for the calls up to the one that was
refused, that one included.
-/

namespace SecantDescent

open Eval

variable {σ σ' τ α : Type}

namespace Solver

/-! ## The calls of a run -/

/-- The calls before the value is asked for, in a run that has made `k` iterations. -/
def spent (solver : Solver σ α) (k : Nat) : Tally :=
  if solver.rule.isNone then ⟨0, 1 + k, max 1 k⟩ else ⟨0, 1 + 3 * k, 1⟩

/-- The calls of a run that returns a report after `k` iterations. -/
def charge (solver : Solver σ α) (k : Nat) : Tally :=
  if solver.rule.isNone then ⟨1, 1 + k, max 1 k⟩ else ⟨1, 1 + 3 * k, 1⟩

variable {solver : Solver σ α}

theorem spent_zero : solver.spent 0 = ⟨0, 1, 1⟩ := by
  unfold spent
  split <;> rfl

theorem spent_countCost (k : Nat) : (solver.spent k).countCost = solver.charge k := by
  unfold spent charge
  split <;> rfl

theorem spent_add_cost (k : Nat) : solver.spent k + ⟨1, 0, 0⟩ = solver.charge k :=
  spent_countCost k

/-- The second iteration of a run without a rule is the first one that asks for a
Hessian. -/
theorem spent_succ_of_unruled (hrule : solver.rule = none) (k : Nat) :
    solver.spent (k + 1) = solver.spent k + ⟨0, 1, if 0 < k then 1 else 0⟩ := by
  simp only [spent, hrule, Option.isNone_none, if_true, Tally.mk_add_mk]
  refine Tally.ext rfl rfl ?_
  split
  · exact (by omega : max 1 (k + 1) = max 1 k + 1)
  · exact (by omega : max 1 (k + 1) = max 1 k + 0)

theorem spent_succ_of_ruled (hrule : solver.rule ≠ none) (k : Nat) :
    solver.spent (k + 1) = solver.spent k + ⟨0, 3, 0⟩ := by
  have hruled : solver.rule.isNone = false := by
    cases h : solver.rule with
    | none => exact absurd h hrule
    | some rule => rfl
  simp only [spent, hruled, Bool.false_eq_true, if_false, Tally.mk_add_mk]
  exact Tally.ext rfl (by omega : 1 + 3 * (k + 1) = 1 + 3 * k + 3) rfl

variable [Scalar α] {n : Nat}

theorem Round.tally {iterate next : Iterate α n} {calls : Transcript α}
    (h : solver.Round iterate calls next) :
    solver.spent next.count = solver.spent iterate.count + calls.tally := by
  cases h with
  | opening unruled first moves => rw [spent_succ_of_unruled unruled, first]; rfl
  | newton unruled later moves => rw [spent_succ_of_unruled unruled, if_pos later]; rfl
  | secant ruled moves => rw [spent_succ_of_ruled ruled]; rfl

theorem Schedule.tally {iterate last : Iterate α n} {schedule : Transcript α}
    (h : solver.Schedule iterate schedule last) :
    solver.spent iterate.count + schedule.tally = solver.charge last.count := by
  induction h with
  | ending => exact spent_add_cost _
  | round here rest ih => rw [Transcript.tally_append, ← add_assoc, ← here.tally, ih]

/-! ## The calls that a run reports -/

variable {f : Objective σ α} {point : Array α} {stopping : StoppingRule α} {state : σ}

theorem gradientAt_calls {x g : Vector α n} {k : Nat} {session after : Session σ α}
    (h : (gradientAt f x k).outcome session = (.ok g, after)) :
    after.2.1 = session.2.1 + ⟨0, 1, 0⟩ := by
  obtain ⟨-, below, -, rfl⟩ := gradientAt_eq_ok_iff.mp h
  rfl

theorem hessianAt_calls {x : Vector α n} {B : DenseMatrix α} {k : Nat}
    {session after : Session σ α}
    (h : (hessianAt f x k).outcome session = (.ok B, after)) :
    after.2.1 = session.2.1 + ⟨0, 0, 1⟩ := by
  obtain ⟨-, below, -, rfl⟩ := hessianAt_eq_ok_iff.mp h
  rfl

theorem between_calls {x x' : Array α} {pair : SecantPair α} {state after : Tally × σ}
    (h : (SecantPair.between f.counted x x').outcome state = (.ok pair, after)) :
    after.1 = state.1 + ⟨0, 2, 0⟩ := by
  obtain ⟨-, _, middle, _, hfirst, hsecond, -⟩ := SecantPair.between_eq_ok_iff.mp h
  have hcounts {x g : Array α} {state after : Tally × σ}
      (h : (f.counted.gradient x).outcome state = (.ok g, after)) :
      after.1 = state.1.countGradient := by
    rw [Objective.counted, outcome_after] at h
    exact (congrArg (fun ended => ended.2.1) h).symm
  rw [hcounts hsecond, hcounts hfirst]
  rfl

theorem matrixFor_calls {iterate : Iterate α n} {B : DenseMatrix α}
    {session after : Session σ α}
    (h : (solver.matrixFor f iterate).outcome session = (.ok B, after)) :
    after.2.1 = session.2.1 +
      ⟨0, 0, if solver.rule.isNone ∧ 0 < iterate.count then 1 else 0⟩ := by
  rw [matrixFor_eq_ok_iff] at h
  split at h
  next hasks =>
    rw [if_pos hasks]
    exact hessianAt_calls h
  next hkeeps =>
    rw [if_neg hkeeps, h.2]
    rfl

theorem matrixAfter_calls {rule : UpdateRule σ α} (hrule : solver.rule = some rule)
    {held B : DenseMatrix α} {x x' : Vector α n} {k : Nat} {session after : Session σ α}
    (h : (solver.matrixAfter f held x x' k).outcome session = (.ok B, after)) :
    after.2.1 = session.2.1 + ⟨0, 2, 0⟩ := by
  obtain ⟨pair, middle, refresh, below, hpair, -, -, -, rfl⟩ :=
    (matrixAfter_eq_ok_iff hrule).mp h
  have hmiddle := between_calls hpair
  exact hmiddle

theorem iteration_calls {iterate next : Iterate α n} {session after : Session σ α}
    (h : (solver.iteration f iterate).outcome session = (.ok next, after))
    (hsession : session.2.1 = solver.spent iterate.count) :
    after.2.1 = solver.spent next.count := by
  obtain ⟨last, hadvance, rfl⟩ := iteration_eq_ok_iff.mp h
  obtain ⟨held, first, direction, second, hmatrix, -, hcount, -, -, hafter, hgradient⟩ :=
    advance_eq_ok_iff.mp hadvance
  change last.2.1 = solver.spent next.count
  rw [gradientAt_calls hgradient, hcount]
  have hfirst := matrixFor_calls hmatrix
  cases hrule : solver.rule with
  | none =>
      rw [matrixAfter_of_rule_eq_none hrule] at hafter
      cases hafter
      rw [hfirst, hsession, hrule, spent_succ_of_unruled hrule, add_assoc]
      simp [Tally.mk_add_mk]
  | some rule =>
      have hruled : solver.rule ≠ none := by
        rw [hrule]
        exact Option.some_ne_none rule
      rw [matrixAfter_calls hrule hafter, hfirst, hsession, hrule, spent_succ_of_ruled hruled,
        add_assoc, add_assoc]
      simp [Tally.mk_add_mk]

theorem enter_calls {first : Iterate α point.size} {session after : Session σ α}
    (h : (solver.enter f point stopping).outcome session = (.ok first, after)) :
    after.2.1 = session.2.1 + ⟨0, 1, 1⟩ := by
  obtain ⟨-, -, -, middle, hgradient, hhessian⟩ := enter_eq_ok_iff.mp h
  rw [hessianAt_calls hhessian, gradientAt_calls hgradient, add_assoc]
  rfl

theorem calls_of_enter {first : Iterate α point.size} {session : Session σ α}
    (h : (solver.enter f point stopping).outcome (#[], {}, state) = (.ok first, session)) :
    session.2.1 = solver.spent first.count := by
  rw [enter_calls h, (enter_eq_ok_iff.mp h).2.1, spent_zero]
  exact zero_add _

theorem AtHead.calls {iterate : Iterate α point.size} {session : Session σ α}
    (head : AtHead solver f point stopping state iterate session) :
    session.2.1 = solver.spent iterate.count := by
  induction head with
  | first entered unmet => exact calls_of_enter entered
  | next head room iterated unmet ih => exact iteration_calls iterated ih

theorem Finishes.calls {iterate : Iterate α point.size} {session : Session σ α}
    {ending : Ending}
    (finish : Finishes solver f point stopping state iterate session ending) :
    session.2.1 = solver.spent iterate.count := by
  cases finish with
  | atOnce entered met => exact calls_of_enter entered
  | converged head room iterated met => exact iteration_calls iterated head.calls
  | exhausted head spent => exact head.calls

theorem evaluations_eq_charge {report : Report α}
    (h : (solver.minimize f point stopping state).result = .ok report) :
    report.evaluations = solver.charge report.iterations := by
  obtain ⟨iterate, session, ending, value, after, hfinish, hcost, rfl⟩ :=
    minimize_eq_ok_iff.mp h
  obtain ⟨below, -, rfl⟩ := costAt_eq_ok_iff.mp hcost
  change session.2.1.countCost = solver.charge iterate.count
  rw [hfinish.calls, spent_countCost]

end Solver

/-! ## Charges of schedules -/

theorem Performs.charged {β : Type} {charge : β → Tally} {value : β}
    {result : Except (Failure α) β} {lines schedule : Transcript α}
    (h : Performs value result lines schedule) (hcharge : schedule.tally = charge value)
    (hanswered : ∀ line ∈ schedule, line.failure? = none) : Charged charge result lines := by
  refine ⟨?_, fun before line after refusal => h.last_of_failure hanswered⟩
  cases h with
  | whole =>
      rintro _ ⟨⟩
      exact hcharge
  | broken hbroken => exact nofun

theorem Charged.evaluations {β : Type} {charge : β → Tally} {result : Except (Failure α) β}
    {lines : Transcript α} (h : Charged charge result lines) :
    Charged charge result lines.evaluations where
  tally value hvalue := by
    rw [Transcript.tally_evaluations, h.tally value hvalue]
  refused before line after refusal hlines hfailure := by
    obtain ⟨first, rest, rfl, -, hrest⟩ := List.filter_eq_append_iff.mp hlines
    obtain ⟨skipped, last, rfl, -, -, hlast⟩ := List.filter_eq_cons_iff.mp hrest
    rw [← List.append_assoc] at h
    obtain ⟨rfl, hresult⟩ := h.refused (first ++ skipped) line last refusal rfl hfailure
    exact ⟨hlast.symm, hresult⟩

theorem Charged.map {β γ : Type} {charge : β → Tally} {charge' : γ → Tally} {wrap : β → γ}
    {result : Except (Failure α) β} {lines : Transcript α} (h : Charged charge result lines)
    (hcharge : ∀ value, charge' (wrap value) = charge value) :
    Charged charge' (result.map wrap) lines := by
  cases result with
  | ok value =>
      refine ⟨?_, ?_⟩
      · rintro _ ⟨⟩
        rw [h.tally value rfl, hcharge]
      · intro before line after refusal hlines hfailure
        cases (h.refused before line after refusal hlines hfailure).2
  | error failure =>
      refine ⟨nofun, ?_⟩
      intro before line after refusal hlines hfailure
      obtain ⟨hlast, hresult⟩ := h.refused before line after refusal hlines hfailure
      cases hresult
      exact ⟨hlast, rfl⟩

variable [Scalar α]

theorem Solver.run_charges (solver : Solver σ α) (f : Objective σ α) (point : Array α)
    (stopping : StoppingRule α) :
    Charges transcript (fun report => solver.charge report.iterations)
      (solver.transcribed.run f.transcribed point stopping) := by
  intro session
  obtain ⟨lines, schedule, report, hplan, hanswered, hrecord, hperforms⟩ :=
    run_asks solver f point stopping session
  obtain ⟨first, last, rest, hcount, -, hschedule, rfl, hiterations, -⟩ := hplan
  refine ⟨lines, hrecord, hperforms.charged ?_ hanswered⟩
  rw [hiterations, ← hschedule.tally, hcount, spent_zero, Transcript.tally_cons,
    Transcript.tally_cons, ← add_assoc]
  rfl

/-! ## Inquiries -/

/-- What a caller can do with an objective: evaluate it, look at its differences,
or start a run. -/
inductive Inquiry (σ α : Type) where
  | cost (x : Array α)
  | gradient (x : Array α)
  | hessian (x : Array α)
  | gradientByDifferences (h : α) (x : Array α)
  | compareGradient (h : α) (x : Array α) (tolerance : α)
  | compareHessian (h : α) (x : Array α) (tolerance : α)
  | run (solver : Solver σ α) (point : Array α) (stopping : StoppingRule α)

/-- What an inquiry returns. -/
inductive Finding (α : Type) where
  | number (value : α)
  | vector (entries : Array α)
  | matrix (entries : DenseMatrix α)
  | comparison (comparison : Comparison α)
  | report (report : Report α)

namespace Inquiry

def carryOut (f : Objective σ α) : Inquiry σ α → Eval σ α (Finding α)
  | cost x => do return .number (← f.cost x)
  | gradient x => do return .vector (← f.gradient x)
  | hessian x => do return .matrix (← f.hessian x)
  | gradientByDifferences h x => do return .vector (← f.gradientByDifferences h x)
  | compareGradient h x tolerance => do
      return .comparison (← f.compareGradient h x tolerance)
  | compareHessian h x tolerance => do
      return .comparison (← f.compareHessian h x tolerance)
  | run solver point stopping => .of fun state =>
      let outcome := solver.minimize f point stopping state
      (outcome.result.map .report, outcome.state)

/-- The calls that an inquiry makes when it returns the finding. -/
def charge (inquiry : Inquiry σ α) (finding : Finding α) : Tally :=
  match inquiry, finding with
  | cost _, _ => ⟨1, 0, 0⟩
  | gradient _, _ => ⟨0, 1, 0⟩
  | hessian _, _ => ⟨0, 0, 1⟩
  | gradientByDifferences _ x, _ => ⟨2 * x.size, 0, 0⟩
  | compareGradient _ x _, _ => ⟨2 * x.size, 1, 0⟩
  | compareHessian _ x _, _ => ⟨0, 2 * x.size, 1⟩
  | run solver _ _, .report report => solver.charge report.iterations
  | run _ _ _, _ => 0

/-- The inquiry with its solver changed, for a run. -/
def withSolver (change : Solver σ α → Solver σ' α) : Inquiry σ α → Inquiry σ' α
  | cost x => .cost x
  | gradient x => .gradient x
  | hessian x => .hessian x
  | gradientByDifferences h x => .gradientByDifferences h x
  | compareGradient h x tolerance => .compareGradient h x tolerance
  | compareHessian h x tolerance => .compareHessian h x tolerance
  | run solver point stopping => .run (change solver) point stopping

/-- The inquiry about an objective that is used below a state. -/
def beneath (inquiry : Inquiry σ α) : Inquiry (τ × σ) α :=
  inquiry.withSolver Solver.beneath

omit [Scalar α] in
theorem withSolver_id (inquiry : Inquiry σ α) : inquiry.withSolver id = inquiry := by
  cases inquiry <;> rfl

theorem carryOut_follows {τ : Type} {view : σ' → τ} {change : Solver σ α → Solver σ' α}
    {change' : Solver σ α → Solver τ α}
    (hs : ∀ solver, Solver.Follows view (change solver) (change' solver))
    {rich : Objective σ' α} {f : Objective τ α} (hf : Objective.Follows view rich f)
    (inquiry : Inquiry σ α) :
    Eval.Follows view ((inquiry.withSolver change).carryOut rich)
      ((inquiry.withSolver change').carryOut f) := by
  cases inquiry with
  | cost x => exact (hf.cost x).bind fun value => .pure view _
  | gradient x => exact (hf.gradient x).bind fun entries => .pure view _
  | hessian x => exact (hf.hessian x).bind fun entries => .pure view _
  | gradientByDifferences h x =>
      exact (hf.gradientByDifferences h x).bind fun entries => .pure view _
  | compareGradient h x tolerance =>
      exact (hf.compareGradient h x tolerance).bind fun comparison => .pure view _
  | compareHessian h x tolerance =>
      exact (hf.compareHessian h x tolerance).bind fun comparison => .pure view _
  | run solver point stopping =>
      intro state
      have hrun := Solver.minimize_follows (hs solver) hf point stopping state
      rw [withSolver, withSolver, carryOut, carryOut, outcome_of, outcome_of, hrun]

theorem carryOut_charges (f : Objective σ α) (inquiry : Inquiry σ α) :
    Charges Prod.fst inquiry.charge
      ((inquiry.withSolver Solver.transcribed).carryOut f.transcribed) := by
  cases inquiry with
  | cost x => exact (Objective.cost_charges x).bind_quiet fun value => .pure rfl
  | gradient x => exact (Objective.gradient_charges x).bind_quiet fun entries => .pure rfl
  | hessian x => exact (Objective.hessian_charges x).bind_quiet fun entries => .pure rfl
  | gradientByDifferences h x =>
      exact (Objective.gradientByDifferences_charges x h).bind_quiet fun entries => .pure rfl
  | compareGradient h x tolerance =>
      exact (Objective.compareGradient_charges x h tolerance).bind_quiet fun _ => .pure rfl
  | compareHessian h x tolerance =>
      exact (Objective.compareHessian_charges x h tolerance).bind_quiet fun _ => .pure rfl
  | run solver point stopping =>
      intro state
      obtain ⟨lines, hrecord, hcharged⟩ :=
        solver.run_charges f point stopping (#[], {}, state)
      exact ⟨lines, hrecord, hcharged.map fun _ => rfl⟩

/-- The state after some inquiries, each of them made after the one before it. -/
def stateAfter (f : Objective σ α) : List (Inquiry σ α) → σ → σ
  | [], state => state
  | inquiry :: inquiries, state =>
      stateAfter f inquiries ((inquiry.carryOut f).outcome state).2

/-- The calls of an inquiry, counted from the start. -/
def count (inquiry : Inquiry σ α) (f : Objective σ α) (state : σ) : Tally :=
  ((inquiry.beneath.carryOut f.counted).outcome ({}, state)).2.1

/-- The calls of some inquiries made one after the other, each of them counted
from the start. -/
def counts (f : Objective σ α) : List (Inquiry σ α) → σ → List Tally
  | [], _ => []
  | inquiry :: inquiries, state =>
      inquiry.count f state :: counts f inquiries ((inquiry.carryOut f).outcome state).2

/-- The calls of an inquiry with their answers, in their order. -/
def calls (inquiry : Inquiry σ α) (f : Objective σ α) (state : σ) : Transcript α :=
  ((inquiry.beneath.carryOut f.transcribed).outcome ([], state)).2.1

variable (f : Objective σ α) (inquiry : Inquiry σ α)

theorem transcribed_follows : Eval.Follows Prod.snd (inquiry.beneath.carryOut f.transcribed)
    (inquiry.carryOut f) := by
  have hfollows : Eval.Follows Prod.snd (inquiry.beneath.carryOut f.transcribed)
      ((inquiry.withSolver id).carryOut f) :=
    carryOut_follows (fun solver => solver.beneath_follows_self) f.transcribed_follows inquiry
  rwa [withSolver_id] at hfollows

theorem transcribed_follows_counted (tally : Tally) :
    Eval.Follows (Prod.map (fun lines => tally + Transcript.tally lines) id)
      (inquiry.beneath.carryOut f.transcribed) (inquiry.beneath.carryOut f.counted) :=
  carryOut_follows (fun solver => solver.beneath_follows _)
    (f.transcribed_follows_counted tally) inquiry

/-- What an inquiry about a counted objective leaves behind. -/
theorem outcome_counted (tally : Tally) (state : σ) :
    (inquiry.beneath.carryOut f.counted).outcome (tally, state) =
      (((inquiry.carryOut f).outcome state).1,
        (tally + (inquiry.calls f state).tally, ((inquiry.carryOut f).outcome state).2)) := by
  have hplain := transcribed_follows f inquiry ([], state)
  have hcounted := transcribed_follows_counted f inquiry tally ([], state)
  rw [hplain]
  exact hcounted

theorem count_eq (state : σ) : inquiry.count f state = (inquiry.calls f state).tally := by
  rw [count, outcome_counted]
  exact zero_add _

/-- The lines of a run that are not calls of the objective are left out. -/
theorem exists_lines (state : σ) :
    ∃ lines, inquiry.calls f state = lines.evaluations ∧
      Charged inquiry.charge ((inquiry.carryOut f).outcome state).1 lines := by
  obtain ⟨lines, hlines, hcharged⟩ := carryOut_charges f inquiry ([], state)
  have hview := carryOut_follows (fun solver => solver.transcribed_follows_beneath)
    f.transcribed_follows_evaluations inquiry ([], state)
  refine ⟨lines, ?_, ?_⟩
  · refine (congrArg (fun ended => ended.2.1) hview).trans ?_
    exact congrArg Transcript.evaluations hlines
  · have hplain : ((inquiry.carryOut f).outcome state).1 =
        ((inquiry.beneath.carryOut f.transcribed).outcome ([], state)).1 :=
      congrArg Prod.fst (transcribed_follows f inquiry ([], state))
    have hresult := congrArg Prod.fst hview
    rw [hplain.trans hresult]
    exact hcharged

theorem total_tally_calls (state : σ) :
    (inquiry.calls f state).tally.total = (inquiry.calls f state).length := by
  obtain ⟨lines, hlines, -⟩ := exists_lines f inquiry state
  rw [hlines, Transcript.tally_evaluations, Transcript.total_evaluations]

/-- The calls of an inquiry are those it is charged for, up to one that was refused. -/
theorem calls_charged (state : σ) :
    Charged inquiry.charge ((inquiry.carryOut f).outcome state).1 (inquiry.calls f state) := by
  obtain ⟨lines, hlines, hcharged⟩ := exists_lines f inquiry state
  rw [hlines]
  exact hcharged.evaluations

/-- A report says itself what its run is charged for. -/
theorem evaluations_of_report {state : σ} {report : Report α}
    (h : ((inquiry.carryOut f).outcome state).1 = .ok (.report report)) :
    report.evaluations = inquiry.charge (.report report) := by
  have hwrapped {β : Type} {act : Eval σ α β} {wrap : β → Finding α}
      (hwrap : ∀ value, wrap value ≠ .report report)
      (h : ((act >>= fun value => pure (wrap value)).outcome state).1 = .ok (.report report)) :
      False := by
    rw [outcome_bind] at h
    generalize act.outcome state = ended at h
    rcases ended with ⟨failure | value, after⟩
    · cases h
    · exact hwrap value (Except.ok.inj h)
  cases inquiry with
  | run solver point stopping =>
      change (solver.minimize f point stopping state).result.map Finding.report = _ at h
      cases hresult : (solver.minimize f point stopping state).result with
      | ok other =>
          rw [hresult] at h
          cases h
          exact Solver.evaluations_eq_charge hresult
      | error failure =>
          rw [hresult] at h
          cases h
  | _ => exact (hwrapped nofun h).elim

/-- Tallies of inquiries that are made one after the other add up. -/
theorem stateAfter_counted (inquiries : List (Inquiry σ α)) (tally : Tally) (state : σ) :
    stateAfter f.counted (inquiries.map Inquiry.beneath) (tally, state) =
      (tally + (counts f inquiries state).sum, stateAfter f inquiries state) := by
  induction inquiries generalizing tally state with
  | nil => exact congrArg (·, state) (add_zero tally).symm
  | cons inquiry inquiries ih =>
      rw [List.map_cons, stateAfter, outcome_counted, ih, counts, List.sum_cons, count_eq,
        add_assoc, stateAfter]

/-- A caller who counts the calls of an objective sees it answer as before.  An
inquiry that returns a finding adds its charge to the tally, which a run also
reports.  An inquiry that fails adds the calls it has made, and when one of them
was refused, that one is the last.  What one inquiry adds does not depend on what
has been counted before it. -/
theorem calls_are_accounted (f : Objective σ α) :
    (∀ (inquiry : Inquiry σ α) (tally : Tally) (state : σ),
      let plain := (inquiry.carryOut f).outcome state
      let counted := (inquiry.beneath.carryOut f.counted).outcome (tally, state)
      let calls := inquiry.calls f state
      counted.1 = plain.1 ∧ counted.2.2 = plain.2 ∧
      counted.2.1 = tally + inquiry.count f state ∧
      counted.2.1.total = tally.total + calls.length ∧
      (∀ finding, plain.1 = .ok finding →
        counted.2.1 = tally + inquiry.charge finding ∧
        ∀ report, finding = .report report → report.evaluations = inquiry.charge finding) ∧
      ∀ before call after refusal, calls = before ++ call :: after →
        call.failure? = some refusal →
        plain.1 = .error refusal ∧ after = [] ∧
        counted.2.1.total = tally.total + (before.length + 1)) ∧
    ∀ (inquiries : List (Inquiry σ α)) (tally : Tally) (state : σ),
      stateAfter f.counted (inquiries.map Inquiry.beneath) (tally, state) =
        (tally + (counts f inquiries state).sum, stateAfter f inquiries state) := by
  refine ⟨?_, stateAfter_counted f⟩
  intro inquiry tally state plain counted calls
  have hcounted : counted = (plain.1, (tally + calls.tally, plain.2)) :=
    outcome_counted f inquiry tally state
  have htotal : counted.2.1.total = tally.total + calls.length := by
    rw [hcounted, Tally.total_add, total_tally_calls]
  have hcharged := calls_charged f inquiry state
  refine ⟨by rw [hcounted], by rw [hcounted], by rw [hcounted, count_eq], htotal, ?_, ?_⟩
  · intro finding hfinding
    refine ⟨?_, ?_⟩
    · rw [hcounted, hcharged.tally finding hfinding]
    · rintro report rfl
      exact evaluations_of_report f inquiry hfinding
  · intro before call after refusal hcalls hrefused
    obtain ⟨hlast, hresult⟩ := hcharged.refused before call after refusal hcalls hrefused
    refine ⟨hresult, hlast, ?_⟩
    rw [htotal, hcalls, hlast, List.length_append, List.length_singleton]

end Inquiry

end SecantDescent
