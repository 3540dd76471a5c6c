import SecantDescent.Proofs.Run.Schedule
import SecantDescent.Proofs.Run.Triple
import SecantDescent.Proofs.Run.WellShaped

/-!
# Checked answers

A run checks the shapes of what it is answered, and whether all of it is finite.
The two gradients that it takes for a secant pair are an exception: only their
shapes are checked, the rest is left to the rule.  A checked answer of the right
shape that is not finite is the last one of a run, and the failure tells of it.
-/

namespace SecantDescent

open Eval

variable {σ α : Type} [Scalar α] {n : Nat}

/-- How a run fails with an answer of the wrong shape. -/
def Exchange.misfit? (n : Nat) : Exchange α → Option (Failure α)
  | .gradient _ (.ok answer) =>
      if answer.size = n then none else some (.wrongLength "gradient" n answer.size)
  | .hessian _ (.ok B) =>
      if B.rows = n ∧ B.cols = n then none
      else some (.notSquare "hessian_provider" n B.rows B.cols)
  | .refresh _ _ _ (.ok (.updated B)) =>
      if B.rows = n ∧ B.cols = n then none else some (.notSquare "hessian" n B.rows B.cols)
  | _ => none

/-- The call was answered with data of the right shape that are not all finite.
The quantity is what a run calls them. -/
inductive Exchange.NonFinite (n : Nat) (quantity : String) : Exchange α → Prop
  | gradient {x answer} (named : quantity = "gradient") (shaped : answer.size = n)
      (notFinite : Scalar.allFinite answer.toList = false) :
      NonFinite n quantity (.gradient x (.ok answer))
  | hessian {x answer} (named : quantity = "hessian")
      (shaped : answer.rows = n ∧ answer.cols = n) (notFinite : answer.allFinite = false) :
      NonFinite n quantity (.hessian x (.ok answer))

instance (n : Nat) (quantity : String) : (line : Exchange α) →
    Decidable (line.NonFinite n quantity)
  | .gradient _ (.ok answer) =>
      decidable_of_iff (quantity = "gradient" ∧ answer.size = n ∧
          Scalar.allFinite answer.toList = false)
        ⟨fun ⟨named, shaped, notFinite⟩ => .gradient named shaped notFinite,
          fun | .gradient named shaped notFinite => ⟨named, shaped, notFinite⟩⟩
  | .hessian _ (.ok answer) =>
      decidable_of_iff (quantity = "hessian" ∧ (answer.rows = n ∧ answer.cols = n) ∧
          answer.allFinite = false)
        ⟨fun ⟨named, shaped, notFinite⟩ => .hessian named shaped notFinite,
          fun | .hessian named shaped notFinite => ⟨named, shaped, notFinite⟩⟩
  | .gradient _ (.error _) | .hessian _ (.error _) | .cost .. | .refresh .. => .isFalse nofun

omit [Scalar α] in
theorem Exchange.misfit?_gradient {x g : Array α} (h : g.size = n) :
    (Exchange.gradient x (.ok g)).misfit? n = none :=
  if_pos h

omit [Scalar α] in
theorem Exchange.misfit?_hessian {x : Array α} {B : DenseMatrix α}
    (h : B.rows = n ∧ B.cols = n) : (Exchange.hessian x (.ok B)).misfit? n = none :=
  if_pos h

theorem Exchange.not_nonFinite_gradient {x : Array α} {g : Vector α n} {m : Nat}
    {quantity : String} (hfinite : Scalar.allFinite g.toList = true) :
    ¬ (Exchange.gradient x (.ok g.toArray)).NonFinite m quantity := by
  intro hnotFinite
  cases hnotFinite with
  | gradient named shaped notFinite => exact absurd hfinite (Bool.eq_false_iff.mp notFinite)

theorem Exchange.not_nonFinite_hessian {x : Array α} {B : DenseMatrix α} {m : Nat}
    {quantity : String} (hfinite : B.allFinite = true) :
    ¬ (Exchange.hessian x (.ok B)).NonFinite m quantity := by
  intro hnotFinite
  cases hnotFinite with
  | hessian named shaped notFinite => exact absurd hfinite (Bool.eq_false_iff.mp notFinite)

/-- If the answer to the call is not finite, the failure tells of it. -/
def Exchange.Explains (n : Nat) (line : Exchange α) (failure : Failure α) (k : Nat) : Prop :=
  ∀ quantity, line.NonFinite n quantity → failure = .nonFiniteValue quantity k

/-- Why an iteration gives up at a call: the callable has refused it, or the answer
has the wrong shape, or it is not finite. -/
inductive Exchange.Stops (n : Nat) (line : Exchange α) (failure : Failure α) (k : Nat) : Prop
  | refused (refused : line.failure? = some failure)
  | misfit (wrong : line.misfit? n = some failure)
  | nonFinite {quantity} (notFinite : line.NonFinite n quantity)
      (reported : failure = .nonFiniteValue quantity k)

namespace Exchange

variable {line : Exchange α} {failure : Failure α} {quantity quantity' : String}

theorem NonFinite.failure?_eq_none (h : line.NonFinite n quantity) : line.failure? = none := by
  cases h <;> rfl

theorem NonFinite.misfit?_eq_none (h : line.NonFinite n quantity) : line.misfit? n = none := by
  cases h with
  | gradient named shaped notFinite => exact misfit?_gradient shaped
  | hessian named shaped notFinite => exact misfit?_hessian shaped

theorem NonFinite.unique (h : line.NonFinite n quantity) (h' : line.NonFinite n quantity') :
    quantity = quantity' := by
  cases h with
  | gradient named shaped notFinite =>
      cases h' with
      | gradient named' shaped' notFinite' => exact named.trans named'.symm
  | hessian named shaped notFinite =>
      cases h' with
      | hessian named' shaped' notFinite' => exact named.trans named'.symm

theorem Stops.explains {k : Nat} (h : line.Stops n failure k) : line.Explains n failure k := by
  intro quantity hnotFinite
  cases h with
  | refused refused =>
      rw [hnotFinite.failure?_eq_none] at refused
      cases refused
  | misfit wrong =>
      rw [hnotFinite.misfit?_eq_none] at wrong
      cases wrong
  | nonFinite notFinite reported => rw [reported, notFinite.unique hnotFinite]

end Exchange

/-- What the gradient can be answered with at a point. -/
def Objective.Replies (f : Objective σ α) (x : Array α)
    (answer : Except (Failure α) (Array α)) : Prop :=
  ∃ state, ((f.gradient x).outcome state).1 = answer

/-! ## The calls of a run -/

omit [Scalar α] in
theorem Objective.replies_of_transcribed {f : Objective σ α} {x : Array α}
    {state after : Transcript α × σ} {answer : Except (Failure α) (Array α)}
    (h : (f.transcribed.gradient x).outcome state = (answer, after)) :
    f.Replies x answer ∧ after.1 = state.1 ++ [.gradient x answer] := by
  cases h
  exact ⟨⟨state.2, rfl⟩, rfl⟩

omit [Scalar α] in
theorem Objective.replies_of_counted {f : Objective σ α} {x : Array α}
    {state after : Tally × Transcript α × σ} {answer : Except (Failure α) (Array α)}
    (h : (f.transcribed.counted.gradient x).outcome state = (answer, after)) :
    f.Replies x answer ∧ underTally after = underTally state ++ [.gradient x answer] := by
  rw [counted, outcome_after, Prod.mk.injEq] at h
  obtain ⟨hanswer, rfl⟩ := h
  exact replies_of_transcribed (Prod.ext hanswer rfl)

namespace Solver

/-- What the run with a transcript meets holds of what is watched. -/
theorem watched_meets {solver : Solver σ α} {f : Objective σ α} {point : Array α}
    {stopping : StoppingRule α} {pre : Transcript α → Prop}
    {post : Report α → Transcript α → Prop} {broken : Failure α → Transcript α → Prop}
    (h : Meets transcript pre (solver.transcribed.run f.transcribed point stopping)
      post broken)
    (hnil : pre []) (state : σ) :
    Ends post broken (solver.watched f point stopping state).result
      (solver.watched f point stopping state).state.1 :=
  h (#[], {}, ([], state)) hnil

theorem gradientAt_meets (f : Objective σ α) (x : Vector α n) (k : Nat)
    (before : Transcript α → Prop) :
    Meets transcript before (gradientAt f.transcribed x k)
      (fun g lines =>
        (Scalar.allFinite g.toList = true ∧ f.Replies x.toArray (.ok g.toArray)) ∧
        After before (.gradient x.toArray (.ok g.toArray)) lines)
      (fun failure lines => ∃ answer, f.Replies x.toArray answer ∧
        After before (.gradient x.toArray answer) lines ∧
        (Exchange.gradient x.toArray answer).Stops n failure k) := by
  apply Meets.intro
  · intro session g after hbefore h
    obtain ⟨hfinite, below, hanswer, rfl⟩ := gradientAt_eq_ok_iff.mp h
    obtain ⟨hreplies, hlines⟩ := Objective.replies_of_transcribed hanswer
    exact ⟨⟨hfinite, hreplies⟩, _, hbefore, hlines⟩
  · intro session failure after hbefore h
    rcases gradientAt_eq_error h with hanswer | ⟨answer, hanswer, hcheck⟩
    · obtain ⟨hreplies, hlines⟩ := Objective.replies_of_transcribed hanswer
      exact ⟨_, hreplies, ⟨_, hbefore, hlines⟩, .refused rfl⟩
    · obtain ⟨hreplies, hlines⟩ := Objective.replies_of_transcribed hanswer
      refine ⟨_, hreplies, ⟨_, hbefore, hlines⟩, ?_⟩
      rcases hcheck with ⟨hsize, rfl⟩ | ⟨hsize, hnotFinite, rfl⟩
      · exact .misfit (if_neg hsize)
      · exact .nonFinite (.gradient rfl hsize hnotFinite) rfl

theorem hessianAt_meets (f : Objective σ α) (x : Vector α n) (k : Nat)
    (before : Transcript α → Prop) :
    Meets transcript before (hessianAt f.transcribed x k)
      (fun B lines => B.FiniteSquare n ∧ After before (.hessian x.toArray (.ok B)) lines)
      (fun failure lines => ∃ answer, After before (.hessian x.toArray answer) lines ∧
        (Exchange.hessian x.toArray answer).Stops n failure k) := by
  apply (((f.hessian_puts x.toArray).beneath.meets before).mono (fun _ _ h => h)
    fun failure lines hlines => ⟨_, hlines, .refused rfl⟩).bind
  intro B
  refine Meets.bind (Meets.ofExcept ?_ ?_) fun _ => .pure fun _ h => h
  · intro _ lines hpassed hlines
    exact ⟨checkHessian_eq_ok_iff.mp hpassed, hlines⟩
  · intro failure lines hfailed hlines
    refine ⟨_, hlines, ?_⟩
    unfold checkHessian at hfailed
    split at hfailed
    next hshape =>
      split at hfailed
      next => cases hfailed
      next hnotFinite =>
        cases hfailed
        exact .nonFinite (.hessian rfl hshape (Bool.eq_false_iff.mpr hnotFinite)) rfl
    next hshape =>
      cases hfailed
      exact .misfit (if_neg hshape)

/-- The two gradients of a secant pair are not looked at for more than their
sizes. -/
theorem between_meets (f : Objective σ α) (x x' : Vector α n) (before : Transcript α → Prop) :
    Meets Objective.underTally before
      (SecantPair.between f.transcribed.counted x.toArray x'.toArray)
      (fun pair lines => (pair.s.size = n ∧ pair.y.size = n) ∧
        ∃ g g', (f.Replies x.toArray (.ok g) ∧ f.Replies x'.toArray (.ok g') ∧
            g.size = n ∧ g'.size = n ∧ pair.y = g'.zipWith (· - ·) g) ∧
          After (After before (.gradient x.toArray (.ok g)))
          (.gradient x'.toArray (.ok g')) lines)
      (fun failure lines =>
        After before (.gradient x.toArray (.error failure)) lines ∨
        ∃ g answer, f.Replies x.toArray (.ok g) ∧
          ((Exchange.gradient x.toArray (.ok g)).misfit? n = some failure ∨
            (Exchange.gradient x'.toArray answer).failure? = some failure ∨
            (Exchange.gradient x'.toArray answer).misfit? n = some failure) ∧
          After (After before (.gradient x.toArray (.ok g))) (.gradient x'.toArray answer)
            lines) := by
  apply Meets.intro
  · intro state pair after hbefore h
    refine ⟨between_sizes h, ?_⟩
    obtain ⟨-, g, middle, g', hg, hg', hsize, hsize', hpair⟩ :=
      SecantPair.between_eq_ok_iff.mp h
    obtain ⟨hreplies, hlines⟩ := Objective.replies_of_counted hg
    obtain ⟨hreplies', hlines'⟩ := Objective.replies_of_counted hg'
    rw [x.size_toArray] at hsize hsize'
    exact ⟨g, g', ⟨hreplies, hreplies', hsize, hsize', congrArg SecantPair.y hpair⟩, _,
      ⟨_, hbefore, hlines⟩, hlines'⟩
  · intro state failure after hbefore h
    rcases SecantPair.between_eq_error h with ⟨hsizes, -⟩ | hg | ⟨g, middle, hg, hrest⟩
    · exact absurd (x.size_toArray.trans x'.size_toArray.symm) hsizes
    · exact .inl ⟨_, hbefore, (Objective.replies_of_counted hg).2⟩
    obtain ⟨hreplies, hlines⟩ := Objective.replies_of_counted hg
    rw [x.size_toArray] at hrest
    rcases hrest with hg' | ⟨g', hg', ⟨hsize, rfl⟩ | ⟨hsize, rfl⟩⟩
    · exact .inr ⟨g, .error failure, hreplies, .inr (.inl rfl), _, ⟨_, hbefore, hlines⟩,
        (Objective.replies_of_counted hg').2⟩
    · exact .inr ⟨g, .ok g', hreplies, .inl (if_neg hsize), _, ⟨_, hbefore, hlines⟩,
        (Objective.replies_of_counted hg').2⟩
    · exact .inr ⟨g, .ok g', hreplies, .inr (.inr (if_neg hsize)), _, ⟨_, hbefore, hlines⟩,
        (Objective.replies_of_counted hg').2⟩

/-! ## Checked answers -/

/-- The calls whose answers a run checks itself: all Hessians, and all gradients
but the two of a secant pair.  With a rule these are the first gradient and the
ones that follow a refreshment. -/
def Checks (solver : Solver σ α) (before : Transcript α) : Exchange α → Prop
  | .gradient .. => solver.rule = none ∨ before = [] ∨
      ∃ earlier held s y answer, before = earlier ++ [.refresh held s y answer]
  | .hessian .. => True
  | _ => False

/-- No checked answer was one of the right shape that is not finite. -/
def CheckedFinite (solver : Solver σ α) (n : Nat) (lines : Transcript α) : Prop :=
  ∀ before line after quantity, lines = before ++ line :: after → solver.Checks before line →
    ¬ line.NonFinite n quantity

/-- With a rule, a gradient that is asked for now is one of a secant pair. -/
structure BeforePair (solver : Solver σ α) (n : Nat) (lines : Transcript α) : Prop where
  finite : solver.CheckedFinite n lines
  paired : solver.rule ≠ none → ∀ x answer, ¬ solver.Checks lines (.gradient x answer)

/-- A checked answer that is not finite is the last one, and the failure tells
of it. -/
def EndsAtNonFinite (solver : Solver σ α) (n : Nat) (failure : Failure α)
    (lines : Transcript α) : Prop :=
  ∀ before line after quantity, lines = before ++ line :: after → solver.Checks before line →
    line.NonFinite n quantity → after = [] ∧ ∃ k, failure = .nonFiniteValue quantity k

omit [Scalar α] in
theorem append_singleton_cases {lines before after : Transcript α} {last line : Exchange α}
    (h : lines ++ [last] = before ++ line :: after) :
    (after = [] ∧ before = lines ∧ line = last) ∨
      ∃ rest, lines = before ++ line :: rest := by
  rcases List.eq_nil_or_concat after with rfl | ⟨rest, final, rfl⟩
  · obtain ⟨hlines, hlast⟩ := List.append_inj' h rfl
    exact .inl ⟨rfl, hlines.symm, (List.cons.inj hlast).1.symm⟩
  · have hsplit : lines ++ [last] = (before ++ line :: rest) ++ [final] := by
      rw [h, List.concat_eq_append, List.append_assoc, List.cons_append]
    exact .inr ⟨rest, (List.append_inj' hsplit rfl).1⟩

variable {solver : Solver σ α} {lines : Transcript α} {line : Exchange α} {failure : Failure α}

variable (solver) in
theorem checkedFinite_nil (n : Nat) : solver.CheckedFinite n [] := by
  intro before line after _ hlines
  simp at hlines

theorem CheckedFinite.append (h : solver.CheckedFinite n lines)
    (hline : solver.Checks lines line → ∀ quantity, ¬ line.NonFinite n quantity) :
    solver.CheckedFinite n (lines ++ [line]) := by
  intro before line' after quantity hsplit hchecks
  rcases append_singleton_cases hsplit with ⟨-, rfl, rfl⟩ | ⟨rest, hrest⟩
  · exact hline hchecks quantity
  · exact h _ _ _ _ hrest hchecks

theorem CheckedFinite.beforePair (h : solver.CheckedFinite n (lines ++ [line]))
    (hline : ∀ held s y answer, line ≠ .refresh held s y answer) :
    solver.BeforePair n (lines ++ [line]) where
  finite := h
  paired := by
    rintro hruled x answer (hunruled | hnil | ⟨earlier, held, s, y, refreshed, hlast⟩)
    · exact hruled hunruled
    · simp at hnil
    · exact hline held s y refreshed (List.cons.inj (List.append_inj' hlast rfl).2).1

theorem CheckedFinite.endsAtNonFinite (h : solver.CheckedFinite n lines) :
    solver.EndsAtNonFinite n failure lines :=
  fun _ _ _ _ hsplit hchecks hnotFinite => absurd hnotFinite (h _ _ _ _ hsplit hchecks)

theorem CheckedFinite.endsAtNonFinite_append (h : solver.CheckedFinite n lines) {k : Nat}
    (hline : line.Explains n failure k) :
    solver.EndsAtNonFinite n failure (lines ++ [line]) := by
  intro before line' after quantity hsplit hchecks hnotFinite
  rcases append_singleton_cases hsplit with ⟨rfl, rfl, rfl⟩ | ⟨rest, hrest⟩
  · exact ⟨rfl, k, hline quantity hnotFinite⟩
  · exact absurd hnotFinite (h _ _ _ _ hrest hchecks)

/-- A call that is never checked changes nothing about the checked ones. -/
theorem checkedFinite_of_after (hline : ∀ earlier, ¬ solver.Checks earlier line)
    (h : After (solver.BeforePair n) line lines) : solver.CheckedFinite n lines := by
  obtain ⟨earlier, hbefore, rfl⟩ := h
  exact hbefore.finite.append fun hchecks => absurd hchecks (hline earlier)

theorem BeforePair.gradient (h : solver.BeforePair n lines) (hruled : solver.rule ≠ none)
    (x : Array α) (answer : Except (Failure α) (Array α)) :
    solver.BeforePair n (lines ++ [.gradient x answer]) := by
  apply CheckedFinite.beforePair
  · exact h.finite.append fun hchecks => absurd hchecks (h.paired hruled x answer)
  · nofun

theorem gradientAt_beforePair (f : Objective σ α) (x : Vector α n) (k : Nat) :
    Meets transcript (solver.CheckedFinite n) (gradientAt f.transcribed x k)
      (fun _ => solver.BeforePair n) (solver.EndsAtNonFinite n) := by
  apply (gradientAt_meets f x k (solver.CheckedFinite n)).mono
  · rintro g _ ⟨⟨hfinite, -⟩, lines, hearlier, rfl⟩
    apply CheckedFinite.beforePair
    · exact hearlier.append fun _ _ => Exchange.not_nonFinite_gradient hfinite
    · nofun
  · rintro failure _ ⟨answer, -, ⟨lines, hearlier, rfl⟩, hstops⟩
    exact hearlier.endsAtNonFinite_append hstops.explains

theorem hessianAt_beforePair (f : Objective σ α) (x : Vector α n) (k : Nat) :
    Meets transcript (solver.CheckedFinite n) (hessianAt f.transcribed x k)
      (fun _ => solver.BeforePair n) (solver.EndsAtNonFinite n) := by
  apply (hessianAt_meets f x k (solver.CheckedFinite n)).mono
  · rintro B _ ⟨hsquare, lines, hearlier, rfl⟩
    apply CheckedFinite.beforePair
    · exact hearlier.append fun _ _ => Exchange.not_nonFinite_hessian hsquare.finite
    · nofun
  · rintro failure _ ⟨answer, ⟨lines, hearlier, rfl⟩, hstops⟩
    exact hearlier.endsAtNonFinite_append hstops.explains

theorem matrixFor_beforePair (f : Objective σ α) (iterate : Iterate α n) :
    Meets transcript (solver.BeforePair n) (solver.transcribed.matrixFor f.transcribed iterate)
      (fun _ => solver.BeforePair n) (solver.EndsAtNonFinite n) := by
  apply Meets.ite
  · intro _
    exact (hessianAt_beforePair f _ _).mono_pre fun _ h => h.finite
  · intro _
    exact .pure fun _ h => h

theorem between_beforePair (f : Objective σ α) (hruled : solver.rule ≠ none)
    (x x' : Vector α n) :
    Meets Objective.underTally (solver.BeforePair n)
      (SecantPair.between f.transcribed.counted x.toArray x'.toArray)
      (fun _ => solver.BeforePair n) (solver.EndsAtNonFinite n) := by
  apply (between_meets f x x' (solver.BeforePair n)).mono
  · rintro pair _ ⟨-, g, g', -, _, ⟨lines, hbefore, rfl⟩, rfl⟩
    exact (hbefore.gradient hruled _ _).gradient hruled _ _
  · rintro failure _ (⟨lines, hbefore, rfl⟩ | ⟨g, answer, -, -, _, ⟨lines, hbefore, rfl⟩, rfl⟩)
    · exact (hbefore.gradient hruled _ _).finite.endsAtNonFinite
    · exact ((hbefore.gradient hruled _ _).gradient hruled _ _).finite.endsAtNonFinite

theorem adopt_meets {pre : Transcript α → Prop} {broken : Failure α → Transcript α → Prop}
    (method : String) (held : DenseMatrix α) (k : Nat) (refresh : Refresh α)
    (hbroken : ∀ lines, pre lines → broken (.nonFiniteValue "hessian" k) lines) :
    Meets (transcript : Session (Transcript α × σ) α → Transcript α) pre
      (adopt method held k refresh)
      (fun B lines => (B = refresh.matrix held ∧ B.allFinite = true) ∧ pre lines) broken := by
  intro session hpre
  rw [outcome_adopt]
  by_cases hfinite : (refresh.matrix held).allFinite = true
  · rw [if_pos hfinite]
    exact ⟨⟨rfl, hfinite⟩, hpre⟩
  · rw [if_neg hfinite]
    exact hbroken _ hpre

theorem matrixAfter_checkedFinite (f : Objective σ α) (held : DenseMatrix α)
    (x x' : Vector α n) (k : Nat) :
    Meets transcript (solver.BeforePair n)
      (solver.transcribed.matrixAfter f.transcribed held x x' k)
      (fun _ => solver.CheckedFinite n) (solver.EndsAtNonFinite n) := by
  obtain ⟨step, rule⟩ := solver
  cases rule with
  | none => exact .pure fun _ h => h.finite
  | some rule =>
      have hrefresh (pair : SecantPair α) :
          Meets Objective.underTally (BeforePair ⟨step, some rule⟩ n)
            (rule.transcribed.beneath.refresh held pair)
            (fun _ => CheckedFinite ⟨step, some rule⟩ n)
            (EndsAtNonFinite ⟨step, some rule⟩ n) := by
        apply ((rule.refresh_puts held pair).meets (BeforePair ⟨step, some rule⟩ n)).mono
        · exact fun refresh lines => checkedFinite_of_after fun _ => id
        · exact fun failure lines h => (checkedFinite_of_after (fun _ => id) h).endsAtNonFinite
      have hadvance := (between_beforePair f (Option.some_ne_none rule) x x').bind hrefresh
      apply hadvance.beneath.bind
      intro refresh
      refine (adopt_meets rule.name held k refresh ?_).mono (fun _ _ h => h.2) fun _ _ h => h
      exact fun _ hearlier => hearlier.endsAtNonFinite

theorem advance_beforePair (f : Objective σ α) (iterate : Iterate α n) :
    Meets transcript (solver.BeforePair n) (solver.transcribed.advance f.transcribed iterate)
      (fun _ => solver.BeforePair n) (solver.EndsAtNonFinite n) := by
  change Meets (belowLog Objective.underTally) _ _ _ _
  apply advance_meets (matrixFor_beforePair f iterate)
  · exact fun held => .checked _ fun _ _ h => h.finite.endsAtNonFinite
  · exact fun _ _ h => h.finite.endsAtNonFinite
  · exact fun held x => matrixAfter_checkedFinite f held _ x _
  · exact fun x _ => gradientAt_beforePair f x _

theorem run_endsAtNonFinite (solver : Solver σ α) (f : Objective σ α) (point : Array α)
    (stopping : StoppingRule α) :
    Meets transcript (solver.CheckedFinite point.size)
      (solver.transcribed.run f.transcribed point stopping)
      (fun _ => solver.CheckedFinite point.size) (solver.EndsAtNonFinite point.size) := by
  have hcost (iterate : Iterate α point.size) : Meets transcript (solver.BeforePair point.size)
      (costAt f.transcribed iterate.point) (fun _ => solver.CheckedFinite point.size)
      (solver.EndsAtNonFinite point.size) := by
    apply ((f.cost_puts iterate.point.toArray).beneath.meets (solver.BeforePair _)).mono
    · exact fun value lines => checkedFinite_of_after fun _ => id
    · exact fun failure lines h => (checkedFinite_of_after (fun _ => id) h).endsAtNonFinite
  change Meets (belowLog Objective.underTally) _ _ _ _
  refine run_meets (fun _ _ h => h.endsAtNonFinite) ?_
    (fun iterate => advance_beforePair f iterate) hcost
  apply (gradientAt_beforePair f _ _).bind
  intro gradient
  apply ((hessianAt_beforePair f _ _).mono_pre fun _ h => h.finite).bind
  intro hessian
  exact .pure fun _ h => h

end Solver

end SecantDescent
