import SecantDescent.Proofs.Run.Inversion

/-!
# How the parts of a run fail

The counterpart of the lemmas about success: where the failure of a part comes
from, which is a callable, a check or the rule.
-/

namespace SecantDescent

open Eval

variable {σ α : Type} [Scalar α] {n : Nat}

theorem SecantPair.between_eq_error {f : Objective σ α} {point next : Array α}
    {state after : σ} {failure : Failure α}
    (h : (between f point next).outcome state = (.error failure, after)) :
    (point.size ≠ next.size ∧ failure = .wrongLength "next_point" point.size next.size) ∨
      (f.gradient point).outcome state = (.error failure, after) ∨
      ∃ gradient middle, (f.gradient point).outcome state = (.ok gradient, middle) ∧
        ((f.gradient next).outcome middle = (.error failure, after) ∨
          ∃ nextGradient, (f.gradient next).outcome middle = (.ok nextGradient, after) ∧
            ((gradient.size ≠ point.size ∧
                failure = .wrongLength "gradient" point.size gradient.size) ∨
              (nextGradient.size ≠ point.size ∧
                failure = .wrongLength "gradient" point.size nextGradient.size))) := by
  unfold between at h
  by_cases hsize : point.size = next.size
  · right
    simp only [ne_eq, hsize, not_true_eq_false, if_false, ite_not, ExceptT.bind_throw] at h ⊢
    rcases outcome_bind_eq_error_iff.mp h with hgradient | ⟨g, middle, hgradient, h⟩
    · exact .inl hgradient
    refine .inr ⟨g, middle, hgradient, ?_⟩
    rcases outcome_bind_eq_error_iff.mp h with hnext | ⟨g', last, hnext, h⟩
    · exact .inl hnext
    right
    by_cases hlength : g.size = next.size
    · by_cases hlength' : g'.size = next.size
      · rw [if_pos hlength, if_pos hlength', Failure.orClash_difference? hsize.symm,
          Failure.orClash_difference? (hlength'.trans hlength.symm)] at h
        simp [outcome_bind, ofSteps, hsize, hlength, hlength'] at h
      · rw [if_pos hlength, if_neg hlength', outcome_throw] at h
        cases h
        exact ⟨g', hnext, .inr ⟨hlength', rfl⟩⟩
    · rw [if_neg hlength, outcome_throw] at h
      cases h
      exact ⟨g', hnext, .inl ⟨hlength, rfl⟩⟩
  · left
    simp [hsize] at h
    exact ⟨hsize, h.1.symm⟩

theorem descentDirection_eq_error {B : DenseMatrix α} {g : Vector α n} {iteration : Nat}
    {failure : Failure α} (h : descentDirection B g iteration = .error failure) :
    (B.toGrid? n n = none ∧ failure = .notSquare "hessian" n B.rows B.cols) ∨
      failure = .singularMatrix iteration := by
  unfold descentDirection at h
  split at h
  next hshape =>
    cases h
    exact .inl ⟨hshape, rfl⟩
  next =>
    right
    split at h
    next =>
      cases h
      rfl
    next =>
      split at h
      next => cases h
      next =>
        cases h
        rfl

/-! ## Arguments -/

theorem StoppingRule.validate_eq_error {stopping : StoppingRule α} {failure : Failure α}
    (h : stopping.validate = .error failure) :
    ∃ argument, failure = .invalidArgument argument := by
  unfold validate at h
  split at h
  · cases h
    exact ⟨_, rfl⟩
  · split at h
    · cases h
      exact ⟨_, rfl⟩
    · split at h
      · cases h
        exact ⟨_, rfl⟩
      · cases h

theorem StepRule.validate_eq_error {step : StepRule α} {failure : Failure α}
    (h : step.validate = .error failure) :
    ∃ argument, failure = .invalidArgument argument := by
  unfold validate at h
  split at h
  · cases h
    exact ⟨_, rfl⟩
  · cases h

namespace Solver

theorem validatePoint_eq_error {point : Array α} {failure : Failure α}
    (h : validatePoint point = .error failure) :
    ∃ argument, failure = .invalidArgument argument := by
  unfold validatePoint at h
  split at h
  · cases h
    exact ⟨_, rfl⟩
  · split at h
    · cases h
      exact ⟨_, rfl⟩
    · cases h

theorem checkArguments_eq_error {solver : Solver σ α} {point : Array α}
    {stopping : StoppingRule α} {failure : Failure α}
    (h : solver.checkArguments point stopping = .error failure) :
    ∃ argument, failure = .invalidArgument argument := by
  rw [checkArguments] at h
  cases hstopping : stopping.validate with
  | error refusal =>
      rw [hstopping] at h
      cases h
      exact StoppingRule.validate_eq_error hstopping
  | ok _ =>
      cases hstep : solver.step.validate with
      | error refusal =>
          rw [hstopping, hstep] at h
          cases h
          exact StepRule.validate_eq_error hstep
      | ok _ =>
          rw [hstopping, hstep] at h
          exact validatePoint_eq_error h

/-! ## Callables -/

omit [Scalar α] in
theorem outcome_of_counted {ρ τ β : Type} {change : τ → τ} {act : Eval σ α β}
    {state after : ρ × τ × σ} {result : Except (Failure α) β}
    (h : (act.after change).beneath.outcome state = (result, after)) :
    act.outcome state.2.2 = (result, after.2.2) := by
  rw [outcome_beneath, outcome_after, Prod.mk.injEq] at h
  obtain ⟨hresult, rfl⟩ := h
  exact Prod.ext hresult rfl

theorem gradientAt_eq_error {f : Objective σ α} {point : Vector α n} {iteration : Nat}
    {state after : Session σ α} {failure : Failure α}
    (h : (gradientAt f point iteration).outcome state = (.error failure, after)) :
    (f.gradient point.toArray).outcome state.2.2 = (.error failure, after.2.2) ∨
      ∃ answer, (f.gradient point.toArray).outcome state.2.2 = (.ok answer, after.2.2) ∧
        ((answer.size ≠ n ∧ failure = .wrongLength "gradient" n answer.size) ∨
          (answer.size = n ∧ Scalar.allFinite answer.toList = false ∧
            failure = .nonFiniteValue "gradient" iteration)) := by
  rcases outcome_bind_eq_error_iff.mp h with h | ⟨answer, middle, hanswer, h⟩
  · exact .inl (outcome_of_counted h)
  · right
    rw [outcome_ofExcept, Prod.mk.injEq] at h
    obtain ⟨hcheck, rfl⟩ := h
    refine ⟨answer, outcome_of_counted hanswer, ?_⟩
    unfold checkGradient at hcheck
    split at hcheck
    next hsize =>
      split at hcheck
      next => cases hcheck
      next hfinite =>
        cases hcheck
        exact .inr ⟨hsize, by simpa using hfinite, rfl⟩
    next hsize =>
      cases hcheck
      exact .inl ⟨hsize, rfl⟩

theorem hessianAt_eq_error {f : Objective σ α} {point : Vector α n} {iteration : Nat}
    {state after : Session σ α} {failure : Failure α}
    (h : (hessianAt f point iteration).outcome state = (.error failure, after)) :
    (f.hessian point.toArray).outcome state.2.2 = (.error failure, after.2.2) ∨
      ∃ answer, (f.hessian point.toArray).outcome state.2.2 = (.ok answer, after.2.2) ∧
        (failure = .notSquare "hessian_provider" n answer.rows answer.cols ∨
          (answer.rows = n ∧ answer.cols = n ∧ answer.allFinite = false ∧
            failure = .nonFiniteValue "hessian" iteration)) := by
  rcases outcome_bind_eq_error_iff.mp h with h | ⟨answer, middle, hanswer, h⟩
  · exact .inl (outcome_of_counted h)
  · right
    rcases outcome_bind_eq_error_iff.mp h with h | ⟨⟨⟩, last, -, h⟩
    · rw [outcome_ofExcept, Prod.mk.injEq] at h
      obtain ⟨hcheck, rfl⟩ := h
      refine ⟨answer, outcome_of_counted hanswer, ?_⟩
      unfold checkHessian at hcheck
      split at hcheck
      next hshape =>
        split at hcheck
        next => cases hcheck
        next hfinite =>
          cases hcheck
          exact .inr ⟨hshape.1, hshape.2, by simpa using hfinite, rfl⟩
      next =>
        cases hcheck
        exact .inl rfl
    · cases h

theorem matrixFor_eq_error {solver : Solver σ α} {f : Objective σ α} {iterate : Iterate α n}
    {state after : Session σ α} {failure : Failure α}
    (h : (solver.matrixFor f iterate).outcome state = (.error failure, after)) :
    solver.rule = none ∧ 0 < iterate.count ∧
      (hessianAt f iterate.point (iterate.count + 1)).outcome state =
        (.error failure, after) := by
  unfold matrixFor at h
  split at h
  next hfresh =>
    simp only [Bool.and_eq_true, Option.isNone_iff_eq_none, decide_eq_true_eq] at hfresh
    exact ⟨hfresh.1, hfresh.2, h⟩
  next => cases h

theorem matrixAfter_eq_error {solver : Solver σ α} {f : Objective σ α} {held : DenseMatrix α}
    {point next : Vector α n} {iteration : Nat} {state after : Session σ α}
    {failure : Failure α}
    (h : (solver.matrixAfter f held point next iteration).outcome state =
      (.error failure, after)) :
    ∃ rule, solver.rule = some rule ∧
      ((SecantPair.between f.counted point.toArray next.toArray).outcome state.2 =
          (.error failure, after.2) ∨
        ∃ pair middle,
          (SecantPair.between f.counted point.toArray next.toArray).outcome state.2 =
            (.ok pair, middle) ∧
          ((rule.refresh held pair).outcome middle.2 = (.error failure, after.2.2) ∨
            ∃ refresh, (rule.refresh held pair).outcome middle.2 = (.ok refresh, after.2.2) ∧
              (refresh.matrix held).allFinite = false ∧
              failure = .nonFiniteValue "hessian" iteration)) := by
  unfold matrixAfter at h
  cases hrule : solver.rule with
  | none =>
      rw [hrule] at h
      cases h
  | some rule =>
      rw [hrule] at h
      refine ⟨rule, rfl, ?_⟩
      rcases outcome_bind_eq_error_iff.mp h with h | ⟨refresh, last, hadvance, h⟩
      · rw [outcome_beneath, Prod.mk.injEq] at h
        obtain ⟨hresult, rfl⟩ := h
        rcases UpdateRule.advance_eq_error_iff.mp (Prod.ext hresult rfl) with
          hpair | ⟨pair, middle, hpair, hrefresh, -⟩
        · exact .inl hpair
        · exact .inr ⟨pair, middle, hpair, .inl hrefresh⟩
      · rw [outcome_beneath, Prod.mk.injEq] at hadvance
        obtain ⟨hresult, rfl⟩ := hadvance
        obtain ⟨pair, middle, hpair, hrefresh, -⟩ :=
          UpdateRule.advance_eq_ok_iff.mp (Prod.ext hresult rfl)
        rw [outcome_adopt, Prod.mk.injEq] at h
        obtain ⟨hadopt, rfl⟩ := h
        split at hadopt
        next => cases hadopt
        next hfinite =>
          cases hadopt
          exact .inr ⟨pair, middle, hpair,
            .inr ⟨refresh, hrefresh, by simpa using hfinite, rfl⟩⟩

theorem advance_eq_error {solver : Solver σ α} {f : Objective σ α} {iterate : Iterate α n}
    {state after : Session σ α} {failure : Failure α}
    (h : (solver.advance f iterate).outcome state = (.error failure, after)) :
    (solver.matrixFor f iterate).outcome state = (.error failure, after) ∨
      ∃ held first, (solver.matrixFor f iterate).outcome state = (.ok held, first) ∧
        (descentDirection held iterate.gradient (iterate.count + 1) = .error failure ∨
          ∃ direction,
            descentDirection held iterate.gradient (iterate.count + 1) = .ok direction ∧
            (failure = .nonFiniteValue "point" (iterate.count + 1) ∨
              (solver.matrixAfter f held iterate.point
                (moved iterate.point direction solver.step.stepLength)
                (iterate.count + 1)).outcome first = (.error failure, after) ∨
              ∃ B second,
                (solver.matrixAfter f held iterate.point
                  (moved iterate.point direction solver.step.stepLength)
                  (iterate.count + 1)).outcome first = (.ok B, second) ∧
                (gradientAt f (moved iterate.point direction solver.step.stepLength)
                  (iterate.count + 1)).outcome second = (.error failure, after))) := by
  unfold advance at h
  rcases outcome_bind_eq_error_iff.mp h with h | ⟨held, first, hheld, h⟩
  · exact .inl h
  refine .inr ⟨held, first, hheld, ?_⟩
  rcases outcome_bind_eq_error_iff.mp h with h | ⟨direction, _, hdirection, h⟩
  · rw [outcome_ofExcept, Prod.mk.injEq] at h
    exact .inl h.1
  rw [outcome_ofExcept, Prod.mk.injEq] at hdirection
  obtain ⟨hdirection, rfl⟩ := hdirection
  refine .inr ⟨direction, hdirection, ?_⟩
  simp only [ExceptT.bind_throw] at h
  split at h
  · cases h
    exact .inl rfl
  rcases outcome_bind_eq_error_iff.mp h with h | ⟨B, second, hB, h⟩
  · exact .inr (.inl h)
  rcases outcome_bind_eq_error_iff.mp h with h | ⟨_, _, _, h⟩
  · exact .inr (.inr ⟨B, second, hB, h⟩)
  · cases h

omit [Scalar α] in
theorem costAt_eq_error {f : Objective σ α} {point : Vector α n} {state after : Session σ α}
    {failure : Failure α} (h : (costAt f point).outcome state = (.error failure, after)) :
    (f.cost point.toArray).outcome state.2.2 = (.error failure, after.2.2) :=
  outcome_of_counted h

theorem enter_eq_error {solver : Solver σ α} {f : Objective σ α} {point : Array α}
    {stopping : StoppingRule α} {state after : Session σ α} {failure : Failure α}
    (h : (solver.enter f point stopping).outcome state = (.error failure, after)) :
    solver.checkArguments point stopping = .error failure ∨
      ∃ opened, (gradientAt f point.toVector 0).outcome opened = (.error failure, after) ∨
        (hessianAt f point.toVector 0).outcome opened = (.error failure, after) := by
  rw [outcome_enter] at h
  cases hchecked : solver.checkArguments point stopping with
  | error refusal =>
      rw [hchecked] at h
      cases h
      exact .inl rfl
  | ok _ =>
      rw [hchecked] at h
      right
      rcases outcome_bind_eq_error_iff.mp h with hgradient | ⟨gradient, middle, -, h⟩
      · exact ⟨_, .inl hgradient⟩
      · rcases outcome_bind_eq_error_iff.mp h with hhessian | ⟨_, _, -, h⟩
        · exact ⟨middle, .inr hhessian⟩
        · cases h

end Solver

end SecantDescent
