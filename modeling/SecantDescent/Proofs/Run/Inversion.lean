import SecantDescent.Run.Solver

/-!
# Opening the parts of a run

A computation made of two parts returns a value exactly when both parts do,
and fails exactly when one of them fails.  From these two facts every part of
a run gets one lemma that lists all it can do when it succeeds, the calls, the
checks and the state left behind included.
-/

namespace SecantDescent

variable {σ τ α β γ : Type}

namespace Eval

theorem outcome_bind_eq_ok_iff {act : Eval σ α β} {next : β → Eval σ α γ}
    {state after : σ} {result : γ} :
    (act >>= next).outcome state = (.ok result, after) ↔
      ∃ value middle, act.outcome state = (.ok value, middle) ∧
        (next value).outcome middle = (.ok result, after) := by
  rw [outcome_bind]
  rcases hact : act.outcome state with ⟨_ | value, middle⟩
  · simp
  · simp only [Prod.mk.injEq, Except.ok.injEq]
    constructor
    · intro h
      exact ⟨value, middle, ⟨rfl, rfl⟩, h⟩
    · rintro ⟨_, _, ⟨rfl, rfl⟩, h⟩
      exact h

theorem outcome_bind_eq_error_iff {act : Eval σ α β} {next : β → Eval σ α γ}
    {state after : σ} {failure : Failure α} :
    (act >>= next).outcome state = (.error failure, after) ↔
      act.outcome state = (.error failure, after) ∨
        ∃ value middle, act.outcome state = (.ok value, middle) ∧
          (next value).outcome middle = (.error failure, after) := by
  rw [outcome_bind]
  rcases hact : act.outcome state with ⟨_ | value, middle⟩
  · simp
  · simp only [Prod.mk.injEq, Except.ok.injEq, reduceCtorEq, false_and, false_or]
    constructor
    · intro h
      exact ⟨value, middle, ⟨rfl, rfl⟩, h⟩
    · rintro ⟨_, _, ⟨rfl, rfl⟩, h⟩
      exact h

@[simp] theorem outcome_map (change : β → γ) (act : Eval σ α β) (state : σ) :
    (change <$> act).outcome state =
      ((act.outcome state).1.map change, (act.outcome state).2) := by
  rw [← bind_pure_comp, outcome_bind]
  rcases act.outcome state with ⟨_ | value, after⟩ <;> rfl

@[simp] theorem outcome_ofExcept (result : Except (Failure α) β) (state : σ) :
    (ofExcept result : Eval σ α β).outcome state = (result, state) := rfl

@[simp] theorem outcome_modifyTop (change : τ → τ) (state : τ × σ) :
    (modifyTop change : Eval (τ × σ) α Unit).outcome state =
      (.ok (), (change state.1, state.2)) := rfl

@[simp] theorem outcome_readTop (state : τ × σ) :
    (readTop : Eval (τ × σ) α τ).outcome state = (.ok state.1, state) := rfl

@[simp] theorem outcome_beneath (act : Eval σ α β) (state : τ × σ) :
    (act.beneath : Eval (τ × σ) α β).outcome state =
      ((act.outcome state.2).1, (state.1, (act.outcome state.2).2)) := rfl

theorem beneath_bind (act : Eval σ α β) (next : β → Eval σ α γ) :
    ((act >>= next).beneath : Eval (τ × σ) α γ) =
      act.beneath >>= fun value => (next value).beneath := by
  funext state
  change ((act >>= next).beneath).outcome state =
    (act.beneath >>= fun value => (next value).beneath).outcome state
  rw [outcome_beneath, outcome_bind, outcome_bind, outcome_beneath]
  rcases act.outcome state.2 with ⟨_ | value, after⟩ <;> rfl

@[simp] theorem outcome_after (change : τ → τ) (act : Eval σ α β) (state : τ × σ) :
    (act.after change).outcome state =
      ((act.outcome state.2).1, (change state.1, (act.outcome state.2).2)) := by
  simp [after, outcome_bind]

@[simp] theorem outcome_ite_throw_eq_ok_iff {condition : Prop} [Decidable condition]
    {act : Eval σ α β} {failure : Failure α} {state after : σ} {value : β} :
    (if condition then act else throw failure).outcome state = (.ok value, after) ↔
      condition ∧ act.outcome state = (.ok value, after) := by
  by_cases h : condition <;> simp [h]

@[simp] theorem outcome_throw_ite_eq_ok_iff {condition : Prop} [Decidable condition]
    {act : Eval σ α β} {failure : Failure α} {state after : σ} {value : β} :
    (if condition then throw failure else act).outcome state = (.ok value, after) ↔
      ¬condition ∧ act.outcome state = (.ok value, after) := by
  by_cases h : condition <;> simp [h]

end Eval

variable [Scalar α] {n : Nat}

theorem Failure.orClash_difference? {xs ys : Array α} (h : xs.size = ys.size) :
    (orClash (Dense.difference? xs ys) : Except (Failure α) (Array α)) =
      .ok (xs.zipWith (· - ·) ys) := by
  simp [Dense.difference?, h, orClash]

/-! ## Secant pairs -/

open Eval

theorem SecantPair.between_eq_ok_iff {f : Objective σ α} {point next : Array α}
    {state after : σ} {pair : SecantPair α} :
    (between f point next).outcome state = (.ok pair, after) ↔
      point.size = next.size ∧ ∃ gradient middle nextGradient,
        (f.gradient point).outcome state = (.ok gradient, middle) ∧
        (f.gradient next).outcome middle = (.ok nextGradient, after) ∧
        gradient.size = point.size ∧ nextGradient.size = point.size ∧
        pair = ⟨next.zipWith (· - ·) point, nextGradient.zipWith (· - ·) gradient⟩ := by
  unfold between
  by_cases hsize : point.size = next.size
  · simp only [ne_eq, hsize, not_true_eq_false, if_false, ite_not, ExceptT.bind_throw,
      true_and]
    have hrest {g g' : Array α} (hg : g.size = next.size) (hg' : g'.size = next.size)
        (last : σ) :
        (do
          let s ← .ofExcept (Failure.orClash (Dense.difference? next point))
          let y ← .ofExcept (Failure.orClash (Dense.difference? g' g))
          .ofExcept (ofSteps s y) : Eval σ α (SecantPair α)).outcome last =
        (.ok ⟨next.zipWith (· - ·) point, g'.zipWith (· - ·) g⟩, last) := by
      rw [Failure.orClash_difference? hsize.symm,
        Failure.orClash_difference? (hg'.trans hg.symm)]
      simp [outcome_bind, ofSteps, hsize, hg, hg']
    constructor
    · intro h
      obtain ⟨g, middle, hg, h⟩ := outcome_bind_eq_ok_iff.mp h
      obtain ⟨g', last, hg', h⟩ := outcome_bind_eq_ok_iff.mp h
      rw [outcome_ite_throw_eq_ok_iff, outcome_ite_throw_eq_ok_iff] at h
      obtain ⟨hlength, hlength', h⟩ := h
      rw [hrest hlength hlength'] at h
      cases h
      exact ⟨g, middle, g', hg, hg', hlength, hlength', rfl⟩
    · rintro ⟨g, middle, g', hg, hg', hlength, hlength', rfl⟩
      refine outcome_bind_eq_ok_iff.mpr ⟨g, middle, hg, ?_⟩
      refine outcome_bind_eq_ok_iff.mpr ⟨g', after, hg', ?_⟩
      rw [outcome_ite_throw_eq_ok_iff, outcome_ite_throw_eq_ok_iff]
      exact ⟨hlength, hlength', hrest hlength hlength' after⟩
  · simp [hsize]

theorem UpdateRule.advance_eq_ok_iff {rule : UpdateRule σ α} {f : Objective (τ × σ) α}
    {held : DenseMatrix α} {point next : Array α} {state after : τ × σ} {refresh : Refresh α} :
    (rule.beneath.advance f held point next).outcome state = (.ok refresh, after) ↔
      ∃ pair middle, (SecantPair.between f point next).outcome state = (.ok pair, middle) ∧
        (rule.refresh held pair).outcome middle.2 = (.ok refresh, after.2) ∧
        after.1 = middle.1 := by
  simp only [advance, beneath, outcome_bind_eq_ok_iff, outcome_beneath, Prod.mk.injEq]
  constructor
  · rintro ⟨pair, middle, hpair, hrefresh, rfl⟩
    exact ⟨pair, middle, hpair, Prod.ext hrefresh rfl, rfl⟩
  · rintro ⟨pair, middle, hpair, hrefresh, htop⟩
    exact ⟨pair, middle, hpair, by rw [hrefresh], by rw [hrefresh, ← htop]⟩

theorem UpdateRule.advance_eq_error_iff {rule : UpdateRule σ α} {f : Objective (τ × σ) α}
    {held : DenseMatrix α} {point next : Array α} {state after : τ × σ} {failure : Failure α} :
    (rule.beneath.advance f held point next).outcome state = (.error failure, after) ↔
      (SecantPair.between f point next).outcome state = (.error failure, after) ∨
        ∃ pair middle, (SecantPair.between f point next).outcome state = (.ok pair, middle) ∧
          (rule.refresh held pair).outcome middle.2 = (.error failure, after.2) ∧
          after.1 = middle.1 := by
  simp only [advance, beneath, outcome_bind_eq_error_iff, outcome_beneath, Prod.mk.injEq]
  refine or_congr_right ⟨?_, ?_⟩
  · rintro ⟨pair, middle, hpair, hrefresh, rfl⟩
    exact ⟨pair, middle, hpair, Prod.ext hrefresh rfl, rfl⟩
  · rintro ⟨pair, middle, hpair, hrefresh, htop⟩
    exact ⟨pair, middle, hpair, by rw [hrefresh], by rw [hrefresh, ← htop]⟩

/-! ## Arguments -/

theorem StoppingRule.validate_eq_ok_iff {stopping : StoppingRule α} :
    stopping.validate = .ok () ↔ Scalar.isNaN stopping.tolerance = false ∧
      ¬ stopping.tolerance < 0 ∧ stopping.maxIterations ≠ 0 := by
  unfold validate
  cases hnumber : Scalar.isNaN stopping.tolerance with
  | true => simp
  | false =>
      by_cases hnegative : stopping.tolerance < 0
      · simp [hnegative]
      · by_cases hbudget : stopping.maxIterations = 0
        · simp [hnegative, hbudget]
        · simp [hnegative, hbudget]

theorem toNat_pos {m : UInt64} (h : m ≠ 0) : 0 < m.toNat :=
  Nat.pos_of_ne_zero fun hzero => h (UInt64.toNat_inj.mp hzero)

/-! ## What a run asks its callables -/

/-- Square of the size of the point, and finite. -/
structure DenseMatrix.FiniteSquare (B : DenseMatrix α) (n : Nat) : Prop where
  rows : B.rows = n
  cols : B.cols = n
  finite : B.allFinite = true

namespace Solver

theorem checkGradient_eq_ok_iff {answer : Array α} {iteration : Nat} {g : Vector α n} :
    checkGradient n answer iteration = .ok g ↔
      answer = g.toArray ∧ Scalar.allFinite g.toList = true := by
  unfold checkGradient
  constructor
  · intro h
    split at h
    · split at h
      · cases h
        exact ⟨rfl, ‹_›⟩
      · cases h
    · cases h
  · rintro ⟨rfl, hfinite⟩
    have hfinite' : Scalar.allFinite g.toArray.toList = true := hfinite
    simp [hfinite']

theorem checkHessian_eq_ok_iff {B : DenseMatrix α} {iteration : Nat} :
    checkHessian n B iteration = .ok () ↔ B.FiniteSquare n := by
  unfold checkHessian
  constructor
  · intro h
    split at h
    next hshape =>
      split at h
      next hfinite => exact ⟨hshape.1, hshape.2, hfinite⟩
      next => cases h
    next => cases h
  · rintro ⟨hrows, hcols, hfinite⟩
    simp [hrows, hcols, hfinite]

theorem gradientAt_eq_ok_iff {f : Objective σ α} {point g : Vector α n}
    {iteration : Nat} {state after : Session σ α} :
    (gradientAt f point iteration).outcome state = (.ok g, after) ↔
      Scalar.allFinite g.toList = true ∧ ∃ below,
        (f.gradient point.toArray).outcome state.2.2 = (.ok g.toArray, below) ∧
        after = (state.1, state.2.1.countGradient, below) := by
  simp only [gradientAt, outcome_bind_eq_ok_iff, outcome_beneath, Objective.counted,
    outcome_after, outcome_ofExcept, Prod.mk.injEq, checkGradient_eq_ok_iff]
  constructor
  · rintro ⟨_, _, ⟨hanswer, rfl⟩, ⟨rfl, hfinite⟩, rfl⟩
    exact ⟨hfinite, _, Prod.ext hanswer rfl, rfl⟩
  · rintro ⟨hfinite, below, hanswer, rfl⟩
    exact ⟨g.toArray, _, ⟨by rw [hanswer], rfl⟩, ⟨rfl, hfinite⟩, by rw [hanswer]⟩

theorem hessianAt_eq_ok_iff {f : Objective σ α} {point : Vector α n} {B : DenseMatrix α}
    {iteration : Nat} {state after : Session σ α} :
    (hessianAt f point iteration).outcome state = (.ok B, after) ↔
      B.FiniteSquare n ∧ ∃ below,
        (f.hessian point.toArray).outcome state.2.2 = (.ok B, below) ∧
        after = (state.1, state.2.1.countHessian, below) := by
  simp only [hessianAt, outcome_bind_eq_ok_iff, outcome_beneath, Objective.counted,
    outcome_after, outcome_ofExcept, outcome_pure, Prod.mk.injEq, Except.ok.injEq]
  constructor
  · rintro ⟨_, _, ⟨hanswer, rfl⟩, ⟨⟩, _, ⟨hcheck, rfl⟩, rfl, rfl⟩
    exact ⟨checkHessian_eq_ok_iff.mp hcheck, _, Prod.ext hanswer rfl, rfl⟩
  · rintro ⟨husable, below, hanswer, rfl⟩
    exact ⟨B, _, ⟨by rw [hanswer], rfl⟩, (), _,
      ⟨checkHessian_eq_ok_iff.mpr husable, rfl⟩, rfl, by rw [hanswer]⟩

omit [Scalar α] in
theorem costAt_eq_ok_iff {f : Objective σ α} {point : Vector α n} {value : α}
    {state after : Session σ α} :
    (costAt f point).outcome state = (.ok value, after) ↔ ∃ below,
      (f.cost point.toArray).outcome state.2.2 = (.ok value, below) ∧
      after = (state.1, state.2.1.countCost, below) := by
  simp only [costAt, outcome_beneath, Objective.counted, outcome_after, Prod.mk.injEq]
  constructor
  · rintro ⟨hanswer, rfl⟩
    exact ⟨_, Prod.ext hanswer rfl, rfl⟩
  · rintro ⟨below, hanswer, rfl⟩
    rw [hanswer]
    exact ⟨rfl, rfl⟩

omit [Scalar α] in
theorem costAt_log {f : Objective σ α} {x : Vector α n} {result : Except (Failure α) α}
    {session after : Session σ α} (h : (costAt f x).outcome session = (result, after)) :
    after.1 = session.1 := by
  cases h
  rfl

/-! ## One iteration -/

theorem matrixFor_eq_ok_iff {solver : Solver σ α} {f : Objective σ α}
    {iterate : Iterate α n} {B : DenseMatrix α} {state after : Session σ α} :
    (solver.matrixFor f iterate).outcome state = (.ok B, after) ↔
      if solver.rule.isNone ∧ 0 < iterate.count then
        (hessianAt f iterate.point (iterate.count + 1)).outcome state = (.ok B, after)
      else B = iterate.hessian ∧ after = state := by
  unfold matrixFor
  simp only [Bool.and_eq_true, decide_eq_true_eq]
  split
  · rfl
  · simp [eq_comm]

/-- The log after a refreshment: a kept matrix leaves an entry. -/
def refreshmentLog (method : String) (log : Log α) : Refresh α → Log α
  | .updated _ => log
  | .skipped degeneracy =>
      log.push (.skippedUpdate method degeneracy.quantity degeneracy.value)

theorem outcome_adopt (method : String) (held : DenseMatrix α) (iteration : Nat)
    (refresh : Refresh α) (state : Session σ α) :
    (adopt method held iteration refresh).outcome state =
      (if (refresh.matrix held).allFinite then .ok (refresh.matrix held)
        else .error (.nonFiniteValue "hessian" iteration),
      (refreshmentLog method state.1 refresh, state.2)) := by
  cases refresh with
  | updated B =>
      cases hfinite : B.allFinite <;>
        simp [adopt, Refresh.matrix, hfinite, refreshmentLog]
  | skipped degeneracy =>
      cases hfinite : held.allFinite <;>
        simp [adopt, Refresh.matrix, hfinite, refreshmentLog, tell, outcome_bind,
          Except.map]

theorem matrixAfter_of_rule_eq_none {solver : Solver σ α} (hrule : solver.rule = none)
    (f : Objective σ α) (held : DenseMatrix α) (point next : Vector α n) (iteration : Nat) :
    solver.matrixAfter f held point next iteration = pure held := by
  simp [matrixAfter, hrule]

theorem matrixAfter_eq_ok_iff {solver : Solver σ α} {rule : UpdateRule σ α}
    (hrule : solver.rule = some rule) {f : Objective σ α} {held B : DenseMatrix α}
    {point next : Vector α n} {iteration : Nat} {state after : Session σ α} :
    (solver.matrixAfter f held point next iteration).outcome state = (.ok B, after) ↔
      ∃ pair middle refresh below,
        (SecantPair.between f.counted point.toArray next.toArray).outcome state.2 =
          (.ok pair, middle) ∧
        (rule.refresh held pair).outcome middle.2 = (.ok refresh, below) ∧
        B = refresh.matrix held ∧ B.allFinite = true ∧
        after = (refreshmentLog rule.name state.1 refresh, (middle.1, below)) := by
  simp only [matrixAfter, hrule, outcome_bind_eq_ok_iff, outcome_beneath, outcome_adopt,
    Prod.mk.injEq]
  constructor
  · rintro ⟨refresh, _, ⟨hadvance, rfl⟩, hadopt, rfl⟩
    obtain ⟨pair, middle, hpair, hrefresh, htop⟩ :=
      UpdateRule.advance_eq_ok_iff.mp (Prod.ext hadvance rfl)
    split at hadopt
    next hfinite =>
      cases hadopt
      exact ⟨pair, middle, refresh, _, hpair, hrefresh, rfl, hfinite, by rw [← htop]⟩
    next => cases hadopt
  · rintro ⟨pair, middle, refresh, below, hpair, hrefresh, rfl, hfinite, rfl⟩
    have hadvance : (rule.beneath.advance f.counted held point.toArray next.toArray).outcome
        state.2 = (.ok refresh, (middle.1, below)) :=
      UpdateRule.advance_eq_ok_iff.mpr ⟨pair, middle, hpair, hrefresh, rfl⟩
    exact ⟨refresh, _, ⟨by rw [hadvance], rfl⟩, by simp [hfinite], by rw [hadvance]⟩

theorem advance_eq_ok_iff {solver : Solver σ α} {f : Objective σ α}
    {iterate next : Iterate α n} {state after : Session σ α} :
    (solver.advance f iterate).outcome state = (.ok next, after) ↔
      ∃ held first direction second,
        (solver.matrixFor f iterate).outcome state = (.ok held, first) ∧
        descentDirection held iterate.gradient (iterate.count + 1) = .ok direction ∧
        next.count = iterate.count + 1 ∧
        next.point = moved iterate.point direction solver.step.stepLength ∧
        Scalar.allFinite next.point.toList = true ∧
        (solver.matrixAfter f held iterate.point next.point next.count).outcome first =
          (.ok next.hessian, second) ∧
        (gradientAt f next.point next.count).outcome second = (.ok next.gradient, after) := by
  simp only [advance, Bool.not_eq_true', ExceptT.bind_throw, outcome_bind_eq_ok_iff,
    outcome_throw_ite_eq_ok_iff, outcome_ofExcept, outcome_pure, Prod.mk.injEq,
    Bool.not_eq_false, Except.ok.injEq]
  constructor
  · rintro ⟨held, first, hheld, direction, _, ⟨hdirection, rfl⟩, hfinite, B, second, hB,
      gradient, _, hgradient, rfl, rfl⟩
    exact ⟨held, first, direction, second, hheld, hdirection, rfl, rfl, hfinite, hB,
      hgradient⟩
  · rintro ⟨held, first, direction, second, hheld, hdirection, hcount, hpoint, hfinite, hB,
      hgradient⟩
    obtain ⟨count, point, gradient, hessian⟩ := next
    simp only at hcount hpoint hfinite hB hgradient
    subst hcount hpoint
    exact ⟨held, first, hheld, direction, first, ⟨hdirection, rfl⟩, hfinite, hessian, second,
      hB, gradient, after, hgradient, rfl, rfl⟩

theorem iteration_eq_ok_iff {solver : Solver σ α} {f : Objective σ α}
    {iterate next : Iterate α n} {state after : Session σ α} :
    (solver.iteration f iterate).outcome state = (.ok next, after) ↔ ∃ middle,
      (solver.advance f iterate).outcome state = (.ok next, middle) ∧
      after = (middle.1.push (.iteration next.count
        (Scalar.largestMagnitude next.gradient.toList)), middle.2) := by
  simp only [iteration, tell, outcome_bind_eq_ok_iff, outcome_modifyTop, outcome_pure,
    Prod.mk.injEq]
  constructor
  · rintro ⟨_, middle, hadvance, ⟨⟩, _, ⟨-, rfl⟩, hnext, rfl⟩
    cases hnext
    exact ⟨middle, hadvance, rfl⟩
  · rintro ⟨middle, hadvance, rfl⟩
    exact ⟨next, middle, hadvance, (), _, ⟨trivial, rfl⟩, rfl, rfl⟩

theorem iteration_eq_error_iff {solver : Solver σ α} {f : Objective σ α}
    {iterate : Iterate α n} {state after : Session σ α} {failure : Failure α} :
    (solver.iteration f iterate).outcome state = (.error failure, after) ↔
      (solver.advance f iterate).outcome state = (.error failure, after) := by
  rw [iteration, outcome_bind_eq_error_iff, or_iff_left_iff_imp]
  rintro ⟨next, middle, hadvance, h⟩
  simp [tell, Except.map] at h

/-! ## The two ends of a run -/

/-- The checks of the arguments of a run, in their order. -/
def checkArguments (solver : Solver σ α) (point : Array α) (stopping : StoppingRule α) :
    Except (Failure α) Unit := do
  stopping.validate
  solver.step.validate
  validatePoint point

/-- A run looks at the initial point once its arguments have passed. -/
theorem outcome_enter (solver : Solver σ α) (f : Objective σ α) (point : Array α)
    (stopping : StoppingRule α) (state : Session σ α) :
    (solver.enter f point stopping).outcome state =
      match solver.checkArguments point stopping with
      | .error failure => (.error failure, (state.1.push (.started solver.name), state.2))
      | .ok () =>
          (initialIterate f point.toVector).outcome
            (state.1.push (.started solver.name), state.2) := by
  simp only [enter, tell, outcome_bind, outcome_modifyTop, outcome_ofExcept, checkArguments]
  cases stopping.validate with
  | error failure => rfl
  | ok _ =>
      cases solver.step.validate with
      | error failure => rfl
      | ok _ => cases validatePoint point <;> rfl

theorem enter_eq_ok_iff {solver : Solver σ α} {f : Objective σ α} {point : Array α}
    {stopping : StoppingRule α} {iterate : Iterate α point.size}
    {state after : Session σ α} :
    (solver.enter f point stopping).outcome state = (.ok iterate, after) ↔
      (stopping.validate = .ok () ∧ solver.step.validate = .ok () ∧
        validatePoint point = .ok ()) ∧
      iterate.count = 0 ∧ iterate.point = point.toVector ∧ ∃ middle,
        (gradientAt f point.toVector 0).outcome
            (state.1.push (.started solver.name), state.2) = (.ok iterate.gradient, middle) ∧
        (hessianAt f point.toVector 0).outcome middle = (.ok iterate.hessian, after) := by
  simp only [enter, initialIterate, tell, outcome_bind_eq_ok_iff, outcome_modifyTop,
    outcome_ofExcept, outcome_pure, Prod.mk.injEq]
  constructor
  · rintro ⟨⟨⟩, _, ⟨-, rfl⟩, ⟨⟩, _, ⟨hstopping, rfl⟩, ⟨⟩, _, ⟨hstep, rfl⟩, ⟨⟩, _,
      ⟨hpoint, rfl⟩, gradient, middle, hgradient, B, _, hB, hiterate, rfl⟩
    cases hiterate
    exact ⟨⟨hstopping, hstep, hpoint⟩, rfl, rfl, middle, hgradient, hB⟩
  · rintro ⟨⟨hstopping, hstep, hpoint⟩, hcount, hstart, middle, hgradient, hB⟩
    obtain ⟨count, start, gradient, B⟩ := iterate
    simp only at hcount hstart hgradient hB
    subst hcount hstart
    exact ⟨(), _, ⟨trivial, rfl⟩, (), _, ⟨hstopping, rfl⟩, (), _, ⟨hstep, rfl⟩, (), _,
      ⟨hpoint, rfl⟩, gradient, middle, hgradient, B, after, hB, rfl, rfl⟩

theorem conclude_eq_ok_iff {f : Objective σ α} {stopping : StoppingRule α}
    {iterate : Iterate α n} {ending : Ending} {report : Report α}
    {state after : Session σ α} :
    (conclude f stopping iterate ending).outcome state = (.ok report, after) ↔
      ∃ value middle, (costAt f iterate.point).outcome state = (.ok value, middle) ∧
        report = (Report.of iterate.point.toArray value iterate.gradient.toArray
          iterate.hessian iterate.count ending).withEvaluations middle.2.1 ∧
        after = (middle.1.push (lastEvent stopping iterate value ending), middle.2) := by
  simp only [conclude, tell, callsMade, outcome_bind_eq_ok_iff, outcome_modifyTop,
    outcome_beneath, outcome_readTop, outcome_pure, Prod.mk.injEq]
  constructor
  · rintro ⟨value, middle, hcost, ⟨⟩, _, ⟨-, rfl⟩, _, _, ⟨hcalls, rfl⟩, hreport, rfl⟩
    cases hcalls
    cases hreport
    exact ⟨value, middle, hcost, rfl, rfl⟩
  · rintro ⟨value, middle, hcost, rfl, rfl⟩
    exact ⟨value, middle, hcost, (), _, ⟨trivial, rfl⟩, _, _, ⟨rfl, rfl⟩, rfl, rfl⟩

theorem conclude_eq_error_iff {f : Objective σ α} {stopping : StoppingRule α}
    {iterate : Iterate α n} {ending : Ending} {failure : Failure α}
    {state after : Session σ α} :
    (conclude f stopping iterate ending).outcome state = (.error failure, after) ↔
      (costAt f iterate.point).outcome state = (.error failure, after) := by
  rw [conclude, outcome_bind_eq_error_iff, or_iff_left_iff_imp]
  rintro ⟨value, middle, hcost, h⟩
  simp [tell, callsMade, outcome_bind, Except.map] at h

end Solver

end SecantDescent
