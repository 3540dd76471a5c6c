import SecantDescent.Proofs.Run.Heads
import Mathlib.Logic.Function.Basic

/-!
# Runs with callables that are functions

When every callable answers with a function of its arguments, a run computes
sequences: points `x k`, their gradients `g k`, and the matrices `B k` that the
directions are computed from.  `Trajectory` says what these sequences are, and
that all answers and checks of the first `N` steps are in order; `StopsAt` says
which `N` is the last one.  A run returns a report exactly when there is such a
trajectory, and the report is the last point of it.
-/

namespace SecantDescent

variable {σ α : Type} [Scalar α] {n : Nat}

/-- Callables without memory.  The rule, if there is one, has a name. -/
structure Callables (α : Type) where
  cost : Array α → Except (Failure α) α
  gradient : Array α → Except (Failure α) (Array α)
  hessian : Array α → Except (Failure α) (DenseMatrix α)
  rule : Option (String × (DenseMatrix α → SecantPair α → Except (Failure α) (Refresh α)))

namespace Callables

variable (c : Callables α)

def objective : Objective σ α :=
  .ofFunctions c.cost c.gradient c.hessian

def solver (a : α) : Solver σ α where
  step := ⟨a⟩
  rule := c.rule.map fun rule => ⟨rule.1, fun held pair => .ofExcept (rule.2 held pair)⟩

/-- The gradient at `x` is `g`, of the right length and finite. -/
def GradientAt (x g : Vector α n) : Prop :=
  c.gradient x.toArray = .ok g.toArray ∧ Scalar.allFinite g.toList = true

/-- The Hessian at `x` is `B`, of the right shape and finite. -/
def HessianAt (x : Vector α n) (B : DenseMatrix α) : Prop :=
  c.hessian x.toArray = .ok B ∧ B.FiniteSquare n

/-- How the matrices of two consecutive points hang together: with a rule, the
second one is the refreshed first one; without a rule, the first one is the
Hessian. -/
def MatrixStep (x g x' g' : Vector α n) (B B' : DenseMatrix α) : Prop :=
  match c.rule with
  | none => c.HessianAt x B
  | some rule => ∃ refresh, rule.2 B ⟨(x' - x).toArray, (g' - g).toArray⟩ = .ok refresh ∧
      B' = refresh.matrix B ∧ B'.allFinite = true

/-- The first `N` steps of the iteration from `x₀`, with every answer and every
check on the way in order. -/
structure Trajectory (a : α) (x₀ : Vector α n) (N : Nat) (x g : Nat → Vector α n)
    (B : Nat → DenseMatrix α) : Prop where
  start : x 0 = x₀
  firstMatrix : c.HessianAt (x 0) (B 0)
  gradients : ∀ k ≤ N, c.GradientAt (x k) (g k)
  moves : ∀ k < N, ∃ direction,
    descentDirection (B k) (g k) (k + 1) = .ok direction ∧
    x (k + 1) = x k + direction.map (· * a) ∧ Scalar.allFinite (x (k + 1)).toList = true
  matrices : ∀ k < N, c.MatrixStep (x k) (g k) (x (k + 1)) (g (k + 1)) (B k) (B (k + 1))

/-- The matrix held after `N` steps: without a rule it is that of the point
before the last one. -/
def lastMatrix (B : Nat → DenseMatrix α) (N : Nat) : DenseMatrix α :=
  match c.rule with
  | none => B (N - 1)
  | some _ => B N

end Callables

/-- Every component is within the tolerance of zero. -/
def StoppingRule.Within (stopping : StoppingRule α) (g : Vector α n) : Prop :=
  ∀ i : Fin n, Scalar.abs (g.get i) ≤ stopping.tolerance

/-- The last step of a run whose points have the gradients `g`: the first one
within the tolerance, or the end of the budget. -/
inductive StopsAt (stopping : StoppingRule α) (g : Nat → Vector α n) : Nat → Ending → Prop
  | converged {N} (room : N ≤ stopping.maxIterations.toNat) (hit : stopping.Within (g N))
      (first : ∀ k < N, ¬ stopping.Within (g k)) : StopsAt stopping g N .converged
  | exhausted (missed : ∀ k ≤ stopping.maxIterations.toNat, ¬ stopping.Within (g k)) :
      StopsAt stopping g stopping.maxIterations.toNat .maxIterations

theorem StoppingRule.isSatisfiedBy_iff {stopping : StoppingRule α} {g : Vector α n} :
    stopping.isSatisfiedBy g.toList = true ↔ stopping.Within g := by
  simp only [isSatisfiedBy, Within, List.all_eq_true, Vector.mem_toList_iff, decide_eq_true_eq]
  constructor
  · intro h i
    exact h _ (Vector.getElem_mem i.isLt)
  · intro h component hmem
    obtain ⟨i, hi, rfl⟩ := Vector.mem_iff_getElem.mp hmem
    exact h ⟨i, hi⟩

theorem StoppingRule.isSatisfiedBy_eq_false_iff {stopping : StoppingRule α}
    {g : Vector α n} : stopping.isSatisfiedBy g.toList = false ↔ ¬ stopping.Within g := by
  rw [← isSatisfiedBy_iff, Bool.not_eq_true]

/-! ## One iteration -/

namespace Callables

open Solver

variable {c : Callables α} {a : α}

theorem gradientAt_eq_ok_iff {x g : Vector α n} {iteration : Nat} {state after : Session σ α} :
    (Solver.gradientAt c.objective x iteration).outcome state = (.ok g, after) ↔
      c.GradientAt x g ∧ after = (state.1, state.2.1.countGradient, state.2.2) := by
  rw [Solver.gradientAt_eq_ok_iff]
  simp only [objective, Objective.ofFunctions, Eval.outcome_ofExcept, Prod.mk.injEq,
    GradientAt]
  constructor
  · rintro ⟨hfinite, _, ⟨hanswer, rfl⟩, rfl⟩
    exact ⟨⟨hanswer, hfinite⟩, rfl⟩
  · rintro ⟨⟨hanswer, hfinite⟩, rfl⟩
    exact ⟨hfinite, _, ⟨hanswer, rfl⟩, rfl⟩

theorem hessianAt_eq_ok_iff {x : Vector α n} {B : DenseMatrix α} {iteration : Nat}
    {state after : Session σ α} :
    (Solver.hessianAt c.objective x iteration).outcome state = (.ok B, after) ↔
      c.HessianAt x B ∧ after = (state.1, state.2.1.countHessian, state.2.2) := by
  rw [Solver.hessianAt_eq_ok_iff]
  simp only [objective, Objective.ofFunctions, Eval.outcome_ofExcept, Prod.mk.injEq, HessianAt]
  constructor
  · rintro ⟨husable, _, ⟨hanswer, rfl⟩, rfl⟩
    exact ⟨⟨hanswer, husable⟩, rfl⟩
  · rintro ⟨⟨hanswer, husable⟩, rfl⟩
    exact ⟨husable, _, ⟨hanswer, rfl⟩, rfl⟩

omit [Scalar α] in
theorem costAt_eq_ok_iff {x : Vector α n} {value : α} {state after : Session σ α} :
    (Solver.costAt c.objective x).outcome state = (.ok value, after) ↔
      c.cost x.toArray = .ok value ∧
        after = (state.1, state.2.1.countCost, state.2.2) := by
  rw [Solver.costAt_eq_ok_iff]
  simp only [objective, Objective.ofFunctions, Eval.outcome_ofExcept, Prod.mk.injEq]
  constructor
  · rintro ⟨_, ⟨hanswer, rfl⟩, rfl⟩
    exact ⟨hanswer, rfl⟩
  · rintro ⟨hanswer, rfl⟩
    exact ⟨_, ⟨hanswer, rfl⟩, rfl⟩

/-- The pair between two points whose gradients are known. -/
theorem between_eq_ok_iff {x g x' g' : Vector α n} (hx : c.GradientAt x g)
    (hx' : c.GradientAt x' g') {state after : Tally × σ} {pair : SecantPair α} :
    (SecantPair.between c.objective.counted x.toArray x'.toArray).outcome state =
        (.ok pair, after) ↔
      pair = ⟨(x' - x).toArray, (g' - g).toArray⟩ ∧
        after = (state.1.countGradient.countGradient, state.2) := by
  rw [SecantPair.between_eq_ok_iff]
  simp only [objective, Objective.ofFunctions, Objective.counted, Eval.outcome_after,
    Eval.outcome_ofExcept, Prod.mk.injEq, hx.1, hx'.1, Except.ok.injEq, Vector.size_toArray,
    true_and]
  constructor
  · rintro ⟨_, _, _, ⟨rfl, rfl⟩, ⟨rfl, rfl⟩, -, -, rfl⟩
    exact ⟨rfl, rfl⟩
  · rintro ⟨rfl, rfl⟩
    exact ⟨_, _, _, ⟨rfl, rfl⟩, ⟨rfl, rfl⟩, Vector.size_toArray g, Vector.size_toArray g', rfl⟩

variable (c a) in
/-- One step from an iterate to the next one. -/
def Moves (iterate next : Iterate α n) : Prop :=
  ∃ held direction,
    (if c.rule = none ∧ 0 < iterate.count then c.HessianAt iterate.point held
      else held = iterate.hessian) ∧
    descentDirection held iterate.gradient (iterate.count + 1) = .ok direction ∧
    next.count = iterate.count + 1 ∧
    next.point = iterate.point + direction.map (· * a) ∧
    Scalar.allFinite next.point.toList = true ∧
    c.GradientAt next.point next.gradient ∧
    (c.rule = none → next.hessian = held) ∧
    ∀ rule, c.rule = some rule → ∃ refresh,
      rule.2 held ⟨(next.point - iterate.point).toArray,
        (next.gradient - iterate.gradient).toArray⟩ = .ok refresh ∧
      next.hessian = refresh.matrix held ∧ next.hessian.allFinite = true

theorem matrixFor_eq_ok_iff (state : Session σ α) {iterate : Iterate α n}
    {held : DenseMatrix α} :
    (∃ after, ((c.solver a).matrixFor c.objective iterate).outcome state =
        (.ok held, after)) ↔
      if c.rule = none ∧ 0 < iterate.count then c.HessianAt iterate.point held
      else held = iterate.hessian := by
  simp only [Solver.matrixFor_eq_ok_iff, solver, Option.isNone_map, Option.isNone_iff_eq_none]
  split
  · simp only [hessianAt_eq_ok_iff, exists_and_left, exists_eq, and_true]
  · simp

theorem matrixAfter_eq_ok_iff (iteration : Nat) (state : Session σ α) {x g x' g' : Vector α n}
    (hx : c.GradientAt x g) (hx' : c.GradientAt x' g') {held B : DenseMatrix α} :
    (∃ after, ((c.solver a).matrixAfter c.objective held x x' iteration).outcome state =
        (.ok B, after)) ↔
      (c.rule = none → B = held) ∧
      ∀ rule, c.rule = some rule → ∃ refresh,
        rule.2 held ⟨(x' - x).toArray, (g' - g).toArray⟩ = .ok refresh ∧
        B = refresh.matrix held ∧ B.allFinite = true := by
  cases hrule : c.rule with
  | none =>
      have hnone : (c.solver a : Solver σ α).rule = none := by simp [solver, hrule]
      simp only [matrixAfter_of_rule_eq_none hnone, Eval.outcome_pure, Prod.mk.injEq,
        Except.ok.injEq]
      constructor
      · rintro ⟨_, rfl, -⟩
        exact ⟨fun _ => rfl, nofun⟩
      · rintro ⟨h, -⟩
        exact ⟨state, (h trivial).symm, rfl⟩
  | some rule =>
      have hsome : (c.solver a : Solver σ α).rule =
          some ⟨rule.1, fun held pair => .ofExcept (rule.2 held pair)⟩ := by
        simp [solver, hrule]
      constructor
      · rintro ⟨after, h⟩
        obtain ⟨pair, middle, refresh, below, hpair, hrefresh, hB, hfinite, -⟩ :=
          (Solver.matrixAfter_eq_ok_iff hsome).mp h
        obtain ⟨rfl, -⟩ := (between_eq_ok_iff hx hx').mp hpair
        rw [Eval.outcome_ofExcept, Prod.mk.injEq] at hrefresh
        refine ⟨nofun, fun rule' hrule' => ?_⟩
        cases hrule'
        exact ⟨refresh, hrefresh.1, hB, hfinite⟩
      · rintro ⟨-, h⟩
        obtain ⟨refresh, hrefresh, hB, hfinite⟩ := h rule rfl
        exact ⟨_, (Solver.matrixAfter_eq_ok_iff hsome).mpr ⟨_, _, refresh, state.2.2,
          (between_eq_ok_iff hx hx').mpr ⟨rfl, rfl⟩, Prod.ext hrefresh rfl, hB, hfinite, rfl⟩⟩

theorem iteration_iff {iterate next : Iterate α n} {session : Session σ α}
    (hgradient : c.GradientAt iterate.point iterate.gradient) :
    (∃ after, ((c.solver a).iteration c.objective iterate).outcome session =
        (.ok next, after)) ↔ c.Moves a iterate next := by
  simp only [iteration_eq_ok_iff, advance_eq_ok_iff]
  constructor
  · rintro ⟨_, _, ⟨held, first, direction, second, hheld, hdirection, hcount, hpoint, hfinite,
      hB, hnext⟩, -⟩
    have hnext' := (gradientAt_eq_ok_iff.mp hnext).1
    obtain ⟨hnone, hsome⟩ := (matrixAfter_eq_ok_iff _ _ hgradient hnext').mp ⟨second, hB⟩
    exact ⟨held, direction, (matrixFor_eq_ok_iff _).mp ⟨first, hheld⟩, hdirection, hcount,
      hpoint, hfinite, hnext', hnone, hsome⟩
  · rintro ⟨held, direction, hheld, hdirection, hcount, hpoint, hfinite, hnext, hnone, hsome⟩
    obtain ⟨first, hfirst⟩ := (matrixFor_eq_ok_iff (a := a) session).mpr hheld
    obtain ⟨second, hsecond⟩ :=
      (matrixAfter_eq_ok_iff (a := a) next.count first hgradient hnext).mpr ⟨hnone, hsome⟩
    exact ⟨_, _, ⟨held, first, direction, second, hfirst, hdirection, hcount, hpoint, hfinite,
      hsecond, gradientAt_eq_ok_iff.mpr ⟨hnext, rfl⟩⟩, rfl⟩

/-! ## From a run to a trajectory -/

variable {x₀ : Vector α n} {N : Nat} {x g x' g' : Nat → Vector α n}
variable {B B' : Nat → DenseMatrix α}

theorem Trajectory.succ (h : c.Trajectory a x₀ N x g B)
    (hgradient : c.GradientAt (x (N + 1)) (g (N + 1)))
    (hmove : ∃ direction, descentDirection (B N) (g N) (N + 1) = .ok direction ∧
      x (N + 1) = x N + direction.map (· * a) ∧ Scalar.allFinite (x (N + 1)).toList = true)
    (hmatrix : c.MatrixStep (x N) (g N) (x (N + 1)) (g (N + 1)) (B N) (B (N + 1))) :
    c.Trajectory a x₀ (N + 1) x g B where
  start := h.start
  firstMatrix := h.firstMatrix
  gradients k hk := by
    rcases Nat.le_succ_iff.mp hk with hk | rfl
    · exact h.gradients k hk
    · exact hgradient
  moves k hk := by
    rcases Nat.lt_succ_iff_lt_or_eq.mp hk with hk | rfl
    · exact h.moves k hk
    · exact hmove
  matrices k hk := by
    rcases Nat.lt_succ_iff_lt_or_eq.mp hk with hk | rfl
    · exact h.matrices k hk
    · exact hmatrix

/-- A trajectory does not depend on what its sequences are past its end.
Without a rule the last matrix is past the end, too, unless it is the first. -/
theorem Trajectory.congr (h : c.Trajectory a x₀ N x g B) (hx : ∀ k ≤ N, x' k = x k)
    (hg : ∀ k ≤ N, g' k = g k) (hB : ∀ k < N, B' k = B k) (hfirst : B' 0 = B 0)
    (hlast : c.rule ≠ none → B' N = B N) : c.Trajectory a x₀ N x' g' B' where
  start := (hx 0 N.zero_le).trans h.start
  firstMatrix := by
    rw [hx 0 N.zero_le, hfirst]
    exact h.firstMatrix
  gradients k hk := by
    rw [hx k hk, hg k hk]
    exact h.gradients k hk
  moves k hk := by
    rw [hx k (Nat.le_of_lt hk), hx (k + 1) hk, hg k (Nat.le_of_lt hk), hB k hk]
    exact h.moves k hk
  matrices k hk := by
    have hstep := h.matrices k hk
    rw [hx k (Nat.le_of_lt hk), hx (k + 1) hk, hg k (Nat.le_of_lt hk), hg (k + 1) hk,
      hB k hk]
    unfold MatrixStep at hstep ⊢
    cases hrule : c.rule with
    | none => simpa only [hrule] using hstep
    | some rule =>
        have hnext : B' (k + 1) = B (k + 1) := by
          rcases Nat.lt_or_eq_of_le (Nat.succ_le_of_lt hk) with hlt | heq
          · exact hB _ hlt
          · rw [show k + 1 = N from heq]
            exact hlast (by simp [hrule])
        simpa only [hrule, hnext] using hstep

variable (c) in
/-- Where a run stands after `k` steps along a trajectory. -/
def standing (x g : Nat → Vector α n) (B : Nat → DenseMatrix α) (k : Nat) : Iterate α n :=
  ⟨k, x k, g k, c.lastMatrix B k⟩

variable (c a x₀) in
/-- An iterate is the end of a trajectory on which no earlier point meets the
tolerance. -/
def Tracks (stopping : StoppingRule α) (iterate : Iterate α n) : Prop :=
  ∃ N x g B, c.Trajectory a x₀ N x g B ∧ iterate = c.standing x g B N ∧
    ∀ k < N, ¬ stopping.Within (g k)

theorem Tracks.next {stopping : StoppingRule α} {iterate next : Iterate α n}
    (h : c.Tracks a x₀ stopping iterate)
    (hmissed : ¬ stopping.Within iterate.gradient) (hmoves : c.Moves a iterate next) :
    c.Tracks a x₀ stopping next := by
  obtain ⟨N, x, g, B, htrajectory, rfl, hearlier⟩ := h
  obtain ⟨held, direction, hheld, hdirection, hcount, hnext, hfinite, hanswer, hnone, hsome⟩ :=
    hmoves
  obtain ⟨count, point, gradient, hessian⟩ := next
  simp only [standing] at hmissed hheld hdirection hcount hnext hfinite hanswer hnone hsome
  subst hcount
  have hkept (hsame : c.rule ≠ none ∨ N = 0) : held = B N := by
    rcases hsame with hrule | rfl
    · obtain ⟨rule, hrule⟩ := Option.ne_none_iff_exists'.mp hrule
      simpa [hrule, lastMatrix] using hheld
    · cases hrule : c.rule <;> simpa [hrule, lastMatrix] using hheld
  refine ⟨N + 1, Function.update x (N + 1) point, Function.update g (N + 1) gradient,
    Function.update (Function.update B N held) (N + 1) hessian, ?_, ?_, ?_⟩
  · refine Trajectory.succ (Trajectory.congr htrajectory ?_ ?_ ?_ ?_ ?_) ?_ ?_ ?_
    · intro k hk
      exact Function.update_of_ne (by omega) _ _
    · intro k hk
      exact Function.update_of_ne (by omega) _ _
    · intro k hk
      rw [Function.update_of_ne (by omega), Function.update_of_ne (by omega)]
    · rw [Function.update_of_ne (by omega)]
      rcases Nat.eq_zero_or_pos N with rfl | hN
      · rw [Function.update_self, hkept (.inr rfl)]
      · rw [Function.update_of_ne (by omega)]
    · intro hrule
      rw [Function.update_of_ne (by omega), Function.update_self, hkept (.inl hrule)]
    · simpa using hanswer
    · refine ⟨direction, ?_, ?_, ?_⟩
      · simpa using hdirection
      · simpa using hnext
      · simpa using hfinite
    · unfold MatrixStep
      cases hrule : c.rule with
      | none =>
          rcases Nat.eq_zero_or_pos N with rfl | hN
          · simpa [hkept (.inr rfl)] using htrajectory.firstMatrix
          · simpa [hrule, hN] using hheld
      | some rule => simpa using hsome rule hrule
  · cases hrule : c.rule with
    | none => simp [standing, lastMatrix, hrule, hnone hrule]
    | some rule => simp [standing, lastMatrix, hrule]
  · intro k hk
    rw [Function.update_of_ne (by omega)]
    rcases Nat.lt_succ_iff_lt_or_eq.mp hk with hk | rfl
    · exact hearlier k hk
    · exact hmissed

variable {point : Array α} {stopping : StoppingRule α} {state : σ}

theorem Tracks.gradientAt {iterate : Iterate α n} (h : c.Tracks a x₀ stopping iterate) :
    c.GradientAt iterate.point iterate.gradient := by
  obtain ⟨N, x, g, B, htrajectory, rfl, -⟩ := h
  exact htrajectory.gradients N (Nat.le_refl N)

theorem tracks_of_enter {iterate : Iterate α point.size} {session after : Session σ α}
    (h : ((c.solver a).enter c.objective point stopping).outcome session =
      (.ok iterate, after)) : c.Tracks a point.toVector stopping iterate := by
  obtain ⟨-, hcount, hstart, middle, hgradient, hhessian⟩ := enter_eq_ok_iff.mp h
  obtain ⟨hanswer, -⟩ := gradientAt_eq_ok_iff.mp hgradient
  obtain ⟨hmatrix, -⟩ := hessianAt_eq_ok_iff.mp hhessian
  obtain ⟨count, start, gradient, B⟩ := iterate
  simp only at hcount hstart hanswer hmatrix
  subst hcount hstart
  refine ⟨0, fun _ => point.toVector, fun _ => gradient, fun _ => B,
    ⟨rfl, hmatrix, fun _ _ => hanswer, nofun, nofun⟩, ?_, nofun⟩
  cases hrule : c.rule <;> simp [standing, lastMatrix, hrule]

theorem tracks_of_head {iterate : Iterate α point.size} {session : Session σ α}
    (head : AtHead (c.solver a) c.objective point stopping state iterate session) :
    c.Tracks a point.toVector stopping iterate := by
  induction head with
  | first entered unmet => exact tracks_of_enter entered
  | next head room iterated unmet ih =>
      exact ih.next (StoppingRule.isSatisfiedBy_eq_false_iff.mp head.unmet)
        ((iteration_iff ih.gradientAt).mp ⟨_, iterated⟩)

/-- A run ends at the last point of a trajectory that stops there. -/
theorem trajectory_of_finish {iterate : Iterate α point.size} {session : Session σ α}
    {ending : Ending}
    (finish : Finishes (c.solver a) c.objective point stopping state iterate session ending) :
    ∃ N x g B, c.Trajectory a point.toVector N x g B ∧ iterate = c.standing x g B N ∧
      StopsAt stopping g N ending := by
  cases finish with
  | atOnce entered met =>
      have hcount := (enter_eq_ok_iff.mp entered).2.1
      obtain ⟨N, x, g, B, htrajectory, rfl, hearlier⟩ := tracks_of_enter entered
      have hN : N = 0 := hcount
      refine ⟨N, x, g, B, htrajectory, rfl, .converged ?_ ?_ hearlier⟩
      · omega
      · exact StoppingRule.isSatisfiedBy_iff.mp met
  | converged head room iterated met =>
      have hcount := iteration_count iterated
      have htracks := tracks_of_head head
      obtain ⟨N, x, g, B, htrajectory, rfl, hearlier⟩ :=
        htracks.next (StoppingRule.isSatisfiedBy_eq_false_iff.mp head.unmet)
          ((iteration_iff htracks.gradientAt).mp ⟨_, iterated⟩)
      have hN : N = _ + 1 := hcount
      refine ⟨N, x, g, B, htrajectory, rfl, .converged ?_ ?_ hearlier⟩
      · omega
      · exact StoppingRule.isSatisfiedBy_iff.mp met
  | exhausted head spent =>
      have hmissed := StoppingRule.isSatisfiedBy_eq_false_iff.mp head.unmet
      obtain ⟨N, x, g, B, htrajectory, rfl, hearlier⟩ := tracks_of_head head
      have hN : N = stopping.maxIterations.toNat := spent
      subst hN
      refine ⟨_, x, g, B, htrajectory, rfl, .exhausted fun k hk => ?_⟩
      rcases Nat.lt_or_eq_of_le hk with hk | rfl
      · exact hearlier k hk
      · exact hmissed

/-! ## From a trajectory to a run -/

theorem Trajectory.moves_standing (h : c.Trajectory a x₀ N x g B) {k : Nat} (hk : k < N) :
    c.Moves a (c.standing x g B k) (c.standing x g B (k + 1)) := by
  obtain ⟨direction, hdirection, hnext, hfinite⟩ := h.moves k hk
  have hmatrix := h.matrices k hk
  unfold MatrixStep at hmatrix
  refine ⟨B k, direction, ?_, hdirection, rfl, hnext, hfinite, h.gradients (k + 1) hk, ?_, ?_⟩
  · cases hrule : c.rule with
    | none =>
        rcases Nat.eq_zero_or_pos k with rfl | hpos
        · simp [standing, lastMatrix, hrule]
        · simpa [standing, hrule, hpos] using hmatrix
    | some rule => simp [standing, lastMatrix, hrule]
  · intro hrule
    simp [standing, lastMatrix, hrule]
  · intro rule hrule
    simpa [standing, lastMatrix, hrule] using hmatrix

variable {x g : Nat → Vector α point.size}

theorem Trajectory.exists_enter (h : c.Trajectory a point.toVector N x g B)
    (hvalid : stopping.validate = .ok () ∧ StepRule.validate ⟨a⟩ = .ok () ∧
      validatePoint point = .ok ()) (session : Session σ α) :
    ∃ after, ((c.solver a).enter c.objective point stopping).outcome session =
      (.ok (c.standing x g B 0), after) := by
  have hgradient := h.gradients 0 N.zero_le
  have hmatrix := h.firstMatrix
  rw [h.start] at hgradient hmatrix
  have hlast : c.lastMatrix B 0 = B 0 := by
    cases hrule : c.rule <;> simp [lastMatrix, hrule]
  refine ⟨_, enter_eq_ok_iff.mpr ⟨hvalid, rfl, h.start, _,
    gradientAt_eq_ok_iff.mpr ⟨hgradient, rfl⟩, hessianAt_eq_ok_iff.mpr ⟨?_, rfl⟩⟩⟩
  simpa [standing, hlast] using hmatrix

theorem Trajectory.exists_iteration (h : c.Trajectory a point.toVector N x g B) {k : Nat}
    (hk : k < N) (session : Session σ α) :
    ∃ after, ((c.solver a).iteration c.objective (c.standing x g B k)).outcome session =
      (.ok (c.standing x g B (k + 1)), after) :=
  (iteration_iff (h.gradients k (Nat.le_of_lt hk))).mpr (h.moves_standing hk)

theorem Trajectory.exists_head (h : c.Trajectory a point.toVector N x g B)
    (hvalid : stopping.validate = .ok () ∧ StepRule.validate ⟨a⟩ = .ok () ∧
      validatePoint point = .ok ()) {k : Nat} (hk : k ≤ N)
    (hroom : k ≤ stopping.maxIterations.toNat) (hmissed : ∀ j ≤ k, ¬ stopping.Within (g j)) :
    ∃ session : Session σ α,
      AtHead (c.solver a) c.objective point stopping state (c.standing x g B k) session := by
  have hunmet (j : Nat) (hj : j ≤ k) :=
    StoppingRule.isSatisfiedBy_eq_false_iff.mpr (hmissed j hj)
  induction k with
  | zero =>
      obtain ⟨session, hentered⟩ := h.exists_enter hvalid (#[], {}, state)
      exact ⟨session, .first hentered (hunmet 0 (Nat.le_refl 0))⟩
  | succ k ih =>
      obtain ⟨session, head⟩ := ih (by omega) (by omega)
        (fun j hj => hmissed j (by omega)) (fun j hj => hunmet j (by omega))
      obtain ⟨after, hiterated⟩ := h.exists_iteration hk session
      exact ⟨after, .next head hroom hiterated (hunmet (k + 1) (Nat.le_refl _))⟩

variable (state) in
/-- A run ends at the point where a trajectory stops. -/
theorem Trajectory.exists_finish (h : c.Trajectory a point.toVector N x g B)
    (hvalid : stopping.validate = .ok () ∧ StepRule.validate ⟨a⟩ = .ok () ∧
      validatePoint point = .ok ()) {ending : Ending} (hstops : StopsAt stopping g N ending) :
    ∃ session : Session σ α,
      Finishes (c.solver a) c.objective point stopping state (c.standing x g B N) session
        ending := by
  cases hstops with
  | converged room hit first =>
      have hmet := StoppingRule.isSatisfiedBy_iff.mpr hit
      cases N with
      | zero =>
          obtain ⟨session, hentered⟩ := h.exists_enter hvalid (#[], {}, state)
          exact ⟨session, .atOnce hentered hmet⟩
      | succ k =>
          obtain ⟨session, head⟩ := h.exists_head hvalid (Nat.le_succ k) (by omega)
            (fun j hj => first j (by omega))
          obtain ⟨after, hiterated⟩ := h.exists_iteration k.lt_succ_self session
          exact ⟨after, .converged head room hiterated hmet⟩
  | exhausted missed =>
      obtain ⟨session, head⟩ :=
        h.exists_head hvalid (Nat.le_refl _) (Nat.le_refl _) missed
      exact ⟨session, .exhausted head rfl⟩

omit [Scalar α] in
theorem lastMatrix_of_ne_none (B : Nat → DenseMatrix α) (N : Nat) (hrule : c.rule ≠ none) :
    c.lastMatrix B N = B N := by
  obtain ⟨rule, hrule⟩ := Option.ne_none_iff_exists'.mp hrule
  simp [lastMatrix, hrule]

/-- Without a rule the matrix in the end is the Hessian at the point before the
last one, or at the only point. -/
theorem Trajectory.hessian_lastMatrix {x g : Nat → Vector α n} (h : c.Trajectory a x₀ N x g B)
    (hrule : c.rule = none) : c.hessian (x (N - 1)).toArray = .ok (c.lastMatrix B N) := by
  have hlast : c.lastMatrix B N = B (N - 1) := by simp [lastMatrix, hrule]
  rw [hlast]
  cases N with
  | zero => exact h.firstMatrix.1
  | succ k =>
      have hmatrix := h.matrices k k.lt_succ_self
      simp only [MatrixStep, hrule] at hmatrix
      exact hmatrix.1

/-- A run returns a report exactly when the iteration can be carried through to
the first point within the tolerance, or to the end of the budget; the report
is about that point. -/
theorem minimize_reports_first_hit (c : Callables α) (a : α) (point : Array α)
    (stopping : StoppingRule α) (state : σ) (hpoint : point ≠ #[])
    (hfinite : Scalar.allFinite point.toList = true) (hstopping : stopping.validate = .ok ())
    (hstep : StepRule.validate ⟨a⟩ = .ok ()) :
    ((∃ report,
        ((c.solver a).minimize c.objective point stopping state).result = .ok report) ↔
      ∃ N ending x g B value, c.Trajectory a point.toVector N x g B ∧
        StopsAt stopping g N ending ∧ c.cost (x N).toArray = .ok value) ∧
    ∀ report N ending x g B value,
      ((c.solver a).minimize c.objective point stopping state).result = .ok report →
      c.Trajectory a point.toVector N x g B → StopsAt stopping g N ending →
      c.cost (x N).toArray = .ok value →
      report.iterations = N ∧ report.ending = ending ∧ report.point = (x N).toArray ∧
      report.gradient = (g N).toArray ∧ report.value = value ∧
      (c.rule ≠ none → report.hessian = B N) ∧
      (c.rule = none → c.hessian (x (N - 1)).toArray = .ok report.hessian) ∧
      (report.converged = true ↔ report.ending = .converged) := by
  have hvalid : stopping.validate = .ok () ∧ StepRule.validate ⟨a⟩ = .ok () ∧
      validatePoint point = .ok () :=
    ⟨hstopping, hstep, by simp [validatePoint, hpoint, hfinite]⟩
  have hreport {N ending x g B value} (htrajectory : c.Trajectory a point.toVector N x g B)
      (hstops : StopsAt stopping g N ending) (hcost : c.cost (x N).toArray = .ok value) :
      ∃ evaluations, ((c.solver a).minimize c.objective point stopping state).result =
        .ok ((Report.of (x N).toArray value (g N).toArray (c.lastMatrix B N) N
          ending).withEvaluations evaluations) := by
    obtain ⟨session, hfinish⟩ := htrajectory.exists_finish state hvalid hstops
    exact ⟨_, minimize_eq_ok_iff.mpr
      ⟨_, session, ending, value, _, hfinish, costAt_eq_ok_iff.mpr ⟨hcost, rfl⟩, rfl⟩⟩
  refine ⟨⟨?_, ?_⟩, ?_⟩
  · rintro ⟨report, hresult⟩
    obtain ⟨iterate, session, ending, value, after, hfinish, hcost, -⟩ :=
      minimize_eq_ok_iff.mp hresult
    obtain ⟨N, x, g, B, htrajectory, rfl, hstops⟩ := trajectory_of_finish hfinish
    exact ⟨N, ending, x, g, B, value, htrajectory, hstops, (costAt_eq_ok_iff.mp hcost).1⟩
  · rintro ⟨N, ending, x, g, B, value, htrajectory, hstops, hcost⟩
    obtain ⟨evaluations, hresult⟩ := hreport htrajectory hstops hcost
    exact ⟨_, hresult⟩
  · intro report N ending x g B value hresult htrajectory hstops hcost
    obtain ⟨evaluations, hresult'⟩ := hreport htrajectory hstops hcost
    rw [hresult'] at hresult
    cases hresult
    refine ⟨rfl, rfl, rfl, rfl, rfl, fun hrule => lastMatrix_of_ne_none B N hrule,
      fun hrule => htrajectory.hessian_lastMatrix hrule, ?_⟩
    simp [Report.converged]

/-- The square of a number, minimised by Newton's method. -/
def square : Callables Float where
  cost x := .ok (Dense.dot x.toVector x.toVector)
  gradient x := .ok (x.map (2 * ·))
  hessian _ := .ok (.ofGrid #v[#v[2]])
  rule := none

theorem square_trajectory :
    square.Trajectory 1 #v[3] 1
      (fun k => if k = 0 then #v[3] else #v[3 + -(2 * 3) / 2 * 1])
      (fun k => if k = 0 then #v[2 * 3] else #v[2 * (3 + -(2 * 3) / 2 * 1)])
      (fun _ => .ofGrid #v[#v[2]]) := by
  have hB : square.HessianAt (n := 1) #v[3] (.ofGrid #v[#v[2]]) :=
    ⟨rfl, rfl, rfl, by decide +kernel⟩
  refine ⟨rfl, hB, ?_, ?_, ?_⟩
  · intro k hk
    obtain rfl | rfl : k = 0 ∨ k = 1 := by omega
    · exact ⟨by simp [square], by decide +kernel⟩
    · exact ⟨by simp [square], by decide +kernel⟩
  · intro k hk
    obtain rfl : k = 0 := by omega
    refine ⟨#v[-(2 * 3) / 2], ?_, by with_unfolding_all rfl, by decide +kernel⟩
    have hsolved : solveForDirection (#v[#v[2]] : Grid Float 1 1) #v[2 * 3] =
        some #v[-(2 * 3) / 2] := by
      change (if (2 : Float) == 0 || !Scalar.isFinite (2 : Float) then none
        else some #v[-(2 * 3) / (2 : Float)]) = _
      exact if_neg (by decide +kernel)
    change descentDirection (.ofGrid (#v[#v[2]] : Grid Float 1 1)) #v[2 * 3] 1 = _
    rw [descentDirection, DenseMatrix.toGrid?_ofGrid]
    simp only [hsolved]
    exact if_pos (by decide +kernel)
  · intro k hk
    obtain rfl : k = 0 := by omega
    exact hB

theorem square_reports_first_hit :
    ∃ report,
      ((square.solver 1).minimize square.objective #[3] ⟨1e-5, 10⟩ ()).result = .ok report ∧
      report.iterations = 1 ∧ report.ending = .converged ∧
      report.hessian = .ofGrid #v[#v[2]] := by
  obtain ⟨hexists, hfields⟩ := minimize_reports_first_hit square 1 #[3] ⟨1e-5, 10⟩ ()
    (by simp) (by decide +kernel) rfl rfl
  have hstops : StopsAt (⟨1e-5, 10⟩ : StoppingRule Float)
      (fun k => if k = 0 then #v[2 * 3] else #v[2 * (3 + -(2 * 3) / 2 * 1)]) 1 .converged := by
    refine .converged (by decide) ?_ ?_
    · unfold StoppingRule.Within
      decide +kernel
    · intro k hk
      obtain rfl : k = 0 := by omega
      unfold StoppingRule.Within
      decide +kernel
  obtain ⟨report, hresult⟩ :=
    hexists.mpr ⟨1, _, _, _, _, _, square_trajectory, hstops, rfl⟩
  obtain ⟨hiterations, hending, -, -, -, -, hhessian, -⟩ :=
    hfields report 1 _ _ _ _ _ hresult square_trajectory hstops rfl
  have hanswer := hhessian rfl
  exact ⟨report, hresult, hiterations, hending, (Except.ok.inj hanswer).symm⟩

end Callables

end SecantDescent
