import SecantDescent.Proofs.Exact.RankOne
import SecantDescent.Proofs.Exact.Run
import SecantDescent.Proofs.Run.WellShaped

/-!
# Broyden's good rule and the Jacobian

When the gradient is affine, the matrix `A` of the gradient is on the secant
equation of every pair of a run.  Every update by Broyden's good rule therefore
comes closer to `A`, or at least no further away, although it is only told the
gradients at two points.  Nothing is asked of `A`, of the safeguard or of the
value of the objective.
-/

namespace SecantDescent

open SecantDescent.Dense Eval Matrix

variable {σ : Type} {n : Nat}

/-- Square of size `n`, and at most this far from a matrix. -/
def DenseMatrix.Within (M : DenseMatrix ℝ) (A : Grid ℝ n n) (distance : ℝ) : Prop :=
  ∃ B : Grid ℝ n n, M = .ofGrid B ∧ (B - A).frobenius ≤ distance

variable {A B : Grid ℝ n n} {safeguard : Safeguard ℝ}

theorem SecantRule.goodBroydenUpdate_closer {tolerance : ℝ} {B' : Grid ℝ n n}
    {s y : Vector ℝ n} (hsecant : A.toMatrix *ᵥ coords s = coords y)
    (h : goodBroydenUpdate tolerance B s y = .ok B') :
    (B' - A).frobenius ≤ (B - A).frobenius := by
  rw [Grid.frobenius_exact, Grid.frobenius_exact, Grid.toMatrix_sub, Grid.toMatrix_sub,
    goodBroydenUpdate_exact h]
  exact Real.sqrt_le_sqrt (trace_rankOne_sub_le hsecant)

/-- A skipped pair leaves the matrix where it is. -/
theorem SecantRule.refresh_closer {s y : Vector ℝ n} {refresh : Refresh ℝ}
    (hsecant : A.toMatrix *ᵥ coords s = coords y)
    (h : goodBroyden.refresh safeguard (.ofGrid B) ⟨s.toArray, y.toArray⟩ = .ok refresh) :
    (refresh.matrix (.ofGrid B)).Within A (B - A).frobenius := by
  rw [refresh_ofGrid] at h
  rcases settle_eq_ok h with ⟨B', hattempt, rfl⟩ | ⟨degeneracy, -, -, rfl⟩
  · have hupdate := (goodBroyden_attempt_eq_ok_iff.mp hattempt).2
    exact ⟨B', rfl, goodBroydenUpdate_closer hsecant hupdate⟩
  · exact ⟨B, rfl, le_rfl⟩

/-- The gradient is affine, at every call. -/
def Objective.AffineGradient (f : Objective σ ℝ) (A : Grid ℝ n n) (b : Vector ℝ n) : Prop :=
  ∀ (x : Vector ℝ n) state, ((f.gradient x.toArray).outcome state).1 =
    .ok (A.mulVec x + b).toArray

variable {f : Objective σ ℝ} {b : Vector ℝ n}

/-- The pair of two points has the difference of the points and what the matrix
makes of it. -/
theorem SecantPair.eq_of_between (hf : f.AffineGradient A b) {x x' : Vector ℝ n}
    {pair : SecantPair ℝ} {state after : Tally × σ}
    (h : (between f.counted x.toArray x'.toArray).outcome state = (.ok pair, after)) :
    ∃ y : Vector ℝ n, pair = ⟨(x' - x).toArray, y.toArray⟩ ∧
      A.toMatrix *ᵥ coords (x' - x) = coords y := by
  obtain ⟨-, g, middle, g', hg, hg', -, -, rfl⟩ := between_eq_ok_iff.mp h
  have hanswer (z : Vector ℝ n) {g : Array ℝ} {state after : Tally × σ}
      (h : (f.counted.gradient z.toArray).outcome state = (.ok g, after)) :
      g = (A.mulVec z + b).toArray := by
    rw [Objective.counted, outcome_after, hf] at h
    exact (Except.ok.inj (congrArg Prod.fst h)).symm
  rw [hanswer x hg, hanswer x' hg']
  refine ⟨(A.mulVec x' + b) - (A.mulVec x + b), rfl, ?_⟩
  rw [coords_sub, coords_sub, coords_add, coords_add, Grid.coords_mulVec, Grid.coords_mulVec,
    mulVec_sub]
  abel

theorem SecantPair.between_affine (hf : f.AffineGradient A b) {x x' : Vector ℝ n}
    {pair : SecantPair ℝ} {state after : Tally × σ}
    (h : (between f.counted x.toArray x'.toArray).outcome state = (.ok pair, after)) :
    ∃ s y : Vector ℝ n, pair = ⟨s.toArray, y.toArray⟩ ∧ A.toMatrix *ᵥ coords s = coords y := by
  obtain ⟨y, hpair, hsecant⟩ := eq_of_between hf h
  exact ⟨x' - x, y, hpair, hsecant⟩

namespace Solver

variable {a : ℝ}

theorem iteration_closer (hf : f.AffineGradient A b) {iterate next : Iterate ℝ n}
    {session after : Session σ ℝ} (hheld : iterate.hessian = .ofGrid B)
    (h : ((ofSecant a (some (.goodBroyden, safeguard))).iteration f iterate).outcome session =
      (.ok next, after)) : next.hessian.Within A (B - A).frobenius := by
  obtain ⟨_, hadvance, -⟩ := iteration_eq_ok_iff.mp h
  obtain ⟨held, first, direction, second, hmatrix, -, -, -, -, hafter, -⟩ :=
    advance_eq_ok_iff.mp hadvance
  obtain ⟨pair, middle, refresh, below, hpair, hrefresh, hnext, -, -⟩ :=
    (matrixAfter_eq_ok_iff rfl).mp hafter
  have hsame : held = .ofGrid B := by
    rw [matrixFor_eq_ok_iff] at hmatrix
    exact hmatrix.1.trans hheld
  obtain ⟨s, y, rfl, hsecant⟩ := SecantPair.between_affine hf hpair
  rw [hnext, hsame]
  rw [hsame] at hrefresh
  exact SecantRule.refresh_closer hsecant (congrArg Prod.fst hrefresh)

section Run

variable {point : Array ℝ} {A H : Grid ℝ point.size point.size} {b : Vector ℝ point.size}
variable {stopping : StoppingRule ℝ} {state : σ}
variable (hf : f.AffineGradient A b)
variable (hhessian : ∀ state, ((f.hessian point).outcome state).1 = .ok (.ofGrid H))

include hhessian in
theorem within_of_enter {solver : Solver σ ℝ} {iterate : Iterate ℝ point.size}
    {session after : Session σ ℝ}
    (h : (solver.enter f point stopping).outcome session = (.ok iterate, after)) :
    iterate.hessian.Within A (H - A).frobenius := by
  obtain ⟨-, -, -, middle, -, hentered⟩ := enter_eq_ok_iff.mp h
  obtain ⟨-, below, hanswer, -⟩ := hessianAt_eq_ok_iff.mp hentered
  have hsame := (hhessian _).symm.trans (congrArg Prod.fst hanswer)
  exact ⟨H, (Except.ok.inj hsame).symm, le_rfl⟩

include hf in
theorem within_of_iteration {distance : ℝ} {iterate next : Iterate ℝ point.size}
    {session after : Session σ ℝ} (hheld : iterate.hessian.Within A distance)
    (h : ((ofSecant a (some (.goodBroyden, safeguard))).iteration f iterate).outcome session =
      (.ok next, after)) : next.hessian.Within A distance := by
  obtain ⟨B, hB, hdistance⟩ := hheld
  obtain ⟨B', hB', hcloser⟩ := iteration_closer hf hB h
  exact ⟨B', hB', hcloser.trans hdistance⟩

include hf hhessian in
theorem within_of_head {iterate : Iterate ℝ point.size} {session : Session σ ℝ}
    (head : AtHead (ofSecant a (some (.goodBroyden, safeguard))) f point stopping state iterate
      session) : iterate.hessian.Within A (H - A).frobenius := by
  induction head with
  | first entered unmet => exact within_of_enter hhessian entered
  | next head room iterated unmet ih => exact within_of_iteration hf ih iterated

include hf hhessian in
theorem within_of_finish {iterate : Iterate ℝ point.size} {session : Session σ ℝ}
    {ending : Ending}
    (finish : Finishes (ofSecant a (some (.goodBroyden, safeguard))) f point stopping state
      iterate session ending) : iterate.hessian.Within A (H - A).frobenius := by
  cases finish with
  | atOnce entered met => exact within_of_enter hhessian entered
  | converged head room iterated met =>
      exact within_of_iteration hf (within_of_head hf hhessian head) iterated
  | exhausted head spent => exact within_of_head hf hhessian head

end Run

/-- With an affine gradient, the matrix that Broyden's good rule holds moves no
further away from the matrix of the gradient, from iteration to iteration and
therefore from the Hessian at the initial point to the end. -/
theorem goodBroyden_run_approaches (f : Objective σ ℝ) (point : Array ℝ)
    (A H : Grid ℝ point.size point.size) (b : Vector ℝ point.size) (a : ℝ)
    (safeguard : Safeguard ℝ) (stopping : StoppingRule ℝ) (state : σ)
    (hf : f.AffineGradient A b)
    (hhessian : ∀ state, ((f.hessian point).outcome state).1 = .ok (.ofGrid H)) :
    (∀ iterate session next after,
      AtHead (ofSecant a (some (.goodBroyden, safeguard))) f point stopping state iterate
        session →
      ((ofSecant a (some (.goodBroyden, safeguard))).iteration f iterate).outcome session =
        (.ok next, after) →
      ∃ B B' : Grid ℝ point.size point.size, iterate.hessian = .ofGrid B ∧
        next.hessian = .ofGrid B' ∧ (B' - A).frobenius ≤ (B - A).frobenius) ∧
    (∀ iterate session,
      AtHead (ofSecant a (some (.goodBroyden, safeguard))) f point stopping state iterate
        session →
      iterate.hessian.Within A (H - A).frobenius) ∧
    ∀ report,
      ((ofSecant a (some (.goodBroyden, safeguard))).minimize f point stopping state).result =
        .ok report →
      report.hessian.Within A (H - A).frobenius := by
  refine ⟨?_, fun _ _ head => within_of_head hf hhessian head, ?_⟩
  · intro iterate session next after head iterated
    obtain ⟨B, hB, -⟩ := within_of_head hf hhessian head
    obtain ⟨B', hB', hcloser⟩ := iteration_closer hf hB iterated
    exact ⟨B, B', hB, hB', hcloser⟩
  · intro report hreport
    obtain ⟨iterate, session, ending, value, after, hfinish, -, rfl⟩ :=
      minimize_eq_ok_iff.mp hreport
    exact within_of_finish hf hhessian hfinish

/-- A function of the sum of two coordinates, whose gradient has a singular
matrix, with the identity in the place of its Hessian. -/
noncomputable def ridge : Landscape 2 where
  value x := dot x ((Grid.ofFn fun _ _ => 1).mulVec x) * Scalar.half + dot x #v[1, 1]
  gradient x := (Grid.ofFn fun _ _ => 1).mulVec x + #v[1, 1]
  hessian _ := Grid.identity 2

theorem ridge_run_approaches :
    (Grid.ofFn fun _ _ => 1 : Grid ℝ 2 2).toMatrix.det = 0 ∧
      ∀ report,
        ((ofSecant 1 (some (.goodBroyden, ⟨.skip, 0⟩))).minimize ridge.objective #[3, 4]
          ⟨0, 10⟩ ()).result = .ok report →
        report.hessian.Within (Grid.ofFn fun _ _ => 1 : Grid ℝ 2 2)
          (Grid.identity 2 - Grid.ofFn fun _ _ => 1 : Grid ℝ 2 2).frobenius := by
  refine ⟨?_, (goodBroyden_run_approaches ridge.objective #[3, 4] (Grid.ofFn fun _ _ => 1)
    (Grid.identity 2) #v[1, 1] 1 ⟨.skip, 0⟩ ⟨0, 10⟩ ()
    (Landscape.objective_answers ridge).gradient
    ((Landscape.objective_answers ridge).hessian #v[3, 4])).2.2⟩
  rw [Grid.toMatrix_ofFn, det_fin_two]
  simp

end Solver

end SecantDescent
