import SecantDescent.Proofs.Exact.InverseForm
import SecantDescent.Proofs.Exact.Run

/-!
# Runs with the update of rank two

Two kinds of matrices stay what they are along a run in exact arithmetic.  A
symmetric matrix that can be inverted remains one whatever the curvatures are,
so that the direction always exists.  A positive definite matrix remains one
when the gradient is strictly monotone, so that every direction is a direction
of descent.
-/

namespace SecantDescent

open SecantDescent.Dense Matrix

variable {σ : Type} {n : Nat}

/-- Square of size `n`, symmetric, and with a determinant that is not zero. -/
def DenseMatrix.SymmetricInvertible (A : DenseMatrix ℝ) (n : Nat) : Prop :=
  ∃ B : Grid ℝ n n, A = .ofGrid B ∧ B.toMatrix.IsSymm ∧ B.toMatrix.det ≠ 0

/-- Square of size `n`, symmetric and positive definite. -/
def DenseMatrix.PositiveDefinite (A : DenseMatrix ℝ) (n : Nat) : Prop :=
  ∃ B : Grid ℝ n n, A = .ofGrid B ∧ B.toMatrix.PosDef

theorem det_ne_zero_of_posDef {B : Matrix (Fin n) (Fin n) ℝ} (hB : B.PosDef) : B.det ≠ 0 := by
  have hunit := hB.isUnit
  rw [isUnit_iff_isUnit_det] at hunit
  exact hunit.ne_zero

theorem DenseMatrix.PositiveDefinite.symmetricInvertible {A : DenseMatrix ℝ}
    (h : A.PositiveDefinite n) : A.SymmetricInvertible n := by
  obtain ⟨B, hA, hB⟩ := h
  exact ⟨B, hA, isSymm_of_posDef hB, det_ne_zero_of_posDef hB⟩

namespace Landscape

variable {L : Landscape n} {a : ℝ} {safeguard : Safeguard ℝ}

/-! ## One refreshment -/

/-- A symmetric matrix is kept, or it is replaced by the update of rank two,
whose denominators are not zero. -/
theorem refreshed_bfgs (htolerance : 0 ≤ safeguard.tolerance) {B : Grid ℝ n n}
    (hB : B.toMatrix.IsSymm) {x x' : Vector ℝ n} {A : DenseMatrix ℝ}
    (h : L.refreshed (some (.bfgs, safeguard)) (.ofGrid B) x x' = .ok A) :
    A = .ofGrid B ∨ ∃ B' : Grid ℝ n n, A = .ofGrid B' ∧
      coords (x' - x) ⬝ᵥ B.toMatrix *ᵥ coords (x' - x) ≠ 0 ∧
      coords (L.gradient x' - L.gradient x) ⬝ᵥ coords (x' - x) ≠ 0 ∧
      B'.toMatrix =
        rankTwo B.toMatrix (coords (x' - x)) (coords (L.gradient x' - L.gradient x)) := by
  rcases refreshed_eq_ok h with hkept | ⟨B', hB', hattempt⟩
  · exact .inl hkept
  · exact .inr ⟨B', hB', SecantRule.bfgsUpdate_exact_of_isSymm htolerance hB hattempt⟩

/-! ## Invertible matrices -/

theorem symmetricInvertible_next (htolerance : 0 ≤ safeguard.tolerance)
    {iterate next : Iterate ℝ n} (hinvertible : iterate.hessian.SymmetricInvertible n)
    (hnext : L.next a (some (.bfgs, safeguard)) iterate = .ok next) :
    next.hessian.SymmetricInvertible n := by
  obtain ⟨B, hheld, hsymm, hdet⟩ := hinvertible
  obtain ⟨direction, -, -, -, -, hrefreshed⟩ := next_eq_ok_iff.mp hnext
  rw [held_some, hheld] at hrefreshed
  rcases refreshed_bfgs htolerance hsymm hrefreshed with
    hkept | ⟨B', hB', hform, hcurvature, hmatrix⟩
  · exact ⟨B, hkept, hsymm, hdet⟩
  · refine ⟨B', hB', ?_, ?_⟩
    · rw [hmatrix]
      exact rankTwo_isSymm hsymm
    · rw [hmatrix]
      exact rankTwo_det_ne_zero hdet hform hcurvature

/-- With a matrix that can be inverted the direction exists, and what is left of
the iteration is the refreshment. -/
theorem next_of_symmetricInvertible {rule : SecantRule} {iterate : Iterate ℝ n}
    (hinvertible : iterate.hessian.SymmetricInvertible n) :
    (∃ next, L.next a (some (rule, safeguard)) iterate = .ok next) ∨
      safeguard.policy = .error ∧ ∃ quantity value,
        L.next a (some (rule, safeguard)) iterate =
          .error (.degenerateUpdate rule.name quantity value) := by
  obtain ⟨B, hheld, -, hdet⟩ := hinvertible
  obtain ⟨direction, hdirection⟩ :=
    exists_descentDirection hdet iterate.gradient (iterate.count + 1)
  have hheld' : L.held (some (rule, safeguard)) iterate = .ofGrid B := hheld
  rw [← hheld'] at hdirection
  have hnext := next_of_direction (a := a) hdirection
  rw [hheld'] at hnext
  cases hrefreshed : L.refreshed (some (rule, safeguard)) (.ofGrid B) iterate.point
      (Solver.moved iterate.point direction a) with
  | ok A =>
      rw [hrefreshed] at hnext
      exact .inl ⟨_, hnext⟩
  | error failure =>
      obtain ⟨hpolicy, quantity, value, rfl⟩ := refreshed_eq_error hrefreshed
      rw [hrefreshed] at hnext
      exact .inr ⟨hpolicy, quantity, value, hnext⟩

/-! ## Positive definite matrices -/

variable (L) in
/-- The change of the gradient between two points points along the step. -/
def StrictlyMonotone : Prop :=
  ∀ x z, x ≠ z → 0 < coords (L.gradient x - L.gradient z) ⬝ᵥ coords (x - z)

theorem positiveDefinite_next (htolerance : 0 ≤ safeguard.tolerance)
    (hmonotone : L.StrictlyMonotone) {iterate next : Iterate ℝ n}
    (hdefinite : iterate.hessian.PositiveDefinite n)
    (hnext : L.next a (some (.bfgs, safeguard)) iterate = .ok next) :
    next.hessian.PositiveDefinite n := by
  obtain ⟨B, hheld, hB⟩ := hdefinite
  obtain ⟨direction, -, -, -, -, hrefreshed⟩ := next_eq_ok_iff.mp hnext
  rw [held_some, hheld] at hrefreshed
  rcases refreshed_bfgs htolerance (isSymm_of_posDef hB) hrefreshed with
    hkept | ⟨B', hB', -, hcurvature, hmatrix⟩
  · exact ⟨B, hkept, hB⟩
  · have hstep : coords (next.point - iterate.point) ≠ 0 := by
      intro hzero
      rw [hzero, dotProduct_zero] at hcurvature
      exact hcurvature rfl
    have hmoved : next.point ≠ iterate.point := by
      intro hsame
      rw [hsame, coords_sub, sub_self] at hstep
      exact hstep rfl
    refine ⟨B', hB', ?_⟩
    rw [hmatrix]
    exact rankTwo_posDef hB hstep (hmonotone _ _ hmoved)

/-- The direction of a positive definite matrix points downwards. -/
theorem exists_descent {A : DenseMatrix ℝ} (hA : A.PositiveDefinite n) {g : Vector ℝ n}
    (hg : coords g ≠ 0) (iteration : Nat) :
    ∃ d, descentDirection A g iteration = .ok d ∧ coords g ⬝ᵥ coords d < 0 := by
  obtain ⟨B, rfl, hB⟩ := hA
  obtain ⟨d, hdirection⟩ := exists_descentDirection (det_ne_zero_of_posDef hB) g iteration
  have hsolves : B.toMatrix *ᵥ coords d = -coords g :=
    (descentDirection_eq_ok_iff.mp hdirection).2
  have hd : coords d ≠ 0 := by
    intro hzero
    rw [hzero, mulVec_zero, eq_comm, neg_eq_zero] at hsolves
    exact hg hsolves
  have hform : 0 < coords d ⬝ᵥ B.toMatrix *ᵥ coords d := hB.dotProduct_mulVec_pos hd
  rw [hsolves, dotProduct_neg, dotProduct_comm] at hform
  exact ⟨d, hdirection, neg_pos.mp hform⟩

/-! ## Paraboloids -/

/-- A multiple of half the square of the distance from the origin. -/
noncomputable def paraboloid (n : Nat) (c : ℝ) : Landscape n where
  value x := c / 2 * dot x x
  gradient x := x.map (c * ·)
  hessian _ := Grid.ofFn fun i j => if i = j then c else 0

theorem paraboloid_hessian (c : ℝ) (x : Vector ℝ n) :
    ((paraboloid n c).hessian x).toMatrix = c • 1 := by
  ext i j
  simp [paraboloid, one_apply]

theorem paraboloid_strictlyMonotone {c : ℝ} (hc : 0 < c) :
    (paraboloid n c).StrictlyMonotone := by
  intro x z hxz
  have hscaled (w : Vector ℝ n) : coords ((paraboloid n c).gradient w) = c • coords w := by
    funext i
    exact Vector.getElem_map _ i.isLt
  have hdifference : coords x - coords z ≠ 0 := by
    rw [sub_ne_zero]
    exact coords_injective.ne hxz
  have hsquare : 0 < (coords x - coords z) ⬝ᵥ (coords x - coords z) :=
    dotProduct_self_star_pos_iff.mpr hdifference
  rw [coords_sub, coords_sub, hscaled, hscaled, ← smul_sub, smul_dotProduct]
  exact mul_pos hc hsquare

end Landscape

namespace Solver

open Landscape (paraboloid paraboloid_hessian paraboloid_strictlyMonotone)

/-- A run that begins with a symmetric matrix that can be inverted holds such a
matrix to its end, and never fails for a singular one. -/
theorem bfgs_run_stays_invertible (f : Objective σ ℝ) (point : Array ℝ)
    (L : Landscape point.size) (a : ℝ) (safeguard : Safeguard ℝ) (stopping : StoppingRule ℝ)
    (state : σ) (hf : f.Answers L) (hsymm : (L.hessian point.toVector).toMatrix.IsSymm)
    (hdet : (L.hessian point.toVector).toMatrix.det ≠ 0)
    (htolerance : 0 ≤ safeguard.tolerance) :
    (∀ iterate session,
      AtHead (ofSecant a (some (.bfgs, safeguard))) f point stopping state iterate session →
      iterate.hessian.SymmetricInvertible point.size) ∧
    (∀ report,
      ((ofSecant a (some (.bfgs, safeguard))).minimize f point stopping state).result =
        .ok report →
      report.hessian.SymmetricInvertible point.size) ∧
    ∀ k, ((ofSecant a (some (.bfgs, safeguard))).minimize f point stopping state).result ≠
      .error (.singularMatrix k) := by
  have hfirst : (L.first point.toVector).hessian.SymmetricInvertible point.size :=
    ⟨L.hessian point.toVector, rfl, hsymm, hdet⟩
  have hheads (iterate session) (head : AtHead (ofSecant a (some (.bfgs, safeguard))) f point
      stopping state iterate session) : iterate.hessian.SymmetricInvertible point.size :=
    head.induct_exact hf (fun iterate => iterate.hessian.SymmetricInvertible point.size) hfirst
      fun _ _ => Landscape.symmetricInvertible_next htolerance
  refine ⟨hheads, ?_, ?_⟩
  · intro report hreport
    obtain ⟨iterate, session, ending, value, after, hfinish, -, rfl⟩ :=
      minimize_eq_ok_iff.mp hreport
    exact hfinish.induct_exact hf
      (fun iterate => iterate.hessian.SymmetricInvertible point.size) hfirst
      fun _ _ => Landscape.symmetricInvertible_next htolerance
  · intro k hfailed
    rcases minimize_exact_eq_error hf hfailed with ⟨after, hentered⟩ | ⟨_, _, head, hnext⟩
    · obtain ⟨argument, hargument⟩ := enter_exact_eq_error hf hentered
      cases hargument
    · rcases Landscape.next_of_symmetricInvertible (hheads _ _ head) with
        ⟨next, hok⟩ | ⟨-, _, _, herror⟩
      · rw [hok] at hnext
        cases hnext
      · rw [herror] at hnext
        cases hnext

theorem hill_run_stays_invertible :
    ((paraboloid 2 (-1)).hessian #v[3, 4]).toMatrix.IsSymm ∧
      ((paraboloid 2 (-1)).hessian #v[3, 4]).toMatrix.det ≠ 0 ∧
      ∀ k, ((ofSecant 1 (some (.bfgs, ⟨.error, 0⟩))).minimize (paraboloid 2 (-1)).objective
        #[3, 4] ⟨0, 10⟩ ()).result ≠ .error (.singularMatrix k) := by
  have hsymm : ((paraboloid 2 (-1)).hessian #v[3, 4]).toMatrix.IsSymm := by
    rw [paraboloid_hessian]
    exact isSymm_one.smul (-1)
  have hdet : ((paraboloid 2 (-1)).hessian #v[3, 4]).toMatrix.det ≠ 0 := by
    rw [paraboloid_hessian, det_smul, det_one]
    norm_num
  exact ⟨hsymm, hdet, (bfgs_run_stays_invertible (paraboloid 2 (-1)).objective #[3, 4]
    (paraboloid 2 (-1)) 1 ⟨.error, 0⟩ ⟨0, 10⟩ () (Landscape.objective_answers _) hsymm hdet
    le_rfl).2.2⟩

section Monotone

variable {f : Objective σ ℝ} {point : Array ℝ} {L : Landscape point.size}
variable {a tolerance : ℝ} {stopping : StoppingRule ℝ} {state : σ}

theorem positiveDefinite_of_head (hf : f.Answers L) (hmonotone : L.StrictlyMonotone)
    (hhessian : (L.hessian point.toVector).toMatrix.PosDef) (htolerance : 0 ≤ tolerance)
    {iterate : Iterate ℝ point.size} {session : Session σ ℝ}
    (head :
      AtHead (ofSecant a (some (.bfgs, ⟨.skip, tolerance⟩))) f point stopping state iterate
      session) : iterate.hessian.PositiveDefinite point.size :=
  head.induct_exact hf (fun iterate => iterate.hessian.PositiveDefinite point.size)
    ⟨L.hessian point.toVector, rfl, hhessian⟩
    fun _ _ => Landscape.positiveDefinite_next htolerance hmonotone

theorem gradient_of_head (hf : f.Answers L) {method : Option (SecantRule × Safeguard ℝ)}
    {iterate : Iterate ℝ point.size} {session : Session σ ℝ}
    (head : AtHead (ofSecant a method) f point stopping state iterate session) :
    iterate.gradient = L.gradient iterate.point := by
  refine head.induct_exact hf
    (fun iterate => iterate.gradient = L.gradient iterate.point) rfl ?_
  intro iterate next _ hnext
  obtain ⟨direction, -, -, -, hgradient, -⟩ := Landscape.next_eq_ok_iff.mp hnext
  exact hgradient

/-- A run that skips degenerate updates and holds matrices that can be inverted
returns a report. -/
theorem exists_report_of_skip {rule : SecantRule} (hf : f.Answers L) (hpoint : point ≠ #[])
    (ha : 0 < a) (hstopping : stopping.validate = .ok ())
    (hheads : ∀ iterate session,
      AtHead (ofSecant a (some (rule, ⟨.skip, tolerance⟩))) f point stopping state iterate
        session → iterate.hessian.SymmetricInvertible point.size) :
    ∃ report, ((ofSecant a (some (rule, ⟨.skip, tolerance⟩))).minimize f point stopping
      state).result = .ok report := by
  apply exists_report hf hpoint ha hstopping
  intro iterate session head
  rcases Landscape.next_of_symmetricInvertible (hheads iterate session head) with
    hnext | ⟨hpolicy, -⟩
  · exact hnext
  · cases hpolicy

/-- With a strictly monotone gradient and a positive definite matrix at the
initial point, a run that skips degenerate updates returns a report, holds a
positive definite matrix to its end, and only takes directions of descent. -/
theorem bfgs_run_descends (f : Objective σ ℝ) (point : Array ℝ) (L : Landscape point.size)
    (a tolerance : ℝ) (stopping : StoppingRule ℝ) (state : σ) (hf : f.Answers L)
    (hmonotone : L.StrictlyMonotone) (hhessian : (L.hessian point.toVector).toMatrix.PosDef)
    (hpoint : point ≠ #[]) (ha : 0 < a) (hstopping : stopping.validate = .ok ())
    (htolerance : 0 ≤ tolerance) :
    (∃ report,
      ((ofSecant a (some (.bfgs, ⟨.skip, tolerance⟩))).minimize f point stopping
        state).result = .ok report ∧
      report.hessian.PositiveDefinite point.size) ∧
    ∀ iterate session,
      AtHead (ofSecant a (some (.bfgs, ⟨.skip, tolerance⟩))) f point stopping state iterate
        session →
      iterate.gradient = L.gradient iterate.point ∧
      iterate.hessian.PositiveDefinite point.size ∧
      ∃ d, descentDirection iterate.hessian iterate.gradient (iterate.count + 1) = .ok d ∧
        coords iterate.gradient ⬝ᵥ coords d < 0 := by
  have hheads (iterate session)
      (head : AtHead (ofSecant a (some (.bfgs, ⟨.skip, tolerance⟩))) f point stopping state
        iterate session) :
      iterate.hessian.PositiveDefinite point.size :=
    positiveDefinite_of_head hf hmonotone hhessian htolerance head
  refine ⟨?_, ?_⟩
  · obtain ⟨report, hreport⟩ := exists_report_of_skip hf hpoint ha hstopping
      fun iterate session head => (hheads iterate session head).symmetricInvertible
    refine ⟨report, hreport, ?_⟩
    obtain ⟨iterate, session, ending, value, after, hfinish, -, rfl⟩ :=
      minimize_eq_ok_iff.mp hreport
    exact hfinish.induct_exact hf (fun iterate => iterate.hessian.PositiveDefinite point.size)
      ⟨L.hessian point.toVector, rfl, hhessian⟩
      fun _ _ => Landscape.positiveDefinite_next htolerance hmonotone
  · intro iterate session head
    have hdefinite := hheads iterate session head
    exact ⟨gradient_of_head hf head, hdefinite,
      Landscape.exists_descent hdefinite (head.gradient_ne_zero hstopping) _⟩

end Monotone

theorem bowl_run_descends :
    (paraboloid 2 1).StrictlyMonotone ∧
      ((paraboloid 2 1).hessian #v[3, 4]).toMatrix.PosDef ∧
      ∃ report, ((ofSecant (1 / 2) (some (.bfgs, ⟨.skip, 0⟩))).minimize
          (paraboloid 2 1).objective #[3, 4] ⟨0, 10⟩ ()).result = .ok report ∧
        report.hessian.PositiveDefinite 2 := by
  have hmonotone : (paraboloid 2 1).StrictlyMonotone := paraboloid_strictlyMonotone one_pos
  have hhessian : ((paraboloid 2 1).hessian #v[3, 4]).toMatrix.PosDef := by
    rw [paraboloid_hessian, one_smul]
    exact .one
  have hstopping : (⟨0, 10⟩ : StoppingRule ℝ).validate = .ok () :=
    StoppingRule.validate_exact.mpr ⟨le_rfl, by decide⟩
  exact ⟨hmonotone, hhessian, (bfgs_run_descends (paraboloid 2 1).objective #[3, 4]
    (paraboloid 2 1) (1 / 2) 0 ⟨0, 10⟩ () (Landscape.objective_answers _) hmonotone hhessian
    (by simp) (by norm_num) hstopping le_rfl).1⟩

end Solver

end SecantDescent
