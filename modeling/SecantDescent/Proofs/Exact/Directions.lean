import Mathlib.LinearAlgebra.Matrix.SchurComplement
import SecantDescent.Proofs.Exact.Bfgs
import SecantDescent.Proofs.Exact.RankOne

/-!
# Directions of updated matrices

What an accepted update does to the next direction.  The tests of the rule of
rank two look at the size of the curvature and not at its sign.  A positive
definite matrix stays positive definite exactly when the curvature is positive;
when it is negative, the update can still be inverted, but the direction for the
gradient `-y` is the step itself and points upwards.  Broyden's good rule has no
test for the quantity that decides about its directions, which is the product
of the step with the step that the matrix held would have needed for the change
of the gradient: if it vanishes, the update is singular, and otherwise every
gradient has a direction.
-/

namespace SecantDescent

open SecantDescent.Dense Matrix

variable {n : Nat}

section Matrices

variable {B : Matrix (Fin n) (Fin n) ℝ} {s y : Fin n → ℝ}

/-! ## The update of rank two -/

/-- The quadratic form of the update at the step is the curvature. -/
theorem rankTwo_posDef_iff (hB : B.PosDef) (hcurvature : y ⬝ᵥ s ≠ 0) :
    (rankTwo B s y).PosDef ↔ 0 < y ⬝ᵥ s := by
  have hs : s ≠ 0 := by
    rintro rfl
    exact hcurvature (dotProduct_zero y)
  have hform : 0 < s ⬝ᵥ B *ᵥ s := hB.dotProduct_mulVec_pos hs
  constructor
  · intro hdefinite
    have hstep : 0 < s ⬝ᵥ rankTwo B s y *ᵥ s := hdefinite.dotProduct_mulVec_pos hs
    rw [rankTwo_mulVec_step hform.ne' hcurvature, dotProduct_comm] at hstep
    exact hstep
  · intro hpositive
    exact rankTwo_posDef hB hs hpositive

/-! ## The update of rank one -/

/-- The update as a product: what it adds to the matrix is `B` after a matrix of
rank one. -/
theorem rankOne_eq_mul (hdet : B.det ≠ 0) :
    rankOne B s y = B * (1 + vecMulVec ((s ⬝ᵥ s)⁻¹ • (B⁻¹ *ᵥ y - s)) s) := by
  have hunit : IsUnit B.det := isUnit_iff_ne_zero.mpr hdet
  rw [Matrix.mul_add, Matrix.mul_one, mul_vecMulVec, mulVec_smul, mulVec_sub, mulVec_mulVec,
    mul_nonsing_inv _ hunit, one_mulVec, smul_vecMulVec, rankOne]

/-- The determinant of the update is that of the matrix, multiplied with the part
of `B⁻¹ y` along the step. -/
theorem rankOne_det (hdet : B.det ≠ 0) (hs : s ≠ 0) :
    (rankOne B s y).det = B.det * ((s ⬝ᵥ s)⁻¹ * (s ⬝ᵥ B⁻¹ *ᵥ y)) := by
  have hlength : s ⬝ᵥ s ≠ 0 := fun hzero => hs (dotProduct_self_eq_zero.mp hzero)
  have hfactor : 1 + s ⬝ᵥ (s ⬝ᵥ s)⁻¹ • (B⁻¹ *ᵥ y - s) = (s ⬝ᵥ s)⁻¹ * (s ⬝ᵥ B⁻¹ *ᵥ y) := by
    rw [dotProduct_smul, dotProduct_sub, smul_eq_mul, mul_sub, inv_mul_cancel₀ hlength,
      add_sub_cancel]
  rw [rankOne_eq_mul hdet, det_mul, vecMulVec_eq Unit,
    det_one_add_replicateCol_mul_replicateRow, hfactor]

theorem rankOne_det_eq_zero_iff (hdet : B.det ≠ 0) (hs : s ≠ 0) :
    (rankOne B s y).det = 0 ↔ s ⬝ᵥ B⁻¹ *ᵥ y = 0 := by
  have hlength : s ⬝ᵥ s ≠ 0 := fun hzero => hs (dotProduct_self_eq_zero.mp hzero)
  rw [rankOne_det hdet hs, mul_eq_zero_iff_left hdet,
    mul_eq_zero_iff_left (inv_ne_zero hlength)]

end Matrices

namespace SecantRule

/-- From a positive definite matrix the rule makes another one exactly when the
curvature is positive.  When it is negative, what is made can be inverted, but has
a direction that points upwards. -/
theorem bfgs_refresh_definite_iff (B : Grid ℝ n n) (s y : Vector ℝ n) (tolerance : ℝ)
    (htolerance : 0 ≤ tolerance) (hB : B.toMatrix.PosDef) (refresh : Refresh ℝ)
    (h : bfgs.refresh ⟨.error, tolerance⟩ (.ofGrid B) ⟨s.toArray, y.toArray⟩ = .ok refresh) :
    ∃ B' : Grid ℝ n n, refresh = .updated (.ofGrid B') ∧
      (B'.toMatrix.PosDef ↔ 0 < coords y ⬝ᵥ coords s) ∧
      (coords y ⬝ᵥ coords s < 0 → B'.toMatrix.det ≠ 0 ∧
        ∃ g : Vector ℝ n, ∀ iteration, ∃ d,
          descentDirection (.ofGrid B') g iteration = .ok d ∧ 0 < coords g ⬝ᵥ coords d) := by
  obtain ⟨B', hattempt, rfl⟩ := strict_refresh_eq_ok_iff.mp h
  have hupdate : bfgsUpdate tolerance B s y = .ok B' := hattempt
  obtain ⟨hform, hcurvature, hmatrix⟩ :=
    bfgsUpdate_exact_of_isSymm htolerance (isSymm_of_posDef hB) hupdate
  have hdefinite : B'.toMatrix.PosDef ↔ 0 < coords y ⬝ᵥ coords s := by
    rw [hmatrix, rankTwo_posDef_iff hB hcurvature]
  have hdet : B'.toMatrix.det ≠ 0 := by
    rw [hmatrix]
    exact rankTwo_det_ne_zero (det_ne_zero_of_posDef hB) hform hcurvature
  have hsecant : B'.toMatrix *ᵥ coords s = coords y := by
    rw [hmatrix, rankTwo_mulVec_step hform hcurvature]
  refine ⟨B', rfl, hdefinite, fun hnegative => ⟨hdet, -y, fun iteration => ⟨s, ?_, ?_⟩⟩⟩
  · rw [descentDirection_eq_ok_iff, coords_neg, neg_neg]
    exact ⟨hdet, hsecant⟩
  · rw [coords_neg, neg_dotProduct, neg_pos]
    exact hnegative

theorem identity_refresh_not_definite :
    (Grid.identity 2 : Grid ℝ 2 2).toMatrix.PosDef ∧ ∃ refresh,
      bfgs.refresh ⟨.error, 0⟩ (.ofGrid (Grid.identity 2 : Grid ℝ 2 2))
        ⟨#[3, 4], #[-4, -3]⟩ = .ok refresh ∧
      ∃ B' : Grid ℝ 2 2, refresh = .updated (.ofGrid B') ∧ ¬ B'.toMatrix.PosDef ∧
        B'.toMatrix.det ≠ 0 ∧ ∃ g : Vector ℝ 2, ∀ iteration, ∃ d,
          descentDirection (.ofGrid B') g iteration = .ok d ∧ 0 < coords g ⬝ᵥ coords d := by
  have hidentity : (Grid.identity 2 : Grid ℝ 2 2).toMatrix.PosDef := by
    rw [Grid.toMatrix_identity]
    exact .one
  have hnegative : coords (#v[-4, -3] : Vector ℝ 2) ⬝ᵥ coords #v[3, 4] < 0 := by
    rw [coords_pair, coords_pair]
    norm_num [dotProduct, Fin.sum_univ_two]
  have haccepted :
      ∃ B', bfgs.attempt 0 (Grid.identity 2 : Grid ℝ 2 2) #v[3, 4] #v[-4, -3] = .ok B' := by
    refine exists_bfgsUpdate_iff.mpr ?_
    rw [Grid.toMatrix_identity, coords_pair, coords_pair]
    norm_num [dotProduct, Fin.sum_univ_two]
  obtain ⟨refresh, hrefresh⟩ := exists_strict_refresh_iff.mpr haccepted
  obtain ⟨B', hB', hdefinite, hupwards⟩ := bfgs_refresh_definite_iff (Grid.identity 2)
    #v[3, 4] #v[-4, -3] 0 le_rfl hidentity refresh hrefresh
  obtain ⟨hdet, hdirection⟩ := hupwards hnegative
  exact ⟨hidentity, refresh, hrefresh, B', hB',
    fun hdefinite' => hnegative.not_gt (hdefinite.mp hdefinite'), hdet, hdirection⟩

/-- From a matrix that can be inverted, Broyden's good rule makes one that fails
for every gradient when `sᵀ B⁻¹ y` vanishes, and for none otherwise. -/
theorem goodBroyden_refresh_singular_iff (B : Grid ℝ n n) (s y : Vector ℝ n) (tolerance : ℝ)
    (hdet : B.toMatrix.det ≠ 0) (refresh : Refresh ℝ)
    (h : goodBroyden.refresh ⟨.error, tolerance⟩ (.ofGrid B) ⟨s.toArray, y.toArray⟩ =
      .ok refresh) :
    ∃ B' : Grid ℝ n n, refresh = .updated (.ofGrid B') ∧
      ∀ (g : Vector ℝ n) (iteration : Nat),
        (descentDirection (.ofGrid B') g iteration = .error (.singularMatrix iteration) ↔
          coords s ⬝ᵥ B.toMatrix⁻¹ *ᵥ coords y = 0) ∧
        ((∃ d, descentDirection (.ofGrid B') g iteration = .ok d) ↔
          coords s ⬝ᵥ B.toMatrix⁻¹ *ᵥ coords y ≠ 0) := by
  obtain ⟨B', hattempt, rfl⟩ := strict_refresh_eq_ok_iff.mp h
  obtain ⟨hstep, hmatrix⟩ := goodBroyden_attempt_exact hattempt
  have hsingular :
      B'.toMatrix.det = 0 ↔ coords s ⬝ᵥ B.toMatrix⁻¹ *ᵥ coords y = 0 := by
    rw [hmatrix, rankOne_det_eq_zero_iff hdet hstep]
  refine ⟨B', rfl, fun g iteration => ⟨?_, ?_⟩⟩
  · rw [descentDirection_eq_error_iff, hsingular]
    exact and_iff_right rfl
  · rw [exists_descentDirection_iff, ne_eq, hsingular]

theorem identity_refresh_singular :
    (Grid.identity 2 : Grid ℝ 2 2).toMatrix.det ≠ 0 ∧ ∃ refresh,
      goodBroyden.refresh ⟨.error, 0⟩ (.ofGrid (Grid.identity 2 : Grid ℝ 2 2))
        ⟨#[3, 4], #[4, -3]⟩ = .ok refresh ∧
      ∃ B' : Grid ℝ 2 2, refresh = .updated (.ofGrid B') ∧
        ∀ (g : Vector ℝ 2) (iteration : Nat),
          descentDirection (.ofGrid B') g iteration = .error (.singularMatrix iteration) := by
  have hdet : (Grid.identity 2 : Grid ℝ 2 2).toMatrix.det ≠ 0 := by
    rw [Grid.toMatrix_identity, det_one]
    exact one_ne_zero
  have hvanishes : coords (#v[3, 4] : Vector ℝ 2) ⬝ᵥ
      (Grid.identity 2 : Grid ℝ 2 2).toMatrix⁻¹ *ᵥ coords #v[4, -3] = 0 := by
    rw [Grid.toMatrix_identity, inv_one, one_mulVec, coords_pair, coords_pair]
    norm_num [dotProduct, Fin.sum_univ_two]
  have haccepted :
      ∃ B', goodBroyden.attempt 0 (Grid.identity 2 : Grid ℝ 2 2) #v[3, 4] #v[4, -3] =
        .ok B' := by
    have hlength : 0 < Dense.norm (#v[3, 4] : Vector ℝ 2) := by
      rw [norm_pair]
      norm_num
    have hsize : 0 < (Grid.identity 2 : Grid ℝ 2 2).frobenius := by
      rw [Grid.frobenius_exact, Grid.toMatrix_identity]
      norm_num
    rw [exists_goodBroyden_attempt_iff, zero_mul]
    exact ⟨norm_eq_zero_iff.not.mp hlength.ne', mul_pos hsize hlength⟩
  obtain ⟨refresh, hrefresh⟩ := exists_strict_refresh_iff.mpr haccepted
  obtain ⟨B', hB', houtcome⟩ := goodBroyden_refresh_singular_iff (Grid.identity 2)
    #v[3, 4] #v[4, -3] 0 hdet refresh hrefresh
  exact ⟨hdet, refresh, hrefresh, B', hB',
    fun g iteration => (houtcome g iteration).1.mpr hvanishes⟩

end SecantRule

end SecantDescent
