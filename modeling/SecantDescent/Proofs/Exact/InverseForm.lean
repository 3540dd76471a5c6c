import SecantDescent.Proofs.Exact.Elimination
import SecantDescent.Proofs.Exact.RankTwo

/-!
# The update of the inverse

The update of rank two can be written as an update of the inverse of a matrix,
which turns the direction of descent into a product and leaves no system to be
solved.  The two forms agree: the update of the inverse is the inverse of the
update, so that the direction that is solved for is the one that the inverse
form gives.  In particular the update has an inverse whenever the matrix it
comes from has one; the sign of the curvature does not matter for that.
-/

namespace SecantDescent

open SecantDescent.Dense Matrix

variable {n : Nat}

/-- The update of rank two for the inverse `H` of a matrix. -/
noncomputable def inverseRankTwo (H : Matrix (Fin n) (Fin n) ℝ) (s y : Fin n → ℝ) :
    Matrix (Fin n) (Fin n) ℝ :=
  (1 - (y ⬝ᵥ s)⁻¹ • vecMulVec s y) * H * (1 - (y ⬝ᵥ s)⁻¹ • vecMulVec y s) +
    (y ⬝ᵥ s)⁻¹ • vecMulVec s s

theorem one_sub_vecMulVec_mulVec (c : ℝ) (u v x : Fin n → ℝ) :
    (1 - c • vecMulVec u v) *ᵥ x = x - (c * (v ⬝ᵥ x)) • u := by
  rw [sub_mulVec, one_mulVec, smul_mulVec, vecMulVec_mulVec, op_smul_eq_smul, smul_smul]

/-- First `x` loses its part along `y`, which leaves it orthogonal to the step;
the rest is a multiple of the step. -/
theorem inverseRankTwo_mulVec (H : Matrix (Fin n) (Fin n) ℝ) (s y x : Fin n → ℝ)
    {z : Fin n → ℝ} (hz : z = x - ((y ⬝ᵥ s)⁻¹ * (s ⬝ᵥ x)) • y) :
    inverseRankTwo H s y *ᵥ x =
      H *ᵥ z + ((y ⬝ᵥ s)⁻¹ * (s ⬝ᵥ x - y ⬝ᵥ H *ᵥ z)) • s := by
  rw [inverseRankTwo, add_mulVec, ← mulVec_mulVec, ← mulVec_mulVec,
    one_sub_vecMulVec_mulVec _ y s x, ← hz, one_sub_vecMulVec_mulVec, smul_mulVec,
    vecMulVec_mulVec, op_smul_eq_smul, smul_smul, mul_sub, sub_smul]
  abel

section Matrices

variable {B : Matrix (Fin n) (Fin n) ℝ} {s y : Fin n → ℝ}

/-- The update of the inverse is the inverse of the update, for symmetric
matrices and for others. -/
theorem rankTwo_mul_inverseRankTwo (hdet : B.det ≠ 0) (hform : s ⬝ᵥ B *ᵥ s ≠ 0)
    (hcurvature : y ⬝ᵥ s ≠ 0) : rankTwo B s y * inverseRankTwo B⁻¹ s y = 1 := by
  refine mulVec_injective (funext fun x => ?_)
  obtain ⟨z, hz⟩ : ∃ z, z = x - ((y ⬝ᵥ s)⁻¹ * (s ⬝ᵥ x)) • y := ⟨_, rfl⟩
  have horthogonal : s ⬝ᵥ z = 0 := by
    rw [hz, dotProduct_sub, dotProduct_smul, dotProduct_comm s y, smul_eq_mul]
    field_simp
    ring
  have himage : B *ᵥ B⁻¹ *ᵥ z = z := by
    rw [mulVec_mulVec, mul_nonsing_inv _ (isUnit_iff_ne_zero.mpr hdet), one_mulVec]
  have hupdated : rankTwo B s y *ᵥ B⁻¹ *ᵥ z =
      z + ((y ⬝ᵥ s)⁻¹ * (y ⬝ᵥ B⁻¹ *ᵥ z)) • y := by
    rw [rankTwo_mulVec, himage, horthogonal, zero_div, zero_smul, sub_zero, div_eq_inv_mul]
  calc (rankTwo B s y * inverseRankTwo B⁻¹ s y) *ᵥ x
      = rankTwo B s y *ᵥ
          (B⁻¹ *ᵥ z + ((y ⬝ᵥ s)⁻¹ * (s ⬝ᵥ x - y ⬝ᵥ B⁻¹ *ᵥ z)) • s) := by
        rw [← mulVec_mulVec, inverseRankTwo_mulVec B⁻¹ s y x hz]
    _ = z + ((y ⬝ᵥ s)⁻¹ * (y ⬝ᵥ B⁻¹ *ᵥ z)) • y +
          ((y ⬝ᵥ s)⁻¹ * (s ⬝ᵥ x - y ⬝ᵥ B⁻¹ *ᵥ z)) • y := by
        rw [mulVec_add, mulVec_smul, rankTwo_mulVec_step hform hcurvature, hupdated]
    _ = z + ((y ⬝ᵥ s)⁻¹ * (s ⬝ᵥ x)) • y := by
        rw [add_assoc, ← add_smul, ← mul_add, add_sub_cancel]
    _ = 1 *ᵥ x := by
        rw [hz, sub_add_cancel, one_mulVec]

theorem rankTwo_det_ne_zero (hdet : B.det ≠ 0) (hform : s ⬝ᵥ B *ᵥ s ≠ 0)
    (hcurvature : y ⬝ᵥ s ≠ 0) : (rankTwo B s y).det ≠ 0 :=
  det_ne_zero_of_right_inverse (rankTwo_mul_inverseRankTwo hdet hform hcurvature)

end Matrices

namespace SecantRule

/-- The matrix made from a symmetric matrix that can be inverted has the update
of the inverse as its inverse, and its direction is the one that the inverse
form gives for the gradient. -/
theorem bfgs_direction_of_inverse_form (B : Grid ℝ n n) (s y : Vector ℝ n) (tolerance : ℝ)
    (htolerance : 0 ≤ tolerance) (hsymm : B.toMatrix.IsSymm) (hdet : B.toMatrix.det ≠ 0)
    (refresh : Refresh ℝ)
    (h : bfgs.refresh ⟨.error, tolerance⟩ (.ofGrid B) ⟨s.toArray, y.toArray⟩ = .ok refresh) :
    ∃ B' : Grid ℝ n n, refresh = .updated (.ofGrid B') ∧
      B'.toMatrix * inverseRankTwo B.toMatrix⁻¹ (coords s) (coords y) = 1 ∧
      ∀ (g : Vector ℝ n) (iteration : Nat),
        descentDirection (.ofGrid B') g iteration =
          .ok (Vector.ofFn
            (-(inverseRankTwo B.toMatrix⁻¹ (coords s) (coords y) *ᵥ coords g))) := by
  obtain ⟨B', hattempt, rfl⟩ := strict_refresh_eq_ok_iff.mp h
  have hupdate : bfgsUpdate tolerance B s y = .ok B' := hattempt
  obtain ⟨hform, hcurvature, hmatrix⟩ := bfgsUpdate_exact_of_isSymm htolerance hsymm hupdate
  have hinverse : B'.toMatrix * inverseRankTwo B.toMatrix⁻¹ (coords s) (coords y) = 1 := by
    rw [hmatrix, rankTwo_mul_inverseRankTwo hdet hform hcurvature]
  exact ⟨B', rfl, hinverse, descentDirection_of_mul_eq_one hinverse⟩

/-- The matrix of a quadratic form that rises in some directions and falls in
others. -/
def tilted : Grid ℝ 2 2 :=
  .ofFn fun i j => !![1, 1; 1, -1] i j

theorem toMatrix_tilted : tilted.toMatrix = !![1, 1; 1, -1] :=
  Grid.toMatrix_ofFn _

theorem tilted_direction_of_inverse_form :
    tilted.toMatrix.IsSymm ∧ tilted.toMatrix.det ≠ 0 ∧ ∃ refresh,
      bfgs.refresh ⟨.error, 0⟩ (.ofGrid tilted) ⟨#[3, 4], #[4, 3]⟩ = .ok refresh ∧
      ∃ B' : Grid ℝ 2 2, refresh = .updated (.ofGrid B') ∧
        ∀ (g : Vector ℝ 2) (iteration : Nat),
          descentDirection (.ofGrid B') g iteration =
            .ok (Vector.ofFn
              (-(inverseRankTwo tilted.toMatrix⁻¹ ![3, 4] ![4, 3] *ᵥ coords g))) := by
  have hsymm : tilted.toMatrix.IsSymm := by
    rw [toMatrix_tilted]
    exact IsSymm.ext fun i j => by fin_cases i <;> fin_cases j <;> rfl
  have hdet : tilted.toMatrix.det ≠ 0 := by
    rw [toMatrix_tilted, det_fin_two_of]
    norm_num
  have haccepted : ∃ B', bfgs.attempt 0 tilted #v[3, 4] #v[4, 3] = .ok B' := by
    refine exists_bfgsUpdate_iff.mpr ?_
    rw [toMatrix_tilted, coords_pair, coords_pair]
    norm_num [mulVec, dotProduct, Fin.sum_univ_two]
  obtain ⟨refresh, hrefresh⟩ := exists_strict_refresh_iff.mpr haccepted
  obtain ⟨B', hB', -, hdirection⟩ := bfgs_direction_of_inverse_form tilted #v[3, 4] #v[4, 3] 0
    le_rfl hsymm hdet refresh hrefresh
  rw [coords_pair, coords_pair] at hdirection
  exact ⟨hsymm, hdet, refresh, hrefresh, B', hB', hdirection⟩

end SecantRule

end SecantDescent
