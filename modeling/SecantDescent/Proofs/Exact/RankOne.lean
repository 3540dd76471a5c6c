import SecantDescent.Proofs.Exact.Matrix
import SecantDescent.Proofs.Secant.Refresh

/-!
# The update of rank one in exact arithmetic

Broyden's good rule gives the matrix `rankOne`, which maps the step to the
change of the gradient and differs from the old matrix along the step only.
Its difference from any other matrix `M` with this image of the step is that of
the old matrix less the part along the step, so in Frobenius norm the update
comes closer to every such `M` at once, by the length of what the difference
does to the step.
-/

namespace SecantDescent

open SecantDescent.Dense Matrix

variable {n : Nat}

noncomputable def rankOne (B : Matrix (Fin n) (Fin n) ℝ) (s y : Fin n → ℝ) :
    Matrix (Fin n) (Fin n) ℝ :=
  B + (s ⬝ᵥ s)⁻¹ • vecMulVec (y - B *ᵥ s) s

variable {B M : Matrix (Fin n) (Fin n) ℝ} {s y : Fin n → ℝ}

theorem rankOne_eq_self (hsecant : B *ᵥ s = y) : rankOne B s y = B := by
  rw [rankOne, hsecant, sub_self, zero_vecMulVec, smul_zero, add_zero]

theorem rankOne_mulVec (B : Matrix (Fin n) (Fin n) ℝ) (s y x : Fin n → ℝ) :
    rankOne B s y *ᵥ x = B *ᵥ x + ((s ⬝ᵥ s)⁻¹ * (s ⬝ᵥ x)) • (y - B *ᵥ s) := by
  rw [rankOne, add_mulVec, smul_mulVec, vecMulVec_mulVec, op_smul_eq_smul, smul_smul]

theorem rankOne_mulVec_step (y : Fin n → ℝ) (hs : s ≠ 0) : rankOne B s y *ᵥ s = y := by
  have hlength : s ⬝ᵥ s ≠ 0 := fun hzero => hs (dotProduct_self_eq_zero.mp hzero)
  rw [rankOne_mulVec, inv_mul_cancel₀ hlength, one_smul, add_sub_cancel]

theorem rankOne_mulVec_of_orthogonal {v : Fin n → ℝ} (hv : s ⬝ᵥ v = 0) :
    rankOne B s y *ᵥ v = B *ᵥ v := by
  rw [rankOne_mulVec, hv, mul_zero, zero_smul, add_zero]

theorem rankOne_sub (hsecant : M *ᵥ s = y) :
    rankOne B s y - M = (B - M) - (s ⬝ᵥ s)⁻¹ • vecMulVec ((B - M) *ᵥ s) s := by
  have hresidual : y - B *ᵥ s = -((B - M) *ᵥ s) := by
    rw [sub_mulVec, hsecant, neg_sub]
  rw [rankOne, hresidual, neg_vecMulVec, smul_neg]
  abel

/-- The square of the Frobenius norm, when a matrix loses a multiple of what it
does along a vector. -/
theorem trace_sub_vecMulVec (E : Matrix (Fin n) (Fin n) ℝ) (s : Fin n → ℝ) (c : ℝ) :
    trace ((E - c • vecMulVec (E *ᵥ s) s)ᵀ * (E - c • vecMulVec (E *ᵥ s) s)) =
      trace (Eᵀ * E) - (2 * c - c * c * (s ⬝ᵥ s)) * (E *ᵥ s ⬝ᵥ E *ᵥ s) := by
  have hmixed : trace (Eᵀ * vecMulVec (E *ᵥ s) s) = E *ᵥ s ⬝ᵥ E *ᵥ s := by
    rw [mul_vecMulVec, trace_vecMulVec, mulVec_transpose, ← dotProduct_mulVec]
  have hmixed' : trace ((vecMulVec (E *ᵥ s) s)ᵀ * E) = E *ᵥ s ⬝ᵥ E *ᵥ s := by
    rw [← trace_transpose, transpose_mul, transpose_transpose, hmixed]
  have hsquare : trace ((vecMulVec (E *ᵥ s) s)ᵀ * vecMulVec (E *ᵥ s) s) =
      (s ⬝ᵥ s) * (E *ᵥ s ⬝ᵥ E *ᵥ s) := by
    rw [transpose_vecMulVec, vecMulVec_mul_vecMulVec, trace_vecMulVec]
    simp [mul_comm]
  rw [transpose_sub, transpose_smul, Matrix.sub_mul, Matrix.mul_sub, Matrix.mul_sub,
    Matrix.smul_mul, Matrix.smul_mul, Matrix.mul_smul, Matrix.mul_smul, trace_sub, trace_sub,
    trace_sub, trace_smul, trace_smul, trace_smul, trace_smul, hmixed, hmixed', hsquare]
  simp only [smul_eq_mul]
  ring

/-- The update is closer than the old matrix to every matrix on the secant
equation. -/
theorem trace_rankOne_sub (hsecant : M *ᵥ s = y) :
    trace ((rankOne B s y - M)ᵀ * (rankOne B s y - M)) =
      trace ((B - M)ᵀ * (B - M)) - (s ⬝ᵥ s)⁻¹ * ((B - M) *ᵥ s ⬝ᵥ (B - M) *ᵥ s) := by
  have hfactor : 2 * (s ⬝ᵥ s)⁻¹ - (s ⬝ᵥ s)⁻¹ * (s ⬝ᵥ s)⁻¹ * (s ⬝ᵥ s) = (s ⬝ᵥ s)⁻¹ := by
    by_cases hs : s ⬝ᵥ s = 0
    · simp [hs]
    · rw [mul_assoc, inv_mul_cancel₀ hs]
      ring
  rw [rankOne_sub hsecant, trace_sub_vecMulVec, hfactor]

theorem trace_rankOne_sub_le (hsecant : M *ᵥ s = y) :
    trace ((rankOne B s y - M)ᵀ * (rankOne B s y - M)) ≤ trace ((B - M)ᵀ * (B - M)) := by
  have hstep : 0 ≤ s ⬝ᵥ s := dotProduct_self_star_nonneg s
  have himage : 0 ≤ (B - M) *ᵥ s ⬝ᵥ (B - M) *ᵥ s := dotProduct_self_star_nonneg _
  rw [trace_rankOne_sub hsecant, sub_le_self_iff]
  positivity

/-! ## The update as it is computed -/

namespace SecantRule

variable {tolerance : ℝ} {B B' : Grid ℝ n n} {s y : Vector ℝ n}

theorem squaredLength_exact (s : Vector ℝ n) : squaredLength s = coords s ⬝ᵥ coords s := by
  have hsquare : 0 ≤ coords s ⬝ᵥ coords s := dotProduct_self_star_nonneg (coords s)
  rw [squaredLength, norm_exact, Real.mul_self_sqrt hsquare]

theorem goodBroydenUpdate_exact (h : goodBroydenUpdate tolerance B s y = .ok B') :
    B'.toMatrix = rankOne B.toMatrix (coords s) (coords y) := by
  have hupdate := (goodBroydenUpdate_eq_ok_iff.mp h).2.2
  rw [hupdate, Grid.toMatrix_add, Grid.toMatrix_mapEntries_div, Grid.toMatrix_outer,
    squaredLength_exact, coords_sub, Grid.coords_mulVec, rankOne]

theorem squaredLength_pos_iff {s : Vector ℝ n} : 0 < squaredLength s ↔ coords s ≠ 0 := by
  rw [squaredLength_exact]
  exact dotProduct_self_star_pos_iff

/-- An update that is made comes from a step that is not zero. -/
theorem goodBroyden_attempt_exact (h : goodBroyden.attempt tolerance B s y = .ok B') :
    coords s ≠ 0 ∧ B'.toMatrix = rankOne B.toMatrix (coords s) (coords y) := by
  obtain ⟨hstep, hupdate⟩ := goodBroyden_attempt_eq_ok_iff.mp h
  exact ⟨squaredLength_pos_iff.mp hstep, goodBroydenUpdate_exact hupdate⟩

theorem exists_goodBroyden_attempt_iff :
    (∃ B', goodBroyden.attempt tolerance B s y = .ok B') ↔
      coords s ≠ 0 ∧ tolerance * norm (y - B.mulVec s) < B.frobenius * norm s := by
  simp only [goodBroyden_attempt_eq_ok_iff, goodBroydenUpdate_eq_ok_iff, squaredLength_pos_iff,
    Grid.allFinite_exact, true_and, exists_and_left, exists_eq, and_true]

end SecantRule

end SecantDescent
