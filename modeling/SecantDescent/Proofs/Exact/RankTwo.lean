import SecantDescent.Proofs.Exact.Matrix
import SecantDescent.Proofs.Secant.Refresh

/-!
# The update of rank two in exact arithmetic

An update that passes the two tests on its denominators is the matrix
`rankTwo`, averaged with its transpose.  Both of these map the step to the
change of the gradient, so that the average does, whatever the matrix was
before.  For a symmetric matrix they are the same, and when the curvature is
positive, definiteness is kept, too.
-/

namespace SecantDescent

open Matrix

variable {n : Nat}

/-- The update of rank two before it is averaged with its transpose. -/
noncomputable def rankTwo (B : Matrix (Fin n) (Fin n) ℝ) (s y : Fin n → ℝ) :
    Matrix (Fin n) (Fin n) ℝ :=
  B - (s ⬝ᵥ B *ᵥ s)⁻¹ • vecMulVec (B *ᵥ s) (s ᵥ* B) + (y ⬝ᵥ s)⁻¹ • vecMulVec y y

section Matrices

variable {B : Matrix (Fin n) (Fin n) ℝ} {s y : Fin n → ℝ}

theorem rankTwo_mulVec (B : Matrix (Fin n) (Fin n) ℝ) (s y x : Fin n → ℝ) :
    rankTwo B s y *ᵥ x =
      B *ᵥ x - ((s ⬝ᵥ B *ᵥ x) / (s ⬝ᵥ B *ᵥ s)) • B *ᵥ s + ((y ⬝ᵥ x) / (y ⬝ᵥ s)) • y := by
  rw [rankTwo, add_mulVec, sub_mulVec, smul_mulVec, smul_mulVec, vecMulVec_mulVec,
    vecMulVec_mulVec, ← dotProduct_mulVec, op_smul_eq_smul, op_smul_eq_smul, smul_smul,
    smul_smul, div_eq_inv_mul, div_eq_inv_mul]

theorem rankTwo_mulVec_step (hform : s ⬝ᵥ B *ᵥ s ≠ 0) (hcurvature : y ⬝ᵥ s ≠ 0) :
    rankTwo B s y *ᵥ s = y := by
  rw [rankTwo_mulVec, div_self hform, div_self hcurvature, one_smul, one_smul, sub_self,
    zero_add]

theorem vecMul_of_isSymm (hB : B.IsSymm) (x : Fin n → ℝ) : x ᵥ* B = B *ᵥ x := by
  rw [← mulVec_transpose, hB.eq]

theorem dotProduct_mulVec_comm (hB : B.IsSymm) (u v : Fin n → ℝ) :
    u ⬝ᵥ B *ᵥ v = v ⬝ᵥ B *ᵥ u := by
  rw [dotProduct_mulVec, vecMul_of_isSymm hB, dotProduct_comm]

theorem dotProduct_transpose_mulVec_self (B : Matrix (Fin n) (Fin n) ℝ) (s : Fin n → ℝ) :
    s ⬝ᵥ Bᵀ *ᵥ s = s ⬝ᵥ B *ᵥ s := by
  rw [mulVec_transpose, dotProduct_comm, ← dotProduct_mulVec]

theorem rankTwo_transpose (B : Matrix (Fin n) (Fin n) ℝ) (s y : Fin n → ℝ) :
    (rankTwo B s y)ᵀ = rankTwo Bᵀ s y := by
  rw [rankTwo, transpose_add, transpose_sub, transpose_smul, transpose_smul,
    transpose_vecMulVec, transpose_vecMulVec, rankTwo, dotProduct_transpose_mulVec_self,
    mulVec_transpose, vecMul_transpose]

theorem rankTwo_isSymm (hB : B.IsSymm) : (rankTwo B s y).IsSymm := by
  rw [IsSymm, rankTwo_transpose, hB.eq]

/-- The transpose satisfies the secant equation, too, since the row `sᵀ B` in
the correction is the column `Bᵀ s` in that of the transpose. -/
theorem rankTwo_transpose_mulVec_step (hform : s ⬝ᵥ B *ᵥ s ≠ 0) (hcurvature : y ⬝ᵥ s ≠ 0) :
    (rankTwo B s y)ᵀ *ᵥ s = y := by
  rw [← dotProduct_transpose_mulVec_self] at hform
  rw [rankTwo_transpose, rankTwo_mulVec_step hform hcurvature]

/-- What is orthogonal to `y` and, with respect to `B`, to the step, does not
notice the update. -/
theorem rankTwo_mulVec_of_orthogonal {v : Fin n → ℝ} (hy : y ⬝ᵥ v = 0)
    (hs : s ⬝ᵥ B *ᵥ v = 0) : rankTwo B s y *ᵥ v = B *ᵥ v := by
  rw [rankTwo_mulVec, hy, hs, zero_div, zero_div, zero_smul, zero_smul, sub_zero, add_zero]

/-- The quadratic form of the update at `x` is that of the matrix at `x` less
its part along the step, and a square over the curvature. -/
theorem dotProduct_rankTwo_mulVec (hB : B.IsSymm) (hform : s ⬝ᵥ B *ᵥ s ≠ 0) {x z : Fin n → ℝ}
    {t : ℝ} (ht : t = (s ⬝ᵥ B *ᵥ x) / (s ⬝ᵥ B *ᵥ s)) (hz : z = x - t • s) :
    x ⬝ᵥ rankTwo B s y *ᵥ x = z ⬝ᵥ B *ᵥ z + (y ⬝ᵥ x) ^ 2 / (y ⬝ᵥ s) := by
  have hmixed : s ⬝ᵥ B *ᵥ x = t * (s ⬝ᵥ B *ᵥ s) := by
    rw [ht, div_mul_cancel₀ _ hform]
  have hparts : z ⬝ᵥ B *ᵥ z = x ⬝ᵥ B *ᵥ x - t * (t * (s ⬝ᵥ B *ᵥ s)) := by
    rw [hz, mulVec_sub, mulVec_smul, sub_dotProduct, dotProduct_sub, dotProduct_sub,
      smul_dotProduct, smul_dotProduct, dotProduct_smul, dotProduct_smul,
      dotProduct_mulVec_comm hB x s, hmixed]
    simp only [smul_eq_mul]
    ring
  rw [hparts, rankTwo_mulVec, ← ht, dotProduct_add, dotProduct_sub, dotProduct_smul,
    dotProduct_smul, dotProduct_mulVec_comm hB x s, hmixed, dotProduct_comm x y]
  simp only [smul_eq_mul]
  ring

theorem isSymm_of_posDef (hB : B.PosDef) : B.IsSymm :=
  isHermitian_iff_isSymm.mp hB.isHermitian

theorem rankTwo_posDef (hB : B.PosDef) (hs : s ≠ 0) (hcurvature : 0 < y ⬝ᵥ s) :
    (rankTwo B s y).PosDef := by
  have hsymm := isSymm_of_posDef hB
  have hform : 0 < s ⬝ᵥ B *ᵥ s := hB.dotProduct_mulVec_pos hs
  refine .of_dotProduct_mulVec_pos
    (isHermitian_iff_isSymm.mpr (rankTwo_isSymm hsymm)) fun x hx => ?_
  obtain ⟨t, ht⟩ : ∃ t, t = (s ⬝ᵥ B *ᵥ x) / (s ⬝ᵥ B *ᵥ s) := ⟨_, rfl⟩
  obtain ⟨z, hz⟩ : ∃ z, z = x - t • s := ⟨_, rfl⟩
  rw [star_trivial, dotProduct_rankTwo_mulVec hsymm hform.ne' ht hz]
  by_cases hrest : z = 0
  · -- `x` is a multiple of the step, and only the second term is left
    have hx' : x = t • s := by
      rw [hrest] at hz
      exact (sub_eq_zero.mp hz.symm)
    have hfactor : t ≠ 0 := by
      intro hzero
      apply hx
      rw [hx', hzero, zero_smul]
    have hproduct : y ⬝ᵥ x = t * (y ⬝ᵥ s) := by
      rw [hx', dotProduct_smul, smul_eq_mul]
    rw [hrest, zero_dotProduct, zero_add, hproduct]
    positivity
  · have hpart : 0 < z ⬝ᵥ B *ᵥ z := hB.dotProduct_mulVec_pos hrest
    positivity

end Matrices

/-! ## The update as it is computed -/

namespace SecantRule

open SecantDescent.Dense

variable {tolerance : ℝ} {B B' : Grid ℝ n n} {s y : Vector ℝ n}

theorem toMatrix_symmetrized (B : Grid ℝ n n) :
    (symmetrized B).toMatrix = (1 / 2 : ℝ) • (B.toMatrix + B.toMatrixᵀ) := by
  rw [symmetrized, Grid.toMatrix_mapEntries_mul, Grid.toMatrix_add, Grid.toMatrix_transpose,
    Scalar.half_exact]

/-- The two tests keep the denominators away from zero. -/
theorem bfgsUpdate_exact (htolerance : 0 ≤ tolerance)
    (h : bfgsUpdate tolerance B s y = .ok B') :
    coords s ⬝ᵥ B.toMatrix *ᵥ coords s ≠ 0 ∧ coords y ⬝ᵥ coords s ≠ 0 ∧
      B'.toMatrix = (1 / 2 : ℝ) • (rankTwo B.toMatrix (coords s) (coords y) +
        (rankTwo B.toMatrix (coords s) (coords y))ᵀ) := by
  obtain ⟨⟨hcurvature, -⟩, hform, -, rfl⟩ := bfgsUpdate_eq_ok_iff.mp h
  have hstep := norm_nonneg s
  have hchange := norm_nonneg y
  have hfrobenius := Grid.frobenius_nonneg B
  have himage : dot s (B.mulVec s) = coords s ⬝ᵥ B.toMatrix *ᵥ coords s := by
    rw [dot_exact, Grid.coords_mulVec]
  rw [Scalar.abs_exact, dot_exact] at hcurvature
  rw [Scalar.abs_exact, himage] at hform
  refine ⟨?_, ?_, ?_⟩
  · have hscale : 0 ≤ tolerance * B.frobenius * norm s * norm s := by positivity
    exact abs_pos.mp (hscale.trans_lt hform)
  · have hscale : 0 ≤ tolerance * norm y * norm s := by positivity
    exact abs_pos.mp (hscale.trans_lt hcurvature)
  · rw [toMatrix_symmetrized]
    simp only [Grid.toMatrix_add, Grid.toMatrix_sub, Grid.toMatrix_mapEntries_div,
      Grid.toMatrix_outer, Grid.coords_mulVec, Grid.coords_vecMul, himage, dot_exact]
    rfl

theorem bfgsUpdate_exact_of_isSymm (htolerance : 0 ≤ tolerance) (hB : B.toMatrix.IsSymm)
    (h : bfgsUpdate tolerance B s y = .ok B') :
    coords s ⬝ᵥ B.toMatrix *ᵥ coords s ≠ 0 ∧ coords y ⬝ᵥ coords s ≠ 0 ∧
      B'.toMatrix = rankTwo B.toMatrix (coords s) (coords y) := by
  obtain ⟨hform, hcurvature, hmatrix⟩ := bfgsUpdate_exact htolerance h
  refine ⟨hform, hcurvature, ?_⟩
  rw [hmatrix, (rankTwo_isSymm hB).eq, ← two_smul ℝ, smul_smul]
  norm_num

theorem exists_bfgsUpdate_iff :
    (∃ B', bfgsUpdate tolerance B s y = .ok B') ↔
      tolerance * norm y * norm s < |coords y ⬝ᵥ coords s| ∧ coords s ≠ 0 ∧
        tolerance * B.frobenius * norm s * norm s <
          |coords s ⬝ᵥ B.toMatrix *ᵥ coords s| := by
  simp only [bfgsUpdate_eq_ok_iff, Grid.allFinite_exact, true_and, exists_and_left, exists_eq,
    and_true, beq_eq_false_iff_ne, ne_eq, norm_eq_zero_iff, Scalar.abs_exact, dot_exact,
    Grid.coords_mulVec, and_assoc]

/-- Whatever the matrix, an update that is made is symmetric and satisfies the
secant equation; a symmetric matrix keeps what it does to the vectors that are
orthogonal to the change of the gradient and, with respect to the matrix, to
the step. -/
theorem bfgs_refresh_on_secant (B : Grid ℝ n n) (s y : Vector ℝ n) (tolerance : ℝ)
    (htolerance : 0 ≤ tolerance) (refresh : Refresh ℝ)
    (h : bfgs.refresh ⟨.error, tolerance⟩ (.ofGrid B) ⟨s.toArray, y.toArray⟩ = .ok refresh) :
    ∃ B' : Grid ℝ n n, refresh = .updated (.ofGrid B') ∧
      B'.toMatrix.IsSymm ∧
      B'.toMatrix *ᵥ coords s = coords y ∧
      (B.toMatrix.IsSymm → ∀ v, coords y ⬝ᵥ v = 0 → coords s ⬝ᵥ B.toMatrix *ᵥ v = 0 →
        B'.toMatrix *ᵥ v = B.toMatrix *ᵥ v) := by
  obtain ⟨B', hattempt, rfl⟩ := strict_refresh_eq_ok_iff.mp h
  have hupdate : bfgsUpdate tolerance B s y = .ok B' := hattempt
  obtain ⟨hform, hcurvature, hmatrix⟩ := bfgsUpdate_exact htolerance hupdate
  refine ⟨B', rfl, ?_, ?_, ?_⟩
  · rw [hmatrix]
    exact (isSymm_add_transpose_self _).smul _
  · rw [hmatrix, smul_mulVec, add_mulVec, rankTwo_mulVec_step hform hcurvature,
      rankTwo_transpose_mulVec_step hform hcurvature, ← two_smul ℝ, smul_smul]
    norm_num
  · intro hB v hy hs
    rw [(bfgsUpdate_exact_of_isSymm htolerance hB hupdate).2.2]
    exact rankTwo_mulVec_of_orthogonal hy hs

/-- The identity and a quarter turn. -/
def spiral : Grid ℝ 2 2 :=
  .ofFn fun i j => !![1, 1; -1, 1] i j

theorem toMatrix_spiral : spiral.toMatrix = !![1, 1; -1, 1] :=
  Grid.toMatrix_ofFn _

theorem spiral_refresh_on_secant :
    ¬ spiral.toMatrix.IsSymm ∧ ∃ refresh,
      bfgs.refresh ⟨.error, 4⁻¹⟩ (.ofGrid spiral) ⟨#[3, 4], #[4, 3]⟩ = .ok refresh ∧
      ∃ B' : Grid ℝ 2 2, refresh = .updated (.ofGrid B') ∧ B'.toMatrix.IsSymm ∧
        B'.toMatrix *ᵥ ![3, 4] = ![4, 3] := by
  have hsize : spiral.frobenius = 2 := by
    rw [Grid.frobenius_exact, toMatrix_spiral, Real.sqrt_eq_iff_mul_self_eq_of_pos two_pos]
    norm_num [trace_fin_two, mul_apply, Fin.sum_univ_two]
  have hstep : norm (#v[3, 4] : Vector ℝ 2) = 5 := by
    rw [norm_pair, Real.sqrt_eq_iff_mul_self_eq_of_pos] <;> norm_num
  have hchange : norm (#v[4, 3] : Vector ℝ 2) = 5 := by
    rw [norm_pair, Real.sqrt_eq_iff_mul_self_eq_of_pos] <;> norm_num
  have haccepted : ∃ B', bfgs.attempt 4⁻¹ spiral #v[3, 4] #v[4, 3] = .ok B' := by
    refine exists_bfgsUpdate_iff.mpr ?_
    rw [hsize, hstep, hchange, toMatrix_spiral, coords_pair, coords_pair]
    norm_num [mulVec, dotProduct, Fin.sum_univ_two]
  obtain ⟨refresh, hrefresh⟩ := exists_strict_refresh_iff.mpr haccepted
  refine ⟨?_, refresh, hrefresh, ?_⟩
  · intro hsymm
    have hmirrored := hsymm.apply 0 1
    norm_num [toMatrix_spiral] at hmirrored
  · obtain ⟨B', hB', hsymm, hsecant, -⟩ := bfgs_refresh_on_secant spiral #v[3, 4] #v[4, 3] 4⁻¹
      (by norm_num) refresh hrefresh
    rw [coords_pair, coords_pair] at hsecant
    exact ⟨B', hB', hsymm, hsecant⟩

end SecantRule

end SecantDescent
