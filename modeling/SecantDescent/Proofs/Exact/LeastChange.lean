import Mathlib.Analysis.Matrix.Normed
import SecantDescent.Proofs.Exact.RankOne

/-!
# The least change

Among all matrices on the secant equation, Broyden's good rule takes the one
that is closest to the matrix held, in Frobenius norm.  For every other such
matrix `M`, the update `R` and the matrix held `B` form a right-angled triangle
with it, `‖M - B‖² = ‖M - R‖² + ‖R - B‖²`, so that the least change is also the
only one of its size.
-/

namespace SecantDescent

open SecantDescent.Dense (coords coords_sub)
open Matrix WithLp
open scoped Matrix.Norms.Frobenius

variable {n : Nat}

/-! ## Norms -/

theorem norm_sq_eq_trace {m : Nat} (A : Matrix (Fin m) (Fin n) ℝ) :
    ‖A‖ ^ 2 = trace (Aᵀ * A) := by
  have hsquares : 0 ≤ ∑ i, ∑ j, A i j ^ 2 :=
    Finset.sum_nonneg fun i _ => Finset.sum_nonneg fun j _ => sq_nonneg (A i j)
  have htrace : trace (Aᵀ * A) = ∑ i, ∑ j, A i j ^ 2 := by
    rw [Finset.sum_comm]
    refine Finset.sum_congr rfl fun j _ => ?_
    rw [diag_apply, mul_apply]
    exact Finset.sum_congr rfl fun i _ => (sq (A i j)).symm
  simp only [frobenius_norm_def, Real.norm_eq_abs, Real.rpow_two, sq_abs]
  rw [← Real.sqrt_eq_rpow, Real.sq_sqrt hsquares, htrace]

theorem Dense.norm_eq_norm (xs : Vector ℝ n) : Dense.norm xs = ‖toLp 2 (coords xs)‖ := by
  rw [Dense.norm_exact, EuclideanSpace.norm_eq]
  simp only [dotProduct, Real.norm_eq_abs, sq, abs_mul_abs_self]

theorem Grid.frobenius_eq_norm {rows cols : Nat} (A : Grid ℝ rows cols) :
    A.frobenius = ‖A.toMatrix‖ := by
  rw [frobenius_exact, ← norm_sq_eq_trace, Real.sqrt_sq (norm_nonneg A.toMatrix)]

/-! ## The distance to the matrix held -/

variable {B M : Matrix (Fin n) (Fin n) ℝ} {s y : Fin n → ℝ}

theorem norm_sub_sq_of_secant (hs : s ≠ 0) (hsecant : M *ᵥ s = y) :
    ‖M - B‖ ^ 2 = ‖M - rankOne B s y‖ ^ 2 + ‖rankOne B s y - B‖ ^ 2 := by
  have hstep : rankOne B s y *ᵥ s = y := rankOne_mulVec_step y hs
  have hother := trace_rankOne_sub (B := B) hsecant
  have hupdate := trace_rankOne_sub (B := B) hstep
  have himage : (B - rankOne B s y) *ᵥ s = (B - M) *ᵥ s := by
    rw [sub_mulVec, sub_mulVec, hstep, hsecant]
  rw [sub_self, mul_zero, trace_zero, himage] at hupdate
  rw [norm_sub_rev M B, norm_sub_rev M (rankOne B s y), norm_sub_rev (rankOne B s y) B,
    norm_sq_eq_trace, norm_sq_eq_trace, norm_sq_eq_trace]
  linarith

theorem norm_rankOne_sub_le (hs : s ≠ 0) (hsecant : M *ᵥ s = y) :
    ‖rankOne B s y - B‖ ≤ ‖M - B‖ := by
  have hpythagoras := norm_sub_sq_of_secant (B := B) hs hsecant
  refine (pow_le_pow_iff_left₀ (norm_nonneg _) (norm_nonneg _) two_ne_zero).mp ?_
  rw [hpythagoras]
  exact le_add_of_nonneg_left (sq_nonneg _)

/-- No other change of the least size leads to the secant equation. -/
theorem norm_sub_eq_iff_of_secant (hs : s ≠ 0) (hsecant : M *ᵥ s = y) :
    ‖M - B‖ = ‖rankOne B s y - B‖ ↔ M = rankOne B s y := by
  constructor
  · intro hsame
    have hpythagoras := norm_sub_sq_of_secant (B := B) hs hsecant
    rw [hsame, right_eq_add, sq_eq_zero_iff, norm_eq_zero, sub_eq_zero] at hpythagoras
    exact hpythagoras
  · rintro rfl
    rfl

/-! ## The refreshment -/

namespace SecantRule

/-- A refreshment by Broyden's good rule takes the matrix on the secant equation
that is closest to the matrix held, and changes nothing across the step.  It is
made exactly when the step is not zero and the correction passes its test. -/
theorem goodBroyden_refresh_least_change (B : Grid ℝ n n) (s y : Vector ℝ n) (tolerance : ℝ) :
    (∀ refresh,
      goodBroyden.refresh ⟨.error, tolerance⟩ (.ofGrid B) ⟨s.toArray, y.toArray⟩ =
        .ok refresh →
      ∃ B' : Grid ℝ n n, refresh = .updated (.ofGrid B') ∧
        B'.toMatrix *ᵥ coords s = coords y ∧
        (∀ v, coords s ⬝ᵥ v = 0 → B'.toMatrix *ᵥ v = B.toMatrix *ᵥ v) ∧
        ∀ M : Matrix (Fin n) (Fin n) ℝ, M *ᵥ coords s = coords y →
          ‖B'.toMatrix - B.toMatrix‖ ≤ ‖M - B.toMatrix‖ ∧
          (‖M - B.toMatrix‖ = ‖B'.toMatrix - B.toMatrix‖ ↔ M = B'.toMatrix)) ∧
    ((∃ refresh,
      goodBroyden.refresh ⟨.error, tolerance⟩ (.ofGrid B) ⟨s.toArray, y.toArray⟩ =
        .ok refresh) ↔
      coords s ≠ 0 ∧
        tolerance * ‖toLp 2 (coords y - B.toMatrix *ᵥ coords s)‖ <
          ‖B.toMatrix‖ * ‖toLp 2 (coords s)‖) := by
  refine ⟨?_, ?_⟩
  · intro refresh h
    obtain ⟨B', hattempt, rfl⟩ := strict_refresh_eq_ok_iff.mp h
    obtain ⟨hstep, hmatrix⟩ := goodBroyden_attempt_exact hattempt
    refine ⟨B', rfl, ?_⟩
    rw [hmatrix]
    exact ⟨rankOne_mulVec_step _ hstep, fun v hv => rankOne_mulVec_of_orthogonal hv,
      fun M hM => ⟨norm_rankOne_sub_le hstep hM, norm_sub_eq_iff_of_secant hstep hM⟩⟩
  · rw [← Grid.frobenius_eq_norm, ← Dense.norm_eq_norm, ← Grid.coords_mulVec, ← coords_sub,
      ← Dense.norm_eq_norm, exists_strict_refresh_iff, exists_goodBroyden_attempt_iff]

theorem identity_refresh_least_change :
    ∃ refresh, goodBroyden.refresh ⟨.error, 0⟩ (.ofGrid (Grid.identity 2 : Grid ℝ 2 2))
        ⟨#[3, 4], #[4, 3]⟩ = .ok refresh ∧
      ∃ B' : Grid ℝ 2 2, refresh = .updated (.ofGrid B') ∧ B'.toMatrix *ᵥ ![3, 4] = ![4, 3] ∧
        ∀ M : Matrix (Fin 2) (Fin 2) ℝ, M *ᵥ ![3, 4] = ![4, 3] →
          ‖B'.toMatrix - 1‖ ≤ ‖M - 1‖ := by
  obtain ⟨hupdated, haccepted⟩ :=
    goodBroyden_refresh_least_change (Grid.identity 2) #v[3, 4] #v[4, 3] 0
  rw [Dense.coords_pair, Dense.coords_pair, Grid.toMatrix_identity] at hupdated haccepted
  have hstep : ![(3 : ℝ), 4] ≠ 0 := by
    intro hzero
    have hfirst := congrFun hzero 0
    norm_num at hfirst
  have htest : 0 * ‖toLp 2 (![(4 : ℝ), 3] - 1 *ᵥ ![3, 4])‖ <
      ‖(1 : Matrix (Fin 2) (Fin 2) ℝ)‖ * ‖toLp 2 ![(3 : ℝ), 4]‖ := by
    rw [zero_mul]
    exact mul_pos (norm_pos_iff.mpr one_ne_zero)
      (norm_pos_iff.mpr ((toLp_eq_zero 2).not.mpr hstep))
  obtain ⟨refresh, hrefresh⟩ := haccepted.mpr ⟨hstep, htest⟩
  obtain ⟨B', hB', hsecant, -, hleast⟩ := hupdated refresh hrefresh
  exact ⟨refresh, hrefresh, B', hB', hsecant, fun M hM => (hleast M hM).1⟩

end SecantRule

end SecantDescent
