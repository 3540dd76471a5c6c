import SecantDescent.Proofs.Exact.Course
import SecantDescent.Proofs.Exact.SecantEquation

/-!
# Turned vectors and matrices

An orthogonal matrix `P` turns a vector `u` to `P u` and a matrix `B` to
`P B Pᵀ`.  Products, norms and corrections of turned data are those of the
data, apart from the factors that the data were multiplied by.  The factors on
the two sides of a test of an update are the same, so that the update of turned
data is the turned update, or it is degenerate for the same quantity.
-/

namespace SecantDescent

open Matrix

variable {n : Nat} {P : Matrix (Fin n) (Fin n) ℝ} {r q : ℝ}

namespace Dense

/-- The vector `u'` is `u`, turned by `P` and multiplied by `r`. -/
def Turned (P : Matrix (Fin n) (Fin n) ℝ) (r : ℝ) (u u' : Vector ℝ n) : Prop :=
  coords u' = r • P *ᵥ coords u

variable {u u' v v' : Vector ℝ n}

theorem dotProduct_turned (hP : Pᵀ * P = 1) (x y : Fin n → ℝ) :
    P *ᵥ x ⬝ᵥ P *ᵥ y = x ⬝ᵥ y := by
  rw [dotProduct_mulVec, vecMul_mulVec, hP, vecMul_one]

theorem Turned.dot (hP : Pᵀ * P = 1) (hu : Turned P r u u') (hv : Turned P q v v') :
    dot u' v' = r * q * dot u v := by
  rw [dot_exact, dot_exact, hu, hv, smul_dotProduct, dotProduct_smul, dotProduct_turned hP,
    smul_eq_mul, smul_eq_mul, mul_assoc]

theorem Turned.norm (hP : Pᵀ * P = 1) (hu : Turned P r u u') : norm u' = |r| * norm u := by
  rw [Dense.norm, hu.dot hP hu, Dense.norm, Scalar.sqrt_exact, Scalar.sqrt_exact,
    ← pow_two, Real.sqrt_mul (sq_nonneg r), Real.sqrt_sq_eq_abs]

theorem Turned.sub (hu : Turned P r u u') (hv : Turned P r v v') :
    Turned P r (u - v) (u' - v') := by
  rw [Turned, coords_sub, coords_sub, hu, hv, mulVec_sub, smul_sub]

end Dense

namespace Grid

/-- The matrix `B'` is `B`, turned by `P` and multiplied by `r`. -/
def Turned (P : Matrix (Fin n) (Fin n) ℝ) (r : ℝ) (B B' : Grid ℝ n n) : Prop :=
  B'.toMatrix = r • (P * B.toMatrix * Pᵀ)

variable {A A' B B' : Grid ℝ n n} {u u' v v' : Vector ℝ n}

theorem Turned.add (hA : Turned P r A A') (hB : Turned P r B B') :
    Turned P r (A + B) (A' + B') := by
  rw [Turned, toMatrix_add, toMatrix_add, hA, hB, mul_add, add_mul, smul_add]

theorem Turned.sub (hA : Turned P r A A') (hB : Turned P r B B') :
    Turned P r (A - B) (A' - B') := by
  rw [Turned, toMatrix_sub, toMatrix_sub, hA, hB, mul_sub, sub_mul, smul_sub]

theorem Turned.transpose (hB : Turned P r B B') : Turned P r B.transpose B'.transpose := by
  rw [Turned, toMatrix_transpose, toMatrix_transpose, hB, transpose_smul, transpose_mul,
    transpose_mul, transpose_transpose, mul_assoc]

theorem Turned.scaled (hB : Turned P r B B') (c : ℝ) :
    Turned P r (B.mapEntries (· * c)) (B'.mapEntries (· * c)) := by
  rw [Turned, toMatrix_mapEntries_mul, toMatrix_mapEntries_mul, hB, mul_smul_comm,
    smul_mul_assoc, smul_comm]

/-- The outer product of turned vectors, over a quantity that has changed by
the factor `w`. -/
theorem Turned.correction (hu : Dense.Turned P r u u') (hv : Dense.Turned P q v v')
    {κ w c c' : ℝ} (hw : w ≠ 0) (hfactor : r * q = κ * w) (hc : c' = w * c) :
    Turned P κ ((outer u v).mapEntries (· / c)) ((outer u' v').mapEntries (· / c')) := by
  have houter : vecMulVec (P *ᵥ Dense.coords u) (P *ᵥ Dense.coords v) =
      P * vecMulVec (Dense.coords u) (Dense.coords v) * Pᵀ := by
    rw [mul_vecMulVec, vecMulVec_mul, vecMul_transpose]
  have hscale : c'⁻¹ * r * q = κ * c⁻¹ := by
    calc c'⁻¹ * r * q = (w * c)⁻¹ * (κ * w) := by
          rw [mul_assoc, hfactor, hc]
      _ = κ * c⁻¹ := by
          field_simp
  rw [Turned, toMatrix_mapEntries_div, toMatrix_mapEntries_div, toMatrix_outer, toMatrix_outer,
    hu, hv, smul_vecMulVec, vecMulVec_smul, houter, mul_smul_comm, smul_mul_assoc, smul_smul,
    smul_smul, smul_smul, hscale]

theorem Turned.mulVec (hP : Pᵀ * P = 1) (hB : Turned P q B B') (hu : Dense.Turned P r u u') :
    Dense.Turned P (q * r) (B.mulVec u) (B'.mulVec u') := by
  have himage : (P * B.toMatrix * Pᵀ) *ᵥ P *ᵥ Dense.coords u =
      P *ᵥ B.toMatrix *ᵥ Dense.coords u := by
    rw [mulVec_mulVec, mul_assoc, hP, mul_one, ← mulVec_mulVec]
  rw [Dense.Turned, coords_mulVec, coords_mulVec, hB, hu, smul_mulVec, mulVec_smul, himage,
    smul_smul]

theorem Turned.vecMul (hP : Pᵀ * P = 1) (hB : Turned P q B B') (hu : Dense.Turned P r u u') :
    Dense.Turned P (q * r) (B.vecMul u) (B'.vecMul u') := by
  have himage : (P *ᵥ Dense.coords u) ᵥ* (P * B.toMatrix * Pᵀ) =
      P *ᵥ (Dense.coords u ᵥ* B.toMatrix) := by
    rw [vecMul_mulVec, ← mul_assoc, ← mul_assoc, hP, one_mul, ← vecMul_vecMul,
      vecMul_transpose]
  rw [Dense.Turned, coords_vecMul, coords_vecMul, hB, hu, vecMul_smul, smul_vecMul, himage,
    smul_smul]

theorem Turned.frobenius (hP : Pᵀ * P = 1) (hB : Turned P r B B') :
    B'.frobenius = |r| * B.frobenius := by
  have hproduct : (P * B.toMatrix * Pᵀ)ᵀ * (P * B.toMatrix * Pᵀ) =
      P * (B.toMatrixᵀ * B.toMatrix) * Pᵀ := by
    calc (P * B.toMatrix * Pᵀ)ᵀ * (P * B.toMatrix * Pᵀ)
        = P * B.toMatrixᵀ * (Pᵀ * P) * B.toMatrix * Pᵀ := by
          rw [transpose_mul, transpose_mul, transpose_transpose]
          simp only [mul_assoc]
      _ = P * (B.toMatrixᵀ * B.toMatrix) * Pᵀ := by
          rw [hP, mul_one, mul_assoc P]
  have htrace : trace (P * (B.toMatrixᵀ * B.toMatrix) * Pᵀ) =
      trace (B.toMatrixᵀ * B.toMatrix) := by
    rw [trace_mul_comm, ← mul_assoc, hP, one_mul]
  rw [frobenius_exact, frobenius_exact, hB, transpose_smul, smul_mul_smul_comm, hproduct,
    trace_smul, htrace, smul_eq_mul, Real.sqrt_mul (mul_self_nonneg r),
    Real.sqrt_mul_self_eq_abs]

theorem Turned.det_ne_zero_iff (hP : Pᵀ * P = 1) (hr : r ≠ 0) (hB : Turned P r B B') :
    B'.toMatrix.det ≠ 0 ↔ B.toMatrix.det ≠ 0 := by
  have hunit : P.det * P.det = 1 := by
    have hdet := congrArg det hP
    rwa [det_mul, det_transpose, det_one] at hdet
  have hsame : B'.toMatrix.det = r ^ Fintype.card (Fin n) * B.toMatrix.det := by
    rw [hB, det_smul, det_mul, det_mul, det_transpose, mul_right_comm P.det, hunit, one_mul]
  rw [hsame, mul_ne_zero_iff]
  exact and_iff_right (pow_ne_zero _ hr)

end Grid

/-! ## Turned updates -/

namespace SecantRule

open SecantDescent.Dense

variable {κ l tolerance : ℝ}
variable {B B' : Grid ℝ n n} {s s' y y' : Vector ℝ n}

theorem finiteUpdate_exact (B : Grid ℝ n n) : finiteUpdate B = .ok B :=
  if_pos (Grid.allFinite_exact B)

theorem lt_abs_iff_of_scaled {w x z x' z' : ℝ} (hw : w ≠ 0) (hx : x' = |w| * x)
    (hz : z' = w * z) : x' < |z'| ↔ x < |z| := by
  rw [hx, hz, abs_mul, mul_lt_mul_iff_right₀ (abs_pos.mpr hw)]

/-- Both sides of the two tests change by the same factor, and the corrections
by that of the matrix. -/
theorem bfgsUpdate_turned (hP : Pᵀ * P = 1) (hκ : κ ≠ 0) (hl : l ≠ 0)
    (hB : Grid.Turned P κ B B') (hs : Turned P l s s') (hy : Turned P (κ * l) y y') :
    Alike (fun cause cause' => cause'.quantity = cause.quantity) (Grid.Turned P κ)
      (bfgsUpdate tolerance B s y) (bfgsUpdate tolerance B' s' y') := by
  have hw : κ * l ^ 2 ≠ 0 := mul_ne_zero hκ (pow_ne_zero 2 hl)
  have himage := hB.mulVec hP hs
  have hcurvature : dot y' s' = κ * l ^ 2 * dot y s := by
    rw [hy.dot hP hs]
    ring
  have hform : dot s' (B'.mulVec s') = κ * l ^ 2 * dot s (B.mulVec s) := by
    rw [hs.dot hP himage]
    ring
  have hcurvatureTest : tolerance * norm y' * norm s' < Scalar.abs (dot y' s') ↔
      tolerance * norm y * norm s < Scalar.abs (dot y s) := by
    apply lt_abs_iff_of_scaled hw _ hcurvature
    rw [hy.norm hP, hs.norm hP, abs_mul, abs_mul, abs_pow]
    ring
  have hformTest : tolerance * B'.frobenius * norm s' * norm s' <
      Scalar.abs (dot s' (B'.mulVec s')) ↔
      tolerance * B.frobenius * norm s * norm s < Scalar.abs (dot s (B.mulVec s)) := by
    apply lt_abs_iff_of_scaled hw _ hform
    rw [hB.frobenius hP, hs.norm hP, abs_mul, abs_pow]
    ring
  have hstep : norm s' = 0 ↔ norm s = 0 := by
    rw [hs.norm hP, mul_eq_zero]
    exact or_iff_right (abs_ne_zero.mpr hl)
  have hfactor : κ * l * (κ * l) = κ * (κ * l ^ 2) := by
    ring
  have hremoved : Grid.Turned P κ
      ((Grid.outer (B.mulVec s) (B.vecMul s)).mapEntries (· / dot s (B.mulVec s)))
      ((Grid.outer (B'.mulVec s') (B'.vecMul s')).mapEntries (· / dot s' (B'.mulVec s'))) :=
    .correction himage (hB.vecMul hP hs) hw hfactor hform
  have hadded : Grid.Turned P κ ((Grid.outer y y).mapEntries (· / dot y s))
      ((Grid.outer y' y').mapEntries (· / dot y' s')) :=
    .correction hy hy hw hfactor hcurvature
  have hsum := (hB.sub hremoved).add hadded
  simp only [bfgsUpdate, beq_iff_eq, finiteUpdate_exact]
  apply Alike.ite (or_congr (not_congr hcurvatureTest) hstep)
  · exact .error rfl
  · apply Alike.ite (not_congr hformTest)
    · exact .error rfl
    · exact .ok ((hsum.add hsum.transpose).scaled Scalar.half)

theorem squaredLength_turned (hP : Pᵀ * P = 1) (hs : Turned P l s s') :
    squaredLength s' = l ^ 2 * squaredLength s := by
  rw [squaredLength, hs.norm hP, squaredLength, ← sq_abs l]
  ring

theorem goodBroydenUpdate_turned (hP : Pᵀ * P = 1) (hκ : κ ≠ 0) (hl : l ≠ 0)
    (hB : Grid.Turned P κ B B') (hs : Turned P l s s') (hy : Turned P (κ * l) y y') :
    Alike (fun cause cause' => cause'.quantity = cause.quantity) (Grid.Turned P κ)
      (goodBroydenUpdate tolerance B s y) (goodBroydenUpdate tolerance B' s' y') := by
  have hresidual : Turned P (κ * l) (y - B.mulVec s) (y' - B'.mulVec s') :=
    hy.sub (hB.mulVec hP hs)
  have hlength := squaredLength_turned hP hs
  have htest : tolerance * norm (y' - B'.mulVec s') < B'.frobenius * norm s' ↔
      tolerance * norm (y - B.mulVec s) < B.frobenius * norm s := by
    have hw : 0 < |κ| * |l| := by positivity
    have hleft : tolerance * norm (y' - B'.mulVec s') =
        |κ| * |l| * (tolerance * norm (y - B.mulVec s)) := by
      rw [hresidual.norm hP, abs_mul]
      ring
    have hright : B'.frobenius * norm s' = |κ| * |l| * (B.frobenius * norm s) := by
      rw [hB.frobenius hP, hs.norm hP]
      ring
    rw [hleft, hright, mul_lt_mul_iff_right₀ hw]
  have hfactor : κ * l * l = κ * l ^ 2 := by
    ring
  have hadded : Grid.Turned P κ
      ((Grid.outer (y - B.mulVec s) s).mapEntries (· / squaredLength s))
      ((Grid.outer (y' - B'.mulVec s') s').mapEntries (· / squaredLength s')) :=
    .correction hresidual hs (pow_ne_zero 2 hl) hfactor hlength
  simp only [goodBroydenUpdate, finiteUpdate_exact]
  apply Alike.ite (not_congr htest)
  · exact .error rfl
  · exact .ok (hB.add hadded)

theorem attempt_turned (rule : SecantRule) (hP : Pᵀ * P = 1) (hκ : κ ≠ 0) (hl : l ≠ 0)
    (hB : Grid.Turned P κ B B') (hs : Turned P l s s') (hy : Turned P (κ * l) y y') :
    Alike (fun cause cause' => cause'.quantity = cause.quantity) (Grid.Turned P κ)
      (rule.attempt tolerance B s y) (rule.attempt tolerance B' s' y') := by
  cases rule with
  | bfgs => exact bfgsUpdate_turned hP hκ hl hB hs hy
  | goodBroyden =>
      have hw : 0 < l ^ 2 := by positivity
      have hlength : 0 < squaredLength s' ↔ 0 < squaredLength s := by
        rw [squaredLength_turned hP hs]
        exact mul_pos_iff_of_pos_left hw
      simp only [attempt, checkStep, hlength]
      by_cases hstep : 0 < squaredLength s
      · simp only [if_pos hstep]
        exact goodBroydenUpdate_turned hP hκ hl hB hs hy
      · simp only [if_neg hstep]
        exact .error rfl

end SecantRule

/-! ## Turned refreshments -/

/-- The quantity that kept an update from being made. -/
def Refresh.quantity? {α : Type} : Refresh α → Option String
  | .updated _ => none
  | .skipped cause => some cause.quantity

/-- Two refreshments, each of its own matrix, that lead to matrices in a relation and are
skipped for the same quantity, if they are. -/
structure Refresh.Matches (related : Grid ℝ n n → Grid ℝ n n → Prop) (B B' : Grid ℝ n n)
    (refresh other : Refresh ℝ) : Prop where
  matrix : ∃ A A', refresh.matrix (.ofGrid B) = .ofGrid A ∧
    other.matrix (.ofGrid B') = .ofGrid A' ∧ related A A'
  quantity : other.quantity? = refresh.quantity?

namespace SecantRule

open SecantDescent.Dense

variable {κ l : ℝ} {B B' : Grid ℝ n n} {s s' y y' : Vector ℝ n}

theorem settle_alike (rule : SecantRule) (safeguard : Safeguard ℝ)
    {related : Grid ℝ n n → Grid ℝ n n → Prop} (hheld : related B B')
    {first second : Except (Degeneracy ℝ) (Grid ℝ n n)}
    (h : Alike (fun cause cause' => cause'.quantity = cause.quantity) related first second) :
    Alike Failure.SameCause (Refresh.Matches related B B') (rule.settle safeguard first)
      (rule.settle safeguard second) := by
  cases h with
  | ok hrelated => exact .ok ⟨⟨_, _, rfl, rfl, hrelated⟩, rfl⟩
  | error hquantity =>
      cases hpolicy : safeguard.policy with
      | skip =>
          simp only [settle, hpolicy]
          exact .ok ⟨⟨B, B', rfl, rfl, hheld⟩, congrArg some hquantity⟩
      | error =>
          simp only [settle, hpolicy, hquantity]
          exact .error ⟨_, rfl⟩

theorem refresh_turned (rule : SecantRule) (safeguard : Safeguard ℝ) (hP : Pᵀ * P = 1)
    (hκ : κ ≠ 0) (hl : l ≠ 0) (hB : Grid.Turned P κ B B') (hs : Turned P l s s')
    (hy : Turned P (κ * l) y y') :
    Alike Failure.SameCause (Refresh.Matches (Grid.Turned P κ) B B')
      (rule.refresh safeguard (.ofGrid B) ⟨s.toArray, y.toArray⟩)
      (rule.refresh safeguard (.ofGrid B') ⟨s'.toArray, y'.toArray⟩) := by
  rw [refresh_ofGrid, refresh_ofGrid]
  exact settle_alike rule safeguard hB (attempt_turned rule hP hκ hl hB hs hy)

end SecantRule

end SecantDescent
