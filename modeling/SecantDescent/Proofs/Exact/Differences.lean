import Mathlib.Tactic.LinearCombination
import SecantDescent.Objective.Differences
import SecantDescent.Proofs.Exact.Quadratic
import SecantDescent.Proofs.Scalar.Order

/-!
# Differences of quadratic objectives

A central difference of a quadratic function is its slope, whatever the
displacement.  The estimated gradient is therefore that of the function, which
has the mean of the matrix and its transpose where the stated gradient has the
matrix; the two differ by the skew part of the matrix.  The stated gradient is
affine, so that its differences give back the matrix itself.
-/

namespace SecantDescent

open SecantDescent.Dense Matrix

variable {σ α β γ ι : Type}

/-! ## Computations that return -/

namespace Eval

/-- From every state the computation returns the value. -/
def Returns (act : Eval σ α β) (value : β) : Prop :=
  ∀ state, (act.outcome state).1 = .ok value

namespace Returns

variable {act : Eval σ α β} {value : β}

theorem pure (value : β) : Returns (pure value : Eval σ α β) value :=
  fun _ => rfl

theorem ofExcept {result : Except (Failure α) β} (h : result = .ok value) :
    Returns (.ofExcept result : Eval σ α β) value :=
  fun _ => h

theorem bind {next : β → Eval σ α γ} {answer : γ} (h : Returns act value)
    (hnext : Returns (next value) answer) : Returns (act >>= next) answer := by
  intro state
  have hvalue := h state
  rw [outcome_bind]
  generalize act.outcome state = ended at hvalue
  obtain ⟨result, after⟩ := ended
  subst hvalue
  exact hnext after

/-- A check that is passed. -/
theorem checked {condition : Prop} [Decidable condition] {failure : Failure α}
    (hcondition : ¬ condition) (h : Returns act value) :
    Returns (if condition then throw failure else act) value := by
  rw [if_neg hcondition]
  exact h

theorem mapM {ask : ι → Eval σ α β} {answer : ι → β} (h : ∀ i, Returns (ask i) (answer i))
    (is : List ι) : Returns (is.mapM ask) (is.map answer) := by
  induction is with
  | nil => exact pure []
  | cons i is ih =>
      rw [List.mapM_cons]
      exact (h i).bind (ih.bind (pure _))

/-- A loop that does not change its value. -/
theorem foldlM {step : β → ι → Eval σ α β} (h : ∀ i, Returns (step value i) value)
    (is : List ι) : Returns (is.foldlM step value) value := by
  induction is with
  | nil => exact pure value
  | cons i is ih =>
      rw [List.foldlM_cons]
      exact (h i).bind ih

end Returns

end Eval

open Eval (Returns)

/-! ## Differences of total callables -/

namespace Landscape

variable {x : Array ℝ}

/-- The point with one component moved by `h`. -/
noncomputable def shifted (x : Array ℝ) (h : ℝ) (i : Fin x.size) : Vector ℝ x.size :=
  Vector.ofFn (coords x.toVector + Pi.single i h)

theorem coords_shifted (x : Array ℝ) (h : ℝ) (i : Fin x.size) :
    coords (shifted x h i) = coords x.toVector + Pi.single i h :=
  coords_ofFn _

theorem displaced_eq (x : Array ℝ) (h : ℝ) (i : Fin x.size) :
    Objective.displaced x i h = (shifted x h i).toArray := by
  refine Array.ext (by simp [Objective.displaced]) fun k hk hk' => ?_
  simp only [Objective.displaced, shifted, Vector.toArray_ofFn, Array.getElem_ofFn,
    Pi.add_apply, Pi.single_apply, coords_mk, Array.getElem_set]
  by_cases hki : i.val = k
  · subst hki
    simp
  · have hne : (⟨k, by simpa [Objective.displaced] using hk⟩ : Fin x.size) ≠ i := by
      intro h
      exact hki (congrArg Fin.val h).symm
    simp [hki, hne]

theorem displacedBack_eq (x : Array ℝ) (h : ℝ) (i : Fin x.size) :
    Objective.displacedBack x i h = (shifted x (-h) i).toArray := by
  rw [← displaced_eq, Objective.displacedBack, Objective.displaced, sub_eq_add_neg]

/-- The central differences of the value. -/
noncomputable def slopes (L : Landscape x.size) (h : ℝ) : Vector ℝ x.size :=
  Vector.ofFn fun i => (h + h)⁻¹ * (L.value (shifted x h i) - L.value (shifted x (-h) i))

/-- The central differences of the gradient in one component. -/
noncomputable def bends (L : Landscape x.size) (h : ℝ) (i : Fin x.size) : Vector ℝ x.size :=
  Vector.ofFn ((h + h)⁻¹ • (coords (L.gradient (shifted x h i)) -
    coords (L.gradient (shifted x (-h) i))))

variable {L : Landscape x.size} {f : Objective σ ℝ}

theorem gradientByDifferences_returns (hf : f.Answers L) (h : ℝ) :
    Returns (f.gradientByDifferences h x) (L.slopes h).toArray := by
  have hpartial (i : Fin x.size) : Returns (f.partialByDifferences h x i)
      ((h + h)⁻¹ * (L.value (shifted x h i) - L.value (shifted x (-h) i))) := by
    rw [Objective.partialByDifferences, displaced_eq, displacedBack_eq, ← div_eq_inv_mul]
    exact Returns.bind (hf.cost _) (Returns.bind (hf.cost _) (.pure _))
  have hslopes : (L.slopes h).toArray = ((List.finRange x.size).map fun i =>
      (h + h)⁻¹ * (L.value (shifted x h i) - L.value (shifted x (-h) i))).toArray := by
    rw [slopes, ← List.ofFn_eq_map]
    exact Array.ext (by simp) fun k _ _ => by simp
  rw [hslopes]
  exact (Returns.mapM hpartial _).bind (.pure _)

theorem columnByDifferences_returns (hf : f.Answers L) (h : ℝ) (i : Fin x.size) :
    Returns (f.columnByDifferences h x i) (L.bends h i).toArray := by
  have hbends : (L.bends h i).toArray = (L.gradient (shifted x h i)).toArray.zipWith
      (fun a b => (a - b) / (h + h)) (L.gradient (shifted x (-h) i)).toArray := by
    refine Array.ext (by simp) fun k hk _ => ?_
    simp [bends, coords_mk, div_eq_inv_mul]
  simp only [Objective.columnByDifferences, displaced_eq, displacedBack_eq, hbends,
    ExceptT.bind_throw]
  refine Returns.bind (hf.gradient _) (Returns.bind (hf.gradient _) ?_)
  apply Returns.checked
  · simp
  · exact .pure _

/-- A gradient is compared with the slopes of the value. -/
theorem compareGradient_returns (hf : f.Answers L) (h tolerance : ℝ) :
    Returns (f.compareGradient h x tolerance)
      ⟨Scalar.largestMagnitude (L.gradient x.toVector - L.slopes h).toList < tolerance,
        Scalar.largestMagnitude (L.gradient x.toVector - L.slopes h).toList⟩ := by
  have herrors : (L.gradient x.toVector - L.slopes h).toList =
      List.zipWith (· - ·) (L.gradient x.toVector).toArray.toList
        (L.slopes h).toArray.toList := by
    refine List.ext_getElem (by simp) fun k _ _ => ?_
    simp
  simp only [Objective.compareGradient, herrors, ExceptT.bind_throw]
  refine Returns.bind (hf.gradient x.toVector) ?_
  apply Returns.checked
  · simp
  · exact (gradientByDifferences_returns hf h).bind (.pure _)

/-- A Hessian with the bends of the gradient as its columns shows no error. -/
theorem compareHessian_returns (hf : f.Answers L) {h : ℝ}
    (hbends : ∀ i, L.bends h i = (L.hessian x.toVector).column i) (tolerance : ℝ) :
    Returns (f.compareHessian h x tolerance) ⟨0 < tolerance, 0⟩ := by
  have hcolumn (i : Fin x.size) :
      Objective.columnError (L.hessian x.toVector) i (L.bends h i).toArray 0 = .ok 0 := by
    have hentry (j : Fin x.size) :
        (L.hessian x.toVector).entry j i - (L.bends h i)[j] = 0 := by
      rw [hbends, sub_eq_zero]
      simp [Grid.entry, Grid.column]
    rw [Objective.columnError, dif_pos (by simp)]
    refine congrArg Except.ok (List.foldl_fixed' (fun j => ?_) _)
    change Scalar.larger 0 (Scalar.abs (_ - (L.bends h i)[j])) = 0
    rw [hentry, Scalar.larger_exact, Scalar.abs_exact, abs_zero, max_self]
  refine Returns.bind (hf.hessian x.toVector) ?_
  simp only [DenseMatrix.toGrid?_ofGrid]
  refine Returns.bind (.foldlM (fun i => ?_) _) (.pure _)
  exact (columnByDifferences_returns hf h i).bind (.ofExcept (hcolumn i))

end Landscape

/-! ## Quadratic objectives -/

/-- The form of a matrix at two points that lie opposite each other. -/
theorem form_add_sub_form_sub {n : Nat} (A : Matrix (Fin n) (Fin n) ℝ) (u e : Fin n → ℝ) :
    (u + e) ⬝ᵥ A *ᵥ (u + e) - (u - e) ⬝ᵥ A *ᵥ (u - e) = 2 * (e ⬝ᵥ (A + Aᵀ) *ᵥ u) := by
  have hmixed : e ⬝ᵥ Aᵀ *ᵥ u = u ⬝ᵥ A *ᵥ e := by
    rw [mulVec_transpose, dotProduct_comm, ← dotProduct_mulVec]
  rw [add_mulVec, dotProduct_add, hmixed]
  simp only [mulVec_add, mulVec_sub, add_dotProduct, sub_dotProduct, dotProduct_add,
    dotProduct_sub]
  ring

theorem largestMagnitude_ofFn_zero {n : Nat} :
    Scalar.largestMagnitude (List.ofFn (0 : Fin n → ℝ)) = 0 := by
  rcases Scalar.largestMagnitude_eq_or (List.ofFn (0 : Fin n → ℝ)) with hzero
    | ⟨x, hx, hlargest⟩
  · exact hzero
  · obtain ⟨i, rfl⟩ := List.mem_ofFn.mp hx
    rw [hlargest, Scalar.abs_exact, Pi.zero_apply, abs_zero]

namespace Quadratic

open Landscape (shifted slopes bends)

variable {x : Array ℝ} {A : Grid ℝ x.size x.size} {b : Vector ℝ x.size} {c h : ℝ}

theorem value_landscape (v : Vector ℝ x.size) :
    (landscape A b c).value v =
      2⁻¹ * (coords v ⬝ᵥ A.toMatrix *ᵥ coords v) + coords b ⬝ᵥ coords v + c := by
  change dot v (A.mulVec v) * Scalar.half + dot b v + c = _
  rw [dot_exact, dot_exact, Grid.coords_mulVec, Scalar.half_exact, one_div, mul_comm]

/-- The slopes of a quadratic function are those of its symmetric part. -/
theorem coords_slopes (hh : h ≠ 0) : coords ((landscape A b c).slopes h) =
    (2⁻¹ : ℝ) • (A.toMatrix + A.toMatrixᵀ) *ᵥ coords x.toVector + coords b := by
  funext i
  have hopposite : coords (shifted x (-h) i) = coords x.toVector - Pi.single i h := by
    rw [Landscape.coords_shifted, Pi.single_neg, sub_eq_add_neg]
  have hdifference : (landscape A b c).value (shifted x h i) -
      (landscape A b c).value (shifted x (-h) i) =
        (h + h) *
          (2⁻¹ * ((A.toMatrix + A.toMatrixᵀ) *ᵥ coords x.toVector) i + coords b i) := by
    have hform := form_add_sub_form_sub A.toMatrix (coords x.toVector) (Pi.single i h)
    rw [single_dotProduct] at hform
    rw [value_landscape, value_landscape, hopposite, Landscape.coords_shifted, dotProduct_add,
      dotProduct_sub, dotProduct_single]
    linear_combination 2⁻¹ * hform
  rw [slopes, coords_ofFn, hdifference, inv_mul_cancel_left₀ (by simpa using hh), Pi.add_apply,
    Pi.smul_apply, smul_eq_mul]

/-- The bends of the gradient are the columns of the matrix. -/
theorem bends_eq_column (hh : h ≠ 0) (i : Fin x.size) :
    (landscape A b c).bends h i = A.column i := by
  apply coords_injective
  have hdifference : coords ((landscape A b c).gradient (shifted x h i)) -
      coords ((landscape A b c).gradient (shifted x (-h) i)) =
        (h + h) • coords (A.column i) := by
    have hcolumn : A.toMatrix *ᵥ Pi.single i h = h • coords (A.column i) := by
      rw [Grid.coords_column, mulVec_single, op_smul_eq_smul]
      rfl
    rw [coords_gradient, coords_gradient, residual, residual, add_sub_add_right_eq_sub,
      Landscape.coords_shifted, Landscape.coords_shifted, mulVec_add, mulVec_add,
      Pi.single_neg,
      mulVec_neg, hcolumn, add_sub_add_left_eq_sub, sub_neg_eq_add, add_smul]
  rw [bends, coords_ofFn, hdifference, smul_smul, inv_mul_cancel₀ (by simpa using hh),
    one_smul]

/-- The stated gradient and the slopes differ by the skew part. -/
theorem coords_gradient_sub_slopes (hh : h ≠ 0) :
    coords ((landscape A b c).gradient x.toVector - (landscape A b c).slopes h) =
      (2⁻¹ : ℝ) • (A.toMatrix - A.toMatrixᵀ) *ᵥ coords x.toVector := by
  rw [coords_sub, coords_gradient, residual, coords_slopes hh, add_sub_add_right_eq_sub,
    add_mulVec, sub_mulVec]
  funext i
  simp only [Pi.sub_apply, Pi.smul_apply, Pi.add_apply, smul_eq_mul]
  ring

/-- Central differences are exact on quadratic objectives.  The estimated gradient
has the symmetric part of the matrix, so that the comparison of the gradient finds
the skew part; that of the Hessian finds nothing. -/
theorem differences_exact_on_quadratic (x : Array ℝ) (A : Grid ℝ x.size x.size)
    (b : Vector ℝ x.size) (c h tolerance : ℝ) (state : σ) (hh : h ≠ 0) :
    (((ofParts A b c).objective.gradientByDifferences h x).outcome state).1 =
      .ok (Vector.ofFn ((2⁻¹ : ℝ) • (A.toMatrix + A.toMatrixᵀ) *ᵥ coords x.toVector +
        coords b)).toArray ∧
    (∃ found, (((ofParts A b c).objective.compareGradient h x tolerance).outcome state).1 =
        .ok found ∧
      found.maxError = Scalar.largestMagnitude
        (List.ofFn ((2⁻¹ : ℝ) • (A.toMatrix - A.toMatrixᵀ) *ᵥ coords x.toVector)) ∧
      (found.passes = true ↔ found.maxError < tolerance) ∧
      (A.toMatrix.IsSymm → found.maxError = 0 ∧ (found.passes = true ↔ 0 < tolerance))) ∧
    ∃ found, (((ofParts A b c).objective.compareHessian h x tolerance).outcome state).1 =
        .ok found ∧
      found.maxError = 0 ∧ (found.passes = true ↔ 0 < tolerance) := by
  have hanswers : ((ofParts A b c).objective : Objective σ ℝ).Answers (landscape A b c) :=
    objective_answers
  have herrors : ((landscape A b c).gradient x.toVector - (landscape A b c).slopes h).toList =
      List.ofFn ((2⁻¹ : ℝ) • (A.toMatrix - A.toMatrixᵀ) *ᵥ coords x.toVector) := by
    rw [toList_eq_ofFn, coords_gradient_sub_slopes hh]
  refine ⟨?_, ?_, ?_⟩
  · have hslopes : (landscape A b c).slopes h = Vector.ofFn
        ((2⁻¹ : ℝ) • (A.toMatrix + A.toMatrixᵀ) *ᵥ coords x.toVector + coords b) := by
      apply coords_injective
      rw [coords_slopes hh, coords_ofFn]
    rw [Landscape.gradientByDifferences_returns hanswers h state, hslopes]
  · have hfound := Landscape.compareGradient_returns hanswers h tolerance state
    rw [herrors] at hfound
    refine ⟨_, hfound, rfl, decide_eq_true_iff, fun hsymm => ?_⟩
    have hzero : Scalar.largestMagnitude
        (List.ofFn ((2⁻¹ : ℝ) • (A.toMatrix - A.toMatrixᵀ) *ᵥ coords x.toVector)) = 0 := by
      rw [hsymm.eq, sub_self, zero_mulVec, smul_zero]
      exact largestMagnitude_ofFn_zero
    simp only [hzero, decide_eq_true_iff, true_and]
  · exact ⟨_,
      Landscape.compareHessian_returns hanswers (bends_eq_column hh) tolerance state, rfl,
      decide_eq_true_iff⟩

/-- A quarter turn, which is all skew. -/
def quarterTurn : Grid ℝ 2 2 :=
  .ofFn fun i j => !![0, 1; -1, 0] i j

theorem toMatrix_quarterTurn : quarterTurn.toMatrix = !![0, 1; -1, 0] :=
  Grid.toMatrix_ofFn _

/-- The slopes of the form of a quarter turn vanish, and its stated gradient is reported
as the error. -/
theorem differences_exact_on_quarterTurn :
    (1 : ℝ) ≠ 0 ∧
      (((ofParts quarterTurn #v[5, 6] 7).objective.gradientByDifferences 1 #[3, 4]).outcome
        ()).1 = .ok #[5, 6] ∧
      ∃ found,
        (((ofParts quarterTurn #v[5, 6] 7).objective.compareGradient 1 #[3, 4] 1).outcome
          ()).1 = .ok found ∧
        found.maxError = 4 ∧ found.passes = false := by
  obtain ⟨hestimate, ⟨found, hfound, hlargest, hpasses, -⟩, -⟩ :=
    differences_exact_on_quadratic #[3, 4] quarterTurn #v[5, 6] 7 1 1 () one_ne_zero
  have hsymmetric : quarterTurn.toMatrix + quarterTurn.toMatrixᵀ = 0 := by
    rw [toMatrix_quarterTurn]
    ext i j
    fin_cases i <;> fin_cases j <;> simp
  have hlinear : Vector.ofFn (coords #v[(5 : ℝ), 6]) = #v[5, 6] :=
    coords_injective (coords_ofFn _)
  have hskew : List.ofFn ((2⁻¹ : ℝ) • (quarterTurn.toMatrix - quarterTurn.toMatrixᵀ) *ᵥ
      coords #v[3, 4]) = [4, -3] := by
    rw [toMatrix_quarterTurn, coords_pair]
    norm_num [mulVec, dotProduct, Fin.sum_univ_two]
  have herror : found.maxError = 4 := by
    have hpoint : (#[3, 4] : Array ℝ).toVector = #v[3, 4] := rfl
    rw [hlargest, hpoint, hskew]
    norm_num [Scalar.largestMagnitude, Scalar.larger_exact]
  refine ⟨one_ne_zero, ?_, found, hfound, herror, ?_⟩
  · rw [hestimate, hsymmetric, zero_mulVec, smul_zero, zero_add, hlinear]
  · rw [Bool.eq_false_iff, Ne, hpasses, herror]
    norm_num

end Quadratic

end SecantDescent
