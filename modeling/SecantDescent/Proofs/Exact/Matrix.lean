import Mathlib.Algebra.Order.Star.Real
import Mathlib.LinearAlgebra.Matrix.PosDef
import SecantDescent.Dense.Grid
import SecantDescent.Proofs.Exact.Scalar

/-!
# Stored vectors and matrices in exact arithmetic

A stored vector is read as the function of its coordinates and a `Grid` as the
matrix of its entries.  In exact arithmetic the operations on the stored data
are the operations of linear algebra under this reading.
-/

namespace SecantDescent

open Matrix

namespace Dense

variable {α : Type} {n : Nat}

/-- The coordinates of a stored vector. -/
def coords (xs : Vector α n) : Fin n → α :=
  xs.get

theorem coords_mk (xs : Vector α n) {i : Nat} (hi : i < n) : coords xs ⟨i, hi⟩ = xs[i] := rfl

theorem coords_injective : Function.Injective (coords : Vector α n → Fin n → α) := by
  intro xs ys h
  refine Vector.ext fun i hi => ?_
  exact congrFun h ⟨i, hi⟩

@[simp] theorem coords_ofFn (entry : Fin n → α) : coords (Vector.ofFn entry) = entry := by
  funext ⟨i, hi⟩
  simp [coords_mk]

theorem coords_pair (a b : α) : coords #v[a, b] = ![a, b] := by
  funext i
  fin_cases i <;> rfl

theorem toList_eq_ofFn (xs : Vector α n) : xs.toList = List.ofFn (coords xs) := by
  refine List.ext_getElem (by simp) fun i _ _ => ?_
  simp [coords_mk]

theorem largestMagnitude_toList_le_iff {xs : Vector ℝ n} {bound : ℝ} (hbound : 0 ≤ bound) :
    Scalar.largestMagnitude xs.toList ≤ bound ↔ ∀ i, |coords xs i| ≤ bound := by
  rw [Scalar.largestMagnitude_exact_le_iff hbound, toList_eq_ofFn, List.forall_mem_ofFn_iff]

theorem sum_toList (xs : Vector ℝ n) : xs.toList.sum = ∑ i, coords xs i := by
  rw [toList_eq_ofFn, List.sum_ofFn]

@[simp] theorem coords_neg (xs : Vector ℝ n) : coords (-xs) = -coords xs := by
  funext ⟨i, hi⟩
  simp [coords_mk]

@[simp] theorem coords_add (xs ys : Vector ℝ n) :
    coords (xs + ys) = coords xs + coords ys := by
  funext ⟨i, hi⟩
  simp [coords_mk]

@[simp] theorem coords_sub (xs ys : Vector ℝ n) :
    coords (xs - ys) = coords xs - coords ys := by
  funext ⟨i, hi⟩
  simp [coords_mk]

theorem sum_products (xs ys : Vector ℝ n) :
    (products xs ys).sum = coords xs ⬝ᵥ coords ys := by
  rw [products, sum_toList, dotProduct]
  refine Finset.sum_congr rfl fun ⟨i, hi⟩ _ => ?_
  simp [coords_mk]

theorem dot_exact (xs ys : Vector ℝ n) : dot xs ys = coords xs ⬝ᵥ coords ys := by
  rw [dot, laneSum_exact, sum_products]

theorem norm_exact (xs : Vector ℝ n) : norm xs = √(coords xs ⬝ᵥ coords xs) := by
  rw [norm, dot_exact, Scalar.sqrt_exact]

theorem norm_eq_zero_iff {xs : Vector ℝ n} : norm xs = 0 ↔ coords xs = 0 := by
  have hsquare : 0 ≤ coords xs ⬝ᵥ coords xs := dotProduct_self_star_nonneg (coords xs)
  rw [norm_exact, Real.sqrt_eq_zero hsquare, dotProduct_self_eq_zero]

theorem norm_pair (a b : ℝ) : norm #v[a, b] = √(a * a + b * b) := by
  rw [norm_exact, coords_pair]
  simp [dotProduct, Fin.sum_univ_two]

theorem norm_nonneg (xs : Vector ℝ n) : 0 ≤ norm xs := by
  rw [norm_exact]
  exact Real.sqrt_nonneg _

end Dense

namespace Grid

variable {α : Type} {rows cols : Nat}

/-- The matrix of the entries of a grid. -/
def toMatrix (A : Grid α rows cols) : Matrix (Fin rows) (Fin cols) α :=
  .of A.entry

theorem toMatrix_mk (A : Grid α rows cols) {i j : Nat} (hi : i < rows) (hj : j < cols) :
    A.toMatrix ⟨i, hi⟩ ⟨j, hj⟩ = A[i][j] := rfl

theorem toMatrix_injective :
    Function.Injective (toMatrix : Grid α rows cols → Matrix (Fin rows) (Fin cols) α) := by
  intro A B h
  refine Vector.ext fun i hi => Vector.ext fun j hj => ?_
  exact congrFun (congrFun h ⟨i, hi⟩) ⟨j, hj⟩

@[simp] theorem toMatrix_ofFn (entry : Fin rows → Fin cols → α) :
    (ofFn entry).toMatrix = .of entry := by
  ext ⟨i, hi⟩ ⟨j, hj⟩
  simp [toMatrix_mk, ofFn]

@[simp] theorem toMatrix_transpose (A : Grid α rows cols) :
    A.transpose.toMatrix = A.toMatrixᵀ := by
  rw [transpose, toMatrix_ofFn]
  rfl

theorem toMatrix_identity : (identity rows : Grid ℝ rows rows).toMatrix = 1 := by
  rw [identity, toMatrix_ofFn]
  ext i j
  rw [of_apply, one_apply]

@[simp] theorem toMatrix_add (A B : Grid ℝ rows cols) :
    (A + B).toMatrix = A.toMatrix + B.toMatrix := by
  ext ⟨i, hi⟩ ⟨j, hj⟩
  simp [toMatrix_mk]

@[simp] theorem toMatrix_sub (A B : Grid ℝ rows cols) :
    (A - B).toMatrix = A.toMatrix - B.toMatrix := by
  ext ⟨i, hi⟩ ⟨j, hj⟩
  simp [toMatrix_mk]

@[simp] theorem toMatrix_mapEntries_mul (A : Grid ℝ rows cols) (c : ℝ) :
    (A.mapEntries (· * c)).toMatrix = c • A.toMatrix := by
  ext ⟨i, hi⟩ ⟨j, hj⟩
  simp [toMatrix_mk, mapEntries, mul_comm]

@[simp] theorem toMatrix_mapEntries_div (A : Grid ℝ rows cols) (c : ℝ) :
    (A.mapEntries (· / c)).toMatrix = c⁻¹ • A.toMatrix := by
  ext ⟨i, hi⟩ ⟨j, hj⟩
  simp [toMatrix_mk, mapEntries, div_eq_inv_mul]

@[simp] theorem toMatrix_outer (u : Vector ℝ rows) (v : Vector ℝ cols) :
    (outer u v).toMatrix = vecMulVec (Dense.coords u) (Dense.coords v) := by
  rw [outer, toMatrix_ofFn]
  rfl

@[simp] theorem coords_mulVec (A : Grid ℝ rows cols) (x : Vector ℝ cols) :
    Dense.coords (A.mulVec x) = A.toMatrix *ᵥ Dense.coords x := by
  funext ⟨i, hi⟩
  have hrow : Dense.coords A[i] = A.toMatrix ⟨i, hi⟩ := rfl
  rw [Matrix.mulVec, ← hrow, ← Dense.sum_products, ← Dense.chainSum_exact]
  simp [Dense.coords_mk, mulVec]

theorem coords_column (A : Grid α rows cols) (j : Fin cols) :
    Dense.coords (A.column j) = fun i => A.toMatrix i j := by
  funext ⟨i, hi⟩
  simp [Dense.coords_mk, column, toMatrix, entry]

@[simp] theorem coords_vecMul (x : Vector ℝ rows) (A : Grid ℝ rows cols) :
    Dense.coords (A.vecMul x) = Dense.coords x ᵥ* A.toMatrix := by
  funext j
  rw [Matrix.vecMul, ← coords_column, ← Dense.sum_products, ← Dense.chainSum_exact, vecMul,
    Dense.coords_ofFn]

theorem frobenius_exact (A : Grid ℝ rows cols) :
    A.frobenius = √(trace (A.toMatrixᵀ * A.toMatrix)) := by
  have hcolumn (j : Fin cols) :
      Dense.dot (A.column j) (A.column j) = (A.toMatrixᵀ * A.toMatrix) j j := by
    rw [Dense.dot_exact, coords_column]
    rfl
  have hfold (js : List (Fin cols)) (total : ℝ) :
      js.foldl (fun total j => total + Dense.dot (A.column j) (A.column j)) total =
        total + (js.map fun j => (A.toMatrixᵀ * A.toMatrix) j j).sum := by
    induction js generalizing total with
    | nil => simp
    | cons j js ih =>
        rw [List.foldl_cons, ih, List.map_cons, List.sum_cons, hcolumn]
        ring
  rw [frobenius, hfold, zero_add, ← List.ofFn_eq_map, List.sum_ofFn, Scalar.sqrt_exact]
  rfl

theorem frobenius_nonneg (A : Grid ℝ rows cols) : 0 ≤ A.frobenius := by
  rw [frobenius, Scalar.sqrt_exact]
  exact Real.sqrt_nonneg _

@[simp] theorem allFinite_exact (A : Grid ℝ rows cols) : A.allFinite = true := by
  simp [allFinite]

end Grid

@[simp] theorem DenseMatrix.allFinite_exact (A : DenseMatrix ℝ) : A.allFinite = true :=
  Grid.allFinite_exact A.grid

end SecantDescent
