import Mathlib.Analysis.Real.Sqrt
import Mathlib.Algebra.BigOperators.Fin
import SecantDescent.Dense.Sum
import SecantDescent.Proofs.Scalar.Order

/-!
# Exact arithmetic

The real numbers as scalars: nothing is rounded, every number is finite, and
the square root is the root.  Both orders of summation give the sum of the
list.
-/

namespace SecantDescent

noncomputable instance exactScalar : Scalar ℝ where
  toZero := Real.instZero
  toOne := Real.instOne
  toAdd := Real.instAdd
  toSub := Real.instSub
  toMul := Real.instMul
  toDiv := DivInvMonoid.toDiv
  toNeg := Real.instNeg
  toLT := Real.instLT
  toLE := Real.instLE
  toBEq := instBEqOfDecidableEq
  abs x := |x|
  sqrt := Real.sqrt
  isNaN _ := false
  isFinite _ := true
  notANumber := 0
  decideLT := Real.decidableLT
  decideLE := Real.decidableLE

instance exact_comparable : ComparableScalar ℝ where
  zero_number := rfl
  isNaN_abs _ := rfl
  numbers_of_lt _ := ⟨rfl, rfl⟩
  lt_irrefl := lt_irrefl
  lt_trans hab hbc := lt_trans hab hbc
  lt_or_lt hac _ := LT.lt.gt_or_lt hac _
  not_abs_lt_zero a := not_lt_of_ge (abs_nonneg a)
  le_iff := ⟨fun h => ⟨⟨rfl, rfl⟩, not_lt_of_ge h⟩, fun h => le_of_not_gt h.2⟩

namespace Scalar

@[simp] theorem abs_exact (x : ℝ) : Scalar.abs x = |x| := rfl

@[simp] theorem sqrt_exact (x : ℝ) : Scalar.sqrt x = Real.sqrt x := rfl

@[simp] theorem isFinite_exact (x : ℝ) : Scalar.isFinite x = true := rfl

@[simp] theorem isNaN_exact (x : ℝ) : Scalar.isNaN x = false := rfl

@[simp] theorem allFinite_exact (xs : List ℝ) : Scalar.allFinite xs = true := by
  simp [allFinite]

@[simp] theorem half_exact : (Scalar.half : ℝ) = 1 / 2 := by
  norm_num [half, two]

theorem larger_exact (a b : ℝ) : larger a b = max a b := by
  rw [larger, isNaN_exact, max_def_lt]
  rfl

/-- A bound that is not negative bounds the largest magnitude as soon as it
bounds every magnitude. -/
theorem largestMagnitude_exact_le_iff {xs : List ℝ} {bound : ℝ} (hbound : 0 ≤ bound) :
    largestMagnitude xs ≤ bound ↔ ∀ x ∈ xs, |x| ≤ bound := by
  refine largestMagnitude_le_iff.trans ⟨fun h x hx => h.2 x hx rfl, fun h => ?_⟩
  exact ⟨hbound, fun x hx _ => h x hx⟩

theorem foldl_larger_scaled (r : ℝ) (xs : List ℝ) (best : ℝ) :
    (xs.map (r * ·)).foldl (fun best x => larger best (abs x)) (|r| * best) =
      |r| * xs.foldl (fun best x => larger best (abs x)) best := by
  induction xs generalizing best with
  | nil => rfl
  | cons x xs ih =>
      have hlarger : larger (|r| * best) (abs (r * x)) = |r| * larger best (abs x) := by
        rw [larger_exact, larger_exact, abs_exact, abs_exact, abs_mul,
          mul_max_of_nonneg _ _ (abs_nonneg r)]
      rw [List.map_cons, List.foldl_cons, List.foldl_cons, hlarger, ih]

theorem largestMagnitude_scaled (r : ℝ) (xs : List ℝ) :
    largestMagnitude (xs.map (r * ·)) = |r| * largestMagnitude xs := by
  have hfold := foldl_larger_scaled r xs 0
  rw [mul_zero] at hfold
  exact hfold

end Scalar

namespace Dense

theorem chainSum_exact (terms : List ℝ) : chainSum terms = terms.sum := by
  cases terms with
  | nil => rfl
  | cons first rest =>
      have hfold (total : ℝ) :
          rest.foldl (fun total term => term + total) total = total + rest.sum := by
        induction rest generalizing total with
        | nil => simp
        | cons term rest ih =>
            rw [List.foldl_cons, ih, List.sum_cons]
            ring
      rw [chainSum, hfold, List.sum_cons]

theorem foldl_add_exact (terms : List ℝ) (total : ℝ) :
    terms.foldl (· + ·) total = total + terms.sum := by
  induction terms generalizing total with
  | nil => simp
  | cons term rest ih =>
      rw [List.foldl_cons, ih, List.sum_cons]
      ring

theorem laneSumFrom_exact (lanes : Vector ℝ 8) (terms : List ℝ) :
    laneSumFrom lanes terms = joinLanes lanes + terms.sum := by
  induction lanes, terms using laneSumFrom.induct with
  | case1 lanes a b c d e f g h rest ih =>
      rw [laneSumFrom, ih]
      simp [joinLanes]
      ring
  | case2 lanes terms hshort =>
      rw [laneSumFrom, foldl_add_exact]
      exact hshort

theorem laneSum_exact (terms : List ℝ) : laneSum terms = terms.sum := by
  rw [laneSum, laneSumFrom_exact]
  simp [joinLanes]

end Dense

end SecantDescent
