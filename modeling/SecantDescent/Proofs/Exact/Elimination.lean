import Mathlib.LinearAlgebra.Matrix.NonsingularInverse
import Mathlib.LinearAlgebra.Matrix.ToLinearEquiv
import SecantDescent.Direction
import SecantDescent.Proofs.Dense.Stage
import SecantDescent.Proofs.Exact.Matrix

/-!
# Elimination in exact arithmetic

In exact arithmetic the choice of the pivot makes elimination complete: a zero
pivot means that the leading unknown occurs in no equation that is left, and
then the system is singular.  Otherwise the elimination of one unknown changes
neither the solutions of the system nor those of its homogeneous system.  A
descent direction is therefore found exactly when the matrix can be inverted,
and it is the only solution of its equations.
-/

namespace SecantDescent.Dense

open Matrix

variable {n : Nat}

/-- By how much the left-hand side of an equation exceeds its scaled right-hand
side.  The scale zero makes the equation homogeneous. -/
def Equation.excess (scale : ℝ) (equation : Equation ℝ n) (x : Fin n → ℝ) : ℝ :=
  coords equation.coeffs ⬝ᵥ x - scale * equation.rhs

/-- The equations of a system with scaled right-hand sides. -/
def Solves {m : Nat} (scale : ℝ) (system : Vector (Equation ℝ n) m) (x : Fin n → ℝ) : Prop :=
  ∀ i : Fin m, (system.get i).excess scale x = 0

/-! ## One equation -/

theorem dotProduct_finCons (u : Fin (n + 1) → ℝ) (lead : ℝ) (known : Fin n → ℝ) :
    u ⬝ᵥ Fin.cons lead known = u 0 * lead + (fun k => u k.succ) ⬝ᵥ known :=
  Matrix.dotProduct_cons u lead known

theorem Equation.excess_eliminate {pivot : Equation ℝ (n + 1)}
    (hpivot : coords pivot.coeffs 0 ≠ 0) (equation : Equation ℝ (n + 1)) (scale lead : ℝ)
    (known : Fin n → ℝ) :
    (pivot.eliminate (1 / coords pivot.coeffs 0) equation).excess scale known =
      equation.excess scale (Fin.cons lead known) -
        coords equation.coeffs 0 / coords pivot.coeffs 0 *
          pivot.excess scale (Fin.cons lead known) := by
  have hcoeffs : coords (pivot.eliminate (1 / coords pivot.coeffs 0) equation).coeffs =
      (fun k => coords equation.coeffs k.succ) -
        (coords equation.coeffs 0 / coords pivot.coeffs 0) •
          fun k => coords pivot.coeffs k.succ := by
    funext k
    have hentry : coords (pivot.eliminate (1 / coords pivot.coeffs 0) equation).coeffs k =
        -coords pivot.coeffs k.succ *
          (coords equation.coeffs 0 * (1 / coords pivot.coeffs 0)) +
            coords equation.coeffs k.succ := congrFun (coords_ofFn _) k
    rw [hentry, Pi.sub_apply, Pi.smul_apply, smul_eq_mul]
    ring
  have hrhs : (pivot.eliminate (1 / coords pivot.coeffs 0) equation).rhs =
      -pivot.rhs * (coords equation.coeffs 0 * (1 / coords pivot.coeffs 0)) +
        equation.rhs := rfl
  rw [excess, hcoeffs, hrhs, excess, excess, dotProduct_finCons, dotProduct_finCons,
    sub_dotProduct, smul_dotProduct, smul_eq_mul]
  field_simp
  ring

/-- The leading unknown is the only value that solves the equation. -/
theorem Equation.excess_cons_eq_zero_iff {equation : Equation ℝ (n + 1)}
    (hlead : coords equation.coeffs 0 ≠ 0) {scale lead : ℝ} {known : Fin n → ℝ} :
    equation.excess scale (Fin.cons lead known) = 0 ↔
      lead = (scale * equation.rhs - (fun k => coords equation.coeffs k.succ) ⬝ᵥ known) /
        coords equation.coeffs 0 := by
  rw [excess, dotProduct_finCons, eq_div_iff hlead]
  constructor
  · intro h
    linarith
  · intro h
    linarith

theorem Equation.leadingUnknown_exact (equation : Equation ℝ (n + 1)) (known : Vector ℝ n) :
    equation.leadingUnknown known =
      (equation.rhs - (fun k => coords equation.coeffs k.succ) ⬝ᵥ coords known) /
        coords equation.coeffs 0 := by
  have hfold (ks : List (Fin n)) :
      ks.foldr (fun k rest => -known.get k * equation.coeffs[k.succ] + rest) equation.rhs =
        equation.rhs - (ks.map fun k =>
          coords equation.coeffs k.succ * coords known k).sum := by
    induction ks with
    | nil => simp
    | cons k ks ih =>
        have hknown : known.get k = coords known k := rfl
        have hcoeff : equation.coeffs[k.succ] = coords equation.coeffs k.succ := rfl
        rw [List.foldr_cons, ih, List.map_cons, List.sum_cons, hknown, hcoeff]
        ring
  rw [leadingUnknown, hfold, dotProduct, ← List.ofFn_eq_map, List.sum_ofFn]
  rfl

/-! ## The choice of the pivot -/

theorem pivotIndex_maximal (system : Vector (Equation ℝ (n + 1)) (n + 1)) (r : Fin (n + 1)) :
    |coords (system.get r).coeffs 0| ≤ |coords (system.get (pivotIndex system)).coeffs 0| :=
  not_lt.mp (not_pivot_lt lt_irrefl (fun _ _ _ => lt_trans) system r)

/-! ## The whole system -/

theorem coords_insertIdx_zero (known : Vector ℝ n) (lead : ℝ) :
    coords (known.insertIdx 0 lead n.zero_le) = Fin.cons lead (coords known) :=
  get_insertIdx_zero known lead

theorem solves_cons_iff {system : Vector (Equation ℝ (n + 1)) (n + 1)} {p : Fin (n + 1)}
    (hpivot : coords (system.get p).coeffs 0 ≠ 0) {scale lead : ℝ} {known : Fin n → ℝ} :
    Solves scale system (Fin.cons lead known) ↔
      (system.get p).excess scale (Fin.cons lead known) = 0 ∧
        Solves scale (remaining system p (1 / coords (system.get p).coeffs 0)) known := by
  have hsplit := forall_others_iff system p
    fun equation => equation.excess scale (Fin.cons lead known) = 0
  refine hsplit.trans (and_congr_right fun hzero => forall_congr' fun k => ?_)
  have hentry : (remaining system p (1 / coords (system.get p).coeffs 0)).get k =
      (system.get p).eliminate (1 / coords (system.get p).coeffs 0)
        ((others system p).get k) := Vector.getElem_map _ k.isLt
  rw [hentry, Equation.excess_eliminate hpivot, hzero, mul_zero, sub_zero]

theorem solveEquations_succ_exact (system : Vector (Equation ℝ (n + 1)) (n + 1)) :
    solveEquations (n + 1) system =
      if coords (system.get (pivotIndex system)).coeffs 0 = 0 then none
      else
        (solveEquations n (remaining system (pivotIndex system)
          (1 / coords (system.get (pivotIndex system)).coeffs 0))).map fun known =>
          known.insertIdx 0 ((system.get (pivotIndex system)).leadingUnknown known)
            n.zero_le := by
  rw [solveEquations_succ]
  simp only [beq_iff_eq]
  rfl

/-- The solution found is the only one. -/
theorem solves_iff_of_solveEquations {system : Vector (Equation ℝ n) n} {x : Vector ℝ n}
    (h : solveEquations n system = some x) (y : Fin n → ℝ) :
    Solves 1 system y ↔ y = coords x := by
  induction n with
  | zero =>
      refine iff_of_true (fun i => i.elim0) (Subsingleton.elim _ _)
  | succ n ih =>
      rw [solveEquations_succ_exact] at h
      split at h
      next => cases h
      next hpivot =>
        obtain ⟨known, hknown, rfl⟩ := Option.map_eq_some_iff.mp h
        rw [← Fin.cons_self_tail y, solves_cons_iff hpivot, ih hknown,
          Equation.excess_cons_eq_zero_iff hpivot, coords_insertIdx_zero, one_mul,
          Fin.cons_inj, Equation.leadingUnknown_exact]
        constructor
        · rintro ⟨hlead, htail⟩
          rw [htail] at hlead
          exact ⟨hlead, htail⟩
        · rintro ⟨hlead, htail⟩
          rw [htail]
          exact ⟨hlead, rfl⟩

/-- A system without a solution here is singular. -/
theorem exists_solves_zero_of_solveEquations {system : Vector (Equation ℝ n) n}
    (h : solveEquations n system = none) : ∃ y, y ≠ 0 ∧ Solves 0 system y := by
  induction n with
  | zero => cases h
  | succ n ih =>
      rw [solveEquations_succ_exact] at h
      split at h
      next hzero =>
        -- no equation contains the leading unknown, which is therefore free
        refine ⟨Fin.cons 1 0, fun hnull => ?_, fun r => ?_⟩
        · exact one_ne_zero (congrFun hnull 0)
        · have hlead : coords (system.get r).coeffs 0 = 0 := by
            have hmaximal := pivotIndex_maximal system r
            rw [hzero, abs_zero] at hmaximal
            exact abs_nonpos_iff.mp hmaximal
          rw [Equation.excess, dotProduct_finCons, hlead]
          simp
      next hpivot =>
        obtain ⟨known, hnull, hknown⟩ := ih (Option.map_eq_none_iff.mp h)
        refine ⟨Fin.cons _ known, fun hcons => hnull ?_,
          (solves_cons_iff hpivot).mpr ⟨(Equation.excess_cons_eq_zero_iff hpivot).mpr rfl,
            hknown⟩⟩
        funext k
        exact congrFun hcons k.succ

theorem solves_zipWith_iff {A : Grid ℝ n n} {b : Vector ℝ n} {scale : ℝ} {x : Fin n → ℝ} :
    Solves scale (Vector.zipWith Equation.mk A b) x ↔ A.toMatrix *ᵥ x = scale • coords b := by
  rw [Solves, funext_iff]
  refine forall_congr' fun i => ?_
  rw [get_zipWith_mk, Equation.excess, sub_eq_zero]
  rfl

theorem det_eq_zero_of_solve {A : Grid ℝ n n} {b : Vector ℝ n} (h : solve A b = none) :
    A.toMatrix.det = 0 := by
  obtain ⟨y, hy, hzero⟩ := exists_solves_zero_of_solveEquations h
  rw [solves_zipWith_iff, zero_smul] at hzero
  exact exists_mulVec_eq_zero_iff.mp ⟨y, hy, hzero⟩

theorem solve_eq_some_iff {A : Grid ℝ n n} {b x : Vector ℝ n} :
    solve A b = some x ↔ A.toMatrix.det ≠ 0 ∧ A.toMatrix *ᵥ coords x = coords b := by
  constructor
  · intro h
    have hunique (y : Fin n → ℝ) : A.toMatrix *ᵥ y = coords b ↔ y = coords x := by
      rw [← solves_iff_of_solveEquations h y, solves_zipWith_iff, one_smul]
    have hx : A.toMatrix *ᵥ coords x = coords b := (hunique _).mpr rfl
    refine ⟨fun hdet => ?_, hx⟩
    obtain ⟨v, hv, hzero⟩ := exists_mulVec_eq_zero_iff.mpr hdet
    have hshift : coords x + v = coords x :=
      (hunique _).mp (by rw [mulVec_add, hx, hzero, add_zero])
    exact hv (add_eq_left.mp hshift)
  · rintro ⟨hdet, hx⟩
    cases h : solve A b with
    | none => exact absurd (det_eq_zero_of_solve h) hdet
    | some z =>
        have hz : coords x = coords z := by
          rw [← solves_iff_of_solveEquations h, solves_zipWith_iff, one_smul]
          exact hx
        rw [coords_injective hz]

end SecantDescent.Dense

namespace SecantDescent

open SecantDescent.Dense Matrix

variable {n : Nat}

/-! ## Descent directions -/

theorem solveForDirection_eq_some_iff {B : Grid ℝ n n} {g d : Vector ℝ n} :
    solveForDirection B g = some d ↔
      B.toMatrix.det ≠ 0 ∧ B.toMatrix *ᵥ coords d = -coords g := by
  unfold solveForDirection
  split
  next B g =>
    have hdet : B.toMatrix.det = B[0][0] := det_fin_one _
    have hentry : B.toMatrix *ᵥ coords d = -coords g ↔ B[0][0] * d[0] = -g[0] := by
      rw [funext_iff, Fin.forall_fin_one, mulVec, dotProduct, Fin.sum_univ_one]
      rfl
    rw [hdet, hentry]
    by_cases hzero : B[0][0] = 0
    · simp [hzero]
    · have hvector (c : ℝ) : #v[c] = d ↔ c = d[0] := by
        rw [← coords_injective.eq_iff, funext_iff, Fin.forall_fin_one]
        rfl
      simp only [hzero, hvector, div_eq_iff hzero, mul_comm B[0][0], beq_iff_eq,
        Scalar.isFinite_exact, Bool.not_true, Bool.or_false, if_false,
        Option.some.injEq, ne_eq, not_false_eq_true, true_and]
      exact eq_comm
  next => rw [solve_eq_some_iff, coords_neg]

theorem descentDirection_eq_ok_iff {B : Grid ℝ n n} {g d : Vector ℝ n} {iteration : Nat} :
    descentDirection (.ofGrid B) g iteration = .ok d ↔
      B.toMatrix.det ≠ 0 ∧ B.toMatrix *ᵥ coords d = -coords g := by
  rw [← solveForDirection_eq_some_iff, descentDirection, DenseMatrix.toGrid?_ofGrid]
  cases h : solveForDirection B g <;> simp [h]

theorem descentDirection_of_det_eq_zero {B : Grid ℝ n n} (hdet : B.toMatrix.det = 0)
    (g : Vector ℝ n) (iteration : Nat) :
    descentDirection (.ofGrid B) g iteration = .error (.singularMatrix iteration) := by
  rw [descentDirection, DenseMatrix.toGrid?_ofGrid]
  cases h : solveForDirection B g with
  | none => simp only [h]
  | some d => exact absurd hdet (solveForDirection_eq_some_iff.mp h).1

/-- An inverse of the matrix gives the direction as a product. -/
theorem descentDirection_of_mul_eq_one {B : Grid ℝ n n} {H : Matrix (Fin n) (Fin n) ℝ}
    (hinverse : B.toMatrix * H = 1) (g : Vector ℝ n) (iteration : Nat) :
    descentDirection (.ofGrid B) g iteration = .ok (Vector.ofFn (-(H *ᵥ coords g))) := by
  refine descentDirection_eq_ok_iff.mpr ⟨det_ne_zero_of_right_inverse hinverse, ?_⟩
  rw [coords_ofFn, mulVec_neg, mulVec_mulVec, hinverse, one_mulVec]

theorem exists_descentDirection {B : Grid ℝ n n} (hdet : B.toMatrix.det ≠ 0) (g : Vector ℝ n)
    (iteration : Nat) : ∃ d, descentDirection (.ofGrid B) g iteration = .ok d :=
  ⟨_, descentDirection_of_mul_eq_one
    (mul_nonsing_inv _ (isUnit_iff_ne_zero.mpr hdet)) g iteration⟩

theorem exists_descentDirection_iff {B : Grid ℝ n n} {g : Vector ℝ n} {iteration : Nat} :
    (∃ d, descentDirection (.ofGrid B) g iteration = .ok d) ↔ B.toMatrix.det ≠ 0 := by
  constructor
  · rintro ⟨d, hdirection⟩
    exact (descentDirection_eq_ok_iff.mp hdirection).1
  · intro hdet
    exact exists_descentDirection hdet g iteration

theorem descentDirection_eq_error_iff {B : Grid ℝ n n} {g : Vector ℝ n} {iteration : Nat}
    {failure : Failure ℝ} :
    descentDirection (.ofGrid B) g iteration = .error failure ↔
      failure = .singularMatrix iteration ∧ B.toMatrix.det = 0 := by
  by_cases hdet : B.toMatrix.det = 0
  · rw [descentDirection_of_det_eq_zero hdet, Except.error.injEq, eq_comm]
    exact (and_iff_left hdet).symm
  · obtain ⟨d, hdirection⟩ := exists_descentDirection hdet g iteration
    simp [hdirection, hdet]

/-- The direction found is the only one. -/
theorem mulVec_eq_neg_iff_of_descentDirection {B : Grid ℝ n n} {g d : Vector ℝ n}
    {iteration : Nat} (h : descentDirection (.ofGrid B) g iteration = .ok d) (x : Fin n → ℝ) :
    B.toMatrix *ᵥ x = -coords g ↔ x = coords d := by
  obtain ⟨hdet, hsolves⟩ := descentDirection_eq_ok_iff.mp h
  have hunit : IsUnit B.toMatrix := by
    rw [isUnit_iff_isUnit_det]
    exact isUnit_iff_ne_zero.mpr hdet
  rw [← hsolves]
  exact (mulVec_injective_of_isUnit hunit).eq_iff

/-- A matrix that is not square of the size of the gradient is refused for its
shape.  Otherwise the direction is the one solution of its equations where the
matrix can be inverted, and where it cannot, the failure names the iteration. -/
theorem descentDirection_outcomes (M : DenseMatrix ℝ) (g : Vector ℝ n) (iteration : Nat) :
    (∀ argument expected actual,
      descentDirection M g iteration = .error (.dimensionMismatch argument expected actual) ↔
        ¬ (M.rows = n ∧ M.cols = n) ∧
          argument = "hessian" ∧ expected = .shape n n ∧ actual = .shape M.rows M.cols) ∧
    ((∃ d, descentDirection M g iteration = .ok d) ↔
      ∃ B : Grid ℝ n n, M = .ofGrid B ∧ B.toMatrix.det ≠ 0) ∧
    (∀ d, descentDirection M g iteration = .ok d →
      ∃ B : Grid ℝ n n, M = .ofGrid B ∧ ∀ x, B.toMatrix *ᵥ x = -coords g ↔ x = coords d) ∧
    ∀ k, descentDirection M g iteration = .error (.singularMatrix k) ↔
      k = iteration ∧ ∃ B : Grid ℝ n n, M = .ofGrid B ∧ B.toMatrix.det = 0 := by
  by_cases hshape : M.rows = n ∧ M.cols = n
  · obtain ⟨B, rfl⟩ := DenseMatrix.exists_eq_ofGrid hshape.1 hshape.2
    simp only [DenseMatrix.ofGrid_inj, exists_eq_left', descentDirection_eq_error_iff,
      exists_descentDirection_iff]
    refine ⟨?_, trivial, ?_, ?_⟩
    · intro argument expected actual
      simp [hshape]
    · intro d hdirection
      exact mulVec_eq_neg_iff_of_descentDirection hdirection
    · intro k
      simp
  · -- no grid has the shape, and all four statements are about a refusal
    have hrefused := descentDirection_of_misfit hshape g iteration
    have hnone (P : Grid ℝ n n → Prop) : ¬ ∃ B : Grid ℝ n n, M = .ofGrid B ∧ P B := by
      rintro ⟨B, rfl, -⟩
      exact hshape ⟨rfl, rfl⟩
    simp only [hrefused, hnone, Failure.notSquare, Except.error.injEq,
      Failure.dimensionMismatch.injEq]
    refine ⟨?_, ?_, ?_, ?_⟩
    · intro argument expected actual
      rw [and_iff_right hshape, eq_comm (a := argument), eq_comm (a := expected),
        eq_comm (a := actual)]
    · simp
    · simp
    · simp

end SecantDescent
