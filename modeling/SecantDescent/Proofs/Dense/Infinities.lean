import Mathlib.LinearAlgebra.Matrix.Notation
import SecantDescent.Direction
import SecantDescent.Proofs.Dense.Stage
import SecantDescent.Proofs.Float.Extended

/-!
# Elimination with infinities

Nothing looks at a matrix of two rows or more before it is eliminated, only at the
solution in the end.  What is not a number always shows there: it spreads to every
equation and column it meets.  So does an infinity, unless it becomes a pivot.  Its
reciprocal is zero then, the other equations lose nothing, and the unknown it belongs
to is a finite number over an infinity.
-/

namespace SecantDescent

open Scalar ExtendedScalar

variable {α : Type} [Scalar α] {m n : Nat}

/-- An entry that is a number, with finite entries beside it in its row and its column. -/
structure Lone (entry : Fin m → Fin n → α) (i : Fin m) (j : Fin n) : Prop where
  number : isNaN (entry i j) = false
  row : ∀ l, l ≠ j → isFinite (entry i l) = true
  column : ∀ k, k ≠ i → isFinite (entry k j) = true

/-- Every entry that is not finite is a lone one, and the unknown of its column is zero. -/
def Harmless (entry : Fin m → Fin n → α) (x : Fin n → α) : Prop :=
  ∀ i j, isFinite (entry i j) = false → Lone entry i j ∧ (x j == 0) = true

theorem Harmless.number [ExtendedScalar α] {entry : Fin m → Fin n → α} {x : Fin n → α}
    (h : Harmless entry x) (i : Fin m) (j : Fin n) : isNaN (entry i j) = false := by
  by_cases hfinite : isFinite (entry i j) = true
  · exact number_of_finite hfinite
  · exact (h i j (Bool.eq_false_of_not_eq_true hfinite)).1.number

namespace Dense

/-- The matrix of a system. -/
def coefficient (system : Vector (Equation α n) m) (i : Fin m) (j : Fin n) : α :=
  (system.get i).coeffs.get j

theorem coefficient_remaining (system : Vector (Equation α (n + 1)) (n + 1)) (p : Fin (n + 1))
    (inverse : α) (i j : Fin n) :
    coefficient (remaining system p inverse) i j =
      -coefficient system p j.succ * (coefficient system (source p i) 0 * inverse) +
        coefficient system (source p i) j.succ := by
  rw [coefficient, get_remaining]
  exact Vector.getElem_ofFn j.isLt

variable [ExtendedScalar α]

/-! ## One stage -/

section Stage

variable {system : Vector (Equation α (n + 1)) (n + 1)} {p : Fin (n + 1)} {inverse : α}

theorem finite_of_remaining {i j : Fin n}
    (h : isFinite (coefficient (remaining system p inverse) i j) = true) :
    isFinite (coefficient system (source p i) j.succ) = true := by
  rw [coefficient_remaining] at h
  exact (finite_of_add h).2

theorem numbers_of_remaining {i j : Fin n}
    (h : isNaN (coefficient (remaining system p inverse) i j) = false) :
    isNaN (coefficient system (source p i) 0 * inverse) = false ∧
      isNaN (coefficient system (source p i) j.succ) = false := by
  rw [coefficient_remaining] at h
  obtain ⟨hproduct, hcoeff⟩ := numbers_of_add h
  exact ⟨(numbers_of_mul hproduct).2, hcoeff⟩

theorem finite_of_terms {u v : Fin n → α} {ks : List (Fin n)} {rest : α}
    (h : isFinite (ks.foldr (fun k rest => -u k * v k + rest) rest) = true) :
    ∀ k ∈ ks, isFinite (v k) = true := by
  induction ks with
  | nil => exact nofun
  | cons k ks ih =>
      obtain ⟨hterm, hterms⟩ := finite_of_add h
      exact List.forall_mem_cons.mpr ⟨(finite_of_mul hterm).2, ih hterms⟩

/-- A leading unknown that is finite comes from an equation that is finite but for its
leading coefficient; where that is infinite, the unknown is zero. -/
theorem coefficients_of_leadingUnknown {known : Vector α n}
    (h : isFinite ((system.get p).leadingUnknown known) = true) :
    isNaN (coefficient system p 0) = false ∧
      (∀ j : Fin n, isFinite (coefficient system p j.succ) = true) ∧
      (isFinite (coefficient system p 0) = false →
        ((system.get p).leadingUnknown known == 0) = true) := by
  obtain ⟨hterms, hnumber⟩ := finite_of_div h
  refine ⟨hnumber, fun j => ?_, fun hinfinite => div_infinite hterms hinfinite hnumber⟩
  exact finite_of_terms hterms j (List.mem_finRange j)

/-- An infinite leading coefficient can only be that of the pivot: it exceeds a finite
pivot, and it does not get past the reciprocal of an infinite one, which is zero. -/
theorem finite_of_factor {r : Fin (n + 1)}
    (hpivot : isNaN (coefficient system (pivotIndex system) 0) = false)
    (hfactor :
      isNaN (coefficient system r 0 * (1 / coefficient system (pivotIndex system) 0)) =
      false) :
    isFinite (coefficient system r 0) = true := by
  by_cases hfinite : isFinite (coefficient system (pivotIndex system) 0) = true
  · by_contra hinfinite
    replace hinfinite := Bool.eq_false_of_not_eq_true hinfinite
    exact not_pivot_lt OrderedScalar.lt_irrefl (fun _ _ _ => OrderedScalar.lt_trans) system r
      (abs_lt_infinite hfinite hinfinite (numbers_of_mul hfactor).1)
  · have hreciprocal := div_infinite one_finite (Bool.eq_false_of_not_eq_true hfinite) hpivot
    exact finite_of_mul_zero hreciprocal hfactor

/-- A stage adds a row and a column.  The new column has at most the pivot in it that is
not finite, and the new row at most its leading coefficient. -/
theorem harmless_cons {known : Vector α n} {lead : α}
    (hlead : (system.get (pivotIndex system)).leadingUnknown known = lead)
    (hfinite : isFinite lead = true)
    (hknown : Harmless (coefficient (remaining system (pivotIndex system)
      (1 / coefficient system (pivotIndex system) 0))) known.get) :
    Harmless (coefficient system) (Fin.cons lead known.get) := by
  subst hlead
  obtain ⟨hnumber, hpivot, hzero⟩ := coefficients_of_leadingUnknown hfinite
  have hfirst (i : Fin n) :
      isFinite (coefficient system (source (pivotIndex system) i) 0) = true :=
    finite_of_factor hnumber (numbers_of_remaining (hknown.number i i)).1
  intro r j hinfinite
  by_cases hr : r = pivotIndex system
  · -- only the leading coefficient of the pivot can be infinite, and it is alone
    subst hr
    cases j using Fin.cases with
    | zero =>
        refine ⟨⟨hnumber, fun l hl => ?_, fun k hk => ?_⟩, hzero hinfinite⟩
        · obtain ⟨l, rfl⟩ := Fin.exists_succ_eq.mpr hl
          exact hpivot l
        · obtain ⟨i, rfl⟩ := exists_source hk
          exact hfirst i
    | succ j => exact absurd (hpivot j) (ne_true_of_eq_false hinfinite)
  · -- any other infinity is still there in what remains, and alone there
    obtain ⟨i, rfl⟩ := exists_source hr
    cases j using Fin.cases with
    | zero => exact absurd (hfirst i) (ne_true_of_eq_false hinfinite)
    | succ j =>
        obtain ⟨hlone, hunknown⟩ := hknown i j
          (Bool.eq_false_of_not_eq_true fun hleft =>
            ne_true_of_eq_false hinfinite (finite_of_remaining hleft))
        refine ⟨⟨(numbers_of_remaining hlone.number).2, fun l hl => ?_, fun k hk => ?_⟩,
          hunknown⟩
        · cases l using Fin.cases with
          | zero => exact hfirst i
          | succ l =>
              exact finite_of_remaining (hlone.row l fun heq => hl (congrArg Fin.succ heq))
        · by_cases hkp : k = pivotIndex system
          · exact hkp ▸ hpivot j
          · obtain ⟨i', rfl⟩ := exists_source hkp
            exact finite_of_remaining (hlone.column i' fun heq => hk (congrArg (source _) heq))

end Stage

/-! ## All stages -/

theorem harmless_of_solveEquations {system : Vector (Equation α n) n} {x : Vector α n}
    (h : solveEquations n system = some x) (hfinite : ∀ j, isFinite (x.get j) = true) :
    Harmless (coefficient system) x.get := by
  induction n with
  | zero => exact fun i => i.elim0
  | succ n ih =>
      rw [solveEquations_succ] at h
      split at h
      next => cases h
      next =>
        obtain ⟨known, hknown, rfl⟩ := Option.map_eq_some_iff.mp h
        rw [get_insertIdx_zero] at hfinite ⊢
        exact harmless_cons rfl (hfinite 0) (ih hknown fun j => hfinite j.succ)

theorem harmless_of_solve {A : Grid α n n} {b x : Vector α n} (h : solve A b = some x)
    (hfinite : ∀ j, isFinite (x.get j) = true) : Harmless A.entry x.get := by
  have hentry : coefficient (Vector.zipWith Equation.mk A b) = A.entry := by
    funext i j
    rw [coefficient, get_zipWith_mk]
    rfl
  rw [← hentry]
  exact harmless_of_solveEquations h hfinite

end Dense

/-! ## Descent directions -/

section Directions

variable {B : Grid α n n} {g d : Vector α n} {iteration : Nat}

/-- A square matrix has a direction, which is the solution of its equations and finite,
or it is singular. -/
theorem descentDirection_eq_or (B : Grid α n n) (g : Vector α n) (iteration : Nat) :
    descentDirection (.ofGrid B) g iteration = .error (.singularMatrix iteration) ∨
      ∃ d, descentDirection (.ofGrid B) g iteration = .ok d ∧ solveForDirection B g = some d ∧
        ∀ j, isFinite (d.get j) = true := by
  rw [descentDirection, DenseMatrix.toGrid?_ofGrid]
  cases hd : solveForDirection B g with
  | none => exact .inl (by simp only [hd])
  | some d =>
      by_cases hfinite : allFinite d.toList = true
      · refine .inr ⟨d, by simp only [hd, hfinite, if_true], rfl, fun j => ?_⟩
        exact List.all_eq_true.mp hfinite
          _ (Vector.mem_toList_iff.mpr (Vector.getElem_mem j.isLt))
      · exact .inl (by simp only [hd, hfinite, Bool.false_eq_true, if_false])

/-- A single coefficient is looked at before it is divided by. -/
theorem finite_or_solve (h : solveForDirection B g = some d) :
    (∀ i j, isFinite (B.entry i j) = true) ∨ n ≠ 1 ∧ Dense.solve B (-g) = some d := by
  unfold solveForDirection at h
  split at h
  next B g =>
    split at h
    next => cases h
    next haccepted =>
      have hfinite : isFinite B[0][0] = true := by
        rw [Bool.or_eq_true, not_or, Bool.not_eq_true', Bool.not_eq_false] at haccepted
        exact haccepted.2
      exact .inl (Fin.forall_fin_one.mpr (Fin.forall_fin_one.mpr hfinite))
  next hn =>
    refine .inr ⟨?_, h⟩
    rintro rfl
    exact hn B g rfl HEq.rfl HEq.rfl

end Directions

/-- An entry that is not finite makes the matrix singular, unless it is an infinity that is
alone in its row and its column, among two unknowns or more.  If there is a direction then,
it is zero in the place of that column. -/
theorem descentDirection_of_not_finite [ExtendedScalar α] {B : Grid α n n} {i j : Fin n}
    (hentry : isFinite (B.entry i j) = false) (g : Vector α n) (iteration : Nat) :
    descentDirection (.ofGrid B) g iteration = .error (.singularMatrix iteration) ∨
      n ≠ 1 ∧ Lone B.entry i j ∧
        ∃ d, descentDirection (.ofGrid B) g iteration = .ok d ∧ (d.get j == 0) = true := by
  rcases descentDirection_eq_or B g iteration with hsingular | ⟨d, hdirection, hd, hfinite⟩
  · exact .inl hsingular
  · rcases finite_or_solve hd with hentries | ⟨hn, hsolve⟩
    · exact absurd (hentries i j) (ne_true_of_eq_false hentry)
    · obtain ⟨hlone, hzero⟩ := Dense.harmless_of_solve hsolve hfinite i j hentry
      exact .inr ⟨hn, hlone, d, hdirection, hzero⟩

/-- A matrix that is infinitely steep along the first axis. -/
def rigid : Grid Float 2 2 :=
  .ofFn fun i j => !![1 / 0, 0; 0, 1] i j

theorem not_isFinite_rigid : isFinite (rigid.entry 0 0) = false := by
  decide +kernel

theorem rigid_ne_singular :
    descentDirection (.ofGrid rigid) (.replicate 2 1) 3 ≠ .error (.singularMatrix 3) := by
  intro hsingular
  have hdirection : (descentDirection (.ofGrid rigid) (.replicate 2 1) 3).isOk = true := by
    decide +kernel
  rw [hsingular] at hdirection
  cases hdirection

theorem rigid_direction_vanishes :
    Lone rigid.entry 0 0 ∧
      ∃ d, descentDirection (.ofGrid rigid) (.replicate 2 1) 3 = .ok d ∧
        (d.get 0 == 0) = true := by
  obtain ⟨-, hlone, hzero⟩ :=
    (descentDirection_of_not_finite not_isFinite_rigid (.replicate 2 1) 3).resolve_left
      rigid_ne_singular
  exact ⟨hlone, hzero⟩

/-- An infinite entry and a finite gradient do not make the matrix singular. -/
theorem rigid_is_not_singular :
    isFinite (rigid.entry 0 0) = false ∧
      allFinite (Vector.replicate 2 (1 : Float)).toList = true ∧
      descentDirection (.ofGrid rigid) (.replicate 2 1) 3 ≠ .error (.singularMatrix 3) :=
  ⟨not_isFinite_rigid, by decide +kernel, rigid_ne_singular⟩

end SecantDescent
