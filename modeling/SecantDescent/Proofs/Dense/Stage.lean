import Mathlib.Data.Fin.Tuple.Basic
import SecantDescent.Dense.Elimination

/-!
# One stage of elimination

A stage takes one equation as the pivot, removes the leading unknown from the others,
and leaves a system that is smaller by one.  The order in which the others are left is
of no interest: each of them comes from a place of the system, and no place is left out
but that of the pivot.
-/

namespace SecantDescent.Dense

variable {α β : Type} {n : Nat}

/-! ## The others -/

/-- The place that the equation number `k` of the others comes from. -/
def source (p : Fin (n + 1)) (k : Fin n) : Fin (n + 1) :=
  if p = k.succ then ⟨0, n.succ_pos⟩ else k.succ

theorem get_others (system : Vector β (n + 1)) (p : Fin (n + 1)) (k : Fin n) :
    (others system p).get k = system.get (source p k) := by
  have hentry : (others system p)[k] = if p = k.succ then system[0] else system[k.succ] := by
    simp [others, Vector.getElem_set, Fin.ext_iff, Nat.add_comm 1]
  unfold source
  split
  next hp => exact hentry.trans (if_pos hp)
  next hp => exact hentry.trans (if_neg hp)

theorem exists_source {p i : Fin (n + 1)} (hi : i ≠ p) : ∃ k, source p k = i := by
  cases i using Fin.cases with
  | zero =>
      obtain ⟨k, hk⟩ := Fin.exists_succ_eq.mpr (Ne.symm hi)
      exact ⟨k, if_pos hk.symm⟩
  | succ k => exact ⟨k, if_neg (Ne.symm hi)⟩

/-- Every equation is the pivot or among the others. -/
theorem forall_others_iff (system : Vector β (n + 1)) (p : Fin (n + 1)) (holds : β → Prop) :
    (∀ i, holds (system.get i)) ↔
      holds (system.get p) ∧ ∀ k, holds ((others system p).get k) := by
  simp only [get_others]
  constructor
  · intro h
    exact ⟨h p, fun k => h (source p k)⟩
  · rintro ⟨hpivot, hothers⟩ i
    by_cases hi : i = p
    · exact hi ▸ hpivot
    · obtain ⟨k, rfl⟩ := exists_source hi
      exact hothers k

/-! ## The stage -/

theorem get_zipWith_mk (A : Grid α n n) (b : Vector α n) (i : Fin n) :
    (Vector.zipWith Equation.mk A b).get i = ⟨A.get i, b.get i⟩ :=
  Vector.getElem_zipWith i.isLt

variable [Scalar α]

/-- The system that is left when equation `p` has removed the leading unknown
from the others. -/
def remaining (system : Vector (Equation α (n + 1)) (n + 1)) (p : Fin (n + 1))
    (inverse : α) : Vector (Equation α n) n :=
  (others system p).map ((system.get p).eliminate inverse)

theorem get_remaining (system : Vector (Equation α (n + 1)) (n + 1)) (p : Fin (n + 1))
    (inverse : α) (k : Fin n) :
    (remaining system p inverse).get k =
      (system.get p).eliminate inverse (system.get (source p k)) := by
  rw [← get_others]
  exact Vector.getElem_map _ k.isLt

theorem solveEquations_succ (system : Vector (Equation α (n + 1)) (n + 1)) :
    solveEquations (n + 1) system =
      if ((system.get (pivotIndex system)).coeffs.get 0 == 0) = true then none
      else
        (solveEquations n (remaining system (pivotIndex system)
          (1 / (system.get (pivotIndex system)).coeffs.get 0))).map fun known =>
          known.insertIdx 0 ((system.get (pivotIndex system)).leadingUnknown known)
            n.zero_le := by
  rw [solveEquations]
  rfl

theorem get_insertIdx_zero (known : Vector β n) (lead : β) :
    (known.insertIdx 0 lead n.zero_le).get = Fin.cons lead known.get := by
  funext ⟨i, hi⟩
  change (known.insertIdx 0 lead n.zero_le)[i] = _
  cases i with
  | zero => simp [Vector.insertIdx_zero]
  | succ k =>
      change (known.insertIdx 0 lead n.zero_le)[k + 1] = known[k]
      simp [Vector.insertIdx_zero]

/-! ## The choice of the pivot -/

/-- The row that a scan for the largest size ends with. -/
def scan {ι : Type} (size : ι → α) (rows : List ι) (best : ι) : ι :=
  rows.foldl (fun best r => if size best < size r then r else best) best

section Scan

variable {ι : Type} (size : ι → α)

theorem scan_cons (r : ι) (rows : List ι) (best : ι) :
    scan size (r :: rows) best =
      if size best < size r then scan size rows r else scan size rows best := by
  rw [scan, List.foldl_cons]
  split <;> rfl

theorem scan_eq_or_lt (htrans : ∀ a b c : α, a < b → b < c → a < c) (rows : List ι)
    (best : ι) :
    scan size rows best = best ∨ size best < size (scan size rows best) := by
  induction rows generalizing best with
  | nil => exact .inl rfl
  | cons r rows ih =>
      rw [scan_cons]
      split
      next hless =>
        rcases ih r with hsame | hbeyond
        · exact .inr (hsame.symm ▸ hless)
        · exact .inr (htrans _ _ _ hless hbeyond)
      next => exact ih best

/-- What a scan ends with is below nothing that it has seen, whether or not all sizes can
be compared. -/
theorem not_scan_lt (hirrefl : ∀ a : α, ¬ a < a) (htrans : ∀ a b c : α, a < b → b < c → a < c)
    (rows : List ι) (best : ι) :
    ¬ size (scan size rows best) < size best ∧
      ∀ r ∈ rows, ¬ size (scan size rows best) < size r := by
  induction rows generalizing best with
  | nil => exact ⟨hirrefl _, nofun⟩
  | cons r rows ih =>
      rw [scan_cons, List.forall_mem_cons]
      split
      next hless =>
        obtain ⟨hr, hrows⟩ := ih r
        exact ⟨fun hbest => hr (htrans _ _ _ hbest hless), hr, hrows⟩
      next hless =>
        obtain ⟨hbest, hrows⟩ := ih best
        refine ⟨hbest, fun hr => ?_, hrows⟩
        rcases scan_eq_or_lt size htrans rows best with hsame | hbeyond
        · exact hless (hsame ▸ hr)
        · exact hless (htrans _ _ _ hbeyond hr)

end Scan

theorem not_pivot_lt (hirrefl : ∀ a : α, ¬ a < a)
    (htrans : ∀ a b c : α, a < b → b < c → a < c)
    (system : Vector (Equation α (n + 1)) (n + 1)) (r : Fin (n + 1)) :
    ¬ Scalar.abs ((system.get (pivotIndex system)).coeffs.get 0) <
      Scalar.abs ((system.get r).coeffs.get 0) :=
  (not_scan_lt (fun r => Scalar.abs ((system.get r).coeffs.get 0)) hirrefl htrans
    (List.finRange (n + 1)) 0).2 r (List.mem_finRange r)

end SecantDescent.Dense
