import SecantDescent.Scalar

/-!
# The order of scalars

Values that are not numbers are below and above nothing.  The order of the
others is a linear one up to values that compare equal, such as the two zeros,
and a magnitude is never below zero.  With these laws the largest magnitude in
a list is the one its name promises among the entries that are numbers; the
others it does not see.  Once at most means not above, a bound on the largest
magnitude is a bound on all entries that are numbers.
-/

namespace SecantDescent

class OrderedScalar (α : Type) [Scalar α] : Prop where
  zero_number : Scalar.isNaN (0 : α) = false
  isNaN_abs (a : α) : Scalar.isNaN (Scalar.abs a) = Scalar.isNaN a
  numbers_of_lt {a b : α} : a < b → Scalar.isNaN a = false ∧ Scalar.isNaN b = false
  lt_irrefl (a : α) : ¬ a < a
  lt_trans {a b c : α} : a < b → b < c → a < c
  /-- A number lies above one of two values that are apart, or below the other. -/
  lt_or_lt {a b c : α} : a < c → Scalar.isNaN b = false → a < b ∨ b < c
  not_abs_lt_zero (a : α) : ¬ Scalar.abs a < 0

namespace Scalar

open OrderedScalar

variable {α : Type} [Scalar α]

theorem larger_eq_or (a b : α) : larger a b = a ∨ larger a b = b := by
  unfold larger
  split
  · exact .inr rfl
  · split
    · exact .inr rfl
    · exact .inl rfl

theorem foldl_larger_eq_or (xs : List α) (best : α) :
    xs.foldl (fun best x => larger best (abs x)) best = best ∨
      ∃ x ∈ xs, xs.foldl (fun best x => larger best (abs x)) best = abs x := by
  induction xs generalizing best with
  | nil => exact .inl rfl
  | cons x xs ih =>
      rw [List.foldl_cons]
      rcases ih (larger best (abs x)) with hhead | ⟨z, hz, htail⟩
      · rw [hhead]
        rcases larger_eq_or best (abs x) with hbest | hx
        · exact .inl hbest
        · exact .inr ⟨x, List.mem_cons_self, hx⟩
      · exact .inr ⟨z, List.mem_cons_of_mem x hz, htail⟩

/-- The largest magnitude is the magnitude of an entry, unless it is zero. -/
theorem largestMagnitude_eq_or (xs : List α) :
    largestMagnitude xs = 0 ∨ ∃ x ∈ xs, largestMagnitude xs = abs x :=
  foldl_larger_eq_or xs 0

variable [OrderedScalar α]

theorem larger_number {a b : α} (ha : isNaN a = false) : isNaN (larger a b) = false := by
  rw [larger, if_neg (by simp [ha])]
  split
  next hless => exact (numbers_of_lt hless).2
  next => exact ha

theorem larger_lt_iff {a b c : α} (ha : isNaN a = false) :
    larger a b < c ↔ a < c ∧ (isNaN b = false → b < c) := by
  rw [larger, if_neg (by simp [ha])]
  by_cases hless : a < b
  · rw [if_pos hless]
    constructor
    · intro hb
      exact ⟨lt_trans hless hb, fun _ => hb⟩
    · rintro ⟨-, hb⟩
      exact hb (numbers_of_lt hless).2
  · rw [if_neg hless]
    constructor
    · intro hc
      exact ⟨hc, fun hb => (lt_or_lt hc hb).resolve_left hless⟩
    · exact And.left

theorem foldl_larger_lt_iff {xs : List α} {best bound : α} (hbest : isNaN best = false) :
    xs.foldl (fun best x => larger best (abs x)) best < bound ↔
      best < bound ∧ ∀ x ∈ xs, isNaN x = false → abs x < bound := by
  induction xs generalizing best with
  | nil => simp
  | cons x xs ih =>
      rw [List.foldl_cons, ih (larger_number hbest), larger_lt_iff hbest, isNaN_abs,
        List.forall_mem_cons, and_assoc]

theorem foldl_larger_number {xs : List α} {best : α} (hbest : isNaN best = false) :
    isNaN (xs.foldl (fun best x => larger best (abs x)) best) = false := by
  induction xs generalizing best with
  | nil => exact hbest
  | cons x xs ih => exact ih (larger_number hbest)

theorem largestMagnitude_number (xs : List α) : isNaN (largestMagnitude xs) = false :=
  foldl_larger_number zero_number

theorem largestMagnitude_lt_iff {xs : List α} {bound : α} :
    largestMagnitude xs < bound ↔ 0 < bound ∧ ∀ x ∈ xs, isNaN x = false → abs x < bound :=
  foldl_larger_lt_iff zero_number

theorem not_largestMagnitude_lt {xs : List α} {x : α} (hx : x ∈ xs) :
    ¬ largestMagnitude xs < abs x := by
  intro hless
  have hnumber : isNaN x = false := isNaN_abs x ▸ (numbers_of_lt hless).2
  exact lt_irrefl _ ((largestMagnitude_lt_iff.mp hless).2 x hx hnumber)

/-- What is above a magnitude is above zero. -/
theorem zero_lt_of_abs_lt {a b : α} (h : abs a < b) : 0 < b :=
  (lt_or_lt h zero_number).resolve_left (not_abs_lt_zero a)

end Scalar

/-! ## At most -/

class ComparableScalar (α : Type) [Scalar α] : Prop extends OrderedScalar α where
  /-- One number is at most another one when it is not above it. -/
  le_iff {a b : α} : a ≤ b ↔ (Scalar.isNaN a = false ∧ Scalar.isNaN b = false) ∧ ¬ b < a

theorem ComparableScalar.le_trans {α : Type} [Scalar α] [ComparableScalar α] {a b c : α}
    (hab : a ≤ b) (hbc : b ≤ c) : a ≤ c := by
  obtain ⟨⟨ha, hb⟩, hba⟩ := le_iff.mp hab
  obtain ⟨⟨-, hc⟩, hcb⟩ := le_iff.mp hbc
  refine le_iff.mpr ⟨⟨ha, hc⟩, fun hca => ?_⟩
  rcases OrderedScalar.lt_or_lt hca hb with hless | hless
  · exact hcb hless
  · exact hba hless

namespace Scalar

open OrderedScalar ComparableScalar

variable {α : Type} [Scalar α] [ComparableScalar α]

theorem number_of_abs_le {a b : α} (h : abs a ≤ b) : isNaN a = false :=
  isNaN_abs a ▸ (le_iff.mp h).1.1

theorem zero_le_largestMagnitude (xs : List α) : 0 ≤ largestMagnitude xs := by
  refine le_iff.mpr ⟨⟨zero_number, largestMagnitude_number xs⟩, fun hnegative => ?_⟩
  exact lt_irrefl 0 (largestMagnitude_lt_iff.mp hnegative).1

theorem abs_le_largestMagnitude {xs : List α} {x : α} (hx : x ∈ xs)
    (hnumber : isNaN x = false) :
    abs x ≤ largestMagnitude xs := by
  have habs : isNaN (abs x) = false := (isNaN_abs x).trans hnumber
  exact le_iff.mpr ⟨⟨habs, largestMagnitude_number xs⟩, not_largestMagnitude_lt hx⟩

theorem largestMagnitude_le_iff {xs : List α} {bound : α} :
    largestMagnitude xs ≤ bound ↔ 0 ≤ bound ∧ ∀ x ∈ xs, isNaN x = false → abs x ≤ bound := by
  constructor
  · intro hbound
    refine ⟨le_trans (zero_le_largestMagnitude xs) hbound, fun x hx hnumber => ?_⟩
    exact le_trans (abs_le_largestMagnitude hx hnumber) hbound
  · rintro ⟨hzero, hentries⟩
    rcases largestMagnitude_eq_or xs with hlargest | ⟨x, hx, hlargest⟩
    · rwa [hlargest]
    · have hnumber : isNaN (abs x) = false := hlargest ▸ largestMagnitude_number xs
      rw [hlargest]
      exact hentries x hx ((isNaN_abs x).symm.trans hnumber)

end Scalar

end SecantDescent
