import SecantDescent.Proofs.Float.Packing
import SecantDescent.Proofs.Scalar.Order

/-!
# The order of floating-point numbers

Floating-point numbers are compared by their sign, then by their exponent, then
by their mantissa, and an infinity lies beyond all finite numbers of its sign.
So comparing numbers is comparing triples of integers, one after the other, and
the laws of the order are those of a linear order.
-/

namespace SecantDescent

namespace Parts

open Float.Model (Format UnpackedFloat)
open Float.Model.UnpackedFloat

/-- The place of a number: on which side of zero it lies, then how far. -/
def rank : UnpackedFloat → ℤ ×ₗ ℤ ×ₗ ℤ
  | .infinity .negative => toLex (-2, toLex (0, 0))
  | .finite .negative mantissa exponent _ => toLex (-1, toLex (-exponent, -mantissa))
  | .zero _ => toLex (0, toLex (0, 0))
  | .finite .positive mantissa exponent _ => toLex (1, toLex (exponent, mantissa))
  | .infinity .positive => toLex (2, toLex (0, 0))
  | .notANumber => toLex (0, toLex (0, 0))

theorem lt_iff_rank_lt {a b : UnpackedFloat} : a.lt b = true ↔
    (a.isNaN = false ∧ b.isNaN = false) ∧ rank a < rank b := by
  rcases a with (_ | _) | _ | _ | ⟨_ | _, mantissa, exponent, hpos⟩ <;>
    rcases b with (_ | _) | _ | _ | ⟨_ | _, mantissa', exponent', hpos'⟩ <;>
    dsimp only [UnpackedFloat.lt, UnpackedFloat.compare, isNaN, rank]
  -- Two finite numbers of one sign are the only ones whose sizes matter.
  case finite.negative.finite.negative =>
    simp [Prod.Lex.toLex_lt_toLex, Ordering.then_eq_gt, Int.compare_eq_gt, Nat.compare_eq_gt,
      eq_comm (a := exponent)]
  case finite.positive.finite.positive =>
    simp [Prod.Lex.toLex_lt_toLex, Ordering.then_eq_lt, Int.compare_eq_lt, Nat.compare_eq_lt]
  all_goals simp [Prod.Lex.toLex_lt_toLex, compare]

theorem le_iff_rank_le {a b : UnpackedFloat} : a.le b = true ↔
    (a.isNaN = false ∧ b.isNaN = false) ∧ rank a ≤ rank b := by
  rcases a with (_ | _) | _ | _ | ⟨_ | _, mantissa, exponent, hpos⟩ <;>
    rcases b with (_ | _) | _ | _ | ⟨_ | _, mantissa', exponent', hpos'⟩ <;>
    dsimp only [UnpackedFloat.le, UnpackedFloat.compare, isNaN, rank]
  case finite.negative.finite.negative =>
    rw [Ordering.swap_then, Int.compare_swap, Nat.compare_swap]
    simp [Prod.Lex.toLex_le_toLex, Ordering.isLE_then_iff_or, Int.compare_eq_lt,
      Nat.isLE_compare, eq_comm (a := exponent)]
  case finite.positive.finite.positive =>
    simp [Prod.Lex.toLex_le_toLex, Ordering.isLE_then_iff_or, Int.compare_eq_lt,
      Nat.isLE_compare]
  all_goals simp [Prod.Lex.toLex_le_toLex, compare]

theorem rank_abs_nonneg (a : UnpackedFloat) : rank (.zero .positive) ≤ rank a.abs := by
  rcases a with _ | _ | _ | ⟨_, mantissa, exponent, hpos⟩ <;>
    dsimp only [UnpackedFloat.abs, rank] <;>
    simp [Prod.Lex.toLex_le_toLex]

theorem isNaN_abs (a : UnpackedFloat) : a.abs.isNaN = a.isNaN := by
  cases a <;> rfl

/-- The magnitude of what bits stand for has bits of its own. -/
theorem unpack_pack_abs {format : Format} (hbits : 1 < format.exponentBits)
    (b : BitVec format.numBits) :
    unpack format (pack format (unpack format b).abs) = (unpack format b).abs := by
  cases hb : unpack format b with
  | notANumber => exact unpack_packedNaN
  | infinity sign => exact unpack_packedInfinity .positive
  | zero sign => exact unpack_packedZero
  | finite sign mantissa exponent hpos =>
      obtain ⟨hcanonical, hrange⟩ := canonical_unpack hbits hb
      exact unpack_pack_finite hcanonical hrange

end Parts

open Float.Model (Format UnpackedFloat)
open Parts

/-- Numbers that are compared by their parts are ordered. -/
theorem OrderedScalar.of_parts {α : Type} [Scalar α] (parts : α → UnpackedFloat)
    (hless : ∀ a b, a < b ↔ (parts a).lt (parts b) = true)
    (hnumber : ∀ a, Scalar.isNaN a = (parts a).isNaN)
    (hzero : parts 0 = .zero .positive)
    (habs : ∀ a, parts (Scalar.abs a) = (parts a).abs) : OrderedScalar α where
  zero_number := by
    rw [hnumber, hzero]
    rfl
  isNaN_abs a := by
    rw [hnumber, hnumber, habs, Parts.isNaN_abs]
  numbers_of_lt h := by
    rw [hnumber, hnumber]
    exact (lt_iff_rank_lt.mp ((hless _ _).mp h)).1
  lt_irrefl a := by
    intro h
    exact (lt_iff_rank_lt.mp ((hless _ _).mp h)).2.ne rfl
  lt_trans hab hbc := by
    obtain ⟨⟨ha, -⟩, hrank⟩ := lt_iff_rank_lt.mp ((hless _ _).mp hab)
    obtain ⟨⟨-, hc⟩, hrank'⟩ := lt_iff_rank_lt.mp ((hless _ _).mp hbc)
    exact (hless _ _).mpr (lt_iff_rank_lt.mpr ⟨⟨ha, hc⟩, hrank.trans hrank'⟩)
  lt_or_lt hac hb := by
    obtain ⟨⟨ha, hc⟩, hrank⟩ := lt_iff_rank_lt.mp ((hless _ _).mp hac)
    rw [hnumber] at hb
    rcases LT.lt.gt_or_lt hrank _ with hleft | hright
    · exact .inl ((hless _ _).mpr (lt_iff_rank_lt.mpr ⟨⟨ha, hb⟩, hleft⟩))
    · exact .inr ((hless _ _).mpr (lt_iff_rank_lt.mpr ⟨⟨hb, hc⟩, hright⟩))
  not_abs_lt_zero a := by
    intro h
    have hbelow := (lt_iff_rank_lt.mp ((hless _ _).mp h)).2
    rw [habs, hzero] at hbelow
    exact absurd (rank_abs_nonneg (parts a)) (not_le.mpr hbelow)

/-- Numbers that are compared by their parts are comparable. -/
theorem ComparableScalar.of_parts {α : Type} [Scalar α] [OrderedScalar α]
    (parts : α → UnpackedFloat)
    (hless : ∀ a b, a < b ↔ (parts a).lt (parts b) = true)
    (hatMost : ∀ a b, a ≤ b ↔ (parts a).le (parts b) = true)
    (hnumber : ∀ a, Scalar.isNaN a = (parts a).isNaN) : ComparableScalar α where
  le_iff {a b} := by
    rw [hatMost, hless, hnumber, hnumber, le_iff_rank_le, lt_iff_rank_lt]
    constructor
    · rintro ⟨hnumbers, hrank⟩
      exact ⟨hnumbers, fun h => h.2.not_ge hrank⟩
    · rintro ⟨hnumbers, h⟩
      exact ⟨hnumbers, not_lt.mp fun hrank => h ⟨hnumbers.symm, hrank⟩⟩

instance float_ordered : OrderedScalar Float :=
  .of_parts (fun a => a.toModel.unpack) (fun _ _ => decide_eq_true_iff) (fun _ => rfl)
    rfl fun _ => unpack_pack_abs (by decide) _

instance float32_ordered : OrderedScalar Float32 :=
  .of_parts (fun a => a.toModel.unpack) (fun _ _ => decide_eq_true_iff) (fun _ => rfl)
    rfl fun _ => unpack_pack_abs (by decide) _

instance float_comparable : ComparableScalar Float :=
  .of_parts (fun a => a.toModel.unpack) (fun _ _ => decide_eq_true_iff)
    (fun _ _ => decide_eq_true_iff) fun _ => rfl

instance float32_comparable : ComparableScalar Float32 :=
  .of_parts (fun a => a.toModel.unpack) (fun _ _ => decide_eq_true_iff)
    (fun _ _ => decide_eq_true_iff) fun _ => rfl

end SecantDescent
