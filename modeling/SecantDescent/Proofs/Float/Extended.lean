import SecantDescent.Proofs.Float.Order
import SecantDescent.Proofs.Scalar.Extended

/-!
# Floating-point arithmetic with infinities

Finite numbers, infinities and what is not a number are three levels.  A sum or a
product is never on a lower level than one of its operands, and packing a number
can only turn it into an infinity.  The laws of the values that are not finite are
read off from this; only two finite operands are ever rounded, and nothing is said
here about them.
-/

namespace SecantDescent

open Float.Model (Format UnpackedFloat)

namespace Parts

open Float.Model.UnpackedFloat

variable {format : Format}

/-- How far a value is from being a finite number. -/
def level : UnpackedFloat → Nat
  | .zero _ => 0
  | .finite .. => 0
  | .infinity _ => 1
  | .notANumber => 2

theorem isFinite_iff_level (u : UnpackedFloat) : u.isFinite = true ↔ level u = 0 := by
  cases u with
  | zero sign => exact iff_of_true rfl rfl
  | finite sign mantissa exponent hpos => exact iff_of_true rfl rfl
  | infinity sign => exact iff_of_false nofun nofun
  | notANumber => exact iff_of_false nofun nofun

theorem isNaN_eq_false_iff_level (u : UnpackedFloat) : u.isNaN = false ↔ level u < 2 := by
  cases u with
  | zero sign => exact iff_of_true rfl two_pos
  | finite sign mantissa exponent hpos => exact iff_of_true rfl two_pos
  | infinity sign => exact iff_of_true rfl one_lt_two
  | notANumber => exact iff_of_false nofun (lt_irrefl 2)

/-- What a result becomes when it is stored in a format. -/
def stored (format : Format) (u : UnpackedFloat) : UnpackedFloat :=
  unpack format (pack format u)

theorem stored_zero (sign : Sign) : stored format (.zero sign) = .zero sign :=
  unpack_packedZero

theorem stored_infinity (sign : Sign) : stored format (.infinity sign) = .infinity sign :=
  unpack_packedInfinity sign

theorem stored_notANumber : stored format .notANumber = .notANumber :=
  unpack_packedNaN

theorem level_le_stored (format : Format) (u : UnpackedFloat) :
    level u ≤ level (stored format u) := by
  cases u with
  | zero sign => exact Nat.zero_le _
  | finite sign mantissa exponent hpos => exact Nat.zero_le _
  | infinity sign => rw [stored_infinity]
  | notANumber => rw [stored_notANumber]

/-! ## Sums, products and quotients -/

theorem level_le_add_left (format : Format) (u v : UnpackedFloat) :
    level u ≤ level (UnpackedFloat.add format u v) := by
  cases u with
  | zero sign => exact Nat.zero_le _
  | finite sign mantissa exponent hpos => exact Nat.zero_le _
  | infinity sign =>
      cases v with
      | infinity sign' => cases sign <;> cases sign' <;> exact Nat.le_of_ble_eq_true rfl
      | _ => exact Nat.le_of_ble_eq_true rfl
  | notANumber => exact le_rfl

theorem level_le_add_right (format : Format) (u v : UnpackedFloat) :
    level v ≤ level (UnpackedFloat.add format u v) := by
  cases v with
  | zero sign => exact Nat.zero_le _
  | finite sign mantissa exponent hpos => exact Nat.zero_le _
  | infinity sign =>
      cases u with
      | infinity sign' => cases sign' <;> cases sign <;> exact Nat.le_of_ble_eq_true rfl
      | _ => exact Nat.le_of_ble_eq_true rfl
  | notANumber => cases u <;> exact le_rfl

theorem level_le_sub_left (format : Format) (u v : UnpackedFloat) :
    level u ≤ level (UnpackedFloat.sub format u v) := by
  cases u with
  | zero sign => exact Nat.zero_le _
  | finite sign mantissa exponent hpos => exact Nat.zero_le _
  | infinity sign =>
      cases v with
      | infinity sign' => cases sign <;> cases sign' <;> exact Nat.le_of_ble_eq_true rfl
      | _ => exact Nat.le_of_ble_eq_true rfl
  | notANumber => exact le_rfl

theorem level_le_sub_right (format : Format) (u v : UnpackedFloat) :
    level v ≤ level (UnpackedFloat.sub format u v) := by
  cases v with
  | zero sign => exact Nat.zero_le _
  | finite sign mantissa exponent hpos => exact Nat.zero_le _
  | infinity sign =>
      cases u with
      | infinity sign' => cases sign' <;> cases sign <;> exact Nat.le_of_ble_eq_true rfl
      | _ => exact Nat.le_of_ble_eq_true rfl
  | notANumber => cases u <;> exact le_rfl

theorem level_le_mul_left (format : Format) (u v : UnpackedFloat) :
    level u ≤ level (UnpackedFloat.mul format u v) := by
  cases u with
  | zero sign => exact Nat.zero_le _
  | finite sign mantissa exponent hpos => exact Nat.zero_le _
  | infinity sign => cases v <;> exact Nat.le_of_ble_eq_true rfl
  | notANumber => exact le_rfl

theorem level_le_mul_right (format : Format) (u v : UnpackedFloat) :
    level v ≤ level (UnpackedFloat.mul format u v) := by
  cases v with
  | zero sign => exact Nat.zero_le _
  | finite sign mantissa exponent hpos => exact Nat.zero_le _
  | infinity sign => cases u <;> exact Nat.le_of_ble_eq_true rfl
  | notANumber => cases u <;> exact le_rfl

theorem level_le_div_left (format : Format) (u v : UnpackedFloat) :
    level u ≤ level (UnpackedFloat.div format u v) := by
  cases u with
  | zero sign => exact Nat.zero_le _
  | finite sign mantissa exponent hpos => exact Nat.zero_le _
  | infinity sign => cases v <;> exact Nat.le_of_ble_eq_true rfl
  | notANumber => exact le_rfl

theorem div_notANumber (format : Format) (u : UnpackedFloat) :
    UnpackedFloat.div format u .notANumber = .notANumber := by
  cases u <;> rfl

theorem mul_zero_of_not_finite {u : UnpackedFloat} (hu : u.isFinite = false) (sign : Sign) :
    UnpackedFloat.mul format u (.zero sign) = .notANumber := by
  cases u with
  | zero sign => cases hu
  | finite sign mantissa exponent hpos => cases hu
  | infinity sign => rfl
  | notANumber => rfl

theorem div_infinity {u : UnpackedFloat} (hu : u.isFinite = true) (sign : Sign) :
    ∃ sign', UnpackedFloat.div format u (.infinity sign) = .zero sign' := by
  cases u with
  | zero sign => exact ⟨_, rfl⟩
  | finite sign mantissa exponent hpos => exact ⟨_, rfl⟩
  | infinity sign => cases hu
  | notANumber => cases hu

theorem abs_lt_abs_infinity {u : UnpackedFloat} (hu : u.isFinite = true) (sign : Sign) :
    u.abs.lt (UnpackedFloat.infinity sign).abs = true := by
  cases u with
  | zero sign => rfl
  | finite sign mantissa exponent hpos => rfl
  | infinity sign => cases hu
  | notANumber => cases hu

theorem eq_infinity {u : UnpackedFloat} (hfinite : u.isFinite = false)
    (hnumber : u.isNaN = false) :
    ∃ sign, u = .infinity sign := by
  cases u with
  | zero sign => cases hfinite
  | finite sign mantissa exponent hpos => cases hfinite
  | infinity sign => exact ⟨sign, rfl⟩
  | notANumber => cases hnumber

theorem eq_zero_of_beq {u : UnpackedFloat} (h : u.beq (.zero .positive) = true) :
    ∃ sign, u = .zero sign := by
  cases u with
  | zero sign => exact ⟨sign, rfl⟩
  | finite sign mantissa exponent hpos => cases sign <;> cases h
  | infinity sign => cases sign <;> cases h
  | notANumber => cases h

/-! ## Scalars that are read as parts -/

/-- The operations of a type of scalars are those on the parts of its values. -/
structure Reads {α : Type} [Scalar α] (format : Format) (parts : α → UnpackedFloat) :
    Prop where
  isFinite a : Scalar.isFinite a = (parts a).isFinite
  isNaN a : Scalar.isNaN a = (parts a).isNaN
  less a b : a < b ↔ (parts a).lt (parts b) = true
  equalsZero a : (a == 0) = (parts a).beq (.zero .positive)
  one : (parts 1).isFinite = true
  abs a : parts (Scalar.abs a) = (parts a).abs
  add a b : parts (a + b) = stored format (.add format (parts a) (parts b))
  sub a b : parts (a - b) = stored format (.sub format (parts a) (parts b))
  mul a b : parts (a * b) = stored format (.mul format (parts a) (parts b))
  div a b : parts (a / b) = stored format (.div format (parts a) (parts b))

namespace Reads

variable {α : Type} [Scalar α] {parts : α → UnpackedFloat} {a b : α}

theorem finite_iff (reads : Reads format parts) :
    Scalar.isFinite a = true ↔ level (parts a) = 0 := by
  rw [reads.isFinite, isFinite_iff_level]

theorem number_iff (reads : Reads format parts) :
    Scalar.isNaN a = false ↔ level (parts a) < 2 := by
  rw [reads.isNaN, isNaN_eq_false_iff_level]

theorem level_add (reads : Reads format parts) (a b : α) :
    level (parts a) ≤ level (parts (a + b)) ∧ level (parts b) ≤ level (parts (a + b)) := by
  have hstored := level_le_stored format (.add format (parts a) (parts b))
  rw [reads.add]
  exact ⟨(level_le_add_left format _ _).trans hstored,
    (level_le_add_right format _ _).trans hstored⟩

theorem level_sub (reads : Reads format parts) (a b : α) :
    level (parts a) ≤ level (parts (a - b)) ∧ level (parts b) ≤ level (parts (a - b)) := by
  have hstored := level_le_stored format (.sub format (parts a) (parts b))
  rw [reads.sub]
  exact ⟨(level_le_sub_left format _ _).trans hstored,
    (level_le_sub_right format _ _).trans hstored⟩

theorem level_mul (reads : Reads format parts) (a b : α) :
    level (parts a) ≤ level (parts (a * b)) ∧ level (parts b) ≤ level (parts (a * b)) := by
  have hstored := level_le_stored format (.mul format (parts a) (parts b))
  rw [reads.mul]
  exact ⟨(level_le_mul_left format _ _).trans hstored,
    (level_le_mul_right format _ _).trans hstored⟩

theorem level_div (reads : Reads format parts) (a b : α) :
    level (parts a) ≤ level (parts (a / b)) := by
  rw [reads.div]
  exact (level_le_div_left format _ _).trans (level_le_stored format _)

theorem number_of_div (reads : Reads format parts) (h : Scalar.isNaN (a / b) = false) :
    Scalar.isNaN b = false := by
  rw [reads.isNaN, reads.div] at h
  rw [reads.isNaN]
  cases hb : parts b with
  | notANumber =>
      rw [hb, div_notANumber, stored_notANumber] at h
      cases h
  | zero sign => rfl
  | finite sign mantissa exponent hpos => rfl
  | infinity sign => rfl

theorem finite_of_mul_zero (reads : Reads format parts) (hb : (b == 0) = true)
    (h : Scalar.isNaN (a * b) = false) : Scalar.isFinite a = true := by
  rw [reads.equalsZero] at hb
  obtain ⟨sign, hzero⟩ := eq_zero_of_beq hb
  by_contra hinfinite
  rw [Bool.not_eq_true, reads.isFinite] at hinfinite
  rw [reads.isNaN, reads.mul, hzero, mul_zero_of_not_finite hinfinite, stored_notANumber] at h
  cases h

theorem exists_infinity (reads : Reads format parts) (hfinite : Scalar.isFinite b = false)
    (hnumber : Scalar.isNaN b = false) : ∃ sign, parts b = .infinity sign := by
  rw [reads.isFinite] at hfinite
  rw [reads.isNaN] at hnumber
  exact eq_infinity hfinite hnumber

theorem div_infinite (reads : Reads format parts) (ha : Scalar.isFinite a = true)
    (hfinite : Scalar.isFinite b = false) (hnumber : Scalar.isNaN b = false) :
    (a / b == 0) = true := by
  obtain ⟨sign, hb⟩ := reads.exists_infinity hfinite hnumber
  rw [reads.isFinite] at ha
  obtain ⟨sign', hquotient⟩ := div_infinity ha sign
  rw [reads.equalsZero, reads.div, hb, hquotient, stored_zero]
  rfl

theorem abs_lt_infinite (reads : Reads format parts) (ha : Scalar.isFinite a = true)
    (hfinite : Scalar.isFinite b = false) (hnumber : Scalar.isNaN b = false) :
    Scalar.abs a < Scalar.abs b := by
  obtain ⟨sign, hb⟩ := reads.exists_infinity hfinite hnumber
  rw [reads.isFinite] at ha
  rw [reads.less, reads.abs, reads.abs, hb]
  exact abs_lt_abs_infinity ha sign

theorem extendedScalar [OrderedScalar α] (reads : Reads format parts) : ExtendedScalar α where
  one_finite := by
    rw [reads.isFinite, reads.one]
  number_of_finite ha := by
    rw [reads.finite_iff] at ha
    rw [reads.number_iff, ha]
    exact two_pos
  finite_of_add {a b} h := by
    have hlevel := reads.level_add a b
    simp only [reads.finite_iff] at h ⊢
    omega
  finite_of_mul {a b} h := by
    have hlevel := reads.level_mul a b
    simp only [reads.finite_iff] at h ⊢
    omega
  finite_of_div {a b} h := by
    have hlevel := reads.level_div a b
    have hnumber : Scalar.isNaN (a / b) = false := by
      rw [reads.finite_iff] at h
      rw [reads.number_iff, h]
      exact two_pos
    refine ⟨?_, reads.number_of_div hnumber⟩
    rw [reads.finite_iff] at h ⊢
    omega
  numbers_of_add {a b} h := by
    have hlevel := reads.level_add a b
    simp only [reads.number_iff] at h ⊢
    omega
  numbers_of_mul {a b} h := by
    have hlevel := reads.level_mul a b
    simp only [reads.number_iff] at h ⊢
    omega
  finite_of_mul_zero := reads.finite_of_mul_zero
  div_infinite := reads.div_infinite
  abs_lt_infinite := reads.abs_lt_infinite

theorem extendedSub [OrderedScalar α] (reads : Reads format parts) : ExtendedSub α where
  toExtendedScalar := reads.extendedScalar
  finite_of_sub {a b} h := by
    have hlevel := reads.level_sub a b
    simp only [reads.finite_iff] at h ⊢
    omega

end Reads

end Parts

theorem float_reads : Parts.Reads .binary64 fun a : Float => a.toModel.unpack where
  isFinite _ := rfl
  isNaN _ := rfl
  less _ _ := decide_eq_true_iff
  equalsZero _ := rfl
  one := by decide +kernel
  abs _ := Parts.unpack_pack_abs (by decide) _
  add _ _ := rfl
  sub _ _ := rfl
  mul _ _ := rfl
  div _ _ := rfl

theorem float32_reads : Parts.Reads .binary32 fun a : Float32 => a.toModel.unpack where
  isFinite _ := rfl
  isNaN _ := rfl
  less _ _ := decide_eq_true_iff
  equalsZero _ := rfl
  one := by decide +kernel
  abs _ := Parts.unpack_pack_abs (by decide) _
  add _ _ := rfl
  sub _ _ := rfl
  mul _ _ := rfl
  div _ _ := rfl

instance float_extended : ExtendedScalar Float :=
  float_reads.extendedScalar

instance float32_extended : ExtendedScalar Float32 :=
  float32_reads.extendedScalar

instance float_extendedSub : ExtendedSub Float :=
  float_reads.extendedSub

instance float32_extendedSub : ExtendedSub Float32 :=
  float32_reads.extendedSub

end SecantDescent
