import SecantDescent.Proofs.Float.Reading

/-!
# Writing numbers in decimal

The digits written for a number read back as the number, because the exact expansion of
a number does.  A number of a narrow format is written with the digits of the same
number in binary64.  These digits are close enough to it, by half a unit of binary64,
that they read back as the number in the narrow format as well.
-/

namespace SecantDescent

open Float.Model (Format UnpackedFloat)
open Float.Model.UnpackedFloat

namespace Parts

/-! ## Signs -/

section Sign

variable {format : Format} {d : Decimal} {sign : Sign} {mantissa : ℕ} {exponent : ℤ}
  {hpos : 0 < mantissa}

theorem neg_canonical {parts : UnpackedFloat} (hcanonical : Canonical format parts) :
    Canonical format parts.neg := by
  cases parts with
  | notANumber => exact hcanonical
  | infinity sign => trivial
  | zero sign => trivial
  | finite sign mantissa exponent hpos => exact hcanonical

theorem nearestParts_canonical (format : Format) (d : Decimal) :
    Canonical format (d.nearestParts format) := by
  have hmagnitude := ofScientific_canonical format d.digits d.exponent
  unfold Decimal.nearestParts
  split
  · exact neg_canonical hmagnitude
  · exact hmagnitude

/-- A decimal is read by its magnitude, and gets the sign of what is read. -/
theorem nearestParts_eq_finite_iff :
    d.nearestParts format = .finite sign mantissa exponent hpos ↔
      ofScientific format d.digits d.exponent = .finite .positive mantissa exponent hpos ∧
        d.negative = (sign == .negative) := by
  unfold Decimal.nearestParts
  constructor
  · intro hread
    cases hmagnitude : ofScientific format d.digits d.exponent with
    | notANumber => rw [hmagnitude] at hread; split at hread <;> cases hread
    | infinity sign => rw [hmagnitude] at hread; split at hread <;> cases hread
    | zero sign => rw [hmagnitude] at hread; split at hread <;> cases hread
    | finite magnitude mantissa exponent hpos =>
        obtain ⟨rfl, -⟩ := ofScientific_near hmagnitude
        rw [hmagnitude] at hread
        split at hread
        · next hnegative =>
            cases hread
            exact ⟨rfl, hnegative⟩
        · next hpositive =>
            cases hread
            exact ⟨rfl, Bool.not_eq_true _ ▸ hpositive⟩
  · rintro ⟨hmagnitude, hsign⟩
    rw [hmagnitude, hsign]
    cases sign <;> rfl

end Sign

/-! ## The exact expansion of a number -/

theorem exact_value (negative : Bool) (mantissa : ℕ) (exponent : ℤ) :
    ((Decimal.exact negative mantissa exponent).digits *
      10 ^ (Decimal.exact negative mantissa exponent).exponent : ℚ) =
        mantissa * 2 ^ exponent := by
  unfold Decimal.exact
  split
  · next hsign =>
      obtain ⟨count, rfl⟩ := Int.eq_ofNat_of_zero_le hsign
      change ((mantissa * 2 ^ (count : ℤ).toNat : ℕ) * 10 ^ (0 : ℤ) : ℚ) = _
      rw [Int.toNat_natCast, zpow_natCast, zpow_zero]
      push_cast
      ring
  · next hsign =>
      obtain ⟨count, hcount⟩ := Int.eq_ofNat_of_zero_le (by omega : 0 ≤ -exponent)
      obtain rfl : exponent = -count := by omega
      change ((mantissa * 5 ^ (- -(count : ℤ)).toNat : ℕ) * 10 ^ (-count : ℤ) : ℚ) = _
      rw [neg_neg, Int.toNat_natCast, zpow_neg, zpow_neg, zpow_natCast, zpow_natCast]
      have hten : (10 : ℚ) ^ count = 2 ^ count * 5 ^ count := by
        rw [← mul_pow]
        norm_num
      rw [hten]
      push_cast
      field_simp

theorem exact_negative (negative : Bool) (mantissa : ℕ) (exponent : ℤ) :
    (Decimal.exact negative mantissa exponent).negative = negative := by
  unfold Decimal.exact
  split <;> rfl

/-- The exact expansion of a number of the format reads back as the number. -/
theorem nearestParts_exact {format : Format} {sign : Sign} {mantissa : ℕ} {exponent : ℤ}
    {hpos : 0 < mantissa} (hwide : format.mantissaBits ≤ 2 ^ format.exponentBits)
    (hcanonical : Canonical format (.finite sign mantissa exponent hpos))
    (hrange : exponent ≤ maxExponent format) :
    (Decimal.exact (sign == .negative) mantissa exponent).nearestParts format =
      .finite sign mantissa exponent hpos := by
  refine nearestParts_eq_finite_iff.mpr ⟨?_, exact_negative _ _ _⟩
  refine ofScientific_eq_of_near hwide hcanonical hrange ?_
  rw [exact_value, sub_self, abs_zero]
  positivity

/-! ## Widening -/

theorem log2_shiftLeft {mantissa : ℕ} (hpos : 0 < mantissa) (count : ℕ) :
    (mantissa <<< count).log2 = mantissa.log2 + count := by
  have hlower := Nat.mul_le_mul_right (2 ^ count) (Nat.log2_self_le hpos.ne')
  have hupper :=
    Nat.mul_lt_mul_of_pos_right (Nat.lt_log2_self (n := mantissa)) (Nat.two_pow_pos count)
  rw [← Nat.pow_add] at hlower hupper
  rw [Nat.shiftLeft_eq, Nat.log2_eq_iff (by positivity)]
  exact ⟨hlower, by rwa [Nat.add_right_comm]⟩

theorem shiftLeft_canonical {format : Format} (sign : Sign) {mantissa : ℕ} {exponent unit : ℤ}
    (hpos : 0 < mantissa)
    (hunit : format.targetExponent (Float.Model.totalExponent mantissa exponent) = unit)
    (hshift : 0 < mantissa <<< (exponent - unit).toNat) (hroom : unit ≤ exponent) :
    Canonical format (.finite sign (mantissa <<< (exponent - unit).toNat) unit hshift) := by
  have hlog : (mantissa <<< (exponent - unit).toNat).log2 =
      mantissa.log2 + (exponent - unit).toNat :=
    log2_shiftLeft hpos _
  unfold Format.targetExponent Float.Model.totalExponent at hunit
  refine ⟨(Nat.log2_lt hshift.ne').mp ?_, ?_, ?_⟩
  · omega
  · omega
  · rw [← Nat.le_log2 hshift.ne']
    unfold Format.mantissaBits at hunit
    omega

theorem shiftLeft_value (mantissa : ℕ) {exponent unit : ℤ} (hroom : unit ≤ exponent) :
    ((mantissa <<< (exponent - unit).toNat : ℕ) : ℚ) * 2 ^ unit = mantissa * 2 ^ exponent := by
  obtain ⟨count, rfl⟩ := Int.le.dest hroom
  have hcount : (unit + count - unit).toNat = count := by omega
  rw [hcount, Nat.shiftLeft_eq, zpow_add₀ (by norm_num), zpow_natCast]
  push_cast
  ring

/-- Rounding does not change a number that has room in the format. -/
theorem round_of_le {format : Format} (sign : Sign) {mantissa : ℕ} {exponent unit : ℤ}
    (hpos : 0 < mantissa)
    (hunit : format.targetExponent (Float.Model.totalExponent mantissa exponent) = unit)
    (hroom : unit ≤ exponent) :
    ∃ (wide : ℕ) (hwide : 0 < wide), (wide : ℚ) * 2 ^ unit = mantissa * 2 ^ exponent ∧
      Canonical format (.finite sign wide unit hwide) ∧
      round format sign mantissa exponent = .finite sign wide unit hwide := by
  have hwide : 0 < mantissa <<< (exponent - unit).toNat := by
    rw [Nat.shiftLeft_eq]
    positivity
  have hcanonical := shiftLeft_canonical sign hpos hunit hwide hroom
  refine ⟨_, hwide, shiftLeft_value mantissa hroom, hcanonical, ?_⟩
  have hlast : exponent - (exponent - unit).toNat = unit := by omega
  have htarget := targetExponent_of_canonical hcanonical
  obtain ⟨rounded, last, hnearest, hround⟩ := roundWithAccuracy_eq format sign
    (approximates_exact (mantissa <<< (exponent - unit).toNat) unit) htarget.ge
  have hopen : round format sign mantissa exponent = roundWithAccuracy format sign
      (mantissa <<< (exponent - unit).toNat) (exponent - (exponent - unit).toNat) .exact := by
    rw [← hunit]
    rfl
  rw [hopen, hlast, hround]
  refine settle_eq_of_near hnearest hcanonical ?_
  rw [sub_self, abs_zero]
  positivity

/-! ## Formats that binary64 holds with room to spare -/

/-- Every number of the format is a number of binary64, with at least two more bits in
its mantissa. -/
structure Narrow (format : Format) : Prop where
  mantissaBits_le : format.mantissaBits + 2 ≤ Format.binary64.mantissaBits
  minExponent_le : Format.binary64.minExponent + 2 ≤ format.minExponent
  maxExponent_le : maxExponent format + format.mantissaBits ≤
    maxExponent .binary64 + Format.binary64.mantissaBits

section Widening

variable {format : Format} {sign : Sign} {mantissa : ℕ} {exponent : ℤ} {hpos : 0 < mantissa}

/-- A number of a narrow format in binary64, at an exponent that is smaller by two at
least. -/
theorem Narrow.widen (hnarrow : Narrow format)
    (hcanonical : Canonical format (.finite sign mantissa exponent hpos))
    (hrange : exponent ≤ maxExponent format) :
    ∃ (wide : ℕ) (unit : ℤ) (hwide : 0 < wide), (wide : ℚ) * 2 ^ unit =
      mantissa * 2 ^ exponent ∧
      unit + 2 ≤ exponent ∧ Canonical .binary64 (.finite sign wide unit hwide) ∧
      unit ≤ maxExponent .binary64 ∧
      round .binary64 sign mantissa exponent = .finite sign wide unit hwide := by
  have hmantissa := hnarrow.mantissaBits_le
  have hmin := hnarrow.minExponent_le
  have hmax := hnarrow.maxExponent_le
  have htarget := targetExponent_of_canonical hcanonical
  have hlog := (Nat.log2_lt hpos.ne').mpr hcanonical.1
  generalize hunit :
    Format.binary64.targetExponent (Float.Model.totalExponent mantissa exponent) = unit
  have hlarge : (0 : ℤ) ≤ maxExponent .binary64 := by decide
  have hsmall : Format.binary64.minExponent ≤ 0 := by decide
  unfold Format.targetExponent Float.Model.totalExponent at htarget
  have hroom : unit + 2 ≤ exponent := by
    unfold Format.targetExponent Float.Model.totalExponent at hunit
    omega
  obtain ⟨wide, hwide, hvalue, hwideCanonical, hround⟩ :=
    round_of_le sign hpos hunit (by omega)
  refine ⟨wide, unit, hwide, hvalue, hroom, hwideCanonical, ?_, hround⟩
  unfold Format.targetExponent Float.Model.totalExponent at hunit
  omega

/-- What reads as a number of a narrow format in binary64 reads as that number in the
narrow format. -/
theorem Narrow.nearestParts_eq (hwidth : format.mantissaBits ≤ 2 ^ format.exponentBits)
    (hcanonical : Canonical format (.finite sign mantissa exponent hpos))
    (hrange : exponent ≤ maxExponent format) {wide : ℕ} {unit : ℤ} {hwide : 0 < wide}
    (hvalue : (wide : ℚ) * 2 ^ unit = mantissa * 2 ^ exponent) (hroom : unit + 2 ≤ exponent)
    {d : Decimal} (hread : d.nearestParts .binary64 = .finite sign wide unit hwide) :
    d.nearestParts format = .finite sign mantissa exponent hpos := by
  obtain ⟨hmagnitude, hsign⟩ := nearestParts_eq_finite_iff.mp hread
  obtain ⟨-, hnear⟩ := ofScientific_near hmagnitude
  refine nearestParts_eq_finite_iff.mpr
    ⟨ofScientific_eq_of_near hwidth hcanonical hrange ?_, hsign⟩
  have hunit : (0 : ℚ) < 2 ^ unit := by positivity
  have hquarter : (2 : ℚ) ^ unit * 4 ≤ 2 ^ exponent := by
    calc (2 : ℚ) ^ unit * 4 = 2 ^ (unit + 2) := by
          rw [zpow_add₀ (by norm_num)]
          norm_num
      _ ≤ 2 ^ exponent := zpow_le_zpow_right₀ (by norm_num) hroom
  rw [abs_sub_comm, ← hvalue]
  linarith

end Widening

end Parts

/-! ## Lawful formats -/

/-- A type of numbers that are the patterns of bits of a format, and binary64 or a
narrow format. -/
class LawfulBinary (α : Type) [BinaryFloat α] : Prop where
  exponentBits_gt : 1 < (BinaryFloat.format α).exponentBits
  mantissaBits_le :
    (BinaryFloat.format α).mantissaBits ≤ 2 ^ (BinaryFloat.format α).exponentBits
  pack_unpack (x : α) : BinaryFloat.pack (BinaryFloat.unpack x) = x
  unpack_eq (x : α) : ∃ bits, BinaryFloat.unpack x = unpack (BinaryFloat.format α) bits
  isFinite_eq (x : α) : Scalar.isFinite x = (BinaryFloat.unpack x).isFinite
  narrow : BinaryFloat.format α = .binary64 ∨ Parts.Narrow (BinaryFloat.format α)

instance lawfulBinary_float : LawfulBinary Float where
  exponentBits_gt := by decide
  mantissaBits_le := by decide
  pack_unpack x := by
    obtain ⟨⟨bits, hvalid⟩⟩ := x
    change Float.ofModel ⟨.ofBitVec (pack .binary64 (unpack .binary64 bits.toBitVec)), _⟩ = _
    congr 2
    rw [pack_unpack_of_valid hvalid (by decide)]
  unpack_eq x := ⟨_, rfl⟩
  isFinite_eq _ := rfl
  narrow := .inl rfl

instance lawfulBinary_float32 : LawfulBinary Float32 where
  exponentBits_gt := by decide
  mantissaBits_le := by decide
  pack_unpack x := by
    obtain ⟨⟨bits, hvalid⟩⟩ := x
    change Float32.ofModel ⟨.ofBitVec (pack .binary32 (unpack .binary32 bits.toBitVec)), _⟩ = _
    congr 2
    rw [pack_unpack_of_valid hvalid (by decide)]
  unpack_eq x := ⟨_, rfl⟩
  isFinite_eq _ := rfl
  narrow := .inr ⟨by decide, by decide, by decide⟩

namespace BinaryFloat

open Parts

variable {α : Type} [BinaryFloat α] [LawfulBinary α]

theorem canonical_of_unpack {x : α} {sign : Sign} {mantissa : ℕ} {exponent : ℤ}
    {hpos : 0 < mantissa} (hx : unpack x = .finite sign mantissa exponent hpos) :
    Canonical (format α) (.finite sign mantissa exponent hpos) ∧
    exponent ≤ maxExponent (format α) := by
  obtain ⟨bits, hbits⟩ := LawfulBinary.unpack_eq x
  exact canonical_unpack LawfulBinary.exponentBits_gt (hbits.symm.trans hx)

/-- The digits that are written for a number read back as the number. -/
theorem numeral_reads_back {x : α} {sign : Sign} {mantissa : ℕ} {exponent : ℤ}
    {hpos : 0 < mantissa} (hx : unpack x = .finite sign mantissa exponent hpos) :
    ∃ d, numeral x = .finite d ∧
      d.nearestParts (format α) = .finite sign mantissa exponent hpos := by
  obtain ⟨hcanonical, hrange⟩ := canonical_of_unpack hx
  have hself := nearestParts_exact LawfulBinary.mantissaBits_le hcanonical hrange
  let passes (candidate : Decimal) : Bool :=
    bits (α := α) (candidate.nearestParts (format α)) ==
      bits (α := α) (.finite sign mantissa exponent hpos)
  have hexact : passes (Decimal.exact (sign == .negative) mantissa exponent) = true :=
    beq_iff_eq.mpr (congrArg bits hself)
  have hfound := @Decimal.shortestPassing_passes _ passes hexact
  unfold numeral
  rw [hx]
  exact ⟨_, rfl,
    eq_of_pack_eq (nearestParts_canonical _ _) hcanonical hrange (eq_of_beq hfound)⟩

omit [LawfulBinary α] in
theorem numeral_zero {x : α} {sign : Sign} (hx : unpack x = .zero sign) :
    numeral x = .finite ⟨sign == .negative, 0, 0⟩ := by
  unfold numeral
  rw [hx]

/-- A number in binary64: what reads there as the number reads as the number itself. -/
theorem convert_reads_back {x : α} {sign : Sign} {mantissa : ℕ} {exponent : ℤ}
    {hpos : 0 < mantissa} (hx : unpack x = .finite sign mantissa exponent hpos) :
    ∃ (wide : ℕ) (unit : ℤ) (hwide : 0 < wide),
      unpack (convert x : Float) = .finite sign wide unit hwide ∧
      ∀ d : Decimal, d.nearestParts .binary64 = .finite sign wide unit hwide →
        d.nearestParts (format α) = .finite sign mantissa exponent hpos := by
  obtain ⟨hcanonical, hrange⟩ := canonical_of_unpack hx
  have hconvert : (convert x : Float) = pack (round .binary64 sign mantissa exponent) := by
    unfold convert
    rw [hx]
    rfl
  rw [hconvert]
  obtain hsame | hnarrow := LawfulBinary.narrow (α := α)
  · rw [hsame] at hcanonical hrange ⊢
    obtain ⟨wide, hwide, hvalue, hwideCanonical, hround⟩ :=
      round_of_le sign hpos (targetExponent_of_canonical hcanonical) le_rfl
    obtain rfl : wide = mantissa := by
      have hunit : (2 : ℚ) ^ exponent ≠ 0 := by positivity
      exact_mod_cast mul_right_cancel₀ hunit hvalue
    rw [hround]
    exact ⟨wide, exponent, hpos, unpack_pack_finite hcanonical hrange, fun d hread => hread⟩
  · obtain ⟨wide, unit, hwide, hvalue, hroom, hwideCanonical, hwideRange, hround⟩ :=
      hnarrow.widen hcanonical hrange
    rw [hround]
    exact ⟨wide, unit, hwide, unpack_pack_finite hwideCanonical hwideRange, fun d hread =>
      Narrow.nearestParts_eq LawfulBinary.mantissaBits_le hcanonical hrange hvalue hroom hread⟩

theorem nearest_eq {x : α} {d : Decimal} (hread : d.nearestParts (format α) = unpack x) :
    d.nearest α = x := by
  unfold Decimal.nearest
  rw [hread, LawfulBinary.pack_unpack]

/-- The digits that binary64 needs for a finite number read back as the number. -/
theorem numeral_convert_reads_back {x : α} (hfinite : Scalar.isFinite x = true) :
    ∃ d, numeral (convert x : Float) = .finite d ∧ d.nearest α = x := by
  rw [LawfulBinary.isFinite_eq] at hfinite
  cases hx : unpack x with
  | notANumber => rw [hx] at hfinite; cases hfinite
  | infinity sign => rw [hx] at hfinite; cases hfinite
  | zero sign =>
      have hconvert : (convert x : Float) = pack (.zero sign) := by
        unfold convert
        rw [hx]
      have hwide : unpack (convert x : Float) = .zero sign := by
        rw [hconvert]
        exact unpack_packedZero
      refine ⟨_, numeral_zero hwide, nearest_eq ?_⟩
      rw [hx]
      cases sign <;> rfl
  | finite sign mantissa exponent hpos =>
      obtain ⟨wide, unit, hwide, hunpack, hback⟩ := convert_reads_back hx
      obtain ⟨d, hnumeral, hread⟩ := numeral_reads_back hunpack
      exact ⟨d, hnumeral, nearest_eq ((hback d hread).trans hx.symm)⟩

end BinaryFloat

end SecantDescent
