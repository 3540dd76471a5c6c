import Mathlib
import SecantDescent.Scalar.Binary

/-!
# Packing and unpacking

The finite numbers of a format are the ones whose mantissa fills the bits of the format,
or whose exponent is the smallest one, and whose exponent is not too large.  On them
packing and unpacking undo each other.  A rounded number whose exponent is too large is
packed as an infinity, so it is never taken for a finite one.
-/

namespace SecantDescent.Parts

open Float.Model (Format UnpackedFloat)
open Float.Model.UnpackedFloat

variable {format : Format}

/-! ## The exponents of a format -/

theorem minExponent_eq (format : Format) :
    format.minExponent = 1 - format.exponentBias - format.mantissaBitsWithoutImplicit := by
  have hpos : 1 ≤ 2 ^ (format.exponentBits - 1) := Nat.one_le_two_pow
  unfold Format.minExponent Format.exponentBias Format.mantissaBits
  rw [Nat.cast_sub hpos]
  push_cast
  ring

/-- The largest exponent of a finite number. -/
def maxExponent (format : Format) : Int :=
  format.exponentBias - format.mantissaBitsWithoutImplicit

theorem two_pow_exponentBits (format : Format) :
    2 ^ format.exponentBits = 2 * format.exponentBias + 2 := by
  have hpos : 1 ≤ 2 ^ (format.exponentBits - 1) := Nat.one_le_two_pow
  have hsucc : format.exponentBits = format.exponentBits - 1 + 1 := by
    have := format.he
    omega
  unfold Format.exponentBias
  rw [hsucc, Nat.pow_succ]
  simp only [Nat.add_sub_cancel]
  omega

theorem exponentBias_pos (hbits : 1 < format.exponentBits) : 0 < format.exponentBias := by
  have hpow : 2 ^ 1 ≤ 2 ^ (format.exponentBits - 1) :=
    Nat.pow_le_pow_right (by decide) (by omega)
  unfold Format.exponentBias
  omega

theorem two_pow_mantissaBits (format : Format) :
    2 ^ format.mantissaBits = 2 * 2 ^ format.mantissaBitsWithoutImplicit := by
  rw [Format.mantissaBits, Nat.pow_add, Nat.pow_one]

/-! ## Numbers of a format -/

/-- A number with a mantissa as a format rounds it: either all bits of the mantissa are
in use, or the exponent is the smallest one. -/
def Canonical (format : Format) : UnpackedFloat → Prop
  | .notANumber => False
  | .infinity _ => True
  | .zero _ => True
  | .finite _ mantissa exponent _ =>
      mantissa < 2 ^ format.mantissaBits ∧ format.minExponent ≤ exponent ∧
        (2 ^ format.mantissaBitsWithoutImplicit ≤ mantissa ∨ exponent = format.minExponent)

theorem log2_of_normal {mantissa : Nat} (hupper : mantissa < 2 ^ format.mantissaBits)
    (hlower : 2 ^ format.mantissaBitsWithoutImplicit ≤ mantissa) :
    mantissa.log2 + 1 = format.mantissaBits := by
  have hpos : mantissa ≠ 0 := by
    have := Nat.two_pow_pos format.mantissaBitsWithoutImplicit
    omega
  have hlt := (Nat.log2_lt hpos).mpr hupper
  have hle := (Nat.le_log2 hpos).mpr hlower
  unfold Format.mantissaBits at *
  omega

theorem log2_of_subnormal {mantissa : Nat}
    (hupper : mantissa < 2 ^ format.mantissaBitsWithoutImplicit) :
    mantissa.log2 + 1 < format.mantissaBits := by
  have hbits := format.hm
  unfold Format.mantissaBits
  by_cases hzero : mantissa = 0
  · rw [hzero, Nat.log2_zero]
    omega
  · have := (Nat.log2_lt hzero).mpr hupper
    omega

/-- The exponent of a rounded number is the one that its format assigns to numbers of
its size. -/
theorem targetExponent_of_canonical {sign : Sign} {mantissa : Nat} {exponent : Int}
    {hpos : 0 < mantissa}
    (hcanonical : Canonical format (.finite sign mantissa exponent hpos)) :
    format.targetExponent (Float.Model.totalExponent mantissa exponent) = exponent := by
  obtain ⟨hupper, hmin, hnormal | hmin'⟩ := hcanonical
  · have hlog := log2_of_normal hupper hnormal
    unfold Format.targetExponent Float.Model.totalExponent
    omega
  · have hlog := (Nat.log2_lt hpos.ne').mpr hupper
    unfold Format.targetExponent Float.Model.totalExponent
    omega

/-! ## Bits -/

theorem toNat_implicit_append {bits : Nat} (mantissa : BitVec bits) :
    (1#1 ++ mantissa).toNat = 2 ^ bits + mantissa.toNat := by
  rw [BitVec.toNat_append, ← Nat.shiftLeft_add_eq_or_of_lt mantissa.isLt,
    BitVec.toNat_one (by decide), Nat.one_shiftLeft]

theorem zero_ne_allOnes (format : Format) : (0#_ : BitVec format.exponentBits) ≠ -1#_ := by
  intro heq
  have htoNat := congrArg BitVec.toNat heq
  have hpow : 2 ^ 1 ≤ 2 ^ format.exponentBits := Nat.pow_le_pow_right (by decide) format.he
  simp only [BitVec.neg_one_eq_allOnes, BitVec.toNat_allOnes, BitVec.toNat_zero] at htoNat
  omega

/-! ## Unpacking what is packed -/

theorem unpack_packedInfinity (sign : Sign) :
    unpack format (packedInfinity format sign) = .infinity sign := by
  unfold unpack packedInfinity
  simp only [unpackExponent_packComponents, unpackMantissa_packComponents,
    unpackSign_packComponents, if_true, Sign.ofBitVec_toBitVec]
  rfl

theorem unpack_packComponents_normal (sign : Sign) {biased mantissa : Nat} (hpos : 0 < biased)
    (hrange : biased + 1 < 2 ^ format.exponentBits)
    (hupper : mantissa < 2 ^ format.mantissaBits)
    (hlower : 2 ^ format.mantissaBitsWithoutImplicit ≤ mantissa) (hmantissa : 0 < mantissa) :
    unpack format (packComponents format sign (.ofNat _ biased) (.ofNat _ mantissa)) =
      .finite sign mantissa
        (biased - (format.exponentBias + format.mantissaBitsWithoutImplicit))
        hmantissa := by
  have hbiased : (BitVec.ofNat format.exponentBits biased).toNat = biased := by
    rw [BitVec.toNat_ofNat, Nat.mod_eq_of_lt (by omega)]
  have hallOnes : BitVec.ofNat format.exponentBits biased ≠ -1#_ := by
    intro heq
    have htoNat := congrArg BitVec.toNat heq
    rw [hbiased, BitVec.neg_one_eq_allOnes, BitVec.toNat_allOnes] at htoNat
    omega
  have hzero : BitVec.ofNat format.exponentBits biased ≠ 0#_ := by
    intro heq
    have htoNat := congrArg BitVec.toNat heq
    rw [hbiased, BitVec.toNat_zero] at htoNat
    omega
  have hwhole :
      (1#1 ++ BitVec.ofNat format.mantissaBitsWithoutImplicit mantissa).toNat = mantissa := by
    rw [toNat_implicit_append, BitVec.toNat_ofNat]
    have hdouble := two_pow_mantissaBits format
    rw [Nat.mod_eq_sub_mod hlower, Nat.mod_eq_of_lt (by omega)]
    omega
  unfold unpack
  simp only [unpackExponent_packComponents, unpackMantissa_packComponents,
    unpackSign_packComponents, Sign.ofBitVec_toBitVec]
  rw [if_neg hallOnes, if_neg hzero]
  simp only [hwhole, hbiased]

theorem unpack_packComponents_subnormal (sign : Sign) {mantissa : Nat}
    (hupper : mantissa < 2 ^ format.mantissaBitsWithoutImplicit) (hmantissa : 0 < mantissa) :
    unpack format (packComponents format sign 0#_ (.ofNat _ mantissa)) =
      .finite sign mantissa format.minExponent hmantissa := by
  have hwhole : (BitVec.ofNat format.mantissaBitsWithoutImplicit mantissa).toNat =
      mantissa := by
    rw [BitVec.toNat_ofNat, Nat.mod_eq_of_lt hupper]
  have hzero : BitVec.ofNat format.mantissaBitsWithoutImplicit mantissa ≠ 0#_ := by
    intro heq
    have htoNat := congrArg BitVec.toNat heq
    rw [hwhole, BitVec.toNat_zero] at htoNat
    omega
  unfold unpack
  simp only [unpackExponent_packComponents, unpackMantissa_packComponents,
    unpackSign_packComponents, Sign.ofBitVec_toBitVec]
  rw [if_neg (zero_ne_allOnes format), if_pos trivial, dif_neg hzero]
  simp only [hwhole, BitVec.toNat_zero, minExponent_eq]
  congr 1
  omega

/-- A finite number of the format is recovered from its bits. -/
theorem unpack_pack_finite {sign : Sign} {mantissa : Nat} {exponent : Int}
    {hpos : 0 < mantissa}
    (hcanonical : Canonical format (.finite sign mantissa exponent hpos))
    (hrange : exponent ≤ maxExponent format) :
    unpack format (pack format (.finite sign mantissa exponent hpos)) =
      .finite sign mantissa exponent hpos := by
  obtain ⟨hupper, hmin, hkind⟩ := hcanonical
  have hcapacity := two_pow_exponentBits format
  rw [minExponent_eq] at hmin
  unfold maxExponent at hrange
  unfold pack
  rw [if_neg (by omega)]
  by_cases hnormal : 2 ^ format.mantissaBitsWithoutImplicit ≤ mantissa
  · rw [if_pos (log2_of_normal hupper hnormal),
      unpack_packComponents_normal sign (by omega) (by omega) hupper hnormal hpos]
    congr 1
    omega
  · rw [if_neg (log2_of_subnormal (by omega)).ne,
      unpack_packComponents_subnormal sign (by omega) hpos]
    congr 1
    exact (hkind.resolve_left hnormal).symm

/-- A rounded number is recovered from its bits, or becomes an infinity because its
exponent is too large. -/
theorem unpack_pack_of_canonical {parts : UnpackedFloat}
    (hcanonical : Canonical format parts) :
    unpack format (pack format parts) = parts ∨
      ∃ sign, unpack format (pack format parts) = .infinity sign := by
  cases parts with
  | notANumber => exact hcanonical.elim
  | infinity sign => exact .inl (unpack_packedInfinity sign)
  | zero sign => exact .inl unpack_packedZero
  | finite sign mantissa exponent hpos =>
      by_cases hrange : exponent ≤ maxExponent format
      · exact .inl (unpack_pack_finite hcanonical hrange)
      · right
        have hcapacity := two_pow_exponentBits format
        unfold maxExponent at hrange
        unfold pack
        rw [if_pos (by omega)]
        exact ⟨sign, unpack_packedInfinity sign⟩

/-- Two rounded numbers with the same bits are the same, if one of them is a finite
number of the format. -/
theorem eq_of_pack_eq {candidate : UnpackedFloat} {sign : Sign} {mantissa : Nat}
    {exponent : Int} {hpos : 0 < mantissa} (hcandidate : Canonical format candidate)
    (hcanonical : Canonical format (.finite sign mantissa exponent hpos))
    (hrange : exponent ≤ maxExponent format)
    (hbits : pack format candidate = pack format (.finite sign mantissa exponent hpos)) :
    candidate = .finite sign mantissa exponent hpos := by
  have hback := unpack_pack_finite hcanonical hrange
  rw [← hbits] at hback
  obtain hsame | ⟨infinite, hinfinite⟩ := unpack_pack_of_canonical hcandidate
  · rw [← hsame, hback]
  · rw [hinfinite] at hback
    cases hback

/-! ## What bits stand for -/

theorem exponent_of_normal {b : BitVec format.numBits} (hallOnes : unpackExponent b ≠ -1#_)
    (hzero : unpackExponent b ≠ 0#_) :
    0 < (unpackExponent b).toNat ∧ (unpackExponent b).toNat + 1 < 2 ^ format.exponentBits := by
  have hlt := (unpackExponent b).isLt
  have hpos : (unpackExponent b).toNat ≠ 0 := fun hnat =>
    hzero (BitVec.eq_of_toNat_eq (hnat.trans BitVec.toNat_zero.symm))
  have hmax : (unpackExponent b).toNat ≠ 2 ^ format.exponentBits - 1 := fun hnat =>
    hallOnes (BitVec.eq_of_toNat_eq
      (by rw [hnat, BitVec.neg_one_eq_allOnes, BitVec.toNat_allOnes]))
  omega

/-- The finite numbers that bits stand for are numbers of the format. -/
theorem canonical_unpack (hbits : 1 < format.exponentBits) {b : BitVec format.numBits}
    {sign : Sign} {mantissa : Nat} {exponent : Int} {hpos : 0 < mantissa}
    (hunpack : unpack format b = .finite sign mantissa exponent hpos) :
    Canonical format (.finite sign mantissa exponent hpos) ∧
    exponent ≤ maxExponent format := by
  have hdouble := two_pow_mantissaBits format
  have hcapacity := two_pow_exponentBits format
  have hmin := minExponent_eq format
  have hbias := exponentBias_pos hbits
  have hmantissa := (unpackMantissa b).isLt
  unfold unpack at hunpack
  by_cases hallOnes : unpackExponent b = -1#_
  · rw [if_pos hallOnes] at hunpack
    split at hunpack <;> cases hunpack
  rw [if_neg hallOnes] at hunpack
  by_cases hzero : unpackExponent b = 0#_
  · rw [if_pos hzero] at hunpack
    split at hunpack
    · cases hunpack
    · cases hunpack
      rw [hzero, BitVec.toNat_zero]
      refine ⟨⟨by omega, by omega, .inr (by omega)⟩, ?_⟩
      unfold maxExponent
      omega
  · rw [if_neg hzero] at hunpack
    cases hunpack
    obtain ⟨hfirst, hlast⟩ := exponent_of_normal hallOnes hzero
    have hwhole := toNat_implicit_append (unpackMantissa b)
    refine ⟨⟨by omega, by omega, .inl (by omega)⟩, ?_⟩
    unfold maxExponent
    omega

end SecantDescent.Parts
