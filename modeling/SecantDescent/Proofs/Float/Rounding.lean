import SecantDescent.Proofs.Float.Packing

/-!
# Rounding to the nearest number

A mantissa with a round bit and a sticky bit stands for a rational number that is known
well enough to be rounded: exactly, or up to the interval between two halves.  Shifting
keeps what is known.  Rounding in a format therefore takes a rational number to a
mantissa at most half a unit away, at the exponent that the size of the number
determines.  Conversely a number of the format within a quarter of its unit is the one
that is found, also next to a power of two, where the unit below is half as large.
-/

namespace SecantDescent.Parts

open Float.Model (Format UnpackedFloat)
open Float.Model.UnpackedFloat

/-! ## Mantissas that are known up to half a unit -/

/-- The rational numbers that an extended mantissa stands for. -/
def Represents : ExtendedMantissa → ℚ → Prop
  | ⟨mantissa, false, false⟩, v => v = mantissa
  | ⟨mantissa, false, true⟩, v => mantissa < v ∧ v < mantissa + 1 / 2
  | ⟨mantissa, true, false⟩, v => v = mantissa + 1 / 2
  | ⟨mantissa, true, true⟩, v => mantissa + 1 / 2 < v ∧ v < mantissa + 1

namespace Represents

variable {extended : ExtendedMantissa} {v : ℚ}

theorem bounds (hv : Represents extended v) :
    (extended.mantissa : ℚ) ≤ v ∧ v < extended.mantissa + 1 := by
  obtain ⟨mantissa, round, sticky⟩ := extended
  cases round <;> cases sticky <;> simp only [Represents] at hv ⊢ <;> constructor <;> linarith

theorem roundedMantissa_near (hv : Represents extended v) :
    |(extended.roundedMantissa : ℚ) - v| ≤ 1 / 2 := by
  obtain ⟨mantissa, round, sticky⟩ := extended
  rw [abs_le]
  cases round <;> cases sticky <;>
    simp only [Represents, ExtendedMantissa.roundedMantissa, ExtendedMantissa.accuracy,
      Accuracy.roundToNearestEven] at hv ⊢
  · constructor <;> linarith
  · constructor <;> linarith
  · obtain heven | hodd := Nat.mod_two_eq_zero_or_one mantissa
    · rw [heven]
      push_cast
      constructor <;> linarith
    · rw [hodd]
      push_cast
      constructor <;> linarith
  · push_cast
    constructor <;> linarith

theorem roundedMantissa_bounds (extended : ExtendedMantissa) :
    extended.mantissa ≤ extended.roundedMantissa ∧
    extended.roundedMantissa ≤ extended.mantissa + 1 := by
  obtain ⟨mantissa, round, sticky⟩ := extended
  cases round <;> cases sticky <;>
    simp only [ExtendedMantissa.roundedMantissa, ExtendedMantissa.accuracy,
      Accuracy.roundToNearestEven] <;> omega

theorem shiftRightOne (hv : Represents extended v) :
    Represents extended.shiftRightOne (v / 2) := by
  obtain ⟨mantissa, round, sticky⟩ := extended
  have hsplit : (mantissa : ℚ) = (mantissa % 2 : ℕ) + 2 * (mantissa / 2 : ℕ) := by
    exact_mod_cast (Nat.mod_add_div mantissa 2).symm
  obtain hbit | hbit := Nat.mod_two_eq_zero_or_one mantissa <;> rw [hbit] at hsplit <;>
    push_cast at hsplit <;> cases round <;> cases sticky <;>
    simp only [Represents, ExtendedMantissa.shiftRightOne, hbit, Nat.reduceBNe, Bool.or_false,
      Bool.or_true] at hv ⊢
  all_goals first | linarith | (constructor <;> linarith)

theorem shiftRight (hv : Represents extended v) (count : ℕ) :
    Represents (extended >>> count) (v / 2 ^ count) := by
  change Represents (count.repeat ExtendedMantissa.shiftRightOne extended) (v / 2 ^ count)
  induction count with
  | zero => simpa [Nat.repeat] using hv
  | succ count ih =>
      rw [pow_succ, ← div_div]
      exact ih.shiftRightOne

end Represents

/-! ## The unit a number is rounded to -/

section Unit

variable {format : Format} {v : ℚ} {mantissa : ℕ} {exponent unit : ℤ} {accuracy : Accuracy}

/-- A format rounds numbers of the size of `v` to multiples of `2 ^ unit`: the number
has no more bits before that unit than a mantissa has, and as many unless the unit is
the smallest one. -/
structure IsUnit (format : Format) (v : ℚ) (unit : ℤ) : Prop where
  min_le : format.minExponent ≤ unit
  lt : v < 2 ^ (unit + format.mantissaBits)
  le : unit = format.minExponent ∨ (2 : ℚ) ^ (unit + format.mantissaBitsWithoutImplicit) ≤ v

/-- The number `v` is the mantissa at its exponent, up to what the accuracy tells. -/
def Approximates (mantissa : ℕ) (exponent : ℤ) (accuracy : Accuracy) (v : ℚ) : Prop :=
  Represents (.ofMantissaAndAccuracy mantissa accuracy) (v / 2 ^ exponent)

theorem approximates_exact (mantissa : ℕ) (exponent : ℤ) :
    Approximates mantissa exponent .exact (mantissa * 2 ^ exponent) := by
  change (mantissa : ℚ) * 2 ^ exponent / 2 ^ exponent = mantissa
  field_simp

theorem Approximates.bounds (hv : Approximates mantissa exponent accuracy v) :
    mantissa * 2 ^ exponent ≤ v ∧ v < (mantissa + 1) * 2 ^ exponent := by
  have hmantissa : (ExtendedMantissa.ofMantissaAndAccuracy mantissa accuracy).mantissa =
      mantissa := by
    cases accuracy with
    | exact => rfl
    | inexact relative => cases relative <;> rfl
  obtain ⟨hlower, hupper⟩ := Represents.bounds hv
  have hpos : (0 : ℚ) < 2 ^ exponent := by positivity
  rw [hmantissa] at hlower hupper
  exact ⟨(le_div_iff₀ hpos).mp hlower, (div_lt_iff₀ hpos).mp hupper⟩

/-- The exponent that the format assigns to a number is its unit, once the mantissa at
hand has enough bits. -/
theorem Approximates.isUnit (hv : Approximates mantissa exponent accuracy v)
    (hbits : exponent ≤ format.targetExponent (Float.Model.totalExponent mantissa exponent)) :
    IsUnit format v (format.targetExponent (Float.Model.totalExponent mantissa exponent)) := by
  obtain ⟨hlower, hupper⟩ := hv.bounds
  have hwidth := format.hm
  have hlog : mantissa + 1 ≤ 2 ^ (mantissa.log2 + 1) := Nat.lt_log2_self
  have htop : v < 2 ^ ((mantissa.log2 : ℤ) + 1 + exponent) := by
    have hcast : (mantissa : ℚ) + 1 ≤ 2 ^ ((mantissa.log2 : ℤ) + 1) := by exact_mod_cast hlog
    rw [zpow_add₀ (by norm_num)]
    exact hupper.trans_le (mul_le_mul_of_nonneg_right hcast (by positivity))
  refine ⟨le_max_right _ _, htop.trans_le (zpow_le_zpow_right₀ (by norm_num) ?_), ?_⟩
  · unfold Format.targetExponent Float.Model.totalExponent
    omega
  · obtain rfl | hpos := Nat.eq_zero_or_pos mantissa
    · left
      unfold Format.targetExponent Float.Model.totalExponent Format.mantissaBits at hbits ⊢
      rw [Nat.log2_zero] at hbits ⊢
      omega
    · by_cases hmin : format.targetExponent (Float.Model.totalExponent mantissa exponent) =
          format.minExponent
      · exact .inl hmin
      · right
        have hle : (2 : ℚ) ^ (mantissa.log2 : ℤ) ≤ mantissa := by
          exact_mod_cast Nat.log2_self_le hpos.ne'
        have hbottom : (2 : ℚ) ^ ((mantissa.log2 : ℤ) + exponent) ≤ v := by
          rw [zpow_add₀ (by norm_num)]
          exact (mul_le_mul_of_nonneg_right hle (by positivity)).trans hlower
        refine (zpow_le_zpow_right₀ (by norm_num) ?_).trans hbottom
        unfold Format.targetExponent Float.Model.totalExponent Format.mantissaBits at hmin ⊢
        omega

/-! ## Rounding -/

/-- The parts of a rounded mantissa at its unit.  A mantissa with one bit too many is
halved. -/
def settle (format : Format) (sign : Sign) (rounded : ℕ) (unit : ℤ) : UnpackedFloat :=
  if hzero : rounded = 0 then .zero sign
  else if rounded = 2 ^ format.mantissaBits then
    .finite sign (2 ^ format.mantissaBitsWithoutImplicit) (unit + 1) (Nat.two_pow_pos _)
  else .finite sign rounded unit (Nat.pos_of_ne_zero hzero)

/-- The parts are those of a mantissa at most half a unit away from `v`. -/
structure IsNearest (format : Format) (v : ℚ) (rounded : ℕ) (unit : ℤ) : Prop where
  isUnit : IsUnit format v unit
  near : |(rounded : ℚ) - v / 2 ^ unit| ≤ 1 / 2
  le : rounded ≤ 2 ^ format.mantissaBits
  normal : unit = format.minExponent ∨ 2 ^ format.mantissaBitsWithoutImplicit ≤ rounded

theorem shiftToTargetExponent_eq (format : Format) (mantissa : ℕ) (exponent : ℤ)
    (accuracy : Accuracy) {count : ℕ}
    (hcount :
      (format.targetExponent (Float.Model.totalExponent mantissa exponent) -
        exponent).toNat = count) :
    shiftToTargetExponent format mantissa exponent accuracy =
      (ExtendedMantissa.ofMantissaAndAccuracy mantissa accuracy >>> count,
        exponent + count) := by
  rw [← hcount]
  rfl

/-- The first shift of rounding keeps what is known of the number. -/
theorem shiftToTargetExponent_represents (hv : Approximates mantissa exponent accuracy v)
    (hbits : exponent ≤ unit)
    (hunit : format.targetExponent (Float.Model.totalExponent mantissa exponent) = unit) :
    ∃ extended, shiftToTargetExponent format mantissa exponent accuracy = (extended, unit) ∧
      Represents extended (v / 2 ^ unit) := by
  refine ⟨ExtendedMantissa.ofMantissaAndAccuracy mantissa accuracy >>>
    (unit - exponent).toNat, ?_, ?_⟩
  · rw [shiftToTargetExponent_eq format mantissa exponent accuracy rfl, hunit]
    congr 1
    omega
  · have hshift := Represents.shiftRight hv (unit - exponent).toNat
    rwa [div_div, ← zpow_natCast, ← zpow_add₀ (by norm_num), Int.toNat_of_nonneg (by omega),
      add_sub_cancel] at hshift

/-- The second shift of rounding leaves a mantissa alone that has not overflowed. -/
theorem shiftToTargetExponent_of_lt {rounded : ℕ} (hmin : format.minExponent ≤ unit)
    (hlt : rounded < 2 ^ format.mantissaBits) :
    shiftToTargetExponent format rounded unit .exact = (⟨rounded, false, false⟩, unit) := by
  have hlog : rounded.log2 < format.mantissaBits := by
    obtain rfl | hpos := Nat.eq_zero_or_pos rounded
    · rw [Nat.log2_zero]
      unfold Format.mantissaBits
      omega
    · exact (Nat.log2_lt hpos.ne').mpr hlt
  have hnone :
      (format.targetExponent (Float.Model.totalExponent rounded unit) -
        unit).toNat = 0 := by
    unfold Format.targetExponent Float.Model.totalExponent
    omega
  rw [shiftToTargetExponent_eq format rounded unit .exact hnone, Int.ofNat_zero, add_zero]
  rfl

/-- The second shift of rounding halves a mantissa that has overflowed. -/
theorem shiftToTargetExponent_overflow (hmin : format.minExponent ≤ unit) :
    shiftToTargetExponent format (2 ^ format.mantissaBits) unit .exact =
      (⟨2 ^ format.mantissaBitsWithoutImplicit, false, false⟩, unit + 1) := by
  have hone :
      (format.targetExponent (Float.Model.totalExponent (2 ^ format.mantissaBits) unit) -
        unit).toNat = 1 := by
    unfold Format.targetExponent Float.Model.totalExponent
    rw [Nat.log2_two_pow]
    omega
  have hhalf : (⟨2 ^ format.mantissaBits, false, false⟩ : ExtendedMantissa).shiftRightOne =
      ⟨2 ^ format.mantissaBitsWithoutImplicit, false, false⟩ := by
    unfold ExtendedMantissa.shiftRightOne
    rw [two_pow_mantissaBits, Nat.mul_div_cancel_left _ (by decide), Nat.mul_mod_right]
    rfl
  rw [shiftToTargetExponent_eq format _ unit .exact hone, ← hhalf]
  rfl

theorem IsNearest.of_represents {extended : ExtendedMantissa} (hunit : IsUnit format v unit)
    (hextended : Represents extended (v / 2 ^ unit)) :
    IsNearest format v extended.roundedMantissa unit := by
  obtain ⟨hbelow, habove⟩ := hextended.bounds
  obtain ⟨hlower, hupper⟩ := Represents.roundedMantissa_bounds extended
  have hpos : (0 : ℚ) < 2 ^ unit := by positivity
  refine ⟨hunit, hextended.roundedMantissa_near, hupper.trans ?_,
    hunit.le.imp_right fun hle => ?_⟩
  · have hlt := hunit.lt
    rw [zpow_add₀ (by norm_num), mul_comm, ← div_lt_iff₀ hpos, zpow_natCast] at hlt
    exact_mod_cast hbelow.trans_lt hlt
  · rw [zpow_add₀ (by norm_num), mul_comm, ← le_div_iff₀ hpos, zpow_natCast] at hle
    have hfloor := hle.trans_lt habove
    have : 2 ^ format.mantissaBitsWithoutImplicit < extended.mantissa + 1 := by
      exact_mod_cast hfloor
    omega

theorem roundWithAccuracy_of_shifts {sign : Sign} {first second : ExtendedMantissa} {last : ℤ}
    (hfirst : shiftToTargetExponent format mantissa exponent accuracy = (first, unit))
    (hsecond : shiftToTargetExponent format first.roundedMantissa unit .exact =
      (second, last)) :
    roundWithAccuracy format sign mantissa exponent accuracy =
      if hzero : second.mantissa = 0 then .zero sign
      else .finite sign second.mantissa last (Nat.pos_of_ne_zero hzero) := by
  unfold roundWithAccuracy
  simp only [hfirst, hsecond]

/-- Rounding settles on a nearest mantissa at the unit of the number. -/
theorem roundWithAccuracy_eq (format : Format) (sign : Sign)
    (hv : Approximates mantissa exponent accuracy v)
    (hbits : exponent ≤ format.targetExponent (Float.Model.totalExponent mantissa exponent)) :
    ∃ rounded unit, IsNearest format v rounded unit ∧
      roundWithAccuracy format sign mantissa exponent accuracy =
        settle format sign rounded unit := by
  have hunit := hv.isUnit hbits
  obtain ⟨extended, hfirst, hextended⟩ := shiftToTargetExponent_represents hv hbits rfl
  generalize format.targetExponent (Float.Model.totalExponent mantissa exponent) = unit at *
  have hnearest := IsNearest.of_represents hunit hextended
  refine ⟨extended.roundedMantissa, unit, hnearest, ?_⟩
  obtain hlt | hoverflow := hnearest.le.lt_or_eq
  · rw [roundWithAccuracy_of_shifts hfirst (shiftToTargetExponent_of_lt hunit.min_le hlt)]
    unfold settle
    simp only [if_neg hlt.ne]
  · have hsecond := shiftToTargetExponent_overflow hunit.min_le
    rw [← hoverflow] at hsecond
    rw [roundWithAccuracy_of_shifts hfirst hsecond, dif_neg (Nat.two_pow_pos _).ne']
    unfold settle
    rw [dif_neg (by rw [hoverflow]; exact (Nat.two_pow_pos _).ne'), if_pos hoverflow]

/-! ## What settling gives -/

theorem settle_canonical {sign : Sign} {rounded : ℕ}
    (hnearest : IsNearest format v rounded unit) :
    Canonical format (settle format sign rounded unit) := by
  have hdouble := two_pow_mantissaBits format
  have hmin := hnearest.isUnit.min_le
  unfold settle
  split
  · trivial
  · have hpos := Nat.two_pow_pos format.mantissaBitsWithoutImplicit
    split
    · exact ⟨by omega, by omega, .inl le_rfl⟩
    · next hzero hoverflow =>
        exact ⟨lt_of_le_of_ne hnearest.le hoverflow, hmin, hnearest.normal.symm⟩

theorem IsNearest.distance {rounded : ℕ} (hnearest : IsNearest format v rounded unit) :
    |rounded * 2 ^ unit - v| ≤ 2 ^ unit / 2 := by
  have hpos : (0 : ℚ) < 2 ^ unit := by positivity
  calc |rounded * 2 ^ unit - v|
      = |(rounded : ℚ) - v / 2 ^ unit| * 2 ^ unit := by
        rw [← abs_of_pos hpos, ← abs_mul, abs_of_pos hpos, sub_mul, div_mul_cancel₀ _ hpos.ne']
    _ ≤ 1 / 2 * 2 ^ unit := mul_le_mul_of_nonneg_right hnearest.near hpos.le
    _ = 2 ^ unit / 2 := by ring

theorem two_pow_succ_unit (unit : ℤ) : (2 : ℚ) ^ (unit + 1) = 2 * 2 ^ unit := by
  rw [zpow_add_one₀ (by norm_num), mul_comm]

theorem settle_sign {sign sign' : Sign} {rounded : ℕ} {last : ℤ} {hpos : 0 < mantissa}
    (hsettle : settle format sign rounded unit = .finite sign' mantissa last hpos) :
    sign' = sign := by
  unfold settle at hsettle
  split at hsettle
  · cases hsettle
  · split at hsettle <;> cases hsettle <;> rfl

/-- The result of rounding is at most half its own unit away. -/
theorem settle_near {sign sign' : Sign} {rounded : ℕ} {last : ℤ} {hpos : 0 < mantissa}
    (hnearest : IsNearest format v rounded unit)
    (hsettle : settle format sign rounded unit = .finite sign' mantissa last hpos) :
    |mantissa * 2 ^ last - v| ≤ 2 ^ last / 2 := by
  have hdistance := hnearest.distance
  have hunit : (0 : ℚ) < 2 ^ unit := by positivity
  unfold settle at hsettle
  split at hsettle
  · cases hsettle
  · split at hsettle
    · next hoverflow =>
        cases hsettle
        have hvalue : ((2 ^ format.mantissaBitsWithoutImplicit : ℕ) : ℚ) * 2 ^ (unit + 1) =
            rounded * 2 ^ unit := by
          rw [hoverflow, two_pow_mantissaBits, two_pow_succ_unit]
          push_cast
          ring
        rw [hvalue, two_pow_succ_unit]
        linarith
    · cases hsettle
      exact hdistance

theorem eq_of_abs_mul_sub_lt {a b : ℕ} {c : ℚ} (hc : 0 < c) (hlt : |a * c - b * c| < c) :
    a = b := by
  rw [← sub_mul, abs_mul, abs_of_pos hc, mul_lt_iff_lt_one_left hc] at hlt
  have hint : |(a : ℤ) - b| < 1 := by exact_mod_cast hlt
  have := Int.abs_lt_one_iff.mp hint
  omega

/-- The unit of a number next to a number of the format is the exponent of the latter,
or the exponent below if that is the least of its binade. -/
theorem IsUnit.eq_of_near {sign : Sign} {last : ℤ} {hpos : 0 < mantissa}
    (hunit : IsUnit format v unit)
    (hcanonical : Canonical format (.finite sign mantissa last hpos))
    (hnear : |v - mantissa * 2 ^ last| < 2 ^ last / 4) :
    unit = last ∨ unit + 1 = last ∧ mantissa = 2 ^ format.mantissaBitsWithoutImplicit := by
  obtain ⟨hupper, hmin, hkind⟩ := hcanonical
  obtain ⟨hbelow, habove⟩ := abs_lt.mp hnear
  have hlast : (0 : ℚ) < 2 ^ last := by positivity
  have hbits : format.mantissaBits = 1 + format.mantissaBitsWithoutImplicit := rfl
  have hsplit (power : ℕ) : (2 : ℚ) ^ (last + power) = (2 ^ power : ℕ) * 2 ^ last := by
    rw [zpow_add₀ (by norm_num), mul_comm, zpow_natCast, Nat.cast_pow, Nat.cast_ofNat]
  by_cases hbig : last < unit
  · -- At a larger unit the number would exceed every mantissa at the exponent of the other.
    exfalso
    have hle := hunit.le.resolve_left (by omega)
    have hmono : (2 : ℚ) ^ (last + format.mantissaBits) ≤
        2 ^ (unit + format.mantissaBitsWithoutImplicit) :=
      zpow_le_zpow_right₀ (by norm_num) (by omega)
    have hcast : (mantissa : ℚ) + 1 ≤ (2 ^ format.mantissaBits : ℕ) := by exact_mod_cast hupper
    have hscaled := mul_le_mul_of_nonneg_right hcast hlast.le
    rw [hsplit] at hmono
    linarith
  by_cases hsame : unit = last
  · exact .inl hsame
  -- At a smaller unit the number is below a power of two, so only the least mantissa is
  -- near.
  have hunitMin := hunit.min_le
  have hnormal := hkind.resolve_right (by omega)
  have hmono : (2 : ℚ) ^ (unit + format.mantissaBits) ≤
      2 ^ (last + format.mantissaBitsWithoutImplicit) :=
    zpow_le_zpow_right₀ (by norm_num) (by omega)
  have hlt := hunit.lt.trans_le hmono
  have hleast : mantissa = 2 ^ format.mantissaBitsWithoutImplicit := by
    refine hnormal.antisymm' (Nat.lt_succ_iff.mp ?_)
    have hcast : (mantissa : ℚ) * 2 ^ last <
        ((2 ^ format.mantissaBitsWithoutImplicit + 1 : ℕ) : ℚ) * 2 ^ last := by
      rw [hsplit] at hlt
      push_cast at hlt ⊢
      linarith
    exact_mod_cast lt_of_mul_lt_mul_right hcast hlast.le
  refine .inr ⟨?_, hleast⟩
  -- Two binades below, the number would be at most half of the other.
  by_contra hfar
  have hhalf : (2 : ℚ) * 2 ^ (unit + format.mantissaBits) ≤
      2 ^ (last + format.mantissaBitsWithoutImplicit) := by
    rw [← two_pow_succ_unit]
    exact zpow_le_zpow_right₀ (by norm_num) (by omega)
  have hone : (1 : ℚ) ≤ mantissa := by exact_mod_cast hpos
  have hscaled := mul_le_mul_of_nonneg_right hone hlast.le
  have hupperLt := hunit.lt
  rw [hsplit, ← hleast] at hhalf
  linarith

/-- Rounding finds a number of the format that is less than a quarter of its unit away. -/
theorem settle_eq_of_near {sign : Sign} {rounded : ℕ} {last : ℤ} {hpos : 0 < mantissa}
    (hnearest : IsNearest format v rounded unit)
    (hcanonical : Canonical format (.finite sign mantissa last hpos))
    (hnear : |v - mantissa * 2 ^ last| < 2 ^ last / 4) :
    settle format sign rounded unit = .finite sign mantissa last hpos := by
  have hdistance := hnearest.distance
  have hunit : (0 : ℚ) < 2 ^ unit := by positivity
  unfold settle
  obtain rfl | ⟨rfl, hleast⟩ := hnearest.isUnit.eq_of_near hcanonical hnear
  · have hrounded : rounded = mantissa := by
      refine eq_of_abs_mul_sub_lt hunit ?_
      have htriangle := abs_sub_le (rounded * (2 : ℚ) ^ unit) v (mantissa * 2 ^ unit)
      linarith
    subst hrounded
    rw [dif_neg hpos.ne', if_neg hcanonical.1.ne]
  · have hrounded : rounded = 2 ^ format.mantissaBits := by
      refine eq_of_abs_mul_sub_lt hunit ?_
      have htriangle := abs_sub_le (rounded * (2 : ℚ) ^ unit) v
        ((2 ^ format.mantissaBits : ℕ) * 2 ^ unit)
      have hvalue :
          (mantissa : ℚ) * 2 ^ (unit + 1) = (2 ^ format.mantissaBits : ℕ) * 2 ^ unit := by
        rw [hleast, two_pow_mantissaBits, two_pow_succ_unit]
        push_cast
        ring
      rw [hvalue, two_pow_succ_unit] at hnear
      linarith
    rw [dif_neg (by rw [hrounded]; exact (Nat.two_pow_pos _).ne'), if_pos hrounded]
    congr 1
    exact hleast.symm

end Unit

end SecantDescent.Parts
