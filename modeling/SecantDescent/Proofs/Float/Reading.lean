import SecantDescent.Decimal.Shortest
import SecantDescent.Proofs.Float.Rounding

/-!
# Reading decimals

A decimal is read by a multiplication or a division whose result is known exactly or up
to half a unit, so that it is rounded once.  Decimals that are too large or too small
for the format are told by their exponents alone.
-/

namespace SecantDescent.Parts

open Float.Model (Format UnpackedFloat)
open Float.Model.UnpackedFloat

/-! ## Quotients -/

section Quotient

variable {format : Format}

theorem represents_fraction (mantissa : ℕ) {num den : ℕ} (hlt : num < den) :
    Represents (.ofMantissaAndAccuracy mantissa (accuracyOfFraction num den))
      (mantissa + num / den) := by
  have hden : (0 : ℚ) < den := by exact_mod_cast Nat.zero_lt_of_lt hlt
  have hfraction : (num / den : ℚ) < 1 := (div_lt_one hden).mpr (by exact_mod_cast hlt)
  unfold accuracyOfFraction
  split
  · next hzero =>
      change (mantissa : ℚ) + num / den = mantissa
      rw [hzero, Nat.cast_zero, zero_div, add_zero]
  · next hpos =>
      have hnum : (0 : ℚ) < num / den :=
        div_pos (by exact_mod_cast Nat.pos_of_ne_zero hpos) hden
      cases hcompare : compare (2 * num) den with
      | lt =>
          have hhalf : (2 * num : ℚ) < den := by exact_mod_cast Nat.compare_eq_lt.mp hcompare
          have hlower : (num / den : ℚ) < 1 / 2 := by
            rw [div_lt_iff₀ hden]
            linarith
          change (mantissa : ℚ) < mantissa + num / den ∧
            (mantissa : ℚ) + num / den < mantissa + 1 / 2
          constructor <;> linarith
      | eq =>
          have hhalf : (2 * num : ℚ) = den := by exact_mod_cast Nat.compare_eq_eq.mp hcompare
          change (mantissa : ℚ) + num / den = mantissa + 1 / 2
          rw [add_right_inj, div_eq_iff hden.ne']
          linarith
      | gt =>
          have hhalf : (den : ℚ) < 2 * num := by exact_mod_cast Nat.compare_eq_gt.mp hcompare
          have hupper : (1 / 2 : ℚ) < num / den := by
            rw [lt_div_iff₀ hden]
            linarith
          change (mantissa : ℚ) + 1 / 2 < mantissa + num / den ∧
            (mantissa : ℚ) + num / den < mantissa + 1
          constructor <;> linarith

/-- The quotient of two whole numbers as division computes it, with `count` bits behind
the point. -/
theorem approximates_quotient (m₁ : ℕ) {m₂ : ℕ} (hm₂ : 0 < m₂) (count : ℕ) :
    Approximates ((m₁ <<< count) / m₂) (-count)
      (accuracyOfFraction ((m₁ <<< count) % m₂) m₂) (m₁ / m₂) := by
  have hden : (m₂ : ℚ) ≠ 0 := by exact_mod_cast hm₂.ne'
  have hfraction := represents_fraction ((m₁ <<< count) / m₂) (Nat.mod_lt (m₁ <<< count) hm₂)
  have hsplit : ((m₁ <<< count : ℕ) : ℚ) =
      m₂ * ((m₁ <<< count) / m₂ : ℕ) + ((m₁ <<< count) % m₂ : ℕ) := by
    exact_mod_cast (Nat.div_add_mod _ _).symm
  have hvalue : (m₁ / m₂ : ℚ) / 2 ^ (-count : ℤ) =
      ((m₁ <<< count) / m₂ : ℕ) + ((m₁ <<< count) % m₂ : ℕ) / m₂ := by
    rw [zpow_neg, div_inv_eq_mul, zpow_natCast, add_div' _ _ _ hden, div_mul_eq_mul_div,
      mul_comm _ (m₂ : ℚ), ← hsplit, Nat.shiftLeft_eq]
    push_cast
    rfl
  unfold Approximates
  rw [hvalue]
  exact hfraction

/-- A quotient has at least as many bits as the lengths of its operands tell. -/
theorem log2_quotient {m₁ m₂ : ℕ} (hm₁ : 0 < m₁) (hm₂ : 0 < m₂) (count : ℕ) :
    m₁.log2 + count ≤ ((m₁ <<< count) / m₂).log2 + m₂.log2 + 1 := by
  have hlower : 2 ^ (m₁.log2 + count) ≤ m₁ <<< count := by
    rw [Nat.shiftLeft_eq, Nat.pow_add]
    exact Nat.mul_le_mul_right _ (Nat.log2_self_le hm₁.ne')
  have hquotient : (m₁ <<< count) / m₂ + 1 ≤ 2 ^ (((m₁ <<< count) / m₂).log2 + 1) :=
    Nat.lt_log2_self
  have hupper : m₁ <<< count < 2 ^ (((m₁ <<< count) / m₂).log2 + 1) * 2 ^ (m₂.log2 + 1) :=
    calc m₁ <<< count < ((m₁ <<< count) / m₂ + 1) * m₂ := by
          rw [Nat.add_mul, Nat.one_mul]
          exact Nat.lt_div_mul_add hm₂
      _ ≤ _ := Nat.mul_le_mul hquotient Nat.lt_log2_self.le
  rw [← Nat.pow_add] at hupper
  have hlt := (Nat.pow_lt_pow_iff_right (by decide)).mp (hlower.trans_lt hupper)
  omega

theorem div_eq (format : Format) {m₁ m₂ : ℕ} (hm₁ : 0 < m₁) (hm₂ : 0 < m₂) :
    ∃ rounded unit, IsNearest format (m₁ / m₂ : ℚ) rounded unit ∧
      div format (.finite .positive m₁ 0 hm₁) (.finite .positive m₂ 0 hm₂) =
        settle format .positive rounded unit := by
  have hcore : divCore format m₁ 0 m₂ 0 =
      (let wanted := min (0 - 0) (format.targetExponent
        (Float.Model.totalExponent m₁ 0 - Float.Model.totalExponent m₂ 0))
      ((m₁ <<< (0 - 0 - wanted).toNat) / m₂, wanted,
        accuracyOfFraction ((m₁ <<< (0 - 0 - wanted).toNat) % m₂) m₂)) := rfl
  generalize hwanted : min (0 - 0) (format.targetExponent
    (Float.Model.totalExponent m₁ 0 - Float.Model.totalExponent m₂ 0)) = wanted at hcore
  obtain ⟨count, rfl⟩ : ∃ count : ℕ, wanted = -count := ⟨(-wanted).toNat, by omega⟩
  have hcount : (0 - 0 - (-count : ℤ)).toNat = count := by omega
  simp only [hcount] at hcore
  have hlog := log2_quotient hm₁ hm₂ count
  obtain ⟨rounded, unit, hnearest, hround⟩ :=
    roundWithAccuracy_eq format .positive (approximates_quotient m₁ hm₂ count) (by
      unfold Format.targetExponent Float.Model.totalExponent at hwanted ⊢
      omega)
  refine ⟨rounded, unit, hnearest, ?_⟩
  change (match divCore format m₁ 0 m₂ 0 with
    | (m, e, accuracy) => roundWithAccuracy format .positive m e accuracy) = _
  rw [hcore]
  exact hround

theorem mul_eq (format : Format) {m₁ m₂ : ℕ} {exponent : ℤ} (hm₁ : 0 < m₁) (hm₂ : 0 < m₂)
    (hbits : exponent ≤ format.targetExponent (Float.Model.totalExponent (m₁ * m₂) exponent)) :
    ∃ rounded unit, IsNearest format ((m₁ * m₂ : ℕ) * 2 ^ exponent : ℚ) rounded unit ∧
      mul format (.finite .positive m₁ exponent hm₁) (.finite .positive m₂ 0 hm₂) =
        settle format .positive rounded unit := by
  have hzero : exponent + 0 = exponent := add_zero exponent
  obtain ⟨rounded, unit, hnearest, hround⟩ :=
    roundWithAccuracy_eq format .positive (approximates_exact (m₁ * m₂) exponent) hbits
  refine ⟨rounded, unit, hnearest, ?_⟩
  change roundWithAccuracy format .positive (m₁ * m₂) (exponent + 0) .exact = _
  rw [hzero]
  exact hround

end Quotient

/-! ## Decimals -/

section Decimal

variable {format : Format} {digits : ℕ} {power : ℤ}

/-- A whole decimal, moved up by the bits of a mantissa before it is multiplied. -/
theorem ofScientific_whole (format : Format) (hdigits : 0 < digits) (count : ℕ)
    (hshift : 0 < digits <<< format.mantissaBits) (hten : 0 < 10 ^ count) :
    ∃ rounded unit, IsNearest format (digits * 10 ^ (count : ℤ) : ℚ) rounded unit ∧
      mul format
        (.finite .positive (digits <<< format.mantissaBits) (-format.mantissaBits) hshift)
          (.finite .positive (10 ^ count) 0 hten) =
        settle format .positive rounded unit := by
  have hvalue : (((digits <<< format.mantissaBits) * 10 ^ count : ℕ) : ℚ) *
      2 ^ (-format.mantissaBits : ℤ) = digits * 10 ^ (count : ℤ) := by
    rw [Nat.shiftLeft_eq, zpow_neg, zpow_natCast, zpow_natCast]
    push_cast
    field_simp
  have hlog : format.mantissaBits ≤ ((digits <<< format.mantissaBits) * 10 ^ count).log2 := by
    rw [Nat.le_log2 (Nat.mul_pos hshift hten).ne', Nat.shiftLeft_eq]
    calc 2 ^ format.mantissaBits = 1 * 2 ^ format.mantissaBits * 1 := by ring
      _ ≤ digits * 2 ^ format.mantissaBits * 10 ^ count :=
        Nat.mul_le_mul (Nat.mul_le_mul_right _ hdigits) hten
  rw [← hvalue]
  refine mul_eq format hshift hten ?_
  unfold Format.targetExponent Float.Model.totalExponent
  omega

/-- A decimal is zero, out of the reach of the format, or rounded to the nearest number. -/
theorem ofScientific_cases (format : Format) (digits : ℕ) (power : ℤ) :
    (digits = 0 ∧ ofScientific format digits power = .zero .positive) ∨
    (0 < digits ∧ (2 : ℤ) ^ format.exponentBits < power ∧
      ofScientific format digits power = .infinity .positive) ∨
    (0 < digits ∧ power < -((2 : ℤ) ^ format.exponentBits + digits.log2) ∧
      ofScientific format digits power = .zero .positive) ∨
    ∃ rounded unit, IsNearest format (digits * 10 ^ power : ℚ) rounded unit ∧
      ofScientific format digits power = settle format .positive rounded unit := by
  by_cases hzero : digits = 0
  · exact .inl ⟨hzero, dif_pos hzero⟩
  have hdigits := Nat.pos_of_ne_zero hzero
  by_cases hlarge : power > 2 ^ format.exponentBits
  · exact .inr (.inl ⟨hdigits, hlarge, (dif_neg hzero).trans (if_pos hlarge)⟩)
  by_cases hsmall : power < -((2 ^ format.exponentBits : ℤ) + digits.log2)
  · exact .inr (.inr (.inl
      ⟨hdigits, hsmall, (dif_neg hzero).trans ((if_neg hlarge).trans (if_pos hsmall))⟩))
  have hopen : ofScientific format digits power = if 0 ≤ power then _ else _ :=
    (dif_neg hzero).trans ((if_neg hlarge).trans (if_neg hsmall))
  right; right; right
  by_cases hsign : 0 ≤ power
  · have hcount : (power.toNat : ℤ) = power := Int.toNat_of_nonneg hsign
    obtain ⟨rounded, unit, hnearest, hmul⟩ :=
      ofScientific_whole format hdigits power.toNat (by rw [Nat.shiftLeft_eq]; positivity)
        (by positivity)
    rw [hcount] at hnearest
    rw [if_pos hsign] at hopen
    exact ⟨rounded, unit, hnearest, hopen.trans hmul⟩
  · have hcount : ((-power).toNat : ℤ) = -power := Int.toNat_of_nonneg (by omega)
    have hten : 0 < 10 ^ (-power).toNat := by positivity
    obtain ⟨rounded, unit, hnearest, hdiv⟩ := div_eq format hdigits hten
    have hvalue : (digits / (10 ^ (-power).toNat : ℕ) : ℚ) = digits * 10 ^ power := by
      rw [Nat.cast_pow, ← zpow_natCast, hcount, zpow_neg, div_inv_eq_mul]
      rfl
    rw [hvalue] at hnearest
    rw [if_neg hsign] at hopen
    exact ⟨rounded, unit, hnearest, hopen.trans hdiv⟩

/-- What is read is rounded to the format. -/
theorem ofScientific_canonical (format : Format) (digits : ℕ) (power : ℤ) :
    Canonical format (ofScientific format digits power) := by
  obtain ⟨-, heq⟩ | ⟨-, -, heq⟩ | ⟨-, -, heq⟩ | ⟨rounded, unit, hnearest, heq⟩ :=
    ofScientific_cases format digits power <;> rw [heq]
  · trivial
  · trivial
  · trivial
  · exact settle_canonical hnearest

/-- What is read is at most half its unit away from the decimal. -/
theorem ofScientific_near {sign : Sign} {mantissa : ℕ} {exponent : ℤ} {hpos : 0 < mantissa}
    (hread : ofScientific format digits power = .finite sign mantissa exponent hpos) :
    sign = .positive ∧
    |(mantissa * 2 ^ exponent - digits * 10 ^ power : ℚ)| ≤ 2 ^ exponent / 2 := by
  obtain ⟨-, heq⟩ | ⟨-, -, heq⟩ | ⟨-, -, heq⟩ | ⟨rounded, unit, hnearest, heq⟩ :=
    ofScientific_cases format digits power <;> rw [heq] at hread
  · cases hread
  · cases hread
  · cases hread
  · exact ⟨settle_sign hread, settle_near hnearest hread⟩

/-! ### Decimals within reach -/

section Reach

variable {mantissa : ℕ} {exponent : ℤ} {hpos : 0 < mantissa}

theorem pos_of_near (hpos : 0 < mantissa)
    (hnear : |(digits * 10 ^ power - mantissa * 2 ^ exponent : ℚ)| < 2 ^ exponent / 4) :
    2 ^ (exponent - 1) ≤ (digits * 10 ^ power : ℚ) := by
  have hunit : (0 : ℚ) < 2 ^ exponent := by positivity
  have hone : (1 : ℚ) ≤ mantissa := by exact_mod_cast hpos
  have hscaled := mul_le_mul_of_nonneg_right hone hunit.le
  have hbelow := (abs_lt.mp hnear).1
  rw [zpow_sub_one₀ (by norm_num)]
  linarith

theorem lt_of_near (hupper : mantissa < 2 ^ format.mantissaBits)
    (hnear : |(digits * 10 ^ power - mantissa * 2 ^ exponent : ℚ)| < 2 ^ exponent / 4) :
    (digits * 10 ^ power : ℚ) < 2 ^ (exponent + format.mantissaBits) := by
  have hunit : (0 : ℚ) < 2 ^ exponent := by positivity
  have hcast : (mantissa : ℚ) + 1 ≤ 2 ^ format.mantissaBits := by exact_mod_cast hupper
  have hscaled := mul_le_mul_of_nonneg_right hcast hunit.le
  have habove := (abs_lt.mp hnear).2
  rw [zpow_add₀ (by norm_num), zpow_natCast]
  linarith

/-- The power of ten of a decimal that is below `2 ^ bound` is at most `bound`. -/
theorem power_le_of_lt (hdigits : 0 < digits) {bound : ℤ} (hbound : 0 ≤ bound)
    (hlt : (digits * 10 ^ power : ℚ) < 2 ^ bound) : power ≤ bound := by
  by_contra hgt
  have hone : (1 : ℚ) ≤ digits := by exact_mod_cast hdigits
  have hbase : (2 : ℚ) ^ power ≤ 10 ^ power :=
    zpow_le_zpow_left₀ (by omega) (by norm_num) (by norm_num)
  have hmono : (2 : ℚ) ^ bound ≤ 2 ^ power := zpow_le_zpow_right₀ (by norm_num) (by omega)
  have hten : (0 : ℚ) < 10 ^ power := by positivity
  have hscaled := mul_le_mul_of_nonneg_right hone hten.le
  linarith

/-- The digits of a decimal that is not below `2 ^ bound` make up for its power of ten. -/
theorem power_ge_of_le (hsign : power ≤ 0) {bound : ℤ}
    (hle : 2 ^ bound ≤ (digits * 10 ^ power : ℚ)) : bound ≤ digits.log2 + 3 * power := by
  have hlog : (digits : ℚ) < 2 ^ ((digits.log2 : ℤ) + 1) := by exact_mod_cast Nat.lt_log2_self
  have hten : (0 : ℚ) < 10 ^ power := by positivity
  have hbase : (10 : ℚ) ^ power ≤ 2 ^ (3 * power) := by
    obtain ⟨count, rfl⟩ :=
      Int.eq_ofNat_of_zero_le (neg_nonneg.mpr hsign) |>.imp fun _ => neg_eq_iff_eq_neg.mp
    rw [zpow_mul, zpow_neg, zpow_neg]
    exact inv_anti₀ (by positivity) (zpow_le_zpow_left₀ (by omega) (by norm_num) (by norm_num))
  have hlt : (2 : ℚ) ^ bound < 2 ^ ((digits.log2 : ℤ) + 1 + 3 * power) :=
    calc (2 : ℚ) ^ bound ≤ digits * 10 ^ power := hle
      _ < 2 ^ ((digits.log2 : ℤ) + 1) * 10 ^ power := mul_lt_mul_of_pos_right hlog hten
      _ ≤ 2 ^ ((digits.log2 : ℤ) + 1) * 2 ^ (3 * power) :=
        mul_le_mul_of_nonneg_left hbase (by positivity)
      _ = _ := (zpow_add₀ (by norm_num) _ _).symm
  have hexponent := (zpow_lt_zpow_iff_right₀ (by norm_num : (1 : ℚ) < 2)).mp hlt
  omega

end Reach

/-- A decimal less than a quarter of its unit away from a number of the format is read
as that number. -/
theorem ofScientific_eq_of_near {mantissa : ℕ} {exponent : ℤ} {hpos : 0 < mantissa}
    (hwide : format.mantissaBits ≤ 2 ^ format.exponentBits)
    (hcanonical : Canonical format (.finite .positive mantissa exponent hpos))
    (hrange : exponent ≤ maxExponent format)
    (hnear : |(digits * 10 ^ power - mantissa * 2 ^ exponent : ℚ)| < 2 ^ exponent / 4) :
    ofScientific format digits power = .finite .positive mantissa exponent hpos := by
  have hlower := pos_of_near hpos hnear
  have hupper := lt_of_near hcanonical.1 hnear
  have hmin := hcanonical.2.1
  have hcapacity : (2 : ℤ) ^ format.exponentBits = 2 * format.exponentBias + 2 := by
    exact_mod_cast two_pow_exponentBits format
  have hwidth : format.mantissaBits = 1 + format.mantissaBitsWithoutImplicit := rfl
  have hwide' : (format.mantissaBits : ℤ) ≤ 2 ^ format.exponentBits := by exact_mod_cast hwide
  rw [minExponent_eq] at hmin
  unfold maxExponent at hrange
  -- The decimal is of the size of a number of the format, so it is neither zero nor out
  -- of reach.
  obtain ⟨hzero, -⟩ | ⟨hdigits, hlarge, -⟩ | ⟨hdigits, hsmall, -⟩
    | ⟨rounded, unit, hnearest, heq⟩ :=
    ofScientific_cases format digits power
  · rw [hzero, Nat.cast_zero, zero_mul] at hlower
    have hunit : (0 : ℚ) < 2 ^ (exponent - 1) := by positivity
    exact absurd hlower hunit.not_ge
  · have hbound : power ≤ 2 ^ format.exponentBits := power_le_of_lt hdigits (by positivity)
      (hupper.trans_le (zpow_le_zpow_right₀ (by norm_num) (by omega)))
    exact absurd hlarge hbound.not_gt
  · have hbound := power_ge_of_le (by omega : power ≤ 0) hlower
    omega
  · rw [heq]
    exact settle_eq_of_near hnearest hcanonical hnear

end Decimal

end SecantDescent.Parts
