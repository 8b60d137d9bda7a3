-- Decimals. One that lies in the interval of a number is read as that number, and the shortest
-- decimal that is looked for lies in that interval: with seventeen digits there is always one.
import TickScript.Proofs.Rounding

namespace TickScript.Number

open Float.Model UnpackedFloat

/-! ## Products and quotients -/

section

variable {m₁ m₂ m : ℕ} {e₁ e₂ e : ℤ} (h₁ : 0 < m₁) (h₂ : 0 < m₂) (hfits : Fits m e)

include hfits

/-- A product with a long mantissa is rounded to the nearest number. -/
theorem mul_eq_ofParts (hlong : 2 ^ 52 ≤ m₁) (hq : RoundsTo (scaled m₁ e₁ * scaled m₂ e₂) m e) :
    UnpackedFloat.mul .binary64 (.finite .positive m₁ e₁ h₁) (.finite .positive m₂ e₂ h₂) =
      ofParts .positive m e := by
  have hexact : Describes .exact
      (scaled m₁ e₁ * scaled m₂ e₂ / 2 ^ (e₁ + e₂) - (m₁ * m₂ : ℕ)) := by
    have hne := (two_zpow_pos (e₁ + e₂)).ne'
    rw [Describes, sub_eq_zero, div_eq_iff hne, zpow_add₀ (by norm_num), scaled, scaled]
    push_cast
    ring
  refine roundWithAccuracy_eq_ofParts hexact ?_ .positive hfits hq
  have hlog : 52 ≤ (m₁ * m₂).log2 :=
    (Nat.le_log2 (Nat.mul_pos h₁ h₂).ne').mpr (hlong.trans (Nat.le_mul_of_pos_right m₁ h₂))
  rw [targetExponent_binary64]
  omega

omit hfits in
theorem describes_accuracyOfFraction {num den : ℕ} (h : num < den) :
    Describes (accuracyOfFraction num den) (num / den) := by
  have hden : (0 : ℚ) < den := Nat.cast_pos.mpr (Nat.zero_lt_of_lt h)
  have hlt : (num : ℚ) < den := Nat.cast_lt.mpr h
  unfold accuracyOfFraction
  split
  · rename_i hzero
    rw [hzero, Describes]
    simp
  · rename_i hpos
    have hnum : (0 : ℚ) < num := Nat.cast_pos.mpr (Nat.pos_of_ne_zero hpos)
    rcases lt_trichotomy (2 * num) den with hless | heq | hmore
    · rw [compare_lt_iff_lt.mpr hless]
      have hhalf : (2 * num : ℚ) < den := by exact_mod_cast hless
      refine ⟨by positivity, ?_⟩
      rw [div_lt_div_iff₀ hden (by norm_num)]
      linarith
    · rw [compare_eq_iff_eq.mpr heq, Describes, ← heq]
      push_cast
      field_simp
    · rw [compare_gt_iff_gt.mpr hmore]
      have hhalf : (den : ℚ) < 2 * num := by exact_mod_cast hmore
      refine ⟨?_, (div_lt_one hden).mpr hlt⟩
      rw [div_lt_div_iff₀ (by norm_num) hden]
      linarith

include h₁ h₂ in
omit hfits in
/-- The quotient of mantissas is taken with so many bits that none is missing. -/
theorem le_targetExponent_quotient {t : ℤ} {k : ℕ} (hk : e₁ - e₂ = t + k)
    (ht : t ≤ max (m₁.log2 + e₁ - (m₂.log2 + e₂) - 53) (-1074)) :
    t ≤ Format.binary64.targetExponent (totalExponent (m₁ <<< k / m₂) t) := by
  rw [targetExponent_binary64]
  rcases le_max_iff.mp ht with hbits | hleast
  · -- A quotient has at most one bit less than the difference of the bits.
    have hlog : m₁.log2 + k - (m₂.log2 + 1) ≤ (m₁ <<< k / m₂).log2 := by
      have hlow : 2 ^ (m₁.log2 + k) ≤ m₁ <<< k := by
        rw [pow_add, Nat.shiftLeft_eq]
        exact Nat.mul_le_mul_right _ (Nat.log2_self_le h₁.ne')
      have hhigh : m₂ ≤ 2 ^ (m₂.log2 + 1) := Nat.lt_log2_self.le
      have hquotient : 2 ^ (m₁.log2 + k - (m₂.log2 + 1)) ≤ m₁ <<< k / m₂ := by
        rw [Nat.le_div_iff_mul_le h₂]
        calc 2 ^ (m₁.log2 + k - (m₂.log2 + 1)) * m₂
            ≤ 2 ^ (m₁.log2 + k - (m₂.log2 + 1)) * 2 ^ (m₂.log2 + 1) :=
              Nat.mul_le_mul_left _ hhigh
          _ = 2 ^ (m₁.log2 + k) := by
              rw [← pow_add]
              congr 1
              omega
          _ ≤ m₁ <<< k := hlow
      have hpos := lt_of_lt_of_le (Nat.two_pow_pos _) hquotient
      exact (Nat.le_log2 (Nat.ne_of_gt hpos)).mpr hquotient
    omega
  · omega

/-- A quotient is rounded to the nearest number. -/
theorem div_eq_ofParts (hq : RoundsTo (scaled m₁ e₁ / scaled m₂ e₂) m e) :
    UnpackedFloat.div .binary64 (.finite .positive m₁ e₁ h₁) (.finite .positive m₂ e₂ h₂) =
      ofParts .positive m e := by
  let t := min (e₁ - e₂)
    (Format.binary64.targetExponent (totalExponent m₁ e₁ - totalExponent m₂ e₂))
  let k := (e₁ - e₂ - t).toNat
  have hk : e₁ - e₂ = t + k := by omega
  have hmin : Format.binary64.minExponent = -1074 := rfl
  have hbits : (Format.binary64.mantissaBits : ℤ) = 53 := rfl
  have ht : t ≤ max (m₁.log2 + e₁ - (m₂.log2 + e₂) - 53) (-1074) := by
    refine (min_le_right _ _).trans ?_
    unfold Format.targetExponent totalExponent
    rw [hmin, hbits]
    omega
  have hm₂ : (m₂ : ℚ) ≠ 0 := Nat.cast_ne_zero.mpr h₂.ne'
  have hfraction : Describes (accuracyOfFraction (m₁ <<< k % m₂) m₂)
      (scaled m₁ e₁ / scaled m₂ e₂ / 2 ^ t - (m₁ <<< k / m₂ : ℕ)) := by
    have hscale : scaled m₁ e₁ / scaled m₂ e₂ / 2 ^ t = (m₁ <<< k : ℕ) / m₂ := by
      have he₁ : e₁ = t + k + e₂ := by omega
      rw [he₁, scaled, scaled, zpow_add₀ (by norm_num), zpow_add₀ (by norm_num), zpow_natCast,
        Nat.shiftLeft_eq]
      push_cast
      field_simp
    have hsplit : ((m₁ <<< k : ℕ) : ℚ) = m₂ * (m₁ <<< k / m₂ : ℕ) + (m₁ <<< k % m₂ : ℕ) := by
      exact_mod_cast (Nat.div_add_mod (m₁ <<< k) m₂).symm
    have hrest : scaled m₁ e₁ / scaled m₂ e₂ / 2 ^ t - (m₁ <<< k / m₂ : ℕ) =
        (m₁ <<< k % m₂ : ℕ) / m₂ := by
      rw [hscale, hsplit]
      field_simp
      ring
    rw [hrest]
    exact describes_accuracyOfFraction (Nat.mod_lt _ h₂)
  exact roundWithAccuracy_eq_ofParts hfraction (le_targetExponent_quotient h₁ h₂ hk ht) .positive
    hfits hq

end

/-! ## Reading decimals -/

/-- A power of ten is held exactly if that of five fits into the mantissa. -/
def tenTo (n : ℕ) : UnpackedFloat :=
  .finite .positive (mantissaOf (5 ^ n)) (n - (52 - (5 ^ n).log2 : ℕ))
    (mantissaOf_pos (by positivity))

theorem exactlyRepresentablePowersOfTen_eq : ∀ n : Fin 23,
    Float.exactlyRepresentablePowersOfTen[n] = .ofModel (.pack (tenTo n)) := by
  decide

theorem unpack_powerOfTen {n : ℕ} (hn : n ≤ 22)
    (h : n < Float.exactlyRepresentablePowersOfTen.size) :
    (Float.exactlyRepresentablePowersOfTen[n]).toModel.unpack = tenTo n := by
  have hshort : 5 ^ n < 2 ^ 53 :=
    lt_of_le_of_lt (Nat.pow_le_pow_right (by norm_num) hn) (by norm_num)
  have hlog := log2_mantissaOf (by positivity) ((Nat.log2_lt (by positivity)).mpr hshort)
  have htable := exactlyRepresentablePowersOfTen_eq ⟨n, by omega⟩
  change Float.exactlyRepresentablePowersOfTen[n] = _ at htable
  rw [htable]
  exact unpack_pack hlog _ (by omega) (by omega) .positive

theorem scaled_powerOfTen (n : ℕ) :
    scaled (mantissaOf (5 ^ n)) (n - (52 - (5 ^ n).log2 : ℕ)) = 10 ^ n := by
  rw [mantissaOf, scaled_shiftLeft, scaled, zpow_natCast]
  push_cast
  rw [← mul_pow]
  norm_num

theorem scaled_mantissaOf {n : ℕ} (hlog : n.log2 < 53) :
    scaled (mantissaOf n) (n.log2 - 52) = n := by
  have hshift : (n.log2 - 52 : ℤ) = 0 - (52 - n.log2 : ℕ) := by omega
  rw [hshift, mantissaOf, scaled_shiftLeft, scaled, zpow_zero, mul_one]

/-- What is rounded to a number that is not zero is not too small. -/
theorem RoundsTo.ge {q : ℚ} {m : ℕ} {e : ℤ} (hq : RoundsTo q m e) (hm : m ≠ 0) (h : Fits m e) :
    2 ^ (-1074 : ℤ) / 2 ≤ q := by
  have hlow := hq.low
  have hgap := gapBelow_le m e
  have hleast : (2 : ℚ) ^ (-1074 : ℤ) ≤ 2 ^ e := zpow_le_zpow_right₀ (by norm_num) h.least
  have hone : (2 : ℚ) ^ e ≤ scaled m e :=
    le_mul_of_one_le_left (two_zpow_pos e).le (Nat.one_le_cast.mpr (Nat.one_le_iff_ne_zero.mpr hm))
  generalize (2 : ℚ) ^ (-1074 : ℤ) = least at hleast ⊢
  linarith

/-- What is rounded to a number is not too large. -/
theorem RoundsTo.lt {q : ℚ} {m : ℕ} {e : ℤ} (hq : RoundsTo q m e) (h : Fits m e) (he : e ≤ 971) :
    q < 2 ^ (53 + 971) := by
  have hmost : (2 : ℚ) ^ e ≤ 2 ^ 971 := by
    rw [← zpow_natCast]
    exact zpow_le_zpow_right₀ (by norm_num) he
  have hm : ((m + 1 : ℕ) : ℚ) ≤ 2 ^ 53 := by exact_mod_cast h.lt
  calc q ≤ scaled m e + 2 ^ e / 2 := hq.high
    _ < scaled (m + 1) e := by
        rw [scaled_succ]
        linarith [two_zpow_pos e]
    _ ≤ 2 ^ 53 * 2 ^ 971 := mul_le_mul hm hmost (two_zpow_pos e).le (by positivity)
    _ = 2 ^ (53 + 971) := (pow_add 2 53 971).symm

section

variable {digits m : ℕ} {exponent e : ℤ} (hfits : Fits m e) (he : e ≤ 971) (hm : m ≠ 0)
  (hq : RoundsTo (digits * 10 ^ exponent) m e)

include hfits hm hq

theorem digits_ne_zero : digits ≠ 0 := by
  rintro rfl
  have hge := hq.ge hm hfits
  rw [Nat.cast_zero, zero_mul] at hge
  exact absurd hge (not_le.mpr (half_pos (two_zpow_pos _)))

theorem not_tooSmall : ¬ exponent < -(2 ^ 11 + digits.log2 : ℤ) := by
  intro hsmall
  obtain ⟨n, hn⟩ : ∃ n : ℕ, exponent = -(n : ℤ) := ⟨exponent.natAbs, by omega⟩
  have hdigits : (digits : ℚ) < 2 ^ (digits.log2 + 1) := by exact_mod_cast Nat.lt_log2_self
  have hlt : (digits : ℚ) * 10 ^ exponent < 2 ^ (-1074 : ℤ) / 2 := by
    rw [hn, zpow_neg, zpow_natCast, ← div_eq_mul_inv, div_lt_iff₀ (by positivity)]
    calc (digits : ℚ) < 2 ^ (digits.log2 + 1) := hdigits
      _ ≤ 2 ^ (3 * n + (-1074) - 1 : ℤ) := by
          rw [← zpow_natCast]
          exact zpow_le_zpow_right₀ (by norm_num) (by omega)
      _ = 2 ^ (-1074 : ℤ) / 2 * 8 ^ n := by
          have hpower : (8 : ℚ) ^ n = 2 ^ (3 * n : ℤ) := by
            rw [zpow_mul]
            norm_num
          rw [hpower, zpow_sub₀ (by norm_num), zpow_add₀ (by norm_num), zpow_one]
          generalize (2 : ℚ) ^ (-1074 : ℤ) = least
          ring
      _ ≤ 2 ^ (-1074 : ℤ) / 2 * 10 ^ n :=
          -- Each power of ten is more than three of two.
          mul_le_mul_of_nonneg_left (pow_le_pow_left₀ (by norm_num) (by norm_num) n)
            (half_pos (two_zpow_pos _)).le
  exact absurd (hq.ge hm hfits) (not_le.mpr hlt)

include he

theorem not_tooLarge : ¬ exponent > 2 ^ 11 := by
  intro hlarge
  obtain ⟨n, rfl⟩ : ∃ n : ℕ, exponent = n := ⟨exponent.toNat, by omega⟩
  have hone : (1 : ℚ) ≤ digits :=
    Nat.one_le_cast.mpr (Nat.one_le_iff_ne_zero.mpr (digits_ne_zero hfits hm hq))
  have hge : (2 : ℚ) ^ (53 + 971) ≤ digits * 10 ^ (n : ℤ) := by
    calc (2 : ℚ) ^ (53 + 971) ≤ 2 ^ n := pow_le_pow_right₀ (by norm_num) (by omega)
      _ ≤ 10 ^ n := pow_le_pow_left₀ (by norm_num) (by norm_num) n
      _ ≤ digits * 10 ^ (n : ℤ) := by
          rw [zpow_natCast]
          exact le_mul_of_one_le_left (by positivity) hone
  exact absurd (hq.lt hfits he) (not_lt.mpr hge)

/-- The way of large digits or exponents. -/
theorem ofScientific_eq_ofParts :
    UnpackedFloat.ofScientific .binary64 digits exponent = ofParts .positive m e := by
  have hdigits := digits_ne_zero hfits hm hq
  unfold UnpackedFloat.ofScientific
  rw [dif_neg hdigits, if_neg (not_tooLarge hfits he hm hq), if_neg (not_tooSmall hfits hm hq)]
  split
  · rename_i hexponent
    have hlong : 2 ^ 52 ≤ digits <<< 53 := by
      rw [Nat.shiftLeft_eq]
      have := Nat.one_le_iff_ne_zero.mpr hdigits
      omega
    refine mul_eq_ofParts _ _ hfits hlong ?_
    have hfirst := scaled_shiftLeft digits 53 0
    rw [zero_sub] at hfirst
    have hvalue : scaled (digits <<< 53) (-(53 : ℕ)) * scaled (10 ^ exponent.toNat) 0 =
        digits * 10 ^ exponent := by
      rw [hfirst, scaled, scaled, zpow_zero, mul_one, mul_one]
      push_cast
      rw [← zpow_natCast, Int.toNat_of_nonneg hexponent]
    exact hvalue ▸ hq
  · rename_i hexponent
    refine div_eq_ofParts _ _ hfits ?_
    have hvalue : scaled digits 0 / scaled (10 ^ (-exponent).toNat) 0 = digits * 10 ^ exponent := by
      rw [scaled, scaled, zpow_zero, mul_one, mul_one]
      push_cast
      rw [← zpow_natCast, Int.toNat_of_nonneg (by omega), zpow_neg, div_inv_eq_mul]
    exact hvalue ▸ hq

/-- The way of small digits and exponents, which goes through numbers that are exact. -/
theorem unpack_ofDecimal_of_small (hshort : digits < 2 ^ 53) (hsmall : exponent.natAbs ≤ 22) :
    (ofDecimal digits exponent).toModel.unpack = ofParts .positive m e := by
  have hdigits := Nat.pos_of_ne_zero (digits_ne_zero hfits hm hq)
  have hlog : digits.log2 < 53 := (Nat.log2_lt hdigits.ne').mpr hshort
  have hfirst := unpack_toFloat hdigits hlog hshort
  have hsecond := unpack_powerOfTen hsmall
    (lt_of_le_of_lt hsmall (by decide : 22 < Float.exactlyRepresentablePowersOfTen.size))
  have hback := unpack_pack_ofParts hfits .positive
  rw [if_pos he] at hback
  unfold ofDecimal Float.ofScientific
  rw [dif_pos ⟨hshort, hsmall⟩]
  dsimp only
  split
  · rename_i hnegative
    rw [decide_eq_true_eq] at hnegative
    have hvalue : scaled (mantissaOf digits) (digits.log2 - 52) /
        scaled (mantissaOf (5 ^ exponent.natAbs))
          (exponent.natAbs - (52 - (5 ^ exponent.natAbs).log2 : ℕ)) = digits * 10 ^ exponent := by
      have hexponent : exponent = -(exponent.natAbs : ℤ) := by omega
      rw [scaled_mantissaOf hlog, scaled_powerOfTen]
      conv_rhs => rw [hexponent, zpow_neg, zpow_natCast]
      exact div_eq_mul_inv _ _
    rw [← hback]
    change Float.Model.unpack (.pack (UnpackedFloat.div .binary64 _ _)) = _
    rw [hfirst, hsecond, tenTo, div_eq_ofParts _ _ hfits (hvalue ▸ hq)]
  · rename_i hpositive
    rw [decide_eq_true_eq] at hpositive
    have hvalue : scaled (mantissaOf digits) (digits.log2 - 52) *
        scaled (mantissaOf (5 ^ exponent.natAbs))
          (exponent.natAbs - (52 - (5 ^ exponent.natAbs).log2 : ℕ)) = digits * 10 ^ exponent := by
      have hexponent : exponent = (exponent.natAbs : ℤ) := by omega
      rw [scaled_mantissaOf hlog, scaled_powerOfTen]
      conv_rhs => rw [hexponent, zpow_natCast]
    rw [← hback]
    change Float.Model.unpack (.pack (UnpackedFloat.mul .binary64 _ _)) = _
    rw [hfirst, hsecond, tenTo, mul_eq_ofParts _ _ hfits _ (hvalue ▸ hq)]
    have hbits := log2_mantissaOf hdigits hlog
    exact ((Nat.log2_eq_iff (mantissaOf_pos hdigits).ne').mp hbits).1

/-- A decimal is read as the number that it is rounded to. -/
theorem unpack_ofDecimal :
    (ofDecimal digits exponent).toModel.unpack = ofParts .positive m e := by
  by_cases hsmall : digits < 2 ^ 53 ∧ exponent.natAbs ≤ 22
  · exact unpack_ofDecimal_of_small hfits he hm hq hsmall.1 hsmall.2
  · have hexponent : (if (decide (exponent < 0)) = true then Int.negOfNat exponent.natAbs
        else Int.ofNat exponent.natAbs) = exponent := by
      split
      · rename_i hnegative
        rw [decide_eq_true_eq] at hnegative
        rw [Int.negOfNat_eq, Int.ofNat_eq_natCast]
        omega
      · rename_i hpositive
        rw [decide_eq_true_eq] at hpositive
        rw [Int.ofNat_eq_natCast]
        omega
    have hback := unpack_pack_ofParts hfits .positive
    rw [if_pos he] at hback
    unfold ofDecimal Float.ofScientific
    rw [dif_neg hsmall]
    dsimp only
    rw [hexponent, Float.Model.ofScientific, ofScientific_eq_ofParts hfits he hm hq]
    exact hback

end

/-! ## The interval of a number -/

/-- The value of a decimal. -/
def Decimal.value (d : Decimal) : ℚ := d.digits * 10 ^ d.exponent

/-- One of the two powers is one. -/
theorem zpow_eq_div (b : ℚ) (e : ℤ) : b ^ e = b ^ e.toNat / b ^ (-e).toNat := by
  obtain ⟨n, rfl | rfl⟩ := e.eq_nat_or_neg
  · simp
  · simp [div_eq_mul_inv]

theorem Decimal.value_eq (d : Decimal) : d.value = d.fraction.1 / d.fraction.2 := by
  unfold value fraction
  rw [zpow_eq_div]
  simp only [Nat.pow_eq]
  push_cast
  exact mul_div_assoc _ _ _ |>.symm

theorem Decimal.fraction_snd_pos (d : Decimal) : (0 : ℚ) < d.fraction.2 := by
  unfold fraction
  simp only [Nat.pow_eq]
  positivity

namespace Neighbourhood

theorem denominator_pos (m : ℕ) (e : ℤ) : (0 : ℚ) < (of m e).denominator := by
  simp only [of, Nat.pow_eq]
  positivity

/-- Quarters of the unit, in the common denominator. -/
theorem shiftLeft_div_denominator (n m : ℕ) (e : ℤ) :
    ((n <<< (e - 2).toNat : ℕ) : ℚ) / (of m e).denominator = n * 2 ^ e / 4 := by
  have hsplit : (2 : ℚ) ^ e = 2 ^ (e - 2) * 4 := by
    rw [zpow_sub₀ (by norm_num)]
    norm_num
  have hneg : (2 - e).toNat = (-(e - 2)).toNat := by rw [neg_sub]
  simp only [of, Nat.pow_eq, hneg]
  rw [hsplit, Nat.shiftLeft_eq, zpow_eq_div 2 (e - 2)]
  push_cast
  ring

theorem value_div_denominator (m : ℕ) (e : ℤ) :
    ((of m e).value : ℚ) / (of m e).denominator = scaled m e := by
  have hvalue : (of m e).value = (4 * m) <<< (e - 2).toNat := rfl
  rw [hvalue, shiftLeft_div_denominator, scaled]
  push_cast
  ring

theorem high_div_denominator (m : ℕ) (e : ℤ) :
    ((of m e).high : ℚ) / (of m e).denominator = scaled m e + 2 ^ e / 2 := by
  have hhigh : (of m e).high = (4 * m + 2) <<< (e - 2).toNat := rfl
  rw [hhigh, shiftLeft_div_denominator, scaled]
  push_cast
  ring

theorem low_div_denominator {m : ℕ} (hm : m ≠ 0) (e : ℤ) :
    ((of m e).low : ℚ) / (of m e).denominator = scaled m e - gapBelow m e / 2 := by
  have hlow : (of m e).low =
      (4 * m - if m = 0x10000000000000 ∧ -1074 < e then 1 else 2) <<< (e - 2).toNat := rfl
  have hpower : (0x10000000000000 : ℕ) = 2 ^ 52 := by norm_num
  rw [hlow, shiftLeft_div_denominator, scaled, gapBelow, hpower]
  split
  · rw [Nat.cast_sub (by omega), two_zpow_eq e]
    push_cast
    ring
  · rw [Nat.cast_sub (by omega)]
    push_cast
    ring

/-- The test on whole numbers is that of the interval. -/
theorem contains_iff {m : ℕ} (hm : m ≠ 0) (e : ℤ) (d : Decimal) :
    (of m e).contains d = true ↔ RoundsTo d.value m e := by
  have hq := d.fraction_snd_pos
  have hd := denominator_pos m e
  have hlow : scaled m e - gapBelow m e / 2 ≤ d.value ↔
      (of m e).low * d.fraction.2 ≤ d.fraction.1 * (of m e).denominator := by
    rw [← low_div_denominator hm, d.value_eq, div_le_div_iff₀ hd hq]
    exact_mod_cast Iff.rfl
  have hhigh : d.value ≤ scaled m e + 2 ^ e / 2 ↔
      d.fraction.1 * (of m e).denominator ≤ (of m e).high * d.fraction.2 := by
    rw [← high_div_denominator, d.value_eq, div_le_div_iff₀ hq hd]
    exact_mod_cast Iff.rfl
  have hlow' : scaled m e - gapBelow m e / 2 < d.value ↔
      (of m e).low * d.fraction.2 < d.fraction.1 * (of m e).denominator := by
    rw [← low_div_denominator hm, d.value_eq, div_lt_div_iff₀ hd hq]
    exact_mod_cast Iff.rfl
  have hhigh' : d.value < scaled m e + 2 ^ e / 2 ↔
      d.fraction.1 * (of m e).denominator < (of m e).high * d.fraction.2 := by
    rw [← high_div_denominator, d.value_eq, div_lt_div_iff₀ hq hd]
    exact_mod_cast Iff.rfl
  have hclosed : (of m e).closed = decide (m % 2 = 0) := rfl
  unfold contains
  dsimp only
  rw [hclosed]
  rcases Nat.mod_two_eq_zero_or_one m with heven | hodd
  · simp only [heven, decide_true, ↓reduceIte, Bool.and_eq_true, decide_eq_true_eq]
    rw [← hlow, ← hhigh]
    exact ⟨fun h => ⟨h.1, h.2, fun hodd => by omega⟩, fun h => ⟨h.low, h.high⟩⟩
  · simp only [hodd, one_ne_zero, decide_false, Bool.false_eq_true, ↓reduceIte, Bool.and_eq_true,
      decide_eq_true_eq]
    rw [← hlow', ← hhigh']
    exact ⟨fun h => ⟨h.1.le, h.2.le, fun _ => h⟩, fun h => h.inside hodd⟩

/-! ## The search -/

/-- The decimal after one on the same grid. -/
def after (d : Decimal) : Decimal := { d with digits := d.digits + 1 }

theorem value_after (d : Decimal) : (after d).value = d.value + 10 ^ d.exponent := by
  unfold after Decimal.value
  push_cast
  ring

/-- The number lies between the two decimals that are tried. -/
theorem floorAt_bounds (m : ℕ) (e exponent : ℤ) :
    ((of m e).floorAt exponent).value ≤ scaled m e ∧
      scaled m e < (after ((of m e).floorAt exponent)).value := by
  have hten : (0 : ℚ) < 10 ^ exponent := zpow_pos (by norm_num) exponent
  have hratio : scaled m e / 10 ^ exponent =
      ((of m e).value * 10 ^ (-exponent).toNat : ℕ) /
        ((of m e).denominator * 10 ^ exponent.toNat : ℕ) := by
    rw [← value_div_denominator, zpow_eq_div 10 exponent]
    push_cast
    field_simp
  have hfloor : ((of m e).floorAt exponent).digits = ⌊scaled m e / 10 ^ exponent⌋₊ := by
    rw [hratio, Nat.floor_div_natCast, Nat.floor_natCast]
    rfl
  rw [value_after]
  have hnonneg : 0 ≤ scaled m e / 10 ^ exponent := div_nonneg (scaled_nonneg m e) hten.le
  have hexponent : ((of m e).floorAt exponent).exponent = exponent := rfl
  rw [Decimal.value, hfloor, hexponent]
  constructor
  · exact (le_div_iff₀ hten).mp (Nat.floor_le hnonneg)
  · have hlt := (div_lt_iff₀ hten).mp (Nat.lt_floor_add_one (scaled m e / 10 ^ exponent))
    linarith

/-- The search ends in the interval if a grid on its way has a point there. -/
theorem contains_search {n : Neighbourhood} {size : ℤ} {fuel count : ℕ}
    (h : ∃ k < fuel, n.contains (n.floorAt (size - (count + k : ℕ))) = true ∨
      n.contains (after (n.floorAt (size - (count + k : ℕ)))) = true) :
    n.contains (n.search size fuel count) = true := by
  induction fuel generalizing count with
  | zero =>
    obtain ⟨k, hk, -⟩ := h
    omega
  | succ fuel ih =>
    unfold search
    dsimp only
    split
    · rename_i hdown
      exact (Bool.and_eq_true_iff.mp hdown).1
    · rename_i hdown
      split
      · rename_i hup
        exact hup
      · rename_i hup
        apply ih
        obtain ⟨k, hk, hfound⟩ := h
        rcases k with _ | k
        · rw [Nat.add_zero] at hfound
          rcases hfound with hfound | hfound
          · simp [hfound, hup] at hdown
          · exact absurd hfound hup
        · refine ⟨k, by omega, ?_⟩
          rwa [Nat.add_assoc, Nat.add_comm 1 k]

end Neighbourhood

/-- A fraction that has a digit among the places that are tried is not below that digit. -/
theorem le_leadingZeros {fuel p q : ℕ} (h : q ≤ 10 ^ (fuel + 1) * p) :
    q ≤ 10 ^ (leadingZeros fuel p q + 1) * p := by
  induction fuel generalizing p with
  | zero => exact h
  | succ fuel ih =>
    unfold leadingZeros
    split
    · have hrest := @ih (10 * p) (by rw [pow_succ] at h; linarith)
      rw [pow_succ]
      linarith
    · rename_i hfirst
      omega

/-- The fraction is not below the power of ten that the magnitude stands for. -/
theorem le_of_magnitude {p q : ℕ} (hq : 0 < q) (hsmall : q ≤ 10 ^ (400 + 1) * p) :
    (10 : ℚ) ^ (magnitude p q - 1) ≤ p / q := by
  have hpos : (0 : ℚ) < q := Nat.cast_pos.mpr hq
  unfold magnitude
  split
  · rename_i hle
    have hone : 1 ≤ p / q := (Nat.one_le_div_iff hq).mpr hle
    have hdigits : 10 ^ ((Nat.toDigits 10 (p / q)).length - 1) ≤ p / q := by
      rcases Nat.eq_zero_or_pos ((Nat.toDigits 10 (p / q)).length - 1) with hlength | hlength
      · rwa [hlength, pow_zero]
      · have hlong := (Nat.length_toDigits_le_iff (by norm_num) hlength).not.mp
          (by omega : ¬ (Nat.toDigits 10 (p / q)).length ≤ _)
        omega
    have hlength : 0 < (Nat.toDigits 10 (p / q)).length := Nat.length_toDigits_pos
    have hexponent : ((Nat.toDigits 10 (p / q)).length : ℤ) - 1 =
        ((Nat.toDigits 10 (p / q)).length - 1 : ℕ) := by omega
    rw [hexponent, zpow_natCast]
    calc ((10 : ℚ) ^ ((Nat.toDigits 10 (p / q)).length - 1)) ≤ (p / q : ℕ) := by
          exact_mod_cast hdigits
      _ ≤ p / q := Nat.cast_div_le
  · have hzeros := le_leadingZeros hsmall
    have hexponent : -(leadingZeros 400 p q : ℤ) - 1 = -((leadingZeros 400 p q + 1 : ℕ) : ℤ) := by
      omega
    have hcast : (q : ℚ) ≤ 10 ^ (leadingZeros 400 p q + 1) * p := by exact_mod_cast hzeros
    rw [hexponent, zpow_neg, zpow_natCast, inv_eq_one_div,
      div_le_div_iff₀ (by positivity) hpos]
    linarith

section

variable {m : ℕ} {e : ℤ} (hm : m ≠ 0) (h : Fits m e)

include hm h

namespace Neighbourhood

theorem le_scaled_of_magnitude :
    (10 : ℚ) ^ (magnitude (of m e).value (of m e).denominator - 1) ≤ scaled m e := by
  have hpos := denominator_pos m e
  have hleast : (2 : ℚ) ^ (-1074 : ℤ) ≤ scaled m e :=
    (zpow_le_zpow_right₀ (by norm_num) h.least).trans (le_mul_of_one_le_left (two_zpow_pos e).le
      (Nat.one_le_cast.mpr (Nat.one_le_iff_ne_zero.mpr hm)))
  have hten : ((10 : ℚ) ^ (400 + 1))⁻¹ ≤ 2 ^ (-1074 : ℤ) := by
    have hpower : (2 : ℚ) ^ 1074 ≤ 10 ^ (400 + 1) :=
      calc (2 : ℚ) ^ 1074 ≤ 2 ^ (3 * (400 + 1)) := pow_le_pow_right₀ (by norm_num) (by norm_num)
        _ = (2 ^ 3) ^ (400 + 1) := pow_mul 2 3 (400 + 1)
        _ ≤ 10 ^ (400 + 1) := pow_le_pow_left₀ (by norm_num) (by norm_num) (400 + 1)
    rw [zpow_neg]
    exact inv_anti₀ (by positivity) hpower
  rw [← value_div_denominator]
  refine le_of_magnitude (Nat.cast_pos.mp hpos) ?_
  have hvalue := hten.trans hleast
  rw [← value_div_denominator, inv_eq_one_div, div_le_div_iff₀ (by positivity) hpos, one_mul,
    mul_comm] at hvalue
  exact_mod_cast hvalue

/-- Seventeen digits are enough: such a grid is finer than the interval is wide. -/
theorem contains_of_fine {exponent : ℤ} (hfine : (10 : ℚ) ^ (exponent + 16) ≤ scaled m e) :
    (of m e).contains ((of m e).floorAt exponent) = true ∨
      (of m e).contains (after ((of m e).floorAt exponent)) = true := by
  obtain ⟨hdown, hup⟩ := floorAt_bounds m e exponent
  have hnext := value_after ((of m e).floorAt exponent)
  have hexponent : ((of m e).floorAt exponent).exponent = exponent := rfl
  have hpos := two_zpow_pos e
  have hgap := gapBelow_pos m e
  rw [zpow_add₀ (by norm_num)] at hfine
  rw [hexponent] at hnext
  simp only [contains_iff hm]
  generalize ((of m e).floorAt exponent).value = down at *
  generalize (after ((of m e).floorAt exponent)).value = up at *
  generalize (10 : ℚ) ^ exponent = grid at *
  norm_num at hfine
  by_cases hpower : m = 2 ^ 52 ∧ -1074 < e
  · -- Below a power of two the interval is narrow, but above it there is room for the grid.
    right
    have hgrid : grid < 2 ^ e / 2 := by
      rw [scaled, hpower.1] at hfine
      norm_num at hfine
      linarith
    exact ⟨by linarith, by linarith, fun _ => ⟨by linarith, by linarith⟩⟩
  · have hwide : gapBelow m e = 2 ^ e := if_neg hpower
    have hgrid : grid < 2 ^ e := by
      have hlt : (m : ℚ) < 2 ^ 53 := by exact_mod_cast h.lt
      rw [scaled] at hfine
      nlinarith
    rw [hwide] at hgap
    rcases lt_or_ge (scaled m e - down) (2 ^ e / 2) with hnear | hfar
    · left
      exact ⟨by rw [hwide]; linarith, by linarith, fun _ => ⟨by rw [hwide]; linarith, by linarith⟩⟩
    · right
      exact ⟨by rw [hwide]; linarith, by linarith, fun _ => ⟨by rw [hwide]; linarith, by linarith⟩⟩

end Neighbourhood

/-- The shortest decimal of a number is rounded to that number. -/
theorem roundsTo_shortest : RoundsTo (shortest m e).value m e := by
  have hfine := Neighbourhood.le_scaled_of_magnitude hm h
  have hfound : (Neighbourhood.of m e).contains ((Neighbourhood.of m e).search
      (magnitude (Neighbourhood.of m e).value (Neighbourhood.of m e).denominator) 17 1) = true := by
    refine Neighbourhood.contains_search ⟨16, by norm_num, ?_⟩
    refine Neighbourhood.contains_of_fine hm h ?_
    convert hfine using 2
    push_cast
    ring
  rw [Neighbourhood.contains_iff hm] at hfound
  unfold shortest
  dsimp only
  generalize (Neighbourhood.of m e).search _ 17 1 = d at hfound ⊢
  split
  · rename_i hten
    have hsame : Decimal.value { digits := 1, exponent := d.exponent + 1 } = d.value := by
      unfold Decimal.value
      rw [hten, zpow_add₀ (by norm_num)]
      push_cast
      ring
    rwa [hsame]
  · exact hfound

end

end TickScript.Number
