-- Rounding to the nearest number. A number is a mantissa of 53 bits at most and a power of two, and
-- what lies within half a gap of it is rounded to it; halfway between two numbers the one with the
-- even mantissa is taken. So what is rounded to a number is an interval, the intervals are in the
-- order of the numbers, and no two of them meet.
import Mathlib
import TickScript.Proofs.Counts

namespace TickScript.Number

open Float.Model UnpackedFloat

variable {em : ExtendedMantissa} {a : Accuracy} {m mantissa : ℕ} {e exponent : ℤ} {q x : ℚ}

/-! ## Mantissas and exponents -/

/-- A mantissa and an exponent as numbers have them. Only at the least exponent may the first bit
be missing. -/
structure Fits (m : ℕ) (e : ℤ) : Prop where
  lt : m < 2 ^ 53
  least : -1074 ≤ e
  full : 2 ^ 52 ≤ m ∨ e = -1074

/-- `m · 2 ^ e`. -/
def scaled (m : ℕ) (e : ℤ) : ℚ := m * 2 ^ e

theorem two_zpow_pos (e : ℤ) : (0 : ℚ) < 2 ^ e := zpow_pos (by norm_num) e

theorem two_zpow_eq (e : ℤ) : (2 : ℚ) ^ e = 2 * 2 ^ (e - 1) := by
  rw [← zpow_one_add₀ (by norm_num)]
  congr 1
  ring

theorem scaled_nonneg (m : ℕ) (e : ℤ) : 0 ≤ scaled m e :=
  mul_nonneg (Nat.cast_nonneg m) (two_zpow_pos e).le

theorem scaled_lt_scaled {m m' : ℕ} (e : ℤ) : scaled m' e < scaled m e ↔ m' < m := by
  unfold scaled
  rw [mul_lt_mul_iff_left₀ (two_zpow_pos e), Nat.cast_lt]

theorem scaled_succ (m : ℕ) (e : ℤ) : scaled (m + 1) e = scaled m e + 2 ^ e := by
  unfold scaled
  push_cast
  ring

theorem scaled_shiftLeft (m k : ℕ) (e : ℤ) : scaled (m <<< k) (e - k) = scaled m e := by
  unfold scaled
  rw [Nat.shiftLeft_eq, zpow_sub₀ (by norm_num), zpow_natCast]
  push_cast
  field_simp

section Order

variable {m m' : ℕ} {e e' : ℤ} (h : Fits m e) (h' : Fits m' e')

include h h'

omit h in
/-- With a smaller exponent even the next number is not above the least full mantissa. -/
theorem scaled_succ_le_of_lt (hlt : e' < e) : scaled (m' + 1) e' ≤ scaled (2 ^ 52) e := by
  have hm' : ((m' + 1 : ℕ) : ℚ) ≤ 2 ^ 53 := by exact_mod_cast h'.lt
  have he' : (2 : ℚ) ^ e' ≤ 2 ^ (e - 1) := zpow_le_zpow_right₀ (by norm_num) (by omega)
  calc scaled (m' + 1) e' ≤ 2 ^ 53 * 2 ^ (e - 1) :=
        mul_le_mul hm' he' (two_zpow_pos e').le (by positivity)
    _ = scaled (2 ^ 52) e := by
        unfold scaled
        rw [two_zpow_eq e]
        push_cast
        ring

theorem full_of_lt (hlt : e' < e) : 2 ^ 52 ≤ m := by
  have hleast := h'.least
  rcases h.full with hfull | he
  · exact hfull
  · omega

theorem scaled_lt_of_lt (hlt : e' < e) : scaled m' e' < scaled m e := by
  have hnext := scaled_succ_le_of_lt h' hlt
  have hfull : scaled (2 ^ 52) e ≤ scaled m e :=
    mul_le_mul_of_nonneg_right (Nat.cast_le.mpr (full_of_lt h h' hlt)) (two_zpow_pos e).le
  rw [scaled_succ] at hnext
  linarith [two_zpow_pos e']

/-- The exponents decide first which of two numbers is smaller, and then the mantissas. -/
theorem scaled_lt_iff : scaled m' e' < scaled m e ↔ e' < e ∨ e' = e ∧ m' < m := by
  rcases lt_trichotomy e' e with hlt | rfl | hgt
  · exact iff_of_true (scaled_lt_of_lt h h' hlt) (Or.inl hlt)
  · simp [scaled_lt_scaled]
  · refine iff_of_false (not_lt.mpr (scaled_lt_of_lt h' h hgt).le) ?_
    omega

theorem scaled_inj (heq : scaled m' e' = scaled m e) : m' = m ∧ e' = e := by
  have hle := (scaled_lt_iff h h').not.mp heq.not_lt
  have hge := (scaled_lt_iff h' h).not.mp heq.symm.not_lt
  omega

end Order

/-! ## Gaps and intervals -/

/-- How far below `m · 2 ^ e` the next number is. Below a power of two the numbers lie closer, but
not below the least of them that has a full mantissa. -/
def gapBelow (m : ℕ) (e : ℤ) : ℚ := if m = 2 ^ 52 ∧ -1074 < e then 2 ^ (e - 1) else 2 ^ e

theorem gapBelow_le (m : ℕ) (e : ℤ) : gapBelow m e ≤ 2 ^ e := by
  unfold gapBelow
  split
  · exact zpow_le_zpow_right₀ (by norm_num) (by omega)
  · exact le_rfl

theorem le_gapBelow (m : ℕ) (e : ℤ) : 2 ^ e ≤ 2 * gapBelow m e := by
  have hpos := two_zpow_pos e
  unfold gapBelow
  split
  · exact (two_zpow_eq e).le
  · linarith

theorem gapBelow_pos (m : ℕ) (e : ℤ) : 0 < gapBelow m e := by
  linarith [le_gapBelow m e, two_zpow_pos e]

/-- Between a number and the next there is no other, seen from above and from below. -/
theorem scaled_le_of_scaled_lt {m m' : ℕ} {e e' : ℤ} (h : Fits m e) (h' : Fits m' e')
    (hlt : scaled m' e' < scaled m e) :
    scaled m' e' + gapBelow m e ≤ scaled m e ∧ scaled m' e' + 2 ^ e' ≤ scaled m e := by
  rcases (scaled_lt_iff h h').mp hlt with hexp | ⟨rfl, hm⟩
  · have hnext := scaled_succ_le_of_lt h' hexp
    have hfull := full_of_lt h h' hexp
    have hpos := two_zpow_pos e'
    rw [scaled_succ] at hnext
    rcases eq_or_lt_of_le hfull with rfl | hfull
    · refine ⟨?_, hnext⟩
      have hleast := h'.least
      have hclose : (2 : ℚ) ^ e' ≤ 2 ^ (e - 1) := zpow_le_zpow_right₀ (by norm_num) (by omega)
      have hm' : ((m' : ℕ) : ℚ) ≤ 2 ^ 53 - 1 := by
        have := h'.lt
        exact le_sub_iff_add_le.mpr (by exact_mod_cast this)
      have hbelow : scaled m' e' ≤ (2 ^ 53 - 1) * 2 ^ (e - 1) :=
        mul_le_mul hm' hclose hpos.le (by norm_num)
      have hvalue : scaled (2 ^ 52) e = 2 ^ 53 * 2 ^ (e - 1) := by
        unfold scaled
        rw [two_zpow_eq e]
        push_cast
        ring
      rw [gapBelow, if_pos ⟨rfl, by omega⟩, hvalue]
      linarith
    · have hmore : scaled (2 ^ 52 + 1) e ≤ scaled m e :=
        mul_le_mul_of_nonneg_right (Nat.cast_le.mpr hfull) (two_zpow_pos e).le
      rw [scaled_succ] at hmore
      constructor <;> linarith [gapBelow_le m e, two_zpow_pos e]
  · have hmore : scaled (m' + 1) e' ≤ scaled m e' :=
      mul_le_mul_of_nonneg_right (Nat.cast_le.mpr hm) (two_zpow_pos e').le
    rw [scaled_succ] at hmore
    constructor <;> linarith [gapBelow_le m e']

/-- `q` is rounded to `m · 2 ^ e`: it lies within half the gaps on both sides, and at their middle
only if the mantissa is even. -/
structure RoundsTo (q : ℚ) (m : ℕ) (e : ℤ) : Prop where
  low : scaled m e - gapBelow m e / 2 ≤ q
  high : q ≤ scaled m e + 2 ^ e / 2
  inside : m % 2 = 1 → scaled m e - gapBelow m e / 2 < q ∧ q < scaled m e + 2 ^ e / 2

theorem roundsTo_self (m : ℕ) (e : ℤ) : RoundsTo (scaled m e) m e := by
  have hbelow := gapBelow_pos m e
  have habove := two_zpow_pos e
  constructor
  · linarith
  · linarith
  · intro _
    constructor <;> linarith

/-- Rounding keeps the order. -/
theorem RoundsTo.le {q q' : ℚ} {m m' : ℕ} {e e' : ℤ} (hq : RoundsTo q m e)
    (hq' : RoundsTo q' m' e') (h : Fits m e) (h' : Fits m' e') (hle : q ≤ q') :
    scaled m e ≤ scaled m' e' := by
  by_contra hlt
  obtain ⟨hbelow, habove⟩ := scaled_le_of_scaled_lt h h' (not_le.mp hlt)
  -- The intervals of two neighbours share at most the middle between them, and that belongs to an
  -- even mantissa. The one after an even mantissa is odd.
  have hlow := hq.low
  have hhigh := hq'.high
  have hnext : scaled (m' + 1) e' = scaled m e := by
    rw [scaled_succ]
    linarith
  have heven : m % 2 = 0 := by
    by_contra hodd
    have := (hq.inside (by omega)).1
    linarith
  have heven' : m' % 2 = 0 := by
    by_contra hodd
    have := (hq'.inside (by omega)).2
    linarith
  have hfits : Fits (m' + 1) e' := by
    have hlt' := h'.lt
    refine ⟨by omega, h'.least, h'.full.imp_left fun hfull => by omega⟩
  obtain ⟨rfl, -⟩ := scaled_inj h hfits hnext
  omega

/-- A number is rounded in one way. -/
theorem RoundsTo.unique {m m' : ℕ} {e e' : ℤ} (hq : RoundsTo q m e) (hq' : RoundsTo q m' e')
    (h : Fits m e) (h' : Fits m' e') : m' = m ∧ e' = e :=
  scaled_inj h h' (le_antisymm (hq'.le hq h' h le_rfl) (hq.le hq' h h' le_rfl))

/-! ## Mantissas on the way to be rounded -/

/-- What the accuracy says about the part that a mantissa leaves out. -/
def Describes : Accuracy → ℚ → Prop
  | .exact, r => r = 0
  | .inexact .lt, r => 0 < r ∧ r < 1 / 2
  | .inexact .eq, r => r = 1 / 2
  | .inexact .gt, r => 1 / 2 < r ∧ r < 1

/-- The mantissa and its residual bits stand for `x`. -/
def StandsFor (em : ExtendedMantissa) (x : ℚ) : Prop := Describes em.accuracy (x - em.mantissa)

theorem Describes.bounds {r : ℚ} (h : Describes a r) : 0 ≤ r ∧ r < 1 := by
  cases a with
  | exact =>
    rw [Describes] at h
    constructor <;> linarith
  | inexact o =>
    cases o with
    | eq =>
      rw [Describes] at h
      constructor <;> linarith
    | lt | gt =>
      obtain ⟨hlow, hhigh⟩ := h
      constructor <;> linarith

theorem standsFor_ofMantissaAndAccuracy (h : Describes a (x - mantissa)) :
    StandsFor (ExtendedMantissa.ofMantissaAndAccuracy mantissa a) x := by
  cases a with
  | exact => exact h
  | inexact o => cases o <;> exact h

theorem mantissa_ofMantissaAndAccuracy (mantissa : ℕ) (a : Accuracy) :
    (ExtendedMantissa.ofMantissaAndAccuracy mantissa a).mantissa = mantissa := by
  cases a with
  | exact => rfl
  | inexact o => cases o <;> rfl

/-- A shift halves what is stood for, and its residual bits take up the bit that it drops. -/
theorem StandsFor.halve (h : StandsFor em x) : StandsFor em.shiftRightOne (x / 2) := by
  obtain ⟨mantissa, round, sticky⟩ := em
  have hbit : mantissa = 2 * (mantissa / 2) ∨ mantissa = 2 * (mantissa / 2) + 1 := by omega
  unfold StandsFor ExtendedMantissa.shiftRightOne
  unfold StandsFor at h
  dsimp only at h ⊢
  rcases hbit with hbit | hbit
  · have hzero : (mantissa % 2 != 0) = false := by
      rw [hbit]
      simp
    have hcast : (mantissa : ℚ) = 2 * (mantissa / 2 : ℕ) := by exact_mod_cast hbit
    rw [hzero]
    rw [hcast] at h
    cases round <;> cases sticky <;>
      simp only [ExtendedMantissa.accuracy, Describes, Bool.or_false, Bool.or_true] at h ⊢ <;>
      (try constructor) <;> linarith
  · have hone : (mantissa % 2 != 0) = true := by
      rw [hbit]
      simp
    have hcast : (mantissa : ℚ) = 2 * (mantissa / 2 : ℕ) + 1 := by exact_mod_cast hbit
    rw [hone]
    rw [hcast] at h
    cases round <;> cases sticky <;>
      simp only [ExtendedMantissa.accuracy, Describes, Bool.or_false, Bool.or_true] at h ⊢ <;>
      (try constructor) <;> linarith

theorem StandsFor.shiftRight (h : StandsFor em x) (n : ℕ) : StandsFor (em >>> n) (x / 2 ^ n) := by
  change StandsFor (n.repeat ExtendedMantissa.shiftRightOne em) _
  induction n with
  | zero => simpa [Nat.repeat] using h
  | succ n ih =>
    rw [Nat.repeat, pow_succ, ← div_div]
    exact ih.halve

theorem mantissa_shiftRight (em : ExtendedMantissa) (n : ℕ) :
    (em >>> n).mantissa = em.mantissa / 2 ^ n := by
  change (n.repeat ExtendedMantissa.shiftRightOne em).mantissa = _
  induction n with
  | zero => simp [Nat.repeat]
  | succ n ih =>
    rw [Nat.repeat, pow_succ, ← Nat.div_div_eq_div_mul, ← ih]
    rfl

theorem roundedMantissa_cases (em : ExtendedMantissa) :
    em.roundedMantissa = em.mantissa ∨ em.roundedMantissa = em.mantissa + 1 := by
  obtain ⟨mantissa, round, sticky⟩ := em
  cases round
  · cases sticky <;> exact Or.inl rfl
  · cases sticky
    · change mantissa + mantissa % 2 = mantissa ∨ mantissa + mantissa % 2 = mantissa + 1
      omega
    · exact Or.inr rfl

/-- The rounded mantissa is the nearest whole number, and the even one of two. -/
theorem StandsFor.roundedMantissa (h : StandsFor em x) :
    (em.roundedMantissa - 1 / 2 ≤ x ∧ x ≤ em.roundedMantissa + 1 / 2) ∧
      (em.roundedMantissa % 2 = 1 →
        em.roundedMantissa - 1 / 2 < x ∧ x < em.roundedMantissa + 1 / 2) := by
  obtain ⟨mantissa, round, sticky⟩ := em
  unfold StandsFor at h
  unfold ExtendedMantissa.roundedMantissa
  cases round <;> cases sticky <;>
    simp only [ExtendedMantissa.accuracy, Describes, Accuracy.roundToNearestEven] at h ⊢
  · exact ⟨⟨by linarith, by linarith⟩, fun _ => ⟨by linarith, by linarith⟩⟩
  · exact ⟨⟨by linarith, by linarith⟩, fun _ => ⟨by linarith, by linarith⟩⟩
  · rcases Nat.mod_two_eq_zero_or_one mantissa with heven | hodd
    · rw [heven, add_zero]
      exact ⟨⟨by linarith, by linarith⟩, fun hodd => by omega⟩
    · rw [hodd]
      push_cast
      exact ⟨⟨by linarith, by linarith⟩, fun hodd => by omega⟩
  · push_cast
    exact ⟨⟨by linarith, by linarith⟩, fun _ => ⟨by linarith, by linarith⟩⟩

/-! ## The rounded number -/

/-- The number with this sign, mantissa and exponent. -/
def ofParts (s : Sign) (m : ℕ) (e : ℤ) : UnpackedFloat :=
  if h : m = 0 then .zero s else .finite s m e (Nat.pos_of_ne_zero h)

theorem ofParts_of_pos (s : Sign) (hm : 0 < m) (e : ℤ) :
    ofParts s m e = .finite s m e hm := dif_neg hm.ne'

theorem targetExponent_binary64 (m : ℕ) (e : ℤ) :
    Format.binary64.targetExponent (totalExponent m e) = max (m.log2 + e - 52) (-1074) := by
  have hbits : (Format.binary64.mantissaBits : ℤ) = 53 := rfl
  have hmin : Format.binary64.minExponent = -1074 := rfl
  unfold Format.targetExponent totalExponent
  rw [hbits, hmin]
  omega

/-- A mantissa that is not too long stays as it is. -/
theorem shiftToTargetExponent_of_fits (hm : m < 2 ^ 53) (he : -1074 ≤ e) :
    shiftToTargetExponent .binary64 m e .exact = (⟨m, false, false⟩, e) := by
  have hlog : m.log2 < 53 := by
    rcases Nat.eq_zero_or_pos m with rfl | hpos
    · simp
    · exact (Nat.log2_lt (Nat.ne_of_gt hpos)).mpr hm
  have hshift : (Format.binary64.targetExponent (totalExponent m e) - e).toNat = 0 := by
    rw [targetExponent_binary64]
    omega
  simp only [shiftToTargetExponent, shiftToExponent, hshift]
  exact Prod.ext rfl (add_zero e)

/-- A mantissa that rounding has made one bit too long is shifted by one place. -/
theorem shiftToTargetExponent_carry (he : -1074 ≤ e) :
    shiftToTargetExponent .binary64 (2 ^ 53) e .exact = (⟨2 ^ 52, false, false⟩, e + 1) := by
  have hshift : (Format.binary64.targetExponent (totalExponent (2 ^ 53) e) - e).toNat = 1 := by
    rw [targetExponent_binary64, Nat.log2_two_pow]
    omega
  simp only [shiftToTargetExponent, shiftToExponent, hshift]
  rfl

/-- The first shift: what is left has 53 bits, or fewer at the least exponent. -/
theorem exists_shifted (ha : Describes a (q / 2 ^ exponent - mantissa))
    (hexponent : exponent ≤ Format.binary64.targetExponent (totalExponent mantissa exponent)) :
    ∃ em e, shiftToTargetExponent .binary64 mantissa exponent a = (em, e) ∧
      StandsFor em (q / 2 ^ e) ∧ Fits em.mantissa e := by
  let t := Format.binary64.targetExponent (totalExponent mantissa exponent)
  obtain ⟨k, hk⟩ : ∃ k : ℕ, t = exponent + k := ⟨(t - exponent).toNat, by omega⟩
  have ht : t = max (mantissa.log2 + exponent - 52) (-1074) := targetExponent_binary64 _ _
  have hcount : (t - exponent).toNat = k := by omega
  have hshift : shiftToTargetExponent .binary64 mantissa exponent a =
      (ExtendedMantissa.ofMantissaAndAccuracy mantissa a >>> k, t) := by
    simp only [t] at hcount hk
    simp only [shiftToTargetExponent, shiftToExponent, hcount, t]
    rw [hk]
  refine ⟨_, _, hshift, ?_, ?_, ?_, ?_⟩
  · have hscale : q / 2 ^ t = q / 2 ^ exponent / 2 ^ k := by
      rw [hk, zpow_add₀ (by norm_num), zpow_natCast, div_div]
    rw [hscale]
    exact (standsFor_ofMantissaAndAccuracy ha).shiftRight k
  · rw [mantissa_shiftRight, mantissa_ofMantissaAndAccuracy, Nat.div_lt_iff_lt_mul (by positivity),
      ← pow_add]
    exact Nat.lt_log2_self.trans_le (Nat.pow_le_pow_right (by norm_num) (by omega))
  · omega
  · rw [mantissa_shiftRight, mantissa_ofMantissaAndAccuracy]
    rcases eq_or_ne t (-1074) with hleast | hmore
    · exact Or.inr hleast
    · left
      have hne : mantissa ≠ 0 := by
        rintro rfl
        rw [Nat.log2_zero] at ht
        omega
      rw [Nat.le_div_iff_mul_le (by positivity), ← pow_add]
      exact (Nat.pow_le_pow_right (by norm_num) (by omega)).trans (Nat.log2_self_le hne)

theorem roundWithAccuracy_of_shifted
    (hshift : shiftToTargetExponent .binary64 mantissa exponent a = (em, e)) (s : Sign) {e' : ℤ}
    (hagain : shiftToTargetExponent .binary64 em.roundedMantissa e .exact = (⟨m, false, false⟩, e'))
    : roundWithAccuracy .binary64 s mantissa exponent a = ofParts s m e' := by
  unfold roundWithAccuracy ofParts
  rw [hshift]
  dsimp only
  rw [hagain]

section

variable {em : ExtendedMantissa} {e : ℤ} {q : ℚ} (hem : StandsFor em (q / 2 ^ e))
  (hfits : Fits em.mantissa e)

include hem hfits

/-- The rounded mantissa is the nearest one, if rounding has not made it too long. -/
theorem roundsTo_roundedMantissa (hshort : em.roundedMantissa < 2 ^ 53) :
    Fits em.roundedMantissa e ∧ RoundsTo q em.roundedMantissa e := by
  obtain ⟨⟨hlow, hhigh⟩, hinside⟩ := hem.roundedMantissa
  have hnear := roundedMantissa_cases em
  have hpos := two_zpow_pos e
  have hfull : 2 ^ 52 ≤ em.roundedMantissa ∨ e = -1074 := hfits.full.imp_left fun h => by omega
  refine ⟨⟨hshort, hfits.least, hfull⟩, ?_⟩
  -- Back from multiples of the unit to numbers.
  have hq : q = q / 2 ^ e * 2 ^ e := (div_mul_cancel₀ q hpos.ne').symm
  have hover : q ≤ scaled em.roundedMantissa e + 2 ^ e / 2 := by
    rw [hq, scaled]
    nlinarith
  by_cases hpower : em.roundedMantissa = 2 ^ 52 ∧ -1074 < e
  · -- The mantissa was not rounded up to the power of two, since it had 53 bits before.
    have hsame : em.mantissa = em.roundedMantissa := by
      have hfull := hfits.full
      omega
    have habove : scaled em.roundedMantissa e ≤ q := by
      rw [hq, scaled, ← hsame]
      have := hem.bounds.1
      nlinarith
    refine ⟨?_, hover, fun hodd => ?_⟩
    · linarith [gapBelow_pos em.roundedMantissa e]
    · omega
  · have hgap : gapBelow em.roundedMantissa e = 2 ^ e := if_neg hpower
    refine ⟨?_, hover, fun hodd => ?_⟩
    · rw [hgap, hq, scaled]
      nlinarith
    · obtain ⟨hlow, hhigh⟩ := hinside hodd
      rw [hgap, hq, scaled]
      constructor <;> nlinarith

/-- If it has, half of it is, with the next exponent. -/
theorem roundsTo_carry (hcarry : 2 ^ 53 ≤ em.roundedMantissa) :
    em.roundedMantissa = 2 ^ 53 ∧ Fits (2 ^ 52) (e + 1) ∧ RoundsTo q (2 ^ 52) (e + 1) := by
  obtain ⟨⟨hlow, -⟩, -⟩ := hem.roundedMantissa
  have hnear := roundedMantissa_cases em
  have hpos := two_zpow_pos e
  have hbounds := hem.bounds
  have hlt := hfits.lt
  have hleast := hfits.least
  have htop : em.roundedMantissa = 2 ^ 53 := by omega
  have hmantissa : em.mantissa = 2 ^ 53 - 1 := by omega
  refine ⟨htop, ⟨by norm_num, by omega, Or.inl le_rfl⟩, ?_⟩
  have hvalue : scaled (2 ^ 52) (e + 1) = 2 ^ 53 * 2 ^ e := by
    unfold scaled
    rw [zpow_add₀ (by norm_num)]
    push_cast
    ring
  have hgap : gapBelow (2 ^ 52) (e + 1) = 2 ^ e := by
    rw [gapBelow, if_pos ⟨rfl, by omega⟩, add_sub_cancel_right]
  have hq : q = q / 2 ^ e * 2 ^ e := (div_mul_cancel₀ q hpos.ne').symm
  rw [htop] at hlow
  rw [hmantissa] at hbounds
  push_cast at hlow hbounds
  have hunder : 2 ^ 53 * 2 ^ e - 2 ^ e / 2 ≤ q := by
    rw [hq]
    nlinarith
  have hover : q < 2 ^ 53 * 2 ^ e := by
    rw [hq]
    nlinarith [hbounds.2]
  refine ⟨?_, ?_, fun hodd => by norm_num at hodd⟩
  · rwa [hvalue, hgap]
  · rw [hvalue]
    linarith [two_zpow_pos (e + 1)]

end

/-- What is rounded is rounded to the nearest number. -/
theorem exists_roundWithAccuracy (ha : Describes a (q / 2 ^ exponent - mantissa))
    (hexponent : exponent ≤ Format.binary64.targetExponent (totalExponent mantissa exponent))
    (s : Sign) :
    ∃ m e, Fits m e ∧ RoundsTo q m e ∧
      roundWithAccuracy .binary64 s mantissa exponent a = ofParts s m e := by
  obtain ⟨em, e, hshift, hem, hfits⟩ := exists_shifted ha hexponent
  rcases Nat.lt_or_ge em.roundedMantissa (2 ^ 53) with hshort | hcarry
  · obtain ⟨hfits', hrounds⟩ := roundsTo_roundedMantissa hem hfits hshort
    exact ⟨_, e, hfits', hrounds,
      roundWithAccuracy_of_shifted hshift s (shiftToTargetExponent_of_fits hshort hfits.least)⟩
  · obtain ⟨htop, hfits', hrounds⟩ := roundsTo_carry hem hfits hcarry
    have hagain := shiftToTargetExponent_carry hfits.least
    rw [← htop] at hagain
    exact ⟨_, e + 1, hfits', hrounds, roundWithAccuracy_of_shifted hshift s hagain⟩

/-- If it is known what a value is rounded to, that is the result. -/
theorem roundWithAccuracy_eq_ofParts (ha : Describes a (q / 2 ^ exponent - mantissa))
    (hexponent : exponent ≤ Format.binary64.targetExponent (totalExponent mantissa exponent))
    (s : Sign) (hfits : Fits m e) (hq : RoundsTo q m e) :
    roundWithAccuracy .binary64 s mantissa exponent a = ofParts s m e := by
  obtain ⟨m', e', hfits', hq', hround⟩ := exists_roundWithAccuracy ha hexponent s
  obtain ⟨rfl, rfl⟩ := hq.unique hq' hfits hfits'
  exact hround

theorem exists_round (hmantissa : mantissa ≠ 0) (exponent : ℤ) (s : Sign) :
    ∃ m e, Fits m e ∧ RoundsTo (scaled mantissa exponent) m e ∧
      UnpackedFloat.round .binary64 s mantissa exponent = ofParts s m e := by
  let t := Format.binary64.targetExponent (totalExponent mantissa exponent)
  let k := (exponent - t).toNat
  have ht : t = max (mantissa.log2 + exponent - 52) (-1074) := targetExponent_binary64 _ _
  have hexact : Describes .exact
      (scaled mantissa exponent / 2 ^ (exponent - k) - (mantissa <<< k : ℕ)) := by
    rw [← scaled_shiftLeft mantissa k exponent, scaled, mul_div_cancel_right₀ _
      (two_zpow_pos _).ne']
    exact sub_self _
  refine exists_roundWithAccuracy hexact ?_ s
  rw [targetExponent_binary64, log2_shiftLeft hmantissa]
  omega

/-! ## Numbers taken apart and put together -/

/-- A number is what its parts make up. -/
theorem ofModel_pack_unpack (x : Float) : Float.ofModel (.pack x.toModel.unpack) = x :=
  Float.ofBits_toBits x

theorem unpack_inj {x y : Float} (h : x.toModel.unpack = y.toModel.unpack) : x = y := by
  rw [← ofModel_pack_unpack x, h, ofModel_pack_unpack]

theorem eq_zero_of_unpack {x : Float} {s : Sign} (hx : x.toModel.unpack = .zero s) :
    x = 0 ∨ x = -0 := by
  rw [← ofModel_pack_unpack x, hx]
  cases s <;> decide

theorem fits_of_unpack {x : Float} {s : Sign} {hm : 0 < m}
    (h : x.toModel.unpack = .finite s m e hm) : Fits m e ∧ e ≤ 971 := by
  unfold Float.Model.unpack UnpackedFloat.unpack at h
  have hbias : Format.binary64.exponentBias = 1023 := rfl
  have hshort := (@unpackMantissa .binary64 x.toModel.toBits.toBitVec).isLt
  have hrange := (@unpackExponent .binary64 x.toModel.toBits.toBitVec).isLt
  dsimp only at h hshort hrange
  split at h
  · split at h <;> cases h
  · rename_i hlast
    split at h
    · rename_i hfirst
      split at h
      · cases h
      · cases h
        rw [hfirst, hbias]
        exact ⟨⟨by omega, by decide, Or.inr (by decide)⟩, by decide⟩
    · rename_i hfirst
      cases h
      generalize @unpackMantissa .binary64 x.toModel.toBits.toBitVec = mantissa at hshort ⊢
      generalize @unpackExponent .binary64 x.toModel.toBits.toBitVec = exponent at *
      have hnotFirst : exponent.toNat ≠ 0 := fun h => hfirst (BitVec.eq_of_toNat_eq h)
      have hnotLast : exponent.toNat ≠ 2047 := fun h => hlast (BitVec.eq_of_toNat_eq h)
      have hfull : (1#1 ++ mantissa).toNat = 2 ^ 52 + mantissa.toNat := by
        rw [BitVec.toNat_append, ← Nat.shiftLeft_add_eq_or_of_lt hshort]
        rfl
      rw [hfull, hbias]
      exact ⟨⟨by omega, by omega, Or.inl (by omega)⟩, by omega⟩

theorem unpack_packedInfinity (s : Sign) :
    UnpackedFloat.unpack .binary64 (packedInfinity .binary64 s) = .infinity s := by
  simp [UnpackedFloat.unpack, packedInfinity]

/-- Numbers with fewer than 53 bits in their mantissa. -/
theorem unpack_pack_of_lt (hpos : 0 < m) (hm : m < 2 ^ 52) (s : Sign) :
    UnpackedFloat.unpack .binary64 (UnpackedFloat.pack .binary64 (.finite s m (-1074) hpos)) =
      .finite s m (-1074) hpos := by
  have hlog : m.log2 < 52 := (Nat.log2_lt (Nat.ne_of_gt hpos)).mpr hm
  have hbits : Format.binary64.mantissaBits = 53 := rfl
  have hpack : UnpackedFloat.pack .binary64 (.finite s m (-1074) hpos) =
      packComponents .binary64 s 0#11 (BitVec.ofNat 52 m) := by
    unfold UnpackedFloat.pack
    dsimp only
    rw [if_neg (by decide), hbits, if_neg (by omega)]
  have hne : BitVec.ofNat 52 m ≠ 0#52 := by
    intro h
    have hvalue := congrArg BitVec.toNat h
    rw [BitVec.toNat_ofNat, Nat.mod_eq_of_lt hm] at hvalue
    exact Nat.ne_of_gt hpos hvalue
  rw [hpack]
  unfold UnpackedFloat.unpack
  simp only [unpackMantissa_packComponents, unpackExponent_packComponents,
    unpackSign_packComponents, Sign.ofBitVec_toBitVec]
  rw [if_neg (by decide), if_pos trivial, dif_neg hne]
  congr 1
  exact (BitVec.toNat_ofNat m 52).trans (Nat.mod_eq_of_lt hm)

/-- Numbers that are not too large come back from being put together; the others have become
infinite. -/
theorem unpack_pack_ofParts (h : Fits m e) (s : Sign) :
    Float.Model.unpack (.pack (ofParts s m e)) =
      if e ≤ 971 then ofParts s m e else .infinity s := by
  change UnpackedFloat.unpack .binary64 (UnpackedFloat.pack .binary64 (ofParts s m e)) = _
  have hlt := h.lt
  have hleast := h.least
  unfold ofParts
  split
  · rename_i hzero
    have he : e = -1074 := h.full.resolve_left (by omega)
    rw [if_pos (by omega)]
    exact unpack_packedZero
  · rename_i hpos
    split
    · rename_i hle
      rcases Nat.lt_or_ge m (2 ^ 52) with hshort | hfull
      · obtain rfl : e = -1074 := h.full.resolve_left (by omega)
        exact unpack_pack_of_lt (Nat.pos_of_ne_zero hpos) hshort s
      · have hlog : m.log2 = 52 := (Nat.log2_eq_iff hpos).mpr ⟨hfull, hlt⟩
        exact unpack_pack hlog (Nat.pos_of_ne_zero hpos) hleast hle s
    · rename_i hmore
      have hpack : UnpackedFloat.pack .binary64 (.finite s m e (Nat.pos_of_ne_zero hpos)) =
          packedInfinity .binary64 s := by
        unfold UnpackedFloat.pack
        refine if_pos ?_
        change 2048 ≤ (e + 1023 + 52).toNat + 1
        omega
      rw [hpack, unpack_packedInfinity]

end TickScript.Number
