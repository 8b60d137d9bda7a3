-- Sums. The sum of two numbers is the exact sum rounded to the nearest number, so adding keeps the
-- order. A summand that changes a number at all moves it by half of itself at least, and it does so
-- only among the numbers that are not too large for it.
import TickScript.Proofs.Rounding
import TickScript.Proofs.Comparing

namespace TickScript.Number

open Float.Model UnpackedFloat

/-! ## Signs, mantissas and exponents -/

theorem fits_zero : Fits 0 (-1074) := ⟨by norm_num, le_rfl, .inr rfl⟩

theorem scaled_zero (e : ℤ) : scaled 0 e = 0 := by simp [scaled]

theorem scaled_pos {m : ℕ} (hm : 0 < m) (e : ℤ) : 0 < scaled m e :=
  mul_pos (Nat.cast_pos.mpr hm) (two_zpow_pos e)

/-- Zero is one of the numbers too. -/
theorem gapBelow_le_scaled {m : ℕ} {e : ℤ} (h : Fits m e) (hm : 0 < m) :
    gapBelow m e ≤ scaled m e ∧ 2 ^ (-1074 : ℤ) ≤ scaled m e := by
  have hpos := scaled_pos hm e
  rw [← scaled_zero (-1074)] at hpos
  simpa [scaled_zero] using scaled_le_of_scaled_lt h fits_zero hpos

/-- On the two sides of zero numbers lie a gap apart at least. -/
theorem gapBelow_le_add {m n : ℕ} {e f : ℤ} (h : Fits m e) (h' : Fits n f)
    (hpos : 0 < scaled m e + scaled n f) : gapBelow m e ≤ scaled m e + scaled n f := by
  rcases Nat.eq_zero_or_pos m with rfl | hm
  · obtain rfl : e = -1074 := h.full.resolve_left (by norm_num)
    rw [scaled_zero, zero_add] at hpos ⊢
    have hn : 0 < n := by
      rcases Nat.eq_zero_or_pos n with rfl | hn
      · rw [scaled_zero] at hpos
        exact absurd hpos (lt_irrefl 0)
      · exact hn
    exact (gapBelow_le 0 (-1074)).trans (gapBelow_le_scaled h' hn).2
  · linarith [(gapBelow_le_scaled h hm).1, scaled_nonneg n f]

/-- What a finite number is made of. The exponent has no upper bound here: with too large a one it
stands for an infinite number. -/
structure Parts where
  sign : Sign
  mantissa : ℕ
  exponent : ℤ
  fits : Fits mantissa exponent

namespace Parts

def value (p : Parts) : ℚ :=
  match p.sign with
  | .positive => scaled p.mantissa p.exponent
  | .negative => -scaled p.mantissa p.exponent

def unpacked (p : Parts) : UnpackedFloat := ofParts p.sign p.mantissa p.exponent

def opposite (p : Parts) : Parts := { p with sign := -p.sign }

/-- How far above it the next number is. -/
def gapUp (p : Parts) : ℚ :=
  match p.sign with
  | .positive => 2 ^ p.exponent
  | .negative => gapBelow p.mantissa p.exponent

/-- How far below it the next number is. -/
def gapDown (p : Parts) : ℚ := p.opposite.gapUp

/-- `q` is rounded to the number. -/
def Rounds (p : Parts) (q : ℚ) : Prop :=
  match p.sign with
  | .positive => 0 ≤ q ∧ RoundsTo q p.mantissa p.exponent
  | .negative => q ≤ 0 ∧ RoundsTo (-q) p.mantissa p.exponent

theorem value_opposite (p : Parts) : p.opposite.value = -p.value := by
  obtain ⟨s, m, e, h⟩ := p
  cases s with
  | positive => rfl
  | negative => exact (neg_neg (scaled m e)).symm

theorem rounds_opposite {p : Parts} {q : ℚ} : p.opposite.Rounds (-q) ↔ p.Rounds q := by
  obtain ⟨s, m, e, h⟩ := p
  cases s with
  | positive =>
    change -q ≤ 0 ∧ RoundsTo (- -q) m e ↔ 0 ≤ q ∧ RoundsTo q m e
    rw [neg_neg, neg_nonpos]
  | negative =>
    change 0 ≤ -q ∧ RoundsTo (-q) m e ↔ q ≤ 0 ∧ RoundsTo (-q) m e
    rw [neg_nonneg]

theorem abs_value (p : Parts) : |p.value| = scaled p.mantissa p.exponent := by
  have hnonneg := scaled_nonneg p.mantissa p.exponent
  unfold value
  split
  · exact abs_of_nonneg hnonneg
  · rw [abs_neg, abs_of_nonneg hnonneg]

theorem gapUp_bounds (p : Parts) : p.gapUp ≤ 2 ^ p.exponent ∧ 2 ^ p.exponent ≤ 2 * p.gapUp := by
  have hpos := two_zpow_pos p.exponent
  unfold gapUp
  split
  · exact ⟨le_rfl, by linarith⟩
  · exact ⟨gapBelow_le _ _, le_gapBelow _ _⟩

theorem gapDown_bounds (p : Parts) :
    p.gapDown ≤ 2 ^ p.exponent ∧ 2 ^ p.exponent ≤ 2 * p.gapDown :=
  p.opposite.gapUp_bounds

/-- A number is not larger than so many of its gaps. -/
theorem abs_value_le (p : Parts) : |p.value| ≤ 2 ^ 54 * p.gapUp := by
  have hm : (p.mantissa : ℚ) ≤ 2 ^ 53 := by exact_mod_cast p.fits.lt.le
  have hunit := p.gapUp_bounds.2
  calc |p.value| = p.mantissa * 2 ^ p.exponent := p.abs_value
    _ ≤ 2 ^ 53 * 2 ^ p.exponent := mul_le_mul_of_nonneg_right hm (two_zpow_pos p.exponent).le
    _ ≤ 2 ^ 54 * p.gapUp := by linarith

/-- Only zero has two signs. -/
theorem eq_of_value_eq {p r : Parts} (h : p.value = r.value) (hne : p.value ≠ 0) : p = r := by
  have habs : |p.value| = |r.value| := by rw [h]
  rw [abs_value, abs_value] at habs
  obtain ⟨s, m, e, hp⟩ := p
  obtain ⟨t, n, f, hr⟩ := r
  obtain ⟨rfl, rfl⟩ := scaled_inj hr hp habs
  cases s <;> cases t
  · rfl
  · exact absurd (self_eq_neg.mp h.symm) (by simpa [value] using hne)
  · exact absurd (self_eq_neg.mp h) hne
  · rfl

/-! ## Neighbours -/

/-- Between a number and the next there is no other. -/
theorem add_gap_le {p r : Parts} (h : p.value < r.value) :
    p.value + p.gapUp ≤ r.value ∧ p.value + r.gapDown ≤ r.value := by
  obtain ⟨s, m, e, hp⟩ := p
  obtain ⟨t, n, f, hr⟩ := r
  have hm := scaled_nonneg m e
  have hn := scaled_nonneg n f
  cases s with
  | positive =>
    cases t with
    | positive => exact (scaled_le_of_scaled_lt hr hp h).symm
    | negative =>
      change scaled m e < -scaled n f at h
      linarith
  | negative =>
    cases t with
    | positive =>
      change -scaled m e < scaled n f at h
      change -scaled m e + gapBelow m e ≤ scaled n f ∧ -scaled m e + gapBelow n f ≤ scaled n f
      have hup := gapBelow_le_add hp hr (by linarith)
      have hdown := gapBelow_le_add hr hp (by linarith)
      constructor <;> linarith
    | negative =>
      change -scaled m e < -scaled n f at h
      obtain ⟨hbelow, habove⟩ := scaled_le_of_scaled_lt hp hr (neg_lt_neg_iff.mp h)
      change -scaled m e + gapBelow m e ≤ -scaled n f ∧ -scaled m e + 2 ^ f ≤ -scaled n f
      constructor <;> linarith

/-! ## Rounding -/

theorem rounds_value (p : Parts) : p.Rounds p.value := by
  have hnonneg := scaled_nonneg p.mantissa p.exponent
  have hself := roundsTo_self p.mantissa p.exponent
  unfold Rounds value
  split
  · exact ⟨hnonneg, hself⟩
  · rw [neg_neg]
    exact ⟨neg_nonpos.mpr hnonneg, hself⟩

namespace Rounds

variable {p r : Parts} {q q' : ℚ}

theorem low (h : p.Rounds q) : p.value - p.gapDown / 2 ≤ q := by
  obtain ⟨s, m, e, hp⟩ := p
  cases s with
  | positive => exact h.2.low
  | negative =>
    have hhigh := h.2.high
    change -scaled m e - 2 ^ e / 2 ≤ q
    linarith

theorem high (h : p.Rounds q) : q ≤ p.value + p.gapUp / 2 := by
  obtain ⟨s, m, e, hp⟩ := p
  cases s with
  | positive => exact h.2.high
  | negative =>
    have hlow := h.2.low
    change q ≤ -scaled m e + gapBelow m e / 2
    linarith

/-- Rounding keeps the order. -/
theorem le (h : p.Rounds q) (h' : r.Rounds q') (hle : q ≤ q') : p.value ≤ r.value := by
  obtain ⟨s, m, e, hp⟩ := p
  obtain ⟨t, n, f, hr⟩ := r
  have hm := scaled_nonneg m e
  have hn := scaled_nonneg n f
  cases s with
  | positive =>
    cases t with
    | positive => exact h.2.le h'.2 hp hr hle
    | negative =>
      -- Both are zero, which is rounded to itself.
      have hzero := roundsTo_self 0 (-1074)
      have hleft := h.2.le hzero hp fits_zero (by linarith [h'.1, scaled_zero (-1074)])
      have hright := h'.2.le hzero hr fits_zero (by linarith [h.1, scaled_zero (-1074)])
      rw [scaled_zero] at hleft hright
      change scaled m e ≤ -scaled n f
      linarith
  | negative =>
    cases t with
    | positive =>
      change -scaled m e ≤ scaled n f
      linarith
    | negative => exact neg_le_neg (h'.2.le h.2 hr hp (neg_le_neg hle))

end Rounds

theorem moves_up {p t : Parts} {d : ℚ} (hd : 0 < d) (ht : t.Rounds (p.value + d))
    (hne : t.value ≠ p.value) :
    p.value / d + 1 / 2 ≤ t.value / d ∧ |p.value / d| ≤ 2 ^ 55 := by
  have hle : p.value ≤ t.value := p.rounds_value.le ht (by linarith)
  obtain ⟨hup, hdown⟩ := add_gap_le (lt_of_le_of_ne hle (Ne.symm hne))
  have hlow := ht.low
  have hhigh := ht.high
  have hunit := t.gapUp_bounds.1
  have hunit' := t.gapDown_bounds.2
  have hsize := p.abs_value_le
  constructor
  · rw [div_add' _ _ _ hd.ne', div_le_div_iff_of_pos_right hd]
    linarith
  · rw [abs_div, abs_of_pos hd, div_le_iff₀ hd]
    linarith

section

variable {p r t u : Parts} {d : ℚ} (hd : d ≠ 0) (ht : t.Rounds (p.value + d))

include hd ht

/-- If adding `d` has an effect, it is half of `d` at least, and the number is not too large for
`d`. -/
theorem moves (hne : t.value ≠ p.value) :
    p.value / d + 1 / 2 ≤ t.value / d ∧ |p.value / d| ≤ 2 ^ 55 := by
  rcases lt_or_gt_of_ne hd with hneg | hpos
  · have hmirror : t.opposite.Rounds (p.opposite.value + -d) := by
      rw [value_opposite, ← neg_add, rounds_opposite]
      exact ht
    have hmoves := moves_up (neg_pos.mpr hneg) hmirror (by simpa [value_opposite] using hne)
    rwa [value_opposite, value_opposite, neg_div_neg_eq, neg_div_neg_eq] at hmoves
  · exact moves_up hpos ht hne

/-- Adding `d` to what is further in its direction leads at least as far. -/
theorem div_le_div_of_rounds (hu : u.Rounds (r.value + d)) (hle : p.value / d ≤ r.value / d) :
    t.value / d ≤ u.value / d := by
  rcases lt_or_gt_of_ne hd with hneg | hpos
  · rw [div_le_div_right_of_neg hneg] at hle ⊢
    exact hu.le ht (by linarith)
  · rw [div_le_div_iff_of_pos_right hpos] at hle ⊢
    exact ht.le hu (by linarith)

omit ht in
theorem abs_div_lt (hlt : p.exponent < t.exponent) : |p.value / d| < |t.value / d| := by
  rw [abs_div, abs_div, div_lt_div_iff_of_pos_right (abs_pos.mpr hd), p.abs_value, t.abs_value]
  exact scaled_lt_of_lt t.fits p.fits hlt

/-- Adding `d` leads to a larger exponent only on the side of `d`. -/
theorem div_pos_of_overflow (hlt : p.exponent < t.exponent) : 0 < t.value / d := by
  have hless := abs_div_lt hd hlt
  have hne : t.value ≠ p.value := by
    rintro heq
    rw [heq] at hless
    exact lt_irrefl _ hless
  obtain ⟨hmove, -⟩ := moves hd ht hne
  by_contra hnonpos
  rw [abs_of_nonpos (not_lt.mp hnonpos)] at hless
  linarith [neg_le_abs (p.value / d)]

theorem sign_eq_positive_iff (hlt : p.exponent < t.exponent) : t.sign = .positive ↔ 0 < d := by
  have hdirection := div_pos_of_overflow hd ht hlt
  have hnonneg := scaled_nonneg t.mantissa t.exponent
  obtain ⟨s, m, e, hfits⟩ := t
  cases s with
  | positive =>
    refine iff_of_true rfl ?_
    rcases div_pos_iff.mp hdirection with ⟨-, hpos⟩ | ⟨hneg, -⟩
    · exact hpos
    · exact absurd hneg (not_lt.mpr hnonneg)
  | negative =>
    refine iff_of_false nofun fun hpos => ?_
    rcases div_pos_iff.mp hdirection with ⟨hvalue, -⟩ | ⟨-, hneg⟩
    · exact absurd hvalue (not_lt.mpr (neg_nonpos.mpr hnonneg))
    · exact absurd hneg hpos.not_gt

end

/-- A number that swallows another is so much larger. -/
theorem le_abs_of_lost {p t d : Parts} (hd : d.value ≠ 0) (ht : t.Rounds (p.value + d.value))
    (hsame : t.value = p.value) : 2 ^ 53 * |d.value| ≤ |p.value| := by
  have hhalf : |d.value| ≤ 2 ^ t.exponent / 2 := by
    have hlow := ht.low
    have hhigh := ht.high
    have hup := t.gapUp_bounds.1
    have hdown := t.gapDown_bounds.1
    rw [abs_le]
    constructor <;> linarith
  rw [← hsame, t.abs_value, scaled]
  rcases t.fits.full with hfull | hleast
  · have hm : (2 ^ 52 : ℚ) ≤ t.mantissa := by exact_mod_cast hfull
    calc 2 ^ 53 * |d.value| ≤ 2 ^ 53 * (2 ^ t.exponent / 2) := by gcongr
      _ = 2 ^ 52 * 2 ^ t.exponent := by ring
      _ ≤ t.mantissa * 2 ^ t.exponent := by gcongr
  · -- At the least exponent every number but zero is a whole gap.
    have hpos : 0 < d.mantissa := by
      rcases Nat.eq_zero_or_pos d.mantissa with hzero | hpos
      · rw [← abs_pos, d.abs_value, hzero, scaled_zero] at hd
        exact absurd hd (lt_irrefl 0)
      · exact hpos
    have hgap := (gapBelow_le_scaled d.fits hpos).2
    rw [d.abs_value, hleast] at hhalf
    linarith [two_zpow_pos (-1074)]

end Parts

/-! ## Finite numbers -/

/-- The number is made of these parts. -/
structure HasParts (x : Float) (p : Parts) : Prop where
  unpack_eq : x.toModel.unpack = p.unpacked
  le : p.exponent ≤ 971

variable {x y : Float} {p r : Parts}

theorem exists_hasParts (h : x.isFinite = true) : ∃ p, HasParts x p := by
  change x.toModel.unpack.isFinite = true at h
  cases hx : x.toModel.unpack with
  | notANumber => simp [hx, UnpackedFloat.isFinite] at h
  | infinity s => simp [hx, UnpackedFloat.isFinite] at h
  | zero s => exact ⟨⟨s, 0, -1074, fits_zero⟩, hx, by norm_num⟩
  | finite s m e hm =>
    obtain ⟨hfits, he⟩ := fits_of_unpack hx
    exact ⟨⟨s, m, e, hfits⟩, hx.trans (ofParts_of_pos s hm e).symm, he⟩

/-- The exact value of a finite number. -/
def value (x : Float) : ℚ :=
  match x.toModel.unpack with
  | .finite .positive m e _ => scaled m e
  | .finite .negative m e _ => -scaled m e
  | _ => 0

theorem HasParts.value_eq (h : HasParts x p) : value x = p.value := by
  obtain ⟨s, m, e, hp⟩ := p
  unfold value
  rw [h.unpack_eq]
  rcases Nat.eq_zero_or_pos m with rfl | hm
  · cases s <;> simp [Parts.unpacked, ofParts, Parts.value, scaled_zero]
  · have hunpacked : Parts.unpacked ⟨s, m, e, hp⟩ = .finite s m e hm := ofParts_of_pos s hm e
    rw [hunpacked]
    cases s <;> rfl

theorem HasParts.isNaN_eq_false (h : HasParts x p) : x.isNaN = false := by
  change x.toModel.unpack.isNaN = false
  rw [h.unpack_eq, Parts.unpacked, ofParts]
  split <;> rfl

theorem HasParts.isFinite (h : HasParts x p) : x.isFinite = true := by
  change x.toModel.unpack.isFinite = true
  rw [h.unpack_eq, Parts.unpacked, ofParts]
  split <;> rfl

theorem Parts.rank_lt_iff (p r : Parts) :
    rank p.unpacked < rank r.unpacked ↔ p.value < r.value := by
  obtain ⟨s, m, e, hp⟩ := p
  obtain ⟨t, n, f, hr⟩ := r
  have hup := scaled_lt_iff hr hp
  have hdown := scaled_lt_iff hp hr
  simp only [unpacked, value]
  rcases Nat.eq_zero_or_pos m with rfl | hm <;> rcases Nat.eq_zero_or_pos n with rfl | hn
  · cases s <;> cases t <;> simp [ofParts, rank, scaled_zero]
  · have hpos := scaled_pos hn f
    rw [ofParts_of_pos t hn]
    cases s <;> cases t <;>
      simp [ofParts, rank, scaled_zero, Prod.Lex.toLex_lt_toLex, hpos, hpos.le]
  · have hpos := scaled_pos hm e
    rw [ofParts_of_pos s hm]
    cases s <;> cases t <;>
      simp [ofParts, rank, scaled_zero, Prod.Lex.toLex_lt_toLex, hpos, hpos.le]
  · have hpos := scaled_pos hm e
    have hpos' := scaled_pos hn f
    rw [ofParts_of_pos s hm, ofParts_of_pos t hn]
    cases s with
    | positive =>
      cases t with
      | positive => simp [rank, Prod.Lex.toLex_lt_toLex, hup]
      | negative =>
        simp only [rank, Prod.Lex.toLex_lt_toLex]
        refine iff_of_false (by norm_num) (by linarith)
    | negative =>
      cases t with
      | positive =>
        simp only [rank, Prod.Lex.toLex_lt_toLex]
        refine iff_of_true (by norm_num) (by linarith)
      | negative => simp [rank, Prod.Lex.toLex_lt_toLex, hdown, eq_comm]

theorem HasParts.lt_iff (hx : HasParts x p) (hy : HasParts y r) : x < y ↔ value x < value y := by
  rw [lt_iff_rank_lt hx.isNaN_eq_false hy.isNaN_eq_false, hx.unpack_eq, hy.unpack_eq,
    Parts.rank_lt_iff, hx.value_eq, hy.value_eq]

/-! ## Adding -/

theorem Parts.value_eq_apply (p : Parts) :
    p.value = (p.sign.apply p.mantissa : ℤ) * 2 ^ p.exponent := by
  obtain ⟨s, m, e, hp⟩ := p
  cases s <;> simp [value, Sign.apply, scaled]

theorem apply_decreaseExponent (s : Sign) (m : ℕ) {e t : ℤ} (h : t ≤ e) :
    ((s.apply (decreaseExponent m e t).1 : ℤ) : ℚ) * 2 ^ t = (s.apply m : ℤ) * 2 ^ e := by
  have hshift := scaled_shiftLeft m (e - t).toNat e
  have hexponent : e - ((e - t).toNat : ℕ) = t := by omega
  rw [hexponent] at hshift
  unfold scaled at hshift
  cases s with
  | positive => simpa only [Sign.apply, decreaseExponent, Int.cast_natCast] using hshift
  | negative =>
    simp only [Sign.apply, decreaseExponent, Int.cast_neg, Int.cast_natCast, neg_mul, hshift]

/-- A zero of either sign. -/
def zeroParts (s : Sign) : Parts := ⟨s, 0, -1074, fits_zero⟩

theorem value_zeroParts (s : Sign) : (zeroParts s).value = 0 := by
  cases s <;> simp [zeroParts, Parts.value, scaled_zero]

theorem rounds_zeroParts (s : Sign) : (zeroParts s).Rounds 0 := by
  have hself := (zeroParts s).rounds_value
  rwa [value_zeroParts] at hself

/-- A whole number times a power of two is rounded with its sign. -/
theorem exists_normalize (mantissa exponent : ℤ) :
    ∃ p : Parts, p.Rounds (mantissa * 2 ^ exponent) ∧
      UnpackedFloat.normalize .binary64 mantissa exponent .positive = p.unpacked := by
  have hscaled {n : ℤ} (hn : 0 ≤ n) : scaled n.toNat exponent = n * 2 ^ exponent := by
    have hcast : ((n.toNat : ℕ) : ℚ) = n := by exact_mod_cast Int.toNat_of_nonneg hn
    rw [scaled, hcast]
  have hpos := two_zpow_pos exponent
  unfold UnpackedFloat.normalize
  rcases lt_trichotomy mantissa 0 with h | rfl | h
  · obtain ⟨m, e, hfits, hround, heq⟩ :=
      exists_round (by omega : (-mantissa).toNat ≠ 0) exponent .negative
    have hcast : (mantissa : ℚ) < 0 := by exact_mod_cast h
    rw [hscaled (by omega), Int.cast_neg, neg_mul] at hround
    rw [compare_lt_iff_lt.mpr h]
    exact ⟨⟨.negative, m, e, hfits⟩, ⟨(mul_neg_of_neg_of_pos hcast hpos).le, hround⟩, heq⟩
  · refine ⟨zeroParts .positive, ?_, rfl⟩
    rw [Int.cast_zero, zero_mul]
    exact rounds_zeroParts .positive
  · obtain ⟨m, e, hfits, hround, heq⟩ :=
      exists_round (by omega : mantissa.toNat ≠ 0) exponent .positive
    have hcast : 0 < (mantissa : ℚ) := by exact_mod_cast h
    rw [hscaled h.le] at hround
    rw [compare_gt_iff_gt.mpr h]
    exact ⟨⟨.positive, m, e, hfits⟩, ⟨(mul_pos hcast hpos).le, hround⟩, heq⟩

/-- Whether it is zero is seen from the mantissa. -/
theorem Parts.unpacked_cases (p : Parts) :
    (∃ s, p = zeroParts s ∧ p.unpacked = .zero s) ∨
      ∃ hm, p.unpacked = .finite p.sign p.mantissa p.exponent hm := by
  obtain ⟨s, m, e, hp⟩ := p
  rcases Nat.eq_zero_or_pos m with rfl | hm
  · obtain rfl : e = -1074 := hp.full.resolve_left (by norm_num)
    exact .inl ⟨s, rfl, rfl⟩
  · exact .inr ⟨hm, ofParts_of_pos s hm e⟩

theorem Parts.exists_add (p r : Parts) :
    ∃ t : Parts, t.Rounds (p.value + r.value) ∧
      UnpackedFloat.add .binary64 p.unpacked r.unpacked = t.unpacked := by
  rcases p.unpacked_cases with ⟨s, rfl, hp⟩ | ⟨hm, hp⟩
  · rw [value_zeroParts, zero_add, hp]
    rcases r.unpacked_cases with ⟨s', rfl, hr⟩ | ⟨hn, hr⟩
    · rw [hr]
      refine ⟨if s == s' then zeroParts s else zeroParts .positive, ?_, ?_⟩
      · rw [value_zeroParts]
        split
        · exact rounds_zeroParts s
        · exact rounds_zeroParts .positive
      · cases s <;> cases s' <;> rfl
    · refine ⟨r, r.rounds_value, ?_⟩
      rw [hr]
      rfl
  · rcases r.unpacked_cases with ⟨s', rfl, hr⟩ | ⟨hn, hr⟩
    · refine ⟨p, ?_, ?_⟩
      · rw [value_zeroParts, add_zero]
        exact p.rounds_value
      · rw [hp, hr]
        rfl
    · rw [hp, hr, p.value_eq_apply, r.value_eq_apply]
      have hleft := apply_decreaseExponent p.sign p.mantissa (min_le_left p.exponent r.exponent)
      have hright := apply_decreaseExponent r.sign r.mantissa (min_le_right p.exponent r.exponent)
      rw [← hleft, ← hright, ← add_mul, ← Int.cast_add]
      exact exists_normalize _ _

/-- The sum is the exact sum, rounded. If that needs too large an exponent it is infinite. -/
theorem HasParts.exists_add (hx : HasParts x p) (hy : HasParts y r) :
    ∃ t : Parts, t.Rounds (p.value + r.value) ∧
      (x + y).toModel.unpack = if t.exponent ≤ 971 then t.unpacked else .infinity t.sign := by
  obtain ⟨t, hround, hadd⟩ := p.exists_add r
  refine ⟨t, hround, ?_⟩
  change Float.Model.unpack
    (.pack (UnpackedFloat.add .binary64 x.toModel.unpack y.toModel.unpack)) = _
  rw [hx.unpack_eq, hy.unpack_eq, hadd]
  exact unpack_pack_ofParts t.fits t.sign

end TickScript.Number
