-- Printed numbers. The text of a number has the value of a decimal that lies in the interval of the
-- number, so reading it gives the number again. Only the sign of zero is lost. Whole numbers of up
-- to fifteen digits are printed as integers.
import TickScript.Proofs.Decimals
import TickScript.Proofs.Spellings

namespace TickScript.Number

open Float.Model UnpackedFloat

variable {q : ℚ} {c : Char} {n m : ℕ} {x : Float} {s : Sign} {e : ℤ}
open TickScript.Text

/-! ## Decimals as texts -/

/-- Digits with or without a point, which together have the value `q`. -/
inductive WritesOut (q : ℚ) : List Char → Prop
  | mk {whole fraction : List Char} (hne : whole ≠ []) (hwhole : ∀ c ∈ whole, c.isDigit = true)
      (hfraction : IsFraction fraction)
      (hvalue : (digitsToNat (whole ++ fraction.tail) : ℚ) * 10 ^ (-(fraction.tail.length : ℤ)) =
        q) : WritesOut q (whole ++ fraction)

theorem WritesOut.isDecimal {cs : List Char} (h : WritesOut q cs) : IsDecimal cs := by
  obtain ⟨hne, hwhole, hfraction, -⟩ := h
  have hdecimal := IsDecimal.mk hwhole hfraction .none (.inl hne)
  rwa [List.append_nil] at hdecimal

theorem readDecimal?_of_isFraction {whole fraction : List Char} (hne : whole ≠ [])
    (hwhole : ∀ c ∈ whole, c.isDigit = true) (hfraction : IsFraction fraction) :
    readDecimal? (whole ++ fraction) =
      some (ofDecimal (digitsToNat (whole ++ fraction.tail)) (-(fraction.tail.length : ℤ))) := by
  have hempty : whole.isEmpty = false := by simpa using hne
  have hpoint : ∀ c ∈ fraction.head?, c.isDigit = false := by
    intro c hc
    cases hfraction with
    | none => cases hc
    | some =>
      cases hc
      decide
  obtain ⟨htake, hdrop⟩ := takeWhile_append hwhole hpoint
  simp only [readDecimal?, htake, hdrop, hempty, Bool.false_and]
  cases hfraction with
  | none => simp [readExponent?]
  | @some places _ hplaces =>
    have htakeAll : places.takeWhile Char.isDigit = places :=
      List.takeWhile_eq_self_iff.mpr hplaces
    have hdropAll : places.dropWhile Char.isDigit = [] := List.dropWhile_eq_nil_iff.mpr hplaces
    simp [htakeAll, hdropAll, readExponent?]

theorem toLower_of_isDigit (hc : c.isDigit = true) : c.toLower = c := by
  simp only [Char.isDigit, Bool.and_eq_true, decide_eq_true_eq] at hc
  unfold Char.toLower
  split
  · rename_i hupper
    exact absurd (UInt32.le_trans hupper.1 hc.2) (by decide)
  · rfl

/-- A digit begins no word. -/
theorem readUnsigned?_of_isDigit (hc : c.isDigit = true) (rest : List Char) :
    readUnsigned? (c :: rest) = readDecimal? (c :: rest) := by
  have hword (word : String) {d : Char} (hd : word.toList.head? = some d)
      (hletter : d.isDigit = false) : String.ofList ((c :: rest).map Char.toLower) ≠ word := by
    rintro rfl
    rw [String.toList_ofList, List.map_cons, List.head?_cons, toLower_of_isDigit hc] at hd
    cases hd
    rw [hc] at hletter
    cases hletter
  simp only [readUnsigned?, hword "inf" rfl rfl, hword "infinity" rfl rfl, hword "nan" rfl rfl,
    decide_false, Bool.or_self, Bool.false_eq_true, ↓reduceIte]

theorem WritesOut.readUnsigned? {cs : List Char} (h : WritesOut q cs) :
    ∃ (digits : ℕ) (exponent : ℤ), readUnsigned? cs = some (ofDecimal digits exponent) ∧
      (digits : ℚ) * 10 ^ exponent = q := by
  obtain @⟨whole, fraction, hne, hwhole, hfraction, hvalue⟩ := h
  refine ⟨_, _, ?_, hvalue⟩
  rw [← readDecimal?_of_isFraction hne hwhole hfraction]
  obtain ⟨c, rest, rfl⟩ := List.exists_cons_of_ne_nil hne
  exact readUnsigned?_of_isDigit (hwhole c (by simp)) _

/-! ## What is written out -/

theorem digitsToNat_append (cs ds : List Char) :
    digitsToNat (cs ++ ds) = 10 ^ ds.length * digitsToNat cs + digitsToNat ds := by
  change Nat.ofDigitChars 10 (cs ++ ds) 0 = _
  rw [Nat.ofDigitChars_append, Nat.ofDigitChars_eq_ofDigitChars_zero]
  rfl

theorem digitsToNat_toDigits (n : ℕ) : digitsToNat (Nat.toDigits 10 n) = n :=
  Nat.ofDigitChars_ten_toDigits

theorem digitsToNat_replicate (k : ℕ) : digitsToNat (List.replicate k '0') = 0 := by
  change Nat.ofDigitChars 10 _ 0 = 0
  rw [Nat.ofDigitChars_replicate_zero, Nat.mul_zero]

theorem isDigit_of_mem_digits {k : ℕ} (h : c ∈ List.replicate k '0' ++ Nat.toDigits 10 n) :
    c.isDigit = true := by
  rcases List.mem_append.mp h with h | h
  · rw [List.eq_of_mem_replicate h]
    decide
  · exact Nat.isDigit_of_mem_toDigits (by decide) (by decide) h

/-- Zeros at the end stand for a power of ten. -/
theorem writesOut_zeros (n k : ℕ) :
    WritesOut (n * 10 ^ k) (Nat.toDigits 10 n ++ List.replicate k '0') := by
  have hall : ∀ c ∈ Nat.toDigits 10 n ++ List.replicate k '0', c.isDigit = true :=
    fun c hc => isDigit_of_mem_digits (List.mem_append.mpr (List.mem_append.mp hc).symm)
  have hwrites := WritesOut.mk (List.append_ne_nil_of_left_ne_nil Nat.toDigits_ne_nil _) hall
    .none rfl
  rw [List.append_nil] at hwrites
  convert hwrites using 1
  rw [List.tail_nil, List.append_nil, digitsToNat_append, digitsToNat_replicate,
    digitsToNat_toDigits, List.length_replicate]
  simp [mul_comm]

theorem writesOut_toDigits (n : ℕ) : WritesOut n (Nat.toDigits 10 n) := by
  simpa using writesOut_zeros n 0

/-- Zeros at the front fill up the places. -/
theorem writesOut_padded {digits : List Char} (hdigits : ∀ c ∈ digits, c.isDigit = true)
    {places : ℕ} (hpos : 0 < places) (hlength : places < digits.length) :
    WritesOut (digitsToNat digits * 10 ^ (-(places : ℤ)))
      (digits.take (digits.length - places) ++ '.' :: digits.drop (digits.length - places)) := by
  have hcount : (digits.drop (digits.length - places)).length = places := by
    rw [List.length_drop]
    omega
  refine .mk ?_ (fun c hc => hdigits c (List.mem_of_mem_take hc))
    (.some ?_ fun c hc => hdigits c (List.mem_of_mem_drop hc)) ?_
  · rw [← List.length_pos_iff, List.length_take]
    omega
  · rw [← List.length_pos_iff, hcount]
    exact hpos
  · rw [List.tail_cons, List.take_append_drop, hcount]

theorem Decimal.writesOut_positional (d : Decimal) : WritesOut d.value d.positional.toList := by
  have hpower : (0 : ℤ) ≤ d.exponent → (10 : ℚ) ^ d.exponent = 10 ^ d.exponent.toNat := by
    intro h
    rw [← zpow_natCast, Int.toNat_of_nonneg h]
  unfold positional
  dsimp only
  split
  · rw [String.toList_ofList, Decimal.value, hpower (by omega)]
    exact writesOut_zeros d.digits d.exponent.toNat
  · rename_i hplaces
    generalize hzeros : (-d.exponent).toNat + 1 - (Nat.toDigits 10 d.digits).length = zeros
    have hwrites := writesOut_padded (fun c => isDigit_of_mem_digits (k := zeros) (n := d.digits))
      (Nat.pos_of_ne_zero hplaces) (by rw [List.length_append, List.length_replicate]; omega)
    have hexponent : -((-d.exponent).toNat : ℤ) = d.exponent := by omega
    rw [digitsToNat_append, digitsToNat_replicate, digitsToNat_toDigits, Nat.mul_zero,
      Nat.zero_add, hexponent] at hwrites
    rw [String.toList_ofList]
    exact hwrites

/-! ## Reading back -/

def signText : Sign → String
  | .positive => ""
  | .negative => "-"

theorem unpack_neg {hm : 0 < m} (hx : x.toModel.unpack = .finite s m e hm) :
    (-x).toModel.unpack = .finite (-s) m e hm := by
  obtain ⟨hfits, he⟩ := fits_of_unpack hx
  have hpacked := unpack_pack_ofParts hfits (-s)
  rw [if_pos he, ofParts_of_pos _ hm] at hpacked
  change Float.Model.unpack (.pack x.toModel.unpack.neg) = _
  rw [hx]
  exact hpacked

/-- A text with a value in the interval of a number is read as the number. -/
theorem read?_of_writesOut {hm : 0 < m} (hx : x.toModel.unpack = .finite s m e hm) {text : String}
    (htext : WritesOut q text.toList) (hq : RoundsTo q m e) :
    read? (signText s ++ text) = some x := by
  obtain ⟨hfits, he⟩ := fits_of_unpack hx
  obtain ⟨digits, exponent, hread, rfl⟩ := htext.readUnsigned?
  have hy := unpack_ofDecimal hfits he hm.ne' hq
  have hspells : (Lexeme.mk .number text).Spells (ofDecimal digits exponent) :=
    .decimal htext.isDecimal hread
  rw [ofParts_of_pos _ hm] at hy
  cases s with
  | positive =>
    rw [unpack_inj (hx.trans hy.symm)]
    simpa [signText] using hspells.read?
  | negative =>
    rw [unpack_inj (hx.trans (unpack_neg hy).symm)]
    exact hspells.read?_minus

/-! ## What is printed -/

theorem toString_eq (n : ℤ) :
    toString n = (if n < 0 then "-" else "") ++ String.ofList (Nat.toDigits 10 n.natAbs) := by
  have hrepr (k : ℕ) : k.repr = String.ofList (Nat.toDigits 10 k) := by
    rw [← String.toList_inj, Nat.toList_repr, String.toList_ofList]
  rw [Int.toString_eq_repr, Int.repr_eq_if, hrepr, hrepr]
  rcases lt_or_ge n 0 with h | h
  · have habs : (-n).toNat = n.natAbs := by omega
    rw [if_neg (not_le.mpr h), if_pos h, habs]
  · have habs : n.toNat = n.natAbs := by omega
    rw [if_pos h, if_neg (not_lt.mpr h), habs, String.empty_append]

theorem toString_signed (s : Sign) (hn : 0 < n) :
    toString (signed s n) = signText s ++ String.ofList (Nat.toDigits 10 n) := by
  rw [toString_eq]
  cases s with
  | positive => rw [signed, if_neg (Int.natCast_nonneg n).not_gt, Int.natAbs_natCast, signText]
  | negative =>
    rw [signed, if_pos (Int.neg_neg_of_pos (Int.natCast_pos.mpr hn)), Int.natAbs_neg,
      Int.natAbs_natCast, signText]

/-- The text of a finite number other than zero has a value in its interval. -/
theorem exists_writesOut_format {hm : 0 < m} (hx : x.toModel.unpack = .finite s m e hm) :
    ∃ text q, format x = signText s ++ text ∧ WritesOut q text.toList ∧ RoundsTo q m e := by
  obtain ⟨hfits, -⟩ := fits_of_unpack hx
  have hpos : 0 < 2 ^ (-e).toNat := by positivity
  simp only [format, small?, hx, Nat.pow_eq]
  split
  · rename_i hsmall
    split at hsmall
    · rename_i hwhole
      cases hsmall
      have hdvd := Nat.dvd_of_mod_eq_zero hwhole.1
      have hquotient : 0 < m <<< e.toNat / 2 ^ (-e).toNat :=
        Nat.div_pos (Nat.le_of_dvd (Nat.shiftLeft_pos_iff.mpr hm) hdvd) hpos
      have hvalue : ((m <<< e.toNat / 2 ^ (-e).toNat : ℕ) : ℚ) = scaled m e := by
        rw [Nat.cast_div hdvd (Nat.cast_ne_zero.mpr hpos.ne'), scaled, zpow_eq_div,
          Nat.shiftLeft_eq]
        push_cast
        ring
      refine ⟨_, scaled m e, toString_signed s hquotient, ?_, roundsTo_self m e⟩
      rw [String.toList_ofList, ← hvalue]
      exact writesOut_toDigits _
    · cases hsmall
  · refine ⟨_, _, ?_, (shortest m e).writesOut_positional, roundsTo_shortest hm.ne' hfits⟩
    cases s with
    | positive => simp [plain, hx, signText]
    | negative => simp [plain, hx, signText]

theorem read?_format_of_finite {hm : 0 < m} (hx : x.toModel.unpack = .finite s m e hm) :
    read? (format x) = some x := by
  obtain ⟨text, q, hformat, htext, hq⟩ := exists_writesOut_format hx
  rw [hformat]
  exact read?_of_writesOut hx htext hq

theorem read?_format_of_infinity (hx : x.toModel.unpack = .infinity s) :
    read? (format x) = some x := by
  rw [← ofModel_pack_unpack x, hx]
  cases s <;> decide

/-! ## Whole numbers -/

theorem small?_of_unpack (hpos : 0 < n) (hn : n < 10 ^ 15)
    (hx : x.toModel.unpack = .finite s (mantissaOf n) (n.log2 - 52) (mantissaOf_pos hpos)) :
    small? x = some (signed s n) := by
  have hlog : n.log2 < 50 := (Nat.log2_lt hpos.ne').mpr (hn.trans (by norm_num))
  have hup : ((n.log2 : ℤ) - 52).toNat = 0 := by omega
  have hdown : (-((n.log2 : ℤ) - 52)).toNat = 52 - n.log2 := by omega
  have hshift : mantissaOf n = n * 2 ^ (52 - n.log2) := Nat.shiftLeft_eq n _
  have hunit : 0 < 2 ^ (52 - n.log2) := by positivity
  simp only [small?, hx, hup, hdown, Nat.shiftLeft_zero, Nat.pow_eq, hshift, Nat.mul_mod_left,
    Nat.mul_div_cancel n hunit, true_and]
  exact if_pos hn

theorem small?_ofInt {n : ℤ} (hn : n.natAbs < 10 ^ 15) : small? (Float.ofInt n) = some n := by
  have hlt {k : ℕ} (hk : k < 10 ^ 15) : k < 0x20000000000000 := hk.trans (by norm_num)
  cases n with
  | ofNat k =>
    rcases Nat.eq_zero_or_pos k with rfl | hpos
    · decide
    · exact small?_of_unpack hpos hn (unpack_ofNat hpos (hlt hn))
  | negSucc k =>
    have hx := unpack_neg (unpack_ofNat k.succ_pos (hlt hn))
    exact small?_of_unpack k.succ_pos hn hx

theorem format_of_beq {n : ℤ} (hn : n.natAbs < 10 ^ 15) (hx : (x == Float.ofInt n) = true) :
    format x = toString n := by
  have hwhole := small?_ofInt hn
  have hsmall : small? x = some n := by
    obtain ⟨-, -, rfl | ⟨rfl, hzero⟩ | ⟨rfl, hzero⟩⟩ := Float.beq_iff_ne_nan_and_eq.mp hx
    · exact hwhole
    · rw [hzero] at hwhole
      rw [← hwhole]
      decide
    · rw [hzero] at hwhole
      rw [← hwhole]
      decide
  rw [format, hsmall]

/-- A number that is printed and read again is the same number, except that zero loses its sign.
A whole number of up to fifteen digits is printed with its digits and nothing else, and with a sign
only if it is below zero. -/
theorem numbers_survive_printing :
    (∀ x : Float, x.isNaN = false →
      ∃ y, read? (format x) = some y ∧ (y == x) = true ∧ ((x == 0) = false → y = x)) ∧
    ∀ (n : ℤ) (x : Float), n.natAbs < 10 ^ 15 → (x == Float.ofInt n) = true →
      format x = (if n < 0 then "-" else "") ++ String.ofList (Nat.toDigits 10 n.natAbs) := by
  constructor
  · intro x hnumber
    have hself : (x == x) = true := by
      rw [Float.isNaN_eq_decide_eq_nan, decide_eq_false_iff_not] at hnumber
      exact Float.beq_self_iff.mpr hnumber
    cases hx : x.toModel.unpack with
    | notANumber =>
      have hnan : x.isNaN = x.toModel.unpack.isNaN := rfl
      rw [hnan, hx] at hnumber
      cases hnumber
    | infinity s => exact ⟨x, read?_format_of_infinity hx, hself, fun _ => rfl⟩
    | zero s =>
      obtain rfl | rfl := eq_zero_of_unpack hx
      · exact ⟨0, by decide⟩
      · exact ⟨0, by decide⟩
    | finite s m e hm => exact ⟨x, read?_format_of_finite hx, hself, fun _ => rfl⟩
  · intro n x hn hx
    rw [format_of_beq hn hx, toString_eq]

/-- The smallest number above zero, and the least whole number that is printed as one. -/
theorem numbers_survive_printing_at_edges :
    (∃ y, read? (format 5e-324) = some y ∧ (y == 5e-324) = true ∧
      (((5e-324 : Float) == 0) = false → y = 5e-324)) ∧
    format (-999999999999999) = "-999999999999999" :=
  ⟨numbers_survive_printing.1 5e-324 (by decide +kernel),
    numbers_survive_printing.2 (-999999999999999) _ (by decide) (by decide)⟩

end TickScript.Number
