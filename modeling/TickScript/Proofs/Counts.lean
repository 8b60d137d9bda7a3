-- The numbers that counts become. A count below two to the power of 53 fits into the mantissa
-- of a number, so that it stands for itself there, and different counts become different
-- numbers.
import Mathlib
import TickScript.Number.Spelling

namespace TickScript.Number

open Float.Model

variable {m n : Nat} {e : Int}

theorem log2_shiftLeft (hm : m ≠ 0) (k : Nat) : (m <<< k).log2 = m.log2 + k := by
  induction k with
  | zero => simp
  | succ k ih =>
    have hne : m <<< k ≠ 0 :=
      Nat.ne_of_gt (Nat.shiftLeft_pos_iff.mpr (Nat.pos_of_ne_zero hm))
    rw [Nat.shiftLeft_succ, Nat.log2_two_mul hne, ih]
    rfl

/-- The mantissa of a count: its bits, behind which zeros make up 53 bits. -/
def mantissaOf (n : Nat) : Nat := n <<< (52 - n.log2)

theorem mantissaOf_pos (hn : 0 < n) : 0 < mantissaOf n := Nat.shiftLeft_pos_iff.mpr hn

theorem log2_mantissaOf (hn : 0 < n) (hlog : n.log2 < 53) : (mantissaOf n).log2 = 52 := by
  unfold mantissaOf
  rw [log2_shiftLeft (Nat.ne_of_gt hn)]
  omega

/-! ## Rounding -/

theorem repeat_shiftRightOne (m k : Nat) :
    Nat.repeat UnpackedFloat.ExtendedMantissa.shiftRightOne k ⟨m <<< k, false, false⟩ =
      ⟨m, false, false⟩ := by
  induction k generalizing m with
  | zero => simp [Nat.repeat]
  | succ k ih =>
    rw [Nat.repeat, Nat.shiftLeft_succ_inside, ih]
    simp [UnpackedFloat.ExtendedMantissa.shiftRightOne]

theorem targetExponent_eq (hm : m.log2 = 52) (he : -1074 ≤ e) (k : Nat) :
    Format.binary64.targetExponent (totalExponent (m <<< k) (e - k)) = e := by
  have hne : m ≠ 0 := by
    rintro rfl
    simp at hm
  have hbits : (Format.binary64.mantissaBits : Int) = 53 := rfl
  have hmin : Format.binary64.minExponent = -1074 := rfl
  unfold Format.targetExponent totalExponent
  rw [log2_shiftLeft hne, hm, hbits, hmin]
  omega

theorem shiftToTargetExponent_eq (hm : m.log2 = 52) (he : -1074 ≤ e) (k : Nat) :
    UnpackedFloat.shiftToTargetExponent .binary64 (m <<< k) (e - k) .exact =
      (⟨m, false, false⟩, e) := by
  have hk : (e - (e - k)).toNat = k := by omega
  unfold UnpackedFloat.shiftToTargetExponent UnpackedFloat.shiftToExponent
  simp only [targetExponent_eq hm he k, hk, Prod.mk.injEq]
  exact ⟨repeat_shiftRightOne m k, by omega⟩

/-- A mantissa of 53 bits needs no rounding, whatever zeros follow it. -/
theorem roundWithAccuracy_eq (hm : m.log2 = 52) (hpos : 0 < m) (he : -1074 ≤ e) (k : Nat)
    (s : UnpackedFloat.Sign) :
    UnpackedFloat.roundWithAccuracy .binary64 s (m <<< k) (e - k) .exact = .finite s m e hpos := by
  have hagain := shiftToTargetExponent_eq hm he 0
  rw [Nat.shiftLeft_zero, Int.ofNat_zero, Int.sub_zero] at hagain
  unfold UnpackedFloat.roundWithAccuracy
  rw [shiftToTargetExponent_eq hm he k]
  have hrounded : UnpackedFloat.ExtendedMantissa.roundedMantissa ⟨m, false, false⟩ = m := rfl
  simp only [hrounded, hagain]
  rw [dif_neg (Nat.ne_of_gt hpos)]

theorem round_eq (hn : 0 < n) (hlog : n.log2 < 53) (s : UnpackedFloat.Sign) :
    UnpackedFloat.round .binary64 s n 0 =
      .finite s (mantissaOf n) (n.log2 - 52) (mantissaOf_pos hn) := by
  have hbits : (Format.binary64.mantissaBits : Int) = 53 := rfl
  have hmin : Format.binary64.minExponent = -1074 := rfl
  have htarget : Format.binary64.targetExponent (totalExponent n 0) = n.log2 - 52 := by
    unfold Format.targetExponent totalExponent
    rw [hbits, hmin]
    omega
  have hshift : (0 - ((n.log2 : Int) - 52)).toNat = 52 - n.log2 := by omega
  have hround := roundWithAccuracy_eq (log2_mantissaOf hn hlog) (mantissaOf_pos hn)
    (by omega : -1074 ≤ (n.log2 : Int) - 52) 0 s
  unfold UnpackedFloat.round UnpackedFloat.decreaseExponent
  simp only [htarget, hshift]
  rw [← hround]
  congr 1
  omega

/-! ## Packing and unpacking -/

theorem toNat_implicit (hm : m.log2 = 52) (hpos : 0 < m) :
    ((1#1 ++ BitVec.ofNat 52 m).toNat) = m := by
  have hlow := (Nat.le_log2 (Nat.ne_of_gt hpos)).mp (Nat.le_of_eq hm.symm)
  have hhigh := (Nat.log2_lt (Nat.ne_of_gt hpos)).mp (by omega : m.log2 < 53)
  rw [BitVec.toNat_append, BitVec.toNat_ofNat, BitVec.toNat_ofNat,
    ← Nat.shiftLeft_add_eq_or_of_lt (Nat.mod_lt _ (by decide))]
  simp only [Nat.shiftLeft_eq]
  omega

theorem toNat_exponent {b : Nat} (hb : b ≤ 2046) : (BitVec.ofNat 11 b).toNat = b := by
  rw [BitVec.toNat_ofNat, Nat.mod_eq_of_lt (by omega)]

/-- An exponent that is neither the first nor the last stands for a number with an implicit
first bit. -/
theorem unpack_packComponents {b : Nat} (hm : m.log2 = 52) (hpos : 0 < m) (hfirst : 1 ≤ b)
    (hlast : b ≤ 2046) (s : UnpackedFloat.Sign) :
    UnpackedFloat.unpack .binary64
        (UnpackedFloat.packComponents .binary64 s (BitVec.ofNat 11 b) (BitVec.ofNat 52 m)) =
      .finite s m (b - (1023 + 52)) hpos := by
  have hnotLast : ¬ BitVec.ofNat 11 b = -1#11 := by
    intro h
    have hvalue : (BitVec.ofNat 11 b).toNat = 2047 := congrArg BitVec.toNat h
    rw [toNat_exponent hlast] at hvalue
    omega
  have hnotFirst : ¬ BitVec.ofNat 11 b = 0#11 := by
    intro h
    have hvalue : (BitVec.ofNat 11 b).toNat = 0 := congrArg BitVec.toNat h
    rw [toNat_exponent hlast] at hvalue
    omega
  unfold UnpackedFloat.unpack
  simp only [UnpackedFloat.unpackMantissa_packComponents,
    UnpackedFloat.unpackExponent_packComponents, UnpackedFloat.unpackSign_packComponents,
    UnpackedFloat.Sign.ofBitVec_toBitVec]
  refine (if_neg hnotLast).trans ((if_neg hnotFirst).trans ?_)
  congr 1
  · exact toNat_implicit hm hpos
  · rw [toNat_exponent hlast]
    rfl

theorem unpack_pack (hm : m.log2 = 52) (hpos : 0 < m) (he : -1074 ≤ e) (hle : e ≤ 971)
    (s : UnpackedFloat.Sign) :
    UnpackedFloat.unpack .binary64 (UnpackedFloat.pack .binary64 (.finite s m e hpos)) =
      .finite s m e hpos := by
  have hbias : Format.binary64.exponentBias = 1023 := rfl
  have hbits : Format.binary64.mantissaBits = 53 := rfl
  generalize hb : (e + 1023 + 52).toNat = b
  have hpack : UnpackedFloat.pack .binary64 (.finite s m e hpos) =
      UnpackedFloat.packComponents .binary64 s (BitVec.ofNat 11 b) (BitVec.ofNat 52 m) := by
    unfold UnpackedFloat.pack
    simp only [hm, hbits, hbias, ↓reduceIte]
    refine (if_neg ?_).trans ?_
    · change ¬ 2048 ≤ (e + 1023 + 52).toNat + 1
      omega
    · rw [← hb]
      rfl
  rw [hpack, unpack_packComponents hm hpos (by omega) (by omega)]
  congr 1
  omega

/-! ## Counts -/

theorem unpack_one : Float.Model.unpack (Float.exactlyRepresentablePowersOfTen[0]).toModel =
    .finite .positive (1 <<< 52) (-52) (by decide) := by
  rfl

/-- A product with one is rounded back to what it was. -/
theorem mul_unit (hm : m.log2 = 52) (hpos : 0 < m) (he : -1074 ≤ e) (s : UnpackedFloat.Sign) :
    UnpackedFloat.mul .binary64 (.finite s m e hpos)
        (.finite .positive (1 <<< 52) (-52) (by decide)) =
      .finite s m e hpos := by
  have hs : s * .positive = s := by cases s <;> rfl
  have hshift : m * 1 <<< 52 = m <<< 52 := by
    rw [Nat.shiftLeft_eq, Nat.shiftLeft_eq, Nat.one_mul]
  unfold UnpackedFloat.mul
  dsimp only
  rw [hs, hshift]
  exact roundWithAccuracy_eq hm hpos he 52 s

theorem unpack_toFloat (hn : 0 < n) (hlog : n.log2 < 53) (hlt : n < 0x20000000000000) :
    n.toUInt64.toFloat.toModel.unpack =
      .finite .positive (mantissaOf n) (n.log2 - 52) (mantissaOf_pos hn) := by
  have hnat : n.toUInt64.toNat = n := by
    rw [UInt64.toNat_ofNat']
    omega
  change UnpackedFloat.unpack .binary64
    (UnpackedFloat.pack .binary64 (UnpackedFloat.ofUInt64 .binary64 n.toUInt64)) = _
  unfold UnpackedFloat.ofUInt64 UnpackedFloat.ofNat UnpackedFloat.ofInt UnpackedFloat.normalize
  rw [hnat, Int.compare_eq_gt.mpr (by omega)]
  simp only [Int.toNat_natCast, round_eq hn hlog]
  exact unpack_pack (log2_mantissaOf hn hlog) (mantissaOf_pos hn) (by omega) (by omega) .positive

/-- A decimal without a fraction is a whole number times ten to the power of zero. -/
theorem ofNat_eq_mul (hlt : n < 0x20000000000000) :
    Float.ofNat n = n.toUInt64.toFloat * Float.exactlyRepresentablePowersOfTen[0] := by
  change Float.ofScientific n false 0 = _
  unfold Float.ofScientific
  rw [dif_pos ⟨hlt, by decide⟩]
  rfl

theorem unpack_ofNat (hn : 0 < n) (hlt : n < 0x20000000000000) :
    (Float.ofNat n).toModel.unpack =
      .finite .positive (mantissaOf n) (n.log2 - 52) (mantissaOf_pos hn) := by
  have hlog : n.log2 < 53 := (Nat.log2_lt (Nat.ne_of_gt hn)).mpr hlt
  have hm := log2_mantissaOf hn hlog
  rw [ofNat_eq_mul hlt]
  change UnpackedFloat.unpack .binary64 (UnpackedFloat.pack .binary64
    (UnpackedFloat.mul .binary64 n.toUInt64.toFloat.toModel.unpack _)) = _
  rw [unpack_toFloat hn hlog hlt, unpack_one, mul_unit hm (mantissaOf_pos hn) (by omega)]
  exact unpack_pack hm (mantissaOf_pos hn) (by omega) (by omega) .positive

/-- Numbers tell counts below two to the power of 53 apart. -/
theorem ofNat_inj (hm : m < 0x20000000000000) (hn : n < 0x20000000000000)
    (h : Float.ofNat m = Float.ofNat n) : m = n := by
  have hunpack := congrArg (fun x => x.toModel.unpack) h
  rcases Nat.eq_zero_or_pos m with rfl | hm0
  · rcases Nat.eq_zero_or_pos n with rfl | hn0
    · rfl
    · rw [unpack_ofNat hn0 hn] at hunpack
      cases hunpack
  · rcases Nat.eq_zero_or_pos n with rfl | hn0
    · rw [unpack_ofNat hm0 hm] at hunpack
      cases hunpack
    · rw [unpack_ofNat hm0 hm, unpack_ofNat hn0 hn] at hunpack
      injection hunpack with _ hmantissa hexponent
      have hlog : m.log2 = n.log2 := by omega
      unfold mantissaOf at hmantissa
      rw [hlog, Nat.shiftLeft_eq, Nat.shiftLeft_eq] at hmantissa
      exact Nat.eq_of_mul_eq_mul_right (Nat.two_pow_pos _) hmantissa

end TickScript.Number
