-- Random numbers. Stirring a word loses nothing, so a generator that is not at zero never comes
-- there, and two generators that differ go on differing. What is drawn is a fraction of two to the
-- power of 53, held exactly, and less than one.
import TickScript.Proofs.Decimals
import TickScript.Proofs.Sums
import TickScript.Program
import TickScript.Session

namespace TickScript

open Float.Model UnpackedFloat Number

/-! ## Stirring -/

section

variable {w k : ℕ} {z : BitVec w}

/-- The lowest bits of a word that was shifted to the left are clear, and all others follow them. -/
theorem eq_zero_of_shiftLeft_eq (hk : 0 < k) (h : z <<< k = z) : z = 0 := by
  have hclear : ∀ i : ℕ, z.getLsbD i = false := by
    intro i
    induction i using Nat.strong_induction_on with
    | _ i ih =>
      rw [← h, BitVec.getLsbD_shiftLeft]
      by_cases hi : i < k
      · simp [hi]
      · simp [ih (i - k) (by omega)]
  refine BitVec.eq_of_getLsbD_eq fun i _ => ?_
  rw [hclear i, BitVec.ofNat_eq_ofNat, BitVec.getLsbD_zero]

theorem eq_zero_of_shiftRight_eq (hk : 0 < k) (h : z >>> k = z) : z = 0 := by
  have hdiv : z.toNat / 2 ^ k = z.toNat := by
    rw [← Nat.shiftRight_eq_div_pow, ← BitVec.toNat_ushiftRight, h]
  have hzero : z.toNat = 0 := by
    by_contra hne
    have hlt := Nat.div_lt_self (Nat.pos_of_ne_zero hne) (Nat.one_lt_two_pow hk.ne')
    omega
  exact BitVec.eq_of_toNat_eq (by simpa using hzero)

/-- Words that are told apart by their difference stay so if only zero is its own shift. -/
theorem xor_shift_injective {shift : BitVec w → BitVec w}
    (hxor : ∀ x y, shift (x ^^^ y) = shift x ^^^ shift y) (hfixed : ∀ z, shift z = z → z = 0) :
    Function.Injective fun x => x ^^^ shift x := by
  intro x y h
  have hsame : shift (x ^^^ y) = x ^^^ y := by
    rw [hxor, ← BitVec.xor_eq_zero_iff]
    calc shift x ^^^ shift y ^^^ (x ^^^ y) = (x ^^^ shift x) ^^^ (y ^^^ shift y) := by ac_rfl
      _ = 0#w := BitVec.xor_eq_zero_iff.mpr h
  exact BitVec.xor_eq_zero_iff.mp (hfixed _ hsame)

theorem xor_shiftLeft_injective (hk : 0 < k) :
    Function.Injective fun x : BitVec w => x ^^^ x <<< k :=
  xor_shift_injective (fun x y => BitVec.shiftLeft_xor_distrib x y k)
    fun _ => eq_zero_of_shiftLeft_eq hk

theorem xor_shiftRight_injective (hk : 0 < k) :
    Function.Injective fun x : BitVec w => x ^^^ x >>> k :=
  xor_shift_injective (fun x y => BitVec.ushiftRight_xor_distrib x y k)
    fun _ => eq_zero_of_shiftRight_eq hk

end

theorem nextRandom_injective : Function.Injective nextRandom := by
  have hbits : ∀ s, (nextRandom s).toBitVec =
      ((fun x : BitVec 64 => x ^^^ x <<< 17) ∘ (fun x : BitVec 64 => x ^^^ x >>> 7) ∘
        fun x : BitVec 64 => x ^^^ x <<< 13) s.toBitVec := by
    intro s
    simp [nextRandom]
  have hstirred := (xor_shiftLeft_injective (w := 64) (k := 17) (by decide)).comp
    ((xor_shiftRight_injective (k := 7) (by decide)).comp
      (xor_shiftLeft_injective (k := 13) (by decide)))
  intro s t h
  apply UInt64.toBitVec_inj.mp
  apply hstirred
  rw [← hbits, ← hbits, h]

theorem nextRandom_ne_zero {s : UInt64} (h : s ≠ 0) : nextRandom s ≠ 0 := by
  have hzero : nextRandom 0 = 0 := by decide
  intro hs
  exact h (nextRandom_injective (hs.trans hzero.symm))

theorem iterate_nextRandom_ne_zero {s : UInt64} (h : s ≠ 0) (n : ℕ) : nextRandom^[n] s ≠ 0 := by
  induction n generalizing s with
  | zero => exact h
  | succ n ih => exact ih (nextRandom_ne_zero h)

theorem randomSeed_ne_zero (seed : UInt64) : randomSeed seed ≠ 0 := by
  unfold randomSeed
  split
  · decide
  · assumption

/-! ## Units -/

theorem toNat_shiftRight_lt (s : UInt64) : (s >>> 11).toNat < 2 ^ 53 := by
  have hs := s.toNat_lt
  have heq : (s >>> 11).toNat = s.toNat / 2 ^ 11 := by
    rw [UInt64.toNat_shiftRight, Nat.shiftRight_eq_div_pow]
    rfl
  omega

theorem unpack_ofNat_limit : (Float.ofNat 0x20000000000000).toModel.unpack =
    .finite .positive (2 ^ 52) 1 (by decide) := by
  have hpacked : Float.ofNat 0x20000000000000 =
      .ofModel (.pack (.finite .positive (2 ^ 52) 1 (by decide))) := by decide
  rw [hpacked]
  exact unpack_pack (by decide) (by decide) (by decide) (by decide) .positive

/-- Dividing by a power of two moves the exponent and leaves the mantissa as it is. -/
theorem exists_hasParts_randomUnit (s : UInt64) :
    ∃ p : Parts, HasParts (randomUnit s) p ∧ p.sign = .positive ∧
      p.value = (s >>> 11).toNat / 2 ^ 53 := by
  have hlt := toNat_shiftRight_lt s
  unfold randomUnit
  generalize (s >>> 11).toNat = n at hlt ⊢
  rcases Nat.eq_zero_or_pos n with rfl | hn
  · refine ⟨zeroParts .positive, ⟨rfl, by decide⟩, rfl, ?_⟩
    rw [value_zeroParts, Nat.cast_zero, zero_div]
  · have hlog : n.log2 < 53 := (Nat.log2_lt hn.ne').mpr hlt
    have hmantissa := log2_mantissaOf hn hlog
    have hbounds := (Nat.log2_eq_iff (mantissaOf_pos hn).ne').mp hmantissa
    have hfits : Fits (mantissaOf n) (n.log2 - 52 - 53) :=
      ⟨hbounds.2, by omega, .inl hbounds.1⟩
    have hquotient : scaled (mantissaOf n) (n.log2 - 52) / scaled (2 ^ 52) 1 =
        scaled (mantissaOf n) (n.log2 - 52 - 53) := by
      unfold scaled
      rw [zpow_sub₀ (by norm_num) _ 53]
      norm_num
      ring
    have hround := roundsTo_self (mantissaOf n) (n.log2 - 52 - 53)
    rw [← hquotient] at hround
    refine ⟨⟨.positive, _, _, hfits⟩, ⟨?_, by simp only; omega⟩, rfl, ?_⟩
    · change Float.Model.unpack (.pack (UnpackedFloat.div .binary64
        (Float.ofNat n).toModel.unpack (Float.ofNat 0x20000000000000).toModel.unpack)) = _
      rw [unpack_ofNat hn hlt, unpack_ofNat_limit, div_eq_ofParts _ _ hfits hround,
        unpack_pack_ofParts hfits, if_pos (by omega)]
      rfl
    · change scaled _ _ = _
      rw [← hquotient, scaled_mantissaOf hlog]
      norm_num [scaled]

theorem value_randomUnit (s : UInt64) :
    Number.value (randomUnit s) = (s >>> 11).toNat / 2 ^ 53 := by
  obtain ⟨p, hp, -, hvalue⟩ := exists_hasParts_randomUnit s
  rw [hp.value_eq, hvalue]

theorem zero_le_randomUnit (s : UInt64) : 0 ≤ randomUnit s := by
  obtain ⟨p, hp, hsign, -⟩ := exists_hasParts_randomUnit s
  have hzero : (0 : Float).toModel.unpack = .zero .positive := rfl
  unfold LE.le instLEFloat Float.le
  simp only [decide_eq_true_eq]
  change (0 : Float).toModel.unpack.le (randomUnit s).toModel.unpack = true
  rw [hzero, hp.unpack_eq]
  rcases p.unpacked_cases with ⟨sign, -, hzero⟩ | ⟨hm, hfinite⟩
  · rw [hzero]
    rfl
  · rw [hfinite, hsign]
    rfl

theorem randomUnit_lt_one (s : UInt64) : randomUnit s < 1 := by
  obtain ⟨p, hp, -, -⟩ := exists_hasParts_randomUnit s
  obtain ⟨r, hr⟩ := exists_hasParts (x := 1) (by decide)
  have hone : Number.value 1 = 1 := by
    change scaled (2 ^ 52) (-52) = 1
    norm_num [scaled]
  rw [hp.lt_iff hr, value_randomUnit, hone, div_lt_one (by positivity)]
  exact_mod_cast toNat_shiftRight_lt s

/-! ## Draws -/

open Library

/-- The state after a draw for each of the values in turn. That a value is not a number is found
after the draw. -/
def State.afterDraws (s : State) (values : List Value) : State :=
  values.foldl (fun s v => (Session.resultOf (draw v s)).2) s

/-- A draw changes the generator and nothing else. -/
theorem state_draw (v : Value) (s : State) : (Session.resultOf (draw v s)).2 =
    { s with machine := { s.machine with random := nextRandom s.machine.random } } := by
  simp only [draw, bind, EStateM.bind]
  cases v.toNumber "rand" <;> rfl

theorem random_afterDraws (s : State) (values : List Value) :
    (s.afterDraws values).machine.random = nextRandom^[values.length] s.machine.random := by
  induction values generalizing s with
  | nil => rfl
  | cons v values ih =>
    change ((Session.resultOf (draw v s)).2.afterDraws values).machine.random = _
    rw [ih, state_draw]
    rfl

/-- The number is drawn with the generator at this word: a fraction of two to the power of 53,
which is held exactly, is not negative and is below one. -/
structure IsDrawn (word : UInt64) (unit : Float) : Prop where
  eq : unit = randomUnit word
  toNat_lt : (word >>> 11).toNat < 2 ^ 53
  value : Number.value unit = (word >>> 11).toNat / 2 ^ 53
  nonneg : 0 ≤ unit
  lt_one : unit < 1

theorem isDrawn_randomUnit (word : UInt64) : IsDrawn word (randomUnit word) where
  eq := rfl
  toNat_lt := toNat_shiftRight_lt word
  value := value_randomUnit word
  nonneg := zero_le_randomUnit word
  lt_one := randomUnit_lt_one word

/-- A seed is never zero, and the program starts with one. From a generator that is not at zero
any number of draws, whatever they are for, leads to one that is not at zero either, and two that
differ go on differing. -/
theorem draws_never_stick :
    (∀ seed, randomSeed seed ≠ 0 ∧ (Program.startMachine seed).random = randomSeed seed) ∧
      Function.Injective nextRandom ∧
      ∀ (s : State) (values : List Value), s.machine.random ≠ 0 →
        (s.afterDraws values).machine.random = nextRandom^[values.length] s.machine.random ∧
          (s.afterDraws values).machine.random ≠ 0 ∧
          (∀ t : State, t.machine.random ≠ s.machine.random →
            (t.afterDraws values).machine.random ≠ (s.afterDraws values).machine.random) ∧
          ∀ x, ∃ unit t, draw (.number x) (s.afterDraws values) = .ok (.number (unit * x)) t ∧
            t.machine.random = nextRandom (s.afterDraws values).machine.random ∧
            t.machine.random ≠ 0 ∧ IsDrawn t.machine.random unit := by
  refine ⟨fun seed => ⟨randomSeed_ne_zero seed, rfl⟩, nextRandom_injective, ?_⟩
  intro s values hs
  have hword : (s.afterDraws values).machine.random ≠ 0 := by
    rw [random_afterDraws]
    exact iterate_nextRandom_ne_zero hs values.length
  refine ⟨random_afterDraws s values, hword, fun t ht heq => ?_, fun x => ?_⟩
  · rw [random_afterDraws, random_afterDraws] at heq
    exact ht (nextRandom_injective.iterate values.length heq)
  · exact ⟨_, _, rfl, rfl, nextRandom_ne_zero hword, isDrawn_randomUnit _⟩

namespace Dice

def start : State := ⟨.empty, Program.startMachine 0⟩

def values : List Value := [.number 6, .text "six", .number 6]

end Dice

theorem dice_never_stick : Dice.start.machine.random ≠ 0 ∧
    (Dice.start.afterDraws Dice.values).machine.random ≠ 0 ∧
    ∃ unit t, draw (.number 6) (Dice.start.afterDraws Dice.values) = .ok (.number (unit * 6)) t ∧
      IsDrawn t.machine.random unit := by
  have hstart : Dice.start.machine.random ≠ 0 := by decide
  obtain ⟨-, hword, -, hdraw⟩ := draws_never_stick.2.2 Dice.start Dice.values hstart
  obtain ⟨unit, t, ht, -, -, hunit⟩ := hdraw 6
  exact ⟨hstart, hword, unit, t, ht, hunit⟩

end TickScript
