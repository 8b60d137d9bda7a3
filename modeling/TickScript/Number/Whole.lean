-- Numbers as whole numbers: rounding to integers of 64 bits, and the remainder of a
-- division. Both are exact: a number is taken apart into a sign, a mantissa and a power
-- of two.
namespace TickScript.Number

open Float.Model (UnpackedFloat Format)

/-! ## Integers of 64 bits -/

/-- The nearest integer of 64 bits. -/
def clamp64 (i : Int) : Int := max (-0x8000000000000000) (min i 0x7FFFFFFFFFFFFFFF)

/-- The mantissa with its sign. -/
def signed : Float.Model.UnpackedFloat.Sign → Nat → Int
  | .positive, m => m
  | .negative, m => -m

/-- Turns a number into an integer of 64 bits: `divide` rounds the quotient of a finite
number, infinities go to the bounds, and what is not a number gives 0. -/
def toInt64 (divide : Int → Int → Int) (x : Float) : Int :=
  match x.toModel.unpack with
  | .notANumber => 0
  | .infinity s => clamp64 (signed s 0x8000000000000000)
  | .zero _ => 0
  | .finite s m e _ => clamp64 (divide (signed s (m <<< e.toNat)) (Nat.pow 2 (-e).toNat))

/-- The greatest integer that is not above `x`, cut to 64 bits. -/
def floor64 (x : Float) : Int := toInt64 Int.fdiv x

/-- The integer part of `x`, cut to 64 bits. -/
def trunc64 (x : Float) : Int := toInt64 Int.tdiv x

/-- How often a loop asked to run `x` times runs. -/
def repetitions (x : Float) : Nat := (trunc64 x).toNat

/-- The integer part of `x`, cut to the range from 0 to the largest number of 64 bits. -/
def truncNat64 (x : Float) : Nat :=
  match x.toModel.unpack with
  | .finite .positive m e _ => min ((m <<< e.toNat) / Nat.pow 2 (-e).toNat) 0xFFFFFFFFFFFFFFFF
  | .infinity .positive => 0xFFFFFFFFFFFFFFFF
  | _ => 0

/-! ## Remainder -/

/-- What is not a number. -/
def notANumber : Float := 0.0 / 0.0

/-- The exact remainder of a division that is rounded toward zero. It has the sign of `a`. -/
def remainder (a b : Float) : Float :=
  match a.toModel.unpack, b.toModel.unpack with
  | .finite s m e _, .finite _ n f _ =>
    let low := min e f
    let r := (m <<< (e - low).toNat) % (n <<< (f - low).toNat)
    if r = 0 then .ofModel (.pack (.zero s))
    else .ofModel (.pack (UnpackedFloat.round Format.binary64 s r low))
  | .finite .., .infinity _ => a
  | .zero _, .infinity _ => a
  | .zero _, .finite .. => a
  | _, _ => notANumber

end TickScript.Number
