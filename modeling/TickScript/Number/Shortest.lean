-- The fewest decimal digits that tell a number apart from its neighbours. All the
-- arithmetic is on whole numbers, so the digits are exact.
namespace TickScript.Number

/-! ## What reads back -/

/-- A positive decimal, `digits · 10 ^ exponent`. -/
structure Decimal where
  digits : Nat
  exponent : Int

/-- The interval of decimals that read back as one number, as fractions of a common
denominator: the number lies at `value`, and the ends belong to it when `closed`. -/
structure Neighbourhood where
  low : Nat
  value : Nat
  high : Nat
  denominator : Nat
  closed : Bool

/-- The decimals that read back as `m · 2 ^ e`. The gap below a power of two is half the
gap above it, except at the smallest exponent. -/
def Neighbourhood.of (m : Nat) (e : Int) : Neighbourhood :=
  let up := (e - 2).toNat
  let below := if m = 0x10000000000000 ∧ -1074 < e then 1 else 2
  { low := (4 * m - below) <<< up
    value := (4 * m) <<< up
    high := (4 * m + 2) <<< up
    denominator := Nat.pow 2 (2 - e).toNat
    closed := m % 2 = 0 }

/-- `digits · 10 ^ exponent` as a fraction. -/
def Decimal.fraction (d : Decimal) : Nat × Nat :=
  (d.digits * Nat.pow 10 d.exponent.toNat, Nat.pow 10 (-d.exponent).toNat)

/-- The decimal lies in the interval. -/
def Neighbourhood.contains (n : Neighbourhood) (d : Decimal) : Bool :=
  let (p, q) := d.fraction
  if n.closed then n.low * q ≤ p * n.denominator && p * n.denominator ≤ n.high * q
  else n.low * q < p * n.denominator && p * n.denominator < n.high * q

/-! ## Search -/

/-- How many zeros follow the point before the first digit of `p / q`, a fraction below one. -/
def leadingZeros : Nat → Nat → Nat → Nat
  | 0, _, _ => 0
  | fuel + 1, p, q => if 10 * p < q then leadingZeros fuel (10 * p) q + 1 else 0

/-- The least power of ten above `p / q`. A number has fewer than 400 zeros after its point. -/
def magnitude (p q : Nat) : Int :=
  if q ≤ p then ((Nat.toDigits 10 (p / q)).length : Int) else -(leadingZeros 400 p q : Int)

/-- The multiple of `10 ^ exponent` at or below the number. -/
def Neighbourhood.floorAt (n : Neighbourhood) (exponent : Int) : Decimal :=
  { digits := n.value * Nat.pow 10 (-exponent).toNat /
      (n.denominator * Nat.pow 10 exponent.toNat)
    exponent }

/-- The number is nearer to `d` than to the next decimal of the same exponent. -/
def Neighbourhood.nearerTo (n : Neighbourhood) (d : Decimal) : Bool :=
  let (p, q) := Decimal.fraction { d with digits := 2 * d.digits + 1 }
  2 * n.value * q < p * n.denominator

/-- The first grid of decimals with a point in the interval, tried from `count` digits on.
Of two such points the nearer is taken, and of two at equal distance the upper one. -/
def Neighbourhood.search (n : Neighbourhood) (size : Int) : Nat → Nat → Decimal
  | 0, count => n.floorAt (size - count)
  | fuel + 1, count =>
    let down := n.floorAt (size - count)
    let up := { down with digits := down.digits + 1 }
    if n.contains down && (!n.contains up || n.nearerTo down) then down
    else if n.contains up then up
    else n.search size fuel (count + 1)

/-- The shortest decimal that reads back as `m · 2 ^ e`; seventeen digits always do. -/
def shortest (m : Nat) (e : Int) : Decimal :=
  let n := Neighbourhood.of m e
  let d := n.search (magnitude n.value n.denominator) 17 1
  if d.digits = 10 then { digits := 1, exponent := d.exponent + 1 } else d

end TickScript.Number
