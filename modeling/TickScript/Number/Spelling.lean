-- How numbers are written and read: a decimal with as many places as it needs and no
-- exponent, a hexadecimal number, or one of the words for what is not finite.
import TickScript.Number.Shortest
import TickScript.Number.Whole
import TickScript.Text.Words

namespace TickScript.Number

open TickScript.Text

/-! ## Writing -/

/-- A positive decimal written out, without an exponent and without zeros at its end. -/
def Decimal.positional (d : Decimal) : String :=
  let digits := Nat.toDigits 10 d.digits
  let places := (-d.exponent).toNat
  if places = 0 then String.ofList (digits ++ List.replicate d.exponent.toNat '0')
  else
    let padded := List.replicate (places + 1 - digits.length) '0' ++ digits
    let whole := padded.length - places
    String.ofList (padded.take whole ++ '.' :: padded.drop whole)

/-- The plain text of a number, which tells the two zeros apart. -/
def plain (x : Float) : String :=
  match x.toModel.unpack with
  | .notANumber => "NaN"
  | .infinity .positive => "inf"
  | .infinity .negative => "-inf"
  | .zero .positive => "0"
  | .zero .negative => "-0"
  | .finite .positive m e _ => (shortest m e).positional
  | .finite .negative m e _ => "-" ++ (shortest m e).positional

/-- A whole number that fits into fifteen digits. -/
def small? (x : Float) : Option Int :=
  match x.toModel.unpack with
  | .zero _ => some 0
  | .finite s m e _ =>
    let n := m <<< e.toNat
    let d := Nat.pow 2 (-e).toNat
    if n % d = 0 ∧ n / d < 1000000000000000 then some (signed s (n / d)) else none
  | _ => none

/-- The text of a number as scripts print it: small whole numbers as integers, so that
zero has no sign, and all others in full. -/
def format (x : Float) : String :=
  match small? x with
  | some i => toString i
  | none => plain x

/-! ## Reading -/

/-- `m · 10 ^ e`, rounded to the nearest number. -/
def ofDecimal (m : Nat) (e : Int) : Float :=
  Float.ofScientific m (e < 0) e.natAbs

/-- The exponent of a decimal and whether nothing follows it. -/
def readExponent? : List Char → Option Int
  | [] => some 0
  | c :: rest =>
    if c = 'e' || c = 'E' then
      match rest with
      | '-' :: digits => (readDigits? digits).map fun n => -(n : Int)
      | '+' :: digits => (readDigits? digits).map fun n => (n : Int)
      | digits => (readDigits? digits).map fun n => (n : Int)
    else none

/-- An unsigned decimal: digits with an optional point and exponent. A digit must stand
before or after the point. -/
def readDecimal? (cs : List Char) : Option Float :=
  let whole := cs.takeWhile Char.isDigit
  let (places, rest) := match cs.dropWhile Char.isDigit with
    | '.' :: tail => (tail.takeWhile Char.isDigit, tail.dropWhile Char.isDigit)
    | tail => ([], tail)
  if whole.isEmpty && places.isEmpty then none
  else (readExponent? rest).map fun e =>
    ofDecimal (digitsToNat (whole ++ places)) (e - places.length)

/-- An unsigned number: a decimal, or a word for infinity or for what is not a number, in
letters of either case. -/
def readUnsigned? (cs : List Char) : Option Float :=
  let word := String.ofList (cs.map Char.toLower)
  if word = "inf" || word = "infinity" then some (1.0 / 0.0)
  else if word = "nan" then some notANumber
  else readDecimal? cs

/-- A number with at most one sign. -/
def readSigned? : List Char → Option Float
  | '+' :: rest => readUnsigned? rest
  | '-' :: rest => (readUnsigned? rest).map Float.neg
  | cs => readUnsigned? cs

/-- The value of a hexadecimal digit. -/
def hexDigit? (c : Char) : Option Nat :=
  if c.isDigit then some (c.toNat - '0'.toNat)
  else if 'a' ≤ c && c ≤ 'f' then some (c.toNat - 'a'.toNat + 10)
  else if 'A' ≤ c && c ≤ 'F' then some (c.toNat - 'A'.toNat + 10)
  else none

/-- Hexadecimal digits, taken into the number one by one. No digits at all spell zero. -/
def readHex? (cs : List Char) : Option Float :=
  cs.foldlM (fun acc c => (hexDigit? c).map fun d => acc * 16 + Float.ofNat d) 0

/-- The digits after the mark of a hexadecimal number, if the text has that mark. -/
def hexDigits? : List Char → Option (List Char)
  | '0' :: 'x' :: rest => some rest
  | '0' :: 'X' :: rest => some rest
  | _ => none

/-- A hexadecimal number or a number with a sign of its own. -/
def readMagnitude? (cs : List Char) : Option Float :=
  match hexDigits? cs with
  | some [] => none
  | some digits => readHex? digits
  | none => readSigned? cs

/-- The number that a text spells, blanks around it aside. A minus sign in front negates
whatever number the rest spells. -/
def read? (s : String) : Option Float :=
  match trimChars s.toList with
  | '-' :: rest => (readMagnitude? rest).map Float.neg
  | cs => readMagnitude? cs

end TickScript.Number
