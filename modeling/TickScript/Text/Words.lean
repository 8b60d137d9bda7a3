-- Cutting texts into lines and words, and reading the whole numbers written in them.
import TickScript.Text.Class

namespace TickScript.Text

/-! ## Trimming and cutting -/

/-- The characters without the blanks at either end. -/
def trimChars (cs : List Char) : List Char :=
  ((cs.dropWhile isBlank).reverse.dropWhile isBlank).reverse

/-- The text without the blanks at either end. -/
def trim (s : String) : String := String.ofList (trimChars s.toList)

/-- What stands before and after the first character that satisfies `p`. -/
def cutAt? (p : Char → Bool) : List Char → Option (List Char × List Char)
  | [] => none
  | c :: rest =>
    if p c then some ([], rest)
    else (cutAt? p rest).map fun (before, after) => (c :: before, after)

/-- The first word and what follows it, trimmed. Only the breaks between words of a
console line count here. -/
def splitWord (cs : List Char) : List Char × List Char :=
  match cutAt? isWordBreak cs with
  | some (word, rest) => (word, trimChars rest)
  | none => (cs, [])

/-! ## Lines -/

/-- A carriage return just before a line feed belongs to the line end. -/
def dropReturn : List Char → List Char
  | '\r' :: rest => rest
  | cs => cs

/-- The lines of a text, given the characters of the current line so far, latest first. -/
def linesFrom (current : List Char) : List Char → List (List Char)
  | [] => if current.isEmpty then [] else [current.reverse]
  | '\n' :: rest => (dropReturn current).reverse :: linesFrom [] rest
  | c :: rest => linesFrom (c :: current) rest

/-- The lines of a text. A line ends with a line feed, which a carriage return may precede;
a line end at the end of the text starts no further line. -/
def lines (s : String) : List String := (linesFrom [] s.toList).map String.ofList

/-! ## Whole numbers -/

/-- The number that a list of decimal digits spells. -/
def digitsToNat (cs : List Char) : Nat :=
  cs.foldl (fun n c => 10 * n + (c.toNat - '0'.toNat)) 0

/-- A number written with one or more decimal digits and nothing else. -/
def readDigits? (cs : List Char) : Option Nat :=
  if !cs.isEmpty && cs.all Char.isDigit then some (digitsToNat cs) else none

/-- A number from 0 to `most`, with or without a plus sign. -/
def readNat? (most : Nat) (cs : List Char) : Option Nat :=
  let digits := match cs with
    | '+' :: rest => rest
    | _ => cs
  (readDigits? digits).filter (· ≤ most)

/-- The largest number of 32 bits. -/
def mostNat32 : Nat := 0xFFFFFFFF

/-- The largest number of 64 bits. -/
def mostNat64 : Nat := 0xFFFFFFFFFFFFFFFF

/-- A number of 64 bits with or without a sign. -/
def readInt64? : List Char → Option Int
  | '-' :: rest => ((readDigits? rest).filter (· ≤ 0x8000000000000000)).map fun n => -(n : Int)
  | cs => (readNat? 0x7FFFFFFFFFFFFFFF cs).map fun n => (n : Int)

end TickScript.Text
