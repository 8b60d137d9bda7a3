-- Upper and lower case of whole texts. A character may become several, and the
-- Greek capital sigma has a lower form of its own at the end of a word.
import TickScript.Unicode.Property

namespace TickScript.Text

open Unicode (CaseMove)

/-! ## Case around a character -/

/-- The characters that have case. Patterns go by an earlier version of Unicode. -/
def casedChars : CharSet :=
  (Unicode.casedChars.union (.ofText "A7CE-F D2 4 F1 16EA0-B8 BB-D3")).diff (.single 'ʕ')

/-- The characters that a search for case skips. -/
def caseIgnorable : CharSet := Unicode.caseIgnorable.union (.ofText
  "1ACF-DD E0-B A7F1 10EC5 FA-B 1B60 2-4 6 DD9 6FF2-3 E6E3 6 E-F F5 F")

/-! ## One character -/

/-- The image of `c` under a table of expansions and a table of moves. -/
def mapCase (expansions : List (Nat × List Nat)) (moves : List CaseMove) (c : Char) : List Char :=
  match expansions.lookup c.toNat with
  | some image => image.map Char.ofNat
  | none =>
    match moves.findSome? (·.image? c.toNat) with
    | some n => [Char.ofNat n]
    | none => [c]

/-- The upper case of one character. -/
def upperChar (c : Char) : List Char :=
  if c.toNat < 128 then [c.toUpper] else mapCase Unicode.upperExpansions Unicode.upperMoves c

/-- The lower case of one character, apart from its place in a word. -/
def lowerChar (c : Char) : List Char :=
  if c.toNat < 128 then [c.toLower] else mapCase Unicode.lowerExpansions Unicode.lowerMoves c

/-! ## Texts -/

/-- The first character that a search for case does not skip has case. -/
def meetsCase (cs : List Char) : Bool :=
  match cs.dropWhile caseIgnorable.contains with
  | [] => false
  | c :: _ => casedChars.contains c

/-- Lower case, given the characters already passed, latest first. A sigma ends a word
when case comes before it and none after it. -/
def lowerFrom (before : List Char) : List Char → List Char
  | [] => []
  | c :: rest =>
    let image :=
      if c = 'Σ' then (if meetsCase before && !meetsCase rest then ['ς'] else ['σ'])
      else lowerChar c
    image ++ lowerFrom (c :: before) rest

/-- The text in upper case. -/
def toUpper (s : String) : String := String.ofList (s.toList.flatMap upperChar)

/-- The text in lower case. -/
def toLower (s : String) : String := String.ofList (lowerFrom [] s.toList)

end TickScript.Text
