-- Sets of characters, as ranges of code points.
namespace TickScript

/-- A set of characters: ranges of code points, ends included, in ascending order and each apart
from the next. -/
structure CharSet where
  ranges : List (Nat × Nat)
deriving DecidableEq

namespace CharSet

/-! ## Code points -/

/-- The last code point. -/
def lastCode : Nat := 0x10FFFF

/-- The code point of the next character. There is a hole in the code points that no character
is in. -/
def codeAfter (n : Nat) : Nat := if n = 0xD7FF then 0xE000 else n + 1

/-- The code point of the character before. -/
def codeBefore (n : Nat) : Nat := if n = 0xE000 then 0xD7FF else n - 1

/-! ## Making sets -/

def empty : CharSet := ⟨[]⟩

/-- All characters. -/
def all : CharSet := ⟨[(0, lastCode)]⟩

def ascii : CharSet := ⟨[(0, 0x7F)]⟩

def single (c : Char) : CharSet := ⟨[(c.toNat, c.toNat)]⟩

/-- The characters from `low` to `high`. -/
def range (low high : Char) : CharSet := ⟨[(low.toNat, high.toNat)]⟩

/-- Puts a range in its place among ranges that ascend. What is left of these is handed on, once
the place has been found. -/
def placeRange (r : Nat × Nat) (goOn : List (Nat × Nat) → List (Nat × Nat)) :
    List (Nat × Nat) → List (Nat × Nat)
  | [] => r :: goOn []
  | q :: rest => if r.1 ≤ q.1 then r :: goOn (q :: rest) else q :: placeRange r goOn rest

/-- Merges ranges that ascend. -/
def mergeRanges : List (Nat × Nat) → List (Nat × Nat) → List (Nat × Nat)
  | [] => fun ranges => ranges
  | r :: rest => placeRange r (mergeRanges rest)

/-- Merges two neighbours at a time. -/
def mergePairs : List (List (Nat × Nat)) → List (List (Nat × Nat))
  | s :: t :: rest => mergeRanges s t :: mergePairs rest
  | rest => rest

/-- Merges lists of ranges that ascend. The fuel is no less than their number. -/
def mergeAll : Nat → List (List (Nat × Nat)) → List (Nat × Nat)
  | _, [] => []
  | _, [s] => s
  | 0, _ => []
  | fuel + 1, lists => mergeAll fuel (mergePairs lists)

/-- Joins ranges that touch, given the range before them. -/
def joinFrom (low high : Nat) : List (Nat × Nat) → List (Nat × Nat)
  | [] => [(low, high)]
  | (a, b) :: rest =>
    if a ≤ codeAfter high then joinFrom low (max high b) rest
    else (low, high) :: joinFrom a b rest

/-- Joins ranges that touch. Their starts ascend. -/
def join : List (Nat × Nat) → List (Nat × Nat)
  | [] => []
  | (a, b) :: rest => joinFrom a b rest

/-- Ranges in ascending order of their starts. -/
def sortRanges (ranges : List (Nat × Nat)) : List (Nat × Nat) :=
  mergeAll ranges.length (ranges.map ([·]))

/-- The set of some ranges in any order. -/
def ofRanges (ranges : List (Nat × Nat)) : CharSet := ⟨join (sortRanges ranges)⟩

/-- The set of some characters. -/
def ofChars (cs : List Char) : CharSet := ofRanges (cs.map fun c => (c.toNat, c.toNat))

/-! ## Operations -/

/-- The code point lies in one of the ranges, which ascend. -/
def inAscending (n : Nat) : List (Nat × Nat) → Bool
  | [] => false
  | (a, b) :: rest => if n < a then false else n ≤ b || inAscending n rest

def contains (s : CharSet) (c : Char) : Bool := inAscending c.toNat s.ranges

def union (s t : CharSet) : CharSet := ⟨join (mergeRanges s.ranges t.ranges)⟩

/-- The union of all the sets. -/
def unions (sets : List CharSet) : CharSet := ⟨join (mergeAll sets.length (sets.map ranges))⟩

/-- The ranges between some ranges, from a code point on. -/
def gapsFrom (low : Nat) : List (Nat × Nat) → List (Nat × Nat)
  | [] => if low ≤ lastCode then [(low, lastCode)] else []
  | (a, b) :: rest =>
    if low < a then (low, codeBefore a) :: gapsFrom (codeAfter b) rest
    else gapsFrom (codeAfter b) rest

/-- The characters that are not in the set. -/
def complement (s : CharSet) : CharSet := ⟨gapsFrom 0 s.ranges⟩

/-- The characters that are in both sets. -/
def inter (s t : CharSet) : CharSet := (s.complement.union t.complement).complement

/-- The characters that are in the first set only. -/
def diff (s t : CharSet) : CharSet := (s.complement.union t).complement

/-- The characters that are in one of the sets, but not in both. -/
def symmDiff (s t : CharSet) : CharSet := (s.diff t).union (t.diff s)

/-- The set has no other characters than those of ASCII. -/
def isAscii (s : CharSet) : Bool := s.ranges.all (·.2 ≤ 0x7F)

/-- The only character of the set. -/
def only? (s : CharSet) : Option Nat :=
  match s.ranges with
  | [(a, b)] => if a = b then some a else none
  | _ => none

/-! ## Sets as text

A set is written as hexadecimal code points with blanks or ends of lines between them. Two code
points with a dash stand for all from the first to the last, and with a colon for every second
one. A code point with fewer digits than the one before it has the leading digits of that one. -/

/-- What has been read of a text: the ranges so far, the latest first, the code point before a
dash or colon, the value of the digits since with sixteen to the power of their number, and the
code point before these digits. -/
structure Decoded where
  ranges : List (Nat × Nat) := []
  from? : Option (Nat × Bool) := none
  value? : Option Nat := none
  scale : Nat := 1
  last : Nat := 0

/-- The value of a hexadecimal digit. -/
def digitValue (c : Char) : Nat :=
  if c.isDigit then c.toNat - '0'.toNat else c.toNat - 'A'.toNat + 10

/-- Every second code point, the latest first. -/
def everySecond (low high : Nat) : List (Nat × Nat) :=
  ((List.range ((high - low) / 2 + 1)).map fun i => (low + 2 * i, low + 2 * i)).reverse

/-- The code point that the digits stand for, if there are any. -/
def Decoded.code? (d : Decoded) : Option Nat :=
  d.value?.map fun n => if d.scale ≤ d.last then d.last / d.scale * d.scale + n else n

/-- The ranges with the one that has just been read, if any has. -/
def Decoded.close (d : Decoded) : List (Nat × Nat) :=
  match d.from?, d.code? with
  | none, some n => (n, n) :: d.ranges
  | some (low, false), some n => (low, n) :: d.ranges
  | some (low, true), some n => everySecond low n ++ d.ranges
  | _, none => d.ranges

/-- Reads a character of the text. -/
def Decoded.read (d : Decoded) (c : Char) : Decoded :=
  let last := d.code?.getD d.last
  match c with
  | ' ' | '\n' => { ranges := d.close, last }
  | '-' => { ranges := d.ranges, from? := d.code?.map (·, false), last }
  | ':' => { ranges := d.ranges, from? := d.code?.map (·, true), last }
  | c => { d with value? := some (16 * d.value?.getD 0 + digitValue c), scale := 16 * d.scale }

/-- The set that a text stands for. The code points in the text ascend. -/
def ofText (text : String) : CharSet := ⟨join (text.toList.foldl Decoded.read {}).close.reverse⟩

end CharSet

end TickScript
