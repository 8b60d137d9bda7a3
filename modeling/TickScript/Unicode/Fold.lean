-- Matching without regard to case: two characters agree when they have the same fold.
import TickScript.Unicode.Moves

namespace TickScript.Unicode

/-- The folds of the characters that are moved, each with its character. -/
def foldsOf (move : CaseMove) : List (Nat × Nat) :=
  move.chars.ranges.flatMap fun r => (List.range (r.2 - r.1 + 1)).filterMap fun i =>
    (move.image? (r.1 + i)).map fun fold => (fold, r.1 + i)

/-- Groups neighbours that have the same fold. Each group starts with the fold. -/
def groupFolds : List (Nat × Nat) → List (List Nat)
  | [] => []
  | (fold, n) :: rest =>
    match groupFolds rest with
    | (next :: ns) :: groups =>
      if fold = next then (fold :: n :: ns) :: groups else [fold, n] :: (next :: ns) :: groups
    | groups => [fold, n] :: groups

/-- The sets of characters that differ in case only, as far as they have more than one. -/
def caseGroups : List (List Nat) := groupFolds (CharSet.sortRanges (foldMoves.flatMap foldsOf))

/-- All the case variants of a character, itself included. -/
def caseVariants (c : Char) : CharSet :=
  match caseGroups.find? (·.contains c.toNat) with
  | some group => .ofRanges (group.map fun n => (n, n))
  | none => .single c

/-- The set with the case variants of all its characters. -/
def foldSet (s : CharSet) : CharSet :=
  let met := caseGroups.filter (·.any fun n => CharSet.inAscending n s.ranges)
  s.union (.ofRanges (met.flatten.map fun n => (n, n)))

/-- The set with the case variants of its letters of ASCII. -/
def foldAscii (s : CharSet) : CharSet :=
  s.union (.ofChars ("abcdefghijklmnopqrstuvwxyz".toList.flatMap fun c =>
    if s.contains c || s.contains c.toUpper then [c, c.toUpper] else []))

end TickScript.Unicode
