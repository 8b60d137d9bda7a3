-- How much room a pattern takes as an automaton that reads bytes. A pattern that takes too much
-- is refused.
import TickScript.Pattern.Tree

namespace TickScript.Pattern

/-! ## Bytes

A range of characters is a few sequences of ranges of bytes. -/

/-- A range of bytes for each byte of some characters. -/
abbrev ByteRanges := List (Nat × Nat)

/-- The bytes of a character. -/
def bytesOf (n : Nat) : List Nat :=
  if n ≤ 0x7F then [n]
  else if n ≤ 0x7FF then [0xC0 + n / 64, 0x80 + n % 64]
  else if n ≤ 0xFFFF then [0xE0 + n / 4096, 0x80 + n / 64 % 64, 0x80 + n % 64]
  else [0xF0 + n / 262144, 0x80 + n / 4096 % 64, 0x80 + n / 64 % 64, 0x80 + n % 64]

/-- Where to cut a range so that it agrees on all bytes but those that run through all values:
the end of the first piece. The steps are the numbers of characters that share all bytes but
the last, the last two and the last three. -/
def cutInSteps? (low high : Nat) : List Nat → Option Nat
  | [] => none
  | step :: rest =>
    if low / step = high / step then cutInSteps? low high rest
    else if low % step ≠ 0 then some (low - low % step + step - 1)
    else if high % step ≠ step - 1 then some (high - high % step - 1)
    else cutInSteps? low high rest

/-- Where to cut a range of characters next, if it is not yet a single sequence: at the hole in
the code points, where characters get longer, and then within those of one length. -/
def cut? (low high : Nat) : Option Nat :=
  match [0x7F, 0x7FF, 0xD7FF, 0xFFFF].find? fun n => low ≤ n && n < high with
  | some n => some n
  | none => if high ≤ 0x7F then none else cutInSteps? low high [64, 4096, 262144]

/-- The sequences of a range of characters. -/
def sequencesOf : Nat → Nat → Nat → List ByteRanges
  | 0, _, _ => []
  | fuel + 1, low, high =>
    match cut? low high with
    | none => [(bytesOf low).zip (bytesOf high)]
    | some n => sequencesOf fuel low n ++ sequencesOf fuel (CharSet.codeAfter n) high

/-- The sequences of a set. No range is cut more often than the fuel allows. -/
def sequences (s : CharSet) : List ByteRanges :=
  s.ranges.flatMap fun (low, high) => sequencesOf 32 low high

/-- Groups neighbours that start alike: what they start with, and what follows it in each. -/
def groupStarts : List ByteRanges → List ((Nat × Nat) × List ByteRanges)
  | [] => []
  | [] :: rest => groupStarts rest
  | (r :: tail) :: rest =>
    match groupStarts rest with
    | (r', tails) :: groups =>
      if r = r' then (r, tail :: tails) :: groups else (r, [tail]) :: (r', tails) :: groups
    | [] => [(r, [tail])]

/-! ## The room of a set -/

/-- The sum of what some items take. -/
def total {α : Type} (items : List α) (room : α → Nat) : Nat :=
  items.foldl (fun sum item => sum + room item) 0

/-- What a state takes, what each way on from it takes if it reads a byte, and what it takes if
it does not. -/
def stateRoom : Nat := 32

def readingRoom : Nat := 8

def branchRoom : Nat := 4

/-- What is still to be read after each start of some sequences that have that many bytes at
most, these themselves included. -/
def remainders : Nat → List ByteRanges → List (List ByteRanges)
  | 0, _ => []
  | n + 1, seqs =>
    seqs :: (groupStarts seqs).flatMap fun (_, tails) =>
      if tails = [[]] then [] else remainders n tails

/-- The number of different starts of some sequences. -/
def startCount : Nat → List ByteRanges → Nat
  | 0, _ => 0
  | n + 1, seqs => total (groupStarts seqs) fun (_, tails) => 1 + startCount n tails

/-- The room of the sequences when they are read forwards: equal remainders share a state. -/
def forwardRoom (seqs : List ByteRanges) : Nat :=
  stateRoom + total (remainders 4 seqs).eraseDups fun seqs =>
    stateRoom + readingRoom * (groupStarts seqs).length

/-- The room of the sequences when they are read backwards: equal starts share their states. -/
def backwardRoom (seqs : List ByteRanges) : Nat :=
  2 * stateRoom + branchRoom * seqs.length + stateRoom * startCount 4 seqs

/-- The room of a set, given how sequences of more than one byte are counted. A single character
is read byte by byte. -/
def setRoom (count : CharSet → Nat) (s : CharSet) : Nat :=
  match s.only? with
  | some n => stateRoom * (bytesOf n).length
  | none =>
    if s.ranges.isEmpty then stateRoom
    else if s.isAscii then 2 * stateRoom + readingRoom * s.ranges.length
    else count s

/-! ## The room of words -/

/-- The room of a choice between words of that many bytes at most, besides its end: words that
start alike share their states. -/
def wordStates : Nat → List (List Nat) → Nat
  | 0, _ => 0
  | n + 1, words =>
    let starts := (words.filterMap List.head?).eraseDups
    if starts.isEmpty then 0
    else
      let own := 2 * stateRoom + branchRoom +
        if starts.length = 1 then 0 else readingRoom * starts.length
      own + total starts fun b =>
        wordStates n ((words.filter (·.head? = some b)).map (·.drop 1))

/-- The room of a choice between words. -/
def wordsRoom (words : List (List Nat)) : Nat :=
  stateRoom + wordStates ((words.map List.length).foldl max 0) words

/-! ## The room of a pattern -/

/-- How the room of a pattern is counted. -/
structure Measure where
  set : CharSet → Nat
  words : List (List Nat) → Nat
  /-- What groups match is kept. -/
  keepsGroups : Bool

/-- Reading forwards. -/
def Measure.forward : Measure :=
  { set := setRoom fun s => forwardRoom (sequences s)
    words := wordsRoom
    keepsGroups := true }

/-- Reading backwards. -/
def Measure.backward : Measure :=
  { set := setRoom fun s => backwardRoom (sequences s)
    words := fun words => wordsRoom (words.map List.reverse)
    keepsGroups := false }

/-- At least as much as the other two: nothing is shared, and a sequence has four bytes at
most. -/
def Measure.rough : Measure :=
  let byteRoom := 2 * stateRoom + readingRoom + branchRoom
  { set := setRoom fun s => 2 * stateRoom + (sequences s).length * 4 * byteRoom
    words := fun words => stateRoom + byteRoom + total words List.length * byteRoom
    keepsGroups := true }

namespace Tree

mutual

/-- The part matches nothing but the empty text, wherever it is. -/
def isBlank : Tree → Bool
  | .sequence parts => allBlank parts
  | _ => false

def allBlank : List Tree → Bool
  | [] => true
  | t :: rest => t.isBlank && allBlank rest

end

mutual

/-- The set that a part takes a character of, if it is no more than that. -/
def asSet? : Tree → Option CharSet
  | .char s => some s
  | .choice branches => asSets? branches
  | _ => none

def asSets? : List Tree → Option CharSet
  | [] => some .empty
  | t :: rest => do return (← t.asSet?).union (← asSets? rest)

end

mutual

/-- The bytes that a part matches, if these are all it matches. -/
def asBytes? : Tree → Option (List Nat)
  | .char s => s.only?.map bytesOf
  | .sequence parts => allBytes? parts
  | _ => none

def allBytes? : List Tree → Option (List Nat)
  | [] => some []
  | t :: rest => do return (← t.asBytes?) ++ (← allBytes? rest)

end

end Tree

/-- The room of a choice between some branches, given the sum of theirs. -/
def choiceRoom (m : Measure) (branches : List Tree) (sum : Nat) : Nat :=
  match Tree.asSets? branches, branches.mapM Tree.asBytes? with
  | some s, _ => m.set s
  | none, some words => m.words words
  | none, none => 2 * stateRoom + branchRoom * branches.length + sum

/-- The room of a repetition, given that of its body. -/
def repeatedRoom (body : Nat) (canBeEmpty : Bool) (least : Nat) (most : Option Nat) : Nat :=
  let fork := stateRoom + 2 * branchRoom
  match least, most with
  | 0, none => body + fork + if canBeEmpty then fork + stateRoom else 0
  | least, none => least * body + fork
  | 0, some 1 => body + fork + stateRoom
  | least, some most =>
    if least = most then least * body
    else
      (if least = 0 then stateRoom else least * body) + stateRoom + (most - least) * (body + fork)

mutual

/-- The room that a part takes. -/
def Tree.room (m : Measure) : Tree → Nat
  | .char s => m.set s
  | .look _ => stateRoom
  | .group _ body => body.room m + if m.keepsGroups then 2 * stateRoom else 0
  | .repeated body least most _ => repeatedRoom (body.room m) body.canBeEmpty least most
  | .sequence parts => if Tree.allBlank parts then stateRoom else partsRoom m parts
  | .choice branches => choiceRoom m branches (branchesRoom m branches)

/-- The room that parts take one after the other. -/
def partsRoom (m : Measure) : List Tree → Nat
  | [] => 0
  | t :: rest => (if t.isBlank then 0 else t.room m) + partsRoom m rest

/-- The room that branches take beside one another. -/
def branchesRoom (m : Measure) : List Tree → Nat
  | [] => 0
  | t :: rest => t.room m + branchesRoom m rest

end

/-- The room that a pattern may take. -/
def roomLimit : Nat := 10485760

/-- The room that a pattern takes besides its tree: states to get to a start of a match and to
say that there is one. -/
def frameRoom : Nat := 7 * stateRoom

/-- The tree takes no more room than there is, by a measure. -/
def Tree.fitsBy (t : Tree) (m : Measure) : Bool := t.room m + frameRoom ≤ roomLimit

/-- The tree takes no more room than there is, however it is read. It seldom has to be counted
exactly. -/
def Tree.fits (t : Tree) : Bool := t.fitsBy .rough || t.fitsBy .forward && t.fitsBy .backward

end TickScript.Pattern
