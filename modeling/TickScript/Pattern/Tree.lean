-- Patterns as trees: what each part of a pattern matches.
import TickScript.Text.CharSet

namespace TickScript.Pattern

/-! ## Places -/

/-- What a part of a pattern that takes no character asks of its place. -/
inductive Look where
  | textStart
  | textEnd
  | lineStart
  | lineEnd
  /-- The start and end of a line when a carriage return may end it too. -/
  | returnLineStart
  | returnLineEnd
  /-- Between a character of a word and one that is none. -/
  | wordEdge (words : CharSet)
  | notWordEdge (words : CharSet)
  | wordStart (words : CharSet)
  | wordEnd (words : CharSet)
  /-- No character of a word before, or after, the place. -/
  | wordStartHalf (words : CharSet)
  | wordEndHalf (words : CharSet)

/-- The place between two characters is as asked; at an end of the text one is missing. -/
def Look.holds (look : Look) (before after : Option Char) : Bool :=
  match look with
  | .textStart => before.isNone
  | .textEnd => after.isNone
  | .lineStart => before.all (· = '\n')
  | .lineEnd => after.all (· = '\n')
  | .returnLineStart => before.all fun c => c = '\n' || c = '\r' && after ≠ some '\n'
  | .returnLineEnd => after.all fun c => c = '\r' || c = '\n' && before ≠ some '\r'
  | .wordEdge words => before.any words.contains != after.any words.contains
  | .notWordEdge words => before.any words.contains == after.any words.contains
  | .wordStart words => !before.any words.contains && after.any words.contains
  | .wordEnd words => before.any words.contains && !after.any words.contains
  | .wordStartHalf words => !before.any words.contains
  | .wordEndHalf words => !after.any words.contains

/-! ## Trees -/

/-- A part of a pattern. -/
inductive Tree where
  | char (set : CharSet)
  | look (look : Look)
  /-- What the body matches is kept under a number. -/
  | group (index : Nat) (body : Tree)
  /-- The body so often, as often as possible if greedy and else as rarely as possible. -/
  | repeated (body : Tree) (least : Nat) (most : Option Nat) (greedy : Bool)
  | sequence (parts : List Tree)
  /-- One of the branches, the earlier the better. -/
  | choice (branches : List Tree)

namespace Tree

mutual

/-- The part takes no character, however it matches. -/
def isEmptyOnly : Tree → Bool
  | .char _ => false
  | .look _ => true
  | .group _ body => body.isEmptyOnly
  | .repeated body _ most _ => body.isEmptyOnly || most = some 0
  | .sequence parts => allEmptyOnly parts
  | .choice branches => allEmptyOnly branches

/-- None of the parts takes a character. -/
def allEmptyOnly : List Tree → Bool
  | [] => true
  | t :: rest => t.isEmptyOnly && allEmptyOnly rest

end

mutual

/-- The part can match without taking a character. -/
def canBeEmpty : Tree → Bool
  | .char _ => false
  | .look _ => true
  | .group _ body => body.canBeEmpty
  | .repeated body least _ _ => least = 0 || body.canBeEmpty
  | .sequence parts => allCanBeEmpty parts
  | .choice branches => anyCanBeEmpty branches

/-- All of the parts can match without taking a character. -/
def allCanBeEmpty : List Tree → Bool
  | [] => true
  | t :: rest => t.canBeEmpty && allCanBeEmpty rest

/-- One of the branches can match without taking a character. -/
def anyCanBeEmpty : List Tree → Bool
  | [] => false
  | t :: rest => t.canBeEmpty || anyCanBeEmpty rest

end

mutual

/-- The highest number of a group. -/
def maxGroup : Tree → Nat
  | .char _ | .look _ => 0
  | .group index body => max index body.maxGroup
  | .repeated body _ _ _ => body.maxGroup
  | .sequence parts => maxGroups parts
  | .choice branches => maxGroups branches

/-- The highest number of a group in any of the parts. -/
def maxGroups : List Tree → Nat
  | [] => 0
  | t :: rest => max t.maxGroup (maxGroups rest)

end

/-- The body so often. What takes no character is not worth repeating, and a body that is
wanted no time at all is dropped together with its groups. -/
def times (body : Tree) (least : Nat) (most : Option Nat) (greedy : Bool) : Tree :=
  let (least, most) :=
    if body.isEmptyOnly then (min least 1, some (min (most.getD 1) 1)) else (least, most)
  if least = 0 ∧ most = some 0 then .sequence []
  else if least = 1 ∧ most = some 1 then body
  else .repeated body least most greedy

end Tree

end TickScript.Pattern
