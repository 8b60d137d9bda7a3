-- Patterns: finding, splitting and replacing pieces of texts.
import TickScript.Pattern.Matcher
import TickScript.Pattern.Reader
import TickScript.Pattern.Resolve
import TickScript.Pattern.Size

namespace TickScript

/-- A pattern that is ready to be matched. -/
structure Pattern where
  program : Pattern.Program
  names : List (String × Nat)

namespace Pattern

/-- Why a text gives no pattern. -/
inductive Refusal where
  | malformed (complaint : Complaint)
  | tooLarge

/-- The refusal as it is shown. -/
def Refusal.render (source : String) : Refusal → String
  | .malformed complaint => complaint.render source
  | .tooLarge => s!"Compiled regex exceeds size limit of {roomLimit} bytes."

/-- The pattern of a tree, unless it is too large. -/
def ofTree (tree : Tree) (names : List (String × Nat)) : Except Refusal Pattern :=
  if tree.fits then .ok { program := .ofTree tree, names } else .error .tooLarge

/-- The pattern that a text spells, or what is wrong with it. -/
def ofString (source : String) : Except Refusal Pattern := do
  let (form, names) ← (readPattern source).mapError .malformed
  ofTree (← form.resolve.mapError .malformed) names

/-- The number of groups besides the whole match. -/
def groupCount (p : Pattern) : Nat := p.program.groups

/-! ## Matches -/

/-- A match: what each group matched, the whole match first. -/
structure Match where
  start : Nat
  stop : Nat
  groups : Groups

/-- A match from its groups. -/
def Match.ofGroups? (groups : Groups) : Option Match :=
  match groups with
  | some (start, stop) :: _ => some { start, stop, groups }
  | _ => none

/-- Where a text is at an index. -/
def spotAt (text : List Char) (index : Nat) : Spot :=
  { index
    before := if index = 0 then none else text[index - 1]?
    rest := text.drop index }

/-- The leftmost match that starts at an index or after it. -/
def matchFrom? (p : Pattern) (text : List Char) (index : Nat) : Option Match :=
  if index > text.length then none
  else (p.program.search? (spotAt text index)).bind Match.ofGroups?

/-- The matches from an index on, one after the other. An empty match right behind the
previous one does not count. -/
def matchesFrom (p : Pattern) (text : List Char) : Nat → Nat → Option Nat → List Match
  | 0, _, _ => []
  | fuel + 1, index, last =>
    let found := (p.matchFrom? text index).bind fun m =>
      if m.start = m.stop ∧ some m.stop = last then p.matchFrom? text (index + 1) else some m
    match found with
    | none => []
    | some m => m :: matchesFrom p text fuel m.stop (some m.stop)

/-- All the matches in a text. There are at most two that end at one index, one of them
empty. -/
def allMatches (p : Pattern) (text : List Char) : List Match :=
  p.matchesFrom text (2 * text.length + 2) 0 none

/-! ## Pieces of texts -/

/-- The characters from one index to another. -/
def cut (text : List Char) (start stop : Nat) : List Char := (text.take stop).drop start

/-- What a group matched. -/
def Match.group? (m : Match) (text : List Char) (index : Nat) : Option (List Char) :=
  (m.groups[index]?.join).map fun (start, stop) => cut text start stop

/-- What the first group of the first match matched, or the match itself if the pattern has
no groups. -/
def firstFind? (p : Pattern) (text : String) : Option String :=
  let cs := text.toList
  (p.matchFrom? cs 0).bind fun m =>
    (m.group? cs (if p.groupCount > 0 then 1 else 0)).map String.ofList

/-- The pieces between matches, from an index on. -/
def piecesFrom (text : List Char) (start : Nat) : List Match → List (List Char)
  | [] => [text.drop start]
  | m :: rest => cut text start m.start :: piecesFrom text m.stop rest

/-- The pieces of a text between the matches. -/
def split (p : Pattern) (text : String) : List String :=
  let cs := text.toList
  (piecesFrom cs 0 (p.allMatches cs)).map String.ofList

/-! ## Replacing -/

/-- A piece of a replacement. -/
inductive Part where
  | text (cs : List Char)
  /-- What the group of this name or number matched. -/
  | reference (name : List Char)

/-- A character of the name of a group in a replacement. -/
def isReferenceChar (c : Char) : Bool := c.isAlphanum || c = '_'

/-- The name after a dollar sign and what follows it: in braces, or else as many letters,
digits and underscores as there are. -/
def readReference? (cs : List Char) : Option (List Char × List Char) :=
  match cs with
  | '\x7b' :: rest => Text.cutAt? (· = '\x7d') rest
  | cs =>
    let name := cs.takeWhile isReferenceChar
    if name.isEmpty then none else some (name, cs.dropWhile isReferenceChar)

/-- The pieces of a replacement. Two dollar signs stand for one, and so does one that starts
no reference. -/
def replacementParts : Nat → List Char → List Part
  | 0, _ => []
  | _, [] => []
  | fuel + 1, '$' :: rest =>
    match rest with
    | '$' :: rest => .text ['$'] :: replacementParts fuel rest
    | rest =>
      match readReference? rest with
      | some (name, rest) => .reference name :: replacementParts fuel rest
      | none => .text ['$'] :: replacementParts fuel rest
  | fuel + 1, c :: rest => .text [c] :: replacementParts fuel rest

/-- The number of the group that a reference means. -/
def groupIndex? (p : Pattern) (name : List Char) : Option Nat :=
  match Text.readNat? Text.mostNat64 name with
  | some i => some i
  | none => p.names.lookup (String.ofList name)

/-- What a part of a replacement stands for in a match. Groups that are unknown or took no
part stand for nothing. -/
def Part.expand (p : Pattern) (text : List Char) (m : Match) : Part → List Char
  | .text cs => cs
  | .reference name => ((p.groupIndex? name).bind (m.group? text)).getD []

/-- The text from an index on with its matches replaced. -/
def replaceFrom (p : Pattern) (text : List Char) (parts : List Part) (start : Nat) :
    List Match → List Char
  | [] => text.drop start
  | m :: rest =>
    cut text start m.start ++ parts.flatMap (·.expand p text m) ++
      replaceFrom p text parts m.stop rest

/-- The text with every match replaced. -/
def replaceAll (p : Pattern) (text replacement : String) : String :=
  let cs := text.toList
  let parts := replacementParts (replacement.length + 1) replacement.toList
  String.ofList (p.replaceFrom cs parts 0 (p.allMatches cs))

end Pattern

end TickScript
