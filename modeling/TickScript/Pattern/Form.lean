-- Patterns as they are written: their parts, with the pieces of the text that these stand on.
import TickScript.Pattern.Complaint
import TickScript.Pattern.Tree
import TickScript.Unicode.Query

namespace TickScript.Pattern

/-- The settings that a pattern can change for the rest of a group. -/
structure Flags where
  caseless : Bool := false
  multiLine : Bool := false
  /-- A point also matches the end of a line. -/
  dotAll : Bool := false
  /-- Repetitions are greedy only if marked. -/
  swapGreed : Bool := false
  unicode : Bool := true
  /-- A carriage return can end a line too. -/
  returnLines : Bool := false
  /-- Blanks and comments in the pattern do not count. -/
  verbose : Bool := false

/-! ## Characters and classes -/

/-- A character that stands for itself. -/
structure Literal where
  char : Char
  span : Span
  /-- It is written with two hexadecimal digits, so that it can mean a byte. -/
  asByte : Bool := false

/-- The classes that a letter behind a backslash stands for. -/
inductive LetterClass where
  | digit
  | blank
  | word

/-- The operations between the sets of a class. -/
inductive SetOperation where
  | intersection
  | difference
  | symmetricDifference

mutual

/-- A set of characters, as it stands in a class or, some of them, by itself. -/
inductive Member where
  | literal (l : Literal)
  | range (low high : Literal)
  /-- A class of ASCII with a name. -/
  | named (set : CharSet) (negated : Bool) (span : Span)
  | letter (kind : LetterClass) (negated : Bool) (span : Span)
  | property (query : Unicode.Query) (negated : Bool) (span : Span)
  | bracketed (body : ClassBody) (negated : Bool) (span : Span)

/-- What stands in brackets. -/
inductive ClassBody where
  | members (list : List Member) (span : Span)
  | operation (op : SetOperation) (left right : ClassBody) (span : Span)

end

def Member.span : Member → Span
  | .literal l => l.span
  | .range low high => ⟨low.span.start, high.span.stop⟩
  | .named _ _ span | .letter _ _ span | .property _ _ span | .bracketed _ _ span => span

def ClassBody.span : ClassBody → Span
  | .members _ span | .operation _ _ _ span => span

/-! ## Known classes -/

def asciiLetters : CharSet := .ofText "41-5A 61-7A"

def asciiDigits : CharSet := .ofText "30-39"

def asciiWords : CharSet := .ofText "30-39 41-5A 5F 61-7A"

def asciiBlanks : CharSet := .ofText "9-D 20"

/-- The class of ASCII with a name. -/
def asciiClass? : String → Option CharSet
  | "alnum" => some (asciiLetters.union asciiDigits)
  | "alpha" => some asciiLetters
  | "ascii" => some .ascii
  | "blank" => some (.ofText "9 20")
  | "cntrl" => some (.ofText "0-1F 7F")
  | "digit" => some asciiDigits
  | "graph" => some (.ofText "21-7E")
  | "lower" => some (.ofText "61-7A")
  | "print" => some (.ofText "20-7E")
  | "punct" => some (.ofText "21-2F 3A-40 5B-60 7B-7E")
  | "space" => some asciiBlanks
  | "upper" => some (.ofText "41-5A")
  | "word" => some asciiWords
  | "xdigit" => some (.ofText "30-39 41-46 61-66")
  | _ => none

/-- The characters of words. -/
def Flags.words (flags : Flags) : CharSet := if flags.unicode then Unicode.wordChars else asciiWords

/-! ## Patterns -/

/-- A part of a pattern. What depends on flags comes with those in force. -/
inductive Form where
  | empty
  /-- A change of flags, which matches nothing by itself. -/
  | flags
  | literal (flags : Flags) (l : Literal)
  | dot (flags : Flags) (span : Span)
  | look (look : Look)
  | set (flags : Flags) (member : Member)
  | repeated (body : Form) (least : Nat) (most : Option Nat) (greedy : Bool) (span : Span)
  /-- A group in parentheses, with its number if what it matches is kept. -/
  | group (index : Option Nat) (body : Form) (span : Span)
  | sequence (parts : List Form) (span : Span)
  | choice (branches : List Form) (span : Span)

/-- Parts that follow one another. A single part is left as it is. -/
def Form.ofParts (parts : List Form) (span : Span) : Form :=
  match parts with
  | [] => .empty
  | [form] => form
  | parts => .sequence parts span

/-- Branches to choose from. A single branch is left as it is. -/
def Form.ofBranches (branches : List Form) (span : Span) : Form :=
  match branches with
  | [form] => form
  | branches => .choice branches span

/-! ## Depth -/

mutual

/-- The first piece that is nested too deep, given how deep the set itself stands. -/
def Member.tooDeep? (depth : Nat) : Member → Option Span
  | .bracketed body _ span =>
    if depth < nestLimit then body.tooDeep? (depth + 1) else some span
  | _ => none

/-- The first piece of what stands in brackets that is nested too deep. Several members together
count as a level of their own. -/
def ClassBody.tooDeep? (depth : Nat) : ClassBody → Option Span
  | .members [] _ => none
  | .members [m] _ => m.tooDeep? depth
  | .members (m :: rest) span =>
    if depth < nestLimit then
      (m.tooDeep? (depth + 1)).or (membersTooDeep? (depth + 1) rest)
    else some span
  | .operation _ left right span =>
    if depth < nestLimit then (left.tooDeep? (depth + 1)).or (right.tooDeep? (depth + 1))
    else some span

/-- The first piece of some members that is nested too deep. -/
def membersTooDeep? (depth : Nat) : List Member → Option Span
  | [] => none
  | m :: rest => (m.tooDeep? depth).or (membersTooDeep? depth rest)

end

mutual

/-- The first piece that is nested too deep, given how deep the part itself stands. -/
def Form.tooDeep? (depth : Nat) : Form → Option Span
  | .empty | .flags | .literal .. | .dot .. | .look _ => none
  | .set _ member => member.tooDeep? depth
  | .repeated body _ _ _ span | .group _ body span =>
    if depth < nestLimit then body.tooDeep? (depth + 1) else some span
  | .sequence parts span | .choice parts span =>
    if depth < nestLimit then formsTooDeep? (depth + 1) parts else some span

/-- The first piece of some parts that is nested too deep. -/
def formsTooDeep? (depth : Nat) : List Form → Option Span
  | [] => none
  | form :: rest => (form.tooDeep? depth).or (formsTooDeep? depth rest)

end

end TickScript.Pattern
