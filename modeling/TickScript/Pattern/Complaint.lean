-- What can be wrong with a pattern, and how that is shown.
import TickScript.Text.Words
import TickScript.Token

namespace TickScript.Pattern

/-! ## Reasons -/

/-- Why a text is no pattern. -/
inductive Reason where
  | groupUnclosed
  | groupUnopened
  | groupNameUnclosed
  | groupNameInvalid
  | groupNameEmpty
  | groupNameDuplicate
  | lookAround
  | backreference
  | flagUnrecognized
  | flagDuplicate
  | flagRepeatedNegation
  | flagDanglingNegation
  | flagUnexpectedEnd
  | repetitionMissing
  | countUnclosed
  | countEmpty
  | countInvalid
  | decimalInvalid
  | escapeUnexpectedEnd
  | escapeUnrecognized
  | hexEmpty
  | hexInvalid
  | hexInvalidDigit
  | classUnclosed
  | classEscapeInvalid
  | classRangeInvalid
  | classRangeLiteral
  | unicodeClassInvalid
  | unicodePropertyUnknown
  | unicodePropertyValueUnknown
  | unicodeNotAllowed
  | invalidBytes
  | wordEdgeUnclosed
  | wordEdgeUnrecognized
  | wordEdgeUnexpectedEnd
  | nestedTooDeep
deriving DecidableEq

/-- How deep a pattern may be nested. -/
def nestLimit : Nat := 250

/-- The reason in words. -/
def Reason.message : Reason → String
  | .groupUnclosed => "unclosed group"
  | .groupUnopened => "unopened group"
  | .groupNameUnclosed => "unclosed capture group name"
  | .groupNameInvalid => "invalid capture group character"
  | .groupNameEmpty => "empty capture group name"
  | .groupNameDuplicate => "duplicate capture group name"
  | .lookAround => "look-around, including look-ahead and look-behind, is not supported"
  | .backreference => "backreferences are not supported"
  | .flagUnrecognized => "unrecognized flag"
  | .flagDuplicate => "duplicate flag"
  | .flagRepeatedNegation => "flag negation operator repeated"
  | .flagDanglingNegation => "dangling flag negation operator"
  | .flagUnexpectedEnd => "expected flag but got end of regex"
  | .repetitionMissing => "repetition operator missing expression"
  | .countUnclosed => "unclosed counted repetition"
  | .countEmpty => "repetition quantifier expects a valid decimal"
  | .countInvalid => "invalid repetition count range, the start must be <= the end"
  | .decimalInvalid => "decimal literal invalid"
  | .escapeUnexpectedEnd => "incomplete escape sequence, reached end of pattern prematurely"
  | .escapeUnrecognized => "unrecognized escape sequence"
  | .hexEmpty => "hexadecimal literal empty"
  | .hexInvalid => "hexadecimal literal is not a Unicode scalar value"
  | .hexInvalidDigit => "invalid hexadecimal digit"
  | .classUnclosed => "unclosed character class"
  | .classEscapeInvalid => "invalid escape sequence found in character class"
  | .classRangeInvalid => "invalid character class range, the start must be <= the end"
  | .classRangeLiteral => "invalid range boundary, must be a literal"
  | .unicodeClassInvalid => "invalid Unicode character class"
  | .unicodePropertyUnknown => "Unicode property not found"
  | .unicodePropertyValueUnknown => "Unicode property value not found"
  | .unicodeNotAllowed => "Unicode not allowed here"
  | .invalidBytes => "pattern can match invalid UTF-8"
  | .wordEdgeUnclosed =>
    "special word boundary assertion is either unclosed or contains an invalid character"
  | .wordEdgeUnrecognized =>
    "unrecognized special word boundary assertion, valid choices are: " ++
      "start, end, start-half or end-half"
  | .wordEdgeUnexpectedEnd =>
    "found either the beginning of a special word boundary or a bounded repetition on a \\b " ++
      "with an opening brace, but no closing brace"
  | .nestedTooDeep =>
    s!"exceed the maximum number of nested parentheses/brackets ({nestLimit})"

/-! ## Complaints -/

/-- A piece of a pattern, up to but without the place of its end. -/
structure Span where
  start : Place
  stop : Place
deriving DecidableEq

/-- A reason and the piece of the pattern it is about, and perhaps an earlier piece that it
conflicts with. -/
structure Complaint where
  reason : Reason
  span : Span
  earlier : Option Span := none
deriving DecidableEq

namespace Complaint

/-- The pieces to be marked, in the order of the pattern. -/
def spans (c : Complaint) : List Span := c.earlier.toList ++ [c.span]

/-- The pieces lie within one line. -/
def oneLine (s : Span) : Bool := s.start.line = s.stop.line

/-- Marks under pieces of a line, behind the marks up to a column. -/
def marks : Nat → List Span → List Char
  | _, [] => []
  | column, s :: rest =>
    let width := max 1 (s.stop.column - s.start.column)
    List.replicate (s.start.column - column) ' ' ++ List.replicate width '^' ++
      marks (max column s.start.column + width) rest

/-- The number of a line, to a width. -/
def lineLabel (width n : Nat) : String :=
  let digits := toString n
  "".pushn ' ' (width - digits.length) ++ digits ++ ": "

/-- The lines of the pattern, each with the marks under it. Lines are numbered if there are
several. -/
def notate (c : Complaint) (pattern : String) : List String :=
  let lines := Text.lines pattern
  let count := lines.length + if pattern.toList.getLast? = some '\n' then 1 else 0
  let width := if count ≤ 1 then 0 else (toString count).length
  let spans := c.spans.filter oneLine
  (lines.zip (List.range lines.length)).flatMap fun (line, i) =>
    let label := if width = 0 then "    " else lineLabel width (i + 1)
    let here := spans.filter (·.start.line = i)
    (label ++ line) ::
      if here.isEmpty then []
      else ["".pushn ' ' label.length ++ String.ofList (marks 0 here)]

/-- A piece over several lines, in words. -/
def throughLines (s : Span) : String :=
  s!"on line {s.start.line + 1} (column {s.start.column + 1}) through line " ++
    s!"{s.stop.line + 1} (column {s.stop.column})"

/-- The complaint about a pattern as it is shown. -/
def render (c : Complaint) (pattern : String) : String :=
  let divider := "".pushn '~' 79
  let body :=
    if pattern.toList.contains '\n' then
      [divider] ++ c.notate pattern ++ [divider] ++
        (c.spans.filter (!oneLine ·)).map throughLines
    else c.notate pattern
  "\n".intercalate (["regex parse error:"] ++ body ++ ["error: " ++ c.reason.message])

end Complaint

end TickScript.Pattern
