-- What can go wrong while a script is read or run, where it went wrong, and how that is
-- shown to the user.
import TickScript.Text.Words
import TickScript.Token

namespace TickScript

/-! ## Numbers of arguments -/

/-- How many arguments a built-in function takes. -/
inductive Arity where
  | exactly (n : Nat)
  | atLeast (n : Nat)
  | anyNumber
deriving DecidableEq

/-- A call with `n` arguments is allowed. -/
def Arity.accepts : Arity → Nat → Bool
  | .exactly k, n => n = k
  | .atLeast k, n => k ≤ n
  | .anyNumber, _ => true

/-- The arity in words. -/
def Arity.describe : Arity → String
  | .exactly 1 => "1 argument"
  | .exactly n => toString n ++ " arguments"
  | .atLeast 1 => "at least 1 argument"
  | .atLeast n => "at least " ++ toString n ++ " arguments"
  | .anyNumber => "any number of arguments"

/-! ## Causes -/

/-- The three kinds of faults: the text is no script, a script fails, or a calculation has no
result. -/
inductive FaultKind where
  | malformed
  | failure
  | arithmetic
deriving DecidableEq

/-- The kind in words. -/
def FaultKind.describe : FaultKind → String
  | .malformed => "syntax error"
  | .failure => "error"
  | .arithmetic => "math error"

/-- How deep a tree may be nested. -/
def maxNesting : Nat := 200

/-- How many procedure bodies may be under evaluation at once. -/
def maxCallDepth : Nat := 128

/-- Everything that can go wrong. -/
inductive Cause where
  -- reading
  | malformedHex (text : String)
  | malformedNumber (text : String)
  | unterminatedText
  | unknownOperator (text : String)
  | notAllowedAfter (text : String) (pos : Nat) (previous : String) (previousPos : Nat)
  | emptyScript
  | unexpectedEnd
  | unexpected (text : String)
  | nestedTooDeep
  | notBinary (operator : String)
  | notUnary (operator : String)
  | expectedClosing (text : String)
  | unbalancedOpening
  | expectedCommaOrClosing (text : String)
  | unclosedCall (name : String)
  | badSignature
  | redefinesBuiltIn (name : String)
  | badParameters (name : String)
  | wrongArity (name : String) (arity : Arity) (got : Nat)
  -- running
  | undefinedVariable (name : String)
  | undefinedFunction (name : String)
  | wrongArgumentCount (name : String) (expected got : Nat)
  | callTooDeep
  | tooManyArguments (name : String) (most got : Nat)
  | expectsNumber (what type shown : String)
  | expectsElements (type shown : String)
  | alreadyWalked
  | unequalLengths (operator : String) (left right : Nat)
  | cannotUnpack (values targets : Nat)
  | cannotAssign (shown : String)
  | swapNeedsVariables
  | cannotIndex (type shown index : String)
  | badPattern (pattern problem : String)
  -- calculating
  | divisionByZero
  | moduloByZero
  | noResult (what : String)
  | zeroStep
  -- raised by a function of the host
  | raised (kind : FaultKind) (text : String)
deriving DecidableEq

/-- The kind of fault that a cause makes. -/
def Cause.kind : Cause → FaultKind
  | .malformedHex _ | .malformedNumber _ | .unterminatedText | .unknownOperator _
  | .notAllowedAfter .. | .emptyScript | .unexpectedEnd | .unexpected _ | .nestedTooDeep
  | .notBinary _ | .notUnary _ | .expectedClosing _ | .unbalancedOpening
  | .expectedCommaOrClosing _ | .unclosedCall _ | .badSignature | .redefinesBuiltIn _
  | .badParameters _ => .malformed
  | .divisionByZero | .moduloByZero | .noResult _ | .zeroStep => .arithmetic
  | .raised kind _ => kind
  | _ => .failure

/-- The cause in words. -/
def Cause.message : Cause → String
  | .malformedHex text => s!"malformed hex literal '{text}'"
  | .malformedNumber text => s!"malformed number '{text}'"
  | .unterminatedText => "unterminated string literal"
  | .unknownOperator text => s!"unknown operator '{text}'"
  | .notAllowedAfter text pos previous previousPos =>
    s!"'{text}' at pos {pos} is not allowed after '{previous}' at pos {previousPos}"
  | .emptyScript => "empty expression"
  | .unexpectedEnd => "unexpected end of expression"
  | .unexpected text => s!"unexpected '{text}'"
  | .nestedTooDeep => s!"expression nested deeper than {maxNesting} levels"
  | .notBinary operator => s!"'{operator}' is not a binary operator"
  | .notUnary operator => s!"'{operator}' is not a unary operator"
  | .expectedClosing text => s!"expected ')' but found '{text}'"
  | .unbalancedOpening => "unbalanced '('"
  | .expectedCommaOrClosing text => s!"expected ',' or ')' but found '{text}'"
  | .unclosedCall name => s!"missing ')' in call to '{name}'"
  | .badSignature => "left side of '->' must look like name(params)"
  | .redefinesBuiltIn name => s!"cannot redefine built-in function '{name}'"
  | .badParameters name => s!"parameters of '{name}' must be variable names"
  | .wrongArity name arity got =>
    s!"Function '{name}' expects " ++ arity.describe ++ s!", got {got}"
  | .undefinedVariable name => s!"Variable '{name}' is not defined"
  | .undefinedFunction name => s!"Function '{name}' is not defined"
  | .wrongArgumentCount name expected got =>
    let plural := if expected = 1 then "" else "s"
    s!"Function '{name}' takes {expected} argument{plural}, not {got}"
  | .callTooDeep => s!"maximum call depth of {maxCallDepth} exceeded"
  | .tooManyArguments name most got =>
    s!"Function '{name}' takes at most {most} arguments, got {got}"
  | .expectsNumber what type shown => s!"'{what}' expects a number, got {type} '{shown}'"
  | .expectsElements type shown => s!"expected a list or iterator, got {type} '{shown}'"
  | .alreadyWalked => "iterator has already been consumed"
  | .unequalLengths operator left right =>
    s!"'{operator}' needs lists of equal length, got {left} and {right}"
  | .cannotUnpack values targets =>
    s!"cannot unpack {values} values into {targets} variables"
  | .cannotAssign shown => s!"cannot assign to '{shown}', it is not a variable"
  | .swapNeedsVariables => "'<>' needs a variable on both sides"
  | .cannotIndex type shown index => s!"cannot index {type} '{shown}' with {index}"
  | .badPattern pattern problem => s!"invalid regex '{pattern}': {problem}"
  | .divisionByZero => "division by zero"
  | .moduloByZero => "modulo by zero"
  | .noResult what => s!"'{what}' result is not a number"
  | .zeroStep => "range step cannot be zero"
  | .raised _ text => text

/-! ## Faults -/

/-- A cause, the site where it arose, and the innermost procedure whose body it left. -/
structure Fault where
  cause : Cause
  site : Option Site
  procedure : Option String
deriving DecidableEq

namespace Fault

/-- A cause without a site as yet. -/
def ofCause (cause : Cause) : Fault := ⟨cause, none, none⟩

/-- A cause at a site. -/
def ofSite (cause : Cause) (site : Site) : Fault := ⟨cause, some site, none⟩

def kind (f : Fault) : FaultKind := f.cause.kind

def message (f : Fault) : String := f.cause.message

/-- Locates a fault, unless it has a site already. -/
def locate (f : Fault) (site : Site) : Fault := { f with site := f.site.or (some site) }

/-- Names the procedure that a fault leaves, unless an inner one is named already. -/
def leave (f : Fault) (procedure : String) : Fault :=
  { f with procedure := f.procedure.or (some procedure) }

end Fault

/-! ## Diagnostics -/

/-- A fault as it is shown: a headline and up to three lines of the script. -/
structure Diagnostic where
  kind : FaultKind
  headline : String
  snippet : List String
deriving DecidableEq

/-- Headline and snippet, line by line. -/
def Diagnostic.lines (d : Diagnostic) : List String := d.headline :: d.snippet

/-- Headline and snippet as one text. -/
def Diagnostic.render (d : Diagnostic) : String := "\n".intercalate d.lines

/-- A line of a script with a mark before its column `column`. -/
def markedLine (line : String) (column : Nat) : String :=
  String.ofList (line.toList.take column) ++ " HERE>> " ++ String.ofList (line.toList.drop column)

/-- The line of a place with a mark at its column, between the lines before and after it. -/
def snippet (code : String) (place : Place) : List String :=
  let lines := Text.lines code
  match lines[place.line]? with
  | none => []
  | some current =>
    let before := if place.line = 0 then [] else (lines[place.line - 1]?).toList
    before ++ markedLine current place.column :: (lines[place.line + 1]?).toList

/-- Where a site is, in words: by line and column if the script has several lines. -/
def Site.describe (s : Site) : String :=
  let place := s.token.place
  if s.source.code.toList.contains '\n' then
    s!" at line {place.line + 1}, pos {place.column + 1}"
  else s!" at pos {place.pos + 1}"

/-- The fault as it is shown. The headline ends with the procedure, or else with the name of
the script. -/
def Fault.diagnostic (f : Fault) : Diagnostic :=
  let position := (f.site.map Site.describe).getD ""
  let origin := (f.procedure.or (f.site.bind (·.source.name))).map (" in " ++ ·)
  { kind := f.kind
    headline := f.message ++ position ++ origin.getD ""
    snippet := (f.site.map fun s => snippet s.source.code s.token.place).getD [] }

end TickScript
