-- The functions and the operator that search texts with patterns.
import TickScript.Language
import TickScript.Library.Operators
import TickScript.Pattern

namespace TickScript.Library

/-- The pattern that the text of a value spells. -/
def patternOf (v : Value) : Except Cause Pattern :=
  let source := v.display
  match Pattern.ofString source with
  | .ok p => .ok p
  | .error refusal => .error (.badPattern source (refusal.render source))

/-- The index of the first of some values that equals `v`, counted from `i`. -/
def indexFrom (v : Value) (i : Nat) : List Value → Option Nat
  | [] => none
  | w :: rest => if w.equals v then some i else indexFrom v (i + 1) rest

/-- The place of a value in a list, or what a pattern finds in a text. -/
def find (a b : Value) : Except Cause Value :=
  match a.list? with
  | some items => .ok (((indexFrom b 0 items).map fun i => .number (.ofNat i)).getD .null)
  | none => do
    let p ← patternOf b
    return ((p.firstFind? a.display).map .text).getD .null

/-- The pieces of a text between the matches of a pattern. -/
def split (pattern text : Value) : Except Cause Value := do
  let p ← patternOf pattern
  return .list ((p.split text.display).map .text)

/-- A text with every match of a pattern replaced, or left out. -/
def replace (text pattern : Value) (replacement : Option Value) : Except Cause Value := do
  let p ← patternOf pattern
  return .text (p.replaceAll text.display ((replacement.map Value.display).getD ""))

def patterns : List (String × Native) :=
  [ ("split", .eagerTwo fun pattern text => Run.ofExcept (split pattern text)),
    ("replace", .eager (.atLeast 2) fun values =>
      match values with
      | [text, pattern] => Run.ofExcept (replace text pattern none)
      | [text, pattern, replacement] => Run.ofExcept (replace text pattern (some replacement))
      | values => Run.fail (.tooManyArguments "replace" 3 values.length)) ]

/-- Adds the operator that searches. -/
def withSearch (lang : Language) : Language :=
  lang.addOperator "~" 80 .left (onValues fun a b => Run.ofExcept (find a b))

end TickScript.Library
