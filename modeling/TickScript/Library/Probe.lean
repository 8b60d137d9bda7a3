-- Operators and functions of a host that looks into how scripts are evaluated: what is
-- forced, how often, and for what kind of result.
import TickScript.Library

namespace TickScript.Library

/-- The kind of result that is wanted, in one word. -/
def kindName : Kind → String
  | .value => "Value"
  | .boolean => "Boolean"
  | .void => "Void"

/-- A function without operands. -/
def ofNone (apply : Kind → Run Lazy) : Native where
  arity := .exactly 0
  apply _ kind _ := apply kind

/-- Asks scripts to stop. -/
def halt (_ : Kind) : Run Lazy := do
  Run.modifyMachine fun m => { m with cancelled := true }
  return .of .null

/-- Fails with a fault of calculation that the operand words. -/
def failCalculation (_ : Kind) (operand : Lazy) : Run Lazy := do
  let v ← operand .value
  Run.fail (.raised .arithmetic v.display)

/-- Prints the kind of result that is wanted. -/
def printKind (kind : Kind) : Run Lazy := do
  Run.modifyMachine (·.print (kindName kind))
  return .of (.number 1)

/-- Evaluates the operand once more than its result is. -/
def redo (_ : Kind) (operand : Lazy) : Run Lazy := do
  let _ ← operand .value
  return operand

/-- An iterator that can be walked once. -/
def onceOver (values : List Value) : Run Value := do
  let id ← Run.freshId
  return ⟨none, .iterator id true (.items values)⟩

/-- A thing of the host. -/
def thing (display truth : Value) : Run Value := do
  let id ← Run.freshId
  return ⟨none, .host id { typeName := "thing", display := display.display, truth := truth.truth }⟩

/-- The order of two values as a number. -/
def threeWay (a b : Value) : Value :=
  match a.compare b with
  | .lt => .number (-1)
  | .eq => .number 0
  | .gt => .number 1

/-- The left operand unless it is null, and then the right one. -/
def fallback (kind : Kind) (left right : Lazy) : Run Value := do
  let a ← left kind
  if a.isNull then right kind else return a

/-- Writes a value as it is, the name that it carries included. -/
def keepName (_ : Kind) (target value : Lazy) : Run Value := do
  let target ← target .value
  let value ← value .value
  match target.binding with
  | some name =>
    modify (·.set name value)
    return value
  | none => Run.fail (.raised .failure "':=' needs a variable")

def probes : List (String × Native) :=
  [ ("halt", ofNone halt),
    ("boom", ofNone fun _ => Run.fail (.raised .failure "boom")),
    ("mathfail", .ofOne failCalculation),
    ("kind", ofNone fun kind => pure (.of (.text (kindName kind)))),
    ("pkind", ofNone printKind),
    ("defer", .ofOne fun _ operand => pure operand),
    ("redo", .ofOne redo),
    ("argc",
      { arity := .anyNumber
        apply := fun _ _ operands => pure (.of (.number (.ofNat operands.length))) }),
    ("atleast2",
      { arity := .atLeast 2
        apply := fun _ _ operands => pure (operands[1]?.getD (.of .null)) }),
    ("once", .eager .anyNumber onceOver),
    ("opaque", .eagerTwo thing) ]

/-- The list of two values. -/
def pair : Kind → Lazy → Lazy → Run Value := onValues fun a b => pure (.list [a, b])

end TickScript.Library

namespace TickScript

open TickScript.Library

/-- The standard language with the operators and functions of the probing host. -/
def Language.probing : Language :=
  (Language.standard.addFunctions probes)
    |>.addOperator "<=>" 10 .left (onValues fun a b => pure (threeWay a b))
    |>.addOperator "-->" 15 .right pair
    |>.addOperator "|>" 15 .left pair
    |>.addOperator "÷" 30 .left pair
    |>.addOperator "??" 4 .right fallback
    |>.addAssignment ":=" 3 keepName
    |>.addUnary "#" 70 (fun _ operand => do
      let v ← operand .value
      return .number (.ofNat v.display.length))
    |>.addUnary "@" 5 (fun _ operand => do
      let v ← operand .value
      return .text v.typeName)

end TickScript
