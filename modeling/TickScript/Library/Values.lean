-- The functions on single values and on variables by name.
import TickScript.Language
import TickScript.Text.Case

namespace TickScript.Library

/-- The variable whose name is the value of an operand. It can be written to. -/
def variableNamed (_ : Kind) (name : Lazy) : Run Lazy := do
  let name ← name .value
  let found ← Run.getVariable? name.display
  return .of ((found.getD .null).bindTo name.display)

/-- Forgets the procedure and the variable of a name, and says whether there was one. -/
def forgetName (name : String) : Run Bool := fun s =>
  let hadProcedure := s.machine.procedures.contains name
  let procedures := s.machine.procedures.erase name
  let (hadVariable, s) := State.erase { s with machine := { s.machine with procedures } } name
  .ok (hadProcedure || hadVariable) s

/-- Forgets what the value of an operand names. -/
def forget (_ : Kind) (name : Lazy) : Run Lazy := do
  let name ← name .value
  let found ← forgetName name.display
  return .of (.boolean found)

/-- Prints a value and gives it back. -/
def printValue (_ : Kind) (operand : Lazy) : Run Lazy := do
  let v ← operand .value
  Run.modifyMachine (·.print v.display)
  return .of v

/-- The number that a number is or a text spells, and null for all else. -/
def toNumber (v : Value) : Value :=
  match v with
  | ⟨_, .number _⟩ => v.unbound
  | ⟨_, .text s⟩ => ((Number.read? s).map .number).getD .null
  | _ => .null

/-- Truth, except that some texts count as false. -/
def toBoolean (v : Value) : Bool :=
  match v.text? with
  | some s => !(s = "" || s.map Char.toLower = "false" || s = "null")
  | none => v.truth

def negate (_ : Kind) (operand : Lazy) : Run Lazy := do
  let b ← operand.truth
  return .of (.boolean !b)

def values : List (String × Native) :=
  [ ("var", .ofOne variableNamed),
    ("undef", .ofOne forget),
    ("print", .ofOne printValue),
    ("type", .eagerOne fun v => pure (.text v.typeName)),
    ("str", .eagerOne fun v => pure (.text v.display)),
    ("number", .eagerOne fun v => pure (toNumber v)),
    ("bool", .eagerOne fun v => pure (.boolean (toBoolean v))),
    ("not", .ofOne negate),
    ("upper", .eagerOne fun v => pure (.text (Text.toUpper v.display))),
    ("lower", .eagerOne fun v => pure (.text (Text.toLower v.display))) ]

end TickScript.Library
