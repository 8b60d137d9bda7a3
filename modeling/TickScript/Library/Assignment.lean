-- Writing to variables: plain and adding assignment, and the exchange of two variables.
import TickScript.Language
import TickScript.Value.Arithmetic

namespace TickScript

mutual

/-- Writes a value to what the target was read from. A list without a name of its own takes
a list of the same length apart. -/
def assign : Value → Value → Run Value
  | ⟨some name, _⟩, value => do
    Run.bindVariable name value
    return value
  | ⟨none, .list targets⟩, value =>
    match value.list? with
    | some values =>
      if targets.length = values.length then do
        assignAll targets values
        return value
      else Run.fail (.cannotUnpack values.length targets.length)
    | none => Run.fail (.cannotAssign (Value.mk none (.list targets)).display)
  | target, _ => Run.fail (.cannotAssign target.display)

/-- Writes values to targets, pair by pair. -/
def assignAll : List Value → List Value → Run Unit
  | target :: targets, value :: values => do
    let _ ← assign target value.unbound
    assignAll targets values
  | _, _ => pure ()

end

namespace Library

/-- Writes a value. -/
def assignPlain (_ : Kind) (target value : Lazy) : Run Value := do
  let target ← target .value
  let value ← value .value
  assign target value.unbound

/-- Adds a value to what is there. -/
def assignSum (_ : Kind) (target value : Lazy) : Run Value := do
  let target ← target .value
  let value ← value .value
  let sum ← Run.ofExcept (Arithmetic.add.apply target value)
  assign target sum

/-- Exchanges the values of two variables. -/
def swap (_ : Kind) (left right : Lazy) : Run Value := do
  let a ← left .value
  let b ← right .value
  match a.binding, b.binding with
  | some left, some right =>
    Run.bindVariable left b
    Run.bindVariable right a
    return b.bindTo left
  | _, _ => Run.fail .swapNeedsVariables

/-- Adds the operators that write to variables. -/
def withAssignments (lang : Language) : Language :=
  ((lang.addAssignment "=" 3 assignPlain).addAssignment "+=" 3 assignSum).addAssignment "<>" 3 swap

end Library

end TickScript
