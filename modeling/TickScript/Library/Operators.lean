-- The operators that calculate, compare, decide and select.
import TickScript.Language
import TickScript.Value.Arithmetic
import TickScript.Value.Order

namespace TickScript.Library

/-! ## Elements -/

/-- The place of an index among so many elements. Indices wrap around, so that -1 is the
last one. -/
def wrapIndex (length : Nat) (index : Float) : Nat :=
  (Number.floor64 index % length).toNat

/-- The element of a list, text or iterator with the given index. -/
def elementAt (v index : Value) : Run Value := do
  let i ← Run.ofExcept (index.toNumber ":")
  match v with
  | ⟨_, .list items⟩ => return (items[wrapIndex items.length i]?).getD .null
  | ⟨_, .text s⟩ =>
    let cs := s.toList
    return ((cs[wrapIndex cs.length i]?).map fun c => .text c.toString).getD .null
  | ⟨_, .iterator ..⟩ =>
    if i >= 0 then do
      let w ← v.walk
      match w.find w.bound (Number.truncNat64 i) with
      | .element v => return v
      | .pastEnd => return .null
      | .endless => throw .endless
    else Run.fail (.cannotIndex v.typeName v.display (Number.plain i))
  | _ => Run.fail (.cannotIndex v.typeName v.display (Number.plain i))

/-! ## Operators on values -/

/-- An operator on the values of its operands, the left one evaluated first. -/
def onValues (f : Value → Value → Run Value) (_ : Kind) (left right : Lazy) : Run Value := do
  let a ← left .value
  let b ← right .value
  f a b

def arithmetic (op : Arithmetic) : Kind → Lazy → Lazy → Run Value :=
  onValues fun a b => Run.ofExcept (op.apply a b)

def relation (holds : Value → Value → Bool) : Kind → Lazy → Lazy → Run Value :=
  onValues fun a b => pure (.boolean (holds a b))

/-! ## Operators on one value -/

def minus (_ : Kind) (operand : Lazy) : Run Value := do
  let v ← operand .value
  Run.ofExcept v.negate

/-- A list stays as it is, and all else has to be a number. -/
def plus (_ : Kind) (operand : Lazy) : Run Value := do
  let v ← operand .value
  match v with
  | ⟨_, .list _⟩ => return v.unbound
  | _ => Run.ofExcept ((v.toNumber "+").map .number)

def negation (_ : Kind) (operand : Lazy) : Run Value := do
  let b ← operand.truth
  return .boolean !b

/-! ## Decisions -/

/-- Both operands are true. The right one is only evaluated if the left one is. -/
def conjunction (_ : Kind) (left right : Lazy) : Run Value := do
  let a ← left.truth
  if a then
    let b ← right.truth
    return .boolean b
  else return .boolean false

/-- One of the operands is true. The right one is only evaluated if the left one is not. -/
def disjunction (_ : Kind) (left right : Lazy) : Run Value := do
  let a ← left.truth
  if a then return .boolean true
  else
    let b ← right.truth
    return .boolean b

/-- Adds the operators that write to nothing. -/
def withOperators (lang : Language) : Language :=
  lang
    |>.addOperator ":" 80 .left (onValues elementAt)
    |>.addUnary "-" 60 minus
    |>.addUnary "+" 60 plus
    |>.addUnary "!" 60 negation
    |>.addOperator "^" 40 .right (arithmetic .power)
    |>.addOperator "*" 30 .left (arithmetic .multiply)
    |>.addOperator "/" 30 .left (arithmetic .divide)
    |>.addOperator "%" 30 .left (arithmetic .modulo)
    |>.addOperator "+" 20 .left (arithmetic .add)
    |>.addOperator "-" 20 .left (arithmetic .subtract)
    |>.addOperator ">" 10 .left (relation fun a b => a.compare b = .gt)
    |>.addOperator ">=" 10 .left (relation fun a b => a.compare b ≠ .lt)
    |>.addOperator "<" 10 .left (relation fun a b => a.compare b = .lt)
    |>.addOperator "<=" 10 .left (relation fun a b => a.compare b ≠ .gt)
    |>.addOperator "==" 7 .left (relation Value.equals)
    |>.addOperator "!=" 7 .left (relation fun a b => !a.equals b)
    |>.addOperator "&&" 5 .left conjunction
    |>.addOperator "||" 4 .left disjunction

end TickScript.Library
