-- The functions on lists and iterators.
import TickScript.Library.Operators

namespace TickScript.Library

/-! ## Ranges -/

/-- An iterator over a range, with an identity of its own. -/
def rangeOf (start stop step : Float) : Run Value := do
  if step == 0 then Run.fail .zeroStep
  else
    let id ← Run.freshId
    return ⟨none, .iterator id false (.range start stop step)⟩

/-- The values as numbers. -/
def numbers (what : String) : List Value → Except Cause (List Float)
  | [] => .ok []
  | v :: rest => do
    let x ← v.toNumber what
    let xs ← numbers what rest
    return x :: xs

/-- The numbers up to a bound, from zero or from a start, in steps of one or as given. -/
def range (values : List Value) : Run Value := do
  if values.length > 3 then Run.fail (.tooManyArguments "range" 3 values.length)
  else
    let xs ← Run.ofExcept (numbers "range" values)
    match xs with
    | [stop] => rangeOf 0 stop 1
    | [start, stop] => rangeOf start stop 1
    | [start, stop, step] => rangeOf start stop step
    | _ => rangeOf 0 0 1

/-! ## Parts of lists and texts -/

/-- The number of elements or characters. -/
def length (v : Value) : Run Value := do
  match v with
  | ⟨_, .list items⟩ => return .number (.ofNat items.length)
  | ⟨_, .iterator ..⟩ =>
    let w ← v.walk
    let n ← Run.ended w.length?
    return .number (.ofNat n)
  | ⟨_, .null⟩ => return .number 0
  | _ => return .number (.ofNat v.display.length)

/-- A cut at an index in a sequence of the given length. A negative index counts from the
end, and one outside is moved to the nearest end. -/
def cutPlace (length : Nat) (index : Int) : Nat :=
  let i := if index < 0 then index + length else index
  min i.toNat length

/-- The place of a cut, from the value that gives it. -/
def cutOf (length : Nat) (v : Value) : Except Cause Nat := do
  let x ← v.toNumber "slice"
  return cutPlace length (Number.floor64 x)

/-- The part of a sequence between two cuts; up to its end if there is only one. -/
def sliceOf {α : Type} (items : List α) (start : Value) (stop : Option Value) :
    Except Cause (List α) := do
  let i ← cutOf items.length start
  let j ← match stop with
    | some v => cutOf items.length v
    | none => .ok items.length
  return (items.take j).drop i

/-- A part of a list or text. -/
def slice (v start : Value) (stop : Option Value) : Run Value :=
  match v with
  | ⟨_, .text s⟩ => Run.ofExcept ((sliceOf s.toList start stop).map fun cs => .text (.ofList cs))
  | _ => do
    let items ← v.elements
    Run.ofExcept ((sliceOf items start stop).map .list)

/-- Joins values as texts, with a text between them: those of a list or iterator, if that is
all there is. -/
def join (separator : Value) (values : List Value) : Run Value := do
  let items ← match values with
    | [⟨b, .list items⟩] => (Value.mk b (.list items)).elements
    | [⟨b, .iterator id once walk⟩] => (Value.mk b (.iterator id once walk)).elements
    | values => pure values
  return .text (separator.display.intercalate (Value.displayAll items))

/-! ## The functions -/

def lists : List (String × Native) :=
  [ ("l", .eager .anyNumber fun values => pure (.list values)),
    ("range", .eager (.atLeast 1) range),
    ("element", .eagerTwo elementAt),
    ("length", .eagerOne length),
    ("slice", .eager (.atLeast 2) fun values =>
      match values with
      | [v, start] => slice v start none
      | [v, start, stop] => slice v start (some stop)
      | values => Run.fail (.tooManyArguments "slice" 3 values.length)),
    ("sort", .eagerOne fun v => do
      let items ← v.elements
      return .list (Value.sort items)),
    ("join", .eager (.atLeast 2) fun values =>
      match values with
      | separator :: values => join separator values
      | [] => pure .null) ]

end TickScript.Library
