-- The values that scripts work with. A value that was read from a variable carries the
-- name of that variable, which is how an assignment finds its target; the name changes
-- neither what the value equals nor how it is shown.
import TickScript.Fault
import TickScript.Number.Spelling

namespace TickScript

/-! ## Values -/

/-- A thing of the host that scripts can pass around and print but not look into. -/
structure HostObject where
  typeName : String
  display : String
  truth : Bool
deriving DecidableEq

/-- What an iterator gives: the members of a list, or the numbers from `start` in steps of
`step` for as long as they are before `stop`. -/
inductive Walk (α : Type) where
  | items (list : List α)
  | range (start stop step : Float)

/-- What a value is, apart from the name it carries. Iterators and things of the host have
an identity, which is what their equality goes by. -/
inductive Datum (α : Type) where
  | null
  | number (x : Float)
  | text (s : String)
  | list (items : List α)
  | iterator (id : Nat) (once : Bool) (walk : Walk α)
  | host (id : Nat) (object : HostObject)

/-- A value and the name of the variable that it was read from, if it was. -/
inductive Value where
  | mk (binding : Option String) (datum : Datum Value)

namespace Value

def binding : Value → Option String
  | ⟨b, _⟩ => b

def datum : Value → Datum Value
  | ⟨_, d⟩ => d

def null : Value := ⟨none, .null⟩

def number (x : Float) : Value := ⟨none, .number x⟩

def text (s : String) : Value := ⟨none, .text s⟩

def list (items : List Value) : Value := ⟨none, .list items⟩

/-- Truth as a number: 1 or 0. -/
def boolean (b : Bool) : Value := number (if b then 1 else 0)

instance : Inhabited Value := ⟨null⟩

/-- The value, read from the variable `name`. -/
def bindTo (v : Value) (name : String) : Value := ⟨some name, v.datum⟩

/-- The value without a name. -/
def unbound (v : Value) : Value := ⟨none, v.datum⟩

/-! ## Looking at values -/

def isNull : Value → Bool
  | ⟨_, .null⟩ => true
  | _ => false

/-- Null, zero, the empty text and the empty list are false. -/
def truth : Value → Bool
  | ⟨_, .null⟩ => false
  | ⟨_, .number x⟩ => x != 0
  | ⟨_, .text s⟩ => s ≠ ""
  | ⟨_, .list items⟩ => !items.isEmpty
  | ⟨_, .iterator ..⟩ => true
  | ⟨_, .host _ object⟩ => object.truth

/-- The value as a number, null counting as zero. -/
def number? : Value → Option Float
  | ⟨_, .null⟩ => some 0
  | ⟨_, .number x⟩ => some x
  | _ => none

def text? : Value → Option String
  | ⟨_, .text s⟩ => some s
  | _ => none

def list? : Value → Option (List Value)
  | ⟨_, .list items⟩ => some items
  | _ => none

def isText : Value → Bool
  | ⟨_, .text _⟩ => true
  | _ => false

def typeName : Value → String
  | ⟨_, .null⟩ => "null"
  | ⟨_, .number _⟩ => "number"
  | ⟨_, .text _⟩ => "string"
  | ⟨_, .list _⟩ => "list"
  | ⟨_, .iterator ..⟩ => "iterator"
  | ⟨_, .host _ object⟩ => object.typeName

mutual

/-- The value as scripts print it. -/
def display : Value → String
  | ⟨_, .null⟩ => "null"
  | ⟨_, .number x⟩ => Number.format x
  | ⟨_, .text s⟩ => s
  | ⟨_, .list items⟩ => "[" ++ ", ".intercalate (displayAll items) ++ "]"
  | ⟨_, .iterator ..⟩ => "[...]"
  | ⟨_, .host _ object⟩ => object.display

/-- Each value as scripts print it. -/
def displayAll : List Value → List String
  | [] => []
  | v :: rest => v.display :: displayAll rest

end

/-- The value as a number for the operation `what`. -/
def toNumber (v : Value) (what : String) : Except Cause Float :=
  match v.number? with
  | some x => .ok x
  | none => .error (.expectsNumber what v.typeName v.display)

end Value

/-! ## Walking -/

/-- The next element of a walk and what is left of it. -/
def Walk.next : Walk Value → Option (Value × Walk Value)
  | .items [] => none
  | .items (v :: rest) => some (v, .items rest)
  | .range start stop step =>
    if (step > 0 && start < stop) || (step < 0 && start > stop) then
      some (.number start, .range (start + step) stop step)
    else none

/-- A number of steps that a walk exceeds only if it never ends. A range moves through at
most two to the power of 53 multiples of its step on either side of zero before the step no
longer changes the number. -/
def Walk.bound : Walk Value → Nat
  | .items list => list.length + 1
  | .range .. => 0x4000000000000000

/-- The elements of a walk, behind those already met, latest first; nothing if the walk has
not ended after so many steps. -/
def Walk.collect : Nat → Walk Value → List Value → Option (List Value)
  | 0, _, _ => none
  | fuel + 1, w, met =>
    match w.next with
    | none => some met.reverse
    | some (v, rest) => collect fuel rest (v :: met)

/-- All the elements of a walk that ends. -/
def Walk.toList? (w : Walk Value) : Option (List Value) := w.collect w.bound []

/-- How many elements a walk has, on top of those already counted. -/
def Walk.count : Nat → Walk Value → Nat → Option Nat
  | 0, _, _ => none
  | fuel + 1, w, met =>
    match w.next with
    | none => some met
    | some (_, rest) => count fuel rest (met + 1)

/-- The length of a walk that ends. -/
def Walk.length? (w : Walk Value) : Option Nat := w.count w.bound 0

/-- The outcome of looking for an element by its index. -/
inductive Walk.Found where
  | element (v : Value)
  | pastEnd
  | endless

/-- The element with the given index, counted from zero. -/
def Walk.find : Nat → Walk Value → Nat → Walk.Found
  | 0, _, _ => .endless
  | fuel + 1, w, i =>
    match w.next with
    | none => .pastEnd
    | some (v, rest) => if i = 0 then .element v else find fuel rest (i - 1)

end TickScript
