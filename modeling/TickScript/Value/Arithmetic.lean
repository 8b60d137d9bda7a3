-- The arithmetic operators. Lists are taken element by element, against a list of the same
-- length or against one other value.
import TickScript.Value

namespace TickScript

/-- An arithmetic operator: what it does with two values of which none is a list, and
whether it joins texts. -/
structure Arithmetic where
  spelling : String
  scalar : Value → Value → Except Cause Value
  joinsTexts : Bool := false

namespace Arithmetic

/-- The operator joins these two, because one of them is a text. -/
def joins (op : Arithmetic) (a b : Value) : Bool := op.joinsTexts && (a.isText || b.isText)

/-- Two values joined as texts. -/
def join (a b : Value) : Value := .text (a.display ++ b.display)

mutual

/-- Applies the operator to a value that is no list and to any other. -/
def applyRight (op : Arithmetic) (a : Value) : Value → Except Cause Value
  | ⟨b, .list items⟩ =>
    if op.joins a ⟨b, .list items⟩ then .ok (join a ⟨b, .list items⟩)
    else (applyEachRight op a items).map .list
  | b => if op.joins a b then .ok (join a b) else op.scalar a b

/-- Applies the operator to a value that is no list and to each of a list. -/
def applyEachRight (op : Arithmetic) (a : Value) : List Value → Except Cause (List Value)
  | [] => .ok []
  | b :: rest => do
    let c ← applyRight op a b
    let cs ← applyEachRight op a rest
    return c :: cs

end

mutual

/-- Applies the operator to two values. -/
def apply (op : Arithmetic) : Value → Value → Except Cause Value
  | ⟨a, .list items⟩, b =>
    if op.joins ⟨a, .list items⟩ b then .ok (join ⟨a, .list items⟩ b)
    else match b.list? with
      | some others =>
        if items.length = others.length then (applyPairs op items others).map .list
        else .error (.unequalLengths op.spelling items.length others.length)
      | none => (applyEach op items b).map .list
  | a, b => applyRight op a b

/-- Applies the operator to each of a list and to one other value. -/
def applyEach (op : Arithmetic) : List Value → Value → Except Cause (List Value)
  | [], _ => .ok []
  | a :: rest, b => do
    let c ← apply op a b
    let cs ← applyEach op rest b
    return c :: cs

/-- Applies the operator to the pairs of two lists. -/
def applyPairs (op : Arithmetic) : List Value → List Value → Except Cause (List Value)
  | a :: as, b :: bs => do
    let c ← apply op a b
    let cs ← applyPairs op as bs
    return c :: cs
  | _, _ => .ok []

end

/-- An operator on numbers. -/
def onNumbers (spelling : String) (f : Float → Float → Except Cause Value)
    (joinsTexts : Bool) : Arithmetic where
  spelling
  scalar a b := do
    let x ← a.toNumber spelling
    let y ← b.toNumber spelling
    f x y
  joinsTexts

/-- A result that has to be a number. -/
def checked (what : String) (x : Float) : Except Cause Value :=
  if x.isNaN then .error (.noResult what) else .ok (.number x)

def add : Arithmetic := onNumbers "+" (fun x y => .ok (.number (x + y))) true

def subtract : Arithmetic := onNumbers "-" (fun x y => .ok (.number (x - y))) false

def multiply : Arithmetic := onNumbers "*" (fun x y => .ok (.number (x * y))) false

def divide : Arithmetic :=
  onNumbers "/" (fun x y => if y == 0 then .error .divisionByZero else .ok (.number (x / y))) false

def modulo : Arithmetic :=
  onNumbers "%" (fun x y =>
    if y == 0 then .error .moduloByZero else .ok (.number (Number.remainder x y))) false

def power : Arithmetic := onNumbers "^" (fun x y => checked "^" (x.pow y)) false

end Arithmetic

mutual

/-- The value with its sign changed, element by element in a list. -/
def Value.negate : Value → Except Cause Value
  | ⟨_, .list items⟩ => (negateAll items).map .list
  | v => (v.toNumber "-").map fun x => .number (-x)

/-- Each value with its sign changed. -/
def Value.negateAll : List Value → Except Cause (List Value)
  | [] => .ok []
  | v :: rest => do
    let w ← v.negate
    let ws ← negateAll rest
    return w :: ws

end

end TickScript
