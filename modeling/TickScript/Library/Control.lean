-- The functions that decide what is evaluated and how often. Loops bind names of their own
-- and put them back when they end, whatever ends them; before each round they end if
-- scripts are to stop.
import TickScript.Box
import TickScript.Clock
import TickScript.Language

namespace TickScript.Library

/-! ## Choice -/

/-- The operand after the first condition that is true, or else the last one if it has no
condition before it. -/
def choose : List Lazy → Run Lazy
  | condition :: consequence :: rest => do
    let holds ← condition.truth
    if holds then return consequence else choose rest
  | [otherwise] => return otherwise
  | [] => return .of .null

/-! ## Counting loops -/

/-- Evaluates the body so many times; `_` counts the rounds. The result is that of the last
round. -/
def repeatFrom (body : Run Value) : Nat → Nat → Value → Run Value
  | 0, _, last => pure last
  | rounds + 1, i, _ => do
    Run.checkStop
    Run.bindVariable "_" (.number (.ofNat i))
    let v ← body
    repeatFrom body rounds (i + 1) v

/-- Evaluates the body as long as the condition holds, at most so many times. -/
def whileFrom (condition : Lazy) (body : Run Value) : Nat → Nat → Value → Run Value
  | 0, _, last => pure last
  | rounds + 1, i, last => do
    Run.checkStop
    Run.bindVariable "_" (.number (.ofNat i))
    let holds ← condition.truth
    if holds then
      let v ← body
      whileFrom condition body rounds (i + 1) v
    else return last

def repeatLoop (kind : Kind) (count body : Lazy) : Run Lazy := do
  let n ← count .value
  let x ← Run.ofExcept (n.toNumber "loop")
  let v ← Run.restoring ["_"] (repeatFrom (body kind) (Number.repetitions x) 0 .null)
  return .of v

def whileLoop (kind : Kind) (condition limit body : Lazy) : Run Lazy := do
  let n ← limit .value
  let x ← Run.ofExcept (n.toNumber "while")
  let v ← Run.restoring ["_"] (whileFrom condition (body kind) (Number.repetitions x) 0 .null)
  return .of v

/-! ## Loops over elements -/

/-- Visits the elements of a walk; `_` is the element and `_i` its index. A visit makes a
new result from the result so far and says whether to go on. -/
def visitFrom {σ : Type} (visit : σ → Value → Run (σ × Bool)) :
    Nat → Walk Value → Nat → σ → Run σ
  | 0, _, _, _ => throw .endless
  | fuel + 1, w, i, result =>
    match w.next with
    | none => pure result
    | some (v, rest) => do
      Run.checkStop
      Run.bindVariable "_" v
      Run.bindVariable "_i" (.number (.ofNat i))
      let (result, goesOn) ← visit result v
      if goesOn then visitFrom visit fuel rest (i + 1) result else return result

/-- Visits the elements of a list or iterator. -/
def visitEach {σ : Type} (elements : Lazy) (start : σ) (visit : σ → Value → Run (σ × Bool)) :
    Run σ := do
  let v ← elements .value
  let w ← v.walk
  Run.restoring ["_", "_i"] (visitFrom visit w.bound w 0 start)

/-- The number of elements for which the body is true. -/
def countLoop (_ : Kind) (elements body : Lazy) : Run Lazy := do
  let n ← visitEach elements 0 fun n _ => do
    let holds ← body.truth
    return (if holds then n + 1 else n, true)
  return .of (.number (.ofNat n))

/-- The results of the body for each element. -/
def mapLoop (_ : Kind) (elements body : Lazy) : Run Lazy := do
  let results ← visitEach elements #[] fun results _ => do
    let v ← body .value
    return (results.push v.unbound, true)
  return .of (.list results.toList)

/-- The elements for which the body is true. -/
def filterLoop (_ : Kind) (elements body : Lazy) : Run Lazy := do
  let kept ← visitEach elements #[] fun kept v => do
    let holds ← body.truth
    return (if holds then kept.push v else kept, true)
  return .of (.list kept.toList)

/-- The first element for which the body is true. -/
def firstLoop (_ : Kind) (elements body : Lazy) : Run Lazy := do
  let found ← visitEach elements Value.null fun found v => do
    let holds ← body.truth
    return if holds then (v, false) else (found, true)
  return .of found

/-- Whether the body is true for all elements. -/
def allLoop (_ : Kind) (elements body : Lazy) : Run Lazy := do
  let all ← visitEach elements true fun _ _ => do
    let holds ← body.truth
    return (holds, holds)
  return .of (.boolean all)

/-! ## Loops over boxes -/

/-- Evaluates the body at so many positions of a box from the one with index `i` on, and
counts those where it is true. -/
def volumeFrom (box : Box) (body : Lazy) : Nat → Nat → Nat → Run Nat
  | 0, _, count => pure count
  | positions + 1, i, count => do
    Run.checkStop
    let p := box.position i
    let x := Value.number (.ofInt p.x)
    let y := Value.number (.ofInt p.y)
    let z := Value.number (.ofInt p.z)
    Run.bindVariable "_x" x
    Run.bindVariable "_y" y
    Run.bindVariable "_z" z
    Run.bindVariable "_" (.list [x, y, z])
    let holds ← body.truth
    volumeFrom box body positions (i + 1) (if holds then count + 1 else count)

/-- A coordinate of a box. -/
def coordinate (operand : Lazy) : Run Int := do
  let v ← operand .value
  let x ← Run.ofExcept (v.toNumber "volume")
  return Number.floor64 x

/-- The number of positions of a box for which the body is true. -/
def volumeLoop (x1 y1 z1 x2 y2 z2 body : Lazy) : Run Lazy := do
  let x1 ← coordinate x1
  let y1 ← coordinate y1
  let z1 ← coordinate z1
  let x2 ← coordinate x2
  let y2 ← coordinate y2
  let z2 ← coordinate z2
  let box := Box.ofCorners ⟨x1, y1, z1⟩ ⟨x2, y2, z2⟩
  let count ← Run.restoring ["_x", "_y", "_z", "_"] (volumeFrom box body box.volume 0 0)
  return .of (.number (.ofNat count))

/-! ## Calling and yielding -/

/-- Calls the procedure whose name is the value of an operand. -/
def callByName (run : Expr → Lazy) (kind : Kind) (name : Lazy) (args : List Lazy) : Run Lazy := do
  let name ← name .value
  let v ← callNamed run name.display args kind
  return .of v

/-- Hands control to the host, perhaps for so many milliseconds. -/
def gameTick (run : Expr → Lazy) : List Lazy → Run Lazy
  | [] => do
    yield run none
    return .of (.boolean true)
  | [operand] => do
    let v ← operand .value
    let x ← Run.ofExcept (v.toNumber "game_tick")
    yield run (some (Number.truncNat64 x))
    return .of (.boolean true)
  | operands => Run.fail (.tooManyArguments "game_tick" 1 operands.length)

/-! ## The functions -/

/-- The choice among operands. -/
def choosing : Native where
  arity := .atLeast 2
  apply _ _ operands := choose operands

/-- The loop under a condition. -/
def whileLooping : Native where
  arity := .exactly 3
  apply _ kind
    | [condition, limit, body] => whileLoop kind condition limit body
    | _ => pure (.of .null)

/-- The loop over a box. -/
def volumeLooping : Native where
  arity := .exactly 7
  apply _ _
    | [x1, y1, z1, x2, y2, z2, body] => volumeLoop x1 y1 z1 x2 y2 z2 body
    | _ => pure (.of .null)

/-- The call by name. -/
def calling : Native where
  arity := .atLeast 1
  apply run kind
    | name :: args => callByName run kind name args
    | [] => pure (.of .null)

/-- The yield to the host. -/
def ticking : Native where
  arity := .anyNumber
  apply run _ operands := gameTick run operands

def control : List (String × Native) :=
  [ ("if", choosing),
    ("loop", .ofTwo repeatLoop),
    ("while", whileLooping),
    ("for", .ofTwo countLoop),
    ("map", .ofTwo mapLoop),
    ("filter", .ofTwo filterLoop),
    ("first", .ofTwo firstLoop),
    ("all", .ofTwo allLoop),
    ("volume", volumeLooping),
    ("call", calling),
    ("game_tick", ticking) ]

end TickScript.Library
