-- What an evaluation reads and writes: the local variables, and the machine that all
-- evaluations share. An evaluation ends with a value or is interrupted, and keeps what it
-- changed in either case.
import TickScript.Registry
import TickScript.Schedule
import TickScript.Value

namespace TickScript

/-! ## The machine -/

/-- Who is told about a fault that ends a run. -/
inductive Snooper where
  /-- It keeps the diagnostics under its name. -/
  | recorder (name : String)
  /-- It prints the diagnostics, those of calculations perhaps not. -/
  | printer (skipsArithmetic : Bool)
deriving DecidableEq

/-- A diagnostic and who was told. -/
structure Report where
  snooper : Snooper
  diagnostic : Diagnostic
deriving DecidableEq

/-- What a script that yields hands control to. -/
inductive Hook where
  | absent
  /-- It keeps the waiting times, latest first, and stops the script when these ask for it. -/
  | recorder (raises : List (Option Nat) → Bool)
  /-- It counts a tick and runs the jobs that are due. -/
  | clock

/-- All that outlives a single evaluation. -/
structure Machine where
  globals : Registry Value := .empty
  procedures : Registry Procedure := .empty
  output : Array String := #[]
  /-- How many procedure bodies are under evaluation. -/
  depth : Nat := 0
  /-- Scripts are to stop. -/
  cancelled : Bool := false
  snooper : Option Snooper := none
  reports : Array Report := #[]
  hook : Hook := .absent
  /-- The waiting times that a recording hook has kept, latest first. -/
  budgets : List (Option Nat) := []
  clock : Clock := .start
  /-- The milliseconds that yielding scripts have asked to wait. -/
  owed : Nat := 0
  random : UInt64 := 1
  /-- The iterators that can be walked once only and have been. -/
  spent : List Nat := []
  /-- The next identity for an iterator or a thing of the host. -/
  fresh : Nat := 0

/-- The local variables of an evaluation, and the machine. Names are bound to constant values: to
read a variable neither fails nor changes anything. -/
structure State where
  locals : Registry Value
  machine : Machine

namespace Machine

def print (m : Machine) (line : String) : Machine := { m with output := m.output.push line }

def setGlobal (m : Machine) (name : String) (v : Value) : Machine :=
  { m with globals := m.globals.set name v }

/-- Defines a global that carries its own name. -/
def define (m : Machine) (name : String) (v : Value) : Machine := m.setGlobal name (v.bindTo name)

/-- A new identity. -/
def freshId (m : Machine) : Nat × Machine := (m.fresh, { m with fresh := m.fresh + 1 })

/-- Tells a snooper about a diagnostic. -/
def tell (m : Machine) (snooper : Snooper) (d : Diagnostic) : Machine :=
  let m := { m with reports := m.reports.push ⟨snooper, d⟩ }
  match snooper with
  | .recorder _ => m
  | .printer skipsArithmetic =>
    if skipsArithmetic && d.kind = .arithmetic then m else d.lines.foldl Machine.print m

/-- Reports a fault to the snooper, if there is one. -/
def report (m : Machine) (f : Fault) : Machine :=
  match m.snooper with
  | none => m
  | some snooper => m.tell snooper f.diagnostic

/-- Takes what was printed. -/
def takeOutput (m : Machine) : List String × Machine :=
  (m.output.toList, { m with output := #[] })

end Machine

/-! ## Variables -/

/-- A global name is read and written in the machine, from wherever it is used. -/
def isGlobalName (name : String) : Bool := "global_".toList.isPrefixOf name.toList

namespace State

/-- A variable: the local one, and otherwise the global one of that name. -/
def get? (s : State) (name : String) : Option Value :=
  if isGlobalName name then s.machine.globals.get? name
  else (s.locals.get? name).or (s.machine.globals.get? name)

def set (s : State) (name : String) (v : Value) : State :=
  if isGlobalName name then { s with machine := s.machine.setGlobal name v }
  else { s with locals := s.locals.set name v }

/-- Forgets a variable, and says whether there was one. A global that has no global name
stays. -/
def erase (s : State) (name : String) : Bool × State :=
  if isGlobalName name then
    (s.machine.globals.contains name,
      { s with machine := { s.machine with globals := s.machine.globals.erase name } })
  else (s.locals.contains name, { s with locals := s.locals.erase name })

end State

/-- What some local names stood for. -/
abbrev Frame := List (String × Option Value)

/-- What some names stand for among the locals. -/
def Frame.ofNames (locals : Registry Value) (names : List String) : Frame :=
  names.map fun name => (name, locals.get? name)

/-- Puts names back to what they stood for. -/
def Frame.putBack (frame : Frame) (locals : Registry Value) : Registry Value :=
  frame.foldl (fun locals (name, old) =>
    match old with
    | some v => locals.set name v
    | none => locals.erase name) locals

/-! ## Evaluations -/

/-- Why an evaluation ends without a value. -/
inductive Interrupt where
  | fault (f : Fault)
  /-- Scripts are to stop. -/
  | stopped
  /-- The evaluation does not come to an end. -/
  | endless
deriving DecidableEq

/-- What a user reads about a stopped script. -/
def stoppedText : String := "script execution stopped"

namespace Interrupt

/-- Locates a fault, unless it has a site already. -/
def locate (site : Site) : Interrupt → Interrupt
  | .fault f => .fault (f.locate site)
  | i => i

/-- Names the procedure that a fault leaves, unless an inner one is named already. -/
def leave (procedure : String) : Interrupt → Interrupt
  | .fault f => .fault (f.leave procedure)
  | i => i

end Interrupt

/-- A computation on a state. -/
abbrev Run := EStateM Interrupt State

/-- What the result of an evaluation is wanted for. -/
inductive Kind where
  | value
  | boolean
  /-- Nothing: the result is dropped. -/
  | void
deriving DecidableEq

/-- An operand that has not been evaluated yet. It can be evaluated as often as wanted. -/
abbrev Lazy := Kind → Run Value

/-- An operand that is always the same value. -/
def Lazy.of (v : Value) : Lazy := fun _ => pure v

/-- Whether the operand is true. -/
def Lazy.truth (operand : Lazy) : Run Bool := do
  let v ← operand .boolean
  return v.truth

/-- Evaluates operands in order. -/
def Lazy.forceAll : List Lazy → Run (List Value)
  | [] => pure []
  | operand :: rest => do
    let v ← operand .value
    let vs ← Lazy.forceAll rest
    return v :: vs

namespace Run

def fail {α : Type} (cause : Cause) : Run α := throw (.fault (.ofCause cause))

/-- A pure result or fault. -/
def ofExcept {α : Type} : Except Cause α → Run α
  | .ok a => pure a
  | .error cause => fail cause

/-- Locates the faults of a computation. -/
def located {α : Type} (site : Site) (x : Run α) : Run α := fun s =>
  match x s with
  | .ok a s => .ok a s
  | .error i s => .error (i.locate site) s

/-- Names the procedure that the faults of a computation leave. -/
def leaving {α : Type} (procedure : String) (x : Run α) : Run α := fun s =>
  match x s with
  | .ok a s => .ok a s
  | .error i s => .error (i.leave procedure) s

/-- Ends here if scripts are to stop. -/
def checkStop : Run Unit := fun s =>
  if s.machine.cancelled then .error .stopped s else .ok () s

def getVariable? (name : String) : Run (Option Value) := fun s => .ok (s.get? name) s

/-- Gives a variable a value that carries its name. -/
def bindVariable (name : String) (v : Value) : Run Unit := fun s =>
  .ok () (s.set name (v.bindTo name))

/-- Changes the machine. -/
def modifyMachine (f : Machine → Machine) : Run Unit := fun s =>
  .ok () { s with machine := f s.machine }

/-- A new identity. -/
def freshId : Run Nat := fun s =>
  let (id, machine) := s.machine.freshId
  .ok id { s with machine }

/-- A computation after which some local names stand for what they stood for before it,
however it ends. -/
def restoring {α : Type} (names : List String) (x : Run α) : Run α := fun s =>
  let frame := Frame.ofNames s.locals names
  match x s with
  | .ok a s => .ok a { s with locals := frame.putBack s.locals }
  | .error i s => .error i { s with locals := frame.putBack s.locals }

/-- A computation under a snooper, which the earlier one replaces afterwards. -/
def snooped {α : Type} (snooper : Snooper) (x : Run α) : Run α := fun s =>
  let before := s.machine.snooper
  match x { s with machine := { s.machine with snooper := some snooper } } with
  | .ok a s => .ok a { s with machine := { s.machine with snooper := before } }
  | .error i s => .error i { s with machine := { s.machine with snooper := before } }

/-- A computation whose fault, if it ends with one, is reported to the snooper. -/
def reported {α : Type} (x : Run α) : Run α := fun s =>
  match x s with
  | .error (.fault f) s => .error (.fault f) { s with machine := s.machine.report f }
  | r => r

/-- A computation with local variables of its own. -/
def withLocals {α : Type} (locals : Registry Value) (x : Run α) : Run α := fun s =>
  match x { s with locals } with
  | .ok a t => .ok a { t with locals := s.locals }
  | .error i t => .error i { t with locals := s.locals }

end Run

/-! ## Walking over values -/

/-- A walk over the elements of a value. An iterator that can be walked once is spent
thereby. -/
def Value.walk (v : Value) : Run (Walk Value) := fun s =>
  match v.datum with
  | .list items => .ok (.items items) s
  | .iterator _ false walk => .ok walk s
  | .iterator id true walk =>
    if s.machine.spent.contains id then Run.fail .alreadyWalked s
    else .ok walk { s with machine := { s.machine with spent := id :: s.machine.spent } }
  | _ => Run.fail (.expectsElements v.typeName v.display) s

/-- A walk that comes to an end, or none. -/
def Run.ended {α : Type} : Option α → Run α
  | some a => pure a
  | none => throw .endless

/-- The elements of a list or iterator. -/
def Value.elements (v : Value) : Run (List Value) := do
  let w ← v.walk
  Run.ended w.toList?

end TickScript
