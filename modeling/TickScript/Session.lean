-- A host's view of a machine: scripts that are kept, and any number of scopes that share
-- the machine's globals and procedures.
import TickScript.Interpreter

namespace TickScript

/-- A machine with the scripts, scopes and frames that a host keeps under names. -/
structure Session where
  machine : Machine
  scripts : Registry Script := .empty
  scopes : Registry (Registry Value) := .empty
  frames : Registry Frame := .empty
  /-- The snoopers that were replaced, latest first. -/
  replaced : List (Option Snooper) := []

namespace Session

/-! ## Computations -/

/-- The local variables of a scope. A scope that is not known yet is empty. -/
def scope (s : Session) (name : String) : Registry Value := (s.scopes.get? name).getD .empty

/-- The result of a computation, or why there is none. -/
def resultOf {α : Type} : EStateM.Result Interrupt State α → Except Interrupt α × State
  | .ok a t => (.ok a, t)
  | .error i t => (.error i, t)

/-- Carries out a computation in a scope. -/
def runIn {α : Type} (s : Session) (scope : String) (x : Run α) : Except Interrupt α × Session :=
  let (r, t) := resultOf (x ⟨s.scope scope, s.machine⟩)
  (r, { s with machine := t.machine, scopes := s.scopes.set scope t.locals })

/-- Carries out a computation without local variables. -/
def runFresh {α : Type} (s : Session) (x : Run α) : Except Interrupt α × Session :=
  let (r, t) := resultOf (x ⟨.empty, s.machine⟩)
  (r, { s with machine := t.machine })

/-- Reads a script and keeps it. A fault is not reported. -/
def read (s : Session) (lang : Language) (id : String) (source : Source) :
    Except Fault Script × Session :=
  match Script.read lang source with
  | .ok script => (.ok script, { s with scripts := s.scripts.set id script })
  | .error f => (.error f, s)

/-- Evaluates a script that is kept. -/
def evaluate? (s : Session) (lang : Language) (id scope : String) (kind : Kind) :
    Option (Except Interrupt Value × Session) :=
  (s.scripts.get? id).map fun script => s.runIn scope (script.evaluate (evaluate lang) kind)

/-! ## Scopes -/

/-- Carries out a change of the state that a scope sees. -/
def change {α : Type} (s : Session) (scope : String) (f : State → α × State) : α × Session :=
  let (a, t) := f ⟨s.scope scope, s.machine⟩
  (a, { s with machine := t.machine, scopes := s.scopes.set scope t.locals })

/-- Makes a new scope with some variables. -/
def openScope (s : Session) (name : String) (bindings : List (String × Value)) : Session :=
  let s := { s with scopes := s.scopes.set name .empty }
  (s.change name fun t => ((), bindings.foldl (fun t (name, v) => t.set name v) t)).2

/-- A variable as a scope sees it. -/
def get? (s : Session) (scope name : String) : Option Value :=
  State.get? ⟨s.scope scope, s.machine⟩ name

def set (s : Session) (scope name : String) (v : Value) : Session :=
  (s.change scope fun t => ((), t.set name v)).2

/-- Forgets a variable, and says whether there was one. -/
def erase (s : Session) (scope name : String) : Bool × Session := s.change scope (·.erase name)

/-- Keeps what some names stand for in a scope. -/
def save (s : Session) (id scope : String) (names : List String) : Session :=
  { s with frames := s.frames.set id (.ofNames (s.scope scope) names) }

/-- Puts names in a scope back to what a frame says, which is used up thereby. -/
def restore? (s : Session) (id scope : String) : Option Session :=
  (s.frames.get? id).map fun frame =>
    { s with
      frames := s.frames.erase id
      scopes := s.scopes.set scope (frame.putBack (s.scope scope)) }

/-! ## The machine -/

/-- Changes the machine. -/
def changeMachine (s : Session) (f : Machine → Machine) : Session :=
  { s with machine := f s.machine }

/-- Forgets a global, and says whether there was one. -/
def eraseGlobal (s : Session) (name : String) : Bool × Session :=
  (s.machine.globals.contains name,
    s.changeMachine fun m => { m with globals := m.globals.erase name })

/-- Forgets a procedure, and says whether there was one. -/
def eraseProcedure (s : Session) (name : String) : Bool × Session :=
  (s.machine.procedures.contains name,
    s.changeMachine fun m => { m with procedures := m.procedures.erase name })

/-- Asks scripts to stop, or lets them go on. -/
def setCancelled (s : Session) (cancelled : Bool) : Session :=
  s.changeMachine fun m => { m with cancelled }

/-- Keeps the waiting times of scripts that yield. The script that yields as the `count`th
since the times were last taken is asked to stop. -/
def record (s : Session) (count : Option Nat) : Session :=
  s.changeMachine fun m => { m with hook := .recorder fun budgets => some budgets.length = count }

/-- Lets scripts that yield go on at once. -/
def unhook (s : Session) : Session := s.changeMachine fun m => { m with hook := .absent }

/-- Takes the waiting times that were kept. -/
def takeBudgets (s : Session) : List (Option Nat) × Session :=
  (s.machine.budgets.reverse, s.changeMachine fun m => { m with budgets := [] })

/-- Puts a snooper in place of the current one. -/
def pushSnooper (s : Session) (snooper : Snooper) : Session :=
  { s with
    replaced := s.machine.snooper :: s.replaced
    machine := { s.machine with snooper := some snooper } }

/-- Brings back the snooper that was replaced last. -/
def popSnooper (s : Session) : Session :=
  match s.replaced with
  | [] => s
  | before :: replaced => { s with replaced, machine := { s.machine with snooper := before } }

/-- Takes what was printed and reported. -/
def drain (s : Session) : List String × List Report × Session :=
  (s.machine.output.toList, s.machine.reports.toList,
    s.changeMachine fun m => { m with output := #[], reports := #[] })

end Session

end TickScript
