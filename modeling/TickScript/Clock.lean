-- Calling procedures, and counting ticks: a tick runs the jobs that are due.
import TickScript.State

namespace TickScript

/-! ## Procedures -/

/-- Gives the parameters of a procedure the values of its arguments, from left to right.
A parameter with a global name is written to the machine. -/
def bindArguments : List String → List Lazy → Registry Value → Run (Registry Value)
  | param :: params, arg :: args, scope => do
    let v ← arg .value
    if isGlobalName param then
      Run.modifyMachine (·.define param v)
      bindArguments params args scope
    else bindArguments params args (scope.set param (v.bindTo param))
  | _, _, scope => pure scope

/-- Evaluates the body of a procedure with its own local variables, one level deeper. -/
def enter (procedure : String) (scope : Registry Value) (body : Run Value) : Run Value := fun s =>
  if s.machine.depth ≥ maxCallDepth then
    .error (.fault ((Fault.ofCause .callTooDeep).leave procedure)) s
  else
    let inner := { locals := scope, machine := { s.machine with depth := s.machine.depth + 1 } }
    match Run.leaving procedure body inner with
    | .ok v t =>
      .ok v { locals := s.locals, machine := { t.machine with depth := t.machine.depth - 1 } }
    | .error i t =>
      .error i { locals := s.locals, machine := { t.machine with depth := t.machine.depth - 1 } }

/-- Calls a procedure: its arguments are evaluated where it is called, and its body sees
only its parameters. `run` evaluates the body. -/
def Procedure.call (run : Expr → Lazy) (p : Procedure) (args : List Lazy) (kind : Kind) :
    Run Value :=
  if args.length ≠ p.params.length then
    Run.fail (.wrongArgumentCount p.name p.params.length args.length)
  else do
    let scope ← bindArguments p.params args .empty
    enter p.name scope (run p.body kind)

/-- Calls the procedure of a name. -/
def callNamed (run : Expr → Lazy) (name : String) (args : List Lazy) (kind : Kind) :
    Run Value := fun s =>
  match s.machine.procedures.get? name with
  | some p => p.call run args kind s
  | none => Run.fail (.undefinedFunction name) s

/-- Stores a procedure in place of any earlier one of its name. -/
def defineProcedure (p : Procedure) : Run Unit :=
  Run.modifyMachine fun m => { m with procedures := m.procedures.set p.name p }

/-! ## Scripts -/

/-- Evaluates a script; a fault is reported. -/
def Script.evaluate (run : Expr → Lazy) (script : Script) (kind : Kind) : Run Value :=
  Run.reported (run script.root kind)

/-- The thing of the host that stands for who runs a script. -/
def invoker : HostObject := { typeName := "invoker", display := "console", truth := true }

/-- The local variables of a script that is run at a position by the invoker of the given
identity. -/
def invokerLocals (x y z : Float) (id : Nat) : Registry Value :=
  .ofList [("x", (Value.number x).bindTo "x"), ("y", (Value.number y).bindTo "y"),
    ("z", (Value.number z).bindTo "z"), ("p", ⟨some "p", .host id invoker⟩)]

/-- A computation with the local variables of a script run at a position. -/
def Run.atPosition {α : Type} (x y z : Float) (body : Run α) : Run α := do
  let id ← Run.freshId
  Run.withLocals (invokerLocals x y z id) body

/-! ## Ticks -/

/-- What is left of a job's run: a line if it failed, otherwise the job as it goes on. -/
def settleJob (job : Job) (failed : Bool) (m : Machine) : Machine :=
  if failed then m.print ("process " ++ toString job.id ++ " stopped")
  else
    let (job, again) := job.tick
    if again then
      { m with clock := { m.clock with schedule := m.clock.schedule.putBack job } }
    else m

/-- Runs a job. Its fault is printed and ends it; no other job is touched by that. -/
def runJob (run : Expr → Lazy) (job : Job) : Run Unit := fun s =>
  let body := Run.snooped (.printer false) (Run.atPosition 0 0 0 (job.script.evaluate run .value))
  match body s with
  | .ok _ t => .ok () { t with machine := settleJob job false t.machine }
  | .error (.fault _) t => .ok () { t with machine := settleJob job true t.machine }
  | .error .stopped t => .ok () { t with machine := settleJob job false t.machine }
  | .error .endless t => .error .endless t

/-- Runs some jobs in order. -/
def runJobs (run : Expr → Lazy) : List Job → Run Unit
  | [] => pure ()
  | job :: rest => do
    runJob run job
    runJobs run rest

/-- Counts a tick and runs the jobs that are due, unless jobs are being run already or
scripts are to stop. The jobs that are due are chosen before the first of them runs. -/
def advance (run : Expr → Lazy) : Run Unit := fun s =>
  let clock := { s.machine.clock with now := s.machine.clock.now + 1 }
  if clock.running then .ok () { s with machine := { s.machine with clock } }
  else if s.machine.cancelled then .ok () { s with machine := { s.machine with clock } }
  else
    let (due, schedule) := clock.schedule.takeDue clock.now
    let started := { clock with running := true, schedule }
    match runJobs run due { s with machine := { s.machine with clock := started } } with
    | .ok _ t =>
      .ok () { t with
        machine := { t.machine with clock := { t.machine.clock with running := false } } }
    | .error i t => .error i t

/-- Hands control to the host, which may be asked to wait for so many milliseconds, and
then ends here if scripts are to stop. -/
def yield (run : Expr → Lazy) (budget : Option Nat) : Run Unit := fun s =>
  match s.machine.hook with
  | .absent => Run.checkStop s
  | .recorder raises =>
    let budgets := budget :: s.machine.budgets
    let cancelled := s.machine.cancelled || raises budgets
    Run.checkStop { s with machine := { s.machine with budgets, cancelled } }
  | .clock =>
    match advance run s with
    | .ok _ t =>
      Run.checkStop { t with machine := { t.machine with owed := t.machine.owed + budget.getD 0 } }
    | .error i t => .error i t

end TickScript
