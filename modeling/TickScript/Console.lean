-- The console: what each command does and answers.
import TickScript.Command
import TickScript.Console.Arguments
import TickScript.Elapsed

namespace TickScript

/-! ## Replies -/

/-- A line of an answer. The line with a result can show how long the run took. -/
inductive ReplyLine where
  | plain (text : String)
  | result (text : String)
deriving DecidableEq

/-- The line as it is shown, with the elapsed time if that is wanted. -/
def ReplyLine.render (elapsed : Option String) : ReplyLine → String
  | .plain text => text
  | .result text =>
    match elapsed with
    | none => s!" = {text}"
    | some time => s!" = {text} ({time})"

/-- The answer to a line, and whether the console is left. -/
structure Reply where
  lines : List ReplyLine
  quit : Bool

/-- The settings of a console. -/
structure Console where
  /-- How many positions a scan may visit. -/
  scanLimit : Nat
  /-- Show each line before its answer. -/
  echo : Bool

namespace Console

/-- The answer while scripts are to stop. -/
def pausedText : String := "SCRIPTING PAUSED"

def helpLines : List String :=
  [ "run <expr>                          evaluate an expression",
    "scan ox oy oz x1 y1 z1 x2 y2 z2 <expr>  evaluate over a box",
    "invoke <fn> [args...]               call a stored procedure",
    "globals                             list procedures and globals",
    "every <ticks>[x<count>] <expr>      schedule a repeating script",
    "ps                                  list scheduled scripts",
    "kill <id>                           remove a scheduled script",
    "stop | resume                       pause or resume scripting",
    "quit                                leave" ]

/-- Takes what was printed, as lines of an answer, and adds some lines. -/
def takeOutput (lines : List ReplyLine) : Run (List ReplyLine) := fun s =>
  let (output, machine) := s.machine.takeOutput
  .ok (output.map .plain ++ lines) { s with machine }

/-! ## Calls -/

/-- The lines of a result: the first is marked as such. -/
def resultLines (text : String) : List ReplyLine :=
  match Text.lines text with
  | [] => [.result ""]
  | first :: rest => .result first :: rest.map .plain

/-- Carries out a call and answers with what it printed and its result. Faults are printed
when they arise. -/
def answerCall (call : Run String) : Run (List ReplyLine) := fun s =>
  match Run.snooped (.printer false) call s with
  | .ok text t => takeOutput (resultLines text) t
  | .error .stopped t => takeOutput [.plain stoppedText] t
  | .error (.fault _) t => takeOutput [] t
  | .error .endless t => .error .endless t

/-- A call, unless scripts are to stop. -/
def unlessPaused (call : Run String) : Run String := fun s =>
  if s.machine.cancelled then .ok pausedText s else call s

/-- Runs a script at the origin. -/
def runScript (lang : Language) (source : Source) : Run String :=
  unlessPaused do
    let script ← readReported lang source
    let v ← Run.atPosition 0 0 0 (script.evaluate (evaluate lang) .value)
    return v.display

/-- Calls a procedure with the arguments that a text lists. -/
def callProcedure (lang : Language) (name args : String) : Run String :=
  unlessPaused fun s =>
    match s.machine.procedures.get? name with
    | none => .ok "UNDEFINED" s
    | some p =>
      match argumentsOf lang s.machine.globals args with
      | .error e => .ok e.message s
      | .ok values =>
        if values.length ≠ p.params.length then
          .ok (InvokeFault.wrongCount name p.params values).message s
        else (do
          let v ← invoke lang name values
          return v.display) s

/-! ## Scans -/

/-- Evaluates a script at a position of a scan, which is counted from the origin, and says
whether it is true. A fault of calculation counts as not true. -/
def scanAt (lang : Language) (script : Script) (origin p : Position) : Run Bool := fun s =>
  let here := Value.list [.number (.ofInt p.x), .number (.ofInt p.y), .number (.ofInt p.z)]
  let body : Run Value := do
    Run.bindVariable "_" here
    script.evaluate (evaluate lang) .value
  let offset := fun a b : Int => Float.ofInt (a - b)
  match Run.atPosition (offset p.x origin.x) (offset p.y origin.y) (offset p.z origin.z) body s with
  | .ok v t => .ok v.truth t
  | .error (.fault f) t => if f.kind = .arithmetic then .ok false t else .error (.fault f) t
  | .error i t => .error i t

/-- Evaluates a script at so many positions of a box from the one with index `i` on, and
counts those where it is true. -/
def scanFrom (lang : Language) (script : Script) (origin : Position) (box : Box) :
    Nat → Nat → Nat → Run Nat
  | 0, _, count => pure count
  | positions + 1, i, count => do
    let holds ← scanAt lang script origin (box.position i)
    scanFrom lang script origin box positions (i + 1) (if holds then count + 1 else count)

/-- Scans a box: what was printed, and how it ended. -/
def scanBox (lang : Language) (script : Script) (origin : Position) (box : Box) :
    Run (List ReplyLine) := fun s =>
  match scanFrom lang script origin box box.volume 0 0 s with
  | .ok count t =>
    takeOutput [.plain s!"Expression successful in {count} out of {box.volume64} blocks"] t
  | .error .stopped t => takeOutput [.plain stoppedText] t
  | .error (.fault _) t => takeOutput [.plain "Error while processing command"] t
  | .error .endless t => .error .endless t

/-- Scans a box unless it is too large or scripts are to stop. -/
def scan (c : Console) (lang : Language) (origin corner opposite : Position) (code : String) :
    Run (List ReplyLine) := fun s =>
  let box := Box.ofCorners corner opposite
  let volume := box.volume64
  if volume > c.scanLimit then .ok [.plain s!"too many blocks to evaluate: {volume}"] s
  else if s.machine.cancelled then .ok [.plain pausedText] s
  else
    let body : Run (List ReplyLine) := fun s =>
      match readReported lang ⟨code, none⟩ s with
      | .ok script t => scanBox lang script origin box t
      | .error _ t => takeOutput [] t
    Run.snooped (.printer true) body s

/-! ## Listings -/

/-- A procedure and where it is defined. -/
def describeProcedure (p : Procedure) : List String :=
  let place := p.site.token.place
  s!"Function {p.name} defined at: line {place.line + 1} pos {place.column + 1}" ::
    snippet p.site.source.code place ++ ["----------------"]

/-- The procedures that are not hidden, and the globals. -/
def describeGlobals (m : Machine) : List String :=
  let shown := m.procedures.values.filter fun p => p.name.toList.head? ≠ some '_'
  "Global functions:" :: shown.flatMap describeProcedure ++
    "Global Variables:" ::
      m.globals.entries.map fun (name, v) => s!"Variable {name}: " ++ v.display

/-- A job in a line. -/
def describeJob (j : Job) : String :=
  let id := toString j.id
  let runs := match j.runsLeft with
    | none => "forever"
    | some n => s!"{n} left"
  "".pushn ' ' (4 - id.length) ++ id ++ s!"  every {j.interval} ticks  {runs}  " ++
    j.script.source.code

/-- The jobs in order of their numbers. -/
def describeJobs (m : Machine) : List String :=
  match m.clock.schedule.byId with
  | [] => ["no scheduled scripts"]
  | jobs => jobs.map describeJob

/-! ## Jobs -/

/-- Schedules a script. -/
def schedule (lang : Language) (ticks : Nat) (count : Option Nat) (code : String) :
    Run (List ReplyLine) := fun s =>
  match Run.snooped (.printer false) (readReported lang ⟨code, none⟩) s with
  | .ok script t =>
    let clock := t.machine.clock
    let (id, schedule) := clock.schedule.add script ticks count clock.now
    .ok [.plain s!"process {id} scheduled every {ticks} ticks"]
      { t with machine := { t.machine with clock := { clock with schedule } } }
  | .error _ t => takeOutput [] t

/-- Removes a job. -/
def kill (id : Nat) : Run (List ReplyLine) := fun s =>
  let clock := s.machine.clock
  let (found, schedule) := clock.schedule.remove id
  .ok [.plain (if found then s!"process {id} killed" else s!"no process {id}")]
    { s with machine := { s.machine with clock := { clock with schedule } } }

/-- Removes all jobs. -/
def killAll (m : Machine) : Machine :=
  { m with clock := { m.clock with schedule := m.clock.schedule.clear } }

/-! ## Commands -/

/-- Carries out a command and answers. -/
def dispatch (c : Console) (lang : Language) : Command → Run (List ReplyLine)
  | .run code => answerCall (runScript lang ⟨code, none⟩)
  | .scan origin corner opposite code => c.scan lang origin corner opposite code
  | .invoke name args =>
    if "__".toList.isPrefixOf name.toList then
      pure [.plain "Hidden functions are only callable in scripts"]
    else answerCall (callProcedure lang name args)
  | .globals => fun s => .ok ((describeGlobals s.machine).map .plain) s
  | .every ticks count code => schedule lang ticks count code
  | .ps => fun s => .ok ((describeJobs s.machine).map .plain) s
  | .kill id => kill id
  | .stop => do
    Run.modifyMachine fun m => { m with cancelled := true }
    return [.plain "scripting stopped"]
  | .resume => do
    Run.modifyMachine fun m => { m with cancelled := false }
    return [.plain "scripting resumed"]
  | .quit => pure []
  | .help => pure (helpLines.map .plain)

/-- Answers a line. -/
def execute (c : Console) (lang : Language) (line : String) : Run Reply := do
  let answer : Option (List ReplyLine × Bool) ← match Command.read line with
    | .ok none => pure none
    | .ok (some command) => do
      let lines ← c.dispatch lang command
      pure (some (lines, command = .quit))
    | .error fault => pure (some ([.plain fault.message], false))
  match answer with
  | none => return { lines := [], quit := false }
  | some (lines, quit) =>
    if c.echo then return { lines := .plain ("> " ++ Text.trim line) :: lines, quit }
    else return { lines, quit }

/-- Runs a script file under its name. -/
def runFile (lang : Language) (name code : String) : Run (List ReplyLine) :=
  answerCall (runScript lang ⟨code, some name⟩)

/-- Counts a tick and takes what the jobs printed. -/
def tick (lang : Language) : Run (List ReplyLine) := do
  advance (evaluate lang)
  takeOutput []

end Console

end TickScript
