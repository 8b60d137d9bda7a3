-- The lines of the console: what each asks for.
import TickScript.Box
import TickScript.Text.Words

namespace TickScript

open TickScript.Text

/-! ## Commands -/

/-- What a line of the console asks for. -/
inductive Command where
  | run (code : String)
  /-- Evaluate a script at every position of a box, counted from the origin. -/
  | scan (origin corner opposite : Position) (code : String)
  /-- Call a procedure with the words, numbers and texts that follow its name. -/
  | invoke (name args : String)
  | globals
  /-- Run a script every so many ticks, perhaps only so often. -/
  | every (ticks : Nat) (count : Option Nat) (code : String)
  | ps
  | kill (id : Nat)
  | stop
  | resume
  | quit
  | help
deriving DecidableEq

/-- What can be wrong with a line. -/
inductive CommandFault where
  | runUsage
  | scanUsage
  | invokeUsage
  | everyUsage
  | killUsage
  | notPositive
  | takesNothing (verb : String)
deriving DecidableEq

/-- The fault in words. -/
def CommandFault.message : CommandFault → String
  | .runUsage => "usage: run <expr>"
  | .scanUsage => "usage: scan ox oy oz x1 y1 z1 x2 y2 z2 <expr>"
  | .invokeUsage => "usage: invoke <fn> [args...]"
  | .everyUsage => "usage: every <ticks>[x<count>] <expr>"
  | .killUsage => "usage: kill <id>"
  | .notPositive => "ticks and count must be positive"
  | .takesNothing verb => s!"'{verb}' takes no arguments"

/-! ## Reading -/

namespace Command

/-- The next words as so many whole numbers, and what follows them. -/
def readInts? : Nat → List Char → Option (List Int × List Char)
  | 0, rest => some ([], rest)
  | n + 1, rest => do
    let (word, rest) := splitWord rest
    let i ← readInt64? word
    let (others, rest) ← readInts? n rest
    return (i :: others, rest)

/-- The nine coordinates and the script of a scan. -/
def readScan (rest : List Char) : Except CommandFault Command :=
  match readInts? 9 rest with
  | some ([ox, oy, oz, x1, y1, z1, x2, y2, z2], code) =>
    if code.isEmpty then .error .scanUsage
    else .ok (.scan ⟨ox, oy, oz⟩ ⟨x1, y1, z1⟩ ⟨x2, y2, z2⟩ (String.ofList code))
  | _ => .error .scanUsage

/-- The number of ticks, and how often if an `x` and a number follow. -/
def readPeriod? (word : List Char) : Option (Nat × Option Nat) :=
  match cutAt? (· = 'x') word with
  | some (ticks, count) => do
    let count ← readNat? mostNat32 count
    let ticks ← readNat? mostNat64 ticks
    return (ticks, some count)
  | none => (readNat? mostNat64 word).map fun ticks => (ticks, none)

/-- The period and the script of a job. -/
def readEvery (rest : List Char) : Except CommandFault Command :=
  let (period, code) := splitWord rest
  if code.isEmpty then .error .everyUsage
  else
    match readPeriod? period with
    | none => .error .everyUsage
    | some (ticks, count) =>
      if ticks = 0 ∨ count = some 0 then .error .notPositive
      else .ok (.every ticks count (String.ofList code))

/-- The name and the arguments of a call. -/
def readInvoke (rest : List Char) : Except CommandFault Command :=
  let (name, args) := splitWord rest
  if name.isEmpty then .error .invokeUsage
  else .ok (.invoke (String.ofList name) (String.ofList args))

/-- The commands that are a single word. -/
def ofWord? : String → Option Command
  | "globals" => some .globals
  | "ps" => some .ps
  | "stop" => some .stop
  | "resume" => some .resume
  | "quit" => some .quit
  | "help" => some .help
  | _ => none

/-- The command of a line that is trimmed and not blank. A line that starts with no command
word is a script to run. -/
def readTrimmed (line : List Char) : Except CommandFault Command :=
  let (verb, rest) := splitWord line
  let verb := String.ofList verb
  match verb with
  | "run" => if rest.isEmpty then .error .runUsage else .ok (.run (String.ofList rest))
  | "scan" => readScan rest
  | "invoke" => readInvoke rest
  | "every" => readEvery rest
  | "kill" =>
    match readNat? mostNat32 rest with
    | some id => .ok (.kill id)
    | none => .error .killUsage
  | verb =>
    match ofWord? verb with
    | some command => if rest.isEmpty then .ok command else .error (.takesNothing verb)
    | none => .ok (.run (String.ofList line))

/-- What a line asks for, which is nothing if it is blank. -/
def read (line : String) : Except CommandFault (Option Command) :=
  match trimChars line.toList with
  | [] => .ok none
  | c :: rest => (readTrimmed (c :: rest)).map some

end Command

end TickScript
