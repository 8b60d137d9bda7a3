-- The program: what it does with its arguments, from the start-up file over the scripts to
-- the console. It is written over any system that can read files and show lines.
import TickScript.CommandLine
import TickScript.Config
import TickScript.Console
import TickScript.Library
import TickScript.Path

namespace TickScript

/-! ## The system around the program -/

/-- What the program needs from the system it runs on. -/
structure World (m : Type → Type) where
  /-- The text of a file, or in words why it cannot be read. -/
  readText : String → m (Except String String)
  /-- There is something at a path. -/
  pathExists : String → m Bool
  /-- The directory of the user. -/
  home : m (Option String)
  /-- Has an answer made on the machine and shows it; says whether the console is left. -/
  answer : Machine → Run Reply → m (Bool × Machine)
  /-- Shows a line about what went wrong. -/
  complain : String → m Unit

/-- How far the arguments lead. -/
inductive Stage where
  | finished (code : Nat)
  /-- The console is to be read. -/
  | listening (console : Console) (tickLength : Nat) (machine : Machine)

namespace Program

/-- The name of the start-up file. -/
def startupName : String := ".scarpetrc"

/-- What a user reads about how to start the program. -/
def usage : String := "Usage: scarpet [-f[<file>]] [-c<expr>] [-t<ms>] [-qdn] [<script>...]"

/-- A complaint of the program. -/
def complaint (text : String) : String := "scarpet: " ++ text

/-- The machine as the program starts on it: scripts that yield let the clock go on. -/
def startMachine (seed : UInt64) : Machine :=
  { Machine.standard with hook := .clock, random := randomSeed seed }

variable {m : Type → Type} [Monad m] (w : World m)

/-! ## The start-up file -/

/-- Makes the paths of scripts relative to the directory of the start-up file. -/
def relocate (config : Config) (path : String) : Config :=
  match Path.parent? path with
  | some directory => { config with loads := config.loads.map (Path.join directory) }
  | none => config

/-- Reads a start-up file and complains about its faults. -/
def loadConfig (path : String) : m (Except String Config) := do
  match ← w.readText path with
  | .error problem => return .error problem
  | .ok text =>
    let (config, complaints) := Config.read text
    for c in complaints do
      w.complain (complaint (path ++ ": " ++ c.message))
    return .ok (relocate config path)

/-- The start-up file in the usual places: the directory of the user, then the current one. -/
def findStartup : m (Option String) := do
  let ofHome := (← w.home).map (Path.join · startupName)
  let paths := ofHome.toList ++ [Path.join "." startupName]
  for path in paths do
    if ← w.pathExists path then return some path
  return none

/-- The settings of the start-up file that the arguments name, or the exit code. A file that was
only searched for may be missing or unreadable. -/
def configure : StartupFile → m (Except Nat Config)
  | .skip => return .ok {}
  | .explicit path => do
    match ← loadConfig w path with
    | .ok config => return .ok config
    | .error problem =>
      w.complain (complaint (path ++ ": " ++ problem))
      return .error 1
  | .search => do
    match ← findStartup w with
    | none => return .ok {}
    | some path => return .ok ((← loadConfig w path).toOption.getD {})

/-! ## Scripts and commands -/

/-- Runs script files in order. One that cannot be read ends the program. -/
def runFiles (machine : Machine) : List String → m (Except Nat Machine)
  | [] => return .ok machine
  | path :: rest => do
    match ← w.readText path with
    | .error problem =>
      w.complain (complaint (path ++ ": " ++ problem))
      return .error 1
    | .ok code =>
      let name := (Path.fileName? path).getD path
      let (_, machine) ← w.answer machine do
        return { lines := ← Console.runFile .standard name code, quit := false }
      runFiles machine rest

/-- Answers lines in order until the console is left, and says whether it is. -/
def runLines (console : Console) (machine : Machine) : List String → m (Bool × Machine)
  | [] => return (false, machine)
  | line :: rest => do
    let (quit, machine) ← w.answer machine (console.execute .standard line)
    if quit then return (true, machine) else runLines console machine rest

/-- Does what the arguments ask for, up to the console. -/
def start (seed : UInt64) (arguments : List String) : m Stage := do
  match CommandLine.read arguments with
  | .error fault =>
    w.complain (complaint fault.message)
    w.complain usage
    return .finished 1
  | .ok line =>
    match ← configure w line.startup with
    | .error code => return .finished code
    | .ok config =>
      let tickLength := line.tickLength.getD config.tickLength
      let console : Console := { scanLimit := config.scanLimit, echo := config.echo }
      match ← runFiles w (config.apply (startMachine seed)) (config.loads ++ line.scripts) with
      | .error code => return .finished code
      | .ok machine =>
        let (quit, machine) ← runLines w console machine line.commands
        if quit || line.noConsole then return .finished 0
        else return .listening console tickLength machine

end Program

end TickScript
