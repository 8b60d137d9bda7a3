-- The start-up file: settings, globals and scripts to load, one to a line.
import TickScript.State

namespace TickScript

open TickScript.Text

/-! ## Settings -/

/-- What a start-up file sets. -/
structure Config where
  /-- The length of a tick in milliseconds. -/
  tickLength : Nat := 50
  /-- How many positions a scan may visit. -/
  scanLimit : Nat := 32768
  /-- Show each line of the console before its answer. -/
  echo : Bool := false
  globals : List (String × Value) := []
  /-- The script files to run, in order. -/
  loads : List String := []

/-- Nothing is set other than by default. -/
def Config.isDefault (c : Config) : Bool :=
  c.tickLength = 50 && c.scanLimit = 32768 && !c.echo && c.globals.isEmpty && c.loads.isEmpty

/-- What can be wrong with a line. -/
inductive ConfigFault where
  | setUsage
  | badTickLength (text : String)
  | zeroTickLength
  | badScanLimit (text : String)
  | badEcho (text : String)
  | unknownSetting (name : String)
  | globalUsage
  | badName (name : String)
  | missingPath
deriving DecidableEq

/-- The fault in words. -/
def ConfigFault.message : ConfigFault → String
  | .setUsage => "usage: /set <name>=<value>"
  | .badTickLength text => s!"invalid tick_ms: {text}"
  | .zeroTickLength => "tick_ms must be positive"
  | .badScanLimit text => s!"invalid scan_limit: {text}"
  | .badEcho text => s!"invalid echo: {text}"
  | .unknownSetting name => s!"unknown setting '{name}'"
  | .globalUsage => "usage: /global <name>=<literal>"
  | .badName name => s!"invalid variable name '{name}'"
  | .missingPath => "/load requires a path"

/-- A fault and the number of its line, counted from 1. -/
structure ConfigComplaint where
  line : Nat
  fault : ConfigFault
deriving DecidableEq

/-- The fault and its line in words. -/
def ConfigComplaint.message (c : ConfigComplaint) : String :=
  s!"line {c.line}: " ++ c.fault.message

/-! ## Reading -/

namespace Config

/-- A name and a value, with an equals sign or else a blank between them. -/
def splitAssignment? (cs : List Char) : Option (List Char × List Char) := do
  let (name, value) ← (cutAt? (· = '=') cs).or (cutAt? isWordBreak cs)
  let name := trimChars name
  if name.isEmpty then none else return (name, trimChars value)

/-- Changes a setting. -/
def readSet (c : Config) (cs : List Char) : Except ConfigFault Config :=
  match splitAssignment? cs with
  | none => .error .setUsage
  | some (name, value) =>
    let text := String.ofList value
    match String.ofList name with
    | "tick_ms" =>
      match readNat? mostNat64 value with
      | none => .error (.badTickLength text)
      | some 0 => .error .zeroTickLength
      | some ms => .ok { c with tickLength := ms }
    | "scan_limit" =>
      match readNat? mostNat64 value with
      | none => .error (.badScanLimit text)
      | some n => .ok { c with scanLimit := n }
    | "echo" =>
      match text with
      | "1" | "on" | "true" => .ok { c with echo := true }
      | "0" | "off" | "false" => .ok { c with echo := false }
      | _ => .error (.badEcho text)
    | name => .error (.unknownSetting name)

/-- The text can be the name of a variable. -/
def isVariableName (cs : List Char) : Bool :=
  match cs with
  | [] => false
  | c :: _ => startsName c && cs.all continuesName

/-- The text within quotes. -/
def unquoted? : List Char → Option (List Char)
  | '\'' :: rest => if rest.getLast? = some '\'' then some rest.dropLast else none
  | _ => none

/-- The value that a text stands for: a text in quotes, a number, or the text itself. -/
def literal (cs : List Char) : Value :=
  match unquoted? cs with
  | some body => .text (String.ofList body)
  | none =>
    match Number.read? (String.ofList cs) with
    | some x => .number x
    | none => .text (String.ofList cs)

/-- Defines a global, in place of any earlier one of its name. -/
def readGlobal (c : Config) (cs : List Char) : Except ConfigFault Config :=
  match splitAssignment? cs with
  | none => .error .globalUsage
  | some (name, value) =>
    if isVariableName name then
      let name := String.ofList name
      .ok { c with globals := c.globals.filter (·.1 ≠ name) ++ [(name, literal value)] }
    else .error (.badName (String.ofList name))

/-- Adds a script to load. -/
def readLoad (c : Config) (cs : List Char) : Except ConfigFault Config :=
  if cs.isEmpty then .error .missingPath
  else .ok { c with loads := c.loads ++ [String.ofList cs] }

/-- Reads a line. A line without a slash at its start, or with a word after it that is not
known, is passed over. -/
def readLine (c : Config) (line : String) : Except ConfigFault Config :=
  match trimChars line.toList with
  | '/' :: rest =>
    let (word, args) := splitWord rest
    match String.ofList word with
    | "set" => c.readSet args
    | "global" => c.readGlobal args
    | "load" => c.readLoad args
    | _ => .ok c
  | _ => .ok c

/-- Reads lines from the given number on. A line with a fault changes nothing. -/
def readLines (c : Config) (number : Nat) : List String → Config × List ConfigComplaint
  | [] => (c, [])
  | line :: rest =>
    match c.readLine line with
    | .ok c => c.readLines (number + 1) rest
    | .error fault =>
      let (c, complaints) := c.readLines (number + 1) rest
      (c, ⟨number, fault⟩ :: complaints)

/-- Reads a start-up file: its settings and its faults. -/
def read (text : String) : Config × List ConfigComplaint := readLines {} 1 (lines text)

/-- Defines the globals on a machine. -/
def apply (c : Config) (m : Machine) : Machine :=
  c.globals.foldl (fun m (name, v) => m.define name v) m

end Config

end TickScript
