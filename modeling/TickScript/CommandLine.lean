-- The arguments the program is started with.
import TickScript.Text.Words

namespace TickScript

open TickScript.Text

/-! ## Settings -/

/-- Which start-up file to read. -/
inductive StartupFile where
  /-- The first one found in the usual places. -/
  | search
  | skip
  | explicit (path : String)
deriving DecidableEq

/-- What the arguments ask for. -/
structure CommandLine where
  startup : StartupFile := .search
  /-- Scripts given as text, run after those given as files. -/
  commands : List String := []
  /-- The length of a tick in milliseconds. -/
  tickLength : Option Nat := none
  quiet : Bool := false
  debug : Bool := false
  /-- Stop after the scripts instead of reading the console. -/
  noConsole : Bool := false
  scripts : List String := []
deriving DecidableEq

/-- What can be wrong with the arguments. -/
inductive UsageFault where
  | missingCommand
  | missingTickLength
  | badTickLength (text : String)
  | zeroTickLength
  | unknownOption (c : Char)
deriving DecidableEq

/-- The fault in words. -/
def UsageFault.message : UsageFault → String
  | .missingCommand => "-c requires an expression argument"
  | .missingTickLength => "-t requires a tick length in milliseconds"
  | .badTickLength text => s!"invalid tick length: {text}"
  | .zeroTickLength => "tick length must be positive"
  | .unknownOption c => "unknown option: -" ++ c.toString

/-! ## Reading -/

/-- The options that come with an operand. -/
inductive Valued where
  | startup
  | command
  | tickLength
deriving DecidableEq

/-- The option of a letter, if it comes with an operand. -/
def Valued.ofLetter? : Char → Option Valued
  | 'f' => some .startup
  | 'c' => some .command
  | 't' => some .tickLength
  | _ => none

namespace CommandLine

/-- Takes the operand of an option. -/
def take (line : CommandLine) (option : Valued) (operand : String) :
    Except UsageFault CommandLine :=
  match option with
  | .startup => .ok { line with startup := .explicit operand }
  | .command => .ok { line with commands := line.commands ++ [operand] }
  | .tickLength =>
    match readNat? mostNat64 operand.toList with
    | none => .error (.badTickLength operand)
    | some 0 => .error .zeroTickLength
    | some ms => .ok { line with tickLength := some ms }

/-- An option at the end of the arguments, where its operand would have to follow. -/
def lacking (line : CommandLine) (option : Valued) : Except UsageFault CommandLine :=
  match option with
  | .startup => .ok { line with startup := .skip }
  | .command => .error .missingCommand
  | .tickLength => .error .missingTickLength

/-- Reads the letters of one argument. The operand of an option is the rest of the argument;
if there is none, the option is left open. -/
def readLetters (line : CommandLine) : List Char → Except UsageFault (CommandLine × Option Valued)
  | [] => .ok (line, none)
  | c :: rest =>
    match Valued.ofLetter? c with
    | some option =>
      if rest.isEmpty then .ok (line, some option)
      else (line.take option (String.ofList rest)).map fun line => (line, none)
    | none =>
      if c = 'd' then readLetters { line with debug := true } rest
      else if c = 'q' then readLetters { line with quiet := true } rest
      else if c = 'n' then readLetters { line with noConsole := true } rest
      else .error (.unknownOption c)

/-- The argument holds option letters: it starts with a dash and is more than that. -/
def isFlags (argument : String) : Bool :=
  match argument.toList with
  | '-' :: _ :: _ => true
  | _ => false

/-- The argument starts with a dash. -/
def isDashed (argument : String) : Bool := argument.toList.head? = some '-'

/-- Reads arguments in order. After two dashes all that follows are scripts. The start-up
file alone never takes an argument that starts with a dash as its operand. -/
def readFrom (line : CommandLine) : List String → Except UsageFault CommandLine
  | [] => .ok line
  | argument :: rest =>
    if argument = "--" then .ok { line with scripts := line.scripts ++ rest }
    else if !isFlags argument then
      readFrom { line with scripts := line.scripts ++ [argument] } rest
    else
      match line.readLetters (argument.toList.drop 1) with
      | .error e => .error e
      | .ok (line, none) => readFrom line rest
      | .ok (line, some option) =>
        match rest with
        | [] => line.lacking option
        | operand :: others =>
          if option = .startup && isDashed operand then
            readFrom { line with startup := .skip } (operand :: others)
          else
            match line.take option operand with
            | .error e => .error e
            | .ok line => readFrom line others

/-- What a list of arguments asks for. -/
def read (arguments : List String) : Except UsageFault CommandLine := readFrom {} arguments

end CommandLine

end TickScript
