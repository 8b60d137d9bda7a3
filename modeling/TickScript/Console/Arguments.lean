-- The arguments of a call from the console: numbers, texts in quotes and bare words.
import TickScript.Interpreter
import TickScript.Text.Case

namespace TickScript

/-- Why a call from the console is not carried out. -/
inductive InvokeFault where
  | unreadable (message : String)
  | notANumber (text : String)
  | operator (text : String)
  | function (name : String)
  | punctuation (text : String)
  /-- The parameters and the arguments differ in number. -/
  | wrongCount (procedure : String) (params : List String) (args : List Value)

namespace InvokeFault

/-- Parameters beside arguments, with question marks where one is missing. -/
def pairUp : List String → List Value → List String
  | [], [] => []
  | param :: params, [] => s!"{param} => ??" :: pairUp params []
  | [], arg :: args => ("?? => " ++ arg.display) :: pairUp [] args
  | param :: params, arg :: args => (s!"{param} => " ++ arg.display) :: pairUp params args

/-- The fault in words. -/
def message : InvokeFault → String
  | .unreadable text => s!"Fail: {text}"
  | .notANumber text =>
    s!"Fail: {text} seems like a number but it is not a number. " ++
      "Use quotes to ensure its a string"
  | .operator text => s!"Fail: operators, like {text} are not allowed in invoke"
  | .function name => s!"Fail: passing functions like {name}() to invoke is not allowed"
  | .punctuation text => s!"Fail: {text} is not allowed in invoke"
  | .wrongCount procedure params args =>
    "\n".intercalate
      ((s!"Fail: stored function {procedure} takes " ++
        s!"{params.length} arguments, not {args.length}:") :: pairUp params args)

end InvokeFault

/-- The argument that a bare word stands for: the global of that name in small letters, or the
word itself. -/
def wordArgument (globals : Registry Value) (word : String) : Value :=
  (globals.get? (Text.toLower word)).getD (.text word)

/-- Takes the next token of an argument list. `sign` says that a minus sign stands before it;
the result is the argument, or none if the token is a minus sign itself. -/
def takeArgument (globals : Registry Value) (sign : Bool) (t : Token) :
    Except InvokeFault (Option Value) :=
  match t.kind with
  | .name => .ok (some (wordArgument globals t.surface))
  | .text => .ok (some (.text t.surface))
  | .number | .hex =>
    let text := if sign then "-" ++ t.surface else t.surface
    match Number.read? text with
    | some x => .ok (some (.number x))
    | none => .error (.notANumber text)
  | .operator | .unary =>
    if t.surface = "-" && !sign then .ok none else .error (.operator t.surface)
  | .call => .error (.function t.surface)
  | .opening | .closing | .comma => .error (.punctuation t.surface)

/-- The arguments that are left, after those already read. Every token takes at least one
character, which is what the fuel is measured by. -/
def readArguments (ops : OperatorTable) (source : Source) (globals : Registry Value) :
    Nat → Lexer → Bool → List Value → Except InvokeFault (List Value)
  | 0, _, _, args => .ok args
  | fuel + 1, l, sign, args =>
    match l.next ops source with
    | (.finished, _) => .ok args
    | (.fault f, _) => .error (.unreadable f.message)
    | (.token t, l) =>
      match takeArgument globals sign t with
      | .error e => .error e
      | .ok none => readArguments ops source globals fuel l true args
      | .ok (some v) => readArguments ops source globals fuel l false (args ++ [v])

/-- The arguments that a text lists. -/
def argumentsOf (lang : Language) (globals : Registry Value) (text : String) :
    Except InvokeFault (List Value) :=
  readArguments lang.operators ⟨text, none⟩ globals (text.length + 1) (.ofCode text false) false []

end TickScript
