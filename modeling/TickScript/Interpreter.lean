-- Running scripts on a machine.
import TickScript.Eval
import TickScript.Expr.Reader

namespace TickScript

/-- Reads a script; a fault in its text is reported. -/
def readReported (lang : Language) (source : Source) : Run Script :=
  Run.reported fun s =>
    match Script.read lang source with
    | .ok script => .ok script s
    | .error f => .error (.fault f) s

/-- Reads and evaluates a script with no local variables. -/
def runCode (lang : Language) (code : String) : Run Value := do
  let script ← readReported lang ⟨code, none⟩
  Run.withLocals .empty (script.evaluate (evaluate lang) .value)

/-- Calls the procedure of a name with some values. -/
def invoke (lang : Language) (name : String) (args : List Value) : Run Value :=
  Run.reported
    (Run.withLocals .empty (callNamed (evaluateBody lang) name (args.map Lazy.of) .value))

end TickScript
