-- What a tree means. The meaning of a node is made from the meanings of its parts, which
-- are handed over unevaluated; only the bodies of procedures come from elsewhere.
import TickScript.Clock
import TickScript.Language

namespace TickScript

/-- Reads a variable. One that is written to may be undefined, which reads as null. -/
def readVariable (name : String) (isTarget : Bool) : Run Value := fun s =>
  match s.get? name with
  | some v => .ok (v.bindTo name) s
  | none =>
    if isTarget then .ok (Value.null.bindTo name) s else Run.fail (.undefinedVariable name) s

/-- Applies an operator before an operand. -/
def applyUnary (lang : Language) (operator : String) (kind : Kind) (operand : Lazy) : Run Value :=
  match lang.unary? operator with
  | some op => op.apply kind operand
  | none => Run.fail (.notUnary operator)

/-- Applies an operator between two operands. -/
def applyBinary (lang : Language) (operator : String) (kind : Kind) (left right : Lazy) :
    Run Value :=
  match lang.binary? operator with
  | some ⟨_, _, .evaluates apply⟩ => apply kind left right
  | some ⟨_, _, .assigns apply⟩ => apply kind left right
  | _ => Run.fail (.notBinary operator)

/-- Calls the built-in function of a name, and otherwise the procedure. -/
def applyCall (lang : Language) (run : Expr → Lazy) (name : String) (kind : Kind)
    (args : List Lazy) : Run Value :=
  match lang.function? name with
  | some f => do
    let result ← f.apply run kind args
    result kind
  | none => callNamed run name args kind

mutual

/-- The meaning of a tree, given the meaning of procedure bodies. -/
def Expr.denote (lang : Language) (run : Expr → Lazy) : Expr → Lazy
  | .number x => .of (.number x)
  | .text s => .of (.text s)
  | .var name isTarget site => fun _ => Run.located site (readVariable name isTarget)
  | .unary operator operand site => fun kind =>
    Run.located site (applyUnary lang operator kind (denote lang run operand))
  | .binary operator left right site => fun kind =>
    Run.located site
      (applyBinary lang operator kind (denote lang run left) (denote lang run right))
  | .call name args site => fun kind =>
    Run.located site (applyCall lang run name kind (denoteAll lang run args))
  | .define name params body site => fun _ => do
    defineProcedure { name, params, body, site }
    return .text name
  | .sequence items => denoteSequence lang run items

/-- The meanings of some trees. -/
def Expr.denoteAll (lang : Language) (run : Expr → Lazy) : List Expr → List Lazy
  | [] => []
  | e :: rest => denote lang run e :: denoteAll lang run rest

/-- Statements one after the other. The result is that of the last. -/
def Expr.denoteSequence (lang : Language) (run : Expr → Lazy) : List Expr → Lazy
  | [] => .of .null
  | [e] => denote lang run e
  | e :: f :: rest => fun kind => do
    let _ ← denote lang run e .void
    denoteSequence lang run (f :: rest) kind

end

/-- The meaning of a tree when at most so many evaluations of bodies and jobs nest. -/
def evaluateWithin (lang : Language) : Nat → Expr → Lazy
  | 0, _ => fun _ => throw .endless
  | levels + 1, e => e.denote lang (evaluateWithin lang levels)

/-- The meaning of the body of a procedure that is called from no other. Bodies nest up to the
limit for calls, and within them at most one job is run. -/
def evaluateBody (lang : Language) : Expr → Lazy := evaluateWithin lang (maxCallDepth + 1)

/-- The meaning of a tree. Procedure bodies nest up to the limit for calls, within them at
most one job is run, and all this happens within one script. -/
def evaluate (lang : Language) : Expr → Lazy := evaluateWithin lang (maxCallDepth + 2)

end TickScript
