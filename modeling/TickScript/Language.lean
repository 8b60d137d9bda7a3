-- What the operators and functions of a script mean. A language starts bare and is then
-- told of one operator or function after the other; of two with one spelling the later
-- counts.
import TickScript.State
import TickScript.Token.Lexer

namespace TickScript

/-! ## Operators and functions -/

/-- To which side operators of one precedence group. -/
inductive Side where
  | left
  | right
deriving DecidableEq

/-- What becomes of the operands of an operator. -/
inductive BinaryRole where
  | evaluates (apply : Kind → Lazy → Lazy → Run Value)
  /-- The left operand is what is written to. -/
  | assigns (apply : Kind → Lazy → Lazy → Run Value)
  /-- The left operand is the head of a procedure, the right one its body. -/
  | defines
  /-- The operands are statements one after the other. -/
  | sequences

/-- An operator between two operands. -/
structure BinaryOperator where
  /-- A number below 65535: an operand may ask for operators of the next higher one, and that has
  to fit into 16 bits. -/
  precedence : Nat
  side : Side
  role : BinaryRole

/-- An operator before an operand. -/
structure UnaryOperator where
  precedence : Nat
  apply : Kind → Lazy → Run Value

/-- A built-in function. It is given a way to evaluate procedure bodies, the kind of result
that is wanted, and its operands unevaluated; its result is evaluated in its place. -/
structure Native where
  arity : Arity
  apply : (Expr → Lazy) → Kind → List Lazy → Run Lazy

/-! ## Languages -/

/-- The operators and functions that there are, the latest first, and all beginnings of
operators. -/
structure Language where
  binary : List (String × BinaryOperator)
  unary : List (String × UnaryOperator)
  functions : List (String × Native)
  starts : List String

namespace Language

def binary? (lang : Language) (spelling : String) : Option BinaryOperator :=
  lang.binary.lookup spelling

def unary? (lang : Language) (spelling : String) : Option UnaryOperator :=
  lang.unary.lookup spelling

def function? (lang : Language) (name : String) : Option Native := lang.functions.lookup name

/-- The text is an operator, of either kind. -/
def isOperator (lang : Language) (text : String) : Bool :=
  (lang.binary? text).isSome || (lang.unary? text).isSome

/-- The operators as the lexer sees them. -/
def operators (lang : Language) : OperatorTable :=
  { isOperator := lang.isOperator, isStart := lang.starts.contains }

def addBinary (lang : Language) (spelling : String) (op : BinaryOperator) : Language :=
  { lang with
    binary := (spelling, op) :: lang.binary
    starts := startsOf spelling ++ lang.starts }

/-- Adds an operator that evaluates its operands as it sees fit. -/
def addOperator (lang : Language) (spelling : String) (precedence : Nat) (side : Side)
    (apply : Kind → Lazy → Lazy → Run Value) : Language :=
  lang.addBinary spelling ⟨precedence, side, .evaluates apply⟩

/-- Adds an operator that writes to its left operand. -/
def addAssignment (lang : Language) (spelling : String) (precedence : Nat)
    (apply : Kind → Lazy → Lazy → Run Value) : Language :=
  lang.addBinary spelling ⟨precedence, .right, .assigns apply⟩

def addUnary (lang : Language) (spelling : String) (precedence : Nat)
    (apply : Kind → Lazy → Run Value) : Language :=
  { lang with
    unary := (spelling, ⟨precedence, apply⟩) :: lang.unary
    starts := startsOf spelling ++ lang.starts }

def addFunction (lang : Language) (name : String) (f : Native) : Language :=
  { lang with functions := (name, f) :: lang.functions }

/-- Adds some functions. -/
def addFunctions (lang : Language) (functions : List (String × Native)) : Language :=
  functions.foldl (fun lang (name, f) => lang.addFunction name f) lang

/-- No operators and functions. -/
def empty : Language := ⟨[], [], [], []⟩

/-- Definitions and sequences, and nothing else. -/
def bare : Language :=
  (empty.addBinary "->" ⟨2, .right, .defines⟩).addBinary ";" ⟨1, .left, .sequences⟩

end Language

/-! ## Ways to write functions -/

namespace Native

/-- A function of one unevaluated operand. -/
def ofOne (apply : Kind → Lazy → Run Lazy) : Native where
  arity := .exactly 1
  apply _ kind
    | [a] => apply kind a
    | _ => pure (.of .null)

/-- A function of two unevaluated operands. -/
def ofTwo (apply : Kind → Lazy → Lazy → Run Lazy) : Native where
  arity := .exactly 2
  apply _ kind
    | [a, b] => apply kind a b
    | _ => pure (.of .null)

/-- A function whose operands are all evaluated, from left to right, before it runs. -/
def eager (arity : Arity) (f : List Value → Run Value) : Native where
  arity
  apply _ _ operands := do
    let values ← Lazy.forceAll operands
    let v ← f values
    return .of v

/-- A function of one value. -/
def eagerOne (f : Value → Run Value) : Native :=
  eager (.exactly 1) fun
    | [a] => f a
    | _ => pure .null

/-- A function of two values. -/
def eagerTwo (f : Value → Value → Run Value) : Native :=
  eager (.exactly 2) fun
    | [a, b] => f a b
    | _ => pure .null

end Native

end TickScript
