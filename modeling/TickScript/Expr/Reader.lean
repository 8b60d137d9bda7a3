-- Reading a script: its tokens are arranged into a tree by the precedence of the operators.
import TickScript.Language
import TickScript.Number.Spelling

namespace TickScript

/-! ## Trees under construction -/

/-- A tree that has been read, and the height it is taken to have. -/
structure Parsed where
  tree : Expr
  height : Nat

namespace Parsed

def leaf (tree : Expr) : Parsed := ⟨tree, 1⟩

/-- Adds a statement. A chain of statements stays one level, however long it is. -/
def andThen (first next : Parsed) : Parsed :=
  match first.tree with
  | .sequence items => ⟨.sequence (items ++ [next.tree]), max first.height (next.height + 1)⟩
  | tree => ⟨.sequence [tree, next.tree], max (first.height + 1) (next.height + 1)⟩

end Parsed

/-- The function that makes a list. Before an assignment its operands are written to. -/
def listMaker : String := "l"

mutual

/-- The tree as the left side of an assignment. -/
def Expr.toTarget (lang : Language) : Expr → Expr
  | .var name _ site => .var name true site
  | .call name args site =>
    if name = listMaker && (lang.function? name).isSome then
      .call name (Expr.toTargets lang args) site
    else .call name args site
  | e => e

/-- Some trees as the left side of an assignment. -/
def Expr.toTargets (lang : Language) : List Expr → List Expr
  | [] => []
  | e :: rest => e.toTarget lang :: Expr.toTargets lang rest

end

/-! ## The grammar -/

namespace Reader

/-- What the reader knows of the script as a whole. -/
structure Setting where
  lang : Language
  source : Source
  /-- The last token, where the faults at the end of the script are shown. -/
  last : Token

namespace Setting

def site (g : Setting) (t : Token) : Site := ⟨t, g.source⟩

def refuse {α : Type} (g : Setting) (cause : Cause) (t : Token) : Except Fault α :=
  .error (.ofSite cause (g.site t))

end Setting

/-- A tree and the tokens after it. -/
abbrev Reading := Except Fault (Parsed × List Token)

/-- An operand ends where nothing, a closing parenthesis or a comma comes next. -/
def atOperandEnd : List Token → Bool
  | [] => true
  | t :: _ => t.kind = .closing || t.kind = .comma

/-- The names of the parameters, if all of them are names. -/
def paramNames? : List Expr → Option (List String)
  | [] => some []
  | .var name _ _ :: rest => (paramNames? rest).map (name :: ·)
  | _ => none

/-- A definition, from its head and its body. -/
def definition (g : Setting) (head body : Expr) (arrow : Token) : Except Fault Expr :=
  match head with
  | .call name args site =>
    if (g.lang.function? name).isSome then .error (.ofSite (.redefinesBuiltIn name) site)
    else
      match paramNames? args with
      | some params => .ok (.define name params body site)
      | none => .error (.ofSite (.badParameters name) site)
  | _ => g.refuse .badSignature arrow

/-- Joins two operands with the operator `op`, whose token is `t`. -/
def combine (g : Setting) (op : BinaryOperator) (t : Token) (left right : Parsed) :
    Except Fault Parsed := do
  let height := max left.height right.height + 1
  if height > maxNesting then
    g.refuse .nestedTooDeep t
  else
    match op.role with
    | .sequences => return left.andThen right
    | .evaluates _ => return ⟨.binary t.surface left.tree right.tree (g.site t), height⟩
    | .assigns _ =>
      return ⟨.binary t.surface (left.tree.toTarget g.lang) right.tree (g.site t), height⟩
    | .defines =>
      let tree ← definition g left.tree right.tree t
      return ⟨tree, height⟩

/-- A call, once its arguments are read. The height is that of the highest argument. -/
def finishCall (g : Setting) (name : Token) (args : List Expr) (height : Nat) :
    Except Fault Parsed :=
  match g.lang.function? name.surface with
  | some f =>
    if f.arity.accepts args.length then
      .ok ⟨.call name.surface args (g.site name), height + 1⟩
    else g.refuse (.wrongArity name.surface f.arity args.length) name
  | none => .ok ⟨.call name.surface args (g.site name), height + 1⟩

/-- The least precedence of an operator within the right operand of `op`. -/
def rightLeast (op : BinaryOperator) : Nat :=
  match op.side with
  | .left => op.precedence + 1
  | .right => op.precedence

mutual

/-- Reads an operand, and then operators of at least the precedence `least` with their
operands. `depth` counts the operands around this one. -/
def expression (g : Setting) : Nat → Nat → Nat → List Token → Reading
  | 0, _, _, _ => g.refuse .unexpectedEnd g.last
  | fuel + 1, depth, least, tokens => do
    let (left, rest) ← operand g fuel depth tokens
    climb g fuel depth least left rest

/-- Reads on after an operand. -/
def climb (g : Setting) : Nat → Nat → Nat → Parsed → List Token → Reading
  | 0, _, _, _, _ => g.refuse .unexpectedEnd g.last
  | _, _, _, left, [] => .ok (left, [])
  | fuel + 1, depth, least, left, t :: rest =>
    if t.kind ≠ .operator then .ok (left, t :: rest)
    else
      match g.lang.binary? t.surface with
      | none => g.refuse (.notBinary t.surface) t
      | some op =>
        if op.precedence < least then .ok (left, t :: rest)
        else if (op.role matches .sequences) && atOperandEnd rest then .ok (left, rest)
        else do
          let (right, rest) ← expression g fuel depth (rightLeast op) rest
          let left ← combine g op t left right
          climb g fuel depth least left rest

/-- Reads an operand. -/
def operand (g : Setting) : Nat → Nat → List Token → Reading
  | 0, _, _ => g.refuse .unexpectedEnd g.last
  | fuel + 1, depth, tokens =>
    if depth + 1 > maxNesting then g.refuse .nestedTooDeep g.last
    else
      match tokens with
      | [] => g.refuse .unexpectedEnd g.last
      | t :: rest =>
        match t.kind with
        | .number =>
          match Number.readUnsigned? t.surface.toList with
          | some x => .ok (.leaf (.number x), rest)
          | none => g.refuse (.malformedNumber t.surface) t
        | .hex =>
          match Number.readHex? (t.surface.toList.drop 2) with
          | some x => .ok (.leaf (.number x), rest)
          | none => g.refuse (.malformedHex t.surface) t
        | .text => .ok (.leaf (.text t.surface), rest)
        | .name => .ok (.leaf (.var t.surface false (g.site t)), rest)
        | .call =>
          -- A call is always followed by its opening parenthesis.
          match rest.drop 1 with
          | [] => arguments g fuel (depth + 1) t [] 0 []
          | next :: others =>
            if next.kind = .closing then do
              let parsed ← finishCall g t [] 0
              return (parsed, others)
            else arguments g fuel (depth + 1) t [] 0 (next :: others)
        | .opening => do
          let (inner, rest) ← expression g fuel (depth + 1) 0 rest
          match rest with
          | [] => g.refuse .unbalancedOpening t
          | next :: others =>
            if next.kind = .closing then .ok (inner, others)
            else g.refuse (.expectedClosing next.surface) next
        | .unary =>
          match g.lang.unary? t.surface with
          | none => g.refuse (.notUnary t.surface) t
          | some op => do
            let (inner, rest) ← expression g fuel (depth + 1) op.precedence rest
            return (⟨.unary t.surface inner.tree (g.site t), inner.height + 1⟩, rest)
        | .operator | .closing | .comma => g.refuse (.unexpected t.surface) t

/-- Reads the arguments of a call up to its closing parenthesis, after those already read. -/
def arguments (g : Setting) :
    Nat → Nat → Token → List Expr → Nat → List Token → Reading
  | 0, _, _, _, _, _ => g.refuse .unexpectedEnd g.last
  | fuel + 1, depth, name, args, height, tokens => do
    let (arg, rest) ← expression g fuel depth 0 tokens
    let args := args ++ [arg.tree]
    let height := max height arg.height
    match rest with
    | [] => g.refuse (.unclosedCall name.surface) name
    | next :: others =>
      if next.kind = .comma then arguments g fuel depth name args height others
      else if next.kind = .closing then do
        let parsed ← finishCall g name args height
        return (parsed, others)
      else g.refuse (.expectedCommaOrClosing next.surface) next

end

end Reader

/-! ## Scripts -/

/-- Reads a script. Between two tokens that are taken the reader makes at most two calls of
its own, which is what its fuel is measured by. -/
def Script.read (lang : Language) (source : Source) : Except Fault Script := do
  let tokens ← tokenize lang.operators source
  match tokens.getLast? with
  | none => .error (.ofCause .emptyScript)
  | some last =>
    let g : Reader.Setting := { lang, source, last }
    let (parsed, rest) ← Reader.expression g (2 * tokens.length + 2) 0 0 tokens
    match rest with
    | [] => return ⟨parsed.tree, source⟩
    | t :: _ => g.refuse (.unexpected t.surface) t

end TickScript
