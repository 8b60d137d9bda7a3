-- Scripts as trees. A tree names its operators and functions; what they do is up to the
-- language that it is evaluated in.
import TickScript.Token

namespace TickScript

/-- A node of a script. -/
inductive Expr where
  | number (x : Float)
  | text (s : String)
  /-- A variable. One that an assignment writes to need not be defined. -/
  | var (name : String) (isTarget : Bool) (site : Site)
  | unary (operator : String) (operand : Expr) (site : Site)
  | binary (operator : String) (left right : Expr) (site : Site)
  | call (name : String) (args : List Expr) (site : Site)
  | define (name : String) (params : List String) (body : Expr) (site : Site)
  /-- Statements one after the other. -/
  | sequence (items : List Expr)

instance : Inhabited Expr := ⟨.sequence []⟩

mutual

/-- How many levels a tree has. -/
def Expr.height : Expr → Nat
  | .number _ | .text _ | .var .. => 1
  | .unary _ operand _ => operand.height + 1
  | .binary _ left right _ => max left.height right.height + 1
  | .call _ args _ => Expr.maxHeight args + 1
  | .define _ _ body _ => body.height + 1
  | .sequence items => Expr.maxHeight items + 1

/-- The height of the highest of some trees. -/
def Expr.maxHeight : List Expr → Nat
  | [] => 0
  | e :: rest => max e.height (Expr.maxHeight rest)

end

/-- A script that has been read: its tree and the text it was read from. -/
structure Script where
  root : Expr
  source : Source

/-- A stored procedure. -/
structure Procedure where
  name : String
  params : List String
  body : Expr
  /-- Where its name stands in its definition. -/
  site : Site

end TickScript
