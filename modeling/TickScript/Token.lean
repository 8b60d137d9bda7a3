-- Tokens: the classified pieces of a script, each with the place it was read from.
namespace TickScript

/-! ## Places -/

/-- A place in a text: how many characters stand before it, how many line feeds, and how
many characters since the last of these. -/
structure Place where
  pos : Nat
  line : Nat
  column : Nat
deriving DecidableEq

/-- Where a text starts. -/
def Place.start : Place := ⟨0, 0, 0⟩

/-- The place after one more character. -/
def Place.step (p : Place) (c : Char) : Place :=
  if c = '\n' then ⟨p.pos + 1, p.line + 1, 0⟩ else ⟨p.pos + 1, p.line, p.column + 1⟩

/-- The place after some more characters. -/
def Place.after (p : Place) (cs : List Char) : Place := cs.foldl Place.step p

/-! ## Kinds of tokens -/

/-- What a token is. A name is a call exactly when an opening parenthesis comes next. -/
inductive TokenKind where
  | name
  | call
  | number
  | hex
  | text
  | operator
  | unary
  | opening
  | closing
  | comma
deriving DecidableEq

/-- An operand may end with this token. Only an operator, a comma or a closing parenthesis
may follow it. -/
def TokenKind.endsOperand : TokenKind → Bool
  | .name | .call | .number | .hex | .text | .closing => true
  | _ => false

/-- An operand may start with this token, a unary operator aside. -/
def TokenKind.startsOperand : TokenKind → Bool
  | .name | .call | .number | .hex | .text | .opening => true
  | _ => false

/-- An operator after a token of this kind, or at the very start, is unary. -/
def TokenKind.precedesUnary : Option TokenKind → Bool
  | none | some .operator | some .unary | some .opening | some .comma => true
  | _ => false

/-- The second kind of token may not follow the first: an operand directly after an operand.
The parenthesis of a call is the exception. -/
def TokenKind.clashes (first second : TokenKind) : Bool :=
  !(first = .call && second = .opening) && first.endsOperand && second.startsOperand

/-! ## Tokens and sites -/

/-- A classified piece of a script. The surface of a quoted text has no quotes. -/
structure Token where
  kind : TokenKind
  surface : String
  place : Place
deriving DecidableEq

/-- The text of a script, and its name if it has one. -/
structure Source where
  code : String
  name : Option String
deriving DecidableEq

/-- A token together with the text it was read from. -/
structure Site where
  token : Token
  source : Source
deriving DecidableEq

end TickScript
