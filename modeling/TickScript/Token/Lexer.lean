-- Reading a script token by token. Which operators there are is a matter of a table, and
-- of several that fit the longest is read.
import TickScript.Fault

namespace TickScript

open TickScript.Text

/-! ## Operator tables -/

/-- Which texts are operators, and which are the beginning of one. -/
structure OperatorTable where
  isOperator : String → Bool
  isStart : String → Bool

/-- The beginnings of a spelling, itself included, the empty one not. -/
def startsOf (spelling : String) : List String :=
  (List.range spelling.length).map fun n => String.ofList (spelling.toList.take (n + 1))

/-- The table of a list of spellings. -/
def OperatorTable.ofSpellings (spellings : List String) : OperatorTable :=
  { isOperator := spellings.contains
    isStart := (spellings.flatMap startsOf).contains }

/-! ## Pieces -/

/-- A piece of text at the head of what is left to read. -/
structure Piece where
  kind : TokenKind
  surface : List Char
  /-- All the characters of the piece, quotes included. -/
  spelled : List Char
  rest : List Char

/-- Why no piece could be read, with the kind and surface that a report shows. -/
structure Misread where
  kind : TokenKind
  surface : List Char
  cause : Cause

/-- A point and the digits after it, if there are any. -/
def takeFraction (cs : List Char) : List Char × List Char :=
  match cs with
  | '.' :: rest =>
    let digits := rest.takeWhile Char.isDigit
    if digits.isEmpty then ([], cs) else ('.' :: digits, rest.dropWhile Char.isDigit)
  | _ => ([], cs)

/-- An exponent, if its digits are there. -/
def takeExponent (cs : List Char) : List Char × List Char :=
  match cs with
  | [] => ([], [])
  | c :: rest =>
    if c = 'e' || c = 'E' then
      let (sign, tail) := match rest with
        | '+' :: tail => (['+'], tail)
        | '-' :: tail => (['-'], tail)
        | tail => ([], tail)
      let digits := tail.takeWhile Char.isDigit
      if digits.isEmpty then ([], cs) else (c :: sign ++ digits, tail.dropWhile Char.isDigit)
    else ([], cs)

/-- A decimal number: digits, then a fraction and an exponent if they are complete. -/
def readDecimal (cs : List Char) : Piece :=
  let whole := cs.takeWhile Char.isDigit
  let (fraction, rest) := takeFraction (cs.dropWhile Char.isDigit)
  let (exponent, rest) := takeExponent rest
  let spelled := whole ++ fraction ++ exponent
  { kind := .number, surface := spelled, spelled, rest }

/-- A number, hexadecimal after its mark. -/
def readNumber (cs : List Char) : Except Misread Piece :=
  match cs with
  | '0' :: x :: tail =>
    if x = 'x' || x = 'X' then
      let digits := tail.takeWhile isHexDigit
      let spelled := '0' :: x :: digits
      if digits.isEmpty then
        .error { kind := .hex, surface := spelled, cause := .malformedHex (String.ofList spelled) }
      else
        .ok { kind := .hex, surface := spelled, spelled, rest := tail.dropWhile isHexDigit }
    else .ok (readDecimal cs)
  | _ => .ok (readDecimal cs)

/-- A quoted text, given what follows its opening quote. Nothing in it is special. -/
def readText (cs : List Char) : Except Misread Piece :=
  match cutAt? (· = '\'') cs with
  | some (body, rest) =>
    .ok { kind := .text, surface := body, spelled := '\'' :: body ++ ['\''], rest }
  | none => .error { kind := .text, surface := cs, cause := .unterminatedText }

/-- A name, which is a call when the next character that is no blank opens a parenthesis. -/
def readName (cs : List Char) : Piece :=
  let name := cs.takeWhile continuesName
  let rest := cs.dropWhile continuesName
  let kind := if (rest.dropWhile isBlank).head? = some '(' then .call else .name
  { kind, surface := name, spelled := name, rest }

/-- How far the text runs as the beginning of an operator, and the length of the longest
operator met on the way. -/
def scanOperator (ops : OperatorTable) (taken : List Char) (longest : Nat) :
    List Char → List Char × Nat
  | [] => (taken, longest)
  | c :: rest =>
    let candidate := taken ++ [c]
    if ops.isStart (String.ofList candidate) then
      let longest := if ops.isOperator (String.ofList candidate) then candidate.length else longest
      scanOperator ops candidate longest rest
    else (taken, longest)

/-- The longest operator, of the given kind. -/
def readOperator (ops : OperatorTable) (kind : TokenKind) (cs : List Char) :
    Except Misread Piece :=
  let (reach, longest) := scanOperator ops [] 0 cs
  if longest = 0 then
    let shown := if reach.isEmpty then cs.take 1 else reach
    .error { kind := .number, surface := shown, cause := .unknownOperator (String.ofList shown) }
  else
    .ok { kind, surface := cs.take longest, spelled := cs.take longest, rest := cs.drop longest }

/-- The piece of one character. -/
def singlePiece (kind : TokenKind) (c : Char) (rest : List Char) : Piece :=
  { kind, surface := [c], spelled := [c], rest }

/-- A number starts here: with a digit, or with a point before a digit. -/
def startsNumber : List Char → Bool
  | '.' :: d :: _ => d.isDigit
  | c :: _ => c.isDigit
  | [] => false

/-- The piece at the head of a text that starts with `c`; `kind` is the kind that an
operator has here. -/
def readPiece (ops : OperatorTable) (kind : TokenKind) (c : Char) (rest : List Char) :
    Except Misread Piece :=
  if startsNumber (c :: rest) then readNumber (c :: rest)
  else if c = '\'' then readText rest
  else if startsName c then .ok (readName (c :: rest))
  else if c = '(' then .ok (singlePiece .opening c rest)
  else if c = ')' then .ok (singlePiece .closing c rest)
  else if c = ',' then .ok (singlePiece .comma c rest)
  else readOperator ops kind (c :: rest)

/-! ## The lexer -/

/-- A script that is being read. -/
structure Lexer where
  rest : List Char
  place : Place
  previous : Option Token
  /-- Refuse an operand that directly follows an operand. -/
  strict : Bool
  failed : Bool

/-- What pulling at a lexer gives. -/
inductive Pull where
  | token (t : Token)
  | fault (f : Fault)
  | finished

namespace Lexer

/-- Reading a script from its start. -/
def ofCode (code : String) (strict : Bool) : Lexer :=
  { rest := code.toList, place := .start, previous := none, strict, failed := false }

/-- Passes over blanks. -/
def skipBlanks (l : Lexer) : Lexer :=
  { l with
    rest := l.rest.dropWhile isBlank
    place := l.place.after (l.rest.takeWhile isBlank) }

/-- Whether a token or a fault is still to come. -/
def hasNext (l : Lexer) : Bool × Lexer :=
  let l := l.skipBlanks
  (!l.failed && !l.rest.isEmpty, l)

/-- The kind of an operator that is read now. -/
def operatorKind (l : Lexer) : TokenKind :=
  if TokenKind.precedesUnary (l.previous.map (·.kind)) then .unary else .operator

/-- Why a token may not follow the previous one, if it may not. -/
def clash? (l : Lexer) (t : Token) : Option Cause :=
  match l.previous with
  | some p =>
    if l.strict && p.kind.clashes t.kind then
      some (.notAllowedAfter t.surface (t.place.pos + 1) p.surface (p.place.pos + 1))
    else none
  | none => none

/-- Reads the next token. After a fault there is nothing more to read. -/
def next (ops : OperatorTable) (source : Source) (l : Lexer) : Pull × Lexer :=
  if l.failed then (.finished, l)
  else
    let l := l.skipBlanks
    match l.rest with
    | [] => (.finished, l)
    | c :: rest =>
      match readPiece ops l.operatorKind c rest with
      | .error bad =>
        let t : Token :=
          { kind := bad.kind, surface := String.ofList bad.surface, place := l.place }
        (.fault (.ofSite bad.cause ⟨t, source⟩), { l with failed := true })
      | .ok piece =>
        let t : Token :=
          { kind := piece.kind, surface := String.ofList piece.surface, place := l.place }
        match l.clash? t with
        | some cause => (.fault (.ofSite cause ⟨t, source⟩), { l with failed := true })
        | none =>
          (.token t,
            { l with
              rest := piece.rest, place := l.place.after piece.spelled, previous := some t })

/-- The tokens that are left, behind those already read, latest first. Every token takes at
least one character, so as many steps as there are characters are enough. -/
def collect (ops : OperatorTable) (source : Source) :
    Nat → Lexer → List Token → Except Fault (List Token)
  | 0, _, read => .ok read.reverse
  | fuel + 1, l, read =>
    match l.next ops source with
    | (.token t, l) => collect ops source fuel l (t :: read)
    | (.fault f, _) => .error f
    | (.finished, _) => .ok read.reverse

end Lexer

/-- All the tokens of a script, or the first fault in it. -/
def tokenize (ops : OperatorTable) (source : Source) : Except Fault (List Token) :=
  let l := Lexer.ofCode source.code true
  l.collect ops source (l.rest.length + 1) []

end TickScript
