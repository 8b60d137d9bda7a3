-- Reading a pattern.
import TickScript.Pattern.Form

namespace TickScript.Pattern

open TickScript.Text

/-! ## The scan -/

/-- A pattern that is being read. -/
structure Scan where
  rest : List Char
  place : Place
  flags : Flags
  /-- The groups that have been opened. -/
  groups : Nat
  /-- Their names, with where these stand. -/
  names : List (String × Nat × Span)

/-- A step of reading. -/
abbrev Read := StateT Scan (Except Complaint)

namespace Read

def refuse {α : Type} (reason : Reason) (span : Span) : Read α := throw { reason, span }

def peek? : Read (Option Char) := do return (← get).rest.head?

def atEnd : Read Bool := do return (← get).rest.isEmpty

def here : Read Place := do return (← get).place

/-- The empty piece at this place. -/
def noSpan : Read Span := do
  let p ← here
  return ⟨p, p⟩

/-- The piece of the next character. -/
def charSpan : Read Span := do
  let s ← get
  return ⟨s.place, s.place.after (s.rest.take 1)⟩

/-- The piece from a place up to here. -/
def spanFrom (start : Place) : Read Span := do return ⟨start, ← here⟩

/-- Passes over the next character. -/
def bump : Read Unit :=
  modify fun s => { s with rest := s.rest.drop 1, place := s.place.after (s.rest.take 1) }

/-- Blanks and comments at the head of a text, and what follows them. -/
def splitBlanks (inComment : Bool) : List Char → List Char × List Char
  | [] => ([], [])
  | c :: rest =>
    if inComment || isBlank c || c = '#' then
      let (blanks, rest) := splitBlanks ((inComment || c = '#') && c ≠ '\n') rest
      (c :: blanks, rest)
    else ([], c :: rest)

/-- Passes over blanks and comments if they do not count. -/
def skipBlanks : Read Unit :=
  modify fun s =>
    if s.flags.verbose then
      let (blanks, rest) := splitBlanks false s.rest
      { s with rest, place := s.place.after blanks }
    else s

/-- Passes over the next character and blanks after it. -/
def bumpSpaced : Read Unit := do
  bump
  skipBlanks

/-- Passes over a text if it comes next, and says whether it did. -/
def bumpIf (text : String) : Read Bool := do
  let s ← get
  if text.toList.isPrefixOf s.rest then
    set { s with
      rest := s.rest.drop text.length
      place := s.place.after text.toList }
    return true
  else return false

/-- The character after the next one, blanks between them aside. -/
def peekSpaced? : Read (Option Char) := do
  let s ← get
  let tail := s.rest.drop 1
  if s.flags.verbose then
    match tail.dropWhile isBlank with
    | '#' :: comment => return (comment.dropWhile isBlank).head?
    | rest => return rest.head?
  else return tail.head?

/-- Takes characters as long as they satisfy `p`, passing over blanks if they do not
count. -/
def takeSpaced (p : Char → Bool) : Nat → List Char → Read (List Char)
  | 0, taken => return taken.reverse
  | fuel + 1, taken => do
    match ← peek? with
    | some c =>
      if p c then
        bumpSpaced
        takeSpaced p fuel (c :: taken)
      else return taken.reverse
    | none => return taken.reverse

/-- Enough fuel for the rest of the pattern. -/
def fuel : Read Nat := do return (← get).rest.length + 1

end Read

open Read

/-! ## Escapes -/

/-- What an escape or a plain character is. -/
inductive Atom where
  | member (m : Member)
  | look (l : Look)

/-- These characters mean something in a pattern. -/
def isMeta (c : Char) : Bool := "\\.+*?()|[]\x7b\x7d^$#&-~".toList.contains c

/-- These characters stand for themselves when escaped. -/
def isEscapable (c : Char) : Bool :=
  isMeta c || c ≤ '\x7f' && !(c.isAlphanum || c = '<' || c = '>')

/-- The value of hexadecimal digits. -/
def hexValue (digits : List Char) : Nat :=
  digits.foldl (fun n c =>
    16 * n + if c.isDigit then c.toNat - '0'.toNat else c.toLower.toNat - 'a'.toNat + 10) 0

/-- The character with the given hexadecimal number. -/
def hexChar? (digits : List Char) : Option Char :=
  let n := hexValue digits
  if n.isValidChar then some (Char.ofNat n) else none

/-- A given number of hexadecimal digits. -/
def readHexDigits : Nat → List Char → Read (List Char)
  | 0, taken => return taken.reverse
  | n + 1, taken => do
    match ← peek? with
    | none => refuse .escapeUnexpectedEnd (← noSpan)
    | some c =>
      if isHexDigit c then
        bumpSpaced
        readHexDigits n (c :: taken)
      else refuse .hexInvalidDigit (← charSpan)

/-- A character by its hexadecimal number, in braces or with a fixed number of digits, and whether
the number was in braces. -/
def readHex (width : Nat) : Read (Char × Bool) := do
  bumpSpaced
  match ← peek? with
  | none => refuse .escapeUnexpectedEnd (← noSpan)
  | some '\x7b' =>
    let brace ← here
    bump
    let start ← here
    skipBlanks
    let digits ← takeSpaced isHexDigit (← fuel) []
    match ← peek? with
    | none => refuse .escapeUnexpectedEnd (← spanFrom brace)
    | some c =>
      if c = '\x7d' then
        let stop ← here
        bumpSpaced
        if digits.isEmpty then refuse .hexEmpty (← spanFrom brace)
        else
          match hexChar? digits with
          | some c => return (c, true)
          | none => refuse .hexInvalid ⟨start, stop⟩
      else refuse .hexInvalidDigit (← charSpan)
  | some _ =>
    let start ← here
    let digits ← readHexDigits width []
    match hexChar? digits with
    | some c => return (c, false)
    | none => refuse .hexInvalid (← spanFrom start)

/-- The special edge of a word that a name in braces asks for. -/
def edgeNamed? (words : CharSet) : String → Option Look
  | "start" => some (.wordStart words)
  | "end" => some (.wordEnd words)
  | "start-half" => some (.wordStartHalf words)
  | "end-half" => some (.wordEndHalf words)
  | _ => none

/-- What follows the escape for the edge of a word: braces with a name, unless they hold a
count. -/
def readEdge (words : CharSet) (start : Place) : Read Look := do
  if (← peek?) ≠ some '\x7b' then return .wordEdge words
  else
    let before ← get
    let brace ← here
    bumpSpaced
    let inName := fun c : Char => c.isAlpha || c = '-'
    match ← peek? with
    | none => refuse .wordEdgeUnexpectedEnd (← spanFrom start)
    | some c =>
      if !inName c then
        set before
        return .wordEdge words
      else
        let contents ← here
        let name ← takeSpaced inName (← fuel) []
        if (← peek?) ≠ some '\x7d' then refuse .wordEdgeUnclosed (← spanFrom brace)
        else
          let stop ← here
          bump
          match edgeNamed? words (String.ofList name) with
          | some look => return look
          | none => refuse .wordEdgeUnrecognized ⟨contents, stop⟩

/-- Splits a text in two at the first occurrence of another. -/
def splitAtFirst? (mark : List Char) : List Char → Option (List Char × List Char)
  | [] => none
  | c :: rest =>
    if mark.isPrefixOf (c :: rest) then some ([], (c :: rest).drop mark.length)
    else (splitAtFirst? mark rest).map fun (before, behind) => (c :: before, behind)

/-- What the name of a property asks for, and whether for all other characters. -/
def readQuery (name : List Char) : Unicode.Query × Bool :=
  match splitAtFirst? ['!', '='] name with
  | some (name, value) => (.valued name value, true)
  | none =>
    match (splitAtFirst? [':'] name).or (splitAtFirst? ['='] name) with
    | some (name, value) => (.valued name value, false)
    | none => (.having name, false)

/-- A property of characters by its name, from the letter behind the backslash on. -/
def readProperty (start : Place) (negated : Bool) : Read Member := do
  bumpSpaced
  let name ← match ← peek? with
    | none => refuse .escapeUnexpectedEnd (← noSpan)
    | some '\x7b' => do
      bumpSpaced
      let name ← takeSpaced (· ≠ '\x7d') (← fuel) []
      if ← atEnd then refuse .escapeUnexpectedEnd (← noSpan)
      else
        bump
        pure name
    | some c =>
      if c = '\\' then refuse .unicodeClassInvalid (← charSpan)
      else do
        bumpSpaced
        pure [c]
  let (query, others) := readQuery name
  return .property query (negated != others) (← spanFrom start)

/-- A character by its hexadecimal number, from the letter behind the backslash on. -/
def readHexLiteral (start : Place) (width : Nat) : Read Atom := do
  let (c, braced) ← readHex width
  return .member (.literal ⟨c, ← spanFrom start, width = 2 && !braced⟩)

/-- The class of a letter. -/
def letterClass? (c : Char) : Option LetterClass :=
  match c.toLower with
  | 'd' => some .digit
  | 's' => some .blank
  | 'w' => some .word
  | _ => none

/-- The character that a letter behind a backslash stands for. -/
def controlChar? : Char → Option Char
  | 'a' => some '\x07'
  | 'f' => some '\x0c'
  | 't' => some '\t'
  | 'n' => some '\n'
  | 'r' => some '\r'
  | 'v' => some '\x0b'
  | _ => none

/-- An escape. -/
def readEscape : Read Atom := do
  let start ← here
  bump
  let words := (← get).flags.words
  match ← peek? with
  | none => refuse .escapeUnexpectedEnd (← spanFrom start)
  | some c =>
    if c.isDigit then refuse .backreference ⟨start, (← charSpan).stop⟩
    else if c = 'x' then readHexLiteral start 2
    else if c = 'u' then readHexLiteral start 4
    else if c = 'U' then readHexLiteral start 8
    else if c = 'p' || c = 'P' then return .member (← readProperty start (c = 'P'))
    else
      bump
      let span ← spanFrom start
      if let some kind := letterClass? c then return .member (.letter kind c.isUpper span)
      else if isEscapable c then return .member (.literal ⟨c, span, false⟩)
      else if let some control := controlChar? c then
        return .member (.literal ⟨control, span, false⟩)
      else
        match c with
        | 'A' => return .look .textStart
        | 'z' => return .look .textEnd
        | 'b' => return .look (← readEdge words start)
        | 'B' => return .look (.notWordEdge words)
        | '<' => return .look (.wordStart words)
        | '>' => return .look (.wordEnd words)
        | _ => refuse .escapeUnrecognized span

/-! ## Classes -/

/-- What has been read in brackets: the operation before it with its left side, and the members
since, the latest first. -/
structure PartialBody where
  pending : Option (SetOperation × ClassBody)
  members : List Member
  span : Span

/-- The body, with the operation before it. -/
def PartialBody.close (b : PartialBody) : ClassBody :=
  let body := ClassBody.members b.members.reverse b.span
  match b.pending with
  | none => body
  | some (op, left) => .operation op left body ⟨left.span.start, body.span.stop⟩

def PartialBody.add (b : PartialBody) (m : Member) : PartialBody :=
  { b with
    members := m :: b.members
    span := if b.members.isEmpty then m.span else ⟨b.span.start, m.span.stop⟩ }

/-- The operation that comes next, if one does. -/
def readSetOperation? : Read (Option SetOperation) := do
  if ← bumpIf "&&" then return some .intersection
  else if ← bumpIf "--" then return some .difference
  else if ← bumpIf "~~" then return some .symmetricDifference
  else return none

/-- A plain character. -/
def readPlain (c : Char) : Read Literal := do
  let span ← charSpan
  bump
  return ⟨c, span, false⟩

/-- A member of a class, an escape or a plain character, with its piece. -/
def readMember : Read (Atom × Span) := do
  let start ← here
  let atom ← match ← peek? with
    | some '\\' => readEscape
    | some c => do pure (.member (.literal (← readPlain c)))
    | none => refuse .classUnclosed (← noSpan)
  return (atom, ← spanFrom start)

/-- A member of a class that bounds a range. -/
def Atom.bound (atom : Atom) (span : Span) : Read Literal :=
  match atom with
  | .member (.literal l) => return l
  | _ => refuse .classRangeLiteral span

/-- A member of a class, or a range between two. `unclosed` is the piece to show if the class
does not end. -/
def readRange (unclosed : Span) : Read Member := do
  let (first, span) ← readMember
  skipBlanks
  let next ← peek?
  let second ← peekSpaced?
  if next.isNone then refuse .classUnclosed unclosed
  else if next ≠ some '-' || second = some ']' || second = some '-' then
    match first with
    | .member m => return m
    | .look _ => refuse .classEscapeInvalid span
  else
    bumpSpaced
    if ← atEnd then refuse .classUnclosed unclosed
    else
      let (last, lastSpan) ← readMember
      let low ← first.bound span
      let high ← last.bound lastSpan
      if low.char ≤ high.char then return .range low high
      else refuse .classRangeInvalid ⟨span.start, lastSpan.stop⟩

/-- A named class in brackets and colons, if one comes next. -/
def readNamedClass? : Read (Option Member) := do
  let before ← get
  let negated := before.rest[2]? = some '^'
  let body := before.rest.drop (if negated then 3 else 2)
  let name := body.takeWhile (· ≠ ':')
  let closing := body.dropWhile (· ≠ ':')
  if before.rest[1]? = some ':' && [':', ']'].isPrefixOf closing then
    match asciiClass? (String.ofList name) with
    | none => return none
    | some s =>
      let taken := before.rest.take (before.rest.length - closing.length + 2)
      set { before with rest := closing.drop 2, place := before.place.after taken }
      return some (.named s negated (← spanFrom before.place))
  else return none

/-- The dashes at the start of a class, which stand for themselves. -/
def readDashes (start : Place) : Nat → PartialBody → Read PartialBody
  | 0, b => return b
  | fuel + 1, b => do
    if (← peek?) = some '-' then
      let dash ← readPlain '-'
      skipBlanks
      if ← atEnd then refuse .classUnclosed ⟨start, start⟩
      else readDashes start fuel (b.add (.literal dash))
    else return b

/-- The start of a class: the bracket, a caret if it is a complement, and then dashes or else a
closing bracket that stand for themselves. -/
def openClass : Read (Bool × PartialBody × Span) := do
  let start ← here
  bumpSpaced
  if ← atEnd then refuse .classUnclosed (← spanFrom start)
  let negated := (← peek?) = some '^'
  if negated then
    bumpSpaced
    if ← atEnd then refuse .classUnclosed (← spanFrom start)
  let dashed := (← peek?) = some '-'
  let body ← readDashes start (← fuel) { pending := none, members := [], span := ← noSpan }
  if !dashed && (← peek?) = some ']' then
    let bracket ← readPlain ']'
    skipBlanks
    if ← atEnd then refuse .classUnclosed (← spanFrom start)
    return (negated, body.add (.literal bracket), ← spanFrom start)
  else return (negated, body, ← spanFrom start)

mutual

/-- A class in brackets. -/
def readClass : Nat → Read Member
  | 0 => do refuse .classUnclosed (← noSpan)
  | fuel + 1 => do
    let start ← here
    let (negated, body, opening) ← openClass
    let body ← readMembers fuel opening body
    return .bracketed body negated (← spanFrom start)

/-- The members of a class up to its closing bracket. -/
def readMembers : Nat → Span → PartialBody → Read ClassBody
  | 0, opening, _ => refuse .classUnclosed opening
  | fuel + 1, opening, body => do
    skipBlanks
    match ← peek? with
    | none => refuse .classUnclosed opening
    | some '[' =>
      match ← readNamedClass? with
      | some m => readMembers fuel opening (body.add m)
      | none =>
        let m ← readClass fuel
        readMembers fuel opening (body.add m)
    | some ']' =>
      bump
      return body.close
    | some _ =>
      match ← readSetOperation? with
      | some op =>
        readMembers fuel opening
          { pending := some (op, body.close), members := [], span := ← noSpan }
      | none =>
        let m ← readRange opening
        readMembers fuel opening (body.add m)

end

/-! ## Groups and flags -/

/-- Turns a flag on or off. -/
def Flags.set? (flags : Flags) (letter : Char) (on : Bool) : Option Flags :=
  match letter with
  | 'i' => some { flags with caseless := on }
  | 'm' => some { flags with multiLine := on }
  | 's' => some { flags with dotAll := on }
  | 'U' => some { flags with swapGreed := on }
  | 'u' => some { flags with unicode := on }
  | 'R' => some { flags with returnLines := on }
  | 'x' => some { flags with verbose := on }
  | _ => none

/-- The flag letters and the dash up to a colon or parenthesis, and the flags they make of
those in force. -/
def readFlags : Nat → List (Char × Span) → Flags → Read (List (Char × Span) × Flags)
  | 0, seen, flags => return (seen, flags)
  | fuel + 1, seen, flags => do
    match ← peek? with
    | none => refuse .flagUnexpectedEnd (← noSpan)
    | some c =>
      let span ← charSpan
      if c = ':' || c = ')' then
        match seen.head? with
        | some ('-', dash) => refuse .flagDanglingNegation dash
        | _ => return (seen, flags)
      else
        let negated := (seen.lookup '-').isSome
        let next := if c = '-' then some flags else flags.set? c !negated
        match next with
        | none => refuse .flagUnrecognized span
        | some next =>
          match seen.lookup c with
          | some earlier =>
            let reason := if c = '-' then Reason.flagRepeatedNegation else .flagDuplicate
            throw { reason, span, earlier := some earlier }
          | none =>
            bump
            if ← atEnd then refuse .flagUnexpectedEnd (← noSpan)
            else readFlags fuel ((c, span) :: seen) next

/-- A character of the name of a group. -/
def isNameChar (first : Bool) (c : Char) : Bool :=
  startsName c || !first && (isNumeral c || c = '.' || c = '[' || c = ']')

/-- The characters of the name of a group up to its closing bracket. -/
def readNameChars : Nat → List Char → Read (List Char)
  | 0, taken => return taken.reverse
  | fuel + 1, taken => do
    match ← peek? with
    | none => refuse .groupNameUnclosed (← noSpan)
    | some c =>
      if c = '>' then return taken.reverse
      else if isNameChar taken.isEmpty c then
        bump
        readNameChars fuel (c :: taken)
      else refuse .groupNameInvalid (← charSpan)

/-- The name of a group with the given number. -/
def readGroupName (index : Nat) : Read Unit := do
  let start ← here
  let name ← readNameChars (← fuel) []
  let span ← spanFrom start
  bump
  let name := String.ofList name
  if name = "" then refuse .groupNameEmpty ⟨start, start⟩
  else
    match (← get).names.lookup name with
    | some (_, earlier) =>
      throw { reason := .groupNameDuplicate, span, earlier := some earlier }
    | none => modify fun s => { s with names := s.names ++ [(name, index, span)] }

/-- A new group. -/
def newGroup : Read Nat := do
  modify fun s => { s with groups := s.groups + 1 }
  return (← get).groups

/-- What an opening parenthesis opens. -/
inductive Opening where
  /-- Flags for the rest of the group around it. -/
  | flags (flags : Flags)
  /-- A group, numbered or not, with flags of its own. -/
  | group (index : Option Nat) (flags : Flags)

/-- Passes over the start of a look around the place, if one comes next. -/
def bumpLookAround : Read Bool := do
  if ← bumpIf "?=" then return true
  else if ← bumpIf "?!" then return true
  else if ← bumpIf "?<=" then return true
  else bumpIf "?<!"

/-- Reads an opening parenthesis and what belongs to it. -/
def readOpening : Read Opening := do
  let opening ← charSpan
  bumpSpaced
  let flags := (← get).flags
  if ← bumpLookAround then refuse .lookAround (← spanFrom opening.start)
  else
    let inner ← noSpan
    if ← (do if ← bumpIf "?P<" then return true else bumpIf "?<") then
      let index ← newGroup
      if ← atEnd then refuse .groupNameUnclosed (← noSpan)
      else
        readGroupName index
        return .group (some index) flags
    else if ← bumpIf "?" then
      if ← atEnd then refuse .groupUnclosed opening
      else
        let (seen, flags) ← readFlags (← fuel) [] flags
        let closing := (← peek?) = some ')'
        bump
        if closing then
          if seen.isEmpty then refuse .repetitionMissing inner else return .flags flags
        else return .group none flags
    else
      let index ← newGroup
      return .group (some index) flags

/-! ## Repetitions -/

/-- A decimal number of 32 bits in a count, or why there is none, with its piece. -/
def readDecimal : Read (Except Reason Nat × Span) := do
  let blanks := (← get).rest.takeWhile isBlank
  modify fun s => { s with rest := s.rest.dropWhile isBlank, place := s.place.after blanks }
  let start ← here
  let digits ← takeSpaced Char.isDigit (← fuel) []
  let span ← spanFrom start
  let _ ← takeSpaced isBlank (← fuel) []
  if digits.isEmpty then return (.error .countEmpty, span)
  else
    match readNat? mostNat32 digits with
    | some n => return (.ok n, span)
    | none => return (.error .decimalInvalid, span)

/-- A number that has to be there. -/
def required : Except Reason Nat × Span → Read Nat
  | (.ok n, _) => return n
  | (.error reason, span) => refuse reason span

/-- The bounds of a counted repetition, from its opening brace to its closing one. -/
def readBounds : Read (Nat × Option Nat × Place) := do
  let start ← here
  let unclosed : Read Unit := do
    if ← atEnd then refuse .countUnclosed (← spanFrom start)
  bumpSpaced
  unclosed
  let least ← readDecimal
  unclosed
  let (least, most) ←
    if (← peek?) = some ',' then do
      bumpSpaced
      unclosed
      if (← peek?) = some '\x7d' then pure (← required least, none)
      else
        let least ← required least
        let most ← required (← readDecimal)
        pure (least, some most)
    else do
      let least ← required least
      pure (least, some least)
  if (← peek?) = some '\x7d' then return (least, most, start)
  else refuse .countUnclosed (← spanFrom start)

/-- Passes over the mark of a repetition that is not greedy. -/
def readGreed : Read Bool := do
  let lazyMark ← bumpIf "?"
  return lazyMark == (← get).flags.swapGreed

/-! ## Patterns -/

/-- A part of a sequence, and where it starts. -/
structure Piece where
  form : Form
  start : Place

/-- What has been read of a group: the branches that are complete and the pieces of the last one,
the latest first, and where the group and the last branch start. -/
structure Progress where
  branches : List Form
  pieces : List Piece
  start : Place
  branchStart : Place

/-- Nothing has been read yet. -/
def Progress.at (start : Place) : Progress :=
  { branches := [], pieces := [], start, branchStart := start }

def Progress.push (p : Progress) (form : Form) (start : Place) : Progress :=
  { p with pieces := ⟨form, start⟩ :: p.pieces }

/-- The last branch, which ends at a place. -/
def Progress.branch (p : Progress) (stop : Place) : Form :=
  .ofParts (p.pieces.reverse.map Piece.form) ⟨p.branchStart, stop⟩

/-- The whole, which ends at a place. -/
def Progress.close (p : Progress) (stop : Place) : Form :=
  .ofBranches (p.branch stop :: p.branches).reverse ⟨p.start, stop⟩

/-- A single character or escape. -/
def readAtom (c : Char) : Read Form := do
  let flags := (← get).flags
  let span ← charSpan
  match c with
  | '\\' =>
    match ← readEscape with
    | .member (.literal l) => return .literal flags l
    | .member m => return .set flags m
    | .look l => return .look l
  | '.' =>
    bump
    return .dot flags span
  | '^' =>
    bump
    return .look
      (if !flags.multiLine then .textStart
       else if flags.returnLines then .returnLineStart else .lineStart)
  | '$' =>
    bump
    return .look
      (if !flags.multiLine then .textEnd
       else if flags.returnLines then .returnLineEnd else .lineEnd)
  | c => return .literal flags (← readPlain c)

/-- The piece that a repetition repeats, and the progress before it. -/
def popRepeated (p : Progress) : Read (Piece × Progress) :=
  match p.pieces with
  | piece :: rest =>
    match piece.form with
    | .flags => do refuse .repetitionMissing (← noSpan)
    | _ => return (piece, { p with pieces := rest })
  | [] => do refuse .repetitionMissing (← noSpan)

/-- The mark behind a repetition, and then the repetition in place of what it repeats. -/
def readRepetition (piece : Piece) (p : Progress) (least : Nat) (most : Option Nat) :
    Read Progress := do
  let greedy ← readGreed
  return p.push (.repeated piece.form least most greedy (← spanFrom piece.start)) piece.start

/-- Reads parts and branches up to the end of the pattern or a closing parenthesis, after
those already read. -/
def readParts : Nat → Progress → Read Form
  | 0, p => do return p.close (← here)
  | fuel + 1, p => do
    skipBlanks
    let start ← here
    match ← peek? with
    | none => return p.close start
    | some ')' => return p.close start
    | some '|' =>
      bump
      readParts fuel
        { p with branches := p.branch start :: p.branches, pieces := [], branchStart := ← here }
    | some '(' =>
      let span ← charSpan
      let outer := (← get).flags
      match ← readOpening with
      | .flags flags =>
        modify fun s => { s with flags }
        readParts fuel (p.push .flags start)
      | .group index flags =>
        modify fun s => { s with flags }
        let body ← readParts fuel (.at (← here))
        if ← atEnd then refuse .groupUnclosed span
        else
          bump
          modify fun s => { s with flags := outer }
          readParts fuel (p.push (.group index body (← spanFrom start)) start)
    | some '[' =>
      let m ← readClass (← Read.fuel)
      readParts fuel (p.push (.set (← get).flags m) start)
    | some '?' =>
      let (piece, p) ← popRepeated p
      bump
      readParts fuel (← readRepetition piece p 0 (some 1))
    | some '*' =>
      let (piece, p) ← popRepeated p
      bump
      readParts fuel (← readRepetition piece p 0 none)
    | some '+' =>
      let (piece, p) ← popRepeated p
      bump
      readParts fuel (← readRepetition piece p 1 none)
    | some '\x7b' =>
      let (piece, p) ← popRepeated p
      let (least, most, start) ← readBounds
      bumpSpaced
      let p ← readRepetition piece p least most
      if most.all (least ≤ ·) then readParts fuel p
      else refuse .countInvalid (← spanFrom start)
    | some c =>
      let form ← readAtom c
      readParts fuel (p.push form start)

/-- Reads a whole pattern: its form, and its groups that have names. It must not be nested too
deep. -/
def readPattern (source : String) : Except Complaint (Form × List (String × Nat)) :=
  let start : Scan :=
    { rest := source.toList, place := .start, flags := {}, groups := 0, names := [] }
  let whole : Read Form := do
    let form ← readParts (source.length + 1) (.at .start)
    if ← atEnd then return form else refuse .groupUnopened (← charSpan)
  match whole.run start with
  | .error c => .error c
  | .ok (form, s) =>
    match form.tooDeep? 0 with
    | some span => .error { reason := .nestedTooDeep, span }
    | none => .ok (form, s.names.map fun (name, index, _) => (name, index))

end TickScript.Pattern
