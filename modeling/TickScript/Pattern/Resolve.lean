-- What the parts of a pattern stand for: from patterns as they are written to trees.
import TickScript.Pattern.Form
import TickScript.Unicode.Fold

namespace TickScript.Pattern

/-- What comes of a part of a pattern, or the complaint about it. -/
abbrev Resolved (α : Type) := Except Complaint α

def complain {α : Type} (reason : Reason) (span : Span) : Resolved α := .error { reason, span }

/-! ## Sets -/

/-- The characters of a letter's class. -/
def LetterClass.chars (flags : Flags) : LetterClass → CharSet
  | .digit => if flags.unicode then Unicode.Category.decimal.members else asciiDigits
  | .blank => if flags.unicode then Unicode.blanks else asciiBlanks
  | .word => flags.words

/-- The set with all case variants, if case does not count. -/
def Flags.fold (flags : Flags) (s : CharSet) : CharSet :=
  if !flags.caseless then s
  else if flags.unicode then Unicode.foldSet s
  else Unicode.foldAscii s

/-- The set or, if it is negated, all other characters. These take in bytes that are no
characters when a pattern is about bytes. -/
def Flags.negate (flags : Flags) (negated : Bool) (span : Span) (s : CharSet) : Resolved CharSet :=
  if !negated then .ok s
  else if flags.unicode then .ok s.complement
  else complain .invalidBytes span

/-- The character that is meant. A byte outside ASCII is none by itself. -/
def Literal.resolve (flags : Flags) (l : Literal) : Resolved Char :=
  if !flags.unicode && l.asByte && '\x7f' < l.char then complain .invalidBytes l.span
  else .ok l.char

/-- The character that is meant in a class, which must be of ASCII if the pattern is about
bytes. -/
def Literal.resolveMember (flags : Flags) (l : Literal) : Resolved Char := do
  let c ← l.resolve flags
  if !flags.unicode && '\x7f' < c then complain .unicodeNotAllowed l.span else return c

/-- The characters that have a property. -/
def resolveProperty (flags : Flags) (query : Unicode.Query) (span : Span) : Resolved CharSet :=
  if !flags.unicode then complain .unicodeNotAllowed span
  else
    match query.chars with
    | .ok s => .ok s
    | .error .noProperty => complain .unicodePropertyUnknown span
    | .error .noValue => complain .unicodePropertyValueUnknown span

/-- The outcome of an operation between sets. -/
def SetOperation.apply : SetOperation → CharSet → CharSet → CharSet
  | .intersection, s, t => s.inter t
  | .difference, s, t => s.diff t
  | .symmetricDifference, s, t => s.symmDiff t

mutual

/-- The characters of a set. -/
def Member.resolve (flags : Flags) : Member → Resolved CharSet
  | .literal l => do return .single (← l.resolveMember flags)
  | .range low high => do
    let low ← low.resolveMember flags
    let high ← high.resolveMember flags
    return .range low high
  | .named s negated span => flags.negate negated span (flags.fold s)
  | .letter kind negated span => flags.negate negated span (kind.chars flags)
  | .property query negated span => do
    let s ← resolveProperty flags query span
    flags.negate negated span (flags.fold s)
  | .bracketed body negated span => do
    let s ← body.resolve flags
    flags.negate negated span (flags.fold s)

/-- The characters of what stands in brackets. -/
def ClassBody.resolve (flags : Flags) : ClassBody → Resolved CharSet
  | .members list _ => resolveMembers flags list
  | .operation op left right _ => do
    let left ← left.resolve flags
    let right ← right.resolve flags
    return op.apply (flags.fold left) (flags.fold right)

/-- The characters of any of some sets. -/
def resolveMembers (flags : Flags) : List Member → Resolved CharSet
  | [] => .ok .empty
  | m :: rest => do
    let s ← m.resolve flags
    return s.union (← resolveMembers flags rest)

end

/-! ## Parts -/

/-- The characters that a literal stands for. -/
def Literal.chars (flags : Flags) (l : Literal) : Resolved CharSet := do
  let c ← l.resolve flags
  if !flags.caseless then return .single c
  else if flags.unicode then return Unicode.caseVariants c
  else return Unicode.foldAscii (.single c)

/-- The characters that a point stands for. -/
def resolveDot (flags : Flags) (span : Span) : Resolved CharSet :=
  if !flags.unicode then complain .invalidBytes span
  else if flags.dotAll then .ok .all
  else if flags.returnLines then .ok (CharSet.ofText "A D").complement
  else .ok (CharSet.single '\n').complement

mutual

/-- The tree of a part. -/
def Form.resolve : Form → Resolved Tree
  | .empty | .flags => .ok (.sequence [])
  | .literal flags l => do return .char (← l.chars flags)
  | .dot flags span => do return .char (← resolveDot flags span)
  | .look look => .ok (.look look)
  | .set flags member => do return .char (← member.resolve flags)
  | .repeated body least most greedy _ => do return (← body.resolve).times least most greedy
  | .group none body _ => body.resolve
  | .group (some index) body _ => do return .group index (← body.resolve)
  | .sequence parts _ => do return .sequence (← resolveForms parts)
  | .choice branches _ => do return .choice (← resolveForms branches)

/-- The trees of some parts. -/
def resolveForms : List Form → Resolved (List Tree)
  | [] => .ok []
  | form :: rest => do
    let t ← form.resolve
    return t :: (← resolveForms rest)

end

end TickScript.Pattern
