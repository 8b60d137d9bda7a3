-- Finding the characters that a property or one of its values names.
import TickScript.Unicode.Age
import TickScript.Unicode.Segment

namespace TickScript.Unicode

/-- What a query asks for: all that has a property, or all that has a value of it. -/
inductive Query where
  | having (name : List Char)
  | valued (name value : List Char)

/-- Why a query has no answer. -/
inductive QueryFault where
  | noProperty
  | noValue
deriving DecidableEq

/-- A name as it is compared with others: the letters small, without blanks and dashes and
without a leading `is`. Only `isc` keeps it, which is a name itself. -/
def nameKey (name : List Char) : String :=
  let small := fun cs : List Char =>
    (cs.filter fun c => c ≤ '\x7f' && c ≠ ' ' && c ≠ '_' && c ≠ '-').map Char.toLower
  match name with
  | i :: s :: rest =>
    if i.toLower = 'i' ∧ s.toLower = 's' then
      let key := String.ofList (small rest)
      if key = "c" then "isc" else key
    else String.ofList (small name)
  | name => String.ofList (small name)

/-- The answer to a query, if there is one, and else a fault. -/
def answer (fault : QueryFault) : Option CharSet → Except QueryFault CharSet
  | some s => .ok s
  | none => .error fault

/-- The names that categories and properties share are those of the categories. -/
def namesCategory (key : String) : Bool := key = "cf" || key = "sc" || key = "lc"

/-- The characters that have a property, are of a category or belong to a script. -/
def charsHaving (key : String) : Except QueryFault CharSet :=
  if isPropertyName key && !namesCategory key then answer .noProperty (property? key)
  else if Category.isVoid key || Script.isVoid key then .error .noValue
  else answer .noProperty ((Category.named? key).or ((Script.named? key).map Script.members))

/-- The characters that have a value of a property. -/
def charsValued (name value : String) : Except QueryFault CharSet :=
  match name with
  | "gc" | "generalcategory" => answer .noValue (Category.named? value)
  | "sc" | "script" => answer .noValue ((Script.named? value).map Script.members)
  | "scx" | "scriptextensions" => answer .noValue ((Script.named? value).map Script.users)
  | "age" => answer .noValue (Version.presentIn? value)
  | "gcb" | "graphemeclusterbreak" => answer .noValue (clusterPart? value)
  | "wb" | "wordbreak" => answer .noValue (wordPart? value)
  | "sb" | "sentencebreak" => answer .noValue (sentencePart? value)
  | name => .error (if isPropertyName name then .noValue else .noProperty)

/-- The characters that a query asks for. -/
def Query.chars : Query → Except QueryFault CharSet
  | .having name => charsHaving (nameKey name)
  | .valued name value => charsValued (nameKey name) (nameKey value)

end TickScript.Unicode
