-- Where texts may be broken: the parts that characters play in clusters, words and sentences.
import TickScript.Unicode.Property
import TickScript.Unicode.Script

namespace TickScript.Unicode

open Category

/-! ## Clusters -/

/-- The first syllable of Hangul and the last one. -/
def firstSyllable : Nat := 0xAC00

def lastSyllable : Nat := 0xD7A3

/-- The syllables of Hangul, of which each 28th has no final consonant. -/
def openSyllables : CharSet :=
  .ofRanges ((List.range ((lastSyllable - firstSyllable) / 28 + 1)).map fun i =>
    (firstSyllable + 28 * i, firstSyllable + 28 * i))

/-- Prefixes of consonants. -/
def consonantsBefore : CharSet := .ofText
  "D4E 111C2-3 3D1 93F 41 A3A 84-9 D46 F02"

/-- Marks of some width that do not belong to the cluster before them. -/
def looseMarks : CharSet := .ofText
  "102B-C 38 62-4 7-D 83 7-C F 9A-C A61 3-4 AA7B D 11720-1"

/-- The characters with a part in clusters, by the name of the part. -/
def clusterPart? : String → Option CharSet
  | "cr" => some (.single '\r')
  | "lf" => some (.single '\n')
  | "control" | "cn" =>
    some ((((anyOf [.lineSeparator, .paragraphSeparator, .control, .format]).union
      (ignorable.diff assigned)).diff graphemeExtend).diff
      (prependedMarks.union (.ofText "A D 200C-D")))
  | "extend" | "ex" => some (graphemeExtend.union emojiModifiers)
  | "prepend" | "pp" => some (prependedMarks.union consonantsBefore)
  | "spacingmark" | "sm" =>
    some (((spacing.members.union (.ofText "E33 B3")).diff graphemeExtend).diff looseMarks)
  | "l" => some (.ofText "1100-5F A960-7C")
  | "v" => some (.ofText "1160-A7 D7B0-C6 16D63 7-A")
  | "t" => some (.ofText "11A8-FF D7CB-FB")
  | "lv" => some openSyllables
  | "lvt" => some ((CharSet.ofRanges [(firstSyllable, lastSyllable)]).diff openSyllables)
  | "regionalindicator" | "ri" => some regionalIndicators
  | "zwj" => some (.ofText "200D")
  | _ => none

/-! ## Words -/

/-- The letters of scripts that do not part their words. -/
def unpartedLetters : CharSet := .ofText
  "E01-30 2-3 40-6 81-2 4 6-A C-A3 5 7-B0 2-3 D C0-4 6 DC-F 1000-2A 3F 50-5 A-D 61 5-6 E-70 5-81
  E 780-B3 D7 C 950-6D 70-4 80-AB B0-C9 A20-54 A7 A9E0-4 6-F FA-E A60-76 A E-AF B1 5-6 9-D C0 2
  DB-D 11700-1A 40-6"

/-- Signs that count as letters in words. -/
def letterSigns : CharSet := .ofText
  "2C2-5 D2-7 E-F E5-B D F-FF 55A-C E 8A F3 70F A708-16 20-1 89-A B5B"

/-- The characters of a script, by its name. -/
def ofScript (name : String) : CharSet := ((Script.named? name).map Script.members).getD .empty

/-- The marks that extend the character before them, whatever their width. -/
def extending : CharSet := graphemeExtend.union spacing.members

/-- The signs before numbers; one of those that enclose digits encloses letters. -/
def numberSigns : CharSet := prependedMarks.diff (.ofText "70F")

def katakanaLike : CharSet :=
  (ofScript "katakana").union (.ofText "3031-5 9B-C A0 FC FF70")

def hebrewLetters : CharSet := (ofScript "hebrew").inter otherLetter.members

/-- The characters with a part in words, by the name of the part. -/
def wordPart? : String → Option CharSet
  | "cr" => some (.single '\r')
  | "lf" => some (.single '\n')
  | "newline" | "nl" => some (.ofText "B-C 85 2028-9")
  | "extend" => some ((extending.union emojiModifiers).diff (.ofText "200D"))
  | "zwj" => some (.ofText "200D")
  | "regionalindicator" | "ri" => some regionalIndicators
  | "format" | "fo" =>
    some (((format.members.diff (.ofText "200B-D")).diff prependedMarks).diff graphemeExtend)
  | "katakana" | "ka" => some katakanaLike
  | "hebrewletter" | "hl" => some hebrewLetters
  | "aletter" | "le" =>
    some ((alphabetic.union letterSigns).diff (.unions [ideographs, katakanaLike, unpartedLetters,
      ofScript "hiragana", extending, emojiModifiers, hebrewLetters]))
  | "singlequote" | "sq" => some (.ofText "27")
  | "doublequote" | "dq" => some (.ofText "22")
  | "midnumlet" | "mb" => some (.ofText "2E 2018-9 24 FE52 F07 E")
  | "midletter" | "ml" => some (.ofText "3A B7 387 55F F4 2027 FE13 55 F1A")
  | "midnum" | "mn" =>
    some (.ofText "2C 3B 37E 589 60C-D 6C 7F8 2044 FE10 4 50 4 F0C 1B")
  | "numeric" | "nu" => some ((decimal.members.union (.ofText "66B")).union numberSigns)
  | "extendnumlet" | "ex" => some (connector.members.union (.ofText "202F"))
  | "wsegspace" => some (.ofText "20 1680 2000-6 8-A 5F 3000")
  | _ => none

/-! ## Sentences -/

/-- Points that may or may not end a sentence. -/
def points : CharSet := .ofText "2E 2024 FE52 F0E"

/-- The letters of Georgian, which has no capitals at the start of a sentence. -/
def georgianSmall : CharSet := .ofText "10D0-FA D-F"

def georgianCapital : CharSet := .ofText "1C90-BA D-F"

def sentenceSmall : CharSet := (lowercase.diff graphemeExtend).diff georgianSmall

def sentenceCapital : CharSet := (uppercase.union title.members).diff georgianCapital

/-- Quotation marks besides those with a category of their own. -/
def otherQuotes : CharSet := .ofText "22 7 275B-60 E00-1 6-8 B 1F676-8"

/-- The characters with a part in sentences, by the name of the part. -/
def sentencePart? : String → Option CharSet
  | "cr" => some (.single '\r')
  | "lf" => some (.single '\n')
  | "sep" | "se" => some (.ofText "85 2028-9")
  | "sp" => some (blanks.diff (.ofText "A D 85 2028-9"))
  | "extend" | "ex" => some (extending.union (.ofText "200D"))
  | "format" | "fo" =>
    some (((format.members.diff (.ofText "200C-D")).diff prependedMarks).diff graphemeExtend)
  | "lower" | "lo" => some sentenceSmall
  | "upper" | "up" => some sentenceCapital
  | "oletter" | "le" =>
    some ((alphabetic.union (.ofText "5F3 70F")).diff
      (.unions [sentenceSmall, sentenceCapital, extending]))
  | "numeric" | "nu" => some ((decimal.members.union (.ofText "66B-C")).union numberSigns)
  | "aterm" | "at" => some points
  | "sterm" | "st" => some (sentenceTerminals.diff points)
  | "scontinue" | "sc" =>
    some (.ofText
      "2C-D 3A-B 37E 55D 60C-D 7F8 1802 8 2013-4 3001 FE10-1 3-4 31-2 50-1 4-5 8 63 F0C-D 1A-B 64")
  | "close" | "cl" =>
    some (((anyOf [.opening, .closing, .initialQuote, .finalQuote]).union otherQuotes).diff
      (points.union sentenceTerminals))
  | _ => none

end TickScript.Unicode
