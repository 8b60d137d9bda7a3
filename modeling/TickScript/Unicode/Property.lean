-- Properties of characters that hold or do not hold.
import TickScript.Unicode.Category
import TickScript.Unicode.Moves

namespace TickScript.Unicode

open Category

/-! ## Case -/

/-- What counts as a capital besides the capital letters. -/
def otherUppercase : CharSet := .ofText
  "2160-F 4B6-CF 1F130-49 50-69 70-89"

/-- What counts as a small letter besides the small letters. -/
def otherLowercase : CharSet := .ofText
  "AA BA 2B0-8 C0-1 E0-4 345 7A 10FC D2C-6A 78 9B-BF 2071 F 90-C 170-F 4D0-E9 C7C-D A69C-D 770
  F2-4 8-9 B5C-F 69 10780 3-5 7-B0 2-A E030-6D"

def uppercase : CharSet := capital.members.union otherUppercase

def lowercase : CharSet := small.members.union otherLowercase

/-- The characters that have case. -/
def casedChars : CharSet := .unions [uppercase, lowercase, title.members]

/-- Punctuation within words. -/
def midWord : CharSet := .ofText
  "27 E 3A B7 387 55F F4 2018-9 24 7 FE13 52 5 F07 E 1A"

/-- The characters that a search for case skips. -/
def caseIgnorable : CharSet :=
  .union midWord
    (anyOf [.nonspacing, .enclosing, .format, .modifier, .modifierSymbol])

/-- Characters with case that are newer than the properties. -/
def newCased : CharSet := .ofText "A7CE-F D2-5 16EA0-B8 BB-D3"

/-- The characters that differ from their lower case. -/
def changesLowercased : CharSet :=
  ((CaseMove.allChars lowerMoves).union (.single 'İ')).diff newCased

/-- The characters that differ from their upper case. -/
def changesUppercased : CharSet :=
  ((CaseMove.allChars upperMoves).union
    (.ofRanges (upperExpansions.map fun row => (row.1, row.1)))).diff newCased

/-- The characters that differ from their title case: those that differ from their upper case,
unless either has a title case of its own. -/
def changesTitlecased : CharSet := changesUppercased.symmDiff (.ofText
  "1C4-5 7-8 A-B F1-2 10D0-FA D-F F88-F 98-F A8-F BC CC FC")

/-- The characters that differ from their fold, which may be several characters. -/
def changesCasefolded : CharSet :=
  ((CaseMove.allChars foldMoves).union (.ofText
    "DF 130 49 587 1E9A F80-7 90-7 A0-7 B2-4 7 C2-4 7 F2-4 7 FB00-4 6 13-7")).diff
    (.ofText "1FBE D3 E3")

/-- The characters that change their case in some way. -/
def changesCasemapped : CharSet := .unions [changesLowercased, changesUppercased, changesTitlecased]

/-- Letters whose dot makes way for an accent. -/
def softDotted : CharSet := .ofText
  "69-A 12F 249 68 9D B2 3F3 456 8 1D62 96 A4 8 E2D CB 2071 148-9 C7C 1D422-3 56-7 8A-B BE-F F2-3
  526-7 5A-B 8E-F C2-3 F6-7 62A-B 5E-F 92-3 F1A E04C-D 68"

/-! ## Letters and names -/

/-- What counts as a letter besides letters and numbers made of letters. -/
def otherAlphabetic : CharSet := .ofText
  "345 63-F 5B0-D F C1-2 4-5 7 610-A 4B-57 9-F 70 D6-C E1-4 7-8 D 711 30-F A6-B0 816-7 B-23 5-7
  9-C 97 D4-F E3-9 F0-903 3A-B E-4C E-F 55-7 62-3 81-3 BE-C4 7-8 B-C D7 E2-3 A01-3 3E-42 7-8 B-C
  51 70-1 5 81-3 BE-C5 7-9 B-C E2-3 FA-C B01-3 3E-44 7-8 B-C 56-7 62-3 82 BE-C2 6-8 A-C D7 C00-4
  3E-44 6-8 A-C 55-6 62-3 81-3 BE-C4 6-8 A-C D5-6 E2-3 F3 D00-3 3E-44 6-8 A-C 57 62-3 81-3 CF-D4
  6 8-F F2-3 E31 4-A 4D B1 4-9 B-C CD F71-83 D-97 9-BC 102B-36 8 B-E 56-9 E-60 2-4 7-D 71-4 82-D
  F 9A-D 712-3 32-3 52-3 72-3 B6-C8 885-6 A9 920-B 30-8 A17-B 55-E 61-74 BF-C0 C-E B00-4 35-43
  80-2 A1-9 C-D E7-F1 C24-36 DD3-F4 24B6-E9 DE0-FF A674-B 9E-F 802 B 23-7 80-1 B4-C3 5 FF 926-A
  47-52 80-3 B4-F E5 A29-36 43 C-D 7B-D B0 2-4 7-8 E EB-F F5 BE3-A FB1E 10376-A A01-3 5-6 C-F
  D24-7 69 EAB-C FC 1000-2 38-45 73-4 80-2 B0-8 C2 100-2 27-32 45-6 80-2 B3-F CE-F 22C-34 7 E 41
  DF-E8 300-3 3E-44 7-8 B-C 57 62-3 B8-C0 2 5 7-A C-D 435-41 3-5 B0-C1 5AF-B5 8-E DC-D 630-E 40
  AB-B5 71D-2A 82C-38 930-5 7-8 B-C 40 2 D1-7 A-F E4 A01-A 35-9 B-E 51-B 8A-97 C2F-36 8-E 92-A7
  9-B6 D31-6 A C-D F-41 3 7 8A-E 90-1 3-6 EF3-6 F00-1 3 34-A E-40 611E-2E F4F 51-87 F-92 F0-1
  BC9E E000-6 8-18 B-21 3-4 6-A 8F 947 F130-49 50-69 70-89"

def alphabetic : CharSet := .union otherAlphabetic (anyOf (.letterNumber :: letters))

/-- Controls that join characters or keep them apart. -/
def joinControl : CharSet := .ofText
  "200C-D"

/-- The characters of a word. -/
def wordChars : CharSet :=
  .unions [alphabetic, anyOf (.decimal :: .connector :: marks), joinControl]

def blanks : CharSet := .ofText
  "9-D 20 85 A0 1680 2000-A 28-9 F 5F 3000"

/-- Blanks in the notation of patterns. -/
def patternBlanks : CharSet := .ofText
  "9-D 20 85 200E-F 28-9"

/-- Signs that notations may use. -/
def patternSigns : CharSet := .ofText
  "21-F 3A-40 5B-E 60 7B-E A1-7 9 B-C E B0-1 6 B F D7 F7 2010-27 30-E 41-53 5-E 190-45F 500-775
  94-BFF E00-7F 3001-3 8-20 30 FD3E-F E45-6"

/-- What may start a name besides letters and numbers made of letters. -/
def otherIdStart : CharSet := .ofText
  "1885-6 2118 2E 309B-C"

/-- What may stand in a name besides what may start one, marks, digits and connectors. -/
def otherIdContinue : CharSet := .ofText
  "B7 387 1369-71 9DA 200C-D 30FB FF65"

/-- The characters that may start a name. -/
def idStart : CharSet :=
  ((anyOf (.letterNumber :: letters)).union otherIdStart).diff (patternBlanks.union patternSigns)

/-- The characters that may stand in a name. -/
def idContinue : CharSet :=
  ((idStart.union otherIdContinue).union
    (anyOf [.nonspacing, .spacing, .decimal, .connector])).diff (patternBlanks.union patternSigns)

/-- The starts of names that do not stay so when a name is normalized. -/
def xidStartLost : CharSet := .ofText
  "37A E33 B3 309B-C FC5E-63 DFA-B E70:E F9E-F"

/-- The characters of names that do not stay so when a name is normalized. -/
def xidContinueLost : CharSet := .ofText
  "37A 309B-C FC5E-63 DFA-B E70:E"

def xidStart : CharSet := idStart.diff xidStartLost

def xidContinue : CharSet := idContinue.diff xidContinueLost

/-- Signs of mathematics that may start a name. -/
def compatMathStart : CharSet := .ofText
  "2202 7 1E 1D6C1 DB FB 715 35 4F 6F 89 A9 C3"

/-- Signs of mathematics that may stand in a name. -/
def compatMathContinue : CharSet :=
  compatMathStart.union (.ofText "B2-3 9 2070 4-E 80-E")

/-! ## Ideographs -/

def unifiedIdeographs : CharSet := .ofText
  "3400-4DBF E00-9FFF FA0E-F 11 3-4 F 21 3-4 7-9 20000-A6DF 700-B739 40-81D 20-CEA1 B0-EBE0
  F0-E5D 30000-134A 50-23AF"

def ideographs : CharSet :=
  unifiedIdeographs.union (.ofText
    "3006-7 21-9 38-A F900-A0D 10 2 5-E 20 2 5-6 A-6D 70-D9 16FE4 7000-87F7 800-CD5 FF-D08
    B170-2FB 2F800-A1D")

def radicals : CharSet := .ofText
  "2E80-99 B-F3 F00-D5"

/-- Operators that describe an ideograph by one part. -/
def idsUnary : CharSet := .ofText
  "2FFE-F"

/-- Operators that describe an ideograph by two parts. -/
def idsBinary : CharSet := .ofText
  "2FF0-1 4-D 31EF"

/-- Operators that describe an ideograph by three parts. -/
def idsTrinary : CharSet := .ofText
  "2FF2-3"

/-! ## Clusters of characters -/

/-- What extends the character before it besides marks without width. -/
def otherGraphemeExtend : CharSet := .ofText
  "9BE D7 B3E 57 BE D7 CC0 2 7-8 A-B D5-6 D3E 57 CF DF 1715 34 B35 B D 43-4 AA F2-3 200C 302E-F
  A953 C0 FF9E-F 111C0 235 33E 4D 57 B8 C2 5 7-9 F 4B0 D 5AF 6B6 930 D F41 6FF0-1 D165-6 D-72
  E0020-7F"

/-- The characters that extend the one before them. -/
def graphemeExtend : CharSet := otherGraphemeExtend.union (anyOf [.nonspacing, .enclosing])

/-- The characters that stand by themselves. -/
def graphemeBase : CharSet :=
  (assigned.diff (anyOf [.control, .format, .privateUse, .lineSeparator, .paragraphSeparator])).diff
    graphemeExtend

/-- The characters that link two consonants. -/
def graphemeLink : CharSet := .ofText
  "94D CD A4D CD B4D CD C4D CD D3B-C 4D CA E3A BA F84 1039-A 714-5 34 D2 A60 B44 AA-B F2-3 2D7F
  A806 2C C4 953 C0 AF6 BED 10A3F 1046 70 F B9 133-4 C0 235 EA 34D CE-D0 442 C2 5BF 63F B6 72B
  839 93D-E E0 A34 47 99 C3F D44-5 97 F41-2 612F"

def variationSelectors : CharSet := .ofText
  "180B-D F FE00-F E0100-EF"

/-- Signs that enclose the digits after them. -/
def prependedMarks : CharSet := .ofText
  "600-5 DD 70F 890-1 E2 110BD CD"

def otherIgnorable : CharSet := .ofText
  "34F 115F-60 7B4-5 2065 3164 FFA0 F0-8 E0000 2-1F 80-FF 1F0-FFF"

/-- The characters that are not shown by default. -/
def ignorable : CharSet :=
  ((CharSet.unions [otherIgnorable, format.members, variationSelectors]).diff prependedMarks).diff
    (.ofText "FFF9-B 13430-40")

/-- Marks that belong to the letter below them more than others do. -/
def modifierMarks : CharSet := .ofText
  "654-5 8 DC E3 7-8 8CA-B D-F D3 F3"

/-! ## Emoji -/

def emoji : CharSet := .ofText
  "23 A 30-9 A9 E 203C 49 122 39 94-9 A9-A 31A-B 28 CF E9-F3 8-A 4C2 5AA-B B6 C0 FB-E 600-4 E 11
  4-5 8 D 20 2-3 6 A E-F 38-A 40 2 8-53 F-60 3 5-6 8 7B E-F 92-7 9 B-C A0-1 7 A-B B0-1 D-E C4-5 8
  E-F D1 3-4 E9-A F0-5 7-A D 702 5 8-D F 12:6 D 21 8 33-4 44 7 C E 53-5 7 63-4 95-7 A1 B0 F 934-5
  B05-7 1B-C 50 5 3030 D 297 9 1F004 CF 170-1 E-F 8E 91-A E6-FF 201-2 1A 2F 32-A 50-1 300-21 4-93
  6-7 9-B E-F0 3-5 7-4FD F-53D 49-E 50-67 F-70 3-A 87 A-D 90 5-6 A4-5 8 B1-2 C C2-4 D1-3 C-E E1 3
  8 F F3 A-64F 80-C5 B-D2 5-7 C-E5 9 B-C F0 3-C 7E0-B F0 90C-3A C-45 7-FF A70-C 80-9 F-C6 E-DC
  F-E9 F0-8"

/-- Emoji that are shown in colour by default. -/
def emojiPresentation : CharSet := .ofText
  "231A-B E9-C F0 3 5FD-E 614-5 48-53 7F 93 A1 A-B BD-E C4-5 E D4 EA F2-3 5 A D 705 A-B 28 4C E
  53-5 7 95-7 B0 F B1B-C 50 5 1F004 CF 18E 91-A E6-FF 201 1A 2F 32-6 8-A 50-1 300-20 D-35 7-7C
  E-93 A0-CA F-D3 E0-F0 4 8-43E 40 2-FC F-53D 4B-E 50-67 7A 95-6 A4 FB-64F 80-C5 C D0-2 5-7 C-F
  EB-C F4-C 7E0-B F0 90C-3A C-45 7-FF A70-C 80-9 F-C6 E-DC F-E9 F0-8"

def emojiModifiers : CharSet := .ofText
  "1F3FB-F"

def emojiModifierBases : CharSet := .ofText
  "261D F9 70A-D 1F385 C2-4 7 A-C 442-3 6-50 66-78 C 81-3 5-7 F 91 AA 574-5 A 90 5-6 645-7 B-F A3
  B4-6 C0 C 90C F 18-F 26 30-9 C-E 77 B5-6 8-9 B CD-F D1-D AC3-5 F0-8"

def emojiComponents : CharSet := .ofText
  "23 A 30-9 200D E3 FE0F 1F1E6-FF 3FB-F 9B0-3 E0020-7F"

/-- Emoji and the places kept for them. -/
def pictographs : CharSet := .ofText
  "A9 E 203C 49 122 39 94-9 A9-A 31A-B 28 88 CF E9-F3 8-A 4C2 5AA-B B6 C0 FB-E 600-5 7-12 4-85
  90-705 8-12 4 6 D 21 8 33-4 44 7 C E 53-5 7 63-7 95-7 A1 B0 F 934-5 B05-7 1B-C 50 5 3030 D 297
  9 1F000-FF 10D-F 2F 6C-71 E-F 8E 91-A AD-E5 201-F 1A 2F 32-A C-F 49-3FA 400-53D 46-64F 80-FF
  774-F D5-FF 80C-F 48-F 5A-F 88-F AE-FF 90C-3A C-45 7-AFF C00-FFD"

def regionalIndicators : CharSet := .ofText
  "1F1E6-FF"

/-! ## Signs -/

def otherMath : CharSet := .ofText
  "5E 3D0-2 5 F0-1 4-5 2016 32-4 40 61-4 7D-E 8D-E D0-C E1 5-6 B-F 102 7 A-13 5 9-D 24 8-9 C-D
  F-31 3-8 C-F 45-9 95-9 C-F A1-2 4-5 7 9-D B0-1 6-7 C-CD D0-1 3 5-B D E4-5 308-B B4-5 7 D0 E2
  5A0-1 E-B6 C-C0 6-7 A-B F-D3 E2 4 7-C 605-6 40 2 60-3 D-E 7C5-6 E6-F 983-98 D8-B FC-D FE61 3 8
  F3C E 1D400-54 6-9C E-F A2 5-6 9-C E-B9 B D-C3 5-505 7-A D-14 6-C E-39 B-E 40-4 6 A-50 2-6A5
  8-C0 2-DA C-FA C-714 6-34 6-4E 50-6E 70-88 A-A8 A-C2 4-B E-FF EE00-3 5-1F 21-2 4 7 9-32 4-7 9 B
  42 7:B D-F 51-2 4 7:F 61-2 4 7-A C-72 4-7 9-C E 80-9 B-9B A1-3 5-9 B-BB"

def mathChars : CharSet := math.members.union otherMath

def dashes : CharSet := .ofText
  "2D 58A BE 1400 806 2010-5 53 7B 8B 212 E17 A 3A-B 40 5D 301C 30 A0 FE31-2 58 63 F0D 10D6E EAD"

def hyphens : CharSet := .ofText
  "2D AD 58A 1806 2010-1 E17 30FB FE63 F0D 65"

def quotationMarks : CharSet := .ofText
  "22 7 AB BB 2018-F 39-A E42 300C-F 1D-F FE41-4 F02 7 62-3"

def terminalPunctuation : CharSet := .ofText
  "21 C E 3A-B F 37E 87 589 C3 60C 1B D-F D4 700-A C F8-9 830-5 7-E 5E 964-5 E5A-B F08 D-12
  104A-B 361-8 66E EB-D 735-6 D4-6 A 802-5 8-9 944-5 AA8-B B4E-F 5A-B D-F 7D-F C3B-F 7E-F 2024
  3C-D 47-9 CF9-B E2E 3C 41 C E-F 53-4 3001-2 A4FE-F 60D-F F3-7 876-7 CE-F 92F C7-9 A5D-F DF F0-1
  BEB FE12 5-6 50-2 4-7 F01 C E 1A-B F 61 4 1039F D0 857 91F A56-7 F0-5 B3A-F 99-C F55-9 86-9
  1047-D BE-C1 141-3 C5-6 D DE-F 238-C A9 3D4-5 44B-D 5A-B 5C2-5 9-D7 641-2 73C-E 944 6 A42-3
  9B-C A1-2 C41-3 71 EF7-8 F43-4 2470-4 6A6E-F F5 B37-9 44 D6E-F E97-8 BC9F DA87-A"

def sentenceTerminals : CharSet := .ofText
  "21 E 3F 589 61D-F D4 700-2 F9 837 9 D-E 964-5 104A-B 362 7-8 66E 735-6 D4-5 803 9 944-5 AA8-B
  B4E-F 5A-B E-F 7D-F C3B-C 7E-F 2024 3C-D 47-9 CF9-B E2E 3C 53-4 3002 A4FF 60E-F F3 7 876-7 CE-F
  92F C8-9 A5D-F F0-1 BEB FE12 5-6 52 6-7 F01 E 1F 61 10A56-7 F55-9 86-9 1047-8 BE-C1 141-3 C5-6
  D DE-F 238-9 B-C A9 3D4-5 44B-C 5C2-3 9-D7 641-2 73C-E 944 6 A42-3 9B-C C41-2 EF7-8 F43-4
  6A6E-F F5 B37-8 44 D6E-F E98 BC9F DA88"

def diacritics : CharSet := .ofText
  "5E 60 A8 F B4 7-8 2B0-34E 50-7 D-62 74-5 A 84-5 483-7 559 91-BD F C1-2 4-5 7 64B-52 7-8 DF-E0
  5-6 A-C 730-4A A6-B0 EB-F5 818-9 98-F C9-D2 E3-FE 93C 4D 51-4 71 BC CD A3C 4D BC CD FD-F B3C 4D
  55 CD C3C 4D BC CD D3B-C 4D CA E3A 47-C E BA C8-C F18-9 35:9 E-F 82-4 6-7 C6 1037 9-A 63-4 9-D
  87-D F 9A-B 35D-F 714-5 34 C9-D3 D 939-B A60 75-C F B0-E C1-B B34 44 6B-73 AA-B E6 F2-3 C36-7
  78-D D0-E8 D F4 7-9 D2C-6A 9B-BE C4-F F5-F FBD F-C1 D-F DD-F ED-F FD-E 2CEF-F1 E2F 302A-F 99-C
  FC A66F 7C-D F 9C-D F0-1 700-21 88-A F8-9 806 2C C4 E0-F1 92B-E 53 B3 C0 E5 A7B-D BF-C2 F6
  B5B-F 69-B EC-D FB1E E20-F F3E 40 70 9E-F E3 102E0 780-5 7-B0 2-A A38-A F E5-6 D22-7 4E 69-D
  EFD-F F46-50 82-5 1046 70 B9-A 133-4 73 C0 A-C 235-6 E9-A 33B-C 4D 66-C 70-4 CE-D0 2-3 E1-2 442
  6 C2-3 5BF-C0 63F B6-7 72B 839-A 93D-E 43 E0 A34 47 99 C3F D42 4-5 97 F41-2 5A 3447-55 612F
  AF0-4 B30-6 D6B-C F8F-9F F0-1 AFF0-3 5-B D-E CF00-2D 30-46 D167-9 D-72 B-82 5-B AA-D E030-6D
  130-6 2AE EC-F 5EE-F 8D0-6 944-6 8-A"

def extenders : CharSet := .ofText
  "B7 2D0-1 640 7FA A71 FB B55 E46 C6 180A 43 AA7 C36 7B 3005 31-5 9D-E FC-E A015 60C 9CF E6 A70
  DD F3-4 FF70 10781-2 D4E 6A F 1237 35D D2-3 5C6-8 A98 6B42-3 FE0-1 3 E13C-D 5EF 944-6"

def hexDigits : CharSet := .ofText
  "30-9 41-6 61-6 FF10-9 21-6 41-6"

def asciiHexDigits : CharSet := .ofText
  "30-9 41-6 61-6"

/-! ## Others -/

def bidiControls : CharSet := .ofText
  "61C 200E-F 2A-E 66-9"

/-- The signs that are turned round in texts from right to left. -/
def bidiTurned : CharSet := .ofText
  "28-9 3C E 5B D 7B D AB BB F3A-D 169B-C 2039-A 45-6 7D-E 8D-E 140 201-4 8-D 11 5-6 A-D F-22 4 6
  B-33 9 B-4C 52-5 F-60 2 4-B D-8C F-92 8 A2-3 6-B8 E-F C9-D D0-1 6-ED F0-F 308-B 20-1 9-A 768-75
  C0 3-6 8-9 B-D D3-6 C-E E2-F 983-98 B-A0 2-F B8 C0-5 9 E-D2 4-5 8-C E1 3-5 8-9 F4-9 C-D A0A-1C
  E-21 4 6 9 B-E 34-5 C-E 57-8 64-5 A-D F-70 3-4 9-A3 6-D F-D6 C E E2-6 C-E F3 7-B D BFE E02-5
  9-A C-D 1C-D 20-9 55-C 3008-11 4-B FE59-E 64-5 F08-9 1C E 3B D 5B D F-60 2-3 1D6DB 715 4F 89 C3"

def deprecatedChars : CharSet := .ofText
  "149 673 F77 9 17A3-4 206A-F 329-A E0001"

/-- The vowels that are written before the consonant they follow. -/
def logicalOrderExceptions : CharSet := .ofText
  "E40-4 C0-4 19B5-7 A AAB5-6 9 B-C"

def noncharacters : CharSet := .ofText
  "FDD0-EF FFE-F 1FFFE-F 2FFFE-F 3FFFE-F 4FFFE-F 5FFFE-F 6FFFE-F 7FFFE-F 8FFFE-F 9FFFE-F AFFFE-F
  BFFFE-F CFFFE-F DFFFE-F EFFFE-F FFFFE-F 10FFFE-F"

/-! ## Names -/

/-- The property with a name, given in small letters and without blanks and dashes. -/
def property? : String → Option CharSet
  | "ahex" | "asciihexdigit" => some asciiHexDigits
  | "alpha" | "alphabetic" => some alphabetic
  | "bidic" | "bidicontrol" => some bidiControls
  | "bidim" | "bidimirrored" => some bidiTurned
  | "ci" | "caseignorable" => some caseIgnorable
  | "cased" => some casedChars
  | "cwcf" | "changeswhencasefolded" => some changesCasefolded
  | "cwcm" | "changeswhencasemapped" => some changesCasemapped
  | "cwl" | "changeswhenlowercased" => some changesLowercased
  | "cwt" | "changeswhentitlecased" => some changesTitlecased
  | "cwu" | "changeswhenuppercased" => some changesUppercased
  | "dash" => some dashes
  | "di" | "defaultignorablecodepoint" => some ignorable
  | "dep" | "deprecated" => some deprecatedChars
  | "dia" | "diacritic" => some diacritics
  | "emoji" => some emoji
  | "ecomp" | "emojicomponent" => some emojiComponents
  | "emod" | "emojimodifier" => some emojiModifiers
  | "ebase" | "emojimodifierbase" => some emojiModifierBases
  | "epres" | "emojipresentation" => some emojiPresentation
  | "extpict" | "extendedpictographic" => some pictographs
  | "ext" | "extender" => some extenders
  | "grbase" | "graphemebase" => some graphemeBase
  | "grext" | "graphemeextend" => some graphemeExtend
  | "grlink" | "graphemelink" => some graphemeLink
  | "hex" | "hexdigit" => some hexDigits
  | "hyphen" => some hyphens
  | "idsb" | "idsbinaryoperator" => some idsBinary
  | "idst" | "idstrinaryoperator" => some idsTrinary
  | "idsu" | "idsunaryoperator" => some idsUnary
  | "idcompatmathcontinue" => some compatMathContinue
  | "idcompatmathstart" => some compatMathStart
  | "idc" | "idcontinue" => some idContinue
  | "ids" | "idstart" => some idStart
  | "ideo" | "ideographic" => some ideographs
  | "joinc" | "joincontrol" => some joinControl
  | "loe" | "logicalorderexception" => some logicalOrderExceptions
  | "lower" | "lowercase" => some lowercase
  | "math" => some mathChars
  | "mcm" | "modifiercombiningmark" => some modifierMarks
  | "nchar" | "noncharactercodepoint" => some noncharacters
  | "oalpha" | "otheralphabetic" => some otherAlphabetic
  | "odi" | "otherdefaultignorablecodepoint" => some otherIgnorable
  | "ogrext" | "othergraphemeextend" => some otherGraphemeExtend
  | "oidc" | "otheridcontinue" => some otherIdContinue
  | "oids" | "otheridstart" => some otherIdStart
  | "olower" | "otherlowercase" => some otherLowercase
  | "omath" | "othermath" => some otherMath
  | "oupper" | "otheruppercase" => some otherUppercase
  | "patsyn" | "patternsyntax" => some patternSigns
  | "patws" | "patternwhitespace" => some patternBlanks
  | "pcm" | "prependedconcatenationmark" => some prependedMarks
  | "qmark" | "quotationmark" => some quotationMarks
  | "radical" => some radicals
  | "ri" | "regionalindicator" => some regionalIndicators
  | "sd" | "softdotted" => some softDotted
  | "sterm" | "sentenceterminal" => some sentenceTerminals
  | "term" | "terminalpunctuation" => some terminalPunctuation
  | "uideo" | "unifiedideograph" => some unifiedIdeographs
  | "upper" | "uppercase" => some uppercase
  | "vs" | "variationselector" => some variationSelectors
  | "wspace" | "whitespace" | "space" => some blanks
  | "xidc" | "xidcontinue" => some xidContinue
  | "xids" | "xidstart" => some xidStart
  | _ => none

/-- The names of the properties that are more than true or false, or that say nothing here. -/
def otherPropertyNames : List String := [
  "age", "blk", "block", "sc", "script", "scx", "scriptextensions", "gc", "generalcategory", "gcb",
  "graphemeclusterbreak", "wb", "wordbreak", "sb", "sentencebreak", "bc", "bidiclass", "bpt",
  "bidipairedbrackettype", "ccc", "canonicalcombiningclass", "dt", "decompositiontype", "ea",
  "eastasianwidth", "hst", "hangulsyllabletype", "incb", "indicconjunctbreak", "inpc",
  "indicpositionalcategory", "insc", "indicsyllabiccategory", "jg", "joininggroup", "jt",
  "joiningtype", "lb", "linebreak", "nfcqc", "nfcquickcheck", "nfdqc", "nfdquickcheck", "nfkcqc",
  "nfkcquickcheck", "nfkdqc", "nfkdquickcheck", "nt", "numerictype", "vo", "verticalorientation",
  "cjkaccountingnumeric", "kaccountingnumeric", "cjkothernumeric", "kothernumeric",
  "cjkprimarynumeric", "kprimarynumeric", "nv", "numericvalue", "cf", "casefolding",
  "cjkcompatibilityvariant", "kcompatibilityvariant", "dm", "decompositionmapping", "fcnfkc",
  "fcnfkcclosure", "lc", "lowercasemapping", "nfkccf", "nfkccasefold", "nfkcscf",
  "nfkcsimplecasefold", "scf", "simplecasefolding", "sfc", "slc", "simplelowercasemapping", "stc",
  "simpletitlecasemapping", "suc", "simpleuppercasemapping", "tc", "titlecasemapping", "uc",
  "uppercasemapping", "bmg", "bidimirroringglyph", "bpb", "bidipairedbracket", "cjkiicore",
  "kiicore", "cjkirggsource", "kirggsource", "cjkirghsource", "kirghsource", "cjkirgjsource",
  "kirgjsource", "cjkirgkpsource", "kirgkpsource", "cjkirgksource", "kirgksource", "cjkirgmsource",
  "kirgmsource", "cjkirgssource", "kirgssource", "cjkirgtsource", "kirgtsource", "cjkirguksource",
  "kirguksource", "cjkirgusource", "kirgusource", "cjkirgvsource", "kirgvsource", "cjkmandarin",
  "kmandarin", "cjkrsunicode", "krsunicode", "unicoderadicalstroke", "urs", "cjktotalstrokes",
  "ktotalstrokes", "cjkunihancore2020", "kunihancore2020", "equideo", "equivalentunifiedideograph",
  "isc", "isocomment", "jsn", "jamoshortname", "kehcat", "kehdesc", "kehhg", "kehifao", "kehjsesh",
  "kehnomirror", "kehnorotate", "na", "name", "na1", "unicode1name", "namealias", "ce",
  "compositionexclusion", "compex", "fullcompositionexclusion", "cwkcf",
  "changeswhennfkccasefolded", "xonfc", "expandsonnfc", "xonfd", "expandsonnfd", "xonfkc",
  "expandsonnfkc", "xonfkd", "expandsonnfkd"]

/-- A property of characters goes by the name. -/
def isPropertyName (name : String) : Bool :=
  (property? name).isSome || otherPropertyNames.contains name

end TickScript.Unicode
