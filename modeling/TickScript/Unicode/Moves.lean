-- How characters move when their case changes.
import TickScript.Text.CharSet

namespace TickScript.Unicode

/-- Characters that all move by the same distance. -/
structure CaseMove where
  shift : Int
  chars : CharSet

namespace CaseMove

/-- The code point that the move gives for `n`, if it moves `n`. -/
def image? (move : CaseMove) (n : Nat) : Option Nat :=
  if CharSet.inAscending n move.chars.ranges then some (n + move.shift).toNat else none

/-- The move that leads back. -/
def reversed (move : CaseMove) : CaseMove :=
  ⟨-move.shift, ⟨move.chars.ranges.map fun r =>
    ((r.1 + move.shift).toNat, (r.2 + move.shift).toNat)⟩⟩

/-- Moves by their distances, with the characters as text. -/
def table (rows : List (Int × String)) : List CaseMove :=
  rows.map fun row => ⟨row.1, .ofText row.2⟩

/-- All the characters that are moved. -/
def allChars (moves : List CaseMove) : CharSet := .unions (moves.map chars)

end CaseMove

/-! ## Lower case -/

/-- Characters whose lower case is a single other character. -/
def lowerMoves : List CaseMove := CaseMove.table [
  (2, "1C4 7 A F1"), (32, "41-5A C0-D6 8-E 391-A1 3-B 410-2F FF21-3A 10D50-65 18A0-BF 6E40-5F"),
  (1, "100:2E 32:6 9:47 A:76 9:D 82:4 7 B 91 8 A0:4 7 C F B3:5 8 C C5 8 B:DB E:EE F2:4 8:21E
    22:32 B 41 6:E 370:2 6 D8:EE F7 A 460:80 A:BE C1:D D0:52E 1C89 E00:94 A0:FE 2183 C60 7:B
    72 5 80:E2 B:D F2 A640:6C 80:9A 722:E 32:6E 79:B E:86 B 90:2 6:A8 B4:C2 7:9 C:DA F5"),
  (-121, "178"), (210, "181"), (206, "186"), (205, "189-A 93"), (79, "18E"), (202, "18F"),
  (203, "190"), (207, "194"), (211, "196 C"), (209, "197"), (213, "19D"), (214, "19F"),
  (218, "1A6 9 E"), (217, "1B1-2"), (219, "1B7"), (-97, "1F6"), (-56, "1F7"), (-130, "220 3FD-F"),
  (10795, "23A"), (-163, "23D"), (10792, "23E"), (-195, "243"), (69, "244"), (71, "245"),
  (116, "37F"), (38, "386"), (37, "388-A"), (64, "38C 10C80-B2"), (63, "38E-F"), (8, "3CF 13F0-5"),
  (-60, "3F4"), (-7, "3F9 1FEC"), (80, "400-F"), (15, "4C0"), (48, "531-56 2C00-2F"),
  (7264, "10A0-C5 7 D"), (38864, "13A0-EF"), (-3008, "1C90-BA D-F"), (-7615, "1E9E"),
  (-8, "1F08-F 18-D 28-F 38-F 48-D 59:F 68-F 88-F 98-F A8-F B8-9 D8-9 E8-9"), (-74, "1FBA-B"),
  (-9, "1FBC CC FC"), (-86, "1FC8-B"), (-100, "1FDA-B"), (-112, "1FEA-B"), (-128, "1FF8-9"),
  (-126, "1FFA-B"), (-7517, "2126"), (-8383, "212A"), (-8262, "212B"), (28, "2132"), (16, "2160-F"),
  (26, "24B6-CF"), (-10743, "2C62"), (-3814, "2C63"), (-10727, "2C64"), (-10780, "2C6D"),
  (-10749, "2C6E"), (-10783, "2C6F"), (-10782, "2C70"), (-10815, "2C7E-F"), (-35332, "A77D"),
  (-42280, "A78D"), (-42308, "A7AA E"), (-42319, "A7AB"), (-42315, "A7AC"), (-42305, "A7AD"),
  (-42258, "A7B0"), (-42282, "A7B1"), (-42261, "A7B2"), (928, "A7B3"), (-48, "A7C4"),
  (-42307, "A7C5"), (-35384, "A7C6"), (-42343, "A7CB"), (-42561, "A7DC"), (40, "10400-27 B0-D3"),
  (39, "10570-A C-8A C-92 4-5"), (27, "16EA0-B8"), (34, "1E900-21")]

/-- Characters whose lower case is several characters. -/
def lowerExpansions : List (Nat × List Nat) := [
  (0x130, [0x69, 0x307])]

/-! ## Upper case -/

/-- Characters whose upper case is a single other character that does not lead back to them. -/
def upperOnlyMoves : List CaseMove := CaseMove.table [
  (743, "B5"), (-232, "131"), (-300, "17F"), (-1, "1C5 8 B F2"), (84, "345"), (-31, "3C2"),
  (-62, "3D0"), (-57, "3D1"), (-47, "3D5"), (-54, "3D6"), (-86, "3F0"), (-80, "3F1"), (-96, "3F5"),
  (-6254, "1C80"), (-6253, "1C81"), (-6244, "1C82"), (-6242, "1C83-4"), (-6243, "1C85"),
  (-6236, "1C86"), (-6181, "1C87"), (35266, "1C88"), (-59, "1E9B"), (-7205, "1FBE")]

/-- Characters whose upper case is a single other character. The first move counts. -/
def upperMoves : List CaseMove := upperOnlyMoves ++ lowerMoves.map CaseMove.reversed

/-- Greek letters with a small iota below them: the first of eight that follow each other, and
the first of their capitals without it. -/
def iotaRows : List (Nat × Nat) := [
  (0x1F80, 0x1F08), (0x1F88, 0x1F08), (0x1F90, 0x1F28), (0x1F98, 0x1F28), (0x1FA0, 0x1F68),
  (0x1FA8, 0x1F68)]

/-- Characters whose upper case is several characters. An iota below a letter comes after it. -/
def upperExpansions : List (Nat × List Nat) := [
  (0xDF, [0x53, 0x53]), (0x149, [0x2BC, 0x4E]), (0x1F0, [0x4A, 0x30C]),
  (0x390, [0x399, 0x308, 0x301]), (0x3B0, [0x3A5, 0x308, 0x301]), (0x587, [0x535, 0x552]),
  (0x1E96, [0x48, 0x331]), (0x1E97, [0x54, 0x308]), (0x1E98, [0x57, 0x30A]),
  (0x1E99, [0x59, 0x30A]), (0x1E9A, [0x41, 0x2BE]), (0x1F50, [0x3A5, 0x313]),
  (0x1F52, [0x3A5, 0x313, 0x300]), (0x1F54, [0x3A5, 0x313, 0x301]), (0x1F56, [0x3A5, 0x313, 0x342]),
  (0x1FB2, [0x1FBA, 0x399]), (0x1FB3, [0x391, 0x399]), (0x1FB4, [0x386, 0x399]),
  (0x1FB6, [0x391, 0x342]), (0x1FB7, [0x391, 0x342, 0x399]), (0x1FBC, [0x391, 0x399]),
  (0x1FC2, [0x1FCA, 0x399]), (0x1FC3, [0x397, 0x399]), (0x1FC4, [0x389, 0x399]),
  (0x1FC6, [0x397, 0x342]), (0x1FC7, [0x397, 0x342, 0x399]), (0x1FCC, [0x397, 0x399]),
  (0x1FD2, [0x399, 0x308, 0x300]), (0x1FD3, [0x399, 0x308, 0x301]), (0x1FD6, [0x399, 0x342]),
  (0x1FD7, [0x399, 0x308, 0x342]), (0x1FE2, [0x3A5, 0x308, 0x300]), (0x1FE3, [0x3A5, 0x308, 0x301]),
  (0x1FE4, [0x3A1, 0x313]), (0x1FE6, [0x3A5, 0x342]), (0x1FE7, [0x3A5, 0x308, 0x342]),
  (0x1FF2, [0x1FFA, 0x399]), (0x1FF3, [0x3A9, 0x399]), (0x1FF4, [0x38F, 0x399]),
  (0x1FF6, [0x3A9, 0x342]), (0x1FF7, [0x3A9, 0x342, 0x399]), (0x1FFC, [0x3A9, 0x399]),
  (0xFB00, [0x46, 0x46]), (0xFB01, [0x46, 0x49]), (0xFB02, [0x46, 0x4C]),
  (0xFB03, [0x46, 0x46, 0x49]), (0xFB04, [0x46, 0x46, 0x4C]), (0xFB05, [0x53, 0x54]),
  (0xFB06, [0x53, 0x54]), (0xFB13, [0x544, 0x546]), (0xFB14, [0x544, 0x535]),
  (0xFB15, [0x544, 0x53B]), (0xFB16, [0x54E, 0x546]), (0xFB17, [0x544, 0x53D])] ++
  iotaRows.flatMap fun row => (List.range 8).map fun i => (row.1 + i, [row.2 + i, 0x399])

/-! ## Folds -/

/-- Characters whose fold is another character than their lower case, and some that have no lower
case. -/
def foldOnlyMoves : List CaseMove := CaseMove.table [
  (775, "B5"), (-268, "17F"), (116, "345"), (1, "3C2 FB05"), (-30, "3D0"), (-25, "3D1"),
  (-15, "3D5"), (-22, "3D6"), (-54, "3F0"), (-48, "3F1"), (-64, "3F5"), (-8, "13F8-D"),
  (-6222, "1C80"), (-6221, "1C81"), (-6212, "1C82"), (-6210, "1C83-4"), (-6211, "1C85"),
  (-6204, "1C86"), (-6180, "1C87"), (35267, "1C88"), (-58, "1E9B"), (-7173, "1FBE"),
  (-7235, "1FD3"), (-7219, "1FE3"), (-38864, "AB70-BF")]

/-- Characters that fold to themselves, or that are newer than the folds, but have a lower case. -/
def unfolded : CharSet := .ofText "13A0-F5 A7CE D2:4 16EA0-B8"

/-- Characters whose fold is another character. -/
def foldMoves : List CaseMove :=
  foldOnlyMoves ++ lowerMoves.map fun move => { move with chars := move.chars.diff unfolded }

end TickScript.Unicode
