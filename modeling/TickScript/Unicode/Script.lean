-- Scripts: the characters that each script uses, and those of other scripts that it borrows.
import TickScript.Unicode.Category

namespace TickScript.Unicode

/-- A script. -/
structure Script where
  /-- Its names, in small letters and without blanks and dashes. -/
  names : List String
  /-- The characters that belong to it, as text. There is none for the common script, which has all
  that no other one has. -/
  own : String
  /-- The characters that it shares with other scripts, as text. -/
  shared : String := ""

namespace Script

def all : List Script := [
  ⟨["adlam", "adlm"], "1E900-4B 50-9 E-F", "61F 40 204F E41"⟩,
  ⟨["ahom"], "11700-1A D-2B 30-46", ""⟩,
  ⟨["anatolianhieroglyphs", "hluw"], "14400-646", ""⟩,
  ⟨["arabic", "arab"],
    "600-4 6-B D-1A C-E 20-3F 41-A 56-6F 71-DC E-FF 750-7F 870-8E 90-1 7-E1 3-FF FB50-C2 D3-D3D
    40-8F 92-C7 F F0-F E70-4 6-FC 10E60-7E C2-4 FC-F EE00-3 5-1F 21-2 4 7 9-32 4-7 9 B 42 7:B D-F
    51-2 4 7:F 61-2 4 7-A C-72 4-7 9-C E 80-9 B-9B A1-3 5-9 B-BB F0-1",
    "60C 1B F 40 B-55 70 204F E41 FD3E-F 102E0-FB"⟩,
  ⟨["armenian", "armn"], "531-56 9-8A D-F FB13-7", "308"⟩,
  ⟨["avestan", "avst"], "10B00-35 9-F", "B7 2E30-1"⟩,
  ⟨["balinese", "bali"], "1B00-4C E-7F", ""⟩,
  ⟨["bamum", "bamu"], "A6A0-F7 16800-A38", ""⟩,
  ⟨["bassavah", "bass"], "16AD0-ED F0-5", ""⟩,
  ⟨["batak", "batk"], "1BC0-F3 C-F", ""⟩,
  ⟨["bengali", "beng"], "980-3 5-C F-90 3-A8 A-B0 2 6-9 C-C4 7-8 B-E D7 C-D F-E3 6-FE",
    "2BC 951-2 64-5 1CD0 2 5-6 8 E1 A D F2 5-7 A8F1"⟩,
  ⟨["bhaiksuki", "bhks"], "11C00-8 A-36 8-45 50-6C", ""⟩,
  ⟨["bopomofo", "bopo"], "2EA-B 3105-2F A0-BF",
    "2C7 9-B D9 3001-3 8-11 3-F 2A-D 30 7 FB FE45-6 F61-5"⟩,
  ⟨["brahmi", "brah"], "11000-4D 52-75 F", ""⟩,
  ⟨["braille", "brai"], "2800-FF", ""⟩,
  ⟨["buginese", "bugi"], "1A00-1B E-F", "A9CF"⟩,
  ⟨["buhid", "buhd"], "1740-53", "1735-6"⟩,
  ⟨["canadianaboriginal", "cans"], "1400-67F 8B0-F5 11AB0-F", ""⟩,
  ⟨["carian", "cari"], "102A0-D0", "B7 205A D E31"⟩,
  ⟨["caucasianalbanian", "aghb"], "10530-63 F", "304 31 5E"⟩,
  ⟨["chakma", "cakm"], "11100-34 6-47", "9E6-F 1040-9"⟩,
  ⟨["cham"], "AA00-36 40-D 50-9 C-F", ""⟩,
  ⟨["cherokee", "cher"], "13A0-F5 8-D AB70-BF", "300-2 4 B-C 23-4 30-1"⟩,
  ⟨["chorasmian", "chrs"], "10FB0-CB", ""⟩,
  ⟨["common", "zyyy"], "", ""⟩,
  ⟨["coptic", "copt", "qaac"], "3E2-F 2C80-F3 9-F", "B7 300 4-5 7 74-5 2E17 102E0-FB"⟩,
  ⟨["cuneiform", "xsux"], "12000-399 400-6E 70-4 80-543", ""⟩,
  ⟨["cypriot", "cprt"], "10800-5 8 A-35 7-8 C F", "10100-2 7-33 7-F"⟩,
  ⟨["cyprominoan", "cpmn"], "12F90-F2", "10100-1"⟩,
  ⟨["cyrillic", "cyrl"], "400-84 7-52F 1C80-A D2B 78 2DE0-FF A640-9F FE2E-F 1E030-6D 8F",
    "2BC 300-2 4:8 B 11 485-6 1DF8 2E43"⟩,
  ⟨["deseret", "dsrt"], "10400-4F", ""⟩,
  ⟨["devanagari", "deva"], "900-50 5-63 6-7F A8E0-FF 11B00-9",
    "2BC 951-2 64-5 1CD0-F6 8-9 20F0 A830-9"⟩,
  ⟨["divesakuru", "diak"], "11900-6 9 C-13 5-6 8-35 7-8 B-46 50-9", ""⟩,
  ⟨["dogra", "dogr"], "11800-3B", "964-F A830-9"⟩,
  ⟨["duployan", "dupl"], "1BC00-6A 70-C 80-8 90-9 C-F", "B7 307-8 A 23-4 2E3C 1BCA0-3"⟩,
  ⟨["egyptianhieroglyphs", "egyp"], "13000-455 60-43FA", ""⟩,
  ⟨["elbasan", "elba"], "10500-27", "B7 305"⟩,
  ⟨["elymaic", "elym"], "10FE0-F6", ""⟩,
  ⟨["ethiopic", "ethi"],
    "1200-48 A-D 50-6 8 A-D 60-88 A-D 90-B0 2-5 8-E C0 2-5 8-D6 8-310 2-5 8-5A D-7C 80-99 2D80-96
    A0-6 8-E B0-6 8-E C0-6 8-E D0-6 8-E AB01-6 9-E 11-6 20-6 8-E 1E7E0-6 8-B D-E F0-E",
    "30E"⟩,
  ⟨["garay", "gara"], "10D40-65 9-85 E-F", "60C 1B F"⟩,
  ⟨["georgian", "geor"], "10A0-C5 7 D D0-FA C-F C90-BA D-F 2D00-25 7 D", "B7 589 10FB 205A E31"⟩,
  ⟨["glagolitic", "glag"], "2C00-5F 1E000-6 8-18 B-21 3-4 6-A",
    "B7 303 5 484 7 589 10FB 205A E43 A66F"⟩,
  ⟨["gothic", "goth"], "10330-4A", "B7 304-5 8 31"⟩,
  ⟨["grantha", "gran"], "11300-3 5-C F-10 3-28 A-30 2-3 5-9 C-44 7-8 B-D 50 7 D-63 6-C 70-4",
    "951-2 64-5 BE6-F3 1CD0 2-3 F2-4 8-9 20F0 1133B FD0-1 3"⟩,
  ⟨["greek", "grek"],
    "370-3 5-7 A-D F 84 6 8-A C E-A1 3-E1 F0-F 1D26-A 5D-61 6-A BF F00-15 8-D 20-45 8-D 50-7 9:D
    F-7D 80-B4 6-C4 6-D3 6-B D-EF F2-4 6-E 2126 AB65 10140-8E A0 D200-45",
    "B7 300-1 4:8 13 42 5 74 1DC0-1 205D"⟩,
  ⟨["gujarati", "gujr"], "A81-3 5-D F-91 3-A8 A-B0 2-3 5-9 C-C5 7-9 B-D D0 E0-3 6-F1 9-F",
    "951-2 64-5 A830-9"⟩,
  ⟨["gunjalagondi", "gong"], "11D60-5 7-8 A-8E 90-1 3-8 A0-9", "B7 964-5"⟩,
  ⟨["gurmukhi", "guru"], "A01-3 5-A F-10 3-28 A-30 2-3 5-6 8-9 C E-42 7-8 B-D 51 9-C E 66-76",
    "951-2 64-5 A830-9"⟩,
  ⟨["gurungkhema", "gukh"], "16100-39", "965"⟩,
  ⟨["han", "hani"],
    "2E80-99 B-F3 F00-D5 3005 7 21-9 38-B 400-4DBF E00-9FFF F900-A6D 70-D9 16FE2-3 F0-1
    20000-A6DF 700-B739 40-81D 20-CEA1 B0-EBE0 F0-E5D F800-A1D 30000-134A 50-23AF",
    "B7 2FF0-F 3001-3 6 8-11 3-F 2A-D 30 7 C-F FB 190-F C0-E5 F 220-47 80-B0 C0-B FF 358-70 B-F
    E0-FE A700-7 FE45-6 F61-5 1D360-71 F250-1"⟩,
  ⟨["hangul", "hang"],
    "1100-FF 302E-F 131-8E 200-1E 60-7E A960-7C C00-D7A3 B0-C6 B-FB FFA0-BE C2-7 A-F D2-7 A-C",
    "3001-3 8-11 3-F 30 7 FB FE45-6 F61-5"⟩,
  ⟨["hanifirohingya", "rohg"], "10D00-27 30-9", "60C 1B F 40 D4"⟩,
  ⟨["hanunoo", "hano"], "1720-34", "1735-6"⟩,
  ⟨["hatran", "hatr"], "108E0-F2 4-5 B-F", ""⟩,
  ⟨["hebrew", "hebr"], "591-C7 D0-EA F-F4 FB1D-36 8-C E 40-1 3-4 6-F", "307-8"⟩,
  ⟨["hiragana", "hira"], "3041-96 D-F 1B001-11F 32 50-2 F200",
    "3001-3 8-11 3-F 30-5 7 C-D 99-C A0 FB-C FE45-6 F61-5 70 9E-F"⟩,
  ⟨["imperialaramaic", "armi"], "10840-55 7-F", ""⟩,
  ⟨["inherited", "zinh", "qaai"],
    "300-6F 485-6 64B-55 70 951-4 1AB0-CE CD0-2 4-E0 2-8 D F4 8-9 DC0-FF 200C-D D0-F0 302A-D 99-A
    FE00-F 20-D 101FD 2E0 133B CF00-2D 30-46 D167-9 7B-82 5-B AA-D E0100-EF",
    ""⟩,
  ⟨["inscriptionalpahlavi", "phli"], "10B60-72 8-F", ""⟩,
  ⟨["inscriptionalparthian", "prti"], "10B40-55 8-F", ""⟩,
  ⟨["javanese", "java"], "A980-CD D0-9 E-F", "A9CF"⟩,
  ⟨["kaithi", "kthi"], "11080-C2 D", "966-F 2E31 A830-9"⟩,
  ⟨["kannada", "knda"], "C80-C E-90 2-A8 A-B3 5-9 C-C4 6-8 A-D D5-6 D-E E0-3 6-F F1-3",
    "951-2 64-5 1CD0 2-3 A F2 4 A830-5"⟩,
  ⟨["katakana", "kana"],
    "30A1-FA D-F 1F0-F 2D0-FE 300-57 FF66-F 71-9D 1AFF0-3 5-B D-E B000 120-2 55 64-7",
    "305 23 3001-3 8-11 3-F 30-5 7 C-D 99-C A0 FB-C FE45-6 F61-5 70 9E-F"⟩,
  ⟨["kawi"], "11F00-10 2-3A E-5A", ""⟩,
  ⟨["kayahli", "kali"], "A900-2D F", "A92E"⟩,
  ⟨["kharoshthi", "khar"], "10A00-3 5-6 C-13 5-7 9-35 8-A F-48 50-8", ""⟩,
  ⟨["khitansmallscript", "kits"], "16FE4 8B00-CD5 FF", ""⟩,
  ⟨["khmer", "khmr"], "1780-DD E0-9 F0-9 9E0-FF", ""⟩,
  ⟨["khojki", "khoj"], "11200-11 3-41", "AE6-F A830-9"⟩,
  ⟨["khudawadi", "sind"], "112B0-EA F0-9", "964-5 A830-9"⟩,
  ⟨["kiratrai", "krai"], "16D40-79", ""⟩,
  ⟨["lao", "laoo"], "E81-2 4 6-A C-A3 5 7-BD C0-4 6 8-E D0-9 C-F", ""⟩,
  ⟨["latin", "latn"],
    "41-5A 61-7A AA BA C0-D6 8-F6 8-2B8 E0-4 1D00-25 C-5C 62-5 B-77 9-BE E00-FF 2071 F 90-C 12A-B
    32 4E 60-88 C60-7F A722-87 B-CD D0-1 3 5-C F2-F B30-5A C-64 6-9 FB00-6 F21-3A 41-5A 10780-5
    7-B0 2-A DF00-1E 25-A",
    "B7 2BC C7 9-B D D7 9 300-E 10-1 3 23-5 D-E 30-1 58 E 63-F 485-6 951-2 10FB DF8 202F F0 E17
    A700-7 92E"⟩,
  ⟨["lepcha", "lepc"], "1C00-37 B-49 D-F", ""⟩,
  ⟨["limbu", "limb"], "1900-1E 20-B 30-B 40 4-F", "965"⟩,
  ⟨["lineara", "lina"], "10600-736 40-55 60-7", "10107-33"⟩,
  ⟨["linearb", "linb"], "10000-B D-26 8-3A C-D F-4D 50-D 80-FA", "10100-2 7-33 7-F"⟩,
  ⟨["lisu"], "A4D0-FF 11FB0", "2BC CD 300A-B"⟩,
  ⟨["lycian", "lyci"], "10280-9C", "205A"⟩,
  ⟨["lydian", "lydi"], "10920-39 F", "B7 2E31"⟩,
  ⟨["mahajani", "mahj"], "11150-76", "B7 964-F A830-9"⟩,
  ⟨["makasar", "maka"], "11EE0-F8", ""⟩,
  ⟨["malayalam", "mlym"], "D00-C E-10 2-44 6-8 A-F 54-63 6-7F", "951-2 64-5 1CDA F2 A830-2"⟩,
  ⟨["mandaic", "mand"], "840-5B E", "640"⟩,
  ⟨["manichaean", "mani"], "10AC0-E6 B-F6", "640"⟩,
  ⟨["marchen", "marc"], "11C70-8F 92-A7 9-B6", ""⟩,
  ⟨["masaramgondi", "gonm"], "11D00-6 8-9 B-36 A C-D F-47 50-9", "964-5"⟩,
  ⟨["medefaidrin", "medf"], "16E40-9A", ""⟩,
  ⟨["meeteimayek", "mtei"], "AAE0-F6 BC0-ED F0-9", ""⟩,
  ⟨["mendekikakui", "mend"], "1E800-C4 7-D6", ""⟩,
  ⟨["meroiticcursive", "merc"], "109A0-B7 C-CF D2-FF", ""⟩,
  ⟨["meroitichieroglyphs", "mero"], "10980-9F", "205D"⟩,
  ⟨["miao", "plrd"], "16F00-4A F-87 F-9F", ""⟩,
  ⟨["modi"], "11600-44 50-9", "A830-9"⟩,
  ⟨["mongolian", "mong"], "1800-1 4 6-19 20-78 80-AA 11660-C", "1802-3 5 202F 3001-2 8-B"⟩,
  ⟨["mro", "mroo"], "16A40-5E 60-9 E-F", ""⟩,
  ⟨["multani", "mult"], "11280-6 8 A-D F-9D F-A9", "A66-F"⟩,
  ⟨["myanmar", "mymr"], "1000-9F A9E0-FE A60-7F 116D0-E3", "A92E"⟩,
  ⟨["nabataean", "nbat"], "10880-9E A7-F", ""⟩,
  ⟨["nagmundari", "nagm"], "1E4D0-F9", ""⟩,
  ⟨["nandinagari", "nand"], "119A0-7 A-D7 A-E4", "951 64-5 CE6-F 1CE9 F2 A A830-5"⟩,
  ⟨["newtailue", "talu"], "1980-AB B0-C9 D0-A E-F", ""⟩,
  ⟨["newa"], "11400-5B D-61", "951-2 1CD5 7-8 E2 9:D"⟩,
  ⟨["nko", "nkoo"], "7C0-FA D-F", "60C 1B F FD3E-F"⟩,
  ⟨["nushu", "nshu"], "16FE1 B170-2FB", ""⟩,
  ⟨["nyiakengpuachuehmong", "hmnp"], "1E100-2C 30-D 40-9 E-F", ""⟩,
  ⟨["ogham", "ogam"], "1680-9C", ""⟩,
  ⟨["olchiki", "olck"], "1C50-7F", ""⟩,
  ⟨["olonal", "onao"], "1E5D0-FA F", "964-5"⟩,
  ⟨["oldhungarian", "hung"], "10C80-B2 C0-F2 A-F", "205A D E31 41"⟩,
  ⟨["olditalic", "ital"], "10300-23 D-F", ""⟩,
  ⟨["oldnortharabian", "narb"], "10A80-9F", ""⟩,
  ⟨["oldpermic", "perm"], "10350-7A", "B7 300 6-8 13 483"⟩,
  ⟨["oldpersian", "xpeo"], "103A0-C3 8-D5", ""⟩,
  ⟨["oldsogdian", "sogo"], "10F00-27", ""⟩,
  ⟨["oldsoutharabian", "sarb"], "10A60-7F", ""⟩,
  ⟨["oldturkic", "orkh"], "10C00-48", "205A E30"⟩,
  ⟨["olduyghur", "ougr"], "10F70-89", "640 10AF2"⟩,
  ⟨["oriya", "orya"], "B01-3 5-C F-10 3-28 A-30 2-3 5-9 C-44 7-8 B-D 55-7 C-D F-63 6-77",
    "951-2 64-5 1CDA F2"⟩,
  ⟨["osage", "osge"], "104B0-D3 8-FB", "301 4 B 58"⟩,
  ⟨["osmanya", "osma"], "10480-9D A0-9", ""⟩,
  ⟨["pahawhhmong", "hmng"], "16B00-45 50-9 B-61 3-77 D-8F", ""⟩,
  ⟨["palmyrene", "palm"], "10860-7F", ""⟩,
  ⟨["paucinhau", "pauc"], "11AC0-F8", ""⟩,
  ⟨["phagspa", "phag"], "A840-77", "1802-3 5 202F 3002"⟩,
  ⟨["phoenician", "phnx"], "10900-1B F", ""⟩,
  ⟨["psalterpahlavi", "phlp"], "10B80-91 9-C A9-F", "640"⟩,
  ⟨["rejang", "rjng"], "A930-53 F", ""⟩,
  ⟨["runic", "runr"], "16A0-EA E-F8", "16EB-D"⟩,
  ⟨["samaritan", "samr"], "800-2D 30-E", "2E31"⟩,
  ⟨["saurashtra", "saur"], "A880-C5 E-D9", ""⟩,
  ⟨["sharada", "shrd"], "11180-DF", "951 1CD7 9 C-D E0 A D A830-5 8"⟩,
  ⟨["shavian", "shaw"], "10450-7F", "B7"⟩,
  ⟨["siddham", "sidd"], "11580-B5 8-DD", ""⟩,
  ⟨["signwriting", "sgnw"], "1D800-A8B 9B-F A1-F", ""⟩,
  ⟨["sinhala", "sinh"], "D81-3 5-96 A-B1 3-B D C0-6 A F-D4 6 8-F E6-F F2-4 111E1-F4", "964-5 1CF2"⟩,
  ⟨["sogdian", "sogd"], "10F30-59", "640"⟩,
  ⟨["sorasompeng", "sora"], "110D0-E8 F0-9", ""⟩,
  ⟨["soyombo", "soyo"], "11A50-A2", ""⟩,
  ⟨["sundanese", "sund"], "1B80-BF CC0-7", ""⟩,
  ⟨["sunuwar", "sunu"], "11BC0-E1 F0-9", "300-1 3 D 10 2D 31"⟩,
  ⟨["sylotinagri", "sylo"], "A800-2C", "964-5 E6-F"⟩,
  ⟨["syriac", "syrc"], "700-D F-4A D-F 860-A",
    "303-4 7-8 A 23-5 D-E 30-1 60C 1B-C F 40 B-55 70 1DF8 A"⟩,
  ⟨["tagalog", "tglg"], "1700-15 F", "1735-6"⟩,
  ⟨["tagbanwa", "tagb"], "1760-C E-70 2-3", "1735-6"⟩,
  ⟨["taile", "tale"], "1950-6D 70-4", "300-1 7-8 C 1040-9"⟩,
  ⟨["taitham", "lana"], "1A20-5E 60-7C F-89 90-9 A0-D", ""⟩,
  ⟨["taiviet", "tavt"], "AA80-C2 DB-F", ""⟩,
  ⟨["takri", "takr"], "11680-B9 C0-9", "964-5 A830-9"⟩,
  ⟨["tamil", "taml"],
    "B82-3 5-A E-90 2-5 9-A C E-F A3-4 8-A E-B9 E-C2 6-8 A-D D0 7 E6-FA 11FC0-F1 F",
    "951-2 64-5 1CDA A8F3 11301 3 3B-C"⟩,
  ⟨["tangsa", "tnsa"], "16A70-BE C0-9", ""⟩,
  ⟨["tangut", "tang"], "16FE0 7000-87F7 800-AFF D00-8", "2FF0-F 31EF"⟩,
  ⟨["telugu", "telu"], "C00-C E-10 2-28 A-39 C-44 6-8 A-D 55-6 8-A D 60-3 6-F 77-F",
    "951-2 64-5 1CD5-6 8 A F2"⟩,
  ⟨["thaana", "thaa"], "780-B1", "60C 1B-C F 60-9 FDF2 D"⟩,
  ⟨["thai"], "E01-3A 40-5B", "2BC D7 303 31"⟩,
  ⟨["tibetan", "tibt"], "F00-47 9-6C 71-97 9-BC E-CC E-D4 9-A", "3008-B"⟩,
  ⟨["tifinagh", "tfng"], "2D30-67 F-70 F", "302 4 6-9 23"⟩,
  ⟨["tirhuta", "tirh"], "11480-C7 D0-9", "951-2 64-5 1CD5 E2 F2 A830-9"⟩,
  ⟨["todhri", "todr"], "105C0-F3", "301 4 7 11 3 5E"⟩,
  ⟨["toto"], "1E290-AE", "2BC"⟩,
  ⟨["tulutigalari", "tutg"], "11380-9 B E 90-B5 7-C0 2 5 7-A C-D5 7-8 E1-2",
    "CE6-F 1CF2 4 A830-5 F1"⟩,
  ⟨["ugaritic", "ugar"], "10380-9D F", ""⟩,
  ⟨["vai", "vaii"], "A500-62B", ""⟩,
  ⟨["vithkuqi", "vith"], "10570-A C-8A C-92 4-5 7-A1 3-B1 3-9 B-C", ""⟩,
  ⟨["wancho", "wcho"], "1E2C0-F9 F", ""⟩,
  ⟨["warangciti", "wara"], "118A0-F2 F", ""⟩,
  ⟨["yezidi", "yezi"], "10E80-A9 B-D B0-1", "60C 1B F 60-9"⟩,
  ⟨["yi", "yiii"], "A000-48C 90-C6", "3001-2 8-11 4-B FB FF61-5"⟩,
  ⟨["zanabazarsquare", "zanb"], "11A00-47", ""⟩]

/-- The script with a name. -/
def named? (name : String) : Option Script := all.find? (·.names.contains name)

/-- These names stand for scripts, but no character is of them. -/
def isVoid (name : String) : Bool :=
  ["unknown", "zzzz", "katakanaorhiragana", "hrkt"].contains name

/-- The characters that are of no other script. -/
def common : CharSet :=
  assigned.diff (.unions (Category.privateUse.members :: all.map fun s => .ofText s.own))

/-- The characters of the script alone. -/
def members (s : Script) : CharSet :=
  if s.names.contains "common" then common else .ofText s.own

/-- The characters that some script shares with others. -/
def allShared : CharSet := .unions (all.map fun s => .ofText s.shared)

/-- The characters that are used in the script. One that several scripts share is common or
inherited no more. -/
def users (s : Script) : CharSet :=
  if s.names.contains "common" || s.names.contains "inherited" then s.members.diff allShared
  else s.members.union (.ofText s.shared)

end Script

end TickScript.Unicode
