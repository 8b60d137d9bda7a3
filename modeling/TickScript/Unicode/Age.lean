-- Ages: since which version of Unicode a character has been there.
import TickScript.Unicode.Property

namespace TickScript.Unicode

/-- A version of Unicode. -/
structure Version where
  /-- Its names, in small letters and without blanks and dashes. -/
  names : List String
  /-- The characters that are new in it, as text. There is none for the oldest version, which has
  all that no later one adds. -/
  added : String

namespace Version

/-- The versions, the oldest first. -/
def all : List Version := [
  ⟨["1.1", "v11"], ""⟩,
  ⟨["2.0", "v20"],
    "591-A1 3-F C4 F00-47 9-69 71-8B 90-5 7 9-AD B1-7 9 1E9B 20AB AC00-D7A3 1FFFE-F 2FFFE-F
    3FFFE-F 4FFFE-F 5FFFE-F 6FFFE-F 7FFFE-F 8FFFE-F 9FFFE-F AFFFE-F BFFFE-F CFFFE-F DFFFE-F
    EFFFE-10FFFF"⟩,
  ⟨["2.1", "v21"], "20AC FFFC"⟩,
  ⟨["3.0", "v30"],
    "1F6-9 218-F 22-33 A9-D DF EA-E 346-E 62 D7 B:E1 400 D 50 D 88-9 C-F EC-D 58A 653-5 B8-9 F CF
    FA-E 700-D F-2C 30-4A 80-B0 D82-3 5-96 A-B1 3-B D C0-6 A F-D4 6 8-F F2-4 F6A 96 AE-B0 8 A-C
    E-CC F 1000-21 3-7 9-A C-32 6-9 40-59 200-6 8-46 8 A-D 50-6 8 A-D 60-86 8 A-D 90-AE B0 2-5
    8-E C0 2-5 8-E D0-6 8-EE F0-30E 10 2-5 8-E 20-46 8-5A 61-7C A0-F4 401-676 80-9C A0-F0 780-DC
    E0-9 800-E 10-9 20-77 80-A9 202F 48-D AD-F E2-3 139-A 83 EB-F3 301 7B D-9A 425-6 5F0-7 619
    70-1 800-FF E80-99 B-F3 F00-D5 F0-B 3038-A E 1A0-B7 400-4DB5 A000-48C 90-A1 4-B3 5-C0 2-4 6
    FB1D FF9-B"⟩,
  ⟨["3.1", "v31"],
    "3F4-5 FDD0-EF 10300-1E 20-3 30-4A 400-25 8-4D D000-F5 100-26 A-DD 400-54 6-9C E-F A2 5-6 9-C
    E-B9 B D-C0 2-3 5-505 7-A D-14 6-C E-39 B-E 40-4 6 A-50 2-6A3 8-7C9 E-FF 20000-A6D6 F800-A1D
    E0001 20-7F"⟩,
  ⟨["3.2", "v32"],
    "220 34F 63-F D8-9 F6 48A-B C5-6 9-A D-E 500-F 66E-F 7B1 10F7-8 700-C E-14 20-36 40-53 60-C
    E-70 2-3 2047 E-52 7 F-63 71 B0-1 E4-A 13D-4B F4-F 2F2-F 37C 9B-CE 4EB-FE 596-F F8-F 616-7
    72-D 80-9 768-75 D0-EB F0-F 900-AFF 303B-D 95-6 F-A0 FF 1F0-F 251-F B1-F A4A2-3 B4 C1 5
    FA30-6A DFC E00-F 45-6 73 F5F-60"⟩,
  ⟨["4.0", "v40"],
    "221 34-6 AE-F EF-FF 350-7 D-F F7-B 600-3 D-15 56-8 EE-F FF 72D-F 4D-F 904 BD A01 3 8C E1-3
    F1 B35 71 F3-A CBC-D 17DD F0-9 900-1C 20-B 30-B 40 4-6D 70-4 E0-FF D00-6B 2053-4 13B 3CF-D0
    4FF 614-5 8A-91 A0-1 B00-D 321D-E 50 7C-D CC-F 377-A DE-F FF 4DC0-FF FDFD E47-8 10000-B D-26
    8-3A C-D F-4D 50-D 80-FA 100-2 7-33 7-F 380-9D F 426-7 4E-9D A0-9 800-5 8 A-35 7-8 C F
    D300-56 4C1 E0100-EF"⟩,
  ⟨["4.1", "v41"],
    "237-41 358-C FC-F 4F6-7 5A2 C5-7 60B 1E 59-E 750-6D 97D CE BB6 E6 FD0-1 10F9-A C 207 47 87
    AF CF EF 30F 1F 47 5F-60 80-99 980-A9 B0-C9 D0-9 E-F A00-1B E-F D6C-C3 2055-6 8-E 90-4 B2-5
    EB 13C 4C 3D1-B 618 7E-F 92-C A2-B1 7C0-6 B0E-13 C00-2E 30-5E 80-EA F9-D25 30-65 F 80-96 A0-6
    8-E B0-6 8-E C0-6 8-E D0-6 8-E E00-17 C-D 31C0-F 27E 9FA6-BB A700-16 800-2B FA70-D9 E10-9
    10140-8A 3A0-C3 8-D5 A00-3 5-6 C-13 5-7 9-33 8-A F-47 50-8 D200-45 6A4-5"⟩,
  ⟨["5.0", "v50"],
    "242-F 37B-D 4CF FA-F 510-3 BA 7C0-FA 97B-C E-F CE2-3 F1-2 1B00-4B 50-7C DC4-A FE-F 20EC-F
    14D-E 84 3DC-E7 6B2 7C7-A B14-A 20-3 C60-C 74-7 A717-A 20-1 840-77 10900-19 F 2000-36E 400-62
    70-3 D360-71 7CA-B"⟩,
  ⟨["5.1", "v51"],
    "370-3 6-7 CF 487 514-23 606-A 16-A 3B-F 76E-7F 971-2 A51 75 B44 62-3 D0 C3D 58-9 62-3 78-F
    D3D 44 62-3 70-5 9-F F6B-C CE D2-4 1022 8 B 33-5 A-F 5A-99 E-F 8AA B80-AA E-B9 C00-37 B-49
    D-7F DCB-E6 E9C-F FA-F 2064 F0 14F 85-8 69D B3-C C0-3 7CC EC-F B1B-F 24-4C 50-4 C6D-F 71-3
    8-D DE0-FF E18-B E-30 312D D0-E3 9FBC-C3 A500-62B 40-5F 62-73 C-97 71B-F 22-8C FB-F 880-C4
    E-D9 900-53 F A00-36 40-D 50-9 C-F FE24-6 10190-B D0-FD 280-9C A0-D0 920-39 F D129 F000-2B
    30-93"⟩,
  ⟨["5.2", "v52"],
    "524-5 800-2D 30-E 900 4E 55 79-A FB FD5-8 109A-D 15A-E A3-7 FA-F 400 677-F 8B0-F5 9AA-B DA
    A20-5E 60-7C F-89 90-9 A0-D CD0-F2 DFD 20B6-8 150-2 89 3E8 69E-F BD-F C4-D F-E1 3 8-FF 757
    B55-9 C70 E-F EB-F1 E31 3244-F 9FC4-B A4D0-FF 6A0-F7 830-9 E0-FB 960-7C 80-CD F-D9 E-F A60-7B
    80-C2 DB-F BC0-ED F0-9 D7B0-C6 B-FB FA6B-D 10840-55 7-F 91A-B A60-7F B00-35 9-55 8-72 8-F
    C00-48 E60-7E 1080-C1 3000-42E F100-A 10-2E 31 D F 42 6 A-E 57 F 79 B-C F 8A-D 90 200 10-31
    40-8 2A700-B734"⟩,
  ⟨["6.0", "v60"],
    "526-7 620 5F 840-5B E 93A-B 4F 56-7 73-7 B72-7 D29 3A 4E F8C-F D9-A 135D-E BC0-F3 C-F DFC
    2095-C B9 3E9-F3 6CE E2 4-7 705 A-B 28 4C E 53-5 F-60 95-7 B0 F CE-F D70 F 31B8-A A660-1
    78D-E 90-1 A0-9 FA B01-6 9-E 11-6 20-6 8-E FBB2-C1 11000-4D 52-6F 6800-A38 B000-1 F0A0-E B1-E
    C1-F D1-F 130 2-C E 40-1 3-5 7-9 F-56 8-E 60-9 70-8 A D-E 80-9 E-F 91-A E6-FF 201-2 32-A 50-1
    300-20 30-5 7-7C 80-93 A0-C4 6-A E0-F0 400-3E 40 2-F7 9-C 500-3D 50-67 FB-F 601-10 2-4 6:A
    C-E 20-5 8-B D 30-3 5-40 5-F 80-C5 700-73 2B740-81D"⟩,
  ⟨["6.1", "v61"],
    "58F 604 8A0 2-C E4-FE AF0 EDE-F 10C7 D FD-F BAB-D BA-F CC0-7 F3-6 27CB D CF2-3 D27 D 66-7
    E32-B 9FCC A674-B 9F 792-3 AA F8-9 AE0-F6 FA2E-F 10980-B7 E-F 10D0-E8 F0-9 100-34 6-43 80-C8
    D0-9 680-B7 C0-9 6F00-44 50-7E 8F-9F EE00-3 5-1F 21-2 4 7 9-32 4-7 9 B 42 7:B D-F 51-2 4 7:F
    61-2 4 7-A C-72 4-7 9-C E 80-9 B-9B A1-3 5-9 B-BB F0-1 F16A-B 540-3 600 11 5:B F 26-7 C E-F
    34"⟩,
  ⟨["6.2", "v62"], "20BA"⟩,
  ⟨["6.3", "v63"], "61C 2066-9"⟩,
  ⟨["7.0", "v70"],
    "37F 528-F 8D-E 605 8A1 D-B2 FF 978 80 C00 34 81 D01 E6-F 16F1-8 91D-E AB0-E CF8-9 DE7-F5
    20BB-D 3F4-A 700 B4D-F 5A-73 6-95 8-B9 D-C8 A-D1 E3C-42 A698-D 794-F AB-D B0-1 F7 9E0-FE
    A7C-F B30-5F 64-5 FE27-D 1018B-C A0 2E0-FB 31F 50-7A 500-27 30-63 F 600-736 40-55 60-7 860-9E
    A7-F A80-9F C0-E6 B-F6 B80-91 9-C A9-F 107F 150-76 CD DA E1-F4 200-11 3-3D B0-EA F0-9 301-3
    5-C F-10 3-28 A-30 2-3 5-9 C-44 7-8 B-D 57 D-63 6-C 70-4 480-C7 D0-9 580-B5 8-C9 600-44 50-9
    8A0-F2 F AC0-F8 236F-98 463-E 74 6A40-5E 60-9 E-F D0-ED F0-5 B00-45 50-9 B-61 3-77 D-8F
    BC00-6A 70-C 80-8 90-9 C-A3 E800-C4 7-D6 F0BF E0-F5 10B-C 321-C 36 7D 94-F C5 B-E D4-F F1-7
    43F 41 F8 D-E 53E-F 44-A 68-79 B-A3 5-FA 641-2 50-7F C6-F E0-C F0-3 780-D4 800-B 10-47 50-9
    60-87 90-AD"⟩,
  ⟨["8.0", "v80"],
    "8B3-4 E3 AF9 C5A D5F 13F5 8-D 20BE 18A-B BEC-F 9FCD-D5 A69E 78F B2-7 8FC-D B60-3 70-BF
    FE2E-F 108E0-F2 4-5 B-F 9BC-D C0-F D2-FF C80-B2 C0-F2 A-F 11C9-C DB-F 280-6 8 A-D F-9D F-A9
    300 50 5CA-DD 700-19 D-2B 30-F 2399 480-543 4400-646 D1DE-E8 800-A8B 9B-F A1-F F32D-F 7E-F
    CF-D3 F8-F 4FF 54B-F 643-4 D0 910-8 80-4 C0 2B820-CEA1"⟩,
  ⟨["9.0", "v90"],
    "8B6-D D4-E2 C80 D4F 54-6 8-E 76-8 1C80-8 DFB 23FB-E E43-4 A7AE 8C5 1018D-E 4B0-D3 8-FB 123E
    400-59 B D 660-C C00-8 A-36 8-45 50-6C 70-8F 92-A7 9-B6 6FE0 7000-87EC 800-AF2 E000-6 8-18
    B-21 3-4 6-A 900-4A 50-9 E-F F19B-AC 23B 57A A4 6D1-2 F4-6 919-E 20-7 30 3-E 40-B 50-E 85-91"⟩,
  ⟨["10.0", "v100"],
    "860-A 9FC-D AFA-F D00 3B-C 1CF7 DF6-9 20BF 3FF BD2 E45-9 312E 9FD6-EA 1032D-F 1A00-47 50-83
    6-9C E-A2 D00-6 8-9 B-36 A C-D F-47 50-9 6FE1 B002-11E 70-2FB F260-5 6D3-4 F7-8 900-B 1F 28-F
    31-2 4C 5F-6B 92-7 D0-E6 2CEB0-EBE0"⟩,
  ⟨["11.0", "v110"],
    "560 88 EF 7FD-F 8D3 9FE A76 C04 84 1878 C90-BA D-F 2BBA-C D3-EB F0-E E4A-E 312F 9FEB-F A7AF
    B8-9 8FE-F 10A34-5 48 D00-27 30-9 F00-27 30-59 10CD 144-6 33B 45E 71A 800-3B A9D D60-5 7-8
    A-8E 90-1 3-8 A0-9 EE0-F8 6E40-9A 87ED-F1 D2E0-F3 372-8 EC71-B4 F12F 6F9 7D5-8 94D-F 6C-70
    3-6 A C-F 98-A2 B0-9 C1-2 E7-FF A60-D"⟩,
  ⟨["12.0", "v120"],
    "C77 E86 9 C E-93 8 A0 8-9 C BA 1CFA 2BC9 FF E4F A7BA-F C2-6 B66-7 10FE0-F6 145F 6B8 9A0-7
    A-D7 A-E4 A84-5 FC0-F1 F 3430-8 6F45-A F 7F-87 E2-3 87F2-7 B150-2 64-7 E100-2C 30-D 40-9 E-F
    2C0-F9 F 94B D01-3D F16C 6D5 FA 7E0-B 90D-F 3F 71 B A5-A E-F BA-F C3-A D-F A00-53 70-3 8-A
    80-2 90-5"⟩,
  ⟨["12.1", "v121"], "32FF"⟩,
  ⟨["13.0", "v130"],
    "8BE-C7 B55 D04 81 1ABF-C0 2B97 E50-2 31BB-F 4DB6-F 9FF0-C A7C7-A F5-6 82C B68-B 1019C E80-A9
    B-D B0-1 FB0-CB 1147 CE-F 45A 60-1 900-6 9 C-13 5-6 8-35 7-8 B-46 50-9 FB0 6FE4 F0-1 8AF3-CD5
    D00-8 F10D-F 6D-F AD 6D6-7 FB-C 8B0-1 90C 72 7-8 A3-4 B-D CB A74 83-6 96-A8 B0-6 C0-2 D0-6
    B00-92 4-CA F0-9 2A6D7-D 30000-134A"⟩,
  ⟨["14.0", "v140"],
    "61D 870-8E 90-1 8-F B5 C8-D2 C3C 5D DD 170D 15 F 80F AC1-E B4C 7D-E DFA 20C0 C2F 5F E53-D
    9FFD-F A7C0-1 D0-1 3 5-9 F2-4 FBC2 D40-F CF FE-F 10570-A C-8A C-92 4-5 7-A1 3-B1 3-9 B-C
    780-5 7-B0 2-A F70-89 1070-5 C2 6B9 740-6 AB0-F 2F90-F2 6A70-BE C0-9 AFF0-3 5-B D-E B11F-22
    CF00-2D 30-46 50-C3 D1E9-A F00-1E E290-AE 7E0-6 8-B D-E F0-E F6DD-F 7F0 979 CC A7B-C A9-C
    B7-A C3-5 D7-9 E0-7 F0-6 2A6DE-F B735-8"⟩,
  ⟨["15.0", "v150"],
    "CF3 ECE 10EFD-F 123F-41 B00-9 F00-10 2-3A E-59 342F 39-55 B132 55 D2C0-D3 F25-A E030-6D 8F
    4D0-F9 F6DC 774-6 B-F D9 A75-7 87-8 AD-F BB-D F CE-F DA-B E8 F7-8 2B739 31350-23AF"⟩,
  ⟨["15.1", "v151"], "2FFC-F 31EF 2EBF0-E5D"⟩,
  ⟨["16.0", "v160"],
    "897 1B4E-F 7F C89-A 2427-9 31E4-5 A7CB-D DA-C 105C0-F3 D40-65 9-85 E-F EC2-4 FC 1380-9 B E
    90-B5 7-C0 2 5 7-A C-D5 7-8 E1-2 6D0-E3 BC0-E1 F0-9 F5A 3460-43FA 6100-39 D40-79 8CFF CC00-F9
    D00-EB3 E5D0-FA F F8B2-B C0-1 A89 F BE C6 DC F E9 BCB-EF"⟩]

/-- The characters that were there in the version with a name: those of today that no later one has
added. -/
def presentIn? (name : String) : Option CharSet :=
  (all.dropWhile fun v => !v.names.contains name).tail?.map fun later =>
    (assigned.union noncharacters).diff (.unions (later.map fun v => .ofText v.added))

end Version

end TickScript.Unicode
