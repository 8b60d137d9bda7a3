-- The lines of the console and the commands that they ask for. Every command that a line can ask
-- for has a spelling of its own, which is read as this command again.
import TickScript.Proofs.Invocation
import TickScript.Proofs.Spellings

namespace TickScript

open TickScript.Text

variable {c : Command} {cs rest : List Char} {n most ticks : Nat} {i : Int} {count : Option Nat}
  {word line code : String}

/-! ## Trimming and words -/

theorem isBlank_of_head?_dropWhile (cs : List Char) {c : Char}
    (h : c ∈ (cs.dropWhile isBlank).head?) : isBlank c = false := by
  have hhead := List.head?_dropWhile_not isBlank cs
  rwa [Option.mem_def.mp h] at hhead

/-- What is left after trimming is trimmed. -/
theorem trimmed_trimChars (cs : List Char) : Trimmed (trimChars cs) := by
  obtain ⟨after, hafter⟩ : trimChars cs <+: cs.dropWhile isBlank := by
    rw [← List.reverse_suffix, trimChars, List.reverse_reverse]
    exact List.dropWhile_suffix isBlank
  constructor
  · intro c hc
    apply isBlank_of_head?_dropWhile cs
    rw [← hafter, List.head?_append, Option.mem_def.mp hc]
    rfl
  · intro c hc
    rw [trimChars, List.getLast?_reverse] at hc
    exact isBlank_of_head?_dropWhile _ hc

/-- Of blanks nothing is left. -/
theorem isBlank_of_trimChars_nil (h : trimChars cs = []) : ∀ c ∈ cs, isBlank c = true := by
  obtain ⟨before, after, hcs, hbefore, hafter⟩ := surrounds_trimChars (String.ofList cs)
  rw [String.toList_ofList, h, List.nil_append] at hcs
  rw [hcs]
  exact List.forall_mem_append.mpr ⟨hbefore, hafter⟩

theorem trimmed_nil : Trimmed [] := trimmed_of_not_blank (List.forall_mem_nil _)

theorem not_mem_of_cutAt?_none {p : Char → Bool} (h : cutAt? p cs = none) :
    ∀ c ∈ cs, p c = false := by
  induction cs with
  | nil => exact List.forall_mem_nil _
  | cons c cs ih =>
    unfold cutAt? at h
    split at h
    · cases h
    · rename_i hc
      exact List.forall_mem_cons.mpr ⟨Bool.eq_false_iff.mpr hc, ih (Option.map_eq_none_iff.mp h)⟩

/-- A text is its first word and, after a break, what follows it. -/
theorem splitWord_cases (cs : List Char) :
    (∀ c ∈ (splitWord cs).1, isWordBreak c = false) ∧ Trimmed (splitWord cs).2 ∧
      (splitWord cs = (cs, []) ∨ ∃ c after, isWordBreak c = true ∧
        cs = (splitWord cs).1 ++ c :: after ∧ (splitWord cs).2 = trimChars after) := by
  unfold splitWord
  cases hcut : cutAt? isWordBreak cs with
  | none => exact ⟨not_mem_of_cutAt?_none hcut, trimmed_nil, Or.inl rfl⟩
  | some parts =>
    obtain ⟨word, after⟩ := parts
    obtain ⟨hword, c, hc, hcs⟩ := cutAt?_append hcut
    exact ⟨hword, trimmed_trimChars after, Or.inr ⟨c, after, hc, hcs.symm, rfl⟩⟩

/-! ## Decimals -/

theorem isDigit_of_mem_toDigits {c : Char} (h : c ∈ Nat.toDigits 10 n) : c.isDigit = true :=
  Nat.isDigit_of_mem_toDigits (by decide) (by decide) h

theorem readDigits?_toDigits (n : Nat) : readDigits? (Nat.toDigits 10 n) = some n := by
  rw [Number.readDigits?_of_isDigit Nat.toDigits_ne_nil fun c hc => isDigit_of_mem_toDigits hc]
  exact congrArg some Nat.ofDigitChars_ten_toDigits

theorem head?_toDigits_ne {c : Char} (hc : c.isDigit = false) :
    (Nat.toDigits 10 n).head? ≠ some c := by
  intro h
  rw [isDigit_of_mem_toDigits (List.mem_of_head? h)] at hc
  cases hc

theorem readNat?_eq (h : cs.head? ≠ some '+') :
    readNat? most cs = (readDigits? cs).filter (· ≤ most) := by
  unfold readNat?
  split
  · exact absurd rfl h
  · rfl

theorem readNat?_toDigits (h : n ≤ most) : readNat? most (Nat.toDigits 10 n) = some n := by
  rw [readNat?_eq (head?_toDigits_ne (by decide)), readDigits?_toDigits, Option.filter_some]
  exact if_pos (decide_eq_true h)

theorem le_of_readNat? (h : readNat? most cs = some n) : n ≤ most := by
  unfold readNat? at h
  simpa using (Option.filter_eq_some_iff.mp h).2

/-- The number can be written with 64 bits and a sign. -/
def Fits64 (i : Int) : Prop := -0x8000000000000000 ≤ i ∧ i ≤ 0x7FFFFFFFFFFFFFFF

/-- A whole number in decimals. -/
def decimals (i : Int) : List Char := (toString i).toList

theorem decimals_ofNat (n : Nat) : decimals (.ofNat n) = Nat.toDigits 10 n := Nat.toList_repr

theorem decimals_negSucc (n : Nat) : decimals (.negSucc n) = '-' :: Nat.toDigits 10 (n + 1) := by
  change ("-" ++ Nat.repr (n + 1)).toList = _
  rw [String.toList_append, Nat.toList_repr]
  rfl

theorem readInt64?_minus (cs : List Char) :
    readInt64? ('-' :: cs) =
      ((readDigits? cs).filter (· ≤ 0x8000000000000000)).map fun n => -Int.ofNat n := by
  unfold readInt64?
  split
  · rename_i rest heq
    cases heq
    cases (readDigits? cs).filter (· ≤ 0x8000000000000000) <;> rfl
  · rename_i hne
    exact absurd rfl (hne cs)

theorem readInt64?_eq (h : cs.head? ≠ some '-') :
    readInt64? cs = (readNat? 0x7FFFFFFFFFFFFFFF cs).map Int.ofNat := by
  unfold readInt64?
  split
  · exact absurd rfl h
  · cases readNat? 0x7FFFFFFFFFFFFFFF cs <;> rfl

theorem readInt64?_decimals (h : Fits64 i) : readInt64? (decimals i) = some i := by
  unfold Fits64 at h
  cases i with
  | ofNat n =>
    rw [Int.ofNat_eq_natCast] at h
    rw [decimals_ofNat, readInt64?_eq (head?_toDigits_ne (by decide)), readNat?_toDigits (by omega)]
    rfl
  | negSucc n =>
    rw [decimals_negSucc, readInt64?_minus, readDigits?_toDigits, Option.filter_some,
      if_pos (decide_eq_true (by omega))]
    rfl

theorem fits64_of_readInt64? (h : readInt64? cs = some i) : Fits64 i := by
  unfold Fits64
  by_cases hminus : cs.head? = some '-'
  · obtain ⟨rest, rfl⟩ := List.head?_eq_some_iff.mp hminus
    rw [readInt64?_minus] at h
    obtain ⟨n, hn, rfl⟩ := Option.map_eq_some_iff.mp h
    have hle : n ≤ 0x8000000000000000 := by simpa using (Option.filter_eq_some_iff.mp hn).2
    rw [Int.ofNat_eq_natCast]
    omega
  · rw [readInt64?_eq hminus] at h
    obtain ⟨n, hn, rfl⟩ := Option.map_eq_some_iff.mp h
    have hle := le_of_readNat? hn
    rw [Int.ofNat_eq_natCast]
    omega

theorem isBlank_of_mem_decimals {c : Char} (h : c ∈ decimals i) : isBlank c = false := by
  cases i with
  | ofNat n =>
    rw [decimals_ofNat] at h
    exact isBlank_of_isDigit (isDigit_of_mem_toDigits h)
  | negSucc n =>
    rw [decimals_negSucc] at h
    rcases List.mem_cons.mp h with rfl | h
    · decide
    · exact isBlank_of_isDigit (isDigit_of_mem_toDigits h)

theorem decimals_ne_nil (i : Int) : decimals i ≠ [] := by
  cases i with
  | ofNat n => exact decimals_ofNat n ▸ Nat.toDigits_ne_nil
  | negSucc n => exact decimals_negSucc n ▸ List.cons_ne_nil _ _

theorem isWordBreak_of_not_isBlank {c : Char} (h : isBlank c = false) : isWordBreak c = false := by
  rw [Bool.eq_false_iff] at h ⊢
  exact fun hbreak => h (isBlank_of_isWordBreak hbreak)

namespace Command

/-! ## Commands and their spellings -/

/-- A script as it can stand in a line: it is not blank, and there are no blanks around it. -/
structure IsCode (code : String) : Prop where
  ne_nil : code.toList ≠ []
  trimmed : Trimmed code.toList

/-- Each coordinate can be written with 64 bits and a sign. -/
structure FitsPosition (p : Position) : Prop where
  x : Fits64 p.x
  y : Fits64 p.y
  z : Fits64 p.z

/-- The name and the arguments of a call as they can stand in a line. Blanks that break no words can
stand in the name, but not at an end of what follows the verb. -/
structure IsInvocation (name args : String) : Prop where
  ne_nil : name.toList ≠ []
  word : ∀ c ∈ name.toList, isWordBreak c = false
  first : ∀ c ∈ name.toList.head?, isBlank c = false
  last : args.toList = [] → ∀ c ∈ name.toList.getLast?, isBlank c = false
  args : Trimmed args.toList

/-- A line can ask for the command. -/
def WellFormed : Command → Prop
  | .run code => IsCode code
  | .scan origin corner opposite code =>
    FitsPosition origin ∧ FitsPosition corner ∧ FitsPosition opposite ∧ IsCode code
  | .invoke name args => IsInvocation name args
  | .every ticks count code =>
    (0 < ticks ∧ ticks ≤ mostNat64) ∧ (∀ n ∈ count, 0 < n ∧ n ≤ mostNat32) ∧ IsCode code
  | .kill id => id ≤ mostNat32
  | .globals | .ps | .stop | .resume | .quit | .help => True

/-- The numbers in decimals, each with a space after it, and what follows. -/
def listed : List Int → List Char → List Char
  | [], rest => rest
  | i :: is, rest => decimals i ++ ' ' :: listed is rest

/-- The command as a line. -/
def spelling : Command → String
  | .run code => "run " ++ code
  | .scan o a b code =>
    "scan " ++ String.ofList (listed [o.x, o.y, o.z, a.x, a.y, a.z, b.x, b.y, b.z] code.toList)
  | .invoke name args => "invoke " ++ if args = "" then name else name ++ " " ++ args
  | .globals => "globals"
  | .every ticks none code => s!"every {ticks} " ++ code
  | .every ticks (some count) code => s!"every {ticks}x{count} " ++ code
  | .ps => "ps"
  | .kill id => s!"kill {id}"
  | .stop => "stop"
  | .resume => "resume"
  | .quit => "quit"
  | .help => "help"

/-! ## What is read is well-formed -/

theorem readInts?_spec {is : List Int} (h : readInts? n cs = some (is, rest)) (hcs : Trimmed cs) :
    (∀ i ∈ is, Fits64 i) ∧ Trimmed rest := by
  induction n generalizing cs is with
  | zero =>
    cases h
    exact ⟨List.forall_mem_nil _, hcs⟩
  | succ n ih =>
    unfold readInts? at h
    obtain ⟨i, hi, h⟩ := Option.bind_eq_some_iff.mp h
    obtain ⟨⟨others, last⟩, hothers, h⟩ := Option.bind_eq_some_iff.mp h
    cases h
    obtain ⟨hfits, hrest⟩ := ih hothers (splitWord_cases cs).2.1
    exact ⟨List.forall_mem_cons.mpr ⟨fits64_of_readInt64? hi, hfits⟩, hrest⟩

theorem isCode_ofList (hne : cs ≠ []) (h : Trimmed cs) : IsCode (String.ofList cs) := by
  constructor <;> rwa [String.toList_ofList]

theorem isInvocation_of_splitWord {name args : List Char} (hcs : Trimmed cs)
    (h : splitWord cs = (name, args)) (hname : name ≠ []) :
    IsInvocation (String.ofList name) (String.ofList args) := by
  obtain ⟨hword, hargs, hsplit⟩ := splitWord_cases cs
  rw [h] at hword hargs hsplit
  dsimp only at hword hargs hsplit
  obtain ⟨d, ds, rfl⟩ := List.exists_cons_of_ne_nil hname
  constructor <;> simp only [String.toList_ofList]
  · exact hname
  · exact hword
  · have hfirst := hcs.first
    rcases hsplit with hsplit | ⟨c, after, -, rfl, -⟩
    · cases hsplit
      exact hfirst
    · exact hfirst
  · intro hnone
    rcases hsplit with hsplit | ⟨c, after, hc, rfl, hafter⟩
    · cases hsplit
      exact hcs.last
    · -- Nothing but blanks would follow the name, and a trimmed text does not end with one.
      have hblank : ∀ e ∈ c :: after, isBlank e = true :=
        List.forall_mem_cons.mpr ⟨isBlank_of_isWordBreak hc,
          isBlank_of_trimChars_nil (hafter.symm.trans hnone)⟩
      have hlast : (d :: ds ++ c :: after).getLast? = some ((c :: after).getLast (by simp)) := by
        rw [List.getLast?_append, List.getLast?_eq_some_getLast (by simp)]
        rfl
      have hcontra := hcs.last _ hlast
      rw [hblank _ (List.getLast_mem _)] at hcontra
      cases hcontra
  · exact hargs

theorem wellFormed_of_readScan (hrest : Trimmed rest) (h : readScan rest = .ok c) :
    c.WellFormed := by
  unfold readScan at h
  split at h
  · rename_i ox oy oz x1 y1 z1 x2 y2 z2 code hints
    obtain ⟨hfits, hcode⟩ := readInts?_spec hints hrest
    simp only [List.forall_mem_cons] at hfits
    obtain ⟨h1, h2, h3, h4, h5, h6, h7, h8, h9, -⟩ := hfits
    split at h
    · cases h
    · rename_i hne
      cases h
      exact ⟨⟨h1, h2, h3⟩, ⟨h4, h5, h6⟩, ⟨h7, h8, h9⟩, isCode_ofList (by simpa using hne) hcode⟩
  · cases h

theorem wellFormed_of_readInvoke (hrest : Trimmed rest) (h : readInvoke rest = .ok c) :
    c.WellFormed := by
  unfold readInvoke at h
  generalize hsplit : splitWord rest = parts at h
  obtain ⟨name, args⟩ := parts
  dsimp only at h
  split at h
  · cases h
  · rename_i hne
    cases h
    exact isInvocation_of_splitWord hrest hsplit (by simpa using hne)

theorem readPeriod?_spec {word : List Char} (h : readPeriod? word = some (ticks, count)) :
    ticks ≤ mostNat64 ∧ ∀ n ∈ count, n ≤ mostNat32 := by
  unfold readPeriod? at h
  split at h
  · obtain ⟨n, hn, h⟩ := Option.bind_eq_some_iff.mp h
    obtain ⟨m, hm, h⟩ := Option.bind_eq_some_iff.mp h
    cases h
    refine ⟨le_of_readNat? hm, ?_⟩
    rintro _ ⟨⟩
    exact le_of_readNat? hn
  · obtain ⟨m, hm, h⟩ := Option.map_eq_some_iff.mp h
    cases h
    exact ⟨le_of_readNat? hm, fun n hn => nomatch hn⟩

theorem wellFormed_of_readEvery (h : readEvery rest = .ok c) : c.WellFormed := by
  obtain ⟨-, hcode, -⟩ := splitWord_cases rest
  unfold readEvery at h
  generalize splitWord rest = parts at h hcode
  obtain ⟨period, code⟩ := parts
  dsimp only at h hcode
  split at h
  · cases h
  · rename_i hne
    split at h
    · cases h
    · rename_i ticks count hperiod
      obtain ⟨hticks, hcount⟩ := readPeriod?_spec hperiod
      split at h
      · cases h
      · rename_i hpositive
        cases h
        rw [not_or] at hpositive
        refine ⟨⟨Nat.pos_of_ne_zero hpositive.1, hticks⟩, fun n hn => ⟨?_, hcount n hn⟩,
          isCode_ofList (by simpa using hne) hcode⟩
        apply Nat.pos_of_ne_zero
        rintro rfl
        exact hpositive.2 hn

theorem wellFormed_of_ofWord? (h : ofWord? word = some c) : c.WellFormed := by
  unfold ofWord? at h
  split at h <;> cases h <;> exact trivial

theorem wellFormed_of_readTrimmed {line : List Char} (hline : Trimmed line) (hne : line ≠ [])
    (h : readTrimmed line = .ok c) : c.WellFormed := by
  obtain ⟨-, hrest, -⟩ := splitWord_cases line
  unfold readTrimmed at h
  generalize splitWord line = parts at h hrest
  obtain ⟨verb, rest⟩ := parts
  dsimp only at h hrest
  split at h
  · split at h
    · cases h
    · rename_i hcode
      cases h
      exact isCode_ofList (by simpa using hcode) hrest
  · exact wellFormed_of_readScan hrest h
  · exact wellFormed_of_readInvoke hrest h
  · exact wellFormed_of_readEvery h
  · split at h
    · rename_i id hid
      cases h
      exact le_of_readNat? hid
    · cases h
  · split at h
    · rename_i command hword
      split at h
      · cases h
        exact wellFormed_of_ofWord? hword
      · cases h
    · cases h
      exact isCode_ofList hne hline

/-- What a line asks for is well-formed. -/
theorem wellFormed_of_read (h : read line = .ok (some c)) : c.WellFormed := by
  have htrimmed := trimmed_trimChars line.toList
  unfold read at h
  generalize trimChars line.toList = cs at h htrimmed
  cases cs with
  | nil => cases h
  | cons d rest =>
    cases hread : readTrimmed (d :: rest) with
    | error fault =>
      simp only [hread] at h
      cases h
    | ok command =>
      simp only [hread] at h
      cases h
      exact wellFormed_of_readTrimmed htrimmed (List.cons_ne_nil _ _) hread

/-! ## What is well-formed is read -/

theorem splitWord_space {word rest : List Char} (hword : ∀ c ∈ word, isWordBreak c = false)
    (hrest : Trimmed rest) : splitWord (word ++ ' ' :: rest) = (word, rest) :=
  splitWord_append hword Gap.isBreak_space hrest

/-- How a line is read that consists of a verb and what follows it after a space. -/
theorem read_of_verb {verb rest : List Char} (hline : line.toList = verb ++ ' ' :: rest)
    (hverb : IsWord verb) (hne : rest ≠ []) (hrest : Trimmed rest) :
    read line = (readTrimmed line.toList).map some ∧ splitWord line.toList = (verb, rest) := by
  have htrimmed : Trimmed (verb ++ ' ' :: rest) :=
    hverb.trimmed.append hverb.ne_nil hrest hne [' ']
  rw [hline]
  refine ⟨?_, splitWord_space hverb.not_isWordBreak hrest⟩
  rw [← String.ofList_toList (s := line), hline]
  exact read_ofList htrimmed (by simp)

theorem isWord_toList (hfirst : word.toList.head?.any startsName = true)
    (hall : word.toList.all continuesName = true) : IsWord word.toList := by
  cases hword : word.toList with
  | nil =>
    rw [hword] at hfirst
    cases hfirst
  | cons c cs =>
    rw [hword] at hfirst hall
    exact isWord_of_all (Bool.and_eq_true_iff.mpr ⟨hfirst, (Bool.and_eq_true_iff.mp hall).2⟩)

theorem listed_ne_nil (hne : rest ≠ []) (is : List Int) : listed is rest ≠ [] := by
  cases is with
  | nil => exact hne
  | cons i is => simp [listed]

section Listed

variable {rest : List Char} (hne : rest ≠ []) (hrest : Trimmed rest)

include hne hrest

theorem trimmed_listed (is : List Int) : Trimmed (listed is rest) := by
  induction is with
  | nil => exact hrest
  | cons i is ih =>
    exact (trimmed_of_not_blank fun c hc => isBlank_of_mem_decimals hc).append (decimals_ne_nil i)
      ih (listed_ne_nil hne is) [' ']

theorem readInts?_listed {is : List Int} (h : ∀ i ∈ is, Fits64 i) :
    readInts? is.length (listed is rest) = some (is, rest) := by
  induction is with
  | nil => rfl
  | cons i is ih =>
    obtain ⟨hi, his⟩ := List.forall_mem_cons.mp h
    have hsplit : splitWord (listed (i :: is) rest) = (decimals i, listed is rest) :=
      splitWord_space (fun c hc => isWordBreak_of_not_isBlank (isBlank_of_mem_decimals hc))
        (trimmed_listed hne hrest is)
    simp only [List.length_cons, readInts?, hsplit, readInt64?_decimals hi, ih his,
      Option.bind_eq_bind, Option.bind_some, Option.pure_def]

end Listed

theorem read_run (h : IsCode code) : read (spelling (.run code)) = .ok (some (.run code)) := by
  have hline : ("run " ++ code).toList = "run".toList ++ ' ' :: code.toList := by
    rw [String.toList_append]
    rfl
  obtain ⟨hread, hsplit⟩ := read_of_verb hline isWord_run h.ne_nil h.trimmed
  unfold spelling
  rw [hread, readTrimmed_run hsplit h.ne_nil, String.ofList_toList]
  rfl

theorem read_scan {origin corner opposite : Position}
    (h : WellFormed (.scan origin corner opposite code)) :
    read (spelling (.scan origin corner opposite code)) =
      .ok (some (.scan origin corner opposite code)) := by
  obtain ⟨horigin, hcorner, hopposite, hcode⟩ := h
  generalize his : [origin.x, origin.y, origin.z, corner.x, corner.y, corner.z, opposite.x,
    opposite.y, opposite.z] = is
  have hfits : ∀ i ∈ is, Fits64 i := by
    rw [← his]
    simp only [List.forall_mem_cons]
    exact ⟨horigin.x, horigin.y, horigin.z, hcorner.x, hcorner.y, hcorner.z, hopposite.x,
      hopposite.y, hopposite.z, List.forall_mem_nil _⟩
  have hline : (spelling (.scan origin corner opposite code)).toList =
      "scan".toList ++ ' ' :: listed is code.toList := by
    simp only [spelling, his]
    rw [String.toList_append, String.toList_ofList (l := listed is code.toList)]
    rfl
  obtain ⟨hread, hsplit⟩ := read_of_verb hline (isWord_toList (by decide) (by decide))
    (listed_ne_nil hcode.ne_nil is) (trimmed_listed hcode.ne_nil hcode.trimmed is)
  have hints := readInts?_listed hcode.ne_nil hcode.trimmed hfits
  have hscan : readScan (listed is code.toList) = .ok (.scan origin corner opposite code) := by
    subst his
    simp only [List.length_cons, List.length_nil] at hints
    unfold readScan
    rw [hints]
    simp [hcode.ne_nil]
  rw [hread]
  simp only [readTrimmed, hsplit, String.ofList_toList, hscan]
  rfl

/-- What follows the verb of a call. -/
theorem splitWord_invocation {name args : String} (h : IsInvocation name args) :
    let rest := (if args = "" then name else name ++ " " ++ args).toList
    rest ≠ [] ∧ Trimmed rest ∧ splitWord rest = (name.toList, args.toList) := by
  by_cases hargs : args = ""
  · subst hargs
    exact ⟨h.ne_nil, ⟨h.first, h.last rfl⟩, splitWord_of_word h.word⟩
  · have hne : args.toList ≠ [] := by simpa using hargs
    have hrest : (if args = "" then name else name ++ " " ++ args).toList =
        name.toList ++ ' ' :: args.toList := by
      rw [if_neg hargs, String.toList_append, String.toList_append, List.append_assoc]
      rfl
    rw [hrest]
    refine ⟨by simp, ⟨?_, ?_⟩, splitWord_space h.word h.args⟩
    · obtain ⟨c, cs, hname⟩ := List.exists_cons_of_ne_nil h.ne_nil
      have hfirst := h.first
      rw [hname] at hfirst ⊢
      exact hfirst
    · rw [List.getLast?_append, List.getLast?_cons, List.getLast?_eq_some_getLast hne]
      have hlast := h.args.last
      rw [List.getLast?_eq_some_getLast hne] at hlast
      exact hlast

theorem read_invoke {name args : String} (h : IsInvocation name args) :
    read (spelling (.invoke name args)) = .ok (some (.invoke name args)) := by
  obtain ⟨hne, hrest, hsecond⟩ := splitWord_invocation h
  have hspelling : spelling (.invoke name args) =
      "invoke " ++ if args = "" then name else name ++ " " ++ args := rfl
  generalize (if args = "" then name else name ++ " " ++ args) = rest at *
  have hline : (spelling (.invoke name args)).toList = "invoke".toList ++ ' ' :: rest.toList := by
    rw [hspelling, String.toList_append]
    rfl
  obtain ⟨hread, hfirst⟩ := read_of_verb hline isWord_invoke hne hrest
  rw [hread, readTrimmed_invoke hfirst, readInvoke_of_split hsecond h.ne_nil, String.ofList_toList,
    String.ofList_toList]
  rfl

/-- A period in decimals, with an `x` and how often if that is limited. -/
def periodText (ticks : Nat) : Option Nat → List Char
  | none => Nat.toDigits 10 ticks
  | some count => Nat.toDigits 10 ticks ++ 'x' :: Nat.toDigits 10 count

theorem readPeriod?_periodText (hticks : ticks ≤ mostNat64) (hcount : ∀ n ∈ count, n ≤ mostNat32) :
    readPeriod? (periodText ticks count) = some (ticks, count) := by
  have hdigits : ∀ c ∈ Nat.toDigits 10 ticks, decide (c = 'x') = false := by
    intro c hc
    have hdigit := isDigit_of_mem_toDigits hc
    rw [decide_eq_false_iff_not]
    rintro rfl
    cases hdigit
  unfold readPeriod? periodText
  cases count with
  | none => rw [cutAt?_of_none hdigits, readNat?_toDigits hticks, Option.map_some]
  | some n =>
    rw [cutAt?_append_cons hdigits (by decide)]
    simp only [readNat?_toDigits (hcount n rfl), readNat?_toDigits hticks, Option.bind_eq_bind,
      Option.bind_some, Option.pure_def]

theorem isBlank_of_mem_periodText {c : Char} (h : c ∈ periodText ticks count) :
    isBlank c = false := by
  cases count with
  | none => exact isBlank_of_isDigit (isDigit_of_mem_toDigits h)
  | some n =>
    simp only [periodText, List.mem_append, List.mem_cons] at h
    rcases h with h | rfl | h
    · exact isBlank_of_isDigit (isDigit_of_mem_toDigits h)
    · decide
    · exact isBlank_of_isDigit (isDigit_of_mem_toDigits h)

theorem periodText_ne_nil (ticks : Nat) (count : Option Nat) : periodText ticks count ≠ [] := by
  cases count with
  | none => exact Nat.toDigits_ne_nil
  | some n => exact List.append_ne_nil_of_left_ne_nil Nat.toDigits_ne_nil _

theorem toList_spelling_every (ticks : Nat) (count : Option Nat) (code : String) :
    (spelling (.every ticks count code)).toList =
      "every".toList ++ ' ' :: (periodText ticks count ++ ' ' :: code.toList) := by
  cases count with
  | none =>
    simp only [spelling, periodText, String.toList_append, Nat.toString_eq_repr, Nat.toList_repr,
      List.append_assoc]
    rfl
  | some n =>
    simp only [spelling, periodText, String.toList_append, Nat.toString_eq_repr, Nat.toList_repr,
      List.append_assoc]
    rfl

theorem read_every (h : WellFormed (.every ticks count code)) :
    read (spelling (.every ticks count code)) = .ok (some (.every ticks count code)) := by
  obtain ⟨⟨hpositive, hticks⟩, hcount, hcode⟩ := h
  have hperiod : Trimmed (periodText ticks count) :=
    trimmed_of_not_blank fun c hc => isBlank_of_mem_periodText hc
  have hrest : Trimmed (periodText ticks count ++ ' ' :: code.toList) :=
    hperiod.append (periodText_ne_nil ticks count) hcode.trimmed hcode.ne_nil [' ']
  obtain ⟨hread, hfirst⟩ := read_of_verb (toList_spelling_every ticks count code)
    (isWord_toList (by decide) (by decide)) (by simp) hrest
  have hsecond : splitWord (periodText ticks count ++ ' ' :: code.toList) =
      (periodText ticks count, code.toList) :=
    splitWord_space (fun c hc => isWordBreak_of_not_isBlank (isBlank_of_mem_periodText hc))
      hcode.trimmed
  have hnonzero : ¬ (ticks = 0 ∨ count = some 0) := by
    rintro (rfl | rfl)
    · exact Nat.lt_irrefl 0 hpositive
    · exact Nat.lt_irrefl 0 (hcount 0 rfl).1
  have hevery : readEvery (periodText ticks count ++ ' ' :: code.toList) =
      .ok (.every ticks count code) := by
    unfold readEvery
    simp only [hsecond, List.isEmpty_eq_false_iff.mpr hcode.ne_nil, Bool.false_eq_true, ↓reduceIte,
      readPeriod?_periodText hticks fun n hn => (hcount n hn).2, hnonzero, String.ofList_toList]
  rw [hread]
  simp only [readTrimmed, hfirst, String.ofList_toList, hevery]
  rfl

theorem read_kill {id : Nat} (h : id ≤ mostNat32) :
    read (spelling (.kill id)) = .ok (some (.kill id)) := by
  have hline : (spelling (.kill id)).toList = "kill".toList ++ ' ' :: Nat.toDigits 10 id := by
    simp only [spelling]
    rw [String.toList_append, Nat.toString_eq_repr, Nat.toList_repr]
    rfl
  obtain ⟨hread, hsplit⟩ := read_of_verb hline (isWord_toList (by decide) (by decide))
    Nat.toDigits_ne_nil
    (trimmed_of_not_blank fun c hc => isBlank_of_isDigit (isDigit_of_mem_toDigits hc))
  rw [hread]
  simp only [readTrimmed, hsplit, String.ofList_toList, readNat?_toDigits h]
  rfl

/-- The spelling of a well-formed command is read as this command. -/
theorem read_spelling (h : c.WellFormed) : read c.spelling = .ok (some c) := by
  cases c with
  | run code => exact read_run h
  | scan origin corner opposite code => exact read_scan h
  | invoke name args => exact read_invoke h
  | every ticks count code => exact read_every h
  | kill id => exact read_kill h
  | globals | ps | stop | resume | quit | help => rfl

/-- The words that a command other than a script starts with. -/
def verbs : List String :=
  ["run", "scan", "invoke", "globals", "every", "ps", "kill", "stop", "resume", "quit", "help"]

/-- The first word of a line. -/
def firstWord (line : String) : String :=
  String.ofList ((trimChars line.toList).takeWhile fun c => !isWordBreak c)

theorem fst_splitWord (cs : List Char) :
    (splitWord cs).1 = cs.takeWhile fun c => !isWordBreak c := by
  obtain ⟨hword, -, hsplit⟩ := splitWord_cases cs
  have hgoes : ∀ c ∈ (splitWord cs).1, (!isWordBreak c) = true := fun c hc => by
    rw [hword c hc]
    rfl
  rcases hsplit with hsplit | ⟨c, after, hc, hcs, -⟩
  · rw [hsplit] at hgoes ⊢
    exact (List.takeWhile_eq_self_iff.mpr hgoes).symm
  · generalize (splitWord cs).1 = word at hgoes hcs
    subst hcs
    rw [List.takeWhile_append_of_pos hgoes, List.takeWhile_cons_of_neg (by simp [hc]),
      List.append_nil]

theorem ofWord?_of_notMem (h : word ∉ verbs) : ofWord? word = none := by
  unfold ofWord?
  split
  case h_7 => rfl
  all_goals exact absurd (by decide) h

/-- A line that starts with no verb is a script. -/
theorem readTrimmed_of_notMem {line : List Char}
    (h : String.ofList (line.takeWhile fun c => !isWordBreak c) ∉ verbs) :
    readTrimmed line = .ok (.run (String.ofList line)) := by
  rw [← fst_splitWord] at h
  unfold readTrimmed
  generalize splitWord line = parts at h
  obtain ⟨verb, rest⟩ := parts
  dsimp only at h ⊢
  split
  case h_6 => rw [ofWord?_of_notMem h]
  all_goals
    rename_i hverb
    rw [hverb] at h
    exact absurd (by decide) h

theorem read_of_firstWord (hne : trim line ≠ "") (h : firstWord line ∉ verbs) :
    read line = .ok (some (.run (trim line))) := by
  unfold firstWord at h
  unfold trim at hne ⊢
  unfold read
  generalize trimChars line.toList = cs at h hne
  cases cs with
  | nil => exact absurd rfl hne
  | cons c cs =>
    simp only [readTrimmed_of_notMem h]
    rfl

/-- Commands have a normal form. Whatever line is read as a command, the command is well-formed:
its scripts are not blank and have no blanks around them, its ticks and repetitions are positive,
and its numbers fit; and its spelling is read as this command again. All well-formed commands come
about in that way. A line that is not blank and starts with no verb is a script as it stands, but
for the blanks around it. -/
theorem commands_have_a_normal_form :
    (∀ (line : String) (c : Command), read line = .ok (some c) →
      c.WellFormed ∧ read c.spelling = .ok (some c)) ∧
    (∀ c : Command, c.WellFormed → read c.spelling = .ok (some c)) ∧
    ∀ line : String, trim line ≠ "" → firstWord line ∉ verbs →
      read line = .ok (some (.run (trim line))) :=
  ⟨fun _ _ h => ⟨wellFormed_of_read h, read_spelling (wellFormed_of_read h)⟩,
    fun _ h => read_spelling h, fun _ hne h => read_of_firstWord hne h⟩

/-- Numbers with a plus sign and zeros before them, and a script that begins with a verb after
blanks of several kinds; and a script whose first word holds a blank that breaks no words. -/
theorem blanks_and_zeros_are_left_out :
    let c : Command := .every 5 (some 3) "scan 1"
    let script := "help\u00a0me \u00a0"
    read "every\t+05x003 \u00a0 scan 1 " = .ok (some c) ∧ c.WellFormed ∧
      c.spelling = "every 5x3 scan 1" ∧ read "every 5x3 scan 1" = .ok (some c) ∧
      trim script ≠ "" ∧ firstWord script ∉ verbs ∧
      read script = .ok (some (.run "help\u00a0me")) := by
  intro c script
  have hread : read "every\t+05x003 \u00a0 scan 1 " = .ok (some c) := by decide +kernel
  have hspelling : c.spelling = "every 5x3 scan 1" := by decide
  have htrim : trim script = "help\u00a0me" := by decide +kernel
  have hfirst : firstWord script ∉ verbs := by decide +kernel
  obtain ⟨hreads, -, hscripts⟩ := commands_have_a_normal_form
  obtain ⟨hwell, hagain⟩ := hreads _ c hread
  have hscript := hscripts script (by rw [htrim]; decide) hfirst
  rw [htrim] at hscript
  exact ⟨hread, hwell, hspelling, hspelling ▸ hagain, by rw [htrim]; decide, hfirst, hscript⟩

end Command

end TickScript
