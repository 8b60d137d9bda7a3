-- The start-up file. What a line asks for does not depend on the settings so far. So the settings
-- are those that the well-formed lines make one after the other, and every other line can go.
import Mathlib.Data.List.Dedup
import TickScript.Config
import TickScript.Proofs.Commands
import TickScript.Proofs.Snippets

namespace TickScript.Config

open TickScript.Text

variable {cs : List Char} {d : Directive} {ds : List Directive}

/-! ## What a line asks for -/

/-- What a well-formed line asks for. -/
inductive Directive where
  | tickLength (ms : Nat)
  | scanLimit (n : Nat)
  | echo (on : Bool)
  | global (name : String) (v : Value)
  | load (path : String)

/-- The settings after a directive. A global that is defined again moves to the end. -/
def follow (c : Config) : Directive → Config
  | .tickLength ms => { c with tickLength := ms }
  | .scanLimit n => { c with scanLimit := n }
  | .echo on => { c with echo := on }
  | .global name v => { c with globals := c.globals.filter (·.1 ≠ name) ++ [(name, v)] }
  | .load path => { c with loads := c.loads ++ [path] }

/-- The line starts with a slash and this word, and these arguments follow. -/
def Directs (line word : String) (args : List Char) : Prop :=
  ∃ rest, trimChars line.toList = '/' :: rest ∧ splitWord rest = (word.toList, args)

/-- The text gives a name a value. Between them stands the first equals sign, or the first break
between words if there is no equals sign. -/
inductive Assigns : List Char → List Char → List Char → Prop
  | equals {before after : List Char} (hbefore : '=' ∉ before) (hname : trimChars before ≠ []) :
      Assigns (before ++ '=' :: after) (trimChars before) (trimChars after)
  | blank {before after : List Char} {c : Char} (hequals : '=' ∉ before ++ c :: after)
      (hbefore : ∀ d ∈ before, isWordBreak d = false) (hc : isWordBreak c = true)
      (hname : trimChars before ≠ []) :
      Assigns (before ++ c :: after) (trimChars before) (trimChars after)

/-- The text spells a number of 64 bits in digits, with or without a plus sign. -/
inductive Spells64 : List Char → Nat → Prop
  | mk {sign digits : List Char} (hsign : sign = [] ∨ sign = ['+']) (hne : digits ≠ [])
      (hdigits : ∀ c ∈ digits, c.isDigit = true) (hmost : digitsToNat digits ≤ mostNat64) :
      Spells64 (sign ++ digits) (digitsToNat digits)

/-- Giving the setting of this name this value is the directive. A tick takes some time. -/
inductive Sets : List Char → List Char → Directive → Prop
  | tickLength {value : List Char} {ms : Nat} (hvalue : Spells64 value ms) (hms : 0 < ms) :
      Sets "tick_ms".toList value (.tickLength ms)
  | scanLimit {value : List Char} {n : Nat} (hvalue : Spells64 value n) :
      Sets "scan_limit".toList value (.scanLimit n)
  | echoOn {text : String} (htext : text ∈ ["1", "on", "true"]) :
      Sets "echo".toList text.toList (.echo true)
  | echoOff {text : String} (htext : text ∈ ["0", "off", "false"]) :
      Sets "echo".toList text.toList (.echo false)

/-- The text stands within quotes. -/
def Quotes (cs body : List Char) : Prop := cs = '\'' :: (body ++ ['\''])

/-- The text stands for this value: within quotes for a text, otherwise for the number that it
spells, and for itself if it spells none. -/
inductive Denotes : List Char → Value → Prop
  | quoted {cs body : List Char} (hcs : Quotes cs body) : Denotes cs (.text (String.ofList body))
  | number {cs : List Char} {x : Float} (hcs : ¬ ∃ body, Quotes cs body)
      (hx : Number.read? (String.ofList cs) = some x) : Denotes cs (.number x)
  | itself {cs : List Char} (hcs : ¬ ∃ body, Quotes cs body)
      (hspelling : ¬ IsSpelling (trimChars cs)) (hsigned : ¬ IsDoublySigned (trimChars cs)) :
      Denotes cs (.text (String.ofList cs))

/-- The line is well-formed and asks for this. -/
inductive Means (line : String) : Directive → Prop
  | set {args name value : List Char} {d : Directive} (hline : Directs line "set" args)
      (hargs : Assigns args name value) (hsets : Sets name value d) : Means line d
  | global {args name value : List Char} {v : Value} (hline : Directs line "global" args)
      (hargs : Assigns args name value) (hname : IsWord name) (hvalue : Denotes value v) :
      Means line (.global (String.ofList name) v)
  | load {args : List Char} (hline : Directs line "load" args) (hargs : args ≠ []) :
      Means line (.load (String.ofList args))

/-- The words that start a directive. -/
def directiveWords : List String := ["set", "global", "load"]

/-- The line starts as a directive does. -/
def Begins (line : String) : Prop := ∃ word ∈ directiveWords, ∃ args, Directs line word args

/-- The line starts as a directive does but is none. -/
def Malformed (line : String) : Prop := Begins line ∧ ¬ ∃ d, Means line d

/-- The line is blank, a comment, without a slash at its start, with a word after the slash that is
not known, or malformed. -/
inductive Idle (line : String) : Prop
  | blank (hline : trimChars line.toList = [])
  | comment (hline : (trimChars line.toList).head? = some ';')
  | plain (hline : (trimChars line.toList).head? ≠ some '/')
  | unknown {word : String} {args : List Char} (hline : Directs line word args)
      (hword : word ∉ directiveWords)
  | malformed (hline : Malformed line)

/-! ## Parts of a line -/

theorem readDigits?_filter_iff {most n : Nat} {digits : List Char} :
    (readDigits? digits).filter (· ≤ most) = some n ↔
      digits ≠ [] ∧ (∀ c ∈ digits, c.isDigit = true) ∧ digitsToNat digits ≤ most ∧
        digitsToNat digits = n := by
  constructor
  · intro h
    obtain ⟨hread, hmost⟩ := Option.filter_eq_some_iff.mp h
    obtain ⟨hne, hdigits⟩ := Number.isDigit_of_readDigits? (Option.isSome_of_eq_some hread)
    rw [Number.readDigits?_of_isDigit hne hdigits] at hread
    cases hread
    exact ⟨hne, hdigits, of_decide_eq_true hmost, rfl⟩
  · rintro ⟨hne, hdigits, hmost, rfl⟩
    rw [Number.readDigits?_of_isDigit hne hdigits, Option.filter_some,
      if_pos (decide_eq_true hmost)]

theorem readNat?_iff {n : Nat} : readNat? mostNat64 cs = some n ↔ Spells64 cs n := by
  constructor
  · intro h
    unfold readNat? at h
    split at h
    · obtain ⟨hne, hdigits, hmost, rfl⟩ := readDigits?_filter_iff.mp h
      exact Spells64.mk (Or.inr rfl) hne hdigits hmost
    · obtain ⟨hne, hdigits, hmost, rfl⟩ := readDigits?_filter_iff.mp h
      exact Spells64.mk (Or.inl rfl) hne hdigits hmost
  · rintro ⟨hsign, hne, hdigits, hmost⟩
    have hread := readDigits?_filter_iff.mpr ⟨hne, hdigits, hmost, rfl⟩
    rcases hsign with rfl | rfl
    · -- A digit is no sign.
      refine (readNat?_eq fun hplus => ?_).trans hread
      exact absurd (hdigits '+' (List.mem_of_head? hplus)) (by decide)
    · exact hread

theorem isWord_iff : isVariableName cs = true ↔ IsWord cs := by
  constructor
  · intro h
    cases cs with
    | nil => cases h
    | cons c cs =>
      simp only [isVariableName, List.all_cons, Bool.and_eq_true, List.all_eq_true] at h
      exact .mk h.1 h.2.2
  · rintro ⟨hstart, hcs⟩
    simp only [isVariableName, List.all_cons, Bool.and_eq_true, List.all_eq_true]
    exact ⟨hstart, continuesName_of_startsName hstart, hcs⟩

theorem cutAt?_equals_of_none (h : '=' ∉ cs) : cutAt? (fun c => decide (c = '=')) cs = none :=
  cutAt?_of_none fun _ hc => decide_eq_false fun heq => h (heq ▸ hc)

theorem splitAssignment?_iff {name value : List Char} :
    splitAssignment? cs = some (name, value) ↔ Assigns cs name value := by
  constructor
  · intro h
    obtain ⟨⟨before, after⟩, hcut, hparts⟩ := Option.bind_eq_some_iff.mp h
    simp only [Option.pure_def, Option.ite_none_left_eq_some, Option.some.injEq,
      Prod.mk.injEq] at hparts
    obtain ⟨hne, rfl, rfl⟩ := hparts
    rw [List.isEmpty_iff] at hne
    cases hequals : cutAt? (fun c => decide (c = '=')) cs with
    | some parts =>
      rw [hequals] at hcut
      cases hcut
      obtain ⟨hbefore, c, hc, rfl⟩ := cutAt?_append hequals
      cases of_decide_eq_true hc
      exact .equals (fun hmem => of_decide_eq_false (hbefore _ hmem) rfl) hne
    | none =>
      rw [hequals] at hcut
      obtain ⟨hbefore, c, hc, rfl⟩ := cutAt?_append hcut
      have hnone := not_mem_of_cutAt?_none hequals
      exact .blank (fun hmem => of_decide_eq_false (hnone _ hmem) rfl) hbefore hc hne
  · rintro (⟨hbefore, hname⟩ | ⟨hequals, hbefore, hc, hname⟩)
    · have hequals : ∀ d ∈ _, decide (d = '=') = false := fun d hd =>
        decide_eq_false fun heq => hbefore (heq ▸ hd)
      simp [splitAssignment?, cutAt?_append_cons hequals (decide_eq_true rfl), hname]
    · simp [splitAssignment?, cutAt?_equals_of_none hequals, cutAt?_append_cons hbefore hc, hname]

theorem unquoted?_eq_some_iff {body : List Char} : unquoted? cs = some body ↔ Quotes cs body := by
  unfold Quotes
  constructor
  · intro h
    unfold unquoted? at h
    split at h
    · rename_i rest
      split at h
      · rename_i hlast
        cases h
        rw [List.dropLast_append_getLast? _ hlast]
      · cases h
    · cases h
  · rintro rfl
    simp [unquoted?]

/-- A text stands for one value. -/
theorem denotes_iff {v : Value} : Denotes cs v ↔ v = literal cs := by
  have hread := Number.isSome_read? (String.ofList cs)
  rw [String.toList_ofList] at hread
  unfold literal
  cases hbody : unquoted? cs with
  | some body =>
    have hquotes := unquoted?_eq_some_iff.mp hbody
    constructor
    · rintro (hcs | ⟨hcs, -⟩ | ⟨hcs, -⟩)
      · rw [← unquoted?_eq_some_iff, hbody] at hcs
        cases hcs
        rfl
      · exact absurd ⟨body, hquotes⟩ hcs
      · exact absurd ⟨body, hquotes⟩ hcs
    · rintro rfl
      exact .quoted hquotes
  | none =>
    have hquotes : ¬ ∃ body, Quotes cs body := by
      rintro ⟨body, hcs⟩
      rw [unquoted?_eq_some_iff.mpr hcs] at hbody
      cases hbody
    cases hx : Number.read? (String.ofList cs) with
    | some x =>
      constructor
      · rintro (hcs | ⟨-, hx'⟩ | ⟨-, hspelling, hsigned⟩)
        · exact absurd ⟨_, hcs⟩ hquotes
        · rw [hx] at hx'
          cases hx'
          rfl
        · exact ((hread.mp (Option.isSome_of_eq_some hx)).elim hspelling hsigned).elim
      · rintro rfl
        exact .number hquotes hx
    | none =>
      rw [hx] at hread
      constructor
      · rintro (hcs | ⟨-, hx'⟩ | -)
        · exact absurd ⟨_, hcs⟩ hquotes
        · rw [hx] at hx'
          cases hx'
        · rfl
      · rintro rfl
        exact .itself hquotes (fun h => nomatch hread.mpr (.inl h))
          fun h => nomatch hread.mpr (.inr h)

/-! ## One line -/

theorem readSet_of_sets (c : Config) {args name value : List Char} (hargs : Assigns args name value)
    (hsets : Sets name value d) : c.readSet args = .ok (follow c d) := by
  unfold readSet
  rw [splitAssignment?_iff.mpr hargs]
  cases hsets with
  | @tickLength value ms hvalue hms =>
    obtain ⟨k, rfl⟩ := Nat.exists_eq_succ_of_ne_zero hms.ne'
    simp only [String.ofList_toList, readNat?_iff.mpr hvalue]
    rfl
  | scanLimit hvalue =>
    simp only [String.ofList_toList, readNat?_iff.mpr hvalue]
    rfl
  | echoOn htext =>
    simp only [List.mem_cons, List.not_mem_nil, or_false] at htext
    rcases htext with rfl | rfl | rfl <;> rfl
  | echoOff htext =>
    simp only [List.mem_cons, List.not_mem_nil, or_false] at htext
    rcases htext with rfl | rfl | rfl <;> rfl

theorem toList_of_ofList {s : String} (h : String.ofList cs = s) : cs = s.toList := by
  rw [← h, String.toList_ofList]

theorem sets_of_readSet {c c' : Config} {args : List Char} (h : c.readSet args = .ok c') :
    ∃ name value d, Assigns args name value ∧ Sets name value d := by
  unfold readSet at h
  split at h
  · cases h
  · rename_i name value hargs
    refine ⟨name, value, ?_⟩
    have hassigns := splitAssignment?_iff.mp hargs
    split at h
    · rename_i hname
      cases toList_of_ofList hname
      split at h
      · cases h
      · cases h
      · rename_i ms hpos hread
        exact ⟨_, hassigns, .tickLength (readNat?_iff.mp hread) (Nat.pos_of_ne_zero hpos)⟩
    · rename_i hname
      cases toList_of_ofList hname
      split at h
      · cases h
      · rename_i n hread
        exact ⟨_, hassigns, .scanLimit (readNat?_iff.mp hread)⟩
    · rename_i hname
      cases toList_of_ofList hname
      obtain ⟨text, rfl⟩ : ∃ text : String, value = text.toList := ⟨_, toList_of_ofList rfl⟩
      simp only [String.ofList_toList] at h
      split at h
      iterate 3 exact ⟨_, hassigns, .echoOn (by simp)⟩
      iterate 3 exact ⟨_, hassigns, .echoOff (by simp)⟩
      cases h
    · cases h

section Lines

variable {line : String} {args : List Char}

/-- After a slash there is a word, even if it is empty. -/
theorem directs_splitWord {rest : List Char} (h : trimChars line.toList = '/' :: rest) :
    Directs line (String.ofList (splitWord rest).1) (splitWord rest).2 :=
  ⟨rest, h, by rw [String.toList_ofList]⟩

/-- What is done about a word and its arguments. -/
def obey (c : Config) (args : List Char) : String → Except ConfigFault Config
  | "set" => c.readSet args
  | "global" => c.readGlobal args
  | "load" => c.readLoad args
  | _ => .ok c

theorem readLine_of_directs (c : Config) {word : String} (h : Directs line word args) :
    c.readLine line = obey c args word := by
  obtain ⟨rest, hline, hrest⟩ := h
  simp only [readLine, hline, hrest, String.ofList_toList]
  rfl

theorem obey_of_unknown (c : Config) {word : String} (h : word ∉ directiveWords) :
    obey c args word = .ok c := by
  simp only [directiveWords, List.mem_cons, List.not_mem_nil, or_false, not_or] at h
  unfold obey
  split
  · exact absurd rfl h.1
  · exact absurd rfl h.2.1
  · exact absurd rfl h.2.2
  · rfl

/-- A well-formed line is followed, whatever the settings are so far. -/
theorem readLine_of_means (c : Config) (h : Means line d) : c.readLine line = .ok (follow c d) := by
  cases h with
  | set hline hargs hsets =>
    exact (readLine_of_directs c hline).trans (readSet_of_sets c hargs hsets)
  | global hline hargs hname hvalue =>
    rw [readLine_of_directs c hline, denotes_iff.mp hvalue]
    simp only [obey, readGlobal, splitAssignment?_iff.mpr hargs, isWord_iff.mpr hname, ↓reduceIte]
    rfl
  | load hline hargs =>
    rw [readLine_of_directs c hline]
    exact if_neg (by simpa using hargs)

/-- A line that starts as a directive does, and in which no fault is found, is one. -/
theorem exists_means_of_begins {c c' : Config} (hbegins : Begins line)
    (h : c.readLine line = .ok c') : ∃ d, Means line d := by
  obtain ⟨word, hword, args, hline⟩ := hbegins
  rw [readLine_of_directs c hline] at h
  simp only [directiveWords, List.mem_cons, List.not_mem_nil, or_false] at hword
  rcases hword with rfl | rfl | rfl
  · obtain ⟨name, value, d, hargs, hsets⟩ := sets_of_readSet h
    exact ⟨d, .set hline hargs hsets⟩
  · change c.readGlobal args = .ok c' at h
    unfold readGlobal at h
    split at h
    · cases h
    · rename_i name value hargs
      split at h
      · rename_i hname
        exact ⟨_, .global hline (splitAssignment?_iff.mp hargs) (isWord_iff.mp hname)
          (denotes_iff.mpr rfl)⟩
      · cases h
  · change c.readLoad args = .ok c' at h
    unfold readLoad at h
    split at h
    · cases h
    · rename_i hargs
      exact ⟨_, .load hline (by simpa using hargs)⟩

theorem Means.begins (h : Means line d) : Begins line := by
  cases h with
  | set hline => exact ⟨"set", by simp [directiveWords], _, hline⟩
  | global hline => exact ⟨"global", by simp [directiveWords], _, hline⟩
  | load hline => exact ⟨"load", by simp [directiveWords], _, hline⟩

/-- Any other line is passed over. -/
theorem readLine_of_not_begins (c : Config) (h : ¬ Begins line) : c.readLine line = .ok c := by
  by_cases hslash : ∃ rest, trimChars line.toList = '/' :: rest
  · obtain ⟨rest, hrest⟩ := hslash
    have hdirects := directs_splitWord hrest
    rw [readLine_of_directs c hdirects]
    exact obey_of_unknown c fun hword => h ⟨_, hword, _, hdirects⟩
  · unfold readLine
    split
    · rename_i rest hrest
      exact absurd ⟨rest, hrest⟩ hslash
    · rfl

theorem Directs.unique {word word' : String} {args' : List Char} (h : Directs line word args)
    (h' : Directs line word' args') : word = word' := by
  obtain ⟨rest, hline, hrest⟩ := h
  obtain ⟨rest', hline', hrest'⟩ := h'
  rw [hline] at hline'
  cases hline'
  rw [hrest] at hrest'
  exact String.toList_injective (congrArg Prod.fst hrest')

theorem idle_iff : Idle line ↔ ¬ ∃ d, Means line d := by
  constructor
  · rintro h ⟨d, hd⟩
    obtain ⟨word, hword, args, hdirects⟩ := hd.begins
    obtain ⟨rest, hrest, -⟩ := id hdirects
    cases h with
    | blank hline => simp [hline] at hrest
    | comment hline => simp [hrest] at hline
    | plain hline => simp [hrest] at hline
    | unknown hline hunknown => exact hunknown (hline.unique hdirects ▸ hword)
    | malformed hline => exact hline.2 ⟨d, hd⟩
  · intro h
    by_cases hbegins : Begins line
    · exact .malformed ⟨hbegins, h⟩
    · cases hchars : trimChars line.toList with
      | nil => exact .blank hchars
      | cons c rest =>
        by_cases hslash : c = '/'
        · subst hslash
          have hdirects := directs_splitWord hchars
          exact .unknown hdirects fun hword => hbegins ⟨_, hword, _, hdirects⟩
        · exact .plain (by simpa [hchars] using hslash)

/-- Reading a line finds a fault in it just when it is malformed. -/
theorem readLine_error_iff (c : Config) :
    (∃ fault, c.readLine line = .error fault) ↔ Malformed line := by
  constructor
  · rintro ⟨fault, h⟩
    refine ⟨?_, ?_⟩
    · by_contra hbegins
      rw [readLine_of_not_begins c hbegins] at h
      cases h
    · rintro ⟨d, hd⟩
      rw [readLine_of_means c hd] at h
      cases h
  · rintro ⟨hbegins, hmeans⟩
    cases h : c.readLine line with
    | error fault => exact ⟨fault, rfl⟩
    | ok c' => exact absurd (exists_means_of_begins hbegins h) hmeans

/-- All that reading a line can do. -/
theorem readLine_cases (c : Config) (line : String) :
    (∃ d, Means line d ∧ c.readLine line = .ok (follow c d)) ∨
      (Idle line ∧ ¬ Malformed line ∧ c.readLine line = .ok c) ∨
      (Idle line ∧ Malformed line ∧ ∃ fault, c.readLine line = .error fault) := by
  by_cases hmeans : ∃ d, Means line d
  · obtain ⟨d, hd⟩ := hmeans
    exact Or.inl ⟨d, hd, readLine_of_means c hd⟩
  · have hidle := idle_iff.mpr hmeans
    by_cases hbegins : Begins line
    · exact Or.inr (Or.inr ⟨hidle, ⟨hbegins, hmeans⟩, (readLine_error_iff c).mpr ⟨hbegins, hmeans⟩⟩)
    · exact Or.inr (Or.inl ⟨hidle, fun h => hbegins h.1, readLine_of_not_begins c hbegins⟩)

end Lines

/-- A directive is known by what it does. -/
theorem follow_injective {d' : Directive} (h : ∀ c, follow c d = follow c d') : d = d' := by
  cases d with
  | tickLength ms =>
    have hset := congrArg Config.tickLength (h { tickLength := ms + 1 })
    cases d' <;> simp_all [follow]
  | scanLimit n =>
    have hset := congrArg Config.scanLimit (h { scanLimit := n + 1 })
    cases d' <;> simp_all [follow]
  | echo on =>
    have hset := congrArg Config.echo (h { echo := !on })
    cases d' <;> simp_all [follow]
  | global name v =>
    have hset := congrArg Config.globals (h {})
    cases d' <;> simp_all [follow]
  | load path =>
    have hset := congrArg Config.loads (h {})
    cases d' <;> simp_all [follow]

theorem Means.unique {line : String} {d' : Directive} (h : Means line d) (h' : Means line d') :
    d = d' := by
  refine follow_injective fun c => ?_
  have hread := readLine_of_means c h
  rw [readLine_of_means c h'] at hread
  exact (Except.ok.inj hread).symm

/-! ## All lines -/

/-- These are the directives of the lines, in order. -/
inductive Asks : List String → List Directive → Prop
  | nil : Asks [] []
  | cons {line : String} {d : Directive} {lines : List String} {ds : List Directive}
      (hline : Means line d) (hlines : Asks lines ds) : Asks (line :: lines) (d :: ds)
  | idle {line : String} {lines : List String} {ds : List Directive}
      (hline : Idle line) (hlines : Asks lines ds) : Asks (line :: lines) ds

/-- Some idle lines are left out. -/
inductive LeavesOut : List String → List String → Prop
  | nil : LeavesOut [] []
  | keep {line : String} {lines lines' : List String} (hlines : LeavesOut lines lines') :
      LeavesOut (line :: lines) (line :: lines')
  | drop {line : String} {lines lines' : List String} (hline : Idle line)
      (hlines : LeavesOut lines lines') : LeavesOut (line :: lines) lines'

theorem exists_asks (lines : List String) : ∃ ds, Asks lines ds := by
  induction lines with
  | nil => exact ⟨[], .nil⟩
  | cons line lines ih =>
    obtain ⟨ds, hds⟩ := ih
    by_cases hmeans : ∃ d, Means line d
    · obtain ⟨d, hd⟩ := hmeans
      exact ⟨d :: ds, .cons hd hds⟩
    · exact ⟨ds, .idle (idle_iff.mpr hmeans) hds⟩

theorem Asks.unique {lines : List String} {ds' : List Directive} (h : Asks lines ds)
    (h' : Asks lines ds') : ds = ds' := by
  induction h generalizing ds' with
  | nil =>
    cases h'
    rfl
  | cons hline _ ih =>
    cases h' with
    | cons hline' hlines' => rw [hline.unique hline', ih hlines']
    | idle hline' => exact absurd ⟨_, hline⟩ (idle_iff.mp hline')
  | idle hline _ ih =>
    cases h' with
    | cons hline' => exact absurd ⟨_, hline'⟩ (idle_iff.mp hline)
    | idle _ hlines' => exact ih hlines'

theorem Asks.of_leavesOut {lines lines' : List String} (h : LeavesOut lines lines')
    (hds : Asks lines ds) : Asks lines' ds := by
  induction h generalizing ds with
  | nil => exact hds
  | keep _ ih =>
    cases hds with
    | cons hline hlines => exact .cons hline (ih hlines)
    | idle hline hlines => exact .idle hline (ih hlines)
  | drop hdrop _ ih =>
    cases hds with
    | cons hline => exact absurd ⟨_, hline⟩ (idle_iff.mp hdrop)
    | idle _ hlines => exact ih hlines

/-- The settings are those that the directives make one after the other. -/
theorem fst_readLines {lines : List String} (h : Asks lines ds) (c : Config) (n : Nat) :
    (c.readLines n lines).1 = ds.foldl follow c := by
  induction h generalizing c n with
  | nil => rfl
  | cons hline _ ih =>
    simp only [readLines, readLine_of_means c hline]
    exact ih _ _
  | @idle line _ _ hline _ ih =>
    obtain ⟨d, hd, -⟩ | ⟨-, -, hread⟩ | ⟨-, -, fault, hread⟩ := readLine_cases c line
    · exact absurd ⟨d, hd⟩ (idle_iff.mp hline)
    · simp only [readLines, hread]
      exact ih _ _
    · simp only [readLines, hread]
      exact ih _ _

/-- Complaints are about the malformed lines. -/
theorem mem_snd_readLines {lines : List String} (c : Config) (n number : Nat) :
    number ∈ (c.readLines n lines).2.map ConfigComplaint.line ↔
      ∃ i line, number = n + i ∧ lines[i]? = some line ∧ Malformed line := by
  induction lines generalizing c n with
  | nil => simp [readLines]
  | cons line lines ih =>
    have hshift : (∃ i line', number = n + i ∧ (line :: lines)[i]? = some line' ∧
        Malformed line') ↔ (number = n ∧ Malformed line) ∨
        ∃ i line', number = n + 1 + i ∧ lines[i]? = some line' ∧ Malformed line' := by
      rw [Nat.or_exists_add_one.symm]
      simp [Nat.add_assoc, Nat.add_comm 1]
    rw [hshift]
    obtain ⟨d, hd, hread⟩ | ⟨-, hwell, hread⟩ | ⟨-, hbad, fault, hread⟩ := readLine_cases c line
    · have hwell : ¬ Malformed line := fun h => h.2 ⟨d, hd⟩
      simp [readLines, hread, ih, hwell]
    · simp [readLines, hread, ih, hwell]
    · have hcons : (c.readLines n (line :: lines)).2.map ConfigComplaint.line =
          n :: (c.readLines (n + 1) lines).2.map ConfigComplaint.line := by
        simp only [readLines, hread, List.map_cons]
      rw [hcons, List.mem_cons, ih c (n + 1)]
      simp only [hbad, and_true]

/-- Complaints come in the order of their lines. -/
theorem pairwise_snd_readLines (lines : List String) (c : Config) (n : Nat) :
    ((c.readLines n lines).2.map ConfigComplaint.line).Pairwise (· < ·) := by
  induction lines generalizing c n with
  | nil => exact .nil
  | cons line lines ih =>
    unfold readLines
    split
    · exact ih _ _
    · refine List.pairwise_cons.mpr ⟨fun number hnumber => ?_, ih c (n + 1)⟩
      obtain ⟨i, -, rfl, -⟩ := (mem_snd_readLines c (n + 1) number).mp hnumber
      change n < n + 1 + i
      omega

/-! ## What the directives come to -/

namespace Directive

def tickLength? : Directive → Option Nat
  | .tickLength ms => some ms
  | _ => none

def scanLimit? : Directive → Option Nat
  | .scanLimit n => some n
  | _ => none

def echo? : Directive → Option Bool
  | .echo on => some on
  | _ => none

def definition? : Directive → Option (String × Value)
  | .global name v => some (name, v)
  | _ => none

def path? : Directive → Option String
  | .load path => some path
  | _ => none

end Directive

/-- The settings are what the directives come to: for each setting the last value or the default,
for each global its last definition, in the order of these, and all scripts in order. -/
structure IsOutcome (ds : List Directive) (c : Config) : Prop where
  tickLength : c.tickLength = (ds.filterMap Directive.tickLength?).getLast?.getD 50
  scanLimit : c.scanLimit = (ds.filterMap Directive.scanLimit?).getLast?.getD 32768
  echo : c.echo = (ds.filterMap Directive.echo?).getLast?.getD false
  nodup : (c.globals.map Prod.fst).Nodup
  names : c.globals.map Prod.fst = ((ds.filterMap Directive.definition?).map Prod.fst).dedup
  globals : ∀ name v, (name, v) ∈ c.globals ↔ ∃ before after,
    ds.filterMap Directive.definition? = before ++ (name, v) :: after ∧
      name ∉ after.map Prod.fst
  loads : c.loads = ds.filterMap Directive.path?

/-- A setting that a directive gives a new value or leaves has its last value in the end. -/
theorem foldl_follow_getLast? {α : Type} {get : Config → α} {new? : Directive → Option α}
    (hstep : ∀ c d, get (follow c d) = (new? d).getD (get c)) (ds : List Directive) (c : Config) :
    get (ds.foldl follow c) = (ds.filterMap new?).getLast?.getD (get c) := by
  induction ds using List.reverseRecOn with
  | nil => rfl
  | append_singleton ds d ih =>
    rw [List.foldl_append, List.foldl_cons, List.foldl_nil, hstep, ih, List.filterMap_append]
    cases hd : new? d <;> simp [hd]

theorem loads_foldl_follow (ds : List Directive) (c : Config) :
    (ds.foldl follow c).loads = c.loads ++ ds.filterMap Directive.path? := by
  induction ds generalizing c with
  | nil => simp
  | cons d ds ih =>
    rw [List.foldl_cons, ih]
    cases d with
    | load path => exact List.append_assoc ..
    | _ => rfl

/-- The definitions with a further one. -/
def redefine (globals : List (String × Value)) (g : String × Value) : List (String × Value) :=
  globals.filter (·.1 ≠ g.1) ++ [g]

theorem globals_foldl_follow (ds : List Directive) (c : Config) :
    (ds.foldl follow c).globals =
      (ds.filterMap Directive.definition?).foldl redefine c.globals := by
  induction ds generalizing c with
  | nil => rfl
  | cons d ds ih =>
    rw [List.foldl_cons, ih]
    cases d <;> rfl

theorem dedup_concat (names : List String) (name : String) :
    (names ++ [name]).dedup = names.dedup.filter (· ≠ name) ++ [name] := by
  induction names with
  | nil => simp
  | cons first names ih =>
    rw [List.cons_append]
    by_cases hmem : first ∈ names
    · rw [List.dedup_cons_of_mem hmem, List.dedup_cons_of_mem (List.mem_append_left _ hmem), ih]
    · rw [List.dedup_cons_of_notMem hmem]
      by_cases hname : first = name
      · rw [List.dedup_cons_of_mem (by simp [hname]), ih, List.filter_cons_of_neg (by simp [hname])]
      · rw [List.dedup_cons_of_notMem (by simp [hmem, hname]), ih,
          List.filter_cons_of_pos (by simpa using hname), List.cons_append]

theorem names_redefine (definitions : List (String × Value)) :
    (definitions.foldl redefine []).map Prod.fst = (definitions.map Prod.fst).dedup := by
  induction definitions using List.reverseRecOn with
  | nil => rfl
  | append_singleton definitions g ih =>
    rw [List.foldl_append, List.foldl_cons, List.foldl_nil, List.map_append, List.map_cons,
      List.map_nil, dedup_concat, ← ih, redefine, List.map_append, List.filter_map]
    rfl

/-- What is left of the definitions are those that no later one is in the place of. -/
theorem mem_redefine_iff (definitions : List (String × Value)) (name : String) (v : Value) :
    (name, v) ∈ definitions.foldl redefine [] ↔ ∃ before after,
      definitions = before ++ (name, v) :: after ∧ name ∉ after.map Prod.fst := by
  induction definitions using List.reverseRecOn with
  | nil => simp
  | append_singleton definitions g ih =>
    rw [List.foldl_append, List.foldl_cons, List.foldl_nil, redefine, List.mem_append,
      List.mem_filter, ih, List.mem_singleton]
    constructor
    · rintro (⟨⟨before, after, rfl, hafter⟩, hg⟩ | rfl)
      · exact ⟨before, after ++ [g], by simp, by simpa [hafter] using hg⟩
      · exact ⟨definitions, [], rfl, by simp⟩
    · rintro ⟨before, after, hsplit, hafter⟩
      obtain rfl | ⟨after, last, rfl⟩ := after.eq_nil_or_concat'
      · exact Or.inr (List.append_inj_right' hsplit rfl |> List.singleton_inj.mp).symm
      · rw [← List.cons_append, ← List.append_assoc] at hsplit
        obtain ⟨rfl, hlast⟩ := List.append_inj' hsplit rfl
        cases hlast
        simp only [List.map_append, List.mem_append, not_or] at hafter
        exact Or.inl ⟨⟨before, after, rfl, hafter.1⟩, by simpa using hafter.2⟩

theorem isOutcome_foldl (ds : List Directive) : IsOutcome ds (ds.foldl follow {}) where
  tickLength := foldl_follow_getLast? (by rintro c (_ | _ | _ | _ | _) <;> rfl) ds {}
  scanLimit := foldl_follow_getLast? (by rintro c (_ | _ | _ | _ | _) <;> rfl) ds {}
  echo := foldl_follow_getLast? (by rintro c (_ | _ | _ | _ | _) <;> rfl) ds {}
  nodup := by
    rw [globals_foldl_follow, names_redefine]
    exact List.nodup_dedup _
  names := by rw [globals_foldl_follow, names_redefine]
  globals name v := by rw [globals_foldl_follow, mem_redefine_iff]
  loads := by rw [loads_foldl_follow, List.nil_append]

/-- A line of a start-up file that is no well-formed directive has no effect. Whatever idle lines
are left out, the settings are the same. The complaints are about the malformed lines, by number and
in order. And the settings are what the directives of the other lines come to. -/
theorem idle_lines_have_no_effect (text : String) :
    (∀ text', LeavesOut (lines text) (lines text') → (read text').1 = (read text).1) ∧
    ((read text).2.map ConfigComplaint.line).Pairwise (· < ·) ∧
    (∀ number, number ∈ (read text).2.map ConfigComplaint.line ↔
      ∃ i line, number = 1 + i ∧ (lines text)[i]? = some line ∧ Malformed line) ∧
    ∃ ds, (∀ ds', Asks (lines text) ds' ↔ ds' = ds) ∧ IsOutcome ds (read text).1 := by
  obtain ⟨ds, hds⟩ := exists_asks (lines text)
  have hread : (read text).1 = ds.foldl follow {} := fst_readLines hds {} 1
  refine ⟨fun text' hleft => ?_, pairwise_snd_readLines _ _ _, mem_snd_readLines _ _, ds,
    fun ds' => ⟨fun h => h.unique hds, fun h => h ▸ hds⟩, hread ▸ isOutcome_foldl ds⟩
  rw [hread]
  exact fst_readLines (hds.of_leavesOut hleft) {} 1

namespace Overridden

/-- Good, bad and overriding lines. -/
def text : String := "; go\n/set echo=?\r\n/global a=1\n/global b 2\n\n/f x\n/global a='c'\n/load"

/-- The same without some of its idle lines. -/
def shorter : String := "/global a=1\n/global b 2\n/global a='c'\n/load\n"

theorem lines_text : lines text =
    ["; go", "/set echo=?", "/global a=1", "/global b 2", "", "/f x", "/global a='c'",
      "/load"] := by
  decide

theorem lines_shorter : lines shorter =
    ["/global a=1", "/global b 2", "/global a='c'", "/load"] := by
  decide

theorem leavesOut : LeavesOut (lines text) (lines shorter) := by
  have hunknown : Directs "/f x" "f" ['x'] := ⟨['f', ' ', 'x'], by decide, by decide⟩
  have hmalformed : Malformed "/set echo=?" := (readLine_error_iff {}).mp ⟨.badEcho "?", rfl⟩
  rw [lines_text, lines_shorter]
  refine .drop (.comment (by decide)) (.drop (.malformed hmalformed) (.keep (.keep ?_)))
  exact .drop (.blank (by decide)) (.drop (.unknown hunknown (by decide)) (.keep (.keep .nil)))

end Overridden

open Overridden in
/-- In the longer text `a` is defined twice, with `b` in between, and two lines are malformed. One
of them is in the shorter text too. -/
theorem a_crowded_file_can_be_shortened :
    LeavesOut (lines text) (lines shorter) ∧ (read shorter).1 = (read text).1 ∧
      ((read text).1.globals.map fun g => (g.1, g.2.typeName, g.2.display)) =
        [("b", "number", "2"), ("a", "string", "c")] ∧
      (read text).2.map ConfigComplaint.line = [2, 8] := by
  obtain ⟨hdrop, -⟩ := idle_lines_have_no_effect text
  exact ⟨leavesOut, hdrop shorter leavesOut, by decide +kernel, by decide +kernel⟩

end TickScript.Config
