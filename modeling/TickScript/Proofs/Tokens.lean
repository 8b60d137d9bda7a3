-- A lexer loses nothing of a text and makes nothing up: the tokens stand where they say, as they
-- are written there, and what stands between them is blank.
import Mathlib.Data.List.Induction
import Mathlib.Data.List.TakeWhile
import TickScript.Token.Lexer

namespace TickScript

open TickScript.Text

variable {c : Char} {p : Piece} {after : Lexer} {tokens : List Token} {ending : Option Fault}
  {rest : List Char} {ops : OperatorTable}

/-! ## Places -/

namespace Place

theorem after_append (p : Place) (cs ds : List Char) :
    p.after (cs ++ ds) = (p.after cs).after ds := by
  simp only [after, List.foldl_append]

theorem pos_after (p : Place) (cs : List Char) : (p.after cs).pos = p.pos + cs.length := by
  induction cs generalizing p with
  | nil => rfl
  | cons c rest ih =>
    have hstep : (p.step c).pos = p.pos + 1 := by
      unfold step
      split <;> rfl
    have hrest := ih (p.step c)
    rw [hstep] at hrest
    rw [List.length_cons]
    exact hrest.trans (by omega)

theorem line_after (p : Place) (cs : List Char) :
    (p.after cs).line = p.line + cs.count '\n' := by
  induction cs generalizing p with
  | nil => rfl
  | cons c rest ih =>
    refine (ih (p.step c)).trans ?_
    unfold step
    by_cases hc : c = '\n'
    · simp only [hc, ↓reduceIte, List.count_cons_self]
      omega
    · simp [hc]

theorem column_after_start (cs : List Char) :
    (Place.start.after cs).column = (cs.reverse.takeWhile (· ≠ '\n')).length := by
  induction cs using List.reverseRecOn with
  | nil => rfl
  | append_singleton cs c ih =>
    rw [after_append, List.reverse_append]
    change ((Place.start.after cs).step c).column = _
    unfold step
    by_cases hc : c = '\n'
    · simp [hc]
    · simp [hc, ih]

end Place

/-! ## Pieces -/

/-- How a token of this kind is written: a quoted text stands between quotes. -/
def TokenKind.spell (kind : TokenKind) (surface : List Char) : List Char :=
  if kind = .text then '\'' :: surface ++ ['\''] else surface

/-- The characters that a token takes up in a script. -/
def Token.spelled (t : Token) : List Char := t.kind.spell t.surface.toList

/-- A piece is written as its kind demands, takes up some characters, and leaves the rest. -/
structure Piece.Heads (p : Piece) (cs : List Char) : Prop where
  written : p.spelled = p.kind.spell p.surface
  taken : p.spelled ≠ []
  split : p.spelled ++ p.rest = cs

theorem takeFraction_append (cs : List Char) : (takeFraction cs).1 ++ (takeFraction cs).2 = cs := by
  unfold takeFraction
  split
  · dsimp only
    split
    · rfl
    · simp
  · rfl

theorem takeExponent_append (cs : List Char) : (takeExponent cs).1 ++ (takeExponent cs).2 = cs := by
  unfold takeExponent
  split
  · rfl
  · split
    · dsimp only
      split <;> split <;> simp_all
    · rfl

theorem cutAt?_append {p : Char → Bool} {cs before after : List Char}
    (h : cutAt? p cs = some (before, after)) :
    (∀ c ∈ before, p c = false) ∧ ∃ c, p c = true ∧ before ++ c :: after = cs := by
  induction cs generalizing before with
  | nil => cases h
  | cons c rest ih =>
    unfold cutAt? at h
    split at h
    · cases h
      exact ⟨by simp, c, ‹_›, rfl⟩
    · obtain ⟨⟨b, a⟩, hcut, hpair⟩ := Option.map_eq_some_iff.mp h
      cases hpair
      obtain ⟨hb, d, hd, hsplit⟩ := ih hcut
      refine ⟨?_, d, hd, ?_⟩
      · simpa using ⟨by simp_all, hb⟩
      · simp [← hsplit]

theorem startsNumber_cons (h : startsNumber (c :: rest) = true) :
    c.isDigit = true ∨ c = '.' ∧ ∃ d tail, rest = d :: tail ∧ d.isDigit = true := by
  unfold startsNumber at h
  split at h
  · rename_i heq
    cases heq
    exact Or.inr ⟨rfl, _, _, rfl, h⟩
  · rename_i heq
    cases heq
    exact Or.inl h
  · cases h

theorem readDecimal_heads {cs : List Char} (h : startsNumber cs = true) :
    (readDecimal cs).Heads cs := by
  have hfraction := takeFraction_append (cs.dropWhile Char.isDigit)
  have hexponent := takeExponent_append (takeFraction (cs.dropWhile Char.isDigit)).2
  refine ⟨rfl, ?_, ?_⟩
  · rcases cs with _ | ⟨c, rest⟩
    · cases h
    rcases startsNumber_cons h with hc | ⟨rfl, d, tail, rfl, hd⟩
    · simp [readDecimal, hc]
    · simp [readDecimal, takeFraction, hd]
  · simp only [readDecimal, List.append_assoc, hexponent, hfraction,
      List.takeWhile_append_dropWhile]

theorem readNumber_heads {cs : List Char} (hs : startsNumber cs = true)
    (h : readNumber cs = .ok p) : p.Heads cs := by
  unfold readNumber at h
  split at h
  · split at h
    · dsimp only at h
      split at h
      · cases h
      · cases h
        exact ⟨rfl, by simp, by simp⟩
    · cases h
      exact readDecimal_heads hs
  · cases h
    exact readDecimal_heads hs

theorem readText_heads (h : readText rest = .ok p) : p.Heads ('\'' :: rest) := by
  unfold readText at h
  split at h
  · rename_i body after hcut
    cases h
    obtain ⟨_, c, hc, hsplit⟩ := cutAt?_append hcut
    have hquote : c = '\'' := by simpa using hc
    exact ⟨rfl, by simp, by simp [← hsplit, hquote]⟩
  · cases h

theorem continuesName_of_startsName (h : startsName c = true) : continuesName c = true := by
  simp only [startsName, continuesName, Bool.or_eq_true] at h ⊢
  exact h.imp_left Or.inl

theorem readName_heads (hc : startsName c = true) : (readName (c :: rest)).Heads (c :: rest) := by
  refine ⟨?_, ?_, ?_⟩
  · unfold readName TokenKind.spell
    dsimp only
    split <;> rfl
  · simp [readName, continuesName_of_startsName hc]
  · simp [readName]

theorem readOperator_heads {kind : TokenKind} (hkind : kind ≠ .text)
    (h : readOperator ops kind (c :: rest) = .ok p) : p.Heads (c :: rest) := by
  unfold readOperator at h
  dsimp only at h
  split at h
  · cases h
  · rename_i hlongest
    cases h
    exact ⟨by simp [TokenKind.spell, hkind], by simp [hlongest], by simp⟩

/-- A piece is the head of the text that it is read from. -/
theorem readPiece_heads {kind : TokenKind} (hkind : kind ≠ .text)
    (h : readPiece ops kind c rest = .ok p) : p.Heads (c :: rest) := by
  have hsingle : ∀ kind : TokenKind, kind ≠ .text → (singlePiece kind c rest).Heads (c :: rest) :=
    fun kind hkind => ⟨by simp [singlePiece, TokenKind.spell, hkind], by simp [singlePiece], rfl⟩
  unfold readPiece at h
  split at h
  · exact readNumber_heads ‹_› h
  split at h
  · rename_i hc
    exact hc ▸ readText_heads h
  split at h
  · cases h
    exact readName_heads ‹_›
  split at h
  · cases h
    exact hsingle _ (by decide)
  split at h
  · cases h
    exact hsingle _ (by decide)
  split at h
  · cases h
    exact hsingle _ (by decide)
  · exact readOperator_heads hkind h

/-! ## Pulls -/

namespace Lexer

variable {source : Source} {l : Lexer}

/-- The token of a piece that is read next. -/
def tokenOf (l : Lexer) (p : Piece) : Token :=
  { kind := p.kind, surface := String.ofList p.surface, place := l.skipBlanks.place }

/-- The lexer behind a piece that is read next. -/
def past (l : Lexer) (p : Piece) : Lexer :=
  { l with
    rest := p.rest
    place := l.skipBlanks.place.after p.spelled
    previous := some (l.tokenOf p) }

theorem operatorKind_ne_text (l : Lexer) : l.operatorKind ≠ .text := by
  unfold operatorKind
  split <;> decide

theorem next_of_piece (hfailed : l.failed = false) (hrest : l.skipBlanks.rest = c :: rest)
    (hpiece : readPiece ops l.operatorKind c rest = .ok p)
    (hclash : l.clash? (l.tokenOf p) = none) :
    l.next ops source = (.token (l.tokenOf p), l.past p) := by
  have hkind : l.skipBlanks.operatorKind = l.operatorKind := rfl
  unfold next
  simp only [hfailed, Bool.false_eq_true, ↓reduceIte, hrest, hkind, hpiece]
  have hclash : l.skipBlanks.clash? (l.tokenOf p) = none := hclash
  unfold tokenOf at hclash
  rw [hclash]
  rfl

/-- What a pull at a lexer can be. -/
theorem next_cases (ops : OperatorTable) (source : Source) {l : Lexer}
    (hfailed : l.failed = false) :
    (∃ after, l.next ops source = (.finished, after) ∧ l.skipBlanks.rest = []) ∨
    (∃ cause t after, l.next ops source = (.fault (.ofSite cause ⟨t, source⟩), after) ∧
      t.place = l.skipBlanks.place) ∨
    (∃ c rest p, l.skipBlanks.rest = c :: rest ∧ readPiece ops l.operatorKind c rest = .ok p ∧
      l.next ops source = (.token (l.tokenOf p), l.past p)) := by
  have hkind : l.skipBlanks.operatorKind = l.operatorKind := rfl
  rcases hrest : l.skipBlanks.rest with _ | ⟨c, rest⟩
  · left
    refine ⟨l.skipBlanks, ?_, rfl⟩
    unfold next
    simp only [hfailed, Bool.false_eq_true, ↓reduceIte, hrest]
  right
  cases hpiece : readPiece ops l.operatorKind c rest with
  | error bad =>
    left
    refine ⟨bad.cause, ⟨bad.kind, String.ofList bad.surface, l.skipBlanks.place⟩,
      { l.skipBlanks with failed := true }, ?_, rfl⟩
    unfold next
    simp only [hfailed, Bool.false_eq_true, ↓reduceIte, hrest, hkind, hpiece]
  | ok p =>
    cases hclash : l.clash? (l.tokenOf p) with
    | none =>
      right
      exact ⟨c, rest, p, rfl, hpiece, next_of_piece hfailed hrest hpiece hclash⟩
    | some cause =>
      left
      refine ⟨cause, l.tokenOf p, { l.skipBlanks with failed := true }, ?_, rfl⟩
      have hclash : l.skipBlanks.clash? (l.tokenOf p) = some cause := hclash
      unfold tokenOf at hclash
      unfold next
      simp only [hfailed, Bool.false_eq_true, ↓reduceIte, hrest, hkind, hpiece]
      rw [hclash]
      rfl

theorem of_next_finished (hfailed : l.failed = false) (h : l.next ops source = (.finished, after)) :
    l.skipBlanks.rest = [] := by
  rcases next_cases ops source hfailed with
    ⟨_, _, hrest⟩ | ⟨_, _, _, hnext, _⟩ | ⟨_, _, _, _, _, hnext⟩
  · exact hrest
  · rw [h] at hnext
    cases hnext
  · rw [h] at hnext
    cases hnext

theorem of_next_fault {f : Fault} (hfailed : l.failed = false)
    (h : l.next ops source = (.fault f, after)) :
    ∃ cause t, f = .ofSite cause ⟨t, source⟩ ∧ t.place = l.skipBlanks.place := by
  rcases next_cases ops source hfailed with
    ⟨_, hnext, _⟩ | ⟨cause, t, _, hnext, ht⟩ | ⟨_, _, _, _, _, hnext⟩
  · rw [h] at hnext
    cases hnext
  · rw [h] at hnext
    cases hnext
    exact ⟨cause, t, rfl, ht⟩
  · rw [h] at hnext
    cases hnext

theorem of_next_token {t : Token} (hfailed : l.failed = false)
    (h : l.next ops source = (.token t, after)) :
    ∃ c rest p, l.skipBlanks.rest = c :: rest ∧ readPiece ops l.operatorKind c rest = .ok p ∧
      t = l.tokenOf p ∧ after = l.past p := by
  rcases next_cases ops source hfailed with
    ⟨_, hnext, _⟩ | ⟨_, _, _, hnext, _⟩ | ⟨c, rest, p, hrest, hpiece, hnext⟩
  · rw [h] at hnext
    cases hnext
  · rw [h] at hnext
    cases hnext
  · rw [h] at hnext
    cases hnext
    exact ⟨c, rest, p, hrest, hpiece, rfl, rfl⟩

/-- The text before the next piece is blank. -/
theorem rest_eq_blanks (l : Lexer) :
    l.rest = l.rest.takeWhile isBlank ++ l.skipBlanks.rest := by
  simp [skipBlanks]

/-! ## Emissions -/

/-- Pulling at a lexer until it is finished or gives a fault. -/
inductive Emits (ops : OperatorTable) (source : Source) : Lexer → List Token → Option Fault → Prop
  | finished {l after : Lexer} (h : l.next ops source = (.finished, after)) :
      Emits ops source l [] none
  | fault {l after : Lexer} {f : Fault} (h : l.next ops source = (.fault f, after)) :
      Emits ops source l [] (some f)
  | token {l after : Lexer} {t : Token} {tokens : List Token} {ending : Option Fault}
      (h : l.next ops source = (.token t, after)) (hrest : Emits ops source after tokens ending) :
      Emits ops source l (t :: tokens) ending

theorem Emits.unique {others : List Token} {otherEnding : Option Fault}
    (h : Emits ops source l tokens ending) (hother : Emits ops source l others otherEnding) :
    others = tokens ∧ otherEnding = ending := by
  induction h generalizing others otherEnding with
  | finished h => cases hother <;> simp_all
  | fault h => cases hother <;> simp_all
  | token h hrest ih =>
    cases hother with
    | finished h' => simp_all
    | fault h' => simp_all
    | token h' hrest' =>
      rw [h] at h'
      cases h'
      obtain ⟨htokens, hending⟩ := ih hrest'
      exact ⟨by rw [htokens], hending⟩

theorem length_past_lt (hrest : l.skipBlanks.rest = c :: rest)
    (hpiece : readPiece ops l.operatorKind c rest = .ok p) :
    (l.past p).rest.length < l.rest.length := by
  have hheads := readPiece_heads l.operatorKind_ne_text hpiece
  have hlength : p.spelled.length + p.rest.length = l.skipBlanks.rest.length := by
    rw [hrest, ← hheads.split, List.length_append]
  have hpos : 0 < p.spelled.length := List.length_pos_iff.mpr hheads.taken
  have hblanks : l.skipBlanks.rest.length ≤ l.rest.length := by
    rw [l.rest_eq_blanks, List.length_append]
    omega
  change p.rest.length < _
  omega

/-- Every lexer comes to an end. -/
theorem exists_emits (ops : OperatorTable) (source : Source) (l : Lexer)
    (hfailed : l.failed = false) : ∃ tokens ending, Emits ops source l tokens ending := by
  induction hlength : l.rest.length using Nat.strongRecOn generalizing l with
  | ind n ih =>
    rcases next_cases ops source hfailed with
      ⟨after, hnext, _⟩ | ⟨cause, t, after, hnext, _⟩ | ⟨c, rest, p, hrest, hpiece, hnext⟩
    · exact ⟨[], none, .finished hnext⟩
    · exact ⟨[], some _, .fault hnext⟩
    · have hlt := length_past_lt hrest hpiece
      obtain ⟨tokens, ending, hemits⟩ := ih _ (hlength ▸ hlt) (l.past p) hfailed rfl
      exact ⟨_, ending, .token hnext hemits⟩

/-- Collecting the tokens is pulling until the end; the fuel is enough. -/
theorem collect_of_emits (h : Emits ops source l tokens ending) (hfailed : l.failed = false)
    {fuel : Nat} (hfuel : l.rest.length < fuel) (read : List Token) :
    l.collect ops source fuel read = ending.elim (.ok (read.reverse ++ tokens)) .error := by
  induction h generalizing fuel read with
  | finished h =>
    obtain ⟨fuel, rfl⟩ : ∃ f, fuel = f + 1 := ⟨fuel - 1, by omega⟩
    simp [collect, h]
  | fault h =>
    obtain ⟨fuel, rfl⟩ : ∃ f, fuel = f + 1 := ⟨fuel - 1, by omega⟩
    simp [collect, h]
  | @token l after t tokens ending h hrest ih =>
    obtain ⟨fuel, rfl⟩ : ∃ f, fuel = f + 1 := ⟨fuel - 1, by omega⟩
    obtain ⟨c, rest, p, hblanks, hpiece, rfl, rfl⟩ := of_next_token hfailed h
    have hlt := length_past_lt hblanks hpiece
    simp only [collect, h]
    rw [ih hfailed (by omega)]
    simp

end Lexer

theorem tokenize_of_emits {source : Source}
    (h : Lexer.Emits ops source (.ofCode source.code true) tokens ending) :
    tokenize ops source = ending.elim (.ok tokens) .error :=
  Lexer.collect_of_emits h rfl (Nat.lt_succ_self _) []

theorem emits_of_tokenize {source : Source} (h : tokenize ops source = .ok tokens) :
    Lexer.Emits ops source (.ofCode source.code true) tokens none := by
  obtain ⟨read, ending, hemits⟩ := Lexer.exists_emits ops source (.ofCode source.code true) rfl
  rw [tokenize_of_emits hemits] at h
  cases ending with
  | some f => cases h
  | none =>
    cases h
    exact hemits

/-! ## Tokens and text -/

/-- Where the token ends. -/
def Token.stop (t : Token) : Nat := t.place.pos + t.spelled.length

/-- The place that a fault is reported at. -/
def Fault.place? (f : Fault) : Option Place := f.site.map (·.token.place)

/-- The place is a true one: it counts the line feeds before it, and the characters since the
last of these. -/
def Place.TrueIn (cs : List Char) (p : Place) : Prop :=
  p.line = (cs.take p.pos).count '\n' ∧
  p.column = ((cs.take p.pos).reverse.takeWhile (· ≠ '\n')).length

/-- The places of some tokens, and of the fault that ends them. -/
def placesOf (tokens : List Token) (ending : Option Fault) : List Place :=
  tokens.map (·.place) ++ (ending.bind Fault.place?).toList

/-- The tokens are the text from `start` on, up to its end or to the place of the fault. -/
structure Covers (cs : List Char) (start : Nat) (tokens : List Token) (ending : Option Fault) :
    Prop where
  increasing : (placesOf tokens ending).Pairwise fun p q => p.pos < q.pos
  begins : ∀ p ∈ placesOf tokens ending, start ≤ p.pos
  placed : ∀ p ∈ placesOf tokens ending, p.TrueIn cs
  /-- The text at the place of a token is the token as it is written. -/
  spelled : ∀ t ∈ tokens, t.spelled <+: cs.drop t.place.pos
  /-- A token ends before the next one, or the fault, begins. -/
  apart : tokens.Pairwise fun t u => t.stop ≤ u.place.pos
  apartFromFault : ∀ t ∈ tokens, ∀ p ∈ ending.bind Fault.place?, t.stop ≤ p.pos
  /-- What belongs to no token is blank. -/
  blank : ∀ i c, start ≤ i → cs[i]? = some c → (∀ p ∈ ending.bind Fault.place?, i < p.pos) →
    isBlank c = true ∨ ∃ t ∈ tokens, t.place.pos ≤ i ∧ i < t.stop
  located : ∀ f ∈ ending, f.place?.isSome = true

theorem Place.pos_after_start (read : List Char) : (Place.start.after read).pos = read.length := by
  simp [Place.pos_after, Place.start]

theorem Place.trueIn_after (read rest : List Char) :
    (Place.start.after read).TrueIn (read ++ rest) := by
  unfold Place.TrueIn
  rw [Place.pos_after_start, List.take_left, Place.line_after, Place.column_after_start]
  exact ⟨by simp [Place.start], rfl⟩

namespace Covers

variable {cs read blanks : List Char}

/-- A character of the blanks that come next is blank. -/
theorem isBlank_of_getElem? (hcs : cs = read ++ (blanks ++ rest))
    (hblanks : ∀ c ∈ blanks, isBlank c = true) {i : Nat} (hi : read.length ≤ i)
    (hstop : i < (read ++ blanks).length) (hc : cs[i]? = some c) : isBlank c = true := by
  rw [List.length_append] at hstop
  rw [hcs, List.getElem?_append_right hi, List.getElem?_append_left (by omega)] at hc
  exact hblanks c (List.mem_of_getElem? hc)

theorem nil (hcs : cs = read ++ blanks) (hblanks : ∀ c ∈ blanks, isBlank c = true) :
    Covers cs read.length [] none where
  increasing := by simp [placesOf]
  begins := by simp [placesOf]
  placed := by simp [placesOf]
  spelled := by simp
  apart := by simp
  apartFromFault := by simp
  blank := by
    intro i c hi hc _
    left
    rw [hcs, List.getElem?_append_right hi] at hc
    exact hblanks c (List.mem_of_getElem? hc)
  located := by simp

theorem fault (hcs : cs = read ++ (blanks ++ rest)) (hblanks : ∀ c ∈ blanks, isBlank c = true)
    {f : Fault} (hf : f.place? = some (Place.start.after (read ++ blanks))) :
    Covers cs read.length [] (some f) := by
  have hplaces : placesOf [] (some f) = [Place.start.after (read ++ blanks)] := by
    simp [placesOf, hf]
  refine ⟨?_, ?_, ?_, by simp, by simp, by simp, ?_, ?_⟩
  · simp [hplaces]
  · simp [hplaces, Place.pos_after_start]
  · simpa [hplaces, hcs] using Place.trueIn_after (read ++ blanks) rest
  · intro i c hi hc hstop
    have hstop := hstop _ hf
    rw [Place.pos_after_start] at hstop
    exact Or.inl (isBlank_of_getElem? hcs hblanks hi hstop hc)
  · simp [hf]

theorem cons {t : Token} (hcs : cs = read ++ (blanks ++ (t.spelled ++ rest)))
    (hblanks : ∀ c ∈ blanks, isBlank c = true)
    (hplace : t.place = Place.start.after (read ++ blanks)) (htaken : t.spelled ≠ [])
    (h : Covers cs (read ++ blanks ++ t.spelled).length tokens ending) :
    Covers cs read.length (t :: tokens) ending := by
  have hpos : t.place.pos = (read ++ blanks).length := by rw [hplace, Place.pos_after_start]
  have hstop : t.stop = (read ++ blanks ++ t.spelled).length := by
    simp only [Token.stop, hpos, List.length_append]
  have hlt : t.place.pos < t.stop := by
    have := List.length_pos_iff.mpr htaken
    unfold Token.stop
    omega
  have hplaces : placesOf (t :: tokens) ending = t.place :: placesOf tokens ending := rfl
  refine ⟨?_, ?_, ?_, ?_, ?_, ?_, ?_, h.located⟩
  · rw [hplaces, List.pairwise_cons]
    refine ⟨fun q hq => ?_, h.increasing⟩
    have := h.begins q hq
    omega
  · rw [hplaces, List.forall_mem_cons]
    refine ⟨by rw [hpos, List.length_append]; omega, fun q hq => ?_⟩
    have := h.begins q hq
    simp only [List.length_append] at this
    omega
  · rw [hplaces, List.forall_mem_cons]
    refine ⟨?_, h.placed⟩
    rw [hplace, hcs, ← List.append_assoc]
    exact Place.trueIn_after _ _
  · rw [List.forall_mem_cons]
    refine ⟨?_, h.spelled⟩
    rw [hpos, hcs, ← List.append_assoc, List.drop_left]
    exact List.prefix_append _ _
  · rw [List.pairwise_cons]
    refine ⟨fun u hu => ?_, h.apart⟩
    rw [hstop]
    exact h.begins u.place (by simp [placesOf]; exact Or.inl ⟨u, hu, rfl⟩)
  · rw [List.forall_mem_cons]
    refine ⟨fun p hp => ?_, h.apartFromFault⟩
    rw [hstop]
    exact h.begins p (by simp [placesOf, Option.mem_def.mp hp])
  · intro i c hi hc hbefore
    rcases Nat.lt_or_ge i t.place.pos with hblank | hge
    · exact Or.inl (isBlank_of_getElem? hcs hblanks hi (hpos ▸ hblank) hc)
    rcases Nat.lt_or_ge i t.stop with hinside | hpast
    · exact Or.inr ⟨t, List.mem_cons_self, hge, hinside⟩
    rcases h.blank i c (hstop ▸ hpast) hc hbefore with hblank | ⟨u, hu, hinside⟩
    · exact Or.inl hblank
    · exact Or.inr ⟨u, List.mem_cons_of_mem t hu, hinside⟩

end Covers

/-- A lexer that stands behind `read` covers the rest of the text. -/
theorem Lexer.Emits.covers {source : Source} {l : Lexer} (h : Emits ops source l tokens ending)
    (hfailed : l.failed = false) {cs : List Char} (read : List Char) (hcs : cs = read ++ l.rest)
    (hplace : l.place = Place.start.after read) : Covers cs read.length tokens ending := by
  have hblanks : ∀ l : Lexer, ∀ c ∈ l.rest.takeWhile isBlank, isBlank c = true :=
    fun _ _ hc => List.mem_takeWhile_imp hc
  have hskip : ∀ l : Lexer, l.skipBlanks.place = l.place.after (l.rest.takeWhile isBlank) :=
    fun _ => rfl
  induction h generalizing read with
  | @finished l after h =>
    rw [l.rest_eq_blanks, of_next_finished hfailed h, List.append_nil] at hcs
    exact .nil hcs (hblanks l)
  | @fault l after f h =>
    obtain ⟨cause, t, rfl, ht⟩ := of_next_fault hfailed h
    rw [l.rest_eq_blanks] at hcs
    refine .fault hcs (hblanks l) ?_
    simp [Fault.place?, Fault.ofSite, ht, hskip, hplace, Place.after_append]
  | @token l after t tokens ending h hrest ih =>
    obtain ⟨c, rest, p, hpieces, hpiece, rfl, rfl⟩ := of_next_token hfailed h
    have hheads := readPiece_heads l.operatorKind_ne_text hpiece
    have hspelled : (l.tokenOf p).spelled = p.spelled := by
      simp [Token.spelled, tokenOf, hheads.written]
    have hsplit : cs = read ++ (l.rest.takeWhile isBlank ++ ((l.tokenOf p).spelled ++ p.rest)) := by
      rw [hcs, hspelled, hheads.split, ← hpieces, ← l.rest_eq_blanks]
    refine .cons hsplit (hblanks l) ?_ (hspelled ▸ hheads.taken) (ih hfailed _ ?_ ?_)
    · simp [tokenOf, hskip, hplace, Place.after_append]
    · rw [hsplit]
      simp [past]
    · simp [past, hskip, hplace, hspelled, Place.after_append]

/-- The tokens of a script are its text, whatever the operators are and whether or not an operand
may follow an operand: their positions increase, they stand there as they are written, and what
stands outside them, up to the end or to the place of the fault, is blank. Lines and columns are
true. -/
theorem tokens_cover_the_text (ops : OperatorTable) (source : Source) (strict : Bool) :
    ∃ tokens ending,
      (∀ others otherEnding,
        Lexer.Emits ops source (.ofCode source.code strict) others otherEnding ↔
          others = tokens ∧ otherEnding = ending) ∧
      Covers source.code.toList 0 tokens ending := by
  obtain ⟨tokens, ending, hemits⟩ :=
    Lexer.exists_emits ops source (.ofCode source.code strict) rfl
  refine ⟨tokens, ending, fun others otherEnding => ⟨hemits.unique, ?_⟩,
    hemits.covers rfl [] rfl rfl⟩
  rintro ⟨rfl, rfl⟩
  exact hemits

end TickScript
