-- Tokens apart from their places. A text that is written with some of them is read back as just
-- these, as long as each ends where it should.
import TickScript.Proofs.Words

namespace TickScript

open TickScript.Text

variable {rest cs : List Char} {p : Piece} {c : Char} {kind next : TokenKind} {xs : List Lexeme}
  {ops : OperatorTable} {known : List String}

/-! ## Lexemes -/

/-- A token without its place. -/
structure Lexeme where
  kind : TokenKind
  surface : String
deriving DecidableEq

def Token.lexeme (t : Token) : Lexeme := ⟨t.kind, t.surface⟩

/-- The characters that a lexeme is written with. -/
def Lexeme.spelled (x : Lexeme) : List Char := x.kind.spell x.surface.toList

/-- The lexeme can be read where these are the operators. -/
inductive Lexeme.Legal (known : List String) : Lexeme → Prop
  | name {s : String} (h : IsWord s.toList) : Legal known ⟨.name, s⟩
  | call {s : String} (h : IsWord s.toList) : Legal known ⟨.call, s⟩
  | number {s : String} (h : IsDecimal s.toList) : Legal known ⟨.number, s⟩
  | hex {s : String} (h : IsHexadecimal s.toList) : Legal known ⟨.hex, s⟩
  | text {s : String} (h : '\'' ∉ s.toList) : Legal known ⟨.text, s⟩
  | operator {s : String} (hknown : s ∈ known) (h : IsSign s.toList) : Legal known ⟨.operator, s⟩
  | unary {s : String} (hknown : s ∈ known) (h : IsSign s.toList) : Legal known ⟨.unary, s⟩
  | opening : Legal known ⟨.opening, "("⟩
  | closing : Legal known ⟨.closing, ")"⟩
  | comma : Legal known ⟨.comma, ","⟩

theorem readText_legal (h : readText rest = .ok p) :
    Lexeme.Legal known ⟨p.kind, String.ofList p.surface⟩ := by
  unfold readText at h
  split at h
  · rename_i body after hcut
    cases h
    refine .text ?_
    rw [String.toList_ofList]
    intro hquote
    have := (cutAt?_append hcut).1 _ hquote
    simp at this
  · cases h

theorem readName_legal (hc : startsName c = true) (rest : List Char) :
    Lexeme.Legal known
      ⟨(readName (c :: rest)).kind, String.ofList (readName (c :: rest)).surface⟩ := by
  have hword : IsWord (String.ofList (readName (c :: rest)).surface).toList := by
    have hsurface : (readName (c :: rest)).surface = c :: rest.takeWhile continuesName := by
      simp [readName, continuesName_of_startsName hc]
    rw [String.toList_ofList, hsurface]
    exact .mk hc fun _ hd => List.mem_takeWhile_imp hd
  have hkind : (readName (c :: rest)).kind = .call ∨ (readName (c :: rest)).kind = .name := by
    unfold readName
    dsimp only
    split
    · exact Or.inl rfl
    · exact Or.inr rfl
  rcases hkind with hkind | hkind
  · rw [hkind]
    exact .call hword
  · rw [hkind]
    exact .name hword

theorem readOperator_legal (hops : ops.Knows known) (hkind : kind = .operator ∨ kind = .unary)
    (hblank : isBlank c = false) (hsign : StartsSign c rest)
    (h : readOperator ops kind (c :: rest) = .ok p) :
    Lexeme.Legal known ⟨p.kind, String.ofList p.surface⟩ := by
  rcases scanOperator_cases hops (c :: rest) with ⟨_, hnone⟩ | ⟨op, hne, hop, _⟩
  · obtain ⟨shown, herror⟩ := readOperator_of_none hops hnone kind
    rw [h] at herror
    cases herror
  · rw [readOperator_of_longest hops hop hne] at h
    cases h
    have hop' : IsSign op.toList := by
      obtain ⟨after, hafter⟩ := hop.fits
      rcases hchars : op.toList with _ | ⟨d, cs⟩
      · exact absurd (by simpa using hchars) hne
      rw [hchars, List.cons_append] at hafter
      cases hafter
      exact .mk hblank { hsign with noNumber := startsNumber_of_append hsign.noNumber }
    rw [String.ofList_toList]
    rcases hkind with rfl | rfl
    · exact .operator hop.isKnown hop'
    · exact .unary hop.isKnown hop'

/-- What is read is legal. -/
theorem readPiece_legal (hops : ops.Knows known) (hkind : kind = .operator ∨ kind = .unary)
    (hblank : isBlank c = false) (h : readPiece ops kind c rest = .ok p) :
    Lexeme.Legal known ⟨p.kind, String.ofList p.surface⟩ := by
  unfold readPiece at h
  split at h
  · rcases readNumber_cases ‹_› h with ⟨hp, hnumeral⟩ | ⟨hp, hnumeral⟩
    · rw [hp]
      exact .number (by rwa [String.toList_ofList])
    · rw [hp]
      exact .hex (by rwa [String.toList_ofList])
  rename_i hnumber
  split at h
  · exact readText_legal h
  rename_i htext
  split at h
  · cases h
    exact readName_legal ‹_› rest
  rename_i hname
  split at h
  · rename_i hc
    cases h
    exact hc ▸ .opening
  rename_i hopening
  split at h
  · rename_i hc
    cases h
    exact hc ▸ .closing
  rename_i hclosing
  split at h
  · rename_i hc
    cases h
    exact hc ▸ .comma
  rename_i hcomma
  have hsign : StartsSign c rest :=
    ⟨by simpa using hnumber, htext, by simpa using hname, ⟨hopening, hclosing⟩, hcomma⟩
  exact readOperator_legal hops hkind hblank hsign h

namespace Lexer

variable {source : Source}

theorem operatorKind_cases (l : Lexer) :
    l.operatorKind = .operator ∨ l.operatorKind = .unary := by
  unfold operatorKind
  split
  · exact Or.inr rfl
  · exact Or.inl rfl

theorem isBlank_of_skipBlanks {l : Lexer} (h : l.skipBlanks.rest = c :: rest) :
    isBlank c = false := by
  have := List.head?_dropWhile_not isBlank l.rest
  have hdrop : l.rest.dropWhile isBlank = c :: rest := h
  rw [hdrop] at this
  simpa using this

/-- All tokens of a script are legal. -/
theorem Emits.legal (hops : ops.Knows known) {l : Lexer} {tokens : List Token}
    {ending : Option Fault} (h : Emits ops source l tokens ending) (hfailed : l.failed = false) :
    ∀ t ∈ tokens, t.lexeme.Legal known := by
  induction h with
  | finished => simp
  | fault => simp
  | token h hrest ih =>
    obtain ⟨c, rest, p, hpieces, hpiece, rfl, rfl⟩ := of_next_token hfailed h
    rw [List.forall_mem_cons]
    refine ⟨?_, ih hfailed⟩
    exact readPiece_legal hops (operatorKind_cases _) (isBlank_of_skipBlanks hpieces) hpiece

end Lexer

/-! ## Texts -/

/-- The text is these lexemes, with blanks around them as one likes. Where an operator stands,
none of `known` that is longer fits. -/
inductive Written (known : List String) : List Lexeme → List Char → Prop
  | blank {blanks : List Char} (hblanks : ∀ c ∈ blanks, isBlank c = true) :
      Written known [] blanks
  | lexeme {blanks rest : List Char} {x : Lexeme} {xs : List Lexeme}
      (hblanks : ∀ c ∈ blanks, isBlank c = true)
      (hlongest : x.kind = .operator ∨ x.kind = .unary →
        ∀ op ∈ known, op.toList <+: x.spelled ++ rest → op.length ≤ x.surface.length)
      (hrest : Written known xs rest) : Written known (x :: xs) (blanks ++ (x.spelled ++ rest))

/-- Without blanks lexemes are just spelled one after the other. -/
theorem written_flatMap (xs : List Lexeme) : Written [] xs (xs.flatMap Lexeme.spelled) := by
  induction xs with
  | nil => exact .blank (by simp)
  | cons x xs ih =>
    have h : Written [] (x :: xs) ([] ++ (x.spelled ++ xs.flatMap Lexeme.spelled)) :=
      .lexeme (by simp) (by simp) ih
    exact h

/-- A token of the second kind may stand behind one of the first, where nothing stands before the
first token and behind the last. A name, a numeral or an operator is told apart from what follows
by the parentheses and commas that are asked for here. -/
def TokenKind.precedes : Option TokenKind → Option TokenKind → Bool
  | some .name, next | some .number, next | some .hex, next =>
    next = none || next = some .closing || next = some .comma
  | some .text, next | some .closing, next =>
    next = none || next = some .closing || next = some .comma || next = some .operator
  | some .call, next | some .operator, next | some .unary, next => next = some .opening
  | some .opening, next => next ≠ none && next ≠ some .operator && next ≠ some .comma
  | none, next | some .comma, next =>
    next ≠ none && next ≠ some .operator && next ≠ some .comma && next ≠ some .closing

/-- Each lexeme may stand behind the one before it, the first behind `previous`. -/
def Coherent (previous : Option TokenKind) : List Lexeme → Prop
  | [] => TokenKind.precedes previous none = true
  | x :: xs => TokenKind.precedes previous (some x.kind) = true ∧ Coherent (some x.kind) xs

/-- Where a token of this kind ends depends on what follows it. -/
def TokenKind.isOpenEnded : TokenKind → Bool
  | .name | .call | .number | .hex | .operator | .unary => true
  | _ => false

theorem endsWord_of_blanks {blanks : List Char} (hblanks : ∀ c ∈ blanks, isBlank c = true)
    (hrest : EndsWord rest) : EndsWord (blanks ++ rest) := by
  cases blanks with
  | nil => exact hrest
  | cons c blanks => exact endsWord_of_isBlank (hblanks c (by simp))

theorem TokenKind.of_precedes_openEnded (hkind : kind.isOpenEnded = true)
    (h : precedes (some kind) (some next) = true) :
    (kind = .call ∨ kind = .operator ∨ kind = .unary) ∧ next = .opening ∨
      ¬ (kind = .call ∨ kind = .operator ∨ kind = .unary) ∧ (next = .closing ∨ next = .comma) := by
  cases kind with
  | call | operator | unary => exact Or.inl ⟨by simp, by simpa [precedes] using h⟩
  | name | number | hex => exact Or.inr ⟨by simp, by simpa [precedes] using h⟩
  | text | opening | closing | comma => cases hkind

namespace Lexeme.Legal

variable {x : Lexeme} (h : x.Legal known)

include h

theorem spelled_opening (hx : x.kind = .opening) : x.spelled = ['('] := by
  cases h with
  | opening => rfl
  | _ => cases hx

theorem spelled_closing (hx : x.kind = .closing) : x.spelled = [')'] := by
  cases h with
  | closing => rfl
  | _ => cases hx

theorem spelled_comma (hx : x.kind = .comma) : x.spelled = [','] := by
  cases h with
  | comma => rfl
  | _ => cases hx

end Lexeme.Legal

/-- Behind a token whose end is open the word ends, and a parenthesis opens there if that is what
the kind of the token asks for. -/
theorem Written.endsWord {apart known : List String}
    (h : Written apart xs rest) (hlegal : ∀ x ∈ xs, x.Legal known)
    (hkind : kind.isOpenEnded = true) (hxs : Coherent (some kind) xs) :
    EndsWord rest ∧ ((rest.dropWhile isBlank).head? = some '(' ↔
      kind = .call ∨ kind = .operator ∨ kind = .unary) := by
  cases h with
  | blank hblanks =>
    have hends : EndsWord (rest ++ []) := endsWord_of_blanks hblanks (by simp [EndsWord])
    have hdrop : (rest ++ []).dropWhile isBlank = [] := (takeWhile_append hblanks (by simp)).2
    rw [List.append_nil] at hends hdrop
    refine ⟨hends, ?_⟩
    rw [hdrop]
    have hnone : TokenKind.precedes (some kind) none = true := hxs
    cases kind with
    | name | number | hex => simp
    | call | operator | unary => cases hnone
    | text | opening | closing | comma => cases hkind
  | @lexeme blanks rest x xs hblanks _ _ =>
    obtain ⟨hprecedes, -⟩ := hxs
    obtain ⟨c, hspelled, ⟨hname, hpoint, hblank⟩, hopening⟩ : ∃ c, x.spelled = [c] ∧
        (continuesName c = false ∧ c ≠ '.' ∧ isBlank c = false) ∧
        (c = '(' ↔ kind = .call ∨ kind = .operator ∨ kind = .unary) := by
      rcases TokenKind.of_precedes_openEnded hkind hprecedes with ⟨hk, hx⟩ | ⟨hk, hx | hx⟩
      · exact ⟨'(', (hlegal x (by simp)).spelled_opening hx, by decide, by simp [hk]⟩
      · exact ⟨')', (hlegal x (by simp)).spelled_closing hx, by decide, by simp [hk]⟩
      · exact ⟨',', (hlegal x (by simp)).spelled_comma hx, by decide, by simp [hk]⟩
    have hdrop : (blanks ++ c :: rest).dropWhile isBlank = c :: rest :=
      (takeWhile_append hblanks (by simpa using hblank)).2
    rw [hspelled, List.singleton_append]
    refine ⟨endsWord_of_blanks hblanks ?_, ?_⟩
    · simp [EndsWord, hname, hpoint]
    · simpa [hdrop] using hopening

/-! ## Reading a text back -/

/-- What must follow a lexeme so that it ends where it should. -/
structure Lexeme.EndsBefore (known : List String) (x : Lexeme) (rest : List Char) : Prop where
  endsWord : x.kind.isOpenEnded = true → EndsWord rest
  isCall : x.kind.isOpenEnded = true →
    ((rest.dropWhile isBlank).head? = some '(' ↔
      x.kind = .call ∨ x.kind = .operator ∨ x.kind = .unary)
  longest : x.kind = .operator ∨ x.kind = .unary →
    ∀ op ∈ known, op.toList <+: x.spelled ++ rest → op.length ≤ x.surface.length

theorem readPiece_of_isWord (h : IsWord cs) (hrest : EndsWord rest)
    (ops : OperatorTable) (kind : TokenKind) :
    ∃ c tail, cs ++ rest = c :: tail ∧ isBlank c = false ∧ readPiece ops kind c tail =
      .ok ⟨if (rest.dropWhile isBlank).head? = some '(' then .call else .name, cs, cs, rest⟩ := by
  have hread := readName_of_isWord h hrest
  obtain ⟨hstart, hcs⟩ := h
  rename_i c cs
  have hdigit : startsNumber (c :: (cs ++ rest)) = false := by
    rw [Bool.eq_false_iff]
    intro hnumber
    rcases startsNumber_cons hnumber with hc | ⟨rfl, -⟩
    · rw [isDigit_of_startsName hstart] at hc
      cases hc
    · exact absurd hstart (by decide)
  have hquote : c ≠ '\'' := by
    rintro rfl
    exact absurd hstart (by decide)
  refine ⟨c, cs ++ rest, rfl, isBlank_of_continuesName (continuesName_of_startsName hstart), ?_⟩
  rw [List.cons_append] at hread
  simp only [readPiece, hdigit, hquote, hstart, Bool.false_eq_true, ↓reduceIte, hread]

theorem readPiece_of_number (hstarts : startsNumber cs = true) (hread : readNumber cs = .ok p)
    (ops : OperatorTable) (kind : TokenKind) :
    ∃ c tail, cs = c :: tail ∧ isBlank c = false ∧ readPiece ops kind c tail = .ok p := by
  rcases cs with _ | ⟨c, tail⟩
  · cases hstarts
  refine ⟨c, tail, rfl, ?_, ?_⟩
  · rcases startsNumber_cons hstarts with hc | ⟨rfl, -⟩
    · exact isBlank_of_continuesName (continuesName_of_isDigit hc)
    · decide
  · simp only [readPiece, hstarts, ↓reduceIte, hread]

theorem readPiece_of_isSign (hops : ops.Knows known) {op : String} (hknown : op ∈ known)
    (hop : IsSign op.toList) (hrest : EndsWord rest)
    (hlongest : ∀ other ∈ known, other.toList <+: op.toList ++ rest → other.length ≤ op.length)
    (kind : TokenKind) :
    ∃ c tail, op.toList ++ rest = c :: tail ∧ isBlank c = false ∧
      readPiece ops kind c tail = .ok ⟨kind, op.toList, op.toList, rest⟩ := by
  have hne : op ≠ "" := by
    rintro rfl
    cases hop
  have hread := readOperator_of_longest hops ⟨hknown, List.prefix_append _ rest, hlongest⟩ hne kind
  rw [← String.length_toList, List.drop_left] at hread
  generalize op.toList = cs at *
  obtain ⟨hblank, hsign⟩ := hop
  rename_i c cs
  refine ⟨c, cs ++ rest, rfl, hblank, ?_⟩
  rw [readPiece_of_sign { hsign with
    noNumber := startsNumber_append hsign.noNumber hrest.not_isDigit }]
  exact hread

/-- A legal lexeme is read back, if it ends where it should. -/
theorem Lexeme.Legal.readPiece (hops : ops.Knows known) {x : Lexeme} (hx : x.Legal known)
    (hrest : x.EndsBefore known rest)
    (hkind : x.kind = .operator ∨ x.kind = .unary → kind = x.kind) :
    ∃ c tail, x.spelled ++ rest = c :: tail ∧ isBlank c = false ∧
      TickScript.readPiece ops kind c tail =
        .ok ⟨x.kind, x.surface.toList, x.spelled, rest⟩ := by
  cases hx with
  | name h =>
    obtain ⟨c, tail, heq, hblank, hread⟩ := readPiece_of_isWord h (hrest.endsWord rfl) ops kind
    rw [if_neg (by simpa using hrest.isCall rfl)] at hread
    exact ⟨c, tail, heq, hblank, hread⟩
  | call h =>
    obtain ⟨c, tail, heq, hblank, hread⟩ := readPiece_of_isWord h (hrest.endsWord rfl) ops kind
    rw [if_pos (by simpa using hrest.isCall rfl)] at hread
    exact ⟨c, tail, heq, hblank, hread⟩
  | number h =>
    exact readPiece_of_number (startsNumber_of_isDecimal h rest)
      (readNumber_of_isDecimal h (hrest.endsWord rfl)) ops kind
  | hex h =>
    exact readPiece_of_number (startsNumber_of_isHexadecimal h rest)
      (readNumber_of_isHexadecimal h (hrest.endsWord rfl)) ops kind
  | @text s h =>
    have hread : readText (s.toList ++ '\'' :: rest) = _ := readText_of_no_quote h
    refine ⟨'\'', s.toList ++ '\'' :: rest, by simp [spelled, TokenKind.spell], by decide, ?_⟩
    have hnumber : startsNumber ('\'' :: (s.toList ++ '\'' :: rest)) = false := by
      simp [startsNumber]
    simp only [TickScript.readPiece, hnumber, Bool.false_eq_true, ↓reduceIte, hread]
    rfl
  | @operator s hknown h =>
    obtain rfl := hkind (Or.inl rfl)
    exact readPiece_of_isSign hops hknown h (hrest.endsWord rfl) (hrest.longest (Or.inl rfl)) _
  | @unary s hknown h =>
    obtain rfl := hkind (Or.inr rfl)
    exact readPiece_of_isSign hops hknown h (hrest.endsWord rfl) (hrest.longest (Or.inr rfl)) _
  | opening => exact ⟨'(', rest, rfl, by decide, rfl⟩
  | closing => exact ⟨')', rest, rfl, by decide, rfl⟩
  | comma => exact ⟨',', rest, rfl, by decide, rfl⟩

namespace TokenKind

theorem not_clashes_of_precedes (h : precedes (some kind) (some next) = true) :
    kind.clashes next = false := by
  cases kind <;> cases next <;> simp_all [precedes, clashes, endsOperand, startsOperand]

theorem precedesUnary_of_precedes {previous : Option TokenKind}
    (h : precedes previous (some next) = true) :
    (next = .unary → precedesUnary previous = true) ∧
      (next = .operator → precedesUnary previous = false) := by
  constructor
  · rintro rfl
    revert h
    rcases previous with _ | kind
    · decide
    · cases kind <;> decide
  · rintro rfl
    revert h
    rcases previous with _ | kind
    · decide
    · cases kind <;> decide

end TokenKind

namespace Lexer

variable {l : Lexer}

theorem next_of_blanks (ops : OperatorTable) (source : Source) (hfailed : l.failed = false)
    (hrest : ∀ c ∈ l.rest, isBlank c = true) :
    l.next ops source = (.finished, l.skipBlanks) := by
  have hskip : l.skipBlanks.rest = [] := by
    have hdrop : (l.rest ++ []).dropWhile isBlank = [] := (takeWhile_append hrest (by simp)).2
    rwa [List.append_nil] at hdrop
  unfold next
  simp only [hfailed, Bool.false_eq_true, ↓reduceIte, hskip]

/-- A lexeme is read first if its piece is, and those behind it are read from where it ends. -/
theorem emits_cons {source : Source} {x : Lexeme} {blanks : List Char}
    (hfailed : l.failed = false) (hblanks : ∀ c ∈ blanks, isBlank c = true)
    (hrest : l.rest = blanks ++ (x.spelled ++ rest))
    (hread : ∃ c tail, x.spelled ++ rest = c :: tail ∧ isBlank c = false ∧
      readPiece ops l.operatorKind c tail = .ok ⟨x.kind, x.surface.toList, x.spelled, rest⟩)
    (hclash : ∀ t ∈ l.previous, l.strict = true → t.kind.clashes x.kind = false)
    (hmore : ∀ m : Lexer, m.failed = false → m.strict = l.strict →
      m.previous.map (·.kind) = some x.kind → m.rest = rest →
      ∃ tokens, Emits ops source m tokens none ∧ tokens.map Token.lexeme = xs) :
    ∃ tokens, Emits ops source l tokens none ∧ tokens.map Token.lexeme = x :: xs := by
  obtain ⟨c, tail, heq, hblank, hread⟩ := hread
  have hskip : l.skipBlanks.rest = c :: tail := by
    have hdrop : (blanks ++ c :: tail).dropWhile isBlank = c :: tail :=
      (takeWhile_append hblanks (by simpa using hblank)).2
    rw [← hdrop, ← heq, ← hrest]
    rfl
  have hclash : l.clash? (l.tokenOf ⟨x.kind, x.surface.toList, x.spelled, rest⟩) = none := by
    unfold clash?
    rcases hprevious : l.previous with _ | t
    · rfl
    · cases hstrict : l.strict with
      | false => rfl
      | true => simp [tokenOf, hclash t hprevious hstrict]
  obtain ⟨tokens, hemits, htokens⟩ :=
    hmore (l.past ⟨x.kind, x.surface.toList, x.spelled, rest⟩) hfailed rfl rfl rfl
  refine ⟨_, .token (next_of_piece hfailed hskip hread hclash) hemits, ?_⟩
  rw [List.map_cons, htokens]
  simp [Token.lexeme, tokenOf]

/-- A text is read as the lexemes that it is written with. -/
theorem emits_of_written (hops : ops.Knows known) (source : Source) (h : Written known xs cs)
    (hlegal : ∀ x ∈ xs, x.Legal known) (hrest : l.rest = cs) (hfailed : l.failed = false)
    (hxs : Coherent (l.previous.map (·.kind)) xs) :
    ∃ tokens, Emits ops source l tokens none ∧ tokens.map Token.lexeme = xs := by
  induction h generalizing l with
  | blank hblanks =>
    exact ⟨[], .finished (next_of_blanks ops source hfailed (hrest ▸ hblanks)), rfl⟩
  | @lexeme blanks rest x xs hblanks hlongest hwritten ih =>
    obtain ⟨hx, hothers⟩ := List.forall_mem_cons.mp hlegal
    obtain ⟨hprecedes, hxs⟩ := hxs
    have hends : x.EndsBefore known rest :=
      ⟨fun hk => (hwritten.endsWord hothers hk hxs).1,
        fun hk => (hwritten.endsWord hothers hk hxs).2, hlongest⟩
    have hkind : x.kind = .operator ∨ x.kind = .unary → l.operatorKind = x.kind := by
      have hunary := TokenKind.precedesUnary_of_precedes hprecedes
      unfold operatorKind
      rintro (hx | hx)
      · rw [hunary.2 hx, hx]
        rfl
      · rw [hunary.1 hx, hx]
        rfl
    refine emits_cons hfailed hblanks hrest (hx.readPiece hops hends hkind) ?_ ?_
    · intro t ht _
      rw [Option.mem_def.mp ht] at hprecedes
      exact TokenKind.not_clashes_of_precedes hprecedes
    · intro m hfailed _ hprevious hrest
      exact ih hothers hrest hfailed (hprevious ▸ hxs)

end Lexer

theorem tokenize_of_written (hops : ops.Knows known) {source : Source}
    (h : Written known xs source.code.toList) (hlegal : ∀ x ∈ xs, x.Legal known)
    (hxs : Coherent none xs) :
    ∃ tokens, tokenize ops source = .ok tokens ∧ tokens.map Token.lexeme = xs := by
  obtain ⟨tokens, hemits, htokens⟩ :=
    Lexer.emits_of_written hops source h hlegal (l := .ofCode source.code true) rfl rfl hxs
  exact ⟨tokens, tokenize_of_emits hemits, htokens⟩

/-- No operator is spelled with a parenthesis or a blank. -/
def PlainSpellings (known : List String) : Prop :=
  ∀ op ∈ known, ∀ c ∈ op.toList, c ≠ '(' ∧ isBlank c = false

/-- Lexemes of plain operators may be spaced as one likes: no operator runs on into what follows
one. -/
theorem Written.of_plain (hknown : PlainSpellings known) (h : Written [] xs cs)
    (hlegal : ∀ x ∈ xs, x.Legal known) {previous : Option TokenKind} (hxs : Coherent previous xs) :
    Written known xs cs := by
  induction h generalizing previous with
  | blank hblanks => exact .blank hblanks
  | @lexeme blanks rest x xs hblanks _ hwritten ih =>
    obtain ⟨_, hothers⟩ := List.forall_mem_cons.mp hlegal
    refine .lexeme hblanks (fun hx op hop hfits => ?_) (ih hothers hxs.2)
    have hopen : x.kind.isOpenEnded = true := by rcases hx with hx | hx <;> rw [hx] <;> rfl
    have hopening := ((hwritten.endsWord hothers hopen hxs.2).2).mpr (Or.inr hx)
    have hspelled : x.spelled = x.surface.toList := by
      rcases hx with hx | hx <;> simp [Lexeme.spelled, TokenKind.spell, hx]
    rw [hspelled] at hfits
    by_contra hlong
    have hlength : x.surface.toList.length ≤ op.toList.length := by
      rw [String.length_toList, String.length_toList]
      omega
    -- An operator that is longer would go on with the parenthesis or with a blank before it.
    obtain ⟨more, hmore⟩ :=
      List.prefix_of_prefix_length_le (List.prefix_append x.surface.toList rest) hfits hlength
    rw [← hmore, List.prefix_append_right_inj] at hfits
    rcases more with _ | ⟨c, more⟩
    · rw [List.append_nil, String.toList_inj] at hmore
      rw [hmore] at hlong
      exact hlong (Nat.le_refl _)
    · obtain ⟨hparenthesis, hblank⟩ := hknown op hop c (by simp [← hmore])
      obtain ⟨tail, rfl⟩ := hfits
      simp [hblank] at hopening
      exact hparenthesis hopening

end TickScript
