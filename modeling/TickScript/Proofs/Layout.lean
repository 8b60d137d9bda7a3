-- Layout does not matter: the tokens of a script, written out with a space between two of them,
-- are read as the same tokens, wherever they stood before.
import TickScript.Proofs.Alike

namespace TickScript

open TickScript.Text

variable {rest : List Char} {kind : TokenKind} {p : Piece} {l : Lexer} {tokens : List Token}

/-! ## Tokens with spaces between them -/

/-- No operator of the table is spelled with a blank. -/
def OperatorTable.Blankless (ops : OperatorTable) : Prop :=
  ∀ s, ops.isOperator s = true → ∀ c ∈ s.toList, isBlank c = false

/-- The lexemes as they are written, in order, with a space between two. -/
def spaced (xs : List Lexeme) : List Char := [' '].intercalate (xs.map Lexeme.spelled)

/-- What stands behind the first of some lexemes. -/
def spacedTail : List Lexeme → List Char
  | [] => []
  | x :: xs => ' ' :: spaced (x :: xs)

theorem spaced_cons (x : Lexeme) (xs : List Lexeme) :
    spaced (x :: xs) = x.spelled ++ spacedTail xs := by
  cases xs with
  | nil => simp [spaced, spacedTail, List.intercalate]
  | cons y ys => simp [spaced, spacedTail, List.intercalate]

theorem spacedTail_eq (xs : List Lexeme) :
    ∃ blanks, (∀ c ∈ blanks, isBlank c = true) ∧ spacedTail xs = blanks ++ spaced xs := by
  cases xs with
  | nil => exact ⟨[], by simp, rfl⟩
  | cons x xs => exact ⟨[' '], List.forall_mem_singleton.mpr (by decide), rfl⟩

theorem isBlank_of_spacedTail {xs : List Lexeme} :
    ∀ c ∈ (spacedTail xs).head?, isBlank c = true := by
  cases xs with
  | nil => simp [spacedTail]
  | cons x xs =>
    rintro c ⟨⟩
    decide

theorem head?_dropWhile_spacedTail {xs : List Lexeme}
    (h : ∀ c ∈ (spaced xs).head?, isBlank c = false) :
    ((spacedTail xs).dropWhile isBlank).head? = (spaced xs).head? := by
  cases xs with
  | nil => rfl
  | cons x xs =>
    have hspace : ∀ c ∈ [' '], isBlank c = true := List.forall_mem_singleton.mpr (by decide)
    have hdrop : ([' '] ++ spaced (x :: xs)).dropWhile isBlank = spaced (x :: xs) :=
      (takeWhile_append hspace h).2
    exact congrArg List.head? hdrop

theorem endsWord_of_head (h : ∀ c ∈ rest.head?, isBlank c = true) : EndsWord rest := by
  cases rest with
  | nil => simp [EndsWord]
  | cons c rest => exact endsWord_of_isBlank (h c rfl)

/-! ## Operators before a blank -/

section Scanning

variable {ops : OperatorTable}

/-- The longest operator that a scan meets is an operator, and the scan came to it by beginnings
of operators only. -/
theorem scanOperator_found (ops : OperatorTable) {cs taken : List Char} (longest : Nat)
    (hcs : cs = taken ++ rest) :
    let n := (scanOperator ops taken longest rest).2
    n = longest ∨ taken.length < n ∧ n ≤ cs.length ∧
      ops.isOperator (String.ofList (cs.take n)) = true ∧
      ∀ m, taken.length < m → m ≤ n → ops.isStart (String.ofList (cs.take m)) = true := by
  induction rest generalizing taken longest with
  | nil => exact Or.inl rfl
  | cons c rest ih =>
    have hcs' : cs = taken ++ [c] ++ rest := by simp [hcs]
    have hlength : (taken ++ [c]).length = taken.length + 1 := by simp
    have hcandidate : cs.take (taken.length + 1) = taken ++ [c] := by
      rw [← hlength, hcs', List.take_left]
    unfold scanOperator
    dsimp only
    split
    case isFalse => exact Or.inl rfl
    rename_i hstart
    rcases ih (if ops.isOperator (String.ofList (taken ++ [c])) = true then
        (taken ++ [c]).length else longest) hcs' with hn | ⟨hlt, hle, hoperator, hstarts⟩
    · rw [hn]
      split
      · rename_i hoperator
        right
        rw [hlength, hcandidate]
        refine ⟨by omega, by rw [hcs', List.length_append]; omega, hoperator, ?_⟩
        intro m hm hle
        obtain rfl : m = taken.length + 1 := by omega
        rw [hcandidate]
        exact hstart
      · exact Or.inl rfl
    · right
      refine ⟨by omega, hle, hoperator, ?_⟩
      intro m hm hle
      rcases Nat.eq_or_lt_of_le hm with heq | hm
      · rw [← heq, Nat.succ_eq_add_one, hcandidate]
        exact hstart
      · exact hstarts m (by omega) hle

/-- A scan passes over the beginnings of an operator and comes to the operator. -/
theorem scanOperator_through (taken : List Char) {more : List Char} {longest : Nat}
    (hmore : more ≠ [])
    (hstarts : ∀ m, taken.length < m → m ≤ (taken ++ more).length →
      ops.isStart (String.ofList ((taken ++ more).take m)) = true)
    (hoperator : ops.isOperator (String.ofList (taken ++ more)) = true) (after : List Char) :
    scanOperator ops taken longest (more ++ after) =
      scanOperator ops (taken ++ more) (taken ++ more).length after := by
  induction more generalizing taken longest with
  | nil => exact absurd rfl hmore
  | cons c more ih =>
    have happend : taken ++ c :: more = taken ++ [c] ++ more := by simp
    have hstart : ops.isStart (String.ofList (taken ++ [c])) = true := by
      have := hstarts (taken ++ [c]).length (by simp) (by simp)
      rwa [happend, List.take_left] at this
    rw [List.cons_append, scanOperator]
    simp only [hstart, ↓reduceIte]
    rcases more with _ | ⟨d, more⟩
    · rw [if_pos hoperator]
      rfl
    · rw [happend]
      refine ih (taken ++ [c]) (by simp) (fun m hm hle => ?_) (happend ▸ hoperator)
      rw [← happend] at hle ⊢
      exact hstarts m (by simp at hm; omega) hle

/-- No operator is met once there is a blank. -/
theorem scanOperator_of_blank (hops : ops.Blankless) {taken : List Char} (longest : Nat)
    (h : (∃ c ∈ taken, isBlank c = true) ∨ ∀ c ∈ rest.head?, isBlank c = true) :
    (scanOperator ops taken longest rest).2 = longest := by
  induction rest generalizing taken with
  | nil => rfl
  | cons c rest ih =>
    obtain ⟨d, hd, hblank⟩ : ∃ d ∈ taken ++ [c], isBlank d = true := by
      rcases h with ⟨d, hd, hblank⟩ | h
      · exact ⟨d, by simp [hd], hblank⟩
      · exact ⟨c, by simp, h c rfl⟩
    have hoperator : ops.isOperator (String.ofList (taken ++ [c])) = false := by
      rw [Bool.eq_false_iff]
      intro hoperator
      have := hops _ hoperator d (by rwa [String.toList_ofList])
      rw [hblank] at this
      cases this
    unfold scanOperator
    simp only [hoperator, Bool.false_eq_true, ↓reduceIte]
    split
    · exact ih (Or.inl ⟨d, hd, hblank⟩)
    · rfl

/-- An operator that is read is read again before a blank. -/
theorem readOperator_again (hops : ops.Blankless) {cs : List Char}
    (h : readOperator ops kind cs = .ok p) {after : List Char}
    (hafter : ∀ c ∈ after.head?, isBlank c = true) :
    readOperator ops kind (p.spelled ++ after) = .ok ⟨p.kind, p.surface, p.spelled, after⟩ := by
  unfold readOperator at h
  dsimp only at h
  split at h
  · cases h
  rename_i hlongest
  cases h
  dsimp only
  rcases scanOperator_found ops 0 (List.nil_append cs).symm with
    hn | ⟨_, hle, hoperator, hstarts⟩
  · exact absurd hn hlongest
  generalize hlength : (scanOperator ops [] 0 cs).2 = n at *
  have htaken : (cs.take n).length = n := by
    rw [List.length_take]
    omega
  have hagain : (scanOperator ops [] 0 (cs.take n ++ after)).2 = n := by
    rw [scanOperator_through [] (by rw [← List.length_pos_iff]; omega) ?_ hoperator,
      scanOperator_of_blank hops _ (Or.inr hafter)]
    · exact htaken
    · intro m hm hm'
      rw [List.nil_append, htaken] at hm'
      rw [List.nil_append, List.take_take, Nat.min_eq_left hm']
      exact hstarts m hm hm'
  unfold readOperator
  simp only [hagain, hlongest, ↓reduceIte]
  rw [List.take_left' htaken, List.drop_left' htaken]

end Scanning

/-! ## Pieces before a blank -/

theorem readPiece_of_text {body : List Char} (h : '\'' ∉ body) (rest : List Char)
    (ops : OperatorTable) (kind : TokenKind) :
    readPiece ops kind '\'' (body ++ '\'' :: rest) =
      .ok ⟨.text, body, '\'' :: body ++ ['\''], rest⟩ := by
  have hnumber : startsNumber ('\'' :: (body ++ '\'' :: rest)) = false := by
    simp [startsNumber]
  simp only [readPiece, hnumber, Bool.false_eq_true, ↓reduceIte, readText_of_no_quote h]

/-- A piece that is read is read again before a blank, if a name stays a call or no call. -/
theorem readPiece_again {ops : OperatorTable} (hops : ops.Blankless)
    (hkind : kind ≠ .text) {c : Char} (hblank : isBlank c = false)
    (h : readPiece ops kind c rest = .ok p) {after : List Char}
    (hafter : ∀ d ∈ after.head?, isBlank d = true)
    (hcall : (after.dropWhile isBlank).head? = some '(' ↔
      (p.rest.dropWhile isBlank).head? = some '(') :
    ∃ d tail, p.spelled ++ after = d :: tail ∧ isBlank d = false ∧
      readPiece ops kind d tail = .ok ⟨p.kind, p.surface, p.spelled, after⟩ := by
  have hheads := readPiece_heads hkind h
  have hends := endsWord_of_head hafter
  cases readPiece_cases h with
  | number hc h =>
    rcases readNumber_cases hc h with ⟨hp, hnumeral⟩ | ⟨hp, hnumeral⟩
    · have hspelled : p.spelled = p.surface := by simp [hheads.written, hp, TokenKind.spell]
      rw [hspelled, hp]
      exact readPiece_of_number (startsNumber_of_isDecimal hnumeral after)
        (readNumber_of_isDecimal hnumeral hends) ops kind
    · have hspelled : p.spelled = p.surface := by simp [hheads.written, hp, TokenKind.spell]
      rw [hspelled, hp]
      exact readPiece_of_number (startsNumber_of_isHexadecimal hnumeral after)
        (readNumber_of_isHexadecimal hnumeral hends) ops kind
  | text hc h =>
    unfold readText at h
    split at h
    · rename_i body tail hcut
      cases h
      have hquote : '\'' ∉ body := by
        intro hmem
        have := (cutAt?_append hcut).1 _ hmem
        simp at this
      refine ⟨'\'', body ++ '\'' :: after, by simp, by decide, ?_⟩
      exact readPiece_of_text hquote after ops kind
    · cases h
  | name _ _ hname =>
    have hword : IsWord (readName (c :: rest)).surface := by
      have hsurface : (readName (c :: rest)).surface = c :: rest.takeWhile continuesName := by
        simp [readName, continuesName_of_startsName hname]
      rw [hsurface]
      exact .mk hname fun _ hd => List.mem_takeWhile_imp hd
    have hread := readPiece_of_isWord hword hends ops kind
    simp only [hcall] at hread
    exact hread
  | mark hc => exact ⟨c, after, rfl, hblank, readPiece_of_isMark hc ops kind after⟩
  | operator hc h =>
    have hread := readOperator_again hops h hafter
    have hsplit := hheads.split
    rcases hspelled : p.spelled with _ | ⟨d, tail⟩
    · exact absurd hspelled hheads.taken
    rw [hspelled, List.cons_append] at hsplit hread
    obtain ⟨rfl, htail⟩ := List.cons.inj hsplit
    have hsign : StartsSign d (tail ++ after) := by
      refine ⟨?_, hc.noText, hc.noName, hc.noParenthesis, hc.noComma⟩
      have hnumber := hc.noNumber
      rw [← htail] at hnumber
      exact startsNumber_append (startsNumber_of_append hnumber) hends.not_isDigit
    refine ⟨d, tail ++ after, rfl, hblank, ?_⟩
    rw [readPiece_of_sign hsign]
    exact hread

/-! ## Emissions -/

namespace Lexer

variable {ops : OperatorTable} {source : Source}

theorem not_clashes_of_next_token {t : Token} {after : Lexer} (hfailed : l.failed = false)
    (h : l.next ops source = (.token t, after)) (hstrict : l.strict = true) :
    ∀ u ∈ l.previous, u.kind.clashes t.kind = false := by
  obtain ⟨c, rest, p, hrest, hpiece, rfl, -⟩ := of_next_token hfailed h
  intro u hu
  by_contra hclashes
  have hkind : l.skipBlanks.operatorKind = l.operatorKind := rfl
  have hclash : l.skipBlanks.clash? (l.tokenOf p) =
      some (.notAllowedAfter (l.tokenOf p).surface ((l.tokenOf p).place.pos + 1) u.surface
        (u.place.pos + 1)) := by
    have hprevious : l.skipBlanks.previous = some u := hu
    have hstrict' : l.skipBlanks.strict = true := hstrict
    rw [Bool.not_eq_false] at hclashes
    simp only [clash?, hprevious, hstrict', hclashes, Bool.and_self, ↓reduceIte]
  unfold tokenOf at hclash
  unfold next at h
  simp only [hfailed, Bool.false_eq_true, ↓reduceIte, hrest, hkind, hpiece] at h
  rw [hclash] at h
  cases h

/-- A text goes on, after its blanks, as its tokens do when they are written. -/
theorem Emits.head?_skipBlanks (h : Emits ops source l tokens none) (hfailed : l.failed = false) :
    l.skipBlanks.rest.head? = (spaced (tokens.map Token.lexeme)).head? := by
  cases h with
  | finished h =>
    rw [of_next_finished hfailed h]
    rfl
  | token h _ =>
    obtain ⟨c, rest, p, hrest, hpiece, rfl, rfl⟩ := of_next_token hfailed h
    have hheads := readPiece_heads l.operatorKind_ne_text hpiece
    have hspelled : (l.tokenOf p).lexeme.spelled = p.spelled := by
      simp [Lexeme.spelled, Token.lexeme, tokenOf, hheads.written]
    obtain ⟨d, tail, htail⟩ := List.exists_cons_of_ne_nil hheads.taken
    rw [List.map_cons, spaced_cons, hspelled, hrest, ← hheads.split, htail]
    rfl

theorem spelled_tokenOf {c : Char} (h : readPiece ops l.operatorKind c rest = .ok p) :
    (l.tokenOf p).lexeme.spelled = p.spelled := by
  simp [Lexeme.spelled, Token.lexeme, tokenOf, (readPiece_heads l.operatorKind_ne_text h).written]

theorem not_clashes_of_kinds {m : Lexer}
    (hprevious : m.previous.map (·.kind) = l.previous.map (·.kind))
    (h : ∀ u ∈ l.previous, u.kind.clashes kind = false) :
    ∀ u ∈ m.previous, u.kind.clashes kind = false := by
  intro u hu
  rw [Option.mem_def.mp hu] at hprevious
  obtain ⟨v, hv, hkinds⟩ := Option.map_eq_some_iff.mp hprevious.symm
  have hkinds : v.kind = u.kind := hkinds
  rw [← hkinds]
  exact h v hv

/-- What is read of a text is read of its tokens with spaces between them. -/
theorem Emits.spaced (hops : ops.Blankless) {ending : Option Fault}
    (h : Emits ops source l tokens ending) (hending : ending = none) (hfailed : l.failed = false)
    (other : Source) {m : Lexer} (hm : m.failed = false) (hstrict : m.strict = l.strict)
    (hprevious : m.previous.map (·.kind) = l.previous.map (·.kind)) {blanks : List Char}
    (hblanks : ∀ c ∈ blanks, isBlank c = true)
    (hrest : m.rest = blanks ++ TickScript.spaced (tokens.map Token.lexeme)) :
    ∃ again, Emits ops other m again none ∧
      again.map Token.lexeme = tokens.map Token.lexeme := by
  induction h generalizing m blanks with
  | finished =>
    refine ⟨[], .finished (next_of_blanks ops other hm ?_), rfl⟩
    rw [hrest]
    simpa [TickScript.spaced, List.intercalate] using hblanks
  | fault => cases hending
  | @token l after t tokens _ h hmore ih =>
    subst hending
    have hclashes := not_clashes_of_next_token hfailed h
    obtain ⟨c, rest, p, hpieces, hpiece, rfl, rfl⟩ := of_next_token hfailed h
    have hkind : m.operatorKind = l.operatorKind := by
      unfold operatorKind
      rw [hprevious]
    have hcall : ((spacedTail (tokens.map Token.lexeme)).dropWhile isBlank).head? = some '(' ↔
        (p.rest.dropWhile isBlank).head? = some '(' := by
      have hhead : (p.rest.dropWhile isBlank).head? = _ := hmore.head?_skipBlanks hfailed
      have hfirst := List.head?_dropWhile_not isBlank p.rest
      rw [hhead] at hfirst ⊢
      rw [head?_dropWhile_spacedTail]
      intro d hd
      rw [Option.mem_def.mp hd] at hfirst
      simpa using hfirst
    have hread := readPiece_again hops l.operatorKind_ne_text
      (isBlank_of_skipBlanks hpieces) hpiece isBlank_of_spacedTail hcall
    rw [List.map_cons] at hrest ⊢
    rw [spaced_cons] at hrest
    refine emits_cons hm hblanks hrest ?_ ?_ ?_
    · rw [spelled_tokenOf hpiece, hkind]
      simpa [Token.lexeme, tokenOf] using hread
    · intro u hu hu'
      exact not_clashes_of_kinds hprevious (hclashes (hstrict ▸ hu')) u hu
    · intro m' hm' hstrict' hprevious' hrest'
      obtain ⟨gap, hgap, htail⟩ := spacedTail_eq (tokens.map Token.lexeme)
      exact ih rfl hfailed hm' (hstrict'.trans hstrict) hprevious' hgap (hrest'.trans htail)

end Lexer

/-! ## Layouts -/

/-- The tokens as a script, with a space between two. -/
def printed (tokens : List Token) : String := String.ofList (spaced (tokens.map Token.lexeme))

theorem tokenize_printed {ops : OperatorTable} (hops : ops.Blankless) {source : Source}
    (h : tokenize ops source = .ok tokens) (name : Option String) :
    ∃ again, tokenize ops ⟨printed tokens, name⟩ = .ok again ∧
      again.map Token.lexeme = tokens.map Token.lexeme := by
  have hblanks : ∀ c ∈ ([] : List Char), isBlank c = true := by simp
  obtain ⟨again, hagain, hlexemes⟩ := (emits_of_tokenize h).spaced hops rfl rfl
    ⟨printed tokens, name⟩ (m := .ofCode (printed tokens) true) rfl rfl rfl hblanks
    String.toList_ofList
  exact ⟨again, tokenize_of_emits hagain, hlexemes⟩

theorem forall₂_of_map_eq {α β : Type} {f : α → β} {xs ys : List α} (h : ys.map f = xs.map f) :
    List.Forall₂ (fun x y => f y = f x) xs ys := by
  have hmap : List.Forall₂ Eq (xs.map f) (ys.map f) := by
    rw [h]
    exact List.forall₂_refl _
  rw [List.forall₂_map_left_iff, List.forall₂_map_right_iff] at hmap
  exact hmap.imp fun _ _ h => h.symm

/-- For every table of operators none of which is spelled with a blank, and every script that is
made of tokens, these tokens with a single space between two of them, and quotes around the texts
again, are read as tokens of the same kinds and surfaces in the same order. Nor does any other
layout matter: scripts with the same tokens in the same order are read as the same tree, or refused
for the same cause, and what the one says of a token the other says of the token that stands for
it. -/
theorem tokens_survive_their_layout (ops : OperatorTable) (hops : ops.Blankless) (source : Source)
    (tokens : List Token) (htokens : tokenize ops source = .ok tokens) :
    (∀ name, ∃ again, tokenize ops ⟨printed tokens, name⟩ = .ok again ∧
      again.map Token.lexeme = tokens.map Token.lexeme) ∧
    ∀ (lang : Language) (other : Source) (others : List Token), lang.operators = ops →
      tokenize ops other = .ok others → others.map Token.lexeme = tokens.map Token.lexeme →
      AlikeRead (fun s t => (s.token, t.token) ∈ tokens.zip others)
        (fun script again => script.root.Alike
          (fun s t => (s.token, t.token) ∈ tokens.zip others) again.root)
        (Script.read lang source) (Script.read lang other) := by
  refine ⟨tokenize_printed hops htokens, ?_⟩
  rintro lang other others rfl hothers hlexemes
  have hsame := forall₂_of_map_eq hlexemes
  have hzip : List.Forall₂ (fun t u => (t, u) ∈ tokens.zip others) tokens others :=
    List.forall₂_iff_zip.mpr ⟨hsame.length_eq, fun htu => htu⟩
  exact Script.read_alike htokens hothers hzip (fun htu => List.forall₂_zip hsame htu)
    fun htu => htu

namespace Crowded

def operators : OperatorTable := .ofSpellings ["-", "<", "<=>"]

/-- A text with hardly any blanks. -/
def source : Source := ⟨"f (a)<-.5e1", none⟩

def lexemes : List Lexeme :=
  [⟨.call, "f"⟩, ⟨.opening, "("⟩, ⟨.name, "a"⟩, ⟨.closing, ")"⟩, ⟨.operator, "<"⟩, ⟨.unary, "-"⟩,
    ⟨.number, ".5e1"⟩]

end Crowded

open Crowded in
/-- A call, a minus sign behind the beginning of a longer operator, and a number without digits
before its point. -/
theorem a_crowded_text_is_spread :
    ∃ tokens again, tokenize operators source = .ok tokens ∧
      tokenize operators ⟨"f ( a ) < - .5e1", none⟩ = .ok again ∧
      tokens.map Token.lexeme = lexemes ∧ again.map Token.lexeme = lexemes := by
  have hops : operators.Blankless := by
    intro s hs
    have hs : s ∈ ["-", "<", "<=>"] := by simpa [operators, OperatorTable.ofSpellings] using hs
    have hall : ∀ op ∈ ["-", "<", "<=>"], op.toList.all (fun c => !isBlank c) = true := by decide
    simpa using List.all_eq_true.mp (hall s hs)
  have hread : (tokenize operators source).toOption.map (·.map Token.lexeme) = some lexemes := by
    decide
  obtain ⟨tokens, htokens, hlexemes⟩ := Option.map_eq_some_iff.mp hread
  have hok : tokenize operators source = .ok tokens := by
    rcases h : tokenize operators source with f | read
    · rw [h] at htokens
      cases htokens
    · rw [h] at htokens
      cases htokens
      rfl
  obtain ⟨again, hagain, hsame⟩ :=
    (tokens_survive_their_layout operators hops source tokens hok).1 none
  have hprinted : printed tokens = "f ( a ) < - .5e1" := by
    rw [printed, hlexemes]
    decide
  rw [hprinted] at hagain
  exact ⟨tokens, again, hok, hagain, hlexemes, hsame.trans hlexemes⟩

end TickScript
