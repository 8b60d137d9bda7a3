-- One text behind another. What is read of a text is read of it again before a delimiter, which
-- belongs to no other token, and behind a token that wants an operand it is read as at the start.
import TickScript.Proofs.Layout
import TickScript.Proofs.Literals

namespace TickScript

open TickScript.Text

variable {c : Char} {cs : List Char} {p : Piece} {tokens : List Token}

/-! ## Pieces before a delimiter -/

/-- Of the operators only `;` is spelled with a semicolon, and none with a closing parenthesis. -/
structure OperatorTable.SetsApart (ops : OperatorTable) : Prop where
  operator : ops.isOperator ";" = true
  start : ops.isStart ";" = true
  semicolon : ∀ s, ops.isStart s = true → ';' ∈ s.toList → s = ";"
  closing : ∀ s, ops.isStart s = true → ')' ∉ s.toList

section Delimiters

variable {d : Char} (hd : d = ';' ∨ d = ')') (tail : List Char)

theorem takeWhile_before {p : Char → Bool} {d : Char} (hd : p d = false) (cs tail : List Char) :
    (cs ++ d :: tail).takeWhile p = cs.takeWhile p ∧
      (cs ++ d :: tail).dropWhile p = cs.dropWhile p ++ d :: tail := by
  induction cs with
  | nil => simp [hd]
  | cons c cs ih =>
    rw [List.cons_append, List.takeWhile_cons, List.dropWhile_cons, List.takeWhile_cons,
      List.dropWhile_cons]
    split
    · exact ⟨congrArg _ ih.1, ih.2⟩
    · exact ⟨rfl, rfl⟩

include hd

theorem not_isDigit_of_delimiter : d.isDigit = false := by
  rcases hd with rfl | rfl <;> decide

theorem takeFraction_before (cs : List Char) :
    takeFraction (cs ++ d :: tail) =
      ((takeFraction cs).1, (takeFraction cs).2 ++ d :: tail) := by
  rcases cs with _ | ⟨c, cs⟩
  · rcases hd with rfl | rfl <;> rfl
  by_cases hc : c = '.'
  · obtain ⟨htake, hdrop⟩ := takeWhile_before (not_isDigit_of_delimiter hd) cs tail
    subst hc
    simp only [List.cons_append, takeFraction, htake, hdrop]
    split <;> rfl
  · simp [takeFraction, hc]

omit hd in
/-- An exponent without a sign. -/
theorem takeExponent_unsigned {e : Char} (hc : (c = 'e' || c = 'E') = true) (hplus : e ≠ '+')
    (hminus : e ≠ '-') (cs : List Char) :
    takeExponent (c :: e :: cs) =
      if ((e :: cs).takeWhile Char.isDigit).isEmpty then ([], c :: e :: cs)
      else (c :: (e :: cs).takeWhile Char.isDigit, (e :: cs).dropWhile Char.isDigit) := by
  unfold takeExponent
  dsimp only
  rw [if_pos hc]
  split
  · exact absurd (List.cons.inj ‹_›).1 hplus
  · exact absurd (List.cons.inj ‹_›).1 hminus
  · rfl

theorem takeExponent_before (cs : List Char) :
    takeExponent (cs ++ d :: tail) =
      ((takeExponent cs).1, (takeExponent cs).2 ++ d :: tail) := by
  rcases cs with _ | ⟨c, cs⟩
  · rcases hd with rfl | rfl <;> rfl
  have hbefore := takeWhile_before (not_isDigit_of_delimiter hd)
  by_cases hc : (c = 'e' || c = 'E') = true
  case neg => simp [takeExponent, hc]
  rcases cs with _ | ⟨e, cs⟩
  · rcases hd with rfl | rfl <;> simp [takeExponent]
  by_cases hplus : e = '+'
  · subst hplus
    simp only [List.cons_append, takeExponent, hc, ↓reduceIte, (hbefore cs tail).1,
      (hbefore cs tail).2]
    split <;> rfl
  by_cases hminus : e = '-'
  · subst hminus
    simp only [List.cons_append, takeExponent, hc, ↓reduceIte, (hbefore cs tail).1,
      (hbefore cs tail).2]
    split <;> rfl
  · have hnext := hbefore (e :: cs) tail
    rw [List.cons_append] at hnext
    rw [List.cons_append, List.cons_append, takeExponent_unsigned hc hplus hminus,
      takeExponent_unsigned hc hplus hminus, hnext.1, hnext.2]
    split <;> rfl

theorem readDecimal_before (cs : List Char) :
    readDecimal (cs ++ d :: tail) =
      { readDecimal cs with rest := (readDecimal cs).rest ++ d :: tail } := by
  obtain ⟨htake, hdrop⟩ := takeWhile_before (not_isDigit_of_delimiter hd) cs tail
  simp only [readDecimal, htake, hdrop, takeFraction_before hd tail, takeExponent_before hd tail]

theorem readNumber_before (h : readNumber cs = .ok p) :
    readNumber (cs ++ d :: tail) = .ok { p with rest := p.rest ++ d :: tail } := by
  have hdecimal : readNumber cs = .ok (readDecimal cs) →
      readNumber (cs ++ d :: tail) = .ok (readDecimal (cs ++ d :: tail)) →
      readNumber (cs ++ d :: tail) = .ok { p with rest := p.rest ++ d :: tail } := by
    intro hcs hmore
    rw [hcs] at h
    cases h
    rw [hmore, readDecimal_before hd tail]
  rcases cs with _ | ⟨c, _ | ⟨x, cs⟩⟩
  · exact hdecimal rfl (by rcases hd with rfl | rfl <;> rfl)
  · by_cases hc : c = '0'
    · subst hc
      exact hdecimal rfl (by rcases hd with rfl | rfl <;> rfl)
    · exact hdecimal (by simp [readNumber]) (by simp [readNumber, hc])
  by_cases hc : c = '0'
  case neg => exact hdecimal (by simp [readNumber, hc]) (by simp [readNumber, hc])
  subst hc
  by_cases hx : (x = 'x' || x = 'X') = true
  case neg => exact hdecimal (by simp [readNumber, hx]) (by simp [readNumber, hx])
  have hhex : isHexDigit d = false := by rcases hd with rfl | rfl <;> decide
  obtain ⟨htake, hdrop⟩ := takeWhile_before hhex cs tail
  simp only [readNumber, hx, ↓reduceIte] at h
  simp only [List.cons_append, readNumber, hx, ↓reduceIte, htake, hdrop]
  split at h
  · cases h
  · rename_i hdigits
    cases h
    rw [if_neg hdigits]

omit hd in
theorem readText_before (h : readText cs = .ok p) :
    readText (cs ++ d :: tail) = .ok { p with rest := p.rest ++ d :: tail } := by
  unfold readText at h
  split at h
  · rename_i body rest hcut
    cases h
    obtain ⟨hbody, c, hc, rfl⟩ := cutAt?_append hcut
    obtain rfl : c = '\'' := by simpa using hc
    have hquote : '\'' ∉ body := fun hmem => by simpa using hbody _ hmem
    rw [List.append_assoc, List.cons_append, readText_of_no_quote hquote]
  · cases h

theorem readName_before (cs : List Char) :
    readName (cs ++ d :: tail) = { readName cs with rest := (readName cs).rest ++ d :: tail } := by
  have hname : continuesName d = false := by rcases hd with rfl | rfl <;> decide
  have hblank : isBlank d = false := by rcases hd with rfl | rfl <;> decide
  obtain ⟨htake, hdrop⟩ := takeWhile_before hname cs tail
  have hrest := (takeWhile_before hblank (cs.dropWhile continuesName) tail).2
  have hopening : ((cs.dropWhile continuesName).dropWhile isBlank ++ d :: tail).head? = some '(' ↔
      ((cs.dropWhile continuesName).dropWhile isBlank).head? = some '(' := by
    cases (cs.dropWhile continuesName).dropWhile isBlank with
    | nil => rcases hd with rfl | rfl <;> simp
    | cons c rest => rfl
  simp only [readName, htake, hdrop, hrest, hopening]

end Delimiters

section Operators

variable {ops : OperatorTable} (hops : ops.SetsApart) {d : Char} (hd : d = ';' ∨ d = ')')
  (tail : List Char)

include hops hd

/-- No operator goes on into a delimiter. -/
theorem scanOperator_before (taken rest : List Char) (longest : Nat)
    (hne : taken ++ rest ≠ []) :
    scanOperator ops taken longest (rest ++ d :: tail) = scanOperator ops taken longest rest := by
  induction rest generalizing taken longest with
  | nil =>
    have hstart : ops.isStart (String.ofList (taken ++ [d])) = false := by
      rw [Bool.eq_false_iff]
      intro hstart
      have hmem : d ∈ (String.ofList (taken ++ [d])).toList := by simp
      rcases hd with rfl | rfl
      · have heq := congrArg String.toList (hops.semicolon _ hstart hmem)
        rw [String.toList_ofList] at heq
        have hlength : taken.length + 1 = 1 := by simpa using congrArg List.length heq
        have htaken : 0 < taken.length := List.length_pos_iff.mpr (by simpa using hne)
        omega
      · exact hops.closing _ hstart hmem
    simp only [List.nil_append, scanOperator, hstart, Bool.false_eq_true, ↓reduceIte]
  | cons c rest ih =>
    rw [List.cons_append, scanOperator, scanOperator]
    split
    · exact ih _ _ (by simp)
    · rfl

theorem readOperator_before {kind : TokenKind} {rest : List Char}
    (h : readOperator ops kind (c :: rest) = .ok p) :
    readOperator ops kind (c :: rest ++ d :: tail) =
      .ok { p with rest := p.rest ++ d :: tail } := by
  have hscan := scanOperator_before hops hd tail [] (c :: rest) 0 (by simp)
  unfold readOperator at h ⊢
  rw [hscan]
  dsimp only at h ⊢
  split at h
  · cases h
  rename_i hlongest
  cases h
  rcases scanOperator_found ops 0 (List.nil_append (c :: rest)).symm with hn | ⟨_, hle, _, _⟩
  · exact absurd hn hlongest
  · rw [if_neg hlongest, List.take_append_of_le_length hle, List.drop_append_of_le_length hle]

omit hops in
theorem startsNumber_before (c : Char) (rest : List Char) :
    startsNumber (c :: (rest ++ d :: tail)) = startsNumber (c :: rest) := by
  by_cases hc : c = '.'
  · subst hc
    rcases rest with _ | ⟨e, rest⟩
    · rcases hd with rfl | rfl <;> rfl
    · rfl
  · rcases rest with _ | ⟨e, rest⟩ <;> simp [startsNumber, hc]

theorem readPiece_before {kind : TokenKind} {rest : List Char}
    (h : readPiece ops kind c rest = .ok p) :
    readPiece ops kind c (rest ++ d :: tail) = .ok { p with rest := p.rest ++ d :: tail } := by
  have hnumber := startsNumber_before hd tail c rest
  cases readPiece_cases h with
  | number hc h =>
    rw [readPiece, hnumber, if_pos hc]
    exact readNumber_before hd tail h
  | text hc h =>
    subst hc
    exact readText_before tail h
  | name hnumber' htext hc =>
    rw [readPiece, hnumber, if_neg (by simp [hnumber']), if_neg htext, if_pos hc]
    exact congrArg _ (readName_before hd tail (c :: rest))
  | mark hc => exact readPiece_of_isMark hc ops kind _
  | operator hc h =>
    have hsign : StartsSign c (rest ++ d :: tail) :=
      ⟨hnumber.trans hc.noNumber, hc.noText, hc.noName, hc.noParenthesis, hc.noComma⟩
    rw [readPiece_of_sign hsign]
    exact readOperator_before hops hd tail h

end Operators

/-! ## Texts before a delimiter -/

namespace Lexer

variable {ops : OperatorTable} {source : Source}

theorem clash?_of_next_token {l : Lexer} {after : Lexer} (hfailed : l.failed = false)
    (h : l.next ops source = (.token (l.tokenOf p), after)) : l.clash? (l.tokenOf p) = none := by
  have hclashes := not_clashes_of_next_token hfailed h
  unfold clash?
  rcases hprevious : l.previous with _ | t
  · rfl
  · cases hstrict : l.strict with
    | false => rfl
    | true => simp [hclashes hstrict t hprevious]

/-- Before a delimiter the same tokens are read, and then what follows. -/
theorem Emits.append (hops : ops.SetsApart) {d : Char} (hd : d = ';' ∨ d = ')')
    (tail : List Char) (other : Source) {l : Lexer} {tokens : List Token} {ending : Option Fault}
    (h : Emits ops source l tokens ending) (hending : ending = none)
    (hfailed : l.failed = false) :
    ∃ n : Lexer, n.failed = false ∧ n.strict = l.strict ∧
      n.previous = tokens.getLast?.or l.previous ∧
      (∃ blanks, (∀ c ∈ blanks, isBlank c = true) ∧ n.rest = blanks ++ d :: tail) ∧
      ∀ others e, Emits ops other n others e →
        Emits ops other { l with rest := l.rest ++ d :: tail } (tokens ++ others) e := by
  have hblank : isBlank d = false := by rcases hd with rfl | rfl <;> decide
  induction h with
  | @finished l _ h =>
    refine ⟨{ l with rest := l.rest ++ d :: tail }, hfailed, rfl, rfl, ⟨l.rest, ?_, rfl⟩,
      fun _ _ hothers => hothers⟩
    have hrest := l.rest_eq_blanks
    rw [of_next_finished hfailed h, List.append_nil] at hrest
    rw [hrest]
    exact fun c hc => List.mem_takeWhile_imp hc
  | fault => cases hending
  | @token l after t tokens ending h _ ih =>
    obtain ⟨c, rest, p, hrest, hpiece, rfl, rfl⟩ := of_next_token hfailed h
    obtain ⟨n, hn, hstrict, hprevious, hmore, hon⟩ := ih hending hfailed
    refine ⟨n, hn, hstrict, ?_, hmore, fun others e hothers => ?_⟩
    · rw [hprevious, List.getLast?_cons]
      cases tokens.getLast? <;> rfl
    · obtain ⟨htake, hdrop⟩ := takeWhile_before hblank l.rest tail
      let m : Lexer := { l with rest := l.rest ++ d :: tail }
      let q : Piece := { p with rest := p.rest ++ d :: tail }
      have htoken : m.tokenOf q = l.tokenOf p := by
        simp only [tokenOf, skipBlanks, m, q, htake]
      have hpast : m.past q = { l.past p with rest := (l.past p).rest ++ d :: tail } := by
        simp only [past, htoken]
        simp only [skipBlanks, m, q, htake]
      have hskip : m.skipBlanks.rest = c :: (rest ++ d :: tail) := by
        have hrest' : l.rest.dropWhile isBlank = c :: rest := hrest
        simp only [skipBlanks, m, hdrop, hrest', List.cons_append]
      have hclash : m.clash? (m.tokenOf q) = none := by
        rw [htoken]
        exact clash?_of_next_token hfailed h
      have hnext : m.next ops other = (.token (l.tokenOf p),
          { l.past p with rest := (l.past p).rest ++ d :: tail }) := by
        rw [← htoken, ← hpast]
        exact next_of_piece hfailed hskip (readPiece_before hops hd tail hpiece) hclash
      exact .token hnext (hon others e hothers)

/-! ## Texts that are read anywhere -/

/-- The text is read as these lexemes behind a token of the given kind, or at the very start. -/
def Reads (ops : OperatorTable) (previous : Option TokenKind) (cs : List Char)
    (xs : List Lexeme) : Prop :=
  ∀ (source : Source) (l : Lexer), l.failed = false → l.strict = true →
    l.previous.map (·.kind) = previous → l.rest = cs →
    ∃ tokens, Emits ops source l tokens none ∧ tokens.map Token.lexeme = xs

/-- What is read at one place is read at any other, behind a token of the same kind, or behind any
token that wants an operand if the first one does. -/
theorem Emits.again {l : Lexer} {ending : Option Fault}
    (h : Emits ops source l tokens ending) (hending : ending = none) (hfailed : l.failed = false)
    (other : Source) {m : Lexer} (hm : m.failed = false) (hstrict : m.strict = l.strict)
    (hprevious : m.previous.map (·.kind) = l.previous.map (·.kind) ∨
      TokenKind.precedesUnary (m.previous.map (·.kind)) = true ∧
        TokenKind.precedesUnary (l.previous.map (·.kind)) = true)
    {blanks : List Char} (hblanks : ∀ c ∈ blanks, isBlank c = true)
    (hrest : m.rest = blanks ++ l.rest) :
    ∃ again, Emits ops other m again none ∧
      again.map Token.lexeme = tokens.map Token.lexeme := by
  induction h generalizing m blanks with
  | @finished l _ h =>
    refine ⟨[], .finished (next_of_blanks ops other hm ?_), rfl⟩
    have hall := l.rest_eq_blanks
    rw [of_next_finished hfailed h, List.append_nil] at hall
    rw [hrest, hall]
    refine List.forall_mem_append.mpr ⟨hblanks, fun c hc => List.mem_takeWhile_imp hc⟩
  | fault => cases hending
  | @token l after t tokens ending h _ ih =>
    have hclashes := not_clashes_of_next_token hfailed h
    obtain ⟨c, rest, p, hpieces, hpiece, rfl, rfl⟩ := of_next_token hfailed h
    have hheads := readPiece_heads l.operatorKind_ne_text hpiece
    have hspelled := spelled_tokenOf hpiece
    have hkind : m.operatorKind = l.operatorKind := by
      unfold operatorKind
      rcases hprevious with heq | ⟨hopen, hopen'⟩
      · rw [heq]
      · rw [hopen, hopen']
    have hgap : ∀ d ∈ blanks ++ l.rest.takeWhile isBlank, isBlank d = true :=
      List.forall_mem_append.mpr ⟨hblanks, fun d hd => List.mem_takeWhile_imp hd⟩
    have hrest' : m.rest = blanks ++ l.rest.takeWhile isBlank ++
        ((l.tokenOf p).lexeme.spelled ++ p.rest) := by
      rw [hrest, hspelled, hheads.split, ← hpieces, List.append_assoc, ← l.rest_eq_blanks]
    rw [List.map_cons]
    refine emits_cons hm hgap hrest' ?_ ?_ ?_
    · rw [hspelled, hheads.split, hkind]
      refine ⟨c, rest, rfl, isBlank_of_skipBlanks hpieces, ?_⟩
      simpa [Token.lexeme, tokenOf] using hpiece
    · intro u hu hu'
      rcases hprevious with heq | ⟨hopen, _⟩
      · exact not_clashes_of_kinds heq (hclashes (hstrict ▸ hu')) u hu
      · rw [Option.mem_def.mp hu] at hopen
        exact TokenKind.not_clashes_of_precedesUnary hopen _
    · intro m' hm' hstrict' hprevious' hrest'
      exact ih hending hfailed hm' (hstrict'.trans hstrict) (Or.inl hprevious')
        (List.forall_mem_nil _) hrest'

/-- A script is read so behind every token that wants an operand. -/
theorem reads_of_tokenize (h : tokenize ops source = .ok tokens) {previous : Option TokenKind}
    (hprevious : TokenKind.precedesUnary previous = true) {blanks : List Char}
    (hblanks : ∀ c ∈ blanks, isBlank c = true) :
    Reads ops previous (blanks ++ source.code.toList) (tokens.map Token.lexeme) := by
  rintro other m hm hstrict rfl hrest
  exact (emits_of_tokenize h).again rfl rfl other hm hstrict (Or.inr ⟨hprevious, rfl⟩) hblanks hrest

theorem lexeme_of_reads {xs : List Lexeme} (h : tokenize ops source = .ok tokens)
    (hreads : Reads ops none source.code.toList xs) : tokens.map Token.lexeme = xs := by
  obtain ⟨read, hemits, rfl⟩ := hreads source (.ofCode source.code true) rfl rfl rfl rfl
  rw [tokenize_of_emits hemits] at h
  cases h
  rfl

namespace Reads

variable {previous : Option TokenKind} {blanks rest : List Char} {xs ys : List Lexeme}

theorem append (hops : ops.SetsApart) {tail : List Char} {d : Char} (hd : d = ';' ∨ d = ')')
    (h : Reads ops previous cs xs) (hmore : ∀ blanks, (∀ c ∈ blanks, isBlank c = true) →
      Reads ops ((xs.getLast?.map Lexeme.kind).or previous) (blanks ++ d :: tail) ys) :
    Reads ops previous (cs ++ d :: tail) (xs ++ ys) := by
  rintro source m hm hstrict rfl hrest
  obtain ⟨tokens, hemits, rfl⟩ := h source { m with rest := cs } hm hstrict rfl rfl
  obtain ⟨n, hn, hstrict', hprevious, ⟨blanks, hblanks, hrest'⟩, hon⟩ :=
    hemits.append hops hd tail source rfl hm
  have hkind : n.previous.map (·.kind) =
      ((tokens.map Token.lexeme).getLast?.map Lexeme.kind).or (m.previous.map (·.kind)) := by
    rw [hprevious, List.getLast?_map]
    cases tokens.getLast? <;> rfl
  obtain ⟨others, hothers, rfl⟩ := hmore blanks hblanks source n hn (hstrict'.trans hstrict) hkind
    hrest'
  have hboth := hon others none hothers
  simp only [← hrest] at hboth
  exact ⟨_, hboth, List.map_append⟩

theorem nil (ops : OperatorTable) (previous : Option TokenKind) : Reads ops previous [] [] := by
  intro source l hfailed _ _ hrest
  exact ⟨[], .finished (next_of_blanks ops source hfailed (by simp [hrest])), rfl⟩

/-- A piece of one character. -/
theorem cons {x : Lexeme} (hblanks : ∀ c ∈ blanks, isBlank c = true)
    (hspelled : x.spelled = [c]) (hc : isBlank c = false)
    (hread : readPiece ops (.ofSign previous) c rest =
      .ok ⟨x.kind, x.surface.toList, x.spelled, rest⟩)
    (hclash : ∀ kind ∈ previous, kind.clashes x.kind = false)
    (h : Reads ops (some x.kind) rest xs) :
    Reads ops previous (blanks ++ c :: rest) (x :: xs) := by
  rintro source l hfailed hstrict rfl hrest
  have hrest' : l.rest = blanks ++ (x.spelled ++ rest) := by rw [hrest, hspelled]; rfl
  refine emits_cons hfailed hblanks hrest' ⟨c, rest, ?_, hc, hread⟩ (fun t ht _ => ?_)
    fun m hm hstrict' => h source m hm (hstrict'.trans hstrict)
  · rw [hspelled]
    rfl
  · exact hclash t.kind (Option.mem_map_of_mem _ ht)

theorem semicolon (hops : ops.SetsApart) (hblanks : ∀ c ∈ blanks, isBlank c = true)
    (h : Reads ops (some (.ofSign previous)) rest xs) :
    Reads ops previous (blanks ++ ';' :: rest) (⟨.ofSign previous, ";"⟩ :: xs) := by
  have hspelled : Lexeme.spelled ⟨.ofSign previous, ";"⟩ = [';'] := by
    rcases TokenKind.ofSign_cases previous with hsign | hsign <;> rw [hsign] <;> rfl
  have hscan : (scanOperator ops [] 0 (';' :: rest)).2 = 1 := by
    have hstart : ops.isStart (String.ofList ([] ++ [';'])) = true := hops.start
    have hoperator : ops.isOperator (String.ofList ([] ++ [';'])) = true := hops.operator
    unfold scanOperator
    simp only [hstart, hoperator, ↓reduceIte]
    cases rest with
    | nil => rfl
    | cons c rest =>
      have hno : ops.isStart (String.ofList ([] ++ [';'] ++ [c])) = false := by
        rw [Bool.eq_false_iff]
        intro hlonger
        have heq := congrArg String.toList (hops.semicolon _ hlonger (by simp))
        rw [String.toList_ofList] at heq
        simpa using congrArg List.length heq
      unfold scanOperator
      simp only [hno, Bool.false_eq_true, ↓reduceIte]
      rfl
  have hread : readPiece ops (.ofSign previous) ';' rest =
      .ok ⟨.ofSign previous, ";".toList, [';'], rest⟩ := by
    have hnumber : startsNumber (';' :: rest) = false := rfl
    have hsurface : ";".toList = [';'] := by decide
    rw [hsurface]
    simp only [readPiece, hnumber, readOperator, hscan]
    rfl
  refine .cons hblanks hspelled (by decide) ?_ (fun kind _ => ?_) h
  · rw [hspelled]
    exact hread
  · rcases TokenKind.ofSign_cases previous with hsign | hsign <;> rw [hsign] <;>
      simp [TokenKind.clashes, TokenKind.startsOperand]

theorem opening (hprevious : TokenKind.precedesUnary previous = true)
    (hblanks : ∀ c ∈ blanks, isBlank c = true) (h : Reads ops (some .opening) rest xs) :
    Reads ops previous (blanks ++ '(' :: rest) (⟨.opening, "("⟩ :: xs) := by
  refine .cons hblanks rfl (by decide) rfl (fun kind hkind => ?_) h
  rw [Option.mem_def.mp hkind] at hprevious
  exact TokenKind.not_clashes_of_precedesUnary hprevious _

theorem closing (hblanks : ∀ c ∈ blanks, isBlank c = true)
    (h : Reads ops (some .closing) rest xs) :
    Reads ops previous (blanks ++ ')' :: rest) (⟨.closing, ")"⟩ :: xs) :=
  .cons hblanks rfl (by decide) rfl
    (fun kind _ => by simp [TokenKind.clashes, TokenKind.startsOperand]) h

end Reads

end Lexer

/-- A `;` behind a script is one more token, and the others stand where they stood. -/
theorem tokenize_semicolon {ops : OperatorTable} (hops : ops.SetsApart) {source : Source}
    (h : tokenize ops source = .ok tokens) (name : Option String) :
    ∃ t, tokenize ops ⟨source.code ++ ";", name⟩ = .ok (tokens ++ [t]) ∧
      t.lexeme = ⟨.ofSign (tokens.getLast?.map (·.kind)), ";"⟩ := by
  obtain ⟨n, hn, hstrict, hprevious, ⟨blanks, hblanks, hrest⟩, hon⟩ :=
    (emits_of_tokenize h).append hops (Or.inl rfl) [] ⟨source.code ++ ";", name⟩ rfl rfl
  rw [show (Lexer.ofCode source.code true).previous = none from rfl, Option.or_none] at hprevious
  obtain ⟨read, hemits, hread⟩ := Lexer.Reads.semicolon hops hblanks (.nil ops _) _ n hn hstrict
    (congrArg _ hprevious) hrest
  obtain ⟨t, rfl, ht⟩ := List.map_eq_singleton_iff.mp hread
  refine ⟨t, ?_, ht⟩
  have hall := hon [t] none hemits
  have hcode : { Lexer.ofCode source.code true with
      rest := (Lexer.ofCode source.code true).rest ++ [';'] } =
        Lexer.ofCode (source.code ++ ";") true := by
    simp [Lexer.ofCode]
  rw [hcode] at hall
  exact tokenize_of_emits hall

end TickScript
