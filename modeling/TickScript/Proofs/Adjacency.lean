-- Which token may stand behind which. A call stands before its parenthesis, the token in front of
-- an operator decides what it is, and a lexer that refuses an operand behind an operand gives what
-- one that does not would give, up to the first such place.
import TickScript.Proofs.Definitions
import TickScript.Proofs.Pulling

namespace TickScript

open TickScript.Text

variable {after : List Token} {ending : Option Fault} {t : Token}

/-! ## Kinds of neighbours -/

/-- An operand stands behind an operand, and the second is not the parenthesis of a call. -/
def TokenKind.Adjoins (first second : TokenKind) : Prop :=
  first ∈ [name, call, number, hex, text, closing] ∧
  second ∈ [name, call, number, hex, text, opening] ∧
  ¬ (first = call ∧ second = opening)

instance (first second : TokenKind) : Decidable (first.Adjoins second) :=
  inferInstanceAs (Decidable (_ ∧ _ ∧ ¬ (_ ∧ _)))

theorem TokenKind.endsOperand_iff (kind : TokenKind) :
    kind.endsOperand = true ↔ kind ∈ [name, call, number, hex, text, closing] := by
  cases kind <;> decide

theorem TokenKind.startsOperand_iff (kind : TokenKind) :
    kind.startsOperand = true ↔ kind ∈ [name, call, number, hex, text, opening] := by
  cases kind <;> decide

theorem TokenKind.clashes_iff (first second : TokenKind) :
    first.clashes second = true ↔ first.Adjoins second := by
  unfold clashes Adjoins
  rw [Bool.and_eq_true, Bool.and_eq_true, endsOperand_iff, startsOperand_iff,
    Bool.not_eq_true', Bool.eq_false_iff, ne_eq, Bool.and_eq_true, decide_eq_true_iff,
    decide_eq_true_iff, and_assoc, and_comm, and_assoc]

theorem TokenKind.precedesUnary_iff (kind : TokenKind) :
    precedesUnary (some kind) = true ↔ kind ∈ [operator, unary, opening, comma] := by
  cases kind <;> decide

/-- No token is an operand behind an operand. -/
def Apart (tokens : List Token) : Prop := tokens.IsChain fun p t => ¬ p.kind.Adjoins t.kind

/-- Only an operator is of a kind that operators have, and it is of the kind that is due. -/
theorem eq_of_readPiece {ops : OperatorTable} {kind : TokenKind} {c : Char} {rest : List Char}
    {p : Piece} (h : readPiece ops kind c rest = .ok p)
    (hp : p.kind = .operator ∨ p.kind = .unary) : p.kind = kind := by
  cases readPiece_cases h with
  | number hc h =>
    rcases readNumber_cases hc h with ⟨hnumber, _⟩ | ⟨hnumber, _⟩ <;> simp [hnumber] at hp
  | text _ h =>
    unfold readText at h
    split at h <;> cases h
    simp at hp
  | name =>
    unfold readName at hp
    dsimp only at hp
    split at hp <;> simp at hp
  | mark hc => rcases hc with ⟨_, rfl⟩ | ⟨_, rfl⟩ | ⟨_, rfl⟩ <;> simp [singlePiece] at hp
  | operator _ h =>
    unfold readOperator at h
    dsimp only at h
    split at h <;> cases h
    rfl

namespace Lexer

variable {ops : OperatorTable} {source : Source} {l : Lexer}

/-! ## A stream in two parts -/

/-- The same lexer, but that it refuses an operand behind an operand. -/
def strictly (l : Lexer) : Lexer := { l with strict := true }

/-- The tokens behind some others are given by the lexer that has given these. A strict lexer comes
as far if no operand stands behind an operand. -/
theorem Emits.split {before : List Token} (h : Emits ops source l (before ++ after) ending)
    (hfailed : l.failed = false) :
    ∃ m : Lexer, m.failed = false ∧ m.strict = l.strict ∧
      m.previous = before.getLast?.or l.previous ∧ Emits ops source m after ending ∧
      (Apart (l.previous.toList ++ before) → ∀ others e, Emits ops source m.strictly others e →
        Emits ops source l.strictly (before ++ others) e) := by
  induction before generalizing l with
  | nil => exact ⟨l, hfailed, rfl, rfl, h, fun _ _ _ hothers => hothers⟩
  | cons t before ih =>
    cases h with
    | token hnext hrest =>
      obtain ⟨c, rest, p, hskip, hpiece, rfl, rfl⟩ := of_next_token hfailed hnext
      obtain ⟨m, hm, hstrict, hprevious, hafter, hon⟩ := ih hrest hfailed
      refine ⟨m, hm, hstrict, ?_, hafter, fun hapart others e hothers => ?_⟩
      · rw [hprevious, List.getLast?_cons]
        cases before.getLast? <;> rfl
      · have hclash : ∀ q ∈ l.previous, q.kind.clashes p.kind = false := by
          intro q hq
          rw [Option.mem_def.mp hq] at hapart
          rw [Bool.eq_false_iff, ne_eq, TokenKind.clashes_iff]
          exact (List.isChain_cons_cons.mp hapart).1
        have hnext' : l.strictly.next ops source = (.token (l.tokenOf p), (l.past p).strictly) :=
          Pulls.next_eq (.token hfailed hskip hpiece fun _ => hclash)
        refine .token hnext' (hon ?_ others e hothers)
        cases hq : l.previous with
        | none =>
          rw [hq] at hapart
          exact hapart
        | some q =>
          rw [hq] at hapart
          exact (List.isChain_cons_cons.mp hapart).2

/-- A strict lexer ends as the other does. -/
theorem Pulls.strictly {x : Pull} {after : Lexer} (h : Pulls ops source l x after)
    (hstrict : l.strict = false) (hx : ∀ t, x ≠ .token t) :
    ∃ m, l.strictly.next ops source = (x, m) := by
  cases h with
  | afterFault hfailed => exact ⟨_, Pulls.next_eq (.afterFault hfailed)⟩
  | finished hfailed hrest => exact ⟨_, Pulls.next_eq (.finished hfailed hrest)⟩
  | misread hfailed hrest hpiece => exact ⟨_, Pulls.next_eq (.misread hfailed hrest hpiece)⟩
  | clash _ _ _ _ hstrict' _ =>
    rw [hstrict] at hstrict'
    cases hstrict'
  | token => exact absurd rfl (hx _)

theorem Emits.strictly_nil (h : Emits ops source l [] ending) (hstrict : l.strict = false) :
    Emits ops source l.strictly [] ending := by
  cases h with
  | finished h =>
    obtain ⟨m, hnext⟩ := (pulls_of_next h).strictly hstrict (by simp)
    exact .finished hnext
  | fault h =>
    obtain ⟨m, hnext⟩ := (pulls_of_next h).strictly hstrict (by simp)
    exact .fault hnext

/-- A strict lexer refuses the token that the other gives. -/
theorem Emits.strictly_clash {q : Token} (h : Emits ops source l (t :: after) ending)
    (hfailed : l.failed = false) (hprevious : l.previous = some q)
    (hadjoins : q.kind.Adjoins t.kind) :
    Emits ops source l.strictly [] (some (clashFault source q t)) := by
  cases h with
  | token hnext _ =>
    obtain ⟨c, rest, p, hskip, hpiece, rfl, rfl⟩ := of_next_token hfailed hnext
    exact .fault (next_of_clash hfailed hskip hpiece hprevious rfl
      ((TokenKind.clashes_iff _ _).mpr hadjoins))

/-! ## The neighbours of a token -/

theorem Emits.opening_behind (h : Emits ops source l (t :: after) ending)
    (hfailed : l.failed = false) (ht : t.kind = .call) :
    ∃ u more, after = u :: more ∧ u.kind = .opening := by
  cases h with
  | token hnext hmore =>
    obtain ⟨c, rest, p, hskip, hpiece, rfl, rfl⟩ := of_next_token hfailed hnext
    have hparen : (l.past p).skipBlanks.rest.head? = some '(' := by
      refine opening_of_readPiece ?_ hpiece ht
      rcases l.operatorKind_cases with hkind | hkind <;> rw [hkind] <;> decide
    obtain ⟨rest', hskip'⟩ := List.head?_eq_some_iff.mp hparen
    -- A call and a parenthesis never clash, so the parenthesis is given in both modes.
    have hclash : (l.past p).strict = true →
        ∀ q ∈ (l.past p).previous, q.kind.clashes .opening = false := by
      intro _ q hq
      cases hq
      rw [ht]
      rfl
    have hpulls : Pulls ops source (l.past p)
        (.token ((l.past p).tokenOf (singlePiece .opening '(' rest')))
        ((l.past p).past (singlePiece .opening '(' rest')) :=
      .token hfailed hskip' rfl hclash
    have hnext' := hpulls.next_eq
    cases hmore with
    | finished h =>
      rw [hnext'] at h
      cases h
    | fault h =>
      rw [hnext'] at h
      cases h
    | token h _ =>
      rw [hnext'] at h
      cases h
      exact ⟨_, _, rfl, rfl⟩

theorem Emits.unary_iff (h : Emits ops source l (t :: after) ending) (hfailed : l.failed = false)
    (ht : t.kind = .operator ∨ t.kind = .unary) :
    t.kind = .unary ↔ TokenKind.precedesUnary (l.previous.map (·.kind)) = true := by
  cases h with
  | token hnext _ =>
    obtain ⟨c, rest, p, hskip, hpiece, rfl, rfl⟩ := of_next_token hfailed hnext
    have hkind : (l.tokenOf p).kind = l.operatorKind := eq_of_readPiece hpiece ht
    rw [hkind]
    unfold operatorKind
    split <;> simp_all

end Lexer

/-- Whatever the text and the operators are, a lexer that lets operands stand side by side gives a
stream in which every call stands directly before its parenthesis, and an operator is a unary one
exactly if it comes first or stands behind an operator, an opening parenthesis or a comma. A lexer
that refuses an operand behind an operand gives the same stream, with its fault if there is one, up
to the first such place; there it reports the second of the two tokens instead, and then nothing
more comes. -/
theorem strictness_only_cuts (ops : OperatorTable) (source : Source) :
    ∃ (tokens : List Token) (ending : Option Fault),
      (Lexer.ofCode source.code false).Streams ops source tokens ending ∧
      (∀ (before : List Token) (t : Token) (after : List Token),
        tokens = before ++ t :: after → t.kind = .call →
        ∃ u more, after = u :: more ∧ u.kind = .opening) ∧
      (∀ (before : List Token) (t : Token) (after : List Token),
        tokens = before ++ t :: after → t.kind = .operator ∨ t.kind = .unary →
        (t.kind = .unary ↔
          before = [] ∨ ∃ p ∈ before.getLast?, p.kind ∈ [.operator, .unary, .opening, .comma])) ∧
      (Apart tokens → (Lexer.ofCode source.code true).Streams ops source tokens ending) ∧
      ∀ (before : List Token) (p t : Token) (after : List Token),
        tokens = before ++ p :: t :: after → Apart (before ++ [p]) → p.kind.Adjoins t.kind →
        (Lexer.ofCode source.code true).Streams ops source (before ++ [p])
          (some (clashFault source p t)) := by
  obtain ⟨tokens, ending, hemits⟩ := Lexer.exists_emits ops source (.ofCode source.code false) rfl
  refine ⟨tokens, ending, hemits.streams, ?_, ?_, ?_, ?_⟩
  · rintro before t after rfl ht
    obtain ⟨m, hm, _, _, hmore, _⟩ := hemits.split rfl
    exact hmore.opening_behind hm ht
  · rintro before t after rfl ht
    obtain ⟨m, hm, _, hprevious, hmore, _⟩ := hemits.split rfl
    rw [hmore.unary_iff hm ht, hprevious]
    rcases hlast : before.getLast? with _ | p
    · simp only [List.getLast?_eq_none_iff.mp hlast, true_or, iff_true]
      rfl
    · have hne : before ≠ [] := by
        rintro rfl
        cases hlast
      simp only [hne, false_or]
      exact (TokenKind.precedesUnary_iff p.kind).trans (by simp)
  · intro hapart
    rw [← List.append_nil tokens] at hemits
    obtain ⟨m, _, hstrict, _, hmore, hon⟩ := hemits.split rfl
    have hcut := hon hapart [] ending (hmore.strictly_nil hstrict)
    rw [List.append_nil] at hcut
    exact hcut.streams
  · rintro before p t after rfl hapart hadjoins
    have hsplit : before ++ p :: t :: after = (before ++ [p]) ++ t :: after := by simp
    rw [hsplit] at hemits
    obtain ⟨m, hm, _, hprevious, hmore, hon⟩ := hemits.split rfl
    have hprevious' : m.previous = some p := by simpa using hprevious
    have hcut := hon hapart [] _ (hmore.strictly_clash hm hprevious' hadjoins)
    rw [List.append_nil] at hcut
    exact hcut.streams

end TickScript
