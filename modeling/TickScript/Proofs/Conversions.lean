-- Numbers convert. Whatever is read as a number is a numeral, and every numeral spells a number; so
-- neither a reader of scripts nor a list of arguments meets a number that is none.
import TickScript.Proofs.Literals
import TickScript.Proofs.Pulling

namespace TickScript

open TickScript.Text

/-! ## Tokens -/

/-- If the token is taken for a number, it is a numeral. -/
def Token.Converts (t : Token) : Prop :=
  t.kind = .number ∨ t.kind = .hex → t.lexeme.IsNumeral

/-- The cause is that a number does not convert. -/
def Cause.IsConversion : Cause → Prop
  | .malformedNumber _ | .malformedHex _ => True
  | _ => False

/-- A piece is taken for a number only where it has been read as one. -/
theorem readPiece_converts {ops : OperatorTable} {kind : TokenKind}
    (hkind : kind = .operator ∨ kind = .unary) {c : Char} {rest : List Char} {p : Piece}
    (h : readPiece ops kind c rest = .ok p) (hp : p.kind = .number ∨ p.kind = .hex) :
    Lexeme.IsNumeral ⟨p.kind, String.ofList p.surface⟩ := by
  cases readPiece_cases h with
  | number hstarts hread =>
    rcases readNumber_cases hstarts hread with ⟨hnumber, hdecimal⟩ | ⟨hhex, hhexadecimal⟩
    · rw [hnumber]
      exact .decimal (by rwa [String.toList_ofList])
    · rw [hhex]
      exact .hexadecimal (by rwa [String.toList_ofList])
  | text _ hread =>
    unfold readText at hread
    split at hread
    · cases hread
      simp at hp
    · cases hread
  | name =>
    unfold readName at hp
    dsimp only at hp
    split at hp <;> simp at hp
  | mark hmark =>
    unfold singlePiece at hp
    rcases hmark with ⟨_, rfl⟩ | ⟨_, rfl⟩ | ⟨_, rfl⟩ <;> simp at hp
  | operator _ hread =>
    unfold readOperator at hread
    dsimp only at hread
    split at hread
    · cases hread
    · cases hread
      rcases hkind with rfl | rfl <;> simp at hp

/-- Why a piece is not read: the mark of a hexadecimal numeral has no digits behind it, a text has
no end, or there is no such operator. -/
theorem cause_of_misread {ops : OperatorTable} {kind : TokenKind} {c : Char} {rest : List Char}
    {bad : Misread} (h : readPiece ops kind c rest = .error bad) :
    (∃ mark ∈ ["0x", "0X"], bad.cause = .malformedHex mark) ∨ bad.cause = .unterminatedText ∨
      ∃ text, bad.cause = .unknownOperator text := by
  unfold readPiece at h
  split at h
  · left
    unfold readNumber at h
    split at h
    · rename_i x tail _
      split at h
      · rename_i hmark
        dsimp only at h
        split at h
        · rename_i hnone
          cases h
          rw [List.isEmpty_iff.mp hnone]
          rcases (by simpa using hmark : x = 'x' ∨ x = 'X') with rfl | rfl
          · exact ⟨"0x", by simp, rfl⟩
          · exact ⟨"0X", by simp, rfl⟩
        · cases h
      · cases h
    · cases h
  split at h
  · unfold readText at h
    split at h
    · cases h
    · cases h
      exact Or.inr (Or.inl rfl)
  split at h
  · cases h
  split at h
  · cases h
  split at h
  · cases h
  split at h
  · cases h
  unfold readOperator at h
  dsimp only at h
  split at h
  · cases h
    exact Or.inr (Or.inr ⟨_, rfl⟩)
  · cases h

namespace Lexer

variable {ops : OperatorTable} {source : Source} {l : Lexer}

/-- Whatever state a lexer is in, the token that it gives converts. -/
theorem converts_of_next {t : Token} {after : Lexer} (h : l.next ops source = (.token t, after)) :
    t.Converts := by
  cases pulls_of_next h with
  | token _ _ hpiece _ => exact readPiece_converts l.operatorKind_cases hpiece

theorem converts_of_pulled {t : Token} {n : Nat} (h : l.pulled ops source n = .token t) :
    t.Converts := by
  obtain ⟨x, after, hpulls⟩ := exists_pulls ops source (l.afterPulls ops source n)
  unfold pulled at h
  rw [hpulls.next_eq] at h
  cases h
  exact converts_of_next hpulls.next_eq

theorem Emits.converts {tokens : List Token} {ending : Option Fault}
    (h : Emits ops source l tokens ending) : ∀ t ∈ tokens, t.Converts := by
  induction h with
  | finished | fault => simp
  | token h _ ih =>
    rw [List.forall_mem_cons]
    exact ⟨converts_of_next h, ih⟩

/-- A lexer refuses a number only if it is the mark of a hexadecimal numeral without digits. -/
theorem Emits.isConversion {tokens : List Token} {ending : Option Fault}
    (h : Emits ops source l tokens ending) {f : Fault} (hf : ending = some f)
    (hcause : f.cause.IsConversion) : ∃ mark ∈ ["0x", "0X"], f.cause = .malformedHex mark := by
  induction h with
  | finished => cases hf
  | token _ _ ih => exact ih hf
  | fault h =>
    cases hf
    cases pulls_of_next h with
    | clash => exact absurd hcause not_false
    | misread _ _ hpiece =>
      simp only [Fault.ofSite] at hcause ⊢
      rcases cause_of_misread hpiece with hmark | htext | ⟨text, hunknown⟩
      · exact hmark
      · rw [htext] at hcause
        exact absurd hcause not_false
      · rw [hunknown] at hcause
        exact absurd hcause not_false

end Lexer

/-! ## Reading scripts -/

namespace Reader

variable {g : Setting}

/-- Nothing is refused because a number does not convert, and what is read is as it should be. -/
def Spares {α : Type} (P : α → Prop) : Except Fault α → Prop
  | .ok a => P a
  | .error f => ¬ f.cause.IsConversion

/-- All the tokens that are left convert. -/
def LeavesNumerals (x : Parsed × List Token) : Prop := ∀ t ∈ x.2, t.Converts

theorem Spares.bind {α β : Type} {P : α → Prop} {Q : β → Prop} {x : Except Fault α}
    {f : α → Except Fault β} (hx : Spares P x) (hf : ∀ a, P a → Spares Q (f a)) :
    Spares Q (x >>= f) := by
  cases x with
  | ok a => exact hf a hx
  | error fault => exact hx

theorem spares_combine (op : BinaryOperator) (t : Token) (left right : Parsed) :
    Spares (fun _ => True) (combine g op t left right) := by
  unfold combine
  dsimp only
  split
  · exact not_false
  · split
    · trivial
    · trivial
    · trivial
    · refine Spares.bind (P := fun _ => True) ?_ fun _ _ => trivial
      unfold definition
      split
      · split
        · exact not_false
        · split
          · trivial
          · exact not_false
      · exact not_false

theorem spares_finishCall (name : Token) (args : List Expr) (height : Nat) :
    Spares (fun _ => True) (finishCall g name args height) := by
  unfold finishCall
  split
  · split
    · trivial
    · exact not_false
  · trivial

/-- A single token that converts is not refused for its number. -/
theorem spares_single {t : Token} (ht : t.Converts) : Spares (fun _ => True) (single g t) := by
  by_cases hnumber : t.kind = .number ∨ t.kind = .hex
  · rw [single_of_spells (ht hnumber).spells]
    trivial
  · push Not at hnumber
    unfold single
    split
    · exact absurd ‹_› hnumber.1
    · exact absurd ‹_› hnumber.2
    · trivial
    · trivial
    · exact not_false

/-- With this fuel nothing is refused because a number does not convert, where all tokens do. -/
structure Converting (g : Setting) (fuel : Nat) : Prop where
  expression : ∀ {depth least tokens}, (∀ t ∈ tokens, t.Converts) →
    Spares LeavesNumerals (Reader.expression g fuel depth least tokens)
  climb : ∀ {depth least left tokens}, (∀ t ∈ tokens, t.Converts) →
    Spares LeavesNumerals (Reader.climb g fuel depth least left tokens)
  operand : ∀ {depth tokens}, (∀ t ∈ tokens, t.Converts) →
    Spares LeavesNumerals (Reader.operand g fuel depth tokens)
  arguments : ∀ {depth name args height tokens}, (∀ t ∈ tokens, t.Converts) →
    Spares LeavesNumerals (Reader.arguments g fuel depth name args height tokens)

namespace Converting

variable {fuel : Nat} (ih : Converting g fuel) {tokens : List Token}
  (htokens : ∀ t ∈ tokens, t.Converts)

include ih htokens

theorem expression_step (depth least : Nat) :
    Spares LeavesNumerals (Reader.expression g (fuel + 1) depth least tokens) := by
  rw [expression_succ]
  refine (ih.operand htokens).bind ?_
  rintro ⟨left, rest⟩ hrest
  exact ih.climb hrest

theorem climb_step (depth least : Nat) (left : Parsed) :
    Spares LeavesNumerals (Reader.climb g (fuel + 1) depth least left tokens) := by
  rcases tokens with _ | ⟨t, rest⟩
  · rw [climb_of_ends (by simp [Ends])]
    exact htokens
  have hrest := (List.forall_mem_cons.mp htokens).2
  by_cases ht : t.kind = .operator
  case neg =>
    rw [climb_of_not_operator fuel depth ht]
    exact htokens
  rcases hop : g.lang.binary? t.surface with _ | op
  · rw [climb_of_unknown fuel depth ht hop]
    exact not_false
  by_cases hleast : op.precedence < least
  · rw [climb_of_looser fuel depth ht hop hleast]
    exact htokens
  cases hend : trailing op rest with
  | true =>
    rw [climb_of_trailing fuel depth ht hop hleast hend]
    exact hrest
  | false =>
    rw [climb_of_operator fuel depth ht hop hleast hend]
    refine (ih.expression hrest).bind ?_
    rintro ⟨right, others⟩ hothers
    exact (spares_combine op t left right).bind fun joined _ => ih.climb hothers

theorem arguments_step (depth : Nat) (name : Token) (args : List Expr) (height : Nat) :
    Spares LeavesNumerals (Reader.arguments g (fuel + 1) depth name args height tokens) := by
  rw [arguments_succ]
  refine (ih.expression htokens).bind ?_
  rintro ⟨arg, rest⟩ hrest
  rcases rest with _ | ⟨next, others⟩
  · exact not_false
  have hothers := (List.forall_mem_cons.mp hrest).2
  simp only [afterArgument]
  split
  · exact ih.arguments hothers
  · split
    · exact (spares_finishCall name _ _).bind fun _ _ => hothers
    · exact not_false

omit htokens in
theorem call_step {depth : Nat} (hdepth : depth + 1 ≤ maxNesting) {t : Token} (ht : t.kind = .call)
    {rest : List Token} (hrest : ∀ u ∈ rest, u.Converts) :
    Spares LeavesNumerals (Reader.operand g (fuel + 1) depth (t :: rest)) := by
  have hinner : ∀ u ∈ rest.drop 1, u.Converts := fun u hu => hrest u (List.mem_of_mem_drop hu)
  rcases hdrop : rest.drop 1 with _ | ⟨next, others⟩
  · rw [operand_of_call_nil fuel rest hdepth ht hdrop]
    exact ih.arguments (List.forall_mem_nil _)
  rw [hdrop] at hinner
  by_cases hnext : next.kind = .closing
  · rw [operand_of_call_closing fuel rest hdepth ht hdrop hnext]
    exact (spares_finishCall t _ _).bind fun _ _ => (List.forall_mem_cons.mp hinner).2
  · rw [operand_of_call fuel rest hdepth ht hdrop hnext]
    exact ih.arguments hinner

theorem operand_step (depth : Nat) :
    Spares LeavesNumerals (Reader.operand g (fuel + 1) depth tokens) := by
  by_cases hdepth : depth + 1 ≤ maxNesting
  case neg =>
    rw [operand_of_deep fuel hdepth]
    exact not_false
  rcases tokens with _ | ⟨t, rest⟩
  · unfold Reader.operand
    split <;> exact not_false
  obtain ⟨ht, hrest⟩ := List.forall_mem_cons.mp htokens
  by_cases hcall : t.kind = .call
  · exact ih.call_step hdepth hcall hrest
  by_cases hopening : t.kind = .opening
  · rw [operand_of_opening fuel rest hdepth hopening]
    refine (ih.expression hrest).bind ?_
    rintro ⟨inner, rest⟩ hrest
    rcases rest with _ | ⟨next, others⟩
    · exact not_false
    simp only [close]
    split
    · exact (List.forall_mem_cons.mp hrest).2
    · exact not_false
  by_cases hunary : t.kind = .unary
  · rcases hop : g.lang.unary? t.surface with _ | op
    · rw [operand_of_unary_unknown fuel rest hdepth hunary hop]
      exact not_false
    · rw [operand_of_unary fuel rest hdepth hunary hop]
      refine (ih.expression hrest).bind ?_
      rintro ⟨inner, rest⟩ hrest
      exact hrest
  · rw [operand_of_single fuel rest hdepth hcall hopening hunary]
    exact (spares_single ht).bind fun _ _ => hrest

end Converting

/-- Where all tokens convert, no reading is refused because one does not, by induction on the fuel
with the tokens that are left among what is carried along. -/
theorem converting_fuel (g : Setting) (fuel : Nat) : Converting g fuel := by
  induction fuel with
  | zero =>
    constructor
    all_goals
      intros
      simp only [Reader.expression, Reader.climb, Reader.operand, Reader.arguments]
      exact not_false
  | succ fuel ih =>
    constructor
    · intro depth least tokens htokens
      exact ih.expression_step htokens depth least
    · intro depth least left tokens htokens
      exact ih.climb_step htokens depth least left
    · intro depth tokens htokens
      exact ih.operand_step htokens depth
    · intro depth name args height tokens htokens
      exact ih.arguments_step htokens depth name args height

end Reader

/-- Once there are tokens, a script is not refused because a number does not convert. -/
theorem Script.spares_read {lang : Language} {source : Source} {tokens : List Token}
    (htokens : tokenize lang.operators source = .ok tokens) :
    Reader.Spares (fun _ => True) (Script.read lang source) := by
  have hconverts := (emits_of_tokenize htokens).converts
  unfold Script.read
  rw [htokens]
  simp only [bind, Except.bind]
  split
  · exact not_false
  · rename_i last hlast
    have hreader := Reader.converting_fuel ⟨lang, source, last⟩ (2 * tokens.length + 2)
    refine (hreader.expression hconverts).bind ?_
    rintro ⟨parsed, rest⟩ _
    rcases rest with _ | ⟨t, rest⟩
    · trivial
    · exact not_false

/-- So only the lexer refuses a script for a number, and only for a mark without digits. -/
theorem Script.of_isConversion {lang : Language} {source : Source} {f : Fault}
    (h : Script.read lang source = .error f) (hcause : f.cause.IsConversion) :
    (∃ mark ∈ ["0x", "0X"], f.cause = .malformedHex mark) ∧
      tokenize lang.operators source = .error f := by
  obtain ⟨tokens, ending, hemits⟩ := Lexer.exists_emits lang.operators source
    (.ofCode source.code true) rfl
  have htokens := tokenize_of_emits hemits
  cases ending with
  | none =>
    have hspares := Script.spares_read htokens
    rw [h] at hspares
    exact absurd hcause hspares
  | some fault =>
    have hread : Script.read lang source = .error fault := by
      unfold Script.read
      rw [htokens]
      rfl
    cases hread.symm.trans h
    exact ⟨hemits.isConversion rfl hcause, htokens⟩

/-! ## Reading arguments -/

/-- The fault is that an argument looks like a number and is none. -/
def InvokeFault.IsConversion : InvokeFault → Prop
  | .notANumber _ => True
  | _ => False

theorem not_isConversion_of_takeArgument {globals : Registry Value} {sign : Bool} {t : Token}
    (ht : t.Converts) {e : InvokeFault} (h : takeArgument globals sign t = .error e) :
    ¬ e.IsConversion := by
  by_cases hnumber : t.kind = .number ∨ t.kind = .hex
  · have htaken := takeArgument_numeral (ht hnumber).spells globals sign t.place
    cases htaken.symm.trans h
  · push Not at hnumber
    unfold takeArgument at h
    split at h
    · cases h
    · cases h
    · exact absurd ‹_› hnumber.1
    · exact absurd ‹_› hnumber.2
    · split at h
      · cases h
      · cases h
        exact not_false
    · split at h
      · cases h
      · cases h
        exact not_false
    · cases h
      exact not_false
    · cases h
      exact not_false
    · cases h
      exact not_false
    · cases h
      exact not_false

/-- However far a list of arguments is read, it never contains a number that is none. -/
theorem not_isConversion_of_readArguments {ops : OperatorTable} {source : Source}
    {globals : Registry Value} {e : InvokeFault} (fuel : Nat) (l : Lexer) (sign : Bool)
    (args : List Value) (h : readArguments ops source globals fuel l sign args = .error e) :
    ¬ e.IsConversion := by
  induction fuel generalizing l sign args with
  | zero => cases h
  | succ fuel ih =>
    unfold readArguments at h
    split at h
    · cases h
    · cases h
      exact not_false
    · rename_i t after hnext
      split at h
      · rename_i hargument
        cases h
        exact not_isConversion_of_takeArgument (Lexer.converts_of_next hnext) hargument
      · exact ih _ _ _ h
      · exact ih _ _ _ h

/-! ## Numbers always convert -/

/-- Every number that a lexer gives, whether it is strict or not, is a numeral, and it converts to
the same number in a script and in a list of arguments. So a script is never refused for a decimal
numeral; for a hexadecimal one it is refused by the lexer alone, where no digit follows the mark;
and no list of arguments is refused for a number that is none. -/
theorem numbers_always_convert (ops : OperatorTable) (lang : Language) (source : Source)
    (strict : Bool) (globals : Registry Value) :
    (∀ n t, (Lexer.ofCode source.code strict).pulled ops source n = .token t →
      (t.kind = .number → IsDecimal t.surface.toList ∧
        ∃ x, Number.readUnsigned? t.surface.toList = some x ∧ Number.read? t.surface = some x) ∧
      (t.kind = .hex → IsHexadecimal t.surface.toList ∧
        ∃ x, Number.readHex? (t.surface.toList.drop 2) = some x ∧
          Number.read? t.surface = some x)) ∧
    (∀ f, Script.read lang source = .error f →
      (∀ text, f.cause ≠ .malformedNumber text) ∧
      ∀ text, f.cause = .malformedHex text →
        text ∈ ["0x", "0X"] ∧ tokenize lang.operators source = .error f) ∧
    ∀ text, argumentsOf lang globals source.code ≠ .error (.notANumber text) := by
  refine ⟨fun n t ht => ?_, fun f hf => ⟨fun text htext => ?_, fun text htext => ?_⟩,
    fun text h => ?_⟩
  · have hconverts := Lexer.converts_of_pulled ht
    obtain ⟨kind, surface, place⟩ := t
    constructor
    · rintro rfl
      have hspells := (hconverts (Or.inl rfl)).spells
      have hread := hspells.read?
      cases hspells with
      | decimal hdecimal hx => exact ⟨hdecimal, _, hx, hread⟩
    · rintro rfl
      have hspells := (hconverts (Or.inr rfl)).spells
      have hread := hspells.read?
      cases hspells with
      | hexadecimal hhexadecimal hx => exact ⟨hhexadecimal, _, hx, hread⟩
  · obtain ⟨⟨mark, _, hmark⟩, _⟩ := Script.of_isConversion hf (by rw [htext]; trivial)
    rw [htext] at hmark
    cases hmark
  · obtain ⟨⟨mark, hmem, hmark⟩, htokens⟩ := Script.of_isConversion hf (by rw [htext]; trivial)
    rw [htext] at hmark
    cases hmark
    exact ⟨hmem, htokens⟩
  · exact not_isConversion_of_readArguments _ _ _ _ h trivial

end TickScript
