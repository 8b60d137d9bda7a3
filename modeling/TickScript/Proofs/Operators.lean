-- The operators of a language that a host has built. However their spellings overlap, the
-- longest one that fits is read.
import TickScript.Language
import TickScript.Proofs.Tokens

namespace TickScript

/-! ## Building a language -/

/-- What a host tells a language of. -/
inductive Registration where
  | operator (spelling : String) (precedence : Nat) (side : Side)
      (apply : Kind → Lazy → Lazy → Run Value)
  | assignment (spelling : String) (precedence : Nat) (apply : Kind → Lazy → Lazy → Run Value)
  | unary (spelling : String) (precedence : Nat) (apply : Kind → Lazy → Run Value)
  | function (name : String) (f : Native)

/-- The spelling of an operator. -/
def Registration.spelling? : Registration → Option String
  | operator spelling .. | assignment spelling .. | unary spelling .. => some spelling
  | function .. => none

/-- All the spellings of operators after some registrations, those of the bare language
included. -/
def spellings (rs : List Registration) : List String :=
  ["->", ";"] ++ rs.filterMap Registration.spelling?

namespace Language

/-- The language that has been told of one more thing. -/
def register (lang : Language) : Registration → Language
  | .operator spelling precedence side apply => lang.addOperator spelling precedence side apply
  | .assignment spelling precedence apply => lang.addAssignment spelling precedence apply
  | .unary spelling precedence apply => lang.addUnary spelling precedence apply
  | .function name f => lang.addFunction name f

/-- The bare language told of some things, one after the other. -/
def built (rs : List Registration) : Language := rs.foldl register bare

theorem built_concat (rs : List Registration) (r : Registration) :
    built (rs ++ [r]) = (built rs).register r := by
  simp [built]

end Language

/-! ## Tables -/

/-- The operators of the table are these spellings, and it tells their beginnings. -/
structure OperatorTable.Knows (ops : OperatorTable) (known : List String) : Prop where
  isOperator_iff : ∀ s, ops.isOperator s = true ↔ s ∈ known
  isStart_iff : ∀ s, ops.isStart s = true ↔ s ≠ "" ∧ ∃ op ∈ known, s.toList <+: op.toList

theorem mem_startsOf {s spelling : String} :
    s ∈ startsOf spelling ↔ s ≠ "" ∧ s.toList <+: spelling.toList := by
  unfold startsOf
  rw [List.mem_map]
  constructor
  · rintro ⟨n, hn, rfl⟩
    have hn : n < spelling.toList.length := by
      rwa [List.mem_range, ← String.length_toList] at hn
    refine ⟨?_, by simpa using List.take_prefix _ _⟩
    intro hempty
    have hnil : spelling.toList.take (n + 1) = [] := by simpa using congrArg String.toList hempty
    have hlength := congrArg List.length hnil
    rw [List.length_take, List.length_nil] at hlength
    omega
  · rintro ⟨hne, hprefix⟩
    have hlength := hprefix.length_le
    have hpos : 0 < s.toList.length := List.length_pos_iff.mpr (by simpa using hne)
    refine ⟨s.toList.length - 1, ?_, ?_⟩
    · rw [List.mem_range, ← String.length_toList]
      omega
    · rw [Nat.sub_add_cancel hpos, ← List.prefix_iff_eq_take.mp hprefix, String.ofList_toList]

theorem Language.knows_add {lang : Language} {known : List String} {spelling : String}
    (h : lang.operators.Knows known) {more : Language}
    (hoperator : ∀ s, more.isOperator s = true ↔ s = spelling ∨ lang.isOperator s = true)
    (hstarts : more.starts = startsOf spelling ++ lang.starts) :
    more.operators.Knows (known ++ [spelling]) := by
  constructor
  · intro s
    have := h.isOperator_iff s
    simp only [operators] at this ⊢
    rw [hoperator, this]
    simp [or_comm]
  · intro s
    have := h.isStart_iff s
    simp only [operators, List.contains_eq_mem, decide_eq_true_eq] at this ⊢
    rw [hstarts, List.mem_append, mem_startsOf, this]
    constructor
    · rintro (⟨hne, hprefix⟩ | ⟨hne, op, hop, hprefix⟩)
      · exact ⟨hne, spelling, by simp, hprefix⟩
      · exact ⟨hne, op, by simp [hop], hprefix⟩
    · rintro ⟨hne, op, hop, hprefix⟩
      rcases List.mem_append.mp hop with hop | hop
      · exact Or.inr ⟨hne, op, hop, hprefix⟩
      · exact Or.inl ⟨hne, List.mem_singleton.mp hop ▸ hprefix⟩

theorem Language.isOperator_addBinary (lang : Language) (spelling : String) (op : BinaryOperator)
    (s : String) :
    (lang.addBinary spelling op).isOperator s = true ↔ s = spelling ∨ lang.isOperator s = true := by
  by_cases hs : s = spelling
  · simp [isOperator, binary?, addBinary, hs]
  · have : (s == spelling) = false := by simpa using hs
    simp [isOperator, binary?, unary?, addBinary, List.lookup_cons, hs, this]

theorem Language.isOperator_addUnary (lang : Language) (spelling : String) (precedence : Nat)
    (apply : Kind → Lazy → Run Value) (s : String) :
    (lang.addUnary spelling precedence apply).isOperator s = true ↔
      s = spelling ∨ lang.isOperator s = true := by
  by_cases hs : s = spelling
  · simp [isOperator, unary?, addUnary, hs]
  · have : (s == spelling) = false := by simpa using hs
    simp [isOperator, binary?, unary?, addUnary, List.lookup_cons, hs, this]

theorem Language.knows_bare : bare.operators.Knows ["->", ";"] := by
  have hempty : empty.operators.Knows [] :=
    ⟨by simp [operators, isOperator, binary?, unary?, empty], by simp [operators, empty]⟩
  exact knows_add (knows_add hempty (isOperator_addBinary _ _ _) rfl)
    (isOperator_addBinary _ _ _) rfl

/-- A language knows the operators that it was told of. -/
theorem Language.knows_built (rs : List Registration) :
    (built rs).operators.Knows (spellings rs) := by
  induction rs using List.reverseRecOn with
  | nil => exact knows_bare
  | append_singleton rs r ih =>
    have hspellings : spellings (rs ++ [r]) = spellings rs ++ r.spelling?.toList := by
      cases r <;> simp [spellings, Registration.spelling?]
    rw [built_concat, hspellings]
    cases r with
    | operator spelling precedence side apply =>
      exact knows_add ih (isOperator_addBinary _ _ _) rfl
    | assignment spelling precedence apply =>
      exact knows_add ih (isOperator_addBinary _ _ _) rfl
    | unary spelling precedence apply =>
      exact knows_add ih (isOperator_addUnary _ _ _ _) rfl
    | function name f =>
      rw [Registration.spelling?, Option.toList_none, List.append_nil]
      exact ih

/-- Only `->` makes definitions, and only `;` makes sequences, from left to right. -/
structure Language.Regular (lang : Language) : Prop where
  defines : ∀ {s op}, lang.binary? s = some op → op.role = .defines → s = "->"
  sequences : ∀ {s op}, lang.binary? s = some op → op.role = .sequences →
    s = ";" ∧ op = ⟨1, .left, .sequences⟩

theorem Language.regular_addBinary {lang : Language} (h : lang.Regular) {spelling : String}
    {op : BinaryOperator} (hdefines : op.role ≠ .defines) (hsequences : op.role ≠ .sequences) :
    (lang.addBinary spelling op).Regular := by
  have hfound : ∀ {s other}, (lang.addBinary spelling op).binary? s = some other →
      other = op ∨ lang.binary? s = some other := by
    intro s other hother
    unfold binary? addBinary at hother
    rw [List.lookup_cons] at hother
    split at hother
    · exact Or.inl (Option.some.inj hother).symm
    · exact Or.inr hother
  constructor
  · intro s other hother hrole
    rcases hfound hother with rfl | hother
    · exact absurd hrole hdefines
    · exact h.defines hother hrole
  · intro s other hother hrole
    rcases hfound hother with rfl | hother
    · exact absurd hrole hsequences
    · exact h.sequences hother hrole

theorem Language.regular_bare : bare.Regular := by
  have hcases : ∀ {s op}, bare.binary? s = some op →
      s = ";" ∧ op = ⟨1, .left, .sequences⟩ ∨ s = "->" ∧ op = ⟨2, .right, .defines⟩ := by
    intro s op hop
    have hop : [(";", ⟨1, .left, .sequences⟩), ("->", ⟨2, .right, .defines⟩)].lookup s = some op :=
      hop
    rw [List.lookup_cons, List.lookup_cons, List.lookup_nil] at hop
    split at hop
    · exact Or.inl ⟨by simp_all, (Option.some.inj hop).symm⟩
    · split at hop
      · exact Or.inr ⟨by simp_all, (Option.some.inj hop).symm⟩
      · cases hop
  constructor
  · intro s op hop hrole
    rcases hcases hop with ⟨_, rfl⟩ | ⟨hs, _⟩
    · cases hrole
    · exact hs
  · intro s op hop hrole
    rcases hcases hop with hs | ⟨_, rfl⟩
    · exact hs
    · cases hrole

/-- No host can make another operator define or put in sequence. -/
theorem Language.regular_built (rs : List Registration) : (built rs).Regular := by
  induction rs using List.reverseRecOn with
  | nil => exact regular_bare
  | append_singleton rs r ih =>
    rw [built_concat]
    cases r with
    | operator spelling precedence side apply => exact regular_addBinary ih nofun nofun
    | assignment spelling precedence apply => exact regular_addBinary ih nofun nofun
    | unary spelling precedence apply => exact ⟨ih.defines, ih.sequences⟩
    | function name f => exact ⟨ih.defines, ih.sequences⟩

/-! ## Scanning -/

/-- The spelling is the longest of these that the text starts with. -/
structure IsLongest (known : List String) (cs : List Char) (op : String) : Prop where
  isKnown : op ∈ known
  fits : op.toList <+: cs
  longest : ∀ other ∈ known, other.toList <+: cs → other.length ≤ op.length

section Scanning

variable {ops : OperatorTable} {known : List String} (h : ops.Knows known)

include h

/-- Of the operators that the text starts with, none that is longer than what has been taken is
missed: the text up to its end begins an operator. -/
theorem scanOperator_longest {cs taken rest : List Char} {longest : Nat} (hcs : cs = taken ++ rest)
    (hfound : longest = 0 ∨ longest ≤ cs.length ∧ String.ofList (cs.take longest) ∈ known)
    (hbound : ∀ op ∈ known, op.toList <+: cs → op.length ≤ taken.length → op.length ≤ longest) :
    let n := (scanOperator ops taken longest rest).2
    (n = 0 ∨ n ≤ cs.length ∧ String.ofList (cs.take n) ∈ known) ∧
      ∀ op ∈ known, op.toList <+: cs → op.length ≤ n := by
  induction rest generalizing taken longest with
  | nil =>
    refine ⟨hfound, fun op hop hprefix => hbound op hop hprefix ?_⟩
    have hlength := hprefix.length_le
    rwa [hcs, List.append_nil, String.length_toList] at hlength
  | cons c rest ih =>
    have hcs' : cs = taken ++ [c] ++ rest := by simp [hcs]
    have hcandidate : cs.take (taken ++ [c]).length = taken ++ [c] := by rw [hcs', List.take_left]
    unfold scanOperator
    dsimp only
    split
    · -- The candidate begins an operator, and may be one itself.
      by_cases hoperator : ops.isOperator (String.ofList (taken ++ [c])) = true
      · rw [if_pos hoperator]
        refine ih hcs' (Or.inr ⟨?_, ?_⟩) fun op hop hprefix hle => hle
        · simp [hcs']
        · rw [hcandidate]
          exact (h.isOperator_iff _).mp hoperator
      · rw [if_neg hoperator]
        refine ih hcs' hfound fun op hop hprefix hle => hbound op hop hprefix ?_
        rcases Nat.lt_or_ge taken.length op.length with hlong | hshort
        · exfalso
          have hlength : op.toList.length = (taken ++ [c]).length := by
            rw [List.length_append, List.length_singleton, String.length_toList] at *
            omega
          have heq : op.toList = taken ++ [c] := by
            rw [List.prefix_iff_eq_take.mp hprefix, hlength, hcandidate]
          rw [← heq, String.ofList_toList] at hoperator
          exact hoperator ((h.isOperator_iff _).mpr hop)
        · exact hshort
    · -- An operator that goes on would begin with the candidate.
      rename_i hstart
      refine ⟨hfound, fun op hop hprefix => hbound op hop hprefix ?_⟩
      rcases Nat.lt_or_ge taken.length op.length with hlong | hshort
      · exfalso
        apply hstart
        rw [h.isStart_iff]
        refine ⟨by simp, op, hop, ?_⟩
        rw [String.toList_ofList]
        refine List.prefix_of_prefix_length_le (hcs' ▸ List.prefix_append _ _) hprefix ?_
        rw [List.length_append, List.length_singleton, String.length_toList]
        omega
      · exact hshort

/-- What a scan comes to: no operator, or the longest. -/
theorem scanOperator_cases (cs : List Char) :
    ((scanOperator ops [] 0 cs).2 = 0 ∧ ∀ op ∈ known, op.toList <+: cs → op = "") ∨
    ∃ op, op ≠ "" ∧ IsLongest known cs op ∧ (scanOperator ops [] 0 cs).2 = op.length := by
  obtain ⟨hfound, hlongest⟩ :=
    scanOperator_longest h (List.nil_append cs).symm (Or.inl rfl) fun op _ _ hle => hle
  by_cases hn : (scanOperator ops [] 0 cs).2 = 0
  · left
    refine ⟨hn, fun op hop hprefix => ?_⟩
    have hle := hlongest op hop hprefix
    rw [hn] at hle
    simpa using hle
  · right
    obtain ⟨hlength, hknown⟩ := hfound.resolve_left hn
    have htaken : (String.ofList (cs.take (scanOperator ops [] 0 cs).2)).length =
        (scanOperator ops [] 0 cs).2 := by
      rw [String.length_ofList, List.length_take]
      omega
    refine ⟨_, ?_, ⟨hknown, by simpa using List.take_prefix _ _, ?_⟩, htaken.symm⟩
    · intro hempty
      rw [hempty] at htaken
      exact hn htaken.symm
    · intro other hother hprefix
      rw [htaken]
      exact hlongest other hother hprefix

/-- The longest operator is read. -/
theorem readOperator_of_longest {cs : List Char} {op : String} (hop : IsLongest known cs op)
    (hne : op ≠ "") (kind : TokenKind) :
    readOperator ops kind cs = .ok ⟨kind, op.toList, op.toList, cs.drop op.length⟩ := by
  have hn : (scanOperator ops [] 0 cs).2 = op.length := by
    rcases scanOperator_cases h cs with ⟨_, hnone⟩ | ⟨other, _, hother, hn⟩
    · exact absurd (hnone op hop.isKnown hop.fits) hne
    · rw [hn]
      exact Nat.le_antisymm (hop.longest other hother.isKnown hother.fits)
        (hother.longest op hop.isKnown hop.fits)
  have hpos : op.length ≠ 0 := by simpa using hne
  have htake : cs.take op.length = op.toList := by
    rw [← String.length_toList, ← List.prefix_iff_eq_take.mp hop.fits]
  unfold readOperator
  simp only [hn, hpos, ↓reduceIte, htake]

/-- If the text starts with no operator, it is reported as an unknown one. -/
theorem readOperator_of_none {cs : List Char} (hnone : ∀ op ∈ known, op.toList <+: cs → op = "")
    (kind : TokenKind) :
    ∃ shown, readOperator ops kind cs =
      .error ⟨.number, shown, .unknownOperator (String.ofList shown)⟩ := by
  have hn : (scanOperator ops [] 0 cs).2 = 0 := by
    rcases scanOperator_cases h cs with ⟨hn, _⟩ | ⟨op, hne, hop, _⟩
    · exact hn
    · exact absurd (hnone op hop.isKnown hop.fits) hne
  unfold readOperator
  simp only [hn, ↓reduceIte]
  exact ⟨_, rfl⟩

end Scanning

/-! ## The longest operator -/

/-- Nothing but an operator can start here. -/
structure StartsSign (c : Char) (rest : List Char) : Prop where
  noNumber : startsNumber (c :: rest) = false
  noText : c ≠ '\''
  noName : Text.startsName c = false
  noParenthesis : c ≠ '(' ∧ c ≠ ')'
  noComma : c ≠ ','

theorem readPiece_of_sign {c : Char} {rest : List Char} (h : StartsSign c rest)
    (ops : OperatorTable) (kind : TokenKind) :
    readPiece ops kind c rest = readOperator ops kind (c :: rest) := by
  unfold readPiece
  simp only [h.noNumber, h.noText, h.noName, h.noParenthesis.1, h.noParenthesis.2, h.noComma,
    Bool.false_eq_true, ↓reduceIte]

/-- The character stands alone, as a token of this kind. -/
def IsMark (c : Char) (kind : TokenKind) : Prop :=
  c = '(' ∧ kind = .opening ∨ c = ')' ∧ kind = .closing ∨ c = ',' ∧ kind = .comma

theorem readPiece_of_isMark {c : Char} {mark : TokenKind} (h : IsMark c mark) (ops : OperatorTable)
    (kind : TokenKind) (rest : List Char) :
    readPiece ops kind c rest = .ok (singlePiece mark c rest) := by
  rcases h with ⟨rfl, rfl⟩ | ⟨rfl, rfl⟩ | ⟨rfl, rfl⟩ <;> rfl

/-- What a piece that is read can be. -/
inductive ReadsPiece (ops : OperatorTable) (kind : TokenKind) (c : Char) (rest : List Char) :
    Piece → Prop
  | number {p : Piece} (hc : startsNumber (c :: rest) = true)
      (h : readNumber (c :: rest) = .ok p) : ReadsPiece ops kind c rest p
  | text {p : Piece} (hc : c = '\'') (h : readText rest = .ok p) : ReadsPiece ops kind c rest p
  | name (hnumber : startsNumber (c :: rest) = false) (htext : c ≠ '\'')
      (hc : Text.startsName c = true) : ReadsPiece ops kind c rest (readName (c :: rest))
  | mark {mark : TokenKind} (hc : IsMark c mark) :
      ReadsPiece ops kind c rest (singlePiece mark c rest)
  | operator {p : Piece} (hc : StartsSign c rest)
      (h : readOperator ops kind (c :: rest) = .ok p) : ReadsPiece ops kind c rest p

theorem readPiece_cases {ops : OperatorTable} {kind : TokenKind} {c : Char} {rest : List Char}
    {p : Piece} (h : readPiece ops kind c rest = .ok p) : ReadsPiece ops kind c rest p := by
  unfold readPiece at h
  split at h
  · exact .number ‹_› h
  rename_i hnumber
  rw [Bool.not_eq_true] at hnumber
  split at h
  · exact .text ‹_› h
  rename_i htext
  split at h
  · cases h
    exact .name hnumber htext ‹_›
  rename_i hname
  split at h
  · cases h
    exact .mark (Or.inl ⟨‹_›, rfl⟩)
  rename_i hopening
  split at h
  · cases h
    exact .mark (Or.inr (Or.inl ⟨‹_›, rfl⟩))
  rename_i hclosing
  split at h
  · cases h
    exact .mark (Or.inr (Or.inr ⟨‹_›, rfl⟩))
  · exact .operator ⟨hnumber, htext, by simpa using hname, ⟨hopening, hclosing⟩, ‹_›⟩ h

namespace Lexer

variable {ops : OperatorTable} {known : List String} {l : Lexer} {c : Char} {rest : List Char}

theorem clash?_of_operator (l : Lexer) {t : Token} (ht : t.kind = l.operatorKind) :
    l.clash? t = none := by
  have hstarts : t.kind.startsOperand = false := by
    rw [ht]
    unfold operatorKind
    split <;> rfl
  unfold clash?
  split
  · simp [TokenKind.clashes, hstarts]
  · rfl

theorem next_of_longest (h : ops.Knows known) (source : Source) (hfailed : l.failed = false)
    (hrest : l.skipBlanks.rest = c :: rest) (hsign : StartsSign c rest) {op : String}
    (hop : IsLongest known (c :: rest) op) (hne : op ≠ "") :
    ∃ after, l.next ops source = (.token ⟨l.operatorKind, op, l.skipBlanks.place⟩, after) ∧
      op.toList ++ after.rest = c :: rest := by
  have hread := readOperator_of_longest h hop hne l.operatorKind
  rw [← readPiece_of_sign hsign] at hread
  refine ⟨l.past ⟨l.operatorKind, op.toList, op.toList, (c :: rest).drop op.length⟩, ?_, ?_⟩
  · rw [next_of_piece hfailed hrest hread (l.clash?_of_operator rfl), tokenOf, String.ofList_toList]
  · have hfits := List.prefix_iff_eq_append.mp hop.fits
    rwa [String.length_toList] at hfits

theorem next_of_no_operator (h : ops.Knows known) (source : Source) (hfailed : l.failed = false)
    (hrest : l.skipBlanks.rest = c :: rest) (hsign : StartsSign c rest)
    (hnone : ∀ op ∈ known, op.toList <+: c :: rest → op = "") :
    ∃ shown t after,
      l.next ops source = (.fault (.ofSite (.unknownOperator shown) ⟨t, source⟩), after) := by
  obtain ⟨shown, hread⟩ := readOperator_of_none h hnone l.operatorKind
  rw [← readPiece_of_sign hsign] at hread
  have hkind : l.skipBlanks.operatorKind = l.operatorKind := rfl
  unfold next
  simp only [hfailed, Bool.false_eq_true, ↓reduceIte, hrest, hkind, hread]
  exact ⟨_, _, _, rfl⟩

end Lexer

/-- For every language that a host builds, whatever the spellings of its operators are, a text is
taken for the beginning of an operator exactly if it is one. Where nothing but an operator can
start, the longest that fits is read, and an unknown operator is reported exactly if none fits. -/
theorem the_longest_operator_is_read (rs : List Registration)
    (hrs : ∀ r ∈ rs, r.spelling? ≠ some "") :
    (∀ s, (Language.built rs).operators.isStart s = true ↔
      s ≠ "" ∧ ∃ op ∈ spellings rs, s.toList <+: op.toList) ∧
    ∀ (source : Source) (l : Lexer) (c : Char) (rest : List Char), l.failed = false →
      l.skipBlanks.rest = c :: rest → StartsSign c rest →
      ((∃ op ∈ spellings rs, op.toList <+: c :: rest) →
        ∃ op after, IsLongest (spellings rs) (c :: rest) op ∧
          l.next (Language.built rs).operators source =
            (.token ⟨l.operatorKind, op, l.skipBlanks.place⟩, after) ∧
          op.toList ++ after.rest = c :: rest) ∧
      ((∃ shown t after, l.next (Language.built rs).operators source =
          (.fault (.ofSite (.unknownOperator shown) ⟨t, source⟩), after)) ↔
        ¬ ∃ op ∈ spellings rs, op.toList <+: c :: rest) := by
  have hknows := Language.knows_built rs
  have hempty : "" ∉ spellings rs := by
    intro hmem
    rcases List.mem_append.mp hmem with hmem | hmem
    · simp at hmem
    · obtain ⟨r, hr, hspelling⟩ := List.mem_filterMap.mp hmem
      exact hrs r hr hspelling
  refine ⟨hknows.isStart_iff, fun source l c rest hfailed hrest hsign => ?_⟩
  rcases scanOperator_cases hknows (c :: rest) with ⟨_, hnone⟩ | ⟨op, hne, hop, _⟩
  · have hnone' : ¬ ∃ op ∈ spellings rs, op.toList <+: c :: rest := by
      rintro ⟨op, hop, hfits⟩
      exact hempty (hnone op hop hfits ▸ hop)
    refine ⟨fun hsome => absurd hsome hnone', fun _ => hnone', fun _ => ?_⟩
    exact Lexer.next_of_no_operator hknows source hfailed hrest hsign hnone
  · have hsome : ∃ op ∈ spellings rs, op.toList <+: c :: rest := ⟨op, hop.isKnown, hop.fits⟩
    obtain ⟨after, hnext, hafter⟩ := Lexer.next_of_longest hknows source hfailed hrest hsign hop hne
    refine ⟨fun _ => ⟨op, after, hop, hnext, hafter⟩, ?_, fun hnone => absurd hsome hnone⟩
    rintro ⟨shown, t, _, hfault⟩
    rw [hnext] at hfault
    cases hfault

/-- Where `<` and `<=>` are operators, `<=a` starts with the operator `<`. -/
theorem a_scan_goes_back_to_an_operator :
    let apply : Kind → Lazy → Lazy → Run Value := fun kind left _ => left kind
    let rs : List Registration := [.operator "<" 10 .left apply, .operator "<=>" 10 .left apply]
    ∃ after, (Lexer.ofCode "<=a" true).next (Language.built rs).operators ⟨"<=a", none⟩ =
      (.token ⟨.unary, "<", .start⟩, after) ∧ after.rest = ['=', 'a'] := by
  intro apply rs
  have hrs : ∀ r ∈ rs, r.spelling? ≠ some "" := by simp [rs, Registration.spelling?]
  have hsign : StartsSign '<' ['=', 'a'] := ⟨by decide, by decide, by decide, by decide, by decide⟩
  obtain ⟨_, hread⟩ := the_longest_operator_is_read rs hrs
  obtain ⟨hread, _⟩ := hread ⟨"<=a", none⟩ (.ofCode "<=a" true) '<' ['=', 'a'] rfl (by decide) hsign
  have hspellings : spellings rs = ["->", ";", "<", "<=>"] := rfl
  rw [hspellings] at hread
  obtain ⟨op, after, hop, hnext, hafter⟩ := hread ⟨"<", by decide, by decide⟩
  have hfits := hop.fits
  have hknown := hop.isKnown
  simp only [List.mem_cons, List.not_mem_nil, or_false] at hknown
  have hlt : op = "<" := by
    rcases hknown with rfl | rfl | rfl | rfl
    · exact absurd hfits (by decide)
    · exact absurd hfits (by decide)
    · rfl
    · exact absurd hfits (by decide)
  subst hlt
  exact ⟨after, hnext, by simpa using hafter⟩

end TickScript
