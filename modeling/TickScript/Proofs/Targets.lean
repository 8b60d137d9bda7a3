-- What assignments write to, as it stands in a script: a variable, or a list of such things. The
-- text of a target is read as the tree one expects, and this happens exactly if the tree is not too
-- deep.
import TickScript.Proofs.Grouping
import TickScript.Proofs.Nesting

namespace TickScript

open TickScript.Text

variable {P : Target}

variable {parts : List Target} {fuel fuel' depth : Nat} {x : Parsed × List Token} {ts : List Token}
  {lang : Language} {spelling : String}

/-! ## Targets -/

/-- A variable, or a list of targets. -/
inductive Target
  | single (name : String)
  | list (parts : List Target)

namespace Target

theorem induct {motive : Target → Prop} (single : ∀ name, motive (single name))
    (list : ∀ parts, (∀ P ∈ parts, motive P) → motive (list parts)) (P : Target) : motive P :=
  Target.rec single list (List.forall_mem_nil _)
    (fun _ _ hP hparts => List.forall_mem_cons.mpr ⟨hP, hparts⟩) P

mutual

/-- The variables from left to right. -/
def names : Target → List String
  | single name => [name]
  | list parts => allNames parts

def allNames : List Target → List String
  | [] => []
  | P :: parts => P.names ++ allNames parts

end

mutual

def text : Target → String
  | single name => name
  | list parts => listMaker ++ "(" ++ ", ".intercalate (texts parts) ++ ")"

def texts : List Target → List String
  | [] => []
  | P :: parts => P.text :: texts parts

end

mutual

def lexemes : Target → List Lexeme
  | single name => [⟨.name, name⟩]
  | list parts => headed listMaker (allLexemes parts)

def allLexemes : List Target → List (List Lexeme)
  | [] => []
  | P :: parts => P.lexemes :: allLexemes parts

end

mutual

/-- How deep the lists are nested. -/
def levels : Target → Nat
  | single _ => 1
  | list parts => maxLevels parts + 1

def maxLevels : List Target → Nat
  | [] => 0
  | P :: parts => max P.levels (maxLevels parts)

end

/-- The tree of a target, as what is read or as what is written to. -/
inductive IsTree (isTarget : Bool) : Target → Expr → Prop
  | single (name : String) (site : Site) : IsTree isTarget (single name) (.var name isTarget site)
  | list {parts : List Target} {trees : List Expr} (h : List.Forall₂ (IsTree isTarget) parts trees)
      (site : Site) : IsTree isTarget (list parts) (.call listMaker trees site)

/-- Induction on how a tree belongs to a target, with what holds of all the parts. -/
theorem IsTree.induct {isTarget : Bool}
    {motive : (P : Target) → (e : Expr) → P.IsTree isTarget e → Prop}
    (single : ∀ name site, motive _ _ (.single name site))
    (list : ∀ {parts trees} (h : List.Forall₂ (IsTree isTarget) parts trees) site,
      List.Forall₂ (fun P e => ∃ h, motive P e h) parts trees → motive _ _ (.list h site))
    {P : Target} {e : Expr} (h : P.IsTree isTarget e) : motive P e h :=
  @IsTree.rec isTarget motive
    (fun parts trees _ => List.Forall₂ (fun P e => ∃ h, motive P e h) parts trees)
    single list .nil (fun h _ ih ihs => .cons ⟨h, ih⟩ ihs) P e h

theorem mem_allNames {name : String} : name ∈ allNames parts ↔ ∃ P ∈ parts, name ∈ P.names := by
  induction parts with
  | nil => simp [allNames]
  | cons P parts ih => simp [allNames, ih]

theorem maxLevels_le_iff {n : Nat} : maxLevels parts ≤ n ↔ ∀ P ∈ parts, P.levels ≤ n := by
  induction parts with
  | nil => simp [maxLevels]
  | cons P parts ih => rw [maxLevels, Nat.max_le, ih, List.forall_mem_cons]

theorem joined_allLexemes_cons (P Q : Target) (parts : List Target) :
    joined ⟨.comma, ","⟩ (allLexemes (P :: Q :: parts)) =
      P.lexemes ++ ⟨.comma, ","⟩ :: joined ⟨.comma, ","⟩ (allLexemes (Q :: parts)) := by
  simp [allLexemes, joined]

theorem lexemes_eq_cons (P : Target) : ∃ x xs, P.lexemes = x :: xs ∧ x.kind ≠ .closing := by
  cases P with
  | single name => exact ⟨_, _, rfl, by simp⟩
  | list parts => exact ⟨_, _, rfl, by simp⟩

end Target

/-! ## Reading tokens -/

namespace Reader

variable {g : Setting}

theorem operand_unique {depth' : Nat} {tokens : List Token} {y : Parsed × List Token}
    (hx : operand g fuel depth tokens = .ok x) (hy : operand g fuel' depth' tokens = .ok y) :
    y = x := by
  -- What is read once is read again with more fuel and further out, and there the two meet.
  have hagain : ∀ {fuel depth : Nat} {z : Parsed × List Token},
      operand g fuel depth tokens = .ok z → ∀ f, fuel ≤ f → operand g f 0 tokens = .ok z := by
    rintro fuel depth ⟨p, r⟩ hz f hf
    obtain ⟨taken, rfl, _, _, hretakes⟩ := (takes g fuel).operand hz
    exact hretakes.again (by omega) (Nat.zero_le _) (Or.inr ⟨0, .self r⟩)
  have hx := hagain hx (max fuel fuel') (Nat.le_max_left _ _)
  have hy := hagain hy (max fuel fuel') (Nat.le_max_right _ _)
  rw [hx] at hy
  exact (Except.ok.inj hy).symm

/-- Tokens of a target are read as its tree if so many levels are free, and only then. -/
structure ReadsTarget (g : Setting) (P : Target) : Prop where
  reads : ∀ {ts : List Token} {depth : Nat}, ts.map Token.lexeme = P.lexemes →
    depth + P.levels ≤ maxNesting → ∃ p, P.IsTree false p.tree ∧ p.height ≤ P.levels ∧
      ∀ fuel more, 2 * ts.length ≤ fuel + 1 → operand g fuel depth (ts ++ more) = .ok (p, more)
  levels : ∀ {ts more : List Token} {fuel depth : Nat} {x : Parsed × List Token},
    ts.map Token.lexeme = P.lexemes → operand g fuel depth (ts ++ more) = .ok x →
    depth + P.levels ≤ maxNesting

theorem readsTarget_single (name : String) : ReadsTarget g (.single name) where
  reads := by
    intro ts depth hts hdepth
    obtain ⟨t, rfl, ht⟩ := List.map_eq_singleton_iff.mp hts
    obtain ⟨hkind, hsurface⟩ := Lexeme.mk.inj ht
    refine ⟨.leaf (.var t.surface false (g.site t)), hsurface ▸ .single _ _, Nat.le_refl 1,
      fun fuel more hfuel => ?_⟩
    obtain ⟨fuel, rfl⟩ : ∃ n, fuel = n + 1 := ⟨fuel - 1, by simp at hfuel; omega⟩
    rw [List.singleton_append, operand_of_single fuel more hdepth (by simp [hkind])
      (by simp [hkind]) (by simp [hkind])]
    simp only [single, hkind]
    rfl
  levels := by
    intro ts more fuel depth x _ h
    obtain ⟨_, _, hdepth⟩ := depth_of_operand h
    exact hdepth

/-- A part of a list is read up to the comma or parenthesis behind it. -/
theorem ReadsTarget.expression (h : ReadsTarget g P) (hts : ts.map Token.lexeme = P.lexemes)
    (hdepth : depth + P.levels ≤ maxNesting) :
    ∃ p, P.IsTree false p.tree ∧ p.height ≤ P.levels ∧
      ∀ fuel least more, 2 * ts.length ≤ fuel → Ends g least more →
        expression g fuel depth least (ts ++ more) = .ok (p, more) := by
  obtain ⟨p, htree, hheight, hreads⟩ := h.reads hts hdepth
  refine ⟨p, htree, hheight, fun fuel least more hfuel hmore => ?_⟩
  have hlength : 0 < ts.length := by
    obtain ⟨x, xs, hlexemes, -⟩ := P.lexemes_eq_cons
    rw [← List.length_map (f := Token.lexeme), hts, hlexemes]
    exact Nat.succ_pos _
  obtain ⟨fuel, rfl⟩ : ∃ n, fuel = n + 2 := ⟨fuel - 2, by omega⟩
  rw [expression_succ, hreads (fuel + 1) more (by omega)]
  exact climb_of_ends hmore fuel depth p

/-- The parts of a list are read one after the other, behind those that have been read. -/
theorem arguments_targets (hparts : ∀ P ∈ parts, ReadsTarget g P) (hne : parts ≠ [])
    (hts : ts.map Token.lexeme = joined ⟨.comma, ","⟩ (Target.allLexemes parts)) {u : Token}
    (hu : u.kind = .closing) (hdepth : ∀ P ∈ parts, depth + P.levels ≤ maxNesting) :
    ∃ ps : List Parsed, List.Forall₂ (Target.IsTree false) parts (ps.map Parsed.tree) ∧
      (∀ p ∈ ps, p.height ≤ Target.maxLevels parts) ∧
      ∀ fuel more name done, 2 * ts.length + 1 ≤ fuel →
        arguments g fuel depth name (done.map Parsed.tree) (highest done) (ts ++ u :: more) =
          finishCall g name ((done ++ ps).map Parsed.tree) (highest (done ++ ps)) >>= fun parsed =>
            .ok (parsed, more) := by
  induction parts generalizing ts with
  | nil => exact absurd rfl hne
  | cons P parts ih =>
    obtain ⟨hP, hothers⟩ := List.forall_mem_cons.mp hparts
    obtain ⟨hPdepth, hdepths⟩ := List.forall_mem_cons.mp hdepth
    cases parts with
    | nil =>
      have hts : ts.map Token.lexeme = P.lexemes := by simpa [Target.allLexemes, joined] using hts
      obtain ⟨p, htree, hheight, hreads⟩ := hP.expression hts hPdepth
      refine ⟨[p], .cons htree .nil, by simpa [Target.maxLevels] using hheight,
        fun fuel more name done hfuel => ?_⟩
      obtain ⟨fuel, rfl⟩ : ∃ n, fuel = n + 1 := ⟨fuel - 1, by omega⟩
      rw [arguments_succ, hreads fuel 0 (u :: more) (by omega) (ends_of_kind (by simp [hu]) 0 more),
        List.map_append, highest_concat]
      simp [afterArgument, bind, Except.bind, hu]
    | cons Q parts =>
      rw [Target.joined_allLexemes_cons] at hts
      obtain ⟨first, rest, rfl, hfirst, hrest⟩ := List.map_eq_append_iff.mp hts
      obtain ⟨v, others, rfl, hv, hothers'⟩ := List.map_eq_cons_iff.mp hrest
      have hv : v.kind = .comma := congrArg Lexeme.kind hv
      obtain ⟨p, htree, hheight, hreads⟩ := hP.expression hfirst hPdepth
      obtain ⟨ps, htrees, hheights, hargs⟩ := ih hothers (by simp) hothers' hdepths
      refine ⟨p :: ps, .cons htree htrees, ?_, fun fuel more name done hfuel => ?_⟩
      · rw [Target.maxLevels]
        refine List.forall_mem_cons.mpr ⟨by omega, fun q hq => ?_⟩
        have := hheights q hq
        omega
      · rw [List.length_append, List.length_cons] at hfuel
        obtain ⟨fuel, rfl⟩ : ∃ n, fuel = n + 1 := ⟨fuel - 1, by omega⟩
        have hnext := hargs fuel more name (done ++ [p]) (by omega)
        rw [List.append_assoc, List.singleton_append, List.map_append, highest_concat] at hnext
        rw [List.append_assoc, List.cons_append, arguments_succ,
          hreads fuel 0 _ (by omega) (ends_of_kind (by simp [hv]) 0 _), ← hnext]
        simp [afterArgument, bind, Except.bind, hv]

/-- Where the parts of a list are read, so many levels are free. -/
theorem levels_of_arguments (hparts : ∀ P ∈ parts, ReadsTarget g P) (hne : parts ≠ [])
    {more : List Token} (hts : ts.map Token.lexeme = joined ⟨.comma, ","⟩ (Target.allLexemes parts))
    {height : Nat} {name : Token} {args : List Expr}
    (h : arguments g fuel depth name args height (ts ++ more) = .ok x) :
    ∀ P ∈ parts, depth + P.levels ≤ maxNesting := by
  induction parts generalizing ts fuel args height with
  | nil => exact absurd rfl hne
  | cons P parts ih =>
    obtain ⟨hP, hothers⟩ := List.forall_mem_cons.mp hparts
    rcases fuel with _ | fuel
    · rw [arguments] at h
      cases h
    rw [arguments_succ] at h
    obtain ⟨⟨arg, after⟩, harg, hafter⟩ := of_bind_ok h
    cases parts with
    | nil =>
      have hts : ts.map Token.lexeme = P.lexemes := by simpa [Target.allLexemes, joined] using hts
      obtain ⟨_, _, _, _, hoperand, _⟩ := expression_cases harg
      simpa using hP.levels hts hoperand
    | cons Q parts =>
      rw [Target.joined_allLexemes_cons] at hts
      obtain ⟨first, rest, rfl, hfirst, hrest⟩ := List.map_eq_append_iff.mp hts
      obtain ⟨v, others, rfl, hv, hothers'⟩ := List.map_eq_cons_iff.mp hrest
      have hv : v.kind = .comma := congrArg Lexeme.kind hv
      rw [List.append_assoc, List.cons_append] at harg
      obtain ⟨_, _, _, _, hoperand, _⟩ := expression_cases harg
      have hlevels := hP.levels hfirst hoperand
      -- The first part is read up to the comma, and so the others are read behind it.
      obtain ⟨p, _, _, hreads⟩ := hP.expression hfirst hlevels
      cases expression_unique (hreads _ 0 _ (Nat.le_refl _) (ends_of_kind (by simp [hv]) 0 _)) harg
      simp only [afterArgument, hv, ↓reduceIte] at hafter
      exact List.forall_mem_cons.mpr ⟨hlevels, ih hothers (by simp) hothers' hafter⟩

theorem readsTarget_list
    (haccepts : ∀ f, g.lang.function? listMaker = some f → ∀ n, f.arity.accepts n = true)
    (hparts : ∀ P ∈ parts, ReadsTarget g P) : ReadsTarget g (.list parts) where
  reads := by
    intro ts depth hts hdepth
    obtain ⟨t, rest, rfl, ht, hrest⟩ := List.map_eq_cons_iff.mp hts
    obtain ⟨hkind, hsurface⟩ := Lexeme.mk.inj ht
    obtain ⟨v, inner, u, rfl, -, hu, hinner⟩ := of_map_inParens hrest
    have hfinish : ∀ args height, finishCall g t args height =
        .ok ⟨.call listMaker args (g.site t), height + 1⟩ := fun args height =>
      hsurface ▸ finishCall_of_accepts height fun f hf => haccepts f (hsurface ▸ hf) _
    rw [Target.levels] at hdepth
    by_cases hne : parts = []
    · subst hne
      obtain rfl := List.map_eq_nil_iff.mp hinner
      refine ⟨⟨.call listMaker [] (g.site t), 1⟩, .list .nil _, Nat.le_refl 1,
        fun fuel more hfuel => ?_⟩
      obtain ⟨fuel, rfl⟩ : ∃ n, fuel = n + 1 := ⟨fuel - 1, by simp at hfuel; omega⟩
      rw [List.cons_append, operand_of_call_closing fuel _ (by omega) hkind rfl hu, hfinish]
      rfl
    have hdepths : ∀ P ∈ parts, depth + 1 + P.levels ≤ maxNesting := by
      intro P hP
      have := Target.maxLevels_le_iff.mp (Nat.le_refl _) P hP
      omega
    obtain ⟨ps, htrees, hheights, hargs⟩ := arguments_targets hparts hne hinner hu hdepths
    have hhighest : highest ps < Target.maxLevels parts + 1 :=
      highest_lt (Nat.succ_pos _) fun p hp => Nat.lt_succ_of_le (hheights p hp)
    refine ⟨⟨.call listMaker (ps.map Parsed.tree) (g.site t), highest ps + 1⟩, .list htrees _,
      hhighest, fun fuel more hfuel => ?_⟩
    simp only [List.length_cons, List.length_append, List.length_nil] at hfuel
    obtain ⟨fuel, rfl⟩ : ∃ n, fuel = n + 1 := ⟨fuel - 1, by omega⟩
    rw [List.cons_append]
    refine operand_of_arguments (by omega) hkind ((hargs fuel more t [] (by omega)).trans ?_)
    rw [List.nil_append, hfinish]
    rfl
  levels := by
    intro ts more fuel depth x hts h
    obtain ⟨t, rest, rfl, ht, hrest⟩ := List.map_eq_cons_iff.mp hts
    have hkind : t.kind = .call := congrArg Lexeme.kind ht
    obtain ⟨v, inner, u, rfl, -, hu, hinner⟩ := of_map_inParens hrest
    obtain ⟨fuel, rfl, hdepth⟩ := depth_of_operand h
    rw [Target.levels]
    cases parts with
    | nil => exact hdepth
    | cons P parts =>
      obtain ⟨y, ys, hlexemes, hy⟩ := P.lexemes_eq_cons
      have hinner' := hinner
      rw [Target.allLexemes, joined, hlexemes] at hinner'
      obtain ⟨next, others, rfl, hnext, -⟩ := List.map_eq_cons_iff.mp hinner'
      have hnext : next.kind ≠ .closing := (congrArg Lexeme.kind hnext).trans_ne hy
      rw [List.cons_append, operand_of_call fuel _ hdepth hkind rfl hnext] at h
      have hinside : next :: (others ++ [u] ++ more) = next :: others ++ u :: more := by simp
      have hdepths := levels_of_arguments hparts (by simp) hinner (hinside ▸ h)
      have hmax : Target.maxLevels (P :: parts) ≤ maxNesting - (depth + 1) :=
        Target.maxLevels_le_iff.mpr fun Q hQ => by
          have := hdepths Q hQ
          omega
      omega

theorem readsTarget (haccepts : ∀ f, g.lang.function? listMaker = some f →
    ∀ n, f.arity.accepts n = true) (P : Target) : ReadsTarget g P := by
  induction P using Target.induct with
  | single name => exact readsTarget_single name
  | list parts ih => exact readsTarget_list haccepts ih

end Reader

/-! ## Reading texts -/

theorem head?_of_blanks {blanks : List Char} (hblanks : ∀ c ∈ blanks, isBlank c = true) {c : Char}
    (hc : isBlank c = false) (rest : List Char) :
    ((blanks ++ c :: rest).dropWhile isBlank).head? = some c := by
  have hdrop : (blanks ++ c :: rest).dropWhile isBlank = c :: rest :=
    (takeWhile_append hblanks (by simpa using hc)).2
  rw [hdrop]
  rfl

namespace Lexer.Reads

variable {ops : OperatorTable} {previous : Option TokenKind} {blanks rest : List Char}
  {xs : List Lexeme}

/-- A word, which is a call before a parenthesis. -/
theorem word {s : String} (hs : IsWord s.toList)
    (hprevious : TokenKind.precedesUnary previous = true) (hblanks : ∀ c ∈ blanks, isBlank c = true)
    (hrest : EndsWord rest) {kind : TokenKind}
    (hkind : (if (rest.dropWhile isBlank).head? = some '(' then .call else .name) = kind)
    (h : Reads ops (some kind) rest xs) :
    Reads ops previous (blanks ++ (s.toList ++ rest)) (⟨kind, s⟩ :: xs) := by
  rintro source l hfailed hstrict rfl hl
  have hspelled : Lexeme.spelled ⟨kind, s⟩ = s.toList := by
    rw [← hkind]
    split <;> rfl
  refine emits_cons hfailed hblanks (by rw [hl, hspelled]) ?_ (fun t ht _ => ?_)
    fun m hm hstrict' => h source m hm (hstrict'.trans hstrict)
  · rw [hspelled, ← hkind]
    exact readPiece_of_isWord hs hrest ops _
  · rw [Option.mem_def.mp ht] at hprevious
    exact TokenKind.not_clashes_of_precedesUnary hprevious _

/-- An operator between two operands, with a blank behind it that no operator is spelled with. -/
theorem sign {known : List String} (hops : ops.Knows known)
    (hplain : ∀ op ∈ known, ' ' ∉ op.toList) {s : String} (hknown : s ∈ known)
    (hs : IsSign s.toList) (hprevious : TokenKind.precedesUnary previous = false)
    (hblanks : ∀ c ∈ blanks, isBlank c = true) (h : Reads ops (some .operator) (' ' :: rest) xs) :
    Reads ops previous (blanks ++ (s.toList ++ ' ' :: rest)) (⟨.operator, s⟩ :: xs) := by
  rintro source l hfailed hstrict rfl hl
  refine emits_cons hfailed hblanks hl ?_ (fun t _ _ => ?_)
    fun m hm hstrict' => h source m hm (hstrict'.trans hstrict)
  · have hlongest : ∀ op ∈ known, op.toList <+: s.toList ++ ' ' :: rest → op.length ≤ s.length := by
      intro op hop hfits
      by_contra hlong
      have hblank : s.toList ++ [' '] <+: op.toList := by
        refine List.prefix_of_prefix_length_le
          ((List.prefix_append_right_inj _).mpr ⟨rest, rfl⟩) hfits ?_
        rw [List.length_append, String.length_toList, String.length_toList]
        exact Nat.lt_of_not_le hlong
      exact hplain op hop (hblank.subset (by simp))
    have hkind : l.operatorKind = .operator := by
      rw [operatorKind, hprevious]
      rfl
    rw [hkind]
    exact readPiece_of_isSign hops hknown hs (endsWord_of_isBlank (by decide)) hlongest _
  · simp [TokenKind.clashes, TokenKind.startsOperand]

end Lexer.Reads

namespace Target

variable {ops : OperatorTable}

/-- The text is read as the lexemes of the target, before whatever ends a word and opens no
parenthesis. -/
def ReadsText (ops : OperatorTable) (P : Target) : Prop :=
  ∀ {previous : Option TokenKind} {blanks rest : List Char} {xs : List Lexeme},
    TokenKind.precedesUnary previous = true → (∀ c ∈ blanks, isBlank c = true) →
    EndsWord rest → (rest.dropWhile isBlank).head? ≠ some '(' →
    (∀ kind, kind = .name ∨ kind = .closing → Lexer.Reads ops (some kind) rest xs) →
    Lexer.Reads ops previous (blanks ++ (P.text.toList ++ rest)) (P.lexemes ++ xs)

theorem readsText_single {name : String} (h : IsWord name.toList) :
    ReadsText ops (single name) := by
  intro previous blanks rest xs hprevious hblanks hrest hopening hmore
  exact .word h hprevious hblanks hrest (if_neg hopening) (hmore .name (Or.inl rfl))

/-- The parts of a list are read up to the parenthesis that closes it. -/
theorem reads_parts (hparts : ∀ Q ∈ P :: parts, ReadsText ops Q) {previous : Option TokenKind}
    (hprevious : TokenKind.precedesUnary previous = true) {blanks : List Char}
    (hblanks : ∀ c ∈ blanks, isBlank c = true) {rest : List Char} {xs : List Lexeme}
    (h : Lexer.Reads ops (some .closing) rest xs) :
    Lexer.Reads ops previous
      (blanks ++ ((", ".intercalate (texts (P :: parts))).toList ++ ')' :: rest))
      (TickScript.joined ⟨.comma, ","⟩ (allLexemes (P :: parts)) ++ ⟨.closing, ")"⟩ :: xs) := by
  induction parts generalizing P previous blanks with
  | nil =>
    have htext : (", ".intercalate (texts [P])).toList = P.text.toList := by simp [texts]
    have hlexemes : TickScript.joined ⟨.comma, ","⟩ (allLexemes [P]) = P.lexemes := by
      simp [allLexemes, TickScript.joined]
    rw [htext, hlexemes]
    have hopening :=
      head?_of_blanks (List.forall_mem_nil _) (show isBlank ')' = false by decide) rest
    refine hparts P (by simp) hprevious hblanks (endsWord_punctuation (Or.inr rfl) rest)
      (hopening ▸ by decide) fun kind _ => ?_
    exact .closing (List.forall_mem_nil _) h
  | cons Q parts ih =>
    have htext : (", ".intercalate (texts (P :: Q :: parts))).toList ++ ')' :: rest =
        P.text.toList ++ ',' :: ([' '] ++ ((", ".intercalate (texts (Q :: parts))).toList ++
          ')' :: rest)) := by
      simp [texts, String.intercalate_cons_cons]
    rw [htext, joined_allLexemes_cons, List.append_assoc, List.cons_append]
    obtain ⟨hP, hothers⟩ := List.forall_mem_cons.mp hparts
    have hopening := head?_of_blanks (List.forall_mem_nil _) (show isBlank ',' = false by decide)
    refine hP hprevious hblanks (endsWord_punctuation (Or.inl rfl) _) (hopening _ ▸ by decide)
      fun kind _ => ?_
    refine .cons (List.forall_mem_nil _) rfl (by decide) rfl
      (fun kind _ => kind.not_clashes_punctuation.1) ?_
    exact ih hothers rfl (List.forall_mem_singleton.mpr rfl)

theorem readsText (P : Target) (hwords : ∀ name ∈ P.names, IsWord name.toList) :
    ReadsText ops P := by
  induction P using Target.induct with
  | single name => exact readsText_single (hwords name (by simp [names]))
  | list parts ih =>
    intro previous blanks rest xs hprevious hblanks hrest hopening hmore
    have hclosing := hmore .closing (Or.inr rfl)
    have htext : (list parts).text.toList ++ rest = listMaker.toList ++
        '(' :: ((", ".intercalate (texts parts)).toList ++ ')' :: rest) := by
      simp [text]
    have hlexemes : (list parts).lexemes ++ xs = ⟨.call, listMaker⟩ :: ⟨.opening, "("⟩ ::
        (TickScript.joined ⟨.comma, ","⟩ (allLexemes parts) ++ ⟨.closing, ")"⟩ :: xs) := by
      simp [lexemes, headed, inParens]
    rw [htext, hlexemes]
    have hname : IsWord listMaker.toList := .mk (c := 'l') (by decide) (List.forall_mem_nil _)
    refine .word hname hprevious hblanks (by simp [EndsWord]; decide) rfl ?_
    refine .cons (List.forall_mem_nil _) rfl (by decide) rfl (fun kind hkind => by
      cases hkind
      rfl) ?_
    cases parts with
    | nil => exact .closing (List.forall_mem_nil _) hclosing
    | cons P parts =>
      refine reads_parts (fun Q hQ => ih Q hQ fun name hname => ?_) rfl (List.forall_mem_nil _)
        hclosing
      exact hwords name (mem_allNames.mpr ⟨Q, hQ, hname⟩)

end Target

/-! ## Languages -/

/-- Assignment, the exchange of two variables and lists are those of the standard language. -/
structure Language.Assigns (lang : Language) : Prop where
  assign : lang.binary? "=" = some ⟨3, .right, .assigns Library.assignPlain⟩
  swap : lang.binary? "<>" = some ⟨3, .right, .assigns Library.swap⟩
  list : lang.function? listMaker = some (.eager .anyNumber fun values => pure (.list values))

/-- What is registered leaves assignments and lists alone, and no operator is spelled with a
space. -/
def Registration.SparesAssignment : Registration → Prop
  | .operator spelling .. | .assignment spelling .. =>
    spelling ≠ "=" ∧ spelling ≠ "<>" ∧ ' ' ∉ spelling.toList
  | .unary spelling .. => ' ' ∉ spelling.toList
  | .function name _ => name ≠ listMaker

namespace Language

theorem assigns_standard : standard.Assigns := ⟨rfl, rfl, rfl⟩

theorem Assigns.addBinary (hlang : lang.Assigns) (hassign : spelling ≠ "=")
    (hswap : spelling ≠ "<>") (op : BinaryOperator) :
    (lang.addBinary spelling op).Assigns where
  assign := by
    rw [binary?, Language.addBinary, List.lookup_cons, beq_false_of_ne hassign.symm]
    exact hlang.assign
  swap := by
    rw [binary?, Language.addBinary, List.lookup_cons, beq_false_of_ne hswap.symm]
    exact hlang.swap
  list := hlang.list

theorem Assigns.register (hlang : lang.Assigns) {r : Registration} (hr : r.SparesAssignment) :
    (lang.register r).Assigns := by
  cases r with
  | operator spelling precedence side apply => exact hlang.addBinary hr.1 hr.2.1 _
  | assignment spelling precedence apply => exact hlang.addBinary hr.1 hr.2.1 _
  | unary spelling precedence apply => exact ⟨hlang.assign, hlang.swap, hlang.list⟩
  | function name f =>
    refine ⟨hlang.assign, hlang.swap, ?_⟩
    have hne : (listMaker == name) = false := beq_false_of_ne (Ne.symm hr)
    rw [function?, Language.register, addFunction, List.lookup_cons, hne]
    exact hlang.list

theorem assigns_extended {rs : List Registration} (hrs : ∀ r ∈ rs, r.SparesAssignment) :
    (extended rs).Assigns :=
  List.foldlRecOn rs register assigns_standard fun _ hlang r hr => hlang.register (hrs r hr)

theorem no_space_extended {rs : List Registration} (hrs : ∀ r ∈ rs, r.SparesAssignment) :
    ∀ op ∈ standardSpellings ++ rs.filterMap Registration.spelling?, ' ' ∉ op.toList := by
  intro op hop
  rcases List.mem_append.mp hop with hop | hop
  · intro hspace
    have hblank := (plain_standardSpellings op hop _ hspace).2
    exact absurd hblank (by decide)
  · obtain ⟨r, hr, hspelling⟩ := List.mem_filterMap.mp hop
    have hspares := hrs r hr
    cases r with
    | operator | assignment =>
      cases hspelling
      exact hspares.2.2
    | unary =>
      cases hspelling
      exact hspares
    | function => cases hspelling

end Language

/-! ## Scripts -/

theorem Target.IsTree.toTarget (hlang : lang.Assigns) {e : Expr} (h : P.IsTree false e) :
    P.IsTree true (e.toTarget lang) := by
  induction h using IsTree.induct with
  | single name site => exact .single name site
  | @list parts trees _ site hparts =>
    have hcall : (Expr.call listMaker trees site).toTarget lang =
        .call listMaker (trees.map (Expr.toTarget lang)) site := by
      rw [Expr.toTarget, hlang.list, Expr.toTargets_eq_map]
      rfl
    rw [hcall]
    exact .list (List.forall₂_map_right_iff.mpr (hparts.imp fun _ _ h => h.2)) site

/-- Two targets with an operator between them that writes to the first. -/
theorem Reader.expression_targets {g : Setting} (hlang : g.lang.Assigns) {P Q : Target}
    (hP : ReadsTarget g P) (hQ : ReadsTarget g Q) {first second : List Token} {t : Token}
    (hfirst : first.map Token.lexeme = P.lexemes) (hsecond : second.map Token.lexeme = Q.lexemes)
    (ht : t.kind = .operator) {op : BinaryOperator} (hop : g.lang.binary? t.surface = some op)
    {apply : Kind → Lazy → Lazy → Run Value} (hrole : op.role = .assigns apply)
    (hlevels : max P.levels Q.levels + 1 ≤ maxNesting) :
    ∃ p, expression g (2 * (first ++ t :: second).length + 2) 0 0 ((first ++ t :: second) ++ []) =
        .ok (p, []) ∧
      ∃ target tree site, p.tree = .binary t.surface target tree site ∧ P.IsTree true target ∧
        Q.IsTree false tree := by
  obtain ⟨left, hleft, hleftHeight, hreads⟩ := hP.reads hfirst (show 0 + P.levels ≤ _ by omega)
  obtain ⟨right, hright, hrightHeight, hreads'⟩ :=
    hQ.expression hsecond (show 0 + Q.levels ≤ _ by omega)
  have hend : trailing op second = false := by
    rw [Bool.eq_false_iff]
    intro htrailing
    cases hrole.symm.trans (trailing_iff.mp htrailing).1
  let joined : Parsed := ⟨.binary t.surface (left.tree.toTarget g.lang) right.tree (g.site t),
    max left.height right.height + 1⟩
  have hjoins : Joins g t left right op.role joined := hrole ▸ .assigns apply
  have hnil : ∀ least, Ends g least [] := fun _ _ hu => by cases hu
  have hread : expression g (2 * first.length + 2 * second.length + 2) 0 (rightLeast op)
      (second ++ []) = .ok (right, []) := hreads' _ _ [] (by omega) (hnil _)
  rw [List.append_nil] at hread
  refine ⟨joined, ?_, _, _, _, rfl, hleft.toTarget hlang, hright⟩
  have hlength : 2 * (first ++ t :: second).length + 2 =
      2 * first.length + 2 * second.length + 3 + 1 := by
    rw [List.length_append, List.length_cons]
    omega
  rw [List.append_nil, hlength, expression_succ, hreads _ _ (by omega)]
  refine (climb_of_operator _ 0 ht hop (Nat.not_lt_zero _) hend).trans ?_
  simp only [hread, bind, Except.bind, combine_of_joins (by omega) hjoins]
  exact climb_of_ends (hnil 0) _ 0 _

/-- What stands in parentheses is read up to the one that closes it. -/
theorem Reader.eq_of_operand_parentheses {g : Setting} {opening closing : Token}
    (hopening : opening.kind = .opening) (hclosing : closing.kind = .closing) {inside : List Token}
    {q : Parsed} (hinside : expression g fuel depth 0 inside = .ok (q, [])) {depth' : Nat}
    {more : List Token}
    (h : operand g fuel' depth' (opening :: (inside ++ closing :: more)) = .ok x) :
    x = (q, more) := by
  obtain ⟨n, rfl, hdepth⟩ := depth_of_operand h
  rw [operand_of_opening n _ hdepth hopening] at h
  obtain ⟨y, hy, hclose⟩ := of_bind_ok h
  obtain ⟨taken, htaken, _, _, hretakes⟩ := (takes g fuel).expression hinside
  rw [List.append_nil] at htaken
  subst htaken
  have hend : Stops g 0 (closing :: more) := Or.inl (by simp [atOperandEnd, hclosing])
  cases expression_unique (hretakes.again (Nat.le_refl _) (Nat.le_refl _) (Or.inr hend)) hy
  simpa [close, hclosing] using hclose.symm

/-- An assignment to a target that is read to its end, by what stands in the parentheses behind
it. -/
theorem Reader.of_expression_assignment {g : Setting} (hlang : g.lang.Assigns)
    (hP : ReadsTarget g P) {first inside : List Token} {t opening closing : Token}
    (hfirst : first.map Token.lexeme = P.lexemes) (ht : t.lexeme = ⟨.operator, "="⟩)
    (hopening : opening.kind = .opening) (hclosing : closing.kind = .closing) {q : Parsed}
    (hinside : expression g fuel depth 0 inside = .ok (q, [])) {p : Parsed}
    (h : expression g fuel' 0 0 (first ++ t :: opening :: (inside ++ [closing])) = .ok (p, [])) :
    P.levels ≤ maxNesting ∧
      ∃ target site, P.IsTree true target ∧ p.tree = .binary "=" target q.tree site := by
  obtain ⟨hkind, hsurface⟩ := Lexeme.mk.inj ht
  have hassign : g.lang.binary? t.surface = _ := hsurface ▸ hlang.assign
  obtain ⟨n, left, rest, _, hoperand, hclimb⟩ := expression_cases h
  have hlevels := hP.levels hfirst hoperand
  obtain ⟨target, htree, _, hreads⟩ := hP.reads hfirst hlevels
  -- Whatever was read as the left operand is the target, and the same of the right one below.
  cases operand_unique (hreads _ _ (Nat.le_succ _)) hoperand
  refine ⟨by omega, left.tree.toTarget g.lang, g.site t, htree.toTarget hlang, ?_⟩
  obtain ⟨n, _, hround⟩ := climb_cases hclimb
  cases hround with
  | operator _ hop _ _ hright hjoined hend =>
    rw [hassign] at hop
    cases hop
    obtain ⟨_, right, others, _, hparentheses, hmore⟩ := expression_cases hright
    cases eq_of_operand_parentheses hopening hclosing hinside hparentheses
    cases eq_of_climb (ends_of_atOperandEnd rfl _) hmore
    cases eq_of_climb (ends_of_atOperandEnd rfl _) hend
    obtain ⟨_, hjoins⟩ := combine_ok hjoined
    cases hjoins
    rw [hsurface]

theorem isSign_equals : IsSign "=".toList :=
  .mk (c := '=') (by decide) ⟨by decide, by decide, by decide, by decide, by decide⟩

section Scripts

variable {rs : List Registration} (hspares : ∀ r ∈ rs, r.SparesAssignment) {P Q : Target}
  (hP : ∀ name ∈ P.names, IsWord name.toList) (hQ : ∀ name ∈ Q.names, IsWord name.toList)

theorem Reader.readsTarget_extended (hspares : ∀ r ∈ rs, r.SparesAssignment) (source : Source)
    (last : Token) (P : Target) : ReadsTarget ⟨.extended rs, source, last⟩ P :=
  readsTarget (fun f hf n => by
    cases (Language.assigns_extended hspares).list.symm.trans hf
    rfl) P

include hP

/-- A target is read behind nothing and before nothing. -/
theorem Target.reads_alone (ops : OperatorTable) :
    Lexer.Reads ops none P.text.toList P.lexemes := by
  have hreads : Lexer.Reads ops none ([] ++ (P.text.toList ++ [])) (P.lexemes ++ []) :=
    P.readsText hP rfl (List.forall_mem_nil _) (by simp [EndsWord]) (by simp) fun _ _ => .nil _ _
  simpa using hreads

include hspares

/-- A target is read before an operator with spaces around it. -/
theorem Target.reads_sign (hknown : spelling ∈ standardSpellings) (hsign : IsSign spelling.toList)
    {rest : List Char} {xs : List Lexeme}
    (h : Lexer.Reads (Language.extended rs).operators (some .operator) (' ' :: rest) xs) :
    Lexer.Reads (Language.extended rs).operators none
      (P.text.toList ++ ' ' :: (spelling.toList ++ ' ' :: rest))
      (P.lexemes ++ ⟨.operator, spelling⟩ :: xs) := by
  have hspace : ∀ c ∈ [' '], isBlank c = true := List.forall_mem_singleton.mpr (by decide)
  have hopening : ((' ' :: (spelling.toList ++ ' ' :: rest)).dropWhile isBlank).head? ≠
      some '(' := by
    generalize spelling.toList = cs at hsign
    obtain ⟨hblank, hstarts⟩ := hsign
    rename_i c cs
    have hhead := head?_of_blanks hspace hblank (cs ++ ' ' :: rest)
    exact hhead ▸ fun hc => hstarts.noParenthesis.1 (Option.some.inj hc)
  refine P.readsText hP rfl (List.forall_mem_nil _) (endsWord_of_isBlank (by decide)) hopening
    fun kind hkind => ?_
  refine .sign (Language.knows_extended rs) (Language.no_space_extended hspares)
    (List.mem_append_left _ hknown) hsign ?_ hspace h
  rcases hkind with rfl | rfl <;> rfl

/-- A target on its own is a script. -/
theorem Script.read_target (hlevels : P.levels ≤ maxNesting) (name : Option String) :
    ∃ script, Script.read (.extended rs) ⟨P.text, name⟩ = .ok script ∧
      P.IsTree false script.root := by
  obtain ⟨tokens, hemits, hlexemes⟩ := Target.reads_alone hP (Language.extended rs).operators
    ⟨P.text, name⟩ (.ofCode P.text true) rfl rfl rfl rfl
  have hne : tokens ≠ [] := by
    rintro rfl
    obtain ⟨x, xs, heq, -⟩ := P.lexemes_eq_cons
    rw [heq] at hlexemes
    cases hlexemes
  refine Script.read_of_tokens (tokenize_of_emits hemits) hne fun last => ?_
  obtain ⟨p, htree, -, hreads⟩ :=
    (Reader.readsTarget_extended hspares ⟨P.text, name⟩ last P).expression hlexemes
      (show 0 + P.levels ≤ maxNesting by omega)
  exact ⟨p, hreads _ 0 [] (by omega) (fun _ ht => by cases ht), htree⟩

/-- An assignment to a target is read as such, and the script in parentheses is read as it is on its
own. -/
theorem Script.of_read_assignment (hapart : ∀ r ∈ rs, r.SetsApart) {code : String}
    {name name' : Option String} {script whole : Script}
    (hscript : Script.read (.extended rs) ⟨code, name⟩ = .ok script)
    (hwhole : Script.read (.extended rs) ⟨P.text ++ " = (" ++ code ++ ")", name'⟩ = .ok whole) :
    P.levels ≤ maxNesting ∧ ∃ target tree site, whole.root = .binary "=" target tree site ∧
      P.IsTree true target ∧ script.root.Alike (fun _ _ => True) tree := by
  obtain ⟨others, last', p, hothers, _, hread, rfl⟩ := Script.read_eq_ok_iff.mp hscript
  obtain ⟨tokens, last, q, htokens, _, hread', rfl⟩ := Script.read_eq_ok_iff.mp hwhole
  have hinside : Lexer.Reads _ (some .opening) ([] ++ code.toList) _ :=
    Lexer.reads_of_tokenize hothers rfl (List.forall_mem_nil _)
  have hparentheses : Lexer.Reads (Language.extended rs).operators (some .operator)
      ([' '] ++ '(' :: ([] ++ code.toList ++ [')'])) (⟨.opening, "("⟩ ::
        (others.map Token.lexeme ++ [⟨.closing, ")"⟩])) :=
    .opening rfl (List.forall_mem_singleton.mpr (by decide))
      (hinside.append (Language.setsApart_extended hapart) (Or.inr rfl) fun _ hblanks =>
        .closing hblanks (.nil _ _))
  have hknown : "=" ∈ standardSpellings := by decide
  have hreads := Target.reads_sign hspares hP hknown isSign_equals hparentheses
  have hlexemes := Lexer.lexeme_of_reads htokens (by simpa using hreads)
  obtain ⟨first, rest, rfl, hfirst, hrest⟩ := List.map_eq_append_iff.mp hlexemes
  obtain ⟨t, rest, rfl, ht, hrest⟩ := List.map_eq_cons_iff.mp hrest
  obtain ⟨opening, inside, closing, rfl, hopening, hclosing, hsame⟩ := Reader.of_map_inParens hrest
  -- The tokens in the parentheses differ from those of the script alone in their places only.
  have hsettings : Reader.Setting.Alike (fun _ _ => True) (fun _ _ => True)
      (fun t u => u.lexeme = t.lexeme) ⟨.extended rs, ⟨code, name⟩, last'⟩
      ⟨.extended rs, ⟨P.text ++ " = (" ++ code ++ ")", name'⟩, last⟩ := Reader.alike_of_lexeme rfl
  obtain ⟨again, hagain, halike⟩ :=
    Reader.expression_alike hsettings hread (forall₂_of_map_eq hsame)
  obtain ⟨hlevels, target, site, htarget, htree⟩ := Reader.of_expression_assignment
    (Language.assigns_extended hspares) (Reader.readsTarget_extended hspares _ last P) hfirst ht
    hopening hclosing hagain hread'
  exact ⟨hlevels, target, again.tree, site, htree, htarget, halike.tree⟩

include hQ

/-- A script of two targets with an operator between them that writes to the first. -/
theorem Script.read_targets (hknown : spelling ∈ standardSpellings) (hsign : IsSign spelling.toList)
    {op : BinaryOperator} (hop : (Language.extended rs).binary? spelling = some op)
    {apply : Kind → Lazy → Lazy → Run Value} (hrole : op.role = .assigns apply)
    (hlevels : max P.levels Q.levels + 1 ≤ maxNesting) (name : Option String) :
    ∃ script, Script.read (.extended rs) ⟨P.text ++ " " ++ spelling ++ " " ++ Q.text, name⟩ =
        .ok script ∧
      ∃ target tree site, script.root = .binary spelling target tree site ∧
        P.IsTree true target ∧ Q.IsTree false tree := by
  have hspace : ∀ c ∈ [' '], isBlank c = true := List.forall_mem_singleton.mpr (by decide)
  have hright : Lexer.Reads (Language.extended rs).operators (some .operator)
      ([' '] ++ (Q.text.toList ++ [])) (Q.lexemes ++ []) :=
    Q.readsText hQ rfl hspace (by simp [EndsWord]) (by simp) fun _ _ => .nil _ _
  rw [List.append_nil, List.append_nil] at hright
  obtain ⟨tokens, hemits, hlexemes⟩ := Target.reads_sign hspares hP hknown hsign hright
    ⟨P.text ++ " " ++ spelling ++ " " ++ Q.text, name⟩
    (.ofCode (P.text ++ " " ++ spelling ++ " " ++ Q.text) true) rfl rfl rfl (by simp [Lexer.ofCode])
  obtain ⟨first, rest, rfl, hfirst, hrest⟩ := List.map_eq_append_iff.mp hlexemes
  obtain ⟨t, second, rfl, ht, hsecond⟩ := List.map_eq_cons_iff.mp hrest
  obtain ⟨hkind, rfl⟩ := Lexeme.mk.inj ht
  exact Script.read_of_tokens (P := fun e => ∃ target tree site,
      e = .binary t.surface target tree site ∧ P.IsTree true target ∧ Q.IsTree false tree)
    (tokenize_of_emits hemits) (by simp) fun last =>
      Reader.expression_targets (Language.assigns_extended hspares)
        (Reader.readsTarget_extended hspares _ last P)
        (Reader.readsTarget_extended hspares _ last Q) hfirst hsecond hkind hop hrole hlevels

end Scripts

end TickScript
