-- The definitions and the calls in a tree that was read. A definition is refused if a function has
-- its name, and its parameters are the names in its head; a call has the arguments that the
-- function of its name takes.
import TickScript.Proofs.Invocation
import TickScript.Proofs.Spans

namespace TickScript

variable {es : List Expr} {tokens taken : List Token} {t : Token} {p : Parsed} {name : String}
  {site : Site} {params : List String} {depth : Nat}

/-! ## Definitions and calls in a tree -/

theorem Expr.mem_allDefinitions {p : Procedure} :
    p ∈ Expr.allDefinitions es ↔ ∃ e ∈ es, p ∈ e.definitions := by
  induction es with
  | nil => simp [Expr.allDefinitions]
  | cons e es ih => simp [Expr.allDefinitions, ih]

mutual

/-- What the body of a procedure defines is defined in any tree that the procedure is. -/
theorem Expr.mem_definitions_of_body {p q : Procedure} (hq : q ∈ p.body.definitions) :
    ∀ e : Expr, p ∈ e.definitions → q ∈ e.definitions
  | .number _, hp | .text _, hp | .var .., hp => by cases hp
  | .unary _ operand _, hp => Expr.mem_definitions_of_body hq operand hp
  | .binary _ left right _, hp => by
    rcases List.mem_append.mp hp with hp | hp
    · exact List.mem_append_left _ (Expr.mem_definitions_of_body hq left hp)
    · exact List.mem_append_right _ (Expr.mem_definitions_of_body hq right hp)
  | .call _ args _, hp => Expr.mem_allDefinitions_of_body hq args hp
  | .define _ _ body _, hp => by
    refine List.mem_cons_of_mem _ ?_
    rcases List.mem_cons.mp hp with rfl | hp
    · exact hq
    · exact Expr.mem_definitions_of_body hq body hp
  | .sequence items, hp => Expr.mem_allDefinitions_of_body hq items hp

theorem Expr.mem_allDefinitions_of_body {p q : Procedure} (hq : q ∈ p.body.definitions) :
    ∀ es : List Expr, p ∈ Expr.allDefinitions es → q ∈ Expr.allDefinitions es
  | [], hp => by cases hp
  | e :: es, hp => by
    rcases List.mem_append.mp hp with hp | hp
    · exact List.mem_append_left _ (Expr.mem_definitions_of_body hq e hp)
    · exact List.mem_append_right _ (Expr.mem_allDefinitions_of_body hq es hp)

end

mutual

/-- The calls in a tree, those in the bodies of definitions included: each with the name that is
called, the arguments, and where it stands. -/
def Expr.calls : Expr → List (String × List Expr × Site)
  | .number _ | .text _ | .var .. => []
  | .unary _ operand _ => operand.calls
  | .binary _ left right _ => left.calls ++ right.calls
  | .call name args site => (name, args, site) :: Expr.allCalls args
  | .define _ _ body _ => body.calls
  | .sequence items => Expr.allCalls items

/-- The calls in some trees. -/
def Expr.allCalls : List Expr → List (String × List Expr × Site)
  | [] => []
  | e :: rest => e.calls ++ Expr.allCalls rest

end

theorem Expr.mem_allCalls {c : String × List Expr × Site} :
    c ∈ Expr.allCalls es ↔ ∃ e ∈ es, c ∈ e.calls := by
  induction es with
  | nil => simp [Expr.allCalls]
  | cons e es ih => simp [Expr.allCalls, ih]

section Targets

variable (lang : Language)

mutual

theorem Expr.definitions_toTarget : ∀ e : Expr, (e.toTarget lang).definitions = e.definitions
  | .call name args site => by
    unfold Expr.toTarget
    split
    · simp only [Expr.definitions, Expr.allDefinitions_toTargets args]
    · rfl
  | .number _ | .text _ | .var .. | .unary .. | .binary .. | .define .. | .sequence _ => rfl

theorem Expr.allDefinitions_toTargets : ∀ es : List Expr,
    Expr.allDefinitions (Expr.toTargets lang es) = Expr.allDefinitions es
  | [] => rfl
  | e :: es => by
    simp only [Expr.toTargets, Expr.allDefinitions, Expr.definitions_toTarget e,
      Expr.allDefinitions_toTargets es]

end

theorem Expr.length_toTargets (es : List Expr) : (Expr.toTargets lang es).length = es.length := by
  induction es with
  | nil => rfl
  | cons e es ih => simp [Expr.toTargets, ih]

end Targets

/-- The function of this name, if there is one, takes so many arguments. -/
def Language.Accepts (lang : Language) (c : String × List Expr × Site) : Prop :=
  ∀ f, lang.function? c.1 = some f → f.arity.accepts c.2.1.length = true

section Targets

variable {lang : Language}

mutual

theorem Expr.accepts_toTarget : ∀ {e : Expr}, (∀ c ∈ e.calls, lang.Accepts c) →
    ∀ c ∈ (e.toTarget lang).calls, lang.Accepts c
  | .call name args site, h => by
    obtain ⟨hcall, hargs⟩ := List.forall_mem_cons.mp h
    unfold Expr.toTarget
    split
    · refine List.forall_mem_cons.mpr ⟨fun f hf => ?_, Expr.accepts_toTargets hargs⟩
      rw [Expr.length_toTargets]
      exact hcall f hf
    · exact h
  | .number _, h | .text _, h | .var .., h | .unary .., h | .binary .., h | .define .., h
  | .sequence _, h => h

theorem Expr.accepts_toTargets : ∀ {es : List Expr}, (∀ c ∈ Expr.allCalls es, lang.Accepts c) →
    ∀ c ∈ Expr.allCalls (Expr.toTargets lang es), lang.Accepts c
  | [], h => h
  | e :: es, h => by
    obtain ⟨he, hes⟩ := List.forall_mem_append.mp h
    exact List.forall_mem_append.mpr ⟨Expr.accepts_toTarget he, Expr.accepts_toTargets hes⟩

end

end Targets

theorem Parsed.definitions_andThen (first next : Parsed) :
    (first.andThen next).tree.definitions = first.tree.definitions ++ next.tree.definitions := by
  obtain ⟨tree, height⟩ := first
  have hconcat : ∀ items : List Expr, Expr.allDefinitions (items ++ [next.tree]) =
      Expr.allDefinitions items ++ next.tree.definitions := by
    intro items
    induction items with
    | nil => simp [Expr.allDefinitions]
    | cons e items ih => simp [Expr.allDefinitions, ih]
  cases tree with
  | sequence items => exact hconcat items
  | number | text | var | unary | binary | call | define =>
    simp [Parsed.andThen, Expr.definitions, Expr.allDefinitions]

theorem Parsed.calls_andThen (first next : Parsed) :
    (first.andThen next).tree.calls = first.tree.calls ++ next.tree.calls := by
  obtain ⟨tree, height⟩ := first
  have hconcat : ∀ items : List Expr, Expr.allCalls (items ++ [next.tree]) =
      Expr.allCalls items ++ next.tree.calls := by
    intro items
    induction items with
    | nil => simp [Expr.allCalls]
    | cons e items ih => simp [Expr.allCalls, ih]
  cases tree with
  | sequence items => exact hconcat items
  | number | text | var | unary | binary | call | define =>
    simp [Parsed.andThen, Expr.calls, Expr.allCalls]

/-! ## Heads of definitions -/

namespace Reader

variable {g : Setting} {lang : Language}

/-- The token may stand between the names of parameters. -/
def Punctuates (lang : Language) (t : Token) : Prop :=
  t.kind = .opening ∨ t.kind = .closing ∨ t.kind = .comma ∨
    t.kind = .operator ∧ ∃ op, lang.binary? t.surface = some op ∧ op.role = .sequences

/-- The tokens are these names, in this order, and punctuation. -/
structure Lists (lang : Language) (tokens : List Token) (names : List String) : Prop where
  names : (tokens.filter (·.kind = .name)).map (·.surface) = names
  others : ∀ t ∈ tokens, t.kind = .name ∨ Punctuates lang t

theorem Lists.append {others : List Token} {names more : List String} (h : Lists lang tokens names)
    (h' : Lists lang others more) : Lists lang (tokens ++ others) (names ++ more) := by
  refine ⟨?_, List.forall_mem_append.mpr ⟨h.others, h'.others⟩⟩
  rw [List.filter_append, List.map_append, h.names, h'.names]

theorem Punctuates.lists (h : Punctuates lang t) : Lists lang [t] [] := by
  have hname : t.kind ≠ .name := by
    rintro hname
    simp [Punctuates, hname] at h
  exact ⟨by simp [hname], List.forall_mem_singleton.mpr (Or.inr h)⟩

theorem Joins.ne_var {left right : Parsed} {role : BinaryRole} (h : Joins g t left right role p)
    (name : String) (isTarget : Bool) (site : Site) : p.tree ≠ .var name isTarget site := by
  cases h with
  | sequences =>
    unfold Parsed.andThen
    split <;> nofun
  | evaluates | assigns | defines => nofun

theorem Joins.ne_call {left right : Parsed} {role : BinaryRole} (h : Joins g t left right role p)
    (name : String) (args : List Expr) (site : Site) : p.tree ≠ .call name args site := by
  cases h with
  | sequences =>
    unfold Parsed.andThen
    split <;> nofun
  | evaluates | assigns | defines => nofun

/-- A tree that is a name is made of this name and punctuation. -/
theorem Spans.lists_of_var (h : Spans g depth taken p) {isTarget : Bool}
    (hp : p.tree = .var name isTarget site) : Lists g.lang taken [name] := by
  induction h with
  | single _ h =>
    rcases single_ok h with ⟨hkind, htree⟩ | ⟨_, x, htree⟩ | ⟨_, s, htree⟩
    · rw [hp] at htree
      cases htree
      exact ⟨by simp [hkind], by simp [hkind]⟩
    · rw [hp] at htree
      cases htree
    · rw [hp] at htree
      cases htree
  | @parentheses _ opening closing _ _ _ hopening hclosing _ ih =>
    have hstart : Punctuates g.lang opening := Or.inl hopening
    have hend : Punctuates g.lang closing := Or.inr (Or.inl hclosing)
    exact hstart.lists.append ((ih hp).append hend.lists)
  | unary => cases hp
  | call => cases hp
  | join _ _ _ _ _ h => exact absurd hp (h.ne_var _ _ _)
  | @trailing _ _ t op _ _ ht hop hrole ih =>
    have hend : Punctuates g.lang t := Or.inr (Or.inr (Or.inr ⟨ht, op, hop, hrole⟩))
    exact (ih hp).append hend.lists

theorem paramNames?_cons {e : Expr} (h : paramNames? (e :: es) = some params) :
    ∃ name isTarget site others, e = .var name isTarget site ∧ paramNames? es = some others ∧
      params = name :: others := by
  cases e with
  | var name isTarget site =>
    obtain ⟨others, hothers, hparams⟩ := Option.map_eq_some_iff.mp h
    exact ⟨name, isTarget, site, others, rfl, hothers, hparams.symm⟩
  | number | text | unary | binary | call | define | sequence => cases h

/-- Parameters stand in the order in which they are written. -/
theorem Separated.lists {inside : List Token} {args : List (List Token × Parsed)}
    (h : Separated (args.map Prod.fst) inside) (hargs : ∀ a ∈ args, Spans g depth a.1 a.2)
    (hparams : paramNames? (args.map (·.2.tree)) = some params) : Lists g.lang inside params := by
  generalize hpieces : args.map Prod.fst = pieces at h
  induction h generalizing args params with
  | nil =>
    cases List.map_eq_nil_iff.mp hpieces
    cases hparams
    exact ⟨rfl, by simp⟩
  | one piece =>
    obtain ⟨arg, rest, rfl, rfl, hrest⟩ := List.map_eq_cons_iff.mp hpieces
    cases List.map_eq_nil_iff.mp hrest
    obtain ⟨name, isTarget, site, others, hvar, hothers, rfl⟩ := paramNames?_cons hparams
    cases hothers
    exact (hargs arg (by simp)).lists_of_var hvar
  | @cons piece next pieces tokens comma hcomma _ ih =>
    obtain ⟨arg, rest, rfl, rfl, hrest⟩ := List.map_eq_cons_iff.mp hpieces
    obtain ⟨harg, hargs⟩ := List.forall_mem_cons.mp hargs
    obtain ⟨name, isTarget, site, others, hvar, hothers, rfl⟩ := paramNames?_cons hparams
    have hbetween : Punctuates g.lang comma := Or.inr (Or.inr (Or.inl hcomma))
    exact (harg.lists_of_var hvar).append (hbetween.lists.append (ih hargs hothers hrest))

/-- Among the tokens stands the name `t` of a call, and what its parentheses hold are these names,
in this order, and punctuation. -/
def Heads (lang : Language) (tokens : List Token) (t : Token) (params : List String) : Prop :=
  ∃ before paren inside closing after,
    tokens = before ++ t :: paren :: (inside ++ closing :: after) ∧ t.kind = .call ∧
      closing.kind = .closing ∧ Lists lang inside params

theorem Heads.within (h : Heads lang tokens t params) (start rest : List Token) :
    Heads lang (start ++ tokens ++ rest) t params := by
  obtain ⟨before, paren, inside, closing, after, rfl, ht, hclosing, hlists⟩ := h
  exact ⟨start ++ before, paren, inside, closing, after ++ rest, by simp, ht, hclosing, hlists⟩

theorem Spans.heads (h : Spans g depth taken p) {args : List Expr}
    (hp : p.tree = .call name args site) (hparams : paramNames? args = some params) :
    ∃ t, t.surface = name ∧ g.site t = site ∧ Heads g.lang taken t params := by
  induction h with
  | single _ h =>
    rcases single_ok h with ⟨_, htree⟩ | ⟨_, x, htree⟩ | ⟨_, s, htree⟩
    all_goals
      rw [hp] at htree
      cases htree
  | @parentheses _ opening closing _ _ _ _ _ _ ih =>
    obtain ⟨t, hname, hsite, hheads⟩ := ih hp
    exact ⟨t, hname, hsite, hheads.within [opening] [closing]⟩
  | unary => cases hp
  | @call _ t paren closing args inside _ ht hclosing hinside hargs =>
    cases hp
    exact ⟨t, rfl, rfl, [], paren, inside, closing, [], rfl, ht, hclosing,
      hinside.lists hargs hparams⟩
  | join _ _ _ _ _ h => exact absurd hp (h.ne_call _ _ _)
  | @trailing _ _ t _ _ _ _ _ _ ih =>
    obtain ⟨u, hname, hsite, hheads⟩ := ih hp
    exact ⟨u, hname, hsite, hheads.within [] [t]⟩

/-! ## Definitions and calls in what is read -/

/-- The tokens define the procedure: no function has its name, and its head stands among them. -/
structure Defines (g : Setting) (tokens : List Token) (q : Procedure) : Prop where
  free : g.lang.function? q.name = none
  head : ∃ t, t.surface = q.name ∧ g.site t = q.site ∧ Heads g.lang tokens t q.params

theorem Defines.within {q : Procedure} (h : Defines g tokens q) (start rest : List Token) :
    Defines g (start ++ tokens ++ rest) q := by
  obtain ⟨t, hname, hsite, hheads⟩ := h.head
  exact ⟨h.free, t, hname, hsite, hheads.within start rest⟩

/-- Every definition in a tree was written among the tokens that the tree is made of. -/
theorem Spans.defines (h : Spans g depth taken p) :
    ∀ q ∈ p.tree.definitions, Defines g taken q := by
  induction h with
  | single _ h =>
    rcases single_ok h with ⟨_, htree⟩ | ⟨_, x, htree⟩ | ⟨_, s, htree⟩
    all_goals
      rw [htree]
      intro q hq
      cases hq
  | @parentheses _ opening closing _ _ _ _ _ _ ih =>
    intro q hq
    exact (ih q hq).within [opening] [closing]
  | @unary _ t _ _ _ _ _ _ _ ih =>
    intro q hq
    simpa using (ih q hq).within [t] []
  | @call _ t paren closing args inside _ _ _ hinside _ _ ih =>
    intro q hq
    obtain ⟨e, he, hq⟩ := Expr.mem_allDefinitions.mp hq
    obtain ⟨arg, harg, rfl⟩ := List.mem_map.mp he
    obtain ⟨start, rest, rfl⟩ := hinside.within (List.mem_map_of_mem harg)
    simpa using (ih arg harg q hq).within (t :: paren :: start) (rest ++ [closing])
  | @join _ before after t op left right p hleft _ _ _ _ h ihleft ihright =>
    have hl : ∀ q ∈ left.tree.definitions, Defines g (before ++ t :: after) q := by
      intro q hq
      simpa using (ihleft q hq).within [] (t :: after)
    have hr : ∀ q ∈ right.tree.definitions, Defines g (before ++ t :: after) q := by
      intro q hq
      simpa using (ihright q hq).within (before ++ [t]) []
    generalize op.role = role at h
    cases h with
    | sequences =>
      rw [Parsed.definitions_andThen]
      exact List.forall_mem_append.mpr ⟨hl, hr⟩
    | evaluates => exact List.forall_mem_append.mpr ⟨hl, hr⟩
    | assigns =>
      rw [Expr.definitions, Expr.definitions_toTarget]
      exact List.forall_mem_append.mpr ⟨hl, hr⟩
    | defines hhead hfunction hparams =>
      refine List.forall_mem_cons.mpr ⟨⟨hfunction, ?_⟩, hr⟩
      obtain ⟨u, hname, hsite, hheads⟩ := hleft.heads hhead hparams
      exact ⟨u, hname, hsite, by simpa using hheads.within [] (t :: after)⟩
  | @trailing _ _ t _ _ _ _ _ _ ih =>
    intro q hq
    exact (ih q hq).within [] [t]

/-- Every call in a tree has as many arguments as the function of its name takes. -/
theorem Spans.accepts (h : Spans g depth taken p) : ∀ c ∈ p.tree.calls, g.lang.Accepts c := by
  induction h with
  | single _ h =>
    rcases single_ok h with ⟨_, htree⟩ | ⟨_, x, htree⟩ | ⟨_, s, htree⟩
    all_goals
      rw [htree]
      intro c hc
      cases hc
  | parentheses _ _ _ _ ih => exact ih
  | unary _ _ _ _ ih => exact ih
  | call _ _ _ _ _ haccepts ih =>
    refine List.forall_mem_cons.mpr ⟨by simpa [Language.Accepts] using haccepts, fun c hc => ?_⟩
    obtain ⟨e, he, hc⟩ := Expr.mem_allCalls.mp hc
    obtain ⟨arg, harg, rfl⟩ := List.mem_map.mp he
    exact ih arg harg c hc
  | @join _ _ _ _ op _ _ _ _ _ _ _ _ h ihleft ihright =>
    generalize op.role = role at h
    cases h with
    | sequences =>
      rw [Parsed.calls_andThen]
      exact List.forall_mem_append.mpr ⟨ihleft, ihright⟩
    | evaluates => exact List.forall_mem_append.mpr ⟨ihleft, ihright⟩
    | assigns => exact List.forall_mem_append.mpr ⟨Expr.accepts_toTarget ihleft, ihright⟩
    | defines => exact ihright
  | trailing _ _ _ _ ih => exact ih

end Reader

theorem Script.spans_of_read {lang : Language} {source : Source} {script : Script}
    (h : Script.read lang source = .ok script) :
    ∃ tokens last p, tokenize lang.operators source = .ok tokens ∧
      Reader.Spans ⟨lang, source, last⟩ 0 tokens p ∧ script = ⟨p.tree, source⟩ := by
  obtain ⟨tokens, last, p, htokens, _, hp, rfl⟩ := Script.read_eq_ok_iff.mp h
  obtain ⟨taken, rfl, hspans, _⟩ := (Reader.takes _ _).expression hp
  exact ⟨taken, last, p, by simpa using htokens, hspans, rfl⟩

/-! ## The parenthesis of a call -/

/-- A name is a call where a parenthesis comes next. -/
theorem opening_of_readPiece {ops : OperatorTable} {kind : TokenKind} (hkind : kind ≠ .call)
    {c : Char} {rest : List Char} {p : Piece} (h : readPiece ops kind c rest = .ok p)
    (hp : p.kind = .call) : (p.rest.dropWhile Text.isBlank).head? = some '(' := by
  cases readPiece_cases h with
  | number hc h =>
    rcases readNumber_cases hc h with ⟨hnumber, _⟩ | ⟨hnumber, _⟩
    all_goals
      rw [hp] at hnumber
      cases hnumber
  | text _ h =>
    unfold readText at h
    split at h <;> cases h
    cases hp
  | name =>
    unfold readName at hp ⊢
    dsimp only at hp ⊢
    split at hp
    · assumption
    · cases hp
  | mark hc => rcases hc with ⟨_, rfl⟩ | ⟨_, rfl⟩ | ⟨_, rfl⟩ <;> cases hp
  | operator _ h =>
    unfold readOperator at h
    dsimp only at h
    split at h <;> cases h
    exact absurd hp hkind

namespace Lexer

variable {ops : OperatorTable} {source : Source}

theorem Emits.opening_of_call {l : Lexer} {ending : Option Fault}
    (h : Emits ops source l tokens ending) (hfailed : l.failed = false) {before after : List Token}
    {u : Token} (htokens : tokens = before ++ t :: u :: after) (ht : t.kind = .call) :
    u.kind = .opening := by
  induction h generalizing before with
  | finished => simp at htokens
  | fault => simp at htokens
  | @token l next v tokens ending h hmore ih =>
    obtain ⟨c, rest, p, _, hpiece, rfl, rfl⟩ := of_next_token hfailed h
    rcases before with _ | ⟨w, before⟩
    · obtain ⟨rfl, rfl⟩ := List.cons.inj htokens
      have hkind : l.operatorKind ≠ .call := by
        unfold operatorKind
        split <;> decide
      have hparen : (l.past p).skipBlanks.rest.head? = some '(' :=
        opening_of_readPiece hkind hpiece ht
      have hpast : (l.past p).failed = false := hfailed
      cases hmore with
      | token h _ =>
        obtain ⟨d, tail, q, hrest, hq, rfl, _⟩ := of_next_token hpast h
        rw [hrest] at hparen
        cases hparen
        cases hq
        rfl
    · exact ih hfailed (List.cons.inj htokens).2

end Lexer

theorem opening_of_tokenize {ops : OperatorTable} {source : Source} {before after : List Token}
    {u : Token} (h : tokenize ops source = .ok (before ++ t :: u :: after)) (ht : t.kind = .call) :
    u.kind = .opening :=
  (emits_of_tokenize h).opening_of_call rfl rfl ht

/-! ## Procedures as they are written -/

/-- A script defines the procedure under a name that no function has. The name stands where the
procedure says, and in its parentheses stand the parameters, each as a name, in their order and
with nothing but punctuation. -/
structure Procedure.IsWritten (lang : Language) (p : Procedure) : Prop where
  read : ∃ script, Script.read lang p.site.source = .ok script ∧ p ∈ script.root.definitions
  free : lang.function? p.name = none
  head : p.site.token.surface = p.name ∧ ∃ before paren inside closing after,
    tokenize lang.operators p.site.source =
      .ok (before ++ p.site.token :: paren :: (inside ++ closing :: after)) ∧
    p.site.token.kind = .call ∧ paren.kind = .opening ∧ closing.kind = .closing ∧
    Reader.Lists lang inside p.params

theorem Procedure.IsDefined.isWritten {lang : Language} {p : Procedure} (h : p.IsDefined lang) :
    p.IsWritten lang := by
  obtain ⟨source, script, hread, hp⟩ := h
  obtain ⟨tokens, last, parsed, htokens, hspans, rfl⟩ := Script.spans_of_read hread
  obtain ⟨hfree, t, hname, hsite, before, paren, inside, closing, after, rfl, ht, hclosing,
    hlists⟩ := hspans.defines p hp
  have hsource : p.site = ⟨t, source⟩ := hsite.symm
  refine ⟨⟨_, ?_, hp⟩, hfree, ?_⟩
  · rw [hsource]
    exact hread
  · rw [hsource]
    exact ⟨hname, before, paren, inside, closing, after, htokens, ht,
      opening_of_tokenize htokens ht, hclosing, hlists⟩

/-! ## What a call stands for -/

/-- The call stands for the function of its name, which takes so many arguments. Where there is no
such function, it stands for the procedure that is stored under the name when it is evaluated. -/
structure Language.Resolves (lang : Language) (name : String) (args : List Expr) (site : Site) :
    Prop where
  function : ∀ f, lang.function? name = some f → f.arity.accepts args.length = true ∧
    ∀ run kind, (Expr.call name args site).denote lang run kind =
      Run.located site (f.apply run kind (Expr.denoteAll lang run args) >>= fun r => r kind)
  procedure : lang.function? name = none → ∀ run kind s,
    (Expr.call name args site).denote lang run kind s =
      match s.machine.procedures.get? name with
      | some p => Run.located site (p.call run (Expr.denoteAll lang run args) kind) s
      | none => Run.located site (Run.fail (.undefinedFunction name)) s

theorem Script.resolves_of_read {lang : Language} {source : Source} {script : Script}
    (h : Script.read lang source = .ok script) {args : List Expr}
    (hcall : (name, args, site) ∈ script.root.calls) : lang.Resolves name args site := by
  obtain ⟨tokens, last, p, _, hspans, rfl⟩ := Script.spans_of_read h
  constructor
  · intro f hf
    refine ⟨hspans.accepts _ hcall f hf, fun run kind => ?_⟩
    simp only [Expr.denote, applyCall, hf]
  · intro hfree run kind s
    simp only [Expr.denote, applyCall, hfree, Run.located, callNamed]
    cases s.machine.procedures.get? name with
    | some p => rfl
    | none => rfl

end TickScript
