-- The lexemes of a printed tree are read back as the tree that it was, up to its sites, whatever
-- comes next.
import Mathlib.Data.List.Forall2
import TickScript.Proofs.Heights
import TickScript.Proofs.Printing

namespace TickScript

variable {lang : Language} {e : Expr} {target : Bool} {p : Parsed} {items args : List Expr}
  {t : Token} {ts more : List Token} {xs : List Lexeme} {op : BinaryOperator}
  {xss : List (List Lexeme)} {name : String} {params : List String}

/-! ## The same tree -/

mutual

theorem Expr.counted_forget : ∀ e : Expr, e.forget.counted = e.counted
  | .number _ | .text _ | .var .. => rfl
  | .unary _ operand _ => by simp only [Expr.forget, Expr.counted, Expr.counted_forget operand]
  | .binary _ left right _ => by
    simp only [Expr.forget, Expr.counted, Expr.counted_forget left, Expr.counted_forget right]
  | .call _ args _ => by simp only [Expr.forget, Expr.counted, Expr.maxCounted_forgetAll args]
  | .define _ _ body _ => by simp only [Expr.forget, Expr.counted, Expr.counted_forget body]
  | .sequence items => by simp only [Expr.forget, Expr.counted, Expr.maxCounted_forgetAll items]

theorem Expr.maxCounted_forgetAll :
    ∀ es : List Expr, Expr.maxCounted (Expr.forgetAll es) = Expr.maxCounted es
  | [] => rfl
  | e :: rest => by
    simp only [Expr.forgetAll, Expr.maxCounted, Expr.counted_forget e,
      Expr.maxCounted_forgetAll rest]

end

theorem Expr.isSequence_forget (e : Expr) : e.forget.isSequence = e.isSequence := by
  cases e <;> rfl

/-- The tree as it becomes where it stands: a target, if an assignment writes to it. -/
def Expr.aimed (lang : Language) (target : Bool) (e : Expr) : Expr :=
  if target then e.toTarget lang else e

theorem Expr.aimed_call (lang : Language) (target : Bool) (name : String) (args : List Expr)
    (site : Site) :
    (Expr.call name args site).aimed lang target =
      .call name (args.map (Expr.aimed lang (lang.opensTargets target name))) site := by
  have hsame : args.map (Expr.aimed lang false) = args := by
    have : Expr.aimed lang false = id := by
      funext e
      rfl
    rw [this, List.map_id]
  cases target with
  | false => exact congrArg (Expr.call name · site) hsame.symm
  | true =>
    have htoTarget : Expr.aimed lang true = Expr.toTarget lang := by
      funext e
      rfl
    rw [htoTarget, Expr.toTarget, Language.opensTargets, Bool.true_and]
    split
    · rename_i hopens
      rw [hopens, htoTarget, Expr.toTargets_eq_map]
    · rename_i hopens
      rw [Bool.eq_false_iff.mpr hopens, hsame]

theorem Expr.aimed_of_fixed (h : e.toTarget lang = e) (target : Bool) :
    e.aimed lang target = e := by
  cases target with
  | false => rfl
  | true => exact h

theorem Expr.counted_aimed (lang : Language) (target : Bool) (e : Expr) :
    (e.aimed lang target).counted = e.counted := by
  cases target with
  | false => rfl
  | true => exact Expr.counted_toTarget lang e

/-- What has been read becomes this tree where it stands, but for the sites. -/
structure Parsed.Regains (lang : Language) (target : Bool) (p : Parsed) (e : Expr) : Prop where
  counted : p.Counted
  same : (p.tree.aimed lang target).forget = e.forget

theorem Parsed.Regains.height_le (h : p.Regains lang target e) : p.height ≤ e.height + 1 := by
  have hcounted : p.height = p.tree.counted := h.counted
  have hsame := congrArg Expr.counted h.same
  rw [Expr.counted_forget, Expr.counted_forget, Expr.counted_aimed] at hsame
  have := e.counted_bounds
  omega

theorem Parsed.Regains.of_sequence (h : p.Regains lang false (.sequence items)) (target : Bool) :
    p.Regains lang target (.sequence items) := by
  have hsame : p.tree.forget = .sequence (Expr.forgetAll items) := h.same
  refine ⟨h.counted, ?_⟩
  cases htree : p.tree with
  | sequence others =>
    rw [Expr.aimed_of_fixed rfl, ← htree]
    exact hsame
  | _ =>
    rw [htree] at hsame
    cases hsame

theorem Expr.height_le_maxHeight {es : List Expr} (h : e ∈ es) : e.height ≤ Expr.maxHeight es := by
  induction h with
  | head rest =>
    rw [Expr.maxHeight]
    omega
  | tail _ _ ih =>
    rw [Expr.maxHeight]
    omega

/-- What has been read is the beginning of a sequence: its first statement, or several. -/
inductive Parsed.Begins (lang : Language) (p : Parsed) : List Expr → Prop
  | one {e : Expr} (h : p.Regains lang false e) (he : e.isSequence = false) : Begins lang p [e]
  | several {items : List Expr} (h : p.Regains lang false (.sequence items)) :
      Begins lang p items

theorem Parsed.Begins.height_le (h : p.Begins lang items) :
    p.height ≤ Expr.maxHeight items + 2 := by
  cases h with
  | one h =>
    have := h.height_le
    rw [Expr.maxHeight]
    omega
  | several h => exact h.height_le

/-- One more statement goes to the end, and not into a sequence within the sequence. -/
theorem Parsed.Begins.andThen {q : Parsed} (h : p.Begins lang items) (hq : q.Regains lang false e) :
    (p.andThen q).Regains lang false (.sequence (items ++ [e])) := by
  have hqsame : q.tree.forget = e.forget := hq.same
  cases h with
  | @one first hp hfirst =>
    refine ⟨Parsed.counted_andThen hp.counted hq.counted, ?_⟩
    have hpsame : p.tree.forget = first.forget := hp.same
    have hnone : p.tree.isSequence = false := by
      rw [← Expr.isSequence_forget, hpsame, Expr.isSequence_forget, hfirst]
    unfold Parsed.andThen
    split
    · rename_i items htree
      rw [htree] at hnone
      cases hnone
    · exact congrArg Expr.sequence (by
        simp only [List.singleton_append, Expr.forgetAll, hpsame, hqsame])
  | several hp =>
    refine ⟨Parsed.counted_andThen hp.counted hq.counted, ?_⟩
    have hpsame : p.tree.forget = .sequence (Expr.forgetAll items) := hp.same
    cases htree : p.tree with
    | sequence others =>
      rw [htree] at hpsame
      have hothers : Expr.forgetAll others = Expr.forgetAll items := Expr.sequence.inj hpsame
      simp only [Parsed.andThen, htree]
      refine congrArg Expr.sequence ?_
      simp only [Expr.forgetAll_eq_map, List.map_append, List.map_cons, List.map_nil, hqsame]
        at hothers ⊢
      rw [hothers]
    | _ =>
      rw [htree] at hpsame
      cases hpsame

theorem Expr.maxHeight_le_append (es others : List Expr) :
    Expr.maxHeight es ≤ Expr.maxHeight (es ++ others) := by
  induction es with
  | nil => exact Nat.zero_le _
  | cons e rest ih =>
    rw [List.cons_append, Expr.maxHeight, Expr.maxHeight]
    omega

namespace Reader

variable {g : Setting}

/-! ## Reading lexemes -/

theorem ends_of_kind (h : t.kind ≠ .operator) (least : Nat) (more : List Token) :
    Ends g least (t :: more) := by
  intro u hu hkind
  cases Option.some.inj hu
  exact absurd hkind h

/-- Tokens with these lexemes are read as the tree, whatever comes next that ends it. -/
def ReadsBack (g : Setting) (target : Bool) (e : Expr) (xs : List Lexeme) : Prop :=
  ∀ ts more fuel depth, ts.map Token.lexeme = xs → Ends g 0 more → 2 * ts.length ≤ fuel →
    depth + 2 * e.height ≤ maxNesting + 1 →
    ∃ p, expression g fuel depth 0 (ts ++ more) = .ok (p, more) ∧ p.Regains g.lang target e

theorem of_map_inParens (h : ts.map Token.lexeme = inParens xs) :
    ∃ t inner u, ts = t :: (inner ++ [u]) ∧ t.kind = .opening ∧ u.kind = .closing ∧
      inner.map Token.lexeme = xs := by
  obtain ⟨t, rest, rfl, ht, hrest⟩ := List.map_eq_cons_iff.mp h
  obtain ⟨inner, last, rfl, hinner, hlast⟩ := List.map_eq_append_iff.mp hrest
  obtain ⟨u, _, rfl, hu, hnil⟩ := List.map_eq_cons_iff.mp hlast
  cases List.map_eq_nil_iff.mp hnil
  exact ⟨t, inner, u, rfl, congrArg Lexeme.kind ht, congrArg Lexeme.kind hu, hinner⟩

theorem two_le_length (h : ts.map Token.lexeme = inParens xs) : 2 ≤ ts.length := by
  obtain ⟨t, inner, u, rfl, -⟩ := of_map_inParens h
  simp

/-- What stands in parentheses is an operand, and may have any tokens behind it. -/
theorem operand_inParens (h : ReadsBack g target e xs) (hts : ts.map Token.lexeme = inParens xs)
    (fuel depth : Nat) (hfuel : 2 * ts.length ≤ fuel + 3)
    (hdepth : depth + 2 * e.height ≤ maxNesting) (more : List Token) :
    ∃ p, operand g fuel depth (ts ++ more) = .ok (p, more) ∧ p.Regains g.lang target e := by
  obtain ⟨t, inner, u, rfl, ht, hu, hinner⟩ := of_map_inParens hts
  rw [List.length_cons, List.length_append, List.length_singleton] at hfuel
  obtain ⟨fuel, rfl⟩ : ∃ f, fuel = f + 1 := ⟨fuel - 1, by omega⟩
  have hone := e.one_le_height
  have hends : Ends g 0 (u :: more) := ends_of_kind (by rw [hu]; decide) 0 more
  obtain ⟨p, hread, hp⟩ := h _ _ fuel (depth + 1) hinner hends (by omega) (by omega)
  refine ⟨p, ?_, hp⟩
  rw [List.cons_append, List.append_assoc, List.singleton_append,
    operand_of_opening fuel _ (by omega) ht, hread]
  exact if_pos hu

theorem expression_inParens (h : ReadsBack g target e xs) (hts : ts.map Token.lexeme = inParens xs)
    (fuel depth : Nat) (hfuel : 2 * ts.length ≤ fuel + 2)
    (hdepth : depth + 2 * e.height ≤ maxNesting) {least : Nat} (hmore : Ends g least more) :
    ∃ p, expression g fuel depth least (ts ++ more) = .ok (p, more) ∧
      p.Regains g.lang target e := by
  have hlength := two_le_length hts
  obtain ⟨fuel, rfl⟩ : ∃ f, fuel = f + 2 := ⟨fuel - 2, by omega⟩
  obtain ⟨p, hread, hp⟩ :=
    operand_inParens h hts (fuel + 1) depth (by omega) hdepth more
  refine ⟨p, ?_, hp⟩
  rw [expression_succ, hread]
  exact climb_of_ends hmore fuel depth p

/-- An operator and what stands in parentheses behind it are joined to what has been read. -/
theorem climb_inParens (h : ReadsBack g false e xs) (ht : t.kind = .operator)
    (hop : g.lang.binary? t.surface = some op) (hts : ts.map Token.lexeme = inParens xs)
    (fuel depth : Nat) (hfuel : 2 * ts.length ≤ fuel + 2)
    (hdepth : depth + 2 * e.height ≤ maxNesting) (hmore : Ends g (rightLeast op) more) :
    ∃ right, right.Regains g.lang false e ∧ ∀ left p,
      max left.height right.height + 1 ≤ maxNesting → Joins g t left right op.role p →
      climb g (fuel + 1) depth 0 left (t :: (ts ++ more)) = climb g fuel depth 0 p more := by
  obtain ⟨right, hread, hright⟩ := expression_inParens h hts fuel depth hfuel hdepth hmore
  have hend : trailing op (ts ++ more) = false := by
    obtain ⟨u, inner, v, rfl, hu, -⟩ := of_map_inParens hts
    simp [trailing, atOperandEnd, hu]
  refine ⟨right, hright, fun left p hheight hjoins => ?_⟩
  rw [climb_of_operator fuel depth ht hop (Nat.not_lt_zero _) hend, hread]
  exact congrArg (· >>= fun left => climb g fuel depth 0 left more)
    (combine_of_joins hheight hjoins)

/-! ## One node -/

/-- A token that is an operand on its own. -/
theorem readsBack_single {kind : TokenKind} {surface : String}
    (hcall : kind ≠ .call) (hopening : kind ≠ .opening) (hunary : kind ≠ .unary) (he : e.height = 1)
    (h : ∀ t : Token, t.lexeme = ⟨kind, surface⟩ → ∃ p, single g t = .ok p ∧
      (p.tree.aimed g.lang target).forget = e.forget) :
    ReadsBack g target e [⟨kind, surface⟩] := by
  intro ts more fuel depth hts hmore hfuel hdepth
  obtain ⟨t, _, rfl, ht, hnil⟩ := List.map_eq_cons_iff.mp hts
  cases List.map_eq_nil_iff.mp hnil
  obtain ⟨p, hp, hsame⟩ := h t ht
  have hkind : t.kind = kind := congrArg Lexeme.kind ht
  rw [List.length_singleton] at hfuel
  obtain ⟨fuel, rfl⟩ : ∃ f, fuel = f + 2 := ⟨fuel - 2, by omega⟩
  refine ⟨p, ?_, counted_single hp, hsame⟩
  rw [List.singleton_append, expression_succ,
    operand_of_single fuel more (by omega) (hkind ▸ hcall) (hkind ▸ hopening) (hkind ▸ hunary), hp]
  exact climb_of_ends hmore fuel depth p

theorem readsBack_number {x : Float} {n : Lexeme} (h : n.Spells x) (target : Bool) :
    ReadsBack g target (.number x) [n] := by
  have hsame : ((Expr.number x).aimed g.lang target).forget = (Expr.number x).forget :=
    congrArg Expr.forget (Expr.aimed_of_fixed rfl target)
  cases h with
  | decimal _ hx =>
    refine readsBack_single (by decide) (by decide) (by decide) rfl fun t ht =>
      ⟨.leaf (.number x), ?_, hsame⟩
    obtain ⟨hkind, rfl⟩ := Lexeme.mk.inj ht
    simp only [single, hkind, hx]
  | hexadecimal _ hx =>
    refine readsBack_single (by decide) (by decide) (by decide) rfl fun t ht =>
      ⟨.leaf (.number x), ?_, hsame⟩
    obtain ⟨hkind, rfl⟩ := Lexeme.mk.inj ht
    simp only [single, hkind, hx]

theorem readsBack_text (s : String) (target : Bool) :
    ReadsBack g target (.text s) [⟨.text, s⟩] := by
  refine readsBack_single (by decide) (by decide) (by decide) rfl fun t ht =>
    ⟨.leaf (.text s), ?_, ?_⟩
  · obtain ⟨hkind, rfl⟩ := Lexeme.mk.inj ht
    simp only [single, hkind]
  · exact congrArg Expr.forget (Expr.aimed_of_fixed rfl target)

theorem readsBack_var (name : String) (target : Bool) (site : Site) :
    ReadsBack g target (.var name target site) [⟨.name, name⟩] := by
  refine readsBack_single (by decide) (by decide) (by decide) rfl fun t ht => ?_
  refine ⟨.leaf (.var name false (g.site t)), ?_, ?_⟩
  · obtain ⟨hkind, rfl⟩ := Lexeme.mk.inj ht
    simp only [single, hkind]
  · cases target <;> rfl

theorem readsBack_unary {operator : String} {op : UnaryOperator}
    (hop : g.lang.unary? operator = some op) (h : ReadsBack g false e xs) (target : Bool)
    (site : Site) :
    ReadsBack g target (.unary operator e site) (⟨.unary, operator⟩ :: inParens xs) := by
  intro ts more fuel depth hts hmore hfuel hdepth
  obtain ⟨t, rest, rfl, ht, hrest⟩ := List.map_eq_cons_iff.mp hts
  obtain ⟨hkind, rfl⟩ := Lexeme.mk.inj ht
  rw [List.length_cons] at hfuel
  rw [Expr.height] at hdepth
  have hone := e.one_le_height
  obtain ⟨fuel, rfl⟩ : ∃ f, fuel = f + 2 := ⟨fuel - 2, by omega⟩
  obtain ⟨inner, hread, hinner⟩ :=
    expression_inParens h hrest fuel (depth + 1) (by omega) (by omega)
      (hmore.mono (Nat.zero_le op.precedence))
  have hcounted : inner.height = inner.tree.counted := hinner.counted
  refine ⟨⟨.unary t.surface inner.tree (g.site t), inner.height + 1⟩, ?_, ?_, ?_⟩
  · rw [List.cons_append, expression_succ,
      operand_of_unary fuel _ (by omega) hkind hop, hread]
    exact climb_of_ends hmore fuel depth _
  · simp only [Parsed.Counted, Expr.counted, hcounted]
  · rw [Expr.aimed_of_fixed rfl, Expr.forget, Expr.forget]
    exact congrArg (Expr.unary t.surface · .nowhere) hinner.same

theorem joins_of_writes {role : BinaryRole} {writes : Bool} (h : role.writes? = some writes)
    (t : Token) (left right : Parsed) :
    Joins g t left right role ⟨.binary t.surface (left.tree.aimed g.lang writes) right.tree
      (g.site t), max left.height right.height + 1⟩ := by
  cases role with
  | evaluates apply =>
    cases h
    exact .evaluates apply
  | assigns apply =>
    cases h
    exact .assigns apply
  | defines => cases h
  | sequences => cases h

theorem readsBack_binary {operator : String} (hop : g.lang.binary? operator = some op)
    {writes : Bool} (hwrites : op.role.writes? = some writes) {left right : Expr} {ys : List Lexeme}
    (hleft : ReadsBack g writes left xs) (hright : ReadsBack g false right ys) (target : Bool)
    (site : Site) :
    ReadsBack g target (.binary operator left right site)
      (inParens xs ++ ⟨.operator, operator⟩ :: inParens ys) := by
  intro ts more fuel depth hts hmore hfuel hdepth
  obtain ⟨first, rest, rfl, hfirst, hrest⟩ := List.map_eq_append_iff.mp hts
  obtain ⟨t, second, rfl, ht, hsecond⟩ := List.map_eq_cons_iff.mp hrest
  obtain ⟨hkind, rfl⟩ := Lexeme.mk.inj ht
  rw [List.length_append, List.length_cons] at hfuel
  rw [Expr.height] at hdepth
  obtain ⟨fuel, rfl⟩ : ∃ f, fuel = f + 2 := ⟨fuel - 2, by omega⟩
  obtain ⟨p, hp, hregains⟩ := operand_inParens hleft hfirst (fuel + 1) depth (by omega)
    (by omega) (t :: (second ++ more))
  obtain ⟨q, hq, hclimb⟩ := climb_inParens hright hkind hop hsecond fuel depth (by omega)
    (by omega) (hmore.mono (Nat.zero_le _))
  have hpheight := hregains.height_le
  have hqheight := hq.height_le
  have hlength := two_le_length hfirst
  have hmost : maxNesting = 200 := rfl
  have hjoins := joins_of_writes (g := g) hwrites t p q
  refine ⟨_, ?_, counted_joins hregains.counted hq.counted hjoins, ?_⟩
  · rw [List.append_assoc, List.cons_append, expression_succ, hp]
    refine (hclimb p _ (by omega) hjoins).trans ?_
    obtain ⟨fuel, rfl⟩ : ∃ f, fuel = f + 1 := ⟨fuel - 1, by omega⟩
    exact climb_of_ends hmore fuel depth _
  · rw [Expr.aimed_of_fixed rfl, Expr.forget, Expr.forget, hregains.same]
    exact congrArg (Expr.binary t.surface left.forget · .nowhere) hq.same

/-! ## Calls and definitions -/

/-- No tree starts with a closing parenthesis. -/
theorem kind_of_expression {fuel depth least : Nat} {rest : List Token} {x : Parsed × List Token}
    (h : expression g fuel depth least (t :: rest) = .ok x) : t.kind ≠ .closing := by
  intro ht
  rcases fuel with _ | _ | fuel
  · rw [expression] at h
    cases h
  · rw [expression_succ, operand] at h
    cases h
  · rw [expression_succ] at h
    obtain ⟨y, hy, -⟩ := of_bind_ok h
    by_cases hdepth : depth + 1 ≤ maxNesting
    · rw [operand_of_single fuel rest hdepth (by rw [ht]; decide) (by rw [ht]; decide)
        (by rw [ht]; decide)] at hy
      simp only [single, ht] at hy
      cases hy
    · rw [operand_of_deep fuel hdepth] at hy
      cases hy

/-- What the arguments of a call are read as, the call is read as. -/
theorem operand_of_arguments {v u : Token} {inner : List Token} {fuel depth : Nat}
    {x : Parsed × List Token} (hdepth : depth + 1 ≤ maxNesting) (ht : t.kind = .call)
    (h : arguments g fuel (depth + 1) t [] 0 (inner ++ u :: more) = .ok x) :
    operand g (fuel + 1) depth (t :: (v :: (inner ++ [u]) ++ more)) = .ok x := by
  rcases htokens : inner ++ u :: more with _ | ⟨next, others⟩
  · simp at htokens
  rw [htokens] at h
  have hnext : next.kind ≠ .closing := by
    rcases fuel with _ | fuel
    · rw [arguments] at h
      cases h
    · rw [arguments_succ] at h
      obtain ⟨y, hy, -⟩ := of_bind_ok h
      exact kind_of_expression hy
  have hdrop : (v :: (inner ++ [u]) ++ more).drop 1 = next :: others := by simp [htokens]
  rw [operand_of_call fuel _ hdepth ht hdrop hnext]
  exact h

/-- The arguments of a call are read one after the other, behind those that have been read. -/
theorem arguments_joined {es : List Expr} (h : ReadsBack g target e xs)
    (hs : List.Forall₂ (ReadsBack g target) es xss)
    (hts : ts.map Token.lexeme = joined ⟨.comma, ","⟩ (xs :: xss)) {u : Token}
    (hu : u.kind = .closing) (fuel depth : Nat) (hfuel : 2 * ts.length + 2 ≤ fuel)
    (hdepth : ∀ f ∈ e :: es, depth + 2 * f.height ≤ maxNesting + 1) (name : Token)
    (done : List Parsed) (more : List Token) :
    ∃ ps, List.Forall₂ (Parsed.Regains g.lang target) ps (e :: es) ∧
      arguments g fuel depth name (done.map Parsed.tree) (highest done) (ts ++ u :: more) =
        finishCall g name ((done ++ ps).map Parsed.tree) (highest (done ++ ps)) >>= fun parsed =>
          .ok (parsed, more) := by
  obtain ⟨fuel, rfl⟩ : ∃ f, fuel = f + 1 := ⟨fuel - 1, by omega⟩
  induction hs generalizing e xs ts done fuel with
  | nil =>
    have hends : Ends g 0 (u :: more) := ends_of_kind (by rw [hu]; decide) 0 more
    rw [joined, List.flatMap_nil, List.append_nil] at hts
    obtain ⟨p, hread, hp⟩ := h ts _ fuel depth hts hends (by omega) (hdepth e (by simp))
    refine ⟨[p], .cons hp .nil, ?_⟩
    rw [arguments_succ, hread, List.map_append, highest_concat]
    simp [afterArgument, bind, Except.bind, hu]
  | @cons f ys es xss hf hs ih =>
    have hsplit : joined ⟨.comma, ","⟩ (xs :: ys :: xss) =
        xs ++ ⟨.comma, ","⟩ :: joined ⟨.comma, ","⟩ (ys :: xss) := by
      simp [joined]
    rw [hsplit] at hts
    obtain ⟨first, rest, rfl, hfirst, hrest⟩ := List.map_eq_append_iff.mp hts
    obtain ⟨v, others, rfl, hv, hothers⟩ := List.map_eq_cons_iff.mp hrest
    have hv : v.kind = .comma := congrArg Lexeme.kind hv
    obtain ⟨he, hes⟩ := List.forall_mem_cons.mp hdepth
    have hends : Ends g 0 (v :: (others ++ u :: more)) := ends_of_kind (by rw [hv]; decide) 0 _
    rw [List.length_append, List.length_cons] at hfuel
    obtain ⟨fuel, rfl⟩ : ∃ n, fuel = n + 1 := ⟨fuel - 1, by omega⟩
    obtain ⟨p, hread, hp⟩ := h first _ (fuel + 1) depth hfirst hends (by omega) he
    obtain ⟨ps, hps, hargs⟩ := ih hf hothers hes (done ++ [p]) fuel (by omega)
    refine ⟨p :: ps, .cons hp hps, ?_⟩
    rw [List.append_assoc, List.singleton_append, List.map_append, highest_concat] at hargs
    rw [List.append_assoc, List.cons_append, arguments_succ, hread, ← hargs]
    simp [afterArgument, bind, Except.bind, hv]

theorem regains_call {ps : List Parsed}
    (h : List.Forall₂ (Parsed.Regains g.lang (g.lang.opensTargets target name)) ps args)
    (site other : Site) :
    Parsed.Regains g.lang target ⟨.call name (ps.map Parsed.tree) site, highest ps + 1⟩
      (.call name args other) := by
  generalize htargets : g.lang.opensTargets target name = targets at h
  have hall : (∀ p ∈ ps, p.Counted) ∧
      Expr.forgetAll ((ps.map Parsed.tree).map (Expr.aimed g.lang targets)) =
        Expr.forgetAll args := by
    induction h with
    | nil => exact ⟨by simp, rfl⟩
    | cons hp _ ih =>
      refine ⟨List.forall_mem_cons.mpr ⟨hp.counted, ih.1⟩, ?_⟩
      rw [List.map_cons, List.map_cons, Expr.forgetAll, Expr.forgetAll, hp.same, ih.2]
  constructor
  · simp only [Parsed.Counted, Expr.counted, highest_eq_maxCounted hall.1]
  · rw [Expr.aimed_call, htargets, Expr.forget, Expr.forget, hall.2]

/-- A name with some trees in its parentheses is a call, and may have any tokens behind it. -/
theorem operand_headed
    (haccepts : ∀ f, g.lang.function? name = some f → f.arity.accepts args.length = true)
    (h : List.Forall₂ (ReadsBack g (g.lang.opensTargets target name)) args xss)
    (hts : ts.map Token.lexeme = headed name xss) (fuel depth : Nat)
    (hfuel : 2 * ts.length ≤ fuel + 1)
    (hdepth : depth + 2 * (Expr.maxHeight args + 1) ≤ maxNesting + 1) (site : Site)
    (more : List Token) :
    ∃ p, operand g fuel depth (ts ++ more) = .ok (p, more) ∧
      p.Regains g.lang target (.call name args site) := by
  obtain ⟨t, rest, rfl, ht, hrest⟩ := List.map_eq_cons_iff.mp hts
  obtain ⟨hkind, rfl⟩ := Lexeme.mk.inj ht
  obtain ⟨v, inner, u, rfl, -, hu, hinner⟩ := of_map_inParens hrest
  simp only [List.length_cons, List.length_append, List.length_nil] at hfuel
  obtain ⟨fuel, rfl⟩ : ∃ f, fuel = f + 1 := ⟨fuel - 1, by omega⟩
  -- What the arguments are read as, and that the call may have so many.
  have hfinish : ∀ ps : List Parsed,
      List.Forall₂ (Parsed.Regains g.lang (g.lang.opensTargets target t.surface)) ps args →
      finishCall g t (ps.map Parsed.tree) (highest ps) =
        .ok ⟨.call t.surface (ps.map Parsed.tree) (g.site t), highest ps + 1⟩ := by
    intro ps hps
    refine finishCall_of_accepts _ fun f hf => ?_
    rw [List.length_map, hps.length_eq]
    exact haccepts f hf
  obtain ⟨ps, hps, hread⟩ : ∃ ps : List Parsed,
      List.Forall₂ (Parsed.Regains g.lang (g.lang.opensTargets target t.surface)) ps args ∧
      operand g (fuel + 1) depth (t :: (v :: (inner ++ [u]) ++ more)) =
        .ok (⟨.call t.surface (ps.map Parsed.tree) (g.site t), highest ps + 1⟩, more) := by
    cases h with
    | nil =>
      cases List.map_eq_nil_iff.mp hinner
      refine ⟨[], .nil, ?_⟩
      have hdrop : (v :: ([] ++ [u]) ++ more).drop 1 = u :: more := rfl
      rw [operand_of_call_closing fuel _ (by omega) hkind hdrop hu]
      exact congrArg (· >>= fun parsed => .ok (parsed, more)) (hfinish [] .nil)
    | @cons e xs es xss he hes =>
      obtain ⟨ps, hps, hargs⟩ := arguments_joined he hes hinner hu fuel (depth + 1) (by omega)
        (fun f hf => by have := Expr.height_le_maxHeight hf; omega) t [] more
      rw [List.nil_append, hfinish ps hps] at hargs
      exact ⟨ps, hps, operand_of_arguments (by omega) hkind hargs⟩
  exact ⟨_, hread, regains_call hps _ site⟩

theorem readsBack_call
    (haccepts : ∀ f, g.lang.function? name = some f → f.arity.accepts args.length = true)
    (h : List.Forall₂ (ReadsBack g (g.lang.opensTargets target name)) args xss) (site : Site) :
    ReadsBack g target (.call name args site) (headed name xss) := by
  intro ts more fuel depth hts hmore hfuel hdepth
  have hlength : 1 ≤ ts.length := by
    obtain ⟨t, rest, rfl, -⟩ := List.map_eq_cons_iff.mp hts
    simp
  obtain ⟨fuel, rfl⟩ : ∃ f, fuel = f + 2 := ⟨fuel - 2, by omega⟩
  obtain ⟨p, hread, hp⟩ :=
    operand_headed haccepts h hts (fuel + 1) depth (by omega) hdepth site more
  refine ⟨p, ?_, hp⟩
  rw [expression_succ, hread]
  exact climb_of_ends hmore fuel depth p

theorem paramNames?_of_forget
    (h : Expr.forgetAll args = params.map fun param => .var param false .nowhere) :
    paramNames? args = some params := by
  induction args generalizing params with
  | nil =>
    cases params with
    | nil => rfl
    | cons param rest => cases h
  | cons e args ih =>
    cases params with
    | nil => cases h
    | cons param rest =>
      rw [Expr.forgetAll, List.map_cons, List.cons.injEq] at h
      obtain ⟨he, hargs⟩ := h
      cases e with
      | var name isTarget site =>
        cases he
        rw [paramNames?, ih hargs]
        rfl
      | _ => cases he

/-- The head of a definition is read as a call of its parameters. -/
theorem operand_head (hfunction : g.lang.function? name = none)
    (hts : ts.map Token.lexeme = headed name (params.map fun param => [⟨.name, param⟩]))
    (fuel depth : Nat) (hfuel : 2 * ts.length ≤ fuel + 1) (hdepth : depth + 4 ≤ maxNesting + 1)
    (more : List Token) :
    ∃ p args site, operand g fuel depth (ts ++ more) = .ok (p, more) ∧
      p.tree = .call name args site ∧ paramNames? args = some params ∧ p.Counted ∧
      p.height ≤ 3 := by
  have hread : List.Forall₂ (ReadsBack g (g.lang.opensTargets false name))
      (params.map fun param => .var param false .nowhere)
      (params.map fun param => [⟨.name, param⟩]) := by
    rw [List.forall₂_map_left_iff, List.forall₂_map_right_iff, List.forall₂_same]
    exact fun param _ => readsBack_var param false .nowhere
  have hheight : Expr.maxHeight (params.map fun param => .var param false .nowhere) ≤ 1 := by
    clear hts hread
    induction params with
    | nil => exact Nat.zero_le 1
    | cons param rest ih => exact Nat.max_le.mpr ⟨Nat.le_refl 1, ih⟩
  have haccepts : ∀ f, g.lang.function? name = some f →
      f.arity.accepts (params.map fun param => Expr.var param false .nowhere).length = true := by
    intro f hf
    rw [hfunction] at hf
    cases hf
  obtain ⟨p, hp, hregains⟩ :=
    operand_headed haccepts hread hts fuel depth hfuel (by omega) .nowhere more
  have hpheight := hregains.height_le
  rw [Expr.height] at hpheight
  have hsame : p.tree.forget = _ := hregains.same
  cases htree : p.tree with
  | call other args site =>
    rw [htree, Expr.forget, Expr.forget, Expr.call.injEq] at hsame
    obtain ⟨rfl, hargs, -⟩ := hsame
    refine ⟨p, args, site, hp, htree, paramNames?_of_forget ?_, hregains.counted, by omega⟩
    rw [hargs, Expr.forgetAll_eq_map, List.map_map]
    rfl
  | _ =>
    rw [htree] at hsame
    cases hsame

theorem readsBack_define {body : Expr} (hfunction : g.lang.function? name = none)
    (hop : g.lang.binary? "->" = some op) (hrole : op.role = .defines)
    (hbody : ReadsBack g false body xs) (target : Bool) (site : Site) :
    ReadsBack g target (.define name params body site)
      (headed name (params.map fun param => [⟨.name, param⟩]) ++
        ⟨.operator, "->"⟩ :: inParens xs) := by
  intro ts more fuel depth hts hmore hfuel hdepth
  obtain ⟨first, rest, rfl, hfirst, hrest⟩ := List.map_eq_append_iff.mp hts
  obtain ⟨t, second, rfl, ht, hsecond⟩ := List.map_eq_cons_iff.mp hrest
  obtain ⟨hkind, hsurface⟩ := Lexeme.mk.inj ht
  rw [← hsurface] at hop
  rw [List.length_append, List.length_cons] at hfuel
  rw [Expr.height] at hdepth
  have hone := body.one_le_height
  have hlength := two_le_length hsecond
  have hmost : maxNesting = 200 := rfl
  obtain ⟨fuel, rfl⟩ : ∃ f, fuel = f + 3 := ⟨fuel - 3, by omega⟩
  obtain ⟨p, args, headSite, hp, htree, hparams, hcounted, hpheight⟩ :=
    operand_head hfunction hfirst (fuel + 2) depth (by omega) (by omega) (t :: (second ++ more))
  obtain ⟨q, hq, hclimb⟩ := climb_inParens hbody hkind hop hsecond (fuel + 1) depth (by omega)
    (by omega) (hmore.mono (Nat.zero_le _))
  have hqheight := hq.height_le
  have hjoins : Joins g t p q op.role
      ⟨.define name params q.tree headSite, max p.height q.height + 1⟩ := by
    rw [hrole]
    exact .defines htree hfunction hparams
  refine ⟨_, ?_, counted_joins hcounted hq.counted hjoins, ?_⟩
  · rw [List.append_assoc, List.cons_append, expression_succ, hp]
    refine (hclimb p _ (by omega) hjoins).trans ?_
    exact climb_of_ends hmore fuel depth _
  · rw [Expr.aimed_of_fixed rfl, Expr.forget, Expr.forget]
    exact congrArg (Expr.define name params · .nowhere) hq.same

/-! ## Sequences -/

theorem climb_statements (hop : g.lang.binary? ";" = some ⟨1, .left, .sequences⟩)
    (h : List.Forall₂ (ReadsBack g false) items xss)
    (hts : ts.map Token.lexeme = (xss.map inParens).flatMap (⟨.operator, ";"⟩ :: ·))
    (hmore : Ends g 0 more) (fuel depth : Nat) (hfuel : 2 * ts.length + 1 ≤ fuel) (done : List Expr)
    (hdepth : depth + 2 * (Expr.maxHeight (done ++ items) + 1) ≤ maxNesting + 1) {left : Parsed}
    (hleft : left.Begins g.lang done) :
    ∃ p, climb g fuel depth 0 left (ts ++ more) = .ok (p, more) ∧
      p.Begins g.lang (done ++ items) := by
  obtain ⟨fuel, rfl⟩ : ∃ f, fuel = f + 1 := ⟨fuel - 1, by omega⟩
  induction h generalizing ts fuel done left with
  | nil =>
    cases List.map_eq_nil_iff.mp hts
    refine ⟨left, climb_of_ends hmore fuel depth left, ?_⟩
    rwa [List.append_nil]
  | @cons e xs items xss he hitems ih =>
    rw [List.map_cons, List.flatMap_cons, List.cons_append] at hts
    obtain ⟨t, rest, rfl, ht, hrest⟩ := List.map_eq_cons_iff.mp hts
    obtain ⟨first, others, rfl, hfirst, hothers⟩ := List.map_eq_append_iff.mp hrest
    obtain ⟨hkind, hsurface⟩ := Lexeme.mk.inj ht
    have hop' := hsurface ▸ hop
    have hends : Ends g 2 (others ++ more) := by
      rcases xss with _ | ⟨ys, yss⟩
      · cases List.map_eq_nil_iff.mp hothers
        exact hmore.mono (Nat.zero_le 2)
      · obtain ⟨u, tail, rfl, hu, -⟩ := List.map_eq_cons_iff.mp hothers
        obtain ⟨_, hu⟩ := Lexeme.mk.inj hu
        intro v hv _
        cases Option.some.inj hv
        exact ⟨_, hu ▸ hop, Nat.lt_succ_self 1⟩
    have hsplit : done ++ e :: items = (done ++ [e]) ++ items := by simp
    have heheight : e.height ≤ Expr.maxHeight (done ++ e :: items) :=
      Expr.height_le_maxHeight (by simp)
    have hdone := Expr.maxHeight_le_append done (e :: items)
    have hlength := two_le_length hfirst
    have hmost : maxNesting = 200 := rfl
    simp only [List.length_cons, List.length_append] at hfuel
    obtain ⟨fuel, rfl⟩ : ∃ f, fuel = f + 1 := ⟨fuel - 1, by omega⟩
    obtain ⟨q, hq, hclimb⟩ :=
      climb_inParens he hkind hop' hfirst (fuel + 1) depth (by omega) (by omega) hends
    have hqheight := hq.height_le
    have hlheight := hleft.height_le
    have hheight : max left.height q.height + 1 ≤ maxNesting := by omega
    rw [hsplit] at hdepth ⊢
    obtain ⟨p, hp, hbegins⟩ :=
      ih hothers (done ++ [e]) hdepth (.several (hleft.andThen hq)) fuel (by omega)
    refine ⟨p, ?_, hbegins⟩
    rw [List.cons_append, List.append_assoc, hclimb left _ hheight .sequences]
    exact hp

theorem readsBack_sequence (hop : g.lang.binary? ";" = some ⟨1, .left, .sequences⟩)
    (h : List.Forall₂ (ReadsBack g false) items xss) (hlength : 2 ≤ items.length)
    (hhead : ∀ e ∈ items.head?, e.isSequence = false) (target : Bool) :
    ReadsBack g target (.sequence items) (joined ⟨.operator, ";"⟩ (xss.map inParens)) := by
  intro ts more fuel depth hts hmore hfuel hdepth
  cases h with
  | nil => cases hlength
  | @cons e xs items xss he hitems =>
    rw [List.map_cons, joined] at hts
    obtain ⟨first, rest, rfl, hfirst, hrest⟩ := List.map_eq_append_iff.mp hts
    have hfour := two_le_length hfirst
    rw [List.length_append] at hfuel
    have heheight : e.height ≤ Expr.maxHeight (e :: items) := Expr.height_le_maxHeight (by simp)
    rw [Expr.height] at hdepth
    obtain ⟨fuel, rfl⟩ : ∃ f, fuel = f + 1 := ⟨fuel - 1, by omega⟩
    obtain ⟨p, hp, hregains⟩ :=
      operand_inParens he hfirst fuel depth (by omega) (by omega) (rest ++ more)
    obtain ⟨q, hq, hbegins⟩ := climb_statements hop hitems hrest hmore fuel depth (by omega) [e]
      hdepth (.one hregains (hhead e rfl))
    refine ⟨q, ?_, ?_⟩
    · rw [List.append_assoc, expression_succ, hp]
      exact hq
    · rw [List.singleton_append] at hbegins
      generalize hall : e :: items = all at hbegins
      cases hbegins with
      | one =>
        rw [(List.cons.inj hall).2] at hlength
        exact absurd hlength (by simp)
      | several hregains => exact hall ▸ hregains.of_sequence target

/-! ## Whole trees -/

variable {known : List String}

mutual

/-- A printed tree is read back, by recursion over the tree. -/
theorem readsBack_of_prints : ∀ (e : Expr) {target : Bool} {xs : List Lexeme},
    e.Readable g.lang known target → e.Prints xs → ReadsBack g target e xs
  | .number _, _, _, _, .number hn => readsBack_number hn _
  | .text s, _, _, _, .text => readsBack_text s _
  | .var name _ site, _, _, ⟨_, htarget⟩, .var => htarget ▸ readsBack_var name _ site
  | .unary _ operand site, _, _, ⟨_, ⟨_, hop⟩, hoperand⟩, .unary hxs =>
    readsBack_unary hop (readsBack_of_prints operand hoperand hxs) _ site
  | .binary _ left right site, _, _, ⟨_, ⟨_, _, hop, hwrites, hleft⟩, hright⟩, .binary hxs hys =>
    readsBack_binary hop hwrites (readsBack_of_prints left hleft hxs)
      (readsBack_of_prints right hright hys) _ site
  | .call _ args site, _, _, ⟨_, haccepts, hargs⟩, .call hxss =>
    readsBack_call haccepts (readsBack_of_allPrint args hargs hxss) site
  | .define _ _ body site, _, _, ⟨_, hfunction, _, _, ⟨_, hop, hrole⟩, hbody⟩, .define hxs =>
    readsBack_define hfunction hop hrole (readsBack_of_prints body hbody hxs) _ site
  | .sequence items, _, _, ⟨_, hop, hlength, hhead, hitems⟩, .sequence hxss =>
    readsBack_sequence hop (readsBack_of_allPrint items hitems hxss) hlength hhead _

theorem readsBack_of_allPrint : ∀ (es : List Expr) {target : Bool} {xss : List (List Lexeme)},
    Expr.AllReadable g.lang known target es → Expr.AllPrint es xss →
    List.Forall₂ (ReadsBack g target) es xss
  | [], _, _, _, .nil => .nil
  | e :: rest, _, _, ⟨he, hrest⟩, .cons hxs hxss =>
    .cons (readsBack_of_prints e he hxs) (readsBack_of_allPrint rest hrest hxss)

end

end Reader

/-! ## Whole scripts -/

/-- A script is read as what its tokens are read as. -/
theorem Script.read_of_tokens {source : Source} {tokens : List Token}
    (htokens : tokenize lang.operators source = .ok tokens) (hne : tokens ≠ []) {P : Expr → Prop}
    (h : ∀ last, ∃ p,
      Reader.expression ⟨lang, source, last⟩ (2 * tokens.length + 2) 0 0 (tokens ++ []) =
          .ok (p, []) ∧
        P p.tree) :
    ∃ script, Script.read lang source = .ok script ∧ P script.root := by
  have hlast := List.getLast?_eq_getLast_of_ne_nil hne
  obtain ⟨p, hp, htree⟩ := h (tokens.getLast hne)
  rw [List.append_nil] at hp
  exact ⟨_, Script.read_eq_ok_iff.mpr ⟨tokens, _, p, htokens, hlast, hp, rfl⟩, htree⟩

/-- A script is read as what its lexemes are read as. -/
theorem Script.read_of_lexemes {known : List String}
    (hknows : lang.operators.Knows known) {source : Source}
    (hsource : Written known xs source.code.toList) (hlegal : ∀ x ∈ xs, x.Legal known)
    (hxs : Coherent none xs) {P : Expr → Prop} (h : ∀ last ts, ts.map Token.lexeme = xs →
      ∃ p, Reader.expression ⟨lang, source, last⟩ (2 * ts.length + 2) 0 0 (ts ++ []) = .ok (p, []) ∧
        P p.tree) :
    ∃ script, Script.read lang source = .ok script ∧ P script.root := by
  obtain ⟨tokens, htokens, hlexemes⟩ := tokenize_of_written hknows hsource hlegal hxs
  refine Script.read_of_tokens htokens ?_ fun last => h last tokens hlexemes
  -- Without tokens there are no lexemes, and these are not coherent.
  rintro rfl
  rw [← hlexemes] at hxs
  cases hxs

end TickScript
