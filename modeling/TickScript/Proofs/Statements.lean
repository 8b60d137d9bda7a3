-- Statements one after the other. What stands between two `;` is read as it is on its own, whatever
-- stands around it, and a chain of statements is read as a tree that does the steps of these one
-- after the other.
import TickScript.Proofs.Appending
import TickScript.Proofs.Spans

namespace TickScript

variable {fuel depth least : Nat} {x : Parsed × List Token} {more r rest tokens : List Token}
  {left p : Parsed} {t : Token} {segments : List (List Token)} {qs : List Parsed}

/-! ## Steps -/

mutual

/-- The steps that a tree takes one after the other, however its statements are grouped. -/
def Expr.steps : Expr → List Expr
  | .sequence [] => [.sequence []]
  | .sequence (e :: rest) => e.steps ++ Expr.allSteps rest
  | e => [e]

/-- The steps of some trees, one after the other. -/
def Expr.allSteps : List Expr → List Expr
  | [] => []
  | e :: rest => e.steps ++ Expr.allSteps rest

end

theorem Expr.allSteps_append (es fs : List Expr) :
    Expr.allSteps (es ++ fs) = Expr.allSteps es ++ Expr.allSteps fs := by
  induction es with
  | nil => rfl
  | cons e es ih => simp [Expr.allSteps, ih]

theorem Parsed.andThen_ne_empty (first next : Parsed) :
    (first.andThen next).tree ≠ .sequence [] := by
  unfold Parsed.andThen
  split <;> simp

/-- To add a statement is to add its steps. -/
theorem Parsed.steps_andThen (first next : Parsed) (h : first.tree ≠ .sequence []) :
    (first.andThen next).tree.steps = first.tree.steps ++ next.tree.steps := by
  obtain ⟨tree, height⟩ := first
  cases tree with
  | sequence items =>
    cases items with
    | nil => exact absurd rfl h
    | cons e items => simp [Parsed.andThen, Expr.steps, Expr.allSteps, Expr.allSteps_append]
  | number | text | var | unary | binary | call | define =>
    simp [Parsed.andThen, Expr.steps, Expr.allSteps]

namespace Reader

variable {g : Setting}

/-! ## Where a reading ends -/

theorem expression_cases (h : expression g fuel depth least tokens = .ok x) :
    ∃ n left rest, fuel = n + 1 ∧ operand g n depth tokens = .ok (left, rest) ∧
      climb g n depth least left rest = .ok x := by
  rcases fuel with _ | n
  · rw [expression] at h
    cases h
  · rw [expression_succ] at h
    obtain ⟨⟨left, rest⟩, hoperand, hclimb⟩ := of_bind_ok h
    exact ⟨n, left, rest, rfl, hoperand, hclimb⟩

theorem depth_of_operand (h : operand g fuel depth tokens = .ok x) :
    ∃ n, fuel = n + 1 ∧ depth + 1 ≤ maxNesting := by
  rcases fuel with _ | n
  · rw [operand] at h
    cases h
  · refine ⟨n, rfl, ?_⟩
    by_contra hdepth
    rw [operand_of_deep n hdepth] at h
    cases h

theorem ends_of_atOperandEnd (h : atOperandEnd more = true) (least : Nat) : Ends g least more :=
  Stops.ends (Or.inl h)

/-- Where a climb stops, no operator comes next that binds closely enough. -/
theorem ends_of_climb (h : climb g fuel depth least left tokens = .ok (p, r)) : Ends g least r := by
  induction fuel generalizing left tokens with
  | zero =>
    rw [climb] at h
    cases h
  | succ fuel ih =>
    obtain ⟨n, hn, hround⟩ := climb_cases h
    cases hn
    cases hround with
    | ends hends => exact hends
    | trailing _ _ _ _ hend => exact ends_of_atOperandEnd hend least
    | operator _ _ _ _ _ _ hclimb => exact ih hclimb

theorem ends_of_expression (h : expression g fuel depth least tokens = .ok (p, r)) :
    Ends g least r := by
  obtain ⟨_, _, _, _, _, hclimb⟩ := expression_cases h
  exact ends_of_climb hclimb

/-- Two readings of the same tokens that both end well are the same, whatever their fuel is and
whatever stands around them. -/
theorem expression_unique {fuel' depth' : Nat} {y : Parsed × List Token}
    (hx : expression g fuel depth least tokens = .ok x)
    (hy : expression g fuel' depth' least tokens = .ok y) : y = x := by
  have hagain : ∀ {fuel depth : Nat} {z : Parsed × List Token},
      expression g fuel depth least tokens = .ok z → ∀ f, fuel ≤ f →
      expression g f 0 least tokens = .ok z := by
    rintro fuel depth ⟨p, r⟩ hz f hf
    obtain ⟨taken, rfl, _, _, hretakes⟩ := (takes g fuel).expression hz
    exact hretakes.again (by omega) (Nat.zero_le _) (.self r)
  have hx := hagain hx (max fuel fuel') (Nat.le_max_left _ _)
  have hy := hagain hy (max fuel fuel') (Nat.le_max_right _ _)
  rw [hx] at hy
  exact (Except.ok.inj hy).symm

theorem expression_of_unary_unknown (ht : t.kind = .unary) (hop : g.lang.unary? t.surface = none) :
    expression g fuel depth least (t :: rest) ≠ .ok x := by
  intro h
  obtain ⟨_, _, _, _, hoperand, _⟩ := expression_cases h
  obtain ⟨n, rfl, hdepth⟩ := depth_of_operand hoperand
  rw [operand_of_unary_unknown n rest hdepth ht hop] at hoperand
  cases hoperand

/-! ## The operator between statements -/

/-- The token separates statements. -/
def IsSemicolon (t : Token) : Prop := t.kind = .operator ∧ t.surface = ";"

section Separating

variable (hlang : g.lang.Separates)

include hlang

/-- A reading of statements starts with a reading of the first of them. -/
theorem climb_factor (h : climb g fuel depth 0 left tokens = .ok (p, r)) :
    ∃ q rest fuel', climb g fuel depth 2 left tokens = .ok (q, rest) ∧
      climb g fuel' depth 0 q rest = .ok (p, r) := by
  induction fuel generalizing left tokens with
  | zero =>
    rw [climb] at h
    cases h
  | succ fuel ih =>
    obtain ⟨n, hn, hround⟩ := climb_cases h
    cases hn
    cases hround with
    | ends hends =>
      exact ⟨p, r, fuel + 1, climb_of_ends (hends.mono (Nat.zero_le 2)) _ _ _, h⟩
    | @trailing t rest op ht hop _ hrole hend =>
      obtain ⟨_, rfl⟩ := hlang.eq_of_sequences hop hrole
      exact ⟨p, t :: r, fuel + 1, climb_of_looser fuel depth ht hop Nat.one_lt_two, h⟩
    | @operator t rest others op right joined _ ht hop _ hend hright hjoined hclimb =>
      by_cases hsurface : t.surface = ";"
      · rw [hsurface, hlang.sequence] at hop
        cases hop
        have hsequence := hlang.sequence
        rw [← hsurface] at hsequence
        exact ⟨left, t :: rest, fuel + 1, climb_of_looser fuel depth ht hsequence Nat.one_lt_two, h⟩
      · obtain ⟨q, rest', fuel', hq, hon⟩ := ih hclimb
        have htwo := (hlang.binary hop hsurface).1
        refine ⟨q, rest', fuel', ?_, hon⟩
        rw [climb_of_operator fuel depth ht hop (by omega) hend, hright]
        simp only [bind, Except.bind, hjoined, hq]

theorem expression_factor (h : expression g fuel depth 0 tokens = .ok (p, r)) :
    ∃ q rest fuel', expression g fuel depth 2 tokens = .ok (q, rest) ∧
      climb g fuel' depth 0 q rest = .ok (p, r) := by
  obtain ⟨n, left, rest, rfl, hoperand, hclimb⟩ := expression_cases h
  obtain ⟨q, rest', fuel', hq, hon⟩ := climb_factor hlang hclimb
  refine ⟨q, rest', fuel', ?_, hon⟩
  rw [expression_succ, hoperand]
  exact hq

/-- Behind the operator the statements end, or the next one is read and added. -/
theorem climb_semicolon (ht : IsSemicolon t)
    (h : climb g fuel depth 0 left (t :: rest) = .ok (p, r)) :
    atOperandEnd rest = true ∧ p = left ∧ r = rest ∨
      atOperandEnd rest = false ∧ ∃ n right others, fuel = n + 1 ∧
        expression g n depth 2 rest = .ok (right, others) ∧
        climb g n depth 0 (left.andThen right) others = .ok (p, r) := by
  have hsequence : g.lang.binary? t.surface = some ⟨1, .left, .sequences⟩ :=
    ht.2 ▸ hlang.sequence
  obtain ⟨n, hn, hround⟩ := climb_cases h
  cases hround with
  | ends hends =>
    obtain ⟨op, hop, hlt⟩ := hends t rfl ht.1
    exact absurd hlt (Nat.not_lt_zero _)
  | trailing _ _ _ _ hend => exact Or.inl ⟨hend, rfl, rfl⟩
  | @operator _ _ others op right joined _ _ hop _ hend hright hjoined hclimb =>
    rw [hsequence] at hop
    cases hop
    have hrest : atOperandEnd rest = false := by
      rw [Bool.eq_false_iff] at hend ⊢
      exact fun hatEnd => hend (trailing_iff.mpr ⟨rfl, hatEnd⟩)
    obtain ⟨_, hjoins⟩ := combine_ok hjoined
    cases hjoins
    exact Or.inr ⟨hrest, n, right, others, hn, hright, hclimb⟩

end Separating

/-! ## Statements on their own -/

/-- The tokens are read, to their end, as this one statement. -/
def Alone (g : Setting) (tokens : List Token) (q : Parsed) : Prop :=
  ∃ fuel depth, expression g fuel depth 2 tokens = .ok (q, [])

theorem Spans.ne_empty {taken : List Token} (h : Spans g depth taken p) :
    p.tree ≠ .sequence [] := by
  induction h with
  | single _ h =>
    rcases single_ok h with ⟨_, htree⟩ | ⟨_, x, htree⟩ | ⟨_, s, htree⟩ <;> rw [htree] <;> nofun
  | parentheses _ _ _ _ ih => exact ih
  | unary => nofun
  | call => nofun
  | @join _ _ _ _ op left right _ _ _ _ _ _ h =>
    generalize op.role = role at h
    cases h with
    | sequences => exact Parsed.andThen_ne_empty left right
    | evaluates | assigns | defines => nofun
  | trailing _ _ _ _ ih => exact ih

theorem atOperandEnd_append (h : atOperandEnd tokens = false) (more : List Token) :
    atOperandEnd (tokens ++ more) = false := by
  cases tokens with
  | nil => cases h
  | cons t tokens => exact h

theorem Spans.atOperandEnd {taken : List Token} (h : Spans g depth taken p) :
    atOperandEnd taken = false := by
  induction h with
  | single _ h =>
    rcases single_ok h with ⟨hkind, _⟩ | ⟨hkind | hkind, _⟩ | ⟨hkind, _⟩ <;>
      simp [Reader.atOperandEnd, hkind]
  | parentheses _ hopening => simp [Reader.atOperandEnd, hopening]
  | unary _ ht => simp [Reader.atOperandEnd, ht]
  | call _ ht => simp [Reader.atOperandEnd, ht]
  | join _ _ _ _ _ _ ih _ => exact atOperandEnd_append ih _
  | trailing _ _ _ _ ih => exact atOperandEnd_append ih _

namespace Alone

variable {tokens : List Token} {q : Parsed} (h : Alone g tokens q)

include h

theorem spans : Spans g 0 tokens q := by
  obtain ⟨fuel, depth, hread⟩ := h
  obtain ⟨taken, rfl, _, _, hretakes⟩ := (takes g fuel).expression hread
  have hagain := hretakes.again (Nat.min_le_left fuel _) (Nat.zero_le _) (.self [])
  obtain ⟨taken', htaken, hspans, _⟩ := (takes g fuel).expression hagain
  rw [htaken, List.append_nil]
  exact hspans

theorem endsOperand (hlang : g.lang.Separates) : EndsOperand tokens := by
  obtain ⟨fuel, depth, hread⟩ := h
  obtain ⟨taken, rfl, _, hends, _⟩ := (takes g fuel).expression hread
  simpa using hends hlang (Nat.le_refl 2)

/-- A statement is read so again before whatever cannot belong to it. -/
theorem eq_of_reads (hmore : Stops g 2 more)
    (hx : expression g fuel depth 2 (tokens ++ more) = .ok x) : x = (q, more) := by
  obtain ⟨fuel', depth', hread⟩ := h
  obtain ⟨taken, rfl, _, _, hretakes⟩ := (takes g fuel').expression hread
  rw [List.append_nil] at hx
  exact expression_unique (hretakes.again (Nat.le_refl _) (Nat.le_refl _) (Or.inr hmore)) hx

end Alone

theorem alone_of_reads {q : Parsed} (h : expression g fuel depth 2 tokens = .ok (q, rest)) :
    ∃ segment, tokens = segment ++ rest ∧ Alone g segment q := by
  obtain ⟨segment, rfl, _, _, hretakes⟩ := (takes g fuel).expression h
  have hread : expression g fuel 0 2 (segment ++ []) = .ok (q, []) :=
    hretakes.again (by omega) (Nat.zero_le _) (Or.inr (Or.inl rfl))
  exact ⟨segment, rfl, fuel, 0, by simpa using hread⟩

/-- The tokens are statements with `;` between two of them, and perhaps behind the last. -/
inductive Chained (g : Setting) : List Token → List (List Token) → List Parsed → Prop
  | last {segment : List Token} {q : Parsed} (h : Alone g segment q) :
      Chained g segment [segment] [q]
  | trailing {segment : List Token} {q : Parsed} {t : Token} (h : Alone g segment q)
      (ht : IsSemicolon t) : Chained g (segment ++ [t]) [segment] [q]
  | cons {segment rest : List Token} {q : Parsed} {t : Token} {segments : List (List Token)}
      {qs : List Parsed} (h : Alone g segment q) (ht : IsSemicolon t)
      (hrest : Chained g rest segments qs) :
      Chained g (segment ++ t :: rest) (segment :: segments) (q :: qs)

theorem Chained.atOperandEnd (h : Chained g tokens segments qs) : atOperandEnd tokens = false := by
  cases h with
  | last h => exact h.spans.atOperandEnd
  | trailing h _ => exact atOperandEnd_append h.spans.atOperandEnd _
  | cons h _ _ => exact atOperandEnd_append h.spans.atOperandEnd _

theorem Chained.alone (h : Chained g tokens segments qs) : List.Forall₂ (Alone g) segments qs := by
  induction h with
  | last h => exact .cons h .nil
  | trailing h _ => exact .cons h .nil
  | cons h _ _ ih => exact .cons h ih

/-- Whatever is read to its end is a chain of statements. -/
theorem chained_of_climb (hlang : g.lang.Separates) {fuel' : Nat} {q : Parsed}
    (hread : expression g fuel depth 2 tokens = .ok (q, rest))
    (hclimb : climb g fuel' depth 0 left rest = .ok (p, [])) :
    ∃ segments qs, Chained g tokens segments qs := by
  induction fuel' generalizing fuel q left tokens rest with
  | zero =>
    rw [climb] at hclimb
    cases hclimb
  | succ fuel' ih =>
    obtain ⟨segment, rfl, halone⟩ := alone_of_reads hread
    rcases rest with _ | ⟨t, rest⟩
    · exact ⟨[segment], [q], by simpa using Chained.last halone⟩
    -- A climb that leaves nothing goes on with an operator, and the statement stopped before it.
    have hsemicolon : IsSemicolon t := by
      have hends := ends_of_expression hread
      obtain ⟨n, _, hround⟩ := climb_cases hclimb
      cases hround with
      | trailing ht hop _ hrole _ => exact ⟨ht, (hlang.eq_of_sequences hop hrole).1⟩
      | operator ht hop _ _ _ _ _ =>
        refine ⟨ht, ?_⟩
        by_contra hsurface
        obtain ⟨op, hop, hlt⟩ := hends t rfl ht
        have htwo := (hlang.binary hop hsurface).1
        omega
    rcases climb_semicolon hlang hsemicolon hclimb with
      ⟨_, _, hnil⟩ | ⟨_, n, right, others, hn, hright, hon⟩
    · exact ⟨[segment], [q], hnil ▸ .trailing halone hsemicolon⟩
    · cases hn
      obtain ⟨segments, qs, hchained⟩ := ih hright hon
      exact ⟨segment :: segments, q :: qs, .cons halone hsemicolon hchained⟩

theorem chained_of_expression (hlang : g.lang.Separates)
    (h : expression g fuel depth 0 tokens = .ok (p, [])) :
    ∃ segments qs, Chained g tokens segments qs := by
  obtain ⟨q, rest, fuel', hread, hclimb⟩ := expression_factor hlang h
  exact chained_of_climb hlang hread hclimb

/-! ## What follows a chain -/

/-- What may come behind some tokens: the end of an operand, or a `;`, which is an operator where
the tokens end an operand. -/
def Follows (tokens more : List Token) : Prop :=
  atOperandEnd more = true ∨ ∃ t rest, more = t :: rest ∧ t.surface = ";" ∧
    t.kind = .ofSign (tokens.getLast?.map (·.kind))

theorem EndsOperand.ofSign (h : EndsOperand tokens) (hne : tokens ≠ []) :
    TokenKind.ofSign (tokens.getLast?.map (·.kind)) = .operator := by
  have hlast := h (tokens.getLast hne) (List.getLast?_eq_some_getLast hne)
  rw [List.getLast?_eq_some_getLast hne, Option.map_some]
  generalize (tokens.getLast hne).kind = kind at hlast ⊢
  cases kind with
  | operator | unary | opening | comma => cases hlast
  | _ => rfl

theorem Follows.stops (hlang : g.lang.Separates) (h : Follows tokens more)
    (hends : EndsOperand tokens) (hne : tokens ≠ []) : Stops g 2 more := by
  rcases h with hend | ⟨t, rest, rfl, hsurface, hkind⟩
  · exact Or.inl hend
  · rw [hends.ofSign hne] at hkind
    exact Or.inr ⟨hlang, Nat.le_refl 2, t, rest, rfl, hkind, hsurface⟩

/-- To go on so with a statement puts these steps before its own. -/
def Adds (K : Parsed → Parsed) (before : List Expr) : Prop :=
  ∀ q, q.tree ≠ .sequence [] →
    (K q).tree ≠ .sequence [] ∧ (K q).tree.steps = before ++ q.tree.steps

theorem adds_id : Adds id [] := fun _ hq => ⟨hq, rfl⟩

theorem adds_andThen (h : left.tree ≠ .sequence []) :
    Adds left.andThen left.tree.steps := fun right _ =>
  ⟨Parsed.andThen_ne_empty left right, Parsed.steps_andThen left right h⟩

/-- The tokens are read step by step: what is read before them grows by the steps of these
statements, and behind them the reader goes on. -/
structure DoesSteps (g : Setting) (tokens : List Token) (qs : List Parsed) : Prop where
  starts : atOperandEnd tokens = false
  goesOn : ∀ {more : List Token}, Follows tokens more →
    ∀ {K : Parsed → Parsed} {before : List Expr}, Adds K before →
    ∀ {fuel fuel' depth : Nat} {q p : Parsed} {rest r : List Token},
      expression g fuel depth 2 (tokens ++ more) = .ok (q, rest) →
      climb g fuel' depth 0 (K q) rest = .ok (p, r) →
      Stops g 2 more ∧ ∃ left n, left.tree ≠ .sequence [] ∧
        left.tree.steps = before ++ qs.flatMap (·.tree.steps) ∧
        climb g n depth 0 left more = .ok (p, r)

theorem getLast?_chain (first : List Token) (t : Token) {second : List Token}
    (hne : second ≠ []) : (first ++ t :: second).getLast? = second.getLast? := by
  rw [List.getLast?_append_of_ne_nil _ (List.cons_ne_nil t second),
    List.getLast?_cons_of_ne_nil hne]

theorem stops_semicolon (hlang : g.lang.Separates) (ht : IsSemicolon t) (rest : List Token) :
    Stops g 2 (t :: rest) :=
  Or.inr ⟨hlang, Nat.le_refl 2, t, rest, rfl, ht.1, ht.2⟩

/-- A climb that has nowhere to go. -/
theorem eq_of_climb (hends : Ends g least tokens)
    (h : climb g fuel depth least left tokens = .ok x) : x = (left, tokens) := by
  obtain ⟨n, rfl, _⟩ := climb_cases h
  rw [climb_of_ends hends] at h
  exact (Except.ok.inj h).symm

section Separating

variable (hlang : g.lang.Separates)

include hlang

theorem Alone.doesSteps {q : Parsed} (h : Alone g tokens q) : DoesSteps g tokens [q] := by
  refine ⟨h.spans.atOperandEnd, fun hmore K before hK fuel fuel' depth q' p rest r hread hclimb =>
    ?_⟩
  have hstops := hmore.stops hlang (h.endsOperand hlang) h.spans.ne_nil
  cases h.eq_of_reads hstops hread
  obtain ⟨hempty, hsteps⟩ := hK q h.spans.ne_empty
  exact ⟨hstops, K q, fuel', hempty, by simpa using hsteps, hclimb⟩

theorem Alone.doesSteps_trailing {q : Parsed} (h : Alone g tokens q) (ht : IsSemicolon t) :
    DoesSteps g (tokens ++ [t]) [q] := by
  refine ⟨atOperandEnd_append h.spans.atOperandEnd _,
    fun {more} hmore K before hK fuel fuel' depth q' p rest r hread hclimb => ?_⟩
  rw [List.append_assoc, List.singleton_append] at hread
  cases h.eq_of_reads (stops_semicolon hlang ht more) hread
  obtain ⟨hempty, hsteps⟩ := hK q h.spans.ne_empty
  rcases climb_semicolon hlang ht hclimb with
    ⟨hend, rfl, rfl⟩ | ⟨hend, n, right, others, _, hright, _⟩
  · exact ⟨Or.inl hend, K q, 1, hempty, by simpa using hsteps,
      climb_of_ends (ends_of_atOperandEnd hend 0) 0 depth (K q)⟩
  · -- Behind a `;` another one would be an operator before an operand, of which there is none.
    rcases hmore with hend' | ⟨u, rest, rfl, hsurface, hkind⟩
    · rw [hend] at hend'
      cases hend'
    · have hunary : u.kind = .unary := by
        rw [hkind, List.getLast?_concat, Option.map_some, ht.1]
        rfl
      exact absurd hright (expression_of_unary_unknown hunary (hsurface ▸ hlang.notUnary))

/-- Statements behind others. -/
theorem DoesSteps.chain {first second : List Token} {qs' : List Parsed}
    (hfirst : DoesSteps g first qs) (hsecond : DoesSteps g second qs') (hsurface : t.surface = ";")
    (hkind : t.kind = .ofSign (first.getLast?.map (·.kind))) :
    DoesSteps g (first ++ t :: second) (qs ++ qs') := by
  refine ⟨atOperandEnd_append hfirst.starts _,
    fun {more} hmore K before hK fuel fuel' depth q p rest r hread hclimb => ?_⟩
  rw [List.append_assoc, List.cons_append] at hread
  obtain ⟨hstops, left, n, hleft, hsteps, hclimb⟩ :=
    hfirst.goesOn (Or.inr ⟨t, _, rfl, hsurface, hkind⟩) hK hread hclimb
  have ht : IsSemicolon t := by
    rcases hstops with hend | ⟨_, _, u, _, heq, hu⟩
    · rcases TokenKind.ofSign_cases (first.getLast?.map (·.kind)) with hsign | hsign <;>
        simp [atOperandEnd, hkind, hsign] at hend
    · cases heq
      exact hu
  have hstarts := atOperandEnd_append hsecond.starts more
  rcases climb_semicolon hlang ht hclimb with ⟨hend, _⟩ | ⟨_, n, right, others, _, hright, hon⟩
  · rw [hstarts] at hend
    cases hend
  have hmore' : Follows second more := by
    have hne : second ≠ [] := by
      rintro rfl
      cases hsecond.starts
    simpa only [Follows, getLast?_chain first t hne] using hmore
  obtain ⟨hstops', left', m, hleft', hsteps', hclimb'⟩ :=
    hsecond.goesOn hmore' (adds_andThen hleft) hright hon
  refine ⟨hstops', left', m, hleft', ?_, hclimb'⟩
  rw [hsteps', hsteps, List.flatMap_append, List.append_assoc]

/-- Statements in parentheses. -/
theorem DoesSteps.parentheses {inside : List Token} (h : DoesSteps g inside qs)
    {opening closing : Token} (hopening : opening.kind = .opening)
    (hclosing : closing.kind = .closing) : DoesSteps g (opening :: (inside ++ [closing])) qs := by
  refine ⟨by simp [atOperandEnd, hopening],
    fun {more} hmore K before hK fuel fuel' depth q p rest r hread hclimb => ?_⟩
  have hmore' : Stops g 2 more := by
    refine hmore.stops hlang ?_ (List.cons_ne_nil _ _)
    exact endsOperand_concat (opening :: inside) (by rw [hclosing]; rfl)
  rw [List.cons_append, List.append_assoc, List.singleton_append] at hread
  obtain ⟨_, left, others, _, hoperand, hclimb'⟩ := expression_cases hread
  obtain ⟨n, rfl, hdepth⟩ := depth_of_operand hoperand
  rw [operand_of_opening n _ hdepth hopening] at hoperand
  obtain ⟨⟨inner, after⟩, hinner, hclose⟩ := of_bind_ok hoperand
  -- What stands inside is read up to the parenthesis that closes it.
  obtain ⟨q', rest', _, hread', hon⟩ := expression_factor hlang hinner
  have hend : atOperandEnd (closing :: more) = true := by simp [atOperandEnd, hclosing]
  obtain ⟨_, left', m, hleft', hsteps', hclimb''⟩ := h.goesOn (Or.inl hend) adds_id hread' hon
  cases eq_of_climb (ends_of_atOperandEnd hend 0) hclimb''
  obtain ⟨rfl, rfl⟩ : inner = left ∧ more = others := by simpa [close, hclosing] using hclose
  cases eq_of_climb hmore'.ends hclimb'
  obtain ⟨hempty, hsteps⟩ := hK q hleft'
  exact ⟨hmore', K q, fuel', hempty, by rw [hsteps, hsteps', List.nil_append], hclimb⟩

theorem Chained.doesSteps (h : Chained g tokens segments qs) : DoesSteps g tokens qs := by
  induction h with
  | last h => exact h.doesSteps hlang
  | trailing h ht => exact h.doesSteps_trailing hlang ht
  | cons h ht _ ih =>
    refine (h.doesSteps hlang).chain hlang ih ht.2 (ht.1.trans ?_)
    exact ((h.endsOperand hlang).ofSign h.spans.ne_nil).symm

/-- What is read to its end does the steps and no more. -/
theorem DoesSteps.steps_eq (h : DoesSteps g tokens qs)
    (hread : expression g fuel depth 0 tokens = .ok (p, [])) :
    p.tree.steps = qs.flatMap (·.tree.steps) := by
  rw [← List.append_nil tokens] at hread
  obtain ⟨q, rest, fuel', hq, hclimb⟩ := expression_factor hlang hread
  obtain ⟨_, left, n, _, hsteps, hon⟩ := h.goesOn (Or.inl rfl) adds_id hq hclimb
  cases eq_of_climb (ends_of_atOperandEnd rfl 0) hon
  exact hsteps

/-! ## A `;` behind the last statement -/

theorem Chained.endsOperand (h : Chained g tokens segments qs)
    (hlast : ∀ t ∈ tokens.getLast?, ¬ IsSemicolon t) : EndsOperand tokens := by
  induction h with
  | last h => exact h.endsOperand hlang
  | @trailing segment q t h ht => exact absurd ht (hlast t (by simp))
  | @cons segment rest q t segments qs h ht hrest ih =>
    have hne : rest ≠ [] := by
      rintro rfl
      cases hrest.atOperandEnd
    unfold EndsOperand
    rw [getLast?_chain segment t hne] at hlast ⊢
    exact ih hlast

theorem resumes_concat (ht : IsSemicolon t) (hleast : 2 ≤ least) (rest : List Token) :
    Resumes g least rest (rest ++ [t]) := by
  cases rest with
  | nil => exact Or.inr (Or.inr ⟨hlang, hleast, t, [], rfl, ht.1, ht.2⟩)
  | cons u rest => exact Or.inl rfl

/-- A climb to the end of the tokens goes over one more `;`, unless the last one was such. -/
theorem climb_concat (ht : IsSemicolon t) {f : Nat} (hf : fuel ≤ f)
    (h : climb g fuel depth 0 left tokens = .ok (p, []))
    (hlast : ∀ u ∈ tokens.getLast?, ¬ IsSemicolon u) :
    climb g f depth 0 left (tokens ++ [t]) = .ok (p, []) := by
  induction fuel generalizing f left tokens with
  | zero =>
    rw [climb] at h
    cases h
  | succ fuel ih =>
    obtain ⟨f, rfl⟩ : ∃ n, f = n + 1 := ⟨f - 1, by omega⟩
    obtain ⟨n, hn, hround⟩ := climb_cases h
    cases hn
    cases hround with
    | ends =>
      exact climb_of_trailing f depth ht.1 (ht.2 ▸ hlang.sequence) (Nat.not_lt_zero _)
        (trailing_iff.mpr ⟨rfl, rfl⟩)
    | @trailing u _ op hu hop _ hrole _ =>
      exact absurd ⟨hu, (hlang.eq_of_sequences hop hrole).1⟩ (hlast u rfl)
    | @operator u rest others op right joined _ hu hop _ hend hright hjoined hclimb =>
      obtain ⟨taken, rfl, hspans, _, hretakes⟩ := (takes g fuel).expression hright
      have hend' : trailing op (taken ++ (others ++ [t])) = false := by
        rw [trailing_append hspans.ne_nil] at hend ⊢
        exact hend
      have hright' : expression g f depth (rightLeast op) (taken ++ (others ++ [t])) =
          .ok (right, others ++ [t]) := hretakes.again (by omega) (Nat.le_refl _)
        (resumes_concat hlang ht (two_le_rightLeast hlang hop) others)
      have hothers : ∀ v ∈ others.getLast?, ¬ IsSemicolon v := by
        intro v hv
        rw [← List.cons_append] at hlast
        exact hlast v (List.mem_getLast?_append_of_mem_getLast? hv)
      rw [List.cons_append, List.append_assoc,
        climb_of_operator f depth hu hop (Nat.not_lt_zero _) hend', hright']
      simp only [bind, Except.bind, hjoined]
      exact ih (by omega) hclimb hothers

theorem expression_concat (ht : IsSemicolon t) {f : Nat} (hf : fuel ≤ f)
    (h : expression g fuel depth 0 tokens = .ok (p, []))
    (hlast : ∀ u ∈ tokens.getLast?, ¬ IsSemicolon u) :
    expression g f depth 0 (tokens ++ [t]) = .ok (p, []) := by
  obtain ⟨fuel, left, rest, rfl, hoperand, hclimb⟩ := expression_cases h
  obtain ⟨f, rfl⟩ : ∃ n, f = n + 1 := ⟨f - 1, by omega⟩
  obtain ⟨taken, rfl, _, _, hretakes⟩ := (takes g fuel).operand hoperand
  have hoperand' : operand g f depth (taken ++ (rest ++ [t])) = .ok (left, rest ++ [t]) :=
    hretakes.again (by omega) (Nat.le_refl _)
      (Or.inr ⟨2, resumes_concat hlang ht (Nat.le_refl 2) rest⟩)
  have hrest : ∀ u ∈ rest.getLast?, ¬ IsSemicolon u := fun u hu =>
    hlast u (List.mem_getLast?_append_of_mem_getLast? hu)
  rw [expression_succ, List.append_assoc, hoperand']
  exact climb_concat hlang ht (by omega) hclimb hrest

end Separating

end Reader

end TickScript
