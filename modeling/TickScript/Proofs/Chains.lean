-- Chains of statements. However many statements there are, they become one sequence; whether they
-- are accepted depends on how high each of them is, and on whether there are more than two.
import TickScript.Proofs.Grouping
import TickScript.Proofs.Nesting

namespace TickScript

variable {first : Parsed} {items : List Expr} {fuel depth : Nat} {tokens more : List Token}
  {x : Parsed × List Token} {t : Token}

/-! ## Room for one more level -/

namespace Parsed

theorem andThen_of_sequence (h : first.tree = .sequence items) (next : Parsed) :
    first.andThen next =
      ⟨.sequence (items ++ [next.tree]), max first.height (next.height + 1)⟩ := by
  simp only [andThen, h]

theorem andThen_of_single (h : ∀ items, first.tree ≠ .sequence items) (next : Parsed) :
    first.andThen next =
      ⟨.sequence [first.tree, next.tree], max (first.height + 1) (next.height + 1)⟩ := by
  unfold andThen
  split
  · rename_i items htree
    exact absurd htree (h items)
  · rfl

/-- The statements may be added one by one: each time there is room for a level above the higher
one of what has been read and what comes. -/
def Fits : Parsed → List Parsed → Prop
  | _, [] => True
  | first, next :: rest =>
    max first.height next.height + 1 ≤ maxNesting ∧ (first.andThen next).Fits rest

/-- What is to be added to a sequence needs room for two levels, unless it comes last. -/
theorem fits_sequence (h : first.tree = .sequence items) (next : Parsed) (rest : List Parsed) :
    first.Fits (next :: rest) ↔ first.height + 1 ≤ maxNesting ∧
      (∀ q ∈ (next :: rest).dropLast, q.height + 2 ≤ maxNesting) ∧
      ∀ q ∈ (next :: rest).getLast?, q.height + 1 ≤ maxNesting := by
  induction rest generalizing first items next with
  | nil =>
    simp only [Fits, List.dropLast_singleton, List.not_mem_nil, false_implies, implies_true,
      List.getLast?_singleton, Option.mem_some_iff, forall_eq', and_true, true_and]
    omega
  | cons another rest ih =>
    have hsequence : (first.andThen next).tree = .sequence (items ++ [next.tree]) := by
      rw [andThen_of_sequence h]
    have hheight : (first.andThen next).height = max first.height (next.height + 1) := by
      rw [andThen_of_sequence h]
    rw [Fits, ih hsequence another, hheight, List.dropLast_cons_cons, List.forall_mem_cons,
      List.getLast?_cons_cons]
    constructor
    · rintro ⟨_, hroom, hrest, hlast⟩
      exact ⟨by omega, ⟨by omega, hrest⟩, hlast⟩
    · rintro ⟨hfirst, ⟨hnext, hrest⟩, hlast⟩
      exact ⟨by omega, by omega, hrest, hlast⟩

/-- In a chain of two statements each needs room for one level. In a longer one the level of the
sequence is counted twice, and all but the last statement need room for two. -/
theorem fits_single (h : ∀ items, first.tree ≠ .sequence items) (next : Parsed)
    (rest : List Parsed) :
    first.Fits (next :: rest) ↔
      (∀ q ∈ (first :: next :: rest).dropLast,
        q.height + (if rest = [] then 1 else 2) ≤ maxNesting) ∧
      ∀ q ∈ (first :: next :: rest).getLast?, q.height + 1 ≤ maxNesting := by
  rw [Fits, List.dropLast_cons_cons, List.forall_mem_cons, List.getLast?_cons_cons]
  cases rest with
  | nil =>
    simp only [Fits, List.dropLast_singleton, List.not_mem_nil, false_implies, implies_true,
      List.getLast?_singleton, Option.mem_some_iff, forall_eq', and_true, ↓reduceIte]
    omega
  | cons another rest =>
    have hsequence : (first.andThen next).tree = .sequence [first.tree, next.tree] := by
      rw [andThen_of_single h]
    have hheight : (first.andThen next).height = max (first.height + 1) (next.height + 1) := by
      rw [andThen_of_single h]
    rw [fits_sequence hsequence, hheight, List.dropLast_cons_cons, List.forall_mem_cons,
      List.getLast?_cons_cons, if_neg (List.cons_ne_nil another rest)]
    constructor
    · rintro ⟨_, hroom, hrest, hlast⟩
      exact ⟨⟨by omega, by omega, hrest⟩, hlast⟩
    · rintro ⟨⟨hfirst, hnext, hrest⟩, hlast⟩
      exact ⟨by omega, by omega, hrest, hlast⟩

theorem tree_foldl_andThen (h : first.tree = .sequence items) (rest : List Parsed) :
    (rest.foldl andThen first).tree = .sequence (items ++ rest.map Parsed.tree) := by
  induction rest generalizing first items with
  | nil => simpa using h
  | cons next rest ih =>
    have hsequence : (first.andThen next).tree = .sequence (items ++ [next.tree]) := by
      rw [andThen_of_sequence h]
    rw [List.foldl_cons, ih hsequence, List.map_cons, List.append_assoc, List.singleton_append]

/-- A chain is one sequence, however long it is. -/
theorem tree_chain (h : ∀ items, first.tree ≠ .sequence items) (next : Parsed)
    (rest : List Parsed) :
    ((next :: rest).foldl andThen first).tree =
      .sequence ((first :: next :: rest).map Parsed.tree) := by
  have hsequence : (first.andThen next).tree = .sequence [first.tree, next.tree] := by
    rw [andThen_of_single h]
  rw [List.foldl_cons, tree_foldl_andThen hsequence]
  rfl

end Parsed

theorem Expr.steps_of_single {e : Expr} (h : ∀ items, e ≠ .sequence items) : e.steps = [e] := by
  cases e with
  | sequence items => exact absurd rfl (h items)
  | number | text | var | unary | binary | call | define => simp [Expr.steps]

namespace Reader

variable {g : Setting}

/-! ## With enough fuel -/

theorem expression_mono {f least : Nat} (h : expression g fuel depth least tokens = .ok x)
    (hf : fuel ≤ f) : expression g f depth least tokens = .ok x := by
  obtain ⟨p, r⟩ := x
  obtain ⟨taken, rfl, _, _, hretakes⟩ := (takes g fuel).expression h
  exact hretakes.again (by omega) (Nat.le_refl _) (.self r)

theorem climb_mono {f least : Nat} {left : Parsed}
    (h : climb g fuel depth least left tokens = .ok x) (hf : fuel ≤ f) :
    climb g f depth least left tokens = .ok x := by
  obtain ⟨p, r⟩ := x
  obtain ⟨taken, rfl, _, _, hretakes⟩ := (takes g fuel).climb h
  exact hretakes.again (by omega) (Nat.le_refl _) (.self r)

/-- After a statement of the script, the reader comes to this. -/
def GoesOn (g : Setting) (left : Parsed) (tokens : List Token) (x : Parsed × List Token) : Prop :=
  ∃ fuel, climb g fuel 0 0 left tokens = .ok x

theorem goesOn_of_ends (h : Ends g 0 tokens) (left : Parsed) (x : Parsed × List Token) :
    GoesOn g left tokens x ↔ x = (left, tokens) := by
  constructor
  · rintro ⟨fuel, hclimb⟩
    exact eq_of_climb h hclimb
  · rintro rfl
    exact ⟨1, climb_of_ends h 0 0 left⟩

section Separating

variable (hlang : g.lang.Separates)

include hlang

/-- A `;` at the end of the script is passed over. -/
theorem goesOn_trailing (ht : IsSemicolon t) (left : Parsed) (x : Parsed × List Token) :
    GoesOn g left [t] x ↔ x = (left, []) := by
  have htrailing : ∀ fuel, climb g (fuel + 1) 0 0 left [t] = .ok (left, []) := fun fuel =>
    climb_of_trailing fuel 0 ht.1 (ht.2 ▸ hlang.sequence) (Nat.not_lt_zero _)
      (trailing_iff.mpr ⟨rfl, rfl⟩)
  constructor
  · rintro ⟨fuel, hclimb⟩
    obtain ⟨n, rfl, _⟩ := climb_cases hclimb
    rw [htrailing] at hclimb
    exact (Except.ok.inj hclimb).symm
  · rintro rfl
    exact ⟨1, htrailing 0⟩

/-- The first `;` of two is an operator, and then the second one is none. -/
theorem not_goesOn_twice {u : Token} (ht : IsSemicolon t) (hu : u.kind = .unary)
    (hsurface : u.surface = ";") (left : Parsed) (rest : List Token) (x : Parsed × List Token) :
    ¬ GoesOn g left (t :: u :: rest) x := by
  rintro ⟨fuel, hclimb⟩
  obtain ⟨p, r⟩ := x
  rcases climb_semicolon hlang ht hclimb with ⟨hend, _⟩ | ⟨_, n, right, others, _, hright, _⟩
  · simp [atOperandEnd, hu] at hend
  · exact expression_of_unary_unknown hu (hsurface ▸ hlang.notUnary) hright

/-- A reading of the first statement that goes on is a reading of statements. -/
theorem climb_of_factor {fuel' : Nat} {left q : Parsed} {rest : List Token}
    (h : climb g fuel depth 2 left tokens = .ok (q, rest))
    (hon : climb g fuel' depth 0 q rest = .ok x) : ∃ f, climb g f depth 0 left tokens = .ok x := by
  induction fuel generalizing left tokens with
  | zero =>
    rw [climb] at h
    cases h
  | succ fuel ih =>
    obtain ⟨n, hn, hround⟩ := climb_cases h
    cases hn
    cases hround with
    | ends => exact ⟨fuel', hon⟩
    | trailing _ hop hleast hrole _ =>
      obtain ⟨_, rfl⟩ := hlang.eq_of_sequences hop hrole
      exact absurd hleast (by decide)
    | operator ht hop _ hend hright hjoined hclimb =>
      obtain ⟨f, hf⟩ := ih hclimb
      refine ⟨max fuel f + 1, ?_⟩
      rw [climb_of_operator _ depth ht hop (Nat.not_lt_zero _) hend,
        expression_mono hright (Nat.le_max_left fuel f)]
      simp only [bind, Except.bind, hjoined]
      exact climb_mono hf (Nat.le_max_right fuel f)

theorem expression_of_factor {fuel' : Nat} {q : Parsed} {rest : List Token}
    (h : expression g fuel depth 2 tokens = .ok (q, rest))
    (hon : climb g fuel' depth 0 q rest = .ok x) : ∃ f, expression g f depth 0 tokens = .ok x := by
  obtain ⟨n, left, others, rfl, hoperand, hclimb⟩ := expression_cases h
  obtain ⟨f, hf⟩ := climb_of_factor hlang hclimb hon
  refine ⟨max n f + 1, ?_⟩
  obtain ⟨taken, rfl, _, _, hretakes⟩ := (takes g n).operand hoperand
  have hoperand' : operand g (max n f) depth (taken ++ others) = .ok (left, others) :=
    hretakes.again (by omega) (Nat.le_refl _) (Or.inr ⟨0, .self others⟩)
  rw [expression_succ, hoperand']
  exact climb_mono hf (Nat.le_max_right n f)

end Separating

/-! ## From statement to statement -/

namespace Alone

variable {segment : List Token} {q : Parsed} (halone : Alone g segment q)

include halone

theorem expression_of_stops (hmore : Stops g 2 more) :
    ∃ fuel, expression g fuel 0 2 (segment ++ more) = .ok (q, more) := by
  obtain ⟨fuel, depth, hread⟩ := halone
  obtain ⟨taken, rfl, _, _, hretakes⟩ := (takes g fuel).expression hread
  refine ⟨fuel, ?_⟩
  rw [List.append_nil]
  exact hretakes.again (by omega) (Nat.zero_le _) (Or.inr hmore)

/-- A script is read as its first statement and what comes behind it. -/
theorem expression_iff (hlang : g.lang.Separates) (hmore : Stops g 2 more)
    (x : Parsed × List Token) :
    (∃ fuel, expression g fuel 0 0 (segment ++ more) = .ok x) ↔ GoesOn g q more x := by
  constructor
  · rintro ⟨fuel, hread⟩
    obtain ⟨p, r⟩ := x
    obtain ⟨first, rest, fuel', hfirst, hclimb⟩ := expression_factor hlang hread
    cases halone.eq_of_reads hmore hfirst
    exact ⟨fuel', hclimb⟩
  · rintro ⟨fuel, hclimb⟩
    obtain ⟨fuel', hfirst⟩ := halone.expression_of_stops hmore
    exact expression_of_factor hlang hfirst hclimb

/-- Behind a `;` the next statement is added, if there is room for a level above both. -/
theorem goesOn_iff (hlang : g.lang.Separates) (ht : IsSemicolon t) (hmore : Stops g 2 more)
    (left : Parsed) (x : Parsed × List Token) :
    GoesOn g left (t :: (segment ++ more)) x ↔
      max left.height q.height + 1 ≤ maxNesting ∧ GoesOn g (left.andThen q) more x := by
  have hend : trailing ⟨1, .left, .sequences⟩ (segment ++ more) = false := by
    rw [Bool.eq_false_iff]
    intro htrailing
    have hatEnd := atOperandEnd_append halone.spans.atOperandEnd more
    rw [(trailing_iff.mp htrailing).2] at hatEnd
    cases hatEnd
  have hsequence : g.lang.binary? t.surface = some ⟨1, .left, .sequences⟩ :=
    ht.2 ▸ hlang.sequence
  constructor
  · rintro ⟨fuel, hclimb⟩
    obtain ⟨n, rfl, _⟩ := climb_cases hclimb
    rw [climb_of_operator n 0 ht.1 hsequence (Nat.not_lt_zero _) hend] at hclimb
    obtain ⟨right, hright, hclimb⟩ := of_bind_ok hclimb
    cases halone.eq_of_reads hmore hright
    obtain ⟨joined, hjoined, hclimb⟩ := of_bind_ok hclimb
    obtain ⟨hroom, hjoins⟩ := combine_ok hjoined
    cases hjoins
    exact ⟨hroom, n, hclimb⟩
  · rintro ⟨hroom, fuel, hclimb⟩
    obtain ⟨fuel', hright⟩ := halone.expression_of_stops hmore
    refine ⟨max fuel fuel' + 1, ?_⟩
    have hjoined : combine g ⟨1, .left, .sequences⟩ t left q = .ok (left.andThen q) :=
      combine_of_joins hroom .sequences
    rw [climb_of_operator _ 0 ht.1 hsequence (Nat.not_lt_zero _) hend,
      show rightLeast ⟨1, .left, .sequences⟩ = 2 from rfl,
      expression_mono hright (Nat.le_max_right fuel fuel')]
    simp only [bind, Except.bind, hjoined]
    exact climb_mono hclimb (Nat.le_max_left fuel fuel')

end Alone

/-! ## Statements in a row -/

instance : DecidablePred IsSemicolon := fun t =>
  inferInstanceAs (Decidable (t.kind = .operator ∧ t.surface = ";"))

/-- The tokens are one statement, with a `;` of its own behind it or not. -/
inductive Stated (g : Setting) : List Token → Parsed → Bool → Prop
  | bare {tokens : List Token} {q : Parsed} (h : Alone g tokens q) : Stated g tokens q false
  | trailing {tokens : List Token} {q : Parsed} {t : Token} (h : Alone g tokens q)
      (ht : IsSemicolon t) : Stated g (tokens ++ [t]) q true

theorem Stated.trails_eq (hlang : g.lang.Separates) {q : Parsed} {trails : Bool}
    (h : Stated g tokens q trails) :
    (tokens.getLast?.any fun t => decide (IsSemicolon t)) = trails := by
  cases h with
  | bare h =>
    rw [List.getLast?_eq_some_getLast h.spans.ne_nil, Option.any_some, decide_eq_false_iff_not]
    intro hsemicolon
    have hends := h.endsOperand hlang _ (List.getLast?_eq_some_getLast h.spans.ne_nil)
    rw [hsemicolon.1] at hends
    cases hends
  | trailing h ht => simp [ht]

/-- What is read to its end as no sequence is one statement. -/
theorem stated_of_expression (hlang : g.lang.Separates) {p : Parsed}
    (h : expression g fuel 0 0 tokens = .ok (p, [])) (hp : ∀ items, p.tree ≠ .sequence items) :
    ∃ trails, Stated g tokens p trails := by
  obtain ⟨segments, qs, hchained⟩ := chained_of_expression hlang h
  cases hchained with
  | last halone =>
    rw [← List.append_nil tokens] at h
    have hon := (halone.expression_iff hlang (Or.inl rfl) _).mp ⟨fuel, h⟩
    cases (goesOn_of_ends (ends_of_atOperandEnd rfl 0) _ _).mp hon
    exact ⟨false, .bare halone⟩
  | @trailing segment q t halone ht =>
    have hon := (halone.expression_iff hlang (stops_semicolon hlang ht []) _).mp ⟨fuel, h⟩
    cases (goesOn_trailing hlang ht _ _).mp hon
    exact ⟨true, .trailing halone ht⟩
  | @cons segment rest q t segments qs halone ht hrest =>
    -- Two statements are two steps at least, and what is no sequence is one.
    have hsteps := ((Chained.cons halone ht hrest).doesSteps hlang).steps_eq hlang h
    have hqs : qs ≠ [] := by
      rintro rfl
      cases hrest
    obtain ⟨next, others, rfl⟩ := List.exists_cons_of_ne_nil hqs
    have hlength := congrArg List.length hsteps
    have hfirst := List.length_pos_iff.mpr q.tree.steps_ne_nil
    have hnext := List.length_pos_iff.mpr next.tree.steps_ne_nil
    rw [Expr.steps_of_single hp] at hlength
    simp only [List.flatMap_cons, List.length_append, List.length_singleton] at hlength
    omega

/-- A statement is one wherever its lexemes stand. -/
theorem Stated.again {Near : Site → Site → Prop} {h : Setting}
    (hgh : Setting.Alike Near (fun _ _ => True) (fun t u => u.lexeme = t.lexeme) g h)
    {others : List Token} {q : Parsed} {trails : Bool} (hstated : Stated g tokens q trails)
    (hsame : others.map Token.lexeme = tokens.map Token.lexeme) :
    ∃ q', Stated h others q' trails ∧ ParsedAlike Near q q' := by
  cases hstated with
  | bare halone =>
    obtain ⟨fuel, depth, hread⟩ := halone
    obtain ⟨q', hread', halike⟩ := expression_alike hgh hread (forall₂_of_map_eq hsame)
    exact ⟨q', .bare ⟨fuel, depth, hread'⟩, halike⟩
  | trailing halone ht =>
    obtain ⟨fuel, depth, hread⟩ := halone
    rw [List.map_append, List.map_eq_append_iff] at hsame
    obtain ⟨segment, last, rfl, hsegment, hlast⟩ := hsame
    obtain ⟨u, rfl, hu⟩ := List.map_eq_singleton_iff.mp hlast
    obtain ⟨q', hread', halike⟩ := expression_alike hgh hread (forall₂_of_map_eq hsegment)
    exact ⟨q', .trailing ⟨fuel, depth, hread'⟩ (ht.again hu), halike⟩

/-- Statements in a row with a `;` between two, which is an operator or not by what stands before
it. With each statement stands whether it has a `;` of its own. -/
inductive InRow (g : Setting) : List Token → List (Parsed × Bool) → Prop
  | last {tokens : List Token} {q : Parsed} {trails : Bool} (h : Stated g tokens q trails) :
      InRow g tokens [(q, trails)]
  | cons {first rest : List Token} {q : Parsed} {trails : Bool} {t : Token}
      {qs : List (Parsed × Bool)} (h : Stated g first q trails) (hsurface : t.surface = ";")
      (hkind : t.kind = .ofSign (first.getLast?.map (·.kind))) (hrest : InRow g rest qs) :
      InRow g (first ++ t :: rest) ((q, trails) :: qs)

/-- Behind the first of the statements the reader adds the others, if none of them but the last has
a `;` of its own, and if they fit. -/
theorem InRow.split (hlang : g.lang.Separates) {qs : List (Parsed × Bool)} (h : InRow g tokens qs) :
    ∃ segment more first rest, tokens = segment ++ more ∧ qs = first :: rest ∧
      Alone g segment first.1 ∧ Stops g 2 more ∧
      ∀ left p, GoesOn g left more (p, []) ↔
        (∀ q ∈ qs.dropLast, q.2 = false) ∧ left.Fits (rest.map Prod.fst) ∧
          p = (rest.map Prod.fst).foldl Parsed.andThen left := by
  induction h with
  | @last tokens q trails h =>
    cases h with
    | bare halone =>
      refine ⟨tokens, [], (q, false), [], by simp, rfl, halone, Or.inl rfl, fun left p => ?_⟩
      rw [goesOn_of_ends (ends_of_atOperandEnd rfl 0)]
      simp [Parsed.Fits]
    | @trailing segment q t halone ht =>
      refine ⟨segment, [t], (q, true), [], rfl, rfl, halone, stops_semicolon hlang ht [],
        fun left p => ?_⟩
      rw [goesOn_trailing hlang ht]
      simp [Parsed.Fits]
  | @cons tokens others q trails t qs h hsurface hkind hrest ih =>
    obtain ⟨segment, more, first, rest, rfl, rfl, halone, hmore, hiff⟩ := ih
    cases h with
    | bare hfirst =>
      have ht : IsSemicolon t :=
        ⟨hkind.trans ((hfirst.endsOperand hlang).ofSign hfirst.spans.ne_nil), hsurface⟩
      refine ⟨tokens, t :: (segment ++ more), (q, false), first :: rest, rfl, rfl, hfirst,
        stops_semicolon hlang ht _, fun left p => ?_⟩
      rw [halone.goesOn_iff hlang ht hmore, hiff, List.dropLast_cons_cons, List.forall_mem_cons,
        List.map_cons, Parsed.Fits, List.foldl_cons]
      tauto
    | @trailing tokens q u hfirst hu =>
      have hunary : t.kind = .unary := by
        rw [hkind, List.getLast?_concat, Option.map_some, hu.1]
        rfl
      refine ⟨tokens, u :: t :: (segment ++ more), (q, true), first :: rest, by simp, rfl, hfirst,
        stops_semicolon hlang hu _, fun left p => ?_⟩
      refine iff_of_false (not_goesOn_twice hlang hu hunary hsurface left _ _) fun hall => ?_
      cases hall.1 (q, true) (by simp)

/-- Which rows are read, and as what. -/
theorem InRow.expression_iff (hlang : g.lang.Separates) {first next : Parsed × Bool}
    {rest : List (Parsed × Bool)} (h : InRow g tokens (first :: next :: rest)) (p : Parsed) :
    (∃ fuel, expression g fuel 0 0 tokens = .ok (p, [])) ↔
      (∀ q ∈ (first :: next :: rest).dropLast, q.2 = false) ∧
      first.1.Fits ((next :: rest).map Prod.fst) ∧
      p = ((next :: rest).map Prod.fst).foldl Parsed.andThen first.1 := by
  obtain ⟨segment, more, _, _, rfl, hqs, halone, hmore, hiff⟩ := h.split hlang
  cases hqs
  rw [halone.expression_iff hlang hmore, hiff]

end Reader

/-! ## Chains of scripts -/

/-- A script that is one statement. -/
structure Statement (lang : Language) extends Script where
  read : Script.read lang source = .ok toScript
  single : ∀ items, root ≠ .sequence items

namespace Statement

variable {lang : Language}

/-- The last token of the statement is a `;`. -/
def trails (s : Statement lang) : Bool :=
  (tokenize lang.operators s.source).toOption.any fun tokens =>
    tokens.getLast?.any fun t => decide (Reader.IsSemicolon t)

/-- The statements as one text. -/
def chain (ss : List (Statement lang)) (name : Option String) : Source :=
  ⟨"; ".intercalate (ss.map (·.source.code)), name⟩

/-- The second site is in this text, at a token like that of the first. -/
def Copied (source : Source) (s t : Site) : Prop :=
  t.source = source ∧ t.token.lexeme = s.token.lexeme

/-- The statement as it is read at another place. -/
structure Recurs (source : Source) (s : Statement lang) (q : Parsed × Bool) : Prop where
  tree : s.root.Alike (Copied source) q.1.tree
  height : q.1.height = s.root.counted
  trails : q.2 = s.trails

/-- Wherever its lexemes stand, the statement is read as it is on its own. -/
theorem recurs (hlang : lang.Separates) (s : Statement lang) {g : Reader.Setting}
    (hg : g.lang = lang) {own : List Token} (hown : tokenize lang.operators s.source = .ok own)
    (htokens : tokens.map Token.lexeme = own.map Token.lexeme) :
    ∃ q, Reader.Stated g tokens q s.trails ∧ s.Recurs g.source (q, s.trails) := by
  obtain ⟨_, last, p, hown', _, hread, hscript⟩ := Script.read_eq_ok_iff.mp s.read
  rw [hown] at hown'
  cases hown'
  have hroot : s.root = p.tree := congrArg Script.root hscript
  obtain ⟨trails, hstated⟩ := Reader.stated_of_expression hlang hread (hroot ▸ s.single)
  have htrails : s.trails = trails := by
    rw [Statement.trails, hown]
    exact hstated.trails_eq hlang
  obtain ⟨_, _, hspans, _⟩ := (Reader.takes _ _).expression hread
  have hcounted : p.height = p.tree.counted := hspans.counted
  have hgh : Reader.Setting.Alike (Copied g.source) (fun _ _ => True)
      (fun t u => u.lexeme = t.lexeme) ⟨lang, s.source, last⟩ g :=
    ⟨hg, fun h => h, fun h _ => ⟨rfl, h⟩, fun _ => trivial, fun _ => trivial, trivial⟩
  obtain ⟨q, hq, halike⟩ := hstated.again hgh htokens
  rw [htrails]
  refine ⟨q, hq, ⟨hroot ▸ halike.tree, ?_, htrails.symm⟩⟩
  rw [halike.height, hcounted, hroot]

/-- The tokens of a chain are those of the statements in a row. -/
theorem inRow_of_lexemes (hlang : lang.Separates) {g : Reader.Setting} (hg : g.lang = lang)
    {xs : String → List Lexeme} (first : Statement lang) (rest : List (Statement lang))
    (hxs : ∀ s ∈ first :: rest, ∃ own, tokenize lang.operators s.source = .ok own ∧
      own.map Token.lexeme = xs s.source.code) (htokens : tokens.map Token.lexeme =
      (Grouping.plain first.source.code (rest.map (·.source.code))).lexemes xs) :
    ∃ qs, Reader.InRow g tokens qs ∧ List.Forall₂ (Recurs g.source) (first :: rest) qs := by
  induction rest generalizing first tokens with
  | nil =>
    obtain ⟨own, hown, hlexemes⟩ := hxs first List.mem_cons_self
    obtain ⟨q, hq, hrecurs⟩ := first.recurs hlang hg hown (htokens.trans hlexemes.symm)
    exact ⟨[(q, first.trails)], .last hq, .cons hrecurs .nil⟩
  | cons next rest ih =>
    obtain ⟨⟨own, hown, hlexemes⟩, hothers⟩ := List.forall_mem_cons.mp hxs
    obtain ⟨before, more, rfl, hbefore, hmore⟩ := List.map_eq_append_iff.mp htokens
    obtain ⟨t, after, rfl, ht, hafter⟩ := List.map_eq_cons_iff.mp hmore
    obtain ⟨q, hq, hrecurs⟩ := first.recurs hlang hg hown (hbefore.trans hlexemes.symm)
    obtain ⟨qs, hqs, hall⟩ := ih next hothers hafter
    have hkind : t.kind = .ofSign (before.getLast?.map (·.kind)) := by
      rw [← hbefore, List.getLast?_map, Option.map_map] at ht
      exact congrArg Lexeme.kind ht
    exact ⟨_, .cons hq (congrArg Lexeme.surface ht) hkind hqs, .cons hrecurs hall⟩

/-- A chain is read token by token as its statements are, with a `;` between two. -/
theorem exists_inRow (hlang : lang.Separates) (hops : lang.operators.SetsApart)
    (first : Statement lang) (rest : List (Statement lang)) (name : Option String) :
    ∃ tokens last qs, tokenize lang.operators (chain (first :: rest) name) = .ok tokens ∧
      tokens.getLast? = some last ∧
      Reader.InRow ⟨lang, chain (first :: rest) name, last⟩ tokens qs ∧
      List.Forall₂ (Recurs (chain (first :: rest) name)) (first :: rest) qs := by
  have hdivides : ∀ code, ∃ xs pieces, code ∈ (first :: rest).map (·.source.code) →
      lang.Divides code xs pieces := by
    intro code
    by_cases hcode : code ∈ (first :: rest).map (·.source.code)
    · obtain ⟨s, _, rfl⟩ := List.mem_map.mp hcode
      obtain ⟨xs, pieces, hdivides⟩ := Script.divides_of_read hlang s.read
      exact ⟨xs, pieces, fun _ => hdivides⟩
    · exact ⟨[], [], fun h => absurd h hcode⟩
  choose xs pieces hdivides using hdivides
  obtain ⟨a, ha⟩ : ∃ a, a = Grouping.plain first.source.code (rest.map (·.source.code)) := ⟨_, rfl⟩
  have hstatements : ∀ code ∈ a.statements, lang.Divides code (xs code) (pieces code) := by
    rw [ha, Grouping.statements_plain]
    exact hdivides
  have htext : (chain (first :: rest) name).code = a.text := by
    rw [ha, Grouping.text_plain]
    rfl
  have hreads : Lexer.Reads lang.operators none ([] ++ a.text.toList) (a.lexemes xs) :=
    a.reads hops hstatements rfl (List.forall_mem_nil _)
  obtain ⟨tokens, hemits, hlexemes⟩ := hreads (chain (first :: rest) name)
    (.ofCode (chain (first :: rest) name).code true) rfl rfl rfl (by rw [htext]; rfl)
  have hne : tokens ≠ [] := by
    rintro rfl
    exact a.lexemes_ne_nil hstatements hlexemes.symm
  -- Each statement has the lexemes on its own that it was divided by.
  have hxs : ∀ s ∈ first :: rest, ∃ own, tokenize lang.operators s.source = .ok own ∧
      own.map Token.lexeme = xs s.source.code := by
    intro s hs
    obtain ⟨own, _, _, hown, _⟩ := Script.read_eq_ok_iff.mp s.read
    refine ⟨own, hown, Lexer.lexeme_of_reads hown ?_⟩
    exact (hdivides _ (List.mem_map_of_mem hs)).reads rfl (List.forall_mem_nil _)
  obtain ⟨qs, hqs, hall⟩ := inRow_of_lexemes
    (g := ⟨lang, chain (first :: rest) name, tokens.getLast hne⟩) hlang rfl first rest hxs
    (hlexemes.trans (by rw [ha]))
  exact ⟨tokens, tokens.getLast hne, qs, tokenize_of_emits hemits,
    List.getLast?_eq_some_getLast hne, hqs, hall⟩

section Rows

variable {source : Source} {ss : List (Statement lang)} {qs : List (Parsed × Bool)}

theorem map_of_recurs (hall : List.Forall₂ (Recurs source) ss qs) :
    (qs.map fun q => (q.1.height, q.2)) = ss.map fun s => (s.root.counted, s.trails) := by
  induction hall with
  | nil => rfl
  | cons h _ ih => rw [List.map_cons, List.map_cons, ih, h.height, h.trails]

/-- What holds of the statements but the last, on their own and in the row. -/
theorem forall_dropLast_iff (hall : List.Forall₂ (Recurs source) ss qs) (P : Nat × Bool → Prop) :
    (∀ q ∈ qs.dropLast, P (q.1.height, q.2)) ↔
      ∀ s ∈ ss.dropLast, P (s.root.counted, s.trails) := by
  have hmap := congrArg List.dropLast (map_of_recurs hall)
  rw [← List.map_dropLast, ← List.map_dropLast] at hmap
  rw [← List.forall_mem_map (f := fun s : Statement lang => (s.root.counted, s.trails)), ← hmap,
    List.forall_mem_map]

theorem forall_getLast?_iff (hall : List.Forall₂ (Recurs source) ss qs) (P : Nat → Prop) :
    (∀ q ∈ qs.getLast?, P q.1.height) ↔ ∀ s ∈ ss.getLast?, P s.root.counted := by
  have hmap := congrArg List.getLast? (map_of_recurs hall)
  rw [List.getLast?_map, List.getLast?_map] at hmap
  generalize ss.getLast? = last at hmap ⊢
  cases last with
  | none =>
    rw [Option.map_eq_none_iff.mp hmap]
    simp
  | some s =>
    obtain ⟨q, hq, hpair⟩ := Option.map_eq_some_iff.mp hmap
    obtain ⟨hheight, _⟩ := Prod.mk.inj hpair
    simp [hq, hheight]

/-- The statements fit in the row exactly if they leave room for a level or two on their own. -/
theorem fits_iff {first next : Statement lang} {rest : List (Statement lang)}
    {a b : Parsed × Bool} {others : List (Parsed × Bool)}
    (hall : List.Forall₂ (Recurs source) (first :: next :: rest) (a :: b :: others))
    (ha : ∀ items, a.1.tree ≠ .sequence items) :
    (∀ q ∈ (a :: b :: others).dropLast, q.2 = false) ∧ a.1.Fits ((b :: others).map Prod.fst) ↔
      (∀ s ∈ (first :: next :: rest).dropLast, s.trails = false ∧
        s.root.counted + (if rest = [] then 1 else 2) ≤ maxNesting) ∧
      ∀ s ∈ (first :: next :: rest).getLast?, s.root.counted + 1 ≤ maxNesting := by
  have hnil : others = [] ↔ rest = [] := by
    have hlength := hall.length_eq
    simp only [List.length_cons] at hlength
    rw [← List.length_eq_zero_iff, ← List.length_eq_zero_iff]
    omega
  have hfst : a.1 :: b.1 :: others.map Prod.fst = (a :: b :: others).map Prod.fst := rfl
  rw [← forall_dropLast_iff hall fun x =>
      x.2 = false ∧ x.1 + (if rest = [] then 1 else 2) ≤ maxNesting,
    ← forall_getLast?_iff hall fun n => n + 1 ≤ maxNesting, List.map_cons,
    Parsed.fits_single ha, hfst, ← List.map_dropLast, List.forall_mem_map, List.getLast?_map]
  simp only [List.map_eq_nil_iff, hnil]
  constructor
  · rintro ⟨htrails, hroom, hlast⟩
    exact ⟨fun q hq => ⟨htrails q hq, hroom q hq⟩,
      fun q hq => hlast q.1 (Option.mem_map_of_mem Prod.fst hq)⟩
  · rintro ⟨hall, hlast⟩
    refine ⟨fun q hq => (hall q hq).1, fun q hq => (hall q hq).2, fun p hp => ?_⟩
    obtain ⟨q, hq, rfl⟩ := Option.map_eq_some_iff.mp hp
    exact hlast q hq

end Rows

/-- Which chains are read, and as what. -/
theorem read_chain_iff (hlang : lang.Separates) (hops : lang.operators.SetsApart)
    (first next : Statement lang) (rest : List (Statement lang)) (name : Option String) :
    ∃ items, List.Forall₂ (fun s item =>
        s.root.Alike (Copied (chain (first :: next :: rest) name)) item)
        (first :: next :: rest) items ∧
      ∀ script, Script.read lang (chain (first :: next :: rest) name) = .ok script ↔
        ((∀ s ∈ (first :: next :: rest).dropLast, s.trails = false ∧
          s.root.counted + (if rest = [] then 1 else 2) ≤ maxNesting) ∧
        ∀ s ∈ (first :: next :: rest).getLast?, s.root.counted + 1 ≤ maxNesting) ∧
        script = ⟨.sequence items, chain (first :: next :: rest) name⟩ := by
  obtain ⟨tokens, last, qs, htokens, hlast, hinRow, hall⟩ :=
    exists_inRow hlang hops first (next :: rest) name
  obtain ⟨a, b, others, rfl⟩ : ∃ a b others, qs = a :: b :: others := by
    cases hall with
    | cons _ hall =>
      cases hall with
      | cons _ _ => exact ⟨_, _, _, rfl⟩
  have ha : ∀ items, a.1.tree ≠ .sequence items := by
    intro items htree
    have halike := (List.forall₂_cons.mp hall).1.tree
    rw [htree] at halike
    generalize hroot : first.root = root at halike
    cases halike
    exact first.single _ hroot
  have hrow := fun p => hinRow.expression_iff hlang p
  refine ⟨(a :: b :: others).map (·.1.tree),
    List.forall₂_map_right_iff.mpr (hall.imp fun _ _ h => h.tree), fun script => ?_⟩
  have htree : (((b :: others).map Prod.fst).foldl Parsed.andThen a.1).tree =
      .sequence ((a :: b :: others).map (·.1.tree)) := by
    rw [List.map_cons, Parsed.tree_chain ha]
    simp
  rw [Script.read_iff_of_fuel, ← fits_iff hall ha, ← htree]
  constructor
  · rintro ⟨tokens', last', p, fuel, htokens', hlast', hread, rfl⟩
    rw [htokens] at htokens'
    cases htokens'
    rw [hlast] at hlast'
    cases hlast'
    obtain ⟨htrails, hfits, rfl⟩ := (hrow p).mp ⟨fuel, hread⟩
    exact ⟨⟨htrails, hfits⟩, rfl⟩
  · rintro ⟨⟨htrails, hfits⟩, rfl⟩
    obtain ⟨fuel, hread⟩ := (hrow _).mpr ⟨htrails, hfits, rfl⟩
    exact ⟨tokens, last, _, fuel, htokens, hlast, hread, rfl⟩

end Statement

/-! ## Sums -/

/-- Without a `;` there is no sequence. -/
theorem Reader.Spans.not_sequence {g : Setting} (hlang : g.lang.Separates) {taken : List Token}
    {p : Parsed} (h : Spans g depth taken p) (hno : ∀ t ∈ taken, t.surface ≠ ";")
    (items : List Expr) : p.tree ≠ .sequence items := by
  induction h with
  | single _ h =>
    rcases single_ok h with ⟨_, htree⟩ | ⟨_, x, htree⟩ | ⟨_, x, htree⟩ <;> rw [htree] <;> nofun
  | parentheses _ _ _ _ ih => exact ih fun t ht => hno t (by simp [ht])
  | unary => nofun
  | call => nofun
  | @join _ _ _ t op _ _ _ _ _ hop _ _ h =>
    have hrole : op.role ≠ .sequences := fun hrole =>
      hno t (by simp) (hlang.eq_of_sequences hop hrole).1
    generalize op.role = role at h hrole
    cases h with
    | sequences => exact absurd rfl hrole
    | evaluates | assigns | defines => nofun
  | trailing _ _ _ _ ih => exact ih fun t ht => hno t (by simp [ht])

namespace Statement

/-- A script without a `;` is one statement. -/
theorem exists_of_read {lang : Language} (hlang : lang.Separates) {script : Script}
    (h : Script.read lang script.source = .ok script)
    (htokens : tokenize lang.operators script.source = .ok tokens)
    (hno : ∀ t ∈ tokens, t.surface ≠ ";") :
    ∃ s : Statement lang, s.toScript = script ∧ s.trails = false := by
  obtain ⟨_, last, p, htokens', _, hread, hscript⟩ := Script.read_eq_ok_iff.mp h
  rw [htokens] at htokens'
  cases htokens'
  have hspans : Reader.Spans ⟨lang, script.source, last⟩ 0 tokens p := by
    obtain ⟨taken, rfl, hspans, _⟩ := (Reader.takes _ _).expression hread
    simpa using hspans
  have hroot : script.root = p.tree := congrArg Script.root hscript
  refine ⟨⟨script, h, hroot ▸ hspans.not_sequence hlang hno⟩, rfl, ?_⟩
  rw [Statement.trails, htokens]
  cases hlast : tokens.getLast? with
  | none => simp [Except.toOption, hlast]
  | some t =>
    have hne := hno t (List.mem_of_getLast? hlast)
    simp [Except.toOption, hlast, Reader.IsSemicolon, hne]

/-- A sum may be a statement of any height within the limit. -/
theorem exists_sum {n : Nat} (hn : n + 1 ≤ maxNesting) :
    ∃ s : Statement .standard, s.root.height = n + 1 ∧ s.trails = false := by
  have hno : ∀ x ∈ sumOf n, x.surface ≠ ";" := by
    have hsummand : ∀ x ∈ summand, x.surface ≠ ";" := by decide
    refine List.forall_mem_cons.mpr ⟨by decide, fun x hx => ?_⟩
    obtain ⟨xs, hxs, hx⟩ := List.mem_flatten.mp hx
    rw [List.eq_of_mem_replicate hxs] at hx
    exact hsummand x hx
  obtain ⟨script, hread, hheight⟩ := Script.read_tallCode (k := 0) hn (by decide)
  have hsource : script.source = ⟨tallCode n 0, none⟩ := by
    obtain ⟨_, _, p, _, _, _, rfl⟩ := Script.read_eq_ok_iff.mp hread
    rfl
  obtain ⟨tokens, htokens, hlexemes⟩ : ∃ tokens,
      tokenize Language.standard.operators ⟨tallCode n 0, none⟩ = .ok tokens ∧
        tokens.map Token.lexeme = sumOf n :=
    tokenize_of_written Language.knows_standard (written_tallCode n 0)
      (legal_inCalls (legal_sumOf n) 0) (whole_inCalls (whole_sumOf n) 0).coherent
  rw [← hsource] at hread htokens
  have htokensNo : ∀ t ∈ tokens, t.surface ≠ ";" := fun t ht =>
    hno t.lexeme (hlexemes ▸ List.mem_map_of_mem ht)
  obtain ⟨s, rfl, htrails⟩ := exists_of_read Language.separates_standard hread htokens htokensNo
  exact ⟨s, hheight, htrails⟩

end Statement

/-! ## Chains and their heights -/

theorem Language.setsApart_standard : standard.operators.SetsApart := by
  have hextended : (extended []).operators.SetsApart :=
    setsApart_extended (List.forall_mem_nil _)
  rwa [show extended [] = standard from rfl] at hextended

/-- Take two statements or more, each of which is read on its own and is no sequence. Written one
after the other with `;` between two of them they are accepted exactly if none of them but the last
has a `;` of its own and they leave room for the level of the sequence: each needs one level, and
if there are more than two statements, each but the last needs one more. How many more there are
does not matter. What is accepted is one sequence of the statements, within the limit. -/
theorem chains_are_one_sequence (ss : List (Statement .standard)) (hss : 2 ≤ ss.length)
    (name : Option String) :
    ((∃ script, Script.read .standard (Statement.chain ss name) = .ok script) ↔
      (∀ s ∈ ss.dropLast, s.trails = false ∧
        s.root.counted + (if ss.length = 2 then 1 else 2) ≤ maxNesting) ∧
      ∀ s ∈ ss.getLast?, s.root.counted + 1 ≤ maxNesting) ∧
    ∀ script, Script.read .standard (Statement.chain ss name) = .ok script →
      script.root.height ≤ maxNesting ∧ ∃ items, script.root = .sequence items ∧
        List.Forall₂ (fun s item => s.root.Alike (Statement.Copied (Statement.chain ss name)) item)
          ss items := by
  obtain ⟨first, next, rest, rfl⟩ : ∃ first next rest, ss = first :: next :: rest := by
    rcases ss with _ | ⟨first, _ | ⟨next, rest⟩⟩
    · cases hss
    · exact absurd hss (Nat.lt_irrefl 1)
    · exact ⟨first, next, rest, rfl⟩
  obtain ⟨items, hitems, hread⟩ := Statement.read_chain_iff Language.separates_standard
    Language.setsApart_standard first next rest name
  have hlength : (first :: next :: rest).length = 2 ↔ rest = [] := by simp
  simp only [hlength]
  refine ⟨⟨fun ⟨script, h⟩ => ((hread script).mp h).1,
    fun h => ⟨_, (hread _).mpr ⟨h, rfl⟩⟩⟩, fun script h => ?_⟩
  obtain ⟨_, hscript⟩ := (hread script).mp h
  have hroot : script.root = .sequence items := congrArg Script.root hscript
  refine ⟨?_, items, hroot, hitems⟩
  obtain ⟨_, _, p, _, _, hp, rfl⟩ := Script.read_eq_ok_iff.mp h
  obtain ⟨_, _, hspans, _⟩ := (Reader.takes _ _).expression hp
  have hjoins := hspans.nested.joins
  have htree : p.tree = .sequence items := hroot
  rw [htree] at hjoins
  rw [hroot]
  exact hjoins.1

/-- Two sums of 197 texts and one of 198 are one sequence. -/
theorem three_tall_sums_are_accepted :
    ∃ ss : List (Statement .standard), 2 ≤ ss.length ∧ ss.map (·.root.height) = [197, 197, 198] ∧
      ∃ script, Script.read .standard (Statement.chain ss none) = .ok script ∧
        script.root.height ≤ maxNesting ∧ ∃ items, script.root = .sequence items ∧
          List.Forall₂
            (fun s item => s.root.Alike (Statement.Copied (Statement.chain ss none)) item)
            ss items := by
  obtain ⟨s, hs, hstrails⟩ := Statement.exists_sum (n := 196) (by decide)
  obtain ⟨t, ht, _⟩ := Statement.exists_sum (n := 197) (by decide)
  have hlength : 2 ≤ [s, s, t].length := by simp
  have hscount := s.root.counted_bounds
  have htcount := t.root.counted_bounds
  have hmost : maxNesting = 200 := rfl
  obtain ⟨hiff, hsequence⟩ := chains_are_one_sequence [s, s, t] hlength none
  obtain ⟨script, hread⟩ : ∃ script,
      Script.read .standard (Statement.chain [s, s, t] none) = .ok script := by
    refine hiff.mpr ⟨fun u hu => ?_, fun u hu => ?_⟩
    · obtain rfl : u = s := by simpa using hu
      refine ⟨hstrails, ?_⟩
      rw [if_neg (by simp)]
      omega
    · obtain rfl : t = u := by simpa using hu
      omega
  exact ⟨[s, s, t], hlength, by simp [hs, ht], script, hread, hsequence script hread⟩

/-- A sum of 199 texts leaves room for the level of a sequence. With two statements behind it, it is
refused all the same. -/
theorem a_third_statement_is_one_too_many :
    ∃ ss : List (Statement .standard), ss.map (·.root.height) = [199, 1, 1] ∧
      (∀ s ∈ ss, s.root.height + 1 ≤ maxNesting ∧ s.trails = false) ∧
      ∀ name script, Script.read .standard (Statement.chain ss name) ≠ .ok script := by
  obtain ⟨s, hs, hstrails⟩ := Statement.exists_sum (n := 198) (by decide)
  obtain ⟨t, ht, httrails⟩ := Statement.exists_sum (n := 0) (by decide)
  refine ⟨[s, t, t], by simp [hs, ht], ?_, fun name script hread => ?_⟩
  · simp [hs, ht, hstrails, httrails, maxNesting]
  · obtain ⟨_, _, hiff⟩ := Statement.read_chain_iff Language.separates_standard
      Language.setsApart_standard s t [t] name
    -- The first one would have to leave room for two levels.
    obtain ⟨_, hroom⟩ := ((hiff script).mp hread).1.1 s (by simp)
    have hcount := s.root.counted_bounds
    have hmost : maxNesting = 200 := rfl
    rw [if_neg (by simp)] at hroom
    omega

end TickScript
