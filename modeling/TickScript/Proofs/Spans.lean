-- Which tokens a tree is read from. They are the same with more fuel, with less around them, and
-- before other tokens, as long as these cannot belong to the tree.
import Mathlib.Data.List.Forall2
import TickScript.Proofs.Grown

namespace TickScript

variable {spelling : String} {op : BinaryOperator} {t : Token} {taken tokens : List Token}
  {depth : Nat}

/-- Statements are separated by `;` and by nothing else, and every other operator binds closer. -/
structure Language.Separates (lang : Language) : Prop where
  sequence : lang.binary? ";" = some ⟨1, .left, .sequences⟩
  notUnary : lang.unary? ";" = none
  binary : ∀ {spelling op}, lang.binary? spelling = some op → spelling ≠ ";" →
    2 ≤ op.precedence ∧ op.role ≠ .sequences
  unary : ∀ {spelling op}, lang.unary? spelling = some op → 2 ≤ op.precedence

/-- The operator between statements is spelled in one way only. -/
theorem Language.Separates.eq_of_sequences {lang : Language} (hlang : lang.Separates)
    (hop : lang.binary? spelling = some op) (hrole : op.role = .sequences) :
    spelling = ";" ∧ op = ⟨1, .left, .sequences⟩ := by
  by_cases hspelling : spelling = ";"
  · rw [hspelling, hlang.sequence] at hop
    exact ⟨hspelling, (Option.some.inj hop).symm⟩
  · exact absurd hrole (hlang.binary hop hspelling).2

namespace Reader

variable {g : Setting}

/-! ## Trees and their tokens -/

theorem single_ok {p : Parsed} (h : single g t = .ok p) :
    t.kind = .name ∧ p.tree = .var t.surface false (g.site t) ∨
      (t.kind = .number ∨ t.kind = .hex) ∧ (∃ x, p.tree = .number x) ∨
      t.kind = .text ∧ ∃ s, p.tree = .text s := by
  unfold single at h
  cases hkind : t.kind with
  | number =>
    simp only [hkind] at h
    split at h
    · cases h
      exact Or.inr (Or.inl ⟨Or.inl rfl, _, rfl⟩)
    · cases h
  | hex =>
    simp only [hkind] at h
    split at h
    · cases h
      exact Or.inr (Or.inl ⟨Or.inr rfl, _, rfl⟩)
    · cases h
  | text =>
    rw [hkind] at h
    cases h
    exact Or.inr (Or.inr ⟨rfl, _, rfl⟩)
  | name =>
    rw [hkind] at h
    cases h
    exact Or.inl ⟨rfl, rfl⟩
  | call | operator | unary | opening | closing | comma =>
    rw [hkind] at h
    cases h

/-- The pieces stand in order, with a comma between two. -/
inductive Separated : List (List Token) → List Token → Prop
  | nil : Separated [] []
  | one (piece : List Token) : Separated [piece] piece
  | cons {piece next : List Token} {pieces : List (List Token)} {tokens : List Token}
      {comma : Token} (hcomma : comma.kind = .comma) (h : Separated (next :: pieces) tokens) :
      Separated (piece :: next :: pieces) (piece ++ comma :: tokens)

theorem Separated.within {pieces : List (List Token)} {inside piece : List Token}
    (h : Separated pieces inside) (hpiece : piece ∈ pieces) :
    ∃ start rest, inside = start ++ piece ++ rest := by
  induction h with
  | nil => cases hpiece
  | one only =>
    obtain rfl := List.mem_singleton.mp hpiece
    exact ⟨[], [], by simp⟩
  | @cons first next pieces tokens comma _ _ ih =>
    rcases List.mem_cons.mp hpiece with rfl | hpiece
    · exact ⟨[], comma :: tokens, by simp⟩
    · obtain ⟨start, rest, rfl⟩ := ih hpiece
      exact ⟨first ++ comma :: start, rest, by simp⟩

/-- The tree is made of these tokens at this depth, whatever the precedence of its operators. The
arguments of a call stand beside the tokens that they are made of. -/
inductive Spans (g : Setting) : Nat → List Token → Parsed → Prop
  | single {depth : Nat} {t : Token} {p : Parsed} (hdepth : depth + 1 ≤ maxNesting)
      (h : single g t = .ok p) : Spans g depth [t] p
  | parentheses {depth : Nat} {opening closing : Token} {inside : List Token} {p : Parsed}
      (hdepth : depth + 1 ≤ maxNesting) (hopening : opening.kind = .opening)
      (hclosing : closing.kind = .closing) (h : Spans g (depth + 1) inside p) :
      Spans g depth (opening :: (inside ++ [closing])) p
  | unary {depth : Nat} {t : Token} {op : UnaryOperator} {inside : List Token} {p : Parsed}
      (hdepth : depth + 1 ≤ maxNesting) (ht : t.kind = .unary)
      (hop : g.lang.unary? t.surface = some op) (h : Spans g (depth + 1) inside p) :
      Spans g depth (t :: inside) ⟨.unary t.surface p.tree (g.site t), p.height + 1⟩
  | call {depth : Nat} {t paren closing : Token} {args : List (List Token × Parsed)}
      {inside : List Token} (hdepth : depth + 1 ≤ maxNesting) (ht : t.kind = .call)
      (hclosing : closing.kind = .closing) (hinside : Separated (args.map Prod.fst) inside)
      (hargs : ∀ a ∈ args, Spans g (depth + 1) a.1 a.2)
      (haccepts : ∀ f, g.lang.function? t.surface = some f →
        f.arity.accepts args.length = true) :
      Spans g depth (t :: paren :: (inside ++ [closing]))
        ⟨.call t.surface (args.map (·.2.tree)) (g.site t), highest (args.map Prod.snd) + 1⟩
  | join {depth : Nat} {before after : List Token} {t : Token} {op : BinaryOperator}
      {left right p : Parsed} (hleft : Spans g depth before left) (ht : t.kind = .operator)
      (hop : g.lang.binary? t.surface = some op) (hright : Spans g depth after right)
      (hheight : max left.height right.height + 1 ≤ maxNesting)
      (h : Joins g t left right op.role p) : Spans g depth (before ++ t :: after) p
  | trailing {depth : Nat} {before : List Token} {t : Token} {op : BinaryOperator} {p : Parsed}
      (h : Spans g depth before p) (ht : t.kind = .operator)
      (hop : g.lang.binary? t.surface = some op) (hrole : op.role = .sequences) :
      Spans g depth (before ++ [t]) p

theorem Spans.of_finishCall {t paren closing : Token} {args : List (List Token × Parsed)}
    {inside : List Token} {p : Parsed} (hdepth : depth + 1 ≤ maxNesting) (ht : t.kind = .call)
    (hclosing : closing.kind = .closing) (hinside : Separated (args.map Prod.fst) inside)
    (hargs : ∀ a ∈ args, Spans g (depth + 1) a.1 a.2)
    (h : finishCall g t ((args.map Prod.snd).map Parsed.tree) (highest (args.map Prod.snd)) =
      .ok p) : Spans g depth (t :: paren :: (inside ++ [closing])) p := by
  obtain ⟨haccepts, rfl⟩ := finishCall_ok h
  rw [List.map_map] at haccepts ⊢
  rw [List.length_map] at haccepts
  exact .call hdepth ht hclosing hinside hargs haccepts

theorem Spans.ne_nil {p : Parsed} (h : Spans g depth taken p) : taken ≠ [] := by
  cases h <;> simp

/-! ## What may follow -/

/-- What follows begins with the operator between statements. -/
def StartsSequence (more : List Token) : Prop :=
  ∃ t rest, more = t :: rest ∧ t.kind = .operator ∧ t.surface = ";"

/-- What follows belongs to no tree that is read with operators of at least this precedence. -/
def Stops (g : Setting) (least : Nat) (more : List Token) : Prop :=
  atOperandEnd more = true ∨ g.lang.Separates ∧ 2 ≤ least ∧ StartsSequence more

/-- What follows begins like what was left, or else stops the tree. -/
def Resumes (g : Setting) (least : Nat) (left more : List Token) : Prop :=
  more.head? = left.head? ∨ Stops g least more

theorem Stops.ends {least : Nat} {more : List Token} (h : Stops g least more) :
    Ends g least more := by
  intro t ht hkind
  rcases h with hend | ⟨hlang, hleast, u, rest, rfl, _, hu⟩
  · rcases more with _ | ⟨u, rest⟩
    · cases ht
    · cases ht
      simp [atOperandEnd, hkind] at hend
  · cases ht
    exact ⟨⟨1, .left, .sequences⟩, hu ▸ hlang.sequence, hleast⟩

theorem two_le_rightLeast (hlang : g.lang.Separates) (hop : g.lang.binary? spelling = some op) :
    2 ≤ rightLeast op := by
  by_cases hspelling : spelling = ";"
  · rw [hspelling, hlang.sequence] at hop
    cases hop
    exact Nat.le_refl 2
  · have hprecedence := (hlang.binary hop hspelling).1
    unfold rightLeast
    split <;> omega

theorem Stops.of_two_le {least higher : Nat} {more : List Token} (h : Stops g least more)
    (hhigher : g.lang.Separates → 2 ≤ higher) : Stops g higher more := by
  rcases h with hend | ⟨hlang, _, hmore⟩
  · exact Or.inl hend
  · exact Or.inr ⟨hlang, hhigher hlang, hmore⟩

namespace Resumes

variable {least higher : Nat} {left more : List Token}

theorem of_two_le (h : Resumes g least left more) (hhigher : g.lang.Separates → 2 ≤ higher) :
    Resumes g higher left more :=
  h.imp_right fun h => h.of_two_le hhigher

theorem append (h : Resumes g least left more) (taken : List Token) :
    Resumes g least (taken ++ left) (taken ++ more) := by
  cases taken with
  | nil => exact h
  | cons t rest => exact Or.inl rfl

theorem self (left : List Token) : Resumes g least left left := Or.inl rfl

/-- Where a reading ended, it ends before what follows instead. -/
theorem ends (h : Resumes g least left more) (hleft : Ends g least left) : Ends g least more := by
  rcases h with hhead | hstops
  · intro t ht
    exact hleft t (hhead ▸ ht)
  · exact hstops.ends

/-- Where statements ended, they end before what follows instead. -/
theorem atOperandEnd (h : Resumes g least left more) (hop : g.lang.binary? spelling = some op)
    (hleast : ¬ op.precedence < least) (hend : trailing op left = true) :
    trailing op more = true := by
  obtain ⟨hrole, hleft⟩ := trailing_iff.mp hend
  refine trailing_iff.mpr ⟨hrole, ?_⟩
  rcases h with hhead | hmore | ⟨hlang, htwo, _⟩
  · cases left with
    | nil =>
      cases more with
      | nil => rfl
      | cons t rest => cases hhead
    | cons t rest =>
      cases more with
      | nil => cases hhead
      | cons u others =>
        cases hhead
        exact hleft
  · exact hmore
  · rw [(hlang.eq_of_sequences hop hrole).2] at hleast
    exact absurd htwo hleast

end Resumes

/-! ## What is taken -/

/-- The last of the tokens, if there is any, ends an operand. -/
def EndsOperand (taken : List Token) : Prop := ∀ t ∈ taken.getLast?, t.kind.endsOperand = true

theorem EndsOperand.append {first others : List Token} (hfirst : EndsOperand first)
    (hothers : EndsOperand others) : EndsOperand (first ++ others) := by
  intro t ht
  rw [List.getLast?_append] at ht
  rcases hlast : others.getLast? with _ | u
  · rw [hlast] at ht
    exact hfirst t ht
  · rw [hlast] at ht
    cases ht
    exact hothers t hlast

theorem endsOperand_concat (taken : List Token) (ht : t.kind.endsOperand = true) :
    EndsOperand (taken ++ [t]) := by
  simpa [EndsOperand] using ht

theorem endsOperand_cons (t : Token) (hne : taken ≠ []) (h : EndsOperand taken) :
    EndsOperand (t :: taken) := by
  intro u hu
  rw [List.getLast?_cons_of_ne_nil hne] at hu
  exact h u hu

theorem endsOperand_single {p : Parsed} (h : single g t = .ok p) : EndsOperand [t] := by
  refine endsOperand_concat [] ?_
  rcases single_ok h with ⟨hkind, _⟩ | ⟨hkind | hkind, _⟩ | ⟨hkind, _⟩ <;> rw [hkind] <;> rfl

/-- With so much fuel and before whatever may follow, the tree is read at every depth up to this
one. Deeper it is read too, or else it is always refused for its depth. -/
def Retakes (g : Setting) (need depth : Nat) (p : Parsed) (may : List Token → Prop)
    (reading : Nat → Nat → List Token → Reading) : Prop :=
  ∀ d, (∀ f more, need ≤ f → may more → reading f d more = .ok (p, more)) ∨
    depth < d ∧ ∀ f more, need ≤ f → may more → reading f d more = g.refuse .nestedTooDeep g.last

namespace Retakes

variable {need need' n : Nat} {p q : Parsed} {may may' : List Token → Prop}
  {reading inner : Nat → Nat → List Token → Reading}

theorem again (h : Retakes g need depth p may reading) {f d : Nat} {more : List Token}
    (hf : need ≤ f) (hd : d ≤ depth) (hmore : may more) : reading f d more = .ok (p, more) := by
  rcases h d with hok | ⟨hdeep, _⟩
  · exact hok f more hf hmore
  · omega

theorem of_ok (h : ∀ f d more, reading f d more = .ok (p, more)) :
    Retakes g need depth p may reading :=
  fun d => Or.inl fun f more _ _ => h f d more

theorem mono (h : Retakes g need depth p may reading) (hneed : need ≤ n)
    (hmay : ∀ more, may' more → may more) : Retakes g n depth p may' reading := fun d =>
  (h d).imp (fun h f more hf hmore => h f more (Nat.le_trans hneed hf) (hmay more hmore))
    (And.imp_right fun h f more hf hmore => h f more (Nat.le_trans hneed hf) (hmay more hmore))

/-- Of two steps the second begins with what the first has left. -/
theorem bind {tail : List Token → List Token} {next : Nat → Nat → Parsed × List Token → Reading}
    (h : Retakes g need depth p may reading)
    (hnext : Retakes g need' depth q may' fun f d more => next f d (p, tail more))
    (hneed : need ≤ n) (hneed' : need' ≤ n) (hmay : ∀ more, may' more → may (tail more)) :
    Retakes g n depth q may' fun f d more => reading f d (tail more) >>= next f d := by
  intro d
  rcases h d with hok | ⟨hdeep, hrefused⟩
  · have hfirst : ∀ f more, n ≤ f → may' more → (reading f d (tail more) >>= next f d) =
        next f d (p, tail more) := fun f more hf hmore => by
      rw [hok f _ (Nat.le_trans hneed hf) (hmay more hmore)]
      rfl
    refine (hnext d).imp (fun h f more hf hmore => ?_) (And.imp_right fun h f more hf hmore => ?_)
    all_goals exact (hfirst f more hf hmore).trans (h f more (Nat.le_trans hneed' hf) hmore)
  · refine Or.inr ⟨hdeep, fun f more hf hmore => ?_⟩
    dsimp only
    rw [hrefused f _ (Nat.le_trans hneed hf) (hmay more hmore)]
    rfl

/-- A step that takes one unit of fuel. -/
theorem succ (h : ∀ f d more, may more → reading (f + 1) d more = inner f d more)
    (hinner : Retakes g (need - 1) depth p may inner) (hneed : 0 < need) :
    Retakes g need depth p may reading := by
  intro d
  refine (hinner d).imp (fun hd f more hf hmore => ?_) (And.imp_right fun hd f more hf hmore => ?_)
  all_goals
    obtain ⟨f, rfl⟩ : ∃ n, f = n + 1 := ⟨f - 1, by omega⟩
    rw [h f d more hmore]
    exact hd f more (by omega) hmore

theorem deeper (h : Retakes g need (depth + 1) p may reading) :
    Retakes g need depth p may fun f d => reading f (d + 1) := fun d =>
  (h (d + 1)).imp_right (And.imp_left Nat.lt_of_succ_lt_succ)

/-- An operand is looked at if there is one more level. -/
theorem operand {tail : List Token → List Token} (hdepth : depth + 1 ≤ maxNesting)
    (h : ∀ f d more, d + 1 ≤ maxNesting → Reader.operand g (f + 1) d (tail more) = inner f d more)
    (hinner : Retakes g (need - 1) depth p may inner) (hneed : 0 < need) :
    Retakes g need depth p may fun f d more => Reader.operand g f d (tail more) := by
  intro d
  by_cases hd : d + 1 ≤ maxNesting
  case neg =>
    refine Or.inr ⟨by omega, fun f more hf _ => ?_⟩
    obtain ⟨f, rfl⟩ : ∃ n, f = n + 1 := ⟨f - 1, by omega⟩
    exact operand_of_deep f hd _
  refine (hinner d).imp (fun hin f more hf hmore => ?_)
    (And.imp_right fun hin f more hf hmore => ?_)
  all_goals
    obtain ⟨f, rfl⟩ : ∃ n, f = n + 1 := ⟨f - 1, by omega⟩
    exact (h f d more hd).trans (hin f more (by omega) hmore)

end Retakes

/-- An expression that is read with this fuel is made of tokens that are read so again, and that
end an operand unless a `;` may come last. The fuel that it takes is bounded by their number. -/
def ExpressionTakes (g : Setting) (fuel : Nat) : Prop :=
  ∀ ⦃depth least tokens p r⦄, Reader.expression g fuel depth least tokens = .ok (p, r) →
    ∃ taken, tokens = taken ++ r ∧ Spans g depth taken p ∧
      (g.lang.Separates → 2 ≤ least → EndsOperand taken) ∧
      Retakes g (min fuel (2 * taken.length)) depth p (Resumes g least r) fun f d more =>
        Reader.expression g f d least (taken ++ more)

/-- The same of what is read behind an operand. -/
def ClimbTakes (g : Setting) (fuel : Nat) : Prop :=
  ∀ ⦃depth least left tokens p r⦄, Reader.climb g fuel depth least left tokens = .ok (p, r) →
    ∃ taken, tokens = taken ++ r ∧
      (∀ before, Spans g depth before left → Spans g depth (before ++ taken) p) ∧
      (g.lang.Separates → 2 ≤ least → EndsOperand taken) ∧
      Retakes g (min fuel (2 * taken.length + 1)) depth p (Resumes g least r) fun f d more =>
        Reader.climb g f d least left (taken ++ more)

/-- The same of an operand. Anything may follow one that does not begin with a unary operator. -/
def OperandTakes (g : Setting) (fuel : Nat) : Prop :=
  ∀ ⦃depth tokens p r⦄, Reader.operand g fuel depth tokens = .ok (p, r) →
    ∃ taken, tokens = taken ++ r ∧ Spans g depth taken p ∧
      (g.lang.Separates → EndsOperand taken) ∧
      Retakes g (min fuel (2 * taken.length - 1)) depth p
        (fun more => (∀ t ∈ tokens.head?, t.kind ≠ .unary) ∨ ∃ least, Resumes g least r more)
        fun f d more => Reader.operand g f d (taken ++ more)

/-- The same of the arguments of a call that are left. -/
def ArgumentsTake (g : Setting) (fuel : Nat) : Prop :=
  ∀ ⦃depth name⦄ (args : List Parsed) ⦃tokens p r⦄,
    Reader.arguments g fuel depth name (args.map Parsed.tree) (highest args) tokens =
      .ok (p, r) →
    ∃ others inside closing, tokens = inside ++ closing :: r ∧ closing.kind = .closing ∧
      others ≠ [] ∧ Separated (others.map Prod.fst) inside ∧
      (∀ a ∈ others, Spans g depth a.1 a.2) ∧
      finishCall g name ((args ++ others.map Prod.snd).map Parsed.tree)
        (highest (args ++ others.map Prod.snd)) = .ok p ∧
      Retakes g (min fuel (2 * inside.length + 1)) depth p (fun _ => True) fun f d more =>
        Reader.arguments g f d name (args.map Parsed.tree) (highest args)
          (inside ++ closing :: more)

structure Takes (g : Setting) (fuel : Nat) : Prop where
  expression : ExpressionTakes g fuel
  climb : ClimbTakes g fuel
  operand : OperandTakes g fuel
  arguments : ArgumentsTake g fuel

namespace Takes

variable {fuel : Nat} (ih : Takes g fuel)

include ih

theorem expression_step : ExpressionTakes g (fuel + 1) := by
  intro depth least tokens p r h
  rw [expression_succ] at h
  obtain ⟨⟨left, rest⟩, hoperand, hclimb⟩ := of_bind_ok h
  obtain ⟨first, rfl, hleft, hfirstEnds, hfirst⟩ := ih.operand hoperand
  obtain ⟨others, rfl, hspans, hothersEnd, hothers⟩ := ih.climb hclimb
  have hpos := List.length_pos_iff.mpr hleft.ne_nil
  refine ⟨first ++ others, by simp, hspans first hleft,
    fun hlang hleast => (hfirstEnds hlang).append (hothersEnd hlang hleast), ?_⟩
  simp only [List.append_assoc, List.length_append]
  refine .succ (fun f d more _ => expression_succ f d least _) ?_ (by omega)
  exact hfirst.bind hothers (by omega) (by omega)
    fun more hmore => Or.inr ⟨least, hmore.append others⟩

theorem climb_step : ClimbTakes g (fuel + 1) := by
  intro depth least left tokens p r h
  obtain ⟨n, hn, hround⟩ := climb_cases h
  cases hn
  cases hround with
  | ends hends =>
    -- Where the reader stops at once, it stops before what follows instead.
    exact ⟨[], rfl, fun before hbefore => by simpa using hbefore, fun _ _ => by simp [EndsOperand],
      .succ (fun f d _ hmore => climb_of_ends (hmore.ends hends) f d left) (.of_ok fun _ _ _ => rfl)
        (by grind)⟩
  | @trailing t _ op ht hop hleast hrole hend =>
    refine ⟨[t], rfl, fun before hbefore => .trailing hbefore ht hop hrole,
      fun hlang htwo => absurd hleast ?_, .succ (fun f d _ hmore =>
        climb_of_trailing f d ht hop (Nat.not_lt.mpr hleast)
          (hmore.atOperandEnd hop (Nat.not_lt.mpr hleast) (trailing_iff.mpr ⟨hrole, hend⟩)))
        (.of_ok fun _ _ _ => rfl) (by grind)⟩
    rw [(hlang.eq_of_sequences hop hrole).2]
    exact Nat.not_le.mpr htwo
  | @operator t rest _ op right joined _ ht hop hleast hend hright hjoined hclimb =>
    obtain ⟨second, rfl, hsecond, hsecondEnds, hagain⟩ := ih.expression hright
    obtain ⟨third, rfl, hthird, hthirdEnds, hon⟩ := ih.climb hclimb
    obtain ⟨hheight, hjoins⟩ := combine_ok hjoined
    refine ⟨t :: (second ++ third), by simp, fun before hbefore => ?_, fun hlang htwo => ?_, ?_⟩
    · simpa using hthird _ (.join hbefore ht hop hsecond hheight hjoins)
    · refine endsOperand_cons t (by simp [hsecond.ne_nil]) ?_
      exact (hsecondEnds hlang (two_le_rightLeast hlang hop)).append (hthirdEnds hlang htwo)
    · have hrest : ∀ more, trailing op (second ++ (third ++ more)) = false := fun more => by
        rw [trailing_append hsecond.ne_nil] at hend ⊢
        exact hend
      have hnext : Retakes g (min fuel (2 * third.length + 1)) depth p (Resumes g least r)
          fun f d more => combine g op t left right >>= fun left =>
            Reader.climb g f d least left (third ++ more) := by
        rw [hjoined]
        exact hon
      simp only [List.cons_append, List.append_assoc, List.length_cons, List.length_append]
      refine .succ (fun f d more _ => climb_of_operator f d ht hop (Nat.not_lt.mpr hleast)
        (hrest more)) ?_ (by omega)
      exact hagain.bind hnext (by omega) (by omega) fun more hmore =>
        (hmore.append third).of_two_le fun hlang => two_le_rightLeast hlang hop

theorem arguments_step : ArgumentsTake g (fuel + 1) := by
  intro depth name args tokens p r h
  have htrees (arg : Parsed) :
      args.map Parsed.tree ++ [arg.tree] = (args ++ [arg]).map Parsed.tree := by simp
  cases arguments_cases h with
  | @comma arg next _ _ harg hcomma hx =>
    obtain ⟨piece, rfl, hpiece, _, hagain⟩ := ih.expression harg
    rw [htrees, ← highest_concat] at hx
    obtain ⟨others, inside, closing, rfl, hclosing, hne, hinside, hothers, hfinish, hon⟩ :=
      ih.arguments (args ++ [arg]) hx
    obtain ⟨second, others, rfl⟩ := List.exists_cons_of_ne_nil hne
    refine ⟨(piece, arg) :: second :: others, piece ++ next :: inside, closing, by simp, hclosing,
      by simp, .cons hcomma hinside, List.forall_mem_cons.mpr ⟨hpiece, hothers⟩,
      by simpa using hfinish, ?_⟩
    have hnext : Retakes g (min fuel (2 * inside.length + 1)) depth p (fun _ => True)
        fun f d more => afterArgument g f d name (args.map Parsed.tree) (highest args)
          (arg, next :: (inside ++ closing :: more)) := by
      simp only [afterArgument, hcomma, ↓reduceIte, htrees, ← highest_concat]
      exact hon
    simp only [List.cons_append, List.append_assoc, List.length_cons, List.length_append]
    refine .succ (fun f d more _ => arguments_succ f d name _ _ _) ?_ (by omega)
    exact hagain.bind hnext (by omega) (by omega) fun _ _ => Or.inl rfl
  | @closing arg _ next _ harg hclosing hp =>
    obtain ⟨piece, rfl, hpiece, _, hagain⟩ := ih.expression harg
    rw [htrees, ← highest_concat] at hp
    refine ⟨[(piece, arg)], piece, next, rfl, hclosing, by simp, .one piece, by simpa using hpiece,
      hp, ?_⟩
    have hnext : Retakes g 0 depth p (fun _ => True) fun f d more =>
        afterArgument g f d name (args.map Parsed.tree) (highest args) (arg, next :: more) := by
      simp only [afterArgument, hclosing, reduceCtorEq, ↓reduceIte, htrees, ← highest_concat, hp]
      exact .of_ok fun _ _ _ => rfl
    refine .succ (fun f d more _ => arguments_succ f d name _ _ _) ?_ (by omega)
    exact hagain.bind hnext (by omega) (by omega) fun _ _ => Or.inl rfl

theorem operand_step : OperandTakes g (fuel + 1) := by
  intro depth tokens p r h
  obtain ⟨hdepth, hoperand⟩ := operand_cases h
  cases hoperand with
  | @emptyCall t paren next _ _ ht hnext hp =>
    refine ⟨[t, paren, next], rfl,
      @Spans.of_finishCall _ _ _ _ _ [] _ _ hdepth ht hnext .nil (by simp) hp,
      fun _ => endsOperand_concat [t, paren] (by rw [hnext]; rfl), .operand hdepth
        (fun f d more hd => operand_of_call_closing f _ hd ht rfl hnext) ?_ (by grind)⟩
    rw [hp]
    exact .of_ok fun _ _ _ => rfl
  | @call t paren next others _ ht hnext hx =>
    obtain ⟨args, inside, closing, hinside, hclosing, hne, hseparated, hargs, hfinish, hagain⟩ :=
      ih.arguments [] hx
    refine ⟨t :: paren :: (inside ++ [closing]), by simp [hinside],
      .of_finishCall hdepth ht hclosing hseparated hargs hfinish,
      fun _ => endsOperand_concat (t :: paren :: inside) (by rw [hclosing]; rfl), ?_⟩
    have hcall : ∀ f d more, d + 1 ≤ maxNesting →
        Reader.operand g (f + 1) d (t :: paren :: (inside ++ closing :: more)) =
          Reader.arguments g f (d + 1) t [] 0 (inside ++ closing :: more) := fun f d more hd => by
      obtain ⟨tail, htail⟩ : ∃ tail, inside ++ closing :: more = next :: tail := by
        cases inside <;> cases hinside <;> exact ⟨_, rfl⟩
      rw [htail]
      exact operand_of_call f _ hd ht rfl hnext
    simp only [List.cons_append, List.append_assoc, List.nil_append, List.length_cons,
      List.length_append]
    exact .operand hdepth hcall (hagain.deeper.mono (by omega) fun _ _ => trivial) (by omega)
  | @parentheses t next _ _ _ hopening hinner hclosing =>
    obtain ⟨inside, rfl, hinside, _, hagain⟩ := ih.expression hinner
    refine ⟨t :: (inside ++ [next]), by simp, .parentheses hdepth hopening hclosing hinside,
      fun _ => endsOperand_concat (t :: inside) (by rw [hclosing]; rfl), ?_⟩
    simp only [List.cons_append, List.append_assoc, List.nil_append, List.length_cons,
      List.length_append]
    refine .operand hdepth (fun f d more hd => operand_of_opening f _ hd hopening) ?_ (by omega)
    exact hagain.deeper.bind (.of_ok fun _ _ _ => if_pos hclosing) (by omega) (Nat.zero_le _)
      fun _ _ => Or.inl rfl
  | @unary t op _ _ inner hunary hop hinner =>
    obtain ⟨inside, rfl, hinside, hends, hagain⟩ := ih.expression hinner
    refine ⟨t :: inside, rfl, .unary hdepth hunary hop hinside,
      fun hlang => endsOperand_cons t hinside.ne_nil (hends hlang (hlang.unary hop)),
      .operand hdepth (fun f d more hd => operand_of_unary f _ hd hunary hop) ?_ (by grind)⟩
    refine hagain.deeper.bind (.of_ok fun _ _ _ => rfl) (by grind) (Nat.zero_le _) ?_
    rintro more (hfirst | ⟨least, hmore⟩)
    · exact absurd hunary (hfirst t rfl)
    · exact hmore.of_two_le fun hlang => hlang.unary hop
  | @single t _ _ hcall hopening hunary hp =>
    refine ⟨[t], rfl, .single hdepth hp, fun _ => endsOperand_single hp, .operand hdepth
      (fun f d more hd => operand_of_single f more hd hcall hopening hunary) ?_ (by grind)⟩
    rw [hp]
    exact .of_ok fun _ _ _ => rfl

end Takes

/-- Whatever is read is made of tokens that are read so again, by induction on the fuel. -/
theorem takes (g : Setting) (fuel : Nat) : Takes g fuel := by
  induction fuel with
  | zero =>
    constructor
    all_goals
      intro
      intros
      rename_i h
      simp only [Reader.expression, climb, operand, arguments] at h
      cases h
  | succ fuel ih => exact ⟨ih.expression_step, ih.climb_step, ih.operand_step, ih.arguments_step⟩

end Reader

/-- A script is read if the reader comes to its end with any fuel at all. -/
theorem Script.read_iff_of_fuel {lang : Language} {source : Source} {script : Script} :
    Script.read lang source = .ok script ↔
      ∃ tokens last p fuel, tokenize lang.operators source = .ok tokens ∧
        tokens.getLast? = some last ∧
        Reader.expression ⟨lang, source, last⟩ fuel 0 0 tokens = .ok (p, []) ∧
        script = ⟨p.tree, source⟩ := by
  rw [Script.read_eq_ok_iff]
  constructor
  · rintro ⟨tokens, last, p, htokens, hlast, hread, hscript⟩
    exact ⟨tokens, last, p, _, htokens, hlast, hread, hscript⟩
  · rintro ⟨tokens, last, p, fuel, htokens, hlast, hread, hscript⟩
    obtain ⟨taken, rfl, _, _, hretakes⟩ := (Reader.takes _ fuel).expression hread
    exact ⟨_, last, p, htokens, hlast,
      hretakes.again (by grind) (Nat.le_refl _) (.self []), hscript⟩

end TickScript
