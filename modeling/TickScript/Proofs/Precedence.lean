-- The reader groups operands and operators by precedence: of a chain of them it builds the
-- one tree that respects it, unless that tree is too high.
import TickScript.Proofs.Heights
import TickScript.Proofs.OperatorTrees

namespace TickScript.Reader

variable {g : Setting} {tree : OpTree g} {fuel : Nat}

/-! ## Operands in their places -/

/-- The operand can be read at this depth. -/
def Operand.FitsAt (o : Operand g) (depth : Nat) : Prop :=
  operand g (2 * o.tokens.length + 1) depth o.tokens = .ok (o.parsed, [])

/-- At every depth an operand is read as it is on its own, or it is refused for its depth. -/
theorem Operand.retakes (o : Operand g) :
    Retakes g (2 * o.tokens.length + 1) 0 o.parsed (fun _ => True) fun f d more =>
      operand g f d (o.tokens ++ more) := by
  obtain ⟨taken, htaken, _, _, hretakes⟩ := (takes g _).operand o.reads
  rw [List.append_nil] at htaken
  rw [← htaken] at hretakes
  exact hretakes.mono (by omega) fun _ _ => Or.inl o.begins

theorem Operand.operand_of_fits {o : Operand g} {depth : Nat} (h : o.FitsAt depth)
    (hfuel : 2 * o.tokens.length + 1 ≤ fuel) (more : List Token) :
    operand g fuel depth (o.tokens ++ more) = .ok (o.parsed, more) := by
  rcases o.retakes depth with hok | ⟨_, hrefused⟩
  · exact hok fuel more hfuel trivial
  · have hrefused := hrefused _ [] (Nat.le_refl _) trivial
    dsimp only at hrefused
    rw [List.append_nil, h] at hrefused
    cases hrefused

theorem Operand.operand_of_not_fits {o : Operand g} {depth : Nat} (h : ¬ o.FitsAt depth)
    (hfuel : 2 * o.tokens.length + 1 ≤ fuel) (more : List Token) :
    operand g fuel depth (o.tokens ++ more) = g.refuse .nestedTooDeep g.last := by
  rcases o.retakes depth with hok | ⟨_, hrefused⟩
  · have hok := hok _ [] (Nat.le_refl _) trivial
    dsimp only at hok
    rw [List.append_nil] at hok
    exact absurd hok h
  · exact hrefused fuel more hfuel trivial

theorem Operand.length_pos (o : Operand g) : 0 < o.tokens.length := by
  rw [List.length_pos_iff]
  intro hnil
  have hreads := o.reads
  rw [hnil] at hreads
  exact operand_nil _ _ _ hreads

/-! ## What a tree is read as -/

namespace OpTree

/-- The tokens of a tree. -/
def tokens (tree : OpTree g) : List Token := tree.first.tokens ++ Chain.tokens tree.chain

theorem tokens_join (k : Link g) (left right : OpTree g) :
    (join k left right).tokens = left.tokens ++ k.token :: right.tokens := by
  simp only [tokens, first, chain, Chain.tokens, List.flatMap_append, List.flatMap_cons,
    List.append_assoc, List.cons_append]

/-- The operands of a tree, in order. -/
def operands (tree : OpTree g) : List (Operand g) := tree.first :: tree.chain.map Prod.snd

theorem operands_join (k : Link g) (left right : OpTree g) :
    (join k left right).operands = left.operands ++ right.operands := by
  simp only [operands, first, chain, List.map_append, List.map_cons, List.cons_append]

/-- The tree as the reader represents it. -/
def parsed : OpTree g → Parsed
  | leaf o => o.parsed
  | join k left right =>
    ⟨.binary k.token.surface left.parsed.tree right.parsed.tree (g.site k.token),
      max left.parsed.height right.parsed.height + 1⟩

/-- Builds a tree from its operands, which are read at this depth. -/
def build (depth : Nat) : OpTree g → Except Fault Parsed
  | leaf o => do
    let (p, _) ← operand g (2 * o.tokens.length + 1) depth o.tokens
    return p
  | join k left right => do
    let l ← left.build depth
    let r ← right.build depth
    combine g k.op k.token l r

theorem combine_link (k : Link g) (left right : Parsed) :
    combine g k.op k.token left right =
      if max left.height right.height + 1 ≤ maxNesting then
        .ok ⟨.binary k.token.surface left.tree right.tree (g.site k.token),
          max left.height right.height + 1⟩
      else g.refuse .nestedTooDeep k.token := by
  obtain ⟨apply, hrole⟩ := k.plain
  unfold combine
  by_cases hheight : max left.height right.height + 1 ≤ maxNesting
  · simp only [hrole, hheight, gt_iff_lt, Nat.not_lt.mpr hheight, ↓reduceIte]
    rfl
  · simp only [hheight, gt_iff_lt, Nat.lt_of_not_le hheight, ↓reduceIte]

/-- A tree can be built if its operands can be read and it is not too high. The height of an
operand that stands alone does not count. -/
theorem build_of_fits {depth : Nat} (hfits : ∀ o ∈ tree.operands, o.FitsAt depth)
    (hheight : tree.chain = [] ∨ tree.parsed.height ≤ maxNesting) :
    tree.build depth = .ok tree.parsed := by
  induction tree with
  | leaf o =>
    have ho : o.FitsAt depth := hfits o (by simp [operands, first])
    unfold Operand.FitsAt at ho
    simp only [build, ho]
    rfl
  | join k left right ihl ihr =>
    have hheight : max left.parsed.height right.parsed.height + 1 ≤ maxNesting := by
      rcases hheight with hchain | hheight
      · simp [chain] at hchain
      · exact hheight
    have hleft := ihl (fun o ho => hfits o (by simp [operands_join, ho])) (Or.inr (by omega))
    have hright := ihr (fun o ho => hfits o (by simp [operands_join, ho])) (Or.inr (by omega))
    have hcombine := combine_link k left.parsed right.parsed
    rw [if_pos hheight] at hcombine
    unfold build
    rw [hleft, hright]
    exact hcombine

/-- A tree of which an operand does not fit, or which is too high, is refused for it. -/
theorem build_of_not_fits {tree : OpTree g} {depth : Nat}
    (h : ¬ ((∀ o ∈ tree.operands, o.FitsAt depth) ∧
      (tree.chain = [] ∨ tree.parsed.height ≤ maxNesting))) :
    ∃ t, tree.build depth = g.refuse .nestedTooDeep t := by
  induction tree with
  | leaf o =>
    have ho : ¬ o.FitsAt depth := by
      intro ho
      exact h ⟨by simpa [operands, first, chain] using ho, Or.inl rfl⟩
    have hrefused := Operand.operand_of_not_fits ho (Nat.le_refl _) []
    rw [List.append_nil] at hrefused
    refine ⟨g.last, ?_⟩
    simp only [build, hrefused]
    rfl
  | join k left right ihl ihr =>
    by_cases hl : (∀ o ∈ left.operands, o.FitsAt depth) ∧
        (left.chain = [] ∨ left.parsed.height ≤ maxNesting)
    case neg =>
      obtain ⟨t, ht⟩ := ihl hl
      exact ⟨t, by unfold build; rw [ht]; rfl⟩
    have hleft := build_of_fits hl.1 hl.2
    by_cases hr : (∀ o ∈ right.operands, o.FitsAt depth) ∧
        (right.chain = [] ∨ right.parsed.height ≤ maxNesting)
    case neg =>
      obtain ⟨t, ht⟩ := ihr hr
      exact ⟨t, by unfold build; rw [hleft, ht]; rfl⟩
    have hright := build_of_fits hr.1 hr.2
    have hheight : ¬ max left.parsed.height right.parsed.height + 1 ≤ maxNesting := by
      intro hheight
      refine h ⟨?_, Or.inr hheight⟩
      intro o ho
      rw [operands_join, List.mem_append] at ho
      rcases ho with ho | ho
      · exact hl.1 o ho
      · exact hr.1 o ho
    have hcombine := combine_link k left.parsed right.parsed
    rw [if_neg hheight] at hcombine
    refine ⟨k.token, ?_⟩
    unfold build
    rw [hleft, hright]
    exact hcombine

end OpTree

/-! ## Climbing -/

/-- One operator of a chain, its right operand, and on. -/
theorem climb_link (k : Link g) (fuel depth least : Nat) (hleast : least ≤ k.op.precedence)
    (left : Parsed) (rest : List Token) :
    climb g (fuel + 1) depth least left (k.token :: rest) =
      expression g fuel depth (rightLeast k.op) rest >>= fun (right, rest) =>
        combine g k.op k.token left right >>= fun left => climb g fuel depth least left rest := by
  obtain ⟨apply, hrole⟩ := k.plain
  refine climb_of_operator fuel depth k.isOperator k.found (by omega) ?_
  simp only [trailing, hrole, Bool.false_and]

namespace OpTree

/-- How many operators stand on the way from the root to the first operand. -/
def spine : OpTree g → Nat
  | leaf _ => 0
  | join _ left _ => left.spine + 1

theorem spine_lt_length (tree : OpTree g) : tree.spine < tree.tokens.length := by
  induction tree with
  | leaf o =>
    have hpos := o.length_pos
    simp only [spine, tokens, first, List.length_append]
    omega
  | join k left right ihl _ =>
    rw [tokens_join, List.length_append, List.length_cons]
    simp only [spine]
    omega

/-- Reading the tokens of a tree that respects its operators is building the tree and reading
on, if no operator comes next that would go into it. -/
theorem expression_tokens (h : tree.Respects) (depth : Nat) {least : Nat} {more : List Token}
    (hroot : ∀ o ∈ tree.root?, least ≤ o.precedence ∧ Ends g (rightLeast o) more)
    (hfuel : 2 * tree.tokens.length + 1 ≤ fuel) :
    expression g (fuel + 1) depth least (tree.tokens ++ more) =
      tree.build depth >>= fun left => climb g (fuel - tree.spine) depth least left more := by
  induction tree generalizing least more fuel with
  | leaf o =>
    have hfuel : 2 * o.tokens.length + 1 ≤ fuel := by
      simpa [tokens, first, chain, Chain.tokens] using hfuel
    have htokens : (leaf o).tokens ++ more = o.tokens ++ more := by
      simp [tokens, first, chain, Chain.tokens]
    rw [expression_succ, htokens]
    by_cases hfits : o.FitsAt depth
    · rw [Operand.operand_of_fits hfits hfuel]
      unfold Operand.FitsAt at hfits
      simp only [build, hfits]
      rfl
    · have hrefused := Operand.operand_of_not_fits hfits (Nat.le_refl _) []
      rw [List.append_nil] at hrefused
      rw [Operand.operand_of_not_fits hfits hfuel]
      simp only [build, hrefused]
      rfl
  | join k left right ihl ihr =>
    obtain ⟨hl, hr, hleft, hright⟩ := respects_join.mp h
    obtain ⟨hleast, hmore⟩ := hroot k.op rfl
    rw [tokens_join, List.length_append, List.length_cons] at hfuel
    have hspine := left.spine_lt_length
    -- The left side is read first; the operator of the node ends it.
    have hlroot : ∀ p ∈ left.root?, least ≤ p.precedence ∧
        Ends g (rightLeast p) (k.token :: (right.tokens ++ more)) := by
      intro p hp
      have hlt := hl p hp
      refine ⟨?_, ?_⟩
      · rcases lt_rightLeast_iff.mp hlt with hlt | ⟨heq, _⟩ <;> omega
      · intro t ht _
        rw [← Option.some.inj ht]
        exact ⟨k.op, k.found, hlt⟩
    have hlfuel : 2 * left.tokens.length + 1 ≤ fuel := by omega
    have hlread := ihl hleft hlroot hlfuel
    -- Then the right side, up to what ends the whole tree.
    have hrroot : ∀ q ∈ right.root?, rightLeast k.op ≤ q.precedence ∧
        Ends g (rightLeast q) more := by
      intro q hq
      have hle := hr q hq
      have hge := precedence_le_rightLeast q
      exact ⟨hle, hmore.mono (by omega)⟩
    obtain ⟨f, hf⟩ : ∃ f, fuel - left.spine = f + 2 := ⟨fuel - left.spine - 2, by omega⟩
    have hrfuel : 2 * right.tokens.length + 1 ≤ f := by omega
    have hrread := ihr hright hrroot hrfuel
    have hrspine := right.spine_lt_length
    obtain ⟨f', hf'⟩ : ∃ f', f - right.spine = f' + 1 := ⟨f - right.spine - 1, by omega⟩
    have hspines : fuel - (join k left right).spine = f + 1 := by
      simp only [spine]
      omega
    rw [tokens_join, List.append_assoc, List.cons_append, hlread, hf, hspines, build]
    cases left.build depth with
    | error fault => rfl
    | ok l =>
      have hlink := climb_link k (f + 1) depth least hleast l (right.tokens ++ more)
      rw [hrread] at hlink
      refine hlink.trans ?_
      cases right.build depth with
      | error fault => rfl
      | ok r =>
        have hends := climb_of_ends hmore f' depth r
        rw [← hf'] at hends
        dsimp only [bind, Except.bind]
        rw [hends]

theorem counted_parsed (tree : OpTree g) : tree.parsed.Counted := by
  induction tree with
  | leaf o =>
    obtain ⟨taken, _, hspans, _⟩ := (takes g _).operand o.reads
    exact hspans.counted
  | join k left right ihl ihr =>
    unfold Parsed.Counted at *
    simp only [parsed, Expr.counted, ihl, ihr]

end OpTree

/-! ## Chains -/

/-- What is read of a chain is what is built of the tree that respects its operators. -/
theorem expression_chain (h : tree.Respects) (depth : Nat) {rest : List Token}
    (hrest : ∀ t ∈ rest.head?, t.kind ≠ .operator) (hfuel : 2 * tree.tokens.length + 2 ≤ fuel) :
    expression g fuel depth 0 (tree.tokens ++ rest) =
      tree.build depth >>= fun p => .ok (p, rest) := by
  have hends : ∀ least, Ends g least rest := fun least t ht hkind => absurd hkind (hrest t ht)
  have hspine := tree.spine_lt_length
  obtain ⟨f, rfl⟩ : ∃ f, fuel = f + 1 := ⟨fuel - 1, by omega⟩
  obtain ⟨f', hf'⟩ : ∃ f', f - tree.spine = f' + 1 := ⟨f - tree.spine - 1, by omega⟩
  rw [OpTree.expression_tokens h depth (fun o _ => ⟨Nat.zero_le _, hends _⟩) (by omega), hf']
  simp only [climb_of_ends (hends 0) f' depth]

/-- Of the trees with the operands and operators of a chain in order exactly one respects the
precedence of the operators and the sides to which they group, whatever these are. The reader
returns it if each operand can be read at this depth and the tree is not too high, where the
height of an operand that stands alone is not looked at; otherwise the script is malformed.
As for the height, a definition in parentheses may count as one level more than it has. -/
theorem precedence_decides_the_tree (g : Setting) (first : Operand g) (chain : Chain g)
    (depth : Nat) {rest : List Token} (hrest : ∀ t ∈ rest.head?, t.kind ≠ .operator) {fuel : Nat}
    (hfuel : 2 * (first.tokens ++ chain.tokens).length + 2 ≤ fuel) :
    ∃ tree : OpTree g,
      (tree.first = first ∧ tree.chain = chain ∧ tree.Respects) ∧
      (∀ other : OpTree g,
        other.first = first → other.chain = chain → other.Respects → other = tree) ∧
      ((∀ o ∈ first :: chain.map Prod.snd, o.FitsAt depth) ∧
          (chain = [] ∨ tree.parsed.tree.counted ≤ maxNesting) →
        expression g fuel depth 0 (first.tokens ++ chain.tokens ++ rest) =
          .ok (tree.parsed, rest)) ∧
      (¬ ((∀ o ∈ first :: chain.map Prod.snd, o.FitsAt depth) ∧
          (chain = [] ∨ tree.parsed.tree.counted ≤ maxNesting)) →
        ∃ f, expression g fuel depth 0 (first.tokens ++ chain.tokens ++ rest) = .error f ∧
          f.kind = .malformed) ∧
      tree.parsed.tree.height ≤ tree.parsed.tree.counted ∧
      tree.parsed.tree.counted ≤ tree.parsed.tree.height + 1 := by
  let tree := (OpTree.leaf first).group chain
  have hfirst : tree.first = first := OpTree.first_group _ _
  have hchain : tree.chain = chain := OpTree.chain_group _ _
  have hleaf : (OpTree.leaf first).Respects := trivial
  have hrespects : tree.Respects := OpTree.respects_group hleaf chain
  have htokens : tree.tokens = first.tokens ++ chain.tokens := by
    simp only [OpTree.tokens, hfirst, hchain]
  have hoperands : tree.operands = first :: chain.map Prod.snd := by
    simp only [OpTree.operands, hfirst, hchain]
  rw [← htokens] at hfuel
  have hread := expression_chain hrespects depth hrest hfuel
  have hcounted : tree.parsed.height = tree.parsed.tree.counted := tree.counted_parsed
  rw [htokens] at hread
  refine ⟨tree, ⟨hfirst, hchain, hrespects⟩, ?_, ?_, ?_, tree.parsed.tree.counted_bounds⟩
  · intro other hfirst' hchain' hother
    rw [OpTree.eq_group hother, hfirst', hchain']
  · intro hfits
    rw [← hoperands, ← hcounted, ← hchain] at hfits
    rw [hread, OpTree.build_of_fits hfits.1 hfits.2]
    rfl
  · intro hfits
    rw [← hoperands, ← hcounted, ← hchain] at hfits
    obtain ⟨t, ht⟩ := OpTree.build_of_not_fits hfits
    refine ⟨.ofSite .nestedTooDeep (g.site t), ?_, rfl⟩
    rw [hread, ht]
    rfl

/-- In `a - b * c - d` the product comes first, then the first difference. -/
theorem a_product_goes_before_a_difference :
    let apply : Kind → Lazy → Lazy → Run Value := fun kind left _ => left kind
    let minus : BinaryOperator := ⟨1, .left, .evaluates apply⟩
    let times : BinaryOperator := ⟨2, .left, .evaluates apply⟩
    let lang := (Language.empty.addBinary "-" minus).addBinary "*" times
    let named (name : String) : Token := ⟨.name, name, .start⟩
    let sign (text : String) : Token := ⟨.operator, text, .start⟩
    let g : Setting := ⟨lang, ⟨"a - b * c - d", none⟩, named "d"⟩
    let var (name : String) : Expr := .var name false (g.site (named name))
    let join (text : String) (left right : Expr) : Expr :=
      .binary text left right (g.site (sign text))
    expression g 16 0 0
        [named "a", sign "-", named "b", sign "*", named "c", sign "-", named "d"] =
      .ok (⟨join "-" (join "-" (var "a") (join "*" (var "b") (var "c"))) (var "d"), 4⟩, []) := by
  intro apply minus times lang named sign g var join
  let o (name : String) : Operand g :=
    ⟨[named name], .leaf (var name), by simp [named], by simp [operand, maxNesting, named, var]⟩
  let k : Link g := ⟨sign "-", minus, rfl, rfl, apply, rfl⟩
  let l : Link g := ⟨sign "*", times, rfl, rfl, apply, rfl⟩
  let grouped : OpTree g :=
    .join k (.join k (.leaf (o "a")) (.join l (.leaf (o "b")) (.leaf (o "c")))) (.leaf (o "d"))
  have hgrouped : grouped.Respects := by
    simp [grouped, OpTree.Respects, OpTree.root?, k, l, minus, times]
  have hrest : ∀ t ∈ ([] : List Token).head?, t.kind ≠ .operator := by simp
  have hfuel : 2 * ((o "a").tokens ++
      Chain.tokens [(k, o "b"), (l, o "c"), (k, o "d")]).length + 2 ≤ 16 := by decide
  obtain ⟨tree, _, hunique, hread, _⟩ := precedence_decides_the_tree g (o "a")
    [(k, o "b"), (l, o "c"), (k, o "d")] 0 hrest hfuel
  have htree : grouped = tree := hunique grouped rfl rfl hgrouped
  subst htree
  refine hread ⟨?_, Or.inr ?_⟩
  · intro operand _
    exact operand.reads
  · decide

end TickScript.Reader
