-- Trees of operands and operators. Of the trees with the same operands and operators in the
-- same order exactly one respects the precedence of the operators and the sides to which
-- they group.
import TickScript.Expr.Reader

namespace TickScript.Reader

/-! ## Chains and trees -/

/-- An operator that evaluates its two operands, and the token it is written as. -/
structure Link (g : Setting) where
  token : Token
  op : BinaryOperator
  isOperator : token.kind = .operator
  found : g.lang.binary? token.surface = some op
  plain : ∃ apply, op.role = .evaluates apply

/-- The tokens of a literal, a variable, a call or an expression in parentheses, and what
they are read as on their own. -/
structure Operand (g : Setting) where
  tokens : List Token
  parsed : Parsed
  begins : ∀ t ∈ tokens.head?, t.kind ≠ .unary
  reads : operand g (2 * tokens.length + 1) 0 tokens = .ok (parsed, [])

/-- What follows the first operand of a chain: operators, each with the operand after it. -/
abbrev Chain (g : Setting) := List (Link g × Operand g)

/-- The tokens of a chain. -/
def Chain.tokens {g : Setting} (chain : Chain g) : List Token :=
  chain.flatMap fun (k, o) => k.token :: o.tokens

/-- A way to group a chain. -/
inductive OpTree (g : Setting) where
  | leaf (o : Operand g)
  | join (k : Link g) (left right : OpTree g)

namespace OpTree

variable {g : Setting}

/-- The operator at the root, if there is one. -/
def root? : OpTree g → Option BinaryOperator
  | leaf _ => none
  | join k _ _ => some k.op

/-- The first operand. -/
def first : OpTree g → Operand g
  | leaf o => o
  | join _ left _ => left.first

/-- The operators and the other operands, in order. -/
def chain : OpTree g → Chain g
  | leaf _ => []
  | join k left right => left.chain ++ (k, right.first) :: right.chain

/-- At every node the operator at the root of the left side binds tighter or as tight and
groups to the left, and that of the right side binds tighter or as tight if the node groups
to the right. -/
def Respects : OpTree g → Prop
  | leaf _ => True
  | join k left right =>
    (∀ p ∈ left.root?, k.op.precedence < p.precedence ∨
      p.precedence = k.op.precedence ∧ p.side = .left) ∧
    (∀ q ∈ right.root?, k.op.precedence < q.precedence ∨
      q.precedence = k.op.precedence ∧ k.op.side = .right) ∧
    left.Respects ∧ right.Respects

end OpTree

/-! ## Precedence as a bound -/

theorem precedence_le_rightLeast (o : BinaryOperator) : o.precedence ≤ rightLeast o := by
  unfold rightLeast
  cases o.side with
  | left => simp
  | right => simp

/-- What may stand to the left of an operator. -/
theorem lt_rightLeast_iff {o p : BinaryOperator} :
    o.precedence < rightLeast p ↔
      o.precedence < p.precedence ∨ p.precedence = o.precedence ∧ p.side = .left := by
  unfold rightLeast
  cases hp : p.side with
  | left =>
    simp only [and_true]
    omega
  | right => simp

/-- What may stand to the right of an operator. -/
theorem rightLeast_le_iff {o q : BinaryOperator} :
    rightLeast o ≤ q.precedence ↔
      o.precedence < q.precedence ∨ q.precedence = o.precedence ∧ o.side = .right := by
  unfold rightLeast
  cases ho : o.side with
  | left =>
    simp only [reduceCtorEq, and_false, or_false]
    omega
  | right =>
    simp only [and_true]
    omega

namespace OpTree

variable {g : Setting} {tree : OpTree g} {k : Link g}

theorem respects_join {left right : OpTree g} :
    (join k left right).Respects ↔
      (∀ p ∈ left.root?, k.op.precedence < rightLeast p) ∧
      (∀ q ∈ right.root?, rightLeast k.op ≤ q.precedence) ∧
      left.Respects ∧ right.Respects := by
  simp only [Respects, lt_rightLeast_iff, rightLeast_le_iff]

/-- No operator of a tree is looser than the one at its root. -/
theorem le_precedence_of_mem_chain (h : tree.Respects) {least : Nat}
    (hroot : ∀ o ∈ tree.root?, least ≤ o.precedence) :
    ∀ entry ∈ tree.chain, least ≤ entry.1.op.precedence := by
  induction tree with
  | leaf o => simp [chain]
  | join k left right ihl ihr =>
    obtain ⟨hl, hr, hleft, hright⟩ := respects_join.mp h
    have hk : least ≤ k.op.precedence := hroot k.op rfl
    intro entry hentry
    rcases List.mem_append.mp hentry with hentry | hentry
    · refine ihl hleft (fun p hp => ?_) entry hentry
      rcases lt_rightLeast_iff.mp (hl p hp) with hlt | ⟨heq, _⟩ <;> omega
    · rcases List.mem_cons.mp hentry with rfl | hentry
      · exact hk
      · refine ihr hright (fun q hq => ?_) entry hentry
        have hle := hr q hq
        have hge := precedence_le_rightLeast k.op
        omega

/-! ## Grouping a chain -/

/-- The tree with one more operator and operand at its end. They go as far down the right
side as the operator binds tighter than what is there. -/
def extend : OpTree g → Link g → Operand g → OpTree g
  | leaf p, k, o => join k (leaf p) (leaf o)
  | join j left right, k, o =>
    if k.op.precedence < rightLeast j.op then join k (join j left right) (leaf o)
    else join j left (right.extend k o)

/-- Groups a chain, one operator after the other. -/
def group (tree : OpTree g) (chain : Chain g) : OpTree g :=
  chain.foldl (fun tree (k, o) => tree.extend k o) tree

theorem first_extend (tree : OpTree g) (k : Link g) (o : Operand g) :
    (tree.extend k o).first = tree.first := by
  cases tree with
  | leaf p => rfl
  | join j left right =>
    unfold extend
    split <;> rfl

theorem chain_extend (tree : OpTree g) (k : Link g) (o : Operand g) :
    (tree.extend k o).chain = tree.chain ++ [(k, o)] := by
  induction tree with
  | leaf p => rfl
  | join j left right _ ih =>
    unfold extend
    split
    · rfl
    · simp only [chain, ih, first_extend, List.append_assoc, List.cons_append]

/-- The operator at the root is the new one or the one that was there. -/
theorem root?_extend {o : Operand g} {q : BinaryOperator} (h : q ∈ (tree.extend k o).root?) :
    q = k.op ∨ q ∈ tree.root? := by
  cases tree with
  | leaf p => exact Or.inl (Option.some.inj h).symm
  | join j left right =>
    unfold extend at h
    split at h
    · exact Or.inl (Option.some.inj h).symm
    · exact Or.inr h

theorem respects_extend (h : tree.Respects) (k : Link g) (o : Operand g) :
    (tree.extend k o).Respects := by
  induction tree with
  | leaf p => simp [extend, Respects, root?]
  | join j left right _ ih =>
    obtain ⟨hl, hr, hleft, hright⟩ := respects_join.mp h
    unfold extend
    split
    · rename_i hlt
      refine respects_join.mpr ⟨?_, by simp [root?], h, trivial⟩
      intro p hp
      rw [← Option.some.inj hp]
      exact hlt
    · rename_i hge
      refine respects_join.mpr ⟨hl, ?_, hleft, ih hright⟩
      intro q hq
      rcases root?_extend hq with rfl | hq
      · omega
      · exact hr q hq

/-- A grouped chain has its operands and operators in order. -/
theorem first_group (tree : OpTree g) (chain : Chain g) :
    (tree.group chain).first = tree.first := by
  induction chain generalizing tree with
  | nil => rfl
  | cons entry rest ih =>
    obtain ⟨k, o⟩ := entry
    exact (ih (tree.extend k o)).trans (first_extend tree k o)

theorem chain_group (tree : OpTree g) (more : Chain g) :
    (tree.group more).chain = tree.chain ++ more := by
  induction more generalizing tree with
  | nil => simp [group]
  | cons entry rest ih =>
    obtain ⟨k, o⟩ := entry
    have hrest : (tree.group ((k, o) :: rest)).chain = (tree.extend k o).chain ++ rest :=
      ih (tree.extend k o)
    rw [hrest, chain_extend, List.append_assoc, List.cons_append, List.nil_append]

theorem respects_group (h : tree.Respects) (chain : Chain g) : (tree.group chain).Respects := by
  induction chain generalizing tree with
  | nil => exact h
  | cons entry rest ih =>
    obtain ⟨k, o⟩ := entry
    exact ih (respects_extend h k o)

/-- Operators that bind tighter than a node are grouped on its right side. -/
theorem group_join {left right : OpTree g} {more : Chain g}
    (h : ∀ entry ∈ more, rightLeast k.op ≤ entry.1.op.precedence) :
    (join k left right).group more = join k left (right.group more) := by
  induction more generalizing right with
  | nil => rfl
  | cons entry rest ih =>
    obtain ⟨j, o⟩ := entry
    have hj : ¬ j.op.precedence < rightLeast k.op :=
      Nat.not_lt.mpr (h (j, o) List.mem_cons_self)
    have hextend : (join k left right).extend j o = join k left (right.extend j o) := by
      simp only [extend, hj, ↓reduceIte]
    calc (join k left right).group ((j, o) :: rest)
        = ((join k left right).extend j o).group rest := rfl
      _ = (join k left (right.extend j o)).group rest := by rw [hextend]
      _ = join k left ((right.extend j o).group rest) :=
          ih fun entry hentry => h entry (List.mem_cons_of_mem _ hentry)

/-- A looser operator takes the whole tree as its left side. -/
theorem extend_of_lt (h : ∀ p ∈ tree.root?, k.op.precedence < rightLeast p) (o : Operand g) :
    tree.extend k o = join k tree (leaf o) := by
  cases tree with
  | leaf p => rfl
  | join j left right => simp only [extend, h j.op rfl, ↓reduceIte]

/-- A tree that respects its operators is the grouping of its chain. -/
theorem eq_group (h : tree.Respects) : tree = (leaf tree.first).group tree.chain := by
  induction tree with
  | leaf o => rfl
  | join k left right ihl ihr =>
    obtain ⟨hl, hr, hleft, hright⟩ := respects_join.mp h
    have htighter : ∀ entry ∈ right.chain, rightLeast k.op ≤ entry.1.op.precedence :=
      le_precedence_of_mem_chain hright hr
    calc join k left right
        = join k left ((leaf right.first).group right.chain) := by rw [← ihr hright]
      _ = (join k left (leaf right.first)).group right.chain := (group_join htighter).symm
      _ = (left.extend k right.first).group right.chain := by rw [extend_of_lt hl]
      _ = left.group ((k, right.first) :: right.chain) := rfl
      _ = ((leaf left.first).group left.chain).group ((k, right.first) :: right.chain) := by
          rw [← ihl hleft]
      _ = (leaf left.first).group (left.chain ++ (k, right.first) :: right.chain) := by
          simp only [group, List.foldl_append]

end OpTree

end TickScript.Reader
