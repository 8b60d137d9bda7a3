-- The steps of the reader: what each of its functions does by the next token, and what a step that
-- ends well can be.
import TickScript.Expr.Reader

namespace TickScript

namespace Reader

variable {g : Setting}

/-! ## The steps of the reader -/

theorem of_bind_ok {α β : Type} {x : Except Fault α} {f : α → Except Fault β} {b : β}
    (h : x >>= f = .ok b) : ∃ a, x = .ok a ∧ f a = .ok b := by
  cases x with
  | error fault => cases h
  | ok a => exact ⟨a, rfl, h⟩

theorem expression_succ (fuel depth least : Nat) (tokens : List Token) :
    expression g (fuel + 1) depth least tokens =
      operand g fuel depth tokens >>= fun (left, rest) => climb g fuel depth least left rest := by
  rw [expression]

/-- Nothing is read of no tokens. -/
theorem operand_nil (fuel depth : Nat) (x : Parsed × List Token) :
    operand g fuel depth [] ≠ .ok x := by
  intro h
  cases fuel with
  | zero =>
    rw [operand] at h
    cases h
  | succ fuel =>
    rw [operand] at h
    split at h <;> cases h

theorem expression_nil (fuel depth least : Nat) (x : Parsed × List Token) :
    expression g fuel depth least [] ≠ .ok x := by
  intro h
  cases fuel with
  | zero =>
    rw [expression] at h
    cases h
  | succ fuel =>
    rw [expression_succ] at h
    obtain ⟨y, hy, _⟩ := of_bind_ok h
    exact operand_nil fuel depth y hy

/-- A sequence of statements may end with its operator. -/
def trailing (op : BinaryOperator) (rest : List Token) : Bool :=
  (op.role matches .sequences) && atOperandEnd rest

theorem trailing_append {rest : List Token} (hrest : rest ≠ []) (op : BinaryOperator)
    (more : List Token) : trailing op (rest ++ more) = trailing op rest := by
  cases rest with
  | nil => exact absurd rfl hrest
  | cons t others => rfl

section Climbing

variable {t : Token} {rest : List Token} {left : Parsed} {op : BinaryOperator} (fuel depth : Nat)
  {least : Nat}

theorem climb_of_not_operator (ht : t.kind ≠ .operator) :
    climb g (fuel + 1) depth least left (t :: rest) = .ok (left, t :: rest) := by
  rw [climb, if_pos ht]

theorem climb_of_unknown (ht : t.kind = .operator) (hop : g.lang.binary? t.surface = none) :
    climb g (fuel + 1) depth least left (t :: rest) = g.refuse (.notBinary t.surface) t := by
  rw [climb, if_neg (not_not_intro ht), hop]

theorem climb_of_looser (ht : t.kind = .operator) (hop : g.lang.binary? t.surface = some op)
    (hleast : op.precedence < least) :
    climb g (fuel + 1) depth least left (t :: rest) = .ok (left, t :: rest) := by
  rw [climb, if_neg (not_not_intro ht), hop]
  simp only [hleast, ↓reduceIte]

theorem climb_of_trailing (ht : t.kind = .operator) (hop : g.lang.binary? t.surface = some op)
    (hleast : ¬ op.precedence < least)
    (hend : trailing op rest = true) :
    climb g (fuel + 1) depth least left (t :: rest) = .ok (left, rest) := by
  rw [climb, if_neg (not_not_intro ht), hop]
  exact (if_neg hleast).trans (if_pos hend)

theorem climb_of_operator (ht : t.kind = .operator) (hop : g.lang.binary? t.surface = some op)
    (hleast : ¬ op.precedence < least)
    (hend : trailing op rest = false) :
    climb g (fuel + 1) depth least left (t :: rest) =
      expression g fuel depth (rightLeast op) rest >>= fun (right, rest) =>
        combine g op t left right >>= fun left => climb g fuel depth least left rest := by
  rw [climb, if_neg (not_not_intro ht), hop]
  exact (if_neg hleast).trans (if_neg (Bool.eq_false_iff.mp hend))

end Climbing

/-- No operator of at least this precedence comes next. -/
def Ends (g : Setting) (least : Nat) (more : List Token) : Prop :=
  ∀ t ∈ more.head?, t.kind = .operator →
    ∃ op, g.lang.binary? t.surface = some op ∧ op.precedence < least

theorem climb_of_ends {least : Nat} {more : List Token} (h : Ends g least more)
    (fuel depth : Nat) (left : Parsed) :
    climb g (fuel + 1) depth least left more = .ok (left, more) := by
  rcases more with _ | ⟨t, rest⟩
  · rw [climb]
    simp
  by_cases ht : t.kind = .operator
  · obtain ⟨op, hop, hlt⟩ := h t rfl ht
    exact climb_of_looser fuel depth ht hop hlt
  · exact climb_of_not_operator fuel depth ht

theorem Ends.mono {least higher : Nat} {more : List Token} (h : Ends g least more)
    (hle : least ≤ higher) : Ends g higher more := by
  intro t ht hkind
  obtain ⟨op, hop, hlt⟩ := h t ht hkind
  exact ⟨op, hop, by omega⟩

/-- What follows an expression in parentheses. -/
def close (g : Setting) (opening : Token) : Parsed × List Token → Reading
  | (_, []) => g.refuse .unbalancedOpening opening
  | (inner, next :: others) =>
    if next.kind = .closing then .ok (inner, others)
    else g.refuse (.expectedClosing next.surface) next

/-- What follows an argument of a call. -/
def afterArgument (g : Setting) (fuel depth : Nat) (name : Token) (args : List Expr)
    (height : Nat) : Parsed × List Token → Reading
  | (_, []) => g.refuse (.unclosedCall name.surface) name
  | (arg, next :: others) =>
    if next.kind = .comma then
      arguments g fuel depth name (args ++ [arg.tree]) (max height arg.height) others
    else if next.kind = .closing then
      finishCall g name (args ++ [arg.tree]) (max height arg.height) >>= fun parsed =>
        .ok (parsed, others)
    else g.refuse (.expectedCommaOrClosing next.surface) next

theorem arguments_succ (fuel depth : Nat) (name : Token) (args : List Expr) (height : Nat)
    (tokens : List Token) :
    arguments g (fuel + 1) depth name args height tokens =
      expression g fuel depth 0 tokens >>= afterArgument g fuel depth name args height := by
  rw [arguments]
  congr 1
  funext x
  obtain ⟨arg, rest⟩ := x
  cases rest <;> rfl

theorem arguments_nil (fuel depth : Nat) (name : Token) (args : List Expr) (height : Nat)
    (x : Parsed × List Token) : arguments g fuel depth name args height [] ≠ .ok x := by
  intro h
  cases fuel with
  | zero =>
    rw [arguments] at h
    cases h
  | succ fuel =>
    rw [arguments_succ] at h
    obtain ⟨y, hy, _⟩ := of_bind_ok h
    exact expression_nil fuel depth 0 y hy

/-- What a token is read as that is an operand on its own. -/
def single (g : Setting) (t : Token) : Except Fault Parsed :=
  match t.kind with
  | .number =>
    match Number.readUnsigned? t.surface.toList with
    | some x => .ok (.leaf (.number x))
    | none => g.refuse (.malformedNumber t.surface) t
  | .hex =>
    match Number.readHex? (t.surface.toList.drop 2) with
    | some x => .ok (.leaf (.number x))
    | none => g.refuse (.malformedHex t.surface) t
  | .text => .ok (.leaf (.text t.surface))
  | .name => .ok (.leaf (.var t.surface false (g.site t)))
  | _ => g.refuse (.unexpected t.surface) t

section Operands

variable {t : Token} {depth : Nat} (fuel : Nat) (rest : List Token)

theorem operand_of_deep (hdepth : ¬ depth + 1 ≤ maxNesting) (tokens : List Token) :
    operand g (fuel + 1) depth tokens = g.refuse .nestedTooDeep g.last := by
  have hdeep : depth + 1 > maxNesting := Nat.lt_of_not_le hdepth
  cases tokens with
  | nil => simp only [operand, hdeep, ↓reduceIte]
  | cons t rest => simp only [operand, hdeep, ↓reduceIte]

/-- Most operands are a single token. -/
theorem operand_of_single (hdepth : depth + 1 ≤ maxNesting) (hcall : t.kind ≠ .call)
    (hopening : t.kind ≠ .opening) (hunary : t.kind ≠ .unary) :
    operand g (fuel + 1) depth (t :: rest) = single g t >>= fun p => .ok (p, rest) := by
  cases ht : t.kind with
  | call => exact absurd ht hcall
  | opening => exact absurd ht hopening
  | unary => exact absurd ht hunary
  | number =>
    simp only [operand, single, Nat.not_lt.mpr hdepth, ↓reduceIte, ht]
    cases Number.readUnsigned? t.surface.toList <;> rfl
  | hex =>
    simp only [operand, single, Nat.not_lt.mpr hdepth, ↓reduceIte, ht]
    cases Number.readHex? (t.surface.toList.drop 2) <;> rfl
  | text | name | operator | closing | comma =>
    simp only [operand, single, Nat.not_lt.mpr hdepth, ↓reduceIte, ht]
    rfl

variable (hdepth : depth + 1 ≤ maxNesting)

include hdepth

theorem operand_of_call_nil (ht : t.kind = .call) (hrest : rest.drop 1 = []) :
    operand g (fuel + 1) depth (t :: rest) = arguments g fuel (depth + 1) t [] 0 [] := by
  simp only [operand, gt_iff_lt, Nat.not_lt.mpr hdepth, ↓reduceIte, ht, hrest]

theorem operand_of_call_closing {next : Token} {others : List Token} (ht : t.kind = .call)
    (hrest : rest.drop 1 = next :: others) (hnext : next.kind = .closing) :
    operand g (fuel + 1) depth (t :: rest) =
      finishCall g t [] 0 >>= fun parsed => .ok (parsed, others) := by
  simp only [operand, gt_iff_lt, Nat.not_lt.mpr hdepth, ↓reduceIte, ht, hrest, hnext]
  rfl

theorem operand_of_call {next : Token} {others : List Token} (ht : t.kind = .call)
    (hrest : rest.drop 1 = next :: others) (hnext : next.kind ≠ .closing) :
    operand g (fuel + 1) depth (t :: rest) =
      arguments g fuel (depth + 1) t [] 0 (next :: others) := by
  simp only [operand, gt_iff_lt, Nat.not_lt.mpr hdepth, ↓reduceIte, ht, hrest, hnext]

theorem operand_of_opening (ht : t.kind = .opening) :
    operand g (fuel + 1) depth (t :: rest) =
      expression g fuel (depth + 1) 0 rest >>= close g t := by
  simp only [operand, gt_iff_lt, Nat.not_lt.mpr hdepth, ↓reduceIte, ht]
  congr 1
  funext x
  obtain ⟨inner, others⟩ := x
  cases others <;> rfl

theorem operand_of_unary_unknown (ht : t.kind = .unary) (hop : g.lang.unary? t.surface = none) :
    operand g (fuel + 1) depth (t :: rest) = g.refuse (.notUnary t.surface) t := by
  simp only [operand, gt_iff_lt, Nat.not_lt.mpr hdepth, ↓reduceIte, ht, hop]

theorem operand_of_unary {op : UnaryOperator} (ht : t.kind = .unary)
    (hop : g.lang.unary? t.surface = some op) :
    operand g (fuel + 1) depth (t :: rest) =
      expression g fuel (depth + 1) op.precedence rest >>= fun (inner, rest) =>
        .ok (⟨.unary t.surface inner.tree (g.site t), inner.height + 1⟩, rest) := by
  simp only [operand, gt_iff_lt, Nat.not_lt.mpr hdepth, ↓reduceIte, ht, hop]
  rfl

end Operands

/-! ## What a step can be -/

theorem trailing_iff {op : BinaryOperator} {rest : List Token} :
    trailing op rest = true ↔ op.role = .sequences ∧ atOperandEnd rest = true := by
  unfold trailing
  rw [Bool.and_eq_true]
  refine and_congr_left fun _ => ?_
  constructor
  · intro h
    split at h
    · assumption
    · cases h
  · intro h
    rw [h]

/-- What one round of a climb that ends well can be. -/
inductive Climbs (g : Setting) (fuel depth least : Nat) (left : Parsed) :
    List Token → Parsed × List Token → Prop
  | ends {tokens : List Token} (h : Ends g least tokens) :
      Climbs g fuel depth least left tokens (left, tokens)
  | trailing {t : Token} {rest : List Token} {op : BinaryOperator} (ht : t.kind = .operator)
      (hop : g.lang.binary? t.surface = some op) (hleast : least ≤ op.precedence)
      (hrole : op.role = .sequences) (hend : atOperandEnd rest = true) :
      Climbs g fuel depth least left (t :: rest) (left, rest)
  | operator {t : Token} {rest others : List Token} {op : BinaryOperator} {right joined : Parsed}
      {x : Parsed × List Token} (ht : t.kind = .operator)
      (hop : g.lang.binary? t.surface = some op) (hleast : least ≤ op.precedence)
      (hend : trailing op rest = false)
      (hright : expression g fuel depth (rightLeast op) rest = .ok (right, others))
      (hjoined : combine g op t left right = .ok joined)
      (hclimb : climb g fuel depth least joined others = .ok x) :
      Climbs g fuel depth least left (t :: rest) x

/-- What an argument of a call and all that is read after it can be. -/
inductive TakesArgument (g : Setting) (fuel depth : Nat) (name : Token) (args : List Expr)
    (height : Nat) (tokens : List Token) : Parsed × List Token → Prop
  | comma {arg : Parsed} {next : Token} {others : List Token} {x : Parsed × List Token}
      (harg : expression g fuel depth 0 tokens = .ok (arg, next :: others))
      (hnext : next.kind = .comma)
      (hx : arguments g fuel depth name (args ++ [arg.tree]) (max height arg.height) others =
        .ok x) : TakesArgument g fuel depth name args height tokens x
  | closing {arg p : Parsed} {next : Token} {others : List Token}
      (harg : expression g fuel depth 0 tokens = .ok (arg, next :: others))
      (hnext : next.kind = .closing)
      (hp : finishCall g name (args ++ [arg.tree]) (max height arg.height) = .ok p) :
      TakesArgument g fuel depth name args height tokens (p, others)

/-- What an operand can be. -/
inductive TakesOperand (g : Setting) (fuel depth : Nat) :
    List Token → Parsed × List Token → Prop
  | emptyCall {t paren next : Token} {others : List Token} {p : Parsed} (ht : t.kind = .call)
      (hnext : next.kind = .closing) (hp : finishCall g t [] 0 = .ok p) :
      TakesOperand g fuel depth (t :: paren :: next :: others) (p, others)
  | call {t paren next : Token} {others : List Token} {x : Parsed × List Token}
      (ht : t.kind = .call) (hnext : next.kind ≠ .closing)
      (hx : arguments g fuel (depth + 1) t [] 0 (next :: others) = .ok x) :
      TakesOperand g fuel depth (t :: paren :: next :: others) x
  | parentheses {t next : Token} {rest others : List Token} {p : Parsed} (ht : t.kind = .opening)
      (hinner : expression g fuel (depth + 1) 0 rest = .ok (p, next :: others))
      (hnext : next.kind = .closing) : TakesOperand g fuel depth (t :: rest) (p, others)
  | unary {t : Token} {op : UnaryOperator} {rest others : List Token} {p : Parsed}
      (ht : t.kind = .unary) (hop : g.lang.unary? t.surface = some op)
      (hinner : expression g fuel (depth + 1) op.precedence rest = .ok (p, others)) :
      TakesOperand g fuel depth (t :: rest)
        (⟨.unary t.surface p.tree (g.site t), p.height + 1⟩, others)
  | single {t : Token} {rest : List Token} {p : Parsed} (hcall : t.kind ≠ .call)
      (hopening : t.kind ≠ .opening) (hunary : t.kind ≠ .unary) (hp : single g t = .ok p) :
      TakesOperand g fuel depth (t :: rest) (p, rest)

section Inversions

variable {fuel depth : Nat} {tokens : List Token} {x : Parsed × List Token}

theorem climb_cases {least : Nat} {left : Parsed}
    (h : climb g fuel depth least left tokens = .ok x) :
    ∃ n, fuel = n + 1 ∧ Climbs g n depth least left tokens x := by
  rcases fuel with _ | n
  · rw [climb] at h
    cases h
  refine ⟨n, rfl, ?_⟩
  rcases tokens with _ | ⟨t, rest⟩
  · rw [climb_of_ends (fun t ht => by cases ht)] at h
    cases h
    exact .ends fun t ht => by cases ht
  by_cases ht : t.kind = .operator
  case neg =>
    rw [climb_of_not_operator n depth ht] at h
    cases h
    refine .ends fun u hu hkind => ?_
    cases hu
    exact absurd hkind ht
  rcases hop : g.lang.binary? t.surface with _ | op
  · rw [climb_of_unknown n depth ht hop] at h
    cases h
  by_cases hleast : op.precedence < least
  · rw [climb_of_looser n depth ht hop hleast] at h
    cases h
    refine .ends fun u hu _ => ?_
    cases hu
    exact ⟨op, hop, hleast⟩
  cases hend : trailing op rest with
  | true =>
    rw [climb_of_trailing n depth ht hop hleast hend] at h
    cases h
    obtain ⟨hrole, hend⟩ := trailing_iff.mp hend
    exact .trailing ht hop (Nat.le_of_not_lt hleast) hrole hend
  | false =>
    rw [climb_of_operator n depth ht hop hleast hend] at h
    obtain ⟨⟨right, others⟩, hright, hjoin⟩ := of_bind_ok h
    obtain ⟨joined, hjoined, hclimb⟩ := of_bind_ok hjoin
    exact .operator ht hop (Nat.le_of_not_lt hleast) hend hright hjoined hclimb

theorem arguments_cases {name : Token} {args : List Expr} {height : Nat}
    (h : arguments g (fuel + 1) depth name args height tokens = .ok x) :
    TakesArgument g fuel depth name args height tokens x := by
  rw [arguments_succ] at h
  obtain ⟨⟨arg, rest⟩, harg, h⟩ := of_bind_ok h
  rcases rest with _ | ⟨next, others⟩
  · cases h
  simp only [afterArgument] at h
  split at h
  · rename_i hnext
    exact .comma harg hnext h
  split at h
  · rename_i hnext
    obtain ⟨p, hp, h⟩ := of_bind_ok h
    cases h
    exact .closing harg hnext hp
  · cases h

theorem operand_cases (h : operand g (fuel + 1) depth tokens = .ok x) :
    depth + 1 ≤ maxNesting ∧ TakesOperand g fuel depth tokens x := by
  by_cases hdepth : depth + 1 ≤ maxNesting
  case neg =>
    rw [operand_of_deep fuel hdepth] at h
    cases h
  refine ⟨hdepth, ?_⟩
  rcases tokens with _ | ⟨t, rest⟩
  · exact absurd h (operand_nil _ _ _)
  by_cases hcall : t.kind = .call
  · rcases rest with _ | ⟨paren, _ | ⟨next, others⟩⟩
    · rw [operand_of_call_nil fuel _ hdepth hcall rfl] at h
      exact absurd h (arguments_nil _ _ _ _ _ _)
    · rw [operand_of_call_nil fuel _ hdepth hcall rfl] at h
      exact absurd h (arguments_nil _ _ _ _ _ _)
    by_cases hnext : next.kind = .closing
    · rw [operand_of_call_closing fuel _ hdepth hcall rfl hnext] at h
      obtain ⟨p, hp, h⟩ := of_bind_ok h
      cases h
      exact .emptyCall hcall hnext hp
    · rw [operand_of_call fuel _ hdepth hcall rfl hnext] at h
      exact .call hcall hnext h
  by_cases hopening : t.kind = .opening
  · rw [operand_of_opening fuel rest hdepth hopening] at h
    obtain ⟨⟨p, others⟩, hinner, h⟩ := of_bind_ok h
    rcases others with _ | ⟨next, others⟩
    · cases h
    simp only [close] at h
    split at h
    · rename_i hnext
      cases h
      exact .parentheses hopening hinner hnext
    · cases h
  by_cases hunary : t.kind = .unary
  · rcases hop : g.lang.unary? t.surface with _ | op
    · rw [operand_of_unary_unknown fuel rest hdepth hunary hop] at h
      cases h
    rw [operand_of_unary fuel rest hdepth hunary hop] at h
    obtain ⟨⟨p, others⟩, hinner, h⟩ := of_bind_ok h
    cases h
    exact .unary hunary hop hinner
  · rw [operand_of_single fuel rest hdepth hcall hopening hunary] at h
    obtain ⟨p, hp, h⟩ := of_bind_ok h
    cases h
    exact .single hcall hopening hunary hp

end Inversions

end Reader

end TickScript
