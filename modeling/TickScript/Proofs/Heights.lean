-- How high the reader takes a tree to be: as high as it is, but that a definition counts its
-- head too.
import Mathlib.Data.List.Induction
import TickScript.Proofs.Spans

namespace TickScript

/-! ## The levels that are counted -/

mutual

/-- How many levels the reader counts for a tree. The head of a definition counts as the call
that it is written as. -/
def Expr.counted : Expr → Nat
  | .number _ | .text _ | .var .. => 1
  | .unary _ operand _ => operand.counted + 1
  | .binary _ left right _ => max left.counted right.counted + 1
  | .call _ args _ => Expr.maxCounted args + 1
  | .define _ params body _ => max (if params = [] then 1 else 2) body.counted + 1
  | .sequence items => Expr.maxCounted items + 1

/-- The levels that are counted for the highest of some trees. -/
def Expr.maxCounted : List Expr → Nat
  | [] => 0
  | e :: rest => max e.counted (Expr.maxCounted rest)

end

theorem Expr.maxCounted_append (es others : List Expr) :
    Expr.maxCounted (es ++ others) = max (Expr.maxCounted es) (Expr.maxCounted others) := by
  induction es with
  | nil => simp [Expr.maxCounted]
  | cons e rest ih => simp [Expr.maxCounted, ih, Nat.max_assoc]

theorem Expr.one_le_height (e : Expr) : 1 ≤ e.height := by
  cases e <;> simp [Expr.height]

mutual

/-- At most one level too many is counted, and none too few. -/
theorem Expr.counted_bounds : ∀ e : Expr, e.height ≤ e.counted ∧ e.counted ≤ e.height + 1
  | .number _ | .text _ | .var .. => by simp [Expr.height, Expr.counted]
  | .unary _ operand _ => by
    have hoperand := Expr.counted_bounds operand
    simp only [Expr.height, Expr.counted]
    omega
  | .binary _ left right _ => by
    have hleft := Expr.counted_bounds left
    have hright := Expr.counted_bounds right
    simp only [Expr.height, Expr.counted]
    omega
  | .call _ args _ => by
    have hargs := Expr.maxCounted_bounds args
    simp only [Expr.height, Expr.counted]
    omega
  | .define _ params body _ => by
    have hbody := Expr.counted_bounds body
    have hone := Expr.one_le_height body
    simp only [Expr.height, Expr.counted]
    split <;> omega
  | .sequence items => by
    have hitems := Expr.maxCounted_bounds items
    simp only [Expr.height, Expr.counted]
    omega

theorem Expr.maxCounted_bounds : ∀ es : List Expr,
    Expr.maxHeight es ≤ Expr.maxCounted es ∧ Expr.maxCounted es ≤ Expr.maxHeight es + 1
  | [] => by simp [Expr.maxHeight, Expr.maxCounted]
  | e :: rest => by
    have he := Expr.counted_bounds e
    have hrest := Expr.maxCounted_bounds rest
    simp only [Expr.maxHeight, Expr.maxCounted]
    omega

end

mutual

theorem Expr.counted_toTarget (lang : Language) : ∀ e : Expr, (e.toTarget lang).counted = e.counted
  | .var .. => by simp [Expr.toTarget, Expr.counted]
  | .call name args site => by
    unfold Expr.toTarget
    split
    · simp only [Expr.counted, Expr.maxCounted_toTargets lang args]
    · rfl
  | .number _ | .text _ | .unary .. | .binary .. | .define .. | .sequence _ => by
    simp only [Expr.toTarget]

theorem Expr.maxCounted_toTargets (lang : Language) :
    ∀ es : List Expr, Expr.maxCounted (Expr.toTargets lang es) = Expr.maxCounted es
  | [] => rfl
  | e :: rest => by
    simp only [Expr.toTargets, Expr.maxCounted, Expr.counted_toTarget lang e,
      Expr.maxCounted_toTargets lang rest]

end

/-! ## Trees that have been read -/

/-- The height that the tree is taken to have is the number of levels that are counted. -/
def Parsed.Counted (p : Parsed) : Prop := p.height = p.tree.counted

theorem Parsed.counted_andThen {first next : Parsed} (hf : first.Counted) (hn : next.Counted) :
    (first.andThen next).Counted := by
  unfold Parsed.Counted at *
  unfold Parsed.andThen
  split
  · rename_i items htree
    simp only [htree, Expr.counted] at hf
    simp only [Expr.counted, Expr.maxCounted_append, Expr.maxCounted]
    omega
  · simp only [Expr.counted, Expr.maxCounted]
    omega

namespace Reader

variable {g : Setting}

theorem maxCounted_of_paramNames? {args : List Expr} {params : List String}
    (h : paramNames? args = some params) :
    Expr.maxCounted args + 1 = if params = [] then 1 else 2 := by
  induction args generalizing params with
  | nil =>
    cases h
    rfl
  | cons e rest ih =>
    unfold paramNames? at h
    split at h
    · rename_i heq
      cases heq
    · rename_i name isTarget site others heq
      cases heq
      obtain ⟨names, hnames, rfl⟩ := Option.map_eq_some_iff.mp h
      have hrest := ih hnames
      simp only [Expr.maxCounted, Expr.counted, reduceCtorEq, ↓reduceIte]
      split at hrest <;> omega
    · cases h

theorem counted_joins {t : Token} {role : BinaryRole} {left right p : Parsed}
    (hl : left.Counted) (hr : right.Counted) (h : Joins g t left right role p) : p.Counted := by
  cases h with
  | sequences => exact Parsed.counted_andThen hl hr
  | evaluates apply =>
    unfold Parsed.Counted at *
    simp only [Expr.counted, hl, hr]
  | assigns apply =>
    unfold Parsed.Counted at *
    simp only [Expr.counted, Expr.counted_toTarget, hl, hr]
  | defines hhead hfunction hparams =>
    unfold Parsed.Counted at *
    simp only [hl, hr, hhead, Expr.counted, maxCounted_of_paramNames? hparams]

theorem highest_eq_maxCounted {args : List Parsed} (h : ∀ arg ∈ args, arg.Counted) :
    highest args = Expr.maxCounted (args.map Parsed.tree) := by
  induction args using List.reverseRecOn with
  | nil => rfl
  | append_singleton args arg ih =>
    have hargs := ih fun a ha => h a (by simp [ha])
    have harg : arg.height = arg.tree.counted := h arg (by simp)
    rw [highest_concat, List.map_append, Expr.maxCounted_append, hargs, harg]
    simp [Expr.maxCounted]

theorem counted_single {t : Token} {p : Parsed} (h : single g t = .ok p) : p.Counted := by
  unfold single at h
  split at h
  · split at h <;> cases h
    rfl
  · split at h <;> cases h
    rfl
  · cases h
    rfl
  · cases h
    rfl
  · cases h

/-- The height of every tree that is read is the number of levels that are counted. -/
theorem Spans.counted {depth : Nat} {taken : List Token} {p : Parsed}
    (h : Spans g depth taken p) : p.Counted := by
  induction h with
  | single _ h => exact counted_single h
  | parentheses _ _ _ _ ih => exact ih
  | @unary _ t op inside p _ _ _ _ ih =>
    have ih : p.height = p.tree.counted := ih
    simp only [Parsed.Counted, Expr.counted, ih]
  | call _ _ _ _ _ _ ih =>
    have hhighest := highest_eq_maxCounted (List.forall_mem_map.mpr ih)
    rw [List.map_map] at hhighest
    exact congrArg (· + 1) hhighest
  | join _ _ _ _ _ h ihl ihr => exact counted_joins ihl ihr h
  | trailing _ _ _ _ ih => exact ih

end Reader

end TickScript
