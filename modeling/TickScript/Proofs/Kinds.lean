-- What a result is wanted for is a hint. Each operator and function of the standard
-- language does and gives the same under every hint, as long as its operands and the bodies
-- of procedures do; so whole scripts do.
import TickScript.Interpreter
import TickScript.Proofs.Nodes

namespace TickScript

open Library

variable {run : Expr → Lazy}

/-! ## Operands and functions that take no heed of the hint -/

/-- The operand does the same and gives the same, whatever its result is wanted for. -/
def Lazy.Steady (x : Lazy) : Prop := ∀ k₁ k₂, x k₁ = x k₂

/-- The function, whose result is evaluated in its place, does the same for every kind of result,
if its operands and the bodies of procedures do. -/
def Native.Steady (f : Native) : Prop :=
  ∀ run args, (∀ e, (run e).Steady) → (∀ x ∈ args, x.Steady) →
    Lazy.Steady fun k => f.apply run k args >>= fun r => r k

theorem Native.steady_eager (arity : Arity) (f : List Value → Run Value) :
    (Native.eager arity f).Steady := by
  intro run args _ _ k₁ k₂
  simp only [Native.eager, bind_assoc, pure_bind, Lazy.of]

theorem Native.steady_ofOne {apply : Kind → Lazy → Run Lazy}
    (h : ∀ a, Lazy.Steady fun k => apply k a >>= fun r => r k) : (Native.ofOne apply).Steady := by
  intro run args _ _ k₁ k₂
  match args with
  | [a] => exact h a k₁ k₂
  | [] | _ :: _ :: _ => rfl

theorem Native.steady_ofTwo {apply : Kind → Lazy → Lazy → Run Lazy}
    (h : ∀ a b, b.Steady → Lazy.Steady fun k => apply k a b >>= fun r => r k) :
    (Native.ofTwo apply).Steady := by
  intro run args _ hargs k₁ k₂
  match args with
  | [a, b] => exact h a b (hargs b (by simp)) k₁ k₂
  | [] | [_] | _ :: _ :: _ :: _ => rfl

/-! ## Calls -/

theorem Procedure.steady_call (hrun : ∀ e, (run e).Steady) (p : Procedure) (args : List Lazy) :
    Lazy.Steady (p.call run args) := by
  intro k₁ k₂
  simp only [Procedure.call, hrun p.body k₁ k₂]

theorem steady_callNamed (hrun : ∀ e, (run e).Steady) (name : String) (args : List Lazy) :
    Lazy.Steady (callNamed run name args) := by
  intro k₁ k₂
  funext s
  unfold callNamed
  split
  · rw [Procedure.steady_call hrun _ args k₁ k₂]
  · rfl

/-! ## Functions -/

theorem steady_choosing : choosing.Steady := by
  intro run args _ hargs k₁ k₂
  simp only [choosing]
  fun_induction choose args with
  | case1 condition consequence rest ih =>
    simp only [bind_assoc]
    refine bind_congr fun holds => ?_
    cases holds with
    | true => exact hargs consequence (by simp) k₁ k₂
    | false => exact ih fun x hx => hargs x (by simp [hx])
  | case2 otherwise => exact hargs otherwise (by simp) k₁ k₂
  | case3 => rfl

theorem steady_repeatLoop : (Native.ofTwo repeatLoop).Steady :=
  Native.steady_ofTwo fun count body hbody k₁ k₂ => by simp only [repeatLoop_eq, hbody k₁ k₂]

theorem steady_whileLooping : whileLooping.Steady := by
  intro run args _ hargs k₁ k₂
  unfold whileLooping
  dsimp only
  split
  · rename_i condition limit body
    have hbody : body.Steady := hargs body (by simp)
    simp only [whileLoop_eq, hbody k₁ k₂]
  · rfl

theorem steady_volumeLooping : volumeLooping.Steady := by
  intro run args _ _ k₁ k₂
  unfold volumeLooping
  dsimp only
  split
  · simp only [volumeLoop_eq]
  · rfl

theorem steady_calling : calling.Steady := by
  intro run args hrun _ k₁ k₂
  unfold calling
  dsimp only
  split
  · simp only [callByName, bind_assoc, pure_bind, Lazy.of, steady_callNamed hrun _ _ k₁ k₂]
  · rfl

theorem steady_ticking : ticking.Steady := by
  intro run args _ _ k₁ k₂
  unfold ticking gameTick
  dsimp only
  split
  · simp only [bind_assoc, pure_bind, Lazy.of]
  · simp only [bind_assoc, pure_bind, Lazy.of]
  · rfl

theorem steady_control : ∀ entry ∈ Library.control, entry.2.Steady := by
  simp only [Library.control, List.forall_mem_cons]
  refine ⟨steady_choosing, steady_repeatLoop, steady_whileLooping, ?_, ?_, ?_, ?_, ?_,
    steady_volumeLooping, steady_calling, steady_ticking, by simp⟩
  -- The loops over elements make their answer from what the visits give.
  all_goals
    exact Native.steady_ofTwo fun elements body _ k₁ k₂ => by
      simp only [countLoop, mapLoop, filterLoop, firstLoop, allLoop, bind_assoc, pure_bind, Lazy.of]

theorem steady_values : ∀ entry ∈ values, entry.2.Steady := by
  have hvar : (Native.ofOne variableNamed).Steady := Native.steady_ofOne fun a k₁ k₂ => by
    simp only [variableNamed, bind_assoc, pure_bind, Lazy.of]
  have hforget : (Native.ofOne forget).Steady := Native.steady_ofOne fun a k₁ k₂ => by
    simp only [forget, bind_assoc, pure_bind, Lazy.of]
  have hprint : (Native.ofOne printValue).Steady := Native.steady_ofOne fun a k₁ k₂ => by
    simp only [printValue, bind_assoc, pure_bind, Lazy.of]
  have hnot : (Native.ofOne negate).Steady := Native.steady_ofOne fun a k₁ k₂ => by
    simp only [negate, bind_assoc, pure_bind, Lazy.of]
  simp [values, Native.eagerOne, Native.steady_eager, hvar, hforget, hprint, hnot]

theorem Language.steady_standard {name : String} {f : Native}
    (h : Language.standard.function? name = some f) : f.Steady := by
  refine function?_standard steady_control ?_ steady_values ?_ ?_ h
  · simp [lists, Native.eagerOne, Native.eagerTwo, Native.steady_eager]
  · simp [math, ofNumber, Native.eagerOne, Native.eagerTwo, Native.steady_eager]
  · simp [patterns, Native.eagerTwo, Native.steady_eager]

/-! ## Scripts -/

theorem steady_applyUnary (operator : String) (operand : Lazy) :
    Lazy.Steady fun k => applyUnary .standard operator k operand := by
  intro k₁ k₂
  simp only [applyUnary]
  split
  · rename_i op hop
    rcases Language.unary?_standard hop with h | h | h <;> rw [h] <;> rfl
  · rfl

theorem steady_applyBinary (operator : String) (left right : Lazy) :
    Lazy.Steady fun k => applyBinary .standard operator k left right := by
  intro k₁ k₂
  simp only [applyBinary]
  split
  · rename_i apply hop
    cases Language.binary?_standard hop <;> rfl
  · rename_i apply hop
    cases Language.binary?_standard hop <;> rfl
  · rfl

theorem steady_applyCall (hrun : ∀ e, (run e).Steady) (name : String) {args : List Lazy}
    (hargs : ∀ x ∈ args, x.Steady) : Lazy.Steady fun k => applyCall .standard run name k args := by
  intro k₁ k₂
  simp only [applyCall]
  split
  · rename_i f hf
    exact Language.steady_standard hf run args hrun hargs k₁ k₂
  · exact steady_callNamed hrun name args k₁ k₂

theorem steady_inOrder {xs : List Lazy} (h : ∀ x ∈ xs, x.Steady) : (inOrder xs).Steady := by
  intro k₁ k₂
  induction xs with
  | nil => rfl
  | cons x rest ih =>
    cases rest with
    | nil => exact h x (by simp) k₁ k₂
    | cons y rest => simp only [inOrder, ih fun z hz => h z (by simp [hz])]

/-- A tree of the standard language is steady if the bodies of procedures are. -/
theorem steady_denote (hrun : ∀ e, (run e).Steady) (e : Expr) :
    (e.denote .standard run).Steady := by
  induction e using Expr.induction_on_parts with
  | node e ih =>
    intro k₁ k₂
    cases e with
    | number | text | var | define => rfl
    | unary operator operand site =>
      exact congrArg (Run.located site) (steady_applyUnary operator _ k₁ k₂)
    | binary operator left right site =>
      exact congrArg (Run.located site) (steady_applyBinary operator _ _ k₁ k₂)
    | call name args site =>
      simp only [Expr.denote, Expr.denoteAll_eq_map]
      exact congrArg (Run.located site)
        (steady_applyCall hrun name (List.forall_mem_map.mpr ih) k₁ k₂)
    | sequence items =>
      simp only [Expr.denote, Expr.denoteSequence_eq_inOrder]
      exact steady_inOrder (List.forall_mem_map.mpr ih) k₁ k₂

theorem steady_evaluateWithin (levels : Nat) : ∀ e, (evaluateWithin .standard levels e).Steady := by
  induction levels with
  | zero =>
    intro e k₁ k₂
    rfl
  | succ levels ih => exact steady_denote ih

/-- What the result of a script is wanted for changes nothing: not the value or the way the
script ends otherwise, and nothing that it reads, writes, prints or reports. -/
theorem the_hint_changes_nothing (script : Script) (k₁ k₂ : Kind) (s : State) :
    script.evaluate (evaluate .standard) k₁ s = script.evaluate (evaluate .standard) k₂ s := by
  unfold Script.evaluate evaluate
  rw [steady_evaluateWithin _ script.root k₁ k₂]

end TickScript
