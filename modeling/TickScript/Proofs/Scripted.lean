-- What the computations of scripts are made of: looking at the state, a few kinds of effects
-- on it, faults, checks and yields, and the steps that a host adds, put together one after the
-- other, within loops and within procedures. What is shown of these pieces holds of every
-- script.
import TickScript.Proofs.Nodes

namespace TickScript

open Library

/-! ## The pieces -/

/-- The computations that scripts consist of, where a host adds steps of its own. They can look
at the state, but not at whether scripts are to stop; this is left to the checks. -/
inductive Woven (Own : (α : Type) → Run α → Prop) : {α : Type} → Run α → Prop
  | own {α : Type} {x : Run α} : Own α x → Woven Own x
  | look {α : Type} (f : State → α) (hf : Oblivious f) : Woven Own fun s => .ok (f s) s
  | act (e : Effect) : Woven Own fun s => .ok () (e.apply s)
  | fail {α : Type} (cause : Cause) : Woven Own (Run.fail cause : Run α)
  | endless {α : Type} : Woven Own (throw .endless : Run α)
  | check : Woven Own Run.checkStop
  | followed {α β : Type} {x : Run α} {f : α → Run β} :
      Woven Own x → (∀ a, x.Gives a → Woven Own (f a)) → Woven Own (x >>= f)
  | located {α : Type} {x : Run α} (site : Site) : Woven Own x → Woven Own (Run.located site x)
  | looping {α : Type} {x : Run α} (loop : Loop) :
      Woven Own x → Woven Own (Run.restoring loop.names x)
  | entered {body : Run Value} (procedure : String) (scope : Registry Value) :
      Woven Own body → Woven Own (enter procedure scope body)
  | yielded {run : Expr → Lazy} (budget : Option Nat) :
      (∀ e k, Woven Own (run e k)) → Woven Own (yield run budget)

/-- The operand is such a computation, whatever its result is wanted for. -/
def Lazy.Woven (Own : (α : Type) → Run α → Prop) (x : Lazy) : Prop :=
  ∀ k, TickScript.Woven Own (x k)

variable {Own : (α : Type) → Run α → Prop}

namespace Woven

variable {α β : Type}

theorem bind {x : Run α} {f : α → Run β} (hx : Woven Own x) (hf : ∀ a, Woven Own (f a)) :
    Woven Own (x >>= f) := followed hx fun a _ => hf a

theorem plain {x : Run α} (h : Plain x) : Woven Own x := by
  induction h with
  | look f hf => exact look f hf.oblivious
  | act e => exact act e
  | fail cause => exact fail cause
  | endless => exact endless
  | bind _ _ ihx ihf => exact bind ihx ihf

/-- The whole is such a computation if its parts are. -/
theorem weave : CallWeave fun α (x : Unit → Run α) => Woven Own (x ()) where
  plain := plain
  bind := bind
  looping := looping
  find name := look (fun s => s.machine.procedures.get? name) ⟨fun _ => rfl, fun _ _ => rfl⟩
  store p := act (.store p)

/-- Operands as families of one member. -/
theorem operands {args : List Lazy} (hargs : ∀ x ∈ args, x.Woven Own) :
    ∀ x ∈ args.map fun (x : Lazy) (_ : Unit) => x, Threads (fun _ y => Woven Own (y ())) x := by
  intro x hx
  obtain ⟨y, hy, rfl⟩ := List.mem_map.mp hx
  exact hargs y hy

theorem map_operands (args : List Lazy) :
    (args.map fun (x : Lazy) (_ : Unit) => x).map (· ()) = args := by
  rw [List.map_map]
  exact List.map_id args

theorem forceAll {args : List Lazy} (hargs : ∀ x ∈ args, x.Woven Own) :
    Woven Own (Lazy.forceAll args) := by
  simpa only [map_operands] using weave.forceAll (operands hargs)

end Woven

/-- An operator of this role makes such computations of such operands. -/
def BinaryRole.Woven (Own : (α : Type) → Run α → Prop) : BinaryRole → Prop
  | .evaluates apply | .assigns apply =>
    ∀ k left right, left.Woven Own → right.Woven Own → TickScript.Woven Own (apply k left right)
  | .defines | .sequences => True

/-- The operator makes such computations of such operands. -/
def UnaryOperator.Woven (Own : (α : Type) → Run α → Prop) (op : UnaryOperator) : Prop :=
  ∀ k operand, operand.Woven Own → TickScript.Woven Own (op.apply k operand)

/-- The function makes such computations of such operands and bodies. -/
def Native.Woven (Own : (α : Type) → Run α → Prop) (f : Native) : Prop :=
  ∀ run args, (∀ e, (run e).Woven Own) → (∀ x ∈ args, x.Woven Own) →
    ∀ k, TickScript.Woven Own (f.apply run k args)

/-- The function makes such computations of such operands and bodies, and hands back such an
operand. -/
structure Native.Weaves (Own : (α : Type) → Run α → Prop) (f : Native) : Prop where
  woven : f.Woven Own
  handsBack : ∀ run args, (∀ e, (run e).Woven Own) → (∀ x ∈ args, x.Woven Own) →
    ∀ k r, (f.apply run k args).Gives r → r.Woven Own

/-! ## Scripts -/

/-- All operators and functions of the language make such computations of such operands and
bodies. -/
def Language.Woven (Own : (α : Type) → Run α → Prop) (lang : Language) : Prop :=
  ∀ run, (∀ e, (run e).Woven Own) →
    lang.Threads (fun _ (x : Unit → Run _) => TickScript.Woven Own (x ())) fun _ => run

theorem Language.woven_standard : Language.standard.Woven Own := fun _ hrun =>
  TickScript.Woven.weave.threads Language.ordinary_standard .own .check
    (fun procedure scope e k => .entered procedure scope (hrun e k))
    fun budget => .yielded budget hrun

section Bodies

variable {run : Expr → Lazy} (hrun : ∀ e, (run e).Woven Own)

include hrun

theorem woven_denote {lang : Language} (hlang : lang.Woven Own) (e : Expr) :
    (e.denote lang run).Woven Own :=
  @CallWeave.denote _ _ (fun _ => run) lang Woven.weave
    (fun procedure scope e k => .entered procedure scope (hrun e k)) (hlang run hrun)
    (fun site h => .located site h) e

end Bodies

/-- Every script of such a language is made of these pieces. -/
theorem woven_evaluateWithin {lang : Language} (hlang : lang.Woven Own) (levels : Nat) :
    ∀ e, (evaluateWithin lang levels e).Woven Own := by
  induction levels with
  | zero =>
    intro e k
    exact .endless
  | succ levels ih => exact woven_denote ih hlang

/-! ## Standard scripts -/

/-- A computation of these pieces to which no host adds anything. -/
abbrev Scripted {α : Type} (x : Run α) : Prop := Woven (fun _ _ => False) x

/-- The operand is such a computation, whatever its result is wanted for. -/
abbrev Lazy.Scripted (x : Lazy) : Prop := x.Woven fun _ _ => False

end TickScript
