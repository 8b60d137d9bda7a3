-- Languages that a host builds on the standard one. If the operators and functions of the host
-- hand on what holds of their operands, or make their computations of the pieces of scripts and of
-- steps that are the host's own, then so do all scripts of its language.
import TickScript.Proofs.Scripted

namespace TickScript

section Registrations

variable {binaries : BinaryRole → Prop} {unaries : UnaryOperator → Prop} {natives : Native → Prop}

/-- What holds of what the host registers. -/
def Registration.Has (binaries : BinaryRole → Prop) (unaries : UnaryOperator → Prop)
    (natives : Native → Prop) : Registration → Prop
  | .operator _ _ _ apply => binaries (.evaluates apply)
  | .assignment _ _ apply => binaries (.assigns apply)
  | .unary _ precedence apply => unaries ⟨precedence, apply⟩
  | .function _ f => natives f

namespace Language

/-- The standard language told of some more things, one after the other. -/
def extended (rs : List Registration) : Language := rs.foldl register standard

theorem lookup_cons {α : Type} {key name : String} {a b : α} {entries : List (String × α)}
    (h : ((name, a) :: entries).lookup key = some b) : b = a ∨ entries.lookup key = some b := by
  rw [List.lookup_cons] at h
  split at h
  · exact Or.inl (Option.some.inj h).symm
  · exact Or.inr h

theorem Has.addBinary {lang : Language} (hlang : lang.Has binaries unaries natives)
    (spelling : String) {op : BinaryOperator} (hop : binaries op.role) :
    (lang.addBinary spelling op).Has binaries unaries natives where
  binary h := by
    rcases lookup_cons h with rfl | h
    · exact hop
    · exact hlang.binary h
  unary h := hlang.unary h
  function h := hlang.function h

theorem Has.register {lang : Language} (hlang : lang.Has binaries unaries natives)
    {r : Registration} (hr : r.Has binaries unaries natives) :
    (lang.register r).Has binaries unaries natives := by
  cases r with
  | operator spelling precedence side apply => exact hlang.addBinary spelling hr
  | assignment spelling precedence apply => exact hlang.addBinary spelling hr
  | unary spelling precedence apply =>
    refine ⟨hlang.binary, fun h => ?_, hlang.function⟩
    rcases lookup_cons h with rfl | h
    · exact hr
    · exact hlang.unary h
  | function name f =>
    refine ⟨hlang.binary, hlang.unary, fun h => ?_⟩
    rcases lookup_cons h with rfl | h
    · exact hr
    · exact hlang.function h

/-- What holds of the standard language and of what a host tells it of holds of the language
that the host gets. -/
theorem Has.extended (hstandard : Language.standard.Has binaries unaries natives)
    {rs : List Registration} (hrs : ∀ r ∈ rs, r.Has binaries unaries natives) :
    (Language.extended rs).Has binaries unaries natives := by
  unfold Language.extended
  induction rs using List.reverseRecOn with
  | nil => exact hstandard
  | append_singleton rs r ih =>
    rw [List.foldl_append]
    exact (ih fun r' hr' => hrs r' (by simp [hr'])).register (hrs r (by simp))

end Language

end Registrations

/-! ## Steps of the host -/

variable {Own : (α : Type) → Run α → Prop}

/-- What the host registers are simple operators and ordinary functions, with such steps of the
host's own. -/
abbrev Registration.IsOrdinary (Own : (α : Type) → Run α → Prop) : Registration → Prop :=
  Registration.Has (·.IsSimple Own) (·.IsSimple Own) (·.IsOrdinary Own)

theorem Language.ordinary_extended {rs : List Registration} (hrs : ∀ r ∈ rs, r.IsOrdinary Own) :
    (Language.extended rs).IsOrdinary Own := Language.ordinary_standard.extended hrs

/-- A function that evaluates its arguments first and goes on with a step of its own. -/
theorem Native.ordinary_step (arity : Arity) {f : List Value → Run Value}
    (hf : ∀ values, Own Value (f values)) : (Native.eager arity f).IsOrdinary Own :=
  .inl fun hP hown _ => hP.eager arity fun values => hown (hf values)

/-- What the host registers makes such computations of such operands. -/
def Registration.Woven (Own : (α : Type) → Run α → Prop) : Registration → Prop
  | .operator _ _ _ apply => (BinaryRole.evaluates apply).Woven Own
  | .assignment _ _ apply => (BinaryRole.assigns apply).Woven Own
  | .unary _ precedence apply => UnaryOperator.Woven Own ⟨precedence, apply⟩
  | .function _ f => f.Weaves Own

theorem Registration.Woven.threads {r : Registration} (hr : r.Woven Own) {run : Expr → Lazy}
    (hrun : ∀ e, (run e).Woven Own) :
    r.Has (·.Threads fun _ (x : Unit → Run _) => TickScript.Woven Own (x ()))
      (·.Threads fun _ (x : Unit → Run _) => TickScript.Woven Own (x ()))
      (·.Threads (fun _ (x : Unit → Run _) => TickScript.Woven Own (x ())) fun _ => run) := by
  cases r with
  | operator spelling precedence side apply | assignment spelling precedence apply =>
    exact fun k left right hl hr' => hr k (left ()) (right ()) hl hr'
  | unary spelling precedence apply => exact fun k operand h => hr k (operand ()) h
  | function name f =>
    intro args hargs k
    have hall : ∀ x ∈ args.map (· ()), Lazy.Woven Own x := by
      intro x hx
      obtain ⟨y, hy, rfl⟩ := List.mem_map.mp hx
      exact hargs y hy
    exact .followed (hr.woven run _ hrun hall k) fun r' hr' =>
      hr.handsBack run _ hrun hall k r' hr' k

theorem Language.woven_extended {rs : List Registration} (hrs : ∀ r ∈ rs, r.Woven Own) :
    (Language.extended rs).Woven Own := fun run hrun =>
  (Language.woven_standard run hrun).extended fun r hr => (hrs r hr).threads hrun

end TickScript
