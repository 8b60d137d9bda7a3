-- The standard operators and functions respect every likeness: they never look at where something
-- was written, and store no procedures of their own. Languages that a host builds on the standard
-- one do so if what the host adds does.
import TickScript.Proofs.Hosts
import TickScript.Proofs.Likeness

namespace TickScript

open Library

variable {L : Likeness}

theorem respects_calling : calling.Respects L := by
  intro run hrun args hargs k
  match args with
  | [] => exact .value Value.null
  | name :: args =>
    have hothers : List.Forall₂ (Lazy.Like L) (args.map (· true)) (args.map (· false)) := by
      rw [List.forall₂_map_left_iff, List.forall₂_map_right_iff, List.forall₂_same]
      exact fun x hx => hargs x (by simp [hx])
    simp only [List.map_cons, calling_eq]
    exact (hargs name (by simp) .value).next fun v => agree_callNamed hrun v.display hothers k

namespace Language

theorem respects_standard : standard.Respects L where
  binary h := Agreeing.weave.role (binary?_standard h)
  unary h := Agreeing.weave.unary h
  function h run hrun := by
    have hordinary : Native.IsOrdinary (fun _ _ => False) _ := Native.ordinary_standard h
    rcases hordinary with hsimple | ⟨loop, rfl⟩ | rfl | rfl
    · exact hsimple Agreeing.weave False.elim run
    · exact Agreeing.weave.loop .check loop
    · exact respects_calling run hrun
    · exact Agreeing.weave.ticking (agree_yield hrun)

end Language

/-- What the host registers respects the likeness. -/
abbrev Registration.Respects (L : Likeness) : Registration → Prop :=
  Registration.Has (·.Threads (Agreeing L)) (·.Threads (Agreeing L)) (·.Respects L)

/-- A function that evaluates its arguments first and goes on with a computation that agrees with
itself. -/
theorem Native.respects_eager (arity : Arity) {f : List Value → Run Value}
    (hf : ∀ values, Agree L Eq (f values) (f values)) : (eager arity f).Respects L :=
  fun _ _ => Agreeing.weave.eager arity hf

theorem Language.respects_extended {rs : List Registration} (hrs : ∀ r ∈ rs, r.Respects L) :
    (extended rs).Respects L := respects_standard.extended hrs

end TickScript
