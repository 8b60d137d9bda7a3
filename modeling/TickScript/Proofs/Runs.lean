-- How computations go: what follows a first part that ends well or not, and what the
-- computations around another one leave as it was.
import TickScript.Clock
import TickScript.Proofs.Registries

namespace TickScript.Run

variable {α β : Type} {x : Run α} {f : α → Run β} {a : α} {i : Interrupt} {s t : State}

/-! ## The state that is left -/

/-- The state that a computation leaves, however it ends. -/
def after (x : Run α) (s : State) : State :=
  match x s with
  | .ok _ t => t
  | .error _ t => t

theorem after_of_ok (h : x s = .ok a t) : x.after s = t := by
  simp only [after, h]

theorem after_of_error (h : x s = .error i t) : x.after s = t := by
  simp only [after, h]

/-! ## One after the other -/

theorem bind_of_ok (h : x s = .ok a t) : (x >>= f) s = f a t := by
  simp only [bind, EStateM.bind, h]

theorem bind_of_error (h : x s = .error i t) : (x >>= f) s = .error i t := by
  simp only [bind, EStateM.bind, h]

theorem of_pure_ok {b : α} (h : (pure a : Run α) s = .ok b t) : a = b ∧ s = t := by
  cases h
  exact ⟨rfl, rfl⟩

theorem after_bind_of_ok (h : x s = .ok a t) : (x >>= f).after s = (f a).after t := by
  simp only [after, bind_of_ok h]

/-- Where two computations one after the other end well, each of them does. -/
theorem of_bind_ok {u : State} {b : β} (h : (x >>= f) s = .ok b u) :
    ∃ a t, x s = .ok a t ∧ f a t = .ok b u := by
  rcases hx : x s with ⟨a, t⟩ | ⟨i, t⟩
  · rw [bind_of_ok hx] at h
    exact ⟨a, t, rfl, h⟩
  · rw [bind_of_error hx] at h
    cases h

/-- Where two computations one after the other are interrupted, one of them is. -/
theorem of_bind_error {u : State} (h : (x >>= f) s = .error i u) :
    x s = .error i u ∨ ∃ a t, x s = .ok a t ∧ f a t = .error i u := by
  rcases hx : x s with ⟨a, t⟩ | ⟨j, t⟩
  · rw [bind_of_ok hx] at h
    exact Or.inr ⟨a, t, rfl, h⟩
  · rw [bind_of_error hx] at h
    cases h
    exact Or.inl rfl

/-- The computation can end with this result. -/
def Gives (x : Run α) (a : α) : Prop := ∃ s t, x s = .ok a t

theorem checkStop_of_cancelled (h : s.machine.cancelled = true) :
    checkStop s = .error .stopped s := by
  simp [checkStop, h]

theorem checkStop_of_not_cancelled (h : s.machine.cancelled = false) : checkStop s = .ok () s := by
  simp [checkStop, h]

theorem cancelled_of_checkStop (h : checkStop s = .error i t) : s.machine.cancelled = true := by
  cases hs : s.machine.cancelled with
  | true => rfl
  | false =>
    rw [checkStop_of_not_cancelled hs] at h
    cases h

theorem after_checkStop (s : State) : checkStop.after s = s := by
  cases hs : s.machine.cancelled with
  | true => exact after_of_error (checkStop_of_cancelled hs)
  | false => exact after_of_ok (checkStop_of_not_cancelled hs)

/-! ## Around a computation -/

theorem located_of_ok (site : Site) (h : x s = .ok a t) : located site x s = .ok a t := by
  simp only [located, h]

theorem located_of_error (site : Site) (h : x s = .error i t) :
    located site x s = .error (i.locate site) t := by
  simp only [located, h]

theorem after_located (site : Site) (x : Run α) (s : State) :
    (located site x).after s = x.after s := by
  rcases hx : x s with ⟨a, t⟩ | ⟨i, t⟩
  · rw [after_of_ok hx, after_of_ok (located_of_ok site hx)]
  · rw [after_of_error hx, after_of_error (located_of_error site hx)]

theorem restoring_of_ok (names : List String) (h : x s = .ok a t) :
    restoring names x s =
      .ok a { t with locals := (Frame.ofNames s.locals names).putBack t.locals } := by
  simp only [restoring, h]

theorem restoring_of_error (names : List String) (h : x s = .error i t) :
    restoring names x s =
      .error i { t with locals := (Frame.ofNames s.locals names).putBack t.locals } := by
  simp only [restoring, h]

theorem reported_of_ok (h : x s = .ok a t) : reported x s = .ok a t := by
  simp only [reported, h]

theorem reported_of_fault {f : Fault} (h : x s = .error (.fault f) t) :
    reported x s = .error (.fault f) { t with machine := t.machine.report f } := by
  simp only [reported, h]

theorem reported_of_stopped (h : x s = .error .stopped t) : reported x s = .error .stopped t := by
  simp only [reported, h]

theorem reported_of_endless (h : x s = .error .endless t) : reported x s = .error .endless t := by
  simp only [reported, h]

/-- What is reported is passed on as well. -/
theorem of_reported_fault {f : Fault} (h : reported x s = .error (.fault f) t) :
    ∃ u, x s = .error (.fault f) u := by
  unfold reported at h
  split at h
  · rename_i u hx
    cases h
    exact ⟨u, hx⟩
  · exact ⟨t, h⟩

theorem after_bind_pure (x : Run α) (f : α → β) (s : State) :
    (x >>= fun a => pure (f a)).after s = x.after s := by
  rcases hx : x s with ⟨a, t⟩ | ⟨i, t⟩
  · simp only [after, bind_of_ok hx, hx]
    rfl
  · simp only [after, bind_of_error hx, hx]

theorem after_restoring (names : List String) (x : Run α) (s : State) :
    (restoring names x).after s =
      { x.after s with locals := (Frame.ofNames s.locals names).putBack (x.after s).locals } := by
  rcases hx : x s with ⟨a, t⟩ | ⟨i, t⟩ <;> simp only [after, restoring, hx]

/-- The state in which the body of a procedure is evaluated. -/
def inner (scope : Registry Value) (s : State) : State :=
  ⟨scope, { s.machine with depth := s.machine.depth + 1 }⟩

/-- The state after the body of a procedure that was called in `s`. -/
def outer (s t : State) : State :=
  ⟨s.locals, { t.machine with depth := t.machine.depth - 1 }⟩

section Bodies

variable {scope : Registry Value} {body : Run Value} {s : State} (procedure : String)

theorem enter_of_deep (h : maxCallDepth ≤ s.machine.depth) :
    enter procedure scope body s =
      .error (.fault ((Fault.ofCause .callTooDeep).leave procedure)) s := by
  simp only [enter, ge_iff_le, h, ↓reduceIte]

theorem enter_of_ok {v : Value} {t : State} (h : s.machine.depth < maxCallDepth)
    (hbody : body (inner scope s) = .ok v t) :
    enter procedure scope body s = .ok v (outer s t) := by
  unfold inner at hbody
  simp only [enter, ge_iff_le, Nat.not_le.mpr h, ↓reduceIte, leaving, hbody, outer]

theorem enter_of_error {i : Interrupt} {t : State} (h : s.machine.depth < maxCallDepth)
    (hbody : body (inner scope s) = .error i t) :
    enter procedure scope body s = .error (i.leave procedure) (outer s t) := by
  unfold inner at hbody
  simp only [enter, ge_iff_le, Nat.not_le.mpr h, ↓reduceIte, leaving, hbody, outer]

theorem after_enter (h : s.machine.depth < maxCallDepth) :
    (enter procedure scope body).after s = outer s (body.after (inner scope s)) := by
  rcases hbody : body (inner scope s) with ⟨v, t⟩ | ⟨i, t⟩
  · rw [after_of_ok hbody, after_of_ok (enter_of_ok procedure h hbody)]
  · rw [after_of_error hbody, after_of_error (enter_of_error procedure h hbody)]

end Bodies

/-! ## The same from another state -/

/-- From the other state the computation ends in the same way, and leaves the other of the state
that it leaves. Some interrupts may be lost. -/
structure Carries (other : State → State) (lost : Interrupt → Prop) (x : Run α) (s : State) :
    Prop where
  ok : ∀ {a t}, x s = .ok a t → x (other s) = .ok a (other t)
  error : ∀ {i t}, x s = .error i t → ¬ lost i → x (other s) = .error i (other t)

namespace Carries

variable {other : State → State} {lost : Interrupt → Prop}

theorem of_ok (h : x s = .ok a t) (h' : x (other s) = .ok a (other t)) :
    Carries other lost x s := by
  constructor
  · intro b u hb
    cases h.symm.trans hb
    exact h'
  · intro i u hi
    cases h.symm.trans hi

theorem of_error (h : x s = .error i t) (h' : ¬ lost i → x (other s) = .error i (other t)) :
    Carries other lost x s := by
  constructor
  · intro a u ha
    cases h.symm.trans ha
  · intro j u hj
    cases h.symm.trans hj
    exact h'

theorem followed (hx : Carries other lost x s)
    (hf : ∀ a t, x s = .ok a t → Carries other lost (f a) t) :
    Carries other lost (x >>= f) s := by
  constructor
  · intro b u h
    obtain ⟨a, t, ha, hb⟩ := of_bind_ok h
    rw [bind_of_ok (hx.ok ha)]
    exact (hf a t ha).ok hb
  · intro i u h hi
    rcases of_bind_error h with h | ⟨a, t, ha, h⟩
    · exact bind_of_error (hx.error h hi)
    · rw [bind_of_ok (hx.ok ha)]
      exact (hf a t ha).error h hi

theorem located {site : Site} (hlost : ∀ i, lost i → lost (i.locate site))
    (hx : Carries other lost x s) : Carries other lost (Run.located site x) s := by
  rcases hr : x s with ⟨a, t⟩ | ⟨i, t⟩
  · exact of_ok (located_of_ok site hr) (located_of_ok site (hx.ok hr))
  · exact of_error (located_of_error site hr) fun hi =>
      located_of_error site (hx.error hr fun h => hi (hlost i h))

section Machines

variable {m : Machine → Machine} (hother : ∀ s, other s = { s with machine := m s.machine })

include hother

theorem looping (names : List String) (hx : Carries other lost x s) :
    Carries other lost (restoring names x) s := by
  obtain rfl := funext hother
  rcases hr : x s with ⟨a, t⟩ | ⟨i, t⟩
  · exact of_ok (restoring_of_ok names hr) (restoring_of_ok names (hx.ok hr))
  · exact of_error (restoring_of_error names hr) fun hi =>
      restoring_of_error names (hx.error hr hi)

theorem entered {procedure : String} {scope : Registry Value} {body : Run Value}
    (hm : ∀ n d, m { n with depth := d } = { m n with depth := d })
    (hlost : ∀ i, lost i → lost (i.leave procedure))
    (h : Carries other lost body (inner scope s)) :
    Carries other lost (enter procedure scope body) s := by
  have hdepth : ∀ s, (other s).machine.depth = s.machine.depth := by
    intro s
    rw [hother]
    have hsame := congrArg Machine.depth (hm s.machine s.machine.depth)
    exact hsame
  have hinner : other (inner scope s) = inner scope (other s) := by
    rw [inner, inner, hdepth, hother, hother, hm]
  have houter : ∀ t, other (outer s t) = outer (other s) (other t) := fun t => by
    rw [outer, outer, hdepth, hother, hother, hother, hm]
  by_cases hdeep : s.machine.depth < maxCallDepth
  · rcases hr : body (inner scope s) with ⟨v, t⟩ | ⟨i, t⟩
    · exact of_ok (enter_of_ok procedure hdeep hr)
        (houter t ▸ enter_of_ok procedure (hdepth s ▸ hdeep) (hinner ▸ h.ok hr))
    · exact of_error (enter_of_error procedure hdeep hr) fun hi => houter t ▸
        enter_of_error procedure (hdepth s ▸ hdeep) (hinner ▸ h.error hr fun h => hi (hlost i h))
  · have hdeep := Nat.le_of_not_lt hdeep
    exact of_error (enter_of_deep procedure hdeep) fun _ =>
      enter_of_deep procedure (hdepth s ▸ hdeep)

end Machines

end Carries

/-! ## The call of a procedure -/

section Calls

variable {run : Expr → Lazy} {name : String} {p : Procedure} {args : List Lazy} {kind : Kind}
  {s t : State} (hp : s.machine.procedures.get? name = some p)
  (hcount : args.length = p.params.length)

include hp hcount

theorem callNamed_eq :
    callNamed run name args kind s =
      (bindArguments p.params args .empty >>= fun scope => enter p.name scope (run p.body kind))
        s := by
  simp only [callNamed, hp, Procedure.call, hcount, ne_eq, not_true_eq_false, ↓reduceIte]

theorem callNamed_of_ok {scope : Registry Value}
    (h : bindArguments p.params args .empty s = .ok scope t) :
    callNamed run name args kind s = enter p.name scope (run p.body kind) t := by
  rw [callNamed_eq hp hcount, bind_of_ok h]

theorem callNamed_of_error {i : Interrupt}
    (h : bindArguments p.params args .empty s = .error i t) :
    callNamed run name args kind s = .error i t := by
  rw [callNamed_eq hp hcount, bind_of_error h]

end Calls

end TickScript.Run
