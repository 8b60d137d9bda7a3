-- Where interrupts come from. A node that is interrupted is so because one of its operands is, or
-- because the body of the procedure that it calls is, or by itself: then it would be interrupted
-- whatever came of the operands that are.
import TickScript.Proofs.Hosts

namespace TickScript

open Library

variable {lang : Language} {run : Expr → Lazy} {e : Expr} {kind : Kind} {s t u : State}
  {i : Interrupt} {xs : Nat → Lazy}

/-! ## Unwinding -/

/-- From the one state to the other nothing happens but that loops put their names back to what
these stood for before. -/
inductive Unwinds : State → State → Prop
  | refl (s : State) : Unwinds s s
  | restored {s t : State} (loop : Loop) (before : Registry Value) : Unwinds s t →
      Unwinds s { t with locals := (Frame.ofNames before loop.names).putBack t.locals }

namespace Unwinds

theorem trans (h : Unwinds s t) (h' : Unwinds t u) : Unwinds s u := by
  induction h' with
  | refl => exact h
  | restored loop before _ ih => exact .restored loop before ih

theorem machine_eq (h : Unwinds s t) : t.machine = s.machine := by
  induction h with
  | refl => rfl
  | restored loop before _ ih => exact ih

end Unwinds

/-! ## Operands that are interrupted -/

/-- The operands `ys` go on wherever the operands `xs` do. -/
def GoOn (xs ys : Nat → Lazy) : Prop := ∀ j k s v t, xs j k s = .ok v t → ys j k s = .ok v t

/-- The operands, but that instead of being interrupted they never end. -/
def hush (xs : Nat → Lazy) : Nat → Lazy := fun j k s =>
  match xs j k s with
  | .ok v t => .ok v t
  | .error _ t => .error .endless t

theorem goOn_hush (xs : Nat → Lazy) : GoOn xs (hush xs) := by
  intro j k s v t h
  simp only [hush, h]

theorem hush_goOn (xs : Nat → Lazy) : GoOn (hush xs) xs := by
  intro j k s v t h
  cases hx : xs j k s with
  | ok v' t' =>
    simp only [hush, hx] at h
    exact h
  | error i t' =>
    simp only [hush, hx] at h
    cases h

theorem eq_endless_of_hush {j : Nat} {k : Kind} (h : hush xs j k s = .error i t) :
    i = .endless := by
  cases hx : xs j k s with
  | ok v t' =>
    simp only [hush, hx] at h
    cases h
  | error i' t' =>
    simp only [hush, hx] at h
    cases h
    rfl

/-- Wherever the computation begins, it does not matter to it how operands are interrupted, or it
comes to one that is and is then itself interrupted by whatever interrupts the operand. -/
def Relays (xs : Nat → Lazy) (α : Type) (x : (Nat → Lazy) → Run α) : Prop :=
  ∀ s, (∀ ys, GoOn xs ys → x ys s = x xs s) ∨
    ∃ j k u, (∃ i w, xs j k u = .error i w) ∧
      ∀ ys i w, GoOn xs ys → ys j k u = .error i w → ∃ t, x ys s = .error i t ∧ Unwinds w t

namespace Relays

variable {α : Type}

theorem const (x : Run α) : Relays xs α fun _ => x := fun _ => Or.inl fun _ _ => rfl

theorem operand (j : Nat) : Threads (Relays xs) fun ys => ys j := by
  intro k s
  rcases hx : xs j k s with ⟨v, t⟩ | ⟨i, t⟩
  · exact Or.inl fun ys hys => (hys j k s v t hx).trans hx.symm
  · exact Or.inr ⟨j, k, s, ⟨i, t, hx⟩, fun ys i w _ h => ⟨w, h, .refl w⟩⟩

/-- The whole passes on what interrupts operands if its parts do. -/
theorem weave (xs : Nat → Lazy) : CallWeave (Relays xs) where
  plain := fun _ => const _
  find _ := const _
  store _ := const _
  bind := by
    intro α β x f hx hf s
    rcases hx s with hsame | ⟨j, k, u, hu, hpasses⟩
    · rcases hr : x xs s with ⟨a, t⟩ | ⟨i, t⟩
      · have hok : ∀ ys, GoOn xs ys → (x ys >>= fun a => f a ys) s = f a ys t :=
          fun ys hys => Run.bind_of_ok ((hsame ys hys).trans hr)
        rcases hf a t with hnext | ⟨j, k, u, hu, hpasses⟩
        · exact Or.inl fun ys hys =>
            (hok ys hys).trans ((hnext ys hys).trans (hok xs fun _ _ _ _ _ h => h).symm)
        · refine Or.inr ⟨j, k, u, hu, fun ys i w hys h => ?_⟩
          obtain ⟨t', hf, ht⟩ := hpasses ys i w hys h
          exact ⟨t', (hok ys hys).trans hf, ht⟩
      · exact Or.inl fun ys hys => (Run.bind_of_error ((hsame ys hys).trans hr)).trans
          (Run.bind_of_error hr).symm
    · refine Or.inr ⟨j, k, u, hu, fun ys i w hys h => ?_⟩
      obtain ⟨t, hx, ht⟩ := hpasses ys i w hys h
      exact ⟨t, Run.bind_of_error hx, ht⟩
  looping := by
    intro α x loop hx s
    rcases hx s with hsame | ⟨j, k, u, hu, hpasses⟩
    · refine Or.inl fun ys hys => ?_
      simp only [Run.restoring, hsame ys hys]
    · refine Or.inr ⟨j, k, u, hu, fun ys i w hys h => ?_⟩
      obtain ⟨t, hx, ht⟩ := hpasses ys i w hys h
      exact ⟨_, Run.restoring_of_error loop.names hx, ht.restored loop s.locals⟩

/-- What goes well although the operands never end where they are interrupted goes so anyway. -/
theorem of_hush {x : (Nat → Lazy) → Run α} (hx : Relays (hush xs) α x) {a : α}
    (h : x (hush xs) s = .ok a t) : x xs s = .ok a t := by
  rcases hx s with hsame | ⟨j, k, u, ⟨i, w, hu⟩, hpasses⟩
  · exact (hsame xs (hush_goOn xs)).trans h
  · obtain ⟨v, herror, _⟩ := hpasses (hush xs) i w (fun _ _ _ _ _ h => h) hu
    cases herror.symm.trans h

end Relays

section Nodes

variable {Own : (α : Type) → Run α → Prop} (hlang : lang.IsOrdinary Own)
  (run : Expr → Lazy)

include hlang

/-- The nodes of an ordinary language pass on what interrupts their operands. -/
theorem relays_apply (e : Expr) (kind : Kind) (xs : Nat → Lazy) :
    Relays xs Value fun ys => e.apply lang run kind ys := by
  have henter : ∀ procedure scope e k, Relays xs Value fun _ => enter procedure scope (run e k) :=
    fun _ _ _ _ => .const _
  have hthreads : lang.Threads (Relays xs) fun _ => run :=
    (Relays.weave xs).threads hlang (fun _ => .const _) (.const _) henter fun _ => .const _
  exact (Relays.weave xs).applyNode henter hthreads e kind .operand

end Nodes

/-- Locates a fault, if there is a place for that and it has no site already. -/
def Interrupt.locateAt (site : Option Site) (i : Interrupt) : Interrupt :=
  site.elim i fun site => i.locate site

theorem Run.locatedAt_of_error {α : Type} {x : Run α} (site : Option Site) (h : x s = .error i t) :
    Run.locatedAt site x s = .error (i.locateAt site) t := by
  cases site with
  | none => exact h
  | some site => exact Run.located_of_error site h

theorem Run.of_locatedAt_error {α : Type} {x : Run α} {site : Option Site}
    (h : Run.locatedAt site x s = .error i t) : ∃ i', x s = .error i' t ∧ i = i'.locateAt site := by
  rcases hx : x s with ⟨a, u⟩ | ⟨i', u⟩
  · cases site with
    | none => cases hx.symm.trans h
    | some site => cases (located_of_ok site hx).symm.trans h
  · cases (locatedAt_of_error site hx).symm.trans h
    exact ⟨i', rfl, rfl⟩

theorem Run.locatedAt_congr {α : Type} {x y : Run α} {s : State} (site : Option Site)
    (h : x s = y s) : Run.locatedAt site x s = Run.locatedAt site y s := by
  cases site with
  | none => exact h
  | some site => simp only [locatedAt, Option.elim, located, h]

/-- The node, which begins in `s`, comes to its operand `j`, wanted for `k`, in the state `u`. The
operand is interrupted there, and so is the node: whatever it is that interrupts the operand and
in whatever state, the node is then interrupted by it, located if it lacks a site, and nothing
else happens but that loops put their names back. -/
structure Expr.PassesOn (lang : Language) (run : Expr → Lazy) (e : Expr) (kind : Kind) (s : State)
    (j : Nat) (k : Kind) (u : State) : Prop where
  interrupted : ∃ i w, e.operands lang run j k u = .error i w
  passes : ∀ ys i w, GoOn (e.operands lang run) ys → ys j k u = .error i w →
    ∃ t, e.node lang run kind ys s = .error (i.locateAt e.site?) t ∧ Unwinds w t

/-- So the node is interrupted as its operand is. -/
theorem Expr.PassesOn.denote_eq {kind k : Kind} {s u w : State} {j : Nat}
    (h : e.PassesOn lang run kind s j k u) (hi : e.operands lang run j k u = .error i w) :
    ∃ t, e.denote lang run kind s = .error (i.locateAt e.site?) t ∧ Unwinds w t := by
  rw [denote_eq_node]
  exact h.passes _ i w (fun _ _ _ _ _ h => h) hi

/-- A node passes on what interrupts one of its operands, or it goes as it goes with operands
that never end where its own are interrupted. -/
theorem Expr.passesOn_or_alone {Own : (α : Type) → Run α → Prop} (hlang : lang.IsOrdinary Own)
    (run : Expr → Lazy) (e : Expr) (kind : Kind) (s : State) :
    (∃ j k u, e.PassesOn lang run kind s j k u) ∨
      e.denote lang run kind s = e.node lang run kind (hush (e.operands lang run)) s := by
  rcases relays_apply hlang run e kind (e.operands lang run) s with
    hsame | ⟨j, k, u, hu, hpasses⟩
  · refine Or.inr ?_
    rw [denote_eq_node]
    exact (Run.locatedAt_congr e.site? (hsame _ (goOn_hush _))).symm
  · refine Or.inl ⟨j, k, u, hu, fun ys i w hys h => ?_⟩
    obtain ⟨t, hx, ht⟩ := hpasses ys i w hys h
    exact ⟨t, Run.locatedAt_of_error e.site? hx, ht⟩

/-- What interrupts a node although its operands never end where they are interrupted interrupts
it anyway. -/
theorem Expr.denote_of_alone {Own : (α : Type) → Run α → Prop} (hlang : lang.IsOrdinary Own)
    (h : e.node lang run kind (hush (e.operands lang run)) s = .error i t) (hi : i ≠ .endless) :
    e.denote lang run kind s = .error i t := by
  rcases e.passesOn_or_alone hlang run kind s with ⟨j, k, u, hpasses⟩ | halone
  · obtain ⟨i', w, hu⟩ := hpasses.interrupted
    have hhushed : hush (e.operands lang run) j k u = .error .endless w := by simp only [hush, hu]
    obtain ⟨t', hnode, _⟩ := hpasses.passes _ _ _ (goOn_hush _) hhushed
    have hendless : Interrupt.locateAt e.site? .endless = .endless := by cases e.site? <;> rfl
    rw [h, hendless] at hnode
    injection hnode with hi'
    exact absurd hi' hi
  · exact halone.trans h

/-! ## Bodies of procedures -/

/-- The tree, evaluated in the given state, is a call that comes to the body of the procedure `p`:
this has been found, all arguments have values, which make up the scope of the body, and the
state is then `t`. The call names the procedure, or it has its name as a value. -/
inductive Enters (lang : Language) (run : Expr → Lazy) (s : State) :
    Expr → Procedure → Registry Value → State → Prop
  | named {name : String} {args : List Expr} (site : Site) {p : Procedure}
      {scope : Registry Value} {t : State} :
      lang.function? name = none →
      prepareCall name (Expr.denoteAll lang run args) s = .ok (p, scope) t →
      Enters lang run s (.call name args site) p scope t
  | byValue {name : String} {first : Expr} {args : List Expr} (site : Site) {v : Value}
      {u : State} {p : Procedure} {scope : Registry Value} {t : State} :
      lang.function? name = some calling → first.denote lang run .value s = .ok v u →
      prepareCall v.display (Expr.denoteAll lang run args) u = .ok (p, scope) t →
      Enters lang run s (.call name (first :: args) site) p scope t

/-- Such a call goes as the body does that is entered. -/
theorem Enters.denote_eq {p : Procedure} {scope : Registry Value}
    (h : Enters lang run s e p scope t) (kind : Kind) :
    ∃ site, e.site? = some site ∧
      e.denote lang run kind s = Run.located site (enter p.name scope (run p.body kind)) t := by
  cases h with
  | @named name args site _ _ _ hname hcall =>
    refine ⟨site, rfl, ?_⟩
    have happly : applyCall lang run name kind (Expr.denoteAll lang run args) s =
        enter p.name scope (run p.body kind) t := by
      simp only [applyCall, hname, callNamed_eq_prepareCall]
      exact Run.bind_of_ok hcall
    simp only [Expr.denote, Run.located, happly]
  | @byValue name first args site v u _ _ _ hname hfirst hcall =>
    refine ⟨site, rfl, ?_⟩
    have happly : applyCall lang run name kind (Expr.denoteAll lang run (first :: args)) s =
        enter p.name scope (run p.body kind) t := by
      simp only [applyCall, hname, Expr.denoteAll, calling_eq, callNamed_eq_prepareCall]
      rw [Run.bind_of_ok hfirst]
      exact Run.bind_of_ok hcall
    simp only [Expr.denote, Run.located, happly]

/-- A tree that is interrupted is so because an operand is, because the body of a procedure that
it calls is, because the call of a procedure is refused, or by itself. -/
theorem Expr.interrupted_cases {Own : (α : Type) → Run α → Prop} (hlang : lang.IsOrdinary Own)
    (h : e.denote lang run kind s = .error i t) :
    (∃ j part k u i' w, e.parts[j]? = some part ∧ e.PassesOn lang run kind s j k u ∧
      part.denote lang run k u = .error i' w ∧ i = i'.locateAt e.site?) ∨
    (∃ p scope u i' w, Enters lang run s e p scope u ∧ u.machine.depth < maxCallDepth ∧
      run p.body kind (Run.inner scope u) = .error i' w ∧
        i = (i'.leave p.name).locateAt e.site?) ∨
    (∃ p scope u site, Enters lang run s e p scope u ∧ maxCallDepth ≤ u.machine.depth ∧
      e.site? = some site ∧ i = .fault ⟨.callTooDeep, some site, some p.name⟩) ∨
    (∀ p scope u, ¬Enters lang run s e p scope u) ∧
      e.node lang run kind (hush (e.operands lang run)) s = .error i t := by
  by_cases hbody : ∃ p scope u, Enters lang run s e p scope u
  · obtain ⟨p, scope, u, henters⟩ := hbody
    obtain ⟨site, hsite, hcall⟩ := henters.denote_eq kind
    rw [hcall] at h
    by_cases hdepth : u.machine.depth < maxCallDepth
    · rcases hr : run p.body kind (Run.inner scope u) with ⟨v, w⟩ | ⟨i', w⟩
      · cases (Run.located_of_ok site (Run.enter_of_ok p.name hdepth hr)).symm.trans h
      · cases (Run.located_of_error site (Run.enter_of_error p.name hdepth hr)).symm.trans h
        rw [hsite]
        exact Or.inr (Or.inl ⟨p, scope, u, i', w, henters, hdepth, hr, rfl⟩)
    · have hdeep := Nat.le_of_not_lt hdepth
      cases (Run.located_of_error site (Run.enter_of_deep p.name hdeep)).symm.trans h
      exact Or.inr (Or.inr (Or.inl ⟨p, scope, _, site, henters, hdeep, hsite, rfl⟩))
  · rcases e.passesOn_or_alone hlang run kind s with ⟨j, k, u, hpasses⟩ | halone
    · obtain ⟨i', w, hi'⟩ := hpasses.interrupted
      obtain ⟨t', hnode, _⟩ := hpasses.denote_eq hi'
      rw [h] at hnode
      injection hnode with hlocated
      cases hpart : e.parts[j]? with
      | none =>
        simp only [operands, hpart] at hi'
        cases hi'
      | some part =>
        simp only [operands, hpart] at hi'
        exact Or.inl ⟨j, part, k, u, i', w, hpart, hpasses, hi', hlocated⟩
    · refine Or.inr (Or.inr (Or.inr ⟨fun p scope u henters => hbody ⟨p, scope, u, henters⟩, ?_⟩))
      exact halone.symm.trans h

/-! ## Nodes by themselves -/

/-- All that interrupts the computation has the property. -/
def Errs (Q : Interrupt → Prop) (α : Type) (x : Unit → Run α) : Prop :=
  ∀ s i t, x () s = .error i t → Q i

theorem Errs.weave {Q : Interrupt → Prop} (hfault : ∀ cause, Q (.fault (.ofCause cause)))
    (hendless : Q .endless) : CallWeave (Errs Q) where
  plain := by
    intro α x hx
    induction hx with
    | look | act =>
      intro s i t h
      cases h
    | fail cause =>
      intro s i t h
      cases h
      exact hfault cause
    | endless =>
      intro s i t h
      cases h
      exact hendless
    | bind _ _ ihx ihf =>
      intro s i t h
      rcases Run.of_bind_error h with h | ⟨a, u, _, h⟩
      · exact ihx s i t h
      · exact ihf a u i t h
  bind := by
    intro α β x f hx hf s i t h
    rcases Run.of_bind_error h with h | ⟨a, u, _, h⟩
    · exact hx s i t h
    · exact hf a u i t h
  looping := by
    intro α x loop hx s i t h
    rcases hr : x () s with ⟨a, u⟩ | ⟨i', u⟩
    · cases (Run.restoring_of_ok loop.names hr).symm.trans h
    · cases (Run.restoring_of_error loop.names hr).symm.trans h
      exact hx s _ u hr
  find _ s i t h := by cases h
  store _ s i t h := by cases h

/-- A call that comes to a body although the operands never end where they are interrupted comes
to it anyway. -/
theorem prepareCall_of_hush {name : String} {n : Nat} (pick : Nat → Nat)
    {call : Procedure × Registry Value}
    (h : prepareCall name ((List.range n).map fun j => hush xs (pick j)) s = .ok call t) :
    prepareCall name ((List.range n).map fun j => xs (pick j)) s = .ok call t := by
  have hrelays := (Relays.weave (hush xs)).prepareCall name
    (Weave.mem_operands (fun j => Relays.operand (pick j)) n)
  simp only [Weave.map_member] at hrelays
  exact hrelays.of_hush h

/-- The operands of a call are what its arguments mean. -/
theorem Expr.denoteAll_eq_operands (lang : Language) (run : Expr → Lazy) (name : String)
    (args : List Expr) (site : Site) :
    denoteAll lang run args =
      (List.range args.length).map ((Expr.call name args site).operands lang run) := by
  rw [denoteAll_eq_map]
  exact ((Expr.call name args site).map_operands lang run).symm

theorem Expr.denoteAll_eq_later_operands (lang : Language) (run : Expr → Lazy) (name : String)
    (first : Expr) (args : List Expr) (site : Site) :
    denoteAll lang run args = (List.range args.length).map fun j =>
      (Expr.call name (first :: args) site).operands lang run (j + 1) := by
  have hall := denoteAll_eq_operands lang run name (first :: args) site
  rw [List.length_cons, List.range_succ_eq_map, List.map_cons, List.map_map] at hall
  exact (List.cons.inj hall).2

section Alone

variable {Own : (α : Type) → Run α → Prop} (hlang : lang.IsOrdinary Own)
  {run : Expr → Lazy} {Q : Interrupt → Prop} (hfault : ∀ cause, Q (.fault (.ofCause cause)))
  (hendless : Q .endless) (hown : ∀ {α : Type} {x : Run α}, Own α x → Errs Q α fun _ => x)

include hlang hfault hendless hown

/-- What interrupts a node although its operands are not interrupted, but for a loop, a yield and
a call that comes to a body, is a new fault or comes from a step of the host. -/
theorem Expr.alone_cases (h : e.apply lang run kind (hush (e.operands lang run)) s = .error i t) :
    Q i ∨
    (∃ name args site, e = .call name args site ∧
      ((∃ loop : Loop, lang.function? name = some loop.native) ∨
        lang.function? name = some ticking)) ∨
    ∃ p scope u, Enters lang run s e p scope u := by
  have hP := Errs.weave hfault hendless
  have hoperand : ∀ j, Threads (Errs Q) fun _ => hush (e.operands lang run) j := by
    intro j k s i t h
    rw [eq_endless_of_hush h]
    exact hendless
  by_cases hcall : ∃ name args site, e = .call name args site
  · obtain ⟨name, args, site, rfl⟩ := hcall
    have hargs := Weave.mem_operands hoperand
    simp only [apply, applyCall] at h
    cases hf : lang.function? name with
    | none =>
      simp only [hf, callNamed_eq_prepareCall] at h
      rcases Run.of_bind_error h with h | ⟨⟨p, scope⟩, u, hcall, _⟩
      · refine Or.inl (hP.prepareCall name (hargs args.length) s i t ?_)
        simpa only [Weave.map_member] using h
      · refine Or.inr (Or.inr ⟨p, scope, u, .named site hf ?_⟩)
        rw [denoteAll_eq_operands lang run name args site]
        exact prepareCall_of_hush id hcall
    | some f =>
      simp only [hf] at h
      rcases hlang.function hf with hsimple | hloop | rfl | rfl
      · refine Or.inl (hsimple hP.toWeave hown (fun _ => run) _ (hargs args.length) kind s i t ?_)
        simpa only [Weave.map_member] using h
      · obtain ⟨loop, rfl⟩ := hloop
        exact Or.inr (Or.inl ⟨name, args, site, rfl, Or.inl ⟨loop, hf⟩⟩)
      · cases args with
        | nil => cases h
        | cons first args =>
          rw [List.length_cons, List.range_succ_eq_map, List.map_cons, List.map_map,
            calling_eq] at h
          rcases Run.of_bind_error h with h | ⟨v, u, hfirst, h⟩
          · exact Or.inl (hoperand 0 .value s i t h)
          rw [callNamed_eq_prepareCall] at h
          rcases Run.of_bind_error h with h | ⟨⟨p, scope⟩, w, hcall, _⟩
          · refine Or.inl (hP.prepareCall v.display (Weave.mem_operands
              (fun j => hoperand (j + 1)) args.length) u i t ?_)
            simpa only [Weave.map_member, Function.comp_def] using h
          · refine Or.inr (Or.inr ⟨p, scope, w, .byValue site hf (hush_goOn _ _ _ _ _ _ hfirst) ?_⟩)
            rw [denoteAll_eq_later_operands lang run name first args site]
            exact prepareCall_of_hush Nat.succ hcall
      · exact Or.inr (Or.inl ⟨name, args, site, rfl, Or.inr hf⟩)
  · have hnode : Errs Q Value fun _ => e.apply lang run kind (hush (e.operands lang run)) :=
      hP.apply hoperand (fun h => hlang.binary h hP.toWeave hown)
        (fun h => hlang.unary h hP.toWeave hown) e kind
        (fun name args site he => absurd ⟨name, args, site, he⟩ hcall) fun _ _ _ _ _ => hP.store _
    exact Or.inl (hnode s i t h)

end Alone

end TickScript
