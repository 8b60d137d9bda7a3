-- Where faults come from. Every fault of a script has a site, and it names the innermost
-- procedure whose body it left: what is around passes it on as it is, but for what is missing.
import TickScript.Proofs.Origins
import TickScript.Proofs.Ticks

namespace TickScript

/-! ## Sites -/

/-- Whatever fault the computation ends with has a site. -/
def Run.Sited {α : Type} (x : Run α) : Prop :=
  ∀ s f t, x s = .error (.fault f) t → f.site.isSome = true

namespace Run.Sited

variable {α β : Type}

theorem of_ok {x : Run α} (h : ∀ s, ∃ a t, x s = .ok a t) : Sited x := by
  intro s f t hx
  obtain ⟨a, u, ha⟩ := h s
  cases ha.symm.trans hx

theorem located (site : Site) (x : Run α) : Sited (Run.located site x) := by
  intro s f t h
  rcases hx : x s with ⟨a, u⟩ | ⟨i, u⟩
  · rw [located_of_ok site hx] at h
    cases h
  · rw [located_of_error site hx] at h
    cases i with
    | fault g =>
      cases h
      simp [Fault.locate]
    | stopped | endless => cases h

theorem bind {x : Run α} {g : α → Run β} (hx : Sited x) (hg : ∀ a, Sited (g a)) :
    Sited (x >>= g) := by
  intro s f t h
  rcases Run.of_bind_error h with h | ⟨a, u, _, h⟩
  · exact hx s f t h
  · exact hg a u f t h

end Run.Sited

mutual

/-- Literals and definitions have no faults, statements pass on those of their parts, and all
other nodes locate theirs. -/
theorem sited_denote (lang : Language) (run : Expr → Lazy) :
    ∀ (e : Expr) (kind : Kind), Run.Sited (e.denote lang run kind)
  | .number _, _ => .of_ok fun s => ⟨_, s, rfl⟩
  | .text _, _ => .of_ok fun s => ⟨_, s, rfl⟩
  | .var .., _ => .located _ _
  | .unary .., _ => .located _ _
  | .binary .., _ => .located _ _
  | .call .., _ => .located _ _
  | .define .., _ => .of_ok fun _ => ⟨_, _, rfl⟩
  | .sequence items, kind => sited_denoteSequence lang run items kind

theorem sited_denoteSequence (lang : Language) (run : Expr → Lazy) :
    ∀ (items : List Expr) (kind : Kind), Run.Sited (Expr.denoteSequence lang run items kind)
  | [], _ => .of_ok fun s => ⟨_, s, rfl⟩
  | [e], kind => sited_denote lang run e kind
  | e :: f :: rest, kind =>
    .bind (sited_denote lang run e .void) fun _ => sited_denoteSequence lang run (f :: rest) kind

end

theorem sited_evaluateWithin (lang : Language) (levels : Nat) (e : Expr) (kind : Kind) :
    Run.Sited (evaluateWithin lang levels e kind) := by
  cases levels with
  | zero =>
    intro s f t h
    cases h
  | succ levels => exact sited_denote lang _ e kind

theorem sited_scriptEvaluate (lang : Language) (script : Script) (kind : Kind) :
    Run.Sited (script.evaluate (evaluate lang) kind) := by
  intro s f t h
  obtain ⟨u, hx⟩ := Run.of_reported_fault h
  exact sited_evaluateWithin lang (maxCallDepth + 2) script.root kind s f u hx

/-! ## The way of a fault -/

/-- The fault comes out of the tree, which is evaluated in the given state with so many levels, and
on its way out it leaves the bodies of these procedures, innermost first. A procedure that is
refused is left as well, as if its body had been entered. -/
inductive Raises (lang : Language) : Nat → Expr → Kind → State → Fault → List String → Prop
  /-- The node comes to no body, and it fails even if its operands never end where they are
  interrupted. -/
  | own {levels : Nat} {e : Expr} {kind : Kind} {s t : State} {f : Fault} :
      (∀ p scope u, ¬Enters lang (evaluateWithin lang levels) s e p scope u) →
      e.node lang (evaluateWithin lang levels) kind
        (hush (e.operands lang (evaluateWithin lang levels))) s = .error (.fault f) t →
      Raises lang (levels + 1) e kind s f []
  | operand {levels j : Nat} {e part : Expr} {kind k : Kind} {s u : State} {f : Fault}
      {left : List String} :
      e.parts[j]? = some part → e.PassesOn lang (evaluateWithin lang levels) kind s j k u →
      Raises lang (levels + 1) part k u f left → Raises lang (levels + 1) e kind s f left
  | refused {levels : Nat} {e : Expr} (kind : Kind) {s u : State} {p : Procedure}
      {scope : Registry Value} {site : Site} :
      Enters lang (evaluateWithin lang levels) s e p scope u → maxCallDepth ≤ u.machine.depth →
      e.site? = some site →
      Raises lang (levels + 1) e kind s ⟨.callTooDeep, some site, some p.name⟩ [p.name]
  | body {levels : Nat} {e : Expr} {kind : Kind} {s u : State} {p : Procedure}
      {scope : Registry Value} {f : Fault} {left : List String} :
      Enters lang (evaluateWithin lang levels) s e p scope u → u.machine.depth < maxCallDepth →
      Raises lang levels p.body kind (Run.inner scope u) f left →
      Raises lang (levels + 1) e kind s (f.leave p.name) (left ++ [p.name])

/-- A fault that has a site is located already. -/
theorem Fault.locateAt_of_site {f : Fault} (h : f.site.isSome = true) (site : Option Site) :
    Interrupt.locateAt site (.fault f) = .fault f := by
  obtain ⟨cause, first, procedure⟩ := f
  obtain ⟨first, rfl⟩ := Option.isSome_iff_exists.mp h
  cases site with
  | none => rfl
  | some site => rfl

theorem Interrupt.exists_fault_of_locateAt {site : Option Site} {i : Interrupt} {f : Fault}
    (h : i.locateAt site = .fault f) : ∃ g, i = .fault g := by
  cases i with
  | fault g => exact ⟨g, rfl⟩
  | stopped | endless => cases site <;> cases h

theorem Interrupt.exists_fault_of_leave {procedure : String} {i : Interrupt} {f : Fault}
    (h : i.leave procedure = .fault f) : ∃ g, i = .fault g := by
  cases i with
  | fault g => exact ⟨g, rfl⟩
  | stopped | endless => cases h

/-- The interrupt is no fault that names a procedure. -/
def Interrupt.Nameless (i : Interrupt) : Prop := ∀ f, i = .fault f → f.procedure = none

/-- A step of the host that names no procedure in its faults. -/
def Nameless (α : Type) (x : Run α) : Prop :=
  ∀ s f t, x s = .error (.fault f) t → f.procedure = none

section Ways

variable {lang : Language} (hlang : lang.IsOrdinary Nameless) {levels : Nat} {e : Expr}
  {kind : Kind} {s t : State} {f : Fault} {left : List String}

include hlang

/-- A tree out of which a fault comes ends with this fault. -/
theorem Raises.fails (h : Raises lang levels e kind s f left) :
    ∃ t, evaluateWithin lang levels e kind s = .error (.fault f) t := by
  induction h with
  | own _ halone => exact ⟨_, Expr.denote_of_alone hlang halone nofun⟩
  | @operand levels j e part kind k s u f left hpart hpasses _ ih =>
    obtain ⟨w, hw⟩ := ih
    have hoperand : e.operands lang (evaluateWithin lang levels) j k u =
        .error (.fault f) w := by
      simp only [Expr.operands, hpart]
      exact hw
    obtain ⟨t, hnode, _⟩ := hpasses.denote_eq hoperand
    rw [Fault.locateAt_of_site (sited_evaluateWithin lang _ part k u f w hw)] at hnode
    exact ⟨t, hnode⟩
  | @refused levels e kind s u p scope site henters hdeep hsite =>
    obtain ⟨site', hsite', hcall⟩ := henters.denote_eq kind
    cases hsite.symm.trans hsite'
    exact ⟨u, hcall.trans (Run.located_of_error site (Run.enter_of_deep p.name hdeep))⟩
  | @body levels e kind s u p scope f left henters hdepth _ ih =>
    obtain ⟨w, hw⟩ := ih
    obtain ⟨site, _, hcall⟩ := henters.denote_eq kind
    have hsited : (f.leave p.name).site.isSome = true :=
      sited_evaluateWithin lang levels p.body kind _ f w hw
    have hbody := Run.located_of_error site (Run.enter_of_error p.name hdepth hw)
    exact ⟨_, (hcall.trans hbody).trans
      (congrArg (EStateM.Result.error · _) (Fault.locateAt_of_site hsited (some site)))⟩

/-- Every fault with which a tree ends comes out of it in this way. -/
theorem raises_of_fault (h : evaluateWithin lang levels e kind s = .error (.fault f) t) :
    ∃ left, Raises lang levels e kind s f left := by
  induction levels generalizing e kind s t f with
  | zero => cases h
  | succ levels ihlevels =>
    induction e using Expr.induction_on_parts generalizing kind s t f with
    | node e ihparts =>
      simp only [evaluateWithin] at h ihparts
      rcases Expr.interrupted_cases hlang h with
        ⟨j, part, k, u, i, w, hpart, hpasses, hi, hlocated⟩ |
        ⟨p, scope, u, i, w, henters, hdepth, hi, hleft⟩ |
        ⟨p, scope, u, site, henters, hdeep, hsite, hi⟩ | ⟨hbody, halone⟩
      · obtain ⟨g, rfl⟩ : ∃ g, i = .fault g := Interrupt.exists_fault_of_locateAt hlocated.symm
        have hsited := sited_denote lang (evaluateWithin lang levels) part k u g w hi
        rw [Fault.locateAt_of_site hsited] at hlocated
        cases hlocated
        obtain ⟨left, hway⟩ := ihparts part (List.mem_of_getElem? hpart) hi
        exact ⟨left, .operand hpart hpasses hway⟩
      · obtain ⟨h, hh⟩ := Interrupt.exists_fault_of_locateAt hleft.symm
        obtain ⟨g, rfl⟩ := Interrupt.exists_fault_of_leave hh
        have hsited : (g.leave p.name).site.isSome = true :=
          sited_evaluateWithin lang levels p.body kind _ g w hi
        rw [Interrupt.leave, Fault.locateAt_of_site hsited] at hleft
        cases hleft
        obtain ⟨left, hway⟩ := ihlevels hi
        exact ⟨_, .body henters hdepth hway⟩
      · cases hi
        exact ⟨_, .refused kind henters hdeep hsite⟩
      · exact ⟨[], .own hbody halone⟩

/-- A node that fails by itself names no procedure. -/
theorem procedure_of_alone {run : Expr → Lazy}
    (hbody : ∀ p scope u, ¬Enters lang run s e p scope u)
    (h : e.node lang run kind (hush (e.operands lang run)) s = .error (.fault f) t) :
    f.procedure = none := by
  have hendless : Interrupt.Nameless .endless := fun f h => by cases h
  have hfault : ∀ cause, Interrupt.Nameless (.fault (.ofCause cause)) := by
    rintro cause f ⟨⟩
    rfl
  have hP := Errs.weave hfault hendless
  have hcheck : Errs Interrupt.Nameless Unit fun _ => Run.checkStop := by
    intro s i t h f hi
    cases (Run.checkStop_of_cancelled (Run.cancelled_of_checkStop h)).symm.trans h
    cases hi
  have hyield : ∀ budget, Errs Interrupt.Nameless Unit fun _ => yield run budget :=
    fun budget s i t h f hi => absurd (hi ▸ h) (yield_ne_fault budget f)
  have hoperands : ∀ n, ∀ x ∈ (List.range n).map fun j (_ : Unit) => hush (e.operands lang run) j,
      Threads (Errs Interrupt.Nameless) x := by
    refine Weave.mem_operands fun j k s i t h f hi => ?_
    cases (eq_endless_of_hush h).symm.trans hi
  have hown : ∀ {α : Type} {x : Run α}, Nameless α x → Errs Interrupt.Nameless α fun _ => x :=
    fun hx s i t h f hi => hx s f t (hi ▸ h)
  obtain ⟨i, happly, hi⟩ := Run.of_locatedAt_error h
  have hnameless : i.Nameless := by
    rcases Expr.alone_cases hlang hfault hendless hown happly with
      hQ | ⟨name, args, site, rfl, ⟨loop, hname⟩ | hname⟩ | ⟨p, scope, u, henters⟩
    · exact hQ
    · have hloop : loop.native.Threads (Errs Interrupt.Nameless) fun _ => run := hP.loop hcheck loop
      simp only [Expr.apply, applyCall, hname] at happly
      refine hloop _ (hoperands args.length) kind s i t ?_
      simpa only [Weave.map_member] using happly
    · have htick : Library.ticking.Threads (Errs Interrupt.Nameless) fun _ => run :=
        hP.ticking hyield
      simp only [Expr.apply, applyCall, hname] at happly
      refine htick _ (hoperands args.length) kind s i t ?_
      simpa only [Weave.map_member] using happly
    · exact absurd henters (hbody p scope u)
  obtain ⟨g, rfl⟩ := Interrupt.exists_fault_of_locateAt hi.symm
  have hg := hnameless g rfl
  cases hsite : e.site? with
  | none =>
    rw [hsite] at hi
    cases hi
    exact hg
  | some site =>
    rw [hsite] at hi
    cases hi
    exact hg

/-- So a fault names the innermost procedure that it has left, or none if it has left none. -/
theorem Raises.procedure_eq (h : Raises lang levels e kind s f left) :
    f.procedure = left.head? := by
  induction h with
  | own hbody halone => exact procedure_of_alone hlang hbody halone
  | operand _ _ _ ih => exact ih
  | refused => rfl
  | @body _ _ _ _ _ p _ f left _ _ _ ih =>
    cases left with
    | nil => simp [Fault.leave, ih]
    | cons first rest => simp [Fault.leave, ih]

end Ways

/-! ## Scripts -/

/-- Every fault of a script has a site, and it names the innermost procedure whose body it left, if
it left any: it arises at a node, and what is around passes it on with its site and procedure,
but that a procedure whose body it leaves is named if none is. All faults that arise come out in
this way. A fault of an argument is passed on by the call as it is, and a call that is refused for
being too deep counts as left. -/
theorem a_fault_keeps_its_first_site_and_procedure {rs : List Registration}
    (hrs : ∀ r ∈ rs, r.IsOrdinary Nameless) (script : Script) (kind : Kind) (s : State) :
    (∀ f t, script.evaluate (evaluate (.extended rs)) kind s = .error (.fault f) t →
      f.site.isSome = true ∧
      ∃ left, Raises (.extended rs) (maxCallDepth + 2) script.root kind s f left) ∧
    (∀ f left, Raises (.extended rs) (maxCallDepth + 2) script.root kind s f left →
      f.procedure = left.head? ∧
      ∃ t, script.evaluate (evaluate (.extended rs)) kind s = .error (.fault f) t) ∧
    ∀ (levels : Nat) (name : String) (p : Procedure) (args : List Lazy) (kind : Kind) (u : State),
      u.machine.procedures.get? name = some p → args.length = p.params.length →
      (∀ i t, bindArguments p.params args .empty u = .error i t →
        callNamed (evaluateWithin (.extended rs) levels) name args kind u = .error i t) ∧
      ∀ scope t, bindArguments p.params args .empty u = .ok scope t →
        maxCallDepth ≤ t.machine.depth →
        callNamed (evaluateWithin (.extended rs) levels) name args kind u =
          .error (.fault ⟨.callTooDeep, none, some p.name⟩) t := by
  have hlang := Language.ordinary_extended hrs
  refine ⟨fun f t h => ⟨sited_scriptEvaluate _ script kind s f t h, ?_⟩, fun f left hway => ?_, ?_⟩
  · obtain ⟨u, hx⟩ := Run.of_reported_fault h
    exact raises_of_fault hlang hx
  · obtain ⟨t, ht⟩ := hway.fails hlang
    exact ⟨hway.procedure_eq hlang, _, Run.reported_of_fault ht⟩
  · intro levels name p args kind u hp hcount
    refine ⟨fun i t h => Run.callNamed_of_error hp hcount h, fun scope t h hdeep => ?_⟩
    rw [Run.callNamed_of_ok hp hcount h]
    exact Run.enter_of_deep p.name hdeep

namespace FailingHost

/-- A step of a host that always fails. -/
def explode : Run Value := fun s => .error (.fault (.ofCause (.raised .failure "boom"))) s

def registrations : List Registration :=
  [.function "explode" (.eager (.exactly 0) fun _ => explode)]

def source : Source := ⟨"outer()", none⟩

/-- The site of a call. -/
def site (name : String) : Site := ⟨⟨.call, name, .start⟩, source⟩

/-- A state with a procedure that calls another one, which makes the host fail. -/
def state : State where
  locals := .empty
  machine :=
    { procedures := .ofList
        [("inner", ⟨"inner", [], .call "explode" [] (site "explode"), site "inner"⟩),
          ("outer", ⟨"outer", [], .call "inner" [] (site "inner"), site "outer"⟩)] }

def script : Script := ⟨.call "outer" [] (site "outer"), source⟩

end FailingHost

open FailingHost in
/-- A fault that leaves two procedures names the inner one, and its site is where it arose. -/
theorem the_inner_of_two_procedures_is_named :
    (∀ r ∈ registrations, r.IsOrdinary Nameless) ∧
      ∃ f t, script.evaluate (evaluate (.extended registrations)) .value state =
          .error (.fault f) t ∧
        f.site = some (site "explode") ∧ f.procedure = some "inner" ∧
        ∃ left, Raises (.extended registrations) (maxCallDepth + 2) script.root .value state f
            left ∧
          f.procedure = left.head? := by
  have hexplode : Nameless Value explode := by
    intro s f t h
    cases h
    rfl
  have hrs : ∀ r ∈ registrations, r.IsOrdinary Nameless := by
    intro r hr
    rw [List.mem_singleton.mp hr]
    exact Native.ordinary_step _ fun _ => hexplode
  have hfault : script.evaluate (evaluate (.extended registrations)) .value state =
      .error (.fault ⟨.raised .failure "boom", some (site "explode"), some "inner"⟩)
        ((script.evaluate (evaluate (.extended registrations)) .value).after state) := by
    rfl
  have hways := a_fault_keeps_its_first_site_and_procedure hrs script .value state
  obtain ⟨left, hway⟩ := (hways.1 _ _ hfault).2
  exact ⟨hrs, _, _, hfault, rfl, rfl, left, hway, (hways.2.1 _ _ hway).1⟩

end TickScript
