-- Two evaluations side by side, of trees and on machines that are like each other in some respect:
-- the same but for where things were written, say. Whatever the respect is, if all that scripts
-- are made of regards it, then like scripts end alike. A likeness need not hold of a thing and
-- itself; where it does, this is an invariant of evaluation.
import Mathlib.Data.List.Forall2
import TickScript.Proofs.Alike
import TickScript.Proofs.Nodes
import TickScript.Proofs.Registries

namespace TickScript

variable {c d : Clock} {s t : State} {f g : Fault} {args others : List Lazy} {job other : Job}

/-! ## Likenesses -/

/-- The trees are made in the same way of parts that are like each other. -/
inductive Expr.PartsLike (site : Site → Site → Prop) (tree : Expr → Expr → Prop)
    (procedure : String → Procedure → Procedure → Prop) : Expr → Expr → Prop
  | number (x : Float) : PartsLike site tree procedure (.number x) (.number x)
  | text (s : String) : PartsLike site tree procedure (.text s) (.text s)
  | var (name : String) (isTarget : Bool) {s t : Site} (hsite : site s t) :
      PartsLike site tree procedure (.var name isTarget s) (.var name isTarget t)
  | unary (operator : String) {e f : Expr} {s t : Site} (h : tree e f) (hsite : site s t) :
      PartsLike site tree procedure (.unary operator e s) (.unary operator f t)
  | binary (operator : String) {e f e' f' : Expr} {s t : Site} (hleft : tree e f)
      (hright : tree e' f') (hsite : site s t) :
      PartsLike site tree procedure (.binary operator e e' s) (.binary operator f f' t)
  | call (name : String) {args others : List Expr} {s t : Site}
      (hargs : List.Forall₂ tree args others) (hsite : site s t) :
      PartsLike site tree procedure (.call name args s) (.call name others t)
  | define {name : String} {params : List String} {e f : Expr} {s t : Site}
      (h : procedure name ⟨name, params, e, s⟩ ⟨name, params, f, t⟩) :
      PartsLike site tree procedure (.define name params e s) (.define name params f t)
  | sequence {items others : List Expr} (h : List.Forall₂ tree items others) :
      PartsLike site tree procedure (.sequence items) (.sequence others)

/-- When sites, trees and procedures, as what is stored under a name, are like each other. Like
trees have like parts, and like procedures have like bodies. -/
structure Likeness where
  site : Site → Site → Prop
  tree : Expr → Expr → Prop
  procedure : String → Procedure → Procedure → Prop
  parts : ∀ {e f}, tree e f → e.PartsLike site tree procedure f
  name : ∀ {key p q}, procedure key p q → q.name = p.name
  params : ∀ {key p q}, procedure key p q → q.params = p.params
  body : ∀ {key p q}, procedure key p q → tree p.body q.body

variable (L : Likeness)

/-- What was printed is the same, but that faults at like sites may be told apart. -/
inductive OutputLike : List String → List String → Prop
  | same (lines : List String) : OutputLike lines lines
  | line {lines others : List String} (h : OutputLike lines others) (line : String) :
      OutputLike (lines ++ [line]) (others ++ [line])
  | diagnostic {lines others : List String} {f g : Fault} (h : OutputLike lines others)
      (hfault : f.Alike L.site g) :
      OutputLike (lines ++ f.diagnostic.lines) (others ++ g.diagnostic.lines)

/-- The reports are the same, or tell the same snooper of a fault at like sites. -/
inductive Report.Like : Report → Report → Prop
  | same (r : Report) : Like r r
  | told (snooper : Snooper) {f g : Fault} (hfault : f.Alike L.site g) :
      Like ⟨snooper, f.diagnostic⟩ ⟨snooper, g.diagnostic⟩

/-- The jobs run like scripts at the same times. -/
inductive Job.Like : Job → Job → Prop
  | mk {job : Job} {script : Script} (h : L.tree job.script.root script.root) :
      Like job { job with script }

inductive Clock.Like : Clock → Clock → Prop
  | mk {now nextId : Nat} {running : Bool} {jobs others : List Job}
      (h : List.Forall₂ (Job.Like L) jobs others) :
      Like ⟨now, running, jobs, nextId⟩ ⟨now, running, others, nextId⟩

/-- The machines are the same, but that they store like procedures and jobs and have told alike of
faults. -/
inductive Machine.Like : Machine → Machine → Prop
  | mk {m : Machine} {procedures : Registry Procedure} {output : Array String}
      {reports : Array Report} {clock : Clock}
      (hprocedures : ∀ name,
        Option.Rel (L.procedure name) (m.procedures.get? name) (procedures.get? name))
      (houtput : OutputLike L m.output.toList output.toList)
      (hreports : List.Forall₂ (Report.Like L) m.reports.toList reports.toList)
      (hclock : m.clock.Like L clock) :
      Like m { m with procedures, output, reports, clock }

inductive State.Like : State → State → Prop
  | mk (locals : Registry Value) {m n : Machine} (h : m.Like L n) : Like ⟨locals, m⟩ ⟨locals, n⟩

inductive Interrupt.Like : Interrupt → Interrupt → Prop
  | fault {f g : Fault} (h : f.Alike L.site g) : Like (.fault f) (.fault g)
  | stopped : Like .stopped .stopped
  | endless : Like .endless .endless

/-- Both computations have a result, and these go together, or both are interrupted alike. -/
inductive EndsLike {α β : Type} (Q : α → β → Prop) :
    EStateM.Result Interrupt State α → EStateM.Result Interrupt State β → Prop
  | ok {a : α} {b : β} {s t : State} (hresult : Q a b) (hstate : s.Like L t) :
      EndsLike Q (.ok a s) (.ok b t)
  | error {i j : Interrupt} {s t : State} (hinterrupt : i.Like L j) (hstate : s.Like L t) :
      EndsLike Q (.error i s) (.error j t)

/-- On like states the computations end alike. -/
def Agree {α β : Type} (Q : α → β → Prop) (x : Run α) (y : Run β) : Prop :=
  ∀ s t : State, s.Like L t → EndsLike L Q (x s) (y t)

/-- The operands have the same values, whatever these are wanted for. -/
def Lazy.Like (x y : Lazy) : Prop := ∀ k, Agree L Eq (x k) (y k)

/-- The meanings of like trees are like each other. -/
def BodiesLike (run run' : Expr → Lazy) : Prop :=
  ∀ e f, L.tree e f → (run e).Like L (run' f)

variable {L} {m n : Machine}

/-! ## States -/

namespace Machine.Like

/-- A change that has nothing to do with what may differ. -/
theorem change (h : m.Like L n) {f : Machine → Machine}
    (hf : ∀ m procedures output reports clock,
      f { m with procedures, output, reports, clock } =
        { f m with procedures, output, reports, clock }) : (f m).Like L (f n) := by
  cases h with
  | @mk procedures output reports clock hprocedures houtput hreports hclock =>
    have hself : f m = { f m with
        procedures := m.procedures, output := m.output, reports := m.reports, clock := m.clock } :=
      hf m m.procedures m.output m.reports m.clock
    rw [hf m procedures output reports clock]
    refine .mk ?_ ?_ ?_ ?_
    · rw [hself]
      exact hprocedures
    · rw [hself]
      exact houtput
    · rw [hself]
      exact hreports
    · rw [hself]
      exact hclock

theorem globals (h : m.Like L n) : n.globals = m.globals := by
  cases h
  rfl

theorem cancelled (h : m.Like L n) : n.cancelled = m.cancelled := by
  cases h
  rfl

theorem clock (h : m.Like L n) : m.clock.Like L n.clock := by
  cases h with
  | mk _ _ _ hclock => exact hclock

theorem procedure (h : m.Like L n) (name : String) :
    Option.Rel (L.procedure name) (m.procedures.get? name) (n.procedures.get? name) := by
  cases h with
  | mk hprocedures _ _ _ => exact hprocedures name

theorem contains_procedures (h : m.Like L n) (name : String) :
    n.procedures.contains name = m.procedures.contains name := by
  have hrel := h.procedure name
  unfold Registry.contains
  generalize m.procedures.get? name = p at hrel
  generalize n.procedures.get? name = q at hrel
  cases hrel <;> rfl

theorem print (h : m.Like L n) (line : String) : (m.print line).Like L (n.print line) := by
  cases h with
  | mk hprocedures houtput hreports hclock =>
    refine .mk hprocedures ?_ hreports hclock
    simpa [Machine.print] using houtput.line line

theorem store {p q : Procedure} (h : m.Like L n) (hpq : L.procedure p.name p q) :
    Like L { m with procedures := m.procedures.set p.name p }
      { n with procedures := n.procedures.set q.name q } := by
  cases h with
  | mk hprocedures houtput hreports hclock =>
    refine .mk (fun name => ?_) houtput hreports hclock
    simp only [Registry.get?_set, L.name hpq]
    split
    · rename_i hname
      exact .some (hname ▸ hpq)
    · exact hprocedures name

theorem eraseProcedure (h : m.Like L n) (name : String) :
    Like L { m with procedures := m.procedures.erase name }
      { n with procedures := n.procedures.erase name } := by
  cases h with
  | mk hprocedures houtput hreports hclock =>
    refine .mk (fun other => ?_) houtput hreports hclock
    simp only [Registry.get?_erase]
    split
    · exact .none
    · exact hprocedures other

theorem withClock (h : m.Like L n) (hcd : c.Like L d) :
    Like L { m with clock := c } { n with clock := d } := by
  cases h with
  | mk hprocedures houtput hreports _ => exact .mk hprocedures houtput hreports hcd

end Machine.Like

theorem State.Like.machine (h : s.Like L t) : s.machine.Like L t.machine := by
  cases h with
  | mk _ h => exact h

/-! ## Faults -/

theorem Fault.Alike.locate {s t : Site} (h : f.Alike L.site g) (hsite : L.site s t) :
    (f.locate s).Alike L.site (g.locate t) := by
  obtain ⟨cause, site, procedure⟩ := f
  obtain ⟨cause', site', procedure'⟩ := g
  obtain ⟨hcause, hprocedure, hsites⟩ := h
  refine ⟨hcause, hprocedure, ?_⟩
  cases hsites with
  | none => exact .some hsite
  | some hsites => exact .some hsites

theorem Fault.Alike.leave (h : f.Alike L.site g) (procedure : String) :
    (f.leave procedure).Alike L.site (g.leave procedure) := by
  refine ⟨h.cause, ?_, h.site⟩
  simp [Fault.leave, h.procedure]

theorem Fault.alike_ofCause (cause : Cause) :
    (Fault.ofCause cause).Alike L.site (Fault.ofCause cause) := ⟨rfl, rfl, .none⟩

theorem printAll_eq (lines : List String) (m : Machine) :
    lines.foldl Machine.print m = { m with output := (m.output.toList ++ lines).toArray } := by
  induction lines generalizing m with
  | nil => simp
  | cons line lines ih =>
    rw [List.foldl_cons, ih]
    simp [Machine.print]

theorem Machine.Like.printDiagnostic (h : m.Like L n) (hfault : f.Alike L.site g) :
    (f.diagnostic.lines.foldl Machine.print m).Like L
      (g.diagnostic.lines.foldl Machine.print n) := by
  rw [printAll_eq, printAll_eq]
  cases h with
  | mk hprocedures houtput hreports hclock =>
    refine .mk hprocedures ?_ hreports hclock
    simpa using houtput.diagnostic hfault

theorem Machine.Like.tell (h : m.Like L n) (snooper : Snooper) (hfault : f.Alike L.site g) :
    (m.tell snooper f.diagnostic).Like L (n.tell snooper g.diagnostic) := by
  have hkind : g.diagnostic.kind = f.diagnostic.kind := congrArg Cause.kind hfault.cause
  have hreported : Like L { m with reports := m.reports.push ⟨snooper, f.diagnostic⟩ }
      { n with reports := n.reports.push ⟨snooper, g.diagnostic⟩ } := by
    cases h with
    | mk hprocedures houtput hreports hclock =>
      refine .mk hprocedures houtput ?_ hclock
      simpa using List.rel_append hreports (.cons (.told snooper hfault) .nil)
  cases snooper with
  | recorder name => exact hreported
  | printer skips =>
    simp only [Machine.tell, hkind]
    split
    · exact hreported
    · exact hreported.printDiagnostic hfault

theorem Machine.Like.report (h : m.Like L n) (hfault : f.Alike L.site g) :
    (m.report f).Like L (n.report g) := by
  have hsnooper : n.snooper = m.snooper := by
    cases h
    rfl
  unfold Machine.report
  rw [hsnooper]
  split
  · exact h
  · exact h.tell _ hfault

/-! ## Computations -/

namespace Agree

variable {α β γ δ : Type} {Q : α → β → Prop} {R : γ → δ → Prop}

theorem pure {a : α} {b : β} (h : Q a b) : Agree L Q (Pure.pure a) (Pure.pure b) :=
  fun _ _ hst => .ok h hst

/-- To give a result back. -/
theorem value (a : α) : Agree L Eq (Pure.pure a : Run α) (Pure.pure a) := pure rfl

theorem bind {x : Run α} {y : Run β} {f : α → Run γ} {g : β → Run δ} (h : Agree L Q x y)
    (hnext : ∀ a b, Q a b → Agree L R (f a) (g b)) : Agree L R (x >>= f) (y >>= g) := by
  intro s t hst
  have hend := h s t hst
  simp only [Bind.bind, EStateM.bind]
  generalize x s = r, y t = r' at hend
  cases hend with
  | ok hresult hstate => exact hnext _ _ hresult _ _ hstate
  | error hinterrupt hstate => exact .error hinterrupt hstate

/-- To go on with a result that is the same. -/
theorem next {x y : Run α} {f : α → Run γ} {g : α → Run δ} (h : Agree L Eq x y)
    (hnext : ∀ a, Agree L R (f a) (g a)) : Agree L R (x >>= f) (y >>= g) :=
  h.bind fun a _ hab => hab ▸ hnext a

theorem fail (cause : Cause) : Agree L Q (Run.fail cause) (Run.fail cause) :=
  fun _ _ hst => .error (.fault (Fault.alike_ofCause cause)) hst

theorem endless : Agree L Q (throw .endless) (throw .endless) :=
  fun _ _ hst => .error .endless hst

theorem modify {f g : Machine → Machine}
    (h : ∀ {m n : Machine}, m.Like L n → (f m).Like L (g n)) :
    Agree L Eq (Run.modifyMachine f) (Run.modifyMachine g) := by
  intro s t hst
  cases hst with
  | mk locals hmn => exact .ok rfl (.mk locals (h hmn))

theorem check : Agree L Eq Run.checkStop Run.checkStop := by
  intro s t hst
  cases hst with
  | mk locals hmn =>
    simp only [Run.checkStop, hmn.cancelled]
    split
    · exact .error .stopped (.mk locals hmn)
    · exact .ok rfl (.mk locals hmn)

variable {x : Run α} {y : Run β}

/-- What is done with an interrupt and with the state at the end. -/
theorem located {site site' : Site} (hsite : L.site site site') (h : Agree L Q x y) :
    Agree L Q (Run.located site x) (Run.located site' y) := by
  intro s t hst
  have hend := h s t hst
  simp only [Run.located]
  generalize x s = r, y t = r' at hend
  cases hend with
  | ok hresult hstate => exact .ok hresult hstate
  | error hinterrupt hstate =>
    cases hinterrupt with
    | fault hfault => exact .error (.fault (hfault.locate hsite)) hstate
    | stopped => exact .error .stopped hstate
    | endless => exact .error .endless hstate

theorem leaving (procedure : String) (h : Agree L Q x y) :
    Agree L Q (Run.leaving procedure x) (Run.leaving procedure y) := by
  intro s t hst
  have hend := h s t hst
  simp only [Run.leaving]
  generalize x s = r, y t = r' at hend
  cases hend with
  | ok hresult hstate => exact .ok hresult hstate
  | error hinterrupt hstate =>
    cases hinterrupt with
    | fault hfault => exact .error (.fault (hfault.leave procedure)) hstate
    | stopped => exact .error .stopped hstate
    | endless => exact .error .endless hstate

theorem restoring (names : List String) (h : Agree L Q x y) :
    Agree L Q (Run.restoring names x) (Run.restoring names y) := by
  intro s t hst
  have hend := h s t hst
  cases hst with
  | mk locals hmn =>
    simp only [Run.restoring]
    generalize x _ = r, y _ = r' at hend
    cases hend with
    | ok hresult hstate =>
      cases hstate with
      | mk _ hmn => exact .ok hresult (.mk _ hmn)
    | error hinterrupt hstate =>
      cases hstate with
      | mk _ hmn => exact .error hinterrupt (.mk _ hmn)

theorem withLocals (locals : Registry Value) (h : Agree L Q x y) :
    Agree L Q (Run.withLocals locals x) (Run.withLocals locals y) := by
  intro s t hst
  cases hst with
  | mk _ hmn =>
    have hend := h _ _ (.mk locals hmn)
    simp only [Run.withLocals]
    generalize x _ = r, y _ = r' at hend
    cases hend with
    | ok hresult hstate =>
      cases hstate with
      | mk _ hmn => exact .ok hresult (.mk _ hmn)
    | error hinterrupt hstate =>
      cases hstate with
      | mk _ hmn => exact .error hinterrupt (.mk _ hmn)

theorem reported (h : Agree L Q x y) : Agree L Q (Run.reported x) (Run.reported y) := by
  intro s t hst
  have hend := h s t hst
  simp only [Run.reported]
  generalize x s = r, y t = r' at hend
  cases hend with
  | ok hresult hstate => exact .ok hresult hstate
  | error hinterrupt hstate =>
    cases hinterrupt with
    | fault hfault =>
      cases hstate with
      | mk _ hmn => exact .error (.fault hfault) (.mk _ (hmn.report hfault))
    | stopped => exact .error .stopped hstate
    | endless => exact .error .endless hstate

theorem snooped (snooper : Snooper) (h : Agree L Q x y) :
    Agree L Q (Run.snooped snooper x) (Run.snooped snooper y) := by
  intro s t hst
  cases hst with
  | @mk locals m n hmn =>
    have hsnooper : n.snooper = m.snooper := by
      cases hmn
      rfl
    have hwith : ∀ snooper {m n : Machine}, m.Like L n →
        Machine.Like L { m with snooper } { n with snooper } := fun snooper _ _ h =>
      h.change (f := fun m => { m with snooper }) fun _ _ _ _ _ => rfl
    have hend := h _ _ (.mk locals (hwith (some snooper) hmn))
    simp only [Run.snooped, hsnooper]
    generalize x _ = r, y _ = r' at hend
    cases hend with
    | ok hresult hstate =>
      cases hstate with
      | mk _ hmn => exact .ok hresult (.mk _ (hwith _ hmn))
    | error hinterrupt hstate =>
      cases hstate with
      | mk _ hmn => exact .error hinterrupt (.mk _ (hwith _ hmn))

theorem enter {x y : Run Value} (procedure : String) (scope : Registry Value)
    (h : Agree L Eq x y) :
    Agree L Eq (TickScript.enter procedure scope x) (TickScript.enter procedure scope y) := by
  intro s t hst
  cases hst with
  | @mk locals m n hmn =>
    have hdepth : n.depth = m.depth := by
      cases hmn
      rfl
    have hwith : ∀ (f : Nat → Nat) {m n : Machine}, m.Like L n →
        Machine.Like L { m with depth := f m.depth } { n with depth := f n.depth } :=
      fun f _ _ h => h.change (f := fun m => { m with depth := f m.depth }) fun _ _ _ _ _ => rfl
    have hend := h.leaving procedure _ _ (.mk scope (hwith (· + 1) hmn))
    simp only [TickScript.enter, hdepth]
    split
    · exact .error (.fault ((Fault.alike_ofCause _).leave procedure)) (.mk locals hmn)
    · rw [hdepth] at hend
      generalize Run.leaving procedure x _ = r, Run.leaving procedure y _ = r' at hend
      cases hend with
      | ok hresult hstate =>
        cases hstate with
        | mk _ hmn => exact .ok hresult (.mk locals (hwith (· - 1) hmn))
      | error hinterrupt hstate =>
        cases hstate with
        | mk _ hmn => exact .error hinterrupt (.mk locals (hwith (· - 1) hmn))

end Agree

/-! ## Operands and calls -/

theorem State.Like.looksLike (h : s.Like L t) : s.LooksLike t := by
  cases h with
  | mk locals hmn =>
    have hnames := hmn.contains_procedures
    cases hmn
    exact ⟨rfl, rfl, hnames, rfl, rfl, rfl⟩

theorem State.Like.set (h : s.Like L t) (name : String) (v : Value) :
    (s.set name v).Like L (t.set name v) := by
  cases h with
  | mk locals hmn =>
    unfold State.set
    split
    · exact .mk locals (hmn.change (f := fun m => m.setGlobal name v) fun _ _ _ _ _ => rfl)
    · exact .mk _ hmn

theorem State.Like.erase (h : s.Like L t) (name : String) :
    (s.erase name).2.Like L (t.erase name).2 := by
  cases h with
  | mk locals hmn =>
    simp only [State.erase]
    split
    · exact .mk locals (hmn.change (f := fun m => { m with globals := m.globals.erase name })
        fun _ _ _ _ _ => rfl)
    · exact .mk _ hmn

/-- Effects other than the storing of a procedure have nothing to do with what may differ. -/
theorem State.Like.effect (h : s.Like L t) {e : Effect} (he : e.stores = false) :
    (e.apply s).Like L (e.apply t) := by
  cases h with
  | mk locals hmn =>
    cases e with
    | write name v => exact State.Like.set (.mk locals hmn) name v
    | define name v =>
      exact .mk locals (hmn.change (f := fun m => m.define name v) fun _ _ _ _ _ => rfl)
    | store p => cases he
    | forget name => exact State.Like.erase (.mk locals (hmn.eraseProcedure name)) name
    | print line => exact .mk locals (hmn.print line)
    | draw =>
      exact .mk locals (hmn.change (f := fun m => { m with random := nextRandom m.random })
        fun _ _ _ _ _ => rfl)
    | spend id =>
      exact .mk locals (hmn.change (f := fun m => { m with spent := id :: m.spent })
        fun _ _ _ _ _ => rfl)
    | renew =>
      exact .mk locals (hmn.change (f := fun m => { m with fresh := m.fresh + 1 })
        fun _ _ _ _ _ => rfl)

theorem Agree.plain {α : Type} {x : Run α} (h : Plain x) : Agree L Eq x x := by
  induction h with
  | look f hf => exact fun s t hst => .ok (hf s t hst.looksLike).symm hst
  | act e he => exact fun s t hst => .ok rfl (hst.effect he)
  | fail cause => exact .fail cause
  | endless => exact .endless
  | bind _ _ ihx ihf => exact ihx.next ihf

variable (L) in
/-- The two members of a family agree. -/
abbrev Agreeing (α : Type) (x : Bool → Run α) : Prop := Agree L Eq (x true) (x false)

theorem Agreeing.weave : Weave (Agreeing L) where
  plain := .plain
  bind := .next
  looping loop := .restoring loop.names

theorem Lazy.like_of (v : Value) : (Lazy.of v).Like L (.of v) := fun _ => .value v

/-- Like operands, one by one, as families. -/
theorem exists_families (h : List.Forall₂ (Lazy.Like L) args others) :
    ∃ xs : List (Bool → Lazy), args = xs.map (· true) ∧ others = xs.map (· false) ∧
      ∀ x ∈ xs, Threads (Agreeing L) x := by
  induction h with
  | nil => exact ⟨[], rfl, rfl, by simp⟩
  | @cons a b _ _ hab _ ih =>
    obtain ⟨xs, rfl, rfl, hxs⟩ := ih
    exact ⟨(fun i => bif i then a else b) :: xs, rfl, rfl, List.forall_mem_cons.mpr ⟨hab, hxs⟩⟩

section Bodies

variable {run run' : Expr → Lazy} (hrun : BodiesLike L run run')

include hrun

theorem agree_call {key : String} {p q : Procedure} (hpq : L.procedure key p q)
    (hargs : List.Forall₂ (Lazy.Like L) args others) (kind : Kind) :
    Agree L Eq (p.call run args kind) (q.call run' others kind) := by
  unfold Procedure.call
  rw [L.name hpq, L.params hpq, ← hargs.length_eq]
  split
  · exact .fail _
  · obtain ⟨xs, rfl, rfl, hxs⟩ := exists_families hargs
    exact (Agreeing.weave.bindArguments p.params .empty hxs).next fun scope =>
      (hrun _ _ (L.body hpq) kind).enter p.name scope

theorem agree_callNamed (name : String) (hargs : List.Forall₂ (Lazy.Like L) args others)
    (kind : Kind) :
    Agree L Eq (callNamed run name args kind) (callNamed run' name others kind) := by
  intro s t hst
  cases hst with
  | @mk locals m n hmn =>
    have hstored := hmn.procedure name
    unfold callNamed
    dsimp only
    generalize m.procedures.get? name = p at hstored
    generalize n.procedures.get? name = q at hstored
    cases hstored with
    | none => exact Agree.fail _ _ _ (.mk locals hmn)
    | some hpq => exact agree_call hrun hpq hargs kind _ _ (.mk locals hmn)

end Bodies

/-! ## Ticks -/

theorem Job.Like.tick (h : job.Like L other) :
    job.tick.1.Like L other.tick.1 ∧ other.tick.2 = job.tick.2 := by
  cases h with
  | mk h =>
    unfold Job.tick
    dsimp only
    split
    · exact ⟨.mk h, rfl⟩
    · split
      · exact ⟨.mk h, rfl⟩
      · exact ⟨.mk h, rfl⟩

theorem Job.Like.root (h : job.Like L other) : L.tree job.script.root other.script.root := by
  cases h with
  | mk h => exact h

theorem Clock.Like.jobs (h : c.Like L d) :
    List.Forall₂ (Job.Like L) c.schedule.jobs d.schedule.jobs := by
  cases h with
  | mk h => exact h

theorem Machine.Like.settleJob (hmn : m.Like L n) (h : job.Like L other) (failed : Bool) :
    (settleJob job failed m).Like L (settleJob other failed n) := by
  obtain ⟨htick, hagain⟩ := h.tick
  have hid : other.id = job.id := by
    cases h
    rfl
  have hclock := hmn.clock
  unfold TickScript.settleJob
  simp only [hid, hagain]
  split
  · exact hmn.print _
  split
  · refine hmn.withClock ?_
    generalize m.clock = c at hclock
    generalize n.clock = d at hclock
    cases hclock with
    | mk hjobs => exact .mk (List.rel_append hjobs (.cons htick .nil))
  · exact hmn

/-- The jobs are like each other, whatever tick it is. -/
theorem Clock.Like.at (h : c.Like L d) (now : Nat) (running : Bool) :
    Like L ⟨now, running, c.schedule⟩ ⟨now, running, d.schedule⟩ := by
  cases h with
  | mk hjobs => exact .mk hjobs

theorem Clock.Like.withRunning (h : c.Like L d) (running : Bool) :
    Like L { c with running } { d with running } := by
  cases h with
  | mk hjobs => exact .mk hjobs

theorem Clock.Like.takeDue (h : c.Like L d) (tick : Nat) :
    List.Forall₂ (Job.Like L) (c.schedule.takeDue tick).1 (d.schedule.takeDue tick).1 ∧
      ∀ now running, Like L ⟨now, running, (c.schedule.takeDue tick).2⟩
        ⟨now, running, (d.schedule.takeDue tick).2⟩ := by
  have hdue : ∀ {job other : Job}, job.Like L other → other.isDue tick = job.isDue tick := by
    intro job other h
    cases h
    rfl
  cases h with
  | mk hjobs =>
    refine ⟨List.rel_filter (fun _ _ h => ?_) hjobs, fun _ _ =>
      .mk (List.rel_filter (fun _ _ h => ?_) hjobs)⟩
    · simp only [hdue h]
    · simp only [hdue h]

section Bodies

variable {run run' : Expr → Lazy} (hrun : BodiesLike L run run')

include hrun

theorem agree_runJob (h : job.Like L other) : Agree L Eq (runJob run job) (runJob run' other) := by
  intro s t hst
  have hbody : Agree L Eq
      (Run.snooped (.printer false) (Run.atPosition 0 0 0 (job.script.evaluate run .value)))
      (Run.snooped (.printer false) (Run.atPosition 0 0 0 (other.script.evaluate run' .value))) :=
    .snooped _ ((Agree.plain plain_freshId).next fun id =>
      .withLocals _ (hrun _ _ h.root .value).reported)
  have hend := hbody s t hst
  unfold runJob
  dsimp only
  generalize Run.snooped _ _ s = r, Run.snooped _ _ t = r' at hend
  cases hend with
  | ok hresult hstate =>
    cases hstate with
    | mk locals hmn => exact .ok rfl (.mk locals (hmn.settleJob h false))
  | error hinterrupt hstate =>
    cases hstate with
    | mk locals hmn =>
      cases hinterrupt with
      | fault _ => exact .ok rfl (.mk locals (hmn.settleJob h true))
      | stopped => exact .ok rfl (.mk locals (hmn.settleJob h false))
      | endless => exact .error .endless (.mk locals hmn)

theorem agree_runJobs {due others : List Job} (h : List.Forall₂ (Job.Like L) due others) :
    Agree L Eq (runJobs run due) (runJobs run' others) := by
  induction h with
  | nil => exact .value ()
  | cons h _ ih => exact (agree_runJob hrun h).next fun _ => ih

theorem agree_advance : Agree L Eq (advance run) (advance run') := by
  intro s t hst
  cases hst with
  | @mk locals m n hmn =>
    have hlike := hmn
    cases hmn with
    | @mk procedures output reports clock _ _ _ hclock =>
      have hnow : clock.now = m.clock.now ∧ clock.running = m.clock.running := by
        generalize m.clock = c at hclock
        cases hclock
        exact ⟨rfl, rfl⟩
      obtain ⟨hdue, hleft⟩ := hclock.takeDue (m.clock.now + 1)
      simp only [advance, hnow]
      split
      · exact .ok rfl (.mk locals (hlike.withClock (hclock.at _ _)))
      split
      · exact .ok rfl (.mk locals (hlike.withClock (hclock.at _ _)))
      have hend := agree_runJobs hrun hdue _ _
        (.mk locals (hlike.withClock (hleft (m.clock.now + 1) true)))
      generalize runJobs run _ _ = r, runJobs run' _ _ = r' at hend
      cases hend with
      | ok hresult hstate =>
        cases hstate with
        | mk locals hmn => exact .ok rfl (.mk locals (hmn.withClock (hmn.clock.withRunning false)))
      | error hinterrupt hstate => exact .error hinterrupt hstate

theorem agree_yield (budget : Option Nat) : Agree L Eq (yield run budget) (yield run' budget) := by
  intro s t hst
  have hend := agree_advance hrun s t hst
  cases hst with
  | @mk locals m n hmn =>
    have hhook : n.hook = m.hook := by
      cases hmn
      rfl
    unfold yield
    simp only [hhook]
    split
    · exact Agree.check _ _ (.mk locals hmn)
    · rename_i raises _
      refine Agree.check _ _ (.mk locals ?_)
      have hrecorded := hmn.change (f := fun m => { m with
        budgets := budget :: m.budgets
        cancelled := m.cancelled || raises (budget :: m.budgets) }) fun _ _ _ _ _ => rfl
      simpa only [hhook] using hrecorded
    · generalize advance run _ = r, advance run' _ = r' at hend
      cases hend with
      | ok hresult hstate =>
        cases hstate with
        | mk locals hmn =>
          refine Agree.check _ _ (.mk locals ?_)
          exact hmn.change (f := fun m => { m with owed := m.owed + budget.getD 0 })
            fun _ _ _ _ _ => rfl
      | error hinterrupt hstate => exact .error hinterrupt hstate

end Bodies

/-! ## Languages -/

variable (L) in
/-- Of like operands and bodies the function makes computations that agree. -/
def Native.Respects (f : Native) : Prop :=
  ∀ run : Bool → Expr → Lazy, BodiesLike L (run true) (run false) → f.Threads (Agreeing L) run

variable (L) in
/-- All operators and functions of the language do so. -/
abbrev Language.Respects : Language → Prop :=
  Language.Has (·.Threads (Agreeing L)) (·.Threads (Agreeing L)) (·.Respects L)

namespace Expr.PartsLike

variable {e f : Expr} (h : e.PartsLike L.site L.tree L.procedure f)

include h

theorem site : Option.Rel L.site e.site? f.site? := by
  cases h with
  | var _ _ hsite | unary _ _ hsite | binary _ _ _ hsite | call _ _ hsite => exact .some hsite
  | number | text | define | sequence => exact .none

theorem parts : List.Forall₂ L.tree e.parts f.parts := by
  cases h with
  | unary _ h => exact .cons h .nil
  | binary _ hleft hright => exact .cons hleft (.cons hright .nil)
  | call _ hargs => exact hargs
  | sequence hitems => exact hitems
  | number | text | var | define => exact .nil

/-- With the same operands both nodes do the same, unless they are definitions. -/
theorem apply_eq (hdefine : ∀ name params body site, e ≠ .define name params body site)
    (lang : Language) (run : Expr → Lazy) (kind : Kind) (xs : Nat → Lazy) :
    f.apply lang run kind xs = e.apply lang run kind xs := by
  cases h with
  | call _ hargs => simp only [Expr.apply, hargs.length_eq]
  | sequence hitems => simp only [Expr.apply, hitems.length_eq]
  | define => exact absurd rfl (hdefine _ _ _ _)
  | number | text | var | unary | binary => rfl

end Expr.PartsLike

theorem forall₂_getElem? {α β : Type} {R : α → β → Prop} {as : List α} {bs : List β}
    (h : List.Forall₂ R as bs) (j : Nat) : Option.Rel R as[j]? bs[j]? := by
  induction h generalizing j with
  | nil => exact .none
  | cons h _ ih =>
    cases j with
    | zero => exact .some h
    | succ j => simpa using ih j

theorem Agree.locatedAt {x y : Run Value} {site site' : Option Site}
    (hsite : Option.Rel L.site site site') (h : Agree L Eq x y) :
    Agree L Eq (Run.locatedAt site x) (Run.locatedAt site' y) := by
  cases hsite with
  | some hsite => exact .located hsite h
  | none => exact h

section Scripts

variable {lang : Language} (hlang : lang.Respects L) {run run' : Expr → Lazy}
  (hrun : BodiesLike L run run')

include hlang hrun

theorem agree_applyCall (name : String) (hargs : List.Forall₂ (Lazy.Like L) args others)
    (k : Kind) :
    Agree L Eq (applyCall lang run name k args) (applyCall lang run' name k others) := by
  unfold applyCall
  cases hf : lang.function? name with
  | none => exact agree_callNamed hrun name hargs k
  | some f =>
    obtain ⟨xs, rfl, rfl, hxs⟩ := exists_families hargs
    exact hlang.function hf (fun i => bif i then run else run') hrun xs hxs k

theorem like_denote {e f : Expr} (h : L.tree e f) :
    (e.denote lang run).Like L (f.denote lang run') := by
  induction e using Expr.induction_on_parts generalizing f with
  | node e ih =>
    intro k
    have hlike := L.parts h
    rw [Expr.denote_eq_node, Expr.denote_eq_node]
    refine .locatedAt hlike.site ?_
    by_cases hdefine : ∃ name params body site, e = .define name params body site
    · obtain ⟨name, params, body, site, rfl⟩ := hdefine
      cases hlike with
      | define hpq => exact (Agree.modify fun hmn => hmn.store hpq).next fun _ => .value _
    · rw [hlike.apply_eq (by simpa using hdefine)]
      have hoperands : ∀ j, (e.operands lang run j).Like L (f.operands lang run' j) := by
        intro j
        have hparts := forall₂_getElem? hlike.parts j
        have hmem : ∀ part ∈ e.parts[j]?, part ∈ e.parts := fun _ => List.mem_of_getElem?
        unfold Expr.operands
        generalize e.parts[j]? = part at hparts hmem
        generalize f.parts[j]? = other at hparts
        cases hparts with
        | none => exact Lazy.like_of _
        | some hpart => exact ih _ (hmem _ rfl) hpart
      let xs : Bool → Nat → Lazy := fun i =>
        bif i then e.operands lang run else f.operands lang run'
      have happly : Agreeing L Value fun i => e.apply lang (bif i then run else run') k (xs i) := by
        have hxs : ∀ j, Threads (Agreeing L) fun i => xs i j := hoperands
        refine Agreeing.weave.apply hxs hlang.binary hlang.unary e k (fun name args site he => ?_)
          fun name params body site he => absurd ⟨name, params, body, site, he⟩ hdefine
        refine agree_applyCall hlang hrun name ?_ k
        rw [List.forall₂_map_left_iff, List.forall₂_map_right_iff, List.forall₂_same]
        exact fun j _ => hoperands j
      exact happly

theorem like_denoteSequence {es fs : List Expr} (h : List.Forall₂ L.tree es fs) :
    (Expr.denoteSequence lang run es).Like L (Expr.denoteSequence lang run' fs) := by
  rw [Expr.denoteSequence_eq_inOrder, Expr.denoteSequence_eq_inOrder]
  have hitems : List.Forall₂ (Lazy.Like L) (es.map (Expr.denote lang run))
      (fs.map (Expr.denote lang run')) := by
    rw [List.forall₂_map_left_iff, List.forall₂_map_right_iff]
    exact h.imp fun _ _ h => like_denote hlang hrun h
  obtain ⟨xs, hes, hfs, hxs⟩ := exists_families hitems
  rw [hes, hfs]
  exact Agreeing.weave.inOrder hxs

end Scripts

/-- In a language that respects a likeness like trees are evaluated alike. -/
theorem like_evaluateWithin {lang : Language} (hlang : lang.Respects L) (levels : Nat) :
    BodiesLike L (evaluateWithin lang levels) (evaluateWithin lang levels) := by
  induction levels with
  | zero => exact fun _ _ _ _ => .endless
  | succ levels ih => exact fun _ _ h => like_denote hlang ih h

end TickScript
