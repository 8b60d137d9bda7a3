-- Built-in functions are never shadowed: nothing but the evaluation of definitions that were read
-- stores procedures, so whatever a host does, a call of a built-in function stays one.
import TickScript.Proofs.Definitions
import TickScript.Proofs.Respects
import TickScript.Proofs.Scopes

namespace TickScript

/-! ## What is stored -/

/-- Trees and procedures are like themselves if a script of the language defines the procedures. -/
def Likeness.defined (lang : Language) : Likeness where
  site := Eq
  tree e f := e = f ∧ ∀ p ∈ e.definitions, p.IsDefined lang
  procedure key p q := p = q ∧ p.name = key ∧ p.IsDefined lang
  parts := by
    have hall : ∀ {es : List Expr}, (∀ p ∈ Expr.allDefinitions es, p.IsDefined lang) →
        List.Forall₂ (fun e f => e = f ∧ ∀ p ∈ e.definitions, p.IsDefined lang) es es :=
      fun h => List.forall₂_same.mpr fun e he =>
        ⟨rfl, fun p hp => h p (Expr.mem_allDefinitions.mpr ⟨e, he, hp⟩)⟩
    rintro e _ ⟨rfl, h⟩
    cases e with
    | number x => exact .number x
    | text s => exact .text s
    | var name isTarget site => exact .var name isTarget rfl
    | unary operator operand site => exact .unary operator ⟨rfl, h⟩ rfl
    | binary operator left right site =>
      obtain ⟨hl, hr⟩ := List.forall_mem_append.mp h
      exact .binary operator ⟨rfl, hl⟩ ⟨rfl, hr⟩ rfl
    | call name args site => exact .call name (hall h) rfl
    | define name params body site => exact .define ⟨rfl, rfl, h _ List.mem_cons_self⟩
    | sequence items => exact .sequence (hall h)
  name h := by rw [h.1]
  params h := by rw [h.1]
  body := by
    rintro key p _ ⟨rfl, _, source, script, hread, hp⟩
    exact ⟨rfl, fun q hq => ⟨source, script, hread, Expr.mem_definitions_of_body hq _ hp⟩⟩

theorem Script.tree_of_read {lang : Language} {source : Source} {script : Script}
    (h : Script.read lang source = .ok script) :
    (Likeness.defined lang).tree script.root script.root :=
  ⟨rfl, fun _ hp => ⟨source, script, h, hp⟩⟩

/-- What the machine stores and runs was defined in scripts of the language. -/
structure Machine.Sound (lang : Language) (m : Machine) : Prop where
  procedures : ∀ name p, m.procedures.get? name = some p → p.name = name ∧ p.IsDefined lang
  jobs : ∀ job ∈ m.clock.schedule.jobs, ∀ p ∈ job.script.root.definitions, p.IsDefined lang

theorem Machine.sound_iff {lang : Language} {m : Machine} :
    m.Sound lang ↔ m.Like (.defined lang) m := by
  constructor
  · intro h
    refine .mk (fun name => ?_) (.same _) (List.forall₂_same.mpr fun r _ => .same r)
      (.mk (List.forall₂_same.mpr fun job hjob => .mk ⟨rfl, h.jobs job hjob⟩))
    rcases hp : m.procedures.get? name with _ | p
    · exact .none
    · exact .some ⟨rfl, h.procedures name p hp⟩
  · intro h
    constructor
    · intro name p hp
      have hrel := h.procedure name
      rw [hp] at hrel
      cases hrel with
      | some hrel => exact hrel.2
    · intro job hjob
      exact (List.forall₂_same.mp h.clock.jobs job hjob).root.2

/-! ## Sessions -/

/-- What a host does with a session: it reads scripts and keeps them, evaluates and schedules the
kept ones, calls and forgets procedures, and sets up what scripts run under. -/
inductive HostStep where
  | read (id : String) (source : Source)
  | evaluate (id scope : String) (kind : Kind)
  | run (scope code : String)
  | invoke (scope name : String) (args : List Value)
  | undefine (name : String)
  | schedule (id : String) (interval : Nat) (count : Option Nat)
  | kill (job : Nat)
  | tick
  | cancel (cancelled : Bool)
  | hook (hook : Hook)
  | snoop (snooper : Snooper)
  | unsnoop
  | drain
  | takeBudgets
  | eraseGlobal (name : String)
  | inScope (step : ScopeStep)

namespace Session

/-- Does one step. To evaluate or schedule a script that is not kept is to do nothing. -/
def carryOut (lang : Language) (s : Session) : HostStep → Session
  | .read id source => (s.read lang id source).2
  | .evaluate id scope kind => ((s.evaluate? lang id scope kind).map (·.2)).getD s
  | .run scope code => (s.runIn scope (runCode lang code)).2
  | .invoke scope name args => (s.runIn scope (TickScript.invoke lang name args)).2
  | .undefine name => (s.eraseProcedure name).2
  | .schedule id interval count =>
    match s.scripts.get? id with
    | some script => s.changeMachine fun m =>
      let schedule := (m.clock.schedule.add script interval count m.clock.now).2
      { m with clock := { m.clock with schedule } }
    | none => s
  | .kill job => s.changeMachine fun m =>
    { m with clock := { m.clock with schedule := (m.clock.schedule.remove job).2 } }
  | .tick => (s.runFresh (advance (TickScript.evaluate lang))).2
  | .cancel cancelled => s.setCancelled cancelled
  | .hook hook => s.changeMachine fun m => { m with hook }
  | .snoop snooper => s.pushSnooper snooper
  | .unsnoop => s.popSnooper
  | .drain => s.drain.2.2
  | .takeBudgets => s.takeBudgets.2
  | .eraseGlobal name => (s.eraseGlobal name).2
  | .inScope step => s.perform step

def carryOutAll (lang : Language) (s : Session) (steps : List HostStep) : Session :=
  steps.foldl (carryOut lang) s

/-- All that the session keeps and stores was read in the language. -/
structure Sound (lang : Language) (s : Session) : Prop where
  machine : s.machine.Sound lang
  scripts : ∀ id script, s.scripts.get? id = some script →
    ∃ source, Script.read lang source = .ok script

namespace Sound

variable {lang : Language} {s : Session} (h : s.Sound lang)

include h

theorem withMachine {m : Machine} (hm : m.Sound lang) : Sound lang { s with machine := m } :=
  ⟨hm, h.scripts⟩

/-- The machine is sound after every computation that goes like itself. -/
theorem machine_after {α : Type} {Q : α → α → Prop} {x : Run α}
    (hx : Agree (.defined lang) Q x x) (locals : Registry Value) :
    (resultOf (x ⟨locals, s.machine⟩)).2.machine.Sound lang := by
  have hend := hx _ _ (.mk locals (Machine.sound_iff.mp h.machine))
  rw [Machine.sound_iff]
  cases hr : x ⟨locals, s.machine⟩ with
  | ok a t =>
    rw [hr] at hend
    cases hend with
    | ok _ hstate => exact hstate.machine
  | error i t =>
    rw [hr] at hend
    cases hend with
    | error _ hstate => exact hstate.machine

theorem runIn {α : Type} {Q : α → α → Prop} {x : Run α} (hx : Agree (.defined lang) Q x x)
    (scope : String) : (s.runIn scope x).2.Sound lang :=
  ⟨h.machine_after hx _, h.scripts⟩

theorem perform (step : ScopeStep) : (s.perform step).Sound lang := by
  have hset : ∀ {t : State}, t.machine.Sound lang →
      ∀ name v, (t.set name v).machine.Sound lang := by
    intro t ht name v
    unfold State.set
    split
    · exact ⟨ht.procedures, ht.jobs⟩
    · exact ht
  cases step with
  | create scope bindings =>
    rw [Session.perform, openScope_eq]
    refine ⟨?_, h.scripts⟩
    unfold State.setAll
    induction bindings using List.reverseRecOn with
    | nil => exact h.machine
    | append_singleton bindings b ih =>
      rw [List.foldl_append]
      exact hset ih b.1 b.2
  | set scope name v => exact ⟨hset (t := ⟨s.scope scope, s.machine⟩) h.machine name v, h.scripts⟩
  | erase scope name =>
    refine ⟨?_, h.scripts⟩
    simp only [Session.perform, Session.erase, change, State.erase]
    split
    · exact ⟨h.machine.procedures, h.machine.jobs⟩
    · exact h.machine
  | save => exact ⟨h.machine, h.scripts⟩
  | restore id scope =>
    cases hframe : s.frames.get? id with
    | none => rwa [perform_restore_missing hframe]
    | some frame =>
      rw [perform_restore hframe]
      exact ⟨h.machine, h.scripts⟩

end Sound

end Session

/-! ## What goes like itself -/

/-- The operators and functions of the language do with trees only what evaluation does with them,
and have no trees but scripts of the language. So they store no procedures by themselves. -/
def Language.SelfContained (lang : Language) : Prop :=
  ∀ L : Likeness,
    (∀ source script, Script.read lang source = .ok script → L.tree script.root script.root) →
    lang.Respects L

theorem Language.selfContained_extended {rs : List Registration}
    (hrs : ∀ r ∈ rs, ∀ L : Likeness, r.Respects L) : (extended rs).SelfContained :=
  fun L _ => respects_extended fun r hr => hrs r hr L

section Agreement

variable {lang : Language} (hlang : lang.Respects (.defined lang))

include hlang

theorem agree_evaluate {source : Source} {script : Script}
    (h : Script.read lang source = .ok script) (kind : Kind) :
    Agree (.defined lang) Eq (script.evaluate (evaluate lang) kind)
      (script.evaluate (evaluate lang) kind) :=
  (like_evaluateWithin hlang _ _ _ (Script.tree_of_read h) kind).reported

theorem agree_runCode (code : String) :
    Agree (.defined lang) Eq (runCode lang code) (runCode lang code) := by
  have hread : Agree (.defined lang)
      (fun script other => script = other ∧ ∃ source, Script.read lang source = .ok script)
      (readReported lang ⟨code, none⟩) (readReported lang ⟨code, none⟩) := by
    refine Agree.reported fun s t hst => ?_
    cases hscript : Script.read lang ⟨code, none⟩ with
    | ok script => exact .ok ⟨rfl, _, hscript⟩ hst
    | error f =>
      refine .error (.fault ⟨rfl, rfl, ?_⟩) hst
      cases f.site with
      | none => exact .none
      | some site => exact .some rfl
  refine hread.bind ?_
  rintro script _ ⟨rfl, source, hscript⟩
  exact .withLocals _ (agree_evaluate hlang hscript .value)

theorem agree_invoke (name : String) (args : List Value) :
    Agree (.defined lang) Eq (invoke lang name args) (invoke lang name args) := by
  have hargs : List.Forall₂ (Lazy.Like (.defined lang)) (args.map Lazy.of) (args.map Lazy.of) :=
    List.forall₂_same.mpr fun arg harg => by
      obtain ⟨v, _, rfl⟩ := List.mem_map.mp harg
      exact Lazy.like_of v
  exact .reported (.withLocals _ (agree_callNamed (like_evaluateWithin hlang _) name hargs .value))

end Agreement

namespace Session.Sound

variable {lang : Language} (hlang : lang.Respects (.defined lang)) {s : Session}
  (h : s.Sound lang)

include hlang h

/-- Whatever the host does, it leaves the session sound. -/
theorem carryOut (step : HostStep) : (s.carryOut lang step).Sound lang := by
  have hkeeps : ∀ {m : Machine}, m.procedures = s.machine.procedures →
      m.clock.schedule.jobs = s.machine.clock.schedule.jobs → m.Sound lang := by
    intro m hprocedures hjobs
    refine ⟨?_, ?_⟩
    · rw [hprocedures]
      exact h.machine.procedures
    · rw [hjobs]
      exact h.machine.jobs
  cases step with
  | read id source =>
    simp only [Session.carryOut, Session.read]
    cases hscript : Script.read lang source with
    | error f => exact h
    | ok script =>
      refine ⟨h.machine, fun other kept hkept => ?_⟩
      simp only [Registry.get?_set] at hkept
      split at hkept
      · cases hkept
        exact ⟨source, hscript⟩
      · exact h.scripts other kept hkept
  | evaluate id scope kind =>
    simp only [Session.carryOut, Session.evaluate?]
    cases hkept : s.scripts.get? id with
    | none => exact h
    | some script =>
      obtain ⟨source, hscript⟩ := h.scripts id script hkept
      exact h.runIn (agree_evaluate hlang hscript kind) scope
  | run scope code => exact h.runIn (agree_runCode hlang code) scope
  | invoke scope name args => exact h.runIn (agree_invoke hlang name args) scope
  | undefine name =>
    refine h.withMachine ⟨fun other p hp => ?_, h.machine.jobs⟩
    simp only [Registry.get?_erase] at hp
    split at hp
    · cases hp
    · exact h.machine.procedures other p hp
  | schedule id interval count =>
    simp only [Session.carryOut]
    cases hkept : s.scripts.get? id with
    | none => exact h
    | some script =>
      obtain ⟨source, hscript⟩ := h.scripts id script hkept
      refine h.withMachine ⟨h.machine.procedures, ?_⟩
      exact List.forall_mem_append.mpr ⟨h.machine.jobs,
        List.forall_mem_singleton.mpr (Script.tree_of_read hscript).2⟩
  | kill job =>
    refine h.withMachine ⟨h.machine.procedures, fun other hother => ?_⟩
    exact h.machine.jobs other (List.mem_of_mem_filter hother)
  | tick => exact ⟨h.machine_after (agree_advance (like_evaluateWithin hlang _)) _, h.scripts⟩
  | unsnoop =>
    simp only [Session.carryOut, popSnooper]
    split
    · exact h
    · exact ⟨hkeeps rfl rfl, h.scripts⟩
  | cancel | hook | snoop | drain | takeBudgets | eraseGlobal =>
    exact ⟨hkeeps rfl rfl, h.scripts⟩
  | inScope step => exact h.perform step

theorem carryOutAll (steps : List HostStep) : (s.carryOutAll lang steps).Sound lang := by
  induction steps generalizing s with
  | nil => exact h
  | cons step steps ih => exact ih (h.carryOut hlang step)

end Session.Sound

/-- Let the functions of a language store no procedures by themselves, and let a host do what it
likes with a fresh machine. Then no procedure is ever stored under the name of a function. Every
stored procedure has the name it is stored under and was defined in a script, with the names that
stand in its head as parameters, in this order. And every call in every script stands for the
function of its name if there is one, and otherwise for what is stored under the name. -/
theorem built_ins_are_never_shadowed {lang : Language} (hlang : lang.SelfContained) {m : Machine}
    (hprocedures : m.procedures = .empty) (hjobs : m.clock.schedule.jobs = [])
    (steps : List HostStep) :
    (∀ name f, lang.function? name = some f →
      (Session.carryOutAll lang { machine := m } steps).machine.procedures.get? name = none) ∧
    (∀ name p,
      (Session.carryOutAll lang { machine := m } steps).machine.procedures.get? name = some p →
      p.name = name ∧ p.IsWritten lang) ∧
    ∀ source script, Script.read lang source = .ok script →
      ∀ name args site, (name, args, site) ∈ script.root.calls → lang.Resolves name args site := by
  have hrespects := hlang (.defined lang) fun _ _ => Script.tree_of_read
  have hstart : Session.Sound lang { machine := m } := by
    refine ⟨⟨?_, ?_⟩, fun id script h => by cases h⟩
    · rw [hprocedures]
      intro name p hp
      cases hp
    · rw [hjobs]
      simp
  have hsound := (hstart.carryOutAll hrespects steps).machine
  refine ⟨fun name f hf => ?_, fun name p hp => ?_, fun source script hread name args site hcall =>
    Script.resolves_of_read hread hcall⟩
  · by_contra hstored
    obtain ⟨p, hp⟩ := Option.ne_none_iff_exists'.mp hstored
    obtain ⟨hname, hdefined⟩ := hsound.procedures name p hp
    rw [← hname, hdefined.isWritten.free] at hf
    cases hf
  · obtain ⟨hname, hdefined⟩ := hsound.procedures name p hp
    exact ⟨hname, hdefined.isWritten⟩

namespace Greeting

def greet (values : List Value) : Run Value := do
  Run.modifyMachine (·.print "hello")
  return .list values

def registrations : List Registration := [.function "greet" (.eager (.exactly 1) greet)]

/-- A procedure that defines another one when it is called. -/
def source : Source := ⟨"f(a, b) -> (g(c) -> greet(b)); f('x', 'y')", none⟩

def steps : List HostStep :=
  [.read "main" source, .evaluate "main" "here" .void, .run "here" "greet(x) -> x",
    .invoke "here" "g" [.text "z"], .undefine "f"]

/-- What is stored in the end. -/
def stored : Registry Procedure :=
  (Session.carryOutAll (.extended registrations) { machine := {} } steps).machine.procedures

end Greeting

open Greeting in
/-- A function of a host keeps its name when a script tries to define it, while a procedure that is
defined in the body of another one is stored. -/
theorem a_greeting_is_not_shadowed :
    stored.get? "greet" = none ∧
      ∃ p, stored.get? "g" = some p ∧ p.params = ["c"] ∧ p.IsWritten (.extended registrations) := by
  have hlang : (Language.extended registrations).SelfContained :=
    Language.selfContained_extended fun r hr L => by
      obtain rfl := List.mem_singleton.mp hr
      exact Native.respects_eager _ fun values =>
        (Agree.modify fun h => h.print "hello").next fun _ => .value _
  obtain ⟨hfree, hwritten, _⟩ := built_ins_are_never_shadowed hlang (m := {}) rfl rfl steps
  have hparams : (stored.get? "g").map (·.params) = some ["c"] := by decide +kernel
  obtain ⟨p, hp, hc⟩ := Option.map_eq_some_iff.mp hparams
  exact ⟨hfree "greet" _ rfl, p, hp, hc, (hwritten "g" p hp).2⟩

end TickScript
