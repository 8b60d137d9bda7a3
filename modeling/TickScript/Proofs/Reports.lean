-- Who is told about faults. Whoever runs a text, a script or a procedure has a snooper, which
-- is told once about the fault with which the run ends and about nothing else; the faults of
-- jobs that run meanwhile are for the snoopers of the jobs.
import TickScript.Interpreter
import TickScript.Proofs.Hosts
import TickScript.Proofs.Ticks

namespace TickScript

/-! ## Reports -/

namespace Machine

@[simp] theorem clock_report (m : Machine) (f : Fault) : (m.report f).clock = m.clock := by
  obtain ⟨_, _, h, _⟩ := m.report_eq f
  rw [h]

theorem reports_report (m : Machine) (f : Fault) :
    (m.report f).reports.toList = m.reports.toList ++ Report.ofFault m.snooper f := by
  obtain ⟨_, _, h, hreports⟩ := m.report_eq f
  rw [h]
  exact hreports

end Machine

namespace Run

variable {α β : Type}

theorem withLocals_reported (locals : Registry Value) (x : Run α) :
    withLocals locals (reported x) = reported (withLocals locals x) := by
  funext s
  unfold withLocals
  rcases h : x { s with locals } with ⟨a, t⟩ | ⟨i, t⟩
  · simp only [reported, h]
  · cases i with
    | fault f | stopped | endless => simp only [reported, h]

end Run

/-! ## Snoopers that make no difference -/

/-- Under another snooper the computation ends in the same way, and leaves the same. -/
abbrev Unheard {α : Type} (x : Run α) (s : State) (b : Option Snooper) : Prop :=
  x.Carries (·.snooping b) (fun _ => False) s

theorem Effect.apply_snooping (e : Effect) (s : State) (b : Option Snooper) :
    e.apply (s.snooping b) = (e.apply s).snooping b := by
  cases e with
  | write name v =>
    simp only [Effect.apply, State.set]
    split <;> rfl
  | forget name =>
    simp only [Effect.apply, State.erase]
    split <;> rfl
  | define | store | print | draw | spend | renew => rfl

theorem Machine.waited_snooping (s : State) (b : Option Snooper) (budget : Option Nat) :
    ({ s.snooping b with machine := (s.snooping b).machine.waited budget } : State) =
      State.snooping { s with machine := s.machine.waited budget } b := by
  have hhook : (s.snooping b).machine.hook = s.machine.hook := rfl
  unfold Machine.waited
  rw [hhook]
  split <;> rfl

namespace Unheard

variable {α β : Type} {x : Run α} {s t : State} {b : Option Snooper}

theorem after (h : Unheard x s b) : x.after (s.snooping b) = (x.after s).snooping b := by
  rcases hr : x s with ⟨a, t⟩ | ⟨i, t⟩
  · rw [Run.after_of_ok hr, Run.after_of_ok (h.ok hr)]
  · rw [Run.after_of_error hr, Run.after_of_error (h.error hr id)]

theorem check (s : State) (b : Option Snooper) : Unheard Run.checkStop s b := by
  cases hs : s.machine.cancelled with
  | true => exact .of_error (Run.checkStop_of_cancelled hs) fun _ => Run.checkStop_of_cancelled hs
  | false => exact .of_ok (Run.checkStop_of_not_cancelled hs) (Run.checkStop_of_not_cancelled hs)

theorem withLocals (locals : Registry Value) (hx : Unheard x { s with locals } b) :
    Unheard (Run.withLocals locals x) s b := by
  rcases hr : x { s with locals } with ⟨a, t⟩ | ⟨i, t⟩
  · have hb : x { s.snooping b with locals } = .ok a (t.snooping b) := hx.ok hr
    refine .of_ok (a := a) (t := { t with locals := s.locals }) ?_ ?_
    · simp only [Run.withLocals, hr]
    · simp only [Run.withLocals, hb]
      rfl
  · have hb : x { s.snooping b with locals } = .error i (t.snooping b) := hx.error hr id
    refine .of_error (i := i) (t := { t with locals := s.locals }) ?_ fun _ => ?_
    · simp only [Run.withLocals, hr]
    · simp only [Run.withLocals, hb]
      rfl

/-- A job has a snooper of its own, so it does not matter whose snooper is replaced by it. -/
theorem job (run : Expr → Lazy) (job : Job) (s : State) (b : Option Snooper) :
    Unheard (runJob run job) s b := by
  have hsettled : ∀ t failed, (State.snooping t b).settling job failed =
      (t.settling job failed).snooping b := by
    intro t failed
    unfold State.settling settleJob
    cases failed with
    | true => rfl
    | false =>
      simp only [Bool.false_eq_true, ↓reduceIte]
      split <;> rfl
  have hleft : ∀ r, (s.snooping b).afterScript r = (s.afterScript r).snooping b := by
    rintro (⟨v, t⟩ | ⟨f | _ | _, t⟩)
    all_goals rfl
  have hjob := runJob_eq run job s
  have hjob' : runJob run job (s.snooping b) = _ := runJob_eq run job (s.snooping b)
  have hsame : (s.snooping b).atJob = s.atJob := rfl
  rw [hsame, hleft, hsettled] at hjob'
  cases hhangs : scriptHangs (run job.script.root .value s.atJob) with
  | true =>
    rw [if_pos hhangs] at hjob hjob'
    exact .of_error hjob fun _ => hjob'
  | false =>
    rw [if_neg (by simp [hhangs])] at hjob hjob'
    exact .of_ok hjob hjob'

theorem jobs (run : Expr → Lazy) (jobs : List Job) (s : State) (b : Option Snooper) :
    Unheard (runJobs run jobs) s b := by
  induction jobs generalizing s with
  | nil => exact .of_ok rfl rfl
  | cons job rest ih => exact .followed (Unheard.job run job s b) fun _ t _ => ih t

theorem tick (run : Expr → Lazy) (s : State) (b : Option Snooper) :
    Unheard (advance run) s b := by
  rcases s.busy_or_free with hbusy | ⟨hrunning, hcancelled⟩
  · exact .of_ok (advance_of_busy hbusy) (advance_of_busy hbusy)
  · have hjobs := jobs run s.dueJobs s.started b
    rcases hr : runJobs run s.dueJobs s.started with ⟨_, t⟩ | ⟨i, t⟩
    · exact .of_ok (advance_of_ok hrunning hcancelled hr)
        (advance_of_ok (s := s.snooping b) hrunning hcancelled (hjobs.ok hr))
    · exact .of_error (advance_of_error hrunning hcancelled hr) fun hi =>
        advance_of_error (s := s.snooping b) hrunning hcancelled (hjobs.error hr hi)

theorem yielded (run : Expr → Lazy) (budget : Option Nat) (s : State) (b : Option Snooper) :
    Unheard (yield run budget) s b := by
  rw [yield_eq_handOver]
  refine .followed ?_ fun _ t _ => check t b
  have hhook' : (s.snooping b).machine.hook = s.machine.hook := rfl
  cases hhook : s.machine.hook with
  | absent | recorder =>
    have hwaited := Machine.waited_snooping s b budget
    refine .of_ok (a := ()) (t := { s with machine := s.machine.waited budget }) ?_ ?_
    · simp only [handOver, hhook]
    · simp only [handOver, hhook', hhook, hwaited]
  | clock =>
    have htick := tick run s b
    rcases hr : advance run s with ⟨_, t⟩ | ⟨i, t⟩
    · refine .of_ok (a := ()) (t := t.owing budget) ?_ ?_
      · simp only [handOver, hhook, hr]
      · simp only [handOver, hhook', hhook, htick.ok hr]
        rfl
    · refine .of_error (i := i) (t := t) ?_ fun hi => ?_
      · simp only [handOver, hhook, hr]
      · simp only [handOver, hhook', hhook, htick.error hr hi]

end Unheard

/-! ## What scripts and jobs tell -/

/-- Between the two states only the snoopers of jobs were told something. -/
structure JobsTold (s t : State) : Prop where
  snooper : t.machine.snooper = s.machine.snooper
  running : s.machine.clock.running = true → t.machine.clock.running = true
  told : ∃ told, t.machine.reports.toList = s.machine.reports.toList ++ told ∧
    ∀ r ∈ told, r.snooper = .printer false

/-- Between the two states only the snoopers of jobs were told something, and nobody if jobs
were being run already. -/
structure Hushed (s t : State) : Prop extends JobsTold s t where
  silent : s.machine.clock.running = true → t.machine.reports = s.machine.reports

namespace JobsTold

theorem of_eq {s t : State} (hsnooper : t.machine.snooper = s.machine.snooper)
    (hrunning : s.machine.clock.running = true → t.machine.clock.running = true)
    (hreports : t.machine.reports = s.machine.reports) : JobsTold s t :=
  ⟨hsnooper, hrunning, [], by simp [hreports], by simp⟩

theorem trans {s t u : State} (h : JobsTold s t) (h' : JobsTold t u) : JobsTold s u := by
  obtain ⟨told, hreports, htold⟩ := h.told
  obtain ⟨told', hreports', htold'⟩ := h'.told
  refine ⟨h'.snooper.trans h.snooper, h'.running ∘ h.running, told ++ told', ?_, ?_⟩
  · rw [hreports', hreports, List.append_assoc]
  · intro r hr
    rcases List.mem_append.mp hr with hr | hr
    · exact htold r hr
    · exact htold' r hr

end JobsTold

namespace Hushed

theorem of_eq {s t : State} (hsnooper : t.machine.snooper = s.machine.snooper)
    (hrunning : s.machine.clock.running = true → t.machine.clock.running = true)
    (hreports : t.machine.reports = s.machine.reports) : Hushed s t :=
  ⟨.of_eq hsnooper hrunning hreports, fun _ => hreports⟩

theorem trans {s t u : State} (h : Hushed s t) (h' : Hushed t u) : Hushed s u :=
  ⟨h.toJobsTold.trans h'.toJobsTold, fun hs => (h'.silent (h.running hs)).trans (h.silent hs)⟩

theorem effect (e : Effect) (s : State) : Hushed s (e.apply s) := by
  obtain ⟨_, _, _, _, _, _, _, h⟩ := e.apply_eq s
  rw [h]
  exact of_eq rfl id rfl

theorem waited (s : State) (budget : Option Nat) :
    Hushed s { s with machine := s.machine.waited budget } := by
  unfold Machine.waited
  split <;> exact of_eq rfl id rfl

theorem of_not_running {s t : State} (hs : s.machine.clock.running = false)
    (hsnooper : t.machine.snooper = s.machine.snooper)
    (htold : ∃ told, t.machine.reports.toList = s.machine.reports.toList ++ told ∧
      ∀ r ∈ told, r.snooper = .printer false) : Hushed s t := by
  refine ⟨⟨hsnooper, fun hrunning => ?_, htold⟩, fun hrunning => ?_⟩
  · simp [hs] at hrunning
  · simp [hs] at hrunning

/-- A script that fails as a job is one more thing that the snooper of a job is told. -/
theorem jobFails {s t : State} (f : Fault) (h : Hushed s.atJob t) :
    JobsTold s (s.afterJob (t.reporting f)) := by
  obtain ⟨told, hreports, htold⟩ := h.told
  have hsnooper : t.machine.snooper = some (.printer false) := h.snooper
  refine ⟨rfl, ?_, told ++ [⟨.printer false, f.diagnostic⟩], ?_, ?_⟩
  · intro hs
    simpa [State.afterJob, State.reporting] using h.running hs
  · have hreport := t.machine.reports_report f
    rw [hsnooper, hreports] at hreport
    simpa [State.afterJob, State.reporting, State.atJob, Report.ofFault] using hreport
  · intro r hr
    rcases List.mem_append.mp hr with hr | hr
    · exact htold r hr
    · rw [List.mem_singleton.mp hr]

theorem kept : Kept Hushed JobsTold where
  refl _ := of_eq rfl id rfl
  trans := trans
  effect := effect
  relocal _ h := ⟨⟨h.snooper, h.running, h.told⟩, h.silent⟩
  around h := ⟨⟨h.snooper, h.running, h.told⟩, h.silent⟩
  waited := waited
  counted _ := of_eq rfl id rfl
  owing _ h := ⟨⟨h.snooper, h.running, h.told⟩, h.silent⟩
  jobsRefl _ := .of_eq rfl id rfl
  jobsTrans := .trans
  jobEnds h := ⟨rfl, h.running, h.told⟩
  jobFails := jobFails
  settled := by
    intro s t job failed h
    obtain ⟨_, _, hsettled⟩ := t.settling_eq job failed
    rw [hsettled]
    exact ⟨h.snooper, h.running, h.told⟩
  ticked hs h := of_not_running hs h.snooper h.told
  unfinished hs h := of_not_running hs h.snooper h.told

end Hushed

/-! ## Hosts -/

/-- A step of the host that tells no snooper anything, leaves the snooper in place and goes the
same way under any. -/
structure Discreet (α : Type) (x : Run α) : Prop where
  snooper : ∀ s, (x.after s).machine.snooper = s.machine.snooper
  running : ∀ s, s.machine.clock.running = true → (x.after s).machine.clock.running = true
  reports : ∀ s, (x.after s).machine.reports = s.machine.reports
  unheard : ∀ s b, Unheard x s b

theorem Woven.unheard {α : Type} {x : Run α} (h : Woven Discreet x) (s : State)
    (b : Option Snooper) : Unheard x s b := by
  let under (m : Machine) : Machine := { m with snooper := b }
  have hother (s : State) : s.snooping b = { s with machine := under s.machine } := rfl
  induction h generalizing s with
  | own h => exact h.unheard s b
  | look f hf => exact .of_ok rfl (by rw [hf.snooping])
  | act e => exact .of_ok rfl (by rw [e.apply_snooping])
  | fail | endless => exact .of_error rfl fun _ => rfl
  | check => exact .check s b
  | followed _ _ ihx ihf => exact .followed (ihx s) fun a t ha => ihf a ⟨s, t, ha⟩ t
  | located site _ ih => exact .located (fun _ => id) (ih s)
  | looping loop _ ih => exact .looping hother loop.names (ih s)
  | entered _ _ _ ih => exact .entered hother (fun _ _ => rfl) (fun _ => id) (ih _)
  | yielded budget => exact .yielded _ budget s b

/-! ## Calls from outside -/

/-- The ways in which a host has something evaluated. -/
inductive Entry where
  | code (text : String)
  | invoke (name : String) (args : List Value)
  | script (read : Script) (kind : Kind)

namespace Entry

def run (lang : Language) : Entry → Run Value
  | .code text => runCode lang text
  | .invoke name args => TickScript.invoke lang name args
  | .script read kind => read.evaluate (evaluate lang) kind

section Woven

variable {lang : Language} (hlang : lang.Woven Discreet)

include hlang

end Woven

end Entry

/-! ## Snoopers one within the other -/

namespace Run

variable {α : Type} {x : Run α} {s t : State}

/-- A computation under some snoopers, the last of which is the innermost. -/
def snoopedBy : List Snooper → Run α → Run α
  | [], x => x
  | snooper :: rest, x => snooped snooper (snoopedBy rest x)

theorem snooped_of_ok {snooper : Snooper} {a : α} (h : x (s.snooping (some snooper)) = .ok a t) :
    snooped snooper x s = .ok a (t.snooping s.machine.snooper) := by
  unfold State.snooping at h
  simp only [snooped, h]
  rfl

theorem snooped_of_error {snooper : Snooper} {i : Interrupt}
    (h : x (s.snooping (some snooper)) = .error i t) :
    snooped snooper x s = .error i (t.snooping s.machine.snooper) := by
  unfold State.snooping at h
  simp only [snooped, h]
  rfl

section Kept

variable (hx : ∀ s, (x.after s).machine.snooper = s.machine.snooper)

include hx

end Kept

end Run

/-! ## Jobs -/

namespace WaitingHost

/-- A step of a host: it is to wait a little longer. -/
def waitLonger : Run Value := fun s =>
  .ok .null { s with machine := { s.machine with owed := s.machine.owed + 1 } }

def registrations : List Registration :=
  [.function "wait" (.eager (.exactly 0) fun _ => waitLonger)]

def site : Site := ⟨⟨.name, "x", .start⟩, ⟨"game_tick(); wait(); x", none⟩⟩

/-- A script that lets jobs run, waits and then fails. -/
def entry : Entry :=
  .script ⟨.sequence [.call "game_tick" [] site, .call "wait" [] site, .var "x" false site],
    site.source⟩ .value

/-- A state with a job that is due and fails. -/
def state : State where
  locals := .empty
  machine :=
    { hook := .clock
      clock := ⟨0, false, ⟨[⟨1, ⟨.var "absent" false site, site.source⟩, 1, 1, none⟩], 2⟩⟩ }

/-- The script under two snoopers. -/
def call : Run Value :=
  .snoopedBy [.recorder "outer", .recorder "inner"] (entry.run (.extended registrations))

end WaitingHost

end TickScript
