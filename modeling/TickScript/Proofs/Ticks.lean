-- What a tick does: the state in which the script of a job begins and what is left of it, the
-- jobs one after the other, and the tick around them. What is kept by every piece of a script
-- and by these steps is kept by every script, the jobs that it lets run included.
import TickScript.Proofs.Scripted

namespace TickScript

/-! ## Hooks that run no script -/

/-- The hook runs no script. At most it asks scripts to stop. -/
def Hook.Quiet : Hook → Prop
  | .absent | .recorder _ => True
  | .clock => False

/-- The machine after its hook, which runs no script, has been asked to wait. -/
def Machine.waited (m : Machine) (budget : Option Nat) : Machine :=
  match m.hook with
  | .recorder raises =>
    let budgets := budget :: m.budgets
    { m with budgets, cancelled := m.cancelled || raises budgets }
  | _ => m

theorem yield_of_quiet {s : State} (h : s.machine.hook.Quiet) (run : Expr → Lazy)
    (budget : Option Nat) :
    yield run budget s = Run.checkStop { s with machine := s.machine.waited budget } := by
  cases hhook : s.machine.hook with
  | absent => simp only [yield, Machine.waited, hhook]
  | recorder raises => simp only [yield, Machine.waited, hhook]
  | clock =>
    rw [hhook] at h
    exact h.elim

/-! ## A report -/

/-- What a snooper, if there is one, is told about a fault. -/
def Report.ofFault (installed : Option Snooper) (f : Fault) : List Report :=
  installed.toList.map fun snooper => ⟨snooper, f.diagnostic⟩

namespace Machine

theorem foldl_print (lines : List String) (m : Machine) :
    ∃ output, lines.foldl print m = { m with output } := by
  induction lines generalizing m with
  | nil => exact ⟨m.output, rfl⟩
  | cons line rest ih =>
    obtain ⟨output, h⟩ := ih (m.print line)
    exact ⟨output, h⟩

/-- A report is kept, and it may be printed; nothing else changes. -/
theorem report_eq (m : Machine) (f : Fault) :
    ∃ reports output, m.report f = { m with reports, output } ∧
      reports.toList = m.reports.toList ++ Report.ofFault m.snooper f := by
  cases hsnooper : m.snooper with
  | none =>
    have hreport : m.report f = m := by simp only [report, hsnooper]
    exact ⟨m.reports, m.output, by rw [hreport, ← hsnooper], by simp [Report.ofFault]⟩
  | some snooper =>
    have hreport : m.report f = m.tell snooper f.diagnostic := by simp only [report, hsnooper]
    have htold : ∃ output, m.tell snooper f.diagnostic =
        { m with reports := m.reports.push ⟨snooper, f.diagnostic⟩, output } := by
      unfold tell
      split
      · exact ⟨m.output, rfl⟩
      · split
        · exact ⟨m.output, rfl⟩
        · exact foldl_print _ _
    obtain ⟨output, htold⟩ := htold
    refine ⟨m.reports.push ⟨snooper, f.diagnostic⟩, output, ?_, by simp [Report.ofFault]⟩
    rw [hreport, htold, ← hsnooper]

end Machine

/-- Whether or not a fault is reported, nothing but the reports and the output can change. -/
theorem Run.after_reported {α : Type} (x : Run α) (s : State) :
    ∃ reports output, (Run.reported x).after s =
      { x.after s with machine := { (x.after s).machine with reports, output } } := by
  rcases hx : x s with ⟨a, t⟩ | ⟨i, t⟩
  · rw [after_of_ok hx, after_of_ok (reported_of_ok hx)]
    exact ⟨_, _, rfl⟩
  · rw [after_of_error hx]
    cases i with
    | fault f =>
      obtain ⟨reports, output, hreport, _⟩ := t.machine.report_eq f
      rw [after_of_error (reported_of_fault hx), hreport]
      exact ⟨reports, output, rfl⟩
    | stopped =>
      rw [after_of_error (reported_of_stopped hx)]
      exact ⟨_, _, rfl⟩
    | endless =>
      rw [after_of_error (reported_of_endless hx)]
      exact ⟨_, _, rfl⟩

/-! ## A job -/

namespace State

/-- The state in which the script of a job is evaluated. -/
def atJob (s : State) : State where
  locals := invokerLocals 0 0 0 s.machine.fresh
  machine := { s.machine with snooper := some (.printer false), fresh := s.machine.fresh + 1 }

/-- The state `t` at the end of a job's script, as whoever let the job run in `s` gets it. -/
def afterJob (s t : State) : State where
  locals := s.locals
  machine := { t.machine with snooper := s.machine.snooper }

/-- The fault has been reported. -/
def reporting (s : State) (f : Fault) : State := { s with machine := s.machine.report f }

/-- What is left of a job's run has been dealt with. -/
def settling (s : State) (job : Job) (failed : Bool) : State :=
  { s with machine := settleJob job failed s.machine }

/-- A tick has been counted. -/
def counted (s : State) : State :=
  { s with machine.clock.now := s.machine.clock.now + 1 }

/-- The jobs that the next tick finds due. -/
def dueJobs (s : State) : List Job :=
  (s.machine.clock.schedule.takeDue (s.machine.clock.now + 1)).1

/-- The state in which the next tick runs the jobs that are due. -/
def started (s : State) : State :=
  let clock := s.machine.clock
  { s with
    machine.clock := ⟨clock.now + 1, true, (clock.schedule.takeDue (clock.now + 1)).2⟩ }

/-- No jobs are being run any more. -/
def idle (s : State) : State := { s with machine.clock.running := false }

/-- The host has been asked to wait. -/
def owing (s : State) (budget : Option Nat) : State :=
  { s with machine.owed := s.machine.owed + budget.getD 0 }

/-- To deal with what is left of a job is to print a line or to schedule the job again. -/
theorem settling_eq (s : State) (job : Job) (failed : Bool) :
    ∃ output schedule, s.settling job failed =
      { s with machine := { s.machine with
          output, clock := { s.machine.clock with schedule } } } := by
  unfold settling settleJob
  cases failed with
  | true => exact ⟨_, _, rfl⟩
  | false =>
    simp only [Bool.false_eq_true, ↓reduceIte]
    split
    · exact ⟨_, _, rfl⟩
    · exact ⟨_, _, rfl⟩

/-- What is left by a script that has ended like this, for whoever let the job run in `s`. Its
fault has been reported. -/
def afterScript (s : State) : EStateM.Result Interrupt State Value → State
  | .ok _ t | .error .stopped t | .error .endless t => s.afterJob t
  | .error (.fault f) t => s.afterJob (t.reporting f)

end State

/-- A script has failed. -/
def scriptFails : EStateM.Result Interrupt State Value → Bool
  | .error (.fault _) _ => true
  | .error .stopped _ | .error .endless _ | .ok .. => false

/-- A script has not come to an end. -/
def scriptHangs : EStateM.Result Interrupt State Value → Bool
  | .error .endless _ => true
  | .error (.fault _) _ | .error .stopped _ | .ok .. => false

section Jobs

variable {run : Expr → Lazy} {job : Job} {s t : State} {i : Interrupt}

/-- However the script ends, the job is dealt with, unless it does not come to an end. -/
theorem runJob_eq (run : Expr → Lazy) (job : Job) (s : State) :
    runJob run job s =
      if scriptHangs (run job.script.root .value s.atJob) then
        .error .endless (s.afterScript (run job.script.root .value s.atJob))
      else
        .ok () ((s.afterScript (run job.script.root .value s.atJob)).settling job
          (scriptFails (run job.script.root .value s.atJob))) := by
  rcases hbody : run job.script.root .value s.atJob with ⟨v, t⟩ | ⟨f | _ | _, t⟩
  all_goals
    unfold State.atJob at hbody
    simp only [runJob, Run.snooped, Run.atPosition, Run.freshId, Machine.freshId, bind,
      EStateM.bind, Run.withLocals, Script.evaluate, Run.reported, hbody]
    rfl

/-- Jobs end well or not at all. -/
theorem runJob_error (h : runJob run job s = .error i t) : i = .endless := by
  rw [runJob_eq] at h
  split at h
  · cases h
    rfl
  · cases h

theorem runJobs_of_ok {rest : List Job} (h : runJob run job s = .ok () t) :
    runJobs run (job :: rest) s = runJobs run rest t :=
  Run.bind_of_ok h

theorem runJobs_of_error {rest : List Job} (h : runJob run job s = .error i t) :
    runJobs run (job :: rest) s = .error i t :=
  Run.bind_of_error h

theorem runJobs_error {jobs : List Job} (h : runJobs run jobs s = .error i t) : i = .endless := by
  induction jobs generalizing s with
  | nil => cases h
  | cons job rest ih =>
    rcases Run.of_bind_error h with h | ⟨_, u, _, h⟩
    · exact runJob_error h
    · exact ih h

/-- The jobs whose scripts begin if these are to run in order, each with the state in which its
script does. None begins after one that does not come to an end. -/
def jobStarts (run : Expr → Lazy) : List Job → State → List (Job × State)
  | [], _ => []
  | job :: rest, s =>
    (job, s.atJob) ::
      match runJob run job s with
      | .ok _ t => jobStarts run rest t
      | .error .. => []

section Starts

variable {rest due : List Job}

theorem jobStarts_of_ok (h : runJob run job s = .ok () t) :
    jobStarts run (job :: rest) s = (job, s.atJob) :: jobStarts run rest t := by
  simp only [jobStarts, h]

theorem jobStarts_of_error (h : runJob run job s = .error i t) :
    jobStarts run (job :: rest) s = [(job, s.atJob)] := by
  simp only [jobStarts, h]

/-- Nothing is evaluated but the scripts of the jobs, where they begin. -/
theorem runJobs_congr {run' : Expr → Lazy}
    (h : ∀ start ∈ jobStarts run due s,
      run' start.1.script.root .value start.2 = run start.1.script.root .value start.2) :
    runJobs run' due s = runJobs run due s := by
  induction due generalizing s with
  | nil => rfl
  | cons job rest ih =>
    obtain ⟨hscript, hrest⟩ := List.forall_mem_cons.mp h
    have hjob : runJob run' job s = runJob run job s := by
      rw [runJob_eq, runJob_eq, hscript]
    rcases hr : runJob run job s with ⟨⟨⟩, t⟩ | ⟨i, t⟩
    · rw [hr] at hrest
      rw [runJobs_of_ok hr, runJobs_of_ok (hjob.trans hr), ih hrest]
    · rw [runJobs_of_error hr, runJobs_of_error (hjob.trans hr)]

/-- Each of these scripts is evaluated: if one does not come to an end, the whole does not. -/
theorem runJobs_of_endless {start : Job × State} (hstart : start ∈ jobStarts run due s)
    {u : State} (h : run start.1.script.root .value start.2 = .error .endless u) :
    ∃ t, runJobs run due s = .error .endless t := by
  induction due generalizing s with
  | nil => cases hstart
  | cons job rest ih =>
    rcases hr : runJob run job s with ⟨⟨⟩, t⟩ | ⟨i, t⟩
    · rw [jobStarts_of_ok hr] at hstart
      rcases List.mem_cons.mp hstart with rfl | hlater
      · rw [runJob_eq, h] at hr
        cases hr
      · obtain ⟨w, hw⟩ := ih hlater
        exact ⟨w, (runJobs_of_ok hr).trans hw⟩
    · rw [runJob_error hr] at hr
      exact ⟨t, runJobs_of_error hr⟩

end Starts

end Jobs

/-! ## A tick -/

section Ticks

variable {run : Expr → Lazy} {s t : State} {i : Interrupt}

/-- A tick is only counted, or it runs jobs. -/
theorem State.busy_or_free (s : State) :
    (s.machine.clock.running = true ∨ s.machine.cancelled = true) ∨
      s.machine.clock.running = false ∧ s.machine.cancelled = false := by
  cases s.machine.clock.running <;> cases s.machine.cancelled <;> simp

theorem advance_of_busy (h : s.machine.clock.running = true ∨ s.machine.cancelled = true) :
    advance run s = .ok () s.counted := by
  unfold advance
  dsimp only
  split
  · rfl
  · rename_i hrunning
    rw [if_pos (h.resolve_left hrunning)]
    rfl

/-- The jobs whose scripts begin in a tick, each with the state in which its script does. -/
def tickStarts (run : Expr → Lazy) (s : State) : List (Job × State) :=
  if s.machine.clock.running || s.machine.cancelled then [] else jobStarts run s.dueJobs s.started

section Running

variable (hrunning : s.machine.clock.running = false) (hcancelled : s.machine.cancelled = false)

include hrunning hcancelled

theorem advance_of_ok (h : runJobs run s.dueJobs s.started = .ok () t) :
    advance run s = .ok () t.idle := by
  simp only [State.dueJobs, State.started, hcancelled] at h
  simp only [advance, hrunning, hcancelled, Bool.false_eq_true, ↓reduceIte, h]
  rfl

theorem advance_of_error (h : runJobs run s.dueJobs s.started = .error i t) :
    advance run s = .error i t := by
  simp only [State.dueJobs, State.started, hcancelled] at h
  simp only [advance, hrunning, hcancelled, Bool.false_eq_true, ↓reduceIte, h]

theorem tickStarts_of_free : tickStarts run s = jobStarts run s.dueJobs s.started := by
  simp [tickStarts, hrunning, hcancelled]

end Running

theorem advance_congr {run' : Expr → Lazy}
    (h : ∀ start ∈ tickStarts run s,
      run' start.1.script.root .value start.2 = run start.1.script.root .value start.2) :
    advance run' s = advance run s := by
  rcases s.busy_or_free with hbusy | ⟨hrunning, hcancelled⟩
  · rw [advance_of_busy hbusy, advance_of_busy hbusy]
  · rw [tickStarts_of_free hrunning hcancelled] at h
    have hsame := runJobs_congr h
    rcases hjobs : runJobs run s.dueJobs s.started with ⟨⟨⟩, t⟩ | ⟨i, t⟩
    · rw [advance_of_ok hrunning hcancelled hjobs]
      exact advance_of_ok hrunning hcancelled (hsame.trans hjobs)
    · rw [advance_of_error hrunning hcancelled hjobs]
      exact advance_of_error hrunning hcancelled (hsame.trans hjobs)

theorem advance_error (h : advance run s = .error i t) : i = .endless := by
  rcases s.busy_or_free with hbusy | ⟨hrunning, hcancelled⟩
  · rw [advance_of_busy hbusy] at h
    cases h
  · rcases hjobs : runJobs run s.dueJobs s.started with ⟨_, u⟩ | ⟨j, u⟩
    · rw [advance_of_ok hrunning hcancelled hjobs] at h
      cases h
    · rw [advance_of_error hrunning hcancelled hjobs] at h
      cases h
      exact runJobs_error hjobs

/-- Hands control to the host, which may be asked to wait for so many milliseconds. -/
def handOver (run : Expr → Lazy) (budget : Option Nat) : Run Unit := fun s =>
  match s.machine.hook with
  | .absent | .recorder _ => .ok () { s with machine := s.machine.waited budget }
  | .clock =>
    match advance run s with
    | .ok _ t => .ok () (t.owing budget)
    | .error i t => .error i t

/-- A yield hands over control and then makes a check. -/
theorem yield_eq_handOver (budget : Option Nat) :
    yield run budget = handOver run budget >>= fun _ => Run.checkStop := by
  funext s
  cases hhook : s.machine.hook with
  | absent | recorder => simp only [yield, handOver, Machine.waited, hhook, bind, EStateM.bind]
  | clock =>
    simp only [yield, handOver, hhook, bind, EStateM.bind]
    cases advance run s <;> rfl

theorem handOver_error {budget : Option Nat} (h : handOver run budget s = .error i t) :
    i = .endless := by
  unfold handOver at h
  split at h
  · cases h
  · cases h
  · split at h
    · cases h
    · rename_i hadvance
      cases h
      exact advance_error hadvance

/-- A yield evaluates nothing but what a tick does. -/
theorem yield_congr {run' : Expr → Lazy} (h : advance run' s = advance run s)
    (budget : Option Nat) : yield run' budget s = yield run budget s := by
  unfold yield
  rw [h]

/-- A yield never fails: whatever goes wrong with a job stays with the job. -/
theorem yield_ne_fault (budget : Option Nat) (f : Fault) :
    yield run budget s ≠ .error (.fault f) t := by
  rw [yield_eq_handOver]
  intro h
  rcases Run.of_bind_error h with h | ⟨_, u, _, h⟩
  · cases handOver_error h
  · rw [Run.checkStop_of_cancelled (Run.cancelled_of_checkStop h)] at h
    cases h

end Ticks

/-! ## What scripts and jobs keep -/

/-- What holds between the start and the end of every computation of a script (`R`) and of
every run of jobs (`J`): it is kept by each single step. -/
structure Kept (R J : State → State → Prop) : Prop where
  refl : ∀ s, R s s
  trans : ∀ {s t u}, R s t → R t u → R s u
  effect : ∀ e s, R s (Effect.apply e s)
  relocal : ∀ {s t} locals, R s t → R s { t with locals }
  around : ∀ {scope s t}, R (Run.inner scope s) t → R s (Run.outer s t)
  waited : ∀ s budget, R s { s with machine := s.machine.waited budget }
  counted : ∀ s, R s s.counted
  owing : ∀ {s t} budget, R s t → R s (t.owing budget)
  jobsRefl : ∀ s, J s s
  jobsTrans : ∀ {s t u}, J s t → J t u → J s u
  jobEnds : ∀ {s t}, R s.atJob t → J s (s.afterJob t)
  jobFails : ∀ {s t} f, R s.atJob t → J s (s.afterJob (t.reporting f))
  settled : ∀ {s t} job failed, J s t → J s (t.settling job failed)
  ticked : ∀ {s t}, s.machine.clock.running = false → J s.started t → R s t.idle
  unfinished : ∀ {s t}, s.machine.clock.running = false → J s.started t → R s t

namespace Kept

variable {R J : State → State → Prop} (h : Kept R J) {run : Expr → Lazy}
  (hrun : ∀ e k s, R s ((run e k).after s))

include h hrun

theorem runJob (job : Job) (s : State) : J s ((TickScript.runJob run job).after s) := by
  have hscript := hrun job.script.root .value s.atJob
  have hleft : J s (s.afterScript (run job.script.root .value s.atJob)) := by
    unfold Run.after at hscript
    rcases hbody : run job.script.root .value s.atJob with ⟨v, t⟩ | ⟨f | _ | _, t⟩ <;>
      rw [hbody] at hscript
    case error.fault => exact h.jobFails f hscript
    all_goals exact h.jobEnds hscript
  unfold Run.after
  rw [runJob_eq]
  cases scriptHangs (run job.script.root .value s.atJob) with
  | true => exact hleft
  | false => exact h.settled job _ hleft

theorem runJobs (jobs : List Job) (s : State) : J s ((TickScript.runJobs run jobs).after s) := by
  induction jobs generalizing s with
  | nil => exact h.jobsRefl s
  | cons job rest ih =>
    have hjob := h.runJob hrun job s
    rcases hr : TickScript.runJob run job s with ⟨a, t⟩ | ⟨i, t⟩
    · rw [Run.after_of_ok hr] at hjob
      have hshape : (TickScript.runJobs run (job :: rest)).after s =
          (TickScript.runJobs run rest).after t := Run.after_bind_of_ok hr
      rw [hshape]
      exact h.jobsTrans hjob (ih t)
    · rw [Run.after_of_error hr] at hjob
      rw [Run.after_of_error (runJobs_of_error hr)]
      exact hjob

theorem advance (s : State) : R s ((TickScript.advance run).after s) := by
  rcases s.busy_or_free with hbusy | ⟨hrunning, hcancelled⟩
  · rw [Run.after_of_ok (advance_of_busy hbusy)]
    exact h.counted s
  · have hjobs := h.runJobs hrun s.dueJobs s.started
    rcases hr : TickScript.runJobs run s.dueJobs s.started with ⟨_, t⟩ | ⟨i, t⟩
    · rw [Run.after_of_ok hr] at hjobs
      rw [Run.after_of_ok (advance_of_ok hrunning hcancelled hr)]
      exact h.ticked hrunning hjobs
    · rw [Run.after_of_error hr] at hjobs
      rw [Run.after_of_error (advance_of_error hrunning hcancelled hr)]
      exact h.unfinished hrunning hjobs

theorem yield (budget : Option Nat) (s : State) : R s ((TickScript.yield run budget).after s) := by
  have hover : R s ((handOver run budget).after s) := by
    have hadvance := h.advance hrun s
    unfold Run.after at hadvance ⊢
    cases hhook : s.machine.hook with
    | absent | recorder =>
      simp only [handOver, hhook]
      exact h.waited s budget
    | clock =>
      simp only [handOver, hhook]
      cases hr : TickScript.advance run s with
      | ok a t =>
        rw [hr] at hadvance
        exact h.owing budget hadvance
      | error i t =>
        rw [hr] at hadvance
        exact hadvance
  rw [yield_eq_handOver]
  rcases hr : handOver run budget s with ⟨_, t⟩ | ⟨i, t⟩
  · rw [Run.after_bind_of_ok hr, Run.after_checkStop]
    exact Run.after_of_ok hr ▸ hover
  · rw [Run.after_of_error (Run.bind_of_error hr)]
    exact Run.after_of_error hr ▸ hover

end Kept

/-- What each step keeps, whole computations keep, if the host's own steps do. -/
theorem Woven.framed {R J : State → State → Prop} (h : Kept R J)
    {Own : (α : Type) → Run α → Prop} (hown : ∀ α x, Own α x → ∀ s, R s (x.after s))
    {α : Type} {x : Run α} (hx : Woven Own x) (s : State) : R s (x.after s) := by
  induction hx generalizing s with
  | own hx => exact hown _ _ hx s
  | look | fail | endless => exact h.refl s
  | act e => exact h.effect e s
  | check =>
    rw [Run.after_checkStop]
    exact h.refl s
  | @followed α β x f _ _ ihx ihf =>
    have hx := ihx s
    rcases hr : x s with ⟨a, t⟩ | ⟨i, t⟩
    · rw [Run.after_of_ok hr] at hx
      rw [Run.after_bind_of_ok hr]
      exact h.trans hx (ihf a ⟨s, t, hr⟩ t)
    · rw [Run.after_of_error hr] at hx
      rw [Run.after_of_error (Run.bind_of_error hr)]
      exact hx
  | located site _ ih =>
    rw [Run.after_located]
    exact ih s
  | looping loop _ ih =>
    rw [Run.after_restoring]
    exact h.relocal _ (ih s)
  | entered procedure scope _ ih =>
    by_cases hdeep : s.machine.depth < maxCallDepth
    · rw [Run.after_enter procedure hdeep]
      exact h.around (ih _)
    · rw [Run.after_of_error (Run.enter_of_deep procedure (by omega))]
      exact h.refl s
  | yielded budget _ ih => exact h.yield ih budget s

end TickScript
