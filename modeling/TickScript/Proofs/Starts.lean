-- Jobs and requests to stop. Whether scripts are to stop is looked at once a tick, before the
-- first of its jobs: a job that asks scripts to stop does not keep the others of its tick from
-- starting, but nothing else makes a job start then.
import TickScript.Library.Probe
import TickScript.Proofs.Hosts
import TickScript.Proofs.Ticks

namespace TickScript

/-! ## From one job to the next -/

section Jobs

variable {run : Expr → Lazy} {s : State}

/-- A job leaves it to the next one whether scripts are to stop, as its script has left it. -/
theorem cancelled_runJob {job : Job} {t : State} (h : runJob run job s = .ok () t) :
    t.machine.cancelled = ((run job.script.root .value).after s.atJob).machine.cancelled := by
  rw [runJob_eq] at h
  split at h
  · cases h
  · cases h
    obtain ⟨_, _, hsettled⟩ := (s.afterScript (run job.script.root .value s.atJob)).settling_eq job
      (scriptFails (run job.script.root .value s.atJob))
    rw [hsettled, Run.after]
    rcases run job.script.root .value s.atJob with ⟨v, t⟩ | ⟨f | _ | _, t⟩
    case error.fault =>
      obtain ⟨_, _, hreport, _⟩ := t.machine.report_eq f
      simp only [State.afterScript, State.afterJob, State.reporting, hreport]
    all_goals rfl

theorem head?_jobStarts {due : List Job} {start : Job × State}
    (h : (jobStarts run due s).head? = some start) : start.2 = s.atJob := by
  cases due with
  | nil => cases h
  | cons => cases h; rfl

/-- Each script begins as the one before it has ended. -/
def BeginsAsLeft (run : Expr → Lazy) (one next : Job × State) : Prop :=
  next.2.machine.cancelled = ((run one.1.script.root .value).after one.2).machine.cancelled

theorem isChain_jobStarts (run : Expr → Lazy) (due : List Job) (s : State) :
    (jobStarts run due s).IsChain (BeginsAsLeft run) := by
  induction due generalizing s with
  | nil => exact .nil
  | cons job rest ih =>
    rcases hjob : runJob run job s with ⟨⟨⟩, t⟩ | ⟨i, t⟩
    · rw [jobStarts_of_ok hjob]
      have hlater := ih t
      cases hrest : jobStarts run rest t with
      | nil => exact .singleton _
      | cons next more =>
        rw [hrest] at hlater
        have hnext : next.2 = t.atJob := head?_jobStarts (congrArg List.head? hrest)
        refine .cons_cons ?_ hlater
        rw [BeginsAsLeft, hnext, ← cancelled_runJob hjob]
        rfl
    · rw [jobStarts_of_error hjob]
      exact .singleton _

/-! ## Hosts that never ask scripts to stop -/

/-- Where scripts yield to the clock, they still do afterwards, and they have not been asked to
stop meanwhile. -/
def Unstopped (s t : State) : Prop :=
  s.machine.hook = .clock →
    t.machine.hook = .clock ∧ (s.machine.cancelled = false → t.machine.cancelled = false)

/-- A computation that asks no script to stop. -/
def Harmless (α : Type) (x : Run α) : Prop := ∀ s, Unstopped s (x.after s)

namespace Unstopped

theorem of_eq {t : State} (hhook : t.machine.hook = s.machine.hook)
    (hcancelled : t.machine.cancelled = s.machine.cancelled) : Unstopped s t := fun h =>
  ⟨hhook.trans h, hcancelled.trans⟩

theorem trans {t u : State} (h : Unstopped s t) (h' : Unstopped t u) : Unstopped s u := by
  intro hs
  obtain ⟨ht, hcancelled⟩ := h hs
  obtain ⟨hu, hcancelled'⟩ := h' ht
  exact ⟨hu, fun hdown => hcancelled' (hcancelled hdown)⟩

theorem effect (e : Effect) (s : State) : Unstopped s (e.apply s) := by
  obtain ⟨_, _, _, _, _, _, _, h⟩ := e.apply_eq s
  rw [h]
  exact of_eq rfl rfl

theorem waited (s : State) (budget : Option Nat) :
    Unstopped s { s with machine := s.machine.waited budget } := by
  intro hhook
  have hwaited : s.machine.waited budget = s.machine := by
    simp only [Machine.waited, hhook]
  rw [hwaited]
  exact ⟨hhook, id⟩

theorem reporting (s : State) (f : Fault) : Unstopped s (s.reporting f) := by
  obtain ⟨_, _, h, _⟩ := s.machine.report_eq f
  refine of_eq ?_ ?_ <;> rw [State.reporting, h]

theorem kept : Kept Unstopped Unstopped where
  refl _ := of_eq rfl rfl
  trans h h' := h.trans h'
  effect := effect
  relocal _ h := h
  around h := h
  waited := waited
  counted _ := of_eq rfl rfl
  owing _ h := h
  jobsRefl _ := of_eq rfl rfl
  jobsTrans h h' := h.trans h'
  jobEnds h := h
  jobFails {_ t} f h := h.trans (reporting t f)
  settled {_ t} job failed h := by
    obtain ⟨_, _, hsettled⟩ := t.settling_eq job failed
    rw [hsettled]
    exact h
  ticked _ h := h
  unfinished _ h := h

end Unstopped

/-- If no script asks to stop, then all jobs find scripts not stopped, as the first does. -/
theorem unstopped_jobStarts (hrun : ∀ e k s, Unstopped s ((run e k).after s)) {due : List Job}
    (hhook : s.machine.hook = .clock) (hcancelled : s.machine.cancelled = false) :
    ∀ start ∈ jobStarts run due s, start.2.machine.cancelled = false := by
  induction due generalizing s with
  | nil => simp [jobStarts]
  | cons job rest ih =>
    rcases hjob : runJob run job s with ⟨⟨⟩, t⟩ | ⟨i, t⟩
    · have hkept := Unstopped.kept.runJob hrun job s
      rw [Run.after_of_ok hjob] at hkept
      obtain ⟨hhook', hcancelled'⟩ := hkept hhook
      rw [jobStarts_of_ok hjob]
      exact List.forall_mem_cons.mpr ⟨hcancelled, ih hhook' (hcancelled' hcancelled)⟩
    · rw [jobStarts_of_error hjob]
      exact List.forall_mem_singleton.mpr hcancelled

end Jobs

/-! ## Starts -/

/-- While scripts are to stop, or jobs are being run, a tick is only counted, whatever evaluates
scripts. Otherwise it evaluates the scripts of some jobs and nothing else, and a yield does no more
than a tick. The first of them begins while scripts are not to stop, and every other one just as
the one before it has ended: if that has asked scripts to stop, the next job begins nevertheless.
None begins while scripts are to stop if no function of the host asks for it. -/
theorem jobs_start_as_the_one_before_ended (s : State) :
    (s.machine.cancelled = true ∨ s.machine.clock.running = true →
      ∀ run, advance run s = .ok () s.counted) ∧
    (∀ run run', (∀ start ∈ tickStarts run s,
        run' start.1.script.root .value start.2 = run start.1.script.root .value start.2) →
      advance run' s = advance run s ∧ ∀ budget, yield run' budget s = yield run budget s) ∧
    (∀ run, ∀ start ∈ tickStarts run s,
      ∀ u, run start.1.script.root .value start.2 = .error .endless u →
        ∃ t, advance run s = .error .endless t) ∧
    (∀ run start, (tickStarts run s).head? = some start → start.2.machine.cancelled = false) ∧
    (∀ run, (tickStarts run s).IsChain (BeginsAsLeft run)) ∧
    ∀ rs : List Registration, (∀ r ∈ rs, r.Woven Harmless) → s.machine.hook = .clock →
      ∀ levels, ∀ start ∈ tickStarts (evaluateWithin (.extended rs) levels) s,
        start.2.machine.cancelled = false := by
  refine ⟨fun hbusy run => advance_of_busy hbusy.symm, ?_, ?_⟩
  · intro run run' hsame
    have htick := advance_congr hsame
    exact ⟨htick, yield_congr htick⟩
  · rcases s.busy_or_free with hbusy | ⟨hrunning, hcancelled⟩
    · have hnone : ∀ run, tickStarts run s = [] := by
        intro run
        rcases hbusy with h | h <;> simp [tickStarts, h]
      simp only [hnone]
      exact ⟨by simp, by simp, fun _ => .nil, by simp⟩
    · simp only [tickStarts_of_free hrunning hcancelled]
      refine ⟨?_, ?_, fun run => isChain_jobStarts run _ _, ?_⟩
      · intro run start hstart u hu
        obtain ⟨t, ht⟩ := runJobs_of_endless hstart hu
        exact ⟨t, advance_of_error hrunning hcancelled ht⟩
      · intro run start hstart
        rw [head?_jobStarts hstart]
        exact hcancelled
      · intro rs hharmless hhook levels
        refine unstopped_jobStarts (fun e k u => ?_) hhook hcancelled
        exact (woven_evaluateWithin (Language.woven_extended hharmless) levels e k).framed
          Unstopped.kept (fun _ _ hx => hx) u

namespace HaltingHost

def registrations : List Registration := [.function "halt" (Library.ofNone Library.halt)]

def run : Expr → Lazy := evaluate (.extended registrations)

def source : Source := ⟨"halt()", none⟩

def site : Site := ⟨⟨.call, "halt", .start⟩, source⟩

/-- Asks scripts to stop. -/
def halting : Job := ⟨1, ⟨.call "halt" [] site, source⟩, 1, 1, none⟩

def printing : Job := ⟨2, ⟨.call "print" [.text "x"] site, source⟩, 1, 1, none⟩

/-- Both jobs are due at the first tick. -/
def state : State where
  locals := .empty
  machine := { hook := .clock, clock := ⟨0, false, ⟨[halting, printing], 3⟩⟩ }

/-- The state that the first job leaves to the second. -/
def halted : State := (runJob run halting).after state.started

end HaltingHost

open HaltingHost in
/-- A job asks scripts to stop, and the next one of the same tick starts and prints its line. -/
theorem a_job_starts_while_scripts_are_to_stop :
    tickStarts run state = [(halting, state.started.atJob), (printing, halted.atJob)] ∧
      state.started.atJob.machine.cancelled = false ∧ halted.atJob.machine.cancelled = true ∧
      ((advance run).after state).machine.output.toList = ["x"] := by
  have hstarts : tickStarts run state =
      [(halting, state.started.atJob), (printing, halted.atJob)] := rfl
  obtain ⟨_, _, _, hfirst, hchain, _⟩ := jobs_start_as_the_one_before_ended state
  have hnext := hchain run
  rw [hstarts, List.isChain_cons_cons] at hnext
  refine ⟨hstarts, hfirst run _ (by rw [hstarts]; rfl), hnext.1.trans ?_, by decide +kernel⟩
  decide +kernel

end TickScript
