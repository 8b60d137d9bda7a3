-- Scripts that run again and again, and when each of them is due.
import TickScript.Expr

namespace TickScript

/-! ## Jobs -/

/-- A script that is to run every so many ticks. -/
structure Job where
  id : Nat
  script : Script
  interval : Nat
  /-- The tick at which it runs next. -/
  nextTick : Nat
  /-- How often it still runs; without a number it runs for ever. -/
  runsLeft : Option Nat

/-- The job after a run, and whether it goes on. The next run is counted from the tick at
which this one was due, so that a late run does not shift the series. -/
def Job.tick (j : Job) : Job × Bool :=
  match j.runsLeft with
  | none => ({ j with nextTick := j.nextTick + j.interval }, true)
  | some n =>
    if n - 1 = 0 then ({ j with runsLeft := some (n - 1) }, false)
    else ({ j with runsLeft := some (n - 1), nextTick := j.nextTick + j.interval }, true)

/-- The job is due at a tick. -/
def Job.isDue (j : Job) (tick : Nat) : Bool := j.nextTick ≤ tick

/-! ## Schedules -/

/-- The jobs that are stored, and the number that the next one gets. -/
structure Schedule where
  jobs : List Job
  nextId : Nat

namespace Schedule

/-- No jobs. -/
def empty : Schedule := ⟨[], 1⟩

/-- Stores a job that runs every `interval` ticks, at least one, from tick `now` on. -/
def add (s : Schedule) (script : Script) (interval : Nat) (count : Option Nat) (now : Nat) :
    Nat × Schedule :=
  let interval := max interval 1
  let job : Job :=
    { id := s.nextId, script, interval, nextTick := now + interval, runsLeft := count }
  (s.nextId, { jobs := s.jobs ++ [job], nextId := s.nextId + 1 })

/-- Removes the job with a number, and says whether there was one. -/
def remove (s : Schedule) (id : Nat) : Bool × Schedule :=
  (s.jobs.any (·.id = id), { s with jobs := s.jobs.filter (·.id ≠ id) })

/-- Removes all jobs. -/
def clear (s : Schedule) : Schedule := { s with jobs := [] }

/-- Takes out the jobs that are due at a tick. -/
def takeDue (s : Schedule) (tick : Nat) : List Job × Schedule :=
  (s.jobs.filter (·.isDue tick), { s with jobs := s.jobs.filter (!·.isDue tick) })

/-- Puts back a job that has run. -/
def putBack (s : Schedule) (job : Job) : Schedule := { s with jobs := s.jobs ++ [job] }

/-- Counts a run of each of some jobs and puts back those that go on. -/
def finish (s : Schedule) : List Job → List (Job × Bool) × Schedule
  | [] => ([], s)
  | j :: rest =>
    let (job, again) := j.tick
    let s := if again then s.putBack job else s
    let (ran, s) := s.finish rest
    ((job, again) :: ran, s)

/-- Runs the jobs that are due at a tick: each as it is after its run, and whether it goes
on. -/
def tick (s : Schedule) (now : Nat) : List (Job × Bool) × Schedule :=
  let (due, s) := s.takeDue now
  s.finish due

/-- The jobs in the order of their numbers. -/
def byId (s : Schedule) : List Job := s.jobs.mergeSort fun a b => a.id ≤ b.id

end Schedule

/-- The tick counter, and the jobs that it drives. -/
structure Clock where
  now : Nat
  /-- Jobs are being run: a tick meanwhile is only counted. -/
  running : Bool
  schedule : Schedule

/-- A clock at its start. -/
def Clock.start : Clock := ⟨0, false, .empty⟩

end TickScript
