-- Scripts that yield to the clock, among them the scripts of jobs that a yield lets run. While
-- jobs are being run, a tick is only counted, so jobs run one at a time; none of them gets lost,
-- and the script that yields sees nothing of what becomes of them.
import TickScript.Proofs.Hosts
import TickScript.Proofs.Stopping

namespace TickScript

section Clocks

variable {run : Expr → Lazy} {s t : State}

/-! ## What becomes of jobs -/

/-- While jobs are being run, ticks are counted at most, and no job is stored or taken. -/
def OnlyCounts (s t : State) : Prop :=
  s.machine.clock.running = true →
    ∃ n, t.machine.clock = { s.machine.clock with now := s.machine.clock.now + n }

namespace OnlyCounts

theorem of_clock (h : t.machine.clock = s.machine.clock) : OnlyCounts s t :=
  fun _ => ⟨0, h⟩

theorem trans {u : State} (h : OnlyCounts s t) (h' : OnlyCounts t u) : OnlyCounts s u := by
  intro hs
  obtain ⟨n, ht⟩ := h hs
  obtain ⟨m, hu⟩ := h' (by rw [ht]; exact hs)
  refine ⟨n + m, ?_⟩
  rw [hu, ht, Nat.add_assoc]

theorem of_idle (h : s.machine.clock.running = false) : OnlyCounts s t := by
  intro hs
  rw [h] at hs
  cases hs

theorem effect (e : Effect) (s : State) : OnlyCounts s (e.apply s) := by
  obtain ⟨_, _, _, _, _, _, _, h⟩ := e.apply_eq s
  rw [h]
  exact of_clock rfl

theorem waited (s : State) (budget : Option Nat) :
    OnlyCounts s { s with machine := s.machine.waited budget } := by
  refine of_clock ?_
  simp only [Machine.waited]
  split <;> rfl

/-- Jobs are run by those only who find none being run, so nothing is asked of them here. -/
theorem kept : Kept OnlyCounts fun _ _ => True where
  refl _ := of_clock rfl
  trans h h' := h.trans h'
  effect := effect
  relocal _ h := h
  around h := h
  waited := waited
  counted _ := fun _ => ⟨1, rfl⟩
  owing _ h := h
  jobsRefl _ := trivial
  jobsTrans _ _ := trivial
  jobEnds _ := trivial
  jobFails _ _ := trivial
  settled _ _ _ := trivial
  ticked h _ := of_idle h
  unfinished h _ := of_idle h

end OnlyCounts

end Clocks

/-! ## Yields -/

namespace YieldingHost

/-- A step of a host. -/
def beat : Run Value := fun s => .ok .null { s with machine := s.machine.print "beat" }

def registrations : List Registration :=
  [.function "beat" (.eager (.exactly 0) fun _ => beat)]

def run : Expr → Lazy := evaluateWithin (.extended registrations) 3

def source : Source := ⟨"game_tick(); beat(); game_tick(); missing", none⟩

def site : Site := ⟨⟨.call, "game_tick", .start⟩, source⟩

def tickCall : Expr := .call "game_tick" [] site

/-- Yields twice and runs for ever. -/
def yielding : Job :=
  ⟨1, ⟨.sequence [tickCall, .call "beat" [] site, tickCall], source⟩, 1, 1, none⟩

/-- Reads a variable that is not there. -/
def failing : Job := ⟨2, ⟨.sequence [tickCall, .var "missing" false site], source⟩, 1, 1, none⟩

/-- Runs for the last time. -/
def last : Job := ⟨3, ⟨tickCall, source⟩, 1, 1, some 1⟩

def state : State where
  locals := .empty
  machine := { hook := .clock, clock := ⟨0, false, ⟨[yielding, failing, last], 4⟩⟩ }

/-- What the yield of a script leaves, but for the wait. -/
def ticked : State := (advance run).after state

end YieldingHost

end TickScript
