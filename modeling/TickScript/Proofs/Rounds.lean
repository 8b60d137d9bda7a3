-- The rounds of loops. A loop finds out once what its rounds are. At the head of each round it is
-- stopped if scripts are to stop; otherwise its names are bound and its body is evaluated, which
-- decides whether the loop goes on.
import TickScript.Proofs.Origins

namespace TickScript

open Library

/-! ## Heads of rounds -/

/-- A loop that is at the head of a round in the state `s`, or past its last one, comes to the
head of a round in the state `m`: at the heads before, scripts are not to stop, and the rounds
there end well and say to go on. -/
inductive Heads {σ : Type} (round : σ → Value → Run (σ × Bool)) :
    Nat → Rounds → σ → State → State → Prop
  | here {bound : Nat} {rounds : Rounds} (result : σ) (s : State) : (rounds 0).isSome = true →
      Heads round (bound + 1) rounds result s s
  | next {bound : Nat} {rounds : Rounds} {v : Value} {bindings : List (String × Value)}
      {result result' : σ} {s u m : State} :
      rounds 0 = some (v, bindings) → s.machine.cancelled = false →
      (bindAll bindings >>= fun _ => round result v) s = .ok (result', true) u →
      Heads round bound (fun i => rounds (i + 1)) result' u m →
      Heads round (bound + 1) rounds result s m

section Heads

variable {σ : Type} {round : σ → Value → Run (σ × Bool)} {bound : Nat} {rounds : Rounds}
  {result : σ} {s m t : State}

/-- A head of a round where scripts are to stop ends the loop at once. -/
theorem Heads.stops (h : Heads round bound rounds result s m) (hm : m.machine.cancelled = true) :
    circle round bound rounds result s = .error .stopped m := by
  induction h with
  | here result s hround =>
    obtain ⟨first, hfirst⟩ := Option.isSome_iff_exists.mp hround
    simp only [circle, hfirst]
    exact Run.bind_of_error (Run.checkStop_of_cancelled hm)
  | next hfirst hs hround _ ih =>
    simp only [circle, hfirst]
    rw [Run.bind_of_ok (Run.checkStop_of_not_cancelled hs), ← bind_assoc, Run.bind_of_ok hround]
    exact ih hm

theorem Heads.mono {round' : σ → Value → Run (σ × Bool)} (h : Heads round bound rounds result s m)
    (hround : ∀ bindings r v s next u, (bindAll bindings >>= fun _ => round r v) s = .ok next u →
      (bindAll bindings >>= fun _ => round' r v) s = .ok next u) :
    Heads round' bound rounds result s m := by
  induction h with
  | here result s h => exact .here result s h
  | next hfirst hs hu _ ih => exact .next hfirst hs (hround _ _ _ _ _ _ hu) ih

end Heads

/-! ## Heads of the rounds of a loop -/

/-- The loop comes to the head of a round in the state `m` when it begins in `s`. -/
structure Loop.ComesTo (loop : Loop) (kind : Kind) (args : List Lazy) (s m : State) : Prop where
  accepts : loop.native.arity.accepts args.length = true
  heads : ∃ tour t, loop.tour args s = .ok tour t ∧
    Heads (loop.round kind args) (tour.1 + 1) tour.2 loop.start t m

namespace Loop

variable {loop : Loop} {kind : Kind} {args : List Lazy} {s m t : State}

/-- At the head of a round where scripts are to stop the loop is stopped, and nothing happens but
that its names are put back. -/
theorem ComesTo.stops (h : loop.ComesTo kind args s m) (hm : m.machine.cancelled = true)
    (run : Expr → Lazy) :
    ∃ t, (loop.native.apply run kind args >>= fun result => result kind) s = .error .stopped t ∧
      Unwinds m t := by
  obtain ⟨tour, u, htour, hheads⟩ := h.heads
  refine ⟨_, ?_, (Unwinds.refl m).restored loop u.locals⟩
  rw [loop.native_eq run kind h.accepts, Run.bind_of_ok htour]
  exact Run.bind_of_error (Run.restoring_of_error loop.names (hheads.stops hm))

/-- A head that a loop comes to although the operands never end where they are interrupted it
comes to anyway. -/
theorem ComesTo.of_hush {xs : Nat → Lazy} {n : Nat}
    (h : loop.ComesTo kind ((List.range n).map (hush xs)) s m) :
    loop.ComesTo kind ((List.range n).map xs) s m := by
  obtain ⟨haccepts, tour, u, htour, hheads⟩ := h
  have hlength : loop.native.arity.accepts
      ((List.range n).map fun j (ys : Nat → Lazy) => ys j).length = true := by
    simpa using haccepts
  have hweave := Relays.weave (hush xs)
  have hoperand : ∀ j, Threads (Relays (hush xs)) fun ys => ys j := .operand
  have hoperands := Weave.mem_operands hoperand n
  have htours := hweave.tour hoperands hlength
  have hround := fun bindings r v => hweave.bind (hweave.plain (plain_bindAll bindings))
    fun _ => hweave.round hoperands hlength kind r v
  simp only [Weave.map_member] at htours hround
  exact ⟨by simpa using haccepts, tour, u, htours.of_hush htour,
    hheads.mono fun bindings r v _ _ _ hu => (hround bindings r v).of_hush hu⟩

end Loop

end TickScript
