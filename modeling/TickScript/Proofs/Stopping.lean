-- Stopping a script. It is stopped at a check, which it makes at the head of each round of a loop
-- and where it hands over control, and from there on nothing happens but that the loops around
-- the check put their names back.
import TickScript.Proofs.Rounds
import TickScript.Proofs.Ticks

namespace TickScript

variable {levels : Nat} {e : Expr} {kind : Kind} {s t : State}

/-! ## What every step keeps -/

/-- From `s` to `t` the hook stays, a request to stop stays, and as many procedures are under
evaluation. -/
structure Keeps (s t : State) : Prop where
  hook : t.machine.hook = s.machine.hook
  depth : t.machine.depth = s.machine.depth
  cancelled : s.machine.cancelled = true → t.machine.cancelled = true

namespace Keeps

theorem refl (s : State) : Keeps s s := ⟨rfl, rfl, id⟩

theorem trans {s t u : State} (h : Keeps s t) (h' : Keeps t u) : Keeps s u :=
  ⟨h'.hook.trans h.hook, h'.depth.trans h.depth, fun hs => h'.cancelled (h.cancelled hs)⟩

theorem quiet (h : Keeps s t) (hs : s.machine.hook.Quiet) : t.machine.hook.Quiet := by
  rw [h.hook]
  exact hs

theorem effect (e : Effect) (s : State) : Keeps s (e.apply s) := by
  obtain ⟨_, _, _, _, _, _, _, h⟩ := e.apply_eq s
  rw [h]
  exact ⟨rfl, rfl, id⟩

theorem waited (s : State) (budget : Option Nat) :
    Keeps s { s with machine := s.machine.waited budget } := by
  unfold Machine.waited
  split
  · refine ⟨rfl, rfl, ?_⟩
    intro h
    simp only [h, Bool.true_or]
  · exact refl s

/-- Entering a procedure and leaving it again. -/
theorem around {scope : Registry Value} (h : Keeps (Run.inner scope s) t) :
    Keeps s (Run.outer s t) := by
  refine ⟨h.hook, ?_, h.cancelled⟩
  have hdepth : t.machine.depth = s.machine.depth + 1 := h.depth
  simp only [Run.outer, hdepth, Nat.add_sub_cancel]

theorem kept : Kept Keeps Keeps where
  refl := refl
  trans := trans
  effect := effect
  relocal _ h := ⟨h.hook, h.depth, h.cancelled⟩
  around := around
  waited := waited
  counted _ := ⟨rfl, rfl, id⟩
  owing _ h := ⟨h.hook, h.depth, h.cancelled⟩
  jobsRefl := refl
  jobsTrans := trans
  jobEnds h := ⟨h.hook, h.depth, h.cancelled⟩
  jobFails {_ t} f h := by
    obtain ⟨_, _, hreport, _⟩ := t.machine.report_eq f
    rw [State.reporting, hreport]
    exact ⟨h.hook, h.depth, h.cancelled⟩
  settled {_ t} job failed h := by
    obtain ⟨_, _, hsettled⟩ := t.settling_eq job failed
    rw [hsettled]
    exact ⟨h.hook, h.depth, h.cancelled⟩
  ticked _ h := ⟨h.hook, h.depth, h.cancelled⟩
  unfinished _ h := ⟨h.hook, h.depth, h.cancelled⟩

end Keeps

/-- What holds of every step holds of a whole computation. -/
theorem Scripted.keeps {α : Type} {x : Run α} (h : Scripted x) (s : State) : Keeps s (x.after s) :=
  h.framed Keeps.kept (fun _ _ hown => hown.elim) s

/-! ## Where scripts are stopped -/

/-- The operands of a yield have been evaluated, and they ask for such a wait. -/
inductive Asks : List Lazy → State → Option Nat → State → Prop
  | nothing (s : State) : Asks [] s none s
  | wait {operand : Lazy} {s t : State} {v : Value} {x : Float} :
      operand .value s = .ok v t → v.toNumber "game_tick" = .ok x →
      Asks [operand] s (some (Number.truncNat64 x)) t

theorem Asks.gameTick {args : List Lazy} {budget : Option Nat} (h : Asks args s budget t)
    (run : Expr → Lazy) :
    Library.gameTick run args s =
      (yield run budget >>= fun _ => pure (Lazy.of (.boolean true))) t := by
  cases h with
  | nothing => rfl
  | wait hoperand hnumber =>
    simp only [Library.gameTick]
    rw [Run.bind_of_ok hoperand, hnumber]
    rfl

/-- Operands that ask for a wait although they never end where they are interrupted ask for it
anyway. -/
theorem Asks.of_hush {xs : Nat → Lazy} {n : Nat} {budget : Option Nat}
    (h : Asks ((List.range n).map (hush xs)) s budget t) :
    Asks ((List.range n).map xs) s budget t := by
  match n with
  | 0 =>
    cases h
    exact .nothing s
  | 1 =>
    cases h with
    | wait hoperand hnumber => exact .wait (hush_goOn _ _ _ _ _ _ hoperand) hnumber
  | n + 2 =>
    rw [List.range_succ_eq_map, List.range_succ_eq_map] at h
    cases h

/-- The tree, evaluated in the given state with so many levels, comes to a check when scripts are
to stop. The last state is that of the check, as it looks from the tree: with its own local
variables and not with those of a procedure that it calls, and without the bodies that are under
evaluation on top of its own. -/
inductive Stops : Nat → Expr → Kind → State → State → Prop
  /-- The head of a round of a loop. -/
  | head {levels : Nat} {name : String} {args : List Expr} (site : Site) {loop : Loop}
      {kind : Kind} {s m : State} :
      Language.standard.function? name = some loop.native →
      loop.ComesTo kind (Expr.denoteAll .standard (evaluateWithin .standard levels) args) s m →
      m.machine.cancelled = true → Stops (levels + 1) (.call name args site) kind s m
  /-- A yield, after control has been handed over. -/
  | yielded {levels : Nat} {name : String} {args : List Expr} (site : Site) (kind : Kind)
      {s u m : State} {budget : Option Nat} :
      Language.standard.function? name = some Library.ticking →
      Asks (Expr.denoteAll .standard (evaluateWithin .standard levels) args) s budget u →
      handOver (evaluateWithin .standard levels) budget u = .ok () m →
      m.machine.cancelled = true → Stops (levels + 1) (.call name args site) kind s m
  | operand {levels j : Nat} {e part : Expr} {kind k : Kind} {s u m : State} :
      e.parts[j]? = some part →
      e.PassesOn .standard (evaluateWithin .standard levels) kind s j k u →
      Stops (levels + 1) part k u m → Stops (levels + 1) e kind s m
  | body {levels : Nat} {e : Expr} {kind : Kind} {s u m : State} {p : Procedure}
      {scope : Registry Value} :
      Enters .standard (evaluateWithin .standard levels) s e p scope u →
      u.machine.depth < maxCallDepth → Stops levels p.body kind (Run.inner scope u) m →
      Stops (levels + 1) e kind s (Run.outer u m)

theorem Interrupt.locateAt_eq_stopped (site : Option Site) {i : Interrupt} :
    i.locateAt site = .stopped ↔ i = .stopped := by
  cases site with
  | none => exact Iff.rfl
  | some site => cases i <;> simp [locateAt, locate]

/-- A check when scripts are to stop ends the whole evaluation, and nothing follows but that loops
put their names back. -/
theorem Stops.stopped {s m : State} (h : Stops levels e kind s m) :
    m.machine.cancelled = true ∧
      ∃ t, evaluateWithin .standard levels e kind s = .error .stopped t ∧ Unwinds m t := by
  induction h with
  | @head levels name args site loop kind s m hname hcomes hm =>
    obtain ⟨t, hloop, ht⟩ := hcomes.stops hm (evaluateWithin .standard levels)
    have hcall : applyCall .standard (evaluateWithin .standard levels) name kind
        (Expr.denoteAll .standard (evaluateWithin .standard levels) args) s =
          .error .stopped t := by
      simp only [applyCall, hname]
      exact hloop
    refine ⟨hm, t, ?_, ht⟩
    simp only [evaluateWithin, Expr.denote]
    exact Run.located_of_error site hcall
  | @yielded levels name args site kind s u m budget hname hasks hover hm =>
    have hyield : yield (evaluateWithin .standard levels) budget u = .error .stopped m := by
      rw [yield_eq_handOver, Run.bind_of_ok hover]
      exact Run.checkStop_of_cancelled hm
    have htick := hasks.gameTick (evaluateWithin .standard levels)
    rw [Run.bind_of_error hyield] at htick
    have hcall : applyCall .standard (evaluateWithin .standard levels) name kind
        (Expr.denoteAll .standard (evaluateWithin .standard levels) args) s =
          .error .stopped m := by
      simp only [applyCall, hname]
      exact Run.bind_of_error htick
    refine ⟨hm, m, ?_, .refl m⟩
    simp only [evaluateWithin, Expr.denote]
    exact Run.located_of_error site hcall
  | @operand levels j e part kind k s u m hpart hpasses _ ih =>
    obtain ⟨hm, w, hw, hunwinds⟩ := ih
    have hoperand : e.operands .standard (evaluateWithin .standard levels) j k u =
        .error .stopped w := by
      simp only [Expr.operands, hpart]
      exact hw
    obtain ⟨t, hnode, ht⟩ := hpasses.denote_eq hoperand
    rw [(Interrupt.locateAt_eq_stopped _).mpr rfl] at hnode
    exact ⟨hm, t, hnode, hunwinds.trans ht⟩
  | @body levels e kind s u m p scope henters hdepth _ ih =>
    obtain ⟨hm, w, hw, hunwinds⟩ := ih
    obtain ⟨site, _, hcall⟩ := henters.denote_eq kind
    have hbody := Run.enter_of_error p.name hdepth hw
    have houter : Run.outer u w = Run.outer u m := by
      simp only [Run.outer, hunwinds.machine_eq]
    refine ⟨hm, Run.outer u m, ?_, .refl _⟩
    simp only [evaluateWithin]
    rw [hcall, Run.located_of_error site hbody, houter]
    rfl

/-- If the computation is not stopped, it goes as it goes when scripts are not to stop. -/
abbrev GoesCalmly {α : Type} (x : Run α) (s : State) : Prop :=
  x.Carries State.calm (· = .stopped) s

theorem Machine.calm_waited (m : Machine) (budget : Option Nat) :
    (m.waited budget).calm = m.calm.waited budget := by
  cases hhook : m.hook with
  | absent | recorder | clock => simp [Machine.waited, Machine.calm, Hook.calm, hhook]

theorem Machine.calm_tell (m : Machine) (snooper : Snooper) (d : Diagnostic) :
    (m.tell snooper d).calm = m.calm.tell snooper d := by
  have hlines : ∀ m : Machine,
      d.lines.foldl Machine.print m.calm = (d.lines.foldl Machine.print m).calm := fun m =>
    List.foldl_hom Machine.calm fun _ _ => rfl
  cases snooper with
  | recorder _ => rfl
  | printer skipsArithmetic =>
    simp only [Machine.tell]
    split
    · rfl
    · exact (hlines _).symm

theorem Machine.calm_report (m : Machine) (f : Fault) : (m.report f).calm = m.calm.report f := by
  have hsnooper : m.calm.snooper = m.snooper := rfl
  unfold Machine.report
  rw [hsnooper]
  cases m.snooper with
  | none => rfl
  | some snooper => exact m.calm_tell snooper f.diagnostic

theorem Hook.quiet_calm {hook : Hook} (h : hook.Quiet) : hook.calm.Quiet := by
  cases hook with
  | absent | recorder => trivial
  | clock => exact h

namespace GoesCalmly

variable {α β : Type} {x : Run α}

theorem check (s : State) : GoesCalmly Run.checkStop s := by
  cases hs : s.machine.cancelled with
  | true => exact .of_error (Run.checkStop_of_cancelled hs) fun hi => absurd rfl hi
  | false => exact .of_ok (Run.checkStop_of_not_cancelled hs) (Run.checkStop_of_not_cancelled rfl)

theorem yielded (run : Expr → Lazy) (budget : Option Nat) (hs : s.machine.hook.Quiet) :
    GoesCalmly (yield run budget) s := by
  have hquiet : s.calm.machine.hook.Quiet := Hook.quiet_calm hs
  have hcalm := yield_of_quiet hquiet run budget
  have hwaited : ({ s.calm with machine := s.calm.machine.waited budget } : State) =
      State.calm { s with machine := s.machine.waited budget } := by
    simp only [State.calm, Machine.calm_waited]
  rw [hwaited] at hcalm
  have hcheck := check { s with machine := s.machine.waited budget }
  constructor
  · intro a t h
    rw [yield_of_quiet hs] at h
    exact hcalm.trans (hcheck.ok h)
  · intro i t h hi
    rw [yield_of_quiet hs] at h
    exact hcalm.trans (hcheck.error h hi)

theorem reported (hx : GoesCalmly x s) : GoesCalmly (Run.reported x) s := by
  rcases hr : x s with ⟨a, t⟩ | ⟨i, t⟩
  · exact .of_ok (Run.reported_of_ok hr) (Run.reported_of_ok (hx.ok hr))
  · cases i with
    | fault f =>
      refine .of_error (Run.reported_of_fault hr) fun _ => ?_
      rw [Run.reported_of_fault (hx.error hr nofun)]
      simp only [State.calm, Machine.calm_report]
    | stopped => exact .of_error (Run.reported_of_stopped hr) fun hi => absurd rfl hi
    | endless =>
      exact .of_error (Run.reported_of_endless hr) fun hi =>
        Run.reported_of_endless (hx.error hr hi)

end GoesCalmly

end TickScript
