-- How deep calls are. The machine counts the procedure bodies that are under evaluation. Every
-- computation leaves the count as it was, however it ends, and bodies are evaluated one level
-- deeper than the call, up to the limit and no further: how trees beyond it would be evaluated
-- makes no difference. A call at the limit is refused, and no other is.
import TickScript.Proofs.Origins
import TickScript.Proofs.Ticks

namespace TickScript

/-! ## Levels -/

/-- So many bodies are under evaluation in the state, and jobs are being run or not. -/
structure State.IsAt (s : State) (depth : Nat) (running : Bool) : Prop where
  depth : s.machine.depth = depth
  running : s.machine.clock.running = running

/-- The outcome leaves as many bodies under evaluation, and jobs being run or not. Only where it
never comes to an end jobs may still be run. -/
def StaysAt {α : Type} (depth : Nat) (running : Bool) : EStateM.Result Interrupt State α → Prop
  | .ok _ t => t.IsAt depth running
  | .error i t => t.machine.depth = depth ∧ (i ≠ .endless → t.machine.clock.running = running)

/-- A step of a host after which everything is at the same level as before. -/
def Balanced (α : Type) (x : Run α) : Prop :=
  ∀ s, StaysAt s.machine.depth s.machine.clock.running (x s)

/-- Both computations have the same outcome wherever they begin at this level, and leave it as it
is. -/
def AgreeAt {α : Type} (depth : Nat) (running : Bool) (x y : Run α) : Prop :=
  ∀ s, s.IsAt depth running → x s = y s ∧ StaysAt depth running (x s)

section Agreement

variable {depth : Nat} {running : Bool} {α β : Type}

theorem StaysAt.map {i j : Interrupt} {t : State} (hij : j ≠ .endless → i ≠ .endless)
    (h : StaysAt depth running (.error i t : EStateM.Result Interrupt State α)) :
    StaysAt depth running (.error j t : EStateM.Result Interrupt State β) :=
  ⟨h.1, fun hj => h.2 (hij hj)⟩

namespace AgreeAt

variable {x y : Run α}

theorem of_ok {x : Run α} {f : State → α} {g : State → State}
    (hx : ∀ s, x s = .ok (f s) (g s))
    (hg : ∀ s, (g s).machine.depth = s.machine.depth ∧
      (g s).machine.clock.running = s.machine.clock.running) : AgreeAt depth running x x := by
  intro s hs
  refine ⟨rfl, ?_⟩
  rw [hx]
  exact ⟨(hg s).1.trans hs.depth, (hg s).2.trans hs.running⟩

theorem fails (i : Interrupt) : AgreeAt depth running (throw i : Run α) (throw i) :=
  fun _ hs => ⟨rfl, hs.depth, fun _ => hs.running⟩

theorem bind {f g : α → Run β} (hx : AgreeAt depth running x y)
    (hf : ∀ a, AgreeAt depth running (f a) (g a)) : AgreeAt depth running (x >>= f) (y >>= g) := by
  intro s hs
  obtain ⟨heq, hstays⟩ := hx s hs
  rcases hr : x s with ⟨a, t⟩ | ⟨i, t⟩
  · rw [hr] at hstays heq
    rw [Run.bind_of_ok hr, Run.bind_of_ok heq.symm]
    exact hf a t hstays
  · rw [hr] at hstays heq
    rw [Run.bind_of_error hr, Run.bind_of_error heq.symm]
    exact ⟨rfl, hstays⟩

theorem plain (h : Plain x) : AgreeAt depth running x x := by
  induction h with
  | look f => exact of_ok (fun _ => rfl) fun _ => ⟨rfl, rfl⟩
  | act e =>
    refine of_ok (fun _ => rfl) fun s => ?_
    obtain ⟨_, _, _, _, _, _, _, h⟩ := e.apply_eq s
    rw [h]
    exact ⟨rfl, rfl⟩
  | fail cause => exact fails _
  | endless => exact fails _
  | bind _ _ ihx ihf => exact bind ihx ihf

theorem restoring (names : List String) (h : AgreeAt depth running x y) :
    AgreeAt depth running (Run.restoring names x) (Run.restoring names y) := by
  intro s hs
  obtain ⟨heq, hstays⟩ := h s hs
  refine ⟨by simp only [Run.restoring, heq], ?_⟩
  rcases hr : x s with ⟨a, t⟩ | ⟨i, t⟩
  · rw [hr] at hstays
    rw [Run.restoring_of_ok names hr]
    exact ⟨hstays.depth, hstays.running⟩
  · rw [hr] at hstays
    rw [Run.restoring_of_error names hr]
    exact hstays

/-- What computations agree on at a level they agree on as a whole if their parts do. -/
theorem weave : CallWeave fun α (x : Bool → Run α) => AgreeAt depth running (x true) (x false) where
  plain := plain
  bind := bind
  looping loop := restoring loop.names
  find _ := of_ok (fun _ => rfl) fun _ => ⟨rfl, rfl⟩
  store _ := of_ok (fun _ => rfl) fun _ => ⟨rfl, rfl⟩

theorem located (site : Site) (h : AgreeAt depth running x y) :
    AgreeAt depth running (Run.located site x) (Run.located site y) := by
  intro s hs
  obtain ⟨heq, hstays⟩ := h s hs
  refine ⟨by simp only [Run.located, heq], ?_⟩
  rcases hr : x s with ⟨a, t⟩ | ⟨i, t⟩
  · rw [hr] at hstays
    rw [Run.located_of_ok site hr]
    exact hstays
  · rw [hr] at hstays
    rw [Run.located_of_error site hr]
    exact hstays.map fun hi hendless => hi (by rw [hendless]; rfl)

theorem check : AgreeAt depth running Run.checkStop Run.checkStop := by
  intro s hs
  refine ⟨rfl, ?_⟩
  cases hcancelled : s.machine.cancelled with
  | true =>
    rw [Run.checkStop_of_cancelled hcancelled]
    exact ⟨hs.depth, fun _ => hs.running⟩
  | false =>
    rw [Run.checkStop_of_not_cancelled hcancelled]
    exact hs

/-- At the limit a body is not evaluated, and below it one level deeper. -/
theorem enter {x y : Run Value} (h : depth < maxCallDepth → AgreeAt (depth + 1) running x y)
    (procedure : String) (scope : Registry Value) :
    AgreeAt depth running (TickScript.enter procedure scope x)
      (TickScript.enter procedure scope y) := by
  intro s hs
  by_cases hdepth : s.machine.depth < maxCallDepth
  · have hinner : (Run.inner scope s).IsAt (depth + 1) running :=
      ⟨congrArg (· + 1) hs.depth, hs.running⟩
    obtain ⟨heq, hstays⟩ := h (hs.depth ▸ hdepth) _ hinner
    rcases hr : x (Run.inner scope s) with ⟨v, t⟩ | ⟨i, t⟩
    · rw [hr] at heq hstays
      rw [Run.enter_of_ok procedure hdepth hr, Run.enter_of_ok procedure hdepth heq.symm]
      refine ⟨rfl, ?_, hstays.running⟩
      simp [Run.outer, hstays.depth]
    · rw [hr] at heq hstays
      rw [Run.enter_of_error procedure hdepth hr, Run.enter_of_error procedure hdepth heq.symm]
      refine ⟨rfl, ?_, fun hi => hstays.2 fun hendless => hi (by rw [hendless]; rfl)⟩
      simp [Run.outer, hstays.1]
  · have hdeep := Nat.le_of_not_lt hdepth
    rw [Run.enter_of_deep procedure hdeep, Run.enter_of_deep procedure hdeep]
    exact ⟨rfl, hs.depth, fun _ => hs.running⟩

end AgreeAt

/-! ## Jobs -/

section Jobs

variable {run run' : Expr → Lazy} (hrun : ∀ e k, AgreeAt depth true (run e k) (run' e k))

include hrun

theorem AgreeAt.runJob (job : Job) :
    AgreeAt depth true (TickScript.runJob run job) (TickScript.runJob run' job) := by
  intro s hs
  have hjob : s.atJob.IsAt depth true := ⟨hs.depth, hs.running⟩
  obtain ⟨heq, hstays⟩ := hrun job.script.root .value s.atJob hjob
  rw [runJob_eq, runJob_eq, ← heq]
  refine ⟨rfl, ?_⟩
  have hreporting : ∀ (t : State) f, (t.reporting f).machine.depth = t.machine.depth ∧
      (t.reporting f).machine.clock.running = t.machine.clock.running := by
    intro t f
    obtain ⟨_, _, hreport, _⟩ := t.machine.report_eq f
    rw [State.reporting, hreport]
    exact ⟨rfl, rfl⟩
  have hsettling : ∀ (t : State) failed, t.IsAt depth true →
      StaysAt depth true (.ok () (t.settling job failed) :
        EStateM.Result Interrupt State Unit) := by
    intro t failed ht
    obtain ⟨_, _, hsettled⟩ := t.settling_eq job failed
    rw [hsettled]
    exact ⟨ht.depth, ht.running⟩
  rcases hr : run job.script.root .value s.atJob with ⟨v, t⟩ | ⟨f | _ | _, t⟩ <;>
    rw [hr] at hstays
  · exact hsettling _ _ ⟨hstays.depth, hstays.running⟩
  · obtain ⟨hdepth, hrunning⟩ := hreporting t f
    exact hsettling _ _ ⟨hdepth.trans hstays.1, hrunning.trans (hstays.2 nofun)⟩
  · exact hsettling _ _ ⟨hstays.1, hstays.2 nofun⟩
  · exact ⟨hstays.1, fun h => absurd rfl h⟩

theorem AgreeAt.runJobs (jobs : List Job) :
    AgreeAt depth true (TickScript.runJobs run jobs) (TickScript.runJobs run' jobs) := by
  induction jobs with
  | nil => exact .plain (.pure ())
  | cons job rest ih => exact .bind (.runJob hrun job) fun _ => ih

end Jobs

section Yields

variable {run run' : Expr → Lazy}
  (hjobs : running = false → ∀ e k, AgreeAt depth true (run e k) (run' e k))

include hjobs

theorem AgreeAt.advance :
    AgreeAt depth running (TickScript.advance run) (TickScript.advance run') := by
  intro s hs
  rcases s.busy_or_free with hbusy | ⟨hrunning, hcancelled⟩
  · rw [advance_of_busy hbusy, advance_of_busy hbusy]
    exact ⟨rfl, hs.depth, hs.running⟩
  · have hidle : running = false := hs.running.symm.trans hrunning
    have hstarted : s.started.IsAt depth true := ⟨hs.depth, rfl⟩
    obtain ⟨heq, hstays⟩ := AgreeAt.runJobs (hjobs hidle) s.dueJobs s.started hstarted
    rcases hr : TickScript.runJobs run s.dueJobs s.started with ⟨_, t⟩ | ⟨i, t⟩
    · rw [hr] at heq hstays
      rw [advance_of_ok hrunning hcancelled hr, advance_of_ok hrunning hcancelled heq.symm]
      exact ⟨rfl, hstays.depth, hidle.symm⟩
    · rw [hr] at heq hstays
      rw [advance_of_error hrunning hcancelled hr, advance_of_error hrunning hcancelled heq.symm]
      exact ⟨rfl, hstays.1, fun hi => absurd (runJobs_error hr) hi⟩

theorem AgreeAt.yield (budget : Option Nat) :
    AgreeAt depth running (TickScript.yield run budget) (TickScript.yield run' budget) := by
  rw [yield_eq_handOver, yield_eq_handOver]
  refine .bind (fun s hs => ?_) fun _ => .check
  cases hhook : s.machine.hook with
  | absent | recorder =>
    simp only [handOver, hhook, true_and]
    unfold Machine.waited
    split
    · exact ⟨hs.depth, hs.running⟩
    · exact ⟨hs.depth, hs.running⟩
  | clock =>
    obtain ⟨heq, hstays⟩ := AgreeAt.advance hjobs s hs
    simp only [handOver, hhook, ← heq, true_and]
    rcases hr : TickScript.advance run s with ⟨_, t⟩ | ⟨i, t⟩
    · rw [hr] at hstays
      exact ⟨hstays.depth, hstays.running⟩
    · rw [hr] at hstays
      exact hstays

end Yields

end Agreement

/-! ## Evaluators -/

/-- The evaluator gives every tree its meaning, from those of its parts and of bodies, wherever no
more bodies are under evaluation than the limit allows. Beyond it may do anything. -/
def MeansUpToLimit (lang : Language) (ev : Expr → Lazy) : Prop :=
  ∀ e k s, s.machine.depth ≤ maxCallDepth →
    ev e k s = e.node lang ev k (fun j => e.parts[j]?.elim (.of .null) ev) s

section Evaluators

variable {lang : Language} (hlang : lang.IsOrdinary Balanced) {depth : Nat} {running : Bool}

include hlang

section Bodies

variable {run run' : Expr → Lazy}
  (hbodies : depth < maxCallDepth → ∀ e k, AgreeAt (depth + 1) running (run e k) (run' e k))

omit hlang in
include hbodies in
theorem agreeAt_enter (procedure : String) (scope : Registry Value) (e : Expr) (k : Kind) :
    AgreeAt depth running (enter procedure scope (run e k)) (enter procedure scope (run' e k)) :=
  .enter (fun h => hbodies h e k) procedure scope

variable (hjobs : running = false → ∀ e k, AgreeAt depth true (run e k) (run' e k))

include hbodies hjobs

theorem agreeAt_threads :
    lang.Threads (fun _ x => AgreeAt depth running (x true) (x false))
      (fun i => if i then run else run') :=
  AgreeAt.weave.threads hlang
    (fun hx s hs => ⟨rfl, by simpa only [hs.depth, hs.running] using hx s⟩) .check
    (agreeAt_enter hbodies) (AgreeAt.yield hjobs)

/-- Nodes agree if their operands do, bodies one level deeper, below the limit, and jobs, where
none are being run, on the same level. -/
theorem agreeAt_node (e : Expr) (k : Kind) {xs ys : Nat → Lazy}
    (hxs : ∀ j k, AgreeAt depth running (xs j k) (ys j k)) :
    AgreeAt depth running (e.node lang run k xs) (e.node lang run' k ys) := by
  let operands : Bool → Nat → Lazy := fun i => if i then xs else ys
  have hoperands : ∀ j, Threads (fun _ x => AgreeAt depth running (x true) (x false))
      fun i => operands i j := hxs
  exact AgreeAt.weave.node (agreeAt_enter hbodies) (agreeAt_threads hlang hbodies hjobs)
    (fun site h => .located site h) e k hoperands

theorem agreeAt_denote (e : Expr) (k : Kind) :
    AgreeAt depth running (e.denote lang run k) (e.denote lang run' k) :=
  AgreeAt.weave.denote (agreeAt_enter hbodies) (agreeAt_threads hlang hbodies hjobs)
    (fun site h => .located site h) e k

end Bodies

/-- However a tree ends, it leaves the level as it is. -/
theorem agreeAt_evaluateWithin (levels depth : Nat) (running : Bool) (e : Expr) (k : Kind) :
    AgreeAt depth running (evaluateWithin lang levels e k) (evaluateWithin lang levels e k) := by
  induction levels generalizing depth running e k with
  | zero => exact .fails _
  | succ levels ih =>
    exact agreeAt_denote hlang (fun _ e k => ih _ _ e k) (fun _ e k => ih _ _ e k) e k

/-- As many bodies and jobs nest at most from here on. -/
def room (depth : Nat) (running : Bool) : Nat := maxCallDepth - depth + (!running).toNat

omit hlang in
theorem room_body (h : depth < maxCallDepth) : room (depth + 1) running < room depth running := by
  unfold room
  omega

omit hlang in
theorem room_job (h : running = false) : room depth true < room depth running := by
  subst h
  simp [room]

omit hlang in
theorem room_lt (depth : Nat) (running : Bool) : room depth running < maxCallDepth + 2 := by
  have hone := (!running).toNat_le
  unfold room
  omega

/-- With room for all that can nest, the number of levels makes no difference. -/
theorem agreeAt_levels {levels levels' : Nat} (h : room depth running < levels)
    (h' : room depth running < levels') (e : Expr) (k : Kind) :
    AgreeAt depth running (evaluateWithin lang levels e k)
      (evaluateWithin lang levels' e k) := by
  induction levels generalizing levels' depth running e k with
  | zero => omega
  | succ levels ih =>
    obtain ⟨levels', rfl⟩ : ∃ n, levels' = n + 1 := ⟨levels' - 1, by omega⟩
    refine agreeAt_denote hlang (fun hdepth e k => ?_) (fun hrunning e k => ?_) e k
    · have hroom := @room_body _ running hdepth
      exact ih (by omega) (by omega) e k
    · have hroom := @room_job depth _ hrunning
      exact ih (by omega) (by omega) e k

/-- Up to the limit an evaluator that gives trees their meaning is the evaluator of the
language. -/
theorem MeansUpToLimit.agreeAt {ev : Expr → Lazy} (hev : MeansUpToLimit lang ev) {levels : Nat}
    (hdepth : depth ≤ maxCallDepth) (h : room depth running < levels) (e : Expr) (k : Kind) :
    AgreeAt depth running (ev e k) (evaluateWithin lang levels e k) := by
  induction levels generalizing depth running e k with
  | zero => omega
  | succ levels ih =>
    have hbodies : depth < maxCallDepth → ∀ e k,
        AgreeAt (depth + 1) running (ev e k) (evaluateWithin lang levels e k) := by
      intro hlt
      have hroom := @room_body _ running hlt
      exact ih hlt (by omega)
    have hjobs : running = false → ∀ e k,
        AgreeAt depth true (ev e k) (evaluateWithin lang levels e k) := by
      intro hrunning
      have hroom := @room_job depth _ hrunning
      exact ih hdepth (by omega)
    induction e using Expr.induction_on_parts generalizing k with
    | node e ihparts =>
      intro s hs
      rw [hev e k s (hs.depth ▸ hdepth), evaluateWithin, Expr.denote_eq_node]
      refine agreeAt_node hlang hbodies hjobs e k (fun j k => ?_) s hs
      unfold Expr.operands
      cases hpart : e.parts[j]? with
      | none => exact .plain (.pure _)
      | some part => exact ihparts part (List.mem_of_getElem? hpart) k

/-- What an evaluator does beyond the limit makes no difference up to it. -/
theorem meansUpToLimit_of_eq {ev : Expr → Lazy}
    (hev : ∀ e k s, s.machine.depth ≤ maxCallDepth → ev e k s = evaluate lang e k s) :
    MeansUpToLimit lang ev := by
  have hwithin : ∀ {depth running levels}, depth ≤ maxCallDepth → room depth running < levels →
      ∀ e k, AgreeAt depth running (evaluateWithin lang levels e k) (ev e k) := by
    intro depth running levels hdepth hroom e k s hs
    obtain ⟨heq, hstays⟩ := agreeAt_levels hlang hroom (room_lt depth running) e k s hs
    exact ⟨heq.trans (hev e k s (hs.depth ▸ hdepth)).symm, hstays⟩
  intro e k s hdepth
  have hroom := room_lt s.machine.depth s.machine.clock.running
  have hbodies : s.machine.depth < maxCallDepth → ∀ e k,
      AgreeAt (s.machine.depth + 1) s.machine.clock.running (evaluateBody lang e k) (ev e k) := by
    intro hlt
    have hdeeper := @room_body _ s.machine.clock.running hlt
    exact hwithin hlt (by omega)
  have hjobs : s.machine.clock.running = false → ∀ e k,
      AgreeAt s.machine.depth true (evaluateBody lang e k) (ev e k) := by
    intro hrunning
    have hdeeper := @room_job s.machine.depth _ hrunning
    exact hwithin hdepth (by omega)
  have hparts : ∀ j k, AgreeAt s.machine.depth s.machine.clock.running
      (e.operands lang (evaluateBody lang) j k)
      ((e.parts[j]?.elim (.of .null) ev : Lazy) k) := by
    intro j k
    unfold Expr.operands
    cases e.parts[j]? with
    | none => exact .plain (.pure _)
    | some part => exact hwithin hdepth hroom part k
  calc ev e k s = e.denote lang (evaluateBody lang) k s := hev e k s hdepth
    _ = e.node lang (evaluateBody lang) k (e.operands lang (evaluateBody lang)) s := by
      rw [Expr.denote_eq_node]
    _ = _ := (agreeAt_node hlang hbodies hjobs e k hparts s ⟨rfl, rfl⟩).1

end Evaluators

/-! ## Calls -/

/-- A call that comes to the body of a procedure is refused at the limit, whatever the body is, and
goes as the body below it. -/
theorem Enters.limited {lang : Language} {run : Expr → Lazy} {s t : State} {e : Expr}
    {p : Procedure} {scope : Registry Value} (h : Enters lang run s e p scope t) (kind : Kind) :
    ∃ site, e.site? = some site ∧
      (maxCallDepth ≤ t.machine.depth → e.denote lang run kind s =
        .error (.fault ⟨.callTooDeep, some site, some p.name⟩) t) ∧
      (t.machine.depth < maxCallDepth →
        (∀ v w, run p.body kind (Run.inner scope t) = .ok v w →
          e.denote lang run kind s = .ok v (Run.outer t w)) ∧
        ∀ i w, run p.body kind (Run.inner scope t) = .error i w →
          e.denote lang run kind s = .error ((i.leave p.name).locate site) (Run.outer t w)) := by
  obtain ⟨site, hsite, heq⟩ := h.denote_eq kind
  refine ⟨site, hsite, fun hdeep => ?_, fun hlt => ⟨fun v w hbody => ?_, fun i w hbody => ?_⟩⟩
  · exact heq.trans (Run.located_of_error site (Run.enter_of_deep p.name hdeep))
  · exact heq.trans (Run.located_of_ok site (Run.enter_of_ok p.name hlt hbody))
  · exact heq.trans (Run.located_of_error site (Run.enter_of_error p.name hlt hbody))

section Prepared

variable {lang : Language} (hlang : lang.IsOrdinary Balanced) {levels : Nat}

include hlang

theorem depth_of_prepareCall {name : String} {args : List Expr} {s t : State}
    {found : Procedure × Registry Value}
    (h : prepareCall name (Expr.denoteAll lang (evaluateWithin lang levels) args) s =
      .ok found t) : t.machine.depth = s.machine.depth := by
  let operands : List (Bool → Lazy) :=
    args.map fun e _ => e.denote lang (evaluateWithin lang levels)
  have hoperands : ∀ x ∈ operands, Threads (fun _ x => AgreeAt s.machine.depth
      s.machine.clock.running (x true) (x false)) x := by
    intro x hx
    obtain ⟨e, _, rfl⟩ := List.mem_map.mp hx
    exact agreeAt_evaluateWithin hlang (levels + 1) _ _ e
  have hall : operands.map (· true) = Expr.denoteAll lang (evaluateWithin lang levels) args := by
    rw [Expr.denoteAll_eq_map, List.map_map]
    rfl
  have hstays := (AgreeAt.weave.prepareCall name hoperands s ⟨rfl, rfl⟩).2
  simp only [hall, h] at hstays
  exact hstays.depth

/-- While the arguments of a call are evaluated, the level stays the same. -/
theorem Enters.depth_eq {s t : State} {e : Expr} {p : Procedure} {scope : Registry Value}
    (h : Enters lang (evaluateWithin lang levels) s e p scope t) :
    t.machine.depth = s.machine.depth := by
  cases h with
  | named site _ hcall => exact depth_of_prepareCall hlang hcall
  | @byValue name first args site v u _ _ _ _ hfirst hcall =>
    have hstays :=
      (agreeAt_evaluateWithin hlang (levels + 1) _ _ first .value s ⟨rfl, rfl⟩).2
    simp only [evaluateWithin, hfirst] at hstays
    exact (depth_of_prepareCall hlang hcall).trans hstays.depth

end Prepared

/-! ## Scripts -/

theorem depth_after_script {lang : Language} (hlang : lang.IsOrdinary Balanced) (script : Script)
    (kind : Kind) (s : State) :
    ((script.evaluate (evaluate lang) kind).after s).machine.depth = s.machine.depth := by
  have hstays := (agreeAt_evaluateWithin hlang (maxCallDepth + 2) _ _ script.root kind s
    ⟨rfl, rfl⟩).2
  obtain ⟨_, _, hreported⟩ := Run.after_reported (evaluate lang script.root kind) s
  have hafter : ((evaluate lang script.root kind).after s).machine.depth = s.machine.depth := by
    unfold Run.after evaluate
    rcases hr : evaluateWithin lang (maxCallDepth + 2) script.root kind s with ⟨v, t⟩ | ⟨i, t⟩
    · rw [hr] at hstays
      exact hstays.depth
    · rw [hr] at hstays
      exact hstays.1
  unfold Script.evaluate
  rw [hreported]
  exact hafter

/-- However a script ends, as many bodies are under evaluation as when it began. Up to the limit
the evaluator of scripts, in whose language a host has its part, is the one that gives trees their
meaning, whatever it does beyond: it never comes there. A call of a procedure, by its name or by a
value, all of whose arguments have values, is made with the count of the start of the call. At the
limit it is refused, whatever the body and its evaluator are, and below it goes as the body does,
which is evaluated one level deeper. -/
theorem the_depth_counts_the_bodies {rs : List Registration}
    (hrs : ∀ r ∈ rs, r.IsOrdinary Balanced) :
    (∀ (script : Script) (kind : Kind) (s : State),
      ((script.evaluate (evaluate (.extended rs)) kind).after s).machine.depth =
        s.machine.depth) ∧
    (∀ ev : Expr → Lazy, MeansUpToLimit (.extended rs) ev ↔
      ∀ e kind s, s.machine.depth ≤ maxCallDepth →
        ev e kind s = evaluate (.extended rs) e kind s) ∧
    (maxCallDepth = 128 ∧ Cause.callTooDeep.message = "maximum call depth of 128 exceeded") ∧
    (∀ (s t : State) (e : Expr) (p : Procedure) (scope : Registry Value),
      Enters (.extended rs) (evaluateBody (.extended rs)) s e p scope t →
        t.machine.depth = s.machine.depth) ∧
    ∀ (run : Expr → Lazy) (s t : State) (e : Expr) (p : Procedure) (scope : Registry Value)
      (kind : Kind), Enters (.extended rs) run s e p scope t →
      ∃ site, e.site? = some site ∧
        (maxCallDepth ≤ t.machine.depth → e.denote (.extended rs) run kind s =
          .error (.fault ⟨.callTooDeep, some site, some p.name⟩) t) ∧
        (t.machine.depth < maxCallDepth →
          (Run.inner scope t).machine.depth = t.machine.depth + 1 ∧
          (∀ v w, run p.body kind (Run.inner scope t) = .ok v w →
            e.denote (.extended rs) run kind s = .ok v (Run.outer t w)) ∧
          ∀ i w, run p.body kind (Run.inner scope t) = .error i w →
            e.denote (.extended rs) run kind s =
              .error ((i.leave p.name).locate site) (Run.outer t w)) := by
  have hlang : (Language.extended rs).IsOrdinary Balanced := Language.ordinary_extended hrs
  refine ⟨depth_after_script hlang, fun ev => ⟨fun hev e kind s hs => ?_,
    meansUpToLimit_of_eq hlang⟩, ⟨rfl, by decide⟩, fun s t e p scope h => h.depth_eq hlang,
    fun run s t e p scope kind h => ?_⟩
  · exact (hev.agreeAt hlang hs (room_lt _ s.machine.clock.running) e kind s ⟨rfl, rfl⟩).1
  · obtain ⟨site, hsite, hdeep, hbody⟩ := h.limited kind
    exact ⟨site, hsite, hdeep, fun hlt => ⟨rfl, hbody hlt⟩⟩

namespace SeedingHost

/-- A step of a host: random numbers begin anew. -/
def reseed : Run Value := fun s => .ok .null { s with machine := { s.machine with random := 7 } }

def registrations : List Registration :=
  [.function "reseed" (.eager (.exactly 0) fun _ => reseed)]

def source : Source := ⟨"again()", none⟩

def site (name : String) : Site := ⟨⟨.call, name, .start⟩, source⟩

/-- A procedure that calls itself for ever. -/
def again : Procedure :=
  ⟨"again", [], .sequence [.call "reseed" [] (site "reseed"), .call "again" [] (site "again")],
    site "again"⟩

/-- A state with so many bodies under evaluation. -/
def state (depth : Nat) : State where
  locals := .empty
  machine := { procedures := .ofList [("again", again)], depth }

def script : Script := ⟨.call "again" [] (site "again"), source⟩

end SeedingHost

open SeedingHost in
/-- With one level left an endless recursion is entered once and then refused, whatever the body
would do; afterwards the level is there again. -/
theorem the_last_level_is_given_back :
    (∀ r ∈ registrations, r.IsOrdinary Balanced) ∧
      (∃ t, script.evaluate (evaluate (.extended registrations)) .value (state 127) =
        .error (.fault ⟨.callTooDeep, some (site "again"), some "again"⟩) t ∧
          t.machine.depth = 127) ∧
      ∀ run, script.root.denote (.extended registrations) run .value (state 128) =
        .error (.fault ⟨.callTooDeep, some (site "again"), some "again"⟩) (state 128) := by
  have hreseed : Balanced Value reseed := fun _ => ⟨rfl, rfl⟩
  have hrs : ∀ r ∈ registrations, r.IsOrdinary Balanced := by
    intro r hr
    rw [List.mem_singleton.mp hr]
    exact Native.ordinary_step _ fun _ => hreseed
  obtain ⟨hdepth, _, _, _, hcalls⟩ := the_depth_counts_the_bodies hrs
  have hfault : script.evaluate (evaluate (.extended registrations)) .value (state 127) =
      .error (.fault ⟨.callTooDeep, some (site "again"), some "again"⟩)
        ((script.evaluate (evaluate (.extended registrations)) .value).after (state 127)) := by
    rfl
  refine ⟨hrs, ⟨_, hfault, hdepth script .value (state 127)⟩, fun run => ?_⟩
  have henters : Enters (.extended registrations) run (state 128) script.root again .empty
      (state 128) := .named (site "again") rfl rfl
  obtain ⟨_, hsite, hdeep, _⟩ := hcalls run _ _ _ _ _ .value henters
  cases hsite
  exact hdeep (Nat.le_refl 128)

end TickScript
