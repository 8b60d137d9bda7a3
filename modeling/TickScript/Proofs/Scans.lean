-- Scans: a script is evaluated at the positions of a box one after the other. Told by its visits, a
-- scan looks at each position with local variables of its own, goes on after values and faults of
-- calculation, and ends with anything else.
import Mathlib
import TickScript.Console
import TickScript.Proofs.Boxes
import TickScript.Proofs.Reports

namespace TickScript

variable {visits : List Visit} {v : Visit}

/-! ## Computations at a position -/

namespace Run

variable {α : Type} {x y z : Float} {body : Run α} {s t : State}

/-- A computation at a position has the local variables of that position and no others, and those of
whoever looks are put back. -/
theorem atPosition_of_ok {a : α}
    (h : body ⟨invokerLocals x y z s.machine.fresh,
      { s.machine with fresh := s.machine.fresh + 1 }⟩ = .ok a t) :
    atPosition x y z body s = .ok a ⟨s.locals, t.machine⟩ := by
  unfold atPosition
  rw [bind_of_ok (rfl : freshId s = _)]
  unfold withLocals
  rw [h]

theorem atPosition_of_error {i : Interrupt}
    (h : body ⟨invokerLocals x y z s.machine.fresh,
      { s.machine with fresh := s.machine.fresh + 1 }⟩ = .error i t) :
    atPosition x y z body s = .error i ⟨s.locals, t.machine⟩ := by
  unfold atPosition
  rw [bind_of_ok (rfl : freshId s = _)]
  unfold withLocals
  rw [h]

end Run

namespace Console

/-! ## Visits -/

/-- One evaluation of a scan: where it looks, the machine before, and how it ends. -/
structure Visit where
  position : Position
  before : Machine
  result : EStateM.Result Interrupt State Value

namespace Visit

/-- A visit that looks at a position in a given way. -/
def ofLook (look : Position → Machine → EStateM.Result Interrupt State Value) (p : Position)
    (m : Machine) : Visit :=
  ⟨p, m, look p m⟩

/-- The machine that a visit leaves. -/
def after (v : Visit) : Machine :=
  match v.result with
  | .ok _ t => t.machine
  | .error _ t => t.machine

/-- The scan goes on after it, since it ends with a value or a fault of calculation. -/
def passes (v : Visit) : Bool :=
  match v.result with
  | .ok _ _ => true
  | .error (.fault f) _ => f.kind = .arithmetic
  | .error _ _ => false

/-- It ends with a value that is true. -/
def holds (v : Visit) : Bool :=
  match v.result with
  | .ok value _ => value.truth
  | .error _ _ => false

end Visit

/-- The local variables at a position of a scan, all of them: where it is from the origin, who
looks, and where it is. -/
def scanLocals (origin p : Position) (id : Nat) : Registry Value :=
  .ofList [("x", (Value.number (.ofInt (p.x - origin.x))).bindTo "x"),
    ("y", (Value.number (.ofInt (p.y - origin.y))).bindTo "y"),
    ("z", (Value.number (.ofInt (p.z - origin.z))).bindTo "z"), ("p", ⟨some "p", .host id invoker⟩),
    ("_", (Value.list [.number (.ofInt p.x), .number (.ofInt p.y), .number (.ofInt p.z)]).bindTo
      "_")]

/-- A script at a position of a scan, on a machine. Whoever looks takes an identity there. -/
def look (lang : Language) (script : Script) (origin p : Position) (m : Machine) :
    EStateM.Result Interrupt State Value :=
  script.evaluate (evaluate lang) .value
    ⟨scanLocals origin p m.fresh, { m with fresh := m.fresh + 1 }⟩

/-- The visits to some positions up to the first that does not pass. -/
def tour (look : Position → Machine → EStateM.Result Interrupt State Value) :
    List Position → Machine → List Visit
  | [], _ => []
  | p :: rest, m =>
    let v := Visit.ofLook look p m
    if v.passes then v :: tour look rest v.after else [v]

/-- The machine after some visits that began with `m`. -/
def machineAfter (m : Machine) (visits : List Visit) : Machine :=
  (visits.getLast?.map Visit.after).getD m

section Tours

variable {look : Position → Machine → EStateM.Result Interrupt State Value} {p : Position}
  {m : Machine} {v : Visit} {visits : List Visit}

theorem tour_cons_of_passes (h : (Visit.ofLook look p m).passes = true) (rest : List Position) :
    tour look (p :: rest) m =
      .ofLook look p m :: tour look rest (Visit.ofLook look p m).after := by
  simp only [tour, h, ↓reduceIte]

theorem tour_cons_of_not_passes (h : (Visit.ofLook look p m).passes = false)
    (rest : List Position) : tour look (p :: rest) m = [.ofLook look p m] := by
  simp only [tour, h, Bool.false_eq_true, ↓reduceIte]

/-- What is visited is a beginning of what there is to visit. -/
theorem positions_tour_prefix (look : Position → Machine → EStateM.Result Interrupt State Value)
    (ps : List Position) (m : Machine) :
    (tour look ps m).map Visit.position <+: ps := by
  fun_induction tour look ps m with
  | case1 => exact List.prefix_rfl
  | case2 p rest m v hv ih => exact List.cons_prefix_cons.mpr ⟨rfl, ih⟩
  | case3 p rest m v hv => exact List.cons_prefix_cons.mpr ⟨rfl, List.nil_prefix⟩

/-- If every visit passes, all there is to visit is visited. -/
theorem positions_tour_of_passes {ps : List Position} {m : Machine}
    (h : ∀ v ∈ tour look ps m, v.passes = true) : (tour look ps m).map Visit.position = ps := by
  fun_induction tour look ps m with
  | case1 => rfl
  | case2 p rest m v hv ih =>
    rw [List.map_cons, ih fun w hw => h w (List.mem_cons_of_mem _ hw)]
    rfl
  | case3 p rest m v hv => exact absurd (h v (List.mem_singleton.mpr rfl)) hv

theorem result_of_mem_tour {ps : List Position} {m : Machine} (hv : v ∈ tour look ps m) :
    v.result = look v.position v.before := by
  fun_induction tour look ps m with
  | case1 => cases hv
  | case2 p rest m first hfirst ih =>
    rcases List.mem_cons.mp hv with rfl | hv
    · rfl
    · exact ih hv
  | case3 p rest m first hfirst =>
    rw [List.mem_singleton.mp hv]
    rfl

theorem before_of_mem_head? (ps : List Position) (m : Machine) :
    ∀ v ∈ (tour look ps m).head?, v.before = m := by
  fun_cases tour look ps m with
  | case1 => exact fun v hv => nomatch hv
  | case2 p rest first hfirst =>
    rw [List.head?_cons]
    rintro v ⟨rfl⟩
    rfl
  | case3 p rest first hfirst =>
    rw [List.head?_cons]
    rintro v ⟨rfl⟩
    rfl

theorem isChain_tour (ps : List Position) (m : Machine) :
    (tour look ps m).IsChain fun v w => w.before = v.after := by
  fun_induction tour look ps m with
  | case1 => exact .nil
  | case2 p rest m v hv ih =>
    exact List.isChain_cons.mpr ⟨before_of_mem_head? rest v.after, ih⟩
  | case3 p rest m v hv => exact .singleton v

theorem passes_of_mem_dropLast {ps : List Position} {m : Machine}
    (hv : v ∈ (tour look ps m).dropLast) : v.passes = true := by
  fun_induction tour look ps m with
  | case1 => cases hv
  | case2 p rest m first hfirst ih =>
    cases hrest : tour look rest first.after with
    | nil =>
      rw [hrest] at hv
      cases hv
    | cons second others =>
      rw [hrest] at hv ih
      rw [List.dropLast_cons_cons] at hv
      rcases List.mem_cons.mp hv with rfl | hv
      · exact hfirst
      · exact ih hv
  | case3 p rest m first hfirst => cases hv

theorem machineAfter_cons (v : Visit) (visits : List Visit) :
    machineAfter m (v :: visits) = machineAfter v.after visits := by
  unfold machineAfter
  rw [List.getLast?_cons]
  cases visits.getLast? <;> rfl

/-- If all visits but perhaps the last one pass, and not all do, the last one does not. -/
theorem exists_last_of_not_passes (h : ∀ v ∈ visits.dropLast, v.passes = true)
    (hnot : ¬ ∀ v ∈ visits, v.passes = true) :
    ∃ v, visits.getLast? = some v ∧ v.passes = false := by
  rcases List.eq_nil_or_concat' visits with rfl | ⟨others, v, rfl⟩
  · exact absurd (fun v hv => nomatch hv) hnot
  · rw [List.dropLast_concat] at h
    refine ⟨v, List.getLast?_concat, ?_⟩
    rw [Bool.eq_false_iff]
    intro hv
    apply hnot
    intro w hw
    rcases List.mem_append.mp hw with hw | hw
    · exact h w hw
    · rw [List.mem_singleton.mp hw]
      exact hv

theorem exists_error_of_not_passes (h : v.passes = false) : ∃ i t, v.result = .error i t := by
  unfold Visit.passes at h
  rcases hresult : v.result with ⟨value, t⟩ | ⟨i, t⟩
  · rw [hresult] at h
    cases h
  · exact ⟨i, t, rfl⟩

theorem getLast?_of_cons {first : Visit}
    (h : (first :: visits).getLast? = some v) (hne : first ≠ v) : visits.getLast? = some v := by
  cases visits with
  | nil =>
    cases h
    exact absurd rfl hne
  | cons second rest => rwa [List.getLast?_cons_cons] at h

end Tours

/-! ## The steps of a scan -/

section Steps

variable {lang : Language} {script : Script} {origin p : Position} {s t : State}

/-- The computation at a position of a scan. -/
def lookRun (lang : Language) (script : Script) (origin p : Position) : Run Value :=
  Run.atPosition (.ofInt (p.x - origin.x)) (.ofInt (p.y - origin.y)) (.ofInt (p.z - origin.z)) do
    Run.bindVariable "_" (.list [.number (.ofInt p.x), .number (.ofInt p.y), .number (.ofInt p.z)])
    script.evaluate (evaluate lang) .value

theorem scanAt_eq :
    scanAt lang script origin p s =
      match lookRun lang script origin p s with
      | .ok v t => .ok v.truth t
      | .error (.fault f) t => if f.kind = .arithmetic then .ok false t else .error (.fault f) t
      | .error i t => .error i t := rfl

theorem lookRun_of_ok {value : Value} (h : look lang script origin p s.machine = .ok value t) :
    lookRun lang script origin p s = .ok value ⟨s.locals, t.machine⟩ := by
  unfold lookRun
  exact Run.atPosition_of_ok h

theorem lookRun_of_error {i : Interrupt}
    (h : look lang script origin p s.machine = .error i t) :
    lookRun lang script origin p s = .error i ⟨s.locals, t.machine⟩ := by
  unfold lookRun
  exact Run.atPosition_of_error h

/-- A visit that passes says whether the script is true. -/
theorem scanAt_of_passes (hv : v = .ofLook (look lang script origin) p s.machine)
    (h : v.passes = true) : scanAt lang script origin p s = .ok v.holds ⟨s.locals, v.after⟩ := by
  subst hv
  unfold Visit.ofLook Visit.passes at h
  unfold Visit.ofLook Visit.holds Visit.after
  rw [scanAt_eq]
  rcases hlook : look lang script origin p s.machine with ⟨value, t⟩ | ⟨f | _ | _, t⟩ <;>
    simp only [hlook] at h
  · rw [lookRun_of_ok hlook]
  · rw [lookRun_of_error hlook]
    simp only [of_decide_eq_true h, ↓reduceIte]
  · cases h
  · cases h

/-- Any other visit interrupts the scan. -/
theorem scanAt_of_interrupted (hv : v = .ofLook (look lang script origin) p s.machine)
    (h : v.passes = false) {i : Interrupt} (hresult : v.result = .error i t) :
    scanAt lang script origin p s = .error i ⟨s.locals, t.machine⟩ := by
  subst hv
  unfold Visit.passes at h
  rw [hresult] at h
  rw [scanAt_eq, lookRun_of_error hresult]
  cases i with
  | fault f => simp only [of_decide_eq_false h, ↓reduceIte]
  | stopped => rfl
  | endless => rfl

/-- The positions with so many indices from `i` on. -/
def positionsFrom (box : Box) (n i : Nat) : List Position := (List.range' i n).map box.position

variable (box : Box)

theorem positionsFrom_succ (n i : Nat) :
    positionsFrom box (n + 1) i = box.position i :: positionsFrom box n (i + 1) := by
  unfold positionsFrom
  rw [List.range'_succ, List.map_cons]

theorem positionsFrom_volume : positionsFrom box box.volume 0 = box.positions := by
  unfold positionsFrom Box.positions
  rw [List.range_eq_range']

/-- If all visits pass, the scan counts those where the script is true. -/
theorem scanFrom_of_passes {n i : Nat} (count : Nat) {s : State}
    (hvisits : visits = tour (look lang script origin) (positionsFrom box n i) s.machine)
    (h : ∀ v ∈ visits, v.passes = true) :
    scanFrom lang script origin box n i count s =
      .ok (count + visits.countP Visit.holds) ⟨s.locals, machineAfter s.machine visits⟩ := by
  induction n generalizing i count s visits with
  | zero =>
    subst hvisits
    rfl
  | succ n ih =>
    rw [positionsFrom_succ] at hvisits
    generalize hfirst : Visit.ofLook (look lang script origin) (box.position i) s.machine = first
    cases hpasses : first.passes with
    | false =>
      rw [tour_cons_of_not_passes (hfirst ▸ hpasses), hfirst] at hvisits
      have := h first (by simp [hvisits])
      rw [hpasses] at this
      cases this
    | true =>
      rw [tour_cons_of_passes (hfirst ▸ hpasses), hfirst] at hvisits
      subst hvisits
      unfold scanFrom
      rw [Run.bind_of_ok (scanAt_of_passes hfirst.symm hpasses), machineAfter_cons,
        ih _ rfl fun v hv => h v (List.mem_cons_of_mem _ hv), List.countP_cons]
      congr 1
      dsimp only
      split <;> omega

/-- If a visit does not pass, it is the last one, and the scan ends as it does. -/
theorem scanFrom_of_interrupted {n i : Nat} (count : Nat) {s : State}
    (hlast : (tour (look lang script origin) (positionsFrom box n i) s.machine).getLast? = some v)
    (hv : v.passes = false) {j : Interrupt} {t : State} (hresult : v.result = .error j t) :
    scanFrom lang script origin box n i count s = .error j ⟨s.locals, t.machine⟩ := by
  induction n generalizing i count s with
  | zero => cases hlast
  | succ n ih =>
    rw [positionsFrom_succ] at hlast
    generalize hfirst : Visit.ofLook (look lang script origin) (box.position i) s.machine = first
    unfold scanFrom
    cases hpasses : first.passes with
    | false =>
      rw [tour_cons_of_not_passes (hfirst ▸ hpasses), hfirst] at hlast
      cases hlast
      exact Run.bind_of_error (scanAt_of_interrupted hfirst.symm hv hresult)
    | true =>
      rw [tour_cons_of_passes (hfirst ▸ hpasses), hfirst] at hlast
      rw [Run.bind_of_ok (scanAt_of_passes hfirst.symm hpasses)]
      refine ih _ (getLast?_of_cons hlast ?_)
      rintro rfl
      rw [hpasses] at hv
      cases hv

end Steps

/-! ## What a scan goes through -/

/-- The visits of a scan of the box between two corners, from a machine on. Each of them looks at a
position of the box on the machine that the one before it has left; the positions follow each other
in order and none is left out; and the visits end after the first one that does not pass, or else
when every position has been visited. -/
structure IsTour (look : Position → Machine → EStateM.Result Interrupt State Value)
    (a b : Position) (m : Machine) (visits : List Visit) : Prop where
  looks : ∀ v ∈ visits, v.result = look v.position v.before
  first : ∀ v ∈ visits.head?, v.before = m
  next : visits.IsChain fun v w => w.before = v.after
  inside : ∀ v ∈ visits, v.position.Within a b
  inOrder : visits.Pairwise fun v w => v.position.Before w.position
  gapless : ∀ v ∈ visits, ∀ p : Position, p.Within a b → p.Before v.position →
    ∃ w ∈ visits, w.position = p
  goesOn : ∀ v ∈ visits.dropLast, v.passes = true
  ends : (∀ v ∈ visits, v.passes = true) →
    ∀ p : Position, p.Within a b → ∃ v ∈ visits, v.position = p

theorem isTour_tour (look : Position → Machine → EStateM.Result Interrupt State Value)
    (a b : Position) (m : Machine) :
    IsTour look a b m (tour look (Box.ofCorners a b).positions m) := by
  obtain ⟨rest, hrest⟩ := positions_tour_prefix look (Box.ofCorners a b).positions m
  have hpairwise := (Box.ofCorners a b).pairwise_positions
  rw [← hrest, List.pairwise_append] at hpairwise
  obtain ⟨hvisited, -, hlater⟩ := hpairwise
  refine ⟨fun v hv => result_of_mem_tour hv, before_of_mem_head? _ m, isChain_tour _ m, ?_,
    List.pairwise_map.mp hvisited, ?_, fun v hv => passes_of_mem_dropLast hv, ?_⟩
  · intro v hv
    rw [← Box.mem_positions_ofCorners, ← hrest]
    exact List.mem_append_left _ (List.mem_map_of_mem hv)
  · intro v hv p hp hbefore
    rw [← Box.mem_positions_ofCorners, ← hrest, List.mem_append] at hp
    rcases hp with hp | hp
    · exact List.mem_map.mp hp
    · exact absurd hbefore (hlater _ (List.mem_map_of_mem hv) p hp).not_before
  · intro h p hp
    rw [← Box.mem_positions_ofCorners, ← positions_tour_of_passes h] at hp
    exact List.mem_map.mp hp

/-- What a scan of so many positions reports if the script is true at `k` of them. -/
def tally (k n : Nat) : String := s!"Expression successful in {k} out of {n} blocks"

/-- The last line of the answer to a scan of so many positions. -/
inductive Concludes (n : Nat) (visits : List Visit) : String → Prop
  | counted : (∀ v ∈ visits, v.passes = true) →
      Concludes n visits (tally (visits.countP Visit.holds) n)
  | stopped {v : Visit} {t : State} : visits.getLast? = some v → v.result = .error .stopped t →
      Concludes n visits stoppedText
  | failed {v : Visit} {f : Fault} {t : State} : visits.getLast? = some v →
      v.result = .error (.fault f) t → f.kind ≠ .arithmetic →
      Concludes n visits "Error while processing command"

/-- The answer with a last line after all that was printed on a machine, which is then taken. The
local variables and the snooper are as they were. -/
def answered (s : State) (m : Machine) (text : String) :
    EStateM.Result Interrupt State (List ReplyLine) :=
  .ok (m.output.toList.map .plain ++ [.plain text])
    ⟨s.locals, { m with output := #[], snooper := s.machine.snooper }⟩

/-- The answer to a scan of too many positions. -/
def refusal (n : Nat) : ReplyLine := .plain s!"too many blocks to evaluate: {n}"

section Scans

variable {c : Console} {lang : Language} {script : Script} {origin a b : Position} {code : String}
  {s : State}

theorem scan_of_too_many (h : c.scanLimit < (Box.ofCorners a b).volume64) :
    c.scan lang origin a b code s = .ok [refusal (Box.ofCorners a b).volume64] s := by
  unfold scan
  simp only [gt_iff_lt, h, ↓reduceIte]
  rfl

theorem scan_eq (h : ¬ c.scanLimit < (Box.ofCorners a b).volume64)
    (hgoes : s.machine.cancelled = false) (hread : Script.read lang ⟨code, none⟩ = .ok script) :
    c.scan lang origin a b code s =
      Run.snooped (.printer true) (scanBox lang script origin (Box.ofCorners a b)) s := by
  have hreported : ∀ t, readReported lang ⟨code, none⟩ t = .ok script t := fun t => by
    simp only [readReported, Run.reported, hread]
  unfold scan
  simp only [gt_iff_lt, h, ↓reduceIte, hgoes, Bool.false_eq_true, hreported]

theorem scanBox_of_passes {box : Box}
    (hvisits : visits = tour (look lang script origin) box.positions s.machine)
    (h : ∀ v ∈ visits, v.passes = true) :
    scanBox lang script origin box s =
      takeOutput [.plain (tally (visits.countP Visit.holds) box.volume64)]
        ⟨s.locals, machineAfter s.machine visits⟩ := by
  rw [← positionsFrom_volume] at hvisits
  unfold scanBox
  rw [scanFrom_of_passes box 0 hvisits h, Nat.zero_add]
  rfl

/-- How a scan ends once it is let go: with a last line as its visits say, unless an evaluation does
not end. -/
theorem scanBox_cases (lang : Language) (script : Script) (origin : Position) (box : Box)
    (s : State) (hvisits : visits = tour (look lang script origin) box.positions s.machine) :
    (∃ text, Concludes box.volume64 visits text ∧
      scanBox lang script origin box s =
        takeOutput [.plain text] ⟨s.locals, machineAfter s.machine visits⟩) ∨
    ∃ v t, visits.getLast? = some v ∧ v.result = .error .endless t ∧
      scanBox lang script origin box s = .error .endless ⟨s.locals, t.machine⟩ := by
  by_cases h : ∀ v ∈ visits, v.passes = true
  · exact Or.inl ⟨_, .counted h, scanBox_of_passes hvisits h⟩
  · rw [← positionsFrom_volume] at hvisits
    unfold scanBox
    obtain ⟨v, hlast, hv⟩ := exists_last_of_not_passes
      (fun v hv => passes_of_mem_dropLast (hvisits ▸ hv)) h
    obtain ⟨i, t, hresult⟩ := exists_error_of_not_passes hv
    have hmachine : machineAfter s.machine visits = t.machine := by
      simp only [machineAfter, hlast, Option.map_some, Option.getD_some, Visit.after, hresult]
    have hscan := scanFrom_of_interrupted box 0 (hvisits ▸ hlast) hv hresult
    rw [hscan, hmachine]
    cases i with
    | fault f =>
      refine Or.inl ⟨_, .failed hlast hresult ?_, rfl⟩
      simpa only [Visit.passes, hresult, decide_eq_false_iff_not] using hv
    | stopped => exact Or.inl ⟨_, .stopped hlast hresult, rfl⟩
    | endless => exact Or.inr ⟨v, t, hlast, hresult, rfl⟩

/-- No other answer to a scan is that of a refusal. -/
theorem answered_ne_refusal {n k : Nat} {text : String} (h : Concludes n visits text) (m : Machine)
    (t : State) : answered s m text ≠ .ok [refusal k] t := by
  intro heq
  have hlines : m.output.toList.map ReplyLine.plain ++ [.plain text] = [refusal k] := by
    injection heq
  have hlast := congrArg List.getLast? hlines
  rw [List.getLast?_concat, List.getLast?_singleton, Option.some.injEq] at hlast
  have htext : text = "too many blocks to evaluate: " ++ toString k := by injection hlast
  -- The first letters differ.
  have hhead : text.toList.head? = some 't' := by
    rw [htext, String.toList_append]
    rfl
  cases h with
  | counted _ =>
    unfold tally at hhead
    simp only [String.toList_append, List.append_assoc] at hhead
    cases hhead
  | stopped _ _ => cases hhead
  | failed _ _ _ => cases hhead

end Scans

/-- A scan visits exactly the box between its corners, wherever these are. It is refused just when
the box has more positions than the limit allows, with their number as far as 64 bits can hold it,
and then nothing happens. Otherwise it goes through its visits and answers as they say, or does not
end if one of them does not. And it does not matter which corner comes first along which axis. -/
theorem scans_visit_the_box (c : Console) (hlimit : c.scanLimit < Text.mostNat64) (lang : Language)
    (origin a b : Position) (code : String) (script : Script)
    (hread : Script.read lang ⟨code, none⟩ = .ok script) (s : State)
    (hgoes : s.machine.cancelled = false) :
    let n := Set.ncard {p : Position | p.Within a b}
    let answer := c.dispatch lang (.scan origin a b code) s
    let start := { s.machine with snooper := some (.printer true) }
    ((∃ k t, answer = .ok [refusal k] t) ↔ c.scanLimit < n) ∧
    (c.scanLimit < n → answer = .ok [refusal (min n Text.mostNat64)] s) ∧
    (n ≤ c.scanLimit → ∃ visits, IsTour (look lang script origin) a b start visits ∧
      ((∃ text, Concludes n visits text ∧ answer = answered s (machineAfter start visits) text) ∨
        ∃ v t u, visits.getLast? = some v ∧ v.result = .error .endless t ∧
          answer = .error .endless u)) ∧
    ∀ a' b', a.Exchanged b a' b' → c.dispatch lang (.scan origin a' b' code) s = answer := by
  intro n answer start
  have hn : n = (Box.ofCorners a b).volume := Box.ncard_within a b
  have hcapped : (Box.ofCorners a b).volume64 = min n Text.mostNat64 := by
    rw [hn, Box.volume64_eq (Box.proper_ofCorners a b)]
  have hrefused : c.scanLimit < n → answer = .ok [refusal (min n Text.mostNat64)] s := by
    intro h
    rw [← hcapped]
    exact scan_of_too_many ((Box.lt_volume64_iff hlimit).mpr h)
  have hdone : n ≤ c.scanLimit → ∃ visits, IsTour (look lang script origin) a b start visits ∧
      ((∃ text, Concludes n visits text ∧ answer = answered s (machineAfter start visits) text) ∨
        ∃ v t u, visits.getLast? = some v ∧ v.result = .error .endless t ∧
          answer = .error .endless u) := by
    intro h
    have hexact : (Box.ofCorners a b).volume64 = n := by
      rw [hcapped, Nat.min_eq_left (Nat.le_of_lt (Nat.lt_of_le_of_lt h hlimit))]
    have hanswer : answer =
        Run.snooped (.printer true) (scanBox lang script origin (Box.ofCorners a b)) s :=
      scan_eq (by omega) hgoes hread
    refine ⟨_, isTour_tour (look lang script origin) a b start, ?_⟩
    rcases scanBox_cases lang script origin (Box.ofCorners a b) { s with machine := start } rfl with
      ⟨text, htext, hscan⟩ | ⟨v, t, hlast, hresult, hscan⟩
    · refine Or.inl ⟨text, hexact ▸ htext, ?_⟩
      rw [hanswer, Run.snooped_of_ok hscan]
      rfl
    · exact Or.inr ⟨v, t, _, hlast, hresult, hanswer.trans (Run.snooped_of_error hscan)⟩
  refine ⟨⟨?_, fun h => ⟨_, s, hrefused h⟩⟩, hrefused, hdone, ?_⟩
  · rintro ⟨k, t, h⟩
    by_contra hle
    obtain ⟨visits, -, ⟨text, htext, hanswer⟩ | ⟨v, t', u, -, -, hanswer⟩⟩ := hdone (by omega)
    · exact answered_ne_refusal htext _ t (hanswer.symm.trans h)
    · cases hanswer.symm.trans h
  · intro a' b' hexchanged
    change c.scan lang origin a' b' code s = c.scan lang origin a b code s
    unfold scan
    rw [Box.ofCorners_of_exchanged hexchanged]

namespace Edge

def script : Script := ⟨.var "_" false ⟨⟨.name, "_", .start⟩, ⟨"_", none⟩⟩, ⟨"_", none⟩⟩

theorem read_script : Script.read .standard ⟨"_", none⟩ = .ok script := by
  cbv

def first : Position := ⟨-0x8000000000000000, 0, 0⟩

def last : Position := ⟨0x7FFFFFFFFFFFFFFF, 0, 0⟩

def console : Console := ⟨2, false⟩

def state : State := ⟨.empty, .standard⟩

end Edge

open Edge in
/-- Along the whole of an axis there is one position more than 64 bits can count; at its end there
are two positions from one corner to the other. -/
theorem an_axis_is_too_long_but_its_end_is_not :
    let start := { state.machine with snooper := some (.printer true) }
    let answer := console.dispatch .standard (.scan first last ⟨last.x, 1, 0⟩ "_") state
    console.scanLimit < Text.mostNat64 ∧ Script.read .standard ⟨"_", none⟩ = .ok script ∧
      state.machine.cancelled = false ∧
      console.dispatch .standard (.scan first first last "_") state =
        .ok [refusal 18446744073709551615] state ∧
      ∃ visits, IsTour (look .standard script first) last ⟨last.x, 1, 0⟩ start visits ∧
        ((∃ text, Concludes 2 visits text ∧
            answer = answered state (machineAfter start visits) text) ∨
          ∃ v t u, visits.getLast? = some v ∧ v.result = .error .endless t ∧
            answer = .error .endless u) := by
  intro start answer
  have hlimit : console.scanLimit < Text.mostNat64 := by decide
  have haxis : Set.ncard {p : Position | p.Within first last} = 0x10000000000000000 :=
    Box.ncard_within first last
  have hend : Set.ncard {p : Position | p.Within last ⟨last.x, 1, 0⟩} = 2 :=
    Box.ncard_within last ⟨last.x, 1, 0⟩
  obtain ⟨-, hrefused, -, -⟩ := scans_visit_the_box console hlimit .standard first first last "_"
    script read_script state rfl
  obtain ⟨-, -, hvisits, -⟩ := scans_visit_the_box console hlimit .standard first last
    ⟨last.x, 1, 0⟩ "_" script read_script state rfl
  rw [haxis] at hrefused
  rw [hend] at hvisits
  exact ⟨hlimit, read_script, rfl, hrefused (by decide), hvisits (by decide)⟩

end Console

end TickScript
