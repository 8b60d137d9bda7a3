-- The loops of the standard language. Each of them first finds out what it goes over, then
-- goes round under names of its own, and at its end these names stand for what they stood
-- for before the first round.
import TickScript.Library
import TickScript.Eval
import TickScript.Proofs.Runs

namespace TickScript

open Library

/-! ## The loops and what they go over -/

/-- The functions that evaluate an operand again and again. -/
inductive Loop where
  | repeated
  | whilst
  | count
  | map
  | filter
  | first
  | all
  | volume
deriving DecidableEq

/-- How often a loop is asked to go round. -/
def roundsOf (what : String) (operand : Lazy) : Run Nat := do
  let n ← operand .value
  let x ← Run.ofExcept (n.toNumber what)
  return Number.repetitions x

/-- The elements that a loop is asked to visit. -/
def walkOf (elements : Lazy) : Run (Walk Value) := do
  let v ← elements .value
  v.walk

/-- The box that a loop is asked to go through. -/
def boxOf (x1 y1 z1 x2 y2 z2 : Lazy) : Run Box := do
  let x1 ← coordinate x1
  let y1 ← coordinate y1
  let z1 ← coordinate z1
  let x2 ← coordinate x2
  let y2 ← coordinate y2
  let z2 ← coordinate z2
  return Box.ofCorners ⟨x1, y1, z1⟩ ⟨x2, y2, z2⟩

namespace Loop

/-- The name of the function. -/
def name : Loop → String
  | .repeated => "loop"
  | .whilst => "while"
  | .count => "for"
  | .map => "map"
  | .filter => "filter"
  | .first => "first"
  | .all => "all"
  | .volume => "volume"

def native : Loop → Native
  | .repeated => .ofTwo repeatLoop
  | .whilst => whileLooping
  | .count => .ofTwo countLoop
  | .map => .ofTwo mapLoop
  | .filter => .ofTwo filterLoop
  | .first => .ofTwo firstLoop
  | .all => .ofTwo allLoop
  | .volume => volumeLooping

/-- The names that the loop binds in each round. -/
def names : Loop → List String
  | .repeated | .whilst => ["_"]
  | .count | .map | .filter | .first | .all => ["_", "_i"]
  | .volume => ["_x", "_y", "_z", "_"]

/-- Evaluates the operands that are evaluated once, before the first round, and says whether
there is a first round. A round of `while` begins before its condition is asked for. -/
def head : Loop → List Lazy → Run Bool
  | .repeated, [times, _] => return (← roundsOf "loop" times) ≠ 0
  | .whilst, [_, limit, _] => return (← roundsOf "while" limit) ≠ 0
  | .volume, [x1, y1, z1, x2, y2, z2, _] => return (← boxOf x1 y1 z1 x2 y2 z2).volume ≠ 0
  | .repeated, _ | .whilst, _ | .volume, _ => return false
  | _, [elements, _] => return (← walkOf elements).next.isSome
  | _, _ => return false

/-- The result of the loop without any round. -/
def emptyResult : Loop → Value
  | .repeated | .whilst | .first => .null
  | .count | .volume => .number (.ofNat 0)
  | .map | .filter => .list []
  | .all => .boolean true

theorem function?_standard (loop : Loop) :
    Language.standard.function? loop.name = some loop.native := by
  cases loop <;> rfl

end Loop

/-! ## Rounds -/

/-- The element that each round of a loop is about, and what the names of the loop stand for in
it, as far as there are rounds. -/
abbrev Rounds := Nat → Option (Value × List (String × Value))

/-- The element of a walk that has the given index. -/
def Walk.nth? : Walk Value → Nat → Option Value
  | w, 0 => w.next.map (·.1)
  | w, i + 1 => w.next.bind fun next => next.2.nth? i

/-- So many rounds, each told by its index; the first one has the index `first`. -/
def indexedRounds (round : Nat → Value × List (String × Value)) (first n : Nat) : Rounds := fun i =>
  if i < n then some (round (first + i)) else none

/-- A round for each element of a walk; the first one has the index `first`. -/
def walkRounds (first : Nat) (w : Walk Value) : Rounds := fun i =>
  (w.nth? i).map fun v => (v, [("_", v), ("_i", .number (.ofNat (first + i)))])

/-- A round of a loop that counts. -/
def countRound (i : Nat) : Value × List (String × Value) :=
  (.number (.ofNat i), [("_", .number (.ofNat i))])

/-- A round of a loop over a box, at the position of an index. -/
def boxRound (box : Box) (i : Nat) : Value × List (String × Value) :=
  let p := box.position i
  let x := Value.number (.ofInt p.x)
  let y := Value.number (.ofInt p.y)
  let z := Value.number (.ofInt p.z)
  (.list [x, y, z], [("_x", x), ("_y", y), ("_z", z), ("_", .list [x, y, z])])

/-- Binds names one after the other. -/
def bindAll : List (String × Value) → Run Unit
  | [] => pure ()
  | (name, v) :: rest => do
    Run.bindVariable name v
    bindAll rest

/-- Goes round as long as there are rounds and each says to go on; each makes a new result from
the one so far. Rounds beyond the bound never come to an end. -/
def circle {σ : Type} (round : σ → Value → Run (σ × Bool)) : Nat → Rounds → σ → Run σ
  | 0, _, _ => throw .endless
  | bound + 1, rounds, result =>
    match rounds 0 with
    | none => pure result
    | some (v, bindings) => do
      Run.checkStop
      bindAll bindings
      let next ← round result v
      if next.2 then circle round bound (fun i => rounds (i + 1)) next.1 else return next.1

namespace Loop

/-- Evaluates the operands that are evaluated once and finds what the rounds are, and a bound on
their number. -/
def tour : Loop → List Lazy → Run (Nat × Rounds)
  | .repeated, [times, _] => do
    let n ← roundsOf "loop" times
    return (n, indexedRounds countRound 0 n)
  | .whilst, [_, limit, _] => do
    let n ← roundsOf "while" limit
    return (n, indexedRounds countRound 0 n)
  | .volume, [x1, y1, z1, x2, y2, z2, _] => do
    let box ← boxOf x1 y1 z1 x2 y2 z2
    return (box.volume, indexedRounds (boxRound box) 0 box.volume)
  | .repeated, _ | .whilst, _ | .volume, _ => return (0, fun _ => none)
  | _, [elements, _] => do
    let w ← walkOf elements
    return (w.bound - 1, walkRounds 0 w)
  | _, _ => return (0, fun _ => none)

/-- What the loop makes its result of. -/
abbrev Result : Loop → Type
  | .repeated | .whilst | .first => Value
  | .count | .volume => Nat
  | .map | .filter => Array Value
  | .all => Bool

def start : (loop : Loop) → loop.Result
  | .repeated | .whilst | .first => Value.null
  | .count | .volume => (0 : Nat)
  | .map | .filter => (#[] : Array Value)
  | .all => true

def answer : (loop : Loop) → loop.Result → Value
  | .repeated, v | .whilst, v | .first, v => v
  | .count, n | .volume, n => .number (.ofNat n)
  | .map, vs | .filter, vs => .list vs.toList
  | .all, b => .boolean b

/-- What a round evaluates after its names are bound, what it makes of that, and whether the loop
goes on. -/
def round : (loop : Loop) → Kind → List Lazy → loop.Result → Value → Run (loop.Result × Bool)
  | .repeated, kind, [_, body], _, _ => do
    let v ← body kind
    return (v, true)
  | .whilst, kind, [condition, _, body], last, _ => do
    let holds ← condition.truth
    if holds then
      let v ← body kind
      return (v, true)
    else return (last, false)
  | .count, _, [_, body], n, _ | .volume, _, [_, _, _, _, _, _, body], n, _ => do
    let holds ← body.truth
    return (if holds then n + 1 else n, true)
  | .map, _, [_, body], results, _ => do
    let v ← body .value
    return (results.push v.unbound, true)
  | .filter, _, [_, body], kept, v => do
    let holds ← body.truth
    return (if holds then kept.push v else kept, true)
  | .first, _, [_, body], found, v => do
    let holds ← body.truth
    return if holds then (v, false) else (found, true)
  | .all, _, [_, body], _, _ => do
    let holds ← body.truth
    return (holds, holds)
  | _, _, _, result, _ => return (result, false)

end Loop

/-! ## Loops go through their rounds -/

section Indexed

variable (round : Nat → Value × List (String × Value)) (first n : Nat)

theorem indexedRounds_zero : indexedRounds round first (n + 1) 0 = some (round first) := by
  simp [indexedRounds]

theorem indexedRounds_succ :
    (fun i => indexedRounds round first (n + 1) (i + 1)) = indexedRounds round (first + 1) n := by
  funext i
  have hindex : first + (i + 1) = first + 1 + i := by omega
  simp [indexedRounds, hindex]

end Indexed

theorem repeatFrom_eq (body : Run Value) (n first : Nat) (last : Value) :
    repeatFrom body n first last =
      circle (fun _ _ => body >>= fun v => pure (v, true)) (n + 1)
        (indexedRounds countRound first n) last := by
  induction n generalizing first last with
  | zero => rfl
  | succ n ih =>
    unfold circle
    simp only [indexedRounds_zero, indexedRounds_succ, countRound, bindAll, repeatFrom, ih,
      bind_assoc, pure_bind, ↓reduceIte]

theorem whileFrom_eq (condition : Lazy) (body : Run Value) (n first : Nat) (last : Value) :
    whileFrom condition body n first last =
      circle (fun last _ => condition.truth >>= fun holds =>
        if holds then body >>= fun v => pure (v, true) else pure (last, false)) (n + 1)
        (indexedRounds countRound first n) last := by
  induction n generalizing first last with
  | zero => rfl
  | succ n ih =>
    unfold circle
    simp only [indexedRounds_zero, indexedRounds_succ, countRound, bindAll, whileFrom, ih,
      bind_assoc, pure_bind]
    refine bind_congr fun _ => bind_congr fun _ => bind_congr fun holds => ?_
    cases holds with
    | true => simp only [↓reduceIte, bind_assoc, pure_bind]
    | false => simp only [Bool.false_eq_true, ↓reduceIte, pure_bind]

theorem volumeFrom_eq (box : Box) (body : Lazy) (n first count : Nat) :
    volumeFrom box body n first count =
      circle (fun count _ => body.truth >>= fun holds =>
        pure (if holds then count + 1 else count, true)) (n + 1)
        (indexedRounds (boxRound box) first n) count := by
  induction n generalizing first count with
  | zero => rfl
  | succ n ih =>
    unfold circle
    simp only [indexedRounds_zero, indexedRounds_succ, boxRound, bindAll, volumeFrom, ih,
      bind_assoc, pure_bind, ↓reduceIte]

theorem visitFrom_eq {σ : Type} (visit : σ → Value → Run (σ × Bool)) (fuel first : Nat)
    (w : Walk Value) (result : σ) :
    visitFrom visit fuel w first result = circle visit fuel (walkRounds first w) result := by
  induction fuel generalizing w first result with
  | zero => rfl
  | succ fuel ih =>
    unfold circle visitFrom
    cases hnext : w.next with
    | none => simp [walkRounds, Walk.nth?, hnext]
    | some pair =>
      obtain ⟨v, rest⟩ := pair
      have hfirst : walkRounds first w 0 =
          some (v, [("_", v), ("_i", .number (.ofNat first))]) := by
        simp [walkRounds, Walk.nth?, hnext]
      have hrest : (fun i => walkRounds first w (i + 1)) = walkRounds (first + 1) rest := by
        funext i
        have hindex : first + (i + 1) = first + 1 + i := by omega
        simp [walkRounds, Walk.nth?, hnext, hindex]
      simp only [hfirst, hrest, bindAll, bind_assoc, pure_bind, ih]

/-! ## How a loop goes -/

/-- A computation that goes round: `head` comes first and says whether there is a round,
the names are put back, a first round ends at once if scripts are to stop, and without a
round the result is `empty`. -/
structure GoesRound (names : List String) (empty : Value) (head : Run Bool) (x : Run Value) :
    Prop where
  fails : ∀ {s i t}, head s = .error i t → x s = .error i t
  restores : ∀ {s b t}, head s = .ok b t →
    ∀ name ∈ names, (x.after s).locals.get? name = t.locals.get? name
  stops : ∀ {s t}, head s = .ok true t → t.machine.cancelled = true → x s = .error .stopped t
  skips : ∀ {s t}, head s = .ok false t → x s = .ok empty t

/-- A loop that counts finds how often it is to go round, goes round under its name, and has the
result of the last round. -/
theorem repeatLoop_eq (kind : Kind) (times body : Lazy) :
    (repeatLoop kind times body >>= fun result => result kind) =
      roundsOf "loop" times >>= fun n =>
        Run.restoring ["_"] (repeatFrom (body kind) n 0 .null) >>= fun v => pure v := by
  simp only [repeatLoop, roundsOf, bind_assoc, pure_bind, Lazy.of]

theorem whileLoop_eq (kind : Kind) (condition limit body : Lazy) :
    (whileLoop kind condition limit body >>= fun result => result kind) =
      roundsOf "while" limit >>= fun n =>
        Run.restoring ["_"] (whileFrom condition (body kind) n 0 .null) >>= fun v => pure v := by
  simp only [whileLoop, roundsOf, bind_assoc, pure_bind, Lazy.of]

/-- A loop over a box finds its box, goes through it under its names, and answers with the count. -/
theorem volumeLoop_eq (kind : Kind) (x1 y1 z1 x2 y2 z2 body : Lazy) :
    (volumeLoop x1 y1 z1 x2 y2 z2 body >>= fun result => result kind) =
      boxOf x1 y1 z1 x2 y2 z2 >>= fun box =>
        Run.restoring ["_x", "_y", "_z", "_"] (volumeFrom box body box.volume 0 0) >>=
          fun count => pure (.number (.ofNat count)) := by
  simp only [volumeLoop, boxOf, bind_assoc, pure_bind, Lazy.of]

/-- A loop over elements finds what to walk over, visits it under its names, and makes its answer
of what the visits give. -/
theorem visitEach_eq {σ : Type} (kind : Kind) (elements : Lazy) (start : σ)
    (visit : σ → Value → Run (σ × Bool)) (answer : σ → Value) :
    ((visitEach elements start visit >>= fun r => pure (Lazy.of (answer r))) >>=
        fun result => result kind) =
      walkOf elements >>= fun w =>
        Run.restoring ["_", "_i"] (visitFrom visit w.bound w 0 start) >>=
          fun r => pure (answer r) := by
  simp only [visitEach, walkOf, bind_assoc, pure_bind, Lazy.of]

theorem visitEach_eq_circle {σ : Type} (kind : Kind) (elements : Lazy) (start : σ)
    (visit : σ → Value → Run (σ × Bool)) (answer : σ → Value) :
    ((visitEach elements start visit >>= fun r => pure (Lazy.of (answer r))) >>=
        fun result => result kind) =
      (walkOf elements >>= fun w => pure (w.bound - 1, walkRounds 0 w)) >>= fun tour =>
        Run.restoring ["_", "_i"] (circle visit (tour.1 + 1) tour.2 start) >>=
          fun r => pure (answer r) := by
  have hbound : ∀ w : Walk Value, w.bound - 1 + 1 = w.bound := by
    intro w
    cases w <;> simp [Walk.bound]
  rw [visitEach_eq]
  simp only [visitFrom_eq, bind_assoc, pure_bind, hbound]

namespace Loop

variable (loop : Loop) (run : Expr → Lazy) (kind : Kind) {args : List Lazy}

/-- Every loop finds out what its rounds are, goes through them under its names, and makes its
answer of what they give. -/
theorem native_eq (hargs : loop.native.arity.accepts args.length = true) :
    (loop.native.apply run kind args >>= fun result => result kind) =
      loop.tour args >>= fun tour =>
        Run.restoring loop.names (circle (loop.round kind args) (tour.1 + 1) tour.2 loop.start) >>=
          fun r => pure (loop.answer r) := by
  cases loop with
  | repeated =>
    match args, hargs with
    | [times, body], _ =>
      simp only [native, Native.ofTwo, repeatLoop_eq, repeatFrom_eq, tour, bind_assoc, pure_bind]
      rfl
  | whilst =>
    match args, hargs with
    | [condition, limit, body], _ =>
      simp only [native, whileLooping, whileLoop_eq, whileFrom_eq, tour, bind_assoc, pure_bind]
      rfl
  | volume =>
    match args, hargs with
    | [x1, y1, z1, x2, y2, z2, body], _ =>
      simp only [native, volumeLooping, volumeLoop_eq, volumeFrom_eq, tour, bind_assoc, pure_bind]
      rfl
  | count | map | filter | first | all =>
    match args, hargs with
    | [elements, body], _ => exact visitEach_eq_circle kind elements _ _ _

/-- With a wrong number of operands a loop does nothing. -/
theorem native_of_not_accepts (hargs : loop.native.arity.accepts args.length = false) :
    (loop.native.apply run kind args >>= fun result => result kind) = pure .null := by
  cases loop with
  | whilst | volume =>
    simp only [native, whileLooping, volumeLooping]
    split
    · cases hargs
    · rfl
  | _ =>
    simp only [native, Native.ofTwo]
    split
    · cases hargs
    · rfl

/-- There is a first round if the head of the loop says so. -/
theorem head_eq_tour (args : List Lazy) :
    loop.head args = loop.tour args >>= fun tour => pure (tour.2 0).isSome := by
  have hindexed : ∀ round n, (indexedRounds round 0 n 0).isSome = decide (n ≠ 0) := by
    intro round n
    cases n <;> simp [indexedRounds]
  have hwalk : ∀ w, (walkRounds 0 w 0).isSome = w.next.isSome := by
    intro w
    simp [walkRounds, Walk.nth?]
  unfold head tour
  split <;> simp only [bind_assoc, pure_bind, hindexed, hwalk, Option.isSome_none]

theorem answer_start : loop.answer loop.start = loop.emptyResult := by
  cases loop <;> rfl

/-- Every loop goes round. -/
theorem goesRound (hargs : loop.native.arity.accepts args.length = true) :
    GoesRound loop.names loop.emptyResult (loop.head args)
      (loop.native.apply run kind args >>= fun result => result kind) := by
  rw [loop.native_eq run kind hargs, head_eq_tour]
  constructor
  · intro s i t h
    rcases Run.of_bind_error h with h | ⟨tour, u, _, h⟩
    · exact Run.bind_of_error h
    · cases h
  · intro s b t h name hname
    obtain ⟨tour, u, htour, h⟩ := Run.of_bind_ok h
    obtain ⟨_, rfl⟩ := Run.of_pure_ok h
    have hafter : ∀ rounds : Nat × Rounds → Run loop.Result, Run.after (loop.tour args >>=
        fun tour => Run.restoring loop.names (rounds tour) >>= fun r => pure (loop.answer r)) s =
        (Run.restoring loop.names (rounds tour)).after u := by
      intro rounds
      rw [← Run.after_bind_pure _ loop.answer]
      simp only [Run.after, Run.bind_of_ok htour]
    rw [hafter, Run.after_restoring]
    exact Frame.get?_putBack_ofNames hname _ _
  · intro s t h hcancelled
    obtain ⟨tour, u, htour, h⟩ := Run.of_bind_ok h
    obtain ⟨hround, rfl⟩ := Run.of_pure_ok h
    obtain ⟨⟨v, bindings⟩, hfirst⟩ := Option.isSome_iff_exists.mp hround
    have hstops : circle (loop.round kind args) (tour.1 + 1) tour.2 loop.start u =
        .error .stopped u := by
      simp only [circle, hfirst]
      exact Run.bind_of_error (Run.checkStop_of_cancelled hcancelled)
    rw [Run.bind_of_ok htour, Run.bind_of_error (Run.restoring_of_error loop.names hstops),
      Frame.putBack_ofNames_self]
  · intro s t h
    obtain ⟨tour, u, htour, h⟩ := Run.of_bind_ok h
    obtain ⟨hround, rfl⟩ := Run.of_pure_ok h
    have hskips : circle (loop.round kind args) (tour.1 + 1) tour.2 loop.start u =
        .ok loop.start u := by
      have hnone : tour.2 0 = none := by simpa using hround
      simp only [circle, hnone]
      rfl
    rw [Run.bind_of_ok htour, Run.bind_of_ok (Run.restoring_of_ok loop.names hskips),
      Frame.putBack_ofNames_self, answer_start]
    rfl

end Loop

/-! ## Calls of loops in scripts -/

/-- How the call of a loop goes in a script, in whatever language it has its meaning. -/
theorem Loop.denote_call {lang : Language} {loop : Loop}
    (hloop : lang.function? loop.name = some loop.native) (run : Expr → Lazy)
    (args : List Expr) (site : Site) (kind : Kind) :
    (Expr.call loop.name args site).denote lang run kind =
      Run.located site
        (loop.native.apply run kind (Expr.denoteAll lang run args) >>=
          fun result => result kind) := by
  simp only [Expr.denote, applyCall, hloop]

theorem length_denoteAll (lang : Language) (run : Expr → Lazy) (args : List Expr) :
    (Expr.denoteAll lang run args).length = args.length := by
  induction args with
  | nil => rfl
  | cons e rest ih => simp [Expr.denoteAll, ih]

/-- Whatever the operands of a loop do and however the loop ends, each of its own names is
then among the locals what it was right after the operands that come before the first round
had been evaluated. If one of these fails, the loop ends there and then. -/
theorem a_loop_puts_its_names_back {lang : Language} {loop : Loop}
    (hloop : lang.function? loop.name = some loop.native) (run : Expr → Lazy) {args : List Expr}
    (hargs : loop.native.arity.accepts args.length = true) (site : Site) (kind : Kind) (s : State) :
    match loop.head (Expr.denoteAll lang run args) s with
    | .ok _ t => ∀ name ∈ loop.names,
        (Run.after ((Expr.call loop.name args site).denote lang run kind) s).locals.get? name =
          t.locals.get? name
    | .error i t =>
        (Expr.call loop.name args site).denote lang run kind s = .error (i.locate site) t := by
  rw [← length_denoteAll lang run args] at hargs
  have hround := loop.goesRound run kind hargs
  rw [Loop.denote_call hloop]
  split
  · rename_i b t hhead
    intro name hname
    rw [Run.after_located]
    exact hround.restores hhead name hname
  · rename_i i t hhead
    exact Run.located_of_error site (hround.fails hhead)

/-- A body that forgets the element it is given, in `map(l('a', 'b'), undef('_'))`. -/
theorem a_forgetful_body_is_undone :
    let site : Site := ⟨⟨.call, "map", .start⟩, ⟨"map(l('a', 'b'), undef('_'))", none⟩⟩
    let body : Expr := .call "undef" [.text "_"] site
    let elements : Expr := .call "l" [.text "a", .text "b"] site
    let s : State := ⟨.ofList [("_", .text "kept")], .standard⟩
    Language.standard.function? "map" = some Loop.map.native ∧
      Loop.map.native.arity.accepts 2 = true ∧
      ∀ name ∈ ["_", "_i"],
        (Run.after ((Expr.call "map" [elements, body] site).denote .standard (evaluate .standard)
          .value) s).locals.get? name = s.locals.get? name := by
  intro site body elements s
  refine ⟨Loop.function?_standard .map, rfl, ?_⟩
  exact a_loop_puts_its_names_back (Loop.function?_standard .map) (evaluate .standard)
    (by rfl : Loop.map.native.arity.accepts [elements, body].length = true) site .value s

end TickScript
