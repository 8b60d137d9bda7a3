-- Matching: a pattern becomes a program of small steps, and all ways through the program
-- are followed at once, the preferred ones first.
import TickScript.Pattern.Tree

namespace TickScript.Pattern

/-! ## Programs -/

/-- A step of a program. All but the last say where to go on. -/
inductive Step where
  /-- Takes a character. -/
  | take (set : CharSet) (next : Nat)
  | look (look : Look) (next : Nat)
  /-- Keeps the current place. -/
  | keep (slot : Nat) (next : Nat)
  /-- Goes on in several ways, the preferred ones first. -/
  | split (targets : List Nat)
  | accept

/-- Adds a step and says where it is. -/
def emit (code : Array Step) (step : Step) : Nat × Array Step := (code.size, code.push step)

/-- The two ways on at a repetition: into the body or past it. -/
def fork (greedy : Bool) (body past : Nat) : Step :=
  if greedy then .split [body, past] else .split [past, body]

mutual

/-- Adds the steps of a tree, after which the program goes on at `next`, and says where they
start. -/
def compile : Tree → Nat → Array Step → Nat × Array Step
  | .char set, next, code => emit code (.take set next)
  | .look look, next, code => emit code (.look look next)
  | .group index body, next, code =>
    let (stop, code) := emit code (.keep (2 * index + 1) next)
    let (start, code) := compile body stop code
    emit code (.keep (2 * index) start)
  | .sequence parts, next, code => compileSequence parts next code
  | .choice branches, next, code =>
    let (targets, code) := compileBranches branches next code
    emit code (.split targets)
  | .repeated body least none greedy, next, code =>
    -- A body that takes a character can share one step for its start and its end; one that
    -- may take none is gone through before it is left.
    let (again, code) := emit code (.split [])
    let (start, code) := compile body again code
    let code := code.setIfInBounds again (fork greedy start next)
    if least = 0 then
      if body.canBeEmpty then emit code (fork greedy start next) else (again, code)
    else
      (List.range (least - 1)).foldl (fun (next, code) _ => compile body next code) (start, code)
  | .repeated body least (some most) greedy, next, code =>
    let (start, code) := (List.range (most - least)).foldl (fun (inner, code) _ =>
      let (start, code) := compile body inner code
      emit code (fork greedy start next)) (next, code)
    (List.range least).foldl (fun (next, code) _ => compile body next code) (start, code)

/-- Adds the steps of parts that follow one another. -/
def compileSequence : List Tree → Nat → Array Step → Nat × Array Step
  | [], next, code => (next, code)
  | t :: rest, next, code =>
    let (next, code) := compileSequence rest next code
    compile t next code

/-- Adds the steps of some branches. -/
def compileBranches : List Tree → Nat → Array Step → List Nat × Array Step
  | [], _, code => ([], code)
  | t :: rest, next, code =>
    let (start, code) := compile t next code
    let (starts, code) := compileBranches rest next code
    (start :: starts, code)

end

/-- A program and where it starts. -/
structure Program where
  code : Array Step
  start : Nat
  groups : Nat

/-- The program of a tree. The whole match is kept as group 0. -/
def Program.ofTree (t : Tree) : Program :=
  let (stop, code) := emit #[] .accept
  let (start, code) := compile (.group 0 t) stop code
  { code, start, groups := t.maxGroup }

/-! ## Following a program -/

/-- The places that groups start and end at, as far as they have been met. -/
abbrev Slots := Array (Option Nat)

/-- A way through a program: where it is and what it has kept. -/
structure Thread where
  step : Nat
  slots : Slots

/-- A place in a text: how many characters stand before it, the last of these, and the
characters after it. -/
structure Spot where
  index : Nat
  before : Option Char
  rest : List Char

/-- Follows ways through the program as far as they go without taking a character. Every step
of the program is visited once, by the most preferred way that meets it. -/
def follow (p : Program) (spot : Spot) :
    Nat → List Thread → Array Bool → Array Thread → Array Thread
  | 0, _, _, found => found
  | _, [], _, found => found
  | fuel + 1, t :: rest, visited, found =>
    if visited[t.step]?.getD true then follow p spot fuel rest visited found
    else
      let visited := visited.setIfInBounds t.step true
      match p.code[t.step]? with
      | none => follow p spot fuel rest visited found
      | some (.look look next) =>
        if look.holds spot.before spot.rest.head? then
          follow p spot fuel (⟨next, t.slots⟩ :: rest) visited found
        else follow p spot fuel rest visited found
      | some (.keep slot next) =>
        let slots := t.slots.setIfInBounds slot (some spot.index)
        follow p spot fuel (⟨next, slots⟩ :: rest) visited found
      | some (.split targets) =>
        follow p spot fuel (targets.map (⟨·, t.slots⟩) ++ rest) visited found
      | some (.take ..) => follow p spot fuel rest visited (found.push t)
      | some .accept => follow p spot fuel rest visited (found.push t)

/-- The number of ways on that a step has. -/
def Step.ways : Step → Nat
  | .split targets => targets.length
  | _ => 1

/-- Enough fuel to follow a program from `n` threads. -/
def Program.fuel (p : Program) (n : Nat) : Nat :=
  p.code.foldl (fun sum step => sum + step.ways) (n + 1)

/-- Takes a character along some threads in order of preference. A thread that has reached
the end of the program is a match, and those after it are given up. -/
def advanceThreads (p : Program) (c : Option Char) :
    List Thread → Array Thread → Array Thread × Option Slots
  | [], next => (next, none)
  | t :: rest, next =>
    match p.code[t.step]? with
    | some .accept => (next, some t.slots)
    | some (.take set target) =>
      if c.any set.contains then advanceThreads p c rest (next.push ⟨target, t.slots⟩)
      else advanceThreads p c rest next
    | _ => advanceThreads p c rest next

/-- Goes on through a text with some threads and the best match so far. As long as there is no
match, a new thread starts at every place. -/
def searchFrom (p : Program) (index : Nat) (before : Option Char) (threads : List Thread)
    (best : Option Slots) (rest : List Char) : Option Slots :=
  let fresh := if best.isNone then
      [{ step := p.start, slots := Array.replicate (2 * (p.groups + 1)) none : Thread }]
    else []
  let threads := threads ++ fresh
  let visited := Array.replicate p.code.size false
  let found := follow p ⟨index, before, rest⟩ (p.fuel threads.length) threads visited #[]
  let (next, met) := advanceThreads p rest.head? found.toList #[]
  let best := met.or best
  match rest with
  | [] => best
  | c :: rest =>
    if next.isEmpty && best.isSome then best
    else searchFrom p (index + 1) (some c) next.toList best rest

/-- What each group matched: where it starts and stops, if it took part. -/
abbrev Groups := List (Option (Nat × Nat))

/-- The groups of the kept places. -/
def groupsOf (p : Program) (slots : Slots) : Groups :=
  (List.range (p.groups + 1)).map fun i =>
    match slots[2 * i]?.join, slots[2 * i + 1]?.join with
    | some start, some stop => some (start, stop)
    | _, _ => none

/-- The leftmost match at or after a spot. -/
def Program.search? (p : Program) (spot : Spot) : Option Groups :=
  (searchFrom p spot.index spot.before [] none spot.rest).map (groupsOf p)

end TickScript.Pattern
