-- What the operators and functions of the standard language do with their operands. Besides
-- evaluating them they look at the state, have a few kinds of effects on it, and fail. Loops check
-- as well whether scripts are to stop, one function yields, and one calls procedures. So what is
-- handed on from the parts of a computation to the whole holds of all of them.
import TickScript.Proofs.Loops
import TickScript.Proofs.Tables

namespace TickScript

open Library

/-! ## Effects -/

/-- The ways in which a single step of a standard script changes the state. -/
inductive Effect where
  /-- Writes a variable. -/
  | write (name : String) (v : Value)
  /-- Writes a parameter that has a global name. -/
  | define (name : String) (v : Value)
  /-- Stores a procedure. -/
  | store (p : Procedure)
  /-- Forgets the procedure and the variable of a name. -/
  | forget (name : String)
  | print (line : String)
  /-- Draws a random number. -/
  | draw
  /-- Walks an iterator that can be walked once. -/
  | spend (id : Nat)
  /-- Takes a new identity. -/
  | renew

/-- The state after an effect. -/
def Effect.apply : Effect → State → State
  | .write name v, s => s.set name v
  | .define name v, s => { s with machine := s.machine.define name v }
  | .store p, s =>
    { s with machine := { s.machine with procedures := s.machine.procedures.set p.name p } }
  | .forget name, s =>
    let procedures := s.machine.procedures.erase name
    (State.erase { s with machine := { s.machine with procedures } } name).2
  | .print line, s => { s with machine := s.machine.print line }
  | .draw, s => { s with machine := { s.machine with random := nextRandom s.machine.random } }
  | .spend id, s => { s with machine := { s.machine with spent := id :: s.machine.spent } }
  | .renew, s => { s with machine := { s.machine with fresh := s.machine.fresh + 1 } }

/-- An effect changes what scripts work with. How they are run stays: the count of calls, the
hook, the snooper, the clock. -/
theorem Effect.apply_eq (e : Effect) (s : State) :
    ∃ locals globals procedures output random spent fresh, e.apply s =
      ⟨locals, { s.machine with globals, procedures, output, random, spent, fresh }⟩ := by
  cases e with
  | write name v =>
    simp only [apply, State.set]
    split <;> exact ⟨_, _, _, _, _, _, _, rfl⟩
  | forget name =>
    simp only [apply, State.erase]
    split <;> exact ⟨_, _, _, _, _, _, _, rfl⟩
  | define | store | print | draw | spend | renew => exact ⟨_, _, _, _, _, _, _, rfl⟩

/-! ## Requests to stop -/

/-- The hook, but that it never asks scripts to stop. -/
def Hook.calm : Hook → Hook
  | .recorder _ => .recorder fun _ => false
  | .absent => .absent
  | .clock => .clock

/-- The machine, but that scripts are not to stop, neither now nor by the wish of its hook. -/
def Machine.calm (m : Machine) : Machine := { m with cancelled := false, hook := m.hook.calm }

/-- The state with a machine on which scripts are not to stop. -/
def State.calm (s : State) : State := { s with machine := s.machine.calm }

/-- The state with another snooper. -/
def State.snooping (s : State) (snooper : Option Snooper) : State :=
  { s with machine := { s.machine with snooper } }

/-! ## Plain computations -/

/-- What is found out about a state depends neither on whether scripts are to stop nor on who
is told about faults. -/
structure Oblivious {α : Type} (f : State → α) : Prop where
  calm : ∀ s, f s.calm = f s
  snooping : ∀ s b, f (s.snooping b) = f s

/-- The states have the same values, random numbers and iterators, and procedures of the same
names. -/
structure State.LooksLike (s t : State) : Prop where
  locals : t.locals = s.locals
  globals : t.machine.globals = s.machine.globals
  procedures : ∀ name, t.machine.procedures.contains name = s.machine.procedures.contains name
  random : t.machine.random = s.machine.random
  spent : t.machine.spent = s.machine.spent
  fresh : t.machine.fresh = s.machine.fresh

theorem State.LooksLike.get? {s t : State} (h : s.LooksLike t) (name : String) :
    t.get? name = s.get? name := by
  simp only [State.get?, h.locals, h.globals]

/-- What is found out about a state depends on no more than that. -/
def Outward {α : Type} (f : State → α) : Prop := ∀ s t : State, s.LooksLike t → f t = f s

theorem Outward.oblivious {α : Type} {f : State → α} (hf : Outward f) : Oblivious f where
  calm s := hf s s.calm ⟨rfl, rfl, fun _ => rfl, rfl, rfl, rfl⟩
  snooping s b := hf s (s.snooping b) ⟨rfl, rfl, fun _ => rfl, rfl, rfl, rfl⟩

/-- The effect stores a procedure. -/
def Effect.stores : Effect → Bool
  | .store _ => true
  | _ => false

/-- A computation that evaluates nothing else: it looks at the state, but neither at what its
procedures are nor at whether scripts are to stop, has effects on it, or fails. -/
inductive Plain : {α : Type} → Run α → Prop
  | look {α : Type} (f : State → α) (hf : Outward f) : Plain fun s => .ok (f s) s
  | act (e : Effect) (he : e.stores = false) : Plain fun s => .ok () (e.apply s)
  | fail {α : Type} (cause : Cause) : Plain (Run.fail cause : Run α)
  | endless {α : Type} : Plain (throw .endless : Run α)
  | bind {α β : Type} {x : Run α} {f : α → Run β} :
      Plain x → (∀ a, Plain (f a)) → Plain (x >>= f)

namespace Plain

variable {α β : Type}

theorem pure (a : α) : Plain (pure a : Run α) :=
  look (fun _ => a) fun _ _ _ => rfl

theorem ofExcept (r : Except Cause α) : Plain (Run.ofExcept r) := by
  cases r with
  | ok a => exact pure a
  | error cause => exact fail cause

theorem ended (r : Option α) : Plain (Run.ended r) := by
  cases r with
  | some a => exact pure a
  | none => exact endless

/-- To look at the state first and to go on accordingly is to go on. -/
theorem of_look {x : Run β} (f : State → α) (hf : Outward f) (g : α → Run β)
    (hx : ∀ s, x s = g (f s) s) (hg : ∀ a, Plain (g a)) : Plain x := by
  have hshape : x = (fun s => .ok (f s) s : Run α) >>= g := by
    funext s
    rw [hx]
    rfl
  rw [hshape]
  exact bind (look f hf) hg

/-- To look for something, and to go on with it or without it. -/
theorem of_option {x : Run β} (f : State → Option α) (hf : Outward f)
    (missing : Run β) (found : α → Run β)
    (hnone : ∀ s, f s = none → x s = missing s) (hsome : ∀ s a, f s = some a → x s = found a s)
    (hmissing : Plain missing) (hfound : ∀ a, Plain (found a)) : Plain x := by
  apply of_look f hf fun r => r.elim missing found
  · intro s
    cases h : f s with
    | none => exact hnone s h
    | some a => exact hsome s a h
  · intro r
    cases r with
    | none => exact hmissing
    | some a => exact hfound a

/-- To look at the state and to have an effect on it. -/
theorem of_act {x : Run α} (f : State → α) (hf : Outward f) (e : Effect) (he : e.stores = false)
    (hx : ∀ s, x s = .ok (f s) (e.apply s)) : Plain x := by
  have hshape : x = (fun s => .ok (f s) s : Run α) >>= fun a =>
      (fun s => .ok () (e.apply s) : Run Unit) >>= fun _ => Pure.pure a := by
    funext s
    rw [hx]
    rfl
  rw [hshape]
  exact bind (look f hf) fun a => bind (act e he) fun _ => pure a

end Plain

theorem plain_bindVariable (name : String) (v : Value) : Plain (Run.bindVariable name v) :=
  .act (.write name (v.bindTo name)) rfl

theorem plain_freshId : Plain Run.freshId :=
  .of_act (fun s => s.machine.fresh) (fun _ _ h => h.fresh) .renew rfl fun _ => rfl

/-- The walk over an iterator that can be walked once. -/
theorem plain_walkOnce (id : Nat) (w : Walk Value) :
    Plain (fun s => if s.machine.spent.contains id then Run.fail .alreadyWalked s
      else .ok w { s with machine := { s.machine with spent := id :: s.machine.spent } } :
        Run (Walk Value)) := by
  let go : Bool → Run (Walk Value)
    | true => Run.fail .alreadyWalked
    | false => fun s => .ok w ((Effect.spend id).apply s)
  apply Plain.of_look (fun s => s.machine.spent.contains id)
    (fun _ _ h => by simp only [h.spent]) go
  · intro s
    cases h : s.machine.spent.contains id
    · simp only [go]
      rfl
    · simp only [go]
      rfl
  · intro spent
    cases spent with
    | true => exact .fail _
    | false => exact .of_act (fun _ => w) (fun _ _ _ => rfl) (.spend id) rfl fun _ => rfl

theorem plain_walk (v : Value) : Plain v.walk := by
  obtain ⟨binding, datum⟩ := v
  cases datum with
  | list items => exact .pure (Walk.items items)
  | iterator id once walk =>
    cases once with
    | false => exact .pure walk
    | true => exact plain_walkOnce id walk
  | _ => exact .fail _

theorem plain_elements (v : Value) : Plain v.elements :=
  .bind (plain_walk v) fun w => .ended w.toList?

theorem plain_readVariable (name : String) (isTarget : Bool) :
    Plain (readVariable name isTarget) := by
  apply Plain.of_option (fun s => s.get? name) (fun _ _ h => h.get? name)
    (if isTarget then Pure.pure (Value.null.bindTo name) else Run.fail (.undefinedVariable name))
    fun v => Pure.pure (v.bindTo name)
  · intro s h
    simp only [readVariable, h]
    split <;> rfl
  · intro s v h
    simp only [readVariable, h]
    rfl
  · split
    · exact .pure _
    · exact .fail _
  · intro v
    exact .pure _

theorem plain_bindAll (bindings : List (String × Value)) : Plain (bindAll bindings) := by
  induction bindings with
  | nil => exact .pure ()
  | cons binding rest ih => exact .bind (plain_bindVariable binding.1 binding.2) fun _ => ih

mutual

theorem plain_assign : ∀ target value : Value, Plain (assign target value)
  | ⟨some name, _⟩, value => by
    unfold assign
    exact .bind (plain_bindVariable name value) fun _ => .pure value
  | ⟨none, .list targets⟩, value => by
    unfold assign
    split
    · split
      · exact .bind (plain_assignAll targets _) fun _ => .pure value
      · exact .fail _
    · exact .fail _
  | ⟨none, .null⟩, _ | ⟨none, .number _⟩, _ | ⟨none, .text _⟩, _ | ⟨none, .iterator ..⟩, _
  | ⟨none, .host ..⟩, _ => by
    unfold assign
    exact .fail _

theorem plain_assignAll : ∀ targets values : List Value, Plain (assignAll targets values)
  | target :: targets, value :: values => by
    unfold assignAll
    exact .bind (plain_assign target value.unbound) fun _ => plain_assignAll targets values
  | [], _ | _ :: _, [] => by
    unfold assignAll
    exact .pure ()

end

theorem plain_elementAt (v index : Value) : Plain (elementAt v index) := by
  unfold elementAt
  refine .bind (.ofExcept _) fun i => ?_
  split
  · exact .pure _
  · exact .pure _
  · split
    · refine .bind (plain_walk _) fun w => ?_
      split
      · exact .pure _
      · exact .pure _
      · exact .endless
    · exact .fail _
  · exact .fail _

theorem plain_rangeOf (start stop step : Float) : Plain (rangeOf start stop step) := by
  unfold rangeOf
  split
  · exact .fail _
  · exact .bind plain_freshId fun _ => .pure _

theorem plain_range (values : List Value) : Plain (range values) := by
  unfold range
  split
  · exact .fail _
  · refine .bind (.ofExcept _) fun xs => ?_
    split <;> exact plain_rangeOf _ _ _

theorem plain_length (v : Value) : Plain (length v) := by
  unfold length
  split
  · exact .pure _
  · exact .bind (plain_walk _) fun w => .bind (.ended _) fun n => .pure _
  · exact .pure _
  · exact .pure _

theorem plain_slice (v start : Value) (stop : Option Value) : Plain (slice v start stop) := by
  unfold slice
  split
  · exact .ofExcept _
  · exact .bind (plain_elements _) fun items => .ofExcept _

theorem plain_join (separator : Value) (values : List Value) :
    Plain (join separator values) := by
  unfold join
  dsimp only
  split
  · exact .bind (plain_elements _) fun items => .pure _
  · exact .bind (plain_elements _) fun items => .pure _
  · exact .pure _

theorem plain_draw (v : Value) : Plain (draw v) := by
  refine .bind ?_ fun unit => .bind (.ofExcept _) fun x => .pure _
  exact .of_act (fun s => randomUnit (nextRandom s.machine.random))
    (fun _ _ h => by simp only [h.random]) .draw rfl fun _ => rfl

/-! ## Calls of procedures -/

/-- The procedure of a name, if there is one. -/
def findProcedure (name : String) : Run (Option Procedure) := fun s =>
  .ok (s.machine.procedures.get? name) s

/-- What a call does before the body of its procedure is entered: the procedure is found, and the
arguments are evaluated. -/
def prepareCall (name : String) (args : List Lazy) : Run (Procedure × Registry Value) := do
  match ← findProcedure name with
  | none => Run.fail (.undefinedFunction name)
  | some p =>
    if args.length ≠ p.params.length then
      Run.fail (.wrongArgumentCount p.name p.params.length args.length)
    else
      let scope ← bindArguments p.params args .empty
      return (p, scope)

theorem callNamed_eq_prepareCall (run : Expr → Lazy) (name : String) (args : List Lazy)
    (k : Kind) :
    callNamed run name args k =
      prepareCall name args >>= fun call => enter call.1.name call.2 (run call.1.body k) := by
  funext s
  unfold prepareCall
  rw [bind_assoc, Run.bind_of_ok (rfl : findProcedure name s = .ok _ s)]
  cases hp : s.machine.procedures.get? name with
  | none =>
    simp only [callNamed, hp]
    rfl
  | some p =>
    simp only [callNamed, hp, Procedure.call]
    split
    · rfl
    · rw [bind_assoc]
      rfl

theorem calling_eq (run : Expr → Lazy) (k : Kind) (name : Lazy) (args : List Lazy) :
    (calling.apply run k (name :: args) >>= fun r => r k) =
      name .value >>= fun v => callNamed run v.display args k := by
  simp only [calling, callByName, bind_assoc, pure_bind, Lazy.of, bind_pure]

/-! ## Families of computations -/

/-- A property of families of computations that the whole has if its parts have it. Of a family
that has it all members go on with the same result, so far as they go on. -/
structure Weave {ι : Type} (P : (α : Type) → (ι → Run α) → Prop) : Prop where
  plain : ∀ {α : Type} {x : Run α}, Plain x → P α fun _ => x
  bind : ∀ {α β : Type} {x : ι → Run α} {f : α → ι → Run β},
    P α x → (∀ a, P β (f a)) → P β fun i => x i >>= fun a => f a i
  looping : ∀ {α : Type} {x : ι → Run α} (loop : Loop),
    P α x → P α fun i => Run.restoring loop.names (x i)

/-- Such a property that holds as well where procedures are looked for and stored. -/
structure CallWeave {ι : Type} (P : (α : Type) → (ι → Run α) → Prop) : Prop extends Weave P where
  find : ∀ name, P (Option Procedure) fun _ => findProcedure name
  store : ∀ p, P Unit fun _ => defineProcedure p

section Families

variable {ι : Type}

/-- The property holds of these operands, whatever their results are wanted for. -/
def Threads (P : (α : Type) → (ι → Run α) → Prop) (x : ι → Lazy) : Prop :=
  ∀ k, P Value fun i => x i k

/-- An operator of this role hands the property on from its operands. -/
def BinaryRole.Threads (P : (α : Type) → (ι → Run α) → Prop) : BinaryRole → Prop
  | .evaluates apply | .assigns apply =>
    ∀ k left right, TickScript.Threads P left → TickScript.Threads P right →
      P Value fun i => apply k (left i) (right i)
  | .defines | .sequences => True

def UnaryOperator.Threads (P : (α : Type) → (ι → Run α) → Prop) (op : UnaryOperator) : Prop :=
  ∀ k operand, TickScript.Threads P operand → P Value fun i => op.apply k (operand i)

/-- The function, whose result is evaluated in its place, hands the property on from its
operands. -/
def Native.Threads (P : (α : Type) → (ι → Run α) → Prop) (run : ι → Expr → Lazy) (f : Native) :
    Prop :=
  ∀ args : List (ι → Lazy), (∀ x ∈ args, TickScript.Threads P x) →
    ∀ k, P Value fun i => f.apply (run i) k (args.map (· i)) >>= fun r => r k

end Families

/-! ## Simple operators and functions -/

section Simple

variable (Own : (α : Type) → Run α → Prop)

/-- An operator of this role does nothing but to evaluate its operands, in between plain
computations and such steps of its own. -/
def BinaryRole.IsSimple (role : BinaryRole) : Prop :=
  ∀ {ι : Type} {P : (α : Type) → (ι → Run α) → Prop}, Weave P →
    (∀ {α : Type} {x : Run α}, Own α x → P α fun _ => x) → role.Threads P

def UnaryOperator.IsSimple (op : UnaryOperator) : Prop :=
  ∀ {ι : Type} {P : (α : Type) → (ι → Run α) → Prop}, Weave P →
    (∀ {α : Type} {x : Run α}, Own α x → P α fun _ => x) → op.Threads P

/-- The function does nothing but to evaluate its operands, in between plain computations and
such steps of its own. -/
def Native.IsSimple (f : Native) : Prop :=
  ∀ {ι : Type} {P : (α : Type) → (ι → Run α) → Prop}, Weave P →
    (∀ {α : Type} {x : Run α}, Own α x → P α fun _ => x) → ∀ run, f.Threads P run

end Simple

namespace Weave

variable {ι σ : Type} {P : (α : Type) → (ι → Run α) → Prop} (hP : Weave P)
  {args : List (ι → Lazy)} {left right : ι → Lazy} {run : ι → Expr → Lazy}

include hP

theorem pure {α : Type} (a : α) : P α fun _ => Pure.pure a := hP.plain (.pure a)

theorem truth {x : ι → Lazy} (h : Threads P x) : P Bool fun i => (x i).truth :=
  hP.bind (h .boolean) fun v => hP.pure v.truth

theorem forceAll (h : ∀ x ∈ args, Threads P x) :
    P (List Value) fun i => Lazy.forceAll (args.map (· i)) := by
  induction args with
  | nil => exact hP.pure []
  | cons x rest ih =>
    refine hP.bind (h x (by simp) .value) fun v => ?_
    refine hP.bind (ih fun y hy => h y (by simp [hy])) fun vs => ?_
    exact hP.pure (v :: vs)

/-! ## Operators -/

theorem onValues {f : Value → Value → Run Value} (hf : ∀ a b, Plain (f a b)) (k : Kind)
    (hl : Threads P left) (hr : Threads P right) :
    P Value fun i => Library.onValues f k (left i) (right i) :=
  hP.bind (hl .value) fun a => hP.bind (hr .value) fun b => hP.plain (hf a b)

theorem conjunction (k : Kind) (hl : Threads P left) (hr : Threads P right) :
    P Value fun i => Library.conjunction k (left i) (right i) := by
  refine hP.bind (hP.truth hl) fun a => ?_
  cases a with
  | true => exact hP.bind (hP.truth hr) fun b => hP.pure _
  | false => exact hP.pure _

theorem disjunction (k : Kind) (hl : Threads P left) (hr : Threads P right) :
    P Value fun i => Library.disjunction k (left i) (right i) := by
  refine hP.bind (hP.truth hl) fun a => ?_
  cases a with
  | true => exact hP.pure _
  | false => exact hP.bind (hP.truth hr) fun b => hP.pure _

theorem swap (k : Kind) (hl : Threads P left) (hr : Threads P right) :
    P Value fun i => Library.swap k (left i) (right i) := by
  refine hP.bind (hl .value) fun a => hP.bind (hr .value) fun b => hP.plain ?_
  split
  · exact .bind (plain_bindVariable _ b) fun _ =>
      .bind (plain_bindVariable _ a) fun _ => .pure _
  · exact .fail _

theorem role {role : BinaryRole} (h : StandardRole role) : role.Threads P := by
  cases h with
  | element => exact fun k _ _ => hP.onValues plain_elementAt k
  | search | arithmetic op => exact fun k _ _ => hP.onValues (fun _ _ => .ofExcept _) k
  | relation holds => exact fun k _ _ => hP.onValues (fun _ _ => .pure _) k
  | conjunction => exact fun k _ _ => hP.conjunction k
  | disjunction => exact fun k _ _ => hP.disjunction k
  | assignPlain =>
    exact fun _ _ _ hl hr => hP.bind (hl .value) fun target => hP.bind (hr .value) fun v =>
      hP.plain (plain_assign target v.unbound)
  | assignSum =>
    exact fun _ _ _ hl hr => hP.bind (hl .value) fun target => hP.bind (hr .value) fun v =>
      hP.plain (.bind (.ofExcept _) fun sum => plain_assign target sum)
  | swap => exact fun k _ _ => hP.swap k
  | defines | sequences => trivial

theorem unary {spelling : String} {op : UnaryOperator}
    (h : Language.standard.unary? spelling = some op) : op.Threads P := by
  intro k operand hoperand
  rcases Language.unary?_standard h with hop | hop | hop
  · rw [hop]
    exact hP.bind (hoperand .value) fun v => hP.plain (.ofExcept _)
  · rw [hop]
    refine hP.bind (hoperand .value) fun v => hP.plain ?_
    split
    · exact .pure _
    · exact .ofExcept _
  · rw [hop]
    exact hP.bind (hP.truth hoperand) fun b => hP.pure _

/-! ## Functions -/

/-- A function that evaluates its operands goes on with their values. -/
theorem eager (arity : Arity) {f : List Value → Run Value}
    (hf : ∀ values, P Value fun _ => f values) : (Native.eager arity f).Threads P run := by
  intro args hargs k
  have hshape :
      (fun i => (Native.eager arity f).apply (run i) k (args.map (· i)) >>= fun r => r k) =
      fun i => Lazy.forceAll (args.map (· i)) >>= fun values => f values := by
    funext i
    simp only [Native.eager, bind_assoc, pure_bind, Lazy.of, bind_pure]
  rw [hshape]
  exact hP.bind (hP.forceAll hargs) hf

theorem ofOne {apply : Kind → Lazy → Run Lazy}
    (h : ∀ k (x : ι → Lazy), Threads P x → P Value fun i => apply k (x i) >>= fun r => r k) :
    (Native.ofOne apply).Threads P run := by
  intro args hargs k
  match args with
  | [x] => exact h k x (hargs x (by simp))
  | [] | _ :: _ :: _ => exact hP.pure Value.null

theorem choose (k : Kind) : ∀ {args : List (ι → Lazy)}, (∀ x ∈ args, Threads P x) →
    P Value fun i => Library.choose (args.map (· i)) >>= fun r => r k
  | [], _ => hP.pure Value.null
  | [otherwise], h => h otherwise (by simp) k
  | condition :: consequence :: rest, h => by
    have hshape : (fun i => Library.choose ((condition :: consequence :: rest).map (· i)) >>=
        fun r => r k) = fun i => (condition i).truth >>= fun holds =>
          (if holds then Pure.pure (consequence i) else Library.choose (rest.map (· i))) >>=
            fun r => r k := by
      funext i
      simp only [List.map_cons, Library.choose, bind_assoc]
    rw [hshape]
    refine hP.bind (hP.truth (h condition (by simp))) fun holds => ?_
    cases holds with
    | true => exact h consequence (by simp) k
    | false => exact choose k fun x hx => h x (by simp [hx])

/-! ## Loops -/

theorem walkOf {x : ι → Lazy} (h : Threads P x) : P (Walk Value) fun i => TickScript.walkOf (x i) :=
  hP.bind (h .value) fun v => hP.plain (plain_walk v)

theorem roundsOf (what : String) {x : ι → Lazy} (h : Threads P x) :
    P Nat fun i => TickScript.roundsOf what (x i) :=
  hP.bind (h .value) fun _ => hP.bind (hP.plain (.ofExcept _)) fun _ => hP.pure _

theorem coordinate {x : ι → Lazy} (h : Threads P x) : P Int fun i => Library.coordinate (x i) :=
  hP.bind (h .value) fun _ => hP.bind (hP.plain (.ofExcept _)) fun _ => hP.pure _

section Operands

variable (hargs : ∀ x ∈ args, Threads P x) {loop : Loop}
  (haccepts : loop.native.arity.accepts args.length = true)

include hargs haccepts

theorem tour : P (Nat × Rounds) fun i => loop.tour (args.map (· i)) := by
  cases loop with
  | repeated =>
    match args, haccepts with
    | [times, _], _ => exact hP.bind (hP.roundsOf "loop" (hargs times (by simp))) fun n => hP.pure _
  | whilst =>
    match args, haccepts with
    | [_, limit, _], _ =>
      exact hP.bind (hP.roundsOf "while" (hargs limit (by simp))) fun n => hP.pure _
  | volume =>
    match args, haccepts with
    | [x1, y1, z1, x2, y2, z2, _], _ =>
      have hcoordinate := fun x hx => hP.coordinate (hargs x hx)
      have hbox : P Box fun i => boxOf (x1 i) (y1 i) (z1 i) (x2 i) (y2 i) (z2 i) :=
        hP.bind (hcoordinate x1 (by simp)) fun _ => hP.bind (hcoordinate y1 (by simp)) fun _ =>
        hP.bind (hcoordinate z1 (by simp)) fun _ => hP.bind (hcoordinate x2 (by simp)) fun _ =>
        hP.bind (hcoordinate y2 (by simp)) fun _ => hP.bind (hcoordinate z2 (by simp)) fun _ =>
        hP.pure _
      exact hP.bind hbox fun box => hP.pure _
  | count | map | filter | first | all =>
    match args, haccepts with
    | [elements, _], _ => exact hP.bind (hP.walkOf (hargs elements (by simp))) fun w => hP.pure _

theorem round (k : Kind) (result : loop.Result) (v : Value) :
    P (loop.Result × Bool) fun i => loop.round k (args.map (· i)) result v := by
  cases loop with
  | repeated =>
    match args, haccepts with
    | [_, body], _ => exact hP.bind (hargs body (by simp) k) fun _ => hP.pure _
  | whilst =>
    match args, haccepts with
    | [condition, _, body], _ =>
      refine hP.bind (hP.truth (hargs condition (by simp))) fun holds => ?_
      cases holds with
      | true => exact hP.bind (hargs body (by simp) k) fun _ => hP.pure _
      | false => exact hP.pure _
  | volume =>
    match args, haccepts with
    | [_, _, _, _, _, _, body], _ =>
      exact hP.bind (hP.truth (hargs body (by simp))) fun _ => hP.pure _
  | map =>
    match args, haccepts with
    | [_, body], _ => exact hP.bind (hargs body (by simp) .value) fun _ => hP.pure _
  | count | filter | first | all =>
    match args, haccepts with
    | [_, body], _ => exact hP.bind (hP.truth (hargs body (by simp))) fun _ => hP.pure _

end Operands

section Loops

variable (hcheck : P Unit fun _ => Run.checkStop)

include hcheck

theorem circle {round : ι → σ → Value → Run (σ × Bool)}
    (h : ∀ r v, P (σ × Bool) fun i => round i r v) (bound : Nat) (rounds : Rounds) (result : σ) :
    P σ fun i => TickScript.circle (round i) bound rounds result := by
  induction bound generalizing rounds result with
  | zero => exact hP.plain .endless
  | succ bound ih =>
    unfold TickScript.circle
    cases rounds 0 with
    | none => exact hP.pure result
    | some first =>
      refine hP.bind hcheck fun _ => hP.bind (hP.plain (plain_bindAll first.2)) fun _ =>
        hP.bind (h result first.1) fun next => ?_
      cases next.2 with
      | true => exact ih _ next.1
      | false => exact hP.pure next.1

/-- All loops hand on from their operands what holds of the check as well. -/
theorem loop (loop : Loop) : loop.native.Threads P run := by
  intro args hargs k
  cases haccepts : loop.native.arity.accepts args.length with
  | true =>
    have hlength : ∀ i : ι, loop.native.arity.accepts (args.map (· i)).length = true :=
      fun i => by simpa using haccepts
    simp only [fun i => loop.native_eq (run i) k (hlength i)]
    exact hP.bind (hP.tour hargs haccepts) fun tour => hP.bind (hP.looping loop
      (hP.circle hcheck (hP.round hargs haccepts k) _ _ _)) fun r => hP.pure _
  | false =>
    have hlength : ∀ i : ι, loop.native.arity.accepts (args.map (· i)).length = false :=
      fun i => by simpa using haccepts
    simp only [fun i => loop.native_of_not_accepts (run i) k (hlength i)]
    exact hP.pure _

end Loops

/-! ## Calls -/

theorem bindArguments (params : List String) (scope : Registry Value)
    (h : ∀ x ∈ args, Threads P x) :
    P (Registry Value) fun i => TickScript.bindArguments params (args.map (· i)) scope := by
  induction params generalizing args scope with
  | nil => exact hP.pure scope
  | cons param params ih =>
    cases args with
    | nil => exact hP.pure scope
    | cons arg args =>
      have hrest : ∀ x ∈ args, Threads P x := fun x hx => h x (by simp [hx])
      refine hP.bind (h arg (by simp) .value) fun v => ?_
      cases isGlobalName param with
      | true => exact hP.bind (hP.plain (.act (.define param v) rfl)) fun _ => ih scope hrest
      | false => exact ih _ hrest

theorem ticking (hyield : ∀ budget, P Unit fun i => yield (run i) budget) :
    Library.ticking.Threads P run := by
  intro args hargs k
  match args with
  | [] =>
    simp only [Library.ticking, gameTick, List.map_nil, bind_assoc, pure_bind]
    exact hP.bind (hyield none) fun _ => hP.pure (Value.boolean true)
  | [x] =>
    simp only [Library.ticking, gameTick, List.map_cons, List.map_nil, bind_assoc, pure_bind]
    exact hP.bind (hargs x (by simp) .value) fun v => hP.bind (hP.plain (.ofExcept _)) fun n =>
      hP.bind (hyield _) fun _ => hP.pure (Value.boolean true)
  | _ :: _ :: _ =>
    simp only [Library.ticking, gameTick, List.map_cons, List.length_cons, List.length_map]
    exact hP.plain (.fail _)

end Weave

namespace CallWeave

variable {ι : Type} {P : (α : Type) → (ι → Run α) → Prop} (hP : CallWeave P)
  {args : List (ι → Lazy)} {run : ι → Expr → Lazy}

include hP

theorem prepareCall (name : String) (h : ∀ x ∈ args, Threads P x) :
    P (Procedure × Registry Value) fun i => TickScript.prepareCall name (args.map (· i)) := by
  refine hP.bind (hP.find name) fun found => ?_
  cases found with
  | none => exact hP.plain (.fail _)
  | some p =>
    simp only [List.length_map]
    split
    · exact hP.plain (.fail _)
    · exact hP.bind (hP.bindArguments p.params .empty h) fun scope => hP.pure _

section Bodies

variable (henter : ∀ procedure scope e k, P Value fun i => enter procedure scope (run i e k))

include henter

theorem callNamed (name : String) (h : ∀ x ∈ args, Threads P x) (k : Kind) :
    P Value fun i => TickScript.callNamed (run i) name (args.map (· i)) k := by
  simp only [callNamed_eq_prepareCall]
  exact hP.bind (hP.prepareCall name h) fun call => henter _ _ _ k

theorem calling : Library.calling.Threads P run := by
  intro args hargs k
  match args with
  | [] => exact hP.pure Value.null
  | name :: args =>
    simp only [List.map_cons, calling_eq]
    exact hP.bind (hargs name (by simp) .value) fun v =>
      hP.callNamed henter v.display (fun x hx => hargs x (by simp [hx])) k

end Bodies

end CallWeave

/-! ## The standard functions -/

variable {Own : (α : Type) → Run α → Prop}

namespace Native

theorem simple_eager (arity : Arity) {f : List Value → Run Value}
    (hf : ∀ values, Plain (f values)) : (Native.eager arity f).IsSimple Own :=
  fun hP _ _ => hP.eager arity fun values => hP.plain (hf values)

theorem simple_eagerOne {f : Value → Run Value} (hf : ∀ v, Plain (f v)) :
    (Native.eagerOne f).IsSimple Own := by
  refine simple_eager _ fun values => ?_
  split
  · exact hf _
  · exact .pure _

theorem simple_eagerTwo {f : Value → Value → Run Value} (hf : ∀ v w, Plain (f v w)) :
    (Native.eagerTwo f).IsSimple Own := by
  refine simple_eager _ fun values => ?_
  split
  · exact hf _ _
  · exact .pure _

/-- A function that goes on with the value of its operand. -/
theorem simple_ofOne {apply : Kind → Lazy → Run Lazy} (wanted : Kind) (f : Value → Run Value)
    (hshape : ∀ k x, (apply k x >>= fun r => r k) = x wanted >>= f) (hf : ∀ v, Plain (f v)) :
    (Native.ofOne apply).IsSimple Own := by
  intro ι P hP _ run
  refine hP.ofOne fun k x hx => ?_
  simp only [hshape]
  exact hP.bind (hx wanted) fun v => hP.plain (hf v)

end Native

theorem simple_lists : ∀ entry ∈ lists, entry.2.IsSimple Own := by
  simp only [lists, List.forall_mem_cons]
  refine ⟨Native.simple_eager _ fun _ => .pure _, Native.simple_eager _ plain_range,
    Native.simple_eagerTwo plain_elementAt, Native.simple_eagerOne plain_length,
    Native.simple_eager _ fun values => ?_,
    Native.simple_eagerOne fun v => .bind (plain_elements v) fun items => .pure _,
    Native.simple_eager _ fun values => ?_, by simp⟩
  · split
    · exact plain_slice _ _ _
    · exact plain_slice _ _ _
    · exact .fail _
  · split
    · exact plain_join _ _
    · exact .pure _

theorem plain_forgetName (name : String) : Plain (forgetName name) := by
  apply Plain.of_act (fun s => s.machine.procedures.contains name ||
    if isGlobalName name then s.machine.globals.contains name
    else s.locals.contains name) ?_ (.forget name) rfl
  · intro s
    by_cases hglobal : isGlobalName name = true
    · simp [forgetName, State.erase, Effect.apply, hglobal]
    · simp [forgetName, State.erase, Effect.apply, hglobal]
  · intro s t h
    simp only [h.procedures, h.globals, h.locals]

theorem simple_values : ∀ entry ∈ values, entry.2.IsSimple Own := by
  simp only [values, List.forall_mem_cons]
  refine ⟨?var, ?undef, ?print, Native.simple_eagerOne fun v => .pure _,
    Native.simple_eagerOne fun v => .pure _, Native.simple_eagerOne fun v => .pure _,
    Native.simple_eagerOne fun v => .pure _, ?not, Native.simple_eagerOne fun v => .pure _,
    Native.simple_eagerOne fun v => .pure _, by simp⟩
  case var =>
    refine Native.simple_ofOne .value (fun v => Run.getVariable? v.display >>= fun found =>
      pure ((found.getD .null).bindTo v.display)) (fun k x => ?_) fun v => ?_
    · simp only [variableNamed, bind_assoc, pure_bind, Lazy.of]
    · exact .bind (.look (fun s => s.get? v.display) fun _ _ h => h.get? v.display) fun _ => .pure _
  case undef =>
    refine Native.simple_ofOne .value (fun v => forgetName v.display >>= fun found =>
      pure (.boolean found)) (fun k x => ?_) fun v => ?_
    · simp only [forget, bind_assoc, pure_bind, Lazy.of]
    · exact .bind (plain_forgetName v.display) fun _ => .pure _
  case print =>
    refine Native.simple_ofOne .value (fun v => Run.modifyMachine (·.print v.display) >>= fun _ =>
      pure v) (fun k x => ?_) fun v => ?_
    · simp only [printValue, bind_assoc, pure_bind, Lazy.of]
    · exact .bind (.act (.print v.display) rfl) fun _ => .pure _
  case not =>
    refine Native.simple_ofOne .boolean (fun v => pure (.boolean !v.truth)) (fun k x => ?_) fun v =>
      .pure _
    simp only [negate, Lazy.truth, bind_assoc, pure_bind, Lazy.of]

theorem simple_math : ∀ entry ∈ math, entry.2.IsSimple Own := by
  have hnumber : ∀ name f, (ofNumber name f).2.IsSimple Own := fun name f =>
    Native.simple_eagerOne fun v => .bind (.ofExcept _) fun x => .ofExcept _
  simp only [math, List.forall_mem_cons, hnumber, true_and]
  refine ⟨Native.simple_eagerTwo fun y x => ?_, Native.simple_eager _ fun values => ?_,
    Native.simple_eager _ fun values => ?_, Native.simple_eagerOne plain_draw, by simp⟩
  · exact .bind (.ofExcept _) fun _ => .bind (.ofExcept _) fun _ => .ofExcept _
  · split <;> exact .pure _
  · split <;> exact .pure _

theorem simple_patterns : ∀ entry ∈ patterns, entry.2.IsSimple Own := by
  simp only [patterns, List.forall_mem_cons]
  refine ⟨Native.simple_eagerTwo fun _ _ => .ofExcept _, Native.simple_eager _ fun values => ?_,
    by simp⟩
  split
  · exact .ofExcept _
  · exact .ofExcept _
  · exact .fail _

/-- The function is simple, or it is a loop, the call by name or the yield. -/
def Native.IsOrdinary (Own : (α : Type) → Run α → Prop) (f : Native) : Prop :=
  f.IsSimple Own ∨ (∃ loop : Loop, f = loop.native) ∨ f = calling ∨ f = ticking

theorem Native.ordinary_standard {name : String} {f : Native}
    (h : Language.standard.function? name = some f) : f.IsOrdinary Own := by
  have hcontrol : ∀ entry ∈ Library.control, entry.2.IsOrdinary Own := by
    have hchoosing : choosing.IsSimple Own := fun hP _ _ args hargs k => hP.choose k hargs
    simp only [Library.control, List.forall_mem_cons]
    exact ⟨.inl hchoosing, .inr (.inl ⟨.repeated, rfl⟩), .inr (.inl ⟨.whilst, rfl⟩),
      .inr (.inl ⟨.count, rfl⟩), .inr (.inl ⟨.map, rfl⟩), .inr (.inl ⟨.filter, rfl⟩),
      .inr (.inl ⟨.first, rfl⟩), .inr (.inl ⟨.all, rfl⟩), .inr (.inl ⟨.volume, rfl⟩),
      .inr (.inr (.inl rfl)), .inr (.inr (.inr rfl)), by simp⟩
  exact Language.function?_standard hcontrol (fun entry he => .inl (simple_lists entry he))
    (fun entry he => .inl (simple_values entry he)) (fun entry he => .inl (simple_math entry he))
    (fun entry he => .inl (simple_patterns entry he)) h

end TickScript
