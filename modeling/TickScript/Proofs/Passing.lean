-- Passing arguments to a procedure. The arguments are evaluated where the procedure is called, one
-- after the other, and the parameters stand for their values in a scope of the body's own. Only a
-- parameter with a global name is seen outside, since such a name belongs to the machine wherever
-- it is used.
import TickScript.Eval
import TickScript.Library
import TickScript.Proofs.Runs
import TickScript.Proofs.Scopes

namespace TickScript

/-! ## Parameters -/

/-- An argument that is passed to a parameter. If the parameter has a global name, the machine has
the value under this name from then on. -/
def Lazy.passedTo (param : String) (arg : Lazy) : Lazy := fun kind => do
  let v ← arg kind
  if isGlobalName param then
    Run.bindVariable param v
  return v

/-- What the parameters stand for in the body, but for those with global names. -/
def localBindings (params : List String) (values : List Value) : List (String × Value) :=
  ((params.zip values).filter fun b => !isGlobalName b.1).map fun b => (b.1, b.2.bindTo b.1)

theorem Lazy.passedTo_of_local {param : String} (h : isGlobalName param = false) (arg : Lazy) :
    Lazy.passedTo param arg = arg := by
  funext kind
  simp [Lazy.passedTo, h]

theorem Run.modifyMachine_define {name : String} (h : isGlobalName name = true) (v : Value) :
    Run.modifyMachine (·.define name v) = Run.bindVariable name v := by
  funext s
  simp only [Run.modifyMachine, Run.bindVariable, State.set_of_global h, Machine.define]

theorem zipWith_passedTo_of_local {params : List String}
    (h : ∀ param ∈ params, isGlobalName param = false) {args : List Lazy}
    (hcount : args.length = params.length) : List.zipWith Lazy.passedTo params args = args := by
  induction params generalizing args with
  | nil => exact (List.length_eq_zero_iff.mp hcount).symm
  | cons param params ih =>
    obtain ⟨hparam, hparams⟩ := List.forall_mem_cons.mp h
    cases args with
    | nil => cases hcount
    | cons arg args =>
      rw [List.zipWith_cons_cons, Lazy.passedTo_of_local hparam, ih hparams (Nat.succ.inj hcount)]

theorem localBindings_of_local {params : List String}
    (h : ∀ param ∈ params, isGlobalName param = false) (values : List Value) :
    localBindings params values = (params.zip values).map fun b => (b.1, b.2.bindTo b.1) := by
  unfold localBindings
  rw [List.filter_eq_self.mpr]
  intro b hb
  simp [h b.1 (List.of_mem_zip hb).1]

/-- Binding the parameters is evaluating the arguments that are passed to them. -/
theorem bindArguments_eq {params : List String} {args : List Lazy}
    (hcount : args.length = params.length) (scope : Registry Value) :
    bindArguments params args scope =
      Lazy.forceAll (List.zipWith Lazy.passedTo params args) >>= fun values =>
        pure ((localBindings params values).foldl (fun r b => r.set b.1 b.2) scope) := by
  induction params generalizing args scope with
  | nil =>
    obtain rfl := List.length_eq_zero_iff.mp hcount
    rfl
  | cons param params ih =>
    cases args with
    | nil => cases hcount
    | cons arg args =>
      have hrest := ih (Nat.succ.inj hcount)
      -- A global name is written at once, and any other only into the scope that is built up.
      cases h : isGlobalName param with
      | true =>
        simp only [bindArguments, h, ↓reduceIte, Run.modifyMachine_define h, hrest,
          List.zipWith_cons_cons, Lazy.forceAll, Lazy.passedTo, localBindings, bind_assoc,
          pure_bind, List.zip_cons_cons, List.filter_cons, Bool.not_true, Bool.false_eq_true]
      | false =>
        simp only [bindArguments, h, ↓reduceIte, hrest, List.zipWith_cons_cons, Lazy.forceAll,
          Lazy.passedTo, localBindings, bind_assoc, pure_bind, List.zip_cons_cons,
          List.filter_cons, Bool.not_false, Bool.false_eq_true, List.map_cons, List.foldl_cons]

/-! ## Calls -/

section

variable {run : Expr → Lazy} {name : String} {p : Procedure} {args : List Lazy} {kind : Kind}
  {s t : State} (hp : s.machine.procedures.get? name = some p)

include hp

theorem Run.callNamed_of_count (hcount : args.length ≠ p.params.length) :
    callNamed run name args kind s =
      .error (.fault (.ofCause (.wrongArgumentCount p.name p.params.length args.length))) s := by
  simp only [callNamed, hp, Procedure.call, ne_eq, hcount, not_false_eq_true, ↓reduceIte]
  rfl

variable (hcount : args.length = p.params.length)

include hcount

/-- The body is entered from the state that the passed arguments leave. -/
theorem Run.callNamed_of_passed {values : List Value}
    (h : Lazy.forceAll (List.zipWith Lazy.passedTo p.params args) s = .ok values t) :
    callNamed run name args kind s =
      enter p.name (.ofList (localBindings p.params values)) (run p.body kind) t := by
  refine callNamed_of_ok hp hcount ?_
  rw [bindArguments_eq hcount, bind_of_ok h]
  rfl

theorem Run.callNamed_of_passed_error {i : Interrupt}
    (h : Lazy.forceAll (List.zipWith Lazy.passedTo p.params args) s = .error i t) :
    callNamed run name args kind s = .error i t := by
  refine callNamed_of_error hp hcount ?_
  rw [bindArguments_eq hcount, bind_of_error h]

end

theorem Run.after_congr {α : Type} {x y : Run α} {s t : State} (h : x s = y t) :
    x.after s = y.after t := by
  simp only [after, h]

theorem Run.locals_after_enter (procedure : String) (scope : Registry Value) (body : Run Value)
    (s : State) : ((enter procedure scope body).after s).locals = s.locals := by
  rcases Nat.lt_or_ge s.machine.depth maxCallDepth with h | h
  · rw [after_enter procedure h]
    rfl
  · rw [after_of_error (enter_of_deep procedure h)]

/-- A call evaluates its arguments where it stands, in order, and enters the body from the state
that they leave, with a scope that has the parameters only. A parameter with a global name is not in
that scope: the machine has it from the moment its own argument is evaluated, for the arguments
behind it as well. If no parameter has a global name, nothing is seen of the binding, neither by the
arguments nor by the body nor when an argument fails. The caller has the locals that the arguments
leave, however the call ends. -/
theorem only_global_parameters_are_seen_outside_the_scope (run : Expr → Lazy) {name : String}
    {p : Procedure} {s : State} (hp : s.machine.procedures.get? name = some p) (args : List Lazy)
    (kind : Kind) :
    (args.length ≠ p.params.length →
      callNamed run name args kind s =
        .error (.fault (.ofCause (.wrongArgumentCount p.name p.params.length args.length))) s) ∧
    (args.length = p.params.length →
      (∀ values t, Lazy.forceAll (List.zipWith Lazy.passedTo p.params args) s = .ok values t →
        callNamed run name args kind s =
            enter p.name (.ofList (localBindings p.params values)) (run p.body kind) t ∧
          ((callNamed run name args kind).after s).locals = t.locals) ∧
      (∀ i t, Lazy.forceAll (List.zipWith Lazy.passedTo p.params args) s = .error i t →
        callNamed run name args kind s = .error i t)) ∧
    (args.length = p.params.length → (∀ param ∈ p.params, isGlobalName param = false) →
      (∀ values t, Lazy.forceAll args s = .ok values t →
        callNamed run name args kind s =
          enter p.name
            (.ofList ((p.params.zip values).map fun b => (b.1, b.2.bindTo b.1)))
            (run p.body kind) t) ∧
      (∀ i t, Lazy.forceAll args s = .error i t →
        callNamed run name args kind s = .error i t)) := by
  refine ⟨Run.callNamed_of_count hp, fun hcount => ⟨fun values t h => ?_, fun i t h => ?_⟩,
    fun hcount hlocal => ⟨fun values t h => ?_, fun i t h => ?_⟩⟩
  · have hcall : callNamed run name args kind s = _ := Run.callNamed_of_passed hp hcount h
    refine ⟨hcall, ?_⟩
    rw [Run.after_congr hcall, Run.locals_after_enter]
  · exact Run.callNamed_of_passed_error hp hcount h
  · rw [← zipWith_passedTo_of_local hlocal hcount] at h
    rw [Run.callNamed_of_passed hp hcount h, localBindings_of_local hlocal]
  · rw [← zipWith_passedTo_of_local hlocal hcount] at h
    exact Run.callNamed_of_passed_error hp hcount h

namespace Passed

def site (name : String) : Site := ⟨⟨.name, name, .start⟩, ⟨name, none⟩⟩

/-- Gives back what `b` stands for. -/
def procedure (params : List String) : Procedure :=
  ⟨"f", params, .var "b" false (site "b"), site "f"⟩

def machine (params : List String) : Machine :=
  { procedures := .ofList [("f", procedure params)] }

/-- The arguments of `f('new', name)`. -/
def args (name : String) : List Lazy := [.of (.text "new"), fun _ => readVariable name false]

/-- The caller has an `a` of its own. -/
def caller : State := ⟨.ofList [("a", ⟨some "a", .text "old"⟩)], machine ["a", "b"]⟩

/-- The procedure has a parameter `global_a`, and so has the machine. -/
def exposed : State :=
  ⟨.empty, (machine ["global_a", "b"]).define "global_a" (.text "old")⟩

end Passed

open Passed in
/-- The second argument of `f('new', global_a)` is the first one, if the first parameter of `f` is
called `global_a`, and the machine keeps it. It does so as well if the second argument fails. -/
theorem a_global_parameter_is_seen_by_the_next_argument :
    Lazy.forceAll (args "global_a") exposed =
      .ok [.text "new", ⟨some "global_a", .text "old"⟩] exposed ∧
    (∃ t, callNamed (evaluate .standard) "f" (args "global_a") .value exposed =
        .ok ⟨some "b", .text "new"⟩ t ∧
      t.machine.globals.get? "global_a" = some ⟨some "global_a", .text "new"⟩) ∧
    (∃ i, Lazy.forceAll (args "c") exposed = .error i exposed) ∧
    ∃ i t, callNamed (evaluate .standard) "f" (args "c") .value exposed = .error i t ∧
      t.machine.globals.get? "global_a" = some ⟨some "global_a", .text "new"⟩ :=
  ⟨rfl, ⟨_, rfl, rfl⟩, ⟨_, rfl⟩, _, _, rfl, rfl⟩

open Passed in
/-- The parameter `a` is not what the second argument of `f('new', a)` reads. -/
theorem a_local_parameter_is_not_seen_by_the_next_argument :
    callNamed (evaluate .standard) "f" (args "a") .value caller =
      .ok ⟨some "b", .text "old"⟩ caller ∧
    ∃ i, callNamed (evaluate .standard) "f" (args "c") .value caller = .error i caller := by
  have hp : caller.machine.procedures.get? "f" = some (procedure ["a", "b"]) := rfl
  have hlocal : ∀ param ∈ (procedure ["a", "b"]).params, isGlobalName param = false := by decide
  have hcalls := fun name => (only_global_parameters_are_seen_outside_the_scope
    (evaluate .standard) hp (args name) .value).2.2 rfl hlocal
  exact ⟨((hcalls "a").1 _ caller rfl).trans rfl, _, (hcalls "c").2 _ caller rfl⟩

end TickScript
