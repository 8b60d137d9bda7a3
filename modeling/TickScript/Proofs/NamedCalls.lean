-- Calling a procedure by a name that is a text is calling it: what both do is the same, and a fault
-- of the call itself is blamed on whichever call it was.
import TickScript.Proofs.Choices

namespace TickScript

open Library

/-! ## The faults of a call -/

/-- A call of the procedure `name` with so many arguments, in the given state, can have a fault of
its own, with this cause and in this procedure: it is not defined, it takes another number of
arguments, or its body would be too deep. -/
inductive CallFault (s : State) (name : String) (count : Nat) : Cause → Option String → Prop
  | undefined (h : s.machine.procedures.get? name = none) :
      CallFault s name count (.undefinedFunction name) none
  | wrongCount {p : Procedure} (hp : s.machine.procedures.get? name = some p)
      (hcount : count ≠ p.params.length) :
      CallFault s name count (.wrongArgumentCount p.name p.params.length count) none
  | tooDeep {p : Procedure} (hp : s.machine.procedures.get? name = some p)
      (hcount : count = p.params.length) : CallFault s name count .callTooDeep (some p.name)

/-- The faults of arguments that are bound have the sites that they had. -/
theorem sited_bindArguments (params : List String) {args : List Lazy}
    (hargs : ∀ arg ∈ args, arg.Sited) (scope : Registry Value) :
    Run.Sited (bindArguments params args scope) := by
  induction params generalizing args scope with
  | nil =>
    unfold bindArguments
    exact .of_ok fun s => ⟨_, s, rfl⟩
  | cons param params ih =>
    rcases args with _ | ⟨arg, args⟩
    · unfold bindArguments
      exact .of_ok fun s => ⟨_, s, rfl⟩
    obtain ⟨harg, hrest⟩ := List.forall_mem_cons.mp hargs
    unfold bindArguments
    refine (harg .value).bind fun v => ?_
    split
    · exact Run.Sited.bind (.of_ok fun s => ⟨_, _, rfl⟩) fun _ => ih hrest scope
    · exact ih hrest _

/-- A fault that comes out of a call without a site is one of its own. -/
theorem callFault_of_callNamed {lang : Language} {levels : Nat} {name : String} {args : List Lazy}
    (hargs : ∀ arg ∈ args, arg.Sited) {kind : Kind} {s t : State} {f : Fault}
    (h : callNamed (evaluateWithin lang levels) name args kind s = .error (.fault f) t)
    (hsite : f.site = none) : CallFault s name args.length f.cause f.procedure := by
  rcases hp : s.machine.procedures.get? name with _ | p
  · simp only [callNamed, hp] at h
    cases h
    exact .undefined hp
  by_cases hcount : args.length = p.params.length
  case neg =>
    simp only [callNamed, hp, Procedure.call, ne_eq, hcount, not_false_eq_true, ↓reduceIte] at h
    cases h
    exact .wrongCount hp hcount
  rcases hbind : bindArguments p.params args .empty s with ⟨scope, u⟩ | ⟨i, u⟩
  case error =>
    rw [Run.callNamed_of_error hp hcount hbind] at h
    cases h
    have hsited := sited_bindArguments p.params hargs .empty s f _ hbind
    rw [hsite] at hsited
    cases hsited
  rw [Run.callNamed_of_ok hp hcount hbind] at h
  by_cases hdepth : u.machine.depth < maxCallDepth
  case neg =>
    rw [Run.enter_of_deep p.name (Nat.le_of_not_lt hdepth)] at h
    cases h
    exact .tooDeep hp hcount
  rcases hbody : evaluateWithin lang levels p.body kind (Run.inner scope u) with
    ⟨v, w⟩ | ⟨i, w⟩
  · rw [Run.enter_of_ok p.name hdepth hbody] at h
    cases h
  · rw [Run.enter_of_error p.name hdepth hbody] at h
    cases i with
    | stopped | endless => cases h
    | fault g =>
      cases h
      have hsited := sited_evaluateWithin lang levels p.body kind _ g w hbody
      have hnone : g.site = none := hsite
      rw [hnone] at hsited
      cases hsited

/-! ## Both calls -/

section Calls

variable {lang : Language} {name : String} (run : Expr → Lazy) (args : List Expr) (site : Site)
  (kind : Kind)

theorem denote_procedure (hname : lang.function? name = none) :
    (Expr.call name args site).denote lang run kind =
      Run.located site (callNamed run name (Expr.denoteAll lang run args) kind) := by
  simp only [Expr.denote, applyCall, hname]

/-- The text is evaluated first, to itself, and then the procedure of this name is called. -/
theorem denote_callByName (hcall : lang.function? "call" = some calling) :
    (Expr.call "call" (.text name :: args) site).denote lang run kind =
      Run.located site (callNamed run name (Expr.denoteAll lang run args) kind) := by
  have hname : (Value.text name).display = name := by
    simp only [Value.text, Value.display]
  simp only [Expr.denote, Expr.denoteAll, applyCall, hcall, calling, callByName, Lazy.of,
    bind_assoc, pure_bind, hname, bind_pure]

end Calls

/-- A call by name and the call itself end in the same way and in the same state: with the same
value, the same interruption or the same fault at the same site. Only a fault of the call itself has
its site where the call is, and then all else in it is the same. -/
theorem calling_by_name_is_calling {lang : Language}
    (hcall : lang.function? "call" = some calling) {name : String}
    (hname : lang.function? name = none) (levels : Nat) (args : List Expr) (site other : Site)
    (kind : Kind) (s : State) :
    (Expr.call "call" (.text name :: args) other).denote lang (evaluateWithin lang levels) kind s =
        (Expr.call name args site).denote lang (evaluateWithin lang levels) kind s ∨
      ∃ cause procedure t, CallFault s name args.length cause procedure ∧
        (Expr.call "call" (.text name :: args) other).denote lang (evaluateWithin lang levels) kind
            s = .error (.fault ⟨cause, some other, procedure⟩) t ∧
        (Expr.call name args site).denote lang (evaluateWithin lang levels) kind s =
          .error (.fault ⟨cause, some site, procedure⟩) t := by
  rw [denote_callByName _ _ _ _ hcall, denote_procedure _ _ _ _ hname]
  have hargs := sited_denoteAll lang (evaluateWithin lang levels) args
  have hlength := length_denoteAll lang (evaluateWithin lang levels) args
  rcases hx : callNamed (evaluateWithin lang levels) name
      (Expr.denoteAll lang (evaluateWithin lang levels) args) kind s with ⟨v, t⟩ | ⟨i, t⟩
  · left
    rw [Run.located_of_ok other hx, Run.located_of_ok site hx]
  rw [Run.located_of_error other hx, Run.located_of_error site hx]
  cases i with
  | stopped | endless => exact Or.inl rfl
  | fault f =>
    obtain ⟨cause, _ | first, procedure⟩ := f
    · right
      refine ⟨cause, procedure, t, ?_, rfl, rfl⟩
      rw [← hlength]
      exact callFault_of_callNamed hargs hx rfl
    · exact Or.inl rfl

namespace Welcome

def source : Source := ⟨"greet(name) -> 'hello ' + name", none⟩

def site (name : String) : Site := ⟨⟨.call, name, .start⟩, source⟩

/-- `greet(name) -> 'hello ' + name` -/
def procedure : Procedure where
  name := "greet"
  params := ["name"]
  body := .binary "+" (.text "hello ") (.var "name" false (site "name")) (site "+")
  site := site "greet"

def state : State := ⟨.empty, { procedures := .ofList [("greet", procedure)] }⟩

end Welcome

open Welcome in
/-- A greeting by name is one, and without the name of a person both calls are to blame, each at
its own place. -/
theorem a_greeting_is_called_by_name :
    Language.standard.function? "call" = some calling ∧
      Language.standard.function? "greet" = none ∧
      (Expr.call "call" [.text "greet", .text "you"] (site "call")).denote .standard
        (evaluate .standard) .value state = .ok (.text "hello you") state ∧
      ∃ cause procedure t, CallFault state "greet" 0 cause procedure ∧
        (Expr.call "call" [.text "greet"] (site "call")).denote .standard (evaluate .standard)
          .value state = .error (.fault ⟨cause, some (site "call"), procedure⟩) t ∧
        (Expr.call "greet" [] (site "greet")).denote .standard (evaluate .standard) .value state =
          .error (.fault ⟨cause, some (site "greet"), procedure⟩) t := by
  have hcall : Language.standard.function? "call" = some calling := rfl
  have hgreet : Language.standard.function? "greet" = none := rfl
  have hlaw := fun args => calling_by_name_is_calling hcall hgreet (maxCallDepth + 2) args
    (site "greet") (site "call") .value state
  refine ⟨hcall, hgreet, ?_, ?_⟩
  · have hdirect : (Expr.call "greet" [.text "you"] (site "greet")).denote .standard
        (evaluate .standard) .value state = .ok (.text "hello you") state := by
      rfl
    rcases hlaw [.text "you"] with h | ⟨_, _, _, _, _, h⟩
    · exact h.trans hdirect
    · cases hdirect.symm.trans h
  · have hdirect : (Expr.call "greet" [] (site "greet")).denote .standard (evaluate .standard)
        .value state =
          .error (.fault ⟨.wrongArgumentCount "greet" 1 0, some (site "greet"), none⟩) state := by
      rfl
    have hbyName : (Expr.call "call" [.text "greet"] (site "call")).denote .standard
        (evaluate .standard) .value state =
          .error (.fault ⟨.wrongArgumentCount "greet" 1 0, some (site "call"), none⟩) state := by
      rfl
    rcases hlaw [] with h | h
    · have hsame := hbyName.symm.trans (h.trans hdirect)
      simp [site] at hsame
    · exact h

end TickScript
