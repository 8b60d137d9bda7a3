-- Calling a stored procedure from a line of the console. The line that lists the arguments and the
-- line that runs a script with the call in it come to the same answer and the same state.
import TickScript.Console
import TickScript.Proofs.Blame
import TickScript.Proofs.Literals
import TickScript.Proofs.Reports
import TickScript.Proofs.RoundTrip

namespace TickScript

open TickScript.Text

/-! ## Words of a line -/

theorem isBlank_of_isWordBreak {c : Char} (h : isWordBreak c = true) : isBlank c = true := by
  simp only [isWordBreak, Bool.or_eq_true, decide_eq_true_eq] at h
  rcases h with (((rfl | rfl) | rfl) | rfl) | rfl <;> decide

theorem isWordBreak_of_continuesName {c : Char} (h : continuesName c = true) :
    isWordBreak c = false := by
  rw [Bool.eq_false_iff]
  intro hbreak
  exact Bool.eq_false_iff.mp (isBlank_of_continuesName h) (isBlank_of_isWordBreak hbreak)

/-- The gap ends a word of a line. -/
def Gap.IsBreak (gap : Gap) : Prop := ∀ c ∈ gap.chars.head?, isWordBreak c = true

/-- A single space. -/
def Gap.space : Gap := ⟨[' '], by simp, List.forall_mem_singleton.mpr (by decide)⟩

theorem Gap.isBreak_space : Gap.space.IsBreak := by
  simp only [IsBreak, space, List.head?_cons, Option.mem_def, Option.some.injEq, forall_eq']
  decide

namespace IsWord

variable {cs : List Char} (h : IsWord cs)

include h

theorem continuesName : ∀ c ∈ cs, Text.continuesName c = true := by
  cases h with
  | mk hstart hcs => exact List.forall_mem_cons.mpr ⟨continuesName_of_startsName hstart, hcs⟩

theorem not_isWordBreak : ∀ c ∈ cs, isWordBreak c = false := fun c hc =>
  isWordBreak_of_continuesName (h.continuesName c hc)

theorem ne_nil : cs ≠ [] := by
  cases h
  exact List.cons_ne_nil _ _

theorem trimmed : Trimmed cs :=
  trimmed_of_not_blank fun c hc => isBlank_of_continuesName (h.continuesName c hc)

end IsWord

theorem isWord_of_all {c : Char} {cs : List Char}
    (h : (startsName c && cs.all continuesName) = true) : IsWord (c :: cs) := by
  simp only [Bool.and_eq_true, List.all_eq_true] at h
  exact .mk h.1 h.2

theorem cutAt?_of_none {p : Char → Bool} {cs : List Char} (h : ∀ c ∈ cs, p c = false) :
    cutAt? p cs = none := by
  induction cs with
  | nil => rfl
  | cons c cs ih =>
    obtain ⟨hc, hcs⟩ := List.forall_mem_cons.mp h
    simp [cutAt?, hc, ih hcs]

theorem splitWord_of_word {word : List Char} (h : ∀ c ∈ word, isWordBreak c = false) :
    splitWord word = (word, []) := by
  rw [splitWord, cutAt?_of_none h]

theorem splitWord_append {word rest : List Char} (hword : ∀ c ∈ word, isWordBreak c = false)
    {gap : Gap} (hgap : gap.IsBreak) (hrest : Trimmed rest) :
    splitWord (word ++ (gap.chars ++ rest)) = (word, rest) := by
  obtain ⟨chars, hne, hblank⟩ := gap
  obtain ⟨c, cs, rfl⟩ := List.exists_cons_of_ne_nil hne
  have hbreak : isWordBreak c = true := hgap c rfl
  rw [List.cons_append, splitWord, cutAt?_append_cons hword hbreak]
  dsimp only
  rw [trimChars_append (List.forall_mem_cons.mp hblank).2 hrest]

/-! ## The two lines -/

theorem trimmed_spread {cs : List Char} (hcs : Trimmed cs) (hne : cs ≠ [])
    (args : List (Gap × Literal)) : Trimmed (cs ++ Literal.spread args) := by
  induction args generalizing cs with
  | nil => rwa [Literal.spread, List.append_nil]
  | cons arg args ih =>
    exact hcs.append hne (ih arg.2.trimmed_spelled arg.2.spelled_ne_nil)
      (by simp [arg.2.spelled_ne_nil]) arg.1.chars

namespace Command

/-- The line that calls a procedure with the literals that it lists. -/
def invokeLine (verb : Gap) (name : String) (args : List (Gap × Literal)) : String :=
  String.ofList ("invoke".toList ++ (verb.chars ++ (name.toList ++ Literal.spread args)))

/-- The line that runs a script with the call in it. -/
def runLine (name : String) (args : List Literal) : String :=
  String.ofList ("run".toList ++ (Gap.space.chars ++ Literal.callText name args))

theorem readTrimmed_invoke {line rest : List Char}
    (h : splitWord line = ("invoke".toList, rest)) : readTrimmed line = readInvoke rest := by
  simp only [readTrimmed, h, String.ofList_toList]

theorem readInvoke_of_split {rest name args : List Char} (h : splitWord rest = (name, args))
    (hname : name ≠ []) :
    readInvoke rest = .ok (.invoke (String.ofList name) (String.ofList args)) := by
  simp [readInvoke, h, hname]

theorem readTrimmed_run {line rest : List Char} (h : splitWord line = ("run".toList, rest))
    (hrest : rest ≠ []) : readTrimmed line = .ok (.run (String.ofList rest)) := by
  simp [readTrimmed, h, hrest]

theorem read_ofList {line : List Char} (h : Trimmed line) (hne : line ≠ []) :
    read (String.ofList line) = (readTrimmed line).map some := by
  obtain ⟨c, cs, rfl⟩ := List.exists_cons_of_ne_nil hne
  rw [read, String.toList_ofList, h.trimChars_eq]

theorem isWord_invoke : IsWord "invoke".toList := by
  have hchars : "invoke".toList = ['i', 'n', 'v', 'o', 'k', 'e'] := rfl
  rw [hchars]
  exact isWord_of_all (by decide)

theorem isWord_run : IsWord "run".toList := by
  have hchars : "run".toList = ['r', 'u', 'n'] := rfl
  rw [hchars]
  exact isWord_of_all (by decide)

section Words

variable {name : String} (hname : IsWord name.toList)

include hname

theorem read_invokeLine {verb : Gap} (hverb : verb.IsBreak) {args : List (Gap × Literal)}
    (hargs : ∀ arg ∈ args.head?, arg.1.IsBreak) :
    read (invokeLine verb name args) =
      .ok (some (.invoke name (String.ofList (Literal.row args)))) := by
  have hcall := trimmed_spread hname.trimmed hname.ne_nil args
  have hline := isWord_invoke.trimmed.append isWord_invoke.ne_nil hcall
    (by simp [hname.ne_nil]) verb.chars
  have hfirst := splitWord_append isWord_invoke.not_isWordBreak hverb hcall
  have hsecond : splitWord (name.toList ++ Literal.spread args) =
      (name.toList, Literal.row args) := by
    cases args with
    | nil =>
      rw [Literal.spread, List.append_nil, splitWord_of_word hname.not_isWordBreak,
        Literal.row]
    | cons arg args =>
      exact splitWord_append hname.not_isWordBreak (hargs arg rfl)
        (trimmed_spread arg.2.trimmed_spelled arg.2.spelled_ne_nil args)
  have hread := readInvoke_of_split hsecond hname.ne_nil
  rw [String.ofList_toList] at hread
  unfold invokeLine
  rw [read_ofList hline (List.append_ne_nil_of_left_ne_nil isWord_invoke.ne_nil _),
    readTrimmed_invoke hfirst, hread]
  rfl

theorem read_runLine (args : List Literal) :
    read (runLine name args) = .ok (some (.run (String.ofList (Literal.callText name args)))) := by
  have hclosing : Trimmed [')'] := trimmed_of_not_blank (List.forall_mem_singleton.mpr (by decide))
  have hcall : Trimmed (Literal.callText name args) :=
    hname.trimmed.append hname.ne_nil hclosing (by simp)
      ('(' :: Literal.joined args)
  have hne : Literal.callText name args ≠ [] := by simp [Literal.callText]
  have hline := isWord_run.trimmed.append isWord_run.ne_nil hcall hne
    Gap.space.chars
  have hfirst := splitWord_append isWord_run.not_isWordBreak Gap.isBreak_space hcall
  unfold runLine
  rw [read_ofList hline (List.append_ne_nil_of_left_ne_nil isWord_run.ne_nil _),
    readTrimmed_run hfirst hne]
  rfl

end Words

end Command

/-! ## Stored procedures -/

mutual

/-- The procedures that the definitions in a tree store. -/
def Expr.definitions : Expr → List Procedure
  | .number _ | .text _ | .var .. => []
  | .unary _ operand _ => operand.definitions
  | .binary _ left right _ => left.definitions ++ right.definitions
  | .call _ args _ => Expr.allDefinitions args
  | .define name params body site => ⟨name, params, body, site⟩ :: body.definitions
  | .sequence items => Expr.allDefinitions items

/-- The procedures that the definitions in some trees store. -/
def Expr.allDefinitions : List Expr → List Procedure
  | [] => []
  | e :: rest => e.definitions ++ Expr.allDefinitions rest

end

/-- A script of this language defines the procedure. -/
def Procedure.IsDefined (lang : Language) (p : Procedure) : Prop :=
  ∃ source script, Script.read lang source = .ok script ∧ p ∈ script.root.definitions

section

variable {lang : Language} {known : List String} {p : Procedure}

mutual

/-- A procedure is named by a word that no function has. -/
theorem Expr.name_of_definitions : ∀ (e : Expr) {target : Bool}, e.Readable lang known target →
    p ∈ e.definitions → IsWord p.name.toList ∧ lang.function? p.name = none
  | .number _, _, _, hp | .text _, _, _, hp | .var .., _, _, hp => by cases hp
  | .unary _ operand _, _, ⟨_, _, hoperand⟩, hp => Expr.name_of_definitions operand hoperand hp
  | .binary _ left right _, _, ⟨_, ⟨_, _, _, _, hleft⟩, hright⟩, hp => by
    rcases List.mem_append.mp hp with hp | hp
    · exact Expr.name_of_definitions left hleft hp
    · exact Expr.name_of_definitions right hright hp
  | .call _ args _, _, ⟨_, _, hargs⟩, hp => Expr.name_of_allDefinitions args hargs hp
  | .define name params body site, _, ⟨hname, hfree, _, _, _, hbody⟩, hp => by
    rcases List.mem_cons.mp hp with rfl | hp
    · cases hname with
      | call hword => exact ⟨hword, hfree⟩
    · exact Expr.name_of_definitions body hbody hp
  | .sequence items, _, ⟨_, _, _, _, hitems⟩, hp => Expr.name_of_allDefinitions items hitems hp

theorem Expr.name_of_allDefinitions : ∀ (es : List Expr) {target : Bool},
    Expr.AllReadable lang known target es → p ∈ Expr.allDefinitions es →
    IsWord p.name.toList ∧ lang.function? p.name = none
  | [], _, _, hp => by cases hp
  | e :: rest, _, h, hp => by
    rcases List.mem_append.mp hp with hp | hp
    · exact Expr.name_of_definitions e h.1 hp
    · exact Expr.name_of_allDefinitions rest h.2 hp

end

end

theorem Procedure.IsDefined.name {p : Procedure} (h : p.IsDefined .standard) :
    IsWord p.name.toList ∧ Language.standard.function? p.name = none := by
  obtain ⟨source, script, hread, hp⟩ := h
  obtain ⟨rs, hstandard, _⟩ := Language.standard_eq_built
  have hregular : Language.standard.Regular := hstandard ▸ Language.regular_built rs
  exact script.root.name_of_definitions
    (Script.readable_of_read Language.knows_standard hregular hread) hp

/-! ## Calls with values -/

/-- Values are bound in the same way wherever the call stands. -/
theorem bindArguments_values (params : List String) (values : List Value)
    (scope : Registry Value) (m : Machine) :
    ∃ scope' m', m'.depth = m.depth ∧ ∀ locals,
      bindArguments params (values.map Lazy.of) scope ⟨locals, m⟩ = .ok scope' ⟨locals, m'⟩ := by
  induction params generalizing values scope m with
  | nil => exact ⟨scope, m, rfl, fun locals => by cases values <;> rfl⟩
  | cons param params ih =>
    cases values with
    | nil => exact ⟨scope, m, rfl, fun _ => rfl⟩
    | cons v values =>
      by_cases hglobal : isGlobalName param = true
      · obtain ⟨scope', m', hdepth, h⟩ := ih values scope (m.define param v)
        refine ⟨scope', m', hdepth, fun locals => ?_⟩
        rw [← h locals]
        simp only [List.map_cons, bindArguments, hglobal, ↓reduceIte]
        rfl
      · obtain ⟨scope', m', hdepth, h⟩ := ih values (scope.set param (v.bindTo param)) m
        refine ⟨scope', m', hdepth, fun locals => ?_⟩
        rw [← h locals]
        simp only [List.map_cons, bindArguments, hglobal]
        rfl

namespace Run

theorem withLocals_of_ok {α : Type} {x : Run α} {s t : State} {locals : Registry Value} {a : α}
    (h : x ⟨locals, s.machine⟩ = .ok a t) :
    withLocals locals x s = .ok a { t with locals := s.locals } := by
  simp only [withLocals, h]

theorem withLocals_of_error {α : Type} {x : Run α} {s t : State} {locals : Registry Value}
    {i : Interrupt} (h : x ⟨locals, s.machine⟩ = .error i t) :
    withLocals locals x s = .error i { t with locals := s.locals } := by
  simp only [withLocals, h]

section

variable {run : Expr → Lazy} {name : String} {p : Procedure} {values : List Value} {kind : Kind}
  {s : State} (hp : s.machine.procedures.get? name = some p)
  (hcount : values.length = p.params.length) (hdepth : s.machine.depth < maxCallDepth)

include hp hcount hdepth

/-- A call with values is the evaluation of the body, and the locals of the caller are not
needed for it. -/
theorem callNamed_values (run : Expr → Lazy) (kind : Kind) :
    ∃ scope m, m.depth < maxCallDepth ∧ ∀ locals,
      callNamed run name (values.map Lazy.of) kind ⟨locals, s.machine⟩ =
        enter p.name scope (run p.body kind) ⟨locals, m⟩ := by
  obtain ⟨scope, m, hm, hbind⟩ := bindArguments_values p.params values .empty s.machine
  refine ⟨scope, m, hm ▸ hdepth, fun locals => ?_⟩
  exact callNamed_of_ok (s := ⟨locals, s.machine⟩) hp (by rwa [List.length_map]) (hbind locals)

/-- A call with values does the same whatever the locals are where it stands. -/
theorem withLocals_callNamed (run : Expr → Lazy) (kind : Kind) (locals others : Registry Value) :
    withLocals locals (callNamed run name (values.map Lazy.of) kind) s =
      withLocals others (callNamed run name (values.map Lazy.of) kind) s := by
  obtain ⟨scope, m, hm, hcall⟩ := callNamed_values hp hcount hdepth run kind
  rcases hbody : run p.body kind (inner scope ⟨locals, m⟩) with ⟨v, t⟩ | ⟨i, t⟩
  · have hends : ∀ ls, callNamed run name (values.map Lazy.of) kind ⟨ls, s.machine⟩ =
        .ok v (outer ⟨ls, m⟩ t) := fun ls =>
      (hcall ls).trans (enter_of_ok (s := ⟨ls, m⟩) p.name hm hbody)
    rw [withLocals_of_ok (hends locals), withLocals_of_ok (hends others)]
    rfl
  · have hends : ∀ ls, callNamed run name (values.map Lazy.of) kind ⟨ls, s.machine⟩ =
        .error (i.leave p.name) (outer ⟨ls, m⟩ t) := fun ls =>
      (hcall ls).trans (enter_of_error (s := ⟨ls, m⟩) p.name hm hbody)
    rw [withLocals_of_error (hends locals), withLocals_of_error (hends others)]
    rfl

/-- The faults of a body have their sites, so a call adds none. -/
theorem located_callNamed (lang : Language) (levels : Nat) (kind : Kind) (site : Site) :
    located site (callNamed (evaluateWithin lang levels) name (values.map Lazy.of) kind) s =
      callNamed (evaluateWithin lang levels) name (values.map Lazy.of) kind s := by
  obtain ⟨scope, m, hm, hcall⟩ :=
    callNamed_values hp hcount hdepth (evaluateWithin lang levels) kind
  have hcall := hcall s.locals
  rcases hbody : evaluateWithin lang levels p.body kind (inner scope ⟨s.locals, m⟩) with
    ⟨v, t⟩ | ⟨i, t⟩
  · rw [enter_of_ok p.name hm hbody] at hcall
    rw [located_of_ok site hcall, hcall]
  · rw [enter_of_error p.name hm hbody] at hcall
    rw [located_of_error site hcall, hcall]
    cases i with
    | stopped | endless => rfl
    | fault f =>
      have hsite := sited_evaluateWithin lang levels p.body kind _ f t hbody
      obtain ⟨first, hfirst⟩ := Option.isSome_iff_exists.mp hsite
      simp [Interrupt.leave, Interrupt.locate, Fault.leave, Fault.locate, hfirst]

/-- A script that is such a call does the same as the call from outside. -/
theorem evaluate_call {lang : Language} {script : Script} {site : Site}
    (hroot : ∀ run kind, script.root.denote lang run kind =
      located site (callNamed run name (values.map Lazy.of) kind)) (locals : Registry Value) :
    withLocals locals (script.evaluate (evaluate lang) .value) s = invoke lang name values s := by
  let call : Run Value := callNamed (evaluateBody lang) name (values.map Lazy.of) .value
  have hroot : evaluate lang script.root .value = located site call :=
    hroot (evaluateBody lang) .value
  have hlocated : located site call ⟨locals, s.machine⟩ = call ⟨locals, s.machine⟩ :=
    located_callNamed (s := ⟨locals, s.machine⟩) hp hcount hdepth lang (maxCallDepth + 1) .value
      site
  have hsame : withLocals locals (located site call) s = withLocals .empty call s := by
    rw [← withLocals_callNamed hp hcount hdepth (evaluateBody lang) .value locals]
    unfold withLocals
    rw [hlocated]
  rw [Script.evaluate, hroot, withLocals_reported, invoke]
  unfold reported
  rw [hsame]

end

end Run

theorem Run.bind_congr_at {α β : Type} {x y : Run α} {f : α → Run β} {s t : State}
    (h : x s = y t) : (x >>= f) s = (y >>= f) t := by
  simp only [bind, EStateM.bind, h]

/-! ## Answers -/

namespace Console

/-- A call of a procedure with these arguments from the console. -/
def carryOut (lang : Language) (name : String) (values : List Value) : Run String := do
  let v ← invoke lang name values
  return v.display

/-- The answer to such a call, unless scripts are to stop. -/
def answerWith (name : String) (values : List Value) : Run Reply := do
  let lines ← answerCall (unlessPaused (carryOut .standard name values))
  return { lines, quit := false }

/-- The state in which the script of a console line is run: whoever runs it has taken an identity.
While scripts are to stop nobody does. -/
def identified (s : State) : State :=
  if s.machine.cancelled then s else { s with machine := s.machine.freshId.2 }

theorem identified_eq (s : State) :
    identified s = { s with machine.fresh := (identified s).machine.fresh } := by
  unfold identified
  split <;> rfl

theorem identified_of_paused {s : State} (h : s.machine.cancelled = true) : identified s = s :=
  if_pos h

theorem identified_of_running {s : State} (h : s.machine.cancelled = false) :
    identified s = { s with machine := s.machine.freshId.2 } :=
  if_neg (by simp [h])

theorem identified_snooping (s : State) (snooper : Option Snooper) :
    identified (s.snooping snooper) = (identified s).snooping snooper := by
  cases hpaused : s.machine.cancelled with
  | true =>
    rw [identified_of_paused hpaused]
    exact identified_of_paused (s := s.snooping snooper) hpaused
  | false =>
    rw [identified_of_running hpaused]
    exact identified_of_running (s := s.snooping snooper) hpaused

section

variable {s : State} {p : Procedure} (hp : s.machine.procedures.get? p.name = some p)

include hp

theorem callProcedure_row {args : List (Gap × Literal)} (hcount : args.length = p.params.length) :
    callProcedure .standard p.name (String.ofList (Literal.row args)) s =
      unlessPaused (carryOut .standard p.name (args.map (·.2.value))) s := by
  simp only [callProcedure, unlessPaused, hp, Literal.argumentsOf_row, List.length_map, hcount,
    ne_eq, not_true_eq_false, ↓reduceIte]
  rfl

theorem runScript_callText (hdepth : s.machine.depth < maxCallDepth)
    (hdefined : p.IsDefined .standard) (args : List Literal)
    (hcount : args.length = p.params.length) :
    runScript .standard ⟨String.ofList (Literal.callText p.name args), none⟩ s =
      unlessPaused (carryOut .standard p.name (args.map Literal.value)) (identified s) := by
  obtain ⟨hname, hfree⟩ := hdefined.name
  obtain ⟨script, hread, site, hroot⟩ :=
    Script.read_call ⟨String.ofList (Literal.callText p.name args), none⟩ hname hfree args
      String.toList_ofList
  have hreported : readReported .standard ⟨String.ofList (Literal.callText p.name args), none⟩ s =
      .ok script s := by
    simp only [readReported, Run.reported, hread]
  have hfresh : Run.freshId s = .ok s.machine.fresh ⟨s.locals, s.machine.freshId.2⟩ := rfl
  have hcall := Run.evaluate_call (s := ⟨s.locals, s.machine.freshId.2⟩) hp
    (by rwa [List.length_map]) hdepth hroot (invokerLocals 0 0 0 s.machine.fresh)
  have hsame : (identified s).machine.cancelled = s.machine.cancelled := by rw [identified_eq]
  simp only [runScript, unlessPaused, hsame]
  cases hpaused : s.machine.cancelled with
  | true => rw [identified_of_paused hpaused, if_pos rfl, if_pos rfl]
  | false =>
    rw [identified_of_running hpaused, if_neg Bool.false_ne_true, if_neg Bool.false_ne_true,
      Run.bind_of_ok hreported, carryOut]
    refine Run.bind_congr_at ?_
    rw [Run.atPosition, Run.bind_of_ok hfresh, hcall]

end

theorem answerCall_congr {call other : Run String} {s t : State}
    (hsnooper : t.machine.snooper = s.machine.snooper)
    (h : call (s.snooping (some (.printer false))) = other (t.snooping (some (.printer false)))) :
    answerCall call s = answerCall other t := by
  unfold State.snooping at h
  simp only [answerCall, Run.snooped, h, hsnooper]

theorem execute_of_read {c : Console} (hecho : c.echo = false) {line : String} {command : Command}
    (hread : Command.read line = .ok (some command)) (hquit : command ≠ .quit)
    (lang : Language) :
    c.execute lang line = c.dispatch lang command >>= fun lines => pure ⟨lines, false⟩ := by
  funext s
  rcases h : c.dispatch lang command s with ⟨lines, t⟩ | ⟨i, t⟩
  · rw [Run.bind_of_ok h]
    simp [execute, hread, hecho, hquit, bind, EStateM.bind, h]
    rfl
  · rw [Run.bind_of_error h]
    simp [execute, hread, hecho, hquit, bind, EStateM.bind, h]

/-- For every console that shows no lines, every state in which no procedure is under evaluation
and every stored procedure that is not hidden, a line that lists literals as its arguments, one
for each parameter, and the line that runs the call as a script have the same answer and leave
the same state: both call the procedure with the values of the literals, unless scripts are to
stop. Only the latter takes an identity, for whoever runs the script, so the other one is compared
on a machine that has one less to give. The blanks between the words of the line are free, as long
as the verb and the name are words of their own. -/
theorem invoking_is_running_a_call (c : Console) (hecho : c.echo = false) (s : State)
    (hdepth : s.machine.depth = 0) (p : Procedure)
    (hstored : s.machine.procedures.get? p.name = some p) (hdefined : p.IsDefined .standard)
    (hvisible : ¬ "__".toList <+: p.name.toList) (verb : Gap) (hverb : verb.IsBreak)
    (args : List (Gap × Literal)) (hargs : ∀ arg ∈ args.head?, arg.1.IsBreak)
    (hcount : args.length = p.params.length) :
    c.execute .standard (Command.invokeLine verb p.name args) (identified s) =
        c.execute .standard (Command.runLine p.name (args.map (·.2))) s ∧
      c.execute .standard (Command.invokeLine verb p.name args) s =
        answerWith p.name (args.map (·.2.value)) s := by
  have hdeep : s.machine.depth < maxCallDepth := by
    have hmost : maxCallDepth = 128 := rfl
    omega
  have hshown : "__".toList.isPrefixOf p.name.toList = false := by
    rw [Bool.eq_false_iff]
    exact fun h => hvisible (List.isPrefixOf_iff_prefix.mp h)
  have hinvoke : ∀ t : State, t.machine.procedures.get? p.name = some p →
      c.execute .standard (Command.invokeLine verb p.name args) t =
        answerWith p.name (args.map (·.2.value)) t := by
    intro t ht
    rw [execute_of_read hecho (Command.read_invokeLine hdefined.name.1 hverb hargs) (by simp)]
    refine Run.bind_congr_at ?_
    simp only [dispatch, hshown, Bool.false_eq_true, ↓reduceIte]
    exact answerCall_congr rfl
      (callProcedure_row (s := t.snooping (some (.printer false))) ht hcount)
  have hrun : c.execute .standard (Command.runLine p.name (args.map (·.2))) s =
      answerWith p.name (args.map (·.2.value)) (identified s) := by
    rw [execute_of_read hecho (Command.read_runLine hdefined.name.1 _) (by simp)]
    refine Run.bind_congr_at (answerCall_congr (by rw [identified_eq]) ?_)
    have hcall := runScript_callText (s := s.snooping (some (.printer false))) hstored hdeep
      hdefined (args.map (·.2)) (by rwa [List.length_map])
    rwa [List.map_map, identified_snooping] at hcall
  refine ⟨(hinvoke _ ?_).trans hrun.symm, hinvoke s hstored⟩
  rw [identified_eq]
  exact hstored

end Console

namespace ThreeLiterals

/-- A script that defines a procedure of three parameters. -/
def source : Source := ⟨"f(a, b, c) -> c + a * b", none⟩

def minusOne : Literal :=
  .numeral true ⟨.number, "1"⟩ <| .decimal <| show IsDecimal (['1'] ++ ([] ++ [])) from
    .mk (List.forall_mem_singleton.mpr (by decide)) .none .none (Or.inl (by simp))

def thirtyOne : Literal :=
  .numeral false ⟨.hex, "0x1F"⟩ <| .hexadecimal <| show IsHexadecimal ['0', 'x', '1', 'F'] from
    .mk (Or.inl rfl) (by simp) (List.all_eq_true.mp (by decide))

def words : Literal := .text "x y" (by decide)

end ThreeLiterals

open ThreeLiterals in
/-- A negative number, a hexadecimal one and a text, listed with spaces and called with commas. -/
theorem three_literals_are_listed_or_called :
    ∃ (s : State) (p : Procedure), s.machine.depth = 0 ∧
      s.machine.procedures.get? p.name = some p ∧ p.IsDefined .standard ∧
      ¬ "__".toList <+: p.name.toList ∧ p.params = ["a", "b", "c"] ∧
      Console.execute ⟨1000, false⟩ .standard "invoke f -1 0x1F 'x y'" (Console.identified s) =
        Console.execute ⟨1000, false⟩ .standard "run f(-1, 0x1F, 'x y')" s := by
  have hread : ((Script.read .standard source).toOption.bind fun script =>
      script.root.definitions.head?.map fun p => (p.name, p.params)) =
      some ("f", ["a", "b", "c"]) := by
    cbv
  obtain ⟨script, hscript, hdefinitions⟩ := Option.bind_eq_some_iff.mp hread
  obtain ⟨p, hp, hpair⟩ := Option.map_eq_some_iff.mp hdefinitions
  obtain ⟨hname, hparams⟩ := Prod.mk.inj hpair
  have hdefined : p.IsDefined .standard := by
    refine ⟨source, script, ?_, List.mem_of_head? hp⟩
    rcases hok : Script.read .standard source with f | other
    · rw [hok] at hscript
      cases hscript
    · rw [hok] at hscript
      cases hscript
      rfl
  let s : State := ⟨.empty, { procedures := Registry.empty.set p.name p }⟩
  have hstored : s.machine.procedures.get? p.name = some p := by simp [s, Registry.get?_set]
  have hvisible : ¬ "__".toList <+: p.name.toList := by
    rw [hname]
    decide
  let args : List (Gap × Literal) := [(.space, minusOne), (.space, thirtyOne), (.space, words)]
  have hargs : ∀ arg ∈ args.head?, arg.1.IsBreak := by
    rintro arg ⟨⟩
    exact Gap.isBreak_space
  have hinvoke : Command.invokeLine .space p.name args = "invoke f -1 0x1F 'x y'" := by
    rw [hname]
    decide
  have hrun : Command.runLine p.name (args.map (·.2)) = "run f(-1, 0x1F, 'x y')" := by
    rw [hname]
    decide
  have hlines := (Console.invoking_is_running_a_call ⟨1000, false⟩ rfl s rfl p hstored hdefined
    hvisible .space Gap.isBreak_space args hargs (by rw [hparams]; rfl)).1
  rw [hinvoke, hrun] at hlines
  exact ⟨s, p, rfl, hstored, hdefined, hvisible, hparams, hlines⟩

end TickScript
