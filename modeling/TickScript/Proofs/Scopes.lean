-- Scopes that share a machine. The names of one scope are no matter to another, a global name is
-- the same for all of them, and a frame that is put back brings back its own names and nothing
-- else, whichever scope they were taken from.
import TickScript.Proofs.Registries
import TickScript.Session

namespace TickScript

variable {α : Type} {s : Session} {id name : String}

/-! ## Levels -/

/-- Between the two states no global name has changed among the locals, and no other name among
the globals. -/
structure State.KeepsLevels (s t : State) : Prop where
  locals : ∀ name, isGlobalName name = true → t.locals.get? name = s.locals.get? name
  globals : ∀ name, isGlobalName name = false →
    t.machine.globals.get? name = s.machine.globals.get? name

/-- No local variable has a global name. -/
def AllLocal (locals : Registry Value) : Prop :=
  ∀ name, isGlobalName name = true → locals.get? name = none

/-- Gives variables their values, one after the other. -/
def State.setAll (s : State) (bindings : List (String × Value)) : State :=
  bindings.foldl (fun t b => t.set b.1 b.2) s

theorem ne_of_isGlobalName {name other : String} (h : isGlobalName name = true)
    (hother : isGlobalName other = false) : name ≠ other := by
  rintro rfl
  rw [h] at hother
  cases hother

namespace State

theorem set_of_global (h : isGlobalName name = true) (s : State) (v : Value) :
    s.set name v = { s with machine := s.machine.setGlobal name v } := by
  simp only [set, h, ↓reduceIte]

theorem set_of_local (h : isGlobalName name = false) (s : State) (v : Value) :
    s.set name v = { s with locals := s.locals.set name v } := by
  simp only [set, h, Bool.false_eq_true, ↓reduceIte]

theorem erase_of_global (h : isGlobalName name = true) (s : State) :
    (s.erase name).2 =
      { s with machine := { s.machine with globals := s.machine.globals.erase name } } := by
  simp only [erase, h, ↓reduceIte]

theorem erase_of_local (h : isGlobalName name = false) (s : State) :
    (s.erase name).2 = { s with locals := s.locals.erase name } := by
  simp only [erase, h, Bool.false_eq_true, ↓reduceIte]

namespace KeepsLevels

theorem refl (s : State) : KeepsLevels s s := ⟨fun _ _ => rfl, fun _ _ => rfl⟩

theorem trans {s t u : State} (h : KeepsLevels s t) (h' : KeepsLevels t u) : KeepsLevels s u :=
  ⟨fun name hname => (h'.locals name hname).trans (h.locals name hname),
    fun name hname => (h'.globals name hname).trans (h.globals name hname)⟩

theorem set (s : State) (name : String) (v : Value) : KeepsLevels s (s.set name v) := by
  cases h : isGlobalName name with
  | true =>
    rw [set_of_global h]
    refine ⟨fun _ _ => rfl, fun other hother => ?_⟩
    simp only [Machine.setGlobal, Registry.get?_set, (ne_of_isGlobalName h hother).symm, ↓reduceIte]
  | false =>
    rw [set_of_local h]
    refine ⟨fun other hother => ?_, fun _ _ => rfl⟩
    simp only [Registry.get?_set, ne_of_isGlobalName hother h, ↓reduceIte]

theorem erase (s : State) (name : String) : KeepsLevels s (s.erase name).2 := by
  cases h : isGlobalName name with
  | true =>
    rw [erase_of_global h]
    refine ⟨fun _ _ => rfl, fun other hother => ?_⟩
    simp only [Registry.get?_erase, (ne_of_isGlobalName h hother).symm, ↓reduceIte]
  | false =>
    rw [erase_of_local h]
    refine ⟨fun other hother => ?_, fun _ _ => rfl⟩
    simp only [Registry.get?_erase, ne_of_isGlobalName hother h, ↓reduceIte]

theorem setAll (s : State) (bindings : List (String × Value)) :
    KeepsLevels s (s.setAll bindings) := by
  induction bindings generalizing s with
  | nil => exact refl s
  | cons b rest ih => exact (set s b.1 b.2).trans (ih (s.set b.1 b.2))

theorem allLocal {s t : State} (h : s.KeepsLevels t) (hs : AllLocal s.locals) :
    AllLocal t.locals := fun name hname => (h.locals name hname).trans (hs name hname)

end KeepsLevels

end State

theorem allLocal_empty : AllLocal .empty := fun _ _ => rfl

theorem allLocal_putBack {before locals : Registry Value} (hbefore : AllLocal before)
    (hlocals : AllLocal locals) (names : List String) :
    AllLocal ((Frame.ofNames before names).putBack locals) := by
  intro name hname
  by_cases hmem : name ∈ names
  · rw [Frame.get?_putBack_ofNames hmem]
    exact hbefore name hname
  · rw [Frame.get?_putBack_of_notMem hmem]
    exact hlocals name hname

/-! ## Steps -/

/-- What a host can do with scopes and frames. -/
inductive ScopeStep where
  /-- Makes a new scope with some variables, in place of any earlier one of its name. -/
  | create (scope : String) (bindings : List (String × Value))
  | set (scope name : String) (v : Value)
  | erase (scope name : String)
  /-- Keeps what some names stand for in a scope as a frame. -/
  | save (frame scope : String) (names : List String)
  /-- Puts a frame back into a scope, and uses it up thereby. -/
  | restore (frame scope : String)

namespace ScopeStep

/-- The scope that is worked on. -/
def scope : ScopeStep → String
  | .create scope _ | .set scope _ _ | .erase scope _ | .save _ scope _ | .restore _ scope => scope

/-- What is written to a variable that has a global name, in order. To forget it is to write
nothing to it. -/
def writes (name : String) : ScopeStep → List (Option Value)
  | .create _ bindings => (bindings.filter (·.1 = name)).map fun b => some b.2
  | .set _ other v => if other = name then [some v] else []
  | .erase _ other => if other = name then [none] else []
  | .save .. | .restore .. => []

/-- The frame of this name is made or used up. -/
def touches (frame : String) : ScopeStep → Prop
  | .save other _ _ | .restore other _ => other = frame
  | .create .. | .set .. | .erase .. => False

end ScopeStep

namespace Session

/-- Does one step. To put back a frame that is not there is to do nothing. -/
def perform (s : Session) : ScopeStep → Session
  | .create scope bindings => s.openScope scope bindings
  | .set scope name v => s.set scope name v
  | .erase scope name => (s.erase scope name).2
  | .save frame scope names => s.save frame scope names
  | .restore frame scope => (s.restore? frame scope).getD s

def performAll (s : Session) (steps : List ScopeStep) : Session := steps.foldl perform s

theorem performAll_append (s : Session) (steps others : List ScopeStep) :
    s.performAll (steps ++ others) = (s.performAll steps).performAll others :=
  List.foldl_append

/-! ## What a step does -/

theorem scope_change (s : Session) (scope other : String) (f : State → α × State) :
    (s.change scope f).2.scope other =
      if other = scope then (f ⟨s.scope scope, s.machine⟩).2.locals else s.scope other := by
  simp only [Session.scope, change, Registry.get?_set]
  split <;> rfl

/-- A new scope starts empty, and the variables are then given their values in it. -/
theorem openScope_eq (s : Session) (scope : String) (bindings : List (String × Value)) :
    s.openScope scope bindings =
      { s with
        machine := (State.setAll ⟨.empty, s.machine⟩ bindings).machine
        scopes := (s.scopes.set scope .empty).set scope
          (State.setAll ⟨.empty, s.machine⟩ bindings).locals } := by
  have hempty : ((s.scopes.set scope .empty).get? scope).getD .empty = .empty := by
    simp only [Registry.get?_set, ↓reduceIte, Option.getD_some]
  simp only [openScope, change, Session.scope, hempty]
  rfl

theorem scope_openScope (s : Session) (scope other : String)
    (bindings : List (String × Value)) :
    (s.openScope scope bindings).scope other =
      if other = scope then (State.setAll ⟨.empty, s.machine⟩ bindings).locals
      else s.scope other := by
  rw [openScope_eq]
  simp only [Session.scope, Registry.get?_set]
  split <;> rfl

/-- A frame that is there is put back into its scope; all else stays, but that it is used up. -/
theorem perform_restore {frame : Frame} (h : s.frames.get? id = some frame) (scope : String) :
    s.perform (.restore id scope) =
      { s with
        frames := s.frames.erase id
        scopes := s.scopes.set scope (frame.putBack (s.scope scope)) } := by
  simp only [perform, restore?, h, Option.map_some, Option.getD_some]

theorem perform_restore_missing (h : s.frames.get? id = none) (scope : String) :
    s.perform (.restore id scope) = s := by
  simp only [perform, restore?, h, Option.map_none, Option.getD_none]

/-- A step works on one scope only. -/
theorem scope_perform_of_ne (s : Session) {step : ScopeStep} {other : String}
    (h : other ≠ step.scope) : (s.perform step).scope other = s.scope other := by
  cases step with
  | create scope bindings =>
    have hscope : other ≠ scope := h
    rw [perform, scope_openScope, if_neg hscope]
  | set scope name v => exact (scope_change s scope other _).trans (if_neg h)
  | erase scope name => exact (scope_change s scope other _).trans (if_neg h)
  | save => rfl
  | restore id scope =>
    cases hframe : s.frames.get? id with
    | none => rw [perform_restore_missing hframe]
    | some frame =>
      have hscope : other ≠ scope := h
      rw [perform_restore hframe]
      simp only [Session.scope, Registry.get?_set, hscope, ↓reduceIte]

/-- No step writes to a global that has no global name. -/
theorem globals_perform_of_local (s : Session) (step : ScopeStep) (h : isGlobalName name = false) :
    (s.perform step).machine.globals.get? name = s.machine.globals.get? name := by
  cases step with
  | create scope bindings =>
    rw [perform, openScope_eq]
    exact (State.KeepsLevels.setAll _ bindings).globals name h
  | set scope other v =>
    exact (State.KeepsLevels.set ⟨s.scope scope, s.machine⟩ other v).globals name h
  | erase scope other =>
    exact (State.KeepsLevels.erase ⟨s.scope scope, s.machine⟩ other).globals name h
  | save => rfl
  | restore id scope =>
    cases hframe : s.frames.get? id with
    | none => rw [perform_restore_missing hframe]
    | some frame => rw [perform_restore hframe]

/-! ## Global names -/

theorem getLastD_append (xs ys : List α) (d : α) :
    (xs ++ ys).getLastD d = ys.getLastD (xs.getLastD d) := by
  rw [List.getLastD_eq_getLast?, List.getLastD_eq_getLast?, List.getLastD_eq_getLast?,
    List.getLast?_append]
  cases ys.getLast? <;> rfl

section Globals

variable {name : String} (h : isGlobalName name = true)

include h

theorem globals_set (s : State) (other : String) (v : Value) :
    (s.set other v).machine.globals.get? name =
      if other = name then some v else s.machine.globals.get? name := by
  by_cases hother : other = name
  · subst hother
    simp [State.set_of_global h, Machine.setGlobal, Registry.get?_set]
  · cases hlevel : isGlobalName other with
    | true =>
      simp [State.set_of_global hlevel, Machine.setGlobal, Registry.get?_set, hother,
        Ne.symm hother]
    | false => simp [State.set_of_local hlevel, hother]

theorem globals_erase (s : State) (other : String) :
    (s.erase other).2.machine.globals.get? name =
      if other = name then none else s.machine.globals.get? name := by
  by_cases hother : other = name
  · subst hother
    simp [State.erase_of_global h, Registry.get?_erase]
  · cases hlevel : isGlobalName other with
    | true => simp [State.erase_of_global hlevel, Registry.get?_erase, hother, Ne.symm hother]
    | false => simp [State.erase_of_local hlevel, hother]

theorem globals_setAll (s : State) (bindings : List (String × Value)) :
    (s.setAll bindings).machine.globals.get? name =
      ((bindings.filter (·.1 = name)).map fun b => some b.2).getLastD
        (s.machine.globals.get? name) := by
  induction bindings generalizing s with
  | nil => rfl
  | cons b rest ih =>
    have hrest : ((s.set b.1 b.2).setAll rest).machine.globals.get? name = _ := ih (s.set b.1 b.2)
    rw [globals_set h] at hrest
    refine hrest.trans ?_
    by_cases hb : b.1 = name
    · rw [if_pos hb, List.filter_cons_of_pos (by simpa using hb), List.map_cons,
        List.getLastD_cons]
    · rw [if_neg hb, List.filter_cons_of_neg (by simpa using hb)]

/-- A global name stands for what a step wrote to it last, if it wrote to it. -/
theorem globals_perform (s : Session) (step : ScopeStep) :
    (s.perform step).machine.globals.get? name =
      (step.writes name).getLastD (s.machine.globals.get? name) := by
  cases step with
  | create scope bindings =>
    rw [perform, openScope_eq]
    exact globals_setAll h _ bindings
  | set scope other v =>
    refine (globals_set h ⟨s.scope scope, s.machine⟩ other v).trans ?_
    by_cases hother : other = name <;> simp [ScopeStep.writes, hother]
  | erase scope other =>
    refine (globals_erase h ⟨s.scope scope, s.machine⟩ other).trans ?_
    by_cases hother : other = name <;> simp [ScopeStep.writes, hother]
  | save => rfl
  | restore id scope =>
    cases hframe : s.frames.get? id with
    | none =>
      rw [perform_restore_missing hframe]
      rfl
    | some frame =>
      rw [perform_restore hframe]
      rfl

theorem globals_performAll (s : Session) (steps : List ScopeStep) :
    (s.performAll steps).machine.globals.get? name =
      (steps.flatMap (·.writes name)).getLastD (s.machine.globals.get? name) := by
  induction steps generalizing s with
  | nil => rfl
  | cons step rest ih =>
    have hrest : ((s.perform step).performAll rest).machine.globals.get? name = _ :=
      ih (s.perform step)
    rw [globals_perform h] at hrest
    refine hrest.trans ?_
    rw [List.flatMap_cons, getLastD_append]

end Globals

/-! ## Names of a scope -/

/-- No scope has a local variable with a global name, and every frame was taken from such
variables. -/
structure KeepsApart (s : Session) : Prop where
  scopes : ∀ scope, AllLocal (s.scope scope)
  frames : ∀ id frame, s.frames.get? id = some frame →
    ∃ before names, AllLocal before ∧ frame = .ofNames before names

namespace KeepsApart

/-- The variables of one scope have changed, and the frames have not. -/
theorem of_scope {t : Session} (h : s.KeepsApart) {scope : String}
    (hothers : ∀ other, other ≠ scope → t.scope other = s.scope other)
    (hscope : AllLocal (t.scope scope)) (hframes : t.frames = s.frames) : t.KeepsApart := by
  refine ⟨fun other => ?_, hframes ▸ h.frames⟩
  by_cases hother : other = scope
  · rw [hother]
    exact hscope
  · rw [hothers other hother]
    exact h.scopes other

theorem change (h : s.KeepsApart) {scope : String} {f : State → α × State}
    (hf : State.KeepsLevels ⟨s.scope scope, s.machine⟩ (f ⟨s.scope scope, s.machine⟩).2) :
    (s.change scope f).2.KeepsApart := by
  refine h.of_scope (fun other (hother : other ≠ scope) => ?_) ?_ rfl
  · rw [scope_change, if_neg hother]
  · rw [scope_change, if_pos rfl]
    exact hf.allLocal (h.scopes scope)

theorem perform (h : s.KeepsApart) (step : ScopeStep) : (s.perform step).KeepsApart := by
  have hothers : ∀ other, other ≠ step.scope → (s.perform step).scope other = s.scope other :=
    fun _ => scope_perform_of_ne s
  cases step with
  | create scope bindings =>
    refine h.of_scope hothers ?_ (by rw [Session.perform, openScope_eq])
    rw [Session.perform, scope_openScope]
    simp only [ScopeStep.scope, ↓reduceIte]
    exact (State.KeepsLevels.setAll _ bindings).allLocal allLocal_empty
  | set scope name v => exact h.change (.set _ name v)
  | erase scope name => exact h.change (.erase _ name)
  | save id scope names =>
    refine ⟨h.scopes, fun other frame hframe => ?_⟩
    simp only [Session.perform, save, Registry.get?_set] at hframe
    split at hframe
    · cases hframe
      exact ⟨s.scope scope, names, h.scopes scope, rfl⟩
    · exact h.frames other frame hframe
  | restore id scope =>
    cases hframe : s.frames.get? id with
    | none =>
      rw [perform_restore_missing hframe]
      exact h
    | some frame =>
      obtain ⟨before, names, hbefore, rfl⟩ := h.frames id frame hframe
      rw [perform_restore hframe] at hothers ⊢
      constructor
      · intro other
        by_cases hother : other = scope
        · simp only [Session.scope, Registry.get?_set, hother, ↓reduceIte, Option.getD_some]
          exact allLocal_putBack hbefore (h.scopes scope) names
        · rw [hothers other hother]
          exact h.scopes other
      · intro other frame hother
        simp only [Registry.get?_erase] at hother
        split at hother
        · cases hother
        · exact h.frames other frame hother

theorem performAll (h : s.KeepsApart) (steps : List ScopeStep) :
    (s.performAll steps).KeepsApart := by
  induction steps generalizing s with
  | nil => exact h
  | cons step rest ih => exact ih (h.perform step)

end KeepsApart

/-! ## Frames -/

theorem frames_perform (s : Session) {step : ScopeStep} (h : ¬ step.touches id) :
    (s.perform step).frames.get? id = s.frames.get? id := by
  cases step with
  | create scope bindings => rw [perform, openScope_eq]
  | set | erase => rfl
  | save other scope names =>
    have hother : other ≠ id := h
    simp only [perform, save, Registry.get?_set, Ne.symm hother, ↓reduceIte]
  | restore other scope =>
    have hother : other ≠ id := h
    cases hframe : s.frames.get? other with
    | none => rw [perform_restore_missing hframe]
    | some frame =>
      rw [perform_restore hframe]
      simp only [Registry.get?_erase, Ne.symm hother, ↓reduceIte]

/-- A frame stays as it was saved for as long as it is not used up or replaced. -/
theorem frames_performAll (s : Session) {steps : List ScopeStep}
    (h : ∀ step ∈ steps, ¬ step.touches id) :
    (s.performAll steps).frames.get? id = s.frames.get? id := by
  induction steps generalizing s with
  | nil => rfl
  | cons step rest ih =>
    obtain ⟨hstep, hrest⟩ := List.forall_mem_cons.mp h
    exact (ih (s.perform step) hrest).trans (frames_perform s hstep)

/-- From `t` to `u` those of the names that are not global are put back in a scope to what they
stood for among the locals `before`, and nothing else changes. -/
structure PutsBack (names : List String) (before : Registry Value) (target : String)
    (t u : Session) : Prop where
  named : ∀ name ∈ names, isGlobalName name = false →
    (u.scope target).get? name = before.get? name
  unnamed : ∀ name, name ∉ names ∨ isGlobalName name = true →
    (u.scope target).get? name = (t.scope target).get? name
  others : ∀ other, other ≠ target → u.scope other = t.scope other
  machine : u.machine = t.machine

theorem KeepsApart.putsBack {t : Session} (h : t.KeepsApart) {before : Registry Value}
    {names : List String} (hbefore : AllLocal before)
    (hframe : t.frames.get? id = some (.ofNames before names)) (target : String) :
    PutsBack names before target t (t.perform (.restore id target)) := by
  have hothers : ∀ other, other ≠ target →
      (t.perform (.restore id target)).scope other = t.scope other := by
    intro other hother
    exact scope_perform_of_ne t hother
  have hscope : (t.perform (.restore id target)).scope target =
      (Frame.ofNames before names).putBack (t.scope target) := by
    rw [perform_restore hframe]
    simp only [Session.scope, Registry.get?_set, ↓reduceIte, Option.getD_some]
  refine ⟨fun name hname _ => ?_, fun name hname => ?_, hothers, ?_⟩
  · rw [hscope]
    exact Frame.get?_putBack_ofNames hname before _
  · rw [hscope]
    by_cases hmem : name ∈ names
    · -- A global name of the frame stood for nothing, as it does in every scope.
      have hglobal : isGlobalName name = true := hname.resolve_left (not_not_intro hmem)
      rw [Frame.get?_putBack_ofNames hmem, hbefore name hglobal, h.scopes target name hglobal]
    · exact Frame.get?_putBack_of_notMem hmem before _
  · rw [perform_restore hframe]

/-! ## Sessions -/

/-- A session that began with nothing but a machine, after some steps. -/
def after (machine : Machine) (steps : List ScopeStep) : Session := performAll { machine } steps

theorem after_append (machine : Machine) (steps others : List ScopeStep) :
    after machine (steps ++ others) = (after machine steps).performAll others :=
  performAll_append _ steps others

theorem keepsApart_after (machine : Machine) (steps : List ScopeStep) :
    (after machine steps).KeepsApart := by
  have hstart : KeepsApart { machine } := by
    refine ⟨fun _ => allLocal_empty, fun id frame h => ?_⟩
    cases h
  exact hstart.performAll steps

/-- Whatever is done with any number of scopes, no scope has a local variable with a global name;
a global name stands for the same in all of them, which is what was last written to it through
any of them, if it was not forgotten since; what is done in one scope is no matter to what another
reads under its own names; and a frame put back, into whichever scope, brings back what its names
stood for when it was saved and leaves everything else as it is. -/
theorem scopes_share_global_names_only (machine : Machine) (steps : List ScopeStep) :
    (∀ scope, AllLocal ((after machine steps).scope scope)) ∧
    (∀ scope name, isGlobalName name = true →
      (after machine steps).get? scope name =
        (steps.flatMap (·.writes name)).getLastD (machine.globals.get? name)) ∧
    (∀ step other name, other ≠ ScopeStep.scope step → isGlobalName name = false →
      (after machine (steps ++ [step])).get? other name =
        (after machine steps).get? other name) ∧
    ∀ frame scope names between target, (∀ step ∈ between, ¬ ScopeStep.touches frame step) →
      PutsBack names ((after machine steps).scope scope) target
        (after machine (steps ++ .save frame scope names :: between))
        (after machine
          (steps ++ .save frame scope names :: between ++ [.restore frame target])) := by
  have hsteps := keepsApart_after machine steps
  refine ⟨hsteps.scopes, fun scope name hname => ?_, fun step other name hother hname => ?_, ?_⟩
  · simp only [get?, State.get?, hname, ↓reduceIte]
    exact globals_performAll hname { machine } steps
  · have hstep : after machine (steps ++ [step]) = (after machine steps).perform step :=
      after_append machine steps [step]
    simp only [hstep, get?, State.get?, hname, Bool.false_eq_true, ↓reduceIte,
      scope_perform_of_ne _ hother, globals_perform_of_local _ step hname]
  · intro frame scope names between target hbetween
    rw [after_append machine (steps ++ _)]
    refine (keepsApart_after machine _).putsBack (hsteps.scopes scope) ?_ target
    rw [after_append]
    refine (frames_performAll _ hbetween).trans ?_
    simp only [perform, save, Registry.get?_set, ↓reduceIte]

end Session

end TickScript
