-- What an assignment writes. A target that fits a value gives each of its variables the member at
-- the place of the variable. Of one that does not fit, the variables in front of the first misfit
-- have been given their members when the assignment fails, and nothing else has changed.
import Mathlib.Data.List.Forall2
import TickScript.Library.Assignment
import TickScript.Proofs.Runs
import TickScript.Proofs.Scopes

namespace TickScript

/-! ## Variables that are written -/

/-- The name stands for the same in both states, as a local and as a global. -/
structure State.SameAt (name : String) (s t : State) : Prop where
  locals : t.locals.get? name = s.locals.get? name
  globals : t.machine.globals.get? name = s.machine.globals.get? name

namespace State

theorem SameAt.trans {name : String} {s t u : State} (h : SameAt name s t) (h' : SameAt name t u) :
    SameAt name s u :=
  ⟨h'.locals.trans h.locals, h'.globals.trans h.globals⟩

theorem SameAt.get? {name : String} {s t : State} (h : SameAt name s t) :
    t.get? name = s.get? name := by
  unfold State.get?
  rw [h.locals, h.globals]

theorem sameAt_set {name other : String} (h : other ≠ name) (s : State) (v : Value) :
    SameAt other s (s.set name v) := by
  unfold State.set
  split
  · exact ⟨rfl, by simp [Machine.setGlobal, Registry.get?_set, h]⟩
  · exact ⟨by simp [Registry.get?_set, h], rfl⟩

theorem get?_set_self (s : State) (name : String) (v : Value) :
    (s.set name v).get? name = some v := by
  cases h : isGlobalName name with
  | true => simp [set_of_global h, State.get?, h, Machine.setGlobal, Registry.get?_set]
  | false => simp [set_of_local h, State.get?, h, Registry.get?_set]

theorem setAll_append (s : State) (first second : List (String × Value)) :
    s.setAll (first ++ second) = (s.setAll first).setAll second :=
  List.foldl_append

/-- Names that are not written stand for what they stood for. -/
theorem sameAt_setAll {writes : List (String × Value)} {name : String}
    (h : name ∉ writes.map Prod.fst) (s : State) : SameAt name s (s.setAll writes) := by
  induction writes generalizing s with
  | nil => exact ⟨rfl, rfl⟩
  | cons write writes ih =>
    simp only [List.map_cons, List.mem_cons, not_or] at h
    exact (sameAt_set h.1 s write.2).trans (ih h.2 (s.set write.1 write.2))

/-- Of several writes to one name the last counts. -/
theorem get?_setAll {before after : List (String × Value)} {name : String}
    (h : name ∉ after.map Prod.fst) (s : State) (v : Value) :
    (s.setAll (before ++ (name, v) :: after)).get? name = some v := by
  have hlast : s.setAll (before ++ (name, v) :: after) =
      ((s.setAll before).set name v).setAll after := setAll_append s before _
  rw [hlast, (sameAt_setAll h _).get?, get?_set_self]

end State

/-! ## Targets that fit -/

namespace Value

variable {target v : Value}

/-- Each variable of the target can be given a member of the value: there is a list of the same
length wherever the target is a list without a name. -/
inductive Fits : Value → Value → Prop
  | named (name : String) (d : Datum Value) (v : Value) : Fits ⟨some name, d⟩ v
  | list {targets items : List Value} {b : Option String} (h : List.Forall₂ Fits targets items) :
      Fits ⟨none, .list targets⟩ ⟨b, .list items⟩

mutual

/-- What the variables of a target are given, from left to right. -/
def writes : Value → Value → List (String × Value)
  | ⟨some name, _⟩, v => [(name, v.bindTo name)]
  | ⟨none, .list targets⟩, v => allWrites targets (v.list?.getD [])
  | _, _ => []

def allWrites : List Value → List Value → List (String × Value)
  | target :: targets, v :: items => target.writes v ++ allWrites targets items
  | _, _ => []

end

/-- The first place, from left to right, where a target does not fit a value. What stands in front
of it fits and comes to these writes. -/
inductive Misfit : Value → Value → List (String × Value) → Cause → Prop
  | notVariable {target v : Value} (hname : target.binding = none)
      (hlist : target.list? = none ∨ v.list? = none) :
      Misfit target v [] (.cannotAssign target.display)
  | length {targets items : List Value} {b : Option String}
      (h : targets.length ≠ items.length) :
      Misfit ⟨none, .list targets⟩ ⟨b, .list items⟩ []
        (.cannotUnpack items.length targets.length)
  | within {target item : Value} {before after firsts others : List Value} {b : Option String}
      {writes : List (String × Value)} {cause : Cause}
      (hbefore : List.Forall₂ Fits before firsts) (hafter : after.length = others.length)
      (h : Misfit target item writes cause) :
      Misfit ⟨none, .list (before ++ target :: after)⟩ ⟨b, .list (firsts ++ item :: others)⟩
        (allWrites before firsts ++ writes) cause

theorem Fits.unbound (h : target.Fits v) : target.Fits v.unbound := by
  cases h with
  | named name d => exact .named name d _
  | list h => exact .list h

theorem writes_unbound (target v : Value) : target.writes v.unbound = target.writes v := by
  obtain ⟨b, d⟩ := target
  obtain ⟨c, e⟩ := v
  cases b with
  | some name => rfl
  | none =>
    cases d with
    | list targets => cases e <;> rfl
    | null | number | text | iterator | host => rfl

/-! ## The two ways an assignment goes -/

theorem assign_list (targets items : List Value) (b : Option String) :
    assign ⟨none, .list targets⟩ ⟨b, .list items⟩ =
      if targets.length = items.length then
        assignAll targets items >>= fun _ => pure ⟨b, .list items⟩
      else Run.fail (.cannotUnpack items.length targets.length) := by
  rw [assign]
  rfl

theorem assignAll_append {before firsts : List Value} (h : before.length = firsts.length)
    (targets items : List Value) :
    assignAll (before ++ targets) (firsts ++ items) =
      assignAll before firsts >>= fun _ => assignAll targets items := by
  induction before generalizing firsts with
  | nil =>
    obtain rfl := List.length_eq_zero_iff.mp h.symm
    simp [assignAll]
  | cons target before ih =>
    cases firsts with
    | nil => cases h
    | cons item firsts =>
      simp only [List.cons_append, assignAll, ih (Nat.succ.inj h), bind_assoc]

mutual

/-- A target that fits is given the value. -/
theorem assign_of_fits : ∀ {target v : Value}, target.Fits v →
    ∀ s, assign target v s = .ok v (s.setAll (target.writes v))
  | ⟨some name, d⟩, v, _, s => by
    rw [assign]
    rfl
  | ⟨none, .list targets⟩, _, .list h, s => by
    rw [assign_list, if_pos h.length_eq, Run.bind_of_ok (assignAll_of_fits h s)]
    rfl

theorem assignAll_of_fits : ∀ {targets items : List Value}, List.Forall₂ Fits targets items →
    ∀ s, assignAll targets items s = .ok () (s.setAll (allWrites targets items))
  | [], _, .nil, s => rfl
  | target :: targets, item :: items, .cons h hs, s => by
    -- The members of a list are assigned without their names, which changes nothing.
    have hfirst := assign_of_fits h.unbound s
    rw [writes_unbound] at hfirst
    rw [assignAll, Run.bind_of_ok hfirst, assignAll_of_fits hs, allWrites, State.setAll_append]

end

/-- An assignment fails in the same way whatever name the value carries. -/
theorem assign_unbound_of_error {s t : State} {i : Interrupt} (h : assign target v s = .error i t) :
    assign target v.unbound s = .error i t := by
  obtain ⟨_ | name, d⟩ := target
  · obtain ⟨b, e⟩ := v
    cases d with
    | list targets =>
      cases e with
      | list items =>
        unfold Value.unbound datum
        rw [assign_list] at h ⊢
        by_cases hlength : targets.length = items.length
        · rw [if_pos hlength] at h ⊢
          rcases Run.of_bind_error h with hall | ⟨_, _, _, hpure⟩
          · exact Run.bind_of_error hall
          · cases hpure
        · rw [if_neg hlength] at h ⊢
          exact h
      | null | number | text | iterator | host =>
        rw [assign] at h ⊢
        exact h
    | null | number | text | iterator | host =>
      rw [assign] at h ⊢
      · exact h
      all_goals simp
  · rw [assign] at h
    cases h

/-- A target that does not fit is given what stands in front of the misfit. -/
theorem assign_of_misfit {writes : List (String × Value)} {cause : Cause}
    (h : target.Misfit v writes cause) (s : State) :
    assign target v s = .error (.fault (.ofCause cause)) (s.setAll writes) := by
  induction h generalizing s with
  | @notVariable target v hname hlist =>
    obtain ⟨_ | name, d⟩ := target
    · cases d with
      | list targets =>
        have hv : v.list? = none := hlist.resolve_left nofun
        rw [assign, hv]
        rfl
      | null | number | text | iterator | host =>
        rw [assign]
        · rfl
        all_goals simp
    · cases hname
  | length h =>
    rw [assign_list, if_neg h]
    rfl
  | @within target item before after firsts others b writes cause hbefore hafter h ih =>
    have hlength : (before ++ target :: after).length = (firsts ++ item :: others).length := by
      simp [hbefore.length_eq, hafter]
    -- What stands in front fits and is written. The part that does not fit ends the round.
    have hfails : assignAll (target :: after) (item :: others)
        (s.setAll (allWrites before firsts)) =
          .error (.fault (.ofCause cause))
            ((s.setAll (allWrites before firsts)).setAll writes) := by
      rw [assignAll]
      exact Run.bind_of_error (assign_unbound_of_error (ih _))
    have hall : assignAll (before ++ target :: after) (firsts ++ item :: others) s =
        .error (.fault (.ofCause cause)) (s.setAll (allWrites before firsts ++ writes)) := by
      rw [assignAll_append hbefore.length_eq, Run.bind_of_ok (assignAll_of_fits hbefore s), hfails,
        State.setAll_append]
    rw [assign_list, if_pos hlength, Run.bind_of_error hall]

mutual

/-- A target fits a value, or there is a first misfit. -/
theorem fits_or_misfit : ∀ target v : Value,
    target.Fits v ∨ ∃ writes cause, target.Misfit v writes cause
  | ⟨some name, d⟩, v => Or.inl (.named name d v)
  | ⟨none, .list targets⟩, ⟨b, .list items⟩ => by
    by_cases hlength : targets.length = items.length
    case neg => exact Or.inr ⟨_, _, .length hlength⟩
    rcases allFit_or_misfit targets items hlength with hfits |
      ⟨before, target, after, firsts, item, others, writes, cause, rfl, rfl, hbefore, hafter, h⟩
    · exact Or.inl (.list hfits)
    · exact Or.inr ⟨_, _, .within hbefore hafter h⟩
  | ⟨none, .list _⟩, ⟨_, .null⟩ | ⟨none, .list _⟩, ⟨_, .number _⟩ | ⟨none, .list _⟩, ⟨_, .text _⟩
  | ⟨none, .list _⟩, ⟨_, .iterator ..⟩ | ⟨none, .list _⟩, ⟨_, .host ..⟩ =>
    Or.inr ⟨_, _, .notVariable rfl (Or.inr rfl)⟩
  | ⟨none, .null⟩, _ | ⟨none, .number _⟩, _ | ⟨none, .text _⟩, _ | ⟨none, .iterator ..⟩, _
  | ⟨none, .host ..⟩, _ => Or.inr ⟨_, _, .notVariable rfl (Or.inl rfl)⟩

theorem allFit_or_misfit : ∀ targets items : List Value, targets.length = items.length →
    List.Forall₂ Fits targets items ∨
      ∃ before target after firsts item others writes cause,
        targets = before ++ target :: after ∧ items = firsts ++ item :: others ∧
        List.Forall₂ Fits before firsts ∧ after.length = others.length ∧
        target.Misfit item writes cause
  | [], [], _ => Or.inl .nil
  | target :: targets, item :: items, hlength => by
    have hlength : targets.length = items.length := Nat.succ.inj hlength
    rcases fits_or_misfit target item with hfits | ⟨writes, cause, h⟩
    · rcases allFit_or_misfit targets items hlength with hall |
        ⟨before, first, after, firsts, other, others, writes, cause, rfl, rfl, hbefore, hafter, h⟩
      · exact Or.inl (.cons hfits hall)
      · exact Or.inr ⟨target :: before, first, after, item :: firsts, other, others, writes, cause,
          rfl, rfl, .cons hfits hbefore, hafter, h⟩
    · exact Or.inr ⟨[], target, targets, [], item, items, writes, cause, rfl, rfl, .nil, hlength, h⟩

end

/-- An assignment fails at the first misfit and nowhere else. -/
theorem misfit_of_assign {s t : State} {i : Interrupt} (h : assign target v s = .error i t) :
    ∃ writes cause, target.Misfit v writes cause ∧ i = .fault (.ofCause cause) ∧
      t = s.setAll writes := by
  rcases fits_or_misfit target v with hfits | ⟨writes, cause, hmisfit⟩
  · rw [assign_of_fits hfits] at h
    cases h
  · rw [assign_of_misfit hmisfit] at h
    cases h
    exact ⟨writes, cause, hmisfit, rfl, rfl⟩

theorem Misfit.not_fits {writes : List (String × Value)} {cause : Cause}
    (h : target.Misfit v writes cause) : ¬ target.Fits v := by
  intro hfits
  have hfails := assign_of_misfit h ⟨.empty, {}⟩
  rw [assign_of_fits hfits] at hfails
  cases hfails

/-- Nothing is written in front of a misfit of a list of variables. -/
theorem Misfit.writes_eq_nil {writes : List (String × Value)} {cause : Cause}
    (h : target.Misfit v writes cause) {items : List Value} (hitems : target.list? = some items)
    (hnames : ∀ item ∈ items, item.binding ≠ none) : writes = [] := by
  cases h with
  | notVariable | length => rfl
  | @within target item before after firsts others b writes cause hbefore hafter h =>
    cases hitems
    have hname := hnames target (by simp)
    cases h with
    | notVariable hunnamed => exact absurd hunnamed hname
    | length | within => exact absurd rfl hname

end Value

/-- An assignment fails exactly if its target does not fit the value. Then the variables in front
of the first misfit hold what they were given, of two with one name the later one, and every other
variable is what it was before, as a local and as a global. So a failed assignment to a list of
variables changes nothing. -/
theorem a_failed_assignment_keeps_the_writes_before_its_fault (target v : Value) (s : State) :
    ((∃ i t, assign target v s = .error i t) ↔ ¬ target.Fits v) ∧
    (∀ i t, assign target v s = .error i t →
      ∃ writes cause, target.Misfit v writes cause ∧ i = .fault (.ofCause cause) ∧
        t = s.setAll writes ∧
        (∀ before name x after, writes = before ++ (name, x) :: after →
          name ∉ after.map Prod.fst → t.get? name = some x) ∧
        ∀ name, name ∉ writes.map Prod.fst → s.SameAt name t) ∧
    ∀ items, target.list? = some items → (∀ item ∈ items, item.binding ≠ none) →
      ∀ i t, assign target v s = .error i t → t = s := by
  refine ⟨⟨?_, fun hmisfit => ?_⟩, fun i t h => ?_, fun items hitems hnames i t h => ?_⟩
  · rintro ⟨i, t, h⟩
    obtain ⟨writes, cause, hmisfit, _⟩ := Value.misfit_of_assign h
    exact hmisfit.not_fits
  · obtain ⟨writes, cause, hmisfit⟩ := (Value.fits_or_misfit target v).resolve_left hmisfit
    exact ⟨_, _, Value.assign_of_misfit hmisfit s⟩
  · obtain ⟨writes, cause, hmisfit, hi, rfl⟩ := Value.misfit_of_assign h
    refine ⟨writes, cause, hmisfit, hi, rfl, ?_, fun name hname => State.sameAt_setAll hname s⟩
    rintro before name x after rfl hafter
    exact State.get?_setAll hafter s x
  · obtain ⟨writes, cause, hmisfit, _, rfl⟩ := Value.misfit_of_assign h
    rw [hmisfit.writes_eq_nil hitems hnames]
    rfl

namespace HalfDone

def old (name : String) : Value := (Value.text "old").bindTo name

/-- The left side of `l(a, l(b, 'x'), c) = l('1', l('2', '3'), '4')`. -/
def target : Value := .list [old "a", .list [old "b", .text "x"], old "c"]

def value : Value := .list [.text "1", .list [.text "2", .text "3"], .text "4"]

/-- Three variables in which there is something already. -/
def start : State := State.setAll ⟨.empty, {}⟩ [("a", old "a"), ("b", old "b"), ("c", old "c")]

end HalfDone

open HalfDone in
/-- The text among the variables cannot be written to, but the variable in front of it has been
written by then. -/
theorem a_variable_in_front_of_the_fault_is_written :
    ∃ i t, assign target value start = .error i t ∧ ¬ start.SameAt "a" t := by
  refine ⟨.fault (.ofCause (.cannotAssign "x")),
    start.setAll [("a", ⟨some "a", .text "1"⟩), ("b", ⟨some "b", .text "2"⟩)], rfl, fun h => ?_⟩
  have hlocals : some (Value.mk (some "a") (.text "1")) = some (old "a") := h.locals
  simp [old, Value.bindTo, Value.text, Value.datum] at hlocals

open HalfDone in
/-- Two variables stand in front of the fault, one of them in a list of its own, and the third
behind it. -/
theorem two_of_three_variables_are_written :
    ∃ i t, assign target value start = .error i t ∧
      (∃ writes cause, target.Misfit value writes cause ∧ i = .fault (.ofCause cause) ∧
        t = start.setAll writes) ∧
      t.get? "a" = some ⟨some "a", .text "1"⟩ ∧ t.get? "b" = some ⟨some "b", .text "2"⟩ ∧
      start.SameAt "c" t := by
  have hfails : assign target value start = .error (.fault (.ofCause (.cannotAssign "x")))
      (start.setAll [("a", ⟨some "a", .text "1"⟩), ("b", ⟨some "b", .text "2"⟩)]) := rfl
  obtain ⟨writes, cause, hmisfit, hi, ht, _⟩ :=
    (a_failed_assignment_keeps_the_writes_before_its_fault target value start).2.1 _ _ hfails
  exact ⟨_, _, hfails, ⟨writes, cause, hmisfit, hi, ht⟩, rfl, rfl, rfl, rfl⟩

end TickScript
