-- Assignments to several variables at once. All of them are given what the right side was before
-- any of them was written, so a list of variables reads back as what was assigned to it, and
-- variables can be exchanged.
import TickScript.Proofs.Targets
import TickScript.Proofs.Unpacking

namespace TickScript

variable {lang : Language} {P : Target} {left right : Lazy} {s t u : State} {v w x y : Value}
  {a b : String}

/-! ## The value of a target -/

namespace Target

mutual

/-- What the target is read as. A variable that is not there is read as null. -/
def valueIn (s : State) : Target → Value
  | single name => ((s.get? name).getD .null).bindTo name
  | list parts => .list (valuesIn s parts)

def valuesIn (s : State) : List Target → List Value
  | [] => []
  | P :: parts => P.valueIn s :: valuesIn s parts

end

/-- What the target may be read as, whatever its variables are: each of them as a value that carries
its name. -/
inductive Reads : Target → Value → Prop
  | single (name : String) (d : Datum Value) : Reads (single name) ⟨some name, d⟩
  | list {parts : List Target} {items : List Value} (h : List.Forall₂ Reads parts items) :
      Reads (list parts) (.list items)

/-- The value is a list of the same length wherever the target is a list. -/
inductive Fits : Target → Value → Prop
  | single (name : String) (v : Value) : Fits (single name) v
  | list {parts : List Target} {items : List Value} {b : Option String}
      (h : List.Forall₂ Fits parts items) : Fits (list parts) ⟨b, .list items⟩

/-- Induction on how a target fits a value, with what holds of all the parts. -/
theorem Fits.induct {motive : (P : Target) → (v : Value) → P.Fits v → Prop}
    (single : ∀ name v, motive _ _ (.single name v))
    (list : ∀ {parts items b} (h : List.Forall₂ Fits parts items),
      List.Forall₂ (fun P v => ∃ h, motive P v h) parts items →
      motive (.list parts) ⟨b, .list items⟩ (.list h))
    {P : Target} {v : Value} (h : P.Fits v) : motive P v h :=
  @Fits.rec motive (fun parts items _ => List.Forall₂ (fun P v => ∃ h, motive P v h) parts items)
    single list .nil (fun h _ ih ihs => .cons ⟨h, ih⟩ ihs) P v h

mutual

/-- The variables, each with the member of the value that stands at its place. -/
def components : Target → Value → List (String × Value)
  | single name, v => [(name, v)]
  | list parts, v => allComponents parts (v.list?.getD [])

def allComponents : List Target → List Value → List (String × Value)
  | P :: parts, v :: items => P.components v ++ allComponents parts items
  | _, _ => []

end

/-- What an assignment gives the variables. -/
def writes (P : Target) (v : Value) : List (String × Value) :=
  (P.components v).map fun c => (c.1, c.2.bindTo c.1)

theorem valuesIn_eq_map (s : State) (parts : List Target) :
    valuesIn s parts = parts.map (valueIn s) := by
  induction parts with
  | nil => rfl
  | cons P parts ih => rw [valuesIn, ih, List.map_cons]

theorem reads_valueIn (P : Target) (s : State) : P.Reads (P.valueIn s) := by
  induction P using Target.induct with
  | single name => exact .single name _
  | list parts ih =>
    refine .list ?_
    rw [valuesIn_eq_map, List.forall₂_map_right_iff, List.forall₂_same]
    exact ih

theorem Reads.writes (h : P.Reads w) (v : Value) : w.writes v = P.writes v := by
  induction P using Target.induct generalizing w v with
  | single name =>
    cases h
    rfl
  | list parts ih =>
    cases h with
    | @list _ items hparts =>
      have hall : ∀ others, Value.allWrites items others =
          (allComponents parts others).map fun c => (c.1, c.2.bindTo c.1) := by
        induction hparts with
        | nil => exact fun others => by cases others <;> rfl
        | cons hP _ ihs =>
          obtain ⟨ih, hothers⟩ := List.forall_mem_cons.mp ih
          intro others
          cases others with
          | nil => rfl
          | cons v others =>
            rw [Value.allWrites, allComponents, List.map_append, ihs hothers, ih hP]
            rfl
      exact hall _

section

variable (h : P.Fits v)

include h

theorem Fits.value (hreads : P.Reads w) : w.Fits v := by
  induction h using Fits.induct generalizing w with
  | single name v =>
    cases hreads
    exact .named name _ v
  | list hall hparts =>
    clear hall
    cases hreads with
    | @list _ read hitems =>
      refine .list ?_
      induction hparts generalizing read with
      | nil =>
        cases hitems
        exact .nil
      | cons hP _ ih =>
        cases hitems with
        | cons hread hitems => exact .cons (hP.2 hread) (ih hitems)

theorem Fits.map_fst_writes : (P.writes v).map Prod.fst = P.names := by
  induction h using Fits.induct with
  | single name v => rfl
  | @list parts items b _ hparts =>
    have hall : ((allComponents parts items).map fun c => (c.1, c.2.bindTo c.1)).map Prod.fst =
        allNames parts := by
      induction hparts with
      | nil => rfl
      | cons hP hparts ih =>
        rw [allComponents, List.map_append, List.map_append, allNames, ← hP.2,
          ih (hparts.imp fun _ _ h => h.1)]
        rfl
    exact hall

end

end Target

/-- The values are the same but for the names that they and the members of their lists carry. -/
inductive Value.SameButNames : Value → Value → Prop
  | datum (b c : Option String) (d : Datum Value) : SameButNames ⟨b, d⟩ ⟨c, d⟩
  | list (b c : Option String) {items others : List Value}
      (h : List.Forall₂ SameButNames items others) : SameButNames ⟨b, .list items⟩ ⟨c, .list others⟩

/-- A target whose variables hold the members of a value is read as that value. -/
theorem Target.Fits.sameButNames (h : P.Fits v)
    (hs : ∀ c ∈ P.components v, s.get? c.1 = some (c.2.bindTo c.1)) :
    (P.valueIn s).SameButNames v := by
  induction h using Fits.induct with
  | single name v =>
    have hname : s.get? name = some (v.bindTo name) := hs (name, v) (by simp [components])
    obtain ⟨b, d⟩ := v
    rw [valueIn, hname]
    exact .datum _ b d
  | @list parts items b _ hparts =>
    replace hs : ∀ c ∈ allComponents parts items, s.get? c.1 = some (c.2.bindTo c.1) := hs
    refine .list _ _ ?_
    induction hparts with
    | nil => exact .nil
    | cons hP hparts ih =>
      rw [allComponents, List.forall_mem_append] at hs
      exact .cons (hP.2 hs.1) (ih (hparts.imp fun _ _ h => h.1) hs.2)

/-! ## Evaluation -/

/-- Reads a variable that is computed at each reading. What it is computed as may change, and
computing it may fail. -/
def readComputed (name : String) (x : Lazy) : Lazy := fun kind => do
  let v ← x kind
  return v.bindTo name

/-- A variable of a state is computed as its constant value. -/
theorem readVariable_eq_readComputed {name : String} (h : s.get? name = some v) (isTarget : Bool)
    (kind : Kind) : readVariable name isTarget s = readComputed name (.of v) kind s := by
  simp only [readVariable, h]
  rfl

theorem readVariable_of_bound {name : String} {isTarget : Bool}
    (h : isTarget = true ∨ (s.get? name).isSome = true) :
    readVariable name isTarget s = .ok (((s.get? name).getD .null).bindTo name) s := by
  rcases hname : s.get? name with _ | v
  · rw [hname] at h
    simp only [readVariable, hname, h.resolve_right (by simp)]
    rfl
  · rw [readVariable_eq_readComputed hname isTarget .value]
    rfl

theorem Language.Assigns.call_list (hlang : lang.Assigns) (run : Expr → Lazy) (kind : Kind)
    {args : List Lazy} {items : List Value} (h : Lazy.forceAll args s = .ok items t) :
    applyCall lang run listMaker kind args s = .ok (.list items) t := by
  simp only [applyCall, hlang.list, Native.eager, bind_assoc]
  rw [Run.bind_of_ok h]
  rfl

theorem Language.Assigns.call_pair (hlang : lang.Assigns) (run : Expr → Lazy) (kind : Kind)
    (hleft : left .value s = .ok x t) (hright : right .value t = .ok y u) :
    applyCall lang run listMaker kind [left, right] s = .ok (.list [x, y]) u := by
  have hlast : Lazy.forceAll [right] t = .ok [y] u := by
    rw [Lazy.forceAll, Run.bind_of_ok hright]
    rfl
  refine hlang.call_list run kind ?_
  rw [Lazy.forceAll, Run.bind_of_ok hleft, Run.bind_of_ok hlast]
  rfl

/-- To evaluate a target is to read it, which changes nothing. -/
theorem Target.IsTree.denote (hlang : lang.Assigns) (run : Expr → Lazy) {isTarget : Bool} {e : Expr}
    (h : P.IsTree isTarget e) (hs : isTarget = true ∨ ∀ name ∈ P.names, (s.get? name).isSome = true)
    (kind : Kind) : e.denote lang run kind s = .ok (P.valueIn s) s := by
  induction h using IsTree.induct generalizing kind with
  | single name site =>
    exact Run.located_of_ok site (readVariable_of_bound (hs.imp_right fun hs => hs name (by
      simp [names])))
  | @list parts trees _ site hparts =>
    replace hs : isTarget = true ∨ ∀ name ∈ allNames parts, (s.get? name).isSome = true := hs
    have hforce : Lazy.forceAll (Expr.denoteAll lang run trees) s = .ok (valuesIn s parts) s := by
      induction hparts with
      | nil => rfl
      | cons hP hparts ih =>
        simp only [allNames, List.forall_mem_append] at hs
        rw [Expr.denoteAll, Lazy.forceAll, Run.bind_of_ok (hP.2 (hs.imp_right And.left) .value),
          Run.bind_of_ok (ih (hparts.imp fun _ _ h => h.1) (hs.imp_right And.right))]
        rfl
    exact Run.located_of_ok site (hlang.call_list run kind hforce)

theorem Run.of_reported_ok {α : Type} {x : Run α} {a : α} (h : reported x s = .ok a t) :
    x s = .ok a t := by
  unfold reported at h
  split at h
  · cases h
  · exact h

/-- An assignment to a target that fits, however the target is read: the right side is evaluated,
and then all is written. -/
theorem Language.Assigns.assign_of_reads (hlang : lang.Assigns) (hleft : left .value s = .ok w t)
    (hreads : P.Reads w) (hright : right .value t = .ok v u) (hfits : P.Fits v) (kind : Kind) :
    applyBinary lang "=" kind left right s = .ok v.unbound (u.setAll (P.writes v)) := by
  simp only [applyBinary, hlang.assign, Library.assignPlain]
  rw [Run.bind_of_ok hleft, Run.bind_of_ok hright,
    Value.assign_of_fits (hfits.value hreads).unbound, Value.writes_unbound, hreads.writes]

theorem Target.IsTree.denote_assign (hlang : lang.Assigns) {run : Expr → Lazy} {target tree : Expr}
    (htarget : P.IsTree true target) (htree : tree.denote lang run .value s = .ok v t)
    (hfits : P.Fits v) (site : Site) (kind : Kind) :
    (Expr.binary "=" target tree site).denote lang run kind s =
      .ok v.unbound (t.setAll (P.writes v)) := by
  -- The target is read first, which changes nothing, so the right side starts where all did.
  exact Run.located_of_ok site (hlang.assign_of_reads (htarget.denote hlang run (Or.inl rfl) .value)
    (P.reads_valueIn s) htree hfits kind)

namespace State

theorem get?_setAll_of_nodup {writes : List (String × Value)} (h : (writes.map Prod.fst).Nodup)
    {write : String × Value} (hmem : write ∈ writes) (s : State) :
    (s.setAll writes).get? write.1 = some write.2 := by
  obtain ⟨before, after, rfl⟩ := List.append_of_mem hmem
  rw [List.map_append, List.map_cons] at h
  exact get?_setAll (List.nodup_cons.mp (List.nodup_append.mp h).2.1).1 s write.2

variable {L : Likeness}

theorem Like.setAll (h : s.Like L t) (writes : List (String × Value)) :
    (s.setAll writes).Like L (t.setAll writes) := by
  induction writes generalizing s t with
  | nil => exact h
  | cons write writes ih => exact ih (h.set write.1 write.2)

theorem Like.sameAt (h : s.Like L t) (name : String) : SameAt name s t := by
  cases h with
  | mk locals h => exact ⟨rfl, by rw [h.globals]⟩

end State

section

variable (h : P.Fits v) (hdistinct : P.names.Nodup) (s : State)

include h hdistinct

theorem Target.Fits.get?_setAll : ∀ c ∈ P.components v,
    (s.setAll (P.writes v)).get? c.1 = some (c.2.bindTo c.1) := by
  intro c hc
  exact State.get?_setAll_of_nodup (h.map_fst_writes ▸ hdistinct) (List.mem_map_of_mem hc) s

theorem Target.Fits.isSome_setAll : ∀ name ∈ P.names,
    ((s.setAll (P.writes v)).get? name).isSome = true := by
  intro name hname
  rw [← h.map_fst_writes, writes, List.map_map] at hname
  obtain ⟨c, hc, rfl⟩ := List.mem_map.mp hname
  exact Option.isSome_of_eq_some (h.get?_setAll hdistinct s c hc)

end

/-- Trees that are the same but for their sites do the same. -/
theorem evaluate_of_alike (hlang : lang.Respects (.ofSites fun _ _ => True)) {e f : Expr}
    (h : e.Alike (fun _ _ => True) f) {kind : Kind} (hvalue : evaluate lang e kind s = .ok v t) :
    ∃ u, evaluate lang f kind s = .ok v u ∧ t.Like (.ofSites fun _ _ => True) u := by
  have hends : EndsLike _ Eq (evaluate lang e kind s) (evaluate lang f kind s) :=
    like_evaluateWithin hlang _ e f h kind s s (State.like_refl (fun _ => trivial) s)
  rw [hvalue] at hends
  generalize evaluate lang f kind s = r at hends ⊢
  cases hends with
  | ok hresult hstate => exact ⟨_, hresult ▸ rfl, hstate⟩

/-! ## Scripts -/

section Scripts

variable {rs : List Registration} (hspares : ∀ r ∈ rs, r.SparesAssignment)
  (hwords : ∀ name ∈ P.names, IsWord name.toList)

include hspares hwords

theorem evaluate_of_assignment (hapart : ∀ r ∈ rs, r.SetsApart)
    (hrespects : ∀ r ∈ rs, r.Respects (.ofSites fun _ _ => True)) {code : String}
    {name name' : Option String} {script whole : Script}
    (hscript : Script.read (.extended rs) ⟨code, name⟩ = .ok script)
    (hwhole : Script.read (.extended rs) ⟨P.text ++ " = (" ++ code ++ ")", name'⟩ = .ok whole)
    (hvalue : script.evaluate (evaluate (.extended rs)) .value s = .ok v t) (hfits : P.Fits v)
    (kind : Kind) :
    P.levels ≤ maxNesting ∧ ∃ t', t.Like (.ofSites fun _ _ => True) t' ∧
      whole.evaluate (evaluate (.extended rs)) kind s =
        .ok v.unbound (t'.setAll (P.writes v)) := by
  obtain ⟨hlevels, target, tree, site, hroot, htarget, halike⟩ :=
    Script.of_read_assignment hspares hwords hapart hscript hwhole
  obtain ⟨t', htree, hlike⟩ := evaluate_of_alike (Language.respects_extended hrespects) halike
    (Run.of_reported_ok hvalue)
  refine ⟨hlevels, t', hlike, Run.reported_of_ok ?_⟩
  rw [hroot]
  exact htarget.denote_assign (Language.assigns_extended hspares) htree hfits site kind

/-- A target whose variables are all there is read as their values. -/
theorem evaluate_of_target (hlevels : P.levels ≤ maxNesting) (name : Option String) :
    ∃ script, Script.read (.extended rs) ⟨P.text, name⟩ = .ok script ∧
      ∀ {s : State}, (∀ name ∈ P.names, (s.get? name).isSome = true) → ∀ kind,
        script.evaluate (evaluate (.extended rs)) kind s = .ok (P.valueIn s) s := by
  obtain ⟨script, hread, htree⟩ := Script.read_target hspares hwords hlevels name
  exact ⟨script, hread, fun hs kind => Run.reported_of_ok
    (htree.denote (Language.assigns_extended hspares) _ (Or.inr hs) kind)⟩

end Scripts

/-! ## Two variables -/

/-- Two variables are given each the value of the other. -/
def State.exchange (s : State) (a b : String) (x y : Value) : State :=
  s.setAll [(a, y.bindTo a), (b, x.bindTo b)]

/-- Each is read as the other was, also if both are one variable. -/
theorem State.get?_exchange (hx : s.get? a = some x) (hy : s.get? b = some y) :
    (s.exchange a b x y).get? a = some (y.bindTo a) ∧
      (s.exchange a b x y).get? b = some (x.bindTo b) := by
  have hb : (s.exchange a b x y).get? b = some (x.bindTo b) :=
    get?_set_self (s.set a (y.bindTo a)) b (x.bindTo b)
  refine ⟨?_, hb⟩
  by_cases h : a = b
  · -- The one variable is given its own value twice.
    subst h
    obtain rfl : x = y := Option.some.inj (hx.symm.trans hy)
    exact hb
  · exact ((sameAt_set h _ _).get?).trans (get?_set_self s a (y.bindTo a))

theorem Target.text_pair (a b : String) :
    (list [single a, single b]).text = "l(" ++ a ++ ", " ++ b ++ ")" := by
  have hjoined : ", ".intercalate [a, b] = a ++ ", " ++ b := rfl
  simp [text, texts, listMaker, hjoined, String.append_assoc]

/-- An exchange, however the two sides are read: each is given what the other was read as. -/
theorem Language.Assigns.swap_of_reads (hlang : lang.Assigns) (hleft : left .value s = .ok x t)
    (hright : right .value t = .ok y u) (ha : x.binding = some a) (hb : y.binding = some b)
    (kind : Kind) :
    applyBinary lang "<>" kind left right s = .ok (y.bindTo a) (u.exchange a b x y) := by
  simp only [applyBinary, hlang.swap, Library.swap]
  rw [Run.bind_of_ok hleft, Run.bind_of_ok hright, ha, hb]
  rfl

theorem denote_swap (hlang : lang.Assigns) (run : Expr → Lazy) {left right : Expr}
    (hleft : (Target.single a).IsTree true left) (hright : (Target.single b).IsTree false right)
    (hx : s.get? a = some x) (hy : s.get? b = some y) (site : Site) (kind : Kind) :
    (Expr.binary "<>" left right site).denote lang run kind s =
      .ok (y.bindTo a) (s.exchange a b x y) := by
  have hleft := hleft.denote hlang run (Or.inl rfl) (s := s) .value
  have hright := hright.denote hlang run (s := s)
    (Or.inr (by simp [Target.names, hy])) .value
  rw [Target.valueIn, hx] at hleft
  rw [Target.valueIn, hy] at hright
  exact Run.located_of_ok site (hlang.swap_of_reads hleft hright rfl rfl kind)

/-- A name is read alike in two states that differ in the name on its value at most. -/
theorem evaluate_name {rs : List Registration} (hspares : ∀ r ∈ rs, r.SparesAssignment) {n : String}
    (hn : IsWord n.toList) (name : Option String) {x z : Value} (hs : s.get? n = some x)
    (hu : u.get? n = some z) (hdatum : x.datum = z.datum) (kind : Kind) :
    ∃ script v, Script.read (.extended rs) ⟨n, name⟩ = .ok script ∧
      script.evaluate (evaluate (.extended rs)) kind s = .ok v s ∧
      script.evaluate (evaluate (.extended rs)) kind u = .ok v u := by
  obtain ⟨script, hread, hvalue⟩ := evaluate_of_target (P := .single n) hspares
    (by simpa [Target.names] using hn) (by simp [Target.levels, maxNesting]) name
  have hleft := hvalue (s := s) (by simp [Target.names, hs]) kind
  have hright := hvalue (s := u) (by simp [Target.names, hu]) kind
  have hsame : (Target.single n).valueIn u = (Target.single n).valueIn s := by
    simp [Target.valueIn, hs, hu, Value.bindTo, hdatum]
  exact ⟨script, _, hread, hleft, hsame ▸ hright⟩

section Exchanges

variable {rs : List Registration} (hspares : ∀ r ∈ rs, r.SparesAssignment)
  (ha : IsWord a.toList) (hb : IsWord b.toList) (name : Option String)

include hspares ha hb

theorem evaluate_of_swap :
    ∃ script, Script.read (.extended rs) ⟨a ++ " <> " ++ b, name⟩ = .ok script ∧
      ∀ {s : State} {x y : Value}, s.get? a = some x → s.get? b = some y → ∀ kind,
        script.evaluate (evaluate (.extended rs)) kind s =
          .ok (y.bindTo a) (s.exchange a b x y) := by
  have hlang := Language.assigns_extended hspares
  have hsign : IsSign "<>".toList := .mk (c := '<') (by decide)
    ⟨by decide, by decide, by decide, by decide, by decide⟩
  obtain ⟨script, hread, left, right, site, hroot, hleft, hright⟩ :=
    Script.read_targets (P := .single a) (Q := .single b) hspares
      (by simpa [Target.names] using ha) (by simpa [Target.names] using hb) (by decide) hsign
      hlang.swap rfl (by simp [Target.levels, maxNesting]) name
  have htext : a ++ " " ++ "<>" ++ " " ++ b = a ++ " <> " ++ b :=
    String.toList_inj.mp (by simp)
  refine ⟨script, htext ▸ hread, fun hx hy kind => Run.reported_of_ok ?_⟩
  rw [hroot]
  exact denote_swap hlang _ hleft hright hx hy site kind

/-- Both variables of the right side are read before one of the left side is written. -/
theorem evaluate_of_unpack :
    ∃ script, Script.read (.extended rs)
        ⟨"l(" ++ a ++ ", " ++ b ++ ") = l(" ++ b ++ ", " ++ a ++ ")", name⟩ = .ok script ∧
      ∀ {s : State} {x y : Value}, s.get? a = some x → s.get? b = some y → ∀ kind,
        script.evaluate (evaluate (.extended rs)) kind s =
          .ok (.list [y.bindTo b, x.bindTo a]) (s.exchange a b x y) := by
  have hlang := Language.assigns_extended hspares
  obtain ⟨script, hread, target, tree, site, hroot, htarget, htree⟩ :=
    Script.read_targets (P := .list [.single a, .single b]) (Q := .list [.single b, .single a])
      hspares (by simp [Target.names, Target.allNames, ha, hb])
      (by simp [Target.names, Target.allNames, ha, hb]) (by decide) isSign_equals hlang.assign rfl
      (by simp [Target.levels, Target.maxLevels, maxNesting]) name
  have htext : (Target.list [.single a, .single b]).text ++ " " ++ "=" ++ " " ++
      (Target.list [.single b, .single a]).text =
        "l(" ++ a ++ ", " ++ b ++ ") = l(" ++ b ++ ", " ++ a ++ ")" := by
    rw [Target.text_pair, Target.text_pair]
    exact String.toList_inj.mp (by simp)
  refine ⟨script, htext ▸ hread, fun {s x y} hx hy kind => Run.reported_of_ok ?_⟩
  have hvalue : (Target.list [.single b, .single a]).valueIn s =
      .list [y.bindTo b, x.bindTo a] := by
    simp [Target.valueIn, Target.valuesIn, hx, hy]
  have htree := htree.denote hlang (evaluateWithin (.extended rs) (maxCallDepth + 1)) (s := s)
    (Or.inr (by simp [Target.names, Target.allNames, hx, hy])) .value
  rw [hvalue] at htree
  rw [hroot]
  exact htarget.denote_assign hlang htree
    (.list (.cons (.single a _) (.cons (.single b _) .nil))) site kind

end Exchanges

/-- If the registrations of a host leave assignments and lists alone, an assignment `P = (E)` of a
value that `P` fits succeeds: the names of a state are bound to constant values, so to read `P`
neither fails nor changes anything. Then each variable holds its member of the value that `E` has
before anything is written, all other variables are what `E` leaves them, and `P` is read as that
value, whatever names are on it. So `l(a, b) = l(b, a)` exchanges two variables.

Where variables are computed at each reading, the same is written if the target can be read. -/
theorem destructuring_is_simultaneous_and_reads_back {rs : List Registration}
    (hapart : ∀ r ∈ rs, r.SetsApart) (hspares : ∀ r ∈ rs, r.SparesAssignment)
    (hrespects : ∀ r ∈ rs, r.Respects (.ofSites fun _ _ => True)) :
    (∀ P : Target, (∀ name ∈ P.names, IsWord name.toList) → P.names.Nodup →
      ∀ code name name' script whole, Script.read (.extended rs) ⟨code, name⟩ = .ok script →
      Script.read (.extended rs) ⟨P.text ++ " = (" ++ code ++ ")", name'⟩ = .ok whole →
      ∀ s t v, script.evaluate (evaluate (.extended rs)) .value s = .ok v t → P.Fits v → ∀ kind,
        ∃ u, whole.evaluate (evaluate (.extended rs)) kind s = .ok v.unbound u ∧
          (t.setAll (P.writes v)).Like (.ofSites fun _ _ => True) u ∧
          (∀ c ∈ P.components v, u.get? c.1 = some (c.2.bindTo c.1)) ∧
          (∀ other, other ∉ P.names → t.SameAt other u) ∧
          ∃ pattern w, Script.read (.extended rs) ⟨P.text, name⟩ = .ok pattern ∧
            pattern.evaluate (evaluate (.extended rs)) .value u = .ok w u ∧ w.SameButNames v) ∧
    (∀ a b name, IsWord a.toList → IsWord b.toList →
      ∃ script, Script.read (.extended rs)
          ⟨"l(" ++ a ++ ", " ++ b ++ ") = l(" ++ b ++ ", " ++ a ++ ")", name⟩ = .ok script ∧
        ∀ s x y, s.get? a = some x → s.get? b = some y → ∀ kind,
          ∃ v u, script.evaluate (evaluate (.extended rs)) kind s = .ok v u ∧
            u.get? a = some (y.bindTo a) ∧ u.get? b = some (x.bindTo b) ∧
            ∀ other, other ∉ [a, b] → s.SameAt other u) ∧
    ∀ (P : Target) (left right : Lazy) kind s t u w v, left .value s = .ok w t → P.Reads w →
      right .value t = .ok v u → P.Fits v →
      applyBinary (.extended rs) "=" kind left right s =
        .ok v.unbound (u.setAll (P.writes v)) := by
  refine ⟨?_, ?_, fun P left right kind s t u w v hleft hreads hright hfits =>
    (Language.assigns_extended hspares).assign_of_reads hleft hreads hright hfits kind⟩
  · intro P hwords hdistinct code name name' script whole hscript hwhole s t v hvalue hfits kind
    -- In the parentheses `E` stands at other sites than alone, so it ends in a state like `t`.
    obtain ⟨hlevels, t', hlike, hwhole⟩ :=
      evaluate_of_assignment hspares hwords hapart hrespects hscript hwhole hvalue hfits kind
    have hcomponents := hfits.get?_setAll hdistinct t'
    refine ⟨_, hwhole, hlike.setAll _, hcomponents, fun other hother => ?_, ?_⟩
    · refine (hlike.sameAt other).trans (State.sameAt_setAll ?_ t')
      rwa [hfits.map_fst_writes]
    · obtain ⟨pattern, hread, hpattern⟩ := evaluate_of_target hspares hwords hlevels name
      exact ⟨pattern, _, hread, hpattern (hfits.isSome_setAll hdistinct t') .value,
        hfits.sameButNames hcomponents⟩
  · intro a b name ha hb
    obtain ⟨script, hread, hunpack⟩ := evaluate_of_unpack hspares ha hb name
    refine ⟨script, hread, fun s x y hx hy kind => ⟨_, _, hunpack hx hy kind, ?_⟩⟩
    obtain ⟨hleft, hright⟩ := State.get?_exchange hx hy
    exact ⟨hleft, hright, fun other hother => State.sameAt_setAll hother s⟩

namespace Rounds

def registrations : List Registration :=
  [.function "nothing" (.eager .anyNumber fun _ => pure .null)]

def before : Target := .list [.single "a", .list [.single "global_b", .single "c"]]

def after : Target := .list [.single "global_b", .list [.single "c", .single "a"]]

/-- Of the three variables `a` is local, and `c` is global without being called so. -/
def start : State :=
  ⟨.ofList [("a", ⟨some "a", .text "x"⟩)],
    { globals := .ofList [("global_b", ⟨some "global_b", .text "y"⟩),
        ("c", ⟨some "c", .text "z"⟩)] }⟩

theorem sparesAssignment : ∀ r ∈ registrations, r.SparesAssignment :=
  List.forall_mem_singleton.mpr (show "nothing" ≠ listMaker by decide)

theorem isWord_a : IsWord "a".toList := .mk (c := 'a') (by decide) (List.forall_mem_nil _)

theorem isWord_c : IsWord "c".toList := .mk (c := 'c') (by decide) (List.forall_mem_nil _)

/-- The variable `a`, which fails at each reading. -/
def failing : Lazy := readComputed "a" fun _ => Run.fail (.raised .failure "boom")

/-- The variable `a`, the first time computed as something else than later. -/
def changing : Lazy := readComputed "a" fun _ s =>
  .ok (.text (if s.machine.fresh = 0 then "x" else "y")) { s with machine := s.machine.freshId.2 }

/-- The variable `b`, which is always the same. -/
def constant : Lazy := readComputed "b" (.of (.text "z"))

/-- The list of some operands. -/
def listOf (xs : List Lazy) : Lazy := (applyCall .standard (evaluateBody .standard) listMaker · xs)

end Rounds

open Rounds in
/-- The values go round, though each of them carries the name of another variable that is
written. -/
theorem three_variables_go_round :
    ∃ whole u, Script.read (.extended registrations)
        ⟨"l(a, l(global_b, c)) = (l(global_b, l(c, a)))", none⟩ = .ok whole ∧
      whole.evaluate (evaluate (.extended registrations)) .value start =
        .ok (after.valueIn start) u ∧
      u.get? "a" = some ⟨some "a", .text "y"⟩ ∧
      u.get? "global_b" = some ⟨some "global_b", .text "z"⟩ ∧
      u.get? "c" = some ⟨some "c", .text "x"⟩ := by
  have hapart : ∀ r ∈ registrations, r.SetsApart := List.forall_mem_singleton.mpr trivial
  have hrespects : ∀ r ∈ registrations, r.Respects (.ofSites fun _ _ => True) :=
    List.forall_mem_singleton.mpr (Native.respects_eager _ fun _ => .value _)
  have hword : IsWord "global_b".toList :=
    .mk (c := 'g') (by decide) (List.all_eq_true.mp (by decide))
  have hbefore : ∀ name ∈ before.names, IsWord name.toList :=
    List.forall_mem_cons.mpr ⟨isWord_a, List.forall_mem_cons.mpr
      ⟨hword, List.forall_mem_singleton.mpr isWord_c⟩⟩
  have hafter : ∀ name ∈ after.names, IsWord name.toList :=
    List.forall_mem_cons.mpr ⟨hword, List.forall_mem_cons.mpr
      ⟨isWord_c, List.forall_mem_singleton.mpr isWord_a⟩⟩
  obtain ⟨script, hscript, hvalue⟩ :=
    evaluate_of_target sparesAssignment hafter (by decide) none
  obtain ⟨whole, hwhole⟩ := Script.exists_of_isOk (.extended registrations)
    ⟨before.text ++ " = (" ++ after.text ++ ")", none⟩ (by decide +kernel)
  have hfits : before.Fits (after.valueIn start) :=
    .list (.cons (.single _ _)
      (.cons (.list (.cons (.single _ _) (.cons (.single _ _) .nil))) .nil))
  have hlist : before.components (after.valueIn start) =
      [("a", ⟨some "global_b", .text "y"⟩), ("global_b", ⟨some "c", .text "z"⟩),
        ("c", ⟨some "a", .text "x"⟩)] := rfl
  obtain ⟨u, hu, _, hcomponents, _⟩ :=
    (destructuring_is_simultaneous_and_reads_back hapart sparesAssignment hrespects).1 before
      hbefore (by decide) _ none none script whole hscript hwhole start start _
      (hvalue (by decide) .value) hfits .value
  rw [hlist] at hcomponents
  obtain ⟨ha, hothers⟩ := List.forall_mem_cons.mp hcomponents
  obtain ⟨hb, hothers⟩ := List.forall_mem_cons.mp hothers
  have hc := List.forall_mem_singleton.mp hothers
  exact ⟨whole, u, hwhole, hu, ha, hb, hc⟩

open Rounds in
/-- If a variable cannot be computed, `l(a) = (l('x'))` fails, though the value fits. -/
theorem a_target_that_cannot_be_read_is_not_assigned_to :
    (Target.list [.single "a"]).Fits (.list [.text "x"]) ∧
    listOf [.of (.text "x")] .value start = .ok (.list [.text "x"]) start ∧
    applyBinary .standard "=" .value (listOf [failing]) (listOf [.of (.text "x")]) start =
      .error (.fault (.ofCause (.raised .failure "boom"))) start :=
  ⟨.list (.cons (.single "a" _) .nil), rfl, rfl⟩

/-- Whichever variables two names stand for that are bound to constant values, as the names of a
state are, `a <> b` and `l(a, b) = l(b, a)` end in the same state, in which the two have been
exchanged. After a second `a <> b` both are read as at first.

Of variables that are computed at each reading, `a <> b` writes what they are read as first, and the
other assignment what they are read as when it reads them once more. -/
theorem swapping_is_unpacking {rs : List Registration} (hspares : ∀ r ∈ rs, r.SparesAssignment)
    {a b : String} (ha : IsWord a.toList) (hb : IsWord b.toList) (name name' : Option String) :
    (∃ swap unpack, Script.read (.extended rs) ⟨a ++ " <> " ++ b, name⟩ = .ok swap ∧
      Script.read (.extended rs)
          ⟨"l(" ++ a ++ ", " ++ b ++ ") = l(" ++ b ++ ", " ++ a ++ ")", name'⟩ = .ok unpack ∧
      ∀ kind s x y, s.get? a = some x → s.get? b = some y →
        ∃ v w t, swap.evaluate (evaluate (.extended rs)) kind s = .ok v t ∧
          unpack.evaluate (evaluate (.extended rs)) kind s = .ok w t ∧
          t = (s.set a (y.bindTo a)).set b (x.bindTo b) ∧
          ∃ v' u, swap.evaluate (evaluate (.extended rs)) kind t = .ok v' u ∧
            ∀ n ∈ [a, b], ∃ script z, Script.read (.extended rs) ⟨n, name⟩ = .ok script ∧
              script.evaluate (evaluate (.extended rs)) kind s = .ok z s ∧
              script.evaluate (evaluate (.extended rs)) kind u = .ok z u) ∧
    ∀ (left right : Lazy) run kind s t u x y, left .value s = .ok x t → right .value t = .ok y u →
      x.binding = some a → y.binding = some b →
      applyBinary (.extended rs) "<>" kind left right s =
        .ok (y.bindTo a) ((u.set a (y.bindTo a)).set b (x.bindTo b)) ∧
      ∀ t' u' x' y', right .value u = .ok y' t' → left .value t' = .ok x' u' →
        applyBinary (.extended rs) "=" kind
          (applyCall (.extended rs) run "l" · [left, right])
          (applyCall (.extended rs) run "l" · [right, left]) s =
        .ok (.list [y', x']) ((u'.set a (y'.bindTo a)).set b (x'.bindTo b)) := by
  have hlang := Language.assigns_extended hspares
  obtain ⟨swap, hreadSwap, hswap⟩ := evaluate_of_swap hspares ha hb name
  obtain ⟨unpack, hreadUnpack, hunpack⟩ := evaluate_of_unpack hspares ha hb name'
  refine ⟨⟨swap, unpack, hreadSwap, hreadUnpack, fun kind s x y hx hy => ?_⟩,
    fun left right run kind s t u x y hleft hright hx hy =>
      ⟨hlang.swap_of_reads hleft hright hx hy kind, fun t' u' x' y' hright' hleft' => ?_⟩⟩
  · -- The second swap starts with the values the other way round.
    obtain ⟨ha₁, hb₁⟩ := State.get?_exchange hx hy
    obtain ⟨ha₂, hb₂⟩ := State.get?_exchange ha₁ hb₁
    refine ⟨_, _, _, hswap hx hy kind, hunpack hx hy kind, rfl, _, _, hswap ha₁ hb₁ kind, ?_⟩
    simp only [List.forall_mem_cons, List.not_mem_nil, false_implies, implies_true, and_true]
    exact ⟨evaluate_name hspares ha name hx ha₂ rfl kind,
      evaluate_name hspares hb name hy hb₂ rfl kind⟩
  · have hreads : (Target.list [.single a, .single b]).Reads (.list [x, y]) := by
      obtain ⟨_, d⟩ := x
      obtain ⟨_, e⟩ := y
      obtain rfl : _ = some a := hx
      obtain rfl : _ = some b := hy
      exact .list (.cons (.single a d) (.cons (.single b e) .nil))
    exact hlang.assign_of_reads (hlang.call_pair run .value hleft hright) hreads
      (hlang.call_pair run .value hright' hleft')
      (.list (.cons (.single a _) (.cons (.single b _) .nil))) kind

open Rounds in
/-- A variable that is only in the registry is exchanged with a local one. It is a local one too
from then on, and the registry keeps its own. -/
theorem a_swap_writes_to_the_scope :
    ∃ swap unpack v w t,
      Script.read (.extended registrations) ⟨"a <> c", none⟩ = .ok swap ∧
      Script.read (.extended registrations) ⟨"l(a, c) = l(c, a)", none⟩ = .ok unpack ∧
      swap.evaluate (evaluate (.extended registrations)) .value start = .ok v t ∧
      unpack.evaluate (evaluate (.extended registrations)) .value start = .ok w t ∧
      t.locals.get? "a" = some ⟨some "a", .text "z"⟩ ∧
      t.locals.get? "c" = some ⟨some "c", .text "x"⟩ ∧
      t.machine.globals.get? "c" = some ⟨some "c", .text "z"⟩ := by
  obtain ⟨⟨swap, unpack, hswap, hunpack, h⟩, _⟩ :=
    swapping_is_unpacking sparesAssignment isWord_a isWord_c none none
  obtain ⟨v, w, t, hfirst, hsecond, rfl, _⟩ := h .value start _ _ rfl rfl
  exact ⟨swap, unpack, v, w, _, hswap, hunpack, hfirst, hsecond, rfl, rfl, rfl⟩

open Rounds in
/-- If what a variable is read as changes, `a <> b` and `l(a, b) = l(b, a)` write different
values. -/
theorem a_swap_reads_its_sides_only_once :
    ∃ v t w u,
      applyBinary .standard "<>" .value changing constant start = .ok v t ∧
      applyBinary .standard "=" .value (listOf [changing, constant])
        (listOf [constant, changing]) start = .ok w u ∧
      t.get? "b" = some ⟨some "b", .text "x"⟩ ∧ u.get? "b" = some ⟨some "b", .text "y"⟩ :=
  ⟨_, _, _, _, rfl, rfl, rfl, rfl⟩

end TickScript
