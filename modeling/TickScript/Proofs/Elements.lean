-- The loops over the elements of a list or iterator. Five functions share one walk, and each
-- keeps a result of its own on the way and has its own rule for when to go on. If the body does
-- nothing but answer, what they give can be said without a walk, and they agree.
import TickScript.Proofs.Counts
import TickScript.Proofs.Loops

namespace TickScript

open Library

/-! ## Elements -/

/-- The elements that a walk gives one by one until it ends. -/
inductive Walk.Yields : Walk Value → List Value → Prop
  | done {w : Walk Value} : w.next = none → Yields w []
  | more {w rest : Walk Value} {v : Value} {items : List Value} :
      w.next = some (v, rest) → Yields rest items → Yields w (v :: items)

theorem Walk.yields_items (items : List Value) : (Walk.items items).Yields items := by
  induction items with
  | nil => exact .done rfl
  | cons v rest ih => exact .more rfl ih

/-- What is collected from a walk are its elements, of which there are fewer than steps. -/
theorem Walk.yields_of_collect {fuel : Nat} {w : Walk Value} {met collected : List Value}
    (h : w.collect fuel met = some collected) :
    ∃ items, collected = met.reverse ++ items ∧ w.Yields items ∧ items.length < fuel := by
  induction fuel generalizing w met with
  | zero => cases h
  | succ fuel ih =>
    unfold Walk.collect at h
    split at h
    · rename_i hnext
      cases h
      exact ⟨[], (List.append_nil _).symm, .done hnext, Nat.zero_lt_succ fuel⟩
    · rename_i v rest hnext
      obtain ⟨items, rfl, hrest, hfuel⟩ := ih h
      refine ⟨v :: items, ?_, .more hnext hrest, Nat.succ_lt_succ hfuel⟩
      rw [List.reverse_cons, List.append_assoc, List.singleton_append]

/-- The value is a list of these elements, or an iterator that comes to an end after them and can
be walked again. -/
def Value.HasElements (v : Value) (items : List Value) : Prop :=
  v.datum = .list items ∨
    ∃ id w, v.datum = .iterator id false w ∧ w.toList? = some items

theorem Value.HasElements.walk {v : Value} {items : List Value} (h : v.HasElements items)
    (s : State) : ∃ w, v.walk s = .ok w s ∧ w.Yields items ∧ items.length < w.bound := by
  rcases h with h | ⟨id, w, h, hitems⟩
  · refine ⟨.items items, ?_, Walk.yields_items items, Nat.lt_succ_self _⟩
    simp only [Value.walk, h]
  · obtain ⟨_, rfl, hyields, hbound⟩ := Walk.yields_of_collect hitems
    refine ⟨w, ?_, hyields, hbound⟩
    simp only [Value.walk, h]

/-! ## Rounds -/

/-- The state in which the body is evaluated for an element. -/
def State.visiting (s : State) (v : Value) (i : Nat) : State :=
  (s.set "_" (v.bindTo "_")).set "_i" ((Value.number (.ofNat i)).bindTo "_i")

/-- The states are the same but for what the names of the rounds stand for. -/
def State.Visited (u t : State) : Prop := ∀ v i, u.visiting v i = t.visiting v i

namespace State

theorem machine_visiting (s : State) (v : Value) (i : Nat) :
    (s.visiting v i).machine = s.machine := rfl

theorem get?_locals_visiting (s : State) (v : Value) (i : Nat) (name : String) :
    (s.visiting v i).locals.get? name =
      if name = "_i" then some ((Value.number (.ofNat i)).bindTo "_i")
      else if name = "_" then some (v.bindTo "_")
      else s.locals.get? name := by
  change ((s.locals.set "_" (v.bindTo "_")).set "_i" _).get? name = _
  rw [Registry.get?_set, Registry.get?_set]

theorem Visited.refl (t : State) : t.Visited t := fun _ _ => rfl

/-- A round forgets the rounds before it. -/
theorem visited_visiting (t : State) (v : Value) (i : Nat) : (t.visiting v i).Visited t := by
  intro w j
  have hlocals : ((t.visiting v i).visiting w j).locals = (t.visiting w j).locals := by
    apply Registry.ext_get?
    intro name
    simp only [get?_locals_visiting]
    split
    · rfl
    · split <;> rfl
  have hmachine : ((t.visiting v i).visiting w j).machine = (t.visiting w j).machine := rfl
  exact State.mk.injEq .. ▸ ⟨hlocals, hmachine⟩

theorem Visited.machine_eq {u t : State} (h : u.Visited t) : u.machine = t.machine := by
  have hsame := congrArg State.machine (h .null 0)
  rwa [machine_visiting, machine_visiting] at hsame

/-- Once the names are put back the rounds have left no trace. -/
theorem Visited.putBack_eq {u t : State} (h : u.Visited t) :
    { u with locals := (Frame.ofNames t.locals ["_", "_i"]).putBack u.locals } = t := by
  obtain ⟨locals, machine⟩ := t
  have hmachine := h.machine_eq
  have hlocals : (Frame.ofNames locals ["_", "_i"]).putBack u.locals = locals := by
    apply Registry.ext_get?
    intro name
    by_cases hname : name ∈ ["_", "_i"]
    · exact Frame.get?_putBack_ofNames hname locals u.locals
    · rw [Frame.get?_putBack_of_notMem hname]
      have hsame := congrArg (fun s => s.locals.get? name) (h .null 0)
      simp only [List.mem_cons, List.not_mem_nil, or_false, not_or] at hname
      simpa only [get?_locals_visiting, if_neg hname.1, if_neg hname.2] using hsame
  rw [hlocals, hmachine]

end State

section Visits

variable {σ : Type}

/-- The result of visiting elements one by one: each makes a new result from the result so far and
says whether to go on. -/
def foldVisits (step : σ → Value → Nat → σ × Bool) : Nat → List Value → σ → σ
  | _, [], result => result
  | i, v :: rest, result =>
    if (step result v i).2 then foldVisits step (i + 1) rest (step result v i).1
    else (step result v i).1

variable (visit : σ → Value → Run (σ × Bool)) (step : σ → Value → Nat → σ × Bool) {t : State}
  {items : List Value}

/-- Visits that change nothing are as good as a fold. The invariant is that the state differs from
the first one in the names of the rounds only, which the next round binds anyway. -/
theorem visitFrom_eq_foldVisits {w : Walk Value} (hw : w.Yields items) {fuel : Nat}
    (hfuel : items.length < fuel) (ht : t.machine.cancelled = false) {i : Nat} (result : σ)
    (hvisit : ∀ e ∈ items.zipIdx i, ∀ r,
      visit r e.1 (t.visiting e.1 e.2) = .ok (step r e.1 e.2) (t.visiting e.1 e.2))
    {u : State} (hu : u.Visited t) :
    ∃ u', visitFrom visit fuel w i result u = .ok (foldVisits step i items result) u' ∧
      u'.Visited t := by
  induction hw generalizing fuel i result u with
  | done hnext =>
    obtain ⟨fuel, rfl⟩ := Nat.exists_eq_succ_of_ne_zero (Nat.ne_of_gt hfuel)
    refine ⟨u, ?_, hu⟩
    simp only [visitFrom, hnext]
    rfl
  | @more w rest v items hnext _ ih =>
    obtain ⟨fuel, rfl⟩ := Nat.exists_eq_succ_of_ne_zero (Nat.ne_zero_of_lt hfuel)
    rw [List.zipIdx_cons, List.forall_mem_cons] at hvisit
    have hstop : Run.checkStop u = .ok () u :=
      Run.checkStop_of_not_cancelled (hu.machine_eq ▸ ht)
    have hfirst : visit result v (u.visiting v i) = .ok (step result v i) (t.visiting v i) := by
      rw [hu v i]
      exact hvisit.1 result
    have hround : visitFrom visit (fuel + 1) w i result u =
        (if (step result v i).2 then visitFrom visit fuel rest (i + 1) (step result v i).1
          else pure (step result v i).1) (t.visiting v i) := by
      simp only [visitFrom, hnext]
      rw [Run.bind_of_ok hstop]
      exact Run.bind_of_ok hfirst
    rw [hround, foldVisits]
    split
    · exact ih (Nat.lt_of_succ_lt_succ hfuel) _ hvisit.2 (t.visited_visiting v i)
    · exact ⟨_, rfl, t.visited_visiting v i⟩

/-- All visits of a loop, which leave the state as it was before the first of them. -/
theorem visitEach_eq_foldVisits {elements : Lazy} {s : State} {v : Value}
    (helements : elements .value s = .ok v t) (hv : v.HasElements items)
    (ht : t.machine.cancelled = false) (start : σ)
    (hvisit : ∀ e ∈ items.zipIdx, ∀ r,
      visit r e.1 (t.visiting e.1 e.2) = .ok (step r e.1 e.2) (t.visiting e.1 e.2)) :
    visitEach elements start visit s = .ok (foldVisits step 0 items start) t := by
  obtain ⟨w, hwalk, hyields, hbound⟩ := hv.walk t
  obtain ⟨u, hvisits, hu⟩ := visitFrom_eq_foldVisits visit step hyields hbound ht start
    hvisit (.refl t)
  unfold visitEach
  rw [Run.bind_of_ok helements, Run.bind_of_ok hwalk, Run.restoring_of_ok _ hvisits,
    hu.putBack_eq]

end Visits

/-! ## What the loops find -/

/-- The elements for which a condition on them and on their indices holds. -/
def keptFrom (holds : Value → Nat → Bool) (i : Nat) (items : List Value) : List Value :=
  ((items.zipIdx i).filter fun e => holds e.1 e.2).map Prod.fst

section Finds

variable (holds : Value → Nat → Bool)

theorem keptFrom_cons (i : Nat) (v : Value) (rest : List Value) :
    keptFrom holds i (v :: rest) =
      if holds v i then v :: keptFrom holds (i + 1) rest else keptFrom holds (i + 1) rest := by
  unfold keptFrom
  rw [List.zipIdx_cons, List.filter_cons]
  split <;> rfl

/-- The kept elements are some of the elements, in their order. -/
theorem keptFrom_sublist (i : Nat) (items : List Value) :
    (keptFrom holds i items).Sublist items := by
  have hsublist := (List.filter_sublist (p := fun e => holds e.1 e.2)
    (l := items.zipIdx i)).map Prod.fst
  rwa [List.zipIdx_map_fst] at hsublist

theorem foldVisits_count (i : Nat) (items : List Value) (n : Nat) :
    foldVisits (fun n v i => (if holds v i then n + 1 else n, true)) i items n =
      n + (keptFrom holds i items).length := by
  induction items generalizing i n with
  | nil => rfl
  | cons v rest ih =>
    rw [foldVisits, if_pos rfl, ih, keptFrom_cons]
    split
    · rw [List.length_cons]
      omega
    · rfl

theorem foldVisits_filter (i : Nat) (items : List Value) (kept : Array Value) :
    (foldVisits (fun kept v i => (if holds v i then kept.push v else kept, true)) i items
      kept).toList = kept.toList ++ keptFrom holds i items := by
  induction items generalizing i kept with
  | nil => exact (List.append_nil _).symm
  | cons v rest ih =>
    rw [foldVisits, if_pos rfl, ih, keptFrom_cons]
    split
    · rw [Array.toList_push, List.append_assoc, List.singleton_append]
    · rfl

theorem foldVisits_first (i : Nat) (items : List Value) (found : Value) :
    foldVisits (fun found v i => if holds v i then (v, false) else (found, true)) i items found =
      (keptFrom holds i items).head?.getD found := by
  induction items generalizing i with
  | nil => rfl
  | cons v rest ih =>
    rw [foldVisits, keptFrom_cons]
    cases holds v i with
    | true => rfl
    | false => exact ih (i + 1)

/-- If one element is not kept, the others cannot make up for it. -/
theorem foldVisits_all (i : Nat) (items : List Value) :
    foldVisits (fun _ v i => (holds v i, holds v i)) i items true =
      decide ((keptFrom holds i items).length = items.length) := by
  induction items generalizing i with
  | nil => rfl
  | cons v rest ih =>
    rw [foldVisits, keptFrom_cons]
    cases holds v i with
    | true => simpa using ih (i + 1)
    | false =>
      have hle := (keptFrom_sublist holds (i + 1) rest).length_le
      have hne : ¬ (keptFrom holds (i + 1) rest).length = (v :: rest).length := by
        rw [List.length_cons]
        omega
      simpa using hne

theorem foldVisits_map (result : Value → Nat → Value) (i : Nat) (items : List Value)
    (results : Array Value) :
    (foldVisits (fun results v i => (results.push (result v i).unbound, true)) i items
      results).toList =
      results.toList ++ (items.zipIdx i).map fun e => (result e.1 e.2).unbound := by
  induction items generalizing i results with
  | nil => exact (List.append_nil _).symm
  | cons v rest ih =>
    rw [foldVisits, if_pos rfl, ih, List.zipIdx_cons, List.map_cons, Array.toList_push,
      List.append_assoc, List.singleton_append]

end Finds

/-! ## The five loops -/

/-- The operands of a loop that goes through: the first gives elements, and the body ends well for
each of them and changes nothing. Whether it is true is up to the element and its index. -/
structure GoesThrough (elements body : Lazy) (s t : State) (items : List Value)
    (holds : Value → Nat → Bool) (result : Value → Nat → Value) : Prop where
  elements : ∃ v, elements .value s = .ok v t ∧ v.HasElements items
  running : t.machine.cancelled = false
  truth : ∀ e ∈ items.zipIdx,
    body.truth (t.visiting e.1 e.2) = .ok (holds e.1 e.2) (t.visiting e.1 e.2)
  value : ∀ e ∈ items.zipIdx,
    body .value (t.visiting e.1 e.2) = .ok (result e.1 e.2) (t.visiting e.1 e.2)

namespace GoesThrough

variable {elements body : Lazy} {s t : State} {items : List Value} {holds : Value → Nat → Bool}
  {result : Value → Nat → Value}

/-- A loop that asks the body in each round and goes on from what it says. -/
theorem asking {σ α : Type} (h : GoesThrough elements body s t items holds result) (ask : Run α)
    {said : Value → Nat → α}
    (hask : ∀ e ∈ items.zipIdx,
      ask (t.visiting e.1 e.2) = .ok (said e.1 e.2) (t.visiting e.1 e.2))
    (start : σ) (next : σ → Value → α → σ × Bool) (answer : σ → Value) (kind : Kind) :
    ((visitEach elements start (fun r v => ask >>= fun a => pure (next r v a)) >>=
        fun r => pure (Lazy.of (answer r))) >>= fun result => result kind) s =
      .ok (answer (foldVisits (fun r v i => next r v (said v i)) 0 items start)) t := by
  obtain ⟨v, helements, hv⟩ := h.elements
  have hvisits := visitEach_eq_foldVisits (fun r v => ask >>= fun a => pure (next r v a))
    (fun r v i => next r v (said v i)) helements hv h.running start
    (fun e he r => Run.bind_of_ok (hask e he))
  rw [bind_assoc, Run.bind_of_ok hvisits]
  rfl

variable (h : GoesThrough elements body s t items holds result) (kind : Kind)

include h

theorem countLoop_eq : (countLoop kind elements body >>= fun result => result kind) s =
    .ok (.number (.ofNat (keptFrom holds 0 items).length)) t := by
  have hloop := h.asking body.truth h.truth 0 (fun n _ b => (if b then n + 1 else n, true))
    (fun n => .number (.ofNat n)) kind
  rwa [foldVisits_count, Nat.zero_add] at hloop

theorem mapLoop_eq : (mapLoop kind elements body >>= fun result => result kind) s =
    .ok (.list (items.zipIdx.map fun e => (result e.1 e.2).unbound)) t := by
  have hloop := h.asking (body .value) h.value #[]
    (fun results _ v => (results.push v.unbound, true)) (fun results => .list results.toList) kind
  rwa [foldVisits_map] at hloop

theorem filterLoop_eq : (filterLoop kind elements body >>= fun result => result kind) s =
    .ok (.list (keptFrom holds 0 items)) t := by
  have hloop := h.asking body.truth h.truth #[]
    (fun kept v b => (if b then kept.push v else kept, true)) (fun kept => .list kept.toList) kind
  rwa [foldVisits_filter] at hloop

theorem firstLoop_eq : (firstLoop kind elements body >>= fun result => result kind) s =
    .ok ((keptFrom holds 0 items).head?.getD .null) t := by
  have hloop := h.asking body.truth h.truth Value.null
    (fun found v b => if b then (v, false) else (found, true)) id kind
  rwa [foldVisits_first] at hloop

theorem allLoop_eq : (allLoop kind elements body >>= fun result => result kind) s =
    .ok (.boolean (decide ((keptFrom holds 0 items).length = items.length))) t := by
  have hloop := h.asking body.truth h.truth true (fun _ _ b => (b, b)) .boolean kind
  rwa [foldVisits_all] at hloop

end GoesThrough

/-- The loops over elements. -/
def Loop.overElements : List Loop := [.count, .map, .filter, .first, .all]

theorem Value.number_ofNat_inj {m n : Nat} (hm : m < 0x20000000000000)
    (hn : n < 0x20000000000000) (h : Value.number (.ofNat m) = .number (.ofNat n)) : m = n := by
  injection h with _ h
  injection h with h
  exact Number.ofNat_inj hm hn h

theorem Value.boolean_eq_one_iff (b : Bool) : Value.boolean b = .number 1 ↔ b = true := by
  cases b with
  | true => exact iff_of_true rfl rfl
  | false =>
    have hne : ¬ Value.number (.ofNat 0) = .number (.ofNat 1) := by
      intro h
      cases Value.number_ofNat_inj (by decide) (by decide) h
    exact iff_of_false hne Bool.false_ne_true

/-- If the body does nothing but answer, a call of `map` gives one result for each element in order,
and the other calls agree: `filter` gives the elements for which the body is true, unchanged and in
order, `for` their number, `first` the first of them, or null if there is none, and `all` says
whether these are as many as there are elements. All of them leave the state as the evaluation of
the elements has left it. Counts below two to the power of 53 are told apart by numbers, and there
`all` gives 1 just when `for` gives the number of the elements. -/
theorem loops_over_elements_agree {lang : Language}
    (hlang : ∀ loop ∈ Loop.overElements, lang.function? loop.name = some loop.native)
    {run : Expr → Lazy} {elements body : Expr} {s t : State} {items : List Value}
    {holds : Value → Nat → Bool} {result : Value → Nat → Value}
    (h : GoesThrough (elements.denote lang run) (body.denote lang run) s t items holds result)
    (site : Site) (kind : Kind) :
    let call (loop : Loop) := (Expr.call loop.name [elements, body] site).denote lang run kind s
    let kept := keptFrom holds 0 items
    call .map = .ok (.list (items.zipIdx.map fun e => (result e.1 e.2).unbound)) t ∧
      call .filter = .ok (.list kept) t ∧
      kept.Sublist items ∧
      call .count = .ok (.number (.ofNat kept.length)) t ∧
      call .first = .ok (kept.head?.getD .null) t ∧
      call .all = .ok (.boolean (decide (kept.length = items.length))) t ∧
      (items.length < 0x20000000000000 →
        (call .all = .ok (.number 1) t ↔
          call .count = .ok (.number (.ofNat items.length)) t)) := by
  intro call kept
  have hcall : ∀ loop ∈ Loop.overElements, ∀ v,
      (loop.native.apply run kind (Expr.denoteAll lang run [elements, body]) >>=
        fun result => result kind) s = .ok v t → call loop = .ok v t := by
    intro loop hloop v hv
    change (Expr.call loop.name [elements, body] site).denote lang run kind s = .ok v t
    rw [Loop.denote_call (hlang loop hloop)]
    exact Run.located_of_ok site hv
  have hcount := hcall .count (by decide) _ (h.countLoop_eq kind)
  have hall := hcall .all (by decide) _ (h.allLoop_eq kind)
  have hsublist : kept.Sublist items := keptFrom_sublist holds 0 items
  refine ⟨hcall .map (by decide) _ (h.mapLoop_eq kind),
    hcall .filter (by decide) _ (h.filterLoop_eq kind), hsublist, hcount,
    hcall .first (by decide) _ (h.firstLoop_eq kind), hall, ?_⟩
  intro hlength
  have hle := hsublist.length_le
  rw [hall, hcount, EStateM.Result.ok.injEq, EStateM.Result.ok.injEq, Value.boolean_eq_one_iff,
    decide_eq_true_iff]
  constructor
  · rintro ⟨hsame, -⟩
    exact ⟨by rw [hsame], rfl⟩
  · rintro ⟨hsame, -⟩
    exact ⟨Value.number_ofNat_inj (Nat.lt_of_le_of_lt hle hlength) hlength hsame, rfl⟩

namespace Sorting

def source : Source := ⟨"filter(l('a', '', 'b'), _)", none⟩

def site (name : String) : Site := ⟨⟨.call, name, .start⟩, source⟩

/-- `l('a', '', 'b')` -/
def elements : Expr := .call "l" [.text "a", .text "", .text "b"] (site "l")

/-- `_` -/
def body : Expr := .var "_" false (site "_")

def state : State := ⟨.ofList [("_", .text "kept")], .standard⟩

end Sorting

open Sorting in
/-- Of the texts `'a'`, `''` and `'b'` the second one is false. -/
theorem an_empty_text_is_sorted_out :
    let items : List Value := [.text "a", .text "", .text "b"]
    let call (loop : Loop) := (Expr.call loop.name [elements, body] (site "filter")).denote
      .standard (evaluate .standard) .value state
    (∀ loop ∈ Loop.overElements, Language.standard.function? loop.name = some loop.native) ∧
      GoesThrough (elements.denote .standard (evaluate .standard))
        (body.denote .standard (evaluate .standard)) state state items (fun v _ => v.truth)
        (fun v _ => v.bindTo "_") ∧
      call .map = .ok (.list items) state ∧
      call .filter = .ok (.list [.text "a", .text "b"]) state ∧
      call .count = .ok (.number (.ofNat 2)) state ∧
      call .first = .ok (.text "a") state ∧
      call .all = .ok (.boolean false) state ∧
      (call .all = .ok (.number 1) state ↔ call .count = .ok (.number (.ofNat 3)) state) := by
  intro items call
  have hlang : ∀ loop ∈ Loop.overElements,
      Language.standard.function? loop.name = some loop.native :=
    fun loop _ => loop.function?_standard
  have hthrough : GoesThrough (elements.denote .standard (evaluate .standard))
      (body.denote .standard (evaluate .standard)) state state items (fun v _ => v.truth)
      (fun v _ => v.bindTo "_") := by
    refine ⟨⟨_, rfl, Or.inl rfl⟩, rfl, ?_, fun e _ => rfl⟩
    intro e he
    obtain ⟨⟨binding, datum⟩, i⟩ := e
    cases datum <;> rfl
  obtain ⟨hmap, hfilter, -, hcount, hfirst, hall, hagree⟩ :=
    loops_over_elements_agree hlang hthrough (site "filter") .value
  exact ⟨hlang, hthrough, hmap, hfilter, hcount, hfirst, hall, hagree (by decide)⟩

end TickScript
