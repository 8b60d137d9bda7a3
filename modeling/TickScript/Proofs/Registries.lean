-- The laws of registries and of frames. A registry is known by what its names stand for,
-- and a frame that is put back brings each of its names back to what it stood for.
import TickScript.State

namespace TickScript

variable {α : Type}

/-! ## Ordered entries -/

theorem lookup_entry (name k : String) (v : α) (rest : List (String × α)) :
    ((k, v) :: rest).lookup name = if name = k then some v else rest.lookup name := by
  rw [List.lookup_cons]
  by_cases h : name = k
  · simp [h]
  · simp [h, beq_false_of_ne h]

theorem lookup_insertEntry (name other : String) (value : α) (entries : List (String × α)) :
    (insertEntry name value entries).lookup other =
      if other = name then some value else entries.lookup other := by
  induction entries with
  | nil => rw [insertEntry, lookup_entry]
  | cons entry rest ih =>
    obtain ⟨k, v⟩ := entry
    unfold insertEntry
    split
    · rw [lookup_entry]
    · split
      · rename_i hk
        subst hk
        rw [lookup_entry, lookup_entry]
        split <;> rfl
      · rename_i hk
        rw [lookup_entry, lookup_entry, ih]
        by_cases h : other = name
        · subst h
          simp [hk]
        · simp [h]

theorem lookup_filter_ne (name other : String) (entries : List (String × α)) :
    (entries.filter (·.1 != name)).lookup other =
      if other = name then none else entries.lookup other := by
  induction entries with
  | nil => simp
  | cons entry rest ih =>
    obtain ⟨k, v⟩ := entry
    by_cases hk : k = name
    · subst hk
      rw [List.filter_cons_of_neg (by simp), ih, lookup_entry]
      split <;> rfl
    · rw [List.filter_cons_of_pos (by simp [hk]), lookup_entry, lookup_entry, ih]
      by_cases h : other = name
      · subst h
        simp [Ne.symm hk]
      · simp [h]

/-- A name before all those of the entries is not among them. -/
theorem lookup_eq_none_of_lt {name : String} {entries : List (String × α)}
    (h : ∀ entry ∈ entries, name < entry.1) : entries.lookup name = none := by
  rw [List.lookup_eq_none_iff]
  intro entry hentry
  have hlt := h entry hentry
  have hne : name ≠ entry.1 := by
    intro heq
    rw [heq] at hlt
    exact String.lt_irrefl _ hlt
  simpa using hne

/-- Ordered entries that give the same for every name are the same entries. -/
theorem eq_of_lookup_eq {entries others : List (String × α)} (h₁ : InNameOrder entries)
    (h₂ : InNameOrder others) (h : ∀ name, entries.lookup name = others.lookup name) :
    entries = others := by
  induction entries generalizing others with
  | nil =>
    cases others with
    | nil => rfl
    | cons other rest =>
      obtain ⟨l, w⟩ := other
      simpa [lookup_entry] using h l
  | cons entry rest ih =>
    cases others with
    | nil =>
      obtain ⟨k, v⟩ := entry
      simpa [lookup_entry] using h k
    | cons other more =>
      obtain ⟨k, v⟩ := entry
      obtain ⟨l, w⟩ := other
      have hrest : ∀ e ∈ rest, k < e.1 := (List.pairwise_cons.1 h₁).1
      have hmore : ∀ e ∈ more, l < e.1 := (List.pairwise_cons.1 h₂).1
      -- The smaller of two different first names would be missing on the other side.
      have hkl : k = l := by
        apply String.le_antisymm
        · apply String.not_lt.1
          intro hlt
          have hnone : ((k, v) :: rest).lookup l = none := by
            apply lookup_eq_none_of_lt
            simp only [List.forall_mem_cons]
            exact ⟨hlt, fun e he => String.lt_trans hlt (hrest e he)⟩
          simpa [hnone, lookup_entry] using h l
        · apply String.not_lt.1
          intro hlt
          have hnone : ((l, w) :: more).lookup k = none := by
            apply lookup_eq_none_of_lt
            simp only [List.forall_mem_cons]
            exact ⟨hlt, fun e he => String.lt_trans hlt (hmore e he)⟩
          simpa [hnone, lookup_entry] using h k
      subst hkl
      have hvw : v = w := by simpa using h k
      subst hvw
      congr 1
      apply ih (List.pairwise_cons.1 h₁).2 (List.pairwise_cons.1 h₂).2
      intro name
      by_cases hname : name = k
      · subst hname
        rw [lookup_eq_none_of_lt hrest, lookup_eq_none_of_lt hmore]
      · simpa [lookup_entry, hname] using h name

/-! ## Registries -/

namespace Registry

variable {α : Type}

theorem get?_set (r : Registry α) (name other : String) (v : α) :
    (r.set name v).get? other = if other = name then some v else r.get? other :=
  lookup_insertEntry name other v r.entries

theorem get?_erase (r : Registry α) (name other : String) :
    (r.erase name).get? other = if other = name then none else r.get? other :=
  lookup_filter_ne name other r.entries

/-- A registry is known by what its names stand for. -/
theorem ext_get? {r t : Registry α} (h : ∀ name, r.get? name = t.get? name) : r = t := by
  obtain ⟨entries, hr⟩ := r
  obtain ⟨others, ht⟩ := t
  congr 1
  exact eq_of_lookup_eq hr ht h

end Registry

/-! ## Frames -/

namespace Frame

theorem ofNames_cons (locals : Registry Value) (name : String) (names : List String) :
    ofNames locals (name :: names) = (name, locals.get? name) :: ofNames locals names := rfl

/-- One name of a frame put back. -/
theorem putBack_cons (name : String) (old : Option Value) (frame : Frame)
    (locals : Registry Value) :
    putBack ((name, old) :: frame) locals =
      putBack frame (match old with
        | some v => locals.set name v
        | none => locals.erase name) := rfl

theorem get?_putBack_cons_self (name : String) (old : Option Value) (locals : Registry Value) :
    (match old with
      | some v => locals.set name v
      | none => locals.erase name).get? name = old := by
  cases old with
  | none => simp [Registry.get?_erase]
  | some v => simp [Registry.get?_set]

theorem get?_putBack_cons_ne {name other : String} (h : other ≠ name) (old : Option Value)
    (locals : Registry Value) :
    (match old with
      | some v => locals.set name v
      | none => locals.erase name).get? other = locals.get? other := by
  cases old with
  | none => simp [Registry.get?_erase, h]
  | some v => simp [Registry.get?_set, h]

/-- A frame put back touches no other names than its own. -/
theorem get?_putBack_of_notMem {names : List String} {name : String} (h : name ∉ names)
    (before locals : Registry Value) :
    ((ofNames before names).putBack locals).get? name = locals.get? name := by
  induction names generalizing locals with
  | nil => rfl
  | cons first rest ih =>
    simp only [List.mem_cons, not_or] at h
    rw [ofNames_cons, putBack_cons, ih h.2]
    exact get?_putBack_cons_ne h.1 _ locals

/-- After a frame is put back each of its names stands for what it stood for. -/
theorem get?_putBack_ofNames {names : List String} {name : String} (h : name ∈ names)
    (before locals : Registry Value) :
    ((ofNames before names).putBack locals).get? name = before.get? name := by
  induction names generalizing locals with
  | nil => simp at h
  | cons first rest ih =>
    rw [ofNames_cons, putBack_cons]
    by_cases hrest : name ∈ rest
    · exact ih hrest _
    · have hname : name = first := by
        rcases List.mem_cons.1 h with h | h
        · exact h
        · exact absurd h hrest
      subst hname
      rw [get?_putBack_of_notMem hrest]
      exact get?_putBack_cons_self name _ locals

/-- A frame put back at once changes nothing. -/
theorem putBack_ofNames_self (locals : Registry Value) (names : List String) :
    (ofNames locals names).putBack locals = locals := by
  apply Registry.ext_get?
  intro name
  by_cases h : name ∈ names
  · exact get?_putBack_ofNames h locals locals
  · exact get?_putBack_of_notMem h locals locals

end Frame

end TickScript
