-- A registry gives each of finitely many names a value and keeps the names in order, so
-- that two registries with the same values under the same names are the same registry.
namespace TickScript

/-! ## Ordered entries -/

/-- The entries stand in the order of their names, and no name stands twice. -/
def InNameOrder {α : Type} (entries : List (String × α)) : Prop :=
  entries.Pairwise fun a b => a.1 < b.1

/-- Puts an entry in its place, over an older one of the same name. -/
def insertEntry {α : Type} (name : String) (value : α) : List (String × α) → List (String × α)
  | [] => [(name, value)]
  | (k, v) :: rest =>
    if name < k then (name, value) :: (k, v) :: rest
    else if name = k then (name, value) :: rest
    else (k, v) :: insertEntry name value rest

theorem mem_insertEntry {α : Type} {name : String} {value : α} {entries : List (String × α)}
    {e : String × α} (h : e ∈ insertEntry name value entries) :
    e = (name, value) ∨ e ∈ entries := by
  induction entries with
  | nil => simpa [insertEntry] using h
  | cons x rest ih =>
    simp only [insertEntry] at h
    split at h
    · simpa using h
    · split at h
      · rcases List.mem_cons.1 h with h | h
        · exact Or.inl h
        · exact Or.inr (List.mem_cons_of_mem _ h)
      · rcases List.mem_cons.1 h with h | h
        · exact Or.inr (by simp [h])
        · exact (ih h).imp_right (List.mem_cons_of_mem _)

theorem inNameOrder_insertEntry {α : Type} {entries : List (String × α)}
    (h : InNameOrder entries) (name : String) (value : α) :
    InNameOrder (insertEntry name value entries) := by
  induction entries with
  | nil => simp [insertEntry, InNameOrder]
  | cons x rest ih =>
    have hx : ∀ b ∈ rest, x.1 < b.1 := (List.pairwise_cons.1 h).1
    have hrest : InNameOrder rest := (List.pairwise_cons.1 h).2
    simp only [insertEntry]
    split
    · rename_i hlt
      refine List.pairwise_cons.2 ⟨fun b hb => ?_, h⟩
      rcases List.mem_cons.1 hb with rfl | hb
      · exact hlt
      · exact String.lt_trans hlt (hx b hb)
    · rename_i hnlt
      split
      · rename_i heq
        exact List.pairwise_cons.2 ⟨fun b hb => heq ▸ hx b hb, hrest⟩
      · rename_i hne
        refine List.pairwise_cons.2 ⟨fun b hb => ?_, ih hrest⟩
        rcases mem_insertEntry hb with rfl | hb
        · have hle : x.1 ≤ name := String.not_lt.1 hnlt
          by_cases hlt : x.1 < name
          · exact hlt
          · exact absurd (String.le_antisymm (String.not_lt.1 hlt) hle) hne
        · exact hx b hb

theorem inNameOrder_filter {α : Type} {entries : List (String × α)} (h : InNameOrder entries)
    (p : String × α → Bool) : InNameOrder (entries.filter p) :=
  List.Pairwise.sublist List.filter_sublist h

/-! ## Registries -/

/-- Values under names, in the order of the names. -/
structure Registry (α : Type) where
  entries : List (String × α)
  inOrder : InNameOrder entries

namespace Registry

variable {α : Type}

/-- No names at all. -/
def empty : Registry α := ⟨[], List.Pairwise.nil⟩

instance : Inhabited (Registry α) := ⟨empty⟩

/-- The value under a name. -/
def get? (r : Registry α) (name : String) : Option α := r.entries.lookup name

/-- Whether the name has a value. -/
def contains (r : Registry α) (name : String) : Bool := (r.get? name).isSome

/-- Gives a name a value, in place of any earlier one. -/
def set (r : Registry α) (name : String) (value : α) : Registry α :=
  ⟨insertEntry name value r.entries, inNameOrder_insertEntry r.inOrder name value⟩

/-- Forgets a name. -/
def erase (r : Registry α) (name : String) : Registry α :=
  ⟨r.entries.filter (·.1 != name), inNameOrder_filter r.inOrder _⟩

/-- The names, in order. -/
def names (r : Registry α) : List String := r.entries.map (·.1)

/-- The values, in the order of their names. -/
def values (r : Registry α) : List α := r.entries.map (·.2)

/-- The registry of a list of entries; of two with one name the later counts. -/
def ofList (entries : List (String × α)) : Registry α :=
  entries.foldl (fun r e => r.set e.1 e.2) empty

end Registry

end TickScript
