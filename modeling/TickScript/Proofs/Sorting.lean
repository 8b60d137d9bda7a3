-- Sorting, and the least and the greatest of some values. As long as the values are in one order,
-- sorting puts them into it and leaves level ones as they were, and the least and the greatest are
-- what then stands at the two ends: of level values the first is the least, and the last the
-- greatest.
import TickScript.Proofs.Answers
import TickScript.Proofs.Comparing

namespace TickScript

/-! ## The better of two, again and again -/

section Winners

variable {α : Type} (keeps : α → α → Bool)

/-- What is left if each next one is taken instead of the best so far, unless this is kept. -/
def winner (best : α) (others : List α) : α :=
  others.foldl (fun best next => if keeps best next then best else next) best

/-- The member is kept against all behind it, and none before it is kept against it. -/
def WinsIn (members : List α) (m : α) : Prop :=
  ∃ before after, members = before ++ m :: after ∧ (∀ b ∈ before, keeps b m = false) ∧
    ∀ c ∈ after, keeps m c = true

/-- Among these members being kept is transitive, and so is not being kept. -/
structure Ranks (members : List α) : Prop where
  trans : ∀ a ∈ members, ∀ b ∈ members, ∀ c ∈ members,
    keeps a b = true → keeps b c = true → keeps a c = true
  trans_not : ∀ a ∈ members, ∀ b ∈ members, ∀ c ∈ members,
    keeps a b = false → keeps b c = false → keeps a c = false

variable {keeps}

theorem Ranks.mono {members others : List α} (h : Ranks keeps others)
    (hsub : ∀ a ∈ members, a ∈ others) : Ranks keeps members where
  trans a ha b hb c hc := h.trans a (hsub a ha) b (hsub b hb) c (hsub c hc)
  trans_not a ha b hb c hc := h.trans_not a (hsub a ha) b (hsub b hb) c (hsub c hc)

/-- One member more: it is taken instead of the winner, or the winner is kept. -/
theorem WinsIn.step {members : List α} {m next : α} (h : WinsIn keeps members m)
    (hranks : Ranks keeps (members ++ [next])) :
    WinsIn keeps (members ++ [next]) (if keeps m next then m else next) := by
  obtain ⟨before, after, rfl, hbefore, hafter⟩ := h
  cases hkeep : keeps m next with
  | true =>
    refine ⟨before, after ++ [next], by simp, hbefore, ?_⟩
    intro c hc
    rcases List.mem_append.mp hc with hc | hc
    · exact hafter c hc
    · rw [List.mem_singleton.mp hc]
      exact hkeep
  | false =>
    refine ⟨before ++ m :: after, [], rfl, ?_, by simp⟩
    intro b hb
    rcases List.mem_append.mp hb with hb | hb
    · exact hranks.trans_not b (by simp [hb]) m (by simp) next (by simp) (hbefore b hb) hkeep
    rcases List.mem_cons.mp hb with rfl | hb
    · exact hkeep
    · -- What the winner was kept against is not kept either, or the winner would be.
      by_contra hbnext
      have hkept := hranks.trans m (by simp) b (by simp [hb]) next (by simp) (hafter b hb)
        (Bool.of_not_eq_false hbnext)
      rw [hkeep] at hkept
      cases hkept

theorem winsIn_winner {best : α} {others : List α} (h : Ranks keeps (best :: others)) :
    WinsIn keeps (best :: others) (winner keeps best others) := by
  induction others using List.reverseRecOn with
  | nil => exact ⟨[], [], rfl, by simp, by simp⟩
  | append_singleton others next ih =>
    have hstep := (ih (h.mono fun a ha => List.mem_append_left [next] ha)).step h
    unfold winner at *
    rwa [List.foldl_append]

/-- No two members win in different places. -/
theorem WinsIn.unique {members : List α} {m m' : α} (h : WinsIn keeps members m)
    (h' : WinsIn keeps members m') : m = m' := by
  obtain ⟨before, after, rfl, hbefore, hafter⟩ := h
  obtain ⟨before', after', heq, hbefore', hafter'⟩ := h'
  rcases List.append_eq_append_iff.mp heq with ⟨between, rfl, hrest⟩ | ⟨between, rfl, hrest⟩
  · rcases between with _ | ⟨x, between⟩
    · cases hrest
      rfl
    · cases hrest
      have hkept := hafter m' (by simp)
      rw [hbefore' m (by simp)] at hkept
      cases hkept
  · rcases between with _ | ⟨x, between⟩
    · cases hrest
      rfl
    · cases hrest
      have hkept := hafter' m (by simp)
      rw [hbefore m' (by simp)] at hkept
      cases hkept

end Winners

namespace Value

/-! ## Values in one order -/

theorem compare_eq_gt_iff {a b : Value} : a.compare b = .gt ↔ b.compare a = .lt := by
  rw [← compare_swap b a]
  cases b.compare a <;> simp

section Order

variable {values : List Value} (h : InOneOrder values)

include h

/-- Where no two steps up lead down, two steps down lead down. -/
theorem InOneOrder.gt_trans {a b c : Value} (ha : a ∈ values) (hb : b ∈ values) (hc : c ∈ values)
    (hab : a.compare b = .gt) (hbc : b.compare c = .gt) : a.compare c = .gt := by
  by_contra hac
  have hcb : c.compare b ≠ .gt := by
    rw [compare_eq_gt_iff] at hbc
    rw [hbc]
    decide
  exact h a ha c hc b hb hac hcb hab

theorem InOneOrder.ranks_least : Ranks (fun a b => a.compare b != .gt) values where
  trans a ha b hb c hc hab hbc := by
    simp only [bne_iff_ne] at *
    exact h a ha b hb c hc hab hbc
  trans_not a ha b hb c hc hab hbc := by
    simp only [bne_eq_false_iff_eq] at *
    exact h.gt_trans ha hb hc hab hbc

theorem InOneOrder.ranks_greatest : Ranks (fun a b => a.compare b == .gt) values where
  trans a ha b hb c hc hab hbc := by
    simp only [beq_iff_eq] at *
    exact h.gt_trans ha hb hc hab hbc
  trans_not a ha b hb c hc hab hbc := by
    simp only [beq_eq_false_iff_ne] at *
    exact h a ha b hb c hc hab hbc

end Order

theorem least_eq_winner (v : Value) (others : List Value) :
    least v others = winner (fun a b => a.compare b != .gt) v others := by
  unfold least winner
  congr 1
  funext best w
  simp [bne_iff_ne, ite_not]

theorem greatest_eq_winner (v : Value) (others : List Value) :
    greatest v others = winner (fun a b => a.compare b == .gt) v others := by
  unfold greatest winner
  congr 1
  funext best w
  simp

/-! ## Sorting -/

/-- The value at the first place goes before that at the second: it is less, or it is level and was
there before. -/
def Precedes (values : List Value) (i j : Fin values.length) : Prop :=
  (values.get i).compare (values.get j) = .lt ∨
    (values.get i).compare (values.get j) = .eq ∧ i < j

/-- These are the values in order, each as often as it was there, and level ones as they were. -/
def IsSorting (values sorted : List Value) : Prop :=
  ∃ places : List (Fin values.length), places.Perm (List.finRange values.length) ∧
    places.Pairwise (Precedes values) ∧ sorted = places.map values.get

section Places

variable {values : List Value}

/-- The first of two places is not after the second, by what stands there. -/
def notAfter (values : List Value) (i j : Fin values.length) : Bool :=
  (values.get i).compare (values.get j) != .gt

theorem notAfter_trans (h : InOneOrder values) (i j k : Fin values.length)
    (hij : notAfter values i j = true) (hjk : notAfter values j k = true) :
    notAfter values i k = true := by
  unfold notAfter at *
  exact h.ranks_least.trans _ (List.get_mem values i) _ (List.get_mem values j) _
    (List.get_mem values k) hij hjk

theorem notAfter_total (i j : Fin values.length) :
    (notAfter values i j || notAfter values j i) = true := by
  unfold notAfter
  rw [← compare_swap (values.get i) (values.get j)]
  cases (values.get i).compare (values.get j) <;> rfl

/-- The places in the order of their values. -/
def sortedPlaces (values : List Value) : List (Fin values.length) :=
  (List.finRange values.length).mergeSort (notAfter values)

theorem sort_eq_map_sortedPlaces (values : List Value) :
    sort values = (sortedPlaces values).map values.get := by
  have hmap := List.map_mergeSort (r := notAfter values)
    (s := fun a b : Value => a.compare b != .gt) (f := values.get)
    (l := List.finRange values.length) (fun i _ j _ => rfl)
  rw [List.map_get_finRange] at hmap
  exact hmap.symm

theorem pair_sublist_finRange {n : Nat} {i j : Fin n} (h : i < j) :
    [i, j].Sublist (List.finRange n) := by
  rw [List.cons_sublist_iff]
  refine ⟨(List.finRange n).take j, (List.finRange n).drop j, ?_, ?_, ?_⟩
  · rw [List.take_append_drop]
  · rw [List.mem_take_iff_getElem]
    exact ⟨i, by simp [h], by simp⟩
  · rw [List.singleton_sublist, List.mem_drop_iff_getElem]
    exact ⟨0, by simp, by simp⟩

/-- What is there once only does not stand before and behind another. -/
theorem not_pair_sublist_of_nodup {α : Type} {a b : α} {l : List α} (hl : l.Nodup)
    (hab : [a, b].Sublist l) : ¬ [b, a].Sublist l := by
  intro hba
  obtain ⟨before, after, rfl, ha, hb⟩ := List.cons_sublist_iff.mp hab
  obtain ⟨before', after', heq, hb', ha'⟩ := List.cons_sublist_iff.mp hba
  rw [List.singleton_sublist] at hb ha'
  rcases List.append_eq_append_iff.mp heq with ⟨between, rfl, rfl⟩ | ⟨between, rfl, rfl⟩
  · rw [← List.append_assoc] at hl
    exact (List.nodup_append.mp hl).2.2 a (by simp [ha]) a ha' rfl
  · exact (List.nodup_append.mp hl).2.2 b (by simp [hb']) b hb rfl

/-- Of two places in this order the value of the first is less, or it is level. In the latter case
the two places have not changed sides. -/
theorem pairwise_sortedPlaces (h : InOneOrder values) :
    (sortedPlaces values).Pairwise (Precedes values) := by
  have htrans := notAfter_trans h
  have hnodup : (sortedPlaces values).Nodup :=
    (List.mergeSort_perm _ _).nodup_iff.mpr (List.nodup_finRange _)
  have hsorted := List.pairwise_mergeSort htrans notAfter_total (List.finRange values.length)
  rw [List.pairwise_iff_forall_sublist] at *
  intro i j hpair
  have hij := hsorted hpair
  unfold notAfter at hij
  unfold Precedes
  cases hcompare : (values.get i).compare (values.get j) with
  | lt => exact .inl rfl
  | gt =>
    rw [hcompare] at hij
    cases hij
  | eq =>
    refine .inr ⟨rfl, ?_⟩
    by_contra hlt
    have hne : i ≠ j := by
      rintro rfl
      exact not_pair_sublist_of_nodup hnodup hpair hpair
    have hji : notAfter values j i = true := by
      unfold notAfter
      rw [← compare_swap (values.get i) (values.get j), hcompare]
      rfl
    exact not_pair_sublist_of_nodup hnodup hpair
      (List.pair_sublist_mergeSort htrans notAfter_total hji
        (pair_sublist_finRange (by omega)))

theorem isSorting_sort (h : InOneOrder values) : IsSorting values (sort values) :=
  ⟨sortedPlaces values, List.mergeSort_perm _ _, pairwise_sortedPlaces h,
    sort_eq_map_sortedPlaces values⟩

end Places

/-! ## What a sorted list is -/

section Sorted

variable {values sorted : List Value} (h : IsSorting values sorted)

include h

theorem IsSorting.perm : sorted.Perm values := by
  obtain ⟨places, hperm, -, rfl⟩ := h
  have hvalues := hperm.map values.get
  rwa [List.map_get_finRange] at hvalues

theorem IsSorting.pairwise : sorted.Pairwise fun a b => a.compare b ≠ .gt := by
  obtain ⟨places, -, hordered, rfl⟩ := h
  refine hordered.map values.get fun i j hij => ?_
  rcases hij with hlt | ⟨heq, -⟩
  · rw [hlt]
    decide
  · rw [heq]
    decide

/-- What is in order stays as it is. -/
theorem IsSorting.sort_eq : sort sorted = sorted := by
  refine List.mergeSort_of_pairwise (h.pairwise.imp fun hab => ?_)
  simpa using hab

end Sorted

/-- A place wins by what stands before and behind it. -/
theorem winsIn_of_place {keeps : Value → Value → Bool} {values : List Value}
    {place : Fin values.length}
    (hbefore : ∀ j < place, keeps (values.get j) (values.get place) = false)
    (hafter : ∀ j > place, keeps (values.get place) (values.get j) = true) :
    WinsIn keeps values (values.get place) := by
  refine ⟨values.take place, values.drop (place + 1), ?_, ?_, ?_⟩
  · rw [List.get_eq_getElem, List.getElem_cons_drop, List.take_append_drop]
  · intro b hb
    obtain ⟨j, hj, rfl⟩ := List.mem_take_iff_getElem.mp hb
    exact hbefore ⟨j, by omega⟩ (by simp only [Fin.lt_def]; omega)
  · intro c hc
    obtain ⟨j, hj, rfl⟩ := List.mem_drop_iff_getElem.mp hc
    exact hafter ⟨place + 1 + j, by omega⟩ (by simp only [gt_iff_lt, Fin.lt_def]; omega)

section Ends

variable {values sorted : List Value} (h : IsSorting values sorted) (hne : sorted ≠ [])

include h

/-- The first of the sorted values is less than all before it in the list, and none behind it is
less than it. -/
theorem IsSorting.winsIn_head :
    WinsIn (fun a b => a.compare b != .gt) values (sorted.head hne) := by
  obtain ⟨places, hperm, hordered, rfl⟩ := h
  rcases places with _ | ⟨p, rest⟩
  · exact absurd rfl hne
  have hprecedes : ∀ j, j ≠ p → Precedes values p j := by
    intro j hj
    have hmem := hperm.mem_iff.mpr (List.mem_finRange j)
    exact (List.pairwise_cons.mp hordered).1 j ((List.mem_cons.mp hmem).resolve_left hj)
  refine winsIn_of_place (fun j hj => ?_) fun j hj => ?_
  · rcases hprecedes j (by omega) with hlt | ⟨-, hpj⟩
    · simpa [bne_eq_false_iff_eq, compare_eq_gt_iff] using hlt
    · omega
  · rcases hprecedes j (by omega) with hlt | ⟨heq, -⟩
    · rw [hlt]
      rfl
    · rw [heq]
      rfl

/-- The last of the sorted values is greater than all behind it in the list, and none before it is
greater than it. -/
theorem IsSorting.winsIn_getLast :
    WinsIn (fun a b => a.compare b == .gt) values (sorted.getLast hne) := by
  obtain ⟨places, hperm, hordered, rfl⟩ := h
  rcases List.eq_nil_or_concat places with rfl | ⟨rest, p, rfl⟩
  · exact absurd rfl hne
  have hprecedes : ∀ j, j ≠ p → Precedes values j p := by
    intro j hj
    have hmem := hperm.mem_iff.mpr (List.mem_finRange j)
    rw [List.concat_eq_append] at hmem hordered
    have hrest := (List.mem_append.mp hmem).resolve_right fun hp => hj (List.mem_singleton.mp hp)
    exact (List.pairwise_append.mp hordered).2.2 j hrest p (List.mem_singleton_self p)
  have hlast : (List.map values.get (rest.concat p)).getLast hne = values.get p := by
    simp
  rw [hlast]
  refine winsIn_of_place (fun j hj => ?_) fun j hj => ?_
  · rcases hprecedes j (by omega) with hlt | ⟨heq, -⟩
    · rw [hlt]
      rfl
    · rw [heq]
      rfl
  · rcases hprecedes j (by omega) with hlt | ⟨-, hpj⟩
    · simpa [compare_eq_gt_iff] using hlt
    · omega

end Ends

theorem InOneOrder.least_eq_head {v : Value} {others sorted : List Value}
    (horder : InOneOrder (v :: others)) (h : IsSorting (v :: others) sorted) (hne : sorted ≠ []) :
    least v others = sorted.head hne := by
  rw [least_eq_winner]
  exact (winsIn_winner horder.ranks_least).unique (h.winsIn_head hne)

theorem InOneOrder.greatest_eq_getLast {v : Value} {others sorted : List Value}
    (horder : InOneOrder (v :: others)) (h : IsSorting (v :: others) sorted) (hne : sorted ≠ []) :
    greatest v others = sorted.getLast hne := by
  rw [greatest_eq_winner]
  exact (winsIn_winner horder.ranks_greatest).unique (h.winsIn_getLast hne)

end Value

/-! ## The three functions -/

section Functions

variable {lang : Language} (hlang : lang.HasStandard ["l", "sort", "min", "max"])

include hlang

theorem answers_sort {v : Value} {values : List Value} (hv : v.HasElements values) :
    lang.Answers "sort" [v] (.list (Value.sort values)) := by
  refine Language.answers_of_eager (hlang "sort" (by simp)) fun t => ?_
  exact Run.bind_of_ok (hv.elements_eq t)

theorem answers_min (v : Value) (others : List Value) :
    lang.Answers "min" (v :: others) (Value.least v others).unbound :=
  Language.answers_of_eager (hlang "min" (by simp)) fun _ => rfl

theorem answers_max (v : Value) (others : List Value) :
    lang.Answers "max" (v :: others) (Value.greatest v others).unbound :=
  Language.answers_of_eager (hlang "max" (by simp)) fun _ => rfl

end Functions

/-- Values in one order are sorted: each is there as often as before, none is greater than one
behind it, and level ones are as they were. To sort them again changes nothing. The least of the
values is the first of the sorted ones and the greatest is the last, but for its name. -/
theorem sort_min_and_max_agree {lang : Language}
    (hlang : lang.HasStandard ["l", "sort", "min", "max"]) {values : List Value}
    (hne : values ≠ []) (horder : Value.InOneOrder values) :
    ∃ (sorted : List Value) (hsorted : sorted ≠ []),
      sorted.Perm values ∧
      sorted.Pairwise (fun a b => a.compare b ≠ .gt) ∧
      Value.IsSorting values sorted ∧
      lang.Answers "l" values (.list values) ∧
      (∀ v : Value, v.HasElements values → lang.Answers "sort" [v] (.list sorted)) ∧
      (∀ v : Value, v.HasElements sorted → lang.Answers "sort" [v] (.list sorted)) ∧
      lang.Answers "min" values (sorted.head hsorted).unbound ∧
      lang.Answers "max" values (sorted.getLast hsorted).unbound := by
  have h := Value.isSorting_sort horder
  have hsorted : Value.sort values ≠ [] := by
    intro hnil
    rw [hnil] at h
    exact hne h.perm.nil_eq.symm
  refine ⟨Value.sort values, hsorted, h.perm, h.pairwise, h, ?_, fun v hv => answers_sort hlang hv,
    fun v hv => ?_, ?_, ?_⟩
  · exact Language.answers_of_eager (hlang "l" (by simp)) fun _ => rfl
  · have hagain := answers_sort hlang hv
    rwa [h.sort_eq] at hagain
  · obtain ⟨v, others, rfl⟩ := List.exists_cons_of_ne_nil hne
    rw [← horder.least_eq_head h]
    exact answers_min hlang v others
  · obtain ⟨v, others, rfl⟩ := List.exists_cons_of_ne_nil hne
    rw [← horder.greatest_eq_getLast h]
    exact answers_max hlang v others

namespace Ranked

/-- The values of `'z'`, `null` and `0`. The null was read from a constant, so it has a name. -/
def values : List Value := [.text "z", ⟨some "null", .null⟩, .number 0]

end Ranked

open Ranked in
/-- Null and zero are level, and both are less than a letter. The null was there before the zero, so
it is the least, without its name. -/
theorem null_is_less_than_a_letter :
    Language.standard.HasStandard ["l", "sort", "min", "max"] ∧
    values ≠ [] ∧ Value.InOneOrder values ∧
    ∃ (sorted : List Value) (hsorted : sorted ≠ []),
      Value.IsSorting values sorted ∧
      Language.standard.Answers "sort" [.list values] (.list sorted) ∧
      (sorted.head hsorted).unbound = .null ∧
      Language.standard.Answers "min" values .null ∧
      (sorted.getLast hsorted).unbound = .text "z" ∧
      Language.standard.Answers "max" values (.text "z") := by
  have hne : values ≠ [] := List.cons_ne_nil _ _
  have horder : Value.InOneOrder values := by
    unfold Value.InOneOrder
    decide
  have hlang := Language.hasStandard_standard ["l", "sort", "min", "max"]
  have hmin : Language.standard.Answers "min" values .null := answers_min hlang _ _
  have hmax : Language.standard.Answers "max" values (.text "z") := answers_max hlang _ _
  obtain ⟨sorted, hsorted, -, -, hsorting, -, hsort, -, hleast, hgreatest⟩ :=
    sort_min_and_max_agree hlang hne horder
  exact ⟨hlang, hne, horder, sorted, hsorted, hsorting, hsort _ (.inl rfl), hleast.unique hmin,
    hmin, hgreatest.unique hmax, hmax⟩

end TickScript
