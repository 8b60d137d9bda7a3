-- How values compare. Numbers compare as numbers, lists member by member, and all else by what is
-- printed. Values that all compare in one of these ways are in one order. Values that compare in
-- two of them need not be: a text may stand between two numbers that print in the other order.
import Mathlib
import TickScript.Value.Order

namespace TickScript

variable {x y : Float} {a b : Value}

/-! ## Orders that go together -/

/-- How a first thing compares with a second, the second with a third, and the first with the
third, if they are in one order: what comes first decides. -/
def Composes (first second both : Ordering) : Prop :=
  first ≠ .gt → second ≠ .gt → both = first.then second

theorem Composes.ne_gt {first second both : Ordering} (h : Composes first second both)
    (hfirst : first ≠ .gt) (hsecond : second ≠ .gt) : both ≠ .gt := by
  rw [h hfirst hsecond]
  cases first with
  | lt => simp
  | eq => exact hsecond
  | gt => exact absurd rfl hfirst

theorem composes_of_transCmp {α : Type} {cmp : α → α → Ordering} [Std.TransCmp cmp] (a b c : α) :
    Composes (cmp a b) (cmp b c) (cmp a c) := by
  intro hab hbc
  cases h : cmp a b with
  | gt => exact absurd h hab
  | lt =>
    cases h' : cmp b c with
    | lt => exact Std.TransCmp.lt_trans h h'
    | eq => exact Std.TransCmp.lt_of_lt_of_eq h h'
    | gt => exact absurd h' hbc
  | eq =>
    cases h' : cmp b c with
    | lt => exact Std.TransCmp.lt_of_eq_of_lt h h'
    | eq => exact Std.TransCmp.eq_trans h h'
    | gt => exact absurd h' hbc

/-- What is compared by one thing first, and by another if that is alike, goes together if the
first does, and the second wherever it is asked. -/
theorem Composes.then {ab bc ac ab' bc' ac' : Ordering} (h : Composes ab bc ac)
    (h' : ab = .eq → bc = .eq → Composes ab' bc' ac') :
    Composes (ab.then ab') (bc.then bc') (ac.then ac') := by
  intro hfirst hsecond
  cases ab with
  | gt => exact absurd rfl hfirst
  | lt =>
    cases bc with
    | gt => exact absurd rfl hsecond
    | lt | eq =>
      rw [h (by simp) (by simp)]
      rfl
  | eq =>
    cases bc with
    | gt => exact absurd rfl hsecond
    | lt =>
      rw [h (by simp) (by simp)]
      cases ab' with
      | gt => exact absurd rfl hfirst
      | lt | eq => rfl
    | eq =>
      rw [h (by simp) (by simp)]
      exact h' rfl rfl hfirst hsecond

/-! ## Numbers -/

section Numbers

open Float.Model

/-- Where a number stands among all others. -/
def rank : UnpackedFloat → ℤ ×ₗ ℤ ×ₗ ℤ
  | .infinity .negative => toLex (-2, toLex (0, 0))
  | .finite .negative m e _ => toLex (-1, toLex (-e, -m))
  | .zero _ | .notANumber => toLex (0, toLex (0, 0))
  | .finite .positive m e _ => toLex (1, toLex (e, m))
  | .infinity .positive => toLex (2, toLex (0, 0))

theorem compare_eq_lt_iff {a b : UnpackedFloat} (ha : a.isNaN = false) (hb : b.isNaN = false) :
    a.compare b = some .lt ↔ rank a < rank b := by
  cases a with
  | notANumber => cases ha
  | infinity s | zero s =>
    cases b with
    | notANumber => cases hb
    | infinity t | zero t => cases s <;> cases t <;> decide
    | finite t n f _ =>
      cases s <;> cases t <;> simp [UnpackedFloat.compare, rank, Prod.Lex.toLex_lt_toLex]
  | finite s m e _ =>
    cases b with
    | notANumber => cases hb
    | infinity t | zero t =>
      cases s <;> cases t <;> simp [UnpackedFloat.compare, rank, Prod.Lex.toLex_lt_toLex]
    | finite t n f _ =>
      cases s <;> cases t <;>
        simp [UnpackedFloat.compare, rank, Prod.Lex.toLex_lt_toLex, Ordering.then_eq_lt,
          Ordering.then_eq_gt, compare_lt_iff_lt, compare_gt_iff_gt]

theorem lt_iff_compare : x < y ↔ x.toModel.unpack.compare y.toModel.unpack = some .lt := by
  unfold LT.lt instLTFloat Float.lt
  simp only [decide_eq_true_eq]
  change x.toModel.unpack.lt y.toModel.unpack = true ↔ _
  simp [UnpackedFloat.lt]

theorem lt_iff_rank_lt (hx : x.isNaN = false) (hy : y.isNaN = false) :
    x < y ↔ rank x.toModel.unpack < rank y.toModel.unpack :=
  lt_iff_compare.trans (compare_eq_lt_iff hx hy)

/-- What is not a number is on neither side of another. -/
theorem isNaN_eq_false_of_lt (h : x < y) : x.isNaN = false ∧ y.isNaN = false := by
  rw [lt_iff_compare] at h
  change x.toModel.unpack.isNaN = false ∧ y.toModel.unpack.isNaN = false
  generalize x.toModel.unpack = a at h ⊢
  generalize y.toModel.unpack = b at h ⊢
  cases a <;> cases b <;> simp_all [UnpackedFloat.compare, UnpackedFloat.isNaN]

theorem compareNumbers_swap (x y : Float) : (compareNumbers x y).swap = compareNumbers y x := by
  unfold compareNumbers
  by_cases h : x < y
  · obtain ⟨hx, hy⟩ := isNaN_eq_false_of_lt h
    have hnot : ¬ y < x := by
      rw [lt_iff_rank_lt hy hx]
      exact lt_asymm ((lt_iff_rank_lt hx hy).mp h)
    rw [if_pos h, if_neg hnot, if_pos h]
    rfl
  · by_cases h' : y < x
    · rw [if_neg h, if_pos h', if_pos h']
      rfl
    · rw [if_neg h, if_neg h', if_neg h', if_neg h]
      rfl

theorem compareNumbers_eq (hx : x.isNaN = false) (hy : y.isNaN = false) :
    compareNumbers x y = compare (rank x.toModel.unpack) (rank y.toModel.unpack) := by
  unfold compareNumbers
  simp only [lt_iff_rank_lt hx hy, lt_iff_rank_lt hy hx]
  rcases lt_trichotomy (rank x.toModel.unpack) (rank y.toModel.unpack) with h | h | h
  · rw [if_pos h, compare_lt_iff_lt.mpr h]
  · rw [h, if_neg (lt_irrefl _), if_neg (lt_irrefl _), compare_eq_iff_eq.mpr rfl]
  · rw [if_neg (lt_asymm h), if_pos h, compare_gt_iff_gt.mpr h]

theorem composes_compareNumbers {z : Float} (hx : x.isNaN = false) (hy : y.isNaN = false)
    (hz : z.isNaN = false) :
    Composes (compareNumbers x y) (compareNumbers y z) (compareNumbers x z) := by
  rw [compareNumbers_eq hx hy, compareNumbers_eq hy hz, compareNumbers_eq hx hz]
  exact composes_of_transCmp _ _ _

end Numbers

/-! ## How two values compare -/

namespace Value

theorem compare_of_lists {xs ys : List Value} (ha : a.list? = some xs) (hb : b.list? = some ys) :
    a.compare b = compareAll xs ys := by
  obtain ⟨_, datum⟩ := a
  obtain ⟨_, datum'⟩ := b
  cases datum <;> cases ha
  cases datum' <;> cases hb
  rw [compare]

theorem compare_of_numbers (ha : a.number? = some x) (hb : b.number? = some y) :
    a.compare b = compareNumbers x y := by
  obtain ⟨_, datum⟩ := a
  obtain ⟨_, datum'⟩ := b
  cases datum <;> cases ha <;> cases datum' <;> cases hb <;> simp [compare, number?]

/-- The values compare as what they print does. -/
def ComparesAsPrinted (a b : Value) : Prop :=
  a.compare b = Ord.compare a.display b.display

theorem comparesAsPrinted (hnumber : a.number? = none ∨ b.number? = none)
    (hlist : a.list? = none ∨ b.list? = none) : a.ComparesAsPrinted b := by
  unfold ComparesAsPrinted compare
  split
  · simp [list?] at hlist
  · simp [display]
  · split
    · next ha hb => simp [ha, hb] at hnumber
    · rfl

theorem compareAll_cons (x y : Value) (xs ys : List Value) :
    compareAll (x :: xs) (y :: ys) = (x.compare y).then (compareAll xs ys) := by
  rw [compareAll]
  cases x.compare y <;> rfl

theorem compare_swap_of_list? (hlist : a.list? = none ∨ b.list? = none) :
    (a.compare b).swap = b.compare a := by
  cases ha : a.number? with
  | none =>
    rw [comparesAsPrinted (.inl ha) hlist, comparesAsPrinted (.inr ha) hlist.symm]
    exact (Std.OrientedOrd.eq_swap).symm
  | some x =>
    cases hb : b.number? with
    | none =>
      rw [comparesAsPrinted (.inr hb) hlist, comparesAsPrinted (.inl hb) hlist.symm]
      exact (Std.OrientedOrd.eq_swap).symm
    | some y =>
      rw [compare_of_numbers ha hb, compare_of_numbers hb ha]
      exact compareNumbers_swap x y

mutual

theorem compare_swap : ∀ a b : Value, (a.compare b).swap = b.compare a
  | ⟨_, .list xs⟩, ⟨_, .list ys⟩ => by
    rw [compare, compare]
    exact compareAll_swap xs ys
  | ⟨_, .list _⟩, ⟨_, .null⟩ | ⟨_, .list _⟩, ⟨_, .number _⟩ | ⟨_, .list _⟩, ⟨_, .text _⟩
  | ⟨_, .list _⟩, ⟨_, .iterator ..⟩ | ⟨_, .list _⟩, ⟨_, .host ..⟩ =>
    compare_swap_of_list? (.inr rfl)
  | ⟨_, .null⟩, _ | ⟨_, .number _⟩, _ | ⟨_, .text _⟩, _ | ⟨_, .iterator ..⟩, _
  | ⟨_, .host ..⟩, _ =>
    compare_swap_of_list? (.inl rfl)

theorem compareAll_swap : ∀ xs ys : List Value, (compareAll xs ys).swap = compareAll ys xs
  | [], [] | [], _ :: _ | _ :: _, [] => by simp [compareAll]
  | x :: xs, y :: ys => by
    rw [compareAll_cons, compareAll_cons, Ordering.swap_then, compare_swap x y,
      compareAll_swap xs ys]

end

/-! ## Three values in one order -/

mutual

/-- The three values are numbers, or any two of them compare as they print, or they are lists of
which the members in the same places are such values, as far as these are looked at. -/
inductive Concordant : Value → Value → Value → Prop
  | numbers {a b c : Value} {x y z : Float} (ha : a.number? = some x) (hb : b.number? = some y)
      (hc : c.number? = some z) (hx : x.isNaN = false) (hy : y.isNaN = false)
      (hz : z.isNaN = false) : Concordant a b c
  | printed {a b c : Value} (hab : a.ComparesAsPrinted b) (hbc : b.ComparesAsPrinted c)
      (hac : a.ComparesAsPrinted c) : Concordant a b c
  | lists {a b c : Value} {xs ys zs : List Value} (ha : a.list? = some xs)
      (hb : b.list? = some ys) (hc : c.list? = some zs) (h : AllConcordant xs ys zs) :
      Concordant a b c

inductive AllConcordant : List Value → List Value → List Value → Prop
  | first {ys zs : List Value} : AllConcordant [] ys zs
  | second {xs zs : List Value} : AllConcordant xs [] zs
  | third {xs ys : List Value} : AllConcordant xs ys []
  | cons {x y z : Value} {xs ys zs : List Value} (h : Concordant x y z)
      (hs : x.compare y = .eq → y.compare z = .eq → AllConcordant xs ys zs) :
      AllConcordant (x :: xs) (y :: ys) (z :: zs)

end

mutual

theorem Concordant.composes : ∀ {a b c : Value}, Concordant a b c →
    Composes (a.compare b) (b.compare c) (a.compare c)
  | _, _, _, .numbers ha hb hc hx hy hz => by
    rw [compare_of_numbers ha hb, compare_of_numbers hb hc, compare_of_numbers ha hc]
    exact composes_compareNumbers hx hy hz
  | _, _, _, .printed hab hbc hac => by
    rw [hab, hbc, hac]
    exact composes_of_transCmp _ _ _
  | _, _, _, .lists ha hb hc h => by
    rw [compare_of_lists ha hb, compare_of_lists hb hc, compare_of_lists ha hc]
    exact h.composes

theorem AllConcordant.composes : ∀ {xs ys zs : List Value}, AllConcordant xs ys zs →
    Composes (compareAll xs ys) (compareAll ys zs) (compareAll xs zs)
  | _, ys, zs, .first => by
    cases ys <;> cases zs <;> simp [Composes, compareAll]
  | xs, _, zs, .second => by
    cases xs <;> cases zs <;> simp [Composes, compareAll]
  | xs, ys, _, .third => by
    cases xs <;> cases ys <;> simp [Composes, compareAll]
  | _, _, _, .cons h hs => by
    rw [compareAll_cons, compareAll_cons, compareAll_cons]
    exact h.composes.then fun hxy hyz => (hs hxy hyz).composes

end

/-! ## Two values among texts -/

theorem comparesAsPrinted_text (a : Value) (text : String) : a.ComparesAsPrinted (.text text) :=
  comparesAsPrinted (.inr rfl) (.inr rfl)

theorem ComparesAsPrinted.symm (h : a.ComparesAsPrinted b) : b.ComparesAsPrinted a := by
  unfold ComparesAsPrinted
  rw [← compare_swap a b, h]
  exact (Std.OrientedOrd.eq_swap).symm

theorem ComparesAsPrinted.refl (a : Value) : a.ComparesAsPrinted a := by
  have hself : (a.compare a).swap = a.compare a := compare_swap a a
  unfold ComparesAsPrinted
  rw [Std.ReflOrd.compare_self]
  cases h : a.compare a with
  | eq => rfl
  | lt | gt => simp [h] at hself

@[simp] theorem display_text (text : String) : (Value.text text).display = text := by
  simp [display, Value.text]

/-- No two steps up among the values lead down. -/
def InOneOrder (values : List Value) : Prop :=
  ∀ a ∈ values, ∀ b ∈ values, ∀ c ∈ values,
    a.compare b ≠ .gt → b.compare c ≠ .gt → a.compare c ≠ .gt

theorem inOneOrder_of_comparesAsPrinted {values : List Value}
    (h : ∀ a ∈ values, ∀ b ∈ values, a.ComparesAsPrinted b) : InOneOrder values := by
  intro a ha b hb c hc hab hbc
  exact (Concordant.printed (h a ha b hb) (h b hb c hc) (h a ha c hc)).composes.ne_gt hab hbc

theorem ordering_eq_of_ne_gt_iff {o p : Ordering} (h : o ≠ .gt ↔ p ≠ .gt)
    (hswap : o.swap ≠ .gt ↔ p.swap ≠ .gt) : o = p := by
  cases o <;> cases p <;> simp_all

/-- Two values are in one order with every text exactly if they compare as they print. -/
theorem comparesAsPrinted_iff :
    a.ComparesAsPrinted b ↔ ∀ text : String, InOneOrder [a, b, .text text] := by
  constructor
  · intro h text
    apply inOneOrder_of_comparesAsPrinted
    have hself := ComparesAsPrinted.refl
    have hwith := comparesAsPrinted_text
    simp only [List.forall_mem_cons, List.not_mem_nil, false_implies, implies_true, and_true]
    exact ⟨⟨hself a, h, hwith a text⟩, ⟨h.symm, hself b, hwith b text⟩,
      (hwith a text).symm, (hwith b text).symm, hself _⟩
  · intro h
    -- What the first value prints is as high as the value itself.
    have hlevel : a.compare (.text a.display) ≠ .gt ∧ (Value.text a.display).compare a ≠ .gt := by
      rw [comparesAsPrinted_text, (comparesAsPrinted_text a _).symm, display_text]
      simp [Std.ReflOrd.compare_self]
    have hprint : (Value.text a.display).compare b = Ord.compare a.display b.display := by
      rw [(comparesAsPrinted_text b _).symm, display_text]
    have hmem : a ∈ [a, b, .text a.display] ∧ b ∈ [a, b, .text a.display] ∧
        .text a.display ∈ [a, b, .text a.display] := by simp
    obtain ⟨ha, hb, ht⟩ := hmem
    have horder := h a.display
    apply ordering_eq_of_ne_gt_iff
    · rw [← hprint]
      exact ⟨fun hab => horder _ ht _ ha _ hb hlevel.2 hab,
        fun htb => horder _ ha _ ht _ hb hlevel.1 htb⟩
    · rw [← hprint, compare_swap, compare_swap]
      exact ⟨fun hba => horder _ hb _ ha _ ht hba hlevel.1,
        fun hbt => horder _ hb _ ht _ ha hbt hlevel.2⟩

end Value

/-- Three values go in one order if they are numbers, or compare as they print, or are lists that
do so member by member. It goes no further: two values are in one order with every text exactly if
they compare as they print. -/
theorem comparing_is_transitive_within_a_sort (a b c : Value) :
    (Value.Concordant a b c → a.compare b ≠ .gt → b.compare c ≠ .gt → a.compare c ≠ .gt) ∧
    (a.ComparesAsPrinted b ↔ ∀ text, Value.InOneOrder [a, b, .text text]) :=
  ⟨fun h hab hbc => h.composes.ne_gt hab hbc, Value.comparesAsPrinted_iff⟩

/-- A text between two numbers that print in the other order. -/
theorem ten_goes_round_to_nine :
    (Value.number 10).compare (.text "5") ≠ .gt ∧ (Value.text "5").compare (.number 9) ≠ .gt ∧
      (Value.number 10).compare (.number 9) = .gt := by
  decide

/-- Lists of a number and a text each, of which the second member is not looked at unless the
first is alike. -/
theorem lists_go_in_order :
    (Value.list [.number 9, .text "b"]).compare (.list [.number 10, .number 2]) ≠ .gt ∧
    (Value.list [.number 10, .number 2]).compare (.list [.number 10, .text "a", .null]) ≠ .gt ∧
    (Value.list [.number 9, .text "b"]).compare (.list [.number 10, .text "a", .null]) ≠ .gt := by
  have hfirst : (Value.list [.number 9, .text "b"]).compare (.list [.number 10, .number 2])
      ≠ .gt := by decide
  have hsecond : (Value.list [.number 10, .number 2]).compare
      (.list [.number 10, .text "a", .null]) ≠ .gt := by decide
  refine ⟨hfirst, hsecond, ?_⟩
  refine (comparing_is_transitive_within_a_sort _ _ _).1 ?_ hfirst hsecond
  refine .lists rfl rfl rfl (.cons (.numbers rfl rfl rfl ?_ ?_ ?_) fun halike => ?_)
  · decide
  · decide
  · decide
  · exact absurd halike (by decide)

end TickScript
