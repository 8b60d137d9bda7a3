-- Equality and order go together. Equality is that of scalars, carried over to lists member by
-- member, and so is order, so both are one recursion over pairs of values. The names that values
-- carry have no part in either, nor in what is printed, taken for true or calculated.
import TickScript.Library.Operators
import TickScript.Proofs.Comparing

namespace TickScript

variable {x y : Scalar} {v a b : Value} {items : List Value}

namespace Value

/-! ## Pairs of values -/

/-- What is to be shown of a property of pairs of values, and of the same property of lists of
values: it holds if not both values are lists, it goes over from members to lists, and where one
list has come to its end it holds. -/
structure PairCases (P : Value → Value → Prop) (Q : List Value → List Value → Prop) : Prop where
  others : ∀ a b, a.list? = none ∨ b.list? = none → P a b
  lists : ∀ a b xs ys, a.list? = some xs → b.list? = some ys → Q xs ys → P a b
  nilLeft : ∀ ys, Q [] ys
  nilRight : ∀ xs, Q xs []
  cons : ∀ x y xs ys, P x y → Q xs ys → Q (x :: xs) (y :: ys)

section Pairs

variable {P : Value → Value → Prop} {Q : List Value → List Value → Prop}

mutual

theorem PairCases.pair (h : PairCases P Q) : ∀ a b : Value, P a b
  | ⟨n, .list xs⟩, ⟨m, .list ys⟩ =>
    h.lists ⟨n, .list xs⟩ ⟨m, .list ys⟩ xs ys rfl rfl (h.pairAll xs ys)
  | ⟨_, .list _⟩, ⟨_, .null⟩ | ⟨_, .list _⟩, ⟨_, .number _⟩ | ⟨_, .list _⟩, ⟨_, .text _⟩
  | ⟨_, .list _⟩, ⟨_, .iterator ..⟩ | ⟨_, .list _⟩, ⟨_, .host ..⟩ => h.others _ _ (.inr rfl)
  | ⟨_, .null⟩, _ | ⟨_, .number _⟩, _ | ⟨_, .text _⟩, _ | ⟨_, .iterator ..⟩, _
  | ⟨_, .host ..⟩, _ => h.others _ _ (.inl rfl)

theorem PairCases.pairAll (h : PairCases P Q) : ∀ xs ys : List Value, Q xs ys
  | [], ys => h.nilLeft ys
  | x :: xs, [] => h.nilRight (x :: xs)
  | x :: xs, y :: ys => h.cons x y xs ys (h.pair x y) (h.pairAll xs ys)

end

end Pairs

/-! ## Scalars -/

/-- What equality looks at in a value that is no list. -/
inductive Scalar where
  | number (x : Float)
  | text (s : String)
  | iterator (id : Nat)
  | host (id : Nat)

namespace Scalar

def equals : Scalar → Scalar → Bool
  | .number x, .number y => x == y
  | .text s, .text t => s = t
  | .iterator i, .iterator j => i = j
  | .host i, .host j => i = j
  | _, _ => false

/-- Scalars that are equal are numbers or the same. -/
theorem equals_cases (h : x.equals y = true) :
    (∃ u v, x = .number u ∧ y = .number v ∧ (u == v) = true) ∨ x = y ∧ ∀ u, x ≠ .number u := by
  cases x <;> cases y <;> simp_all [equals]

theorem equals_comm (x y : Scalar) : x.equals y = y.equals x := by
  cases x <;> cases y <;> simp only [equals, BEq.comm, eq_comm]

theorem equals_trans {z : Scalar} (hxy : x.equals y = true) (hyz : y.equals z = true) :
    x.equals z = true := by
  cases x <;> cases y <;> cases z <;> simp_all only [equals, decide_eq_true_eq, Bool.false_eq_true]
  exact BEq.trans hxy hyz

end Scalar

/-- The value as a scalar, null counting as zero. -/
def scalar? : Value → Option Scalar
  | ⟨_, .null⟩ => some (.number 0)
  | ⟨_, .number x⟩ => some (.number x)
  | ⟨_, .text s⟩ => some (.text s)
  | ⟨_, .list _⟩ => none
  | ⟨_, .iterator id _ _⟩ => some (.iterator id)
  | ⟨_, .host id _⟩ => some (.host id)

theorem list?_eq_none (h : v.scalar? = some x) : v.list? = none := by
  obtain ⟨_, datum⟩ := v
  cases datum with
  | list => cases h
  | _ => rfl

theorem scalar?_eq_none_iff : v.scalar? = none ↔ ∃ items, v.list? = some items := by
  obtain ⟨_, datum⟩ := v
  cases datum <;> simp [scalar?, list?]

/-! ## Equality -/

theorem equals_of_lists {xs ys : List Value} (ha : a.list? = some xs) (hb : b.list? = some ys) :
    a.equals b = equalsAll xs ys := by
  obtain ⟨_, datum⟩ := a
  obtain ⟨_, datum'⟩ := b
  cases datum <;> cases ha
  cases datum' <;> cases hb
  rw [equals]

/-- A list equals no scalar, and scalars are equal as such. -/
theorem equals_eq_any (h : a.list? = none ∨ b.list? = none) :
    a.equals b = a.scalar?.any fun x => b.scalar?.any x.equals := by
  obtain ⟨_, datum⟩ := a
  obtain ⟨_, datum'⟩ := b
  cases datum with
  | list =>
    cases datum' with
    | list => rcases h with h | h <;> cases h
    | _ => rfl
  | _ => cases datum' <;> rfl

theorem equals_iff_scalars (h : a.list? = none ∨ b.list? = none) :
    a.equals b = true ↔ ∃ x y, a.scalar? = some x ∧ b.scalar? = some y ∧ x.equals y = true := by
  simp only [equals_eq_any h, Option.any_eq_true, exists_and_left]

theorem equalsAll_cons (x y : Value) (xs ys : List Value) :
    equalsAll (x :: xs) (y :: ys) = true ↔ x.equals y = true ∧ equalsAll xs ys = true := by
  rw [equalsAll, Bool.and_eq_true]

theorem equals_comm_cases : PairCases (fun a b => a.equals b = b.equals a)
    (fun xs ys => equalsAll xs ys = equalsAll ys xs) where
  others a b h := by
    rw [Bool.eq_iff_iff, equals_iff_scalars h, equals_iff_scalars h.symm]
    constructor
    · rintro ⟨x, y, ha, hb, hxy⟩
      exact ⟨y, x, hb, ha, y.equals_comm x ▸ hxy⟩
    · rintro ⟨y, x, hb, ha, hyx⟩
      exact ⟨x, y, ha, hb, x.equals_comm y ▸ hyx⟩
  lists a b xs ys ha hb h := by
    rw [equals_of_lists ha hb, equals_of_lists hb ha, h]
  nilLeft ys := by cases ys <;> simp only [equalsAll]
  nilRight xs := by cases xs <;> simp only [equalsAll]
  cons x y xs ys hx hxs := by
    rw [equalsAll, equalsAll, hx, hxs]

theorem equals_comm (a b : Value) : a.equals b = b.equals a := equals_comm_cases.pair a b

/-- Where a list equals another value, the other one is a list too. -/
theorem exists_list?_of_equals {xs : List Value} (ha : a.list? = some xs) (h : a.equals b = true) :
    ∃ ys, b.list? = some ys := by
  rcases hb : b.list? with _ | ys
  · obtain ⟨x, _, hx, -⟩ := (equals_iff_scalars (.inr hb)).mp h
    rw [scalar?_eq_none_iff.mpr ⟨xs, ha⟩] at hx
    cases hx
  · exact ⟨ys, rfl⟩

theorem equals_trans_cases :
    PairCases (fun a b => ∀ c, a.equals b = true → b.equals c = true → a.equals c = true)
      (fun xs ys => ∀ zs, equalsAll xs ys = true → equalsAll ys zs = true →
        equalsAll xs zs = true) where
  others a b h c hab hbc := by
    obtain ⟨x, y, hx, hy, hxy⟩ := (equals_iff_scalars h).mp hab
    obtain ⟨y', z, hy', hz, hyz⟩ := (equals_iff_scalars (.inl (list?_eq_none hy))).mp hbc
    cases hy.symm.trans hy'
    exact (equals_iff_scalars (.inl (list?_eq_none hx))).mpr
      ⟨x, z, hx, hz, Scalar.equals_trans hxy hyz⟩
  lists a b xs ys ha hb h c hab hbc := by
    obtain ⟨zs, hc⟩ := exists_list?_of_equals hb hbc
    rw [equals_of_lists ha hb] at hab
    rw [equals_of_lists hb hc] at hbc
    rw [equals_of_lists ha hc]
    exact h zs hab hbc
  nilLeft ys zs hxy hyz := by
    cases ys with
    | nil => exact hyz
    | cons => simp [equalsAll] at hxy
  nilRight xs zs hxy hyz := by
    cases xs with
    | nil => exact hyz
    | cons => simp [equalsAll] at hxy
  cons x y xs ys hx hxs zs hxy hyz := by
    cases zs with
    | nil => simp [equalsAll] at hyz
    | cons z zs =>
      rw [equalsAll_cons] at *
      exact ⟨hx z hxy.1 hyz.1, hxs zs hxy.2 hyz.2⟩

/-! ## Things of the host -/

mutual

/-- The things of the host that the value is or has among its members, at any depth, with their
identities. -/
def things : Value → List (Nat × HostObject)
  | ⟨_, .host id object⟩ => [(id, object)]
  | ⟨_, .list items⟩ => thingsOfAll items
  | _ => []

def thingsOfAll : List Value → List (Nat × HostObject)
  | [] => []
  | v :: rest => v.things ++ thingsOfAll rest

end

/-- What has the same identity is the same thing, wherever it is met. -/
def OneThingEach (things others : List (Nat × HostObject)) : Prop :=
  ∀ thing ∈ things, ∀ other ∈ others, thing.1 = other.1 → thing.2 = other.2

instance (things others : List (Nat × HostObject)) : Decidable (OneThingEach things others) :=
  inferInstanceAs (Decidable (∀ thing ∈ things, ∀ other ∈ others, _))

/-! ## Equal values are level -/

theorem compareNumbers_self (x : Float) : compareNumbers x x = .eq := by
  have hswap := compareNumbers_swap x x
  cases h : compareNumbers x x with
  | eq => rfl
  | lt | gt => simp [h] at hswap

theorem compareNumbers_of_beq {x y : Float} (h : (x == y) = true) : compareNumbers x y = .eq := by
  obtain ⟨-, -, rfl | ⟨rfl, rfl⟩ | ⟨rfl, rfl⟩⟩ := Float.beq_iff_ne_nan_and_eq.mp h
  · exact compareNumbers_self x
  · decide
  · decide

/-- What prints alike is level, unless it is a number or a list. -/
theorem compare_of_display (hnumber : a.number? = none) (hlist : a.list? = none)
    (h : a.display = b.display) : a.compare b = .eq := by
  rw [comparesAsPrinted (.inl hnumber) (.inl hlist), h]
  exact Std.ReflOrd.compare_self

theorem number?_eq_some_iff {x : Float} : v.number? = some x ↔ v.scalar? = some (.number x) := by
  obtain ⟨_, datum⟩ := v
  cases datum <;> simp [number?, scalar?]

theorem display_of_scalar? (ha : a.scalar? = some x) (hb : b.scalar? = some x)
    (hx : ∀ u, x ≠ .number u) (hthings : OneThingEach a.things b.things) :
    a.display = b.display := by
  obtain ⟨_, datum⟩ := a
  obtain ⟨_, datum'⟩ := b
  cases datum with
  | null => cases ha; exact absurd rfl (hx _)
  | number => cases ha; exact absurd rfl (hx _)
  | list => cases ha
  | text => cases ha; cases datum' <;> cases hb; rfl
  | iterator => cases ha; cases datum' <;> cases hb; rfl
  | host id object =>
    cases ha
    cases datum' <;> cases hb
    rename_i other
    have hsame : object = other :=
      hthings (id, object) (by simp [things]) (id, other) (by simp [things]) rfl
    rw [hsame, display, display]

theorem compare_of_scalars (ha : a.scalar? = some x) (hb : b.scalar? = some y)
    (hxy : x.equals y = true) (hthings : OneThingEach a.things b.things) : a.compare b = .eq := by
  rcases Scalar.equals_cases hxy with ⟨u, v, rfl, rfl, huv⟩ | ⟨rfl, hx⟩
  · rw [compare_of_numbers (number?_eq_some_iff.mpr ha) (number?_eq_some_iff.mpr hb)]
    exact compareNumbers_of_beq huv
  · have hnumber : a.number? = none := by
      rw [Option.eq_none_iff_forall_ne_some]
      intro u hu
      cases ha.symm.trans (number?_eq_some_iff.mp hu)
      exact hx u rfl
    exact compare_of_display hnumber (list?_eq_none ha) (display_of_scalar? ha hb hx hthings)

theorem things_of_list? (h : v.list? = some items) : v.things = thingsOfAll items := by
  obtain ⟨_, datum⟩ := v
  cases datum <;> cases h
  rw [things]

theorem compare_of_equals_cases :
    PairCases
      (fun a b => OneThingEach a.things b.things → a.equals b = true → a.compare b = .eq)
      (fun xs ys => OneThingEach (thingsOfAll xs) (thingsOfAll ys) → equalsAll xs ys = true →
        compareAll xs ys = .eq) where
  others a b h hthings hab := by
    obtain ⟨x, y, hx, hy, hxy⟩ := (equals_iff_scalars h).mp hab
    exact compare_of_scalars hx hy hxy hthings
  lists a b xs ys ha hb h hthings hab := by
    rw [things_of_list? ha, things_of_list? hb] at hthings
    rw [equals_of_lists ha hb] at hab
    rw [compare_of_lists ha hb]
    exact h hthings hab
  nilLeft ys _ h := by
    cases ys with
    | nil => rw [compareAll]
    | cons => simp [equalsAll] at h
  nilRight xs _ h := by
    cases xs with
    | nil => rw [compareAll]
    | cons => simp [equalsAll] at h
  cons x y xs ys hx hxs hthings h := by
    rw [equalsAll_cons] at h
    have hfirst : OneThingEach x.things y.things := fun thing ht other ho =>
      hthings thing (by simp [thingsOfAll, ht]) other (by simp [thingsOfAll, ho])
    have hrest : OneThingEach (thingsOfAll xs) (thingsOfAll ys) := fun thing ht other ho =>
      hthings thing (by simp [thingsOfAll, ht]) other (by simp [thingsOfAll, ho])
    rw [compareAll_cons, hx hfirst h.1, hxs hrest h.2]
    rfl

/-! ## Names -/

mutual

/-- The value without names, its own and those of what it holds at any depth. -/
def nameless : Value → Value
  | ⟨_, .list items⟩ => .list (namelessAll items)
  | ⟨_, .iterator id once (.items items)⟩ =>
    ⟨none, .iterator id once (.items (namelessAll items))⟩
  | v => v.unbound

def namelessAll : List Value → List Value
  | [] => []
  | v :: rest => v.nameless :: namelessAll rest

end

theorem list?_nameless (v : Value) : v.nameless.list? = v.list?.map namelessAll := by
  obtain ⟨_, datum⟩ := v
  cases datum with
  | iterator _ _ walk => cases walk <;> rfl
  | _ => rfl

theorem list?_nameless_of_some (h : v.list? = some items) :
    v.nameless.list? = some (namelessAll items) := by
  rw [list?_nameless, h]
  rfl

theorem list?_nameless_of_none (h : v.list? = none) : v.nameless.list? = none := by
  rw [list?_nameless, h]
  rfl

theorem length_namelessAll (items : List Value) : (namelessAll items).length = items.length := by
  induction items with
  | nil => rfl
  | cons v rest ih => rw [namelessAll, List.length_cons, ih, List.length_cons]

theorem nameless_unbound (v : Value) : v.unbound.nameless = v.nameless := by
  obtain ⟨_, datum⟩ := v
  cases datum with
  | iterator _ _ walk => cases walk <;> rfl
  | _ => rfl

/-- What can be seen of a value from outside is the same of both. -/
structure LooksLike (a b : Value) : Prop where
  number? : a.number? = b.number?
  scalar? : a.scalar? = b.scalar?
  isText : a.isText = b.isText
  typeName : a.typeName = b.typeName
  truth : a.truth = b.truth

theorem looksLike_nameless (v : Value) : v.nameless.LooksLike v := by
  obtain ⟨_, datum⟩ := v
  cases datum with
  | iterator _ _ walk => cases walk <;> exact ⟨rfl, rfl, rfl, rfl, rfl⟩
  | list items => cases items <;> exact ⟨rfl, rfl, rfl, rfl, rfl⟩
  | _ => exact ⟨rfl, rfl, rfl, rfl, rfl⟩

mutual

theorem display_nameless : ∀ v : Value, v.nameless.display = v.display
  | ⟨_, .list items⟩ => by
    rw [nameless, Value.list, display, display, displayAll_nameless items]
  | ⟨_, .iterator _ _ (.items _)⟩ => by
    rw [nameless, display, display]
  | ⟨_, .null⟩ | ⟨_, .number _⟩ | ⟨_, .text _⟩ | ⟨_, .host ..⟩
  | ⟨_, .iterator _ _ (.range ..)⟩ => by
    simp only [nameless, unbound, datum, display]

theorem displayAll_nameless : ∀ items : List Value,
    displayAll (namelessAll items) = displayAll items
  | [] => rfl
  | v :: rest => by
    rw [namelessAll, displayAll, displayAll, display_nameless v, displayAll_nameless rest]

end

theorem toNumber_nameless (v : Value) (what : String) :
    v.nameless.toNumber what = v.toNumber what := by
  simp only [toNumber, (looksLike_nameless v).number?, (looksLike_nameless v).typeName,
    display_nameless]

theorem compare_nameless_cases :
    PairCases (fun a b => a.nameless.compare b.nameless = a.compare b)
      (fun xs ys => compareAll (namelessAll xs) (namelessAll ys) = compareAll xs ys) where
  others a b h := by
    have ha := (looksLike_nameless a).number?
    have hb := (looksLike_nameless b).number?
    by_cases hnumber : a.number? = none ∨ b.number? = none
    · have hprinted := comparesAsPrinted hnumber h
      rw [← ha, ← hb] at hnumber
      rw [comparesAsPrinted hnumber (h.imp list?_nameless_of_none list?_nameless_of_none), hprinted,
        display_nameless, display_nameless]
    · simp only [not_or, Option.ne_none_iff_exists'] at hnumber
      obtain ⟨⟨x, hx⟩, y, hy⟩ := hnumber
      rw [compare_of_numbers hx hy, compare_of_numbers (ha.trans hx) (hb.trans hy)]
  lists a b xs ys ha hb h := by
    rw [compare_of_lists ha hb, h.symm]
    exact compare_of_lists (list?_nameless_of_some ha) (list?_nameless_of_some hb)
  nilLeft ys := by cases ys <;> simp only [namelessAll, compareAll]
  nilRight xs := by cases xs <;> simp only [namelessAll, compareAll]
  cons x y xs ys hx hxs := by
    rw [namelessAll, namelessAll, compareAll_cons, compareAll_cons, hx, hxs]

theorem equals_nameless_cases :
    PairCases (fun a b => a.nameless.equals b.nameless = a.equals b)
      (fun xs ys => equalsAll (namelessAll xs) (namelessAll ys) = equalsAll xs ys) where
  others a b h := by
    rw [Bool.eq_iff_iff, equals_iff_scalars h,
      equals_iff_scalars (h.imp list?_nameless_of_none list?_nameless_of_none),
      (looksLike_nameless a).scalar?, (looksLike_nameless b).scalar?]
  lists a b xs ys ha hb h := by
    rw [equals_of_lists ha hb, h.symm]
    exact equals_of_lists (list?_nameless_of_some ha) (list?_nameless_of_some hb)
  nilLeft ys := by cases ys <;> simp only [namelessAll, equalsAll]
  nilRight xs := by cases xs <;> simp only [namelessAll, equalsAll]
  cons x y xs ys hx hxs := by
    rw [namelessAll, namelessAll, equalsAll, equalsAll, hx, hxs]

end Value

/-! ## Calculations -/

namespace Arithmetic

/-- The operator takes no notice of names where none of its operands is a list. -/
def IgnoresNames (op : Arithmetic) : Prop :=
  ∀ a b : Value, op.scalar a.nameless b.nameless = op.scalar a b

theorem ignoresNames_onNumbers (spelling : String) (f : Float → Float → Except Cause Value)
    (joinsTexts : Bool) : (onNumbers spelling f joinsTexts).IgnoresNames := by
  intro a b
  simp only [onNumbers, Value.toNumber_nameless]

/-- The arithmetic operators between two operands. -/
def all : List Arithmetic := [add, subtract, multiply, divide, modulo, power]

theorem ignoresNames_of_mem_all {op : Arithmetic} (h : op ∈ all) : op.IgnoresNames := by
  simp only [all, List.mem_cons, List.not_mem_nil, or_false] at h
  rcases h with rfl | rfl | rfl | rfl | rfl | rfl <;> exact ignoresNames_onNumbers _ _ _

theorem joins_nameless (op : Arithmetic) (a b : Value) :
    op.joins a.nameless b.nameless = op.joins a b := by
  rw [joins, joins, (Value.looksLike_nameless a).isText, (Value.looksLike_nameless b).isText]

theorem join_nameless (a b : Value) : join a.nameless b.nameless = join a b := by
  rw [join, join, Value.display_nameless, Value.display_nameless]

section Apply

variable {op : Arithmetic}

theorem applyRight_of_list? (h : b.list? = none) (a : Value) :
    op.applyRight a b = if op.joins a b then .ok (join a b) else op.scalar a b := by
  obtain ⟨_, datum⟩ := b
  cases datum with
  | list => cases h
  | _ => simp only [applyRight]

theorem apply_of_list? (h : a.list? = none) (b : Value) : op.apply a b = op.applyRight a b := by
  obtain ⟨_, datum⟩ := a
  cases datum with
  | list => cases h
  | _ => simp only [apply]

theorem applyRight_nameless_of_list? (hop : op.IgnoresNames) (h : b.list? = none) (a : Value) :
    op.applyRight a.nameless b.nameless = op.applyRight a b := by
  rw [applyRight_of_list? h, applyRight_of_list? (Value.list?_nameless_of_none h),
    joins_nameless, join_nameless, hop]

mutual

theorem applyRight_nameless (hop : op.IgnoresNames) (a : Value) :
    ∀ b : Value, op.applyRight a.nameless b.nameless = op.applyRight a b
  | ⟨n, .list items⟩ => by
    have hjoins := op.joins_nameless a ⟨n, .list items⟩
    have hjoin := join_nameless a ⟨n, .list items⟩
    rw [Value.nameless, Value.list] at *
    rw [applyRight, applyRight, hjoins, hjoin, applyEachRight_nameless hop a items]
  | ⟨_, .null⟩ | ⟨_, .number _⟩ | ⟨_, .text _⟩ | ⟨_, .iterator ..⟩ | ⟨_, .host ..⟩ =>
    applyRight_nameless_of_list? hop rfl a

theorem applyEachRight_nameless (hop : op.IgnoresNames) (a : Value) : ∀ items : List Value,
    op.applyEachRight a.nameless (Value.namelessAll items) = op.applyEachRight a items
  | [] => by rw [Value.namelessAll, applyEachRight, applyEachRight]
  | b :: rest => by
    rw [Value.namelessAll, applyEachRight, applyEachRight, applyRight_nameless hop a b,
      applyEachRight_nameless hop a rest]

end

theorem apply_nameless_of_list? (hop : op.IgnoresNames) (h : a.list? = none) (b : Value) :
    op.apply a.nameless b.nameless = op.apply a b := by
  rw [apply_of_list? h, apply_of_list? (Value.list?_nameless_of_none h), applyRight_nameless hop]

mutual

theorem apply_nameless (hop : op.IgnoresNames) :
    ∀ a b : Value, op.apply a.nameless b.nameless = op.apply a b
  | ⟨n, .list items⟩, b => by
    have hjoins := op.joins_nameless ⟨n, .list items⟩ b
    have hjoin := join_nameless ⟨n, .list items⟩ b
    rw [Value.nameless, Value.list] at *
    rw [apply, apply, hjoins, hjoin, Value.list?_nameless]
    cases b.list? with
    | none => simp only [Option.map_none, applyEach_nameless hop items b]
    | some others =>
      simp only [Option.map_some, Value.length_namelessAll, applyPairs_nameless hop items others]
  | ⟨_, .null⟩, b | ⟨_, .number _⟩, b | ⟨_, .text _⟩, b | ⟨_, .iterator ..⟩, b
  | ⟨_, .host ..⟩, b => apply_nameless_of_list? hop rfl b

theorem applyEach_nameless (hop : op.IgnoresNames) : ∀ (items : List Value) (b : Value),
    op.applyEach (Value.namelessAll items) b.nameless = op.applyEach items b
  | [], b => by rw [Value.namelessAll, applyEach, applyEach]
  | a :: rest, b => by
    rw [Value.namelessAll, applyEach, applyEach, apply_nameless hop a b,
      applyEach_nameless hop rest b]

theorem applyPairs_nameless (hop : op.IgnoresNames) : ∀ items others : List Value,
    op.applyPairs (Value.namelessAll items) (Value.namelessAll others) =
      op.applyPairs items others
  | [], others => by simp only [Value.namelessAll, applyPairs]
  | a :: rest, [] => by simp only [Value.namelessAll, applyPairs]
  | a :: rest, b :: others => by
    rw [Value.namelessAll, Value.namelessAll, applyPairs, applyPairs, apply_nameless hop a b,
      applyPairs_nameless hop rest others]

end

end Apply

end Arithmetic

namespace Value

theorem negate_of_list? (h : v.list? = none) :
    v.negate = (v.toNumber "-").map fun x => .number (-x) := by
  obtain ⟨_, datum⟩ := v
  cases datum with
  | list => cases h
  | _ => simp only [negate]

theorem negate_nameless_of_list? (h : v.list? = none) : v.nameless.negate = v.negate := by
  rw [negate_of_list? h, negate_of_list? (list?_nameless_of_none h), toNumber_nameless]

mutual

theorem negate_nameless : ∀ v : Value, v.nameless.negate = v.negate
  | ⟨_, .list items⟩ => by
    rw [nameless, Value.list, negate, negate, negateAll_nameless items]
  | ⟨_, .null⟩ | ⟨_, .number _⟩ | ⟨_, .text _⟩ | ⟨_, .iterator ..⟩ | ⟨_, .host ..⟩ =>
    negate_nameless_of_list? rfl

theorem negateAll_nameless : ∀ items : List Value,
    negateAll (namelessAll items) = negateAll items
  | [] => rfl
  | v :: rest => by
    rw [namelessAll, negateAll, negateAll, negate_nameless v, negateAll_nameless rest]

end

/-- A plus sign hands a list on, with the names that its members have. -/
theorem plus_of_list? (h : v.list? = some items) (kind : Kind) :
    Library.plus kind (.of v) = pure v.unbound := by
  obtain ⟨_, datum⟩ := v
  cases datum <;> cases h
  rfl

theorem plus_of_not_list? (h : v.list? = none) (kind : Kind) :
    Library.plus kind (.of v) = Run.ofExcept ((v.toNumber "+").map .number) := by
  obtain ⟨_, datum⟩ := v
  cases datum with
  | list => cases h
  | _ => rfl

theorem plus_of_nameless (h : a.nameless = b.nameless) (kind : Kind) :
    nameless <$> Library.plus kind (.of a) = nameless <$> Library.plus kind (.of b) := by
  have hlists : a.list?.map namelessAll = b.list?.map namelessAll := by
    rw [← list?_nameless, h, list?_nameless]
  rcases ha : a.list? with _ | xs <;> rcases hb : b.list? with _ | ys
  · rw [plus_of_not_list? ha, plus_of_not_list? hb, ← toNumber_nameless, h, toNumber_nameless]
  · simp [ha, hb] at hlists
  · simp [ha, hb] at hlists
  · rw [plus_of_list? ha, plus_of_list? hb, map_pure, map_pure, nameless_unbound, nameless_unbound,
      h]

theorem truth_of_nameless (h : a.nameless = b.nameless) : a.truth = b.truth := by
  rw [← (looksLike_nameless a).truth, h, (looksLike_nameless b).truth]

theorem display_of_nameless (h : a.nameless = b.nameless) : a.display = b.display := by
  rw [← display_nameless a, h, display_nameless b]

end Value

/-- Order is turned round with its operands, and equality is not. Equal values are level, if what
has one identity is one thing of the host, and equality is transitive. Values that are the same but
for names, their own or those of what they hold at any depth, compare alike and are equal to the
same, are both true or both false, print alike and give the same where they are calculated with; a
plus sign alone hands on the names that there are. -/
theorem equality_and_order_cohere (a b : Value) :
    b.compare a = (a.compare b).swap ∧
    a.equals b = b.equals a ∧
    (Value.OneThingEach a.things b.things → a.equals b = true → a.compare b = .eq) ∧
    (∀ c, a.equals b = true → b.equals c = true → a.equals c = true) ∧
    ∀ a' b' : Value, a'.nameless = a.nameless → b'.nameless = b.nameless →
      a'.compare b' = a.compare b ∧
      a'.equals b' = a.equals b ∧
      a'.truth = a.truth ∧
      a'.display = a.display ∧
      (∀ op ∈ Arithmetic.all, op.apply a' b' = op.apply a b) ∧
      a'.negate = a.negate ∧
      ∀ kind, Value.nameless <$> Library.plus kind (.of a') =
        Value.nameless <$> Library.plus kind (.of a) := by
  refine ⟨(Value.compare_swap a b).symm, Value.equals_comm a b,
    Value.compare_of_equals_cases.pair a b, Value.equals_trans_cases.pair a b, ?_⟩
  intro a' b' ha hb
  have hcompare := Value.compare_nameless_cases.pair
  have hequals := Value.equals_nameless_cases.pair
  refine ⟨?_, ?_, Value.truth_of_nameless ha, Value.display_of_nameless ha, ?_, ?_,
    Value.plus_of_nameless ha⟩
  · rw [← hcompare a' b', ha, hb, hcompare]
  · rw [← hequals a' b', ha, hb, hequals]
  · intro op hop
    have hnames := Arithmetic.ignoresNames_of_mem_all hop
    rw [← Arithmetic.apply_nameless hnames a' b', ha, hb, Arithmetic.apply_nameless hnames]
  · rw [← Value.negate_nameless a', ha, Value.negate_nameless]

namespace Renamed

def stone : HostObject := ⟨"thing", "stone", true⟩

/-- A stone that is called `p`, a null that is called `n`, and a text. -/
def value : Value := .list [⟨some "p", .host 7 stone⟩, ⟨some "n", .null⟩, .text "x"]

/-- The same stone, a zero, and the text under another name. -/
def other : Value := .list [⟨none, .host 7 stone⟩, .number 0, ⟨some "s", .text "x"⟩]

/-- The value under other names. -/
def renamed : Value :=
  ⟨some "v", .list [⟨some "q", .host 7 stone⟩, .null, ⟨some "n", .text "x"⟩]⟩

end Renamed

open Renamed in
theorem a_list_is_level_under_other_names :
    Value.OneThingEach value.things other.things ∧
    value.equals other = true ∧
    value.compare other = .eq ∧
    other.equals renamed = true ∧
    value.equals renamed = true ∧
    renamed.nameless = value.nameless ∧
    renamed.compare other = .eq ∧
    Arithmetic.add.apply renamed (.text "!") = .ok (.text "[stone, null, x]!") := by
  have hthings : Value.OneThingEach value.things other.things := by decide
  have hequal : value.equals other = true := by decide
  have hagain : other.equals renamed = true := by decide
  obtain ⟨-, -, hlevel, htrans, hnames⟩ := equality_and_order_cohere value other
  have hsame : renamed.nameless = value.nameless := rfl
  have hlevel := hlevel hthings hequal
  refine ⟨hthings, hequal, hlevel, hagain, htrans renamed hequal hagain, hsame, ?_, ?_⟩
  · rw [← hlevel]
    exact (hnames renamed other hsame rfl).1
  · have hadd := (equality_and_order_cohere value (.text "!")).2.2.2.2 renamed (.text "!") hsame rfl
    rw [hadd.2.2.2.2.1 .add (List.mem_cons_self ..)]
    rfl

end TickScript
