-- The positions of a box. A walk through a box counts them by an index; here is what the index
-- comes to: each position of the box is met once, x counts before y and y before z, and the count
-- in 64 bits is the number of positions as far as it goes.
import Mathlib.Data.Set.Card
import TickScript.Box

namespace TickScript

/-! ## Positions between corners -/

namespace Position

/-- The position lies in the box with these opposite corners. -/
structure Within (p a b : Position) : Prop where
  x : min a.x b.x ≤ p.x ∧ p.x ≤ max a.x b.x
  y : min a.y b.y ≤ p.y ∧ p.y ≤ max a.y b.y
  z : min a.z b.z ≤ p.z ∧ p.z ≤ max a.z b.z

/-- One position comes before another one: x counts before y, and y before z. -/
def Before (p q : Position) : Prop :=
  p.x < q.x ∨ p.x = q.x ∧ (p.y < q.y ∨ p.y = q.y ∧ p.z < q.z)

theorem Before.not_before {p q : Position} (h : p.Before q) : ¬ q.Before p := by
  unfold Before at *
  omega

theorem Before.ne {p q : Position} (h : p.Before q) : p ≠ q := by
  rintro rfl
  exact h.not_before h

/-- Two corners and what becomes of them when, along some axes or none, their coordinates are
exchanged. -/
structure Exchanged (a b a' b' : Position) : Prop where
  x : a'.x = a.x ∧ b'.x = b.x ∨ a'.x = b.x ∧ b'.x = a.x
  y : a'.y = a.y ∧ b'.y = b.y ∨ a'.y = b.y ∧ b'.y = a.y
  z : a'.z = a.z ∧ b'.z = b.z ∨ a'.z = b.z ∧ b'.z = a.z

end Position

namespace Box

theorem ofCorners_of_exchanged {a b a' b' : Position} (h : a.Exchanged b a' b') :
    ofCorners a' b' = ofCorners a b := by
  obtain ⟨hx, hy, hz⟩ := h
  unfold ofCorners
  congr 1 <;> congr 1 <;> omega

/-! ## Extents -/

/-- No side of the box is empty. -/
structure Proper (b : Box) : Prop where
  x : b.low.x ≤ b.high.x
  y : b.low.y ≤ b.high.y
  z : b.low.z ≤ b.high.z

theorem proper_ofCorners (a b : Position) : (ofCorners a b).Proper := by
  constructor <;> simp only [ofCorners] <;> omega

theorem extent_eq {low high : Int} (h : low ≤ high) :
    extent low high = (high - low).natAbs + 1 := by
  unfold extent
  omega

theorem extent_pos {low high : Int} (h : low ≤ high) : 0 < extent low high := by
  rw [extent_eq h]
  exact Nat.succ_pos _

/-! ## The count in 64 bits -/

theorem capped_capped_mul (m : Nat) {n : Nat} (hn : 0 < n) :
    capped (capped m * n) = capped (m * n) := by
  unfold capped
  rcases Nat.le_total m Text.mostNat64 with hm | hm
  · rw [Nat.min_eq_left hm]
  · have hproduct : Text.mostNat64 ≤ Text.mostNat64 * n := Nat.le_mul_of_pos_right _ hn
    have hmore : Text.mostNat64 * n ≤ m * n := Nat.mul_le_mul_right n hm
    rw [Nat.min_eq_right hm, Nat.min_eq_right hproduct, Nat.min_eq_right (hproduct.trans hmore)]

/-- Capping on the way changes nothing, since no side is empty: what has once reached the cap stays
there. -/
theorem volume64_eq {b : Box} (hb : b.Proper) : b.volume64 = min b.volume Text.mostNat64 := by
  have hcapped : ∀ m {n : Nat}, 0 < n → 0 < m → capped (capped m * capped n) = capped (m * n) := by
    intro m n hn hm
    have hpos : 0 < capped n := Nat.lt_min.mpr ⟨hn, by decide⟩
    rw [capped_capped_mul m hpos, Nat.mul_comm, capped_capped_mul n hm, Nat.mul_comm]
  have hx := extent_pos hb.x
  have hy := extent_pos hb.y
  have hz := extent_pos hb.z
  have hone : (1 : Nat) = capped 1 := by decide
  unfold volume64
  simp only [List.foldl_cons, List.foldl_nil, ← extent_eq hb.x, ← extent_eq hb.y, ← extent_eq hb.z]
  rw [hone, hcapped 1 hx Nat.one_pos, Nat.one_mul, hcapped _ hy hx,
    hcapped _ hz (Nat.mul_pos hx hy)]
  rfl

/-! ## Positions by their index -/

/-- Of two numbers the smaller one has the smaller quotient, or else the smaller remainder. -/
theorem div_lt_or_mod_lt {i j : Nat} (n : Nat) (h : i < j) :
    i / n < j / n ∨ i / n = j / n ∧ i % n < j % n := by
  rcases Nat.lt_or_eq_of_le (Nat.div_le_div_right (c := n) (Nat.le_of_lt h)) with hlt | heq
  · exact Or.inl hlt
  · refine Or.inr ⟨heq, ?_⟩
    have hi := Nat.div_add_mod i n
    have hj := Nat.div_add_mod j n
    rw [heq] at hi
    omega

variable (b : Box)

theorem position_eq (i : Nat) :
    b.position i =
      ⟨b.low.x + (i / b.depth / b.height : Nat), b.low.y + (i / b.depth % b.height : Nat),
        b.low.z + (i % b.depth : Nat)⟩ := by
  unfold position
  rw [Nat.div_div_eq_div_mul, Nat.mul_comm b.depth b.height]

/-- A greater index belongs to a later position. -/
theorem position_before {i j : Nat} (h : i < j) : (b.position i).Before (b.position j) := by
  rw [position_eq, position_eq]
  unfold Position.Before
  dsimp only
  rcases div_lt_or_mod_lt b.depth h with hxy | ⟨hxy, hz⟩
  · rcases div_lt_or_mod_lt b.height hxy with hx | ⟨hx, hy⟩ <;> omega
  · rw [hxy]
    omega

/-- The positions of a box in the order in which they are met. -/
def positions : List Position := (List.range b.volume).map b.position

theorem length_positions : b.positions.length = b.volume := by
  simp [positions]

theorem pairwise_positions : b.positions.Pairwise Position.Before := by
  unfold positions
  rw [List.pairwise_map]
  exact List.pairwise_lt_range.imp fun h => b.position_before h

theorem nodup_positions : b.positions.Nodup := b.pairwise_positions.imp Position.Before.ne

variable {b}

/-- The index of a position counts the positions before it. -/
theorem position_index {x y z : Nat} (hy : y < b.height) (hz : z < b.depth) :
    b.position ((x * b.height + y) * b.depth + z) =
      ⟨b.low.x + x, b.low.y + y, b.low.z + z⟩ := by
  have hdepth : ((x * b.height + y) * b.depth + z) / b.depth = x * b.height + y := by
    rw [Nat.mul_comm, Nat.mul_add_div (by omega), Nat.div_eq_of_lt hz, Nat.add_zero]
  have hheight : (x * b.height + y) / b.height = x := by
    rw [Nat.mul_comm, Nat.mul_add_div (by omega), Nat.div_eq_of_lt hy, Nat.add_zero]
  rw [position_eq, hdepth, hheight, Nat.mul_comm x, Nat.mul_add_mod, Nat.mod_eq_of_lt hy,
    Nat.mul_comm _ b.depth, Nat.mul_add_mod, Nat.mod_eq_of_lt hz]

theorem index_lt {x y z : Nat} (hx : x < b.width) (hy : y < b.height) (hz : z < b.depth) :
    (x * b.height + y) * b.depth + z < b.volume := by
  have hrow : x * b.height + y < b.width * b.height := by
    calc x * b.height + y < x * b.height + b.height := Nat.add_lt_add_left hy _
      _ = (x + 1) * b.height := (Nat.succ_mul x b.height).symm
      _ ≤ b.width * b.height := Nat.mul_le_mul_right _ hx
  calc (x * b.height + y) * b.depth + z < (x * b.height + y) * b.depth + b.depth :=
        Nat.add_lt_add_left hz _
    _ = (x * b.height + y + 1) * b.depth := (Nat.succ_mul _ _).symm
    _ ≤ b.volume := Nat.mul_le_mul_right _ hrow

/-- What is met are the positions of the box. -/
theorem mem_positions_iff {p : Position} :
    p ∈ b.positions ↔ (b.low.x ≤ p.x ∧ p.x ≤ b.high.x) ∧ (b.low.y ≤ p.y ∧ p.y ≤ b.high.y) ∧
      (b.low.z ≤ p.z ∧ p.z ≤ b.high.z) := by
  have hwidth : b.width = (b.high.x - b.low.x + 1).toNat := rfl
  have hheight : b.height = (b.high.y - b.low.y + 1).toNat := rfl
  have hdepth : b.depth = (b.high.z - b.low.z + 1).toNat := rfl
  unfold positions
  rw [List.mem_map]
  constructor
  · rintro ⟨i, hi, rfl⟩
    rw [List.mem_range] at hi
    have hvolume : 0 < b.width * b.height * b.depth := Nat.zero_lt_of_lt hi
    have hdepth0 : 0 < b.depth := Nat.pos_of_mul_pos_left hvolume
    have hheight0 : 0 < b.height := Nat.pos_of_mul_pos_left (Nat.pos_of_mul_pos_right hvolume)
    have hx : i / b.depth / b.height < b.width := by
      rw [Nat.div_lt_iff_lt_mul hheight0, Nat.div_lt_iff_lt_mul hdepth0]
      exact hi
    have hy : i / b.depth % b.height < b.height := Nat.mod_lt _ hheight0
    have hz : i % b.depth < b.depth := Nat.mod_lt _ hdepth0
    rw [position_eq]
    generalize i / b.depth / b.height = x at hx
    generalize i / b.depth % b.height = y at hy
    generalize i % b.depth = z at hz
    dsimp only
    omega
  · rintro ⟨hx, hy, hz⟩
    have hx' : (p.x - b.low.x).toNat < b.width := by omega
    have hy' : (p.y - b.low.y).toNat < b.height := by omega
    have hz' : (p.z - b.low.z).toNat < b.depth := by omega
    refine ⟨_, List.mem_range.mpr (index_lt hx' hy' hz'), ?_⟩
    rw [position_index hy' hz']
    congr 1 <;> omega

theorem mem_positions_ofCorners {a b p : Position} :
    p ∈ (ofCorners a b).positions ↔ p.Within a b := by
  rw [mem_positions_iff]
  exact ⟨fun ⟨hx, hy, hz⟩ => ⟨hx, hy, hz⟩, fun h => ⟨h.x, h.y, h.z⟩⟩

/-- As many positions between the corners satisfy a condition as are met that do. -/
theorem ncard_within_and (a b : Position) (holds : Position → Bool) :
    Set.ncard {p : Position | p.Within a b ∧ holds p = true} =
      (ofCorners a b).positions.countP holds := by
  have hset : {p : Position | p.Within a b ∧ holds p = true} =
      (((ofCorners a b).positions.filter holds).toFinset : Set Position) := by
    ext p
    rw [Set.mem_ofPred_eq, List.coe_toFinset, Set.mem_ofPred_eq, List.mem_filter,
      mem_positions_ofCorners]
  rw [hset, Set.ncard_coe_finset,
    List.toFinset_card_of_nodup ((nodup_positions _).filter holds), List.countP_eq_length_filter]

/-- The volume is the number of positions between the corners. -/
theorem ncard_within (a b : Position) :
    Set.ncard {p : Position | p.Within a b} = (ofCorners a b).volume := by
  have hall := ncard_within_and a b fun _ => true
  simp only [and_true] at hall
  rw [hall, List.countP_true, length_positions]

/-- The count in 64 bits exceeds a number below the largest one just when the box has more
positions than that. -/
theorem lt_volume64_iff {a b : Position} {limit : Nat} (hlimit : limit < Text.mostNat64) :
    limit < (ofCorners a b).volume64 ↔ limit < Set.ncard {p : Position | p.Within a b} := by
  rw [volume64_eq (proper_ofCorners a b), ncard_within, Nat.lt_min]
  exact and_iff_left hlimit

end Box

end TickScript
