-- Elements by index, and parts between two cuts, of lists and texts. Any number will do as an
-- index: it is rounded down, an element is looked up around the end, and a cut outside is moved to
-- the nearest end. So there is always an element if there is any, and two cuts lose nothing.
import TickScript.Proofs.Answers

namespace TickScript

variable {v : Value} {parts : List Value} {i j : ℕ} {x : Float}

/-! ## Rounding down -/

namespace Number

/-- The greatest integer that is not above a number, or the nearest bound if that does not fit into
64 bits. What is not a number counts as zero. -/
def floorWithin64 (x : Float) : ℤ :=
  match x.toModel.unpack with
  | .notANumber => 0
  | .zero _ => 0
  | .infinity .positive => 2 ^ 63 - 1
  | .infinity .negative => -2 ^ 63
  | .finite s m e _ => max (-2 ^ 63) (min ⌊(signed s m : ℚ) * 2 ^ e⌋ (2 ^ 63 - 1))

theorem signed_shiftLeft (s : Float.Model.UnpackedFloat.Sign) (m n : ℕ) :
    signed s (m <<< n) = signed s m * 2 ^ n := by
  cases s <;> simp [signed, Nat.shiftLeft_eq]

/-- One of the two powers is one. -/
theorem shifted_quotient (s : Float.Model.UnpackedFloat.Sign) (m : ℕ) (e : ℤ) :
    (signed s (m <<< e.toNat) : ℚ) / (Nat.pow 2 (-e).toNat : ℕ) = (signed s m : ℚ) * 2 ^ e := by
  obtain ⟨n, rfl | rfl⟩ := e.eq_nat_or_neg
  · simp [signed_shiftLeft]
  · simp [div_eq_mul_inv]

theorem floor64_eq (x : Float) : floor64 x = floorWithin64 x := by
  unfold floor64 toInt64 floorWithin64
  cases x.toModel.unpack with
  | notANumber => rfl
  | zero _ => rfl
  | infinity s => cases s <;> rfl
  | finite s m e _ =>
    simp only
    rw [← shifted_quotient, Rat.floor_intCast_div_natCast,
      Int.fdiv_eq_ediv_of_nonneg _ (Int.natCast_nonneg _)]
    rfl

end Number

/-! ## Lists and texts alike -/

namespace Value

/-- The elements of a list, or the characters of a text. -/
def parts? : Value → Option (List Value)
  | ⟨_, .list items⟩ => some items
  | ⟨_, .text s⟩ => some (s.toList.map fun c => .text c.toString)
  | _ => none

/-- Two lists in one, or two texts in one. -/
def followedBy : Value → Value → Value
  | ⟨_, .list items⟩, ⟨_, .list others⟩ => .list (items ++ others)
  | ⟨_, .text s⟩, ⟨_, .text t⟩ => .text (s ++ t)
  | _, _ => .null

/-- The part of a list or text between two cuts. -/
def between (v : Value) (i j : ℕ) : Value :=
  match v with
  | ⟨_, .list items⟩ => .list ((items.take j).drop i)
  | ⟨_, .text s⟩ => .text (.ofList ((s.toList.take j).drop i))
  | _ => .null

theorem parts?_between (hv : v.parts? = some parts) (i j : ℕ) :
    (v.between i j).parts? = some ((parts.take j).drop i) := by
  obtain ⟨_, datum⟩ := v
  cases datum <;> cases hv
  case list => rfl
  case text s => simp [between, parts?, Value.text, List.map_take, List.map_drop]

theorem between_all (hv : v.parts? = some parts) : v.between 0 parts.length = v.unbound := by
  obtain ⟨_, datum⟩ := v
  cases datum <;> cases hv
  case list =>
    rw [between, List.take_length]
    rfl
  case text s =>
    rw [between, List.length_map, List.take_length, List.drop_zero, String.ofList_toList]
    rfl

/-- A cut before the first is as good as one at the first: there is nothing between them. -/
theorem between_max (v : Value) (i j : ℕ) : v.between i (max i j) = v.between i j := by
  have hlist {α : Type} (items : List α) :
      (items.take (max i j)).drop i = (items.take j).drop i := by
    rw [List.drop_take, List.drop_take]
    congr 1
    omega
  unfold between
  split <;> simp only [hlist]

theorem between_followedBy (hv : v.parts? = some parts) {k : ℕ} (hij : i ≤ j) (hjk : j ≤ k) :
    (v.between i j).followedBy (v.between j k) = v.between i k := by
  have hlist {α : Type} (items : List α) :
      (items.take j).drop i ++ (items.take k).drop j = (items.take k).drop i := by
    have h := List.drop_take_append_drop (items.take k) i (j - i)
    rwa [← List.drop_take, List.take_take, min_eq_left hjk, Nat.add_sub_cancel' hij] at h
  obtain ⟨_, datum⟩ := v
  cases datum <;> cases hv
  case list items => simp only [between, followedBy, Value.list, hlist]
  case text s => simp only [between, followedBy, Value.text, ← String.ofList_append, hlist]

/-- Two cuts make three parts of the whole, even if the second is before the first. -/
theorem between_followedBy_twice (hv : v.parts? = some parts) (hi : i ≤ parts.length)
    (hj : j ≤ parts.length) :
    (v.between 0 i).followedBy ((v.between i j).followedBy (v.between (max i j) parts.length)) =
      v.unbound := by
  rw [← between_max v i j, between_followedBy hv (le_max_left i j) (max_le hi hj),
    between_followedBy hv (Nat.zero_le i) hi, between_all hv]

end Value

/-! ## The functions -/

namespace Library

/-- The place of a cut at a number in a sequence of `n`. -/
def cutAt (n : ℕ) (x : Float) : ℤ :=
  let i := Number.floorWithin64 x
  max 0 (min (if i < 0 then i + n else i) n)

theorem cutPlace_eq (n : ℕ) (x : Float) : (cutPlace n (Number.floor64 x) : ℤ) = cutAt n x := by
  unfold cutPlace cutAt
  rw [Number.floor64_eq]
  dsimp only
  split <;> omega

theorem cutPlace_le (n : ℕ) (i : ℤ) : cutPlace n i ≤ n := Nat.min_le_right _ _

theorem cutPlace_zero (n : ℕ) : cutPlace n (Number.floor64 0) = 0 := Nat.zero_min n

theorem cutOf_eq (hv : v.number? = some x) (n : ℕ) :
    cutOf n v = .ok (cutPlace n (Number.floor64 x)) := by
  simp only [cutOf, Value.toNumber, hv]
  rfl

theorem sliceOf_eq {α : Type} {items : List α} {start : Value} {stop : Option Value}
    (hstart : cutOf items.length start = .ok i)
    (hstop : stop.elim (.ok items.length) (cutOf items.length) = .ok j) :
    sliceOf items start stop = .ok ((items.take j).drop i) := by
  cases stop <;> simp only [Option.elim] at hstop <;> simp only [sliceOf, hstart, hstop] <;> rfl

theorem slice_eq (hv : v.parts? = some parts) {start : Value} {stop : Option Value}
    (hstart : cutOf parts.length start = .ok i)
    (hstop : stop.elim (.ok parts.length) (cutOf parts.length) = .ok j) (t : State) :
    slice v start stop t = .ok (v.between i j) t := by
  obtain ⟨_, datum⟩ := v
  cases datum <;> cases hv
  case list items =>
    simp only [slice]
    rw [Run.bind_of_ok ((Value.hasElements_of_list? rfl).elements_eq t), sliceOf_eq hstart hstop]
    rfl
  case text s =>
    rw [List.length_map] at hstart hstop
    simp only [slice, sliceOf_eq hstart hstop]
    rfl

/-- In a sequence with elements, every index has its place. -/
theorem wrapIndex_lt {n : ℕ} (hn : 0 < n) (x : Float) : wrapIndex n x < n := by
  have hlt := Int.emod_lt_of_pos (Number.floor64 x) (Int.natCast_pos.mpr hn)
  unfold wrapIndex
  omega

theorem wrapIndex_eq {n : ℕ} (hn : 0 < n) (x : Float) :
    (wrapIndex n x : ℤ) = Number.floorWithin64 x % n := by
  have hnonneg := Int.emod_nonneg (Number.floor64 x) (Int.natCast_ne_zero_iff_pos.mpr hn)
  rw [wrapIndex, Int.toNat_of_nonneg hnonneg, Number.floor64_eq]

theorem elementAt_eq (hv : v.parts? = some parts) {index : Value} (hindex : index.number? = some x)
    (t : State) : elementAt v index t = .ok (parts[wrapIndex parts.length x]?.getD .null) t := by
  have hx : Run.ofExcept (index.toNumber ":") t = .ok x t := by
    simp only [Value.toNumber, hindex]
    rfl
  unfold elementAt
  rw [Run.bind_of_ok hx]
  obtain ⟨_, datum⟩ := v
  cases datum <;> cases hv
  case list => rfl
  case text s =>
    simp only [List.length_map, List.getElem?_map]
    rfl

end Library

section Functions

variable {lang : Language} (hlang : lang.HasStandard ["slice", "element"])
include hlang

theorem answers_slice (hv : v.parts? = some parts) {i j : Value} {y : Float}
    (hi : i.number? = some x) (hj : j.number? = some y) :
    lang.Answers "slice" [v, i, j] (v.between (Library.cutPlace parts.length (Number.floor64 x))
      (Library.cutPlace parts.length (Number.floor64 y))) :=
  Language.answers_of_eager (hlang "slice" (by simp)) <|
    Library.slice_eq hv (Library.cutOf_eq hi _) (Library.cutOf_eq hj _)

theorem answers_slice_to_end (hv : v.parts? = some parts) {i : Value} (hi : i.number? = some x) :
    lang.Answers "slice" [v, i]
      (v.between (Library.cutPlace parts.length (Number.floor64 x)) parts.length) :=
  Language.answers_of_eager (hlang "slice" (by simp)) <|
    Library.slice_eq hv (Library.cutOf_eq hi _) rfl

theorem answers_element (hv : v.parts? = some parts) {i : Value} (hi : i.number? = some x) :
    lang.Answers "element" [v, i] (parts[Library.wrapIndex parts.length x]?.getD .null) :=
  Language.answers_of_eager (hlang "element" (by simp)) (Library.elementAt_eq hv hi)

end Functions

theorem operatorAnswers_element {lang : Language}
    (hlang : lang.binary? ":" = Language.standard.binary? ":") (hv : v.parts? = some parts)
    {i : Value} (hi : i.number? = some x) :
    lang.OperatorAnswers ":" v i (parts[Library.wrapIndex parts.length x]?.getD .null) :=
  Language.operatorAnswers_of_onValues hlang (Library.elementAt_eq hv hi)

/-- Cuts and indices stay within a list or text, whatever the numbers are. What is before a cut and
what is after it make up the whole. Two cuts give a part of the whole that begins at the first and
is as long as the second is behind it. An index gives the element at its floor, counted around the
end, and null if there is none. -/
theorem cuts_and_indices_stay_within {lang : Language}
    (hlang : lang.HasStandard ["slice", "element"])
    (hcolon : lang.binary? ":" = Language.standard.binary? ":")
    {v : Value} {parts : List Value} (hv : v.parts? = some parts)
    {i j k : Value} {x y z : Float} (hi : i.number? = some x) (hj : j.number? = some y)
    (hk : k.number? = some z) :
    (∃ first second : Value,
      lang.Answers "slice" [v, .number 0, k] first ∧
      lang.Answers "slice" [v, k] second ∧
      first.followedBy second = v.unbound) ∧
    (∃ (before part after : Value) (outer inner : List Value),
      lang.Answers "slice" [v, i, j] part ∧
      before.followedBy (part.followedBy after) = v.unbound ∧
      before.parts? = some outer ∧ (outer.length : ℤ) = Library.cutAt parts.length x ∧
      part.parts? = some inner ∧
      (inner.length : ℤ) =
        max 0 (Library.cutAt parts.length y - Library.cutAt parts.length x)) ∧
    (0 < parts.length → ∃ (place : ℕ) (element : Value),
      (place : ℤ) = Number.floorWithin64 x % parts.length ∧
      parts[place]? = some element ∧
      lang.Answers "element" [v, i] element ∧
      lang.OperatorAnswers ":" v i element) ∧
    (parts.length = 0 →
      lang.Answers "element" [v, i] .null ∧ lang.OperatorAnswers ":" v i .null) := by
  have hx := Library.cutPlace_eq parts.length x
  have hy := Library.cutPlace_eq parts.length y
  have hxn := Library.cutPlace_le parts.length (Number.floor64 x)
  have hyn := Library.cutPlace_le parts.length (Number.floor64 y)
  have hslice := answers_slice hlang hv hi hj
  have helement := answers_element hlang hv hi
  have hoperator := operatorAnswers_element hcolon hv hi
  refine ⟨⟨_, _, answers_slice hlang hv rfl hk, answers_slice_to_end hlang hv hk, ?_⟩,
    ⟨_, _, _, _, _, hslice, Value.between_followedBy_twice hv hxn hyn,
      Value.parts?_between hv _ _, ?_, Value.parts?_between hv _ _, ?_⟩, fun hn => ?_, fun hn => ?_⟩
  · rw [Library.cutPlace_zero, Value.between_followedBy hv (Nat.zero_le _)
      (Library.cutPlace_le _ _), Value.between_all hv]
  · rw [List.length_drop, List.length_take]
    omega
  · rw [List.length_drop, List.length_take]
    omega
  · have hplace := List.getElem?_eq_getElem (Library.wrapIndex_lt hn x)
    rw [hplace] at helement hoperator
    exact ⟨_, _, Library.wrapIndex_eq hn x, hplace, helement, hoperator⟩
  · rw [List.eq_nil_of_length_eq_zero hn] at helement hoperator
    exact ⟨helement, hoperator⟩

namespace Sliced

/-- A text of three characters, one of them with an accent. -/
def word : Value := .text "né!"

def letters : List Value := [.text "n", .text "é", .text "!"]

/-- One and a half before the end. -/
def low : Value := .number (-1.5)

def infinite : Value := .number (1.0 / 0.0)

def undefined : Value := .number (0.0 / 0.0)

end Sliced

open Sliced in
/-- The index -1.5 goes down to the second character, from where it is two characters to the end. A
cut at what is not a number is one at the start. -/
theorem two_characters_from_the_end :
    Language.standard.HasStandard ["slice", "element"] ∧
    word.parts? = some letters ∧
    low.number? = some (-1.5) ∧ infinite.number? = some (1.0 / 0.0) ∧
    undefined.number? = some (0.0 / 0.0) ∧
    (∃ first second : Value,
      Language.standard.Answers "slice" [word, .number 0, undefined] first ∧
      Language.standard.Answers "slice" [word, undefined] second ∧
      first.followedBy second = word) ∧
    (∃ (part : Value) (inner : List Value),
      Language.standard.Answers "slice" [word, low, infinite] part ∧
      part.parts? = some inner ∧ inner.length = 2) ∧
    Language.standard.Answers "element" [word, low] (.text "é") ∧
    Language.standard.OperatorAnswers ":" word low (.text "é") := by
  have hlang := Language.hasStandard_standard ["slice", "element"]
  have hword : word.parts? = some letters := rfl
  obtain ⟨hsplit, ⟨-, part, -, -, inner, hpart, -, -, -, hinner, hlength⟩, helement, -⟩ :=
    cuts_and_indices_stay_within hlang rfl hword (i := low) rfl (j := infinite) rfl
      (k := undefined) rfl
  obtain ⟨place, element, hplace, hthere, hfunction, hoperator⟩ := helement (by decide)
  have hlow : Number.floorWithin64 (-1.5) = -2 := by decide +kernel
  have hstart : Library.cutAt 3 (-1.5) = 1 := by decide +kernel
  have hstop : Library.cutAt 3 (1.0 / 0.0) = 3 := by decide
  have hsize : letters.length = 3 := rfl
  rw [hsize, hstart, hstop] at hlength
  rw [hsize, hlow] at hplace
  have htwo : inner.length = 2 := Int.ofNat.inj hlength
  obtain rfl : place = 1 := Int.ofNat.inj hplace
  obtain rfl : Value.text "é" = element := Option.some.inj hthere
  exact ⟨hlang, hword, rfl, rfl, rfl, hsplit, ⟨part, inner, hpart, hinner, htwo⟩, hfunction,
    hoperator⟩

end TickScript
