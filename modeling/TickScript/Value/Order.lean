-- When values are equal, and which of two comes first. Numbers compare as numbers, null
-- being zero, lists member by member, and all others by what they print.
import TickScript.Value

namespace TickScript

/-- The order of two numbers. What is not a number is in order with any. -/
def compareNumbers (x y : Float) : Ordering :=
  if x < y then .lt else if y < x then .gt else .eq

namespace Value

mutual

/-- The order that relations and sorting go by. -/
def compare : Value → Value → Ordering
  | ⟨_, .list xs⟩, ⟨_, .list ys⟩ => compareAll xs ys
  | ⟨_, .text s⟩, ⟨_, .text t⟩ => Ord.compare s t
  | a, b =>
    match a.number?, b.number? with
    | some x, some y => compareNumbers x y
    | _, _ => Ord.compare a.display b.display

/-- The order of two lists: that of the first members that differ in order, or else that of
the lengths. -/
def compareAll : List Value → List Value → Ordering
  | [], [] => .eq
  | [], _ :: _ => .lt
  | _ :: _, [] => .gt
  | x :: xs, y :: ys =>
    match compare x y with
    | .eq => compareAll xs ys
    | o => o

end

mutual

/-- Whether two values are equal. -/
def equals : Value → Value → Bool
  | ⟨_, .list xs⟩, ⟨_, .list ys⟩ => equalsAll xs ys
  | ⟨_, .text s⟩, ⟨_, .text t⟩ => s = t
  | ⟨_, .iterator i _ _⟩, ⟨_, .iterator j _ _⟩ => i = j
  | ⟨_, .host i _⟩, ⟨_, .host j _⟩ => i = j
  | a, b =>
    match a.number?, b.number? with
    | some x, some y => x == y
    | _, _ => false

/-- Whether two lists are equal, member by member. -/
def equalsAll : List Value → List Value → Bool
  | [], [] => true
  | x :: xs, y :: ys => equals x y && equalsAll xs ys
  | _, _ => false

end

/-- The values in order; values that compare as equal stay as they were. -/
def sort (values : List Value) : List Value :=
  values.mergeSort fun a b => compare a b != .gt

/-- The least of some values, the first of equals. -/
def least (v : Value) (others : List Value) : Value :=
  others.foldl (fun best w => if compare best w = .gt then w else best) v

/-- The greatest of some values, the last of equals. -/
def greatest (v : Value) (others : List Value) : Value :=
  others.foldl (fun best w => if compare best w = .gt then best else w) v

end Value

end TickScript
