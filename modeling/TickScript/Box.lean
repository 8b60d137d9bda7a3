-- Boxes of whole positions, and the order in which their positions are visited.
import TickScript.Text.Words

namespace TickScript

/-- A whole position in space. -/
structure Position where
  x : Int
  y : Int
  z : Int
deriving DecidableEq

/-- All the positions between two corners, both included. -/
structure Box where
  low : Position
  high : Position
deriving DecidableEq

namespace Box

/-- The box with two opposite corners, in whatever order these are given. -/
def ofCorners (a b : Position) : Box :=
  { low := ⟨min a.x b.x, min a.y b.y, min a.z b.z⟩
    high := ⟨max a.x b.x, max a.y b.y, max a.z b.z⟩ }

/-- How many whole numbers there are from `low` to `high`. -/
def extent (low high : Int) : Nat := (high - low + 1).toNat

def width (b : Box) : Nat := extent b.low.x b.high.x

def height (b : Box) : Nat := extent b.low.y b.high.y

def depth (b : Box) : Nat := extent b.low.z b.high.z

/-- The number of positions. -/
def volume (b : Box) : Nat := b.width * b.height * b.depth

/-- The number, or the largest one of 64 bits if it is larger. -/
def capped (n : Nat) : Nat := min n Text.mostNat64

/-- The number of positions in 64 bits, where neither an extent nor a product of extents goes
beyond the largest number. -/
def volume64 (b : Box) : Nat :=
  [(b.low.x, b.high.x), (b.low.y, b.high.y), (b.low.z, b.high.z)].foldl
    (fun n axis => capped (n * capped ((axis.2 - axis.1).natAbs + 1))) 1

/-- The position with the given index when x counts before y and y before z. -/
def position (b : Box) (i : Nat) : Position :=
  { x := b.low.x + (i / (b.height * b.depth) : Nat)
    y := b.low.y + (i / b.depth % b.height : Nat)
    z := b.low.z + (i % b.depth : Nat) }

end Box

end TickScript
