-- Random numbers: a word of 64 bits that is stirred by shifts with every draw.
namespace TickScript

/-- The next state of the generator. -/
def nextRandom (s : UInt64) : UInt64 :=
  let s := s ^^^ (s <<< 13)
  let s := s ^^^ (s >>> 7)
  s ^^^ (s <<< 17)

/-- The number from 0 up to but not 1 that a state stands for. -/
def randomUnit (s : UInt64) : Float := Float.ofNat (s >>> 11).toNat / Float.ofNat 0x20000000000000

/-- The state that a seed starts with. A generator at zero would stay there. -/
def randomSeed (seed : UInt64) : UInt64 := if seed = 0 then 0xdeadbeef else seed

end TickScript
