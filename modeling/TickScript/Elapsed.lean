-- How long a run took, as the console shows it.
namespace TickScript

/-- A time in microseconds, in a unit that keeps it short: beyond 5000 it is counted in
milliseconds, and beyond 10000 of these in seconds. -/
def describeElapsed (micros : Nat) : String :=
  if micros ≤ 5000 then toString micros ++ "µs"
  else if micros / 1000 ≤ 10000 then toString (micros / 1000) ++ "ms"
  else toString (micros / 1000 / 1000) ++ "s"

end TickScript
