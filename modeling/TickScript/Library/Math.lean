-- The functions on numbers. Angles are in degrees.
import TickScript.Language
import TickScript.Random
import TickScript.Value.Arithmetic
import TickScript.Value.Order

namespace TickScript.Library

def pi : Float := 3.141592653589793

def euler : Float := 2.718281828459045

def toRadians (degrees : Float) : Float := degrees * (pi / 180)

/-- One radian in degrees. -/
def degreesPerRadian : Float := 57.29577951308232

def toDegrees (radians : Float) : Float := radians * degreesPerRadian

/-- A function of one number whose result has to be a number too. -/
def ofNumber (name : String) (f : Float → Float) : String × Native :=
  (name, .eagerOne fun v => do
    let x ← Run.ofExcept (v.toNumber name)
    Run.ofExcept (Arithmetic.checked name (f x)))

/-- The angle of a point. -/
def arcTangent (y x : Value) : Run Value := do
  let y ← Run.ofExcept (y.toNumber "atan2")
  let x ← Run.ofExcept (x.toNumber "atan2")
  Run.ofExcept (Arithmetic.checked "atan2" (toDegrees (Float.atan2 y x)))

/-- A random number from 0 up to but not the given one. -/
def draw (v : Value) : Run Value := do
  let unit ← (fun s =>
    let random := nextRandom s.machine.random
    .ok (randomUnit random) { s with machine := { s.machine with random } } : Run Float)
  let x ← Run.ofExcept (v.toNumber "rand")
  return .number (unit * x)

def math : List (String × Native) :=
  [ ofNumber "sqrt" Float.sqrt,
    ofNumber "abs" Float.abs,
    ofNumber "floor" Float.floor,
    ofNumber "ceil" Float.ceil,
    ofNumber "round" Float.round,
    ofNumber "ln" Float.log,
    ofNumber "log10" Float.log10,
    ofNumber "exp" Float.exp,
    ofNumber "sin" fun x => (toRadians x).sin,
    ofNumber "cos" fun x => (toRadians x).cos,
    ofNumber "tan" fun x => (toRadians x).tan,
    ofNumber "asin" fun x => toDegrees x.asin,
    ofNumber "acos" fun x => toDegrees x.acos,
    ofNumber "atan" fun x => toDegrees x.atan,
    ("atan2", .eagerTwo arcTangent),
    ("min", .eager (.atLeast 1) fun values =>
      match values with
      | v :: others => pure (Value.least v others).unbound
      | [] => pure .null),
    ("max", .eager (.atLeast 1) fun values =>
      match values with
      | v :: others => pure (Value.greatest v others).unbound
      | [] => pure .null),
    ("rand", .eagerOne draw) ]

end TickScript.Library
