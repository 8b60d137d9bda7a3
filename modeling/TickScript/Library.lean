-- The standard language: all its operators, functions and constants.
import TickScript.Library.Assignment
import TickScript.Library.Control
import TickScript.Library.Lists
import TickScript.Library.Math
import TickScript.Library.Patterns
import TickScript.Library.Values

namespace TickScript

open TickScript.Library

/-- The standard operators and functions. -/
def Language.standard : Language :=
  (withAssignments (withSearch (withOperators .bare))).addFunctions
    (control ++ lists ++ values ++ math ++ patterns)

/-- The standard constants. -/
def constants : List (String × Value) :=
  [ ("null", .null),
    ("true", .boolean true),
    ("false", .boolean false),
    ("pi", .number pi),
    ("euler", .number euler),
    ("_x", .number 0),
    ("_y", .number 0),
    ("_z", .number 0) ]

/-- A machine that knows some constants. -/
def Machine.withConstants (constants : List (String × Value)) : Machine :=
  constants.foldl (fun m (name, v) => m.define name v) {}

/-- A machine as the standard language starts on it. -/
def Machine.standard : Machine := .withConstants constants

end TickScript
