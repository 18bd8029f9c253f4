import Formulary.Registry

/-!
# Transcendental functions

Functions of one double. Numbers of every kind are converted to doubles first.

## Main definitions

* `Library.transcendentals` — the registrations, and the constants `E`, `PI` and `TAU`
-/

namespace Formulary.Library

open Overload Carrier

/-- The sequence of numbers that are converted to doubles. -/
def doubleWidening : List Tag := [.double, .decimal, .long, .integer]

/-- The functions by name. -/
def doubleFunctions : List (String × (Float → Float)) :=
  [("sin", Float.sin), ("cos", Float.cos), ("tan", Float.tan), ("asin", Float.asin),
    ("acos", Float.acos), ("atan", Float.atan), ("sinh", Float.sinh), ("cosh", Float.cosh),
    ("tanh", Float.tanh), ("log", Float.log), ("exp", Float.exp)]

/-- The base of the natural logarithm. -/
def e : Float := 2.718281828459045

/-- Half of the circumference of the unit circle. -/
def pi : Float := 3.141592653589793

/-- The circumference of the unit circle. -/
def tau : Float := 6.283185307179586

/-- The registrations of functions and constants. -/
def transcendentals (r : Registry.Builder) : Registry.Builder :=
  let r := r.registerFamily doubleWidening (doubleFunctions.map (·.1))
  let r := doubleFunctions.foldl
    (fun r (name, f) => r.registerOverload name (unary double double f)) r
  ((r.registerConstant "E" (.double e)).registerConstant "PI" (.double pi)).registerConstant "TAU"
    (.double tau)

end Formulary.Library
