/-!
# Shifts

Almost all relations between the cases move every character of a run, or every second one, by one
distance.

## Main definitions

* `Shift` — a run with its distance
* `Shift.image?` — where a run sends a code point
* `Shift.pairs` — the code points of a run, each with its image
-/

namespace Formulary.Text

/-- A run of code points, `stride` apart, that all move by one distance. -/
structure Shift where
  /-- The first code point of the run. -/
  first : Nat
  /-- How many code points the run has. -/
  count : Nat
  /-- The step from one to the next. -/
  stride : Nat
  /-- What is added to each. -/
  distance : Int
  deriving DecidableEq, Repr

namespace Shift

/-- A code point moved by the distance. -/
def move (s : Shift) (n : Nat) : Nat := ((n : Int) + s.distance).toNat

/-- Where a run sends a code point, if it contains it. -/
def image? (s : Shift) (n : Nat) : Option Nat :=
  if s.first ≤ n && (n - s.first) % s.stride == 0 && (n - s.first) / s.stride < s.count then
    some (s.move n)
  else none

/-- The code points of a run. -/
def members (s : Shift) : List Nat := (List.range s.count).map fun i => s.first + s.stride * i

/-- The code points of a run, each with its image. -/
def pairs (s : Shift) : List (List Nat) := s.members.map fun n => [n, s.move n]

/-- The image of a code point under the first run that contains it, or itself. -/
def apply (shifts : List Shift) (n : Nat) : Nat := (shifts.findSome? (·.image? n)).getD n

end Shift

end Formulary.Text
