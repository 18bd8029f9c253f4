import Formulary.Library.Index
import Formulary.Pattern.Reach
import Formulary.Text.Casing
import Formulary.Text.Search

/-!
# Functions on texts

Parts of texts, searches, patterns, case, trimming and replacement. Positions and lengths count
characters.

## Main definitions

* `Library.substring` — the characters between two positions
* `Library.describes` — whether a whole text fits a pattern
* `Library.strings` — the registrations

## Main results

* `Library.substring_eq_ok_iff` — which positions are inside a text
-/

namespace Formulary.Library

open Overload Carrier Text

/-- The characters from position `start` up to position `stop`, or to the end. -/
def substring (s : String) (start : Int32) (stop : Option Int32) : Except Fault String :=
  let cs := s.toList
  let first := start.toInt
  let last := (stop.map Int32.toInt).getD cs.length
  if 0 ≤ first ∧ first ≤ last ∧ last ≤ cs.length then
    .ok (String.ofList (slice first.toNat last.toNat cs))
  else .error (.sliceOutOfBounds first last cs.length)

/-- Whether a whole text fits a pattern. -/
def describes (s pattern : String) : Except Fault Bool :=
  match Pattern.describes? pattern s with
  | some b => .ok b
  | none => .error (.badPattern s!"cannot read the pattern '{pattern}'")

/-- The functions on texts. -/
def stringNames : List String :=
  ["substring", "startsWith", "endsWith", "contains", "matches", "toLowerCase", "toUpperCase",
    "trim", "replace"]

/-- The registrations of the functions on texts. -/
def strings (r : Registry.Builder) : Registry.Builder :=
  (r.registerFamily positionWidening stringNames)
    |>.registerOverloads "substring"
      [tryBinary string integer string fun s start => substring s start none,
        tryTernary string integer integer string fun s start stop => substring s start (some stop)]
    |>.registerOverload "startsWith"
      (binary string string boolean fun s t => t.toList.isPrefixOf s.toList)
    |>.registerOverload "endsWith"
      (binary string string boolean fun s t => t.toList.isSuffixOf s.toList)
    |>.registerOverload "contains"
      (binary string string boolean fun s t => occursIn t.toList s.toList)
    |>.registerOverload "matches" (tryBinary string string boolean describes)
    |>.registerOverload "toLowerCase" (unary string string toLowercase)
    |>.registerOverload "toUpperCase" (unary string string toUppercase)
    |>.registerOverload "trim" (unary string string trim)
    |>.registerOverload "replace" (ternary string string string string fun s old new =>
      String.ofList (replaceAll old.toList new.toList s.toList))

/-- A part of a text is given exactly when its positions are in order and inside the text. -/
theorem substring_eq_ok_iff {s t : String} {start stop : Int32} :
    substring s start (some stop) = .ok t ↔
      (0 ≤ start.toInt ∧ start.toInt ≤ stop.toInt ∧ stop.toInt ≤ s.toList.length) ∧
        t = String.ofList (slice start.toInt.toNat stop.toInt.toNat s.toList) := by
  simp only [substring, Option.map_some, Option.getD_some]
  split
  · next h => simp only [h, true_and, Except.ok.injEq, eq_comm]
  · next h => exact ⟨nofun, fun hs => absurd hs.1 h⟩

end Formulary.Library
