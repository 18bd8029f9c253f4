import Formulary.Library.Arithmetic

/-!
# Relations and negation

The six comparisons of numbers, texts and times, equality of truth values, and negation. Numbers of
different kinds are compared after widening. Texts are ordered character by character.

## Main definitions

* `Library.relations` — the registrations of the comparisons
* `Library.negation` — the registration of `not`
-/

namespace Formulary.Library

open Overload Carrier

/-- An order on the types that have one. -/
structure Comparison where
  /-- On integers. -/
  onInteger : Int32 → Int32 → Bool
  /-- On longs. -/
  onLong : Int64 → Int64 → Bool
  /-- On doubles. -/
  onDouble : Float → Float → Bool
  /-- On all else, by the outcome of a comparison. -/
  onOrdering : Ordering → Bool

/-- The overloads of a comparison. -/
def Comparison.overloads (c : Comparison) : List Overload :=
  [binary integer integer boolean c.onInteger, binary long long boolean c.onLong,
    binary double double boolean c.onDouble,
    binary decimal decimal boolean fun a b => c.onOrdering (a.compare b),
    binary string string boolean fun a b => c.onOrdering (compare a b),
    binary time time boolean fun a b => c.onOrdering (a.compare b)]

/-- The registrations of the comparisons. -/
def relations (r : Registry.Builder) : Registry.Builder :=
  (r.registerFamily numericWidening ["lt", "le", "gt", "ge", "eq", "ne"])
    |>.registerOverloads "lt"
      (Comparison.overloads ⟨(· < ·), (· < ·), (· < ·), Ordering.isLT⟩)
    |>.registerOverloads "le"
      (Comparison.overloads ⟨(· ≤ ·), (· ≤ ·), (· ≤ ·), Ordering.isLE⟩)
    |>.registerOverloads "gt"
      (Comparison.overloads ⟨(· > ·), (· > ·), (· > ·), Ordering.isGT⟩)
    |>.registerOverloads "ge"
      (Comparison.overloads ⟨(· ≥ ·), (· ≥ ·), (· ≥ ·), Ordering.isGE⟩)
    |>.registerOverloads "eq" (binary boolean boolean boolean (· == ·) ::
      Comparison.overloads ⟨(· == ·), (· == ·), (· == ·), Ordering.isEq⟩)
    |>.registerOverloads "ne" (binary boolean boolean boolean (· != ·) ::
      Comparison.overloads ⟨(· != ·), (· != ·), (· != ·), Ordering.isNe⟩)

/-- The registration of `not`. -/
def negation (r : Registry.Builder) : Registry.Builder :=
  (r.registerFamily [] ["not"]).registerOverload "not" (unary boolean boolean (! ·))

end Formulary.Library
