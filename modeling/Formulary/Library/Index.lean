import Formulary.Registry

/-!
# Indexing

Elements of arrays and lists by position, and entries of maps by name. A name that a map does not
have reads as no value.

## Main definitions

* `Library.element` — the item at a position
* `Library.indexing` — the registrations
-/

namespace Formulary.Library

open Overload Carrier

/-- The sequence that positions are narrowed along. -/
def positionWidening : List Tag := [.integer, .long]

/-- The item at a position. -/
def element {α : Type} (items : List α) (i : Int32) : Except Fault α :=
  match if 0 ≤ i.toInt then items[i.toInt.toNat]? else none with
  | some item => .ok item
  | none => .error (.indexOutOfBounds i.toInt items.length)

/-- The registrations of indexing. -/
def indexing (r : Registry.Builder) : Registry.Builder :=
  (r.registerFamily positionWidening ["index"]).registerOverloads "index"
    [tryBinary booleans integer boolean element, tryBinary integers integer integer element,
      tryBinary longs integer long element, tryBinary doubles integer double element,
      tryBinary decimals integer decimal element, tryBinary strings integer string element,
      tryBinary objects integer object element, tryBinary list integer object element,
      binary map string object fun m key => (m.find? key).getD .null]

end Formulary.Library
