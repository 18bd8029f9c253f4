import Formulary.Record.Schema

/-!
# Layouts

A layout puts the leaves of a schema on the slots of a record. Leaves are numbered depth first:
elements from left to right, fields in the order of their names. Only tuples and dicts have parts;
everything else is a leaf, typed where the schema fixes the type.

## Main definitions

* `Layout` — the tree of parts
* `Layout.place` — the layout of a schema from a given slot on
* `Layout.ofSchema` — the layout of a schema
* `Layout.size` — the number of leaves
* `Layout.element?`, `Layout.field?` — the parts
-/

namespace Formulary

/-- Where the parts of a record are kept. -/
inductive Layout
  | leaf (tag : Tag) (slot : Nat)
  | tuple (elements : List Layout)
  | dict (fields : List (String × Layout))
  deriving Inhabited

namespace Layout

/-- The tag of a node. -/
def tag : Layout → Tag
  | leaf t _ => t
  | tuple _ => .tuple
  | dict _ => .dict

/-- The element at a position of a tuple. -/
def element? : Layout → Nat → Option Layout
  | tuple elements, i => elements[i]?
  | _, _ => none

/-- The field of a dict under a name. -/
def field? : Layout → String → Option Layout
  | dict fields, name => Entries.find? fields name
  | _, _ => none

/-! ### Placing a schema -/

/-- The tag of an array whose items share a schema: typed where the items are scalars. -/
def arrayTag (item : Schema) : Tag := ((item.scalarTag?).bind Tag.arrayOf?).getD .list

mutual

/-- The layout of a schema whose first leaf is on slot `next`, and the slot after its last. -/
def place (next : Nat) : Schema → Layout × Nat
  | .arrayAt items (some false) =>
    let (elements, next) := placeAll next items
    (tuple elements, next)
  | .record properties (some false) =>
    let (fields, next) := placeNamed next properties
    (dict fields, next)
  | .arrayOf item _ => (leaf (arrayTag item) next, next + 1)
  | .array _ | .arrayAt _ _ => (leaf .list next, next + 1)
  | .object (some false) => (leaf .object next, next + 1)
  | .object _ | .record _ _ => (leaf .map next, next + 1)
  | s => (leaf ((s.scalarTag?).getD .object) next, next + 1)

/-- The layouts of schemas, one after the other. -/
def placeAll (next : Nat) : List Schema → List Layout × Nat
  | [] => ([], next)
  | s :: rest =>
    let (node, next) := place next s
    let (nodes, next) := placeAll next rest
    (node :: nodes, next)

/-- The layouts of named schemas, one after the other. -/
def placeNamed (next : Nat) : List (String × Schema) → List (String × Layout) × Nat
  | [] => ([], next)
  | (k, s) :: rest =>
    let (node, next) := place next s
    let (nodes, next) := placeNamed next rest
    ((k, node) :: nodes, next)

end

/-- The layout of a schema. -/
def ofSchema (s : Schema) : Layout := (place 0 s).1

/-- The number of slots that the layout of a schema takes. -/
def slotCount (s : Schema) : Nat := (place 0 s).2

/-! ### Listing the nodes -/

mutual

/-- Every node with its path, parents first. -/
def nodes (path : String) : Layout → List (String × Layout)
  | leaf t slot => [(path, leaf t slot)]
  | tuple elements => (path, tuple elements) :: nodesAt path 0 elements
  | dict fields => (path, dict fields) :: nodesUnder path fields

/-- The nodes below the elements from position `i` on. -/
def nodesAt (path : String) (i : Nat) : List Layout → List (String × Layout)
  | [] => []
  | l :: rest => nodes (path ++ "[" ++ toString i ++ "]") l ++ nodesAt path (i + 1) rest

/-- The nodes below named fields. -/
def nodesUnder (path : String) : List (String × Layout) → List (String × Layout)
  | [] => []
  | (k, l) :: rest => nodes (path ++ "." ++ k) l ++ nodesUnder path rest

end

/-- The slot of a leaf. -/
def slot? : Layout → Option Nat
  | leaf _ slot => some slot
  | _ => none

theorem slot?_isSome_iff (l : Layout) : l.slot?.isSome = true ↔ ∃ t i, l = leaf t i := by
  cases l <;> simp [slot?]

end Layout

end Formulary
