import Formulary.Document.Basic
import Formulary.Value.Basic

/-!
# Values and generic trees

Any document reads as a value, and any value writes as a document. Whole numbers read as longs, all
other numbers as doubles. Writing forgets what a document has no form for: the kind of a number,
the scale of a decimal, and numbers that are not finite.

## Main definitions

* `Value.ofDocument` — the value of a generic tree
* `Value.toDocument` — the generic tree of a value
-/

namespace Formulary.Value

/-- The value of a number: a long if it is whole and fits, else a double. -/
def ofNumeral (n : Numeral) : Value :=
  match n.toInt64? with
  | some i => long i
  | none => double n.toDouble

mutual

/-- The value of a generic tree. -/
def ofDocument : Document → Value
  | .null => null
  | .boolean b => boolean b
  | .number n => ofNumeral n
  | .string s => string s
  | .array items => list (ofItems items)
  | .object members => map (ofMembers members)

/-- The values of items. -/
def ofItems : List Document → List Value
  | [] => []
  | d :: rest => ofDocument d :: ofItems rest

/-- The values of members. -/
def ofMembers : List (String × Document) → List (String × Value)
  | [] => []
  | (k, d) :: rest => (k, ofDocument d) :: ofMembers rest

end

mutual

/-- The generic tree of a value. -/
def toDocument : Value → Document
  | null => .null
  | boolean b => .boolean b
  | integer n => .whole n.toInt
  | long n => .whole n.toInt
  | double x => .real x
  | decimal d => .real (Double.ofDecimal d)
  | string s => .string s
  | time t => .string t.text
  | booleanArray items => .array (items.map .boolean)
  | integerArray items => .array (items.map fun n => .whole n.toInt)
  | longArray items => .array (items.map fun n => .whole n.toInt)
  | doubleArray items => .array (items.map .real)
  | decimalArray items => .array (items.map fun d => .real (Double.ofDecimal d))
  | stringArray items => .array (items.map .string)
  | objectArray items => .array (toItems items)
  | list items => .array (toItems items)
  | map entries => .object (toMembers entries)

/-- The generic trees of values. -/
def toItems : List Value → List Document
  | [] => []
  | v :: rest => toDocument v :: toItems rest

/-- The generic trees of named values. -/
def toMembers : List (String × Value) → List (String × Document)
  | [] => []
  | (k, v) :: rest => (k, toDocument v) :: toMembers rest

end

theorem ofItems_eq_map (items : List Document) : ofItems items = items.map ofDocument := by
  induction items with
  | nil => rfl
  | cons d rest ih => rw [ofItems, ih, List.map_cons]

theorem toItems_eq_map (items : List Value) : toItems items = items.map toDocument := by
  induction items with
  | nil => rfl
  | cons v rest ih => rw [toItems, ih, List.map_cons]

theorem ofMembers_eq_map (members : List (String × Document)) :
    ofMembers members = Entries.mapValues ofDocument members := by
  induction members with
  | nil => rfl
  | cons head rest ih => rw [ofMembers, ih]; rfl

theorem toMembers_eq_map (entries : List (String × Value)) :
    toMembers entries = Entries.mapValues toDocument entries := by
  induction entries with
  | nil => rfl
  | cons head rest ih => rw [toMembers, ih]; rfl

end Formulary.Value
