import Formulary.Entries
import Formulary.Tag

/-!
# Schemas

A schema describes the shape of a record: scalars with an optional format, arrays of one kind of
item or with an item per position, and objects with named properties.

## Main definitions

* `Schema` — a schema
* `Schema.scalarTag?` — the kind of a schema that describes one scalar

## Main results

* `Schema.arrayOf?_scalarTag` — every scalar kind has a typed array
-/

namespace Formulary

/-- The shape of a record. -/
inductive Schema
  | integer (format : Option String)
  | number (format : Option String)
  | string
  | boolean
  /-- An array of any items. -/
  | array (additional : Option Bool)
  /-- An array of items that share one schema. -/
  | arrayOf (item : Schema) (additional : Option Bool)
  /-- An array with a schema for each position, and perhaps items after them. -/
  | arrayAt (items : List Schema) (additional : Option Bool)
  /-- An object of any members. -/
  | object (additional : Option Bool)
  /-- An object with named properties, and perhaps other members. -/
  | record (properties : List (String × Schema)) (additional : Option Bool)
  deriving Inhabited

namespace Schema

/-- The format of integers of thirty-two bits. -/
def int32Format : String := "int32"

/-- The format of exact numbers. -/
def decimalFormat : String := "decimal"

/-- The kind of a schema that describes one scalar. -/
def scalarTag? : Schema → Option Tag
  | integer format => some (if format = some int32Format then .integer else .long)
  | number format => some (if format = some decimalFormat then .decimal else .double)
  | string => some .string
  | boolean => some .boolean
  | _ => none

mutual

/-- Equality of schemas. -/
def same : Schema → Schema → Bool
  | integer f, integer g => f == g
  | number f, number g => f == g
  | string, string => true
  | boolean, boolean => true
  | array a, array b => a == b
  | arrayOf s a, arrayOf t b => same s t && a == b
  | arrayAt ss a, arrayAt ts b => sameAll ss ts && a == b
  | object a, object b => a == b
  | record ps a, record qs b => sameProperties ps qs && a == b
  | _, _ => false

/-- Equality item by item. -/
def sameAll : List Schema → List Schema → Bool
  | [], [] => true
  | s :: ss, t :: ts => same s t && sameAll ss ts
  | _, _ => false

/-- Equality property by property. -/
def sameProperties : List (String × Schema) → List (String × Schema) → Bool
  | [], [] => true
  | (j, s) :: ss, (k, t) :: ts => j == k && same s t && sameProperties ss ts
  | _, _ => false

end

/-- Every scalar kind has a typed array. -/
theorem arrayOf?_scalarTag {s : Schema} {t : Tag} (h : s.scalarTag? = some t) :
    t.arrayOf?.isSome = true := by
  cases s <;> simp only [scalarTag?, Option.some.injEq, reduceCtorEq] at h <;> subst h
  · split <;> rfl
  · split <;> rfl
  · rfl
  · rfl

end Schema

end Formulary
