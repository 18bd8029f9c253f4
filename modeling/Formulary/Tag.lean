/-!
# Type tags

Every value, every leaf of a record and every parameter of an overload carries one of twenty tags.
The numbering is fixed: it may be stored, so a tag keeps its code.

## Main definitions

* `Tag` — the twenty tags, in the order of their codes
* `Tag.code`, `Tag.ofCode?` — the number of a tag and back
* `Tag.element?`, `Tag.arrayOf?` — between a typed array and its elements

## Main results

* `Tag.ofCode?_code` — a code determines its tag
* `Tag.arrayOf?_eq_some_iff` — the two element maps are inverse to each other
-/

namespace Formulary

/-- The kind of a value. -/
inductive Tag
  | boolean
  | integer
  | long
  | double
  | decimal
  | string
  | object
  | booleanArray
  | integerArray
  | longArray
  | doubleArray
  | decimalArray
  | stringArray
  | objectArray
  | list
  | map
  | tuple
  | dict
  | time
  | null
  deriving DecidableEq, Repr, Inhabited

namespace Tag

/-- All tags, by code. -/
def all : List Tag :=
  [boolean, integer, long, double, decimal, string, object, booleanArray, integerArray, longArray,
    doubleArray, decimalArray, stringArray, objectArray, list, map, tuple, dict, time, null]

/-- The number a tag is stored under. -/
def code : Tag → Nat
  | boolean => 1
  | integer => 2
  | long => 3
  | double => 4
  | decimal => 5
  | string => 6
  | object => 7
  | booleanArray => 8
  | integerArray => 9
  | longArray => 10
  | doubleArray => 11
  | decimalArray => 12
  | stringArray => 13
  | objectArray => 14
  | list => 15
  | map => 16
  | tuple => 17
  | dict => 18
  | time => 19
  | null => 20

/-- The tag stored under a number. -/
def ofCode? (n : Nat) : Option Tag := all.find? (·.code == n)

/-- The name of a tag in messages. -/
def name : Tag → String
  | boolean => "BOOLEAN"
  | integer => "INTEGER"
  | long => "LONG"
  | double => "DOUBLE"
  | decimal => "DECIMAL"
  | string => "STRING"
  | object => "OBJECT"
  | booleanArray => "BOOLEAN_ARRAY"
  | integerArray => "INTEGER_ARRAY"
  | longArray => "LONG_ARRAY"
  | doubleArray => "DOUBLE_ARRAY"
  | decimalArray => "DECIMAL_ARRAY"
  | stringArray => "STRING_ARRAY"
  | objectArray => "OBJECT_ARRAY"
  | list => "LIST"
  | map => "MAP"
  | tuple => "TUPLE"
  | dict => "DICT"
  | time => "TIME"
  | null => "NULL"

instance : ToString Tag := ⟨name⟩

/-- The tag with a given name. -/
def ofName? (s : String) : Option Tag := all.find? (·.name == s)

/-- A structural tag belongs to a node of a layout and never to a value. -/
def isStructural : Tag → Bool
  | tuple | dict => true
  | _ => false

/-- The tag of the elements of a typed array. -/
def element? : Tag → Option Tag
  | booleanArray => some boolean
  | integerArray => some integer
  | longArray => some long
  | doubleArray => some double
  | decimalArray => some decimal
  | stringArray => some string
  | objectArray => some object
  | _ => none

/-- The tag of the typed array with such elements. -/
def arrayOf? : Tag → Option Tag
  | boolean => some booleanArray
  | integer => some integerArray
  | long => some longArray
  | double => some doubleArray
  | decimal => some decimalArray
  | string => some stringArray
  | object => some objectArray
  | _ => none

/-- Tags compare by code. -/
instance : Ord Tag := ⟨fun a b => compare a.code b.code⟩

theorem mem_all (t : Tag) : t ∈ all := by cases t <;> decide

/-- A code determines its tag. -/
theorem ofCode?_code (t : Tag) : ofCode? t.code = some t := by cases t <;> decide

theorem code_injective {a b : Tag} (h : a.code = b.code) : a = b := by
  have := ofCode?_code a
  rw [h, ofCode?_code] at this
  exact (Option.some.inj this).symm

/-- The two element maps are inverse to each other. -/
theorem arrayOf?_eq_some_iff (e a : Tag) : e.arrayOf? = some a ↔ a.element? = some e := by
  cases e <;> cases a <;> decide

end Tag

end Formulary
