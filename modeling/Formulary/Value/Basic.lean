import Formulary.Calendar.DateTime
import Formulary.Entries
import Formulary.Number.Shortest
import Formulary.Tag

/-!
# Values

What expressions compute with: the absence of a value, scalars, typed arrays, and lists and maps of
any values.

## Main definitions

* `Value` — a value
* `Value.tag` — its kind
* `Value.text` — its printed form
* `Value.same` — equality; decimals are compared as numbers
* `Tag.Admits` — the values that something of a known tag may turn out to be

## Main results

* `Value.tag_ne_object`, `Value.isStructural_tag` — tags that no value carries
-/

namespace Formulary

open Calendar

/-- A value. -/
inductive Value
  | null
  | boolean (b : Bool)
  | integer (n : Int32)
  | long (n : Int64)
  | double (x : Float)
  | decimal (d : Decimal)
  | string (s : String)
  | time (t : DateTime)
  | booleanArray (items : List Bool)
  | integerArray (items : List Int32)
  | longArray (items : List Int64)
  | doubleArray (items : List Float)
  | decimalArray (items : List Decimal)
  | stringArray (items : List String)
  | objectArray (items : List Value)
  | list (items : List Value)
  | map (entries : List (String × Value))
  deriving Inhabited

namespace Value

/-- The kind of a value. -/
def tag : Value → Tag
  | null => .null
  | boolean _ => .boolean
  | integer _ => .integer
  | long _ => .long
  | double _ => .double
  | decimal _ => .decimal
  | string _ => .string
  | time _ => .time
  | booleanArray _ => .booleanArray
  | integerArray _ => .integerArray
  | longArray _ => .longArray
  | doubleArray _ => .doubleArray
  | decimalArray _ => .decimalArray
  | stringArray _ => .stringArray
  | objectArray _ => .objectArray
  | list _ => .list
  | map _ => .map

/-- Whether there is no value. -/
def isNull : Value → Bool
  | null => true
  | _ => false

/-- The truth value, of a boolean. -/
def toBool? : Value → Option Bool
  | boolean b => some b
  | _ => none

/-- The text, of a string. -/
def toText? : Value → Option String
  | string s => some s
  | _ => none

/-! ### Printed form -/

/-- The text of a truth value. -/
def boolText (b : Bool) : String := if b then "true" else "false"

/-- Texts in square brackets. -/
def bracketed (parts : List String) : String := "[" ++ ", ".intercalate parts ++ "]"

mutual

/-- The printed form. -/
def text : Value → String
  | null => "null"
  | boolean b => boolText b
  | integer n => toString n.toInt
  | long n => toString n.toInt
  | double x => Double.text x
  | decimal d => d.text
  | string s => s
  | time t => t.text
  | booleanArray items => bracketed (items.map boolText)
  | integerArray items => bracketed (items.map fun n => toString n.toInt)
  | longArray items => bracketed (items.map fun n => toString n.toInt)
  | doubleArray items => bracketed (items.map Double.text)
  | decimalArray items => bracketed (items.map Decimal.text)
  | stringArray items => bracketed items
  | objectArray items => bracketed (texts items)
  | list items => bracketed (texts items)
  | map entries => "\x7b" ++ ", ".intercalate (entryTexts entries) ++ "\x7d"

/-- The printed forms of several values. -/
def texts : List Value → List String
  | [] => []
  | v :: rest => text v :: texts rest

/-- The printed forms of named values. -/
def entryTexts : List (String × Value) → List String
  | [] => []
  | (k, v) :: rest => (k ++ ": " ++ text v) :: entryTexts rest

end

/-! ### Equality -/

/-- Equality item by item. -/
def sameList {α : Type} (same : α → α → Bool) : List α → List α → Bool
  | [], [] => true
  | a :: as, b :: bs => same a b && sameList same as bs
  | _, _ => false

mutual

/-- Equality of values of one kind. Decimals are compared as numbers, and what is no number differs
from itself. -/
def same : Value → Value → Bool
  | null, null => true
  | boolean a, boolean b => a == b
  | integer a, integer b => a == b
  | long a, long b => a == b
  | double a, double b => a == b
  | decimal a, decimal b => a.equiv b
  | string a, string b => a == b
  | time a, time b => a == b
  | booleanArray as, booleanArray bs => as == bs
  | integerArray as, integerArray bs => as == bs
  | longArray as, longArray bs => as == bs
  | doubleArray as, doubleArray bs => sameList (· == ·) as bs
  | decimalArray as, decimalArray bs => sameList Decimal.equiv as bs
  | stringArray as, stringArray bs => as == bs
  | objectArray as, objectArray bs => sameItems as bs
  | list as, list bs => sameItems as bs
  | map as, map bs => sameEntries as bs
  | _, _ => false

/-- Equality value by value. -/
def sameItems : List Value → List Value → Bool
  | [], [] => true
  | a :: as, b :: bs => same a b && sameItems as bs
  | _, _ => false

/-- Equality entry by entry. -/
def sameEntries : List (String × Value) → List (String × Value) → Bool
  | [], [] => true
  | (j, a) :: as, (k, b) :: bs => j == k && same a b && sameEntries as bs
  | _, _ => false

end

/-! ### Tags that no value carries -/

theorem tag_ne_object (v : Value) : v.tag ≠ .object := by cases v <;> simp [tag]

theorem isStructural_tag (v : Value) : v.tag.isStructural = false := by cases v <;> rfl

theorem tag_eq_null_iff {v : Value} : v.tag = .null ↔ v = null := by cases v <;> simp [tag]

end Value

/-- A slot or an operand that is known to be of a tag may turn out to hold a value: one that
carries the tag, or any if the tag is `object`. Either may hold no value. -/
def Tag.Admits (t : Tag) (v : Value) : Prop := v = .null ∨ v.tag = t ∨ t = .object

theorem Tag.admits_null (t : Tag) : t.Admits .null := Or.inl rfl

theorem Tag.admits_tag (v : Value) : v.tag.Admits v := Or.inr (Or.inl rfl)

theorem Tag.admits_object (v : Value) : Tag.object.Admits v := Or.inr (Or.inr rfl)

end Formulary
