import Formulary.Entries
import Formulary.Number.Double

/-!
# Documents

The generic tree that records and schemas are read from: nothing, truth values, numbers, texts,
arrays and objects. Objects read from a text keep their members as they stand there, repeats
included; a normal document has them sorted by name, the last of a name having won.

## Main definitions

* `Document` — the tree
* `Document.normalize` — members sorted, repeats dropped
* `Document.depth` — how deeply arrays and objects are nested
* `Document.same` — equality of documents; a whole number never equals a real one
-/

namespace Formulary

/-- A number of a document: whole when it is written without a point and an exponent and fits
sixty-four bits, with or without a sign. -/
inductive Numeral
  | whole (n : Int)
  | real (x : Float)
  deriving Repr, Inhabited

namespace Numeral

/-- The numbers that are kept whole. -/
def isWhole (n : Int) : Bool := -2 ^ 63 ≤ n && n < 2 ^ 64

/-- The number as a signed sixty-four bit word. -/
def toInt64? : Numeral → Option Int64
  | whole n => if -2 ^ 63 ≤ n ∧ n < 2 ^ 63 then some (Int64.ofInt n) else none
  | real _ => none

/-- The number as a double. -/
def toDouble : Numeral → Float
  | whole n => Double.ofInt n
  | real x => x

/-- Equality of numbers; a whole number never equals a real one. -/
def same : Numeral → Numeral → Bool
  | whole m, whole n => m == n
  | real x, real y => x == y
  | _, _ => false

end Numeral

/-- A generic tree. -/
inductive Document
  | null
  | boolean (b : Bool)
  | number (n : Numeral)
  | string (s : String)
  | array (items : List Document)
  | object (members : List (String × Document))
  deriving Inhabited

namespace Document

mutual

/-- Members sorted by name at every depth, the last of a name having won. -/
def normalize : Document → Document
  | array items => array (normalizeItems items)
  | object members => object (Entries.ofPairs (normalizeMembers members))
  | d => d

/-- Every item normalized. -/
def normalizeItems : List Document → List Document
  | [] => []
  | d :: rest => normalize d :: normalizeItems rest

/-- Every member normalized, in place. -/
def normalizeMembers : List (String × Document) → List (String × Document)
  | [] => []
  | (k, d) :: rest => (k, normalize d) :: normalizeMembers rest

end

mutual

/-- How deeply arrays and objects are nested. -/
def depth : Document → Nat
  | array items => itemDepth items + 1
  | object members => memberDepth members + 1
  | _ => 0

/-- The greatest depth of an item. -/
def itemDepth : List Document → Nat
  | [] => 0
  | d :: rest => max (depth d) (itemDepth rest)

/-- The greatest depth of a member. -/
def memberDepth : List (String × Document) → Nat
  | [] => 0
  | (_, d) :: rest => max (depth d) (memberDepth rest)

end

mutual

/-- Equality of documents, member by member in the order they stand. -/
def same : Document → Document → Bool
  | null, null => true
  | boolean a, boolean b => a == b
  | number m, number n => m.same n
  | string s, string t => s == t
  | array as, array bs => sameItems as bs
  | object as, object bs => sameMembers as bs
  | _, _ => false

/-- Equality item by item. -/
def sameItems : List Document → List Document → Bool
  | [], [] => true
  | a :: as, b :: bs => same a b && sameItems as bs
  | _, _ => false

/-- Equality member by member. -/
def sameMembers : List (String × Document) → List (String × Document) → Bool
  | [], [] => true
  | (j, a) :: as, (k, b) :: bs => j == k && same a b && sameMembers as bs
  | _, _ => false

end

/-- A real number, or nothing where the double is no finite number. -/
def real (x : Float) : Document := if Double.isFinite x then number (.real x) else null

/-- A whole number. -/
def whole (n : Int) : Document := number (.whole n)

theorem normalizeItems_eq_map (items : List Document) :
    normalizeItems items = items.map normalize := by
  induction items with
  | nil => rfl
  | cons d rest ih => rw [normalizeItems, ih, List.map_cons]

theorem normalizeMembers_eq_map (members : List (String × Document)) :
    normalizeMembers members = members.map fun (k, d) => (k, normalize d) := by
  induction members with
  | nil => rfl
  | cons head rest ih => rw [normalizeMembers, ih, List.map_cons]

end Document

end Formulary
