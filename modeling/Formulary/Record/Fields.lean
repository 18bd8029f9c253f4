import Formulary.Document.Json.Writer
import Formulary.Number.DecimalText
import Formulary.Record.Basic
import Formulary.Record.Layout
import Formulary.Text.Search
import Formulary.Value.Convert
import Formulary.Value.Generic

/-!
# Records and documents

A layout reads a document into the slots of a record and writes a record back as a document. Leaves
are lenient: a node of another kind is converted where that makes sense, and else counts as zero,
false or the empty text. Where the document has no node, or nothing, the slot stays without value.

## Main definitions

* `Field.read?` — the value that a leaf takes from a node
* `Layout.fill`, `Layout.read` — from a document to a record
* `Layout.write` — from a record to a document
-/

namespace Formulary

namespace Field

/-- A node as a long. -/
def readLong : Document → Int64
  | .number n => (n.toInt64?).getD (Double.toInt64 n.toDouble)
  | .string s =>
    let cs := Text.trimList s.toList
    ((Number.readInt64? cs).orElse fun _ => (Double.read? cs).map Double.toInt64).getD 0
  | .boolean b => if b then 1 else 0
  | _ => 0

/-- A node as an integer: the low bits of the long. -/
def readInteger (d : Document) : Int32 := (readLong d).toInt32

/-- A node as a double. -/
def readDouble : Document → Float
  | .number n => n.toDouble
  | .string s => (Double.read? (Text.trimList s.toList)).getD 0.0
  | .boolean b => if b then 1.0 else 0.0
  | _ => 0.0

/-- A node as a decimal, from the digits it is written with. -/
def readDecimal : Document → Decimal
  | .number n => (Decimal.read? (Json.numeral n).toList).getD 0
  | .string s => (Decimal.read? (Text.trimList s.toList)).getD 0
  | _ => 0

/-- A node as a text. -/
def readText : Document → String
  | .string s => s
  | .number n => Json.numeral n
  | .boolean b => Value.boolText b
  | .null => "null"
  | .array _ | .object _ => ""

/-- A node as a truth value. -/
def readBoolean : Document → Bool
  | .boolean b => b
  | .number n => n.toDouble != 0.0
  | .string s => Text.trim s == "true"
  | _ => false

/-- The items of an array, each read by `each`. -/
def readArray? {α : Type} (each : Document → α) : Document → Option (List α)
  | .array items => some (items.map each)
  | _ => none

/-- The value that a leaf takes from a node. Nothing leaves the slot without a value. -/
def read? (tag : Tag) (d : Document) : Option Value :=
  match tag, d with
  | _, .null => none
  | .boolean, d => some (.boolean (readBoolean d))
  | .integer, d => some (.integer (readInteger d))
  | .long, d => some (.long (readLong d))
  | .double, d => some (.double (readDouble d))
  | .decimal, d => some (.decimal (readDecimal d))
  | .string, d => some (.string (readText d))
  | .booleanArray, d => (readArray? readBoolean d).map .booleanArray
  | .integerArray, d => (readArray? readInteger d).map .integerArray
  | .longArray, d => (readArray? readLong d).map .longArray
  | .doubleArray, d => (readArray? readDouble d).map .doubleArray
  | .decimalArray, d => (readArray? readDecimal d).map .decimalArray
  | .stringArray, d => (readArray? readText d).map .stringArray
  | .objectArray, d => (readArray? Value.ofDocument d).map .objectArray
  | .list, .array items => some (Value.ofDocument (.array items))
  | .map, .object members => some (Value.ofDocument (.object members))
  | .object, d => some (Value.ofDocument d)
  | _, _ => none

end Field

namespace Layout

mutual

/-- Read a document into the slots of a layout. -/
def fill (slots : List Value) : Layout → Document → List Value
  | leaf tag slot, d =>
    match Field.read? tag d with
    | some v => slots.set slot v
    | none => slots
  | tuple elements, .array items => fillAll slots elements items
  | dict fields, .object members => fillNamed slots fields members
  | _, _ => slots

/-- Read items into the elements of a tuple, as far as both go. -/
def fillAll (slots : List Value) : List Layout → List Document → List Value
  | l :: rest, d :: ds => fillAll (fill slots l d) rest ds
  | _, _ => slots

/-- Read members into the fields of a dict. -/
def fillNamed (slots : List Value) : List (String × Layout) → List (String × Document) →
    List Value
  | [], _ => slots
  | (k, l) :: rest, members =>
    match Entries.find? members k with
    | some d => fillNamed (fill slots l d) rest members
    | none => fillNamed slots rest members

end

mutual

/-- The document of the values in the slots of a layout. -/
def write (r : Record) : Layout → Document
  | leaf _ slot => ((r.get? slot).map Value.toDocument).getD .null
  | tuple elements => .array (writeAll r elements)
  | dict fields => .object (writeNamed r fields)

/-- The documents of elements. -/
def writeAll (r : Record) : List Layout → List Document
  | [] => []
  | l :: rest => write r l :: writeAll r rest

/-- The documents of named fields. -/
def writeNamed (r : Record) : List (String × Layout) → List (String × Document)
  | [] => []
  | (k, l) :: rest => (k, write r l) :: writeNamed r rest

end

end Layout

namespace Schema

/-- A record of the schema without values. -/
def emptyRecord (s : Schema) : Record := .empty (Layout.slotCount s)

/-- The record that a document holds. -/
def read (s : Schema) (d : Document) : Record :=
  ⟨(Layout.ofSchema s).fill s.emptyRecord.slots d⟩

/-- The document of a record. -/
def write (s : Schema) (r : Record) : Document := (Layout.ofSchema s).write r

end Schema

end Formulary
