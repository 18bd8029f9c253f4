import Formulary.Document.Basic
import Formulary.Record.Schema

/-!
# Schemas as documents

A schema is written as an object whose member `type` names its kind, with the other members that
its kind has. It may also be written as an array: the kind, then the members' values in order.
Members that are `null` are absent, unknown members are passed over, and a known member must not be
repeated. An array's `items` are read as one schema wherever they can be, and else as a list.

Below the outermost schema a kind may also be given by its number.

## Main definitions

* `Schema.toDocument` — the document of a schema
* `Schema.ofDocument?` — the schema written by a document
-/

namespace Formulary.Schema

/-- The kinds of schemas that a document names. -/
inductive Kind
  | integer
  | number
  | string
  | boolean
  | array
  | object
  deriving DecidableEq, Repr

namespace Kind

/-- The name of a kind. -/
def name : Kind → String
  | integer => "integer"
  | number => "number"
  | string => "string"
  | boolean => "boolean"
  | array => "array"
  | object => "object"

/-- The kinds, by number. -/
def all : List Kind := [integer, number, string, boolean, array, object]

/-- The kind that a document names; `nested` documents may give its number. -/
def ofDocument? (nested : Bool) : Document → Option Kind
  | .string s => all.find? (·.name == s)
  | .number (.whole n) => if nested && 0 ≤ n then all[n.toNat]? else none
  | _ => none

end Kind

/-- The items of an array schema. -/
inductive Items
  | absent
  | each (item : Schema)
  | positional (items : List Schema)

/-- The array schema with given items. -/
def ofItems (items : Items) (additional : Option Bool) : Schema :=
  match items with
  | .absent => array additional
  | .each item => arrayOf item additional
  | .positional items => arrayAt items additional

/-- The object schema with given properties. -/
def ofProperties (properties : Option (List (String × Schema))) (additional : Option Bool) :
    Schema :=
  match properties with
  | none => object additional
  | some properties => record properties additional

/-! ### Writing -/

/-- A member with a text, if there is one. -/
def textMember (key : String) : Option String → List (String × Document)
  | none => []
  | some s => [(key, .string s)]

/-- A member with a truth value, if there is one. -/
def flagMember (key : String) : Option Bool → List (String × Document)
  | none => []
  | some b => [(key, .boolean b)]

/-- The member that names a kind. -/
def kindMember (kind : Kind) : String × Document := ("type", .string kind.name)

mutual

/-- The document of a schema. -/
def toDocument : Schema → Document
  | integer format => .object (kindMember .integer :: textMember "format" format)
  | number format => .object (kindMember .number :: textMember "format" format)
  | string => .object [kindMember .string]
  | boolean => .object [kindMember .boolean]
  | array additional => .object (kindMember .array :: flagMember "additionalItems" additional)
  | arrayOf item additional =>
    .object (kindMember .array :: ("items", toDocument item) ::
      flagMember "additionalItems" additional)
  | arrayAt items additional =>
    .object (kindMember .array :: ("items", .array (toDocuments items)) ::
      flagMember "additionalItems" additional)
  | object additional =>
    .object (kindMember .object :: flagMember "additionalProperties" additional)
  | record properties additional =>
    .object (kindMember .object :: ("properties", .object (toMembers properties)) ::
      flagMember "additionalProperties" additional)

/-- The documents of schemas. -/
def toDocuments : List Schema → List Document
  | [] => []
  | s :: rest => toDocument s :: toDocuments rest

/-- The documents of named schemas. -/
def toMembers : List (String × Schema) → List (String × Document)
  | [] => []
  | (k, s) :: rest => (k, toDocument s) :: toMembers rest

end

/-! ### Reading -/

/-- A text that may be absent. -/
def readText? : Document → Option (Option String)
  | .null => some none
  | .string s => some (some s)
  | _ => none

/-- A truth value that may be absent. -/
def readFlag? : Document → Option (Option Bool)
  | .null => some none
  | .boolean b => some (some b)
  | _ => none

/-- A member that may be absent, read by `read`. -/
def readMember? {α : Type} (read : Document → Option (Option α)) (key : String)
    (members : List (String × Document)) : Option (Option α) :=
  match List.lookup key members with
  | none => some none
  | some d => read d

/-- Whether none of the known members is repeated. -/
def unrepeated (known : List String) (members : List (String × Document)) : Bool :=
  known.all fun key => members.countP (·.1 == key) ≤ 1

/-- The known members of a kind, after `type`. -/
def Kind.members : Kind → List String
  | integer | number => ["format"]
  | string | boolean => []
  | array => ["items", "additionalItems"]
  | object => ["properties", "additionalProperties"]

mutual

/-- The schema written by a document. -/
def ofDocument? (nested : Bool) (d : Document) : Option Schema :=
  match d with
  | .object members => do
    let kind ← (List.lookup "type" members).bind (Kind.ofDocument? nested)
    if unrepeated ("type" :: kind.members) members then ofMembers? kind members else none
  | .array (k :: fields) => do ofFields? (← Kind.ofDocument? nested k) fields
  | _ => none
termination_by (sizeOf d, 0)

/-- The schema of a kind with given members. -/
def ofMembers? (kind : Kind) (members : List (String × Document)) : Option Schema :=
  match kind with
  | .integer => (readMember? readText? "format" members).map integer
  | .number => (readMember? readText? "format" members).map number
  | .string => some string
  | .boolean => some boolean
  | .array => do
    let items ← itemsMember? members
    return ofItems items (← readMember? readFlag? "additionalItems" members)
  | .object => do
    let properties ← propertiesMember? members
    return ofProperties properties (← readMember? readFlag? "additionalProperties" members)
termination_by (sizeOf members, 1)

/-- The schema of a kind with given values of its members, in order. -/
def ofFields? (kind : Kind) (fields : List Document) : Option Schema :=
  match kind, fields with
  | .integer, [] => some (integer none)
  | .integer, [format] => (readText? format).map integer
  | .number, [] => some (number none)
  | .number, [format] => (readText? format).map number
  | .string, [] => some string
  | .boolean, [] => some boolean
  | .array, [] => some (array none)
  | .array, [items] => do return ofItems (← readItems? items) none
  | .array, [items, additional] => do
    return ofItems (← readItems? items) (← readFlag? additional)
  | .object, [] => some (object none)
  | .object, [properties] => do return ofProperties (← readProperties? properties) none
  | .object, [properties, additional] => do
    return ofProperties (← readProperties? properties) (← readFlag? additional)
  | _, _ => none
termination_by (sizeOf fields, 0)

/-- The items of an array: one schema, or else a list of schemas. -/
def readItems? (d : Document) : Option Items :=
  match ofDocument? true d with
  | some s => some (.each s)
  | none =>
    match d with
    | .null => some .absent
    | .array ds => (readAll? ds).map .positional
    | _ => none
termination_by (sizeOf d, 1)

/-- The properties of an object. -/
def readProperties? (d : Document) : Option (Option (List (String × Schema))) :=
  match d with
  | .null => some none
  | .object members => (readNamed? members).map fun named => some (Entries.ofPairs named)
  | _ => none
termination_by (sizeOf d, 1)

/-- The member `items`. -/
def itemsMember? (members : List (String × Document)) : Option Items :=
  match members with
  | [] => some .absent
  | (k, d) :: rest => if k = "items" then readItems? d else itemsMember? rest
termination_by (sizeOf members, 0)

/-- The member `properties`. -/
def propertiesMember? (members : List (String × Document)) :
    Option (Option (List (String × Schema))) :=
  match members with
  | [] => some none
  | (k, d) :: rest => if k = "properties" then readProperties? d else propertiesMember? rest
termination_by (sizeOf members, 0)

/-- A list of schemas. -/
def readAll? (ds : List Document) : Option (List Schema) :=
  match ds with
  | [] => some []
  | d :: rest => do return (← ofDocument? true d) :: (← readAll? rest)
termination_by (sizeOf ds, 0)

/-- Named schemas. -/
def readNamed? (members : List (String × Document)) : Option (List (String × Schema)) :=
  match members with
  | [] => some []
  | (k, d) :: rest => do return (k, ← ofDocument? true d) :: (← readNamed? rest)
termination_by (sizeOf members, 0)

end

end Formulary.Schema
