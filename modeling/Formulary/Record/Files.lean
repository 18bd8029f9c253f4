import Formulary.Document.Format
import Formulary.Record.Fields
import Formulary.Record.SchemaDocument

/-!
# Schemas and records as texts

## Main definitions

* `Schema.parse`, `Schema.serialize` — schemas from and to texts
* `Record.parse`, `Record.serialize` — records of a schema from and to texts
-/

namespace Formulary

/-- The schema written by a text. -/
def Schema.parse (format : Format) (text : String) : Except Fault Schema :=
  match (format.readNamed? text).bind (Schema.ofDocument? false) with
  | some s => .ok s
  | none => .error (.badSchema "the text is no schema")

/-- The text of a schema. -/
def Schema.serialize (format : Format) (s : Schema) : String := format.writePretty s.toDocument

/-- The record of a schema written by a text. -/
def Record.parse (format : Format) (s : Schema) (text : String) : Except Fault Record := do
  return s.read (← format.read text)

/-- The text of a record of a schema. -/
def Record.serialize (format : Format) (s : Schema) (r : Record) : String :=
  format.write (s.write r)

end Formulary
