import Formulary.Document.Json.Reader
import Formulary.Document.Json.Writer
import Formulary.Document.Yaml.Reader
import Formulary.Document.Yaml.Writer
import Formulary.Fault

/-!
# Formats

Documents are read and written as JSON or as YAML. The format of a file is told by the extension of
its name.

## Main definitions

* `Format` — the formats
* `Format.ofPath` — the format of a file
* `Format.readRaw?`, `Format.readNamed?`, `Format.read` — documents from texts
* `Format.write` — texts from documents
-/

namespace Formulary

/-- How documents are written. -/
inductive Format
  | json
  | yaml
  deriving DecidableEq, Repr, Inhabited

namespace Format

/-! ### File names -/

/-- The parts of a path between slashes. Parts that stay in place are dropped. -/
def components (path : String) : List String :=
  (path.splitOn "/").filter fun part => part != "" && part != "."

/-- The name of the file that a path leads to. -/
def fileName? (path : String) : Option String :=
  (components path).getLast?.filter (· != "..")

/-- What follows the last point of a file name, unless that point leads the name. -/
def extension? (path : String) : Option String :=
  (fileName? path).bind fun name =>
    match name.toList.reverse.span (· != '.') with
    | (_, []) | (_, [_]) => none
    | (reversed, _) => some (String.ofList reversed.reverse)

/-- The format of a file. -/
def ofPath (path : String) : Except Fault Format :=
  match extension? path with
  | some "json" => .ok json
  | some "yml" | some "yaml" => .ok yaml
  | _ => .error (.unsupportedFormat path)

/-! ### Documents -/

/-- The document written by a text, its members as they stand. -/
def readRaw? (format : Format) (text : String) : Option Document :=
  match format with
  | json => Json.read? text.toList
  | yaml => Yaml.read? text.toList

/-- The document written by a text whose keys are texts, its members as they stand. -/
def readNamed? (format : Format) (text : String) : Option Document :=
  match format with
  | json => Json.read? text.toList
  | yaml => Yaml.readNamed? text.toList

/-- The document written by a text. -/
def read (format : Format) (text : String) : Except Fault Document :=
  match readRaw? format text with
  | some d => .ok d.normalize
  | none => .error (.badDocument "the text is no document")

/-- The text of a document. -/
def write (format : Format) (d : Document) : String :=
  match format with
  | json => Json.compact d
  | yaml => Yaml.write d

/-- The text of a document that people read. -/
def writePretty (format : Format) (d : Document) : String :=
  match format with
  | json => Json.pretty d
  | yaml => Yaml.write d

end Format

end Formulary
