import Formulary.Console.Options
import Formulary.Library.Builtins
import Formulary.Plan.Compile
import Formulary.Record.Files

/-!
# Console sessions

A session holds a layout and a record, if they are given, and evaluates expressions on them. The
console reads a line, prints the value or the fault, and ends at a blank line or at the end of the
input. Files are given as a function from names to contents, so that a whole run is a value.

The clock is read once for every expression, when it is about to be bound: `time()` is a constant of
the bound expression. All calls of `time()` in one expression share the reading. In a whole run the
clock is given as a function, from the number of a line to the moment when the line is answered.

## Main definitions

* `Console.Session` — what expressions are evaluated against
* `Console.Session.scope` — what they are bound against
* `Console.Session.ofOptions` — the session of a set of options
* `Console.Session.answer` — what is printed for a line
* `Console.run` — a whole run
-/

namespace Formulary.Console

open Calendar

/-- What expressions are evaluated against. -/
structure Session where
  /-- The layout of the record, if there is a schema. -/
  layout : Option Layout
  /-- The record, if there is one. -/
  record : Option Record
  /-- Whether plans are printed. -/
  compiled : Bool

/-- Why a session cannot be opened. -/
inductive OpenFault
  /-- The file of the schema is not there. -/
  | noSchemaFile (path : String)
  /-- The file of the schema holds no schema. -/
  | noSchema (path : String)
  /-- The file of the record is not there. -/
  | noRecordFile (path : String)
  /-- The record does not fit the format. -/
  | noRecord
  /-- A record is given without a schema. -/
  | schemaNeeded
  deriving Repr, DecidableEq, Inhabited

/-- The text of a fault. -/
def OpenFault.message : OpenFault → String
  | noSchemaFile path => s!"reading schema {path}"
  | noSchema path => s!"compiling schema {path}"
  | noRecordFile path => s!"reading record {path}"
  | noRecord => "reading record"
  | schemaNeeded => "a record needs a --schema"

/-- The contents of files by name. -/
abbrev Files := String → Option String

/-! ### Opening -/

/-- The format of a file, or another if its name tells none. -/
def formatOf (path : String) (fallback : Format) : Format :=
  match Format.ofPath path with
  | .ok format => format
  | .error _ => fallback

/-- The schema that the options name. -/
def openSchema (files : Files) (o : Options) : Except OpenFault (Option Schema) :=
  match o.schema with
  | none => .ok none
  | some path =>
    match files path with
    | none => .error (.noSchemaFile path)
    | some text =>
      match Schema.parse (formatOf path o.format) text with
      | .ok s => .ok (some s)
      | .error _ => .error (.noSchema path)

/-- The text of the record that the options give, with its format. -/
def openText (files : Files) (o : Options) : Except OpenFault (Option (String × Format)) :=
  match o.data, o.dataFile with
  | some text, _ => .ok (some (text, o.format))
  | none, some path =>
    match files path with
    | some text => .ok (some (text, formatOf path o.format))
    | none => .error (.noRecordFile path)
  | none, none => .ok none

/-- The record that the options give, which needs a schema. -/
def openRecord (files : Files) (o : Options) (schema : Option Schema) :
    Except OpenFault (Option Record) := do
  match ← openText files o, schema with
  | none, _ => return none
  | some _, none => throw .schemaNeeded
  | some (text, format), some s =>
    match Record.parse format s text with
    | .ok r => return some r
    | .error _ => throw .noRecord

/-- The session of a set of options. -/
def Session.ofOptions (files : Files) (o : Options) : Except OpenFault Session := do
  let schema ← openSchema files o
  let record ← openRecord files o schema
  return ⟨schema.map Layout.ofSchema, record, o.compiled⟩

/-! ### Evaluating -/

/-- The names that an expression can use which is bound at the moment `now`. -/
def Session.scope (s : Session) (now : DateTime) : Scope := ⟨s.layout, .standard now⟩

/-- What is printed before the value of an expression, and the value. -/
def Session.eval (s : Session) (now : DateTime) (source : String) :
    String × Except Fault Value :=
  match Plan.ofSource (s.scope now) source with
  | .error e => ("", .error e)
  | .ok p => (if s.compiled then p.text ++ "\n" else "", p.eval s.record)

/-- What is printed for a line of the console; nothing for a blank line, which ends it. -/
def Session.answer (s : Session) (now : DateTime) (line : String) : Option String :=
  let source := Text.trim line
  if source.isEmpty then none
  else
    match s.eval now source with
    | (printed, .ok v) => some (printed ++ v.text ++ "\n")
    | (printed, .error e) => some (printed ++ "error: " ++ e.message ++ "\n")

/-- All that the console prints for some lines, which are answered at the moments of the clock. -/
def Session.transcript (s : Session) (prompt : String) (clock : Nat → DateTime) :
    List String → String
  | [] => prompt
  | line :: rest =>
    match s.answer (clock 0) line with
    | none => prompt
    | some printed => prompt ++ printed ++ s.transcript prompt (fun i => clock (i + 1)) rest

@[simp] theorem Session.transcript_nil (s : Session) (prompt : String) (clock : Nat → DateTime) :
    s.transcript prompt clock [] = prompt := rfl

/-- A blank line ends the console, whatever follows it. -/
theorem Session.transcript_blank (s : Session) (prompt : String) (clock : Nat → DateTime)
    {line : String} (rest : List String) (h : s.answer (clock 0) line = none) :
    s.transcript prompt clock (line :: rest) = prompt := by
  rw [transcript, h]

/-! ### Whole runs -/

/-- What a run leaves behind. -/
structure Outcome where
  /-- The exit code. -/
  code : Nat
  /-- What is printed. -/
  output : String
  /-- What is printed about a failure. -/
  failure : String
  deriving Repr, DecidableEq, Inhabited

namespace Outcome

/-- The exit code of arguments that ask for nothing. -/
def usageCode : Nat := 2

/-- A run that ends well. -/
def success (output : String) : Outcome := ⟨0, output, ""⟩

/-- A run that fails after it has printed something. -/
def failed (output message : String) : Outcome := ⟨1, output, "Error: " ++ message ++ "\n"⟩

/-- A run whose arguments ask for nothing. -/
def misused (f : UsageFault) : Outcome := ⟨usageCode, "", "error: " ++ f.message ++ "\n"⟩

end Outcome

/-- The outcome of evaluating one expression. -/
def Session.outcome (s : Session) (now : DateTime) (source : String) : Outcome :=
  match s.eval now source with
  | (printed, .ok v) => .success (printed ++ v.text ++ "\n")
  | (printed, .error e) => .failed printed e.message

/-- The lines of a text. What follows the last line end is a line if it is not empty. -/
def linesOf (text : String) : List String :=
  match (text.toList.splitOn '\n').reverse with
  | [] :: rest => rest.reverse.map String.ofList
  | parts => parts.reverse.map String.ofList

/-- A whole run on an input. A single expression is evaluated at the first moment of the clock. -/
def run (clock : Nat → DateTime) (files : Files) (args : List String) (input : String) : Outcome :=
  match Command.ofArgs args with
  | .error f => .misused f
  | .ok .version => .success versionText
  | .ok .help => .success helpText
  | .ok (.run o) =>
    match Session.ofOptions files o with
    | .error f => .failed "" f.message
    | .ok s =>
      match o.expression with
      | some source => s.outcome (clock 0) source
      | none => .success (s.transcript o.prompt clock (linesOf input))

end Formulary.Console
