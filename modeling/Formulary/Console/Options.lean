import Formulary.Document.Format

/-!
# Options

The arguments of the command line. An option is given once; its value is the next argument or
follows an equals sign. After two hyphens all arguments stand for themselves.

## Main definitions

* `Console.Options` — what to run
* `Console.Command` — what the arguments ask for
* `Console.Command.ofArgs` — the command of a list of arguments
-/

namespace Formulary.Console

/-- What to run. -/
structure Options where
  /-- The file of the schema. -/
  schema : Option String := none
  /-- The record itself. -/
  data : Option String := none
  /-- The file of the record. -/
  dataFile : Option String := none
  /-- The format of a record given inline and of files whose name tells none. -/
  format : Format := .yaml
  /-- What the console prints before each line. -/
  prompt : String := ">>> "
  /-- Whether plans are printed. -/
  compiled : Bool := false
  /-- The expression to evaluate instead of starting the console. -/
  expression : Option String := none
  deriving Repr, DecidableEq, Inhabited

/-- What the arguments ask for. -/
inductive Command
  | run (options : Options)
  | version
  | help
  deriving Repr, DecidableEq, Inhabited

/-- Arguments that ask for nothing. -/
inductive UsageFault
  /-- An argument that has no place. -/
  | unexpected (argument : String)
  /-- An option without its value. -/
  | missingValue (option : String)
  /-- A value that an option does not take. -/
  | badValue (option value : String)
  /-- An option that is given twice. -/
  | repeated (option : String)
  /-- The record is given inline and as a file. -/
  | conflict
  deriving Repr, DecidableEq, Inhabited

namespace UsageFault

/-- The text of a fault. -/
def message : UsageFault → String
  | unexpected argument => s!"unexpected argument '{argument}' found"
  | missingValue option => s!"a value is required for '{option}' but none was supplied"
  | badValue option value => s!"invalid value '{value}' for '{option}'"
  | repeated option => s!"the argument '{option}' cannot be used multiple times"
  | conflict => "the argument '--data' cannot be used with '--data-file'"

end UsageFault

/-! ### Values of options -/

/-- The name of a file, which is not empty. -/
def fileValue (option value : String) : Except UsageFault (Option String) :=
  if value.isEmpty then .error (.badValue option value) else .ok (some value)

/-- The name of a format. -/
def formatValue (option : String) : String → Except UsageFault Format
  | "json" => .ok .json
  | "yaml" => .ok .yaml
  | value => .error (.badValue option value)

/-- The options that take a value. -/
def valueOptions : List String := ["--schema", "--data", "--data-file", "--format", "--prompt"]

/-- Sets an option to a value. -/
def Options.set (o : Options) (option value : String) : Except UsageFault Options :=
  match option with
  | "--schema" => do return { o with schema := ← fileValue option value }
  | "--data" => .ok { o with data := some value }
  | "--data-file" => do return { o with dataFile := ← fileValue option value }
  | "--format" => do return { o with format := ← formatValue option value }
  | "--prompt" => .ok { o with prompt := value }
  | _ => .error (.unexpected option)

/-- Takes an argument that stands for itself: there is one at most. -/
def Options.setExpression (o : Options) (argument : String) : Except UsageFault Options :=
  match o.expression with
  | none => .ok { o with expression := some argument }
  | some _ => .error (.unexpected argument)

/-! ### Arguments -/

/-- Whether an argument looks like an option. A lone hyphen does not. -/
def looksLikeOption (argument : String) : Bool := argument.startsWith "-" && argument != "-"

/-- An argument split at its first equals sign. -/
def splitValue (argument : String) : String × Option String :=
  match argument.toList.span (· != '=') with
  | (name, _ :: value) => (String.ofList name, some (String.ofList value))
  | (name, []) => (String.ofList name, none)

/-- The options that have been given exclude each other. -/
def checkConflict (o : Options) : Except UsageFault Command :=
  if o.data.isSome && o.dataFile.isSome then .error .conflict else .ok (.run o)

/-- The command of the remaining arguments, given what has been read and which options it had. -/
def commandFrom (o : Options) (seen : List String) : List String → Except UsageFault Command
  | [] => checkConflict o
  | "--" :: rest => do checkConflict (← rest.foldlM Options.setExpression o)
  | "--version" :: _ => .ok .version
  | "--help" :: _ => .ok .help
  | "--compiled" :: rest =>
    if seen.contains "--compiled" then .error (.repeated "--compiled")
    else commandFrom { o with compiled := true } ("--compiled" :: seen) rest
  | argument :: rest =>
    if argument.startsWith "-V" then .ok .version
    else if argument.startsWith "-h" then .ok .help
    else if looksLikeOption argument then
      let (option, inline) := splitValue argument
      if !valueOptions.contains option then .error (.unexpected argument)
      else if seen.contains option then .error (.repeated option)
      else
        match inline, rest with
        | some value, rest => do commandFrom (← o.set option value) (option :: seen) rest
        | none, value :: rest =>
          if looksLikeOption value then .error (.missingValue option)
          else do commandFrom (← o.set option value) (option :: seen) rest
        | none, [] => .error (.missingValue option)
    else do commandFrom (← o.setExpression argument) seen rest

/-- The command of a list of arguments. -/
def Command.ofArgs (args : List String) : Except UsageFault Command := commandFrom {} [] args

/-! ### Fixed answers -/

/-- What is printed when the version is asked for. -/
def versionText : String := "expretau 1.0\n"

/-- What is printed when help is asked for. -/
def helpText : String :=
  "\n".intercalate [
    "Evaluate typed expressions, optionally against a JSON or YAML record",
    "",
    "Usage: expretau [OPTIONS] [EXPRESSION]",
    "",
    "Arguments:",
    "  [EXPRESSION]  evaluate this and exit instead of starting the console",
    "",
    "Options:",
    "      --schema <SCHEMA>        schema describing the record's layout",
    "      --data <DATA>            the record itself, inline",
    "      --data-file <DATA_FILE>  read the record from a file",
    "      --format <FORMAT>        format of inline documents and files without a known extension",
    "                               [default: yaml] [possible values: json, yaml]",
    "      --prompt <PROMPT>        [default: \">>> \"]",
    "      --compiled               print the compiled expression before its value",
    "  -h, --help                   Print help",
    "  -V, --version                Print version",
    ""]

end Formulary.Console
