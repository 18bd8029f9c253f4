import Formulary.Clock
import Formulary.Console.Session

/-!
# The command line

Reads the files that the options name, then evaluates one expression or runs the console on the
standard streams.

## Main definitions

* `main` — the program
-/

namespace Formulary.Console

/-- The contents of a file, if it can be read. -/
def contents? (path : String) : IO (Option String) := do
  try
    return some (← IO.FS.readFile path)
  catch _ =>
    return none

/-- The files that the options name. -/
def filesOf (o : Options) : IO Files := do
  let schema ← o.schema.bindM contents?
  let record ← o.dataFile.bindM contents?
  return fun path => if o.schema == some path then schema else record

/-- The console on the standard streams. The clock is read for every line. -/
partial def converse (s : Session) (prompt : String) : IO Unit := do
  let output ← IO.getStdout
  output.putStr prompt
  output.flush
  let line ← (← IO.getStdin).getLine
  match s.answer (← Clock.now) line with
  | none => return
  | some printed =>
    output.putStr printed
    converse s prompt

/-- Prints an outcome and gives its exit code. -/
def Outcome.print (o : Outcome) : IO UInt32 := do
  (← IO.getStdout).putStr o.output
  (← IO.getStderr).putStr o.failure
  return o.code.toUInt32

/-- Runs a set of options. -/
def runOptions (o : Options) : IO UInt32 := do
  match Session.ofOptions (← filesOf o) o, o.expression with
  | .error f, _ => (Outcome.failed "" f.message).print
  | .ok s, some source => (s.outcome (← Clock.now) source).print
  | .ok s, none =>
    converse s o.prompt
    return 0

end Formulary.Console

open Formulary Console in
/-- The program. -/
def main (args : List String) : IO UInt32 :=
  match Command.ofArgs args with
  | .error f => (Outcome.misused f).print
  | .ok .version => (Outcome.success versionText).print
  | .ok .help => (Outcome.success helpText).print
  | .ok (.run o) => runOptions o
