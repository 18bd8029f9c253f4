import Formulary.Dispatch.Overload
import Formulary.Text.Debug

/-!
# Dispatch tables

A table answers which overload takes arguments of given tags. A signature is either the parameter
list of an overload, or it is widened onto one: argument by argument, to the declared tag. What the
table does not list may be deferred: the look-up is then repeated on the tags that the arguments
turn out to carry.

## Main definitions

* `Target` — an overload, taken exactly or by widening
* `Resolution` — a target, or the deferred choice of one
* `Table` — the rows of a table
* `Table.lookup`, `Table.resolve` — the choice of an overload
* `Resolution.apply` — evaluation

## Main results

* `Resolution.apply_deferred` — a deferred choice is made by the tags of the arguments
-/

namespace Formulary

/-- An overload that takes arguments. -/
inductive Target
  /-- The arguments carry the declared tags. -/
  | exact (overload : Overload)
  /-- The arguments carry other tags and are converted. -/
  | widened (overload : Overload) (actual : Signature)

namespace Target

/-- The overload. -/
def overload : Target → Overload
  | exact o | widened o _ => o

/-- The signature that the target was chosen for. -/
def signature : Target → Signature
  | exact o => o.params
  | widened _ actual => actual

/-- How a target is shown. -/
def text : Target → String
  | exact o => "native " ++ o.text
  | widened o actual => "induced " ++ signatureText actual ++ " by " ++ o.text

/-- Arguments converted to declared tags, as far as there are both. -/
def convertAll : List Value → Signature → Except Fault (List Value)
  | v :: args, t :: params => do
    let w ← v.convert t
    let rest ← convertAll args params
    return w :: rest
  | _, _ => .ok []

/-- The result for arguments. -/
def apply (target : Target) (args : List Value) : Except Fault Value :=
  match target with
  | exact o => o.body args
  | widened o _ => do o.body (← convertAll args o.params)

end Target

/-- The rows of a table. -/
structure Table where
  /-- The name of the table. -/
  name : String
  /-- The tags that arguments are widened along, widest first. -/
  widening : List Tag
  /-- The targets by signature. The first row of a signature counts. -/
  rows : List (Signature × Target)
  /-- Whether other signatures are left to be looked up again. -/
  defers : Bool

/-- The choice of an overload. -/
inductive Resolution
  | direct (target : Target)
  | deferred

namespace Resolution

/-- The tag of the result, as far as it is known. -/
def result : Resolution → Tag
  | direct target => target.overload.result
  | deferred => .object

/-- How a choice is shown. -/
def text : Resolution → String
  | direct target => target.text
  | deferred => "universal"

/-- The signature that a choice was made for; any, for a deferred one. -/
def signatureText : Resolution → String
  | direct target => Formulary.signatureText target.signature
  | deferred => "(*)"

end Resolution

namespace Table

/-- The target for exactly these tags. -/
def lookup (table : Table) (key : Signature) : Option Target := List.lookup key table.rows

/-- The choice that can be made before the arguments are known. -/
def resolve (table : Table) (key : Signature) : Except Fault Resolution :=
  match table.lookup key with
  | some target => .ok (.direct target)
  | none =>
    if table.defers then .ok .deferred else .error (.noOverload .compile table.name key)

/-- Whether one signature comes before another: by tag codes, and a part before the whole. -/
def signatureLe (a b : Signature) : Bool := (compare a b).isLE

/-- Rows without those that are never found: of neighbours with one signature the first stays. -/
def dropShadowed : List (Signature × Target) → List (Signature × Target)
  | [] => []
  | row :: rest =>
    match dropShadowed rest with
    | [] => [row]
    | next :: more => if row.1 = next.1 then row :: more else row :: next :: more

/-- The rows that look-ups find, in the order of signatures. -/
def entries (table : Table) : List (Signature × Target) :=
  dropShadowed (table.rows.mergeSort fun a b => signatureLe a.1 b.1)

/-- The number of signatures that the table lists. -/
def size (table : Table) : Nat := table.entries.length

/-- How a table is shown. -/
def text (table : Table) : String :=
  "EvaluatorFactory \x7b name: " ++ Text.debugQuoted table.name ++ ", entries: " ++
    toString table.size ++ ", universal: " ++ Value.boolText table.defers ++ " \x7d"

end Table

namespace Resolution

/-- The result for arguments. A deferred choice is made by the tags that they carry. -/
def apply (table : Table) (resolution : Resolution) (args : List Value) : Except Fault Value :=
  match resolution with
  | direct target => target.apply args
  | deferred =>
    match table.lookup (signatureOf args) with
    | some target => target.apply args
    | none => .error (.noOverload .eval table.name (signatureOf args))

/-- A deferred choice is made by the tags of the arguments. -/
theorem apply_deferred {table : Table} {args : List Value} {target : Target}
    (h : table.lookup (signatureOf args) = some target) :
    deferred.apply table args = (direct target).apply table args := by
  simp [apply, h]

end Resolution

end Formulary
