import Formulary.Expr.Basic
import Formulary.Expr.Literal
import Formulary.Expr.Printer
import Formulary.Plan.Basic
import Formulary.Record.Layout

/-!
# Binding expressions

An expression is bound against a registry and, if it has variables, against a layout. Names are
constants of the registry first and then fields of the layout; `$` is the layout itself. Indexes
into tuples and dicts are resolved while binding, and an operator whose operands are all constant
is evaluated at once. When that fails the operator stays, and fails when the plan is evaluated.

## Main definitions

* `Scope` — what expressions are bound against
* `Bound` — a plan, or a part of the layout that still has to be indexed
* `Scope.bind` — the binding of an expression
* `Expr.compile` — the plan of an expression
-/

namespace Formulary

/-- What expressions are bound against. -/
structure Scope where
  /-- The layout of the record. -/
  layout : Option Layout
  /-- The tables, functions and constants. -/
  registry : Registry

/-- A bound expression, or a part of the layout that has no value of its own. -/
inductive Bound
  | plan (p : Plan)
  | structural (node : Layout)

namespace Bound

/-- A node of the layout: a leaf is a variable. -/
def ofLayout : Layout → Bound
  | .leaf tag slot => plan (.var slot tag)
  | node => structural node

/-- The plan; a structural part has none. -/
def toPlan (source : Expr) : Bound → Except Fault Plan
  | plan p => .ok p
  | structural node => .error (.unindexedStructure source.print node.tag)

end Bound

namespace Plan

/-- A plan whose operands are constant is evaluated; what fails stays as it is. -/
def fold (constant : Bool) (p : Plan) : Plan :=
  if constant then
    match p.eval none with
    | .ok v => const v
    | .error _ => p
  else p

/-- A logical operator. -/
def logical (op : BinaryOp) (l r : Plan) : Plan :=
  fold (l.isConst && r.isConst) (if op = .and then and l r else or l r)

end Plan

namespace Layout

/-- The part of a structural node under a constant index. -/
def part? (node : Layout) : Plan → Option Layout
  | .const (.long i) => if 0 ≤ i.toInt then node.element? i.toInt.toNat else none
  | .const (.integer i) => if 0 ≤ i.toInt then node.element? i.toInt.toNat else none
  | .const (.string name) => node.field? name
  | _ => none

end Layout

namespace Scope

/-- The name of the whole record. -/
def rootName : String := "$"

/-- The binding of a name. -/
def bindName (s : Scope) (name : String) : Except Fault Bound :=
  match s.registry.constant? name with
  | some v => .ok (.plan (.const v))
  | none =>
    match s.layout.bind fun node => if name = rootName then some node else node.field? name with
    | some node => .ok (.ofLayout node)
    | none => .error (.unknownIdentifier name)

/-- An operator or a function of a table, on bound operands. -/
def applyTable (s : Scope) (name : String) (args : List Plan) : Except Fault Plan :=
  match s.registry.table? name with
  | none => .error (.unknownFunction name)
  | some table => do
    let resolution ← table.resolve (Plan.signature args)
    return Plan.fold (args.all Plan.isConst) (.apply table resolution args)

/-- A call by name, on bound arguments. -/
def applyNamed (s : Scope) (name : String) (args : List Plan) : Except Fault Plan :=
  match s.registry.function? name with
  | some f => .ok (Plan.fold (args.all Plan.isConst) (.call f args))
  | none => s.applyTable name args

/-- An index into a bound expression. -/
def applyIndex (s : Scope) (base : Bound) (indexSource : Expr) (index : Plan) :
    Except Fault Bound :=
  match base with
  | .plan p => do return .plan (← s.applyTable "index" [p, index])
  | .structural node =>
    match node.part? index with
    | some part => .ok (.ofLayout part)
    | none => .error (.invalidIndex indexSource.print node.tag)

mutual

/-- The binding of an expression. -/
def bind (s : Scope) : Expr → Except Fault Bound
  | .const v _ => .ok (.plan (.const v))
  | .var name _ => s.bindName name
  | .call name args _ => do return .plan (← s.applyNamed name (← bindAll s args))
  | .index base index _ => do
    let base ← bind s base
    let position ← (← bind s index).toPlan index
    s.applyIndex base index position
  | .unary op operand _ => do
    let p ← (← bind s operand).toPlan operand
    return .plan (← s.applyTable op.table [p])
  | .binary op l r _ => do
    let p ← (← bind s l).toPlan l
    let q ← (← bind s r).toPlan r
    match op.table? with
    | some name => return .plan (← s.applyTable name [p, q])
    | none => return .plan (Plan.logical op p q)

/-- The plans of several expressions. -/
def bindAll (s : Scope) : List Expr → Except Fault (List Plan)
  | [] => .ok []
  | e :: rest => do
    let p ← (← bind s e).toPlan e
    let ps ← bindAll s rest
    return p :: ps

end

end Scope

/-- The plan of an expression. -/
def Expr.compile (e : Expr) (s : Scope) : Except Fault Plan := do (← s.bind e).toPlan e

/-- The plan of a source text. -/
def Plan.ofSource (s : Scope) (source : String) : Except Fault Plan := do
  (← Expr.ofSource source).compile s

end Formulary
