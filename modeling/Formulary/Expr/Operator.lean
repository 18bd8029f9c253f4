/-!
# Operators

The unary and binary operators of expressions, how tightly they bind, how they are written, and the
dispatch table that each of them is looked up in.

## Main definitions

* `UnaryOp`, `BinaryOp` — the operators
* `BinaryOp.precedence` — the higher, the tighter
* `BinaryOp.table?` — the table of an operator; `and` and `or` have none

## Main results

* `BinaryOp.table?_eq_none_iff` — exactly the logical operators have no table
-/

namespace Formulary

/-- The operators before an operand. -/
inductive UnaryOp
  | positive
  | negative
  | not
  deriving DecidableEq, Repr, Inhabited

/-- The name of the table that an operator is looked up in. -/
def UnaryOp.table : UnaryOp → String
  | positive => "pos"
  | negative => "neg"
  | not => "not"

/-- How an operator is written. -/
def UnaryOp.symbol : UnaryOp → String
  | positive => "+"
  | negative => "-"
  | not => "!"

/-- The operators between two operands. -/
inductive BinaryOp
  | add
  | sub
  | mul
  | div
  | lt
  | le
  | eq
  | ne
  | gt
  | ge
  | startsWith
  | endsWith
  | contains
  | fullMatch
  | and
  | or
  deriving DecidableEq, Repr, Inhabited

namespace BinaryOp

/-- How tightly an operator binds. -/
def precedence : BinaryOp → Nat
  | mul | div => 5
  | add | sub => 4
  | lt | le | eq | ne | gt | ge | startsWith | endsWith | contains | fullMatch => 3
  | and => 2
  | or => 1

/-- The precedence of the relations, which do not associate in print. -/
def relational : Nat := 3

/-- The name of the table that an operator is looked up in. The logical operators have none: their
right operand may never be evaluated. -/
def table? : BinaryOp → Option String
  | add => some "add"
  | sub => some "sub"
  | mul => some "mul"
  | div => some "div"
  | lt => some "lt"
  | le => some "le"
  | eq => some "eq"
  | ne => some "ne"
  | gt => some "gt"
  | ge => some "ge"
  | startsWith => some "startsWith"
  | endsWith => some "endsWith"
  | contains => some "contains"
  | fullMatch => some "matches"
  | and | or => none

/-- How an operator is written. -/
def symbol : BinaryOp → String
  | add => "+"
  | sub => "-"
  | mul => "*"
  | div => "/"
  | lt => "<"
  | le => "<="
  | eq => "=="
  | ne => "!="
  | gt => ">"
  | ge => ">="
  | startsWith => "startsWith"
  | endsWith => "endsWith"
  | contains => "contains"
  | fullMatch => "matches"
  | and => "&&"
  | or => "||"

/-- Exactly the logical operators have no table. -/
theorem table?_eq_none_iff (op : BinaryOp) : op.table? = none ↔ op.precedence < relational := by
  cases op <;> simp [table?, precedence, relational]

end BinaryOp

end Formulary
