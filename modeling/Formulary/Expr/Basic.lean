import Formulary.Expr.Operator
import Formulary.Span
import Formulary.Value.Basic

/-!
# Expressions

Expressions with their literals as values. Access to a member is indexing by its name.

## Main definitions

* `Expr` — an expression
* `Expr.span` — its place in the source
* `Expr.height` — the number of nodes on the longest way down
-/

namespace Formulary

/-- An expression. -/
inductive Expr
  | const (value : Value) (span : Span)
  | var (name : String) (span : Span)
  | call (name : String) (args : List Expr) (span : Span)
  | index (base index : Expr) (span : Span)
  | unary (op : UnaryOp) (operand : Expr) (span : Span)
  | binary (op : BinaryOp) (left right : Expr) (span : Span)
  deriving Inhabited

namespace Expr

/-- The place of a node. -/
def span : Expr → Span
  | const _ s | var _ s | call _ _ s | index _ _ s | unary _ _ s | binary _ _ _ s => s

mutual

/-- The number of nodes on the longest way down. -/
def height : Expr → Nat
  | const .. | var .. => 1
  | call _ args _ => 1 + heights args
  | index base i _ => 1 + max (height base) (height i)
  | unary _ operand _ => 1 + height operand
  | binary _ l r _ => 1 + max (height l) (height r)

/-- The greatest height among expressions. -/
def heights : List Expr → Nat
  | [] => 0
  | e :: rest => max (height e) (heights rest)

end

end Expr

end Formulary
