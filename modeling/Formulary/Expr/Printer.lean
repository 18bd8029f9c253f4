import Formulary.Expr.Basic

/-!
# Printing expressions

An expression is printed as source text, with parentheses only where the grammar needs them.

## Main definitions

* `Expr.needsParens` — whether a child stands in parentheses
* `Expr.print` — the source text of an expression
-/

namespace Formulary.Expr

/-- A character inside single quotes. -/
def quoteChar : Char → List Char
  | '\'' => ['\\', '\'']
  | '\\' => ['\\', '\\']
  | '\n' => ['\\', 'n']
  | '\r' => ['\\', 'r']
  | '\t' => ['\\', 't']
  | c => [c]

/-- A text in single quotes. -/
def quote (s : String) : String := String.ofList ('\'' :: (s.toList.flatMap quoteChar ++ ['\'']))

/-- The text of a constant. -/
def constText : Value → String
  | .string s => quote s
  | v => v.text

/-- Whether an expression is an operator with its operands. -/
def isOperation : Expr → Bool
  | unary .. | binary .. => true
  | _ => false

/-- Whether the operand of a unary operator stands in parentheses. -/
def unaryNeedsParens (op : UnaryOp) : Expr → Bool
  | binary .. => true
  | unary .not _ _ => op != .not
  | _ => false

/-- Whether an operand of a binary operator stands in parentheses on either side: where it binds
looser, and where both are relations, which do not associate. -/
def binaryNeedsParens (op : BinaryOp) : Expr → Bool
  | binary child _ _ _ =>
    child.precedence < op.precedence ||
      (op.precedence == BinaryOp.relational && child.precedence == BinaryOp.relational)
  | unary .not _ _ => BinaryOp.relational ≤ op.precedence
  | _ => false

/-- Whether a right operand stands in parentheses: chains lean to the left. -/
def rightNeedsParens (op : BinaryOp) : Expr → Bool
  | binary child l r s =>
    child.precedence == op.precedence || binaryNeedsParens op (binary child l r s)
  | e => binaryNeedsParens op e

/-- A text, in parentheses or not. -/
def enclosed (parens : Bool) (text : String) : String :=
  if parens then "(" ++ text ++ ")" else text

mutual

/-- The source text of an expression. -/
def print : Expr → String
  | const v _ => constText v
  | var name _ => name
  | call name args _ => name ++ "(" ++ ", ".intercalate (printAll args) ++ ")"
  | index base i _ => enclosed base.isOperation (print base) ++ "[" ++ print i ++ "]"
  | unary op operand _ => op.symbol ++ enclosed (unaryNeedsParens op operand) (print operand)
  | binary op l r _ =>
    enclosed (binaryNeedsParens op l) (print l) ++ " " ++ op.symbol ++ " " ++
      enclosed (rightNeedsParens op r) (print r)

/-- The source texts of expressions. -/
def printAll : List Expr → List String
  | [] => []
  | e :: rest => print e :: printAll rest

end

end Formulary.Expr
