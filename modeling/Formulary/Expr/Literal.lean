import Formulary.Expr.Basic
import Formulary.Expr.Descent
import Formulary.Number.DecimalText
import Formulary.Number.Double
import Formulary.Text.Quoted

/-!
# Literals

The value of a literal as it is written. A whole number is a long, or a decimal when it is too wide
for one; a number with a fraction or an exponent is a double. Quoted texts take the escapes of
JSON, and an escaped apostrophe.

## Main definitions

* `Literal.unescape?` — the text between quotes
* `Literal.value` — the value of a literal
* `Expr.ofTree` — the expression of a parse tree
* `Expr.ofSource` — the expression of a source text
-/

namespace Formulary

namespace Literal

open Text

/-- The character of a one-letter escape. -/
def letter? (c : Char) : Option Char := if c = '\'' then some c else Quoted.escapedChar? c

/-- The unit of four characters: hexadecimal digits, the first of which may be a plus sign. -/
def unit? : List Char → Option Nat
  | '+' :: digits => if digits.isEmpty then none else Quoted.hexNumber? digits
  | digits => Quoted.hexNumber? digits

/-- How escapes are read. -/
def dialect : Quoted.Dialect := ⟨letter?, unit?⟩

/-- The text that stands between quotes. -/
def unescape? (body : List Char) : Option (List Char) := Quoted.decode? dialect body

/-- A literal without the quotes around it. -/
def bodyOf (text : String) : List Char := (text.toList.drop 1).dropLast

/-- The value of a literal, or what is wrong with it. -/
def value (kind : LiteralKind) (text : String) : Except Code Value :=
  match kind with
  | .boolean => .ok (.boolean (text == "true"))
  | .integer =>
    match Number.readInt64? text.toList with
    | some n => .ok (.long n)
    | none =>
      match Decimal.read? text.toList with
      | some d => .ok (.decimal d)
      | none => .error .expectedNumber
  | .real =>
    match Double.read? text.toList with
    | some x => .ok (.double x)
    | none => .error .expectedNumber
  | .string =>
    match unescape? (bodyOf text) with
    | some s => .ok (.string (String.ofList s))
    | none => .error .badEscape

end Literal

namespace Expr

/-- The place of a member's name, which ends the member. -/
def nameSpan (name : String) (member : Span) : Span :=
  .of (member.stop - name.utf8ByteSize) member.stop

mutual

/-- The expression of a parse tree. -/
def ofTree : Tree → Except SyntaxFault Expr
  | .literal kind text span =>
    match Literal.value kind text with
    | .ok v => .ok (const v span)
    | .error code => .error ⟨span, code⟩
  | .var name span => .ok (var name span)
  | .call name args span => do return call name (← ofTrees args) span
  | .index base i span => do return index (← ofTree base) (← ofTree i) span
  | .member base name span => do
    return index (← ofTree base) (const (.string name) (nameSpan name span)) span
  | .unary op operand span => do return unary op (← ofTree operand) span
  | .binary op l r span => do return binary op (← ofTree l) (← ofTree r) span

/-- The expressions of parse trees. -/
def ofTrees : List Tree → Except SyntaxFault (List Expr)
  | [] => .ok []
  | t :: rest => do return (← ofTree t) :: (← ofTrees rest)

end

/-- The expression of a source text. -/
def ofSource (source : String) : Except Fault Expr :=
  match Tree.ofSource source with
  | .error fault => .error (.located fault)
  | .ok none => .error .emptyExpression
  | .ok (some tree) => (ofTree tree).mapError .located

end Expr

end Formulary
