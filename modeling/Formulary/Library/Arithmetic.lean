import Formulary.Registry

/-!
# Arithmetic

Signs, sums, differences, products, quotients and magnitudes, over integers of both widths, doubles
and decimals. Integers wrap around. A quotient of integers is truncated; one of decimals keeps the
scale of the dividend.

## Main definitions

* `Library.numericWidening` — decimals, doubles, longs, integers
* `Library.arithmetic` — the registrations
-/

namespace Formulary.Library

open Overload Carrier

/-- The sequence that numbers are widened along. -/
def numericWidening : List Tag := [.decimal, .double, .long, .integer]

/-- The fault of a division by zero. -/
def divisionByZero {α : Type} (text : α → String) (a b : α) : Fault :=
  .divisionByZero (text a) (text b)

/-- The truncated quotient of integers. -/
def divideInteger (a b : Int32) : Except Fault Int32 :=
  if b = 0 then .error (divisionByZero (fun n => toString n.toInt) a b) else .ok (a / b)

/-- The truncated quotient of longs. -/
def divideLong (a b : Int64) : Except Fault Int64 :=
  if b = 0 then .error (divisionByZero (fun n => toString n.toInt) a b) else .ok (a / b)

/-- The quotient of decimals at the scale of the dividend. -/
def divideDecimal (a b : Decimal) : Except Fault Decimal :=
  match a.divide? b with
  | some q => .ok q
  | none => .error (divisionByZero Decimal.text a b)

/-- The registrations of arithmetic. -/
def arithmetic (r : Registry.Builder) : Registry.Builder :=
  (r.registerFamily numericWidening ["pos", "neg", "add", "sub", "mul", "div", "abs"])
    |>.registerOverloads "pos"
      [unary integer integer id, unary long long id, unary double double id,
        unary decimal decimal id]
    |>.registerOverloads "neg"
      [unary integer integer (- ·), unary long long (- ·), unary double double (- ·),
        unary decimal decimal Decimal.neg]
    |>.registerOverloads "add"
      [binary integer integer integer (· + ·), binary long long long (· + ·),
        binary double double double (· + ·), binary decimal decimal decimal Decimal.add,
        binary string string string (· ++ ·)]
    |>.registerOverloads "sub"
      [binary integer integer integer (· - ·), binary long long long (· - ·),
        binary double double double (· - ·), binary decimal decimal decimal Decimal.sub]
    |>.registerOverloads "mul"
      [binary integer integer integer (· * ·), binary long long long (· * ·),
        binary double double double (· * ·), binary decimal decimal decimal Decimal.mul]
    |>.registerOverloads "div"
      [tryBinary integer integer integer divideInteger, tryBinary long long long divideLong,
        binary double double double (· / ·), tryBinary decimal decimal decimal divideDecimal]
    |>.registerOverloads "abs"
      [unary integer integer Int32.abs, unary long long Int64.abs, unary double double Float.abs,
        unary decimal decimal Decimal.abs]

end Formulary.Library
