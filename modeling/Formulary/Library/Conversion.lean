import Formulary.Number.DecimalText
import Formulary.Registry
import Formulary.Text.Search

/-!
# Conversion functions

`int`, `long`, `double` and `decimal` convert numbers of every kind and read texts; blanks around a
number are passed over. `string` prints any value.

## Main definitions

* `Library.reading` — a text read as a number
* `Library.conversions` — the registrations
-/

namespace Formulary.Library

open Overload Carrier

/-- A text read as a number by `read?`. -/
def reading {α : Type} (target : Tag) (read? : List Char → Option α) (s : String) :
    Except Fault α :=
  match read? (Text.trimList s.toList) with
  | some a => .ok a
  | none => .error (.unreadableNumber s target)

/-- The decimal of a double. -/
def decimalOfDouble (x : Float) : Except Fault Decimal :=
  match Double.toDecimal? x with
  | some d => .ok d
  | none => .error (.notDecimal (Double.text x))

/-- The tags that a printable value can carry. -/
def printableTags : List Tag := Tag.all.filter fun t => !t.isStructural && t != .null

/-- The overload that prints values of a tag. -/
def printing (t : Tag) : Overload :=
  ⟨[t], .string, fun args => .ok (.string ((args.head?.map Value.text).getD ""))⟩

/-- The registrations of the conversion functions. -/
def conversions (r : Registry.Builder) : Registry.Builder :=
  (r.registerFamily [] ["int", "long", "double", "decimal", "string"])
    |>.registerOverloads "int"
      [unary integer integer id, unary long integer Int64.toInt32,
        unary double integer Double.toInt32,
        unary decimal integer fun d => d.toInt64.toInt32,
        tryUnary string integer (reading .integer Number.readInt32?)]
    |>.registerOverloads "long"
      [unary integer long Int32.toInt64, unary long long id, unary double long Double.toInt64,
        unary decimal long Decimal.toInt64,
        tryUnary string long (reading .long Number.readInt64?)]
    |>.registerOverloads "double"
      [unary integer double fun n => Double.ofInt n.toInt,
        unary long double fun n => Double.ofInt n.toInt, unary double double id,
        unary decimal double Double.ofDecimal,
        tryUnary string double (reading .double Double.read?)]
    |>.registerOverloads "decimal"
      [unary integer decimal fun n => .ofInt n.toInt, unary long decimal fun n => .ofInt n.toInt,
        tryUnary double decimal decimalOfDouble, unary decimal decimal id,
        tryUnary string decimal (reading .decimal Decimal.read?)]
    |>.registerOverloads "string" (printableTags.map printing)

end Formulary.Library
