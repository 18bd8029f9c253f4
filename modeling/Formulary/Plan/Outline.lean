import Formulary.Plan.Basic
import Formulary.Text.Debug

/-!
# Outlines of plans

A plan and the values in it are shown constructor by constructor, with their fields by name.

## Main definitions

* `Value.outline` — a value by its constructor
* `Plan.outline` — a plan by its constructors
-/

namespace Formulary

/-- Parts in brackets. -/
def bracketedOutline (parts : List String) : String := "[" ++ ", ".intercalate parts ++ "]"

/-- A constructor with its arguments. -/
def constructorOutline (name : String) (args : List String) : String :=
  name ++ "(" ++ ", ".intercalate args ++ ")"

/-- The constructor of a tag. -/
def Tag.outline : Tag → String
  | boolean => "Bool"
  | integer => "Int"
  | long => "Long"
  | double => "Double"
  | decimal => "Decimal"
  | string => "String"
  | object => "Object"
  | booleanArray => "BoolArray"
  | integerArray => "IntArray"
  | longArray => "LongArray"
  | doubleArray => "DoubleArray"
  | decimalArray => "DecimalArray"
  | stringArray => "StringArray"
  | objectArray => "ObjectArray"
  | list => "List"
  | map => "Map"
  | tuple => "Tuple"
  | dict => "Dict"
  | time => "Time"
  | null => "Null"

/-- The words of a magnitude in base `2 ^ 64`, least significant first. -/
def wordsOf (n : Nat) : List Nat :=
  if n = 0 then [] else n % 2 ^ 64 :: wordsOf (n / 2 ^ 64)
termination_by n

/-- A decimal by its sign, its scale and the words of its magnitude. -/
def Decimal.outline (d : Decimal) : String :=
  let sign := if d.unscaled < 0 then "Minus" else if d.unscaled = 0 then "NoSign" else "Plus"
  "BigDecimal(sign=" ++ sign ++ ", scale=" ++ toString d.scale ++ ", digits=" ++
    bracketedOutline ((wordsOf d.unscaled.natAbs).map toString) ++ ")"

/-- A time with as many digits of its fraction as it needs, in threes. -/
def Calendar.DateTime.outline (t : Calendar.DateTime) : String :=
  let nanos := t.nano % nanosPerSecond
  let fraction :=
    if nanos = 0 then ""
    else if nanos % 1000000 = 0 then "." ++ Number.padded 3 (nanos / 1000000)
    else if nanos % 1000 = 0 then "." ++ Number.padded 6 (nanos / 1000)
    else "." ++ Number.padded 9 nanos
  let whole := ((t.text.toList.takeWhile (· != '.')).map fun c => if c == ' ' then 'T' else c)
  String.ofList whole ++ fraction

namespace Value

mutual

/-- A value by its constructor. -/
def outline : Value → String
  | null => "Null"
  | boolean b => constructorOutline "Bool" [boolText b]
  | integer n => constructorOutline "Int" [toString n.toInt]
  | long n => constructorOutline "Long" [toString n.toInt]
  | double x => constructorOutline "Double" [Double.text x]
  | decimal d => constructorOutline "Decimal" [d.outline]
  | string s => constructorOutline "String" [Text.debugQuoted s]
  | time t => constructorOutline "Time" [t.outline]
  | booleanArray items => constructorOutline "BoolArray" [bracketedOutline (items.map boolText)]
  | integerArray items =>
    constructorOutline "IntArray" [bracketedOutline (items.map fun n => toString n.toInt)]
  | longArray items =>
    constructorOutline "LongArray" [bracketedOutline (items.map fun n => toString n.toInt)]
  | doubleArray items =>
    constructorOutline "DoubleArray" [bracketedOutline (items.map Double.text)]
  | decimalArray items =>
    constructorOutline "DecimalArray" [bracketedOutline (items.map Decimal.outline)]
  | stringArray items =>
    constructorOutline "StringArray" [bracketedOutline (items.map Text.debugQuoted)]
  | objectArray items => constructorOutline "ObjectArray" [bracketedOutline (outlines items)]
  | list items => constructorOutline "List" [bracketedOutline (outlines items)]
  | map entries =>
    constructorOutline "Map" ["\x7b" ++ ", ".intercalate (entryOutlines entries) ++ "\x7d"]

/-- Values by their constructors. -/
def outlines : List Value → List String
  | [] => []
  | v :: rest => outline v :: outlines rest

/-- Named values by their constructors. -/
def entryOutlines : List (String × Value) → List String
  | [] => []
  | (k, v) :: rest => (Text.debugQuoted k ++ ": " ++ outline v) :: entryOutlines rest

end

end Value

namespace Plan

/-- A structure with its fields. -/
def structureOutline (name : String) (fields : List (String × String)) : String :=
  name ++ " \x7b " ++ ", ".intercalate (fields.map fun (k, v) => k ++ ": " ++ v) ++ " \x7d"

mutual

/-- A plan by its constructors. -/
def outline : Plan → String
  | const v => constructorOutline "Const" [v.outline]
  | var slot t => structureOutline "Var" [("slot", toString slot), ("type_code", t.outline)]
  | apply table resolution args =>
    constructorOutline "Op" [structureOutline "RtOp"
      [("name", Text.debugQuoted table.name),
        ("key", Text.debugQuoted resolution.signatureText),
        ("args", bracketedOutline (outlines args))]]
  | and l r => constructorOutline "And" [outline l, outline r]
  | or l r => constructorOutline "Or" [outline l, outline r]
  | call f args =>
    constructorOutline "Fun" [structureOutline "RtFun"
      [("func", f.text), ("args", bracketedOutline (outlines args))]]

/-- Plans by their constructors. -/
def outlines : List Plan → List String
  | [] => []
  | p :: rest => outline p :: outlines rest

end

end Plan

end Formulary
