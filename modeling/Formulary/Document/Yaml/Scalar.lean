import Formulary.Document.Basic
import Formulary.Text.Casing

/-!
# YAML scalars

A scalar without quotes may be nothing, a truth value, an integer in one of four bases or a double;
else it is a text. A text that another reading would claim has to be quoted when it is written.

## Main definitions

* `Yaml.resolve?` — the document of a scalar without quotes
* `Yaml.isAmbiguous` — whether a text has to be quoted to stay a text
-/

namespace Formulary.Yaml

open Number

/-- The spellings of nothing. -/
def isNull (s : String) : Bool := ["", "~", "null", "Null", "NULL"].contains s

/-- The truth value of a spelling. -/
def readBool? (s : String) : Option Bool :=
  if ["true", "True", "TRUE"].contains s then some true
  else if ["false", "False", "FALSE"].contains s then some false
  else none

/-- The value of a digit in a base up to sixteen. -/
def digitIn? (base : Nat) (c : Char) : Option Nat :=
  let n :=
    if '0' ≤ c ∧ c ≤ '9' then c.toNat - '0'.toNat
    else if 'a' ≤ c ∧ c ≤ 'f' then c.toNat - 'a'.toNat + 10
    else if 'A' ≤ c ∧ c ≤ 'F' then c.toNat - 'A'.toNat + 10
    else base
  if n < base then some n else none

/-- The natural number written in a base. -/
def readBase? (base : Nat) (cs : List Char) : Option Nat :=
  if cs.isEmpty then none
  else cs.foldlM (fun n c => (digitIn? base c).map (base * n + ·)) 0

/-- The natural number written with a base mark or in base ten. -/
def readMagnitude? : List Char → Option Nat
  | '0' :: 'x' :: digits => readBase? 16 digits
  | '0' :: 'o' :: digits => readBase? 8 digits
  | '0' :: 'b' :: digits => readBase? 2 digits
  | digits => readBase? 10 digits

/-- Whether a text is made of digits with a needless zero in front, and so is no number. -/
def hasNeedlessZero (cs : List Char) : Bool :=
  let digits := (splitSign cs).2
  1 < digits.length && digits.head? == some '0' && digits.all Char.isDigit

/-- The integer written by a scalar. -/
def readInteger? (cs : List Char) : Option Int :=
  if hasNeedlessZero cs then none
  else
    let (negative, digits) := splitSign cs
    (readMagnitude? digits).map (signed negative)

/-- The finite double written by a scalar, or nothing where it names a double that is not finite. -/
def readReal? (s : String) : Option Document :=
  let unsigned := String.ofList (splitSign s.toList).2
  if [".nan", ".NaN", ".NAN"].contains s || [".inf", ".Inf", ".INF"].contains unsigned then
    some .null
  else if hasNeedlessZero s.toList then none
  else
    match Double.read? s.toList with
    | some x => if Double.isFinite x then some (.real x) else none
    | none => none

/-- The integers that documents keep whole, and beyond them those that no number is made of. -/
def ofInteger? (n : Int) : Option Document :=
  if Numeral.isWhole n then some (.whole n) else none

/-- Whether an integer is written with at most a hundred and twenty-eight bits. -/
def isWide (n : Int) : Bool := -2 ^ 127 ≤ n && n < 2 ^ 128

/-- The document of a scalar without quotes. Integers between sixty-four and a hundred and
twenty-eight bits are refused; wider ones are doubles. -/
def resolve? (s : String) : Option Document :=
  if isNull s then some .null
  else
    match readBool? s with
    | some b => some (.boolean b)
    | none =>
      match readInteger? s.toList with
      | some n => if isWide n then ofInteger? n else ofText s
      | none => ofText s
where
  /-- The document of a scalar that is no integer. -/
  ofText (s : String) : Option Document := some ((readReal? s).getD (.string s))

/-- The words that some readers take for truth values. -/
def truthWords : List String := ["y", "yes", "n", "no", "on", "off"]

/-- Whether a text has to be quoted to stay a text. -/
def isAmbiguous (s : String) : Bool :=
  let lower := Text.toLowercase s
  let isText := match resolve? s with
    | some (.string _) => true
    | _ => false
  !isText || (readBool? lower).isSome || isNull lower || hasNeedlessZero s.toList ||
    truthWords.contains lower

end Formulary.Yaml
