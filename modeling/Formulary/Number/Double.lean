import Formulary.Number.Decimal

/-!
# Doubles and exact numbers

A finite double is `m * 2 ^ q` for a natural number `m`. This module takes doubles apart, truncates
them to integers, and goes the other way: the double nearest to an integer and to a text, and the
double that stands for a decimal.

A decimal keeps about as many of its leading digits as a double can tell apart. Where zeros have to
follow them, they are multiplied by a power of ten that is itself a double, so that the product is
rounded more than once.

## Main definitions

* `Double.parts?` — the sign, the significand and the exponent
* `Double.truncate?`, `Double.toInt32`, `Double.toInt64` — integers, saturating
* `Double.ofDecimal` — the double for a decimal
* `Double.read?` — the double written by a text
-/

namespace Formulary.Double

open Number

/-- The number `(-1) ^ negative * significand * 2 ^ exponent`. -/
structure Parts where
  /-- Whether the sign bit is set. -/
  negative : Bool
  /-- The significand, below `2 ^ 53`. -/
  significand : Nat
  /-- The exponent of two. -/
  exponent : Int
  deriving DecidableEq, Repr

/-- The exponent of the subnormal doubles. -/
def minExponent : Int := -1074

/-- The parts of a finite double. -/
def parts? (x : Float) : Option Parts :=
  let bits := x.toBits.toNat
  let negative := bits / 2 ^ 63 == 1
  let biased : Nat := bits / 2 ^ 52 % 2 ^ 11
  let fraction : Nat := bits % 2 ^ 52
  if biased = 2047 then none
  else if biased = 0 then some ⟨negative, fraction, minExponent⟩
  else some ⟨negative, 2 ^ 52 + fraction, (biased : Int) - 1075⟩

/-- Whether a double is a number other than the infinities. -/
def isFinite (x : Float) : Bool := (parts? x).isSome

/-! ### To integers -/

/-- The magnitude without its fraction. -/
def Parts.whole (p : Parts) : Nat :=
  if 0 ≤ p.exponent then p.significand * 2 ^ p.exponent.toNat
  else p.significand / 2 ^ (-p.exponent).toNat

/-- The integer part of a finite double. -/
def truncate? (x : Float) : Option Int := (parts? x).map fun p => signed p.negative p.whole

/-- An integer moved into an interval. -/
def clamp (low high n : Int) : Int := max low (min high n)

/-- The integer part within bounds: infinities go to the bounds, and no number is zero. -/
def saturate (low high : Int) (x : Float) : Int :=
  match truncate? x with
  | some n => clamp low high n
  | none => if x.isNaN then 0 else if x < 0 then low else high

/-- The nearest thirty-two bit word toward zero. -/
def toInt32 (x : Float) : Int32 := Int32.ofInt (saturate (-2 ^ 31) (2 ^ 31 - 1) x)

/-- The nearest sixty-four bit word toward zero. -/
def toInt64 (x : Float) : Int64 := Int64.ofInt (saturate (-2 ^ 63) (2 ^ 63 - 1) x)

/-! ### From exact numbers -/

/-- The double nearest to an integer. -/
def ofInt (n : Int) : Float := Float.ofInt n

/-- The infinite double. -/
def infinity : Float := 1.0 / 0.0

/-- The double that is no number. -/
def nan : Float := 0.0 / 0.0

/-- The double nearest to `digits * 10 ^ exponent`. Magnitudes far outside the range of doubles are
settled by the number of digits alone. -/
def ofScientific (digits : Nat) (exponent : Int) : Float :=
  if digits = 0 then 0.0
  else
    let magnitude := (digitCount digits : Int) + exponent
    if 310 < magnitude then infinity
    else if magnitude < -330 then 0.0
    else if 0 ≤ exponent then Float.ofScientific digits false exponent.toNat
    else Float.ofScientific digits true (-exponent).toNat

/-- A double with its sign. -/
def withSign (negative : Bool) (x : Float) : Float := if negative then -x else x

/-- `total` times `base ^ n`, by squaring: the powers of `base` that the binary digits of `n` ask
for are multiplied in, lowest first, and every product is rounded. -/
def powerFrom (total base : Float) (n : Nat) : Float :=
  let total := if n % 2 = 1 then total * base else total
  if n < 2 then total else powerFrom total (base * base) (n / 2)
  termination_by n

/-- Ten to the power of `n`, by squaring. -/
def tenPower (n : Nat) : Float := powerFrom 1.0 10.0 n

/-- An estimate of how many digits a positive number is written with, by the number of its binary
digits and the logarithm of two. It is exact or one too small. -/
def digitEstimate (n : Nat) : Nat := (n.log2 + 2) * 30102999566398119521 / 10 ^ 20

/-- How many leading digits of a decimal count. -/
def significantDigits : Nat := 19

/-- The double for `digits / 10 ^ scale`, once the digits are few. Scales that are no thirty-two bit
words, and the least of them, give infinity. -/
def ofFewDigits (digits : Nat) (scale : Int) : Float :=
  if scale ≤ -2 ^ 31 ∨ 2 ^ 31 ≤ scale then infinity
  else if scale ≤ 0 then ofScientific digits 0 * tenPower (-scale).toNat
  else ofScientific digits (-scale)

/-- The double for a decimal. Beyond `significantDigits` the digits are dropped. -/
def ofDecimal (d : Decimal) : Float :=
  let digits := d.unscaled.natAbs
  if digits = 0 then 0.0
  else
    let drop := digitEstimate digits - significantDigits
    withSign (d.unscaled < 0) <|
      if d.scale = 0 then ofScientific digits 0
      else ofFewDigits (digits / 10 ^ drop) (d.scale - drop)

/-! ### From text -/

/-- The exponent after an optional `e`, zero where there is none. -/
def readExponent? : List Char → Option Int
  | [] => some 0
  | c :: rest => if c == 'e' || c == 'E' then readInteger? rest else none

/-- The magnitude written by digits with an optional point and an optional exponent. -/
def readMagnitude? (cs : List Char) : Option Float := do
  let whole := cs.takeWhile Char.isDigit
  let rest := cs.dropWhile Char.isDigit
  let (fraction, rest) := match rest with
    | '.' :: rest => (rest.takeWhile Char.isDigit, rest.dropWhile Char.isDigit)
    | _ => ([], rest)
  let exponent ← readExponent? rest
  let digits := whole ++ fraction
  if digits.isEmpty then none
  else some (ofScientific (valueOf digits) (exponent - fraction.length))

/-- The double written by a text: a number, or the name of an infinity or of no number. -/
def read? (cs : List Char) : Option Float :=
  let (negative, rest) := splitSign cs
  let name := String.ofList (rest.map Char.toLower)
  (if name = "inf" ∨ name = "infinity" then some infinity
    else if name = "nan" then some nan
    else readMagnitude? rest).map (withSign negative)

end Formulary.Double
