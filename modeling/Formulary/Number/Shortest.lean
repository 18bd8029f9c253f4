import Formulary.Number.DecimalText
import Formulary.Number.Double

/-!
# The shortest text of a double

A double is written with the fewest digits that read back as it, and among these with the digits
nearest to it. The digits are found on one decimal grid after the other, from coarse to fine: the
two neighbours of the value on a grid are tested against the interval of numbers that round to the
value, in exact arithmetic.

How the digits are laid out is a matter of style, and differs between the console, JSON and YAML.

## Main definitions

* `Double.shortest` — the digits and the exponent of a positive double
* `Double.Style` — where positional form ends and how an exponent is written
* `Double.render` — the text of a double in a style
-/

namespace Formulary.Double

open Number

/-- The value, the lower end and the upper end of the interval that rounds to a double, over one
denominator, and whether the ends belong to it. -/
structure Rounding where
  /-- The numerator of the value. -/
  value : Nat
  /-- The numerator of the lower end. -/
  low : Nat
  /-- The numerator of the upper end. -/
  high : Nat
  /-- The common denominator. -/
  den : Nat
  /-- Whether the ends round to the value too. -/
  closed : Bool

/-- The interval around a positive double. Below a power of two the neighbour is half as far. -/
def Parts.rounding (p : Parts) : Rounding :=
  let up := 2 ^ (p.exponent - 2).toNat
  let down := 2 ^ (2 - p.exponent).toNat
  let below := if p.significand = 2 ^ 52 ∧ minExponent < p.exponent then 1 else 2
  let m := 4 * p.significand
  ⟨m * up, (m - below) * up, (m + 2) * up, down, p.significand % 2 = 0⟩

/-- The exponent of the first digit of a positive quotient. -/
def leadingExponent (num den : Nat) : Int :=
  let e := (digitCount num : Int) - digitCount den
  if den * 10 ^ e.toNat ≤ num * 10 ^ (-e).toNat then e else e - 1

/-- Where a value goes that is half way between two points of a grid. -/
inductive Ties
  /-- To the point whose last digit is even. -/
  | toEven
  /-- Away from zero. -/
  | up
  deriving DecidableEq, Repr

namespace Rounding

/-- Whether `n * 10 ^ k` lies in the interval. -/
def contains (r : Rounding) (n : Nat) (k : Int) : Bool :=
  let x := n * 10 ^ k.toNat * r.den
  let unit := 10 ^ (-k).toNat
  if r.closed then r.low * unit ≤ x && x ≤ r.high * unit
  else r.low * unit < x && x < r.high * unit

/-- The multiple of `10 ^ k` in the interval that is nearest to the value, if there is one. -/
def nearest? (ties : Ties) (r : Rounding) (k : Int) : Option Nat :=
  let scaled := r.value * 10 ^ (-k).toNat
  let unit := r.den * 10 ^ k.toNat
  let below := scaled / unit
  let rest := scaled % unit
  match r.contains below k, r.contains (below + 1) k with
  | true, true =>
    if 2 * rest < unit ∨ (2 * rest = unit ∧ ties = .toEven ∧ below % 2 = 0) then some below
    else some (below + 1)
  | true, false => some below
  | false, true => some (below + 1)
  | false, false => none

/-- The first of the next `count` grids that has a point in the interval, with that point. -/
def search (ties : Ties) (r : Rounding) : (count : Nat) → (k : Int) → Nat × Int
  | 0, k => (r.value * 10 ^ (-k).toNat / (r.den * 10 ^ k.toNat), k)
  | count + 1, k =>
    match r.nearest? ties k with
    | some n => (n, k)
    | none => search ties r count (k - 1)

end Rounding

/-- A number without its trailing zeros, and how many there were. -/
def stripZeros : (fuel : Nat) → Nat → Nat × Nat
  | 0, n => (n, 0)
  | fuel + 1, n =>
    if n % 10 = 0 ∧ n ≠ 0 then
      let (m, zeros) := stripZeros fuel (n / 10)
      (m, zeros + 1)
    else (n, 0)

/-- The fewest digits that read back as a positive double, as an integer without trailing zeros,
and the exponent of ten of its last digit. -/
def Parts.shortest (ties : Ties) (p : Parts) : Nat × Int :=
  let r := p.rounding
  let (n, k) := r.search ties 17 (leadingExponent r.value r.den)
  let (digits, zeros) := stripZeros (digitCount n) n
  (digits, k + zeros)

/-! ### Styles -/

/-- How digits are laid out. -/
structure Style where
  /-- The least exponent of the first digit that is written positionally. -/
  positionalFrom : Int
  /-- The least exponent of the first digit that is too large to be written positionally. -/
  positionalBelow : Int
  /-- Whether a positive exponent has a sign. -/
  plusSign : Bool
  /-- Which of two equally near texts is taken. -/
  ties : Ties

/-- The style of printed values: positional from a ten-thousandth on. -/
def console : Style := ⟨-4, 16, false, .up⟩

/-- The style of JSON texts: positional from a hundred-thousandth on, exponents with a sign. -/
def json : Style := ⟨-5, 16, true, .toEven⟩

/-- The style of YAML texts: as in JSON, but positive exponents have no sign. -/
def yaml : Style := ⟨-5, 16, false, .toEven⟩

/-- Digits with a point such that the first digit has exponent `e`; one digit follows the point at
least. -/
def positional (digits : List Char) (e : Int) : List Char :=
  if e < 0 then '0' :: '.' :: (List.replicate (-e - 1).toNat '0' ++ digits)
  else
    let whole := e.toNat + 1
    let padded := digits ++ List.replicate (whole - digits.length) '0'
    let fraction := padded.drop whole
    padded.take whole ++ '.' :: (if fraction.isEmpty then ['0'] else fraction)

/-- The text of digits whose last one has exponent `k`. -/
def Style.layOut (style : Style) (n : Nat) (k : Int) : List Char :=
  let digits := digitsOf n
  let e := k + (digits.length - 1 : Int)
  if style.positionalFrom ≤ e ∧ e < style.positionalBelow then positional digits e
  else
    let head := match digits with
      | [d] => [d]
      | d :: rest => d :: '.' :: rest
      | [] => []
    let sign := if e < 0 then ['-'] else if style.plusSign then ['+'] else []
    head ++ 'e' :: (sign ++ digitsOf e.natAbs)

/-- The text of a double. -/
def render (style : Style) (x : Float) : String :=
  match parts? x with
  | none => if x.isNaN then "NaN" else if x < 0 then "-inf" else "inf"
  | some p =>
    let magnitude :=
      if p.significand = 0 then "0.0".toList
      else
        let (n, k) := p.shortest style.ties
        style.layOut n k
    String.ofList (if p.negative then '-' :: magnitude else magnitude)

/-- The text of a double as values print it. -/
def text (x : Float) : String := render console x

/-- The decimal that the text of a finite double denotes: the digits it is printed with rather than
its binary expansion. -/
def toDecimal? (x : Float) : Option Decimal :=
  if isFinite x then Decimal.read? (text x).toList else none

end Formulary.Double
