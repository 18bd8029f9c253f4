import Formulary.Number.Digits

/-!
# Decimal numbers

A decimal is an integer divided by a power of ten, with the scale kept: `1.50` and `1.5` are equal
numbers of different scales. A scale is kept in 64 bits. Sums are exact, and so are products unless
the scales add up to more than these bits hold, where they wrap around. A quotient is computed to a
hundred significant digits and then rounded, half to even, to the scale of the dividend.

## Main definitions

* `Decimal` — the unscaled integer and the scale
* `Decimal.ofScale` — the decimal of a scale that fits
* `Decimal.add`, `sub`, `mul`, `divide?` — arithmetic
* `Decimal.compare` — the order of the numbers
* `Decimal.truncate` — the integer part

## Main results

* `Decimal.neg_scaleBound_le_scale`, `Decimal.scale_lt_scaleBound` — scales are of 64 bits
* `Decimal.scale_add`, `Decimal.scale_mul`, `Decimal.scale_ofScale` — scales of results
* `Decimal.roundHalfEven_of_dvd` — rounding leaves exact quotients alone
* `Decimal.truncate_eq`, `Decimal.unscaledAt_eq` — integer parts and scales by plain powers of ten
* `Decimal.compare_eq` — the order is that of the integers at a common scale
* `Decimal.neg_neg`, `Decimal.compare_self`
-/

namespace Formulary

/-- The number `unscaled / 10 ^ scale`. -/
structure Decimal where
  /-- The digits, as an integer. -/
  unscaled : Int
  /-- How many of the digits stand after the point; negative for trailing zeros left out. -/
  scale64 : Int64
  deriving DecidableEq, Repr, Inhabited

namespace Decimal

open Number (digitCount signed)

/-- The scale, as an integer. -/
def scale (d : Decimal) : Int := d.scale64.toInt

/-- The scales that a decimal may have. -/
def scaleBound : Int := 2 ^ 63

/-- The decimal of a scale within these bounds. -/
def ofScale (unscaled scale : Int) : Decimal := ⟨unscaled, .ofInt scale⟩

/-- A whole number. -/
def ofInt (n : Int) : Decimal := ⟨n, 0⟩

instance : OfNat Decimal n := ⟨ofInt n⟩

/-- Ten to the power of a difference, zero where the difference is negative. -/
def tenPow (n : Int) : Int := (10 ^ n.toNat : Nat)

/-- Whether the number is zero. -/
def isZero (d : Decimal) : Bool := d.unscaled == 0

/-! ### Scales -/

/-- How many places before the point the first digit stands; negative after the point. -/
def magnitude (d : Decimal) : Int := (digitCount d.unscaled.natAbs : Int) - d.scale

/-- The unscaled integer at a scale no smaller than the number's own. Zero has no digits to move. -/
def unscaledAt (d : Decimal) (scale : Int) : Int :=
  if d.isZero then 0 else d.unscaled * tenPow (scale - d.scale)

/-- The quotient of two natural numbers, rounded to the nearest, a half to the even neighbour. -/
def roundHalfEven (n d : Nat) : Nat :=
  let q := n / d
  let r := n % d
  if 2 * r < d then q else if d < 2 * r then q + 1 else if q % 2 = 0 then q else q + 1

/-- A number without its last `k` digits, rounded half to even. With fewer digits than fall away
it is below a tenth, and nothing is left. -/
def dropDigits (n k : Nat) : Nat := if digitCount n < k then 0 else roundHalfEven n (10 ^ k)

/-- The number at another scale; digits that fall away are rounded half to even. -/
def roundTo (d : Decimal) (scale : Int64) : Decimal :=
  if d.scale ≤ scale.toInt then ⟨d.unscaledAt scale.toInt, scale⟩
  else
    let rounded := dropDigits d.unscaled.natAbs (d.scale - scale.toInt).toNat
    ⟨signed (d.unscaled < 0) rounded, scale⟩

/-- The integer part: the fraction is dropped, toward zero. -/
def truncate (d : Decimal) : Int :=
  if d.scale ≤ 0 then d.unscaledAt 0
  else if d.magnitude ≤ 0 then 0
  else d.unscaled.tdiv (tenPow d.scale)

/-! ### Order -/

/-- The order of the unscaled integers at a common scale. -/
def compareAligned (a b : Decimal) : Ordering :=
  let scale := max a.scale b.scale
  Ord.compare (a.unscaledAt scale) (b.unscaledAt scale)

/-- The order of the numbers, whatever their scales. Signs and magnitudes settle it without powers
of ten wherever they differ. -/
def compare (a b : Decimal) : Ordering :=
  if a.unscaled.sign ≠ b.unscaled.sign then Ord.compare a.unscaled.sign b.unscaled.sign
  else if a.isZero then .eq
  else if a.magnitude = b.magnitude then a.compareAligned b
  else if a.magnitude < b.magnitude ↔ 0 < a.unscaled then .lt else .gt

/-- Whether two decimals are the same number. -/
def equiv (a b : Decimal) : Bool := a.compare b == .eq

/-- Whether the number is one. -/
def isOne (d : Decimal) : Bool := d.equiv (ofInt 1)

/-- Whether one number is below another. -/
def less (a b : Decimal) : Bool := a.compare b == .lt

/-! ### Arithmetic -/

/-- The negated number, at the same scale. -/
def neg (d : Decimal) : Decimal := ⟨-d.unscaled, d.scale64⟩

/-- The magnitude, at the same scale. -/
def abs (d : Decimal) : Decimal := ⟨d.unscaled.natAbs, d.scale64⟩

/-- The sum, at the larger scale. -/
def add (a b : Decimal) : Decimal :=
  let scale := max a.scale64 b.scale64
  ⟨a.unscaledAt scale.toInt + b.unscaledAt scale.toInt, scale⟩

/-- The difference, at the larger scale. Where one side is zero the other keeps its scale. -/
def sub (a b : Decimal) : Decimal :=
  if b.isZero then a
  else if a.isZero then b.neg
  else a.add b.neg

/-- The product. A factor that is one leaves the other as it is; else the scales add up, and wrap
around. -/
def mul (a b : Decimal) : Decimal :=
  if a.isOne then b
  else if b.isOne then a
  else ⟨a.unscaled * b.unscaled, a.scale64 + b.scale64⟩

/-- How many significant digits a quotient is computed to. -/
def quotientDigits : Nat := 100

/-- The least power of ten that lifts `n` to at least `d`. -/
def lift (n d : Nat) : Nat :=
  if d ≤ n then 0
  else
    let k := digitCount d - digitCount n
    if d ≤ n * 10 ^ k then k else k + 1

/-- The quotient of two positive integers to `quotientDigits` digits, the next digit rounded half
up, with the number of decimal places that were added. -/
def quotient (n d : Nat) : Nat × Nat :=
  let k := lift n d
  let places := k + (quotientDigits - digitCount (n * 10 ^ k / d))
  let scaled := n * 10 ^ places
  let q := scaled / d
  (if 5 ≤ scaled % d * 10 / d then q + 1 else q, places)

/-- The quotient at the scale of the dividend, nothing for a zero divisor. The scale that it is
computed to wraps around. -/
def divide? (a b : Decimal) : Option Decimal :=
  if b.isZero then none
  else if a.isZero || b.isOne then some (a.roundTo a.scale64)
  else
    let (q, places) := quotient a.unscaled.natAbs b.unscaled.natAbs
    let negative := (a.unscaled < 0) != (b.unscaled < 0)
    some (roundTo ⟨signed negative q, a.scale64 - b.scale64 + .ofNat places⟩ a.scale64)

/-! ### First consequences -/

theorem neg_scaleBound_le_scale (d : Decimal) : -scaleBound ≤ d.scale := d.scale64.le_toInt

theorem scale_lt_scaleBound (d : Decimal) : d.scale < scaleBound := d.scale64.toInt_lt

@[simp] theorem scale_mk (unscaled : Int) (word : Int64) :
    scale ⟨unscaled, word⟩ = word.toInt := rfl

/-- Decimals of one scale are told apart by their digits. -/
theorem eq_of_scale_eq {a b : Decimal} (hunscaled : a.unscaled = b.unscaled)
    (hscale : a.scale = b.scale) : a = b := by
  obtain ⟨unscaled, word⟩ := a
  obtain ⟨unscaled', word'⟩ := b
  obtain rfl : unscaled = unscaled' := hunscaled
  obtain rfl : word = word' := Int64.toInt_inj.mp hscale
  rfl

/-- A scale that fits is the one that is kept. -/
theorem scale_ofScale (unscaled : Int) {scale : Int} (hlow : -scaleBound ≤ scale)
    (hhigh : scale < scaleBound) : (ofScale unscaled scale).scale = scale :=
  Int64.toInt_ofInt_of_le hlow hhigh

/-- Every decimal is the one of its scale. -/
theorem ofScale_scale (d : Decimal) : ofScale d.unscaled d.scale = d := by
  rw [ofScale, scale, Int64.ofInt_toInt]

theorem toInt_max (x y : Int64) : (max x y).toInt = max x.toInt y.toInt := by
  rw [Int.max_def]
  show (if x ≤ y then y else x).toInt = _
  simp only [Int64.le_iff_toInt_le]
  split <;> rfl

/-- A sum is kept at the larger scale. -/
theorem scale_add (a b : Decimal) : (a.add b).scale = max a.scale b.scale := toInt_max ..

/-- Scales of factors add up, as far as the sum fits. -/
theorem scale_mul {a b : Decimal} (ha : a.isOne = false) (hb : b.isOne = false) :
    (a.mul b).scale = (a.scale + b.scale).bmod (2 ^ 64) := by
  rw [mul, if_neg (by simp [ha]), if_neg (by simp [hb])]
  exact Int64.toInt_add ..

/-- Rounding leaves exact quotients alone. -/
theorem roundHalfEven_of_dvd {n d : Nat} (hd : 0 < d) (h : d ∣ n) : roundHalfEven n d = n / d := by
  simp [roundHalfEven, Nat.mod_eq_zero_of_dvd h, hd]

/-- Dropping digits is rounding by a power of ten, also where no digit is left. -/
theorem dropDigits_eq (n k : Nat) : dropDigits n k = roundHalfEven n (10 ^ k) := by
  simp only [dropDigits]
  split
  next h =>
    obtain ⟨j, rfl⟩ : ∃ j, k = j + 1 := ⟨k - 1, by omega⟩
    have pos := Number.digitCount_pos n
    have lt := (Number.digitCount_le_iff (by omega)).1 (Nat.le_of_lt_succ h)
    have lt' : n < 10 ^ (j + 1) := by rw [Nat.pow_succ]; omega
    have half : 2 * n < 10 ^ (j + 1) := by rw [Nat.pow_succ]; omega
    simp [roundHalfEven, Nat.div_eq_of_lt lt', Nat.mod_eq_of_lt lt', half]
  next => rfl

theorem unscaledAt_eq (d : Decimal) (scale : Int) :
    d.unscaledAt scale = d.unscaled * tenPow (scale - d.scale) := by
  by_cases h : d.unscaled = 0 <;> simp [unscaledAt, isZero, h]

/-- The integer part is the unscaled integer with zeros added or with its fraction cut off. -/
theorem truncate_eq (d : Decimal) :
    d.truncate =
      if d.scale ≤ 0 then d.unscaled * tenPow (-d.scale) else d.unscaled.tdiv (tenPow d.scale) := by
  simp only [truncate]
  split
  next => rw [unscaledAt_eq, Int.zero_sub]
  next h =>
    split
    next hm =>
      simp only [magnitude] at hm
      have lt := (Number.digitCount_le_iff (n := d.unscaled.natAbs) (k := d.scale.toNat)
        (by omega)).1 (by omega)
      rw [eq_comm, ← Int.natAbs_eq_zero, Int.natAbs_tdiv, tenPow, Int.natAbs_natCast]
      exact Nat.div_eq_of_lt lt
    next => rfl

@[simp] theorem neg_neg (d : Decimal) : d.neg.neg = d := by simp [neg]

theorem tenPow_pos (n : Int) : 0 < tenPow n := by
  simp only [tenPow]
  exact_mod_cast Nat.pow_pos (by decide)

/-- A number of smaller magnitude is below, at any scale that holds both. -/
private theorem natAbs_unscaledAt_lt {a b : Decimal} {scale : Int} (ha : a.scale ≤ scale)
    (hb : b.scale ≤ scale) (hz : b.unscaled ≠ 0) (h : a.magnitude < b.magnitude) :
    (a.unscaledAt scale).natAbs < (b.unscaledAt scale).natAbs := by
  simp only [magnitude] at h
  have pos := Number.digitCount_pos b.unscaled.natAbs
  simp only [unscaledAt_eq, tenPow, Int.natAbs_mul, Int.natAbs_natCast]
  calc a.unscaled.natAbs * 10 ^ (scale - a.scale).toNat
      < 10 ^ digitCount a.unscaled.natAbs * 10 ^ (scale - a.scale).toNat :=
        Nat.mul_lt_mul_of_pos_right (Number.lt_pow_digitCount _) (Nat.pow_pos (by decide))
    _ = 10 ^ (digitCount a.unscaled.natAbs + (scale - a.scale).toNat) := (Nat.pow_add ..).symm
    _ ≤ 10 ^ (digitCount b.unscaled.natAbs - 1 + (scale - b.scale).toNat) :=
        Nat.pow_le_pow_right (by decide) (by omega)
    _ = 10 ^ (digitCount b.unscaled.natAbs - 1) * 10 ^ (scale - b.scale).toNat := Nat.pow_add ..
    _ ≤ b.unscaled.natAbs * 10 ^ (scale - b.scale).toNat :=
        Nat.mul_le_mul_right _ (Number.pow_digitCount_pred_le (by omega))

private theorem sign_unscaledAt (d : Decimal) (scale : Int) :
    (d.unscaledAt scale).sign = d.unscaled.sign := by
  rw [unscaledAt_eq, Int.sign_mul, Int.sign_eq_one_of_pos (tenPow_pos _), Int.mul_one]

private theorem compare_int (m n : Int) :
    Ord.compare m n = if m < n then .lt else if m = n then .eq else .gt := rfl

private theorem compare_sign {m n : Int} (h : m.sign ≠ n.sign) :
    Ord.compare m.sign n.sign = Ord.compare m n := by
  rcases Int.lt_trichotomy m 0 with hm | rfl | hm <;>
    rcases Int.lt_trichotomy n 0 with hn | rfl | hn <;>
    simp_all [compare_int, Int.sign_eq_neg_one_of_neg, Int.sign_eq_one_of_pos] <;> grind

private theorem compare_of_natAbs_ne {m n : Int} (h : m.sign = n.sign) (hm : m ≠ 0)
    (hne : m.natAbs ≠ n.natAbs) :
    Ord.compare m n = if m.natAbs < n.natAbs ↔ 0 < m then .lt else .gt := by
  rcases Int.lt_trichotomy m 0 with h₁ | h₁ | h₁ <;>
    rcases Int.lt_trichotomy n 0 with h₂ | h₂ | h₂ <;>
    simp_all [compare_int, Int.sign_eq_neg_one_of_neg, Int.sign_eq_one_of_pos] <;> grind

/-- The order is that of the unscaled integers at a common scale. -/
theorem compare_eq (a b : Decimal) : a.compare b = a.compareAligned b := by
  have ha : a.scale ≤ max a.scale b.scale := by omega
  have hb : b.scale ≤ max a.scale b.scale := by omega
  have sa := sign_unscaledAt a (max a.scale b.scale)
  have sb := sign_unscaledAt b (max a.scale b.scale)
  simp only [compare, isZero, beq_iff_eq]
  split
  next h =>
    have := compare_sign (m := a.unscaledAt (max a.scale b.scale))
      (n := b.unscaledAt (max a.scale b.scale)) (by rwa [sa, sb])
    rw [sa, sb] at this
    exact this
  next h =>
    have h := Decidable.not_not.1 h
    split
    next hz =>
      have hz' : b.unscaled = 0 := by simpa [hz] using h.symm
      simp [compareAligned, unscaledAt_eq, hz, hz']
    next hz =>
      have hz' : b.unscaled ≠ 0 := fun h' => hz (by simpa [h'] using h)
      split
      next => rfl
      next hm =>
        have pos : 0 < a.unscaledAt (max a.scale b.scale) ↔ 0 < a.unscaled := by
          rw [← Int.sign_eq_one_iff_pos, ← Int.sign_eq_one_iff_pos, sa]
        have nz : a.unscaledAt (max a.scale b.scale) ≠ 0 := by
          intro h'
          rw [h', Int.sign_zero, eq_comm, Int.sign_eq_zero_iff_zero] at sa
          exact hz sa
        have lt := natAbs_unscaledAt_lt ha hb hz'
        have gt := natAbs_unscaledAt_lt hb ha hz
        have lt_iff : a.magnitude < b.magnitude ↔
            (a.unscaledAt (max a.scale b.scale)).natAbs <
              (b.unscaledAt (max a.scale b.scale)).natAbs := by
          grind
        rw [compareAligned, compare_of_natAbs_ne (by rw [sa, sb, h]) nz (by grind)]
        simp only [pos, lt_iff]

theorem compare_self (d : Decimal) : d.compare d = .eq := by
  simp [compare_eq, compareAligned, Ord.compare, compareOfLessAndEq]

theorem divide?_eq_none_iff {a b : Decimal} : a.divide? b = none ↔ b.isZero = true := by
  simp only [divide?]
  split <;> simp_all
  split <;> simp

end Decimal

end Formulary
