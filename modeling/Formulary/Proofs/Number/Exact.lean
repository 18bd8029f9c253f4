import Formulary.Proofs.Number.Division

/-!
# Numbers of exact kinds

Integers of both widths and decimals stand for numbers exactly. This file says which number each
stands for, and what the operations on them come to: those on decimals are the operations on
numbers, and those on integers are so up to the bits that wrap around. What wraps around in a
decimal is its scale, where the scales of two factors add up to more than 64 bits hold.

## Main definitions

* `Exact` — a number of one of the three kinds
* `Exact.Holds` — which number a result stands for, up to wrapping
* `Exact.truncated` — the integer part
* `Exact.IsQuotient` — which quotient a result stands for
* `Decimal.ProductFits`, `Exact.ProductFits` — factors whose scales add up to a scale

## Main results

* `Decimal.toRat_add`, `Decimal.toRat_sub` — sums and differences of decimals are exact
* `Decimal.toRat_mul_iff` — products are exact where their scales fit
* `Exact.truncated_div` — integers are divided with the integer part of the quotient
* `Exact.truncated_or_least` — a quotient wraps around only where the least integer is negated
-/

namespace Formulary

/-! ### Numbers of three kinds -/

/-- An integer of one of the two widths, or a decimal. -/
inductive Exact
  | integer (n : Int32)
  | long (n : Int64)
  | decimal (d : Decimal)

namespace Exact

/-- The number as a value. -/
def value : Exact → Value
  | integer n => .integer n
  | long n => .long n
  | decimal d => .decimal d

/-- The tag of the kind. -/
def tag : Exact → Tag
  | integer _ => .integer
  | long _ => .long
  | decimal _ => .decimal

/-- The number that is meant. -/
def number : Exact → ℚ
  | integer n => n.toInt
  | long n => n.toInt
  | decimal d => d.toRat

/-- A result stands for a number: a decimal for the number itself, an integer for the integer that
it is the low bits of, in two's complement. -/
def Holds (x : ℚ) : Exact → Prop
  | integer n => ∃ m : ℤ, x = m ∧ n.toInt = m.bmod (2 ^ 32)
  | long n => ∃ m : ℤ, x = m ∧ n.toInt = m.bmod (2 ^ 64)
  | decimal d => d.toRat = x

/-- The integer part of a number: the fraction is dropped, toward zero. -/
def truncated (x : ℚ) : ℤ := if 0 ≤ x then ⌊x⌋ else ⌈x⌉

/-- The least number of a kind of integers. -/
def IsLeast (x : ℚ) : Tag → Prop
  | .integer => x = -2 ^ 31
  | .long => x = -2 ^ 63
  | _ => False

/-- A result stands for a quotient of integers: it has the low bits of the integer part, and is that
integer but where the least one is divided by minus one. Of a decimal nothing is said. -/
def IsQuotient (x y : ℚ) : Exact → Prop
  | decimal _ => True
  | c => c.Holds (truncated (x / y)) ∧ (c.number = truncated (x / y) ∨ y = -1 ∧ IsLeast x c.tag)

/-- Low bits of an integer stand for the number that the integer is. -/
theorem holds_integer {n : Int32} {m : ℤ} {x : ℚ} (hn : n.toInt = m.bmod (2 ^ 32))
    (hx : (m : ℚ) = x) : (Exact.integer n).Holds x := ⟨m, hx.symm, hn⟩

theorem holds_long {n : Int64} {m : ℤ} {x : ℚ} (hn : n.toInt = m.bmod (2 ^ 64))
    (hx : (m : ℚ) = x) : (Exact.long n).Holds x := ⟨m, hx.symm, hn⟩

/-! ### Magnitudes of integers -/

/-- The magnitude of the least integer is that integer again. -/
theorem toInt_abs_eq_bmod {w : Nat} (x : BitVec w) : x.abs.toInt = (|x.toInt|).bmod (2 ^ w) := by
  rw [BitVec.abs, BitVec.msb_eq_toInt]
  split
  · next h =>
    rw [decide_eq_true_eq] at h
    rw [abs_of_neg h]
    exact BitVec.toInt_neg
  · next h =>
    rw [decide_eq_true_eq, not_lt] at h
    rw [abs_of_nonneg h, BitVec.toInt_bmod_cancel]

/-! ### Quotients of integers -/

theorem truncated_neg (x : ℚ) : truncated (-x) = -truncated x := by
  rw [truncated, truncated, Int.floor_neg, Int.ceil_neg]
  rcases lt_trichotomy x 0 with h | rfl | h
  · rw [if_pos (neg_nonneg.mpr h.le), if_neg h.not_ge]
  · simp
  · rw [if_neg (by simpa using h), if_pos h.le]

theorem truncated_div_natCast (m n : Nat) : truncated ((m : ℚ) / n) = (m : ℤ).tdiv n := by
  rw [truncated, if_pos (by positivity), ← Int.cast_natCast (R := ℚ) m,
    Rat.floor_intCast_div_natCast, Int.tdiv_eq_ediv_of_nonneg (Int.natCast_nonneg m)]

/-- The quotient of integers that is rounded toward zero is the integer part of the quotient. -/
theorem truncated_div (m n : ℤ) : truncated (m / n) = m.tdiv n := by
  obtain ⟨k, rfl | rfl⟩ := Int.eq_nat_or_neg m <;> obtain ⟨j, rfl | rfl⟩ := Int.eq_nat_or_neg n <;>
    simp [neg_div, div_neg, truncated_neg, truncated_div_natCast, Int.neg_tdiv, Int.tdiv_neg]

section

variable {m n q : ℤ} {w : Nat}

/-- A quotient of integers of one width leaves that width only where the least one is negated. -/
theorem tdiv_eq_bmod (hm : -2 ^ w ≤ m ∧ m < 2 ^ w) (h : ¬ (n = -1 ∧ m = -2 ^ w)) :
    (m.tdiv n).bmod (2 ^ (w + 1)) = m.tdiv n := by
  have hpos : (0 : ℤ) < 2 ^ w := by positivity
  have habs : (m.tdiv n).natAbs = m.natAbs / n.natAbs := Int.natAbs_tdiv ..
  have hle : m.natAbs / n.natAbs ≤ m.natAbs := Nat.div_le_self ..
  have hlt : m.tdiv n < 2 ^ w := by
    by_contra hge
    -- the quotient is as large as the dividend, which is then the least integer
    have hself : m.natAbs / n.natAbs = m.natAbs := by omega
    rcases Nat.div_eq_self.mp hself with hzero | hone
    · omega
    · rcases Int.natAbs_eq n with hn | hn
      · rw [hn, hone, Nat.cast_one, Int.tdiv_one] at hge
        omega
      · exact h ⟨by omega, by omega⟩
  refine Int.bmod_eq_of_le_mul_two ?_ ?_ <;>
  · push_cast
    rw [pow_succ]
    omega

/-- The low bits of a truncated quotient are the integer part, or the least integer was negated. -/
theorem truncated_or_least (hq : q = (m.tdiv n).bmod (2 ^ (w + 1)))
    (hm : -2 ^ w ≤ m ∧ m < 2 ^ w) :
    (q : ℚ) = truncated (m / n) ∨ (n : ℚ) = -1 ∧ (m : ℚ) = -2 ^ w := by
  by_cases h : n = -1 ∧ m = -2 ^ w
  · refine Or.inr ⟨?_, ?_⟩
    · rw [h.1]
      norm_num
    · rw [h.2]
      push_cast
      rfl
  · rw [hq, tdiv_eq_bmod hm h, truncated_div]
    exact Or.inl rfl

end

end Exact

/-! ### Decimals -/

namespace Decimal

theorem toRat_neg (d : Decimal) : d.neg.toRat = -d.toRat := by
  have hscale : d.neg.scale = d.scale := rfl
  rw [toRat, toRat, hscale, neg, Int.cast_neg, neg_mul]

theorem toRat_abs (d : Decimal) : d.abs.toRat = |d.toRat| := by
  rw [toRat, toRat, abs_mul, abs_of_pos (zpow_pos (by norm_num : (0 : ℚ) < 10) _), abs]
  push_cast
  rfl

/-- A sum is exact, as it has the places of both summands. -/
theorem toRat_add (a b : Decimal) : (a.add b).toRat = a.toRat + b.toRat := by
  have hunscaled : (a.add b).unscaled =
      a.unscaledAt (max a.scale b.scale) + b.unscaledAt (max a.scale b.scale) := by
    show a.unscaledAt (max a.scale64 b.scale64).toInt + b.unscaledAt _ = _
    rw [toInt_max]
    rfl
  rw [toRat, scale_add, hunscaled, Int.cast_add, unscaledAt_eq_toRat (le_max_left ..),
    unscaledAt_eq_toRat (le_max_right ..), ← add_mul, mul_assoc, ← zpow_add₀ ten_ne_zero,
    add_neg_cancel, zpow_zero, mul_one]

theorem toRat_sub (a b : Decimal) : (a.sub b).toRat = a.toRat - b.toRat := by
  rw [sub]
  split
  · next hb => rw [isZero_iff.mp hb, sub_zero]
  · split
    · next ha => rw [toRat_neg, isZero_iff.mp ha, zero_sub]
    · rw [toRat_add, toRat_neg, sub_eq_add_neg]

/-- The scales of two factors add up to a scale, or they do not count. -/
def ProductFits (a b : Decimal) : Prop :=
  (a.toRat = 0 ∨ a.toRat = 1) ∨ (b.toRat = 0 ∨ b.toRat = 1) ∨
    -scaleBound ≤ a.scale + b.scale ∧ a.scale + b.scale < scaleBound

theorem productFits_of_scale_eq_zero {a b : Decimal} (h : a.scale = 0 ∨ b.scale = 0) :
    a.ProductFits b := by
  refine Or.inr (Or.inr ?_)
  rcases h with h | h
  · rw [h, zero_add]
    exact ⟨b.neg_scaleBound_le_scale, b.scale_lt_scaleBound⟩
  · rw [h, add_zero]
    exact ⟨a.neg_scaleBound_le_scale, a.scale_lt_scaleBound⟩

/-- A sum of scales is kept where it is a scale, and wraps around elsewhere. -/
theorem bmod_eq_self_iff (n : Int) :
    n.bmod (2 ^ 64) = n ↔ -scaleBound ≤ n ∧ n < scaleBound := by
  rw [scaleBound]
  constructor
  · intro h
    have hlow := Int.le_bmod (x := n) (m := 2 ^ 64) (by decide)
    have hhigh := Int.bmod_lt (x := n) (m := 2 ^ 64) (by decide)
    omega
  · intro h
    exact Int.bmod_eq_of_le (by omega) (by omega)

/-- **A product is exact where its scale fits**, and nowhere else. -/
theorem toRat_mul_iff (a b : Decimal) :
    (a.mul b).toRat = a.toRat * b.toRat ↔ a.ProductFits b := by
  by_cases ha : a.isOne = true
  · have hone := isOne_iff.mp ha
    rw [mul, if_pos ha, hone, one_mul]
    exact iff_of_true rfl (Or.inl (Or.inr hone))
  by_cases hb : b.isOne = true
  · have hone := isOne_iff.mp hb
    rw [mul, if_neg ha, if_pos hb, hone, mul_one]
    exact iff_of_true rfl (Or.inr (Or.inl (Or.inr hone)))
  have hunscaled : (a.mul b).unscaled = a.unscaled * b.unscaled := by
    rw [mul, if_neg ha, if_neg hb]
  have hproduct : a.toRat * b.toRat =
      ((a.unscaled * b.unscaled : Int) : ℚ) * 10 ^ (-(a.scale + b.scale)) := by
    rw [toRat, toRat, neg_add, zpow_add₀ ten_ne_zero]
    push_cast
    ring
  have hinj : Function.Injective fun n : Int => (10 : ℚ) ^ n :=
    zpow_right_injective₀ (by norm_num) (by norm_num)
  rw [ProductFits, ← isZero_iff, ← isZero_iff, ← isOne_iff, ← isOne_iff, or_iff_left ha,
    or_iff_left hb, ← bmod_eq_self_iff, hproduct, toRat, hunscaled,
    scale_mul (Bool.eq_false_iff.mpr ha) (Bool.eq_false_iff.mpr hb), mul_eq_mul_left_iff,
    hinj.eq_iff, neg_inj, Int.cast_eq_zero, mul_eq_zero, isZero, isZero, beq_iff_eq, beq_iff_eq]
  tauto

end Decimal

/-- Factors whose scales add up to a scale. Integers have no places. -/
def Exact.ProductFits : Exact → Exact → Prop
  | decimal a, decimal b => a.ProductFits b
  | _, _ => True

end Formulary
