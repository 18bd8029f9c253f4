import Formulary.Library.Arithmetic
import Formulary.Proofs.Number.ReadBack
import Mathlib.Tactic.FieldSimp
import Mathlib.Tactic.LinearCombination
import Mathlib.Tactic.Linarith

/-!
# Division of decimals

A quotient is rounded twice: to a hundred digits while it is computed, and then to the scale of the
dividend. The second rounding goes to the nearest number, the even one of two, but it sees what the
first one left. This file says what comes of it in terms of the exact quotient.

Where the first rounding changes nothing, or leaves a number that has more places than the result
and does not lie half way between two results, the exact quotient is rounded once. So it is where
the first rounding is to the scale of the result and settles no tie. This covers all dividends whose
digits are fewer than a hundred together with the places of the divisor. The scale that the quotient
is computed to has to be one of 64 bits.

## Scope

Outside of this condition the result may be wrong in four ways. A tie that was rounded at the last
place of the result went up, not to the even neighbour. A quotient that was rounded onto a tie is
taken for one. A quotient that has more digits than are computed ends in zeros. And the difference
of the scales may wrap around.

## Main definitions

* `Decimal.toRat` — the number that a decimal stands for
* `Decimal.NearestEven` — the nearest integer, the even one of two
* `Decimal.carried` — the quotient as it is computed, before the last rounding
* `Decimal.Fits` — the scale of that quotient does not wrap around
* `Decimal.Undisturbed` — the first rounding does not show

## Main results

* `Decimal.nearestEven_roundTo` — rounding to a scale
* `Decimal.abs_carried_le` — how close the computed quotient is
* `Decimal.undisturbed_of_digits` — dividends of moderate length
* `Library.divideDecimal_rounds_once` — division rounds the exact quotient
* `Library.not_divideDecimal_rounds_half` — but not always
-/

namespace Formulary.Decimal

open Number Double

/-- The number that a decimal stands for. -/
def toRat (d : Decimal) : ℚ := d.unscaled * 10 ^ (-d.scale)

theorem ten_ne_zero : (10 : ℚ) ≠ 0 := by norm_num

theorem toRat_mul_zpow (d : Decimal) (scale : Int) :
    d.toRat * 10 ^ scale = d.unscaled * 10 ^ (scale - d.scale) := by
  rw [toRat, mul_assoc, ← zpow_add₀ ten_ne_zero, neg_add_eq_sub]

/-- In units of its last place a decimal is a whole number. -/
theorem toRat_mul_zpow_scale (d : Decimal) : d.toRat * 10 ^ d.scale = d.unscaled := by
  rw [toRat_mul_zpow, sub_self, zpow_zero, mul_one]

theorem toRat_ofInt (n : Int) : (ofInt n).toRat = n := by
  have hscale : (ofInt n).scale = 0 := rfl
  rw [toRat, hscale, neg_zero, zpow_zero, mul_one]
  rfl

/-- A decimal is zero as a number. -/
theorem isZero_iff {d : Decimal} : d.isZero = true ↔ d.toRat = 0 := by
  rw [isZero, beq_iff_eq, toRat, mul_eq_zero, or_iff_left (zpow_ne_zero _ ten_ne_zero),
    Int.cast_eq_zero]

theorem natAbs_pos {d : Decimal} (h : d.toRat ≠ 0) : 0 < d.unscaled.natAbs := by
  rw [Int.natAbs_pos]
  intro hzero
  exact h (by rw [toRat, hzero, Int.cast_zero, zero_mul])

theorem tenPow_eq_zpow {n : Int} (h : 0 ≤ n) : (tenPow n : ℚ) = 10 ^ n := by
  obtain ⟨k, rfl⟩ := Int.eq_ofNat_of_zero_le h
  rw [tenPow, Int.toNat_natCast, zpow_natCast]
  push_cast
  rfl

/-- The unscaled integer at a finer scale. -/
theorem unscaledAt_eq_toRat {d : Decimal} {scale : Int} (h : d.scale ≤ scale) :
    (d.unscaledAt scale : ℚ) = d.toRat * 10 ^ scale := by
  rw [unscaledAt_eq, toRat_mul_zpow, Int.cast_mul, tenPow_eq_zpow (by omega)]

/-- Decimals that are the same number stand for one number. -/
theorem equiv_iff {a b : Decimal} : a.equiv b = true ↔ a.toRat = b.toRat := by
  rw [equiv, beq_iff_eq, compare_eq, compareAligned, Std.compare_eq_iff_eq, ← Int.cast_inj (α := ℚ),
    unscaledAt_eq_toRat (le_max_left ..), unscaledAt_eq_toRat (le_max_right ..),
    mul_left_inj' (zpow_ne_zero _ ten_ne_zero)]

theorem isOne_iff {d : Decimal} : d.isOne = true ↔ d.toRat = 1 := by
  rw [isOne, equiv_iff, toRat_ofInt, Int.cast_one]

/-! ### Nearest integers -/

/-- The nearest integer, the even one if there are two. -/
def NearestEven (n : Int) (x : ℚ) : Prop := Within (n % 2 = 0) (n - 1 / 2) (n + 1 / 2) x

section

variable {m n : Int} {x : ℚ}

theorem NearestEven.of_lt (h : |x - n| < 1 / 2) : NearestEven n x := by
  rw [abs_sub_lt_iff] at h
  exact Within.of_lt (by linarith) (by linarith)

theorem NearestEven.abs_le (h : NearestEven n x) : |x - n| ≤ 1 / 2 := by
  rw [abs_sub_le_iff]
  constructor
  · linarith [h.le_high]
  · linarith [h.low_le]

theorem abs_lt_of_ne (h : |x - n| ≤ 1 / 2) (hhalf : ∀ j : Int, x ≠ j + 1 / 2) :
    |x - n| < 1 / 2 := by
  refine lt_of_le_of_ne h fun heq => ?_
  rcases abs_eq (by norm_num) |>.mp heq with heq | heq
  · exact hhalf n (by linarith)
  · refine hhalf (n - 1) ?_
    push_cast
    linarith

/-- A number that is not half way between two integers needs no more than to be close. -/
theorem NearestEven.of_ne (h : |x - n| ≤ 1 / 2) (hhalf : ∀ j : Int, x ≠ j + 1 / 2) :
    NearestEven n x :=
  .of_lt (abs_lt_of_ne h hhalf)

theorem NearestEven.eq_of_intCast (h : NearestEven n m) : n = m := by
  have hle := h.abs_le
  rw [← Int.cast_sub, ← Int.cast_abs] at hle
  have hlt : |m - n| < 1 := by
    rw [← Int.cast_lt (R := ℚ), Int.cast_one]
    linarith
  rw [Int.abs_lt_one_iff] at hlt
  omega

theorem NearestEven.self (n : Int) : NearestEven n n := .of_lt (by simp)

theorem NearestEven.neg (h : NearestEven n x) : NearestEven (-n) (-x) := by
  refine ⟨?_, ?_, fun hodd => ?_⟩
  · push_cast
    linarith [h.le_high]
  · push_cast
    linarith [h.low_le]
  · obtain ⟨hlow, hhigh⟩ := h.strict (by omega)
    push_cast
    exact ⟨by linarith, by linarith⟩

theorem nearestEven_natCast {r : Nat} (h : Nearest r x) : NearestEven r x := by
  refine ⟨?_, ?_, fun hodd => ?_⟩
  · rw [Int.cast_natCast]
    exact h.low_le
  · rw [Int.cast_natCast]
    exact h.le_high
  · rw [Int.cast_natCast]
    exact h.strict (by omega)

end

/-- A quotient of natural numbers is rounded to the nearest one. -/
theorem nearest_roundHalfEven {n d : Nat} (hd : 0 < d) : Nearest (roundHalfEven n d) (n / d) := by
  have hnonneg : (0 : ℚ) ≤ (n % d : Nat) / d := by positivity
  have hone : ((n % d : Nat) : ℚ) / d < 1 := natCast_div_lt_one (Nat.mod_lt n hd)
  rw [natCast_div_eq_add hd, roundHalfEven]
  rcases lt_trichotomy (2 * (n % d)) d with hlt | heq | hgt
  · have hfraction := (natCast_div_lt_half_iff hd).mpr hlt
    rw [if_pos hlt]
    exact .of_lt (by linarith) (by linarith)
  · have hfraction := (natCast_div_eq_half_iff hd).mpr heq
    rw [if_neg heq.not_lt, if_neg heq.not_gt, hfraction]
    split
    · next heven => exact ⟨by linarith, le_refl _, fun hodd => absurd heven hodd⟩
    · next hodd =>
      refine ⟨?_, ?_, fun h => absurd (show (n / d + 1) % 2 = 0 by omega) h⟩ <;>
      · push_cast
        linarith
  · have hfraction := (half_lt_natCast_div_iff hd).mpr hgt
    rw [if_neg hgt.not_gt, if_pos hgt]
    refine .of_lt ?_ ?_ <;>
    · push_cast
      linarith

/-! ### Signs -/

theorem cast_signed (negative : Bool) (n : Nat) :
    ((signed negative n : Int) : ℚ) = if negative then -(n : ℚ) else n := by
  cases negative <;> simp [signed]

theorem cast_eq_signed (u : Int) : (u : ℚ) = ((signed (u < 0) u.natAbs : Int) : ℚ) := by
  rw [Int.cast_inj, signed]
  split
  · next h =>
    rw [decide_eq_true_eq] at h
    omega
  · next h =>
    rw [decide_eq_true_eq] at h
    omega

/-- The sign of a quotient stands apart from its magnitude. -/
theorem cast_div_eq (u v : Int) : (u : ℚ) / v =
    if (decide (u < 0) != decide (v < 0)) then -((u.natAbs : ℚ) / v.natAbs)
    else (u.natAbs : ℚ) / v.natAbs := by
  conv_lhs => rw [cast_eq_signed u, cast_eq_signed v, cast_signed, cast_signed]
  cases decide (u < 0) <;> cases decide (v < 0) <;> simp [neg_div, div_neg]

theorem NearestEven.signed {r : Nat} {x : ℚ} (h : Nearest r x) (negative : Bool) :
    NearestEven (signed negative r) (if negative then -x else x) := by
  cases negative with
  | false => exact nearestEven_natCast h
  | true => exact (nearestEven_natCast h).neg

/-- **Rounding to a scale.** -/
theorem nearestEven_roundTo (d : Decimal) (word : Int64) :
    NearestEven (d.roundTo word).unscaled (d.toRat * 10 ^ word.toInt) := by
  rw [roundTo]
  generalize word.toInt = scale
  split
  · next hle =>
    rw [← unscaledAt_eq_toRat hle]
    exact .self _
  · next hgt =>
    obtain ⟨k, hk⟩ := Int.eq_ofNat_of_zero_le (show 0 ≤ d.scale - scale by omega)
    have hpow : (10 : ℚ) ^ (scale - d.scale) = 1 / (10 ^ k : Nat) := by
      rw [← neg_sub, hk, zpow_neg, zpow_natCast, one_div]
      push_cast
      rfl
    have hx : d.toRat * 10 ^ scale =
        if decide (d.unscaled < 0) then -((d.unscaled.natAbs : ℚ) / (10 ^ k : Nat))
        else (d.unscaled.natAbs : ℚ) / (10 ^ k : Nat) := by
      rw [toRat_mul_zpow, hpow, cast_eq_signed, cast_signed, mul_one_div]
      split <;> ring
    rw [hx, hk, Int.toNat_natCast]
    dsimp only
    rw [dropDigits_eq]
    exact .signed (nearest_roundHalfEven (Nat.pow_pos (by decide))) _

@[simp] theorem scale_roundTo (d : Decimal) (word : Int64) :
    (d.roundTo word).scale = word.toInt := by
  rw [roundTo]
  split <;> rfl

/-! ### The quotient of integers -/

section

variable {n d : Nat}

theorem digitCount_le_of_le (h : n ≤ d) : digitCount n ≤ digitCount d :=
  (digitCount_le_iff (digitCount_pos d)).mpr (h.trans_lt (lt_pow_digitCount d))

/-- The dividend is made as large as the divisor. -/
theorem le_mul_pow_lift (hn : 0 < n) : d ≤ n * 10 ^ lift n d := by
  rw [lift]
  split
  · next h => rwa [Nat.pow_zero, Nat.mul_one]
  · next h =>
    dsimp only
    split
    · next h => exact h
    · have hcount := digitCount_le_of_le (Nat.le_of_not_le h)
      have hpos := digitCount_pos n
      calc d ≤ 10 ^ digitCount d := (lt_pow_digitCount d).le
        _ = 10 ^ (digitCount n - 1) * 10 ^ (digitCount d - digitCount n + 1) := by
          rw [← Nat.pow_add]
          congr 1
          omega
        _ ≤ n * 10 ^ (digitCount d - digitCount n + 1) :=
          Nat.mul_le_mul_right _ (pow_digitCount_pred_le hn.ne')

/-- How many places a quotient has, from the numbers of digits. -/
theorem le_places (hn : 0 < n) (hd : 0 < d) :
    quotientDigits + digitCount d ≤ (quotient n d).2 + digitCount n + 1 := by
  rw [quotient]
  dsimp only
  generalize hk : lift n d = k
  have hle : d ≤ n * 10 ^ k := hk ▸ le_mul_pow_lift hn
  have hlow : 10 ^ (digitCount d - 1) ≤ d := pow_digitCount_pred_le hd.ne'
  have hhigh : n * 10 ^ k < 10 ^ (digitCount n + k) := by
    rw [Nat.pow_add]
    exact Nat.mul_lt_mul_of_pos_right (lt_pow_digitCount n) (Nat.pow_pos (by decide))
  have hcount : digitCount d - 1 < digitCount n + k :=
    (Nat.pow_lt_pow_iff_right (by decide)).mp (hlow.trans_lt (hle.trans_lt hhigh))
  have hquotient : n * 10 ^ k / d < 10 ^ (digitCount n + k - (digitCount d - 1)) := by
    rw [Nat.div_lt_iff_lt_mul hd]
    calc n * 10 ^ k < 10 ^ (digitCount n + k) := hhigh
      _ = 10 ^ (digitCount n + k - (digitCount d - 1)) * 10 ^ (digitCount d - 1) := by
        rw [← Nat.pow_add]
        congr 1
        omega
      _ ≤ 10 ^ (digitCount n + k - (digitCount d - 1)) * d := Nat.mul_le_mul_left _ hlow
  have hdigits := (digitCount_le_iff (by omega)).mpr hquotient
  have hpos := digitCount_pos d
  omega

/-- The digit after the last one decides how a quotient is rounded. -/
theorem five_le_nextDigit_iff (hd : 0 < d) : 5 ≤ n % d * 10 / d ↔ d ≤ 2 * (n % d) := by
  rw [Nat.le_div_iff_mul_le hd]
  omega

/-- A quotient is half a unit of its last place off at most. -/
theorem abs_quotient_le (hd : 0 < d) :
    |(n : ℚ) / d * 10 ^ (quotient n d).2 - (quotient n d).1| ≤ 1 / 2 := by
  rw [quotient]
  dsimp only
  generalize lift n d + (quotientDigits - digitCount (n * 10 ^ lift n d / d)) = places
  have hscaled : (n : ℚ) / d * 10 ^ places = (n * 10 ^ places : Nat) / d := by
    rw [div_mul_eq_mul_div]
    push_cast
    rfl
  generalize n * 10 ^ places = scaled at hscaled ⊢
  rw [hscaled, natCast_div_eq_add hd, abs_sub_le_iff]
  split
  · next hup =>
    have hfraction := not_lt.mp
      (mt (natCast_div_lt_half_iff hd).mp ((five_le_nextDigit_iff hd).mp hup).not_gt)
    have hone := natCast_div_lt_one (Nat.mod_lt scaled hd)
    push_cast
    constructor <;> linarith
  · next hdown =>
    have hfraction := not_lt.mp
      (mt (half_lt_natCast_div_iff hd).mp fun h => hdown ((five_le_nextDigit_iff hd).mpr h.le))
    have hnonneg : (0 : ℚ) ≤ (scaled % d : Nat) / d := by positivity
    constructor <;> linarith

end

/-! ### The quotient of decimals -/

/-- The quotient as it is computed, before it is rounded to the scale of the dividend: to a hundred
digits, or to a whole number of units of the last place if that has more. -/
def carried (a b : Decimal) : Decimal :=
  if a.isZero || b.isOne then a
  else
    ⟨signed ((a.unscaled < 0) != (b.unscaled < 0))
        (quotient a.unscaled.natAbs b.unscaled.natAbs).1,
      a.scale64 - b.scale64 + .ofNat (quotient a.unscaled.natAbs b.unscaled.natAbs).2⟩

/-- The scale that a quotient is computed to is of 64 bits. -/
def Fits (a b : Decimal) : Prop :=
  -scaleBound ≤ a.scale - b.scale ∧
    a.scale - b.scale + (quotient a.unscaled.natAbs b.unscaled.natAbs).2 < scaleBound

section

variable {a b : Decimal}

theorem divide?_eq (hb : b.isZero = false) :
    a.divide? b = some ((a.carried b).roundTo a.scale64) := by
  rw [divide?, if_neg (by simp [hb]), carried]
  split <;> rfl

/-- A scale that fits does not wrap around. -/
theorem scale_carried (hself : ¬(a.isZero || b.isOne) = true) (hfits : a.Fits b) :
    (a.carried b).scale =
      a.scale - b.scale + (quotient a.unscaled.natAbs b.unscaled.natAbs).2 := by
  obtain ⟨hlow, hhigh⟩ := hfits
  rw [carried, if_neg hself, scale_mk]
  generalize (quotient a.unscaled.natAbs b.unscaled.natAbs).2 = places at hhigh ⊢
  rw [Int64.toInt_add, Int64.toInt_sub, Int64.toInt_ofNat', Int64.size, Int.bmod_add_bmod,
    Int.add_bmod_bmod]
  show (a.scale - b.scale + places).bmod (2 ^ 64) = a.scale - b.scale + places
  rw [scaleBound] at hlow hhigh
  exact Int.bmod_eq_of_le (by omega) (by omega)

/-- Scales play no part in the digits of a quotient. -/
theorem toRat_div_mul_zpow (a b : Decimal) (places : Nat) :
    a.toRat / b.toRat * 10 ^ (a.scale - b.scale + places) =
      (a.unscaled : ℚ) / b.unscaled * 10 ^ places := by
  have ha : (10 : ℚ) ^ a.scale ≠ 0 := zpow_ne_zero _ ten_ne_zero
  have hb : (10 : ℚ) ^ b.scale ≠ 0 := zpow_ne_zero _ ten_ne_zero
  rw [toRat, toRat, zpow_neg, zpow_neg, zpow_add₀ ten_ne_zero, zpow_sub₀ ten_ne_zero, zpow_natCast]
  field_simp

/-- There is nothing to compute for a dividend that is zero and for a divisor that is one. -/
theorem div_eq_self (h : (a.isZero || b.isOne) = true) : a.toRat / b.toRat = a.toRat := by
  rcases Bool.or_eq_true_iff.mp h with h | h
  · rw [isZero_iff.mp h, zero_div]
  · rw [isOne_iff.mp h, div_one]

/-- The exact quotient, counted in units of the last place of the computed one. -/
theorem abs_carried_le (hb : b.toRat ≠ 0) (hfits : a.Fits b) :
    |a.toRat / b.toRat * 10 ^ (a.carried b).scale - (a.carried b).unscaled| ≤ 1 / 2 := by
  by_cases hself : (a.isZero || b.isOne) = true
  · rw [carried, if_pos hself, div_eq_self hself, toRat_mul_zpow_scale, sub_self, abs_zero]
    norm_num
  · have hquotient := abs_quotient_le (n := a.unscaled.natAbs) (natAbs_pos hb)
    rw [scale_carried hself hfits, toRat_div_mul_zpow, cast_div_eq, carried, if_neg hself]
    dsimp only
    rw [cast_signed]
    split
    · rw [← abs_neg]
      convert hquotient using 2
      ring
    · exact hquotient

/-- The first rounding does not show. -/
inductive Undisturbed (a b : Decimal) : Prop
  /-- It changed nothing. -/
  | exact (h : (a.carried b).toRat = a.toRat / b.toRat)
  /-- It left a number with more places than the result, and not half way between two results. -/
  | finer (hfits : a.Fits b) (hscale : a.scale < (a.carried b).scale)
    (h : ∀ j : Int, (a.carried b).toRat * 10 ^ a.scale ≠ j + 1 / 2)
  /-- It left a number with as many places as the result, and the exact quotient is not half way
  between two results. -/
  | same (hfits : a.Fits b) (hscale : (a.carried b).scale = a.scale)
    (h : ∀ j : Int, a.toRat / b.toRat * 10 ^ a.scale ≠ j + 1 / 2)

/-- Rounding to a scale after rounding to a finer one. The number that is rounded is no more than
half a unit of the finer scale away from the exact one, and what is half way between two results is
a whole number of such units. -/
theorem nearestEven_of_finer {d : Decimal} {scale n : Int} {x : ℚ} (hscale : scale < d.scale)
    (hclose : |x * 10 ^ d.scale - d.unscaled| ≤ 1 / 2)
    (hhalf : ∀ j : Int, d.toRat * 10 ^ scale ≠ j + 1 / 2)
    (h : NearestEven n (d.toRat * 10 ^ scale)) : NearestEven n (x * 10 ^ scale) := by
  obtain ⟨k, hk⟩ := Int.eq_ofNat_of_zero_le (show 0 ≤ d.scale - scale - 1 by omega)
  have hunits : ∀ y : ℚ, y * 10 ^ d.scale = y * 10 ^ scale * 10 ^ (k + 1) := by
    intro y
    rw [show d.scale = scale + (k + 1 : Nat) by push_cast; omega, zpow_add₀ ten_ne_zero,
      zpow_natCast, mul_assoc]
  have hunit : (0 : ℚ) < 10 ^ (k + 1) := by positivity
  have hself : d.toRat * 10 ^ scale * 10 ^ (k + 1) = d.unscaled := by
    rw [← hunits, toRat_mul_zpow_scale]
  have hstrict := abs_lt_of_ne h.abs_le hhalf
  -- In units of the finer scale the bound is a whole number, and so is what it bounds.
  have hwhole : |d.unscaled - n * 10 ^ (k + 1)| < 5 * 10 ^ k := by
    rw [← Int.cast_lt (R := ℚ)]
    push_cast
    rw [← hself, ← sub_mul, abs_mul, abs_of_pos hunit, pow_succ]
    have : (0 : ℚ) < 10 ^ k := by positivity
    nlinarith
  have hless : |d.unscaled - n * 10 ^ (k + 1)| + 1 ≤ 5 * 10 ^ k := hwhole
  have hless' : |(d.unscaled : ℚ) - n * 10 ^ (k + 1)| + 1 ≤ 5 * 10 ^ k := by exact_mod_cast hless
  refine .of_lt ?_
  rw [← mul_lt_mul_iff_left₀ hunit, ← abs_of_pos hunit, ← abs_mul, abs_of_pos hunit, sub_mul,
    ← hunits]
  calc |x * 10 ^ d.scale - n * 10 ^ (k + 1)|
      ≤ |x * 10 ^ d.scale - d.unscaled| + |(d.unscaled : ℚ) - n * 10 ^ (k + 1)| :=
        abs_sub_le ..
    _ < 5 * 10 ^ k := by linarith
    _ = 1 / 2 * 10 ^ (k + 1) := by ring

/-- The exact quotient is rounded once, where the first rounding does not show. -/
theorem Undisturbed.nearestEven (h : Undisturbed a b) (hb : b.toRat ≠ 0) :
    NearestEven ((a.carried b).roundTo a.scale64).unscaled
      (a.toRat / b.toRat * 10 ^ a.scale) := by
  have hround : NearestEven ((a.carried b).roundTo a.scale64).unscaled
      ((a.carried b).toRat * 10 ^ a.scale) := nearestEven_roundTo (a.carried b) a.scale64
  cases h with
  | exact h => rwa [h] at hround
  | finer hfits hscale hhalf =>
    exact nearestEven_of_finer hscale (abs_carried_le hb hfits) hhalf hround
  | same hfits hscale hhalf =>
    have hclose := abs_carried_le hb hfits
    have hself := toRat_mul_zpow_scale (a.carried b)
    rw [hscale] at hself hclose
    rw [hself] at hround
    rw [hround.eq_of_intCast]
    exact .of_ne hclose hhalf

/-- What is left over if a division stops with a quotient of so many places. -/
def remainder (a b : Decimal) (places : Nat) (q : Int) : Int :=
  a.unscaled * 10 ^ places - q * b.unscaled

theorem cast_remainder (hb : b.toRat ≠ 0) (places : Nat) (q : Int) :
    (remainder a b places q : ℚ) =
      (a.toRat / b.toRat * 10 ^ (a.scale - b.scale + places) - q) * b.unscaled := by
  have hdivisor : (b.unscaled : ℚ) ≠ 0 := by exact_mod_cast Int.natAbs_pos.mp (natAbs_pos hb)
  rw [toRat_div_mul_zpow, sub_mul, div_mul_eq_mul_div, div_mul_cancel₀ _ hdivisor, remainder]
  push_cast
  rfl

/-- A division that leaves nothing over is exact. -/
theorem eq_of_remainder_eq_zero {places : Nat} {q : Int} (hb : b.toRat ≠ 0)
    (h : remainder a b places q = 0) :
    a.toRat / b.toRat * 10 ^ (a.scale - b.scale + places) = q := by
  have hdivisor : (b.unscaled : ℚ) ≠ 0 := by exact_mod_cast Int.natAbs_pos.mp (natAbs_pos hb)
  have hzero := cast_remainder (a := a) hb places q
  rw [h, Int.cast_zero, zero_eq_mul, or_iff_left hdivisor, sub_eq_zero] at hzero
  exact hzero

theorem two_mul_abs_remainder_le {places : Nat} {q : Int} (hb : b.toRat ≠ 0)
    (h : |a.toRat / b.toRat * 10 ^ (a.scale - b.scale + places) - q| ≤ 1 / 2) :
    2 * |remainder a b places q| ≤ |b.unscaled| := by
  rw [← Int.cast_le (R := ℚ)]
  push_cast
  rw [cast_remainder hb, abs_mul, ← mul_assoc]
  refine mul_le_of_le_one_left (abs_nonneg _) ?_
  linarith

/-- A computed quotient that is half way between two results is a multiple of a power of ten, in
units of half its last place, and so is twice what is left over. -/
theorem pow_dvd_remainder_of_halfway {c : Decimal} {m : Nat} {j : Int}
    (hscale : c.scale = a.scale - b.scale + (b.scale.toNat + m : Nat))
    (hhalf : c.toRat * 10 ^ a.scale = j + 1 / 2) :
    10 ^ m ∣ 2 * remainder a b (b.scale.toNat + m) c.unscaled := by
  have htwice : 2 * c.unscaled = (2 * j + 1) * 10 ^ (-b.scale).toNat * 10 ^ m := by
    have hexponent : c.scale = a.scale + (((-b.scale).toNat + m : Nat) : Int) := by omega
    rw [← Int.cast_inj (α := ℚ)]
    push_cast
    rw [← toRat_mul_zpow_scale, hexponent, zpow_add₀ ten_ne_zero, zpow_natCast,
      ← mul_assoc c.toRat, hhalf, pow_add]
    ring
  refine ⟨2 * a.unscaled * 10 ^ b.scale.toNat -
    (2 * j + 1) * 10 ^ (-b.scale).toNat * b.unscaled, ?_⟩
  rw [remainder, pow_add]
  linear_combination -b.unscaled * htwice

/-- A computed quotient that is half way between two results is exact if it has places enough: what
is left over is a multiple of a power of ten, but is less than it. -/
theorem toRat_eq_of_halfway {c : Decimal} {places : Nat} {j : Int} (hb : b.toRat ≠ 0)
    (hscale : c.scale = a.scale - b.scale + places)
    (hplaces : digitCount b.unscaled.natAbs + b.scale.toNat ≤ places)
    (hclose : |a.toRat / b.toRat * 10 ^ c.scale - c.unscaled| ≤ 1 / 2)
    (hhalf : c.toRat * 10 ^ a.scale = j + 1 / 2) : c.toRat = a.toRat / b.toRat := by
  obtain ⟨m, rfl⟩ := Nat.exists_eq_add_of_le (show b.scale.toNat ≤ places by omega)
  have hdvd := pow_dvd_remainder_of_halfway hscale hhalf
  have hless : |2 * remainder a b (b.scale.toNat + m) c.unscaled| < 10 ^ m := by
    have hdivisor : b.unscaled.natAbs < 10 ^ m := (lt_pow_digitCount _).trans_le
      (Nat.pow_le_pow_right (by decide) (by omega))
    rw [hscale] at hclose
    calc |2 * remainder a b (b.scale.toNat + m) c.unscaled|
        = 2 * |remainder a b (b.scale.toNat + m) c.unscaled| := by rw [abs_mul, abs_two]
      _ ≤ |b.unscaled| := two_mul_abs_remainder_le hb hclose
      _ < 10 ^ m := by
        rw [Int.abs_eq_natAbs]
        exact_mod_cast hdivisor
  have hzero := Int.eq_zero_of_abs_lt_dvd hdvd hless
  have hquotient := eq_of_remainder_eq_zero hb
    ((mul_eq_zero.mp hzero).resolve_left two_ne_zero)
  rw [← hscale, ← toRat_mul_zpow_scale] at hquotient
  exact (mul_right_cancel₀ (zpow_ne_zero c.scale ten_ne_zero) hquotient).symm

/-- **Dividends of moderate length.** The quotient has then places enough for the first rounding not
to show. -/
theorem undisturbed_of_digits (hb : b.toRat ≠ 0) (hfits : a.Fits b)
    (h : digitCount a.unscaled.natAbs + b.scale.toNat < quotientDigits) : Undisturbed a b := by
  by_cases hself : (a.isZero || b.isOne) = true
  · refine .exact ?_
    rw [div_eq_self hself, carried, if_pos hself]
  · have hd := natAbs_pos hb
    have hn : 0 < a.unscaled.natAbs := natAbs_pos fun hzero =>
      hself (Bool.or_eq_true_iff.mpr (Or.inl (isZero_iff.mpr hzero)))
    have hplaces := le_places hn hd
    have hpos := digitCount_pos b.unscaled.natAbs
    have hscale := scale_carried hself hfits
    by_cases hhalf : ∃ j : Int, (a.carried b).toRat * 10 ^ a.scale = j + 1 / 2
    · obtain ⟨j, hj⟩ := hhalf
      exact .exact (toRat_eq_of_halfway hb hscale (by omega) (abs_carried_le hb hfits) hj)
    · exact .finer hfits (by omega) (not_exists.mp hhalf)

end

end Formulary.Decimal

namespace Formulary.Library

open Decimal

theorem divideDecimal_zero {a b : Decimal} (hb : b.toRat = 0) :
    divideDecimal a b = .error (divisionByZero Decimal.text a b) := by
  rw [divideDecimal, divide?_eq_none_iff.mpr (isZero_iff.mpr hb)]

theorem divideDecimal_eq {a b : Decimal} (hb : b.toRat ≠ 0) :
    divideDecimal a b = .ok ((a.carried b).roundTo a.scale64) := by
  rw [divideDecimal, divide?_eq (Bool.eq_false_iff.mpr (mt isZero_iff.mp hb))]

/-- **Division rounds the exact quotient once**, half to even and to the scale of the dividend, as
long as the rounding to a hundred digits before it does not show. A divisor that is zero is
refused. -/
theorem divideDecimal_rounds_once (a b : Decimal) :
    (b.toRat = 0 → divideDecimal a b = .error (divisionByZero Decimal.text a b)) ∧
      (b.toRat ≠ 0 → Undisturbed a b → ∃ q, divideDecimal a b = .ok q ∧ q.scale = a.scale ∧
        NearestEven q.unscaled (a.toRat / b.toRat * 10 ^ a.scale)) :=
  ⟨divideDecimal_zero, fun hb h =>
    ⟨_, divideDecimal_eq hb, scale_roundTo .., h.nearestEven hb⟩⟩

/-- A tie of ninety-eight digits. -/
theorem divideDecimal_rounds_once_tie :
    let a : Decimal := ⟨10 ^ 97 + 1, 2⟩
    let b : Decimal := ⟨20, 1⟩
    toRat 0 = 0 ∧ divideDecimal a 0 = .error (divisionByZero Decimal.text a 0) ∧
      b.toRat ≠ 0 ∧ Undisturbed a b ∧ ∃ q, divideDecimal a b = .ok q ∧ q.scale = 2 ∧
        NearestEven q.unscaled (a.toRat / b.toRat * 10 ^ (2 : Int)) := by
  intro a b
  have hzero : toRat 0 = 0 := isZero_iff.mp rfl
  have hb : b.toRat ≠ 0 := mt isZero_iff.mpr (by decide)
  have hfits : a.Fits b := ⟨by decide, by decide +kernel⟩
  have h : Undisturbed a b := undisturbed_of_digits hb hfits (by decide +kernel)
  exact ⟨hzero, (divideDecimal_rounds_once a 0).1 hzero, hb, h,
    (divideDecimal_rounds_once a b).2 hb h⟩

/-- **A quotient that is taken for a tie.** One divided by a little less than two is more than a
half, so that one is the nearest number. But the first hundred digits of it are those of a half,
which is rounded to zero. -/
theorem not_divideDecimal_rounds_half :
    let a : Decimal := ⟨1, 0⟩
    let b : Decimal := ⟨2 * 10 ^ 101 - 1, 101⟩
    ∃ q, divideDecimal a b = .ok q ∧ q.scale = a.scale ∧
      ¬NearestEven q.unscaled (a.toRat / b.toRat * 10 ^ a.scale) := by
  intro a b
  have hquotient : a.divide? b = some ⟨0, 0⟩ := by decide +kernel
  refine ⟨⟨0, 0⟩, by rw [divideDecimal, hquotient], rfl, fun h => ?_⟩
  have hscale : a.scale = 0 := by decide
  have hscale' : b.scale = 101 := by decide
  have hhigh := h.le_high
  rw [toRat, toRat, hscale, hscale'] at hhigh
  norm_num [a, b] at hhigh

end Formulary.Library
