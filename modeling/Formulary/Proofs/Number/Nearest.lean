import Formulary.Proofs.Number.Rounding
import Mathlib.Algebra.Order.Field.Power
import Mathlib.Data.Int.Log
import Mathlib.Data.Rat.Floor
import Mathlib.Tactic.Linarith
import Mathlib.Tactic.Positivity
import Mathlib.Tactic.Ring

/-!
# Correct rounding

A product, a quotient and a decimal text become the double that is nearest to their exact value.
Around each double lies an interval of the numbers that are rounded to it, the ends included where
the significand is even. An operation makes the double whose interval its exact value lies in.

Rounding drops binary places of a significand, and keeps of them whether they are nothing, less
than half a unit, half a unit or more. As long as the significand has enough places to begin with,
this decides what the nearest integer is.

## Scope

This is about doubles other than zero, without overflow. Numbers between the least and the largest
double lie in some interval; the interval of the largest double ends where the infinite one begins,
and nothing is said about what lies beyond.

## Main definitions

* `Double.Within` — intervals that are open or closed
* `Double.Nearest` — the nearest integer, the even one of two
* `Double.Fits`, `Double.Represents` — what an accuracy, and the residual bits, say of the rest
* `Double.RoundsTo` — the interval of a double
* `Double.largest` — the value of the largest double

## Main results

* `Double.roundWithAccuracy_of_roundsTo` — rounding is correct
* `Double.exists_roundsTo` — the intervals leave no gap
* `Double.mul_of_roundsTo`, `Double.div_of_roundsTo` — so are products and quotients
* `Double.ofScientific_of_roundsTo` — digits with an exponent are read as the nearest double
-/

namespace Formulary.Double

open Float.Model Float.Model.UnpackedFloat

/-! ### Nearest integers -/

/-- Between two bounds, which count only if the interval is closed. -/
structure Within (closed : Prop) (low high x : ℚ) : Prop where
  low_le : low ≤ x
  le_high : x ≤ high
  strict : ¬closed → low < x ∧ x < high

section

variable {closed : Prop} {low low' high high' x : ℚ}

theorem Within.of_lt (hlow : low < x) (hhigh : x < high) : Within closed low high x :=
  ⟨hlow.le, hhigh.le, fun _ => ⟨hlow, hhigh⟩⟩

theorem Within.widen (h : Within closed low high x) (hlow : low' ≤ low) (hhigh : high ≤ high') :
    Within closed low' high' x :=
  ⟨hlow.trans h.low_le, h.le_high.trans hhigh,
    fun hopen => ⟨hlow.trans_lt (h.strict hopen).1, (h.strict hopen).2.trans_le hhigh⟩⟩

end

/-- The nearest natural number, the even one if there are two. -/
def Nearest (r : Nat) (x : ℚ) : Prop := Within (r % 2 = 0) (r - 1 / 2) (r + 1 / 2) x

theorem Nearest.le {r r' : Nat} {x : ℚ} (h : Nearest r x) (h' : Nearest r' x) : r' ≤ r := by
  by_contra! hlt
  have hlow := h'.low_le
  have hhigh := h.le_high
  have hsucc : r' = r + 1 := by
    have : (r' : ℚ) ≤ (r + 1 : Nat) := by push_cast; linarith
    have : r' ≤ r + 1 := by exact_mod_cast this
    omega
  -- The number is half way between the two, one of which is odd.
  have hcast : (r' : ℚ) = r + 1 := by exact_mod_cast hsucc
  by_cases heven : r % 2 = 0
  · have := (h'.strict (by omega)).1
    linarith
  · have := (h.strict heven).2
    linarith

/-- There is one nearest number. -/
theorem Nearest.unique {r r' : Nat} {x : ℚ} (h : Nearest r x) (h' : Nearest r' x) : r = r' :=
  Nat.le_antisymm (h'.le h) (h.le h')

/-- No number is without one. -/
theorem exists_nearest {x : ℚ} (hx : 0 ≤ x) : ∃ r, Nearest r x := by
  let n := ⌊x⌋₊
  have hlow : (n : ℚ) ≤ x := Nat.floor_le hx
  have hhigh : x < n + 1 := Nat.lt_floor_add_one x
  rcases lt_trichotomy x (n + 1 / 2) with hlt | heq | hgt
  · exact ⟨n, .of_lt (by linarith) hlt⟩
  · by_cases heven : n % 2 = 0
    · exact ⟨n, by linarith, heq.le, fun hodd => absurd heven hodd⟩
    · refine ⟨n + 1, ?_, ?_, fun hodd => absurd (by omega) hodd⟩ <;>
      · push_cast
        linarith
  · refine ⟨n + 1, .of_lt ?_ ?_⟩ <;>
    · push_cast
      linarith

/-! ### Quotients of natural numbers -/

section

variable {n d : Nat}

/-- A quotient is its whole part and what is left over. -/
theorem natCast_div_eq_add (hd : 0 < d) : (n : ℚ) / d = (n / d : Nat) + (n % d : Nat) / d := by
  have hpos : (0 : ℚ) < d := by exact_mod_cast hd
  rw [div_eq_iff hpos.ne', add_mul, div_mul_cancel₀ _ hpos.ne']
  exact_mod_cast (Nat.div_add_mod' n d).symm

theorem natCast_div_lt_one (h : n < d) : (n : ℚ) / d < 1 := by
  rw [div_lt_one (by exact_mod_cast (Nat.zero_le n).trans_lt h)]
  exact_mod_cast h

theorem natCast_div_lt_half_iff (hd : 0 < d) : (n : ℚ) / d < 1 / 2 ↔ 2 * n < d := by
  rw [div_lt_div_iff₀ (by exact_mod_cast hd) two_pos, one_mul, mul_comm (n : ℚ)]
  exact_mod_cast Iff.rfl

theorem half_lt_natCast_div_iff (hd : 0 < d) : (1 / 2 : ℚ) < n / d ↔ d < 2 * n := by
  rw [div_lt_div_iff₀ two_pos (by exact_mod_cast hd), one_mul, mul_comm (n : ℚ)]
  exact_mod_cast Iff.rfl

theorem natCast_div_eq_half_iff (hd : 0 < d) : (n : ℚ) / d = 1 / 2 ↔ 2 * n = d := by
  rw [eq_iff_le_not_lt, ← not_lt, half_lt_natCast_div_iff hd, natCast_div_lt_half_iff hd]
  omega

end

/-! ### What an accuracy says -/

/-- What is left over of a unit, as far as an accuracy tells. -/
def Fits : Accuracy → ℚ → Prop
  | .exact, f => f = 0
  | .inexact .lt, f => 0 < f ∧ f < 1 / 2
  | .inexact .eq, f => f = 1 / 2
  | .inexact .gt, f => 1 / 2 < f ∧ f < 1

theorem Fits.bounds {a : Accuracy} {f : ℚ} (h : Fits a f) : 0 ≤ f ∧ f < 1 := by
  cases a with
  | exact =>
    rw [Fits] at h
    rw [h]
    norm_num
  | inexact o =>
    cases o <;> simp only [Fits] at h <;> constructor <;> linarith

/-- The number that a significand and its residual bits stand for. -/
def Represents (em : ExtendedMantissa) (x : ℚ) : Prop := Fits em.accuracy (x - em.mantissa)

theorem represents_ofMantissaAndAccuracy {m : Nat} {a : Accuracy} {x : ℚ} (h : Fits a (x - m)) :
    Represents (.ofMantissaAndAccuracy m a) x := by
  cases a with
  | exact => exact h
  | inexact o => cases o <;> exact h

/-- The place that is dropped becomes the round bit, and both bits that there were are kept in the
other one. -/
theorem Represents.shiftRightOne {em : ExtendedMantissa} {x : ℚ} (h : Represents em x) :
    Represents em.shiftRightOne (x / 2) := by
  obtain ⟨m, round, sticky⟩ := em
  have hdiv : (m : ℚ) = 2 * (m / 2 : Nat) + (m % 2 : Nat) := by
    exact_mod_cast (Nat.div_add_mod m 2).symm
  rw [Represents, ExtendedMantissa.shiftRightOne]
  -- The parity of the significand and the two bits make eight cases, each of them linear.
  rcases Nat.mod_two_eq_zero_or_one m with hm | hm <;> rw [hm] at hdiv ⊢ <;> push_cast at hdiv <;>
    cases round <;> cases sticky <;>
      simp only [Represents, ExtendedMantissa.accuracy, Fits] at h <;>
      simp [ExtendedMantissa.accuracy, Fits] <;>
      first | linarith | constructor <;> linarith

theorem Represents.shiftRight {em : ExtendedMantissa} {x : ℚ} (h : Represents em x) (k : Nat) :
    Represents (em >>> k) (x / 2 ^ k) := by
  induction k with
  | zero =>
    rw [pow_zero, div_one]
    exact h
  | succ k ih =>
    rw [pow_succ, ← div_div]
    exact ih.shiftRightOne

theorem nearest_roundedMantissa {em : ExtendedMantissa} {x : ℚ} (h : Represents em x) :
    Nearest em.roundedMantissa x := by
  obtain ⟨m, round, sticky⟩ := em
  cases round <;> cases sticky
  · have h : x - m = 0 := h
    show Nearest m x
    exact .of_lt (by linarith) (by linarith)
  · have h : 0 < x - m ∧ x - m < 1 / 2 := h
    show Nearest m x
    exact .of_lt (by linarith) (by linarith)
  · have h : x - m = 1 / 2 := h
    show Nearest (m + m % 2) x
    rcases Nat.mod_two_eq_zero_or_one m with hm | hm <;> rw [hm]
    · exact ⟨by push_cast; linarith, by push_cast; linarith, fun hne => absurd hm hne⟩
    · exact ⟨by push_cast; linarith, by push_cast; linarith, fun hne => absurd (by omega) hne⟩
  · have h : 1 / 2 < x - m ∧ x - m < 1 := h
    show Nearest (m + 1) x
    exact .of_lt (by push_cast; linarith) (by push_cast; linarith)

/-! ### Rounding -/

section

variable {m n : Nat} {q e : Int} {a : Accuracy} {v : ℚ}

/-- How far below a double, in units of its last place, the numbers reach that are rounded to it.
Under a power of two the neighbour is half as far. -/
def reachBelow (m : Nat) (q : Int) : ℚ := if m = 2 ^ 52 ∧ minExponent < q then 1 / 4 else 1 / 2

theorem reachBelow_le : reachBelow m q ≤ 1 / 2 := by
  rw [reachBelow]
  split <;> norm_num

theorem reachBelow_pos : 0 < reachBelow m q := by
  rw [reachBelow]
  split <;> norm_num

/-- A number lies in the interval of those that are rounded to a double. -/
def RoundsTo (m : Nat) (q : Int) (v : ℚ) : Prop :=
  Within (m % 2 = 0) (m - reachBelow m q) (m + 1 / 2) (v / 2 ^ q)

/-- A double is rounded to itself. -/
theorem roundsTo_self (m : Nat) (q : Int) : RoundsTo m q (m * 2 ^ q) := by
  have hself : (m : ℚ) * 2 ^ q / 2 ^ q = m := mul_div_cancel_right₀ _ (zpow_ne_zero q two_ne_zero)
  have hreach := reachBelow_pos (m := m) (q := q)
  rw [RoundsTo, hself]
  exact .of_lt (by linarith) (by linarith)

theorem RoundsTo.nearest (h : RoundsTo m q v) : Nearest m (v / 2 ^ q) := by
  have hreach := reachBelow_le (m := m) (q := q)
  exact h.widen (by linarith) le_rfl

theorem RoundsTo.lt (h : RoundsTo m q v) (hcanonical : Canonical m q) : v < 2 ^ (q + 53) := by
  have hq : (0 : ℚ) < 2 ^ q := by positivity
  have hm : (m + 1 : ℚ) ≤ 2 ^ 53 := by exact_mod_cast hcanonical.lt
  have hhigh := h.le_high
  rw [zpow_add₀ two_ne_zero, mul_comm, ← div_lt_iff₀ hq]
  norm_num at hm ⊢
  linarith

theorem two_zpow_le {k : Int} {n : Nat} (h : k ≤ n) : (2 : ℚ) ^ k ≤ 2 ^ n := by
  rw [← zpow_natCast]
  exact zpow_le_zpow_right₀ one_le_two h

/-- Numbers with a smaller exponent than their double lie close under a power of two. -/
theorem RoundsTo.of_exponent_lt (h : RoundsTo m q v) (hcanonical : Canonical m q) {t : Int}
    (ht : minExponent ≤ t) (htq : t < q) (hv : v < 2 ^ (t + 53)) :
    m = 2 ^ 52 ∧ t = q - 1 ∧ Nearest (2 ^ 53) (v / 2 ^ t) := by
  have hq : (0 : ℚ) < 2 ^ q := by positivity
  have hlow := h.low_le
  have hbelow : v / 2 ^ q < 2 ^ (t + 53 - q) := by
    rw [div_lt_iff₀ hq, ← zpow_add₀ two_ne_zero, sub_add_cancel]
    exact hv
  have hbound := two_zpow_le (show t + 53 - q ≤ (52 : Nat) by omega)
  have hfull : 2 ^ 52 ≤ m := hcanonical.full.resolve_right (by omega)
  have hpower : m = 2 ^ 52 := by
    by_contra hne
    have hnext : 2 ^ 52 + 1 ≤ m := by omega
    have hm : (2 ^ 52 + 1 : ℚ) ≤ m := by exact_mod_cast hnext
    have hreach := reachBelow_le (m := m) (q := q)
    linarith
  have hquarter : reachBelow m q = 1 / 4 := if_pos ⟨hpower, by omega⟩
  rw [hquarter, hpower] at hlow
  push_cast at hlow
  have hnext : t = q - 1 := by
    by_contra hne
    have := two_zpow_le (show t + 53 - q ≤ (51 : Nat) by omega)
    linarith
  refine ⟨hpower, hnext, ?_⟩
  have hdouble : v / 2 ^ t = v / 2 ^ q * 2 := by
    rw [hnext, zpow_sub_one₀ two_ne_zero, ← div_div, div_inv_eq_mul]
  rw [hdouble]
  refine ⟨?_, ?_, fun hodd => absurd (by decide) hodd⟩
  · push_cast
    linarith
  · push_cast
    linarith

/-- The significand is rounded to the nearest integer at its new exponent. -/
theorem nearest_roundedOff (ha : Fits a (v / 2 ^ e - n)) :
    Nearest (roundedOff n e a) (v / 2 ^ (e + shiftOf n e)) := by
  rw [zpow_add₀ two_ne_zero, zpow_natCast, ← div_div]
  exact nearest_roundedMantissa ((represents_ofMantissaAndAccuracy ha).shiftRight _)

/-- A number is bounded by the total exponent of its significand. -/
theorem bounds_of_fits (ha : Fits a (v / 2 ^ e - n)) :
    (n ≠ 0 → 2 ^ (totalExponent n e - 1) ≤ v) ∧ v < 2 ^ totalExponent n e := by
  have he : (0 : ℚ) < 2 ^ e := by positivity
  obtain ⟨hlow, hhigh⟩ := ha.bounds
  rw [totalExponent]
  constructor
  · intro hn
    have hlog : ((2 ^ n.log2 : Nat) : ℚ) ≤ n := by exact_mod_cast Nat.log2_self_le hn
    have hpow : (2 : ℚ) ^ ((n.log2 : Int) + 1 + e - 1) = (2 ^ n.log2 : Nat) * 2 ^ e := by
      rw [show (n.log2 : Int) + 1 + e - 1 = n.log2 + e by ring, zpow_add₀ two_ne_zero]
      push_cast
      rw [zpow_natCast]
    rw [hpow, ← le_div_iff₀ he]
    linarith
  · have hlog : (n : ℚ) + 1 ≤ (2 ^ (n.log2 + 1) : Nat) := by
      exact_mod_cast Nat.lt_log2_self
    have hpow : (2 : ℚ) ^ ((n.log2 : Int) + 1 + e) = (2 ^ (n.log2 + 1) : Nat) * 2 ^ e := by
      rw [zpow_add₀ two_ne_zero]
      push_cast
      rw [← Nat.cast_succ, zpow_natCast]
    rw [hpow, ← div_lt_iff₀ he]
    linarith

theorem shiftOf_eq_zero (h : Canonical m q) : shiftOf m q = 0 := by
  have hlow := h.le_exponent
  have hlog : m.log2 < 53 := by
    by_cases hm : m = 0
    · rw [hm]
      decide
    · exact (Nat.log2_lt hm).mpr h.lt
  rw [minExponent] at hlow
  rw [shiftOf, totalExponent]
  omega

/-- What is left when rounding is over. -/
theorem roundWithAccuracy_eq_finite (s : Sign) {r i : Nat} (hr : roundedOff n e a = r)
    (hi : shiftOf r (e + shiftOf n e) = i) (hm : 0 < m) (hdiv : r / 2 ^ i = m)
    (hq : e + shiftOf n e + i = q) :
    roundWithAccuracy Format.binary64 s n e a = .finite s m q hm := by
  subst hdiv hq
  rcases roundWithAccuracy_cases s n e a hr hi with ⟨hzero, -⟩ | ⟨_, hfinite⟩
  · omega
  · exact hfinite

/-- **Rounding is correct.** A number that is given by a significand with enough places, and by
what the accuracy says of the rest, becomes the double whose interval it lies in. -/
theorem roundWithAccuracy_of_roundsTo (s : Sign) (hcanonical : Canonical m q) (hm : 0 < m)
    (hv : RoundsTo m q v) (ha : Fits a (v / 2 ^ e - n)) (he : e ≤ minExponent ∨ 52 ≤ n.log2) :
    roundWithAccuracy Format.binary64 s n e a = .finite s m q hm := by
  let t := e + shiftOf n e
  have ht : t = max (totalExponent n e - 53) minExponent := by
    simp only [t, shiftOf, totalExponent, minExponent] at he ⊢
    omega
  have hnearest : Nearest (roundedOff n e a) (v / 2 ^ t) := nearest_roundedOff ha
  obtain ⟨hlower, hupper⟩ := bounds_of_fits ha
  -- The significand is rounded at exponent `t`. This is below `q` for numbers under a power of two
  -- that are rounded up to it.
  rcases lt_trichotomy t q with hlt | heq | hgt
  · have hvt : v < 2 ^ (t + 53) := hupper.trans_le (zpow_le_zpow_right₀ one_le_two (by omega))
    obtain ⟨rfl, hnext, hpower⟩ := hv.of_exponent_lt hcanonical (by omega) hlt hvt
    have hshift : shiftOf (2 ^ 53) t = 1 := by
      rw [shiftOf, totalExponent, Nat.log2_two_pow]
      rw [minExponent] at ht
      omega
    refine roundWithAccuracy_eq_finite s (hnearest.unique hpower) hshift hm (by decide) ?_
    show t + 1 = q
    omega
  · have hr : roundedOff n e a = m := hnearest.unique (heq ▸ hv.nearest)
    have hshift : shiftOf m (e + shiftOf n e) = 0 := by
      rw [show e + (shiftOf n e : Int) = q from heq]
      exact shiftOf_eq_zero hcanonical
    exact roundWithAccuracy_eq_finite s hr hshift hm (Nat.div_one m) ((Int.add_zero _).trans heq)
  · have hmin := hcanonical.le_exponent
    have hn : n ≠ 0 := by
      rintro rfl
      have hlog : Nat.log2 0 = 0 := rfl
      rw [totalExponent, hlog] at ht
      rw [hlog] at he
      omega
    have hle : (2 : ℚ) ^ (q + 53) ≤ v :=
      (zpow_le_zpow_right₀ one_le_two (by omega)).trans (hlower hn)
    exact absurd (hv.lt hcanonical) hle.not_gt

/-! ### The range of doubles -/

/-- A number is rounded to its nearest significand. -/
theorem roundsTo_of_nearest (h : Nearest m (v / 2 ^ q))
    (hlow : m = 2 ^ 52 → minExponent < q → (m : ℚ) ≤ v / 2 ^ q) : RoundsTo m q v := by
  have hpos := reachBelow_pos (m := m) (q := q)
  by_cases hedge : m = 2 ^ 52 ∧ minExponent < q
  · have hself := hlow hedge.1 hedge.2
    refine ⟨by linarith, h.le_high, fun hodd => absurd ?_ hodd⟩
    rw [hedge.1]
    decide
  · rw [RoundsTo, reachBelow, if_neg hedge]
    exact h

/-- A number whose nearest significand has one place too many. -/
theorem roundsTo_of_nearest_carry (hq : minExponent ≤ q) (h : Nearest (2 ^ 53) (v / 2 ^ q))
    (hlt : v / 2 ^ q < 2 ^ 53) : RoundsTo (2 ^ 52) (q + 1) v := by
  have hhalf : v / 2 ^ (q + 1) = v / 2 ^ q / 2 := by rw [zpow_add_one₀ two_ne_zero, div_div]
  have hlow := h.low_le
  rw [RoundsTo, reachBelow, if_pos ⟨rfl, by omega⟩, hhalf]
  push_cast at hlow ⊢
  exact ⟨by linarith, by linarith, fun hodd => absurd (by decide) hodd⟩

/-- The largest double. -/
def largest : ℚ := (2 ^ 53 - 1) * 2 ^ (971 : Int)

theorem largest_lt : largest < 2 ^ (1024 : Int) := by
  rw [largest, show (1024 : Int) = 53 + 971 by rfl, zpow_add₀ two_ne_zero]
  exact mul_lt_mul_of_pos_right (by norm_num) (by positivity)

/-- **Every number between the least and the largest double is rounded to a double.** -/
theorem exists_roundsTo (hlow : 2 ^ minExponent ≤ v) (hhigh : v ≤ largest) :
    ∃ m q, Canonical m q ∧ 0 < m ∧ RoundsTo m q v := by
  have hv : 0 < v := (by positivity : (0 : ℚ) < 2 ^ minExponent).trans_le hlow
  have hlog : (2 : ℚ) ^ Int.log 2 v ≤ v := Int.zpow_log_le_self one_lt_two hv
  have hlog' : v < (2 : ℚ) ^ (Int.log 2 v + 1) := Int.lt_zpow_succ_log_self one_lt_two v
  let q := max (Int.log 2 v - 52) minExponent
  have hq : (0 : ℚ) < 2 ^ q := by positivity
  have hmin : minExponent ≤ q := le_max_right _ _
  have hfull : minExponent < q → 2 ^ 52 ≤ v / 2 ^ q := by
    intro hlt
    have hexponent : (52 : Nat) + q = Int.log 2 v := by
      simp only [q] at hlt ⊢
      omega
    rwa [le_div_iff₀ hq, ← zpow_natCast, ← zpow_add₀ two_ne_zero, hexponent]
  have hone : 1 ≤ v / 2 ^ q := by
    rcases hmin.eq_or_lt with heq | hlt
    · rwa [one_le_div hq, ← heq]
    · exact le_trans (by norm_num) (hfull hlt)
  have hlt : v / 2 ^ q < 2 ^ 53 := by
    rw [div_lt_iff₀ hq, ← zpow_natCast, ← zpow_add₀ two_ne_zero]
    refine hlog'.trans_le (zpow_le_zpow_right₀ one_le_two ?_)
    simp only [q]
    omega
  have hmax : q ≤ 971 := by
    have hlarge : (2 : ℚ) ^ Int.log 2 v < 2 ^ (1024 : Int) :=
      (hlog.trans hhigh).trans_lt largest_lt
    have := (zpow_lt_zpow_iff_right₀ one_lt_two).mp hlarge
    simp only [q, minExponent]
    omega
  obtain ⟨m, hm⟩ := exists_nearest (div_pos hv hq).le
  have hmhigh := hm.le_high
  have hmlow := hm.low_le
  have hpos : 0 < m := by
    by_contra! hzero
    obtain rfl := Nat.le_zero.mp hzero
    push_cast at hmhigh
    linarith
  have hle : m ≤ 2 ^ 53 := by
    by_contra! hgt
    have : (2 ^ 53 + 1 : ℚ) ≤ m := by exact_mod_cast hgt
    linarith
  rcases hle.lt_or_eq with hmlt | rfl
  · refine ⟨m, q, ⟨hmlt, hmin, hmax, ?_⟩, hpos, roundsTo_of_nearest hm fun heq hgt => ?_⟩
    · refine or_iff_not_imp_right.mpr fun hne => ?_
      by_contra! hsmall
      have : (m + 1 : ℚ) ≤ 2 ^ 52 := by exact_mod_cast hsmall
      have := hfull (lt_of_le_of_ne hmin (Ne.symm hne))
      linarith
    · rw [heq]
      exact_mod_cast hfull hgt
  · -- The largest double has no significand above it to be rounded to.
    have hne : q ≠ 971 := by
      intro heq
      have hlargest : v / 2 ^ q ≤ 2 ^ 53 - 1 := by
        rw [div_le_iff₀ hq, heq]
        exact hhigh
      push_cast at hmlow
      linarith
    exact ⟨2 ^ 52, q + 1, ⟨by decide, by omega, by omega, Or.inl le_rfl⟩, by decide,
      roundsTo_of_nearest_carry hmin hm hlt⟩

theorem ten_pow_le_largest {k : Nat} (hk : k ≤ 308) : (10 : ℚ) ^ k ≤ largest := by
  have hlargest : 10 ^ 308 ≤ 9007199254740991 * 2 ^ 971 := by decide +kernel
  calc (10 : ℚ) ^ k ≤ 10 ^ 308 := pow_le_pow_right₀ (by norm_num) hk
    _ ≤ 9007199254740991 * 2 ^ 971 := by
      have := (Nat.cast_le (α := ℚ)).mpr hlargest
      rwa [Nat.cast_mul, Nat.cast_pow, Nat.cast_pow] at this
    _ = largest := by
      rw [largest, zpow_ofNat]
      congr 1
      norm_num

/-! ### Arithmetic -/

/-- Zeros after a significand are made up for by its exponent. -/
theorem shiftLeft_mul_zpow (n i : Nat) (e : Int) :
    ((n <<< i : Nat) * 2 ^ (e - i) : ℚ) = n * 2 ^ e := by
  rw [Nat.shiftLeft_eq, zpow_sub₀ two_ne_zero, zpow_natCast]
  push_cast
  rw [mul_assoc, mul_div_cancel₀ _ (pow_ne_zero i two_ne_zero)]

variable {m₁ m₂ : Nat} {e₁ e₂ : Int} {s₁ s₂ : Sign}

/-- Products are rounded correctly when they have enough places. -/
theorem mul_of_roundsTo (hcanonical : Canonical m q) (hm : 0 < m) (hm₁ : 2 ^ 52 ≤ m₁)
    (hm₂ : 0 < m₂) (hv : RoundsTo m q (m₁ * 2 ^ e₁ * (m₂ * 2 ^ e₂))) :
    UnpackedFloat.mul Format.binary64 (.finite s₁ m₁ e₁ (by omega)) (.finite s₂ m₂ e₂ hm₂) =
      .finite (s₁ * s₂) m q hm := by
  have hproduct : 2 ^ 52 ≤ m₁ * m₂ := hm₁.trans (Nat.le_mul_of_pos_right m₁ hm₂)
  have hfits : Fits .exact
      ((m₁ * 2 ^ e₁ * (m₂ * 2 ^ e₂) : ℚ) / 2 ^ (e₁ + e₂) - (m₁ * m₂ : Nat)) := by
    have hexponent : (2 : ℚ) ^ (e₁ + e₂) ≠ 0 := zpow_ne_zero _ two_ne_zero
    rw [Fits, sub_eq_zero, div_eq_iff hexponent, zpow_add₀ two_ne_zero]
    push_cast
    ring
  exact roundWithAccuracy_of_roundsTo _ hcanonical hm hv hfits
    (Or.inr ((Nat.le_log2 (by omega)).mpr hproduct))

theorem fits_accuracyOfFraction {n d : Nat} (h : n < d) :
    Fits (accuracyOfFraction n d) (n / d) := by
  have hd : 0 < d := (Nat.zero_le n).trans_lt h
  rw [accuracyOfFraction]
  split
  · next hn =>
    rw [hn, Fits, Nat.cast_zero, zero_div]
  · next hn =>
    cases ho : compare (2 * n) d with
    | lt =>
      have hpos : (0 : ℚ) < n := by exact_mod_cast Nat.pos_of_ne_zero hn
      exact ⟨div_pos hpos (by exact_mod_cast hd),
        (natCast_div_lt_half_iff hd).mpr (Nat.compare_eq_lt.mp ho)⟩
    | eq => exact (natCast_div_eq_half_iff hd).mpr (Nat.compare_eq_eq.mp ho)
    | gt =>
      exact ⟨(half_lt_natCast_div_iff hd).mpr (Nat.compare_eq_gt.mp ho), natCast_div_lt_one h⟩

/-- Quotients are rounded correctly. -/
theorem div_of_roundsTo (hcanonical : Canonical m q) (hm : 0 < m) (hm₁ : 0 < m₁)
    (hm₂ : 0 < m₂) (hv : RoundsTo m q (m₁ * 2 ^ e₁ / (m₂ * 2 ^ e₂))) :
    UnpackedFloat.div Format.binary64 (.finite s₁ m₁ e₁ hm₁) (.finite s₂ m₂ e₂ hm₂) =
      .finite (s₁ / s₂) m q hm := by
  let t := min (e₁ - e₂)
    (Format.binary64.targetExponent (totalExponent m₁ e₁ - totalExponent m₂ e₂))
  let i := (e₁ - e₂ - t).toNat
  have hi : (i : Int) = e₁ - e₂ - t := by
    simp only [i, t]
    omega
  have hfits : Fits (accuracyOfFraction (m₁ <<< i % m₂) m₂)
      ((m₁ * 2 ^ e₁ / (m₂ * 2 ^ e₂) : ℚ) / 2 ^ t - (m₁ <<< i / m₂ : Nat)) := by
    have hshifted : ((m₁ <<< i : Nat) : ℚ) / m₂ = m₁ * 2 ^ e₁ / (m₂ * 2 ^ e₂) / 2 ^ t := by
      have hexponent : e₁ - i = e₂ + t := by omega
      rw [← shiftLeft_mul_zpow m₁ i e₁, hexponent, div_div, mul_assoc, ← zpow_add₀ two_ne_zero,
        mul_div_mul_right _ _ (zpow_ne_zero _ two_ne_zero)]
    rw [← hshifted, natCast_div_eq_add hm₂, add_sub_cancel_left]
    exact fits_accuracyOfFraction (Nat.mod_lt _ hm₂)
  have hplaces : t ≤ minExponent ∨ 52 ≤ (m₁ <<< i / m₂).log2 := by
    refine or_iff_not_imp_left.mpr fun ht => ?_
    have hexponent : 52 + (m₂.log2 + 1) ≤ m₁.log2 + i := by
      have htarget : t ≤ max (totalExponent m₁ e₁ - totalExponent m₂ e₂ - 53) minExponent :=
        min_le_right _ _
      rw [totalExponent, totalExponent] at htarget
      omega
    have hquotient : 2 ^ 52 ≤ m₁ <<< i / m₂ := by
      rw [Nat.le_div_iff_mul_le hm₂, Nat.shiftLeft_eq]
      calc 2 ^ 52 * m₂ ≤ 2 ^ 52 * 2 ^ (m₂.log2 + 1) :=
            Nat.mul_le_mul_left _ Nat.lt_log2_self.le
        _ = 2 ^ (52 + (m₂.log2 + 1)) := (Nat.pow_add ..).symm
        _ ≤ 2 ^ (m₁.log2 + i) := Nat.pow_le_pow_right two_pos hexponent
        _ = 2 ^ m₁.log2 * 2 ^ i := Nat.pow_add ..
        _ ≤ m₁ * 2 ^ i := Nat.mul_le_mul_right _ (Nat.log2_self_le hm₁.ne')
    exact (Nat.le_log2 (by omega)).mpr hquotient
  exact roundWithAccuracy_of_roundsTo _ hcanonical hm hv hfits hplaces

/-! ### Integers -/

/-- Integers of fifty-three places are doubles. -/
theorem ofNat_eq_finite (hn : 0 < n) (h : n < 2 ^ 53) :
    ∃ m e, ∃ hm : 0 < m, UnpackedFloat.ofNat Format.binary64 n = .finite .positive m e hm ∧
      Canonical m e ∧ 2 ^ 52 ≤ m ∧ (m * 2 ^ e : ℚ) = n := by
  have hlog : n.log2 < 53 := (Nat.log2_lt hn.ne').mpr h
  let i := (0 - Format.binary64.targetExponent (totalExponent n 0)).toNat
  have hi : i = 52 - n.log2 := by
    have htarget : Format.binary64.targetExponent (totalExponent n 0) =
        max ((n.log2 : Int) + 1 + 0 - 53) (-1074) := rfl
    omega
  have hshift : n <<< i = n * 2 ^ i := Nat.shiftLeft_eq n i
  have hlow : 2 ^ 52 ≤ n <<< i := by
    calc 2 ^ 52 = 2 ^ n.log2 * 2 ^ i := by rw [← Nat.pow_add, hi]; congr 1; omega
      _ ≤ n * 2 ^ i := Nat.mul_le_mul_right _ (Nat.log2_self_le hn.ne')
      _ = n <<< i := hshift.symm
  have hhigh : n <<< i < 2 ^ 53 := by
    calc n <<< i = n * 2 ^ i := hshift
      _ < 2 ^ (n.log2 + 1) * 2 ^ i :=
        Nat.mul_lt_mul_of_pos_right Nat.lt_log2_self (Nat.two_pow_pos i)
      _ = 2 ^ 53 := by rw [← Nat.pow_add, hi]; congr 1; omega
  have hcanonical : Canonical (n <<< i) (0 - i) :=
    ⟨hhigh, by rw [minExponent]; omega, by omega, Or.inl hlow⟩
  have hfits : Fits .exact (((n <<< i : Nat) * 2 ^ (0 - i : Int) : ℚ) / 2 ^ (0 - i : Int) -
      (n <<< i : Nat)) := by
    rw [Fits, mul_div_cancel_right₀ _ (zpow_ne_zero _ two_ne_zero), sub_self]
  have hplaces : 52 ≤ (n <<< i).log2 := (Nat.le_log2 (by omega)).mpr hlow
  refine ⟨n <<< i, 0 - i, by omega, ?_, hcanonical, hlow, ?_⟩
  · rw [UnpackedFloat.ofNat, UnpackedFloat.ofInt, UnpackedFloat.normalize,
      Int.compare_eq_gt.mpr (by omega)]
    exact roundWithAccuracy_of_roundsTo .positive hcanonical _ (roundsTo_self _ _) hfits
      (Or.inr hplaces)
  · exact (shiftLeft_mul_zpow n i 0).trans (mul_one _)

/-! ### Decimal texts -/

/-- What is rounded to a double other than zero lies in the range of doubles. -/
theorem RoundsTo.bounds (hv : RoundsTo m q v) (hcanonical : Canonical m q) (hm : 0 < m) :
    2 ^ (-1075 : Int) ≤ v ∧ v < 2 ^ (1024 : Int) := by
  have hq : (0 : ℚ) < 2 ^ q := by positivity
  have hlow := hv.low_le
  have hreach := reachBelow_le (m := m) (q := q)
  have hone : (1 : ℚ) ≤ m := by exact_mod_cast hm
  have hmin : -1074 ≤ q := hcanonical.le_exponent
  have hmax := hcanonical.exponent_le
  constructor
  · calc (2 : ℚ) ^ (-1075 : Int) ≤ 2 ^ (q - 1) := zpow_le_zpow_right₀ one_le_two (by omega)
      _ = 1 / 2 * 2 ^ q := by rw [zpow_sub_one₀ two_ne_zero]; ring
      _ ≤ v := by rw [← le_div_iff₀ hq]; linarith
  · exact (hv.lt hcanonical).trans_le (zpow_le_zpow_right₀ one_le_two (by omega))

/-- Digits with an exponent are rounded correctly. -/
theorem unpackedOfScientific_of_roundsTo (hcanonical : Canonical m q) (hm : 0 < m) (hn : 0 < n)
    (hv : RoundsTo m q (n * 10 ^ e)) :
    UnpackedFloat.ofScientific Format.binary64 n e = .finite .positive m q hm := by
  obtain ⟨hlow, hhigh⟩ := hv.bounds hcanonical hm
  have hone : (1 : ℚ) ≤ n := by exact_mod_cast hn
  have hlog : (n : ℚ) < 2 ^ (n.log2 + 1) := by exact_mod_cast Nat.lt_log2_self
  have hexponents : (2 : Int) ^ Format.binary64.exponentBits = 2048 := rfl
  have hbits : Format.binary64.mantissaBits = 53 := rfl
  have hnotLarge : ¬e > 2 ^ Format.binary64.exponentBits := by
    intro hlarge
    have : (2 : ℚ) ^ (1024 : Int) ≤ n * 10 ^ e := by
      calc (2 : ℚ) ^ (1024 : Int) ≤ 2 ^ e := zpow_le_zpow_right₀ one_le_two (by omega)
        _ ≤ 10 ^ e := zpow_le_zpow_left₀ (by omega) (by norm_num) (by norm_num)
        _ ≤ n * 10 ^ e := le_mul_of_one_le_left (by positivity) hone
    exact absurd hhigh this.not_gt
  have hnotSmall : ¬e < -((2 : Int) ^ Format.binary64.exponentBits + n.log2) := by
    intro hsmall
    have : (n : ℚ) * 10 ^ e < 2 ^ (-1075 : Int) := by
      calc (n : ℚ) * 10 ^ e ≤ n * 2 ^ e := by
            refine mul_le_mul_of_nonneg_left ?_ (by positivity)
            obtain ⟨k, rfl⟩ : ∃ k : Nat, e = -k := ⟨e.natAbs, by omega⟩
            rw [zpow_neg, zpow_neg, zpow_natCast, zpow_natCast]
            exact inv_anti₀ (by positivity) (pow_le_pow_left₀ two_pos.le (by norm_num) k)
        _ < 2 ^ (n.log2 + 1) * 2 ^ e := by
            exact mul_lt_mul_of_pos_right hlog (by positivity)
        _ = 2 ^ ((n.log2 + 1 : Nat) + e) := by
            rw [zpow_add₀ two_ne_zero, zpow_natCast]
        _ ≤ 2 ^ (-1075 : Int) := zpow_le_zpow_right₀ one_le_two (by omega)
    exact absurd hlow this.not_ge
  rw [UnpackedFloat.ofScientific, dif_neg hn.ne', if_neg hnotLarge, if_neg hnotSmall]
  by_cases he : 0 ≤ e
  · rw [if_pos he]
    have hpower : ((10 ^ e.toNat : Nat) : ℚ) = 10 ^ e := by
      push_cast
      rw [← zpow_natCast, Int.toNat_of_nonneg he]
    have hshifted : ((n <<< 53 : Nat) * 2 ^ (-53 : Int) : ℚ) = n :=
      (shiftLeft_mul_zpow n 53 0).trans (mul_one _)
    have hvalue : ((n <<< 53 : Nat) * 2 ^ (-53 : Int) *
        ((10 ^ e.toNat : Nat) * 2 ^ (0 : Int)) : ℚ) = n * 10 ^ e := by
      rw [hpower, hshifted, zpow_zero, mul_one]
    have hfull : 2 ^ 52 ≤ n <<< 53 := by
      rw [Nat.shiftLeft_eq]
      omega
    rw [← hvalue] at hv
    exact mul_of_roundsTo hcanonical hm hfull _ hv
  · rw [if_neg he]
    have hpower : ((10 ^ (-e).toNat : Nat) : ℚ) = (10 ^ e)⁻¹ := by
      push_cast
      rw [← zpow_natCast, Int.toNat_of_nonneg (by omega), zpow_neg]
    have hvalue : (n * 2 ^ (0 : Int) / ((10 ^ (-e).toNat : Nat) * 2 ^ (0 : Int)) : ℚ) =
        n * 10 ^ e := by
      rw [hpower, zpow_zero, mul_one, mul_one, div_inv_eq_mul]
    rw [← hvalue] at hv
    exact div_of_roundsTo hcanonical hm hn _ hv

/-- Powers of ten that are doubles are unpacked exactly. -/
theorem unpack_powerOfTen (h : n < Float.exactlyRepresentablePowersOfTen.size) :
    ∃ m e, ∃ hm : 0 < m,
      (Float.exactlyRepresentablePowersOfTen[n]).toModel.unpack = .finite .positive m e hm ∧
        (m * 2 ^ e : ℚ) = 10 ^ n := by
  obtain ⟨m, e, hm, hunpack, -, -, he, -, hvalue⟩ := unpack_powersOfTen h
  refine ⟨m, e, hm, hunpack, ?_⟩
  have hvalue : (m * 2 ^ (e + 52).toNat : ℚ) = 10 ^ n * 2 ^ 52 := by exact_mod_cast hvalue
  rw [← zpow_natCast, Int.toNat_of_nonneg (by omega), zpow_add₀ two_ne_zero, ← mul_assoc] at hvalue
  exact mul_right_cancel₀ (by norm_num) hvalue

/-- Small integers are unpacked exactly. -/
theorem unpack_toFloat (hn : 0 < n) (h : n < 2 ^ 53) :
    ∃ m e, ∃ hm : 0 < m, n.toUInt64.toFloat.toModel.unpack = .finite .positive m e hm ∧
      2 ^ 52 ≤ m ∧ (m * 2 ^ e : ℚ) = n := by
  obtain ⟨m, e, hm, hfinite, hcanonical, hlow, hvalue⟩ := ofNat_eq_finite hn h
  refine ⟨m, e, hm, ?_, hlow, hvalue⟩
  rw [toFloat_eq_packed h, hfinite]
  exact unpack_packed .positive hcanonical hm

/-- The double of digits with an exponent, whether by arithmetic on doubles or without. -/
theorem floatOfScientific_of_roundsTo (hcanonical : Canonical m q) (hm : 0 < m) (hn : 0 < n)
    {negative : Bool} {k : Nat} (hv : RoundsTo m q (n * 10 ^ Number.signed negative k)) :
    Float.ofScientific n negative k = packed (.finite .positive m q hm) := by
  rw [Float.ofScientific]
  by_cases h : n < 2 ^ 53 ∧ k ≤ 22
  · obtain ⟨m₁, e₁, hm₁, hunpack₁, hfull, hvalue₁⟩ := unpack_toFloat hn h.1
    obtain ⟨m₂, e₂, hm₂, hunpack₂, hvalue₂⟩ := unpack_powerOfTen (n := k) (Nat.lt_succ_of_le h.2)
    rw [dif_pos h]
    cases negative with
    | true =>
      have hvalue : (m₁ * 2 ^ e₁ / (m₂ * 2 ^ e₂) : ℚ) = n * 10 ^ (-(k : Int)) := by
        rw [hvalue₁, hvalue₂, zpow_neg, zpow_natCast, div_eq_mul_inv]
      have hdiv := @div_of_roundsTo m q m₁ m₂ e₁ e₂ .positive .positive hcanonical hm hm₁ hm₂
        (hvalue ▸ hv)
      rw [← hunpack₁, ← hunpack₂] at hdiv
      exact congrArg packed hdiv
    | false =>
      have hvalue : (m₁ * 2 ^ e₁ * (m₂ * 2 ^ e₂) : ℚ) = n * 10 ^ (k : Int) := by
        rw [hvalue₁, hvalue₂, zpow_natCast]
      have hmul := @mul_of_roundsTo m q m₁ m₂ e₁ e₂ .positive .positive hcanonical hm hfull hm₂
        (hvalue ▸ hv)
      rw [← hunpack₁, ← hunpack₂] at hmul
      exact congrArg packed hmul
  · rw [dif_neg h]
    have hslow : (if negative then Int.negOfNat k else Int.ofNat k) = Number.signed negative k := by
      rw [Number.signed]
      split
      · exact Int.negOfNat_eq
      · rfl
    show packed (UnpackedFloat.ofScientific Format.binary64 n
      (if negative then Int.negOfNat k else Int.ofNat k)) = _
    rw [hslow, unpackedOfScientific_of_roundsTo hcanonical hm hn hv]

/-- A number with its digits counted. -/
theorem bounds_of_digitCount (hn : 0 < n) :
    (10 : ℚ) ^ ((Number.digitCount n : Int) + e - 1) ≤ n * 10 ^ e ∧
      n * 10 ^ e < (10 : ℚ) ^ ((Number.digitCount n : Int) + e) := by
  have hpos := Number.digitCount_pos n
  have hten : (10 : ℚ) ≠ 0 := by norm_num
  have hlow : (10 ^ (Number.digitCount n - 1) : ℚ) ≤ n := by
    exact_mod_cast Number.pow_digitCount_pred_le hn.ne'
  have hhigh : (n : ℚ) < 10 ^ Number.digitCount n := by exact_mod_cast Number.lt_pow_digitCount n
  constructor
  · have hexponent : (Number.digitCount n : Int) + e - 1 = (Number.digitCount n - 1 : Nat) + e := by
      omega
    rw [hexponent, zpow_add₀ hten, zpow_natCast]
    exact mul_le_mul_of_nonneg_right hlow (by positivity)
  · rw [zpow_add₀ hten, zpow_natCast]
    exact mul_lt_mul_of_pos_right hhigh (by positivity)

theorem two_zpow_le_ten_zpow {i j : Nat} (h : 2 ^ i ≤ 10 ^ j) :
    (2 : ℚ) ^ (i : Int) ≤ 10 ^ (j : Int) := by
  rw [zpow_natCast, zpow_natCast]
  exact_mod_cast h

/-- **Digits with an exponent are read as the double that their value is rounded to.** -/
theorem ofScientific_of_roundsTo (hcanonical : Canonical m q) (hm : 0 < m)
    (hv : RoundsTo m q (n * 10 ^ e)) : ofScientific n e = packed (.finite .positive m q hm) := by
  obtain ⟨hlow, hhigh⟩ := hv.bounds hcanonical hm
  have hn : 0 < n := by
    rcases Nat.eq_zero_or_pos n with rfl | hn
    · rw [Nat.cast_zero, zero_mul] at hlow
      exact absurd hlow (not_le.mpr (by positivity))
    · exact hn
  obtain ⟨hfirst, hlast⟩ := @bounds_of_digitCount n e hn
  have hten : (1 : ℚ) < 10 := by norm_num
  have hlarge : (Number.digitCount n : Int) + e - 1 < 309 := by
    rw [← zpow_lt_zpow_iff_right₀ hten]
    calc (10 : ℚ) ^ ((Number.digitCount n : Int) + e - 1) ≤ n * 10 ^ e := hfirst
      _ < 2 ^ (1024 : Int) := hhigh
      _ ≤ 10 ^ (309 : Int) := two_zpow_le_ten_zpow (by decide +kernel)
  have hsmall : -324 < (Number.digitCount n : Int) + e := by
    rw [← zpow_lt_zpow_iff_right₀ hten]
    calc (10 : ℚ) ^ (-324 : Int) ≤ 2 ^ (-1075 : Int) := by
          rw [zpow_neg, zpow_neg]
          refine inv_anti₀ (by positivity) ?_
          exact two_zpow_le_ten_zpow (by decide +kernel)
      _ ≤ n * 10 ^ e := hlow
      _ < 10 ^ ((Number.digitCount n : Int) + e) := hlast
  rw [ofScientific, if_neg hn.ne']
  dsimp only
  rw [if_neg (by omega), if_neg (by omega)]
  by_cases he : 0 ≤ e
  · rw [if_pos he]
    refine floatOfScientific_of_roundsTo hcanonical hm hn ?_
    rw [Number.signed, if_neg Bool.false_ne_true, Int.toNat_of_nonneg he]
    exact hv
  · rw [if_neg he]
    refine floatOfScientific_of_roundsTo hcanonical hm hn ?_
    rw [Number.signed, if_pos rfl, Int.toNat_of_nonneg (by omega), neg_neg]
    exact hv

end

end Formulary.Double
