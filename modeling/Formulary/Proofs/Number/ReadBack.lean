import Formulary.Proofs.Number.Nearest
import Formulary.Proofs.Syntax.Constants

/-!
# Reading the text of a double

The text of a finite double is read as this double, in every style. The printer looks for digits in
the interval of the numbers that are rounded to the double, on one decimal grid after the other.
The grid of the seventeenth digit is finer than the interval is wide, so that a point is found.
Laid out as a text the digits keep their value, and the reader makes the double of it that the value
is rounded to.

## Main definitions

* `Double.Rounding.pointBelow` — the point of a decimal grid under the value

## Main results

* `Double.Parts.contains_rounding_iff` — the printer searches the interval of the double
* `Double.Parts.nearest?_ne_none` — fine grids have a point in it
* `Double.Parts.roundsTo_shortest` — the shortest digits are rounded to the double
* `Double.read?_render` — texts are read back
-/

namespace Formulary.Double

open Number

/-! ### The interval of a double -/

section

variable {closed : Prop} {low high x c : ℚ}

theorem within_div_iff (hc : 0 < c) :
    Within closed (low / c) (high / c) (x / c) ↔ Within closed low high x := by
  have hle : ∀ {a b : ℚ}, a / c ≤ b / c ↔ a ≤ b := div_le_div_iff_of_pos_right hc
  have hlt : ∀ {a b : ℚ}, a / c < b / c ↔ a < b := div_lt_div_iff_of_pos_right hc
  constructor
  · rintro ⟨hlow, hhigh, hstrict⟩
    exact ⟨hle.mp hlow, hle.mp hhigh, fun hopen => (hstrict hopen).imp hlt.mp hlt.mp⟩
  · rintro ⟨hlow, hhigh, hstrict⟩
    exact ⟨hle.mpr hlow, hle.mpr hhigh, fun hopen => (hstrict hopen).imp hlt.mpr hlt.mpr⟩

end

/-- A power of any exponent as a quotient of natural powers. -/
theorem zpow_mul_pow_toNat_neg {b : ℚ} (hb : b ≠ 0) (k : Int) :
    b ^ k * b ^ (-k).toNat = b ^ k.toNat := by
  rw [← zpow_natCast, ← zpow_natCast, ← zpow_add₀ hb]
  congr 1
  omega

section

variable {a b : Nat} {k : Int}

/-- Comparisons with points of a decimal grid are made on natural numbers. -/
theorem mul_pow_le_mul_pow_iff :
    a * 10 ^ k.toNat ≤ b * 10 ^ (-k).toNat ↔ (a * 10 ^ k : ℚ) ≤ b := by
  have hunit : (0 : ℚ) < 10 ^ (-k).toNat := by positivity
  rw [← Nat.cast_le (α := ℚ)]
  push_cast
  rw [← zpow_mul_pow_toNat_neg (by norm_num) k, ← mul_assoc, mul_le_mul_iff_left₀ hunit]

theorem mul_pow_le_mul_pow_iff' :
    b * 10 ^ (-k).toNat ≤ a * 10 ^ k.toNat ↔ (b : ℚ) ≤ a * 10 ^ k := by
  have hunit : (0 : ℚ) < 10 ^ (-k).toNat := by positivity
  rw [← Nat.cast_le (α := ℚ)]
  push_cast
  rw [← zpow_mul_pow_toNat_neg (by norm_num) k, ← mul_assoc, mul_le_mul_iff_left₀ hunit]

end

/-- The points of a grid in an interval. -/
theorem Rounding.contains_iff {r : Rounding} {n : Nat} {k : Int} : r.contains n k = true ↔
    Within (r.closed = true) r.low r.high ((n * r.den : Nat) * 10 ^ k) := by
  rw [contains, Nat.mul_right_comm]
  split
  · next hclosed =>
    rw [Bool.and_eq_true, decide_eq_true_iff, decide_eq_true_iff, mul_pow_le_mul_pow_iff',
      mul_pow_le_mul_pow_iff]
    exact ⟨fun h => ⟨h.1, h.2, fun hopen => absurd hclosed hopen⟩, fun h => ⟨h.low_le, h.le_high⟩⟩
  · next hopen =>
    rw [Bool.and_eq_true, decide_eq_true_iff, decide_eq_true_iff,
      lt_iff_lt_of_le_iff_le mul_pow_le_mul_pow_iff, lt_iff_lt_of_le_iff_le mul_pow_le_mul_pow_iff']
    exact ⟨fun h => .of_lt h.1 h.2, fun h => h.strict hopen⟩

/-- The interval that the printer searches is that of the numbers that are rounded to the double. -/
theorem Parts.contains_rounding_iff {p : Parts} (hp : 0 < p.significand) {n : Nat} {k : Int} :
    p.rounding.contains n k = true ↔ RoundsTo p.significand p.exponent (n * 10 ^ k) := by
  obtain ⟨negative, m, q⟩ := p
  have hp : 0 < m := hp
  let below := if m = 2 ^ 52 ∧ minExponent < q then 1 else 2
  have hbelow : below ≤ 4 * m := by
    simp only [below]
    split <;> omega
  have hreach : reachBelow m q = (below : Nat) / 4 := by
    simp only [reachBelow, below]
    split <;> norm_num
  have hup : (2 ^ (q - 2).toNat : ℚ) = 2 ^ q / 4 * 2 ^ (2 - q).toNat := by
    rw [← zpow_mul_pow_toNat_neg two_ne_zero, zpow_sub₀ two_ne_zero, neg_sub]
    norm_num
  have hunit : (0 : ℚ) < 2 ^ q * 2 ^ (2 - q).toNat := by positivity
  have hlow : (((4 * m - below) * 2 ^ (q - 2).toNat : Nat) : ℚ) / (2 ^ q * 2 ^ (2 - q).toNat) =
      m - reachBelow m q := by
    rw [div_eq_iff hunit.ne', hreach, Nat.cast_mul, Nat.cast_sub hbelow]
    push_cast
    rw [hup]
    ring
  have hhigh : (((4 * m + 2) * 2 ^ (q - 2).toNat : Nat) : ℚ) / (2 ^ q * 2 ^ (2 - q).toNat) =
      m + 1 / 2 := by
    rw [div_eq_iff hunit.ne']
    push_cast
    rw [hup]
    ring
  have hvalue : ((n * 2 ^ (2 - q).toNat : Nat) * 10 ^ k : ℚ) / (2 ^ q * 2 ^ (2 - q).toNat) =
      n * 10 ^ k / 2 ^ q := by
    push_cast
    rw [mul_right_comm]
    exact mul_div_mul_right _ _ (by positivity)
  have hclosed : (decide (m % 2 = 0) = true) = (m % 2 = 0) := decide_eq_true_eq
  rw [RoundsTo, ← hlow, ← hhigh, ← hvalue, within_div_iff hunit, ← hclosed]
  exact Rounding.contains_iff

/-! ### The search -/

namespace Rounding

variable {ties : Ties} {r : Rounding} {k : Int} {n : Nat}

theorem contains_of_nearest? (h : r.nearest? ties k = some n) : r.contains n k = true := by
  rw [nearest?] at h
  split at h
  · next hbelow habove =>
    split at h
    · exact Option.some.inj h ▸ hbelow
    · exact Option.some.inj h ▸ habove
  · next hbelow _ => exact Option.some.inj h ▸ hbelow
  · next _ habove => exact Option.some.inj h ▸ habove
  · cases h

/-- The point of a grid under the value. -/
def pointBelow (r : Rounding) (k : Int) : Nat :=
  r.value * 10 ^ (-k).toNat / (r.den * 10 ^ k.toNat)

theorem nearest?_ne_none
    (h : r.contains (r.pointBelow k) k = true ∨ r.contains (r.pointBelow k + 1) k = true) :
    r.nearest? ties k ≠ none := by
  intro hnone
  rw [nearest?] at hnone
  split at hnone
  · split at hnone <;> cases hnone
  · cases hnone
  · cases hnone
  · next hbelow habove =>
    rcases h with h | h
    · exact Bool.false_ne_true (hbelow.symm.trans h)
    · exact Bool.false_ne_true (habove.symm.trans h)

/-- The value lies between two points of every grid. -/
theorem pointBelow_spec (hden : 0 < r.den) (k : Int) :
    ((r.pointBelow k * r.den : Nat) * 10 ^ k : ℚ) ≤ r.value ∧
      (r.value : ℚ) < ((r.pointBelow k + 1) * r.den : Nat) * 10 ^ k := by
  have hpos : 0 < r.den * 10 ^ k.toNat := Nat.mul_pos hden (Nat.pow_pos (by decide))
  constructor
  · rw [← mul_pow_le_mul_pow_iff, Nat.mul_assoc]
    exact Nat.div_mul_le_self _ _
  · rw [← lt_iff_lt_of_le_iff_le mul_pow_le_mul_pow_iff, Nat.mul_assoc, Nat.mul_comm (_ + 1)]
    exact Nat.lt_mul_div_succ _ hpos

/-- The search ends on a grid with a point in the interval if there is one in its reach. -/
theorem contains_search {count i : Nat} (hi : i < count) (h : r.nearest? ties (k - i) ≠ none) :
    r.contains (r.search ties count k).1 (r.search ties count k).2 = true := by
  induction count generalizing k i with
  | zero => exact absurd hi (Nat.not_lt_zero i)
  | succ count ih =>
    rw [search]
    split
    · next hn => exact contains_of_nearest? hn
    · next hnone =>
      cases i with
      | zero =>
        rw [Int.natCast_zero, Int.sub_zero] at h
        exact absurd hnone h
      | succ i =>
        have hk : k - (i + 1 : Nat) = k - 1 - i := by omega
        rw [hk] at h
        exact ih (Nat.lt_of_succ_lt_succ hi) h

end Rounding

/-- The first digit of a quotient is no higher than the quotient. -/
theorem leadingExponent_spec {num den : Nat} (hnum : 0 < num) (hden : 0 < den) :
    (den * 10 ^ leadingExponent num den : ℚ) ≤ num := by
  rw [leadingExponent]
  split
  · next h => exact mul_pow_le_mul_pow_iff.mp h
  · have hfirst := (@bounds_of_digitCount num 0 hnum).1
    have hlast := (@bounds_of_digitCount den 0 hden).2
    rw [zpow_zero, mul_one, Int.add_zero] at hfirst hlast
    refine le_trans ?_ hfirst
    calc (den * 10 ^ ((digitCount num : Int) - digitCount den - 1) : ℚ)
        ≤ 10 ^ (digitCount den : Int) * 10 ^ ((digitCount num : Int) - digitCount den - 1) :=
          mul_le_mul_of_nonneg_right hlast.le (by positivity)
      _ = 10 ^ ((digitCount num : Int) - 1) := by
          rw [← zpow_add₀ (by norm_num)]
          congr 1
          omega

/-- The value is that of the double. -/
theorem Parts.value_rounding (p : Parts) : (p.rounding.value : ℚ) =
    p.significand * 2 ^ p.exponent * p.rounding.den := by
  have hup := zpow_mul_pow_toNat_neg (b := 2) two_ne_zero (p.exponent - 2)
  rw [neg_sub, zpow_sub₀ two_ne_zero] at hup
  show ((4 * p.significand * 2 ^ (p.exponent - 2).toNat : Nat) : ℚ) =
    p.significand * 2 ^ p.exponent * (2 ^ (2 - p.exponent).toNat : Nat)
  push_cast
  rw [← hup]
  norm_num
  ring

/-- A grid has a point in the interval if its unit is a small part of the double. -/
theorem Parts.nearest?_ne_none (ties : Ties) {p : Parts}
    (hcanonical : Canonical p.significand p.exponent) (hp : 0 < p.significand) {k : Int}
    (hfine : (10 ^ k * 10 ^ 16 : ℚ) ≤ p.significand * 2 ^ p.exponent) :
    p.rounding.nearest? ties k ≠ none := by
  let b := p.rounding.pointBelow k
  have hq : (0 : ℚ) < 2 ^ p.exponent := by positivity
  have hden : 0 < p.rounding.den := Nat.two_pow_pos _
  have hdenQ : (0 : ℚ) < p.rounding.den := by exact_mod_cast hden
  obtain ⟨hbelow, habove⟩ := Rounding.pointBelow_spec hden k
  rw [p.value_rounding, Nat.cast_mul, mul_right_comm _ (p.rounding.den : ℚ)] at hbelow habove
  -- In units of the last place of the double: the grid, and the points around the value.
  have hunit : (10 ^ k / 2 ^ p.exponent * 10 ^ 16 : ℚ) ≤ p.significand := by
    rw [div_mul_eq_mul_div, div_le_iff₀ hq]
    exact hfine
  have hlow : (b * 10 ^ k / 2 ^ p.exponent : ℚ) ≤ p.significand := by
    rw [div_le_iff₀ hq]
    exact le_of_mul_le_mul_right hbelow hdenQ
  have hhigh : (p.significand : ℚ) < (b + 1 : Nat) * 10 ^ k / 2 ^ p.exponent := by
    rw [lt_div_iff₀ hq]
    exact lt_of_mul_lt_mul_right habove hdenQ.le
  have hnext : ((b + 1 : Nat) * 10 ^ k / 2 ^ p.exponent : ℚ) =
      b * 10 ^ k / 2 ^ p.exponent + 10 ^ k / 2 ^ p.exponent := by
    push_cast
    ring
  have hwidth : (10 ^ k / 2 ^ p.exponent : ℚ) < 1 / 2 + reachBelow p.significand p.exponent := by
    rw [reachBelow]
    split
    · next h =>
      rw [h.1] at hunit
      push_cast at hunit
      linarith
    · have : (p.significand + 1 : ℚ) ≤ 2 ^ 53 := by exact_mod_cast hcanonical.lt
      linarith
  have hreach := reachBelow_pos (m := p.significand) (q := p.exponent)
  apply Rounding.nearest?_ne_none
  rw [Parts.contains_rounding_iff hp, Parts.contains_rounding_iff hp]
  by_cases hnear : (p.significand - reachBelow p.significand p.exponent : ℚ) <
      b * 10 ^ k / 2 ^ p.exponent
  · exact Or.inl (.of_lt hnear (by linarith))
  · exact Or.inr (.of_lt (by linarith) (by linarith))

/-! ### Shortest digits -/

theorem stripZeros_spec (fuel n : Nat) :
    (stripZeros fuel n).1 * 10 ^ (stripZeros fuel n).2 = n := by
  induction fuel generalizing n with
  | zero => exact Nat.mul_one n
  | succ fuel ih =>
    rw [stripZeros]
    split
    · next h =>
      have hdiv := ih (n / 10)
      show (stripZeros fuel (n / 10)).1 * 10 ^ ((stripZeros fuel (n / 10)).2 + 1) = n
      rw [Nat.pow_succ, ← Nat.mul_assoc, hdiv]
      omega
    · exact Nat.mul_one n

/-- **The shortest digits are rounded to the double.** Seventeen of them are always enough, so that
the search ends with a point in the interval. -/
theorem Parts.roundsTo_shortest (ties : Ties) {p : Parts}
    (hcanonical : Canonical p.significand p.exponent) (hp : 0 < p.significand) :
    RoundsTo p.significand p.exponent ((p.shortest ties).1 * 10 ^ (p.shortest ties).2) := by
  let r := p.rounding
  let l := leadingExponent r.value r.den
  have hq : (0 : ℚ) < 2 ^ p.exponent := by positivity
  have hden : 0 < r.den := Nat.two_pow_pos _
  have hdenQ : (0 : ℚ) < r.den := by exact_mod_cast hden
  have hpQ : (0 : ℚ) < p.significand := by exact_mod_cast hp
  have hvaluePos : 0 < r.value := by
    have : (0 : ℚ) < r.value := by
      rw [p.value_rounding]
      positivity
    exact_mod_cast this
  have hlead := leadingExponent_spec hvaluePos hden
  have hfine : (10 ^ (l - (16 : Nat)) * 10 ^ 16 : ℚ) ≤ p.significand * 2 ^ p.exponent := by
    rw [p.value_rounding, mul_comm] at hlead
    rw [← zpow_natCast, ← zpow_add₀ (by norm_num), Int.sub_add_cancel]
    exact le_of_mul_le_mul_right hlead hdenQ
  have hlast : 16 < 17 := by decide
  have hcontains := Rounding.contains_search hlast (p.nearest?_ne_none ties hcanonical hp hfine)
  rw [Parts.contains_rounding_iff hp] at hcontains
  have hshortest : p.shortest ties =
      ((stripZeros (digitCount (r.search ties 17 l).1) (r.search ties 17 l).1).1,
        (r.search ties 17 l).2 +
          (stripZeros (digitCount (r.search ties 17 l).1) (r.search ties 17 l).1).2) := rfl
  generalize r.search ties 17 l = found at hcontains hshortest
  obtain ⟨n, k⟩ := found
  have hstrip : ((stripZeros (digitCount n) n).1 * 10 ^ (stripZeros (digitCount n) n).2 : ℚ) =
      n := by
    exact_mod_cast stripZeros_spec (digitCount n) n
  rw [hshortest, Int.add_comm, zpow_add₀ (by norm_num), zpow_natCast, ← mul_assoc, hstrip]
  exact hcontains

/-! ### Signs -/

open Float.Model Float.Model.UnpackedFloat in
/-- A finite double other than zero is its significand and its exponent with its sign. -/
theorem withSign_packed {x : Float} {p : Parts} (h : parts? x = some p) (hp : 0 < p.significand) :
    withSign p.negative (packed (.finite .positive p.significand p.exponent hp)) = x := by
  have hpacked : parts? (packed (.finite .positive p.significand p.exponent hp)) =
      some ⟨false, p.significand, p.exponent⟩ := by
    rw [parts?_eq, unpack_packed .positive (canonical_of_parts? h) hp]
    rfl
  obtain ⟨negative, m, q⟩ := p
  refine parts?_injective ?_ h
  cases negative with
  | true => exact parts?_neg hpacked
  | false => exact hpacked

/-- There are two zeros. -/
theorem withSign_zero {x : Float} {p : Parts} (h : parts? x = some p) (hp : p.significand = 0) :
    withSign p.negative 0.0 = x := by
  have hcanonical := canonical_of_parts? h
  obtain ⟨negative, m, q⟩ := p
  obtain rfl : m = 0 := hp
  have hfull : ¬2 ^ 52 ≤ 0 := by decide
  obtain rfl : q = minExponent := hcanonical.full.resolve_left hfull
  refine parts?_injective ?_ h
  cases negative <;> decide +kernel

theorem toLower_of_isDigit {c : Char} (h : c.isDigit = true) : c.toLower = c := by
  unfold Char.toLower
  rw [dif_neg]
  rintro ⟨hge, -⟩
  rw [Char.isDigit_iff_toNat] at h
  have : 'A'.toNat ≤ c.toNat := UInt32.le_iff_toNat_le.mp hge
  exact absurd (Nat.le_trans this h.2) (by decide)

/-- A digit or a point does not begin a name, since these begin with letters. -/
theorem read?_of_head {c : Char} (hc : c.isDigit = true ∨ c = '.') (negative : Bool)
    (rest : List Char) : read? (if negative then '-' :: c :: rest else c :: rest) =
      (readMagnitude? (c :: rest)).map (withSign negative) := by
  have hlower : c.toLower = c := by
    rcases hc with hc | rfl
    · exact toLower_of_isDigit hc
    · rfl
  have hne : ∀ mark : Char, mark.isDigit = false → mark ≠ '.' → c ≠ mark := by
    rintro mark hmark hdot rfl
    rcases hc with hc | rfl
    · rw [hmark] at hc
      cases hc
    · exact hdot rfl
  have hname : ∀ (name : String) (mark : Char), name.toList.head? = some mark →
      mark.isDigit = false → mark ≠ '.' →
        String.ofList ((c :: rest).map Char.toLower) ≠ name := by
    rintro _ mark hhead hmark hdot rfl
    rw [String.toList_ofList, List.map_cons, hlower] at hhead
    exact hne mark hmark hdot (Option.some.inj hhead)
  have hsign : splitSign (if negative then '-' :: c :: rest else c :: rest) =
      (negative, c :: rest) := by
    cases negative with
    | true => rfl
    | false => exact splitSign_cons rest (hne '-' rfl (by decide)) (hne '+' rfl (by decide))
  rw [read?, hsign]
  dsimp only
  rw [if_neg (not_or.mpr ⟨hname "inf" 'i' rfl rfl (by decide),
    hname "infinity" 'i' rfl rfl (by decide)⟩), if_neg (hname "nan" 'n' rfl rfl (by decide))]

/-! ### Texts -/

/-- The magnitude of a finite double is written in digits that are read as it. -/
theorem readMagnitude?_layOut (style : Style) {p : Parts}
    (hcanonical : Canonical p.significand p.exponent) (hp : 0 < p.significand) :
    readMagnitude? (style.layOut (p.shortest style.ties).1 (p.shortest style.ties).2) =
      some (packed (.finite .positive p.significand p.exponent hp)) := by
  obtain ⟨-, -, -, -, -, -, zeros, hread⟩ :=
    Literal.layOut_isNumber style (p.shortest style.ties).1 (p.shortest style.ties).2
  have hvalue := p.roundsTo_shortest style.ties hcanonical hp
  generalize p.shortest style.ties = digits at hread hvalue
  obtain ⟨n, k⟩ := digits
  have hsame : ((n * 10 ^ zeros : Nat) * 10 ^ (k - zeros) : ℚ) = n * 10 ^ k := by
    push_cast
    rw [mul_assoc, ← zpow_natCast, ← zpow_add₀ (by norm_num)]
    congr 2
    omega
  rw [hread, ofScientific_of_roundsTo hcanonical hp (hsame ▸ hvalue)]

/-- **The text of a finite double is read as the double, in every style.** -/
theorem read?_render (style : Style) {x : Float} (h : isFinite x = true) :
    read? (render style x).toList = some x := by
  obtain ⟨p, hp⟩ := Option.isSome_iff_exists.mp h
  have hcanonical := canonical_of_parts? hp
  rw [render, hp]
  dsimp only
  rw [String.toList_ofList]
  have hmagnitude : ∀ {c : Char} {rest : List Char} {y : Float}, c.isDigit = true →
      readMagnitude? (c :: rest) = some y → withSign p.negative y = x →
      read? (if p.negative then '-' :: c :: rest else c :: rest) = some x := by
    intro c rest y hc hread hsign
    rw [read?_of_head (.inl hc), hread, Option.map_some, hsign]
  by_cases hzero : p.significand = 0
  · rw [if_pos hzero]
    exact hmagnitude rfl rfl (withSign_zero hp hzero)
  · have hpos := Nat.pos_of_ne_zero hzero
    have hread := readMagnitude?_layOut style hcanonical hpos
    obtain ⟨whole, fraction, exponent, hnumber, htext, -⟩ :=
      Literal.layOut_isNumber style (p.shortest style.ties).1 (p.shortest style.ties).2
    obtain ⟨c, cs, rfl⟩ := List.exists_cons_of_ne_nil hnumber.whole.1
    rw [if_neg hzero, htext]
    rw [htext] at hread
    exact hmagnitude (hnumber.whole.2 c (List.mem_cons_self ..)) hread (withSign_packed hp hpos)

end Formulary.Double
