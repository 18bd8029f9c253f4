import Formulary.Proofs.Number.Packing
import Mathlib.Data.Nat.Log
import Mathlib.Tactic.Ring

/-!
# Signs and magnitudes of doubles

How far arithmetic on doubles can go. An operation is carried out on unpacked numbers, its result
is rounded and packed again, and what is too large becomes an infinity. Here it is followed through
these steps which sign the result has, and a bound of its magnitude by a power of two.

## Scope

The bounds are generous: a product may be one binary place above what its factors allow, since
nothing is said about how rounding goes. They are there to tell that integers of sixty-four bits
are finite as doubles and stay so under division, and that a text without a sign is read as a double
without one.

## Main definitions

* `Double.signOf?` — the sign of what is a number
* `Double.Below` — zero, or a finite number of a given sign below a power of two

## Main results

* `Double.signOf?_packed`, `Double.below_packed` — packing keeps signs and bounds
* `Double.below_mul`, `Double.below_div` — bounds of products and quotients
* `Double.isFinite_ofInt` — integers of sixty-four bits are finite
* `Double.unsigned_of_readMagnitude?` — digits are read as a double without a sign
-/

namespace Formulary.Double

open Float.Model Float.Model.UnpackedFloat

/-! ### Signs and bounds -/

/-- The sign of what is a number. -/
def signOf? : UnpackedFloat → Option Sign
  | .notANumber => none
  | .infinity s | .zero s | .finite s .. => some s

/-- Zero, or a finite number whose magnitude is below `2 ^ k`, of a given sign. -/
inductive Below (s : Sign) (k : Int) : UnpackedFloat → Prop
  | zero : Below s k (.zero s)
  | finite {m : Nat} {e : Int} (hm : 0 < m) (h : totalExponent m e ≤ k) :
    Below s k (.finite s m e hm)

section

variable {s t : Sign} {j k : Int} {u v : UnpackedFloat}

theorem Below.mono (h : Below s j u) (hjk : j ≤ k) : Below s k u := by
  cases h with
  | zero => exact .zero
  | finite hm h => exact .finite hm (h.trans hjk)

theorem Below.signOf? (h : Below s k u) : signOf? u = some s := by
  cases h <;> rfl

theorem Below.partsOf? (h : Below s k u) :
    ∃ p, partsOf? u = some p ∧ p.negative = (s == .negative) := by
  cases h <;> exact ⟨_, rfl, rfl⟩

theorem Below.totalExponent_le {m : Nat} {e : Int} {hm : 0 < m} (h : Below s k (.finite t m e hm)) :
    totalExponent m e ≤ k := by
  cases h with
  | finite _ h => exact h

theorem totalExponent_le {m n : Nat} (hm : 0 < m) (h : m < 2 ^ n) (e : Int) :
    totalExponent m e ≤ n + e := by
  have := (Nat.log2_lt hm.ne').mpr h
  rw [totalExponent]
  omega

/-! ### Packing -/

theorem below_unpack_packComponents (s : Sign) {e : BitVec 11} (he : e.toNat < 2047)
    (m : BitVec 52) :
    Below s ((e.toNat : Int) - 1022)
      (UnpackedFloat.unpack Format.binary64 (packComponents Format.binary64 s e m)) := by
  have hm := m.isLt
  by_cases hzero : e.toNat = 0
  · obtain rfl : e = 0#11 := BitVec.eq_of_toNat_eq hzero
    rcases Nat.eq_zero_or_pos m.toNat with hfraction | hpos
    · obtain rfl : m = 0#52 := BitVec.eq_of_toNat_eq hfraction
      cases s <;> exact .zero
    · rw [unpack_subnormal s hpos]
      refine .finite hpos ((totalExponent_le hpos hm _).trans ?_)
      decide
  · rw [unpack_normal s hzero he]
    refine .finite _ ((totalExponent_le (n := 53) (by omega) (by omega) _).trans ?_)
    omega

/-- The fields that a finite number is packed into. -/
theorem pack_finite (s : Sign) (m : Nat) (e : Int) (hm : 0 < m) :
    UnpackedFloat.pack Format.binary64 (.finite s m e hm) =
      if 2 ^ 11 ≤ (e + 1023 + 52).toNat + 1 then packedInfinity Format.binary64 s
      else if m.log2 + 1 = 53 then
        packComponents Format.binary64 s (BitVec.ofNat 11 (e + 1023 + 52).toNat) (BitVec.ofNat 52 m)
      else packComponents Format.binary64 s 0 (BitVec.ofNat 52 m) := rfl

/-- A number is packed into its fields, or becomes an infinity if it is too large. -/
theorem pack_cases (hs : signOf? u = some s) :
    (∃ (e : BitVec 11) (m : BitVec 52), e.toNat < 2047 ∧
      (∀ k, Below s k u → (e.toNat : Int) ≤ max (k + 1022) 0) ∧
      UnpackedFloat.pack Format.binary64 u = packComponents Format.binary64 s e m) ∨
    (∀ k, Below s k u → 970 < k) ∧
      UnpackedFloat.pack Format.binary64 u = packedInfinity Format.binary64 s := by
  cases u with
  | notANumber => cases hs
  | infinity s' =>
    obtain rfl := Option.some.inj hs
    refine Or.inr ⟨fun k h => ?_, rfl⟩
    cases h
  | zero s' =>
    obtain rfl := Option.some.inj hs
    exact Or.inl ⟨0, 0, by decide, fun _ _ => by simp, rfl⟩
  | finite s' m e hm =>
    obtain rfl := Option.some.inj hs
    rw [pack_finite]
    by_cases hlarge : 2 ^ 11 ≤ (e + 1023 + 52).toNat + 1
    · rw [if_pos hlarge]
      refine Or.inr ⟨fun k h => ?_, rfl⟩
      have htotal := h.totalExponent_le
      rw [totalExponent] at htotal
      omega
    · rw [if_neg hlarge]
      by_cases hbits : m.log2 + 1 = 53
      · rw [if_pos hbits]
        have htoNat : (BitVec.ofNat 11 (e + 1023 + 52).toNat).toNat = (e + 1023 + 52).toNat := by
          rw [BitVec.toNat_ofNat, Nat.mod_eq_of_lt (by omega)]
        refine Or.inl ⟨_, BitVec.ofNat 52 m, by omega, fun k h => ?_, rfl⟩
        have htotal := h.totalExponent_le
        rw [totalExponent] at htotal
        omega
      · rw [if_neg hbits]
        exact Or.inl ⟨0, BitVec.ofNat 52 m, by decide, fun _ _ => by simp, rfl⟩

/-- Packing keeps signs. -/
theorem signOf?_packed (hs : signOf? u = some s) :
    signOf? (packed u).toModel.unpack = some s := by
  show signOf? (UnpackedFloat.unpack Format.binary64 (UnpackedFloat.pack Format.binary64 u)) = _
  rcases pack_cases hs with ⟨e, m, he, -, hpack⟩ | ⟨-, hpack⟩
  · rw [hpack]
    exact (below_unpack_packComponents s he m).signOf?
  · rw [hpack]
    cases s <;> rfl

/-- Packing keeps bounds, of what is not too large. -/
theorem below_packed (h : Below s k u) (hk : k ≤ 970) :
    Below s (max k (-1022)) (packed u).toModel.unpack := by
  show Below s _ (UnpackedFloat.unpack Format.binary64 (UnpackedFloat.pack Format.binary64 u))
  rcases pack_cases h.signOf? with ⟨e, m, he, hbound, hpack⟩ | ⟨hbound, -⟩
  · have := hbound k h
    rw [hpack]
    exact (below_unpack_packComponents s he m).mono (by omega)
  · have := hbound k h
    omega

end

/-! ### Rounding -/

theorem mantissa_shiftRight (em : ExtendedMantissa) (k : Nat) :
    (em >>> k).mantissa = em.mantissa / 2 ^ k := by
  induction k generalizing em with
  | zero => exact (Nat.div_one _).symm
  | succ k ih =>
    show (em >>> k).mantissa / 2 = _
    rw [ih, Nat.div_div_eq_div_mul, Nat.pow_succ]

theorem roundedMantissa_le (em : ExtendedMantissa) : em.roundedMantissa ≤ em.mantissa + 1 := by
  obtain ⟨m, round, sticky⟩ := em
  rw [ExtendedMantissa.roundedMantissa]
  cases round <;> cases sticky <;>
    simp only [ExtendedMantissa.accuracy, Accuracy.roundToNearestEven] <;> omega

theorem mantissa_ofMantissaAndAccuracy (m : Nat) (a : Accuracy) :
    (ExtendedMantissa.ofMantissaAndAccuracy m a).mantissa = m := by
  cases a with
  | exact => rfl
  | inexact o => cases o <;> rfl

/-- How many binary places are dropped. -/
def shiftOf (m : Nat) (e : Int) : Nat := (max (totalExponent m e - 53) (-1074) - e).toNat

/-- The significand with the places dropped, and one added if it is rounded up. -/
def roundedOff (m : Nat) (e : Int) (a : Accuracy) : Nat :=
  (ExtendedMantissa.ofMantissaAndAccuracy m a >>> shiftOf m e).roundedMantissa

theorem roundedOff_le (m : Nat) (e : Int) (a : Accuracy) :
    roundedOff m e a ≤ m / 2 ^ shiftOf m e + 1 := by
  refine (roundedMantissa_le _).trans (Nat.le_of_eq ?_)
  rw [mantissa_shiftRight, mantissa_ofMantissaAndAccuracy]

/-- Rounding drops binary places. What has one place too many after that drops it too. -/
theorem roundWithAccuracy_cases (s : Sign) (m : Nat) (e : Int) (a : Accuracy) {r i : Nat}
    (hr : roundedOff m e a = r) (hi : shiftOf r (e + shiftOf m e) = i) :
    (r / 2 ^ i = 0 ∧ roundWithAccuracy Format.binary64 s m e a = .zero s) ∨
      ∃ h : 0 < r / 2 ^ i, roundWithAccuracy Format.binary64 s m e a =
        .finite s (r / 2 ^ i) (e + shiftOf m e + i) h := by
  subst hr hi
  let r := roundedOff m e a
  let second := shiftToTargetExponent Format.binary64 r (e + shiftOf m e) .exact
  have hsecond : second.1.mantissa = r / 2 ^ shiftOf r (e + shiftOf m e) :=
    mantissa_shiftRight _ _
  by_cases h : second.1.mantissa = 0
  · exact Or.inl ⟨hsecond.symm.trans h, dif_pos h⟩
  · refine Or.inr ⟨Nat.pos_of_ne_zero (hsecond ▸ h), (dif_neg h).trans ?_⟩
    congr 1

theorem log2_div_add_le {m k : Nat} (h : m / 2 ^ k ≠ 0) : (m / 2 ^ k).log2 + k ≤ m.log2 := by
  have hm : m ≠ 0 := by
    rintro rfl
    simp at h
  rw [Nat.le_log2 hm, Nat.pow_add]
  calc 2 ^ (m / 2 ^ k).log2 * 2 ^ k ≤ m / 2 ^ k * 2 ^ k :=
        Nat.mul_le_mul_right _ (Nat.log2_self_le h)
    _ ≤ m := Nat.div_mul_le_self m _

theorem log2_le_of_le_succ {m n : Nat} (hn : n ≠ 0) (hm : m ≤ n + 1) : m.log2 ≤ n.log2 + 1 := by
  by_cases hm0 : m = 0
  · rw [hm0]
    exact Nat.zero_le _
  · have hlt := (Nat.log2_lt hn).mp (Nat.lt_succ_self _)
    refine Nat.le_of_lt_succ ((Nat.log2_lt hm0).mpr ?_)
    rw [Nat.pow_succ]
    omega

/-- Rounding moves a number up by one binary place at most. -/
theorem below_roundWithAccuracy (s : Sign) {m : Nat} {e k : Int} (a : Accuracy)
    (h : totalExponent m e ≤ k) (hk : -1074 ≤ k) :
    Below s (k + 1) (roundWithAccuracy Format.binary64 s m e a) := by
  have hr := roundedOff_le m e a
  generalize hround : roundedOff m e a = r at hr
  rcases roundWithAccuracy_cases s m e a hround rfl with ⟨-, hzero⟩ | ⟨hpos, hfinite⟩
  · rw [hzero]
    exact .zero
  · rw [hfinite]
    refine .finite hpos ?_
    have hdrop := log2_div_add_le hpos.ne'
    have hshift : (shiftOf m e : Int) = max (max (totalExponent m e - 53) (-1074) - e) 0 := by
      rw [shiftOf]
      omega
    rw [totalExponent] at h hshift ⊢
    by_cases hq : m / 2 ^ shiftOf m e = 0
    · -- Nothing is left but the one that was added, in the place that was rounded to.
      have hlog : r.log2 = 0 := by
        obtain rfl | rfl : r = 0 ∨ r = 1 := by omega
        · rfl
        · rfl
      have : shiftOf m e ≠ 0 ∨ m.log2 = 0 := by
        by_contra! hcon
        rw [hcon.1, Nat.pow_zero, Nat.div_one] at hq
        exact hcon.2 (by rw [hq]; rfl)
      omega
    · have := log2_le_of_le_succ hq hr
      have := log2_div_add_le hq
      omega

/-! ### Arithmetic -/

section

variable {s t : Sign} {j k : Int} {x y : Float}

theorem totalExponent_mul_le {m n : Nat} (hm : 0 < m) (hn : 0 < n) (d e : Int) :
    totalExponent (m * n) (d + e) ≤ totalExponent m d + totalExponent n e := by
  have hlt : m * n < 2 ^ (m.log2 + 1 + (n.log2 + 1)) := by
    rw [Nat.pow_add]
    exact Nat.mul_lt_mul'' ((Nat.log2_lt hm.ne').mp (Nat.lt_succ_self _))
      ((Nat.log2_lt hn.ne').mp (Nat.lt_succ_self _))
  refine (totalExponent_le (Nat.mul_pos hm hn) hlt _).trans ?_
  rw [totalExponent, totalExponent]
  push_cast
  omega

/-- A product of numbers below `2 ^ j` and `2 ^ k`. -/
theorem below_mul {u v : UnpackedFloat} (hu : Below s j u) (hv : Below t k v)
    (hjk : -1074 ≤ j + k) : Below (s * t) (j + k + 1) (UnpackedFloat.mul Format.binary64 u v) := by
  cases hu with
  | zero => cases hv <;> exact .zero
  | finite hm hu =>
    cases hv with
    | zero => exact .zero
    | finite hn hv =>
      exact below_roundWithAccuracy _ _
        ((totalExponent_mul_le hm hn _ _).trans (Int.add_le_add hu hv)) hjk

/-- The negated number. -/
theorem below_neg {u : UnpackedFloat} (hu : Below s k u) : Below (-s) k u.neg := by
  cases hu with
  | zero => exact .zero
  | finite hm hu => exact .finite hm hu

/-- What is rounded keeps its sign. -/
theorem signOf?_roundWithAccuracy (s : Sign) (m : Nat) (e : Int) (a : Accuracy) :
    signOf? (roundWithAccuracy Format.binary64 s m e a) = some s := by
  rcases roundWithAccuracy_cases s m e a rfl rfl with ⟨-, hzero⟩ | ⟨_, hfinite⟩
  · rw [hzero]
    rfl
  · rw [hfinite]
    rfl

/-- A quotient by what is not zero has a sign. -/
theorem signOf?_div {u v : UnpackedFloat} (hu : Below s j u) (hv : Below t k v)
    (hne : v ≠ .zero t) : signOf? (UnpackedFloat.div Format.binary64 u v) = some (s / t) := by
  cases hv with
  | zero => exact absurd rfl hne
  | finite hn hv =>
    cases hu with
    | zero => rfl
    | finite hm hu => exact signOf?_roundWithAccuracy _ _ _ _

/-- How large a quotient is before it is rounded. -/
theorem totalExponent_divCore_le {m n : Nat} (hn : 0 < n) (d e : Int) :
    totalExponent (divCore Format.binary64 m d n e).1 (divCore Format.binary64 m d n e).2.1 ≤
      max (totalExponent m d - totalExponent n e + 1) (-1073) := by
  let places := min (d - e)
    (Format.binary64.targetExponent (totalExponent m d - totalExponent n e))
  have hplaces : places ≤ max (totalExponent m d - totalExponent n e - 53) (-1074) :=
    min_le_right _ _
  let i := (d - e - places).toNat
  have hi : (i : Int) = d - e - places := by
    simp only [i, places]
    omega
  show totalExponent (m <<< i / n) places ≤ _
  by_cases hzero : m <<< i / n = 0
  · rw [hzero, totalExponent, Nat.log2_zero]
    omega
  · have hshift : m <<< i < 2 ^ (m.log2 + 1 + i) := by
      rw [Nat.shiftLeft_eq, Nat.pow_add]
      exact Nat.mul_lt_mul_of_pos_right Nat.lt_log2_self (Nat.two_pow_pos i)
    have hquotient : (m <<< i / n).log2 + n.log2 < m.log2 + 1 + i := by
      rw [← Nat.pow_lt_pow_iff_right Nat.one_lt_two, Nat.pow_add]
      calc 2 ^ (m <<< i / n).log2 * 2 ^ n.log2 ≤ m <<< i / n * n :=
            Nat.mul_le_mul (Nat.log2_self_le hzero) (Nat.log2_self_le hn.ne')
        _ ≤ m <<< i := Nat.div_mul_le_self _ _
        _ < 2 ^ (m.log2 + 1 + i) := hshift
    rw [totalExponent, totalExponent, totalExponent]
    omega

/-- A quotient by a number that is at least two. -/
theorem below_div {u : UnpackedFloat} (hu : Below s j u) {n : Nat} {e : Int} (hn : 0 < n)
    (hv : 2 ≤ totalExponent n e) (hj : -1072 ≤ j) :
    Below (s / t) j (UnpackedFloat.div Format.binary64 u (.finite t n e hn)) := by
  cases hu with
  | zero => exact .zero
  | @finite m d hm hu =>
    have hbound := totalExponent_divCore_le (m := m) hn d e
    have hrounded := below_roundWithAccuracy (s / t) (k := j - 1)
      (divCore Format.binary64 m d n e).2.2 (hbound.trans (by omega)) (by omega)
    rw [Int.sub_add_cancel] at hrounded
    exact hrounded

end

/-! ### Integers and decimal texts -/

/-- A natural number is at most rounded up to the next power of two. -/
theorem below_ofNat {n b : Nat} (h : n < 2 ^ b) :
    Below .positive (b + 1) (UnpackedFloat.ofNat Format.binary64 n) := by
  rw [UnpackedFloat.ofNat, UnpackedFloat.ofInt, UnpackedFloat.normalize]
  rcases Nat.eq_zero_or_pos n with rfl | hn
  · exact .zero
  · rw [Int.compare_eq_gt.mpr (by omega)]
    show Below .positive (b + 1) (round Format.binary64 .positive n 0)
    let i := (0 - Format.binary64.targetExponent (totalExponent n 0)).toNat
    have htotal : totalExponent (n <<< i) (0 - i) ≤ b := by
      have hpos : 0 < n <<< i := by
        rw [Nat.shiftLeft_eq]
        exact Nat.mul_pos hn (Nat.two_pow_pos i)
      have hlt : n <<< i < 2 ^ (b + i) := by
        rw [Nat.shiftLeft_eq, Nat.pow_add]
        exact Nat.mul_lt_mul_of_pos_right h (Nat.two_pow_pos i)
      have := totalExponent_le hpos hlt (0 - i)
      omega
    exact below_roundWithAccuracy .positive .exact htotal (by omega)

/-- The powers of ten that are doubles, with significands of fifty-three places. -/
theorem parts?_powersOfTen : ∀ {n : Nat} (h : n < Float.exactlyRepresentablePowersOfTen.size),
    (parts? Float.exactlyRepresentablePowersOfTen[n]).any fun p =>
      !p.negative && (2 ^ 52 ≤ p.significand && p.significand < 2 ^ 53) &&
        (-52 ≤ p.exponent && p.exponent ≤ 21) &&
        p.significand * 2 ^ (p.exponent + 52).toNat == 10 ^ n * 2 ^ 52 := by
  decide +kernel

/-- The powers of ten that are doubles, unpacked. -/
theorem unpack_powersOfTen {n : Nat} (h : n < Float.exactlyRepresentablePowersOfTen.size) :
    ∃ m e, ∃ hm : 0 < m,
      (Float.exactlyRepresentablePowersOfTen[n]).toModel.unpack = .finite .positive m e hm ∧
      2 ^ 52 ≤ m ∧ m < 2 ^ 53 ∧ -52 ≤ e ∧ e ≤ 21 ∧ m * 2 ^ (e + 52).toNat = 10 ^ n * 2 ^ 52 := by
  have hparts := parts?_powersOfTen h
  rw [parts?_eq] at hparts
  cases hp : partsOf? (Float.exactlyRepresentablePowersOfTen[n]).toModel.unpack with
  | none =>
    rw [hp] at hparts
    cases hparts
  | some p =>
    obtain ⟨negative, m, e⟩ := p
    rw [hp] at hparts
    simp only [Option.any_some, Bool.and_eq_true, Bool.not_eq_true', decide_eq_true_eq,
      beq_iff_eq] at hparts
    obtain ⟨⟨⟨rfl, hm⟩, he⟩, hvalue⟩ := hparts
    have hpos : 0 < m := by omega
    exact ⟨m, e, hpos, eq_finite_of_partsOf? hpos hp, hm.1, hm.2, he.1, he.2, hvalue⟩

/-- The powers of ten that are doubles are below `2 ^ 74`. -/
theorem below_powersOfTen {n : Nat} (h : n < Float.exactlyRepresentablePowersOfTen.size) :
    Below .positive 74 (Float.exactlyRepresentablePowersOfTen[n]).toModel.unpack ∧
      (Float.exactlyRepresentablePowersOfTen[n]).toModel.unpack ≠ .zero .positive := by
  obtain ⟨m, e, hm, hunpack, -, hlt, -, he, -⟩ := unpack_powersOfTen h
  have := totalExponent_le hm hlt e
  rw [hunpack]
  refine ⟨.finite hm (by omega), fun hzero => ?_⟩
  cases hzero

theorem signOf?_unpackedOfScientific (m : Nat) (e : Int) :
    signOf? (UnpackedFloat.ofScientific Format.binary64 m e) = some .positive := by
  rw [UnpackedFloat.ofScientific]
  by_cases hzero : m = 0
  · rw [dif_pos hzero]
    rfl
  rw [dif_neg hzero]
  by_cases hlarge : e > 2 ^ Format.binary64.exponentBits
  · rw [if_pos hlarge]
    rfl
  rw [if_neg hlarge]
  by_cases hsmall : e < -(2 ^ Format.binary64.exponentBits + (m.log2 : Int))
  · rw [if_pos hsmall]
    rfl
  rw [if_neg hsmall]
  by_cases hsign : 0 ≤ e
  · rw [if_pos hsign]
    exact signOf?_roundWithAccuracy _ _ _ _
  · rw [if_neg hsign]
    exact signOf?_roundWithAccuracy _ _ _ _

theorem below_unpackedOfScientific_zero {m b : Nat} (hm : m < 2 ^ b) :
    Below .positive (b + 1 + 1) (UnpackedFloat.ofScientific Format.binary64 m 0) := by
  have hbits : Format.binary64.mantissaBits = 53 := rfl
  have hlimit : (2 : Int) ^ Format.binary64.exponentBits = 2048 := rfl
  have hplaces : (-1074 : Int) ≤ b + 1 := by omega
  rw [UnpackedFloat.ofScientific]
  by_cases hzero : m = 0
  · rw [dif_pos hzero]
    exact .zero
  · rw [dif_neg hzero]
    have hpos : 0 < m <<< 53 := by
      rw [Nat.shiftLeft_eq]
      omega
    have hlt : m <<< 53 < 2 ^ (b + 53) := by
      rw [Nat.shiftLeft_eq, Nat.pow_add]
      exact Nat.mul_lt_mul_of_pos_right hm (Nat.two_pow_pos 53)
    have hfirst : Below .positive b (.finite .positive (m <<< 53) (-53) hpos) := by
      have := totalExponent_le hpos hlt (-53)
      exact .finite hpos (by omega)
    have hone : Below .positive 1 (.finite .positive (10 ^ 0) 0 (by decide)) :=
      .finite _ (by decide)
    rw [if_neg (by omega), if_neg (by omega), if_pos (Int.le_refl 0)]
    exact below_mul hfirst hone hplaces

theorem toFloat_eq_packed {m : Nat} (hm : m < 2 ^ 53) :
    m.toUInt64.toFloat = packed (UnpackedFloat.ofNat Format.binary64 m) := by
  have hword : m.toUInt64.toNat = m := Nat.mod_eq_of_lt (by omega)
  show packed (UnpackedFloat.ofNat Format.binary64 m.toUInt64.toNat) = _
  rw [hword]

theorem below_toFloat {m : Nat} (hm : m < 2 ^ 53) :
    Below .positive 54 (m.toUInt64.toFloat).toModel.unpack := by
  rw [toFloat_eq_packed hm]
  exact below_packed (below_ofNat hm) (by decide)

/-- What is written without a sign has none. -/
theorem signOf?_ofScientific (m : Nat) (negative : Bool) (e : Nat) :
    signOf? (Float.ofScientific m negative e).toModel.unpack = some .positive := by
  rw [Float.ofScientific]
  split
  · next h =>
    have hpower := below_powersOfTen (n := e) (Nat.lt_succ_of_le h.2)
    split
    · exact signOf?_packed (signOf?_div (below_toFloat h.1) hpower.1 hpower.2)
    · exact signOf?_packed (below_mul (below_toFloat h.1) hpower.1 (by decide)).signOf?
  · exact signOf?_packed (signOf?_unpackedOfScientific m _)

/-- A natural number of sixty-four bits is far from the largest double. -/
theorem below_floatOfNat {n : Nat} (h : n < 2 ^ 64) :
    Below .positive 129 (Float.ofNat n).toModel.unpack := by
  show Below .positive 129 (Float.ofScientific n false 0).toModel.unpack
  rw [Float.ofScientific]
  split
  · next h =>
    have hpower := (below_powersOfTen (n := 0) (by decide)).1
    exact below_packed (below_mul (below_toFloat h.1) hpower (by decide)) (by decide)
  · exact (below_packed (below_unpackedOfScientific_zero h) (by decide)).mono (by decide)

theorem isFinite_of_below {s : Sign} {k : Int} {x : Float} (h : Below s k x.toModel.unpack) :
    isFinite x = true := by
  obtain ⟨p, hp, -⟩ := h.partsOf?
  rw [isFinite, parts?_eq, hp]
  rfl

/-- **Integers of sixty-four bits are finite doubles.** -/
theorem isFinite_ofInt {n : Int} (h : -2 ^ 64 < n) (h' : n < 2 ^ 64) :
    isFinite (ofInt n) = true := by
  have hfinite : ∃ s, Below s 129 (ofInt n).toModel.unpack := by
    cases n with
    | ofNat n => exact ⟨.positive, below_floatOfNat (by rw [Int.ofNat_eq_natCast] at h'; omega)⟩
    | negSucc n =>
      have hsucc : n.succ < 2 ^ 64 := by
        rw [Int.negSucc_eq] at h
        omega
      refine ⟨.negative, ?_⟩
      exact (below_packed (below_neg (below_floatOfNat hsucc)) (by decide)).mono (by decide)
  obtain ⟨s, hbelow⟩ := hfinite
  exact isFinite_of_below hbelow

/-! ### Doubles without a sign -/

/-- The fields of an infinity: a full exponent, no fraction, and its sign. -/
theorem fields_of_unpack_infinity {b : BitVec 64}
    (h : UnpackedFloat.unpack Format.binary64 b = .infinity s) :
    @unpackExponent Format.binary64 b = -1#11 ∧ @unpackMantissa Format.binary64 b = 0#52 ∧
      Sign.ofBitVec (@unpackSign Format.binary64 b) = s := by
  unfold UnpackedFloat.unpack at h
  by_cases hones : @unpackExponent Format.binary64 b = -1#11
  · rw [if_pos hones] at h
    by_cases hmantissa : @unpackMantissa Format.binary64 b = 0#52
    · rw [if_pos hmantissa] at h
      exact ⟨hones, hmantissa, UnpackedFloat.infinity.inj h⟩
    · rw [if_neg hmantissa] at h
      cases h
  · rw [if_neg hones] at h
    by_cases hzero : @unpackExponent Format.binary64 b = 0#11
    · rw [if_pos hzero] at h
      by_cases hmantissa : @unpackMantissa Format.binary64 b = 0#52
      · rw [dif_pos hmantissa] at h
        cases h
      · rw [dif_neg hmantissa] at h
        cases h
    · rw [if_neg hzero] at h
      cases h

/-- There is one double for the positive infinity. -/
theorem eq_infinity {x : Float} (h : x.toModel.unpack = .infinity .positive) : x = infinity := by
  let b : BitVec 64 := x.toModel.toBits.toBitVec
  obtain ⟨hexponent, hmantissa, hpositive⟩ := fields_of_unpack_infinity (b := b) h
  have hsign : @unpackSign Format.binary64 b = 0#1 := by
    by_contra hne
    rw [Sign.ofBitVec, if_neg hne] at hpositive
    cases hpositive
  obtain ⟨hs, he, hm⟩ := toNat_unpack_fields b
  rw [hsign] at hs
  rw [hexponent] at he
  rw [hmantissa] at hm
  have hs : b.toNat / 2 ^ 63 = 0 := hs.symm
  have he : b.toNat / 2 ^ 52 % 2 ^ 11 = 2047 := he.symm
  have hm : b.toNat % 2 ^ 52 = 0 := hm.symm
  have hbits : x.toBits.toNat = 2047 * 2 ^ 52 := by
    show b.toNat = _
    omega
  have hinfinity : infinity.toBits.toNat = 2047 * 2 ^ 52 := by decide +kernel
  exact eq_of_toNat_toBits (hbits.trans hinfinity.symm)

theorem isFinite_infinity : isFinite infinity = false := by decide +kernel

/-- A double without a sign is the positive infinity or finite. -/
theorem unsigned_cases {x : Float} (h : signOf? x.toModel.unpack = some .positive) :
    x = infinity ∨ ∃ p, parts? x = some p ∧ p.negative = false := by
  rw [parts?_eq]
  cases hx : x.toModel.unpack with
  | notANumber =>
    rw [hx] at h
    cases h
  | infinity s =>
    rw [hx] at h
    obtain rfl := Option.some.inj h
    exact Or.inl (eq_infinity hx)
  | zero s =>
    rw [hx] at h
    obtain rfl := Option.some.inj h
    exact Or.inr ⟨_, rfl, rfl⟩
  | finite s =>
    rw [hx] at h
    obtain rfl := Option.some.inj h
    exact Or.inr ⟨_, rfl, rfl⟩

/-- Digits and an exponent make a double without a sign. -/
theorem signOf?_ofDigits (digits : Nat) (exponent : Int) :
    signOf? (ofScientific digits exponent).toModel.unpack = some .positive := by
  have hzero : signOf? (0.0 : Float).toModel.unpack = some .positive := rfl
  have hinfinity : signOf? infinity.toModel.unpack = some .positive := rfl
  rw [ofScientific]
  dsimp only
  split
  · exact hzero
  · split
    · exact hinfinity
    · split
      · exact hzero
      · split
        · exact signOf?_ofScientific _ _ _
        · exact signOf?_ofScientific _ _ _

/-- **Digits are read as a double without a sign.** -/
theorem unsigned_of_readMagnitude? {cs : List Char} {x : Float} (h : readMagnitude? cs = some x) :
    x = infinity ∨ ∃ p, parts? x = some p ∧ p.negative = false := by
  obtain ⟨exponent, -, h⟩ := Option.bind_eq_some_iff.mp h
  split at h <;>
  · simp only [Option.ite_none_left_eq_some, Option.some.injEq] at h
    rw [← h.2]
    exact unsigned_cases (signOf?_ofDigits _ _)

end Formulary.Double
