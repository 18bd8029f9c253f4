import Formulary.Number.Double
import Mathlib.Data.Nat.Log

/-!
# The fields of a double

A double is a sign bit, an exponent field and a fraction field. It is unpacked into its sign, its
significand and its exponent, and these are packed again. Its parts, which the library computes on,
are the same numbers.

## Main definitions

* `Double.partsOf?` — the parts of an unpacked number
* `Double.packed` — the double of a number
* `Double.Canonical` — the significands and exponents that doubles have

## Main results

* `Double.partsOf?_unpack` — the parts of an unpacked number, by its fields
* `Double.parts?_eq` — the parts of a double are those of the unpacked number
* `Double.canonical_of_parts?`, `Double.parts?_injective` — the parts are canonical, and make the
  double
* `Double.unpack_packed` — what is canonical is unpacked as it was packed
* `Double.parts?_neg` — negation changes the sign, and nothing else
-/

namespace Formulary.Double

open Float.Model Float.Model.UnpackedFloat

/-! ### Unpacking -/

/-- The parts of a finite number. -/
def partsOf? : UnpackedFloat → Option Parts
  | .notANumber | .infinity _ => none
  | .zero s => some ⟨s == .negative, 0, minExponent⟩
  | .finite s m e _ => some ⟨s == .negative, m, e⟩

/-- The fields of a double, from the highest bit. -/
theorem toNat_unpack_fields (b : BitVec 64) :
    (@unpackSign Format.binary64 b).toNat = b.toNat / 2 ^ 63 ∧
      (@unpackExponent Format.binary64 b).toNat = b.toNat / 2 ^ 52 % 2 ^ 11 ∧
      (@unpackMantissa Format.binary64 b).toNat = b.toNat % 2 ^ 52 := by
  have hb := b.isLt
  refine ⟨?_, ?_, ?_⟩
  · unfold unpackSign
    rw [BitVec.toNat_cast, BitVec.extractLsb_toNat, Nat.shiftRight_eq_div_pow]
    show b.toNat / 2 ^ 63 % 2 ^ 1 = _
    omega
  · rw [unpackExponent, BitVec.toNat_cast, BitVec.extractLsb_toNat, Nat.shiftRight_eq_div_pow]
    rfl
  · rw [unpackMantissa, BitVec.toNat_cast, BitVec.extractLsb_toNat, Nat.shiftRight_zero]
    rfl

theorem toNat_implicit_append (m : BitVec 52) : (1#1 ++ m).toNat = 2 ^ 52 + m.toNat := by
  rw [BitVec.toNat_append, ← Nat.shiftLeft_add_eq_or_of_lt m.isLt]
  rfl

/-- The parts of an unpacked number, by its fields. -/
theorem partsOf?_unpack (b : BitVec 64) :
    partsOf? (UnpackedFloat.unpack Format.binary64 b) =
      if @unpackExponent Format.binary64 b = -1#11 then none
      else if @unpackExponent Format.binary64 b = 0#11 then
        some ⟨Sign.ofBitVec (@unpackSign Format.binary64 b) == .negative,
          (@unpackMantissa Format.binary64 b).toNat, minExponent⟩
      else
        some ⟨Sign.ofBitVec (@unpackSign Format.binary64 b) == .negative,
          2 ^ 52 + (@unpackMantissa Format.binary64 b).toNat,
          (@unpackExponent Format.binary64 b).toNat - 1075⟩ := by
  unfold UnpackedFloat.unpack
  by_cases hones : @unpackExponent Format.binary64 b = -1#11
  · rw [if_pos hones, if_pos hones]
    by_cases hmantissa : @unpackMantissa Format.binary64 b = 0#52
    · rw [if_pos hmantissa]
      rfl
    · rw [if_neg hmantissa]
      rfl
  · rw [if_neg hones, if_neg hones]
    by_cases hzero : @unpackExponent Format.binary64 b = 0#11
    · rw [if_pos hzero, if_pos hzero]
      by_cases hmantissa : @unpackMantissa Format.binary64 b = 0#52
      · rw [dif_pos hmantissa, hmantissa]
        rfl
      · rw [dif_neg hmantissa, hzero]
        rfl
    · rw [if_neg hzero, if_neg hzero, ← toNat_implicit_append]
      rfl

/-- The parts of a double are those of the unpacked number. -/
theorem parts?_eq (x : Float) : parts? x = partsOf? x.toModel.unpack := by
  let b : BitVec 64 := x.toModel.toBits.toBitVec
  have hbits : x.toBits.toNat = b.toNat := rfl
  obtain ⟨hs, he, hm⟩ := toNat_unpack_fields b
  have hsign : (b.toNat / 2 ^ 63 == 1) =
      (Sign.ofBitVec (@unpackSign Format.binary64 b) == .negative) := by
    rw [← hs]
    generalize @unpackSign Format.binary64 b = s
    revert s
    decide
  have hones : b.toNat / 2 ^ 52 % 2 ^ 11 = 2047 ↔
      @unpackExponent Format.binary64 b = -1#11 := by
    rw [← he, ← BitVec.toNat_inj]
    rfl
  have hzero : b.toNat / 2 ^ 52 % 2 ^ 11 = 0 ↔
      @unpackExponent Format.binary64 b = 0#11 := by
    rw [← he, ← BitVec.toNat_inj]
    rfl
  show parts? x = partsOf? (UnpackedFloat.unpack Format.binary64 b)
  rw [partsOf?_unpack, parts?]
  simp only [hbits, hsign, hones, hzero, hm, he]

/-- A number other than zero is known by its parts. -/
theorem eq_finite_of_partsOf? {u : UnpackedFloat} {s : Sign} {m : Nat} {e : Int} (hm : 0 < m)
    (h : Double.partsOf? u = some ⟨s == .negative, m, e⟩) : u = .finite s m e hm := by
  cases u with
  | notANumber | infinity => cases h
  | zero s' =>
    obtain rfl : 0 = m := congrArg Parts.significand (Option.some.inj h)
    exact absurd hm (Nat.lt_irrefl 0)
  | finite s' m' e' hm' =>
    obtain ⟨hs, rfl, rfl⟩ := Parts.mk.inj (Option.some.inj h)
    cases s <;> cases s' <;> first | rfl | cases hs

/-! ### Packing -/

/-- The double of a number. -/
def packed (u : UnpackedFloat) : Float := .ofModel (.pack u)

theorem ofBitVec_unpackSign_packComponents (s : Sign) (e : BitVec 11) (m : BitVec 52) :
    Sign.ofBitVec (unpackSign (packComponents Format.binary64 s e m)) = s := by
  unfold unpackSign
  simp only [packComponents, BitVec.extractLsb]
  rw [BitVec.extractLsb'_append_eq_of_le (by omega),
    BitVec.extractLsb'_append_eq_of_le (by omega)]
  cases s <;> rfl

theorem unpack_normal (s : Sign) {e : BitVec 11} (he : e.toNat ≠ 0) (he' : e.toNat < 2047)
    (m : BitVec 52) :
    UnpackedFloat.unpack Format.binary64 (packComponents Format.binary64 s e m) =
      .finite s (2 ^ 52 + m.toNat) (e.toNat - 1075) (by omega) := by
  have hones : e ≠ -1#11 := by
    rintro rfl
    exact absurd he' (by decide)
  have hzero : e ≠ 0#11 := by
    rintro rfl
    exact he rfl
  refine eq_finite_of_partsOf? (by omega) ?_
  rw [partsOf?_unpack, unpackExponent_packComponents, unpackMantissa_packComponents,
    ofBitVec_unpackSign_packComponents, if_neg hones, if_neg hzero]

theorem unpack_subnormal (s : Sign) {m : BitVec 52} (hm : 0 < m.toNat) :
    UnpackedFloat.unpack Format.binary64 (packComponents Format.binary64 s 0#11 m) =
      .finite s m.toNat minExponent hm := by
  have hones : (0#11 : BitVec 11) ≠ -1#11 := by decide
  refine eq_finite_of_partsOf? hm ?_
  rw [partsOf?_unpack, unpackExponent_packComponents, unpackMantissa_packComponents,
    ofBitVec_unpackSign_packComponents, if_neg hones, if_pos rfl]

/-! ### Canonical numbers -/

/-- The significand and the exponent of a finite double: the significand has fifty-three places,
unless the exponent is the least there is. -/
structure Canonical (m : Nat) (q : Int) : Prop where
  /-- The significand fits. -/
  lt : m < 2 ^ 53
  /-- Its exponent is not too small. -/
  le_exponent : minExponent ≤ q
  /-- Its exponent is not too large. -/
  exponent_le : q ≤ 971
  /-- No place is wasted. -/
  full : 2 ^ 52 ≤ m ∨ q = minExponent

theorem eq_of_toNat_toBits {x y : Float} (h : x.toBits.toNat = y.toBits.toNat) : x = y := by
  obtain ⟨⟨bits, _⟩⟩ := x
  obtain ⟨⟨bits', _⟩⟩ := y
  obtain rfl : bits = bits' := UInt64.toNat_inj.mp h
  rfl

/-- A double is finite unless its exponent field is full. Its parts are read off its fields, which
are found in them again. -/
theorem parts?_eq_some {x : Float} {p : Parts} (h : parts? x = some p) :
    x.toBits.toNat / 2 ^ 63 = (if p.negative then 1 else 0) ∧
      (x.toBits.toNat / 2 ^ 52 % 2 ^ 11 = 0 ∧ p.significand = x.toBits.toNat % 2 ^ 52 ∧
          p.exponent = minExponent ∨
        0 < x.toBits.toNat / 2 ^ 52 % 2 ^ 11 ∧ x.toBits.toNat / 2 ^ 52 % 2 ^ 11 < 2047 ∧
          p.significand = 2 ^ 52 + x.toBits.toNat % 2 ^ 52 ∧
          p.exponent = (x.toBits.toNat / 2 ^ 52 % 2 ^ 11 : Nat) - 1075) := by
  have hbits : x.toBits.toNat < 2 ^ 64 := x.toBits.toBitVec.isLt
  have hsign : x.toBits.toNat / 2 ^ 63 = if x.toBits.toNat / 2 ^ 63 == 1 then 1 else 0 := by
    simp only [beq_iff_eq]
    split <;> omega
  rw [parts?] at h
  split at h
  · cases h
  · split at h
    · obtain rfl := Option.some.inj h
      exact ⟨hsign, Or.inl ⟨‹_›, rfl, rfl⟩⟩
    · obtain rfl := Option.some.inj h
      exact ⟨hsign, Or.inr ⟨by omega, by omega, rfl, rfl⟩⟩

/-- The parts of a double are canonical. -/
theorem canonical_of_parts? {x : Float} {p : Parts} (h : parts? x = some p) :
    Canonical p.significand p.exponent := by
  obtain ⟨-, ⟨-, hm, hq⟩ | ⟨hlow, hhigh, hm, hq⟩⟩ := parts?_eq_some h
  · exact ⟨by omega, hq.ge, by rw [hq]; decide, Or.inr hq⟩
  · exact ⟨by omega, by rw [minExponent]; omega, by omega, Or.inl (by omega)⟩

/-- Doubles with the same parts are the same. -/
theorem parts?_injective {x y : Float} {p : Parts} (hx : parts? x = some p)
    (hy : parts? y = some p) : x = y := by
  obtain ⟨hxsign, hx⟩ := parts?_eq_some hx
  obtain ⟨hysign, hy⟩ := parts?_eq_some hy
  refine eq_of_toNat_toBits ?_
  rw [minExponent] at hx hy
  omega

theorem log2_eq_of_mem {m n : Nat} (h : 2 ^ n ≤ m) (h' : m < 2 ^ (n + 1)) : m.log2 = n :=
  (Nat.log2_eq_iff (Nat.ne_of_gt ((Nat.two_pow_pos n).trans_le h))).mpr ⟨h, h'⟩

/-- What is canonical is packed and unpacked again. -/
theorem unpack_packed {m : Nat} {q : Int} (s : Sign) (h : Canonical m q) (hm : 0 < m) :
    (packed (.finite s m q hm)).toModel.unpack = .finite s m q hm := by
  have hlt := h.lt
  have hlow : -1074 ≤ q := h.le_exponent
  have hhigh := h.exponent_le
  let biased := (q + Format.binary64.exponentBias + (52 : Nat)).toNat
  have hbiased : (biased : Int) = q + 1075 := by
    have hbias : Format.binary64.exponentBias = 1023 := rfl
    omega
  have hfits : ¬2 ^ Format.binary64.exponentBits ≤ biased + 1 := by
    show ¬2 ^ 11 ≤ biased + 1
    omega
  show UnpackedFloat.unpack Format.binary64
    (if 2 ^ Format.binary64.exponentBits ≤ biased + 1 then packedInfinity Format.binary64 s
      else if m.log2 + 1 = Format.binary64.mantissaBits then
        packComponents Format.binary64 s (BitVec.ofNat 11 biased) (BitVec.ofNat 52 m)
      else packComponents Format.binary64 s 0#11 (BitVec.ofNat 52 m)) = _
  rw [if_neg hfits]
  by_cases hfull : 2 ^ 52 ≤ m
  · have hlog : m.log2 + 1 = Format.binary64.mantissaBits := by rw [log2_eq_of_mem hfull hlt]; rfl
    have he : (BitVec.ofNat 11 biased).toNat = biased := by
      rw [BitVec.toNat_ofNat, Nat.mod_eq_of_lt (by omega)]
    have hfraction : (BitVec.ofNat 52 m).toNat = m - 2 ^ 52 := by
      rw [BitVec.toNat_ofNat]
      omega
    rw [if_pos hlog]
    refine (unpack_normal s (e := BitVec.ofNat 11 biased) (by omega) (by omega) _).trans ?_
    have hwhole : 2 ^ 52 + (BitVec.ofNat 52 m).toNat = m := by omega
    have hq : ((BitVec.ofNat 11 biased).toNat : Int) - 1075 = q := by omega
    refine eq_finite_of_partsOf? hm ?_
    show some (Parts.mk _ (2 ^ 52 + (BitVec.ofNat 52 m).toNat) _) = _
    rw [hwhole, hq]
  · have hlog : m.log2 + 1 ≠ Format.binary64.mantissaBits := by
      have := (Nat.log2_lt hm.ne').mpr (not_le.mp hfull)
      show m.log2 + 1 ≠ 53
      omega
    have hfraction : (BitVec.ofNat 52 m).toNat = m := by
      rw [BitVec.toNat_ofNat, Nat.mod_eq_of_lt (by omega)]
    rw [if_neg hlog]
    refine (unpack_subnormal s (m := BitVec.ofNat 52 m) (by omega)).trans ?_
    have hq : q = minExponent := h.full.resolve_left hfull
    refine eq_finite_of_partsOf? hm ?_
    show some (Parts.mk _ (BitVec.ofNat 52 m).toNat _) = _
    rw [hfraction, hq]

/-- The negated double has the other sign. -/
theorem parts?_neg {x : Float} {p : Parts} (h : parts? x = some p) :
    parts? (-x) = some { p with negative := !p.negative } := by
  have hcanonical := canonical_of_parts? h
  have hneg : -x = packed x.toModel.unpack.neg := rfl
  rw [parts?_eq] at h
  rw [hneg]
  cases hx : x.toModel.unpack with
  | notANumber | infinity =>
    rw [hx] at h
    exact nomatch h
  | zero s =>
    rw [hx] at h
    obtain rfl := Option.some.inj h
    cases s <;> decide +kernel
  | finite s m q hm =>
    rw [hx] at h
    obtain rfl := Option.some.inj h
    rw [parts?_eq]
    show partsOf? (packed (.finite (-s) m q hm)).toModel.unpack = _
    rw [unpack_packed (-s) hcanonical hm]
    cases s <;> rfl

end Formulary.Double
