import Formulary.Proofs.Plan.Conversions
import Formulary.Proofs.Plan.Relations

/-!
# Numbers of one kind as numbers of another

Integers of both widths and decimals are converted into each other, where an overload asks for
another kind and by the functions `int`, `long` and `decimal`. This file says which number comes
out. Widening keeps the number. Narrowing a decimal drops its fraction, stops at the bounds of
sixty-four bits, and keeps the low half of the bits where thirty-two are asked for. The functions do
just what the conversion of arguments does.

## Scope

Doubles are left out. Scales are any integers, and so the powers of ten that digits are cut off or
filled up by are of any size.

## Implementation notes

A long is stopped at its bounds and an integer is not: it has the low bits of the long. So the order
of the decimals is kept by the one and not by the other.

## Main definitions

* `Exact.saturated` — the integer part, stopped at the bounds of sixty-four bits
* `Decimal.Narrows` — what a decimal is as a long and as an integer
* `Value.through` — a value converted to one kind after the other
* `Registry.Coincides` — a function does what the conversion does

## Main results

* `Decimal.truncate_eq_truncated` — the integer part by its digits is that of the number
* `Decimal.narrows` — every decimal is narrowed
* `Library.numbers_convert` — conversion among the three kinds
-/

namespace Formulary

open Calendar Library Overload Carrier
open Exact (truncated truncated_div)

/-! ### Integer parts -/

namespace Exact

theorem truncated_intCast (n : ℤ) : truncated n = n := by
  rw [truncated, Int.floor_intCast, Int.ceil_intCast, ite_self]

/-- Of two numbers the smaller one has the smaller integer part. -/
theorem truncated_mono {x y : ℚ} (h : x ≤ y) : truncated x ≤ truncated y := by
  rw [truncated, truncated]
  split
  · next hx =>
    rw [if_pos (hx.trans h)]
    exact Int.floor_le_floor h
  · next hx =>
    split
    · next hy => exact (Int.ceil_nonpos.mpr (not_le.mp hx).le).trans (Int.floor_nonneg.mpr hy)
    · exact Int.ceil_le_ceil h

/-- The integer part, stopped at the bounds of sixty-four bits. -/
def saturated (x : ℚ) : ℤ := max (-2 ^ 63) (min (2 ^ 63 - 1) (truncated x))

theorem saturated_mono {x y : ℚ} (h : x ≤ y) : saturated x ≤ saturated y :=
  max_le_max_left _ (min_le_min_left _ (truncated_mono h))

/-- A number that sixty-four bits hold is not stopped. -/
theorem saturated_toInt (n : Int64) : saturated n.toInt = n.toInt := by
  have hlow := n.le_toInt
  have hhigh := n.toInt_lt
  rw [saturated, truncated_intCast]
  omega

end Exact

open Exact (saturated saturated_mono saturated_toInt truncated_intCast)

namespace Decimal

/-- **Integer parts.** Filling up zeros or cutting off digits gives the integer part of the number,
whatever the sign and the scale are. -/
theorem truncate_eq_truncated (d : Decimal) : d.truncate = truncated d.toRat := by
  rw [truncate_eq]
  split
  · next hscale =>
    have hwhole : ((d.unscaled * tenPow (-d.scale) : ℤ) : ℚ) = d.toRat := by
      rw [Int.cast_mul, tenPow_eq_zpow (by omega), toRat]
    rw [← hwhole, truncated_intCast]
  · next hscale =>
    have hquotient : (d.unscaled : ℚ) / tenPow d.scale = d.toRat := by
      rw [tenPow_eq_zpow (by omega), div_eq_mul_inv, ← zpow_neg, toRat]
    rw [← hquotient, truncated_div]

theorem toInt_toInt64 (d : Decimal) : d.toInt64.toInt = saturated d.toRat := by
  have hclamp : Double.clamp (-2 ^ 63) (2 ^ 63 - 1) d.truncate = saturated d.toRat := by
    rw [Double.clamp, truncate_eq_truncated, saturated]
  have hlow : -2 ^ 63 ≤ saturated d.toRat := le_max_left ..
  have hhigh : saturated d.toRat < 2 ^ 63 := by
    rw [saturated]
    omega
  rw [toInt64, hclamp, Int64.toInt_ofInt_of_le hlow hhigh]

/-- A long is its own integer part. -/
theorem toInt64_ofInt (n : Int64) : (ofInt n.toInt).toInt64 = n := by
  rw [← Int64.toInt_inj, toInt_toInt64, toRat_ofInt, saturated_toInt]

/-- What a decimal is as a long and as an integer: its integer part, stopped at the bounds of
sixty-four bits, and the low half of that. -/
structure Narrows (d : Decimal) (n : Int64) (m : Int32) : Prop where
  /-- The long that the decimal is converted to. -/
  long : (Value.decimal d).convert .long = .ok (.long n)
  /-- The integer that the decimal is converted to. -/
  integer : (Value.decimal d).convert .integer = .ok (.integer m)
  /-- The long is the integer part, as far as the bounds admit it. -/
  toInt_eq : n.toInt = saturated d.toRat
  /-- The integer has the low bits of the long. -/
  toBitVec_eq : m.toBitVec = n.toBitVec.setWidth 32

/-- **Every decimal is narrowed.** -/
theorem narrows (d : Decimal) : d.Narrows d.toInt64 d.toInt64.toInt32 where
  long := rfl
  integer := rfl
  toInt_eq := d.toInt_toInt64
  toBitVec_eq := by
    rw [Int64.toBitVec_toInt32]
    exact BitVec.signExtend_eq_setWidth_of_le _ (by decide)

/-- Longs come in the order of the decimals. -/
theorem toInt64_mono {d e : Decimal} (h : d.compare e ≠ .gt) : d.toInt64 ≤ e.toInt64 := by
  rw [compare_eq_cmp, Ne, cmp_eq_gt_iff, not_lt] at h
  rw [Int64.le_iff_toInt_le, toInt_toInt64, toInt_toInt64]
  exact saturated_mono h

end Decimal

/-- A value converted to one kind after the other. -/
def Value.through (v : Value) (tags : List Tag) : Except Fault Value :=
  tags.foldlM (fun w t => w.convert t) v

/-! ### The functions -/

/-- A function does what the conversion to a kind does: both come to one number, of that kind. -/
def Registry.Coincides (r : Registry) (name : String) (t : Tag) (a : Exact) : Prop :=
  ∃ b : Exact, a.value.convert t = .ok b.value ∧ b.tag = t ∧ r.Gives name [a.value] (.ok b.value)

namespace Library

/-- An overload of a conversion that declares the kind of a number is applied to it. -/
theorem coincides_of_mem (now : DateTime) {name : String} {os : List Overload} {t : Tag}
    {a : Exact} (hname : name ∈ conversionNames)
    (hos : ((conversions .empty).tableOrNew name).overloads = os)
    (hnodup : (os.map Overload.params).Nodup) (o : Overload) (b : Exact) (hmem : o ∈ os)
    (hparams : o.params = [a.tag]) (hbody : o.body [a.value] = .ok b.value) (htag : b.tag = t)
    (hconvert : a.value.convert t = .ok b.value) :
    (Registry.standard now).Coincides name t a := by
  have hlive := (converts_of_mem hname hos hnodup hmem).live
  have hsignature : o.params = signatureOf [a.value] := by
    rw [hparams, ← a.tag_value]
    rfl
  have hgives := gives_declared (find?_conversions now hname) hlive hsignature
    fun hnull => a.value_ne_null (List.mem_singleton.mp hnull).symm
  exact ⟨b, hconvert, htag, hbody ▸ hgives⟩

/-- **The functions convert as arguments are converted.** -/
theorem coincides (now : DateTime) (a : Exact) :
    (Registry.standard now).Coincides "int" .integer a ∧
    (Registry.standard now).Coincides "long" .long a ∧
    (Registry.standard now).Coincides "decimal" .decimal a := by
  obtain ⟨hint, hlong, hdecimal, -⟩ := overloads_conversions
  have toInteger := coincides_of_mem now (t := .integer) (a := a) (by decide) hint (by decide)
  have toLong := coincides_of_mem now (t := .long) (a := a) (by decide) hlong (by decide)
  have toDecimal := coincides_of_mem now (t := .decimal) (a := a) (by decide) hdecimal (by decide)
  cases a with
  | integer n =>
    refine ⟨?_, ?_, ?_⟩
    · exact toInteger (unary integer integer id) (.integer n) (by simp) rfl rfl rfl rfl
    · exact toLong (unary integer long Int32.toInt64) (.long n.toInt64) (by simp) rfl rfl rfl rfl
    · exact toDecimal (unary integer decimal fun n => .ofInt n.toInt) (.decimal (.ofInt n.toInt))
        (by simp) rfl rfl rfl rfl
  | long n =>
    refine ⟨?_, ?_, ?_⟩
    · exact toInteger (unary long integer Int64.toInt32) (.integer n.toInt32) (by simp) rfl rfl rfl
        rfl
    · exact toLong (unary long long id) (.long n) (by simp) rfl rfl rfl rfl
    · exact toDecimal (unary long decimal fun n => .ofInt n.toInt) (.decimal (.ofInt n.toInt))
        (by simp) rfl rfl rfl rfl
  | decimal d =>
    refine ⟨?_, ?_, ?_⟩
    · exact toInteger (unary decimal integer fun d => d.toInt64.toInt32)
        (.integer d.toInt64.toInt32) (by simp) rfl rfl rfl rfl
    · exact toLong (unary decimal long Decimal.toInt64) (.long d.toInt64) (by simp) rfl rfl rfl rfl
    · exact toDecimal (unary decimal decimal id) (.decimal d) (by simp) rfl rfl rfl rfl

/-- **Conversion among the three kinds.** A decimal becomes the long that is its integer part, taken
toward zero and stopped at the bounds, and the integer that has the low half of the bits of that; of
two decimals the smaller one becomes the smaller long. An integer of either width becomes a decimal
that is the same number. So the ways there and back lead to the same integer, and from an integer to
a decimal it makes no difference to go by way of a long. The functions `int`, `long` and `decimal`
come to what the conversion comes to. -/
theorem numbers_convert (now : DateTime) (a : Exact) (d e : Decimal) (m : Int32) (n : Int64) :
    (∃ k j k' j', d.Narrows k j ∧ e.Narrows k' j' ∧ (d.compare e ≠ .gt → k ≤ k')) ∧
    (∃ w, (Value.integer m).convert .decimal = .ok (.decimal w) ∧ w.toRat = m.toInt) ∧
    (∃ w, (Value.long n).convert .decimal = .ok (.decimal w) ∧ w.toRat = n.toInt) ∧
    (Value.integer m).through [.long, .integer] = .ok (.integer m) ∧
    (Value.integer m).through [.decimal, .integer] = .ok (.integer m) ∧
    (Value.long n).through [.decimal, .long] = .ok (.long n) ∧
    (Value.integer m).through [.decimal] = (Value.integer m).through [.long, .decimal] ∧
    (Registry.standard now).Coincides "int" .integer a ∧
    (Registry.standard now).Coincides "long" .long a ∧
    (Registry.standard now).Coincides "decimal" .decimal a := by
  have hlong : m.toInt64.toInt32 = m := m.toInt32_toInt64
  have hdecimal : (Decimal.ofInt m.toInt).toInt64 = m.toInt64 := by
    rw [← Int32.toInt_toInt64, Decimal.toInt64_ofInt]
  refine ⟨⟨_, _, _, _, d.narrows, e.narrows, Decimal.toInt64_mono⟩,
    ⟨_, rfl, Decimal.toRat_ofInt _⟩, ⟨_, rfl, Decimal.toRat_ofInt _⟩, ?_, ?_, ?_, ?_,
    coincides now a⟩
  · exact congrArg (fun k => Except.ok (Value.integer k)) hlong
  · exact congrArg (fun k => Except.ok (Value.integer k)) ((congrArg _ hdecimal).trans hlong)
  · exact congrArg (fun k => Except.ok (Value.long k)) (Decimal.toInt64_ofInt n)
  · exact congrArg (fun k => Except.ok (Value.decimal (.ofInt k))) m.toInt_toInt64.symm

/-- A fraction below zero and a power of ten that no long holds are narrowed in their order. -/
theorem numbers_convert_beyond :
    Decimal.compare ⟨-25, 1⟩ ⟨1, -30⟩ ≠ .gt ∧ ∃ k j k' j', Decimal.Narrows ⟨-25, 1⟩ k j ∧
      Decimal.Narrows ⟨1, -30⟩ k' j' ∧ k ≤ k' := by
  have hle : Decimal.compare ⟨-25, 1⟩ ⟨1, -30⟩ ≠ .gt := by decide
  obtain ⟨⟨k, j, k', j', hd, he, hmono⟩, -⟩ :=
    numbers_convert ⟨0, 0, 0⟩ (.integer 0) ⟨-25, 1⟩ ⟨1, -30⟩ 0 0
  exact ⟨hle, k, j, k', j', hd, he, hmono hle⟩

end Library

end Formulary
