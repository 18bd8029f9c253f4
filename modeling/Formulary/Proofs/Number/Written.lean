import Formulary.Proofs.Number.Division
import Formulary.Proofs.Syntax.Constants

/-!
# Written integers and decimals read back

An integer is read back as itself. A decimal is written in one of four layouts: with a negative
exponent, with a positive one, with zeros after its digits, or with a point. In all of them the
number is read back, and in all but one the digits and the scale as well: zeros that are written out
are digits from then on. Zero is written without its scale.

## Scope

Scales are those that a text may name. The exponent of a text is bounded as well, and far enough out
to leave all of them.

## Main definitions

* `Number.withMinus` — digits behind the sign of a negative number
* `Decimal.Significand` — a text that is read as an integer and a number of places
* `Decimal.reread` — the decimal that a written one is read as

## Main results

* `Number.readInteger?_toString` — a written integer is read back
* `Decimal.read?_text` — a written decimal is read as another one of the same number
* `Decimal.toRat_reread`
-/

namespace Formulary

open Lexeme (Digits isBlank_of_isDigit)
open Text

/-! ### Cutting texts -/

namespace Text

theorem span_append_of_head? {p : Char → Bool} {text rest : List Char}
    (h : ∀ c ∈ text, p c = true) (hrest : ∀ c ∈ rest.head?, p c = false) :
    (text ++ rest).span p = (text, rest) := by
  rw [List.span_eq_takeWhile_dropWhile, takeWhile_append_of_head? h hrest,
    dropWhile_append_of_head? h hrest]

/-- Trimming takes off the blanks around a text without blanks. -/
theorem trimList_append {before text after : List Char} (htext : ∀ c ∈ text, isBlank c = false)
    (hbefore : ∀ c ∈ before, isBlank c = true) (hafter : ∀ c ∈ after, isBlank c = true) :
    trimList (before ++ text ++ after) = text :=
  trimList_of_trims ⟨⟨before, after, rfl, hbefore, hafter⟩,
    fun c hc => htext c (List.mem_of_mem_head? hc), fun c hc => htext c (List.mem_of_getLast? hc)⟩

end Text

/-! ### Integers -/

namespace Number

/-- Digits behind the sign of a negative number. -/
def withMinus (negative : Bool) (digits : List Char) : List Char :=
  if negative then '-' :: digits else digits

theorem mem_withMinus {negative : Bool} {digits : List Char} {c : Char}
    (h : c ∈ withMinus negative digits) : c = '-' ∨ c ∈ digits := by
  cases negative with
  | true => exact List.mem_cons.mp h
  | false => exact Or.inr h

theorem withMinus_append (negative : Bool) (digits more : List Char) :
    withMinus negative (digits ++ more) = withMinus negative digits ++ more := by
  cases negative <;> rfl

theorem splitSign_withMinus (negative : Bool) {digits : List Char} (h : Digits digits) :
    splitSign (withMinus negative digits) = (negative, digits) := by
  cases negative with
  | true => rfl
  | false =>
    obtain ⟨c, rest, rfl⟩ := List.exists_cons_of_ne_nil h.1
    exact splitSign_of_isDigit rest (h.2 c (List.mem_cons_self ..))

theorem readInteger?_withMinus (negative : Bool) {digits : List Char} (h : Digits digits) :
    readInteger? (withMinus negative digits) = some (signed negative (valueOf digits)) := by
  rw [readInteger?, splitSign_withMinus negative h]
  simp [readNatural?, h.1, List.all_eq_true.mpr h.2]

theorem signed_natAbs (n : Int) : signed (n < 0) n.natAbs = n := by
  rw [signed]
  split
  · next h =>
    have := of_decide_eq_true h
    omega
  · next h =>
    have := of_decide_eq_false (Bool.eq_false_of_not_eq_true h)
    omega

theorem toList_toString (n : Int) :
    (toString n).toList = withMinus (n < 0) (digitsOf n.natAbs) := by
  rw [Int.toString_eq_repr, Int.repr_eq_if, withMinus, digitsOf]
  by_cases h : 0 ≤ n
  · have hsign : ¬n < 0 := Int.not_lt.mpr h
    have habs : n.natAbs = n.toNat := by omega
    rw [if_pos h, if_neg (by simpa using hsign), Nat.toList_repr, habs]
  · have hsign : n < 0 := Int.not_le.mp h
    have habs : n.natAbs = (-n).toNat := by omega
    rw [if_neg h, if_pos (by simpa using hsign), String.toList_append, Nat.toList_repr, habs]
    rfl

theorem readInteger?_plus {digits : List Char} (h : Digits digits) :
    readInteger? ('+' :: digits) = some (valueOf digits : Int) := by
  rw [readInteger?, splitSign]
  simp [readNatural?, h.1, List.all_eq_true.mpr h.2, signed]

theorem signed_mul (negative : Bool) (m n : Nat) :
    signed negative (m * n) = signed negative m * n := by
  cases negative with
  | true => simp [signed]
  | false => simp [signed]

/-- **A written integer** is read back. -/
theorem readInteger?_toString (n : Int) : readInteger? (toString n).toList = some n := by
  rw [toList_toString, readInteger?_withMinus _ (Literal.digits_digitsOf _), valueOf_digitsOf,
    signed_natAbs]

theorem within?_of_le {low high n : Int} (hlow : low ≤ n) (hhigh : n ≤ high) :
    within? low high n = some n :=
  if_pos ⟨hlow, hhigh⟩

theorem readInt32?_toString (n : Int32) : readInt32? (toString n.toInt).toList = some n := by
  rw [readInt32?, readInteger?_toString, Option.bind_some,
    within?_of_le n.le_toInt (Int.le_sub_one_of_lt n.toInt_lt), Option.map_some, Int32.ofInt_toInt]

theorem readInt64?_toString (n : Int64) : readInt64? (toString n.toInt).toList = some n := by
  rw [readInt64?, readInteger?_toString, Option.bind_some,
    within?_of_le n.le_toInt (Int.le_sub_one_of_lt n.toInt_lt), Option.map_some, Int64.ofInt_toInt]

end Number

/-! ### Significands -/

namespace Decimal

open Number

/-- The text is read as an integer and a number of places, and no exponent begins in it. -/
structure Significand (text : List Char) (unscaled : Int) (places : Nat) : Prop where
  /-- How it is read. -/
  reads : significand? text = some (unscaled, places)
  /-- No character of it begins an exponent. -/
  noMark : ∀ c ∈ text, c ≠ 'e' ∧ c ≠ 'E'

theorem readSigned?_withMinus (negative : Bool) {digits : List Char} (h : Digits digits) :
    readSigned? (withMinus negative digits) = some (signed negative (valueOf digits)) := by
  rw [readSigned?, splitSign_withMinus negative h]
  dsimp only
  rw [readGrouped?_digits h.1 h.2, Option.map_some]

theorem ne_of_isDigit {c d : Char} (hc : c.isDigit = true) (hd : d.isDigit = false) : c ≠ d := by
  rintro rfl
  rw [hc] at hd
  exact nomatch hd

/-- A character among digits behind a sign is no other one. -/
theorem ne_of_mem_withMinus {negative : Bool} {digits : List Char}
    (h : ∀ c ∈ digits, c.isDigit = true) {c d : Char} (hc : c ∈ withMinus negative digits)
    (hd : d.isDigit = false) (hminus : d ≠ '-') : c ≠ d := by
  rcases mem_withMinus hc with rfl | hc
  · exact hminus.symm
  · exact ne_of_isDigit (h c hc) hd

theorem significand_digits (negative : Bool) {digits : List Char} (h : Digits digits) :
    Significand (withMinus negative digits) (signed negative (valueOf digits)) 0 := by
  refine ⟨?_, fun c hc => ⟨ne_of_mem_withMinus h.2 hc rfl (by decide),
    ne_of_mem_withMinus h.2 hc rfl (by decide)⟩⟩
  have hpoint : ∀ c ∈ withMinus negative digits, (c != '.') = true := fun c hc =>
    bne_iff_ne.mpr (ne_of_mem_withMinus h.2 hc rfl (by decide))
  rw [significand?, Literal.span_of_all hpoint, readSigned?_withMinus negative h, Option.map_some]

/-- The digits behind a point are the places. -/
theorem significand_point (negative : Bool) {whole fraction : List Char} (hwhole : Digits whole)
    (hfraction : ∀ c ∈ fraction, c.isDigit = true) :
    Significand (withMinus negative (whole ++ '.' :: fraction))
      (signed negative (valueOf (whole ++ fraction))) fraction.length := by
  have hdigits : Digits (whole ++ fraction) := by
    refine ⟨fun h => hwhole.1 (List.append_eq_nil_iff.mp h).1, fun c hc => ?_⟩
    exact (List.mem_append.mp hc).elim (hwhole.2 c) (hfraction c)
  rw [withMinus_append]
  refine ⟨?_, fun c hc => ?_⟩
  · have hpoint : ∀ c ∈ withMinus negative whole, (c != '.') = true := fun c hc =>
      bne_iff_ne.mpr (ne_of_mem_withMinus hwhole.2 hc rfl (by decide))
    have hhead : ∀ c ∈ ('.' :: fraction).head?, (c != '.') = false := by
      rintro _ ⟨⟩
      rfl
    have hplaces : fraction.filter (· != '_') = fraction := List.filter_eq_self.mpr fun c hc =>
      bne_iff_ne.mpr (ne_of_isDigit (hfraction c hc) rfl)
    rw [significand?, span_append_of_head? hpoint hhead]
    dsimp only
    rw [← withMinus_append, readSigned?_withMinus negative hdigits, Option.map_some, hplaces]
  · rcases List.mem_append.mp hc with hc | hc
    · exact ⟨ne_of_mem_withMinus hwhole.2 hc rfl (by decide),
        ne_of_mem_withMinus hwhole.2 hc rfl (by decide)⟩
    · rcases List.mem_cons.mp hc with rfl | hc
      · decide
      · exact ⟨ne_of_isDigit (hfraction c hc) rfl, ne_of_isDigit (hfraction c hc) rfl⟩

/-! ### Exponents -/

section

variable {base : List Char} {unscaled : Int} {places : Nat}

theorem Significand.isMark_eq_false (h : Significand base unscaled places) :
    ∀ c ∈ base, (c != 'e' && c != 'E') = true := by
  intro c hc
  rw [Bool.and_eq_true]
  exact ⟨bne_iff_ne.mpr (h.noMark c hc).1, bne_iff_ne.mpr (h.noMark c hc).2⟩

/-- Without an exponent the scale is the number of places. -/
theorem Significand.read? (h : Significand base unscaled places)
    (hplaces : (places : Int) < scaleBound) :
    Decimal.read? base = some (.ofScale unscaled places) := by
  have hsplit : splitExponent base = (base, none) := by
    rw [splitExponent, Literal.span_of_all h.isMark_eq_false]
  have hscale : within? (-scaleBound) (scaleBound - 1) (places - 0) = some (places : Int) := by
    rw [Int.sub_zero]
    refine within?_of_le ?_ (Int.le_sub_one_of_lt hplaces)
    rw [scaleBound]
    omega
  simp only [Decimal.read?, hsplit, h.reads, Option.bind_eq_bind, Option.bind_some, hscale]
  rfl

/-- With an exponent it is taken off the places. -/
theorem Significand.read?_exponent (h : Significand base unscaled places) {mark : Char}
    {exponent : List Char} {e : Int} (hmark : mark = 'e' ∨ mark = 'E')
    (he : readInteger? exponent = some e) (hlow : -exponentBound ≤ e) (hhigh : e < exponentBound)
    (hscale : -scaleBound ≤ places - e) (hscale' : places - e < scaleBound) :
    Decimal.read? (base ++ mark :: exponent) = some (.ofScale unscaled (places - e)) := by
  have hhead : ∀ c ∈ (mark :: exponent).head?, (c != 'e' && c != 'E') = false := by
    rintro _ ⟨⟩
    rcases hmark with rfl | rfl <;> rfl
  have hsplit : splitExponent (base ++ mark :: exponent) = (base, some exponent) := by
    rw [splitExponent, span_append_of_head? h.isMark_eq_false hhead]
  have hexponent := within?_of_le hlow (Int.le_sub_one_of_lt hhigh)
  have hplaces := within?_of_le hscale (Int.le_sub_one_of_lt hscale')
  simp only [Decimal.read?, hsplit, h.reads, he, Option.bind_eq_bind, Option.bind_some, hexponent,
    hplaces]
  rfl

end

/-! ### Layouts -/

theorem signed_valueOf_digitsOf (n : Int) :
    signed (n < 0) (valueOf (digitsOf n.natAbs)) = n := by
  rw [valueOf_digitsOf, signed_natAbs]

/-- The decimal that a written one is read as. Zero is written without its scale, and zeros that are
written behind the digits are digits from then on. -/
def reread (d : Decimal) : Decimal :=
  if d.unscaled = 0 then ⟨0, 0⟩
  else if -maxTrailingZeros ≤ d.scale ∧ d.scale ≤ 0 then ⟨d.unscaledAt 0, 0⟩
  else d

theorem toRat_reread (d : Decimal) : d.reread.toRat = d.toRat := by
  rw [reread]
  split
  · next h => simp [toRat, h]
  · split
    · next h =>
      have hwhole := unscaledAt_eq_toRat h.2
      have hscale : scale ⟨d.unscaledAt 0, 0⟩ = 0 := rfl
      rw [zpow_zero, mul_one] at hwhole
      rw [← hwhole, toRat, hscale, neg_zero, zpow_zero, mul_one]
    · rfl

/-- One digit, and the others as places. -/
theorem significand_scientific (negative : Bool) {digits : List Char} (h : Digits digits) :
    Significand (withMinus negative (scientific digits)) (signed negative (valueOf digits))
      (digits.length - 1) := by
  obtain ⟨c, rest, rfl⟩ := List.exists_cons_of_ne_nil h.1
  cases rest with
  | nil => exact significand_digits negative h
  | cons c' rest =>
    have hwhole : Digits [c] := ⟨List.cons_ne_nil _ _, List.forall_mem_singleton.mpr
      (h.2 c (List.mem_cons_self ..))⟩
    exact significand_point negative hwhole fun d hd => h.2 d (List.mem_cons_of_mem c hd)

/-- A point before the last `scale` digits, with zeros where there are none. -/
theorem significand_pointed (negative : Bool) {digits : List Char} (h : Digits digits)
    (scale : Nat) : Significand (withMinus negative (pointed digits scale))
      (signed negative (valueOf digits)) scale := by
  rw [pointed]
  split
  · next hscale => exact hscale ▸ significand_digits negative h
  · split
    · next hlength =>
      have hwhole : Digits ['0'] := ⟨List.cons_ne_nil _ _, List.forall_mem_singleton.mpr rfl⟩
      have hfraction : ∀ c ∈ List.replicate (scale - digits.length) '0' ++ digits,
          c.isDigit = true := fun c hc =>
        (List.mem_append.mp hc).elim Literal.isDigit_of_mem_zeros (h.2 c)
      have hvalue : valueOf (['0'] ++ (List.replicate (scale - digits.length) '0' ++ digits)) =
          valueOf digits := by
        rw [valueOf_append, valueOf_append, valueOf_replicate_zero]
        simp [valueOf, digitValue]
      have hplaces : (List.replicate (scale - digits.length) '0' ++ digits).length = scale := by
        rw [List.length_append, List.length_replicate]
        omega
      have hread := significand_point negative hwhole hfraction
      rwa [hvalue, hplaces] at hread
    · next hlength =>
      have hwhole : Digits (digits.take (digits.length - scale)) := by
        refine ⟨fun hnil => ?_, fun c hc => h.2 c (List.mem_of_mem_take hc)⟩
        have := congrArg List.length hnil
        rw [List.length_take, List.length_nil] at this
        omega
      have hfraction : ∀ c ∈ digits.drop (digits.length - scale), c.isDigit = true := fun c hc =>
        h.2 c (List.mem_of_mem_drop hc)
      have hplaces : (digits.drop (digits.length - scale)).length = scale := by
        rw [List.length_drop]
        omega
      have hread := significand_point negative hwhole hfraction
      rwa [List.take_append_drop, hplaces] at hread

theorem toList_text {d : Decimal} (h : d.unscaled ≠ 0) : d.text.toList =
    withMinus (d.unscaled < 0) (magnitudeText (digitsOf d.unscaled.natAbs) d.scale) := by
  rw [text, if_neg h]
  dsimp only
  rw [String.toList_ofList, withMinus]
  simp only [decide_eq_true_eq]

section

variable {d : Decimal}

/-- The layout with a negative exponent. -/
theorem read?_leading (h : maxLeadingZeros < d.scale - digitCount d.unscaled.natAbs) :
    Decimal.read? (withMinus (d.unscaled < 0) (scientific (digitsOf d.unscaled.natAbs) ++
      'E' :: '-' :: digitsOf (d.scale - digitCount d.unscaled.natAbs + 1).toNat)) = some d := by
  have hhigh := d.scale_lt_scaleBound
  have hbound : scaleBound = 2 ^ 63 := rfl
  have hexponent : exponentBound = 2 ^ 127 := rfl
  have hzeros : maxLeadingZeros = 5 := rfl
  have hcount := digitCount_pos d.unscaled.natAbs
  have hread := significand_scientific (d.unscaled < 0) (Literal.digits_digitsOf d.unscaled.natAbs)
  rw [signed_valueOf_digitsOf, ← digitCount] at hread
  have he : readInteger? ('-' :: digitsOf (d.scale - digitCount d.unscaled.natAbs + 1).toNat) =
      some (-(d.scale - digitCount d.unscaled.natAbs + 1)) := by
    refine (readInteger?_withMinus true (Literal.digits_digitsOf _)).trans ?_
    rw [valueOf_digitsOf, signed, if_pos rfl, Int.toNat_of_nonneg (by omega)]
  have hscale : ((digitCount d.unscaled.natAbs - 1 : Nat) : Int) -
      -(d.scale - digitCount d.unscaled.natAbs + 1) = d.scale := by
    omega
  rw [withMinus_append, hread.read?_exponent (Or.inr rfl) he (by omega) (by omega) (by omega)
    (by omega), hscale, ofScale_scale]

/-- The layout with a positive exponent. -/
theorem read?_trailing (h : maxTrailingZeros < -d.scale) :
    Decimal.read? (withMinus (d.unscaled < 0) (digitsOf d.unscaled.natAbs ++
      'e' :: '+' :: digitsOf (-d.scale).toNat)) = some d := by
  have hlow := d.neg_scaleBound_le_scale
  have hbound : scaleBound = 2 ^ 63 := rfl
  have hexponent : exponentBound = 2 ^ 127 := rfl
  have hzeros : maxTrailingZeros = 15 := rfl
  have hread := significand_digits (d.unscaled < 0) (Literal.digits_digitsOf d.unscaled.natAbs)
  rw [signed_valueOf_digitsOf] at hread
  have he : readInteger? ('+' :: digitsOf (-d.scale).toNat) = some (-d.scale) := by
    rw [readInteger?_plus (Literal.digits_digitsOf _), valueOf_digitsOf,
      Int.toNat_of_nonneg (by omega)]
  have hscale : ((0 : Nat) : Int) - -d.scale = d.scale := by omega
  rw [withMinus_append, hread.read?_exponent (Or.inl rfl) he (by omega) (by omega) (by omega)
    (by omega), hscale, ofScale_scale]

/-- The layout with zeros behind the digits. -/
theorem read?_wholeDigits (d : Decimal) :
    Decimal.read? (withMinus (d.unscaled < 0) (Literal.wholeDigits d)) =
      some ⟨d.unscaledAt 0, 0⟩ := by
  have hread := significand_digits (d.unscaled < 0) (Literal.digits_wholeDigits d)
  have hvalue : signed (d.unscaled < 0) (valueOf (Literal.wholeDigits d)) = d.unscaledAt 0 := by
    rw [Literal.wholeDigits, valueOf_append, valueOf_digitsOf, valueOf_replicate_zero,
      List.length_replicate, Nat.add_zero, signed_mul, signed_natAbs, unscaledAt_eq, Int.zero_sub,
      tenPow]
  rw [hvalue] at hread
  exact hread.read? (by decide)

/-- The layout with a point. -/
theorem read?_pointed (h : 0 ≤ d.scale) :
    Decimal.read? (withMinus (d.unscaled < 0) (pointed (digitsOf d.unscaled.natAbs)
      d.scale.toNat)) = some d := by
  have hread := significand_pointed (d.unscaled < 0) (Literal.digits_digitsOf d.unscaled.natAbs)
    d.scale.toNat
  rw [signed_valueOf_digitsOf] at hread
  have hscale := Int.toNat_of_nonneg h
  have hhigh := d.scale_lt_scaleBound
  rw [hread.read? (by omega), hscale, ofScale_scale]

/-- **A written decimal** is read back, in whichever layout it is written. -/
theorem read?_text (d : Decimal) : Decimal.read? d.text.toList = some d.reread := by
  have hleadingZeros : maxLeadingZeros = 5 := rfl
  have htrailingZeros : maxTrailingZeros = 15 := rfl
  rw [reread]
  split
  · next hzero =>
    rw [text, if_pos hzero]
    rfl
  · next hzero =>
    rw [toList_text hzero, magnitudeText, ← digitCount]
    split
    · next hleading => rw [read?_leading hleading, if_neg (by omega)]
    · next hleading =>
      split
      · next htrailing => rw [read?_trailing htrailing, if_neg (by omega)]
      · next htrailing =>
        split
        · next hscale =>
          rw [if_pos ⟨by omega, hscale⟩]
          exact read?_wholeDigits d
        · next hscale => rw [read?_pointed (by omega), if_neg (by omega)]

end

/-! ### Characters -/

theorem isBlank_of_mem_scientific {digits : List Char} (h : ∀ c ∈ digits, isBlank c = false) :
    ∀ c ∈ scientific digits, isBlank c = false := by
  unfold scientific
  split
  · exact h
  · exact h
  · rw [List.forall_mem_cons] at h
    exact List.forall_mem_cons.mpr ⟨h.1, List.forall_mem_cons.mpr ⟨rfl, h.2⟩⟩

theorem isBlank_of_mem_pointed {digits : List Char} (h : ∀ c ∈ digits, isBlank c = false)
    (scale : Nat) : ∀ c ∈ pointed digits scale, isBlank c = false := by
  rw [pointed]
  split
  · exact h
  · split
    · refine List.forall_mem_cons.mpr ⟨rfl, List.forall_mem_cons.mpr ⟨rfl, ?_⟩⟩
      refine List.forall_mem_append.mpr ⟨fun c hc => ?_, h⟩
      exact isBlank_of_isDigit (Literal.isDigit_of_mem_zeros hc)
    · refine List.forall_mem_append.mpr ⟨fun c hc => h c (List.mem_of_mem_take hc), ?_⟩
      exact List.forall_mem_cons.mpr ⟨rfl, fun c hc => h c (List.mem_of_mem_drop hc)⟩

theorem isBlank_of_mem_magnitudeText {digits : List Char} (h : ∀ c ∈ digits, isBlank c = false)
    (scale : Int) : ∀ c ∈ magnitudeText digits scale, isBlank c = false := by
  have hexponent : ∀ n : Nat, ∀ c ∈ digitsOf n, isBlank c = false := fun n c hc =>
    isBlank_of_isDigit (isDigit_of_mem_digitsOf hc)
  rw [magnitudeText]
  split
  · refine List.forall_mem_append.mpr ⟨isBlank_of_mem_scientific h, ?_⟩
    exact List.forall_mem_cons.mpr ⟨rfl, List.forall_mem_cons.mpr ⟨rfl, hexponent _⟩⟩
  · split
    · refine List.forall_mem_append.mpr ⟨h, ?_⟩
      exact List.forall_mem_cons.mpr ⟨rfl, List.forall_mem_cons.mpr ⟨rfl, hexponent _⟩⟩
    · split
      · refine List.forall_mem_append.mpr ⟨h, fun c hc => ?_⟩
        exact isBlank_of_isDigit (Literal.isDigit_of_mem_zeros hc)
      · exact isBlank_of_mem_pointed h _

/-- A written decimal has no blanks in it. -/
theorem isBlank_of_mem_text (d : Decimal) : ∀ c ∈ d.text.toList, isBlank c = false := by
  by_cases hzero : d.unscaled = 0
  · rw [text, if_pos hzero]
    exact List.forall_mem_singleton.mpr rfl
  · rw [toList_text hzero]
    intro c hc
    rcases mem_withMinus hc with rfl | hc
    · rfl
    · exact isBlank_of_mem_magnitudeText
        (fun c hc => isBlank_of_isDigit (isDigit_of_mem_digitsOf hc)) _ c hc

end Decimal

/-- A written integer has no blanks in it. -/
theorem Number.isBlank_of_mem_toString (n : Int) :
    ∀ c ∈ (toString n).toList, isBlank c = false := by
  rw [toList_toString]
  intro c hc
  rcases mem_withMinus hc with rfl | hc
  · rfl
  · exact isBlank_of_isDigit (isDigit_of_mem_digitsOf hc)

end Formulary
