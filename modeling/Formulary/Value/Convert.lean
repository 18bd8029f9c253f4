import Formulary.Fault
import Formulary.Value.Basic

/-!
# Conversion between numeric kinds

An argument may be handed to an overload that declares another kind of number. Widening keeps the
number where the wider kind can hold it; narrowing drops the fraction, and then either stops at the
bounds of the narrower kind or keeps its low bits.

## Main definitions

* `Decimal.toInt64` — the integer part of a decimal, stopped at the bounds
* `Value.convert?` — a value as another kind
* `Value.convert` — the same, with the fault

## Main results

* `Value.convert_tag` — a converted value carries the kind asked for
-/

namespace Formulary

/-- The integer part, stopped at the bounds of sixty-four bits. -/
def Decimal.toInt64 (d : Decimal) : Int64 :=
  Int64.ofInt (Double.clamp (-2 ^ 63) (2 ^ 63 - 1) d.truncate)

namespace Value

/-- A number as another kind of number. -/
def convert? : Tag → Value → Option Value
  | .decimal, integer n => some (decimal (.ofInt n.toInt))
  | .decimal, long n => some (decimal (.ofInt n.toInt))
  | .decimal, double x => (Double.toDecimal? x).map decimal
  | .double, integer n => some (double (Double.ofInt n.toInt))
  | .double, long n => some (double (Double.ofInt n.toInt))
  | .double, decimal d => some (double (Double.ofDecimal d))
  | .long, integer n => some (long n.toInt64)
  | .long, double x => some (long (Double.toInt64 x))
  | .long, decimal d => some (long d.toInt64)
  | .integer, long n => some (integer n.toInt32)
  | .integer, double x => some (integer (Double.toInt32 x))
  | .integer, decimal d => some (integer d.toInt64.toInt32)
  | _, _ => none

/-- A value as an argument declared with a tag: unchanged where the tag is its own or asks for any
value. -/
def convert (target : Tag) (v : Value) : Except Fault Value :=
  if v.tag = target ∨ target = .object then .ok v
  else
    match convert? target v with
    | some w => .ok w
    | none => .error (.notConvertible v.tag target)

theorem convert?_tag {target : Tag} {v w : Value} (h : convert? target v = some w) :
    w.tag = target := by
  cases target <;> cases v <;> simp [convert?] at h <;> (try subst h) <;> (try rfl)
  obtain ⟨d, -, rfl⟩ := h
  rfl

/-- A converted value carries the tag asked for, and any tag where none was asked for. -/
theorem convert_tag {target : Tag} {v w : Value} (h : convert target v = .ok w) :
    w.tag = target ∨ target = .object ∧ w = v := by
  rw [convert] at h
  split at h
  · next hv =>
    obtain rfl := Except.ok.inj h
    rcases hv with hv | hv
    · exact .inl hv
    · exact .inr ⟨hv, rfl⟩
  · split at h
    · next hw =>
      obtain rfl := Except.ok.inj h
      exact .inl (convert?_tag hw)
    · simp at h

end Value

end Formulary
