/-!
# Spans of source text

A span is a half-open interval of byte offsets. Offsets saturate at the largest sixteen-bit number,
so that long sources are accepted and only their spans lose precision.

## Main definitions

* `Span.of` — the span between two offsets
* `Span.union` — the least span around two

## Main results

* `Span.of_eq` — below the bound nothing is lost
* `Span.union_comm`, `Span.union_assoc`
-/

namespace Formulary

/-- A half-open interval of byte offsets. -/
structure Span where
  /-- The offset of the first byte. -/
  start : Nat
  /-- The offset after the last byte. -/
  stop : Nat
  deriving DecidableEq, Repr, Inhabited

namespace Span

/-- The largest offset a span can name. -/
def maxOffset : Nat := 65535

/-- The span between two offsets, both saturated. -/
def of (start stop : Nat) : Span := ⟨min start maxOffset, min stop maxOffset⟩

/-- The least span around two. -/
def union (a b : Span) : Span := ⟨min a.start b.start, max a.stop b.stop⟩

/-- Below the bound a span holds the offsets it was made from. -/
theorem of_eq {start stop : Nat} (h₁ : start ≤ maxOffset) (h₂ : stop ≤ maxOffset) :
    of start stop = ⟨start, stop⟩ := by
  simp [of, Nat.min_eq_left h₁, Nat.min_eq_left h₂]

theorem union_comm (a b : Span) : a.union b = b.union a := by
  simp [union, Nat.min_comm, Nat.max_comm]

theorem union_assoc (a b c : Span) : (a.union b).union c = a.union (b.union c) := by
  simp [union, Nat.min_assoc, Nat.max_assoc]

end Span

end Formulary
