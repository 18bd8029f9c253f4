/-!
# Digits

Writing and reading natural numbers and integers in base ten. Only ASCII digits count here.

## Main definitions

* `digitsOf` — the digits of a number, most significant first
* `valueOf` — the number that digits stand for
* `readNatural?`, `readInteger?` — exact readers of a whole text
* `digitCount` — how many digits a number is written with

## Main results

* `valueOf_append` — how values compose
* `valueOf_digitsOf` — digits are read back
* `digitCount_pos`, `digitCount_le_iff` — every number has a digit, and no more than it needs
-/

namespace Formulary.Number

/-- A power is the core library's, here and in all that is built on this, also where an algebra
library brings another instance. -/
@[default_instance 20000]
instance (priority := 2000) corePow {α : Type} [NatPow α] : Pow α Nat := instPowNat

/-- The digits of a number, most significant first. -/
def digitsOf (n : Nat) : List Char := Nat.toDigits 10 n

/-- The number of digits a number is written with. -/
def digitCount (n : Nat) : Nat := (digitsOf n).length

/-- The value of a digit. -/
def digitValue (c : Char) : Nat := c.toNat - '0'.toNat

/-- The number that digits stand for, most significant first. -/
def valueOf (digits : List Char) : Nat := digits.foldl (fun n c => 10 * n + digitValue c) 0

/-- The number written by a nonempty text of digits. -/
def readNatural? (cs : List Char) : Option Nat :=
  if cs.isEmpty then none
  else if cs.all Char.isDigit then some (valueOf cs)
  else none

/-- Whether a leading sign is negative, and what follows it. -/
def splitSign : List Char → Bool × List Char
  | '-' :: rest => (true, rest)
  | '+' :: rest => (false, rest)
  | cs => (false, cs)

/-- The integer with a sign and a magnitude. -/
def signed (negative : Bool) (n : Nat) : Int := if negative then -(n : Int) else n

/-- The integer written by a text of digits with an optional sign. -/
def readInteger? (cs : List Char) : Option Int :=
  let (negative, digits) := splitSign cs
  (readNatural? digits).map (signed negative)

/-- An integer, if it lies between two bounds. -/
def within? (low high : Int) (n : Int) : Option Int :=
  if low ≤ n ∧ n ≤ high then some n else none

/-- The thirty-two bit word written by a text. -/
def readInt32? (cs : List Char) : Option Int32 :=
  ((readInteger? cs).bind (within? (-2 ^ 31) (2 ^ 31 - 1))).map Int32.ofInt

/-- The sixty-four bit word written by a text. -/
def readInt64? (cs : List Char) : Option Int64 :=
  ((readInteger? cs).bind (within? (-2 ^ 63) (2 ^ 63 - 1))).map Int64.ofInt

/-- A text of `n` zeros. -/
def zeros (n : Nat) : String := String.ofList (List.replicate n '0')

/-- A number written with at least `width` digits. -/
def padded (width n : Nat) : String :=
  let digits := digitsOf n
  String.ofList (List.replicate (width - digits.length) '0' ++ digits)

/-! ### Values of digit strings -/

theorem valueOf_nil : valueOf [] = 0 := rfl

private theorem foldl_digits (digits : List Char) (n : Nat) :
    digits.foldl (fun n c => 10 * n + digitValue c) n =
      n * 10 ^ digits.length + valueOf digits := by
  induction digits generalizing n with
  | nil => simp [valueOf]
  | cons c rest ih =>
    have h : valueOf (c :: rest) = digitValue c * 10 ^ rest.length + valueOf rest := by
      simpa [valueOf] using ih (10 * 0 + digitValue c)
    rw [List.foldl_cons, ih, h, List.length_cons, Nat.pow_succ, Nat.add_mul, Nat.mul_comm 10 n,
      Nat.mul_assoc, Nat.mul_comm 10, Nat.add_assoc]

/-- Digits written one after the other: the first part moves up by the length of the second. -/
theorem valueOf_append (a b : List Char) :
    valueOf (a ++ b) = valueOf a * 10 ^ b.length + valueOf b := by
  rw [valueOf, List.foldl_append, foldl_digits]
  rfl

/-- The digits of a number stand for it. -/
theorem valueOf_digitsOf (n : Nat) : valueOf (digitsOf n) = n := by
  have h := Nat.ofDigitChars_ten_toDigits (n := n)
  rw [Nat.ofDigitChars_eq_foldl] at h
  exact h

theorem valueOf_replicate_zero (n : Nat) : valueOf (List.replicate n '0') = 0 := by
  induction n with
  | zero => rfl
  | succ n ih =>
    rw [List.replicate_succ', valueOf_append, ih, Nat.zero_mul]
    rfl

theorem isDigit_of_mem_digitsOf {n : Nat} {c : Char} (h : c ∈ digitsOf n) : c.isDigit = true :=
  Nat.isDigit_of_mem_toDigits (by decide) (by decide) h

theorem digitsOf_ne_nil (n : Nat) : digitsOf n ≠ [] := Nat.toDigits_ne_nil

theorem splitSign_cons {c : Char} (cs : List Char) (hminus : c ≠ '-') (hplus : c ≠ '+') :
    splitSign (c :: cs) = (false, c :: cs) := by
  unfold splitSign
  split
  · next h => exact absurd (List.cons.inj h).1 hminus
  · next h => exact absurd (List.cons.inj h).1 hplus
  · rfl

theorem splitSign_of_isDigit {c : Char} (cs : List Char) (h : c.isDigit = true) :
    splitSign (c :: cs) = (false, c :: cs) := by
  refine splitSign_cons cs ?_ ?_ <;>
  · rintro rfl
    exact absurd h (by decide)

/-- Digits without a sign are read by value. -/
theorem readInteger?_digits {cs : List Char} (hne : cs ≠ []) (h : ∀ c ∈ cs, c.isDigit = true) :
    readInteger? cs = some (valueOf cs : Int) := by
  obtain ⟨c, rest, rfl⟩ := List.exists_cons_of_ne_nil hne
  rw [readInteger?, splitSign_of_isDigit rest (h c (List.mem_cons_self ..))]
  simp only [readNatural?, List.isEmpty_cons, Bool.false_eq_true, if_false, List.all_eq_true.mpr h,
    if_true]
  rfl

theorem digitCount_pos (n : Nat) : 0 < digitCount n := by
  simp only [digitCount, digitsOf]
  exact Nat.length_toDigits_pos

/-- A number has at most `k` digits exactly if it is below the `k`th power of ten. -/
theorem digitCount_le_iff {n k : Nat} (h : 0 < k) : digitCount n ≤ k ↔ n < 10 ^ k :=
  Nat.length_toDigits_le_iff (by decide) h

theorem lt_pow_digitCount (n : Nat) : n < 10 ^ digitCount n :=
  (digitCount_le_iff (digitCount_pos n)).1 (Nat.le_refl _)

theorem pow_digitCount_pred_le {n : Nat} (h : n ≠ 0) : 10 ^ (digitCount n - 1) ≤ n := by
  by_cases hk : digitCount n - 1 = 0
  · simp [hk]; omega
  · have h := digitCount_le_iff (n := n) (Nat.pos_of_ne_zero hk)
    have : ¬n < 10 ^ (digitCount n - 1) := fun h' => by have := h.2 h'; omega
    omega

end Formulary.Number
