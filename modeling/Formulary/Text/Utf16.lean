/-!
# Sixteen-bit units

Escapes name characters by sixteen-bit units. A unit outside the surrogates is a character, and a
high surrogate followed by a low one is a character beyond the basic plane; nothing else is.

## Main definitions

* `Utf16.decode?` — the characters of a sequence of units, if it is well formed
* `Utf16.encode` — the units of a sequence of characters

## Main results

* `Utf16.decode?_cons_scalar` — a unit that is no surrogate stands for itself
* `Utf16.decode?_encode` — units are read back
-/

namespace Formulary.Text.Utf16

/-- A high surrogate. -/
def isHigh (u : Nat) : Bool := 0xD800 ≤ u && u < 0xDC00

/-- A low surrogate. -/
def isLow (u : Nat) : Bool := 0xDC00 ≤ u && u < 0xE000

/-- The character of a surrogate pair. -/
def pair (high low : Nat) : Char := Char.ofNat (0x10000 + (high - 0xD800) * 0x400 + (low - 0xDC00))

/-- The characters that a sequence of units stands for. -/
def decode? : List Nat → Option (List Char)
  | [] => some []
  | [u] => if isHigh u || isLow u then none else some [Char.ofNat u]
  | u :: v :: rest =>
    if isHigh u then
      if isLow v then (decode? rest).map (pair u v :: ·) else none
    else if isLow u then none
    else (decode? (v :: rest)).map (Char.ofNat u :: ·)

/-- The units of a sequence of characters. -/
def encode (cs : List Char) : List Nat :=
  cs.flatMap fun c =>
    let n := c.toNat
    if n < 0x10000 then [n]
    else [0xD800 + (n - 0x10000) / 0x400, 0xDC00 + (n - 0x10000) % 0x400]

/-- A unit that is no surrogate stands for itself. -/
theorem decode?_cons_scalar {u : Nat} (hh : isHigh u = false) (hl : isLow u = false)
    (us : List Nat) : decode? (u :: us) = (decode? us).map (Char.ofNat u :: ·) := by
  cases us with
  | nil => simp [decode?, hh, hl]
  | cons v rest => simp [decode?, hh, hl]

theorem encode_cons (c : Char) (cs : List Char) : encode (c :: cs) = encode [c] ++ encode cs := by
  rw [encode, List.flatMap_cons, encode, encode, List.flatMap_cons, List.flatMap_nil,
    List.append_nil]

/-- The units of a character stand for it, whatever is behind them. -/
theorem decode?_encode_append (c : Char) (us : List Nat) :
    decode? (encode [c] ++ us) = (decode? us).map (c :: ·) := by
  rw [encode, List.flatMap_cons, List.flatMap_nil, List.append_nil]
  -- no character is a surrogate
  have hvalid : c.toNat < 0xD800 ∨ 0xDFFF < c.toNat ∧ c.toNat < 0x110000 := c.valid
  dsimp only
  split
  · have hh : isHigh c.toNat = false := by simp [isHigh]; omega
    have hl : isLow c.toNat = false := by simp [isLow]; omega
    rw [List.singleton_append, decode?_cons_scalar hh hl, Char.ofNat_toNat]
  · next hwide =>
    have hh : isHigh (0xD800 + (c.toNat - 0x10000) / 0x400) = true := by simp [isHigh]; omega
    have hl : isLow (0xDC00 + (c.toNat - 0x10000) % 0x400) = true := by simp [isLow]; omega
    have hpair : pair (0xD800 + (c.toNat - 0x10000) / 0x400)
        (0xDC00 + (c.toNat - 0x10000) % 0x400) = c := by
      have hsum : 0x10000 + (0xD800 + (c.toNat - 0x10000) / 0x400 - 0xD800) * 0x400 +
          (0xDC00 + (c.toNat - 0x10000) % 0x400 - 0xDC00) = c.toNat := by omega
      rw [pair, hsum, Char.ofNat_toNat]
    rw [List.cons_append, List.singleton_append, decode?, if_pos hh, if_pos hl, hpair]

/-- The units of a text stand for it. -/
theorem decode?_encode (cs : List Char) : decode? (encode cs) = some cs := by
  induction cs with
  | nil => rfl
  | cons c cs ih =>
    rw [encode_cons, decode?_encode_append, ih]
    rfl

end Formulary.Text.Utf16
