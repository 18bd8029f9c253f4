import Formulary.Text.Utf16

/-!
# Quoted text

A quoted text ends at the first quote that no backslash stands before. Inside it a backslash starts
an escape: of a single character, or of a sixteen-bit unit by its four digits.

## Main definitions

* `Quoted.body?` — what stands before the closing quote
* `Quoted.units?` — the sixteen-bit units that a body stands for
* `Quoted.decode?` — the text that a body stands for

## Main results

* `Quoted.body?_eq_some` — a body and its quote begin the text
* `Quoted.units?_plain` — without a backslash a body stands for itself
-/

namespace Formulary.Text.Quoted

/-- The raw text before the closing quote, if there is one. -/
def body? (quote : Char) : List Char → Option (List Char)
  | [] => none
  | c :: rest =>
    if c = quote then some []
    else if c = '\\' then
      match rest with
      | [] => none
      | d :: rest => (body? quote rest).map (c :: d :: ·)
    else (body? quote rest).map (c :: ·)

/-- The value of a hexadecimal digit. -/
def hexValue? (c : Char) : Option Nat :=
  if '0' ≤ c ∧ c ≤ '9' then some (c.toNat - '0'.toNat)
  else if 'a' ≤ c ∧ c ≤ 'f' then some (c.toNat - 'a'.toNat + 10)
  else if 'A' ≤ c ∧ c ≤ 'F' then some (c.toNat - 'A'.toNat + 10)
  else none

/-- The number that hexadecimal digits stand for. -/
def hexNumber? (digits : List Char) : Option Nat :=
  digits.foldlM (fun n c => (hexValue? c).map (16 * n + ·)) 0

/-- The character that a one-letter escape stands for. -/
def escapedChar? (c : Char) : Option Char :=
  match c with
  | '"' => some '"'
  | '\\' => some '\\'
  | '/' => some '/'
  | 'b' => some '\x08'
  | 'f' => some '\x0c'
  | 'n' => some '\n'
  | 'r' => some '\r'
  | 't' => some '\t'
  | _ => none

/-- How escapes are read. -/
structure Dialect where
  /-- The character of a one-letter escape. -/
  letter? : Char → Option Char
  /-- The unit of four characters after a `u`. -/
  unit? : List Char → Option Nat

/-- The units that a body stands for. -/
def units? (dialect : Dialect) : List Char → Option (List Nat)
  | '\\' :: 'u' :: a :: b :: c :: d :: rest => do
    let unit ← dialect.unit? [a, b, c, d]
    let units ← units? dialect rest
    return unit :: units
  | '\\' :: c :: rest => do
    let letter ← dialect.letter? c
    let units ← units? dialect rest
    return Utf16.encode [letter] ++ units
  | c :: rest => do
    if c = '\\' then none
    let units ← units? dialect rest
    return Utf16.encode [c] ++ units
  | [] => some []

/-- The text that a body stands for: escaped units must pair up. -/
def decode? (dialect : Dialect) (body : List Char) : Option (List Char) :=
  (units? dialect body).bind Utf16.decode?

/-- A body and its closing quote begin the text. -/
theorem body?_eq_some {quote : Char} {cs body : List Char} (h : body? quote cs = some body) :
    ∃ rest, cs = body ++ quote :: rest := by
  fun_induction body? quote cs generalizing body with
  | case1 => simp at h
  | case2 rest =>
    simp only [Option.some.injEq] at h
    exact ⟨rest, by simp [← h]⟩
  | case3 => simp at h
  | case4 _ d rest ih =>
    obtain ⟨b, hb, rfl⟩ := Option.map_eq_some_iff.mp h
    obtain ⟨tail, rfl⟩ := ih hb
    exact ⟨tail, by simp⟩
  | case5 c rest _ _ ih =>
    obtain ⟨b, hb, rfl⟩ := Option.map_eq_some_iff.mp h
    obtain ⟨tail, rfl⟩ := ih hb
    exact ⟨tail, by simp⟩

/-- Without a backslash a body stands for itself. -/
theorem units?_plain (dialect : Dialect) {cs : List Char} (h : '\\' ∉ cs) :
    units? dialect cs = some (Utf16.encode cs) := by
  induction cs with
  | nil => rfl
  | cons c rest ih =>
    have hc : c ≠ '\\' := fun h' => h (h' ▸ List.mem_cons_self ..)
    rw [units?, if_neg hc, ih fun h' => h (List.mem_cons_of_mem _ h')]
    · simp [Utf16.encode]
    · simp [hc]
    · simp [hc]

end Formulary.Text.Quoted
