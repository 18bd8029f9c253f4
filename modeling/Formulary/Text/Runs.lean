import Formulary.Text.CharSet

/-!
# Run-length tables over code points

A property of characters is stored as text: labels of a fixed width, each followed by the number of
consecutive code points that carry it. A missing number stands for one. A property that a character
has or lacks needs no labels: the lengths of the runs without it and with it take turns.

## Main definitions

* `Runs.decode` — the runs of a table, each with its first code point
* `Runs.lookup` — the label of a code point, by bisection
* `Runs.select` — the set of the characters with certain labels
* `CharSet.ofLengths` — the set of a table without labels
-/

namespace Formulary.Text

namespace Runs

/-- The value of a string of digits, most significant first. -/
def number (digits : List Char) : Nat :=
  digits.foldl (fun n c => 10 * n + (c.toNat - '0'.toNat)) 0

/-- The runs of `text` from code point `start` on. A label that `read` does not know ends the
table. -/
def decodeFrom {α : Type} (read : String → Option α) (width : Nat) :
    (fuel : Nat) → (start : Nat) → (text : List Char) → List (Nat × α)
  | 0, _, _ => []
  | _ + 1, _, [] => []
  | fuel + 1, start, text =>
    match read (String.ofList (text.take width)) with
    | none => []
    | some label =>
      let rest := text.drop width
      let digits := rest.takeWhile Char.isDigit
      let count := if digits.isEmpty then 1 else number digits
      (start, label) :: decodeFrom read width fuel (start + count) (rest.dropWhile Char.isDigit)

/-- The runs of a table, each with its first code point. -/
def decode {α : Type} (read : String → Option α) (width : Nat) (table : String) :
    Array (Nat × α) :=
  (decodeFrom read width table.length 0 table.toList).toArray

/-- Bisection between `low` and `high` for the last run that starts at or below `n`. -/
def lookupBetween {α : Type} (runs : Array (Nat × α)) (n : Nat) (low high : Nat) : Option α :=
  if high ≤ low + 1 then (runs[low]?).map (·.2)
  else
    let middle := (low + high) / 2
    match runs[middle]? with
    | none => none
    | some (start, _) =>
      if start ≤ n then lookupBetween runs n middle high else lookupBetween runs n low middle
  termination_by high - low

/-- The label of code point `n`. -/
def lookup {α : Type} (runs : Array (Nat × α)) (default : α) (n : Nat) : α :=
  (lookupBetween runs n 0 runs.size).getD default

/-- The first code points of the runs before which the answer to `p` changes. -/
def changes {α : Type} (p : α → Bool) (inside : Bool) : List (Nat × α) → List Nat
  | [] => []
  | (n, label) :: rest =>
    if p label = inside then changes p inside rest else n :: changes p (p label) rest

/-- The characters whose labels satisfy `p`. -/
def select {α : Type} (p : α → Bool) (runs : Array (Nat × α)) : CharSet :=
  .ofBounds (changes p false runs.toList)

end Runs

namespace CharSet

/-- The numbers of a text, which single spaces separate, given the value of the digits already
read. -/
private def numbersFrom (n : Nat) : List Char → List Nat
  | [] => [n]
  | c :: rest =>
    if c == ' ' then n :: numbersFrom 0 rest
    else numbersFrom (10 * n + (c.toNat - '0'.toNat)) rest

/-- The sums of the numbers so far. -/
private def sumsFrom (start : Nat) : List Nat → List Nat
  | [] => []
  | n :: rest => (start + n) :: sumsFrom (start + n) rest

/-- The set of a table: the numbers of code points outside and inside take turns, from zero up. -/
def ofLengths (table : String) : CharSet := ofBounds (sumsFrom 0 (numbersFrom 0 table.toList))

end CharSet

end Formulary.Text
