import Formulary.Calendar.Civil
import Formulary.Number.Digits

/-!
# Times

A time is a day, a second of the day and the nanoseconds that have passed in it. A leap second is
the second after the last one of a minute: its nanoseconds count on from a thousand million. Times
are ordered as they are written.

## Main definitions

* `DateTime` — a day, a second and nanoseconds
* `DateTime.ofMillis?` — the time a number of milliseconds after the start of 1970
* `DateTime.text` — the written form, to the millisecond
* `DateTime.compare` — the order

## Main results

* `DateTime.compare_self`
* `DateTime.ofMillis?_isSome_iff` — when a millisecond count has a time
-/

namespace Formulary.Calendar

open Number

/-- A time without a zone. -/
structure DateTime where
  /-- The day, counted from the first of January 1970. -/
  day : Int
  /-- The second of the day. -/
  second : Nat
  /-- The nanoseconds of the second; a thousand million and more in a leap second. -/
  nano : Nat
  deriving DecidableEq, Repr, Inhabited

namespace DateTime

/-- Nanoseconds in a second. -/
def nanosPerSecond : Nat := 1000000000

/-- Milliseconds in a day. -/
def millisPerDay : Int := 86400000

/-- The first moment of a day. -/
def midnight (day : Int) : DateTime := ⟨day, 0, 0⟩

/-- The time `millis` milliseconds after the start of 1970, within the calendar. -/
def ofMillis? (millis : Int) : Option DateTime :=
  let day := millis / millisPerDay
  let rest := (millis % millisPerDay).toNat
  if minDay ≤ day ∧ day ≤ maxDay then some ⟨day, rest / 1000, rest % 1000 * 1000000⟩ else none

/-- The order of times: by day, then by second, then by nanoseconds. -/
def compare (a b : DateTime) : Ordering :=
  (Ord.compare a.day b.day).then
    ((Ord.compare a.second b.second).then (Ord.compare a.nano b.nano))

/-- Whether one time comes before another. -/
def less (a b : DateTime) : Bool := a.compare b == .lt

/-- A year in four digits, with a sign outside the years of four digits. -/
def yearText (year : Int) : String :=
  if 0 ≤ year ∧ year ≤ 9999 then padded 4 year.toNat
  else (if year < 0 then "-" else "+") ++ padded 4 year.natAbs

/-- The written form, to the millisecond. A leap second is the sixtieth. -/
def text (t : DateTime) : String :=
  let c := Civil.ofDayNumber t.day
  let seconds := t.second % 60 + t.nano / nanosPerSecond
  yearText c.year ++ "-" ++ padded 2 c.month ++ "-" ++ padded 2 c.day ++ " " ++
    padded 2 (t.second / 3600) ++ ":" ++ padded 2 (t.second / 60 % 60) ++ ":" ++
    padded 2 seconds ++ "." ++ padded 3 (t.nano % nanosPerSecond / 1000000)

theorem compare_self (t : DateTime) : t.compare t = .eq := by
  simp [compare, Ord.compare, compareOfLessAndEq, Ordering.then]

/-- A millisecond count has a time exactly when its day is in the calendar. -/
theorem ofMillis?_isSome_iff {millis : Int} :
    (ofMillis? millis).isSome = true ↔
      minDay ≤ millis / millisPerDay ∧ millis / millisPerDay ≤ maxDay := by
  simp only [ofMillis?]
  split <;> simp_all

end DateTime

end Formulary.Calendar
