/-!
# Civil dates

The proleptic Gregorian calendar: days are numbered from the first of January 1970, and a day is
named by its year, month and day of the month. The calendar is cut off at the years that times are
kept in.

## Main definitions

* `Civil` — a year, a month and a day of the month
* `Civil.dayNumber` — the number of a civil date
* `Civil.ofDayNumber` — the civil date of a day
* `weekday` — the day of the week, Monday first

## Main results

* `Civil.dayNumber_succ` — the day of the month counts days
* `daysBeforeYear_succ` — a year has 365 days, or 366 in a leap year
-/

namespace Formulary.Calendar

/-- A date by year, month and day of the month. -/
structure Civil where
  /-- The year. -/
  year : Int
  /-- The month, from one. -/
  month : Nat
  /-- The day of the month, from one. -/
  day : Nat
  deriving DecidableEq, Repr

/-- Whether a year has a twenty-ninth of February. -/
def isLeap (year : Int) : Bool := year % 4 == 0 && (year % 100 != 0 || year % 400 == 0)

/-- The lengths of the months. -/
def monthLengths (leap : Bool) : List Nat :=
  [31, if leap then 29 else 28, 31, 30, 31, 30, 31, 31, 30, 31, 30, 31]

/-- The number of days of a year. -/
def yearLength (year : Int) : Nat := if isLeap year then 366 else 365

/-- The days from the start of year one to the start of a year. -/
def daysBeforeYear (year : Int) : Int :=
  365 * (year - 1) + (year - 1) / 4 - (year - 1) / 100 + (year - 1) / 400

/-- The days from the start of year one to the start of 1970. -/
def epoch : Int := 719162

/-- The first year of the calendar. -/
def minYear : Int := -262143

/-- The last year of the calendar. -/
def maxYear : Int := 262142

/-- The month and the day that a day of the year falls on, both from one. -/
def monthAndDay : (lengths : List Nat) → (month : Nat) → (dayOfYear : Nat) → Nat × Nat
  | [], month, n => (month, n + 1)
  | length :: rest, month, n =>
    if n < length then (month, n + 1) else monthAndDay rest (month + 1) (n - length)

/-- The year that contains a day, counted from the start of year one. -/
def yearOf (n : Int) : Int :=
  let guess := n * 400 / 146097 + 1
  if n < daysBeforeYear guess then guess - 1
  else if daysBeforeYear (guess + 1) ≤ n then guess + 1
  else guess

namespace Civil

/-- The day of the year, from zero. -/
def dayOfYear (c : Civil) : Nat :=
  ((monthLengths (isLeap c.year)).take (c.month - 1)).foldl (· + ·) 0 + (c.day - 1)

/-- The number of a date, from the first of January 1970. -/
def dayNumber (c : Civil) : Int := daysBeforeYear c.year + c.dayOfYear - epoch

/-- The date of a day. -/
def ofDayNumber (n : Int) : Civil :=
  let days := n + epoch
  let year := yearOf days
  let (month, day) := monthAndDay (monthLengths (isLeap year)) 1 (days - daysBeforeYear year).toNat
  ⟨year, month, day⟩

/-- Whether a date exists in the calendar. -/
def isValid (c : Civil) : Bool :=
  minYear ≤ c.year && c.year ≤ maxYear && 1 ≤ c.month && 1 ≤ c.day &&
    match (monthLengths (isLeap c.year))[c.month - 1]? with
    | some length => c.day ≤ length
    | none => false

end Civil

/-- The number of a day of the year, if the year has it. Days count from one. -/
def ofYearAndDay? (year : Int) (dayOfYear : Nat) : Option Int :=
  if minYear ≤ year ∧ year ≤ maxYear ∧ 1 ≤ dayOfYear ∧ dayOfYear ≤ yearLength year then
    some (daysBeforeYear year + (dayOfYear - 1 : Nat) - epoch)
  else none

/-- The first day of the calendar. -/
def minDay : Int := (Civil.mk minYear 1 1).dayNumber

/-- The last day of the calendar. -/
def maxDay : Int := (Civil.mk maxYear 12 31).dayNumber

/-- The day of the week, Monday being zero. -/
def weekday (day : Int) : Nat := ((day + 3) % 7).toNat

/-! ### Lengths -/

/-- The start of a year lies a year's length after the start of the year before. -/
theorem daysBeforeYear_succ (year : Int) :
    daysBeforeYear (year + 1) = daysBeforeYear year + yearLength year := by
  simp only [daysBeforeYear, yearLength, isLeap, Bool.and_eq_true, Bool.or_eq_true, beq_iff_eq,
    bne_iff_ne]
  split <;> omega

/-- The next day of the same month has the next number. -/
theorem Civil.dayNumber_succ (year : Int) (month day : Nat) (h : 1 ≤ day) :
    (Civil.mk year month (day + 1)).dayNumber = (Civil.mk year month day).dayNumber + 1 := by
  simp only [Civil.dayNumber, Civil.dayOfYear]
  omega

end Formulary.Calendar
