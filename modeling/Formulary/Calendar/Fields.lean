import Formulary.Calendar.DateTime
import Formulary.Number.Double

/-!
# Fields of a time

Reading a time collects fields: a year, a month, an hour and so on. A field outside its range is
refused at once, and so is a second value that differs from the first. A date is made from the
first sufficient group of fields and then checked against all others.

## Main definitions

* `Field`, `Fields` — the fields and their values
* `Fields.put` — one more field
* `Fields.date?` — the date that fields determine
* `Fields.clock?` — the time of day that fields determine
* `Fields.dateTime?` — both

## Main results

* `Fields.get_put` — a field that was put is there
-/

namespace Formulary.Calendar

/-- A part of a time. -/
inductive Field
  | year
  | century
  | yearOfCentury
  | isoYear
  | isoCentury
  | isoYearOfCentury
  | quarter
  | month
  | sundayWeek
  | mondayWeek
  | isoWeek
  /-- The day of the week, Monday being zero. -/
  | weekday
  | dayOfYear
  | day
  /-- The half of the day, zero or one. -/
  | halfDay
  | hourOfHalf
  | minute
  | second
  | nano
  /-- Seconds since the start of 1970. -/
  | timestamp
  /-- Seconds east of the zero meridian. -/
  | offset
  deriving DecidableEq, Repr

/-- The least and the greatest value of a field. -/
def Field.range : Field → Int × Int
  | year | isoYear => (-2 ^ 31, 2 ^ 31 - 1)
  | century | isoCentury => (0, 2 ^ 31 - 1)
  | yearOfCentury | isoYearOfCentury => (0, 99)
  | quarter => (1, 4)
  | month => (1, 12)
  | sundayWeek | mondayWeek => (0, 53)
  | isoWeek => (1, 53)
  | weekday => (0, 6)
  | dayOfYear => (1, 366)
  | day => (1, 31)
  | halfDay => (0, 1)
  | hourOfHalf => (0, 11)
  | minute => (0, 59)
  | second => (0, 60)
  | nano => (0, 999999999)
  | timestamp => (-2 ^ 63, 2 ^ 63 - 1)
  | offset => (-2 ^ 31, 2 ^ 31 - 1)

/-- Fields with their values. -/
abbrev Fields := List (Field × Int)

namespace Fields

/-- The value of a field. -/
def get (fields : Fields) (f : Field) : Option Int := List.lookup f fields

/-- One more field, in its range and consistent with the others. -/
def put (fields : Fields) (f : Field) (n : Int) : Option Fields :=
  if f.range.1 ≤ n ∧ n ≤ f.range.2 then
    match fields.get f with
    | none => some ((f, n) :: fields)
    | some m => if m = n then some fields else none
  else none

/-- An hour of the day, as a half and an hour of it. -/
def putHour (fields : Fields) (n : Int) : Option Fields :=
  if 0 ≤ n ∧ n < 24 then do (← fields.put .halfDay (n / 12)).put .hourOfHalf (n % 12) else none

/-- An hour on a clock of twelve; twelve stands for zero. -/
def putClockHour (fields : Fields) (n : Int) : Option Fields :=
  if 1 ≤ n ∧ n ≤ 12 then fields.put .hourOfHalf (n % 12) else none

/-- Whether a field has a value or none at all. -/
def agrees (fields : Fields) (f : Field) (n : Int) : Bool := (fields.get f).all (· == n)

/-- Whether two parts of a year, if given, are those of a year. Negative years have no parts. -/
def agreesOnYear (fields : Fields) (hundreds rest : Field) (year : Int) : Bool :=
  if 0 ≤ year then
    fields.agrees hundreds (year / 100) && fields.agrees rest (year % 100)
  else (fields.get hundreds).isNone && (fields.get rest).isNone

/-! ### Years -/

/-- The first year of the two-digit years of this century. -/
def pivot : Int := 70

/-- The year from a full year, a century and a year of the century. A year of the century alone is
one of the hundred from 1970 on. Fails when the parts contradict each other or do not suffice. -/
def resolveYear (year century yearOfCentury : Option Int) : Option (Option Int) :=
  match year, century, yearOfCentury with
  | y, none, none => some y
  | some y, q, r =>
    if 0 ≤ y && q.all (· == y / 100) && r.all (· == y % 100) then some (some y) else none
  | none, some q, some r => some (some (100 * q + r))
  | none, none, some r => some (some (r + if r < pivot then 2000 else 1900))
  | none, some _, none => none

/-! ### Weeks -/

/-- The day of the year of a day, from one. -/
def dayOfYear (day : Int) : Int := (Civil.ofDayNumber day).dayOfYear + 1

/-- The days since the last day of the week `first`. -/
def daysSince (first : Nat) (day : Int) : Int := ((weekday day : Int) - first) % 7

/-- The week of the year of a day, weeks beginning on the day of the week `first`. -/
def weekOfYear (first : Nat) (day : Int) : Int := (dayOfYear day - daysSince first day + 6) / 7

/-- Sunday, as a day of the week. -/
def sunday : Nat := 6

/-- Monday, as a day of the week. -/
def monday : Nat := 0

/-- The day of the week `d` in a week of a year, weeks beginning on the day of the week `first`. -/
def ofWeek? (year week d : Int) (first : Nat) : Option Int := do
  let start ← ofYearAndDay? year 1
  let firstWeek := 1 + ((first : Int) - weekday start) % 7
  let ordinal := firstWeek + (week - 1) * 7 + (d - first) % 7
  if ordinal ≤ 0 then none else ofYearAndDay? year ordinal.toNat

/-- The year and the week of a day by the rule that a week belongs to the year of its Thursday. -/
def isoWeekOf (day : Int) : Int × Int :=
  let thursday := day - weekday day + 3
  ((Civil.ofDayNumber thursday).year, (dayOfYear thursday - 1) / 7 + 1)

/-- The day of the week `d` in a week, by the same rule. -/
def ofIsoWeek? (year week d : Int) : Option Int :=
  let fourth := (Civil.mk year 1 4).dayNumber
  let day := fourth - weekday fourth + (week - 1) * 7 + d
  if isoWeekOf day = (year, week) ∧ minDay ≤ day ∧ day ≤ maxDay then some day else none

/-! ### Dates -/

/-- Whether the fields of the civil date, if given, are those of a day. -/
def agreesOnCivil (fields : Fields) (day : Int) : Bool :=
  let c := Civil.ofDayNumber day
  fields.agrees .year c.year && fields.agreesOnYear .century .yearOfCentury c.year &&
    fields.agrees .month c.month && fields.agrees .day c.day

/-- Whether the fields of the week date, if given, are those of a day. -/
def agreesOnIsoWeek (fields : Fields) (day : Int) : Bool :=
  let (year, week) := isoWeekOf day
  fields.agrees .isoYear year && fields.agreesOnYear .isoCentury .isoYearOfCentury year &&
    fields.agrees .isoWeek week && fields.agrees .weekday (weekday day)

/-- Whether the day of the year and the weeks of the year, if given, are those of a day. -/
def agreesOnOrdinal (fields : Fields) (day : Int) : Bool :=
  fields.agrees .dayOfYear (dayOfYear day) &&
    fields.agrees .sundayWeek (weekOfYear sunday day) &&
    fields.agrees .mondayWeek (weekOfYear monday day)

/-- The quarter of a day. -/
def quarterOf (day : Int) : Int := ((Civil.ofDayNumber day).month + 2) / 3

/-- A day by its civil date. -/
def ofCivil? (year month day : Int) : Option Int :=
  let c := Civil.mk year month.toNat day.toNat
  if c.isValid then some c.dayNumber else none

/-- A day, if all given fields agree with it. -/
def confirmed (fields : Fields) (day : Int) : Option Int :=
  if fields.agreesOnCivil day && fields.agreesOnIsoWeek day && fields.agreesOnOrdinal day &&
    fields.agrees .quarter (quarterOf day)
  then some day else none

/-- A candidate day: from the month and the day, the day of the year, a week of the year, or a week
by its Thursday, whichever is given first. -/
def candidate? (fields : Fields) (year isoYear : Option Int) : Option Int :=
  match year, fields.get .month, fields.get .day with
  | some y, some m, some d => ofCivil? y m d
  | _, _, _ =>
    match year, fields.get .dayOfYear with
    | some y, some n => ofYearAndDay? y n.toNat
    | _, _ =>
      match year, fields.get .sundayWeek, fields.get .weekday with
      | some y, some w, some d => ofWeek? y w d sunday
      | _, _, _ =>
        match year, fields.get .mondayWeek, fields.get .weekday with
        | some y, some w, some d => ofWeek? y w d monday
        | _, _, _ =>
          match isoYear, fields.get .isoWeek, fields.get .weekday with
          | some y, some w, some d => ofIsoWeek? y w d
          | _, _, _ => none

/-- The day that fields determine, if there is one that agrees with all of them. -/
def date? (fields : Fields) : Option Int := do
  let year ← resolveYear (fields.get .year) (fields.get .century) (fields.get .yearOfCentury)
  let isoYear ← resolveYear (fields.get .isoYear) (fields.get .isoCentury)
    (fields.get .isoYearOfCentury)
  fields.confirmed (← fields.candidate? year isoYear)

/-! ### Times -/

/-- The second of the day and the nanoseconds. Seconds may be missing, but then there is no
fraction; second sixty is a leap second. -/
def clock? (fields : Fields) : Option (Nat × Nat) := do
  let half ← fields.get .halfDay
  let hour ← fields.get .hourOfHalf
  let minute ← fields.get .minute
  let second := (fields.get .second).getD 0
  let nano ← match fields.get .nano, fields.get .second with
    | some n, some _ => some n
    | some _, none => none
    | none, _ => some 0
  let leap := second = 60
  let whole := (half * 12 + hour) * 3600 + minute * 60 + if leap then 59 else second
  return (whole.toNat, (nano + if leap then 1000000000 else 0).toNat)

/-- A time from its day and its clock. -/
def joined (day : Int) (clock : Nat × Nat) : DateTime := ⟨day, clock.1, clock.2⟩

/-- The seconds from the start of 1970 to a time. -/
def timestampOf (t : DateTime) : Int := t.day * 86400 + t.second

/-- The fields with those of a timestamp put in. -/
def withTimestamp? (fields : Fields) (timestamp : Int) : Option Fields := do
  let t ← DateTime.ofMillis? (timestamp * 1000)
  let leap := fields.get .second = some 60
  let timestamp ←
    if leap then
      if t.second % 60 = 59 then some timestamp
      else if t.second % 60 = 0 then some (timestamp - 1)
      else none
    else some timestamp
  let t ← DateTime.ofMillis? (timestamp * 1000)
  let fields ← if leap then some fields else fields.put .second (t.second % 60 : Nat)
  let fields ← fields.put .year (Civil.ofDayNumber t.day).year
  let fields ← fields.put .dayOfYear (dayOfYear t.day)
  let fields ← fields.putHour (t.second / 3600 : Nat)
  fields.put .minute (t.second / 60 % 60 : Nat)

/-- The time that fields determine. -/
def dateTime? (fields : Fields) : Option DateTime :=
  match fields.date?, fields.clock?, fields.get .timestamp with
  | some day, some clock, none => some (joined day clock)
  | some day, some clock, some given =>
    let t := joined day clock
    let leap := DateTime.nanosPerSecond ≤ t.nano
    if given = timestampOf t ∨ (leap ∧ given = timestampOf t + 1) then some t else none
  | _, _, some given => do
    let fields ← fields.withTimestamp? given
    return joined (← fields.date?) (← fields.clock?)
  | _, _, none => none

/-- A field that was put is there. -/
theorem get_put {fields fields' : Fields} {f : Field} {n : Int}
    (h : fields.put f n = some fields') : fields'.get f = some n := by
  rw [put] at h
  split at h
  · split at h
    · obtain rfl := Option.some.inj h
      simp [get]
    · next m hm =>
      split at h
      · next he =>
        obtain rfl := Option.some.inj h
        rw [hm, he]
      · simp at h
  · simp at h

end Fields

end Formulary.Calendar
