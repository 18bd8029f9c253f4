import Formulary.Calendar.Fields
import Formulary.Text.Search

/-!
# Time formats

A format describes how a time is written: literal text, blanks, and directives that a percent sign
begins. Reading a text by a format takes one item after the other from its front, and the whole
text has to be taken.

## Main definitions

* `Item` — a part of a format
* `Item.ofFormat?` — the items of a format
* `Item.read?` — what an item takes from the front of a text
* `DateTime.read?` — the time written by a text in a format

## Main results

* `Item.read?_blanks` — blanks in a format take any number of blanks
-/

namespace Formulary.Calendar

open Text

/-- What may stand for an offset from the zero meridian. -/
inductive OffsetForm
  /-- A sign, hours and minutes. -/
  | numeric
  /-- The same or `Z`; at the end of a text the minutes may be missing. -/
  | minutesOptional
  /-- A sign, hours and minutes, or `Z`, or `UTC`. -/
  | named
  deriving DecidableEq, Repr

/-- Where the number of a directive goes. -/
inductive Target
  | field (f : Field)
  | hour
  | clockHour
  /-- A day of the week counted from Sunday, which is zero. -/
  | sundayWeekday
  /-- A day of the week counted from Monday, which is one. -/
  | mondayWeekday
  deriving DecidableEq, Repr

/-- A part of a format. -/
inductive Item
  | literal (text : List Char)
  | blanks
  /-- Digits, at least `least` and at most `most` of them, after blanks. -/
  | number (target : Target) (least most : Nat)
  /-- A number of any length with a sign, or of at most `most` digits without one. -/
  | signedNumber (f : Field) (most : Nat)
  | monthName (long : Bool)
  | weekdayName (long : Bool)
  | halfDay
  /-- A point and some digits of a fraction of a second, or nothing. -/
  | fraction (count : Option Nat)
  /-- Exactly so many digits of a fraction of a second. -/
  | fractionDigits (count : Nat)
  | zoneName
  /-- An offset from the zero meridian. -/
  | zoneOffset (form : OffsetForm)
  /-- The separator between date and time. -/
  | separator
  deriving DecidableEq, Repr

namespace Item

/-! ### Formats -/

/-- A number with leading blanks. -/
def field (f : Field) (most : Nat) : Item := number (.field f) 1 most

/-- A literal character. -/
def char (c : Char) : Item := literal [c]

/-- The year, month and day with a separator. -/
def civil (first second third : Item) (c : Char) : List Item :=
  [first, char c, second, char c, third]

/-- The year. -/
def year : Item := signedNumber .year 4

/-- The month. -/
def month : Item := field .month 2

/-- The day of the month. -/
def day : Item := field .day 2

/-- The hour of the day. -/
def hour : Item := number .hour 1 2

/-- The hour on a clock of twelve. -/
def clockHour : Item := number .clockHour 1 2

/-- The minute. -/
def minute : Item := field .minute 2

/-- The second. -/
def second : Item := field .second 2

/-- The year of the century. -/
def yearOfCentury : Item := field .yearOfCentury 2

/-- Hours, minutes and seconds. -/
def clock : List Item := [hour, char ':', minute, char ':', second]

/-- A date and a time in the international form, with an offset. Blanks may stand between most of
its parts. -/
def international : List Item :=
  [year, blanks, char '-', month, blanks, char '-', day, separator, hour, blanks, char ':', minute,
    blanks, char ':', second, fraction none, blanks, zoneOffset .named]

/-- Whether a directive may have a mark that says how it is padded: only single numbers may. -/
def isNumber : List Item → Bool
  | [number ..] | [signedNumber ..] => true
  | _ => false

/-- A bound on digits that no text reaches. -/
def unbounded : Nat := 2 ^ 63

/-- The items of a directive of one letter. -/
def directive? (c : Char) : Option (List Item) :=
  match c with
  | 'A' => some [weekdayName true]
  | 'B' => some [monthName true]
  | 'C' => some [field .century 2]
  | 'D' | 'x' => some (civil month day yearOfCentury '/')
  | 'F' => some (civil year month day '-')
  | 'G' => some [signedNumber .isoYear 4]
  | 'H' | 'k' => some [hour]
  | 'I' | 'l' => some [clockHour]
  | 'M' => some [minute]
  | 'P' | 'p' => some [halfDay]
  | 'R' => some [hour, char ':', minute]
  | 'S' => some [second]
  | 'T' | 'X' => some clock
  | 'U' => some [field .sundayWeek 2]
  | 'V' => some [field .isoWeek 2]
  | 'W' => some [field .mondayWeek 2]
  | 'Y' => some [year]
  | 'Z' => some [zoneName]
  | 'a' => some [weekdayName false]
  | 'b' | 'h' => some [monthName false]
  | 'c' => some ([weekdayName false, blanks, monthName false, blanks, day, blanks] ++ clock ++
      [blanks, year])
  | 'd' | 'e' => some [day]
  | 'f' => some [field .nano 9]
  | 'g' => some [field .isoYearOfCentury 2]
  | 'j' => some [field .dayOfYear 3]
  | 'm' => some [month]
  | 'n' | 't' => some [blanks]
  | 'q' => some [field .quarter 1]
  | 'r' => some [clockHour, char ':', minute, char ':', second, blanks, halfDay]
  | 's' => some [field .timestamp unbounded]
  | 'u' => some [number .mondayWeekday 1 1]
  | 'v' => some [day, char '-', monthName false, char '-', year]
  | 'w' => some [number .sundayWeekday 1 1]
  | 'y' => some [yearOfCentury]
  | 'z' => some [zoneOffset .numeric]
  | '+' => some international
  | '%' => some [char '%']
  | _ => none

/-- The number of digits that a fraction directive may name. -/
def fractionCount? : Char → Option Nat
  | '3' => some 3
  | '6' => some 6
  | '9' => some 9
  | _ => none

/-- The items that begin a format after a percent sign, and how many characters they take. -/
def afterPercent? : List Char → Option (List Item × Nat)
  | '.' :: 'f' :: _ => some ([fraction none], 2)
  | '.' :: c :: 'f' :: _ => (fractionCount? c).map fun n => ([fraction (some n)], 3)
  | ':' :: ':' :: ':' :: 'z' :: _ => some ([zoneOffset .numeric], 4)
  | ':' :: ':' :: 'z' :: _ => some ([zoneOffset .numeric], 3)
  | ':' :: 'z' :: _ => some ([zoneOffset .numeric], 2)
  | '#' :: 'z' :: _ => some ([zoneOffset .minutesOptional], 2)
  | c :: d :: _ =>
    if c == '-' || c == '_' || c == '0' then
      (directive? d).bind fun items => if isNumber items then some (items, 2) else none
    else if d == 'f' && (fractionCount? c).isSome then
      (fractionCount? c).map fun n => ([fractionDigits n], 2)
    else (directive? c).map (·, 1)
  | [c] => (directive? c).map (·, 1)
  | [] => none

/-- The items of a format, `skip` characters of which belong to the item before. Literal text makes
an item for every character. -/
private def itemsFrom? (skip : Nat) : List Char → Option (List Item)
  | [] => some []
  | c :: rest =>
    match skip with
    | skip + 1 => itemsFrom? skip rest
    | 0 =>
      if c == '%' then do
        let (items, n) ← afterPercent? rest
        return items ++ (← itemsFrom? n rest)
      else if isBlank c then (itemsFrom? 0 rest).map (blanks :: ·)
      else (itemsFrom? 0 rest).map (char c :: ·)

/-- The items of a format. -/
def ofFormat? (format : String) : Option (List Item) := itemsFrom? 0 format.toList

/-! ### Reading -/

/-- At least `least` and at most `most` digits from the front, and what follows. -/
def takeDigits? (least most : Nat) (cs : List Char) : Option (List Char × List Char) :=
  let ds := (cs.take most).takeWhile Char.isDigit
  if ds.length < least then none else some (ds, cs.drop ds.length)

/-- Put a number where it goes. -/
def store? (target : Target) (fields : Fields) (n : Int) : Option Fields :=
  match target with
  | .field f => fields.put f n
  | .hour => fields.putHour n
  | .clockHour => fields.putClockHour n
  | .sundayWeekday => if 0 ≤ n ∧ n ≤ 6 then fields.put .weekday ((n + 6) % 7) else none
  | .mondayWeekday => if 1 ≤ n ∧ n ≤ 7 then fields.put .weekday (n - 1) else none

/-- The names of the months. -/
def monthNames : List String :=
  ["january", "february", "march", "april", "may", "june", "july", "august", "september",
    "october", "november", "december"]

/-- The names of the days of the week. -/
def weekdayNames : List String :=
  ["monday", "tuesday", "wednesday", "thursday", "friday", "saturday", "sunday"]

/-- Whether a text begins with a lower-case word, in any case. -/
def startsWithWord (word : List Char) (cs : List Char) : Bool :=
  word.isPrefixOf ((cs.take word.length).map Char.toLower)

/-- The position of the name that a text begins with, by its first three letters, and what follows
it. A long name is taken whole where it is there. -/
def takeName? (long : Bool) (names : List String) (cs : List Char) : Option (Nat × List Char) :=
  match names.findIdx? fun name => startsWithWord (name.toList.take 3) cs with
  | none => none
  | some i =>
    let name := (names[i]?.getD "").toList
    if long && startsWithWord name cs then some (i, cs.drop name.length) else some (i, cs.drop 3)

/-- The nanoseconds of the first digits of a fraction. -/
def fractionNanos (digits : List Char) : Int :=
  Number.valueOf digits * 10 ^ (9 - digits.length)

/-- The minutes of an offset, in seconds. At the end of a text there may be none if the form allows
it. -/
def takeMinutes? (form : OffsetForm) (cs : List Char) : Option (Int × List Char) :=
  if form = .minutesOptional ∧ cs.isEmpty then some (0, cs)
  else do
    let (minutes, rest) ← takeDigits? 2 2 cs
    if Number.valueOf minutes < 60 then return (60 * (Number.valueOf minutes : Int), rest) else none

/-- Hours and minutes of an offset after its sign, in seconds. Colons and blanks may stand between
them. -/
def takeOffset? (form : OffsetForm) (cs : List Char) : Option (Int × List Char) := do
  let (hours, rest) ← takeDigits? 2 2 cs
  let (minutes, rest) ← takeMinutes? form (rest.dropWhile fun c => c == ':' || isBlank c)
  return (3600 * (Number.valueOf hours : Int) + minutes, rest)

/-- An offset from the zero meridian, in seconds, after blanks. -/
def readOffset? (form : OffsetForm) (cs : List Char) : Option (Int × List Char) :=
  match cs.dropWhile isBlank with
  | '+' :: rest => takeOffset? form rest
  | '-' :: rest | '\u2212' :: rest => (takeOffset? form rest).map fun (n, rest) => (-n, rest)
  | cs =>
    if form = .named ∧ startsWithWord ['u', 't', 'c'] cs then some (0, cs.drop 3)
    else if form ≠ .numeric ∧ startsWithWord ['z'] cs then some (0, cs.drop 1)
    else none

/-- What an item takes from the front of a text: the fields with its own, and what follows. -/
def read? (item : Item) (fields : Fields) (cs : List Char) : Option (Fields × List Char) :=
  match item with
  | literal text => if text.isPrefixOf cs then some (fields, cs.drop text.length) else none
  | blanks => some (fields, cs.dropWhile isBlank)
  | number target least most => do
    let (ds, rest) ← takeDigits? least most (cs.dropWhile isBlank)
    return (← store? target fields (Number.valueOf ds), rest)
  | signedNumber f most => do
    let cs := cs.dropWhile isBlank
    let (negative, cs, most) := match cs with
      | '-' :: rest => (true, rest, rest.length)
      | '+' :: rest => (false, rest, rest.length)
      | cs => (false, cs, most)
    let (ds, rest) ← takeDigits? 1 most cs
    return (← fields.put f (Number.signed negative (Number.valueOf ds)), rest)
  | monthName long => do
    let (i, rest) ← takeName? long monthNames cs
    return (← fields.put .month (i + 1), rest)
  | weekdayName long => do
    let (i, rest) ← takeName? long weekdayNames cs
    return (← fields.put .weekday i, rest)
  | halfDay =>
    if startsWithWord ['a', 'm'] cs then (fields.put .halfDay 0).map (·, cs.drop 2)
    else if startsWithWord ['p', 'm'] cs then (fields.put .halfDay 1).map (·, cs.drop 2)
    else none
  | fraction count =>
    match cs with
    | '.' :: rest => do
      let (ds, rest) ← takeDigits? (count.getD 1) (count.getD 9) rest
      let rest := if count.isNone then rest.dropWhile Char.isDigit else rest
      return (← fields.put .nano (fractionNanos ds), rest)
    | _ => some (fields, cs)
  | fractionDigits count => do
    let (ds, rest) ← takeDigits? count count cs
    return (← fields.put .nano (fractionNanos ds), rest)
  | zoneName => some (fields, cs.dropWhile (!isBlank ·))
  | zoneOffset form => do
    let (n, rest) ← readOffset? form cs
    return (← fields.put .offset n, rest)
  | separator =>
    match cs with
    | c :: rest => if c == 'T' || c == 't' || c == ' ' then some (fields, rest) else none
    | [] => none

/-- The fields that a text gives by items; the whole text has to be taken. -/
def readAll? : List Item → Fields → List Char → Option Fields
  | [], fields, cs => if cs.isEmpty then some fields else none
  | item :: rest, fields, cs => do
    let (fields, cs) ← item.read? fields cs
    readAll? rest fields cs

/-- Blanks in a format take any number of blanks. -/
theorem read?_blanks (fields : Fields) (cs : List Char) :
    blanks.read? fields cs = some (fields, cs.dropWhile isBlank) := rfl

end Item

namespace DateTime

/-- The format of printed times. -/
def defaultFormat : String := "%Y-%m-%d %H:%M:%S%.3f"

/-- The time written by a text in a format. Where date and time of day do not both come out, the
date alone counts and the time is midnight. -/
def read? (format text : String) : Option DateTime := do
  let items ← Item.ofFormat? format
  let fields ← Item.readAll? items [] text.toList
  match fields.dateTime? with
  | some t => some t
  | none => fields.date?.map midnight

end DateTime

end Formulary.Calendar
