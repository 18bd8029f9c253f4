import Formulary.Calendar.Template
import Formulary.Proofs.Calendar.Gregorian
import Formulary.Proofs.Number.Written

/-!
# Times to the millisecond

A time is made from a count of milliseconds, and it is printed to the millisecond. This file says
that such a time comes back from its printed form, and that times stand in the order of their
counts.

The printed form is read in two steps. First its parts are taken off one after the other, and each
puts a field. Then the fields determine a day and a clock, and no field contradicts them.

## Implementation notes

What is said of one item of a format is said of the items behind it as well, for any text that
follows. So a printed time is read by the lemmas of its items in a row. Only the year depends on
what follows it: behind a sign it has any number of digits, and the dash is what ends them.

## Main definitions

* `Calendar.DateTime.ToMillis` — a time of the calendar, to the millisecond
* `Calendar.Fields.ofTime` — the fields of its printed form

## Main results

* `Calendar.Item.readAll?_year` — years of any length are read
* `Calendar.DateTime.read?_text` — a printed time is read back
* `Calendar.DateTime.compare_ofMillis?` — times are ordered as their counts
-/

namespace Formulary

open Text
open Lexeme (Digits isBlank_of_isDigit)

/-! ### Numbers of a fixed width -/

namespace Number

theorem toList_padded (width n : Nat) : (padded width n).toList =
    List.replicate (width - (digitsOf n).length) '0' ++ digitsOf n := by
  rw [padded, String.toList_ofList]

theorem digits_padded (width n : Nat) : Digits (padded width n).toList := by
  rw [toList_padded]
  refine ⟨fun hnil => (Literal.digits_digitsOf n).1 (List.append_eq_nil_iff.mp hnil).2,
    fun c hc => ?_⟩
  exact (List.mem_append.mp hc).elim Literal.isDigit_of_mem_zeros isDigit_of_mem_digitsOf

theorem valueOf_padded (width n : Nat) : valueOf (padded width n).toList = n := by
  rw [toList_padded, valueOf_append, valueOf_replicate_zero, Nat.zero_mul, Nat.zero_add,
    valueOf_digitsOf]

/-- A number that is not too wide is written in its width. -/
theorem length_padded {width n : Nat} (hwidth : 0 < width) (h : n < 10 ^ width) :
    (padded width n).toList.length = width := by
  have hcount := (digitCount_le_iff hwidth).mpr h
  rw [digitCount] at hcount
  rw [toList_padded, List.length_append, List.length_replicate]
  omega

end Number

namespace Calendar

open Number

/-! ### Items -/

namespace Item

section

variable {digits rest : List Char}

/-- Digits are taken up to the most that may be, or up to a character that is no digit. -/
theorem takeDigits?_append {least most : Nat} (h : Digits digits) (hleast : least ≤ digits.length)
    (hmost : digits.length ≤ most)
    (hrest : ∀ c ∈ (rest.take (most - digits.length)).head?, c.isDigit = false) :
    takeDigits? least most (digits ++ rest) = some (digits, rest) := by
  have htaken : ((digits ++ rest).take most).takeWhile Char.isDigit = digits := by
    rw [List.take_append, List.take_of_length_le hmost]
    exact takeWhile_append_of_head? h.2 hrest
  rw [takeDigits?, htaken, if_neg (Nat.not_lt.mpr hleast), List.drop_left]

/-- A number in digits has no blanks before it. -/
theorem dropWhile_isBlank_digits (h : Digits digits) (rest : List Char) :
    (digits ++ rest).dropWhile isBlank = digits ++ rest := by
  obtain ⟨c, cs, rfl⟩ := List.exists_cons_of_ne_nil h.1
  rw [List.cons_append, List.dropWhile_cons_of_neg]
  simp [isBlank_of_isDigit (h.2 c (List.mem_cons_self ..))]

/-- A number without a sign has at most so many digits as the item says. -/
theorem read?_unsigned {f : Field} {fields : Fields} {most : Nat} (h : Digits digits)
    (hmost : digits.length ≤ most)
    (hrest : ∀ c ∈ (rest.take (most - digits.length)).head?, c.isDigit = false) :
    (signedNumber f most).read? fields (digits ++ rest) =
      (fields.put f (valueOf digits)).map (·, rest) := by
  have htaken := takeDigits?_append h (List.length_pos_of_ne_nil h.1) hmost hrest
  obtain ⟨c, cs, rfl⟩ := List.exists_cons_of_ne_nil h.1
  have hc : c.isDigit = true := h.2 c (List.mem_cons_self ..)
  rw [read?, dropWhile_isBlank_digits h]
  simp only [List.cons_append] at htaken ⊢
  split
  · next heq => exact absurd (List.cons.inj heq).1 (Decimal.ne_of_isDigit hc rfl)
  · next heq => exact absurd (List.cons.inj heq).1 (Decimal.ne_of_isDigit hc rfl)
  · have hplain : signed false (valueOf (c :: cs)) = valueOf (c :: cs) :=
      if_neg Bool.false_ne_true
    rw [Nat.succ_eq_add_one, Nat.zero_add] at htaken
    simp only [htaken, Option.bind_eq_bind, Option.bind_some, hplain]
    cases fields.put f (valueOf (c :: cs)) <;> rfl

/-- A number behind a sign has any number of digits. -/
theorem read?_signed {f : Field} {fields : Fields} {most : Nat} (negative : Bool)
    (h : Digits digits) (hrest : ∀ c ∈ rest.head?, c.isDigit = false) :
    (signedNumber f most).read? fields ((if negative then '-' else '+') :: (digits ++ rest)) =
      (fields.put f (signed negative (valueOf digits))).map (·, rest) := by
  have hhead : ∀ c ∈ (rest.take ((digits ++ rest).length - digits.length)).head?,
      c.isDigit = false := by
    rw [List.length_append, Nat.add_sub_cancel_left, List.take_length]
    exact hrest
  have hmost : digits.length ≤ (digits ++ rest).length := by
    rw [List.length_append]
    omega
  have htaken := takeDigits?_append h (List.length_pos_of_ne_nil h.1) hmost hhead
  rw [Nat.succ_eq_add_one, Nat.zero_add] at htaken
  cases negative with
  | true =>
    rw [read?, if_pos rfl, List.dropWhile_cons_of_neg (by decide)]
    simp only [htaken, Option.bind_eq_bind, Option.bind_some]
    cases fields.put f (signed true (valueOf digits)) <;> rfl
  | false =>
    rw [read?, if_neg Bool.false_ne_true, List.dropWhile_cons_of_neg (by decide)]
    simp only [htaken, Option.bind_eq_bind, Option.bind_some]
    cases fields.put f (signed false (valueOf digits)) <;> rfl

end

/-- Digits that are as many as may be taken. -/
theorem takeDigits?_padded {least width n : Nat} (hwidth : 0 < width) (hleast : least ≤ width)
    (h : n < 10 ^ width) (rest : List Char) :
    takeDigits? least width ((padded width n).toList ++ rest) =
      some ((padded width n).toList, rest) := by
  have hlength := length_padded hwidth h
  refine takeDigits?_append (digits_padded width n) (by omega) (by omega) ?_
  rw [hlength, Nat.sub_self, List.take_zero]
  intro c hc
  cases hc

/-! ### Formats -/

end Item

namespace Fields

variable {fields : Fields}

@[simp] theorem get_nil (f : Field) : get [] f = none := rfl

@[simp] theorem get_cons (f g : Field) (n : Int) (fields : Fields) :
    get ((g, n) :: fields) f = if f = g then some n else fields.get f := by
  rw [get, List.lookup_cons]
  by_cases h : f = g
  · simp [h]
  · rw [beq_false_of_ne h, if_neg h]
    rfl

theorem put_of_get_eq_none {f : Field} {n : Int} (hget : fields.get f = none)
    (hrange : f.range.1 ≤ n ∧ n ≤ f.range.2) : fields.put f n = some ((f, n) :: fields) := by
  rw [put, if_pos hrange, hget]

theorem putHour_of_get_eq_none {n : Nat} (hhalf : fields.get .halfDay = none)
    (hhour : fields.get .hourOfHalf = none) (h : n < 24) : fields.putHour n =
      some ((.hourOfHalf, (n : Int) % 12) :: (.halfDay, (n : Int) / 12) :: fields) := by
  have hhour' : get ((.halfDay, (n : Int) / 12) :: fields) .hourOfHalf = none := hhour
  have hday : 0 ≤ (n : Int) ∧ (n : Int) < 24 := by omega
  have hrange : 0 ≤ (n : Int) / 12 ∧ (n : Int) / 12 ≤ 1 := by omega
  have hrange' : 0 ≤ (n : Int) % 12 ∧ (n : Int) % 12 ≤ 11 := by omega
  rw [putHour, if_pos hday, put_of_get_eq_none hhalf hrange, Option.bind_eq_bind,
    Option.bind_some, put_of_get_eq_none hhour' hrange']

end Fields

namespace Item

open Fields

variable {items : List Item} {fields : Fields} {rest : List Char}

theorem readAll?_cons {item : Item} {fields' : Fields} {cs : List Char}
    (h : item.read? fields cs = some (fields', rest)) :
    readAll? (item :: items) fields cs = readAll? items fields' rest := by
  rw [readAll?, h]
  rfl

theorem readAll?_char (c : Char) :
    readAll? (char c :: items) fields (c :: rest) = readAll? items fields rest :=
  readAll?_cons (by simp [char, read?, List.isPrefixOf])

/-- A blank before a number is taken. -/
theorem readAll?_blank {digits : List Char} (h : Digits digits) :
    readAll? (blanks :: items) fields (' ' :: (digits ++ rest)) =
      readAll? items fields (digits ++ rest) := by
  refine readAll?_cons ?_
  rw [read?_blanks, List.dropWhile_cons_of_pos (by decide), dropWhile_isBlank_digits h]

theorem readAll?_number {target : Target} {width n : Nat} {fields' : Fields} (hwidth : 0 < width)
    (h : n < 10 ^ width) (hstore : store? target fields n = some fields') :
    readAll? (number target 1 width :: items) fields ((padded width n).toList ++ rest) =
      readAll? items fields' rest := by
  refine readAll?_cons ?_
  rw [read?, dropWhile_isBlank_digits (digits_padded width n), takeDigits?_padded hwidth hwidth h]
  simp only [Option.bind_eq_bind, Option.bind_some, valueOf_padded, hstore]
  rfl

theorem readAll?_field (f : Field) (n : Nat) (hget : fields.get f = none)
    (hrange : f.range.1 ≤ (n : Int) ∧ (n : Int) ≤ f.range.2) (h : n < 100) :
    readAll? (field f 2 :: items) fields ((padded 2 n).toList ++ rest) =
      readAll? items ((f, (n : Int)) :: fields) rest :=
  readAll?_number (by decide) h (put_of_get_eq_none hget hrange)

theorem readAll?_hour {n : Nat} (hhalf : fields.get .halfDay = none)
    (hhour : fields.get .hourOfHalf = none) (h : n < 24) :
    readAll? (hour :: items) fields ((padded 2 n).toList ++ rest) =
      readAll? items ((.hourOfHalf, (n : Int) % 12) :: (.halfDay, (n : Int) / 12) :: fields)
        rest :=
  readAll?_number (by decide) (h.trans (by decide)) (putHour_of_get_eq_none hhalf hhour h)

/-- Milliseconds are read as nanoseconds. -/
theorem readAll?_millis {n : Nat} (hget : fields.get .nano = none) (h : n < 1000) :
    readAll? (fraction (some 3) :: items) fields ('.' :: ((padded 3 n).toList ++ rest)) =
      readAll? items ((.nano, (n : Int) * 1000000) :: fields) rest := by
  have hrange : 0 ≤ (n : Int) * 1000000 ∧ (n : Int) * 1000000 ≤ 999999999 := by omega
  have hwidth : n < 10 ^ 3 := h
  have hnanos : fractionNanos (padded 3 n).toList = (n : Int) * 1000000 := by
    rw [fractionNanos, valueOf_padded, length_padded (by decide) hwidth]
    rfl
  refine readAll?_cons ?_
  rw [read?]
  simp only [Option.getD_some, takeDigits?_padded (by decide) (Nat.le_refl 3) hwidth,
    Option.bind_eq_bind, Option.bind_some, hnanos, put_of_get_eq_none hget hrange]
  rfl

/-- Years of four digits have no sign, and all others have one; either is read. -/
theorem readAll?_year {y : Int} (hget : fields.get .year = none)
    (hrange : -2 ^ 31 ≤ y ∧ y ≤ 2 ^ 31 - 1) :
    readAll? (year :: items) fields ((DateTime.yearText y).toList ++ '-' :: rest) =
      readAll? items ((.year, y) :: fields) ('-' :: rest) := by
  have hput : fields.put .year y = some ((.year, y) :: fields) := put_of_get_eq_none hget hrange
  refine readAll?_cons ?_
  rw [DateTime.yearText, year]
  split
  · next h =>
    have hwidth : y.toNat < 10 ^ 4 := by omega
    have hlength : (padded 4 y.toNat).toList.length = 4 := length_padded (by decide) hwidth
    have hvalue : ((valueOf (padded 4 y.toNat).toList : Nat) : Int) = y := by
      rw [valueOf_padded, Int.toNat_of_nonneg h.1]
    rw [read?_unsigned (digits_padded 4 y.toNat) (Nat.le_of_eq hlength), hvalue, hput]
    · rfl
    · rw [hlength]
      intro c hc
      cases hc
  · have hsign : (if y < 0 then "-" else "+").toList ++ (padded 4 y.natAbs).toList =
        (if decide (y < 0) then '-' else '+') :: (padded 4 y.natAbs).toList := by
      by_cases h : y < 0 <;> simp [h]
    have hvalue : signed (y < 0) (valueOf (padded 4 y.natAbs).toList) = y := by
      rw [valueOf_padded, signed_natAbs]
    rw [String.toList_append, hsign, List.cons_append, read?_signed _ (digits_padded 4 y.natAbs),
      hvalue, hput]
    · rfl
    · rintro _ ⟨⟩
      rfl

/-- The items of the format that times are printed in. -/
def printed : List Item :=
  [year, char '-', month, char '-', day, blanks, hour, char ':', minute, char ':', second,
    fraction (some 3)]

theorem ofFormat?_defaultFormat : ofFormat? DateTime.defaultFormat = some printed := rfl

end Item

/-! ### Times to the millisecond -/

/-- A time of the calendar, to the millisecond. -/
structure DateTime.ToMillis (t : DateTime) : Prop where
  /-- Its day is in the calendar. -/
  day_mem : minDay ≤ t.day ∧ t.day ≤ maxDay
  /-- Its second is one of the day. -/
  second_lt : t.second < 86400
  /-- It is not in a leap second. -/
  nano_lt : t.nano < nanosPerSecond
  /-- Its nanoseconds are milliseconds. -/
  nano_eq : t.nano = t.nano / 1000000 * 1000000

/-- The fields that the written form of a time gives, the last one first. -/
def Fields.ofTime (t : DateTime) : Fields :=
  [(.nano, t.nano), (.second, (t.second % 60 : Nat)), (.minute, (t.second / 60 % 60 : Nat)),
    (.hourOfHalf, ((t.second / 3600 : Nat) : Int) % 12),
    (.halfDay, ((t.second / 3600 : Nat) : Int) / 12), (.day, (Civil.ofDayNumber t.day).day),
    (.month, (Civil.ofDayNumber t.day).month), (.year, (Civil.ofDayNumber t.day).year)]

namespace DateTime

open Fields Item

variable {t : DateTime}

theorem toList_text (h : t.nano < nanosPerSecond) : t.text.toList =
    (yearText (Civil.ofDayNumber t.day).year).toList ++ '-' ::
      ((padded 2 (Civil.ofDayNumber t.day).month).toList ++ '-' ::
      ((padded 2 (Civil.ofDayNumber t.day).day).toList ++ ' ' ::
      ((padded 2 (t.second / 3600)).toList ++ ':' ::
      ((padded 2 (t.second / 60 % 60)).toList ++ ':' ::
      ((padded 2 (t.second % 60)).toList ++ '.' ::
      ((padded 3 (t.nano / 1000000)).toList ++ [])))))) := by
  have hdash : "-".toList = ['-'] := rfl
  have hblank : " ".toList = [' '] := rfl
  have hcolon : ":".toList = [':'] := rfl
  have hpoint : ".".toList = ['.'] := rfl
  simp only [text, Nat.div_eq_of_lt h, Nat.mod_eq_of_lt h, Nat.add_zero, String.toList_append,
    hdash, hblank, hcolon, hpoint, List.append_assoc, List.cons_append, List.nil_append,
    List.append_nil]

/-- The parts of a written time are read one after the other. -/
theorem readAll?_text (h : t.ToMillis) : readAll? printed [] t.text.toList = some (ofTime t) := by
  have hbounds := Civil.bounds_of_isValid (Civil.isValid_ofDayNumber h.day_mem.1 h.day_mem.2)
  have hsecond := h.second_lt
  have hnano : t.nano / 1000000 < 1000 := Nat.div_lt_of_lt_mul h.nano_lt
  have hnano' : ((t.nano / 1000000 : Nat) : Int) * 1000000 = t.nano := by
    exact_mod_cast h.nano_eq.symm
  rw [toList_text h.nano_lt, ofTime, ← hnano']
  generalize Civil.ofDayNumber t.day = c at hbounds ⊢
  obtain ⟨hyear, hmonth, hday⟩ := hbounds
  have hyear' : -2 ^ 31 ≤ c.year ∧ c.year ≤ 2 ^ 31 - 1 := by
    rw [minYear, maxYear] at hyear
    omega
  have hmonth' : 1 ≤ (c.month : Int) ∧ (c.month : Int) ≤ 12 := by omega
  have hday' : 1 ≤ (c.day : Int) ∧ (c.day : Int) ≤ 31 := by omega
  have hminute : 0 ≤ ((t.second / 60 % 60 : Nat) : Int) ∧
      ((t.second / 60 % 60 : Nat) : Int) ≤ 59 := by
    omega
  have hsecond' : 0 ≤ ((t.second % 60 : Nat) : Int) ∧ ((t.second % 60 : Nat) : Int) ≤ 60 := by
    omega
  -- Every item finds its part in front, and its field is not there yet.
  refine (readAll?_year rfl hyear').trans ?_
  refine (readAll?_char '-').trans ((readAll?_field .month c.month rfl hmonth' (by omega)).trans ?_)
  refine (readAll?_char '-').trans ((readAll?_field .day c.day rfl hday' (by omega)).trans ?_)
  refine (readAll?_blank (digits_padded ..)).trans ((readAll?_hour rfl rfl (by omega)).trans ?_)
  refine (readAll?_char ':').trans ((readAll?_field .minute _ rfl hminute (by omega)).trans ?_)
  refine (readAll?_char ':').trans ((readAll?_field .second _ rfl hsecond' (by omega)).trans ?_)
  exact readAll?_millis rfl hnano

/-- The fields of a time determine its day. -/
theorem date?_ofTime (h : t.ToMillis) : (ofTime t).date? = some t.day := by
  have hvalid := Civil.isValid_ofDayNumber h.day_mem.1 h.day_mem.2
  have hcivil : ofCivil? (Civil.ofDayNumber t.day).year (Civil.ofDayNumber t.day).month
      (Civil.ofDayNumber t.day).day = some t.day := by
    rw [ofCivil?, Int.toNat_natCast, Int.toNat_natCast, if_pos hvalid]
    exact congrArg some (Civil.dayNumber_ofDayNumber t.day)
  have hcandidate : (ofTime t).candidate? (some (Civil.ofDayNumber t.day).year) none =
      some t.day :=
    hcivil
  -- Weeks, quarters and days of the year are not given, so nothing of them can contradict the day.
  have hconfirmed : (ofTime t).confirmed t.day = some t.day := by
    simp [confirmed, agreesOnCivil, agreesOnIsoWeek, agreesOnOrdinal, agreesOnYear, agrees, ofTime]
  have hyear : resolveYear ((ofTime t).get .year) ((ofTime t).get .century)
      ((ofTime t).get .yearOfCentury) = some (some (Civil.ofDayNumber t.day).year) :=
    rfl
  rw [date?, hyear]
  exact (congrArg (Option.bind · (ofTime t).confirmed) hcandidate).trans hconfirmed

/-- The fields of a time determine its second and its nanoseconds. -/
theorem clock?_ofTime (t : DateTime) : (ofTime t).clock? = some (t.second, t.nano) := by
  have hleap : ¬((t.second % 60 : Nat) : Int) = 60 := by omega
  have hclock : (ofTime t).clock? = some
      (((((t.second / 3600 : Nat) : Int) / 12 * 12 + ((t.second / 3600 : Nat) : Int) % 12) * 3600 +
        ((t.second / 60 % 60 : Nat) : Int) * 60 +
        if ((t.second % 60 : Nat) : Int) = 60 then 59 else ((t.second % 60 : Nat) : Int)).toNat,
        ((t.nano : Int) + if ((t.second % 60 : Nat) : Int) = 60 then 1000000000 else 0).toNat) :=
    rfl
  rw [hclock, if_neg hleap, if_neg hleap]
  congr 2
  omega

/-- **A written time** is read back. -/
theorem read?_text (h : t.ToMillis) : read? defaultFormat t.text = some t := by
  have hdateTime : (ofTime t).dateTime? = some t := by
    rw [dateTime?, date?_ofTime h, clock?_ofTime t]
    rfl
  rw [read?, ofFormat?_defaultFormat, Option.bind_eq_bind, Option.bind_some, readAll?_text h,
    Option.bind_eq_bind, Option.bind_some, hdateTime]

/-! ### Counts of milliseconds -/

theorem ofMillis?_eq_some_iff {n : Int} : ofMillis? n = some t ↔
    (minDay ≤ n / millisPerDay ∧ n / millisPerDay ≤ maxDay) ∧
      t = ⟨n / millisPerDay, (n % millisPerDay).toNat / 1000,
        (n % millisPerDay).toNat % 1000 * 1000000⟩ := by
  rw [ofMillis?]
  split
  · next h => simp [h, eq_comm]
  · next h => simp [h]

/-- The time of a count is one to the millisecond. -/
theorem toMillis_of_ofMillis? {n : Int} (h : ofMillis? n = some t) : t.ToMillis := by
  obtain ⟨hday, rfl⟩ := ofMillis?_eq_some_iff.mp h
  refine ⟨hday, ?_, ?_, ?_⟩ <;> simp only [millisPerDay, nanosPerSecond] <;> omega

theorem compare_eq_lt_iff {u : DateTime} : t.compare u = .lt ↔
    t.day < u.day ∨ t.day = u.day ∧
      (t.second < u.second ∨ t.second = u.second ∧ t.nano < u.nano) := by
  simp only [compare, Ordering.then_eq_lt, compare_lt_iff_lt, compare_eq_iff_eq]

/-- **Times are ordered as the counts** that they are made from. -/
theorem compare_ofMillis? {u : DateTime} {m n : Int} (ht : ofMillis? m = some t)
    (hu : ofMillis? n = some u) : t.compare u = .lt ↔ m < n := by
  obtain ⟨-, rfl⟩ := ofMillis?_eq_some_iff.mp ht
  obtain ⟨-, rfl⟩ := ofMillis?_eq_some_iff.mp hu
  simp only [compare_eq_lt_iff, millisPerDay]
  omega

end DateTime

end Calendar

end Formulary
