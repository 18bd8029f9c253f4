import Formulary.Calendar.Civil
import Mathlib.Algebra.GroupWithZero.Nat

/-!
# Days and civil dates

Numbering the days and naming them by year, month and day of the month undo each other. The year of
a day is guessed from the mean length of a year, and the guess is out by one at most; the month is
found by counting off the lengths of the months.

## Main results

* `yearOf_spec` — a day lies in its year
* `monthAndDay_spec` — a day of the year lies in its month
* `Civil.dayNumber_ofDayNumber` — the civil date of a day has its number
* `Civil.isValid_ofDayNumber` — within the bounds of the calendar it is a valid date
* `Civil.bounds_of_isValid` — the numbers of a valid date
-/

namespace Formulary.Calendar

/-! ### Years -/

/-- A day lies behind the start of its year and before the start of the next one. -/
theorem yearOf_spec (n : Int) :
    daysBeforeYear (yearOf n) ≤ n ∧ n < daysBeforeYear (yearOf n + 1) := by
  simp only [yearOf]
  -- The guess is a year too late at most, or a year too early at most.
  split
  · next h =>
    simp only [daysBeforeYear] at h ⊢
    omega
  · next h =>
    split
    · next h' =>
      simp only [daysBeforeYear] at h h' ⊢
      omega
    · next h' => exact ⟨Int.not_lt.mp h, Int.not_le.mp h'⟩

theorem daysBeforeYear_mono {a b : Int} (h : a ≤ b) : daysBeforeYear a ≤ daysBeforeYear b := by
  simp only [daysBeforeYear]
  omega

/-! ### Months -/

/-- A day that lies within the months is found in one of them: the months before it are passed by,
and the month itself is long enough. -/
theorem monthAndDay_spec {lengths : List Nat} {n : Nat} (month : Nat) (h : n < lengths.sum) :
    ∃ i d length, monthAndDay lengths month n = (month + i, d + 1) ∧ lengths[i]? = some length ∧
      d < length ∧ (lengths.take i).sum + d = n := by
  induction lengths generalizing month n with
  | nil => exact absurd h (Nat.not_lt_zero n)
  | cons length rest ih =>
    rw [List.sum_cons] at h
    rw [monthAndDay]
    split
    · next hn => exact ⟨0, n, length, rfl, rfl, hn, Nat.zero_add n⟩
    · next hn =>
      have hlater : n - length < rest.sum := by omega
      obtain ⟨i, d, length', hrest, hlength, hd, hsum⟩ := ih (month + 1) hlater
      refine ⟨i + 1, d, length', ?_, hlength, hd, ?_⟩
      · rw [hrest]
        congr 1
        omega
      · rw [List.take_succ_cons, List.sum_cons]
        omega

theorem sum_monthLengths (year : Int) :
    (monthLengths (isLeap year)).sum = yearLength year := by
  rw [yearLength]
  cases isLeap year <;> rfl

/-! ### Dates -/

/-- A month of a year and a day in it, as a civil date. -/
theorem Civil.ofDayNumber_spec (n : Int) :
    ∃ i d length, Civil.ofDayNumber n = ⟨yearOf (n + epoch), i + 1, d + 1⟩ ∧
      (monthLengths (isLeap (yearOf (n + epoch))))[i]? = some length ∧ d < length ∧
      daysBeforeYear (yearOf (n + epoch)) +
        (((monthLengths (isLeap (yearOf (n + epoch)))).take i).sum + d) = n + epoch := by
  obtain ⟨hlow, hhigh⟩ := yearOf_spec (n + epoch)
  rw [daysBeforeYear_succ, ← sum_monthLengths] at hhigh
  have hday : (n + epoch - daysBeforeYear (yearOf (n + epoch))).toNat <
      (monthLengths (isLeap (yearOf (n + epoch)))).sum := by
    omega
  obtain ⟨i, d, length, hfound, hlength, hd, hsum⟩ := monthAndDay_spec 1 hday
  refine ⟨i, d, length, ?_, hlength, hd, by omega⟩
  rw [ofDayNumber]
  dsimp only
  rw [hfound, Nat.add_comm]

/-- **The civil date of a day** has its number. -/
theorem Civil.dayNumber_ofDayNumber (n : Int) : (Civil.ofDayNumber n).dayNumber = n := by
  obtain ⟨i, d, length, hdate, -, -, hsum⟩ := ofDayNumber_spec n
  rw [hdate, dayNumber, dayOfYear, ← List.sum_eq_foldl]
  dsimp only
  rw [Nat.add_sub_cancel, Nat.add_sub_cancel]
  push_cast at hsum ⊢
  omega

/-- A valid date lies in the years of the calendar, and its month and day are numbers of a month
and a day. -/
theorem Civil.bounds_of_isValid {c : Civil} (h : c.isValid = true) :
    (minYear ≤ c.year ∧ c.year ≤ maxYear) ∧ (1 ≤ c.month ∧ c.month ≤ 12) ∧
      1 ≤ c.day ∧ c.day ≤ 31 := by
  rw [isValid] at h
  simp only [Bool.and_eq_true, decide_eq_true_eq] at h
  obtain ⟨⟨⟨hyear, hmonth⟩, hday⟩, hlength⟩ := h
  split at hlength
  · next length hfound =>
    have hmonths : (monthLengths (isLeap c.year)).length = 12 := rfl
    have hindex : c.month - 1 < (monthLengths (isLeap c.year)).length :=
      (List.getElem?_eq_some_iff.mp hfound).1
    have hlengths : ∀ n ∈ monthLengths (isLeap c.year), n ≤ 31 := by
      cases isLeap c.year <;> decide
    have := hlengths length (List.mem_of_getElem? hfound)
    have := of_decide_eq_true hlength
    exact ⟨hyear, by omega, by omega⟩
  · exact absurd hlength Bool.false_ne_true

theorem maxDay_eq : maxDay = daysBeforeYear (maxYear + 1) - 1 - epoch := by decide

theorem minDay_eq : minDay = daysBeforeYear minYear - epoch := by decide

/-- Within the bounds of the calendar the civil date of a day is a valid one. -/
theorem Civil.isValid_ofDayNumber {n : Int} (hmin : minDay ≤ n) (hmax : n ≤ maxDay) :
    (Civil.ofDayNumber n).isValid = true := by
  obtain ⟨i, d, length, hdate, hlength, hd, -⟩ := ofDayNumber_spec n
  obtain ⟨hlow, hhigh⟩ := yearOf_spec (n + epoch)
  rw [minDay_eq] at hmin
  rw [maxDay_eq] at hmax
  have hfirst : minYear ≤ yearOf (n + epoch) := by
    refine Int.not_lt.mp fun hlt => ?_
    have := daysBeforeYear_mono (Int.add_one_le_of_lt hlt)
    omega
  have hlast : yearOf (n + epoch) ≤ maxYear := by
    refine Int.not_lt.mp fun hlt => ?_
    have := daysBeforeYear_mono (Int.add_one_le_of_lt hlt)
    omega
  rw [hdate, isValid]
  simp [hfirst, hlast, hlength]
  omega

end Formulary.Calendar
