import Mathlib.Logic.Function.Iterate
import Mathlib.Tactic.IntervalCases

/-!
# The proleptic Gregorian calendar

A date is a year, a month counted from zero and a day counted from one. The
calendar itself is `Date.next`, the day after a given one; everything else is
measured against it.

Main results:

* `dayNumber_next`: the number of days before a date grows by one each day;
* `dayNumber_inj`: two dates of the calendar with one day number are one date;
* `iterate_next`: a later date is reached by counting days from an earlier one;
* `beforeYear_eq`: the days before a year in closed form.
-/

namespace RTThread.Calendar

/-- Every fourth year, except for the centuries that 400 does not divide. -/
def IsLeap (y : Nat) : Prop := y % 4 = 0 ∧ (y % 100 = 0 → y % 400 = 0)

instance : DecidablePred IsLeap := fun _ => inferInstanceAs (Decidable (_ ∧ _))

/-- The leap day a year has. -/
def leapDay (y : Nat) : Nat := if IsLeap y then 1 else 0

def yearDays (y : Nat) : Nat := 365 + leapDay y

def monthDays (y m : Nat) : Nat :=
  [31, 28 + leapDay y, 31, 30, 31, 30, 31, 31, 30, 31, 30, 31].getD m 0

structure Date where
  year : Nat
  month : Nat
  day : Nat

variable {d e : Date} {y m n : Nat}

/-- The calendar has this day. -/
structure Date.Valid (d : Date) : Prop where
  month_lt : d.month < 12
  day_pos : 1 ≤ d.day
  day_le : d.day ≤ monthDays d.year d.month

/-- The day after. -/
def Date.next (d : Date) : Date :=
  if d.day < monthDays d.year d.month then ⟨d.year, d.month, d.day + 1⟩
  else if d.month < 11 then ⟨d.year, d.month + 1, 1⟩
  else ⟨d.year + 1, 0, 1⟩

/-- The days of a year before a month. -/
def beforeMonth (y : Nat) : Nat → Nat
  | 0 => 0
  | m + 1 => beforeMonth y m + monthDays y m

/-- The days before a year, from year 0 on. -/
def beforeYear : Nat → Nat
  | 0 => 0
  | y + 1 => beforeYear y + yearDays y

/-- The days of its year before a date. -/
def Date.yearDay (d : Date) : Nat := beforeMonth d.year d.month + (d.day - 1)

def Date.dayNumber (d : Date) : Nat := beforeYear d.year + d.yearDay

-- --------
-- Months
-- --------

theorem leapDay_le (y : Nat) : leapDay y ≤ 1 := by
  rw [leapDay]
  split <;> omega

theorem beforeMonth_twelve (y : Nat) : beforeMonth y 12 = yearDays y := by
  simp [beforeMonth, monthDays, yearDays]
  omega

theorem monthDays_pos (h : m < 12) : 1 ≤ monthDays y m := by
  rw [monthDays]
  interval_cases m <;> simp only [List.getD_cons_succ, List.getD_cons_zero] <;> omega

theorem beforeMonth_mono (h : m ≤ n) : beforeMonth y m ≤ beforeMonth y n := by
  induction n, h using Nat.le_induction with
  | base => exact Nat.le_refl _
  | succ n _ ih => exact Nat.le_trans ih (Nat.le_add_right _ _)

theorem Date.Valid.yearDay_lt (h : d.Valid) : d.yearDay < yearDays d.year := by
  have hmono : beforeMonth d.year (d.month + 1) ≤ beforeMonth d.year 12 :=
    beforeMonth_mono h.month_lt
  rw [beforeMonth_twelve, beforeMonth] at hmono
  have := h.day_pos
  have := h.day_le
  rw [Date.yearDay]
  omega

/-- In one year the day of the year tells the month and the day. -/
theorem Date.Valid.eq_of_yearDay (h : d.Valid) (h' : e.Valid) (hy : d.year = e.year)
    (hd : d.yearDay = e.yearDay) : d = e := by
  obtain ⟨yd, md, dd⟩ := d
  obtain ⟨ye, me, de⟩ := e
  obtain rfl : yd = ye := hy
  have h1 := h.day_pos
  have h2 := h.day_le
  have h1' := h'.day_pos
  have h2' := h'.day_le
  simp only [Date.yearDay] at hd h1 h2 h1' h2'
  have hm : md = me := by
    -- the earlier month ends before the later one begins
    rcases Nat.lt_trichotomy md me with hlt | heq | hgt
    · have := beforeMonth_mono (y := yd) hlt
      rw [Nat.succ_eq_add_one, beforeMonth] at this
      omega
    · exact heq
    · have := beforeMonth_mono (y := yd) hgt
      rw [Nat.succ_eq_add_one, beforeMonth] at this
      omega
  subst hm
  have : dd = de := by omega
  rw [this]

-- --------
-- Years
-- --------

theorem beforeYear_mono (h : m ≤ n) : beforeYear m ≤ beforeYear n := by
  induction n, h using Nat.le_induction with
  | base => exact Nat.le_refl _
  | succ n _ ih => exact Nat.le_trans ih (Nat.le_add_right _ _)

/-- The days before a year: 365 a year, a leap day in every fourth, not in a century, but in
every fourth century. -/
theorem beforeYear_eq (y : Nat) :
    beforeYear y + (y + 99) / 100 = 365 * y + (y + 3) / 4 + (y + 399) / 400 := by
  induction y with
  | zero => rfl
  | succ y ih =>
    rw [beforeYear, yearDays, leapDay]
    split
    · rename_i hleap
      have := hleap.1
      have := hleap.2
      omega
    · rename_i hleap
      rw [IsLeap] at hleap
      omega

theorem year_unique {a b : Nat} (ha : a < yearDays m) (hb : b < yearDays n)
    (h : beforeYear m + a = beforeYear n + b) : m = n := by
  rcases Nat.lt_trichotomy m n with hlt | heq | hgt
  · have := beforeYear_mono hlt
    rw [Nat.succ_eq_add_one, beforeYear] at this
    omega
  · exact heq
  · have := beforeYear_mono hgt
    rw [Nat.succ_eq_add_one, beforeYear] at this
    omega

theorem dayNumber_inj (h : d.Valid) (h' : e.Valid) (hn : d.dayNumber = e.dayNumber) : d = e := by
  have hy := year_unique h.yearDay_lt h'.yearDay_lt hn
  refine h.eq_of_yearDay h' hy ?_
  rw [Date.dayNumber, Date.dayNumber, hy] at hn
  omega

-- --------
-- Counting days
-- --------

theorem Date.Valid.next (h : d.Valid) : d.next.Valid := by
  have hm := h.month_lt
  rw [Date.next]
  split
  · exact ⟨hm, Nat.le_add_left 1 _, ‹_›⟩
  split
  · exact ⟨by simp only; omega, Nat.le_refl 1, monthDays_pos (by simp only; omega)⟩
  · exact ⟨by simp only; omega, Nat.le_refl 1, monthDays_pos (by simp only; omega)⟩

/-- The day after has the next day number. -/
theorem dayNumber_next (h : d.Valid) : d.next.dayNumber = d.dayNumber + 1 := by
  have h1 := h.day_pos
  have h2 := h.day_le
  have h3 := h.month_lt
  rw [Date.next]
  split
  · simp only [Date.dayNumber, Date.yearDay]
    omega
  split
  · simp only [Date.dayNumber, Date.yearDay, beforeMonth]
    omega
  · -- the last day of December
    have hm : d.month = 11 := by omega
    have hyear : beforeMonth d.year 11 + monthDays d.year 11 = yearDays d.year :=
      beforeMonth_twelve d.year
    have hfirst : beforeMonth (d.year + 1) 0 = 0 := rfl
    rw [hm] at h2
    simp only [Date.dayNumber, Date.yearDay, beforeYear, hfirst, hm] at *
    omega

theorem Date.Valid.iterate (h : d.Valid) (n : Nat) : (Date.next^[n] d).Valid := by
  induction n with
  | zero => exact h
  | succ n ih =>
    rw [Function.iterate_succ_apply']
    exact ih.next

theorem dayNumber_iterate (h : d.Valid) (n : Nat) :
    (Date.next^[n] d).dayNumber = d.dayNumber + n := by
  induction n with
  | zero => rfl
  | succ n ih =>
    rw [Function.iterate_succ_apply', dayNumber_next (h.iterate n), ih]
    omega

theorem iterate_next (h : d.Valid) (h' : e.Valid) (hn : d.dayNumber + n = e.dayNumber) :
    Date.next^[n] d = e :=
  dayNumber_inj (h.iterate n) h' (by rw [dayNumber_iterate h, hn])

end RTThread.Calendar
