import RTThread.Libc.Time

/-!
# Fields beyond their range in `timegm` (`components/libc/compilers/common/time.c`)

`timegm` carries seconds, minutes and hours on, and then takes months off the days with the
table `__spm`. The table holds the days before each month and not the days of the month, so a
month that is taken off is counted wrongly (`carryMonth_days`), and a run of the loop never comes
back to the day it started from (`Drifted`). The years of the result are those of `tm_year` before
the months are carried.

`timegm_linear_iff`: the time is the one of calendar arithmetic and the fields are its date if and
only if nothing is carried into a month or a year.
-/

namespace RTThread.Libc

open Calendar

-- --------
-- Calendar arithmetic
-- --------

/-- The fields that `timegm` takes: `int`s from 1970 on, none negative, and a day. -/
structure Tm.Taken (t : Tm) : Prop where
  sec : 0 ≤ t.tmSec ∧ t.tmSec < 2 ^ 31
  min : 0 ≤ t.tmMin ∧ t.tmMin < 2 ^ 31
  hour : 0 ≤ t.tmHour ∧ t.tmHour < 2 ^ 31
  mday : 1 ≤ t.tmMday ∧ t.tmMday < 2 ^ 31
  mon : 0 ≤ t.tmMon ∧ t.tmMon < 2 ^ 31
  year : 70 ≤ t.tmYear ∧ t.tmYear < 2 ^ 31

/-- The days from year 0 on that the fields count, whatever the day and for a month of the year. -/
def Tm.days (t : Tm) : Int :=
  beforeYear (t.tmYear + 1900).toNat + beforeMonth (t.tmYear + 1900).toNat t.tmMon.toNat +
    (t.tmMday - 1)

/-- The same fields, with the years in the months carried. -/
def Tm.carried (t : Tm) : Tm := { t with tmYear := t.tmYear + t.tmMon / 12, tmMon := t.tmMon % 12 }

/-- **Calendar arithmetic**: the seconds since the epoch, the fields taken linearly. -/
def Tm.linear (t : Tm) : Int :=
  (t.carried.days - epoch.dayNumber) * 86400 + t.tmHour * 3600 + t.tmMin * 60 + t.tmSec

/-- The fields are in their ranges, with a leap second. -/
structure Tm.InRange (t : Tm) : Prop where
  sec : 0 ≤ t.tmSec ∧ t.tmSec ≤ 60
  min : 0 ≤ t.tmMin ∧ t.tmMin ≤ 59
  hour : 0 ≤ t.tmHour ∧ t.tmHour ≤ 23
  mon : 0 ≤ t.tmMon ∧ t.tmMon ≤ 11
  year : 70 ≤ t.tmYear ∧ t.tmYear < 2 ^ 31
  mday : 1 ≤ t.tmMday ∧ t.tmMday ≤ monthDays (t.tmYear + 1900).toNat t.tmMon.toNat

/-- **The normalised date of an instant**: fields in their ranges that name it, with the day of the
year and of the week. -/
structure Tm.Normalised (t : Tm) (time : Int) : Prop where
  range : t.InRange
  linear : t.linear = time
  yday : t.tmYday = t.days - beforeYear (t.tmYear + 1900).toNat
  wday : t.tmWday = (t.days - epoch.dayNumber + 4) % 7

/-- The days that the hours, minutes and seconds carry. A second 60 stays where it is. -/
def Tm.carriedDays (t : Tm) : Int :=
  (t.tmHour + (t.tmMin + if 60 < t.tmSec then t.tmSec / 60 else 0) / 60) / 24

/-- **What `timegm` gets right**: nothing is carried into a month or a year, `__isleap` gets the
year right where it counts, and the time is a `time_t` of `w` bits. -/
structure Tm.Stays (w : Nat) (t : Tm) : Prop where
  mon : t.tmMon ≤ 11
  mday : t.tmMday + t.carriedDays ≤ monthDays (t.tmYear + 1900).toNat t.tmMon.toNat
  leap : 1 < t.tmMon →
    isleap (toInt (t.tmYear + 1900)) = decide (IsLeap (t.tmYear + 1900).toNat)
  fits : t.linear < 2 ^ (w - 1)

-- --------
-- A round of the loop
-- --------

variable {w : Nat} {t t' : Tm}

theorem carryMonth_fields (t : Tm) : ∃ year mon mday,
    carryMonth t = { t with tmYear := year, tmMon := mon, tmMday := mday } := by
  rw [carryMonth]
  split
  · exact ⟨_, _, _, rfl⟩
  · exact ⟨t.tmYear, _, _, rfl⟩

/-- The day behind a month is `__spm` before it, and the days of the month are what counts. -/
theorem carryMonth_eq (hmon : 0 ≤ t.tmMon ∧ t.tmMon ≤ 11) (hyear : 0 ≤ t.tmYear)
    (hnext : t.tmMon = 11 → t.tmYear < 2 ^ 31 - 1) :
    (carryMonth t).days = t.days + monthDays (t.tmYear + 1900).toNat t.tmMon.toNat -
      spm t.tmMon.toNat - if t.tmMon = 1 ∧ isleap (toInt (t.tmYear + 1900)) then 1 else 0 := by
  have hmday : (if (decide (t.tmMon = 1) && isleap (toInt (t.tmYear + 1900))) = true
      then t.tmMday - 1 else t.tmMday) = t.tmMday -
      if t.tmMon = 1 ∧ isleap (toInt (t.tmYear + 1900)) then 1 else 0 := by
    simp only [Bool.and_eq_true, decide_eq_true_eq]
    split
    · rfl
    · exact (Int.sub_zero _).symm
  rw [carryMonth, hmday]
  by_cases hlast : 11 < t.tmMon + 1
  · have hm : t.tmMon = 11 := by omega
    have htoInt : toInt (t.tmYear + 1) = t.tmYear + 1 :=
      toInt_of_fits (by omega) (by have := hnext hm; omega)
    have hnat : (t.tmYear + 1 + 1900).toNat = (t.tmYear + 1900).toNat + 1 := by omega
    have htwelve := beforeMonth_twelve (t.tmYear + 1900).toNat
    rw [if_pos hlast, Tm.days, Tm.days]
    dsimp only
    rw [htoInt, hnat, hm, beforeYear, ← htwelve]
    change _ = _ + ((beforeMonth (t.tmYear + 1900).toNat 11 : Nat) : Int) + _ +
      (monthDays (t.tmYear + 1900).toNat 11 : Int) - spm 11 - _
    rw [beforeMonth, show beforeMonth ((t.tmYear + 1900).toNat + 1) (Int.toNat 0) = 0 from rfl]
    push_cast
    omega
  · have hnat : (t.tmMon + 1).toNat = t.tmMon.toNat + 1 := by omega
    rw [if_neg hlast, Tm.days, Tm.days]
    dsimp only
    rw [hnat, beforeMonth]
    push_cast
    omega

/-- What a month that is taken off is counted wrongly by. -/
theorem carryMonth_days (hmon : 0 ≤ t.tmMon ∧ t.tmMon ≤ 11) (hyear : 0 ≤ t.tmYear)
    (hnext : t.tmMon = 11 → t.tmYear < 2 ^ 31 - 1) :
    (carryMonth t).days = t.days + 31 ∧ t.tmMon = 0 ∨
      t.days - 4 ≤ (carryMonth t).days ∧ (carryMonth t).days ≤ t.days - 2 ∧ t.tmMon = 1 ∨
      (carryMonth t).days ≤ t.days - 28 ∧ t.tmMon = 2 ∨
      (carryMonth t).days ≤ t.days - 60 ∧ 3 ≤ t.tmMon ∧ t.tmMon ≤ 10 ∨
      (carryMonth t).days ≤ t.days - 303 ∧ t.tmMon = 11 := by
  obtain ⟨m, hm⟩ : ∃ m : Nat, t.tmMon = m := Int.eq_ofNat_of_zero_le hmon.1
  have hlt : m < 12 := by omega
  have hdays := monthDays_eq (t.tmYear + 1900).toNat hlt
  have hleap := leapDay_le (t.tmYear + 1900).toNat
  have hflag : ∀ p : Prop, [Decidable p] → 0 ≤ (if p then (1 : Int) else 0) ∧
      (if p then (1 : Int) else 0) ≤ 1 := by
    intro p _
    split
    · decide
    · decide
  have heq := carryMonth_eq hmon hyear hnext
  have hone := hflag (t.tmMon = 1 ∧ isleap (toInt (t.tmYear + 1900)) = true)
  rw [hm, Int.toNat_natCast, hdays] at heq
  rw [hm] at hone ⊢
  clear hm hmon hnext hdays
  interval_cases m
  all_goals
    simp [spm] at heq
    omega

-- --------
-- A run of the loop
-- --------

/-- How far the days are off behind a round: never back at `days`, but for a day that is not one of
April's. -/
def Drifted (days : Int) (t : Tm) : Prop :=
  t.tmMon = 0 ∧ t.days ≤ days - 200 ∨
    t.tmMon = 1 ∧ (t.days = days + 31 ∨ t.days ≤ days - 169) ∨
    t.tmMon = 2 ∧ t.days ≠ days ∧ t.days ≤ days + 29 ∨
    t.tmMon = 3 ∧ t.days ≤ days + 1 ∧ 32 ≤ t.tmMday ∨
    4 ≤ t.tmMon ∧ t.days ≤ days - 59

/-- The days in front of a round. -/
theorem days_before {days : Int} (h : t.days = days ∨ Drifted days t) :
    (t.tmMon = 0 → t.days = days ∨ t.days ≤ days - 200) ∧
      (t.tmMon = 1 → t.days = days ∨ t.days = days + 31 ∨ t.days ≤ days - 169) ∧
      (t.tmMon = 2 → t.days ≤ days + 29) ∧ (3 ≤ t.tmMon → t.days ≤ days + 1) := by
  rcases h with h | ⟨hm, h⟩ | ⟨hm, h⟩ | ⟨hm, -, h⟩ | ⟨hm, h, -⟩ | ⟨hm, h⟩
  · exact ⟨fun _ => .inl h, fun _ => .inl h, fun _ => by omega, fun _ => by omega⟩
  · exact ⟨fun _ => .inr h, fun _ => by omega, fun _ => by omega, fun _ => by omega⟩
  · exact ⟨fun _ => by omega, fun _ => .inr h, fun _ => by omega, fun _ => by omega⟩
  · exact ⟨fun _ => by omega, fun _ => by omega, fun _ => h, fun _ => by omega⟩
  · exact ⟨fun _ => by omega, fun _ => by omega, fun _ => by omega, fun _ => h⟩
  · exact ⟨fun _ => by omega, fun _ => by omega, fun _ => by omega, fun _ => by omega⟩

/-- Behind a round: the year has gone past the last `int`, or the days are off. -/
structure Rolled (days : Int) (t : Tm) : Prop where
  mon : 0 ≤ t.tmMon ∧ t.tmMon ≤ 11
  mday : t.tmMday < 2 ^ 31
  off : -2 ^ 31 ≤ t.tmYear ∧ t.tmYear < 0 ∧ t.tmYear + t.tmMday < 0 ∨
    0 ≤ t.tmYear ∧ t.tmYear < 2 ^ 31 ∧ Drifted days t

/-- The fields that a round changes. -/
theorem carryMonth_cases (hmon : 0 ≤ t.tmMon ∧ t.tmMon ≤ 11) :
    (carryMonth t).tmMday ≤ t.tmMday - spm t.tmMon.toNat ∧
      (t.tmMon ≠ 1 → (carryMonth t).tmMday = t.tmMday - spm t.tmMon.toNat) ∧
      (t.tmMon = 11 → (carryMonth t).tmMon = 0 ∧ (carryMonth t).tmYear = toInt (t.tmYear + 1)) ∧
      (t.tmMon ≠ 11 → (carryMonth t).tmMon = t.tmMon + 1 ∧ (carryMonth t).tmYear = t.tmYear) := by
  have hflag : (if (decide (t.tmMon = 1) && isleap (toInt (t.tmYear + 1900))) = true
      then t.tmMday - 1 else t.tmMday) ≤ t.tmMday := by
    split
    · omega
    · omega
  have hsame : t.tmMon ≠ 1 → (if (decide (t.tmMon = 1) && isleap (toInt (t.tmYear + 1900))) = true
      then t.tmMday - 1 else t.tmMday) = t.tmMday := by
    intro hne
    rw [decide_eq_false hne, Bool.false_and, if_neg Bool.false_ne_true]
  rw [carryMonth]
  by_cases hlast : 11 < t.tmMon + 1
  · rw [if_pos hlast]
    refine ⟨by dsimp only; omega, fun hne => ?_, fun _ => ⟨rfl, rfl⟩, fun hne => ?_⟩
    · dsimp only
      rw [hsame hne]
    · omega
  · rw [if_neg hlast]
    refine ⟨by dsimp only; omega, fun hne => ?_, fun hm => ?_, fun _ => ⟨rfl, rfl⟩⟩
    · dsimp only
      rw [hsame hne]
    · omega

/-- **One round.** -/
theorem Rolled.step {days : Int} (hmon : 0 ≤ t.tmMon ∧ t.tmMon ≤ 11) (hmday : t.tmMday < 2 ^ 31)
    (hlong : spm (1 + t.tmMon).toNat < t.tmMday)
    (hoff : -2 ^ 31 ≤ t.tmYear ∧ t.tmYear < 0 ∧ t.tmYear + t.tmMday < 0 ∨
      0 ≤ t.tmYear ∧ t.tmYear < 2 ^ 31 ∧ (t.days = days ∨ Drifted days t)) :
    Rolled days (carryMonth t) := by
  obtain ⟨hle, heq, hlast, hnext⟩ := carryMonth_cases hmon
  have hspm : 0 ≤ spm t.tmMon.toNat := spm_mono (Nat.zero_le _) (by omega)
  have hmon' : 0 ≤ (carryMonth t).tmMon ∧ (carryMonth t).tmMon ≤ 11 := by
    by_cases hm : t.tmMon = 11
    · have := hlast hm
      omega
    · have := hnext hm
      omega
  refine ⟨hmon', by omega, ?_⟩
  rcases hoff with ⟨hge, hneg, hsum⟩ | ⟨hge, hlt, hdrift⟩
  · left
    by_cases hm : t.tmMon = 11
    · have hyear := (hlast hm).2
      rw [hm] at hle hlong
      have hdec : spm (Int.toNat 11) = 334 := rfl
      have hend : spm (1 + 11 : Int).toNat = 365 := rfl
      rw [toInt_of_fits (by omega) (by omega)] at hyear
      omega
    · have hyear := (hnext hm).2
      omega
  · by_cases hwrap : t.tmMon = 11 ∧ t.tmYear = 2 ^ 31 - 1
    · left
      have hyear := (hlast hwrap.1).2
      rw [hwrap.2, show toInt (2 ^ 31 - 1 + 1) = -2 ^ 31 from rfl] at hyear
      rw [hwrap.1] at hle
      have hdec : spm (Int.toNat 11) = 334 := rfl
      omega
    · right
      have hfits : t.tmMon = 11 → t.tmYear < 2 ^ 31 - 1 := by omega
      have hyear : 0 ≤ (carryMonth t).tmYear ∧ (carryMonth t).tmYear < 2 ^ 31 := by
        by_cases hm : t.tmMon = 11
        · have hyear := (hlast hm).2
          have := hfits hm
          rw [toInt_of_fits (by omega) (by omega)] at hyear
          omega
        · have hyear := (hnext hm).2
          omega
      refine ⟨hyear.1, hyear.2, ?_⟩
      have hmarch : t.tmMon = 2 → 32 ≤ (carryMonth t).tmMday := by
        intro hm
        have hday := heq (by omega)
        rw [hm] at hday hlong
        have hfeb : spm (Int.toNat 2) = 59 := rfl
        have hend : spm (1 + 2 : Int).toNat = 90 := rfl
        omega
      obtain ⟨hjan, hfeb, hmar, hrest⟩ := days_before hdrift
      have hdays := carryMonth_days hmon hge hfits
      clear hwrap hfits heq hspm hyear hdrift
      unfold Drifted
      rcases hdays with ⟨hd, hm⟩ | ⟨hd, hd', hm⟩ | ⟨hd, hm⟩ | ⟨hd, hm, hm'⟩ | ⟨hd, hm⟩
      · have hn := (hnext (by omega)).1
        have hjan := hjan hm
        exact .inr (.inl ⟨by omega, by omega⟩)
      · have hn := (hnext (by omega)).1
        have hfeb := hfeb hm
        exact .inr (.inr (.inl ⟨by omega, by omega, by omega⟩))
      · have hn := (hnext (by omega)).1
        have hmar := hmar hm
        exact .inr (.inr (.inr (.inl ⟨by omega, by omega, hmarch hm⟩)))
      · have hn := (hnext (by omega)).1
        have hrest := hrest hm
        exact .inr (.inr (.inr (.inr ⟨by omega, by omega⟩)))
      · have hrest := hrest (by omega)
        exact .inl ⟨(hlast hm).1, by omega⟩

theorem Rolled.loop {days : Int} (h : Rolled days t) (hloop : monthLoop t = .ok t') :
    Rolled days t' := by
  induction t using monthLoop.induct with
  | case1 t hmon hlong ih =>
    rw [monthLoop, dif_pos hmon, dif_pos hlong] at hloop
    refine ih (Rolled.step hmon h.mday hlong ?_) hloop
    exact h.off.imp_right fun hoff => ⟨hoff.1, hoff.2.1, .inr hoff.2.2⟩
  | case2 t hmon hlong =>
    rw [monthLoop, dif_pos hmon, dif_neg hlong] at hloop
    obtain rfl := Except.ok.inj hloop
    exact h
  | case3 t hmon => exact absurd h.mon hmon
  | case4 t hmon => exact absurd h.mon hmon

/-- **The loop**: it ends at once, or has rolled over. -/
theorem monthLoop_cases (hmon : 0 ≤ t.tmMon ∧ t.tmMon ≤ 11) (hmday : t.tmMday < 2 ^ 31)
    (hyear : 0 ≤ t.tmYear ∧ t.tmYear < 2 ^ 31) (h : monthLoop t = .ok t') :
    t' = t ∨ Rolled t.days t' := by
  rw [monthLoop, dif_pos hmon] at h
  by_cases hlong : spm (1 + t.tmMon).toNat < t.tmMday
  · rw [dif_pos hlong] at h
    exact .inr ((Rolled.step hmon hmday hlong (.inr ⟨hyear.1, hyear.2, .inl rfl⟩)).loop h)
  · rw [dif_neg hlong] at h
    exact .inl (Except.ok.inj h).symm

/-- What has rolled over is not the normalised date. -/
theorem Rolled.days_ne (h : Rolled t.days t') (hrange : t'.InRange) : t'.days ≠ t.days := by
  have hyear := hrange.year
  have hmday := hrange.mday
  rcases h.off with hoff | ⟨-, -, hoff⟩
  · omega
  · unfold Drifted at hoff
    rcases hoff with hoff | hoff | hoff | ⟨hm, -, hlong⟩ | hoff
    · omega
    · omega
    · omega
    · -- April has 30 days
      rw [hm] at hmday
      have hapril : monthDays (t'.tmYear + 1900).toNat (Int.toNat 3) = 30 := rfl
      omega
    · omega

-- --------
-- The carries
-- --------

/-- A carry: the higher field and the lower one. -/
def carry (high : Prop) [Decidable high] (base hi lo : Int) : Int × Int :=
  if high then (toInt (hi + lo.tdiv base), lo.tmod base) else (hi, lo)

/-- What `timegm` has of the fields in front of its loop. -/
theorem carryFields_eq (t : Tm) :
    let min := carry (60 < t.tmSec) 60 t.tmMin t.tmSec
    let hour := carry (60 ≤ min.1) 60 t.tmHour min.1
    let mday := carry (24 ≤ hour.1) 24 t.tmMday hour.1
    let year := carry (12 ≤ t.tmMon) 12 t.tmYear t.tmMon
    carryFields t = { t with
      tmSec := min.2, tmMin := hour.2, tmHour := mday.2, tmMday := mday.1, tmMon := year.2,
      tmYear := year.1 } := by
  unfold carryFields carry
  dsimp only
  by_cases hsec : 60 < t.tmSec
  · simp only [if_pos hsec]
    split_ifs <;> rfl
  · simp only [if_neg hsec]
    split_ifs <;> rfl

section Carry

variable {high : Prop} [Decidable high] {base hi lo : Int}

/-- A carry that is an `int`. -/
theorem carry_eq (hbase : 1 < base) (hhi : 0 ≤ hi ∧ hi < 2 ^ 31) (hlo : 0 ≤ lo ∧ lo < 2 ^ 31)
    (hint : hi + lo / base < 2 ^ 31) :
    carry high base hi lo = if high then (hi + lo / base, lo % base) else (hi, lo) := by
  have hdiv : 0 ≤ lo / base := Int.ediv_nonneg hlo.1 (by omega)
  rw [carry, Int.tdiv_eq_ediv_of_nonneg hlo.1, Int.tmod_eq_emod_of_nonneg hlo.1,
    toInt_of_fits (by omega) hint]

theorem carry_low {base hi lo : Int} (hlo : 0 ≤ lo) :
    (carry (base ≤ lo) base hi lo).2 = lo % base := by
  unfold carry
  split
  · exact Int.tmod_eq_emod_of_nonneg hlo
  case isFalse hlt => exact (Int.emod_eq_of_lt hlo (by omega)).symm

/-- A carry that is none: the higher field comes out negative. -/
theorem carry_wraps (hhi : 0 ≤ hi ∧ hi < 2 ^ 31) (hlo : 0 ≤ lo ∧ lo < 2 ^ 31)
    (hhigh : high) (hint : 2 ^ 31 ≤ hi + lo / base) : (carry high base hi lo).1 < 0 := by
  have hdiv : lo / base ≤ lo := Int.ediv_le_self _ hlo.1
  have hwrap : toInt (hi + lo / base) = hi + lo / base - 2 ^ 32 := by
    rw [toInt, Int.bmod_eq_iff (by decide)]
    omega
  rw [carry, if_pos hhigh, Int.tdiv_eq_ediv_of_nonneg hlo.1]
  dsimp only
  omega

end Carry

/-- The minutes with what the seconds carry, and the hours with what these carry. -/
def Tm.minutes (t : Tm) : Int := t.tmMin + if 60 < t.tmSec then t.tmSec / 60 else 0

def Tm.hours (t : Tm) : Int := t.tmHour + t.minutes / 60

theorem carriedDays_eq (t : Tm) : t.carriedDays = t.hours / 24 := rfl

/-- The carries are those of arithmetic. -/
structure Carries (t c : Tm) : Prop where
  clock : c.tmHour * 3600 + c.tmMin * 60 + c.tmSec + 86400 * t.carriedDays =
    t.tmHour * 3600 + t.tmMin * 60 + t.tmSec
  sec : 0 ≤ c.tmSec ∧ c.tmSec ≤ 60
  min : 0 ≤ c.tmMin ∧ c.tmMin ≤ 59
  hour : 0 ≤ c.tmHour ∧ c.tmHour ≤ 23
  mday : c.tmMday = t.tmMday + t.carriedDays

theorem carry_minutes (h : t.Taken) (hint : t.minutes < 2 ^ 31) :
    carry (60 < t.tmSec) 60 t.tmMin t.tmSec =
      (t.minutes, if 60 < t.tmSec then t.tmSec % 60 else t.tmSec) := by
  have hsec := h.sec
  have hmin := h.min
  unfold Tm.minutes at hint ⊢
  by_cases hhigh : 60 < t.tmSec
  · rw [if_pos hhigh] at hint
    rw [carry_eq (by decide) hmin hsec hint, if_pos hhigh, if_pos hhigh, if_pos hhigh]
  · rw [carry, if_neg hhigh, if_neg hhigh, if_neg hhigh, Int.add_zero]

theorem carry_whole {base hi lo : Int} (hbase : 1 < base) (hhi : 0 ≤ hi ∧ hi < 2 ^ 31)
    (hlo : 0 ≤ lo ∧ lo < 2 ^ 31) (hint : hi + lo / base < 2 ^ 31) :
    carry (base ≤ lo) base hi lo = (hi + lo / base, lo % base) := by
  rw [carry_eq hbase hhi hlo hint]
  split
  · rfl
  case isFalse hlt =>
    rw [Int.ediv_eq_zero_of_lt hlo.1 (by omega), Int.emod_eq_of_lt hlo.1 (by omega), Int.add_zero]

theorem taken_minutes (h : t.Taken) : 0 ≤ t.minutes ∧ 0 ≤ t.hours ∧ t.minutes < 2 ^ 32 := by
  have hsec := h.sec
  have hmin := h.min
  have hhour := h.hour
  have hminutes : 0 ≤ t.minutes ∧ t.minutes < 2 ^ 32 := by
    unfold Tm.minutes
    split
    · omega
    · omega
  refine ⟨hminutes.1, ?_, hminutes.2⟩
  unfold Tm.hours
  omega

theorem carry_hours (h : t.Taken) (hmin : t.minutes < 2 ^ 31) (hhour : t.hours < 2 ^ 31) :
    carry (60 ≤ t.minutes) 60 t.tmHour t.minutes = (t.hours, t.minutes % 60) :=
  carry_whole (by decide) h.hour ⟨(taken_minutes h).1, hmin⟩ hhour

/-- As long as the carries are `int`s. -/
theorem carries_of_int (h : t.Taken) (hmin : t.minutes < 2 ^ 31) (hhour : t.hours < 2 ^ 31)
    (hmday : t.tmMday + t.carriedDays < 2 ^ 31) :
    Carries t (carryFields t) ∧
      (carryFields t).tmYear = (carry (12 ≤ t.tmMon) 12 t.tmYear t.tmMon).1 ∧
      (carryFields t).tmMon = (carry (12 ≤ t.tmMon) 12 t.tmYear t.tmMon).2 := by
  have hfields := carryFields_eq t
  obtain ⟨hmin0, hhour0, -⟩ := taken_minutes h
  have hsec := h.sec
  have hmday0 := h.mday
  rw [carry_minutes h hmin] at hfields
  dsimp only at hfields
  rw [carry_hours h hmin hhour] at hfields
  dsimp only at hfields
  rw [carry_whole (by decide) ⟨by omega, hmday0.2⟩ ⟨hhour0, hhour⟩ hmday] at hfields
  rw [hfields]
  refine ⟨⟨?_, ?_, ?_, ?_, rfl⟩, rfl, rfl⟩
  · change t.hours % 24 * 3600 + t.minutes % 60 * 60 +
      (if 60 < t.tmSec then t.tmSec % 60 else t.tmSec) + 86400 * (t.hours / 24) = _
    unfold Tm.hours Tm.minutes
    split
    · omega
    · omega
  · dsimp only
    split
    · omega
    · omega
  · dsimp only
    omega
  · change 0 ≤ t.hours % 24 ∧ t.hours % 24 ≤ 23
    omega

/-- What `timegm` leaves tells that the carries were `int`s. -/
theorem carries_of_nonneg (h : t.Taken) (hmin : 0 ≤ (carryFields t).tmMin)
    (hhour : 0 ≤ (carryFields t).tmHour) (hmday : 0 ≤ (carryFields t).tmMday) :
    t.minutes < 2 ^ 31 ∧ t.hours < 2 ^ 31 ∧ t.tmMday + t.carriedDays < 2 ^ 31 := by
  have hfields := carryFields_eq t
  obtain ⟨hmin0, hhour0, -⟩ := taken_minutes h
  have hmday0 := h.mday
  have hminutes : t.minutes < 2 ^ 31 := by
    by_contra hge
    have hhigh : 60 < t.tmSec := by
      by_contra hno
      have := h.min
      rw [Tm.minutes, if_neg hno] at hge
      omega
    rw [Tm.minutes, if_pos hhigh] at hge
    have hneg := @carry_wraps (60 < t.tmSec) _ 60 _ _ h.min h.sec hhigh (by omega)
    have hsame : (carryFields t).tmMin = (carry (60 < t.tmSec) 60 t.tmMin t.tmSec).1 := by
      rw [hfields]
      dsimp only
      rw [carry, if_neg (by omega)]
    omega
  rw [carry_minutes h hminutes] at hfields
  dsimp only at hfields
  have hhours : t.hours < 2 ^ 31 := by
    by_contra hge
    have hhigh : 60 ≤ t.minutes := by
      by_contra hno
      have := h.hour
      rw [Tm.hours] at hge
      omega
    rw [Tm.hours] at hge
    have hneg := @carry_wraps (60 ≤ t.minutes) _ 60 _ _ h.hour ⟨hmin0, hminutes⟩ hhigh (by omega)
    have hsame : (carryFields t).tmHour = (carry (60 ≤ t.minutes) 60 t.tmHour t.minutes).1 := by
      rw [hfields]
      dsimp only
      rw [carry, if_neg (by omega)]
    omega
  rw [carry_hours h hminutes hhours] at hfields
  dsimp only at hfields
  refine ⟨hminutes, hhours, ?_⟩
  by_contra hge
  rw [carriedDays_eq] at hge
  have hhigh : 24 ≤ t.hours := by
    by_contra hno
    omega
  have hneg := @carry_wraps (24 ≤ t.hours) _ 24 _ _ ⟨by omega, hmday0.2⟩ ⟨hhour0, hhours⟩ hhigh
    (by omega)
  have hsame : (carryFields t).tmMday = (carry (24 ≤ t.hours) 24 t.tmMday t.hours).1 := by
    rw [hfields]
  omega

-- --------
-- The result
-- --------

theorem toTime_add (w : Nat) (x y : Int) : toTime w (toTime w x + y) = toTime w (x + y) :=
  Int.bmod_add_bmod

theorem toTime_mul_add (w : Nat) (x y z : Int) :
    toTime w (toTime w x * y + z) = toTime w (x * y + z) := by
  have hmul : toTime w (toTime w x * y) = toTime w (x * y) := Int.bmod_mul_bmod
  rw [← toTime_add w (toTime w x * y), hmul, toTime_add]

theorem afterCenturies_add (years day e : Int) :
    afterCenturies years (day + e) = afterCenturies years day + e := by
  unfold afterCenturies
  split
  · dsimp only
    omega
  · rfl

/-- The day of the year that `timegm` finds. -/
def Tm.foundYday (c : Tm) : Int :=
  toInt (spm c.tmMon.toNat + c.tmMday - 1 +
    if isleap (toInt (c.tmYear + 1900)) ∧ 1 < c.tmMon then 1 else 0)

/-- **The result**, for the fields `c` behind the loop: the years are those of `t`. -/
theorem timegm_value {c : Tm} (hw : 32 ≤ w) (hyear : 70 ≤ t.tmYear ∧ t.tmYear < 2 ^ 31)
    (hloop : monthLoop (carryFields t) = .ok c) (hc : 70 ≤ c.tmYear) (hmon : 0 ≤ c.tmMon) :
    let day := (beforeYear (t.tmYear + 1900).toNat : Int) - epoch.dayNumber + c.foundYday
    timegm w t = .ok (toTime w (((day * 24 + c.tmHour) * 60 + c.tmMin) * 60 + c.tmSec),
      { c with tmYday := c.foundYday, tmWday := (toTime w day + 4).tmod 7 }) := by
  obtain ⟨n, hn⟩ : ∃ n : Nat, t.tmYear - 70 = n := Int.eq_ofNat_of_zero_le (by omega)
  have hpow : (2 : Int) ^ 31 ≤ 2 ^ (w - 1) := by
    exact_mod_cast Nat.pow_le_pow_right (by decide) (by omega : 31 ≤ w - 1)
  have hyears : toTime w (t.tmYear - 70) = n := by
    rw [hn, toTime_of_fits (by omega) (by omega) (by omega)]
  have hday : afterCenturies n (toTime w (n * 365 + ((n : Int) + 1).tdiv 4)) =
      toTime w (n * 365 + ((n : Int) + 1).tdiv 4) - (n * 365 + ((n : Int) + 1).tdiv 4) +
        (beforeYear (t.tmYear + 1900).toNat - epoch.dayNumber) := by
    have hclosed := afterCenturies_eq n
    rw [Nat.cast_succ] at hclosed
    rw [epoch_dayNumber, show (t.tmYear + 1900).toNat = 1970 + n by omega]
    have hsplit := afterCenturies_add n (n * 365 + ((n : Int) + 1).tdiv 4)
      (toTime w (n * 365 + ((n : Int) + 1).tdiv 4) - (n * 365 + ((n : Int) + 1).tdiv 4))
    rw [add_sub_cancel, hclosed] at hsplit
    rw [hsplit]
    push_cast
    omega
  dsimp only
  rw [timegm, hyears, hloop]
  change (if c.tmYear < 70 then _ else _ : Except Fault (Int × Tm)) = _
  rw [if_neg (by omega)]
  rw [if_neg (by omega)]
  dsimp only
  rw [hday]
  have hfound : toTime w (toTime w (n * 365 + ((n : Int) + 1).tdiv 4) -
      (n * 365 + ((n : Int) + 1).tdiv 4) +
        (beforeYear (t.tmYear + 1900).toNat - epoch.dayNumber) + c.foundYday) =
      toTime w (beforeYear (t.tmYear + 1900).toNat - epoch.dayNumber + c.foundYday) := by
    rw [sub_add_eq_add_sub, sub_add_eq_add_sub, add_assoc, add_sub_assoc, toTime_add,
      add_sub_cancel]
  have hseconds : ∀ x : Int, ((x * 24 + c.tmHour) * 60 + c.tmMin) * 60 + c.tmSec =
      x * 86400 + (c.tmHour * 3600 + c.tmMin * 60 + c.tmSec) := fun x => by omega
  change Except.ok (toTime w (((toTime w (_ + c.foundYday) * 24 + c.tmHour) * 60 + c.tmMin) * 60 +
      c.tmSec),
    { c with tmYday := c.foundYday, tmWday := (toTime w (_ + c.foundYday) + 4).tmod 7 }) = _
  rw [hfound, hseconds, hseconds, toTime_mul_add]

section Result

variable {c : Tm}

/-- What `__isleap` has too much. -/
def Tm.leapError (c : Tm) : Int :=
  if 1 < c.tmMon then
    (if isleap (toInt (c.tmYear + 1900)) then 1 else 0) - leapDay (c.tmYear + 1900).toNat
  else 0

theorem leapError_bounds (c : Tm) : -1 ≤ c.leapError ∧ c.leapError ≤ 1 := by
  have hleap := leapDay_le (c.tmYear + 1900).toNat
  unfold Tm.leapError
  split
  · split
    · omega
    · omega
  · omega

theorem leapError_eq_zero : c.leapError = 0 ↔
    (1 < c.tmMon → isleap (toInt (c.tmYear + 1900)) = decide (IsLeap (c.tmYear + 1900).toNat)) := by
  unfold Tm.leapError leapDay
  by_cases hmon : 1 < c.tmMon
  · rw [if_pos hmon]
    by_cases hleap : IsLeap (c.tmYear + 1900).toNat
    · rw [if_pos hleap, decide_eq_true hleap]
      cases isleap (toInt (c.tmYear + 1900)) with
      | true => simp
      | false => simp [hmon]
    · rw [if_neg hleap, decide_eq_false hleap]
      cases isleap (toInt (c.tmYear + 1900)) with
      | true => simp [hmon]
      | false => simp
  · rw [if_neg hmon]
    exact ⟨fun _ h => absurd h hmon, fun _ => rfl⟩

/-- The day of the year, but for that. -/
theorem foundYday_eq (h : c.InRange) :
    c.foundYday = c.days - beforeYear (c.tmYear + 1900).toNat + c.leapError := by
  have hmon := h.mon
  have hmday := h.mday
  have hlt : c.tmMon.toNat < 12 := by omega
  have hbefore := beforeMonth_eq (c.tmYear + 1900).toNat (Nat.le_of_lt hlt)
  have hdays := monthDays_le_spm (y := (c.tmYear + 1900).toNat) hlt
  have hspm : 0 ≤ spm c.tmMon.toNat := spm_mono (Nat.zero_le _) (by omega)
  have hspm' : spm c.tmMon.toNat ≤ 365 := spm_mono (Nat.le_of_lt hlt) (Nat.le_refl 12)
  have hspm'' : spm (c.tmMon.toNat + 1) ≤ 365 := spm_mono hlt (Nat.le_refl 12)
  have hleap := leapDay_le (c.tmYear + 1900).toNat
  have hsum : spm c.tmMon.toNat + c.tmMday - 1 +
      (if isleap (toInt (c.tmYear + 1900)) ∧ 1 < c.tmMon then 1 else 0) =
      c.days - beforeYear (c.tmYear + 1900).toNat + c.leapError := by
    rw [Tm.days, Tm.leapError, hbefore]
    by_cases hm : 1 < c.tmMon
    · simp only [hm, and_true, if_true]
      rw [if_pos (show 2 ≤ c.tmMon.toNat by omega)]
      omega
    · simp only [hm, and_false, if_false]
      rw [if_neg (show ¬ 2 ≤ c.tmMon.toNat by omega)]
      omega
  rw [Tm.foundYday, hsum, toInt_of_fits]
  · rw [← hsum]
    split
    · omega
    · omega
  · rw [← hsum]
    split
    · omega
    · omega

theorem days_bounds (h : c.InRange) :
    (beforeYear (c.tmYear + 1900).toNat : Int) ≤ c.days ∧
      c.days < beforeYear ((c.tmYear + 1900).toNat + 1) := by
  have hmon := h.mon
  have hmday := h.mday
  have hmono : beforeMonth (c.tmYear + 1900).toNat (c.tmMon.toNat + 1) ≤
      beforeMonth (c.tmYear + 1900).toNat 12 := beforeMonth_mono (by omega)
  rw [beforeMonth_twelve, beforeMonth] at hmono
  rw [Tm.days, beforeYear]
  omega

theorem epoch_le (h : 70 ≤ c.tmYear) :
    epoch.dayNumber ≤ beforeYear (c.tmYear + 1900).toNat := by
  have hmono : beforeYear 1970 ≤ beforeYear (c.tmYear + 1900).toNat := beforeYear_mono (by omega)
  have hfirst : epoch.yearDay = 0 := rfl
  rw [Date.dayNumber, hfirst, Nat.add_zero]
  exact hmono

theorem linear_range (h : c.InRange) : c.linear =
    (c.days - epoch.dayNumber) * 86400 + c.tmHour * 3600 + c.tmMin * 60 + c.tmSec := by
  have hmon := h.mon
  have hcarried : c.carried = c := by
    rw [Tm.carried, Int.ediv_eq_zero_of_lt hmon.1 (by omega), Int.emod_eq_of_lt hmon.1 (by omega),
      Int.add_zero]
  rw [Tm.linear, hcarried]

/-- **The result for fields in their ranges**, and how it differs from the instant. -/
theorem timegm_range (hw : 32 ≤ w) (hyear : 70 ≤ t.tmYear ∧ t.tmYear < 2 ^ 31)
    (hloop : monthLoop (carryFields t) = .ok c) (h : c.InRange) :
    let wrong := (beforeYear (c.tmYear + 1900).toNat : Int) - beforeYear (t.tmYear + 1900).toNat -
      c.leapError
    timegm w t = .ok (toTime w (c.linear - wrong * 86400),
      { c with
        tmYday := c.days - beforeYear (c.tmYear + 1900).toNat + c.leapError
        tmWday := (toTime w (c.days - epoch.dayNumber - wrong) + 4).tmod 7 }) := by
  have hvalue := timegm_value hw hyear hloop h.year.1 h.mon.1
  dsimp only at hvalue ⊢
  rw [foundYday_eq h] at hvalue
  rw [hvalue, linear_range h]
  generalize (beforeYear (c.tmYear + 1900).toNat : Int) = a
  generalize (beforeYear (t.tmYear + 1900).toNat : Int) = b
  generalize (epoch.dayNumber : Int) = e
  rw [show b - e + (c.days - a + c.leapError) = c.days - e - (a - b - c.leapError) by omega,
    show (((c.days - e - (a - b - c.leapError)) * 24 + c.tmHour) * 60 + c.tmMin) * 60 + c.tmSec =
      (c.days - e) * 86400 + c.tmHour * 3600 + c.tmMin * 60 + c.tmSec -
        (a - b - c.leapError) * 86400 by omega]

theorem pow_le (hw : 32 ≤ w) : (2 : Int) ^ 31 ≤ 2 ^ (w - 1) := by
  exact_mod_cast Nat.pow_le_pow_right (by decide) (by omega : 31 ≤ w - 1)

/-- The loop has nothing to do. -/
theorem monthLoop_range (h : c.InRange) : monthLoop c = .ok c := by
  have hmon := h.mon
  have hmday := h.mday
  have hdays := monthDays_le_spm (y := (c.tmYear + 1900).toNat) (m := c.tmMon.toNat) (by omega)
  rw [monthLoop, dif_pos hmon, dif_neg]
  rw [show (1 + c.tmMon).toNat = c.tmMon.toNat + 1 by omega]
  omega

theorem monthDays_le {y m : Nat} (h : m < 12) : monthDays y m ≤ 31 := by
  have hleap := leapDay_le y
  rw [monthDays]
  interval_cases m <;> simp only [List.getD_cons_succ, List.getD_cons_zero] <;> omega

/-- Nothing is carried into a month. -/
theorem range_of_stays (h : t.Taken) (hs : t.Stays w) :
    (carryFields t).InRange ∧ (carryFields t).tmYear = t.tmYear ∧
      (carryFields t).tmMon = t.tmMon ∧ (carryFields t).linear = t.linear := by
  have hmon := h.mon
  have hmday := h.mday
  have hle := hs.mday
  have hstay := hs.mon
  have hlen := @monthDays_le (t.tmYear + 1900).toNat t.tmMon.toNat (by omega)
  obtain ⟨hmin0, hhour0, -⟩ := taken_minutes h
  rw [carriedDays_eq] at hle
  have hhours : t.hours < 2 ^ 31 := by omega
  have hminutes : t.minutes < 2 ^ 31 := by
    have hhour := h.hour
    rw [Tm.hours] at hhours hle
    omega
  obtain ⟨hc, hyear, hmonth⟩ := carries_of_int h hminutes hhours (by rw [carriedDays_eq]; omega)
  rw [carry, if_neg (by omega)] at hyear hmonth
  have hday := hc.mday
  have hpos : 0 ≤ t.carriedDays := Int.ediv_nonneg hhour0 (by decide)
  have hrange : (carryFields t).InRange := by
    refine ⟨hc.sec, hc.min, hc.hour, ?_, ?_, ?_⟩
    · rw [hmonth]
      dsimp only
      omega
    · rw [hyear]
      exact h.year
    · rw [hyear, hmonth, hday]
      dsimp only
      exact ⟨by omega, hs.mday⟩
  refine ⟨hrange, hyear, hmonth, ?_⟩
  have hclock := hc.clock
  have hcarried : t.carried = t := by
    rw [Tm.carried, Int.ediv_eq_zero_of_lt hmon.1 (by omega), Int.emod_eq_of_lt hmon.1 (by omega),
      Int.add_zero]
  rw [linear_range hrange, Tm.linear, hcarried, Tm.days, Tm.days, hyear, hmonth, hday]
  dsimp only
  generalize (beforeYear (t.tmYear + 1900).toNat : Int) = a
  generalize (beforeMonth (t.tmYear + 1900).toNat t.tmMon.toNat : Int) = b
  generalize (epoch.dayNumber : Int) = e
  omega

/-- **Fields that stay.** -/
theorem timegm_of_stays (hw : 32 ≤ w) (h : t.Taken) (hs : t.Stays w) :
    ∃ c, timegm w t = .ok (t.linear, c) ∧ c.Normalised t.linear := by
  obtain ⟨hrange, hyear, hmon, hlinear⟩ := range_of_stays h hs
  have hresult := timegm_range hw h.year (monthLoop_range hrange) hrange
  have hleap : (carryFields t).leapError = 0 := by
    rw [leapError_eq_zero, hyear, hmon]
    exact hs.leap
  have hpow := pow_le hw
  have hepoch := epoch_le hrange.year.1
  have hdays := days_bounds hrange
  have hsec := hrange.sec
  have hmin := hrange.min
  have hhour := hrange.hour
  have hfits := hs.fits
  have heq := linear_range hrange
  rw [hlinear] at heq
  have hwrong : (beforeYear ((carryFields t).tmYear + 1900).toNat : Int) -
      beforeYear (t.tmYear + 1900).toNat - (carryFields t).leapError = 0 := by
    rw [hleap, hyear]
    omega
  dsimp only at hresult
  rw [hwrong, hleap, hlinear, Int.zero_mul, Int.sub_zero, Int.sub_zero, Int.add_zero,
    toTime_of_fits (by omega) (by omega) hfits, toTime_of_fits (by omega) (by omega) (by omega),
    Int.tmod_eq_emod_of_nonneg (by omega)] at hresult
  exact ⟨_, hresult, ⟨hrange.sec, hrange.min, hrange.hour, hrange.mon, hrange.year, hrange.mday⟩,
    hlinear, rfl, rfl⟩

/-- The fields of the time of day are not the loop's. -/
theorem monthLoop_clock (h : monthLoop t = .ok c) :
    c.tmSec = t.tmSec ∧ c.tmMin = t.tmMin ∧ c.tmHour = t.tmHour := by
  induction t using monthLoop.induct with
  | case1 t hmon hlong ih =>
    rw [monthLoop, dif_pos hmon, dif_pos hlong] at h
    obtain ⟨year, mon, mday, heq⟩ := carryMonth_fields t
    have hrest := ih h
    rw [heq] at hrest
    exact hrest
  | case2 t hmon hlong =>
    rw [monthLoop, dif_pos hmon, dif_neg hlong] at h
    obtain rfl := Except.ok.inj h
    exact ⟨rfl, rfl, rfl⟩
  | case3 t hmon hlong =>
    rw [monthLoop, dif_neg hmon, if_pos hlong] at h
    obtain rfl := Except.ok.inj h
    exact ⟨rfl, rfl, rfl⟩
  | case4 t hmon hlong =>
    rw [monthLoop, dif_neg hmon, if_neg hlong] at h
    cases h

/-- What `timegm` leaves for a time from 1970 on is what its loop leaves, but for two fields. -/
theorem timegm_loop {time : Int} {t' : Tm} (h : timegm w t = .ok (time, t')) (hrange : t'.InRange) :
    ∃ c, monthLoop (carryFields t) = .ok c ∧ c.InRange ∧ c.linear = t'.linear := by
  rw [timegm] at h
  cases hloop : monthLoop (carryFields t) with
  | error e =>
    rw [hloop] at h
    cases h
  | ok c =>
    rw [hloop] at h
    change (if c.tmYear < 70 then _ else _ : Except Fault (Int × Tm)) = _ at h
    by_cases hyear : c.tmYear < 70
    · rw [if_pos hyear] at h
      obtain rfl : c = t' := congrArg Prod.snd (Except.ok.inj h)
      exact absurd hrange.year.1 (by omega)
    · rw [if_neg hyear] at h
      by_cases hmon : c.tmMon < 0
      · rw [if_pos hmon] at h
        cases h
      · rw [if_neg hmon] at h
        obtain rfl := congrArg Prod.snd (Except.ok.inj h)
        exact ⟨c, rfl, ⟨hrange.sec, hrange.min, hrange.hour, hrange.mon, hrange.year, hrange.mday⟩,
          rfl⟩

/-- **No carry into a month or a year**, if what `timegm` leaves is the normalised date. -/
theorem carry_of_normalised (h : t.Taken) (hloop : monthLoop (carryFields t) = .ok c)
    (hrange : c.InRange) (hlinear : c.linear = t.linear) :
    c = carryFields t ∧ c.tmMday = t.tmMday + t.carriedDays ∧ c.tmMon = t.tmMon % 12 ∧
      c.tmYear = t.tmYear + t.tmMon / 12 := by
  obtain ⟨hsec, hmin, hhour⟩ := monthLoop_clock hloop
  have hmon := h.mon
  have hyear := h.year
  have hmonth : (carryFields t).tmMon = t.tmMon % 12 := by
    rw [carryFields_eq t]
    exact carry_low hmon.1
  have hmonth' : 0 ≤ (carryFields t).tmMon ∧ (carryFields t).tmMon ≤ 11 := by omega
  have hmday : 0 ≤ (carryFields t).tmMday := by
    by_contra hneg
    rw [monthLoop_of_le hmonth' (by omega)] at hloop
    obtain rfl := Except.ok.inj hloop
    exact absurd hrange.mday.1 (by omega)
  -- the carries are `int`s, and so the days are known
  obtain ⟨hminutes, hhours, hint⟩ := carries_of_nonneg h (hmin ▸ hrange.min.1)
    (hhour ▸ hrange.hour.1) hmday
  obtain ⟨hc, hyear', -⟩ := carries_of_int h hminutes hhours hint
  have hday := hc.mday
  have hdays : c.days = t.carried.days + t.carriedDays := by
    have hclock := hc.clock
    rw [linear_range hrange, Tm.linear] at hlinear
    omega
  have hpos : 0 ≤ t.carriedDays := Int.ediv_nonneg (taken_minutes h).2.1 (by decide)
  have hcarried : t.carried.days = beforeYear (t.tmYear + t.tmMon / 12 + 1900).toNat +
      beforeMonth (t.tmYear + t.tmMon / 12 + 1900).toNat (t.tmMon % 12).toNat +
      (t.tmMday - 1) := rfl
  -- the year of the date is an `int`, and so the year carried is
  have hyears : t.tmYear + t.tmMon / 12 < 2 ^ 31 := by
    by_contra hge
    have hlt := hrange.year.2
    have hbefore := (days_bounds hrange).2
    have hmono : beforeYear ((c.tmYear + 1900).toNat + 1) ≤
        beforeYear (t.tmYear + t.tmMon / 12 + 1900).toNat := beforeYear_mono (by omega)
    have hfirst := h.mday.1
    omega
  have hyear'' : (carryFields t).tmYear = t.tmYear + t.tmMon / 12 := by
    rw [hyear', carry_whole (by decide) ⟨by omega, hyear.2⟩ hmon hyears]
  have hsame : (carryFields t).days = c.days := by
    rw [Tm.days, hyear'', hmonth, hday, hdays, hcarried]
    omega
  have heq : c = carryFields t := by
    rcases monthLoop_cases hmonth' (by omega) (by omega) hloop with heq | hrolled
    · exact heq
    · exact absurd hsame.symm (hrolled.days_ne hrange)
  rw [heq]
  exact ⟨rfl, hday, hmonth, hyear''⟩

theorem toTime_lt (hw : 0 < w) (x : Int) : toTime w x < 2 ^ (w - 1) := by
  obtain ⟨v, rfl⟩ : ∃ v, w = v + 1 := ⟨w - 1, by omega⟩
  have hlt : toTime (v + 1) x < ((2 ^ (v + 1) : Nat) + 1) / 2 := Int.bmod_lt (Nat.two_pow_pos _)
  have hhalf : (2 : Nat) ^ (v + 1) = 2 ^ v * 2 := Nat.pow_succ 2 v
  have hcast : ((2 ^ v : Nat) : Int) = 2 ^ v := by push_cast; rfl
  rw [Nat.add_sub_cancel]
  omega

/-- A time that is wrong by whole days is wrong. -/
theorem wrong_eq_zero {time wrong : Int} (hw : 32 ≤ w) (hge : -1 ≤ wrong)
    (hle : (wrong - 1) * 86400 ≤ time) (h : toTime w (time - wrong * 86400) = time) :
    wrong = 0 := by
  have hlt : time < 2 ^ (w - 1) := h ▸ toTime_lt (by omega) (time - wrong * 86400)
  have hpow := pow_le hw
  have hdouble : (2 : Int) ^ w = 2 ^ (w - 1) * 2 := by
    rw [← pow_succ, Nat.sub_add_cancel (by omega)]
  have hcast : ((2 ^ w : Nat) : Int) = 2 ^ w := by push_cast; rfl
  have hdvd : ((2 ^ w : Nat) : Int) ∣ time - (time - wrong * 86400) :=
    ((Int.bmod_eq_iff (Nat.two_pow_pos _)).1 h).2.2
  have hzero : time - (time - wrong * 86400) = 0 :=
    Int.eq_zero_of_dvd_of_natAbs_lt_natAbs hdvd (by omega)
  omega

theorem stays_of_timegm (hw : 32 ≤ w) (h : t.Taken) {t' : Tm}
    (hresult : timegm w t = .ok (t.linear, t')) (hn : t'.Normalised t.linear) : t.Stays w := by
  obtain ⟨c, hloop, hrange, hlinear⟩ := timegm_loop hresult hn.range
  rw [hn.linear] at hlinear
  obtain ⟨-, hday, hmonth, hyear⟩ := carry_of_normalised h hloop hrange hlinear
  have hvalue := timegm_range hw h.year hloop hrange
  dsimp only at hvalue
  rw [hresult, hlinear] at hvalue
  have htime := congrArg Prod.fst (Except.ok.inj hvalue)
  dsimp only at htime
  have hbounds := leapError_bounds c
  have hmono : beforeYear (t.tmYear + 1900).toNat ≤ beforeYear (c.tmYear + 1900).toNat :=
    beforeYear_mono (by have := h.mon; omega)
  have hdays := (days_bounds hrange).1
  have hepoch := epoch_le h.year.1
  have hsec := hrange.sec
  have hmin := hrange.min
  have hhour := hrange.hour
  have hlinear' := linear_range hrange
  rw [hlinear] at hlinear'
  have hzero := wrong_eq_zero hw (by omega) (by omega) htime.symm
  -- not even one year has been carried
  have hmon : t.tmMon ≤ 11 := by
    by_contra hgt
    have hnext : beforeYear ((t.tmYear + 1900).toNat + 1) ≤ beforeYear (c.tmYear + 1900).toNat :=
      beforeYear_mono (by have := h.year; omega)
    rw [beforeYear, yearDays] at hnext
    omega
  have hmon0 := h.mon.1
  have hyear' : c.tmYear = t.tmYear := by omega
  have hmonth' : c.tmMon = t.tmMon := by omega
  refine ⟨hmon, ?_, ?_, ?_⟩
  · rw [← hday, ← hyear', ← hmonth']
    exact hrange.mday.2
  · rw [← hyear', ← hmonth', ← leapError_eq_zero]
    rw [hyear'] at hzero
    omega
  · rw [htime]
    exact toTime_lt (by omega) _

/-- **Fields beyond their range in `timegm`.** For all fields from 1970 on and every `time_t` of at
least 32 bits, the result is the time of calendar arithmetic and the fields left are its normalised
date if and only if `Tm.Stays`. -/
theorem timegm_linear_iff (hw : 32 ≤ w) (h : t.Taken) :
    (∃ t', timegm w t = .ok (t.linear, t') ∧ t'.Normalised t.linear) ↔ t.Stays w := by
  constructor
  · rintro ⟨t', hresult, hn⟩
    exact stays_of_timegm hw h hresult hn
  · exact timegm_of_stays hw h

/-- Seconds, minutes and hours over their ends, on the last of February 1972. -/
theorem timegm_linear_iff_february :
    ∃ t', timegm 32 ⟨3661, 59, 22, 28, 1, 72, 0, 0, 0⟩ =
        .ok ((⟨3661, 59, 22, 28, 1, 72, 0, 0, 0⟩ : Tm).linear, t') ∧
      t'.Normalised (⟨3661, 59, 22, 28, 1, 72, 0, 0, 0⟩ : Tm).linear :=
  (@timegm_linear_iff 32 ⟨3661, 59, 22, 28, 1, 72, 0, 0, 0⟩ (by decide)
    ⟨by decide, by decide, by decide, by decide, by decide, by decide⟩).2
    ⟨by decide, by decide, fun h => absurd h (by decide), by decide +kernel⟩

/-- **The fortieth of January** 1970 is the ninth of February, and not the twelfth of March. -/
theorem fortieth_of_january : ¬ ∀ w t, 32 ≤ w → Tm.Taken t →
    ∃ t', timegm w t = .ok (t.linear, t') ∧ t'.Normalised t.linear := by
  intro h
  obtain ⟨t', hresult, hn⟩ := h 64 ⟨0, 0, 0, 40, 0, 70, 0, 0, 0⟩ (by decide)
    ⟨by decide, by decide, by decide, by decide, by decide, by decide⟩
  have hs := stays_of_timegm (by decide)
    ⟨by decide, by decide, by decide, by decide, by decide, by decide⟩ hresult hn
  exact absurd hs.mday (by decide)

end Result

end RTThread.Libc
