import RTThread.Rtdef
import RTThread.Lib.Calendar

/-!
# Calendar time (`components/libc/compilers/common/time.c`)

`gmtime_r`, `localtime_r`, `timegm` and `mktime`. A `time_t` is a signed integer
of `w` bits, whatever the toolchain chooses; the fields of `struct tm` are
`int`s. `gmtime_r` counts the years off in a loop and `timegm` uses a closed
form, and both are measured against counting days from 1 January 1970.

Main results:

* `gmtimeR_utc`: `gmtime_r` is the calendar, as long as the year is an `int`;
* `timegm_of`: `timegm` counts the seconds of a valid date;
* `calendar_inverse`: the two, and the local pair, undo each other.
-/

namespace RTThread.Libc

open Calendar

-- --------
-- The code
-- --------

/-- What a `time_t` of `w` bits keeps of a value. -/
def toTime (w : Nat) (x : Int) : Int := Int.bmod x (2 ^ w)

/-- `struct tm`. -/
structure Tm where
  tmSec : Int
  tmMin : Int
  tmHour : Int
  tmMday : Int
  tmMon : Int
  tmYear : Int
  tmWday : Int
  tmYday : Int
  tmIsdst : Int
deriving DecidableEq

/-- `SPD`, the seconds of a day. -/
abbrev spd : Int := 24 * 60 * 60

/-- `__spm`, the days of a nonleap year before each month. -/
def spm (i : Nat) : Int :=
  [0, 31, 59, 90, 120, 151, 181, 212, 243, 273, 304, 334, 365].getD i 0

/-- `__isleap(year)`. -/
def isleap (year : Int) : Bool :=
  decide (year.tmod 4 = 0) && (decide (year.tmod 100 ≠ 0) || decide (year.tmod 400 = 0))

/-- `tz_is_dst()`. -/
def tzIsDst : Int := 0

/-- The loop over the years: the year of the day `work`, counted from year `i` on, and the day of
that year. The year is a `time_t` here and an `int` in `__isleap`. -/
def yearLoop (i work : Int) : Int × Int :=
  let k := if isleap (toInt i) then 366 else 365
  if k ≤ work then yearLoop (i + 1) (work - k) else (i, work)
termination_by work.toNat
decreasing_by
  have hk : 0 < k := by
    dsimp only [k]
    split <;> decide
  omega

/-- The loop over the months, from the last one down. -/
def monthScan (work : Int) : Nat → Nat
  | 0 => 0
  | i + 1 => if work < spm (i + 1) then monthScan work i else i + 1

/-- `gmtime_r(timep, r)`. -/
def gmtimeR (timep : Int) : Tm :=
  let work := timep.tmod spd
  let sec := work.tmod 60
  let work := work.tdiv 60
  let min := work.tmod 60
  let hour := work.tdiv 60
  let work := timep.tdiv spd
  let wday := (4 + work).tmod 7
  let (i, work) := yearLoop 1970 work
  let year := toInt (i - 1900)
  let yday := toInt work
  let leap := isleap (toInt i) && decide (58 < work)
  let mday := if leap ∧ work = 59 then 2 else 1 -- 29.2.
  let work := if leap then work - 1 else work
  let mon := monthScan work 11
  { tmSec := sec, tmMin := min, tmHour := hour, tmMday := toInt (mday + (work - spm mon)),
    tmMon := mon, tmYear := year, tmWday := wday, tmYday := yday, tmIsdst := tzIsDst }

/-- `localtime_r(t, r)` in the time zone `tz`. -/
def localtimeR (w : Nat) (tz t : Int) : Tm := gmtimeR (toTime w (t + tz * 3600))

/-- The carries `timegm` makes from the seconds up to the years. -/
def carryFields (t : Tm) : Tm :=
  let t := if 60 < t.tmSec then
    { t with tmMin := toInt (t.tmMin + t.tmSec.tdiv 60), tmSec := t.tmSec.tmod 60 } else t
  let t := if 60 ≤ t.tmMin then
    { t with tmHour := toInt (t.tmHour + t.tmMin.tdiv 60), tmMin := t.tmMin.tmod 60 } else t
  let t := if 24 ≤ t.tmHour then
    { t with tmMday := toInt (t.tmMday + t.tmHour.tdiv 24), tmHour := t.tmHour.tmod 24 } else t
  if 12 ≤ t.tmMon then
    { t with tmYear := toInt (t.tmYear + t.tmMon.tdiv 12), tmMon := t.tmMon.tmod 12 } else t

/-- One round of the loop over the days of the month. -/
def carryMonth (t : Tm) : Tm :=
  let leap := decide (t.tmMon = 1) && isleap (toInt (t.tmYear + 1900))
  let mday := (if leap then t.tmMday - 1 else t.tmMday) - spm t.tmMon.toNat
  if 11 < t.tmMon + 1 then { t with tmMday := mday, tmMon := 0, tmYear := toInt (t.tmYear + 1) }
  else { t with tmMday := mday, tmMon := t.tmMon + 1 }

theorem spm_pos : ∀ {i : Nat}, 1 ≤ i → i ≤ 12 → 31 ≤ spm i := by
  intro i h h'
  interval_cases i <;> decide

theorem carryMonth_january {t : Tm} (h : t.tmMon = 0) :
    carryMonth t = { t with tmMon := 1 } := by
  simp [carryMonth, h, spm]

theorem carryMonth_mday_le {t : Tm} (h : 1 ≤ t.tmMon) (h' : t.tmMon ≤ 11) :
    (carryMonth t).tmMday ≤ t.tmMday - 31 := by
  have hs : 31 ≤ spm t.tmMon.toNat := spm_pos (by omega) (by omega)
  rw [carryMonth]
  split <;> simp only <;> split <;> omega

/-- The loop over the days of the month. A negative month reads in front of `__spm`. -/
def monthLoop (t : Tm) : Except Fault Tm :=
  if _h : 0 ≤ t.tmMon ∧ t.tmMon ≤ 11 then
    if _h' : spm (1 + t.tmMon).toNat < t.tmMday then monthLoop (carryMonth t) else .ok t
  else if t.tmMon = -1 ∧ t.tmMday ≤ spm 0 then .ok t
  else .error .badPointer
termination_by t.tmMday.toNat * 2 + if t.tmMon = 0 then 1 else 0
decreasing_by
  -- January takes no day off and is left behind; every other month takes at least 31
  have h1 : 31 ≤ spm (1 + t.tmMon).toNat := spm_pos (by omega) (by omega)
  obtain h0 | h0 : t.tmMon = 0 ∨ 1 ≤ t.tmMon := by omega
  · rw [carryMonth_january h0]
    simp [h0]
  · have := carryMonth_mday_le h0 (by omega)
    split <;> split <;> omega

/-- The leap days that the centuries from 2100 on do not have: three in every 400 years. -/
def afterCenturies (years day : Int) : Int :=
  if 131 ≤ years then
    let years := (years - 131).tdiv 100
    let day := day - (years / 4 * 3 + 1)
    let years := years % 4
    let years := if years = 3 then years - 1 else years
    day - years
  else day

/-- `timegm(t)`: the time, and the fields it leaves in `t`. -/
def timegm (w : Nat) (t : Tm) : Except Fault (Int × Tm) := do
  let years := toTime w (t.tmYear - 70)
  let t ← monthLoop (carryFields t)
  if t.tmYear < 70 then return (-1, t)
  let day := afterCenturies years (toTime w (years * 365 + (years + 1).tdiv 4))
  if t.tmMon < 0 then throw .badPointer
  let leap : Int := if isleap (toInt (t.tmYear + 1900)) ∧ 1 < t.tmMon then 1 else 0
  let yday := toInt (spm t.tmMon.toNat + t.tmMday - 1 + leap)
  let day := toTime w (day + yday)
  let time := toTime w (((day * 24 + t.tmHour) * 60 + t.tmMin) * 60 + t.tmSec)
  return (time, { t with tmYday := yday, tmWday := (day + 4).tmod 7 })

/-- `mktime(t)` in the time zone `tz`. -/
def mktime (w : Nat) (tz : Int) (t : Tm) : Except Fault (Int × Tm) := do
  let (timestamp, t) ← timegm w t
  return (toTime w (timestamp - 3600 * tz), t)

-- --------
-- What the calendar says
-- --------

def epoch : Date := ⟨1970, 0, 1⟩

/-- The fields for a date and the seconds `s` since its midnight. -/
def tmOf (d : Date) (s : Nat) : Tm :=
  { tmSec := s % 60, tmMin := s / 60 % 60, tmHour := s / 3600, tmMday := d.day, tmMon := d.month,
    tmYear := d.year - 1900, tmWday := (4 + (d.dayNumber - epoch.dayNumber : Nat)) % 7,
    tmYday := d.yearDay, tmIsdst := 0 }

/-- The date so many seconds after the epoch, counted day by day. -/
def utcDate (t : Nat) : Date := Date.next^[t / 86400] epoch

/-- The proleptic Gregorian date and time of `t`. -/
def utc (t : Nat) : Tm := tmOf (utcDate t) (t % 86400)

theorem epoch_valid : epoch.Valid := ⟨by decide, by decide, by decide⟩

theorem epoch_dayNumber : epoch.dayNumber = 719528 := by
  have h := beforeYear_eq 1970
  have hy : epoch.yearDay = 0 := rfl
  rw [Date.dayNumber, hy, show epoch.year = 1970 from rfl]
  omega

theorem utcDate_valid (t : Nat) : (utcDate t).Valid := epoch_valid.iterate _

theorem utcDate_dayNumber (t : Nat) : (utcDate t).dayNumber = 719528 + t / 86400 := by
  rw [utcDate, dayNumber_iterate epoch_valid, epoch_dayNumber]

-- --------
-- Years
-- --------

theorem isleap_eq (y : Nat) : isleap y = decide (IsLeap y) := by
  rw [isleap, Int.tmod_eq_emod_of_nonneg (by omega), Int.tmod_eq_emod_of_nonneg (by omega),
    Int.tmod_eq_emod_of_nonneg (by omega), Bool.eq_iff_iff]
  have h4 : (y : Int) % 4 = 0 ↔ y % 4 = 0 := by omega
  have h100 : (y : Int) % 100 = 0 ↔ y % 100 = 0 := by omega
  have h400 : (y : Int) % 400 = 0 ↔ y % 400 = 0 := by omega
  have hleap : IsLeap y ↔ y % 4 = 0 ∧ (y % 100 ≠ 0 ∨ y % 400 = 0) := by
    rw [IsLeap, imp_iff_not_or]
  simp only [Bool.and_eq_true, Bool.or_eq_true, decide_eq_true_eq, ne_eq, h4, h100, h400, hleap]

/-- `__isleap` gets the years from `y` on, up to `y + n`, right. -/
def LeapsRight (y n : Nat) : Prop := ∀ k < n, isleap (toInt (y + k : Nat)) = decide (IsLeap (y + k))

theorem leapsRight_int {y n : Nat} (h : y + n ≤ 2 ^ 31) : LeapsRight y n := by
  intro k hk
  rw [toInt_of_fits (by omega) (by omega), isleap_eq]

theorem yearLoop_eq (i work : Int) :
    yearLoop i work = if (if isleap (toInt i) then 366 else 365) ≤ work then
      yearLoop (i + 1) (work - if isleap (toInt i) then 366 else 365) else (i, work) := by
  conv_lhs => unfold yearLoop

theorem yearLength_eq {y : Nat} (h : isleap (toInt (y + 0 : Nat)) = decide (IsLeap (y + 0))) :
    (if isleap (toInt y) then (366 : Int) else 365) = yearDays y := by
  rw [Nat.add_zero] at h
  rw [h, yearDays, leapDay]
  split <;> simp_all

/-- The loop takes off the years that the day has behind it. -/
theorem yearLoop_advance {y n : Nat} (h : LeapsRight y n) (r : Nat) :
    yearLoop y ((beforeYear (y + n) - beforeYear y + r : Nat) : Int) =
      yearLoop (y + n : Nat) r := by
  induction n generalizing y with
  | zero => simp
  | succ n ih =>
    have h0 := h 0 (by omega)
    have htail : LeapsRight (y + 1) n := by
      intro k hk
      have := h (k + 1) (by omega)
      rwa [show y + 1 + k = y + (k + 1) by omega]
    have hmono : beforeYear (y + 1) ≤ beforeYear (y + 1 + n) := beforeYear_mono (by omega)
    have hyear : beforeYear (y + 1) = beforeYear y + yearDays y := rfl
    have hk := yearLength_eq h0
    have hrest : ((beforeYear (y + 1 + n) - beforeYear y + r : Nat) : Int) - yearDays y =
        (beforeYear (y + 1 + n) - beforeYear (y + 1) + r : Nat) := by omega
    rw [show y + (n + 1) = y + 1 + n by omega, yearLoop_eq, hk, if_pos (by omega), hrest,
      ← ih htail, Nat.cast_succ]

theorem yearLoop_stop {y r : Nat} (h : LeapsRight y 1) (hr : r < yearDays y) :
    yearLoop y r = ((y : Int), (r : Int)) := by
  rw [yearLoop_eq, yearLength_eq (h 0 (by omega)), if_neg (by omega)]

/-- The loop finds the year of a date and the day of the year. -/
theorem yearLoop_date {d : Date} (hd : d.Valid) (hy : 1970 ≤ d.year) (hy' : d.year < 2 ^ 31) :
    yearLoop 1970 ((d.dayNumber - beforeYear 1970 : Nat) : Int) =
      ((d.year : Int), (d.yearDay : Int)) := by
  have hle := beforeYear_mono hy
  have hsplit : d.dayNumber - beforeYear 1970 =
      beforeYear d.year - beforeYear 1970 + d.yearDay := by
    rw [Date.dayNumber]
    omega
  have hadv := yearLoop_advance (y := 1970) (n := d.year - 1970) (leapsRight_int (by omega))
    d.yearDay
  rw [Nat.add_sub_cancel' hy, yearLoop_stop (leapsRight_int (by omega)) hd.yearDay_lt] at hadv
  rw [hsplit]
  exact hadv

-- --------
-- Months
-- --------

theorem beforeMonth_eq {m : Nat} (y : Nat) (h : m ≤ 12) :
    (beforeMonth y m : Int) = spm m + if 2 ≤ m then (leapDay y : Int) else 0 := by
  interval_cases m <;> simp [beforeMonth, monthDays, spm] <;> omega

theorem monthDays_eq {m : Nat} (y : Nat) (h : m < 12) :
    (monthDays y m : Int) = spm (m + 1) - spm m + if m = 1 then (leapDay y : Int) else 0 := by
  interval_cases m <;> simp [monthDays, spm]

theorem spm_mono {i j : Nat} (h : i ≤ j) (hj : j ≤ 12) : spm i ≤ spm j := by
  have h1 := beforeMonth_eq 1 (Nat.le_trans h hj)
  have h2 := beforeMonth_eq 1 hj
  have h3 : beforeMonth 1 i ≤ beforeMonth 1 j := beforeMonth_mono h
  rw [show leapDay 1 = 0 from rfl] at h1 h2
  simp only [Nat.cast_zero, ite_self, add_zero] at h1 h2
  omega

/-- The month found is the last one that begins no later. -/
theorem monthScan_eq {work : Int} {m n : Nat} (hn : m ≤ n) (hm : spm m ≤ work)
    (h : ∀ i, m < i → i ≤ n → work < spm i) : monthScan work n = m := by
  induction n with
  | zero => exact (Nat.le_zero.mp hn).symm
  | succ n ih =>
    rw [monthScan]
    rcases Nat.lt_or_ge m (n + 1) with hlt | hge
    · rw [if_pos (h _ hlt (Nat.le_refl _))]
      exact ih (by omega) fun i hi hin => h i hi (by omega)
    · have : m = n + 1 := by omega
      subst this
      rw [if_neg (by omega)]

theorem monthScan_of_between {work : Int} {m : Nat} (hm : m ≤ 11) (h : spm m ≤ work)
    (h' : work < spm (m + 1)) : monthScan work 11 = m :=
  monthScan_eq hm h fun _ hi hin => lt_of_lt_of_le h' (spm_mono hi (by omega))

/-- The day of the year with the leap day taken out, and the day of the month it starts from. -/
theorem month_fields {d : Date} (hd : d.Valid) {leap : Bool} {work : Int}
    (hleap : leap = (decide (IsLeap d.year) && decide (58 < (d.yearDay : Int))))
    (hwork : work = if leap then (d.yearDay : Int) - 1 else d.yearDay) :
    monthScan work 11 = d.month ∧
      (if leap ∧ (d.yearDay : Int) = 59 then 2 else 1) + (work - spm d.month) = d.day := by
  have hm := hd.month_lt
  have hpos := hd.day_pos
  have hle := hd.day_le
  have hbefore := beforeMonth_eq d.year (Nat.le_of_lt hm)
  have hdays := monthDays_eq d.year hm
  have hyearDay : (d.yearDay : Int) = beforeMonth d.year d.month + (d.day - 1) := by
    rw [Date.yearDay]
    omega
  have h0 : spm 0 = 0 := rfl
  have h1 : spm 1 = 31 := rfl
  have h2 : spm 2 = 59 := rfl
  -- only February's last day and the months after it see the leap day
  have hbetween : spm d.month ≤ work ∧ work < spm (d.month + 1) ∧
      (if leap ∧ (d.yearDay : Int) = 59 then 2 else 1) + (work - spm d.month) = d.day := by
    subst hleap
    rw [leapDay] at hbefore hdays
    by_cases hl : IsLeap d.year
    · simp only [hl, decide_true, Bool.true_and, if_true, decide_eq_true_eq] at *
      obtain hm0 | hm1 | hm2 : d.month = 0 ∨ d.month = 1 ∨ 2 ≤ d.month := by omega
      · have hs : spm d.month = 0 := by rw [hm0, h0]
        have hs' : spm (d.month + 1) = 31 := by rw [hm0, ← h1]
        rw [if_neg (by omega)] at hbefore hdays
        split at hwork <;> split <;> omega
      · have hs : spm d.month = 31 := by rw [hm1, h1]
        have hs' : spm (d.month + 1) = 59 := by rw [hm1, ← h2]
        rw [if_neg (by omega)] at hbefore
        rw [if_pos hm1] at hdays
        split at hwork <;> split <;> omega
      · have hs : spm 2 ≤ spm d.month := spm_mono hm2 (Nat.le_of_lt hm)
        rw [if_pos hm2] at hbefore
        rw [if_neg (by omega)] at hdays
        split at hwork <;> split <;> omega
    · simp only [hl, decide_false, Bool.false_and, if_false, Bool.false_eq_true, false_and,
        Nat.cast_zero, ite_self, add_zero] at *
      omega
  exact ⟨monthScan_of_between (by omega) hbetween.1 hbetween.2.1, hbetween.2.2⟩

-- --------
-- `gmtime_r`
-- --------

theorem clock_fields (t : Nat) :
    ((t : Int).tmod spd).tmod 60 = (t % 86400 % 60 : Nat) ∧
      (((t : Int).tmod spd).tdiv 60).tmod 60 = (t % 86400 / 60 % 60 : Nat) ∧
      (((t : Int).tmod spd).tdiv 60).tdiv 60 = (t % 86400 / 3600 : Nat) ∧
      (t : Int).tdiv spd = (t / 86400 : Nat) := by
  refine ⟨rfl, rfl, ?_, rfl⟩
  rw [show 3600 = 60 * 60 from rfl, ← Nat.div_div_eq_div_mul]
  rfl

/-- **`gmtime_r`** gives the date that the days of `t` count to, when its year is an `int`. -/
theorem gmtimeR_of {d : Date} {t : Nat} (hd : d.Valid) (hy : 1970 ≤ d.year)
    (hy' : d.year < 2 ^ 31) (hn : d.dayNumber = 719528 + t / 86400) :
    gmtimeR t = tmOf d (t % 86400) := by
  obtain ⟨hsec, hmin, hhour, hday⟩ := clock_fields t
  have hyears : beforeYear 1970 = 719528 := by
    have := epoch_dayNumber
    rwa [Date.dayNumber, show epoch.yearDay = 0 from rfl, Nat.add_zero] at this
  have hwork : ((t / 86400 : Nat) : Int) = (d.dayNumber - beforeYear 1970 : Nat) := by omega
  have hloop := yearLoop_date hd hy hy'
  rw [← hwork] at hloop
  have hleap : isleap (toInt d.year) = decide (IsLeap d.year) := by
    rw [toInt_of_fits (by omega) (by omega), isleap_eq]
  have hyd := hd.yearDay_lt
  have hyl := leapDay_le d.year
  rw [yearDays] at hyd
  obtain ⟨hmon, hmday⟩ := month_fields hd rfl rfl
  have hdayle : (d.day : Int) ≤ 366 := by
    have := hd.day_le
    have h12 : beforeMonth d.year (d.month + 1) ≤ beforeMonth d.year 12 :=
      beforeMonth_mono hd.month_lt
    rw [beforeMonth_twelve, beforeMonth, yearDays] at h12
    omega
  rw [gmtimeR, hday, hsec, hmin, hhour, hloop]
  simp only
  rw [hleap, hmon, hmday]
  rw [toInt_of_fits (x := (d.day : Int)) (by omega) (by omega),
    toInt_of_fits (x := (d.yearDay : Int)) (by omega) (by omega),
    toInt_of_fits (x := (d.year : Int) - 1900) (by omega) (by omega)]
  rw [tmOf, Tm.mk.injEq, hn, epoch_dayNumber, Int.tmod_eq_emod_of_nonneg (by omega)]
  refine ⟨?_, ?_, ?_, rfl, rfl, rfl, ?_, rfl, rfl⟩ <;> omega

-- --------
-- `timegm`
-- --------

theorem toTime_of_fits {w : Nat} {x : Int} (hw : 0 < w) (h : -2 ^ (w - 1) ≤ x)
    (h' : x < 2 ^ (w - 1)) : toTime w x = x := by
  obtain ⟨v, rfl⟩ : ∃ v, w = v + 1 := ⟨w - 1, by omega⟩
  rw [Nat.add_sub_cancel] at h h'
  have h2 : (2 : Nat) ^ (v + 1) = 2 ^ v * 2 := Nat.pow_succ 2 v
  have hcast : ((2 ^ v : Nat) : Int) = 2 ^ v := by push_cast; rfl
  rw [toTime, Int.bmod_eq_iff (Nat.two_pow_pos _), Int.sub_self, h2]
  exact ⟨by omega, by omega, Int.dvd_zero _⟩

/-- The date in the fields. -/
def Tm.date (t : Tm) : Date := ⟨(t.tmYear + 1900).toNat, t.tmMon.toNat, t.tmMday.toNat⟩

/-- The seconds since midnight in the fields. -/
def Tm.clock (t : Tm) : Nat := (t.tmHour * 3600 + t.tmMin * 60 + t.tmSec).toNat

/-- The seconds since the epoch that the fields name. -/
def Tm.time (t : Tm) : Nat := (t.date.dayNumber - epoch.dayNumber) * 86400 + t.clock

/-- The fields are a date from 1970 on and a time of day. -/
structure Tm.Valid (t : Tm) : Prop where
  sec : 0 ≤ t.tmSec ∧ t.tmSec < 60
  min : 0 ≤ t.tmMin ∧ t.tmMin < 60
  hour : 0 ≤ t.tmHour ∧ t.tmHour < 24
  mon : 0 ≤ t.tmMon
  mday : 0 ≤ t.tmMday
  year : 70 ≤ t.tmYear
  date : t.date.Valid

theorem afterCenturies_eq (n : Nat) :
    afterCenturies n ((n : Int) * 365 + ((n + 1 : Nat) : Int).tdiv 4) =
      beforeYear (1970 + n) - 719528 := by
  have hb := beforeYear_eq (1970 + n)
  rw [show ((n + 1 : Nat) : Int).tdiv 4 = ((n + 1) / 4 : Nat) from rfl, afterCenturies]
  split
  · rw [Int.tdiv_eq_ediv_of_nonneg (by omega)]
    dsimp only
    split <;> omega
  · omega

variable {w : Nat} {t : Tm}

theorem Tm.Valid.fields (h : t.Valid) :
    t.tmYear = t.date.year - 1900 ∧ t.tmMon = t.date.month ∧ t.tmMday = t.date.day ∧
      1970 ≤ t.date.year ∧ (t.clock : Int) = t.tmHour * 3600 + t.tmMin * 60 + t.tmSec := by
  have hy := h.year
  have hm := h.mon
  have hd := h.mday
  have hhour := h.hour
  have hmin := h.min
  have hsec := h.sec
  simp only [Tm.date, Tm.clock]
  omega

theorem carryFields_valid (h : t.Valid) : carryFields t = t := by
  have hmon := h.fields.2.1
  have hlt := h.date.month_lt
  have hsec : ¬ 60 < t.tmSec := by have := h.sec; omega
  have hmin : ¬ 60 ≤ t.tmMin := by have := h.min; omega
  have hhour : ¬ 24 ≤ t.tmHour := by have := h.hour; omega
  have hmonth : ¬ 12 ≤ t.tmMon := by omega
  simp only [carryFields, if_neg hsec, if_neg hmin, if_neg hhour, if_neg hmonth]

theorem monthDays_le_spm {y m : Nat} (h : m < 12) : (monthDays y m : Int) ≤ spm (m + 1) := by
  have := leapDay_le y
  rw [monthDays_eq y h]
  split
  · rename_i hm
    rw [hm, show spm (1 + 1) = 59 from rfl, show spm 1 = 31 from rfl]
    omega
  · have h0 : spm 0 = 0 := rfl
    have := spm_mono (Nat.zero_le m) (Nat.le_of_lt h)
    omega

theorem monthLoop_valid (h : t.Valid) : monthLoop t = .ok t := by
  obtain ⟨-, hmon, hmday, -, -⟩ := h.fields
  have hlt := h.date.month_lt
  have hle := h.date.day_le
  have hspm := monthDays_le_spm (y := t.date.year) hlt
  rw [monthLoop, dif_pos (by omega), dif_neg]
  rw [show (1 + t.tmMon).toNat = t.date.month + 1 by omega]
  omega

theorem monthLoop_of_le (hmon : 0 ≤ t.tmMon ∧ t.tmMon ≤ 11) (hmday : t.tmMday ≤ 31) :
    monthLoop t = .ok t := by
  have hspm : 31 ≤ spm (1 + t.tmMon).toNat := spm_pos (by omega) (by omega)
  rw [monthLoop, dif_pos hmon, dif_neg (by omega)]

/-- The day of the year that `timegm` finds. -/
theorem yearDay_fields (h : t.Valid) (hy : t.date.year < 2 ^ 31) :
    toInt (spm t.tmMon.toNat + t.tmMday - 1 +
        if isleap (toInt (t.tmYear + 1900)) ∧ 1 < t.tmMon then 1 else 0) = t.date.yearDay := by
  obtain ⟨hyear, hmon, hmday, -, -⟩ := h.fields
  have hbefore := beforeMonth_eq t.date.year (Nat.le_of_lt h.date.month_lt)
  have hpos := h.date.day_pos
  have hlt := h.date.yearDay_lt
  have hleap := leapDay_le t.date.year
  have hyd : (t.date.yearDay : Int) = beforeMonth t.date.year t.date.month + (t.date.day - 1) := by
    rw [Date.yearDay]
    omega
  rw [show t.tmYear + 1900 = t.date.year by omega,
    toInt_of_fits (x := (t.date.year : Int)) (by omega) (by omega), isleap_eq,
    show t.tmMon.toNat = t.date.month by omega]
  have hsum : spm t.date.month + t.tmMday - 1 +
      (if decide (IsLeap t.date.year) ∧ 1 < t.tmMon then 1 else 0) = t.date.yearDay := by
    rw [leapDay] at hbefore
    by_cases hl : IsLeap t.date.year
    · simp only [hl, decide_true, true_and, if_true, Nat.cast_one] at hbefore ⊢
      split at hbefore <;> split <;> omega
    · simp only [hl, decide_false, Bool.false_eq_true, false_and, if_false, Nat.cast_zero,
        ite_self, add_zero] at hbefore ⊢
      omega
  rw [hsum, toInt_of_fits (by omega) (by rw [yearDays] at hlt; omega)]

theorem days_of_date {d : Date} (hy : 1970 ≤ d.year) :
    ((d.dayNumber - epoch.dayNumber : Nat) : Int) =
      beforeYear (1970 + (d.year - 1970)) - 719528 + d.yearDay := by
  have hmono := beforeYear_mono hy
  have h1970 : beforeYear 1970 = 719528 := by
    have := beforeYear_eq 1970
    omega
  rw [epoch_dayNumber, Date.dayNumber, Nat.add_sub_cancel' hy]
  omega

/-- **`timegm`** gives the time of valid fields that a `time_t` holds, and completes the fields. -/
theorem timegm_of (hw : 0 < w) (h : t.Valid) (hy : t.date.year < 2 ^ 31)
    (hT : t.time < 2 ^ (w - 1)) :
    timegm w t = .ok (t.time, { tmOf t.date t.clock with tmIsdst := t.tmIsdst }) := by
  obtain ⟨hyear, hmon, hmday, hge, hclock⟩ := h.fields
  have hdays := days_of_date hge
  have hclosed := afterCenturies_eq (t.date.year - 1970)
  have hb := beforeYear_eq (1970 + (t.date.year - 1970))
  have hTle : (t.time : Int) < 2 ^ (w - 1) := by exact_mod_cast hT
  have htime : (t.time : Int) =
      (t.date.dayNumber - epoch.dayNumber : Nat) * 86400 + t.clock := by
    rw [Tm.time]
    push_cast
    rfl
  have hyears : t.tmYear - 70 = (t.date.year - 1970 : Nat) := by omega
  have hsec := h.sec
  have hmin := h.min
  have hhour := h.hour
  have hyd := yearDay_fields h hy
  -- nothing wraps: every step stays below the time itself
  have hday0 : toTime w ((t.date.year - 1970 : Nat) * 365 +
      ((t.date.year - 1970 + 1 : Nat) : Int).tdiv 4) = (t.date.year - 1970 : Nat) * 365 +
      ((t.date.year - 1970 + 1 : Nat) : Int).tdiv 4 := by
    have hq : ((t.date.year - 1970 + 1 : Nat) : Int).tdiv 4 =
        ((t.date.year - 1970 + 1) / 4 : Nat) := rfl
    exact toTime_of_fits hw (by omega) (by omega)
  have htotal : (((((t.date.dayNumber - epoch.dayNumber : Nat) : Int) * 24 + t.tmHour) * 60 +
      t.tmMin) * 60 + t.tmSec) = t.time := by omega
  rw [timegm, carryFields_valid h, monthLoop_valid h, hyears,
    toTime_of_fits hw (x := ((t.date.year - 1970 : Nat) : Int)) (by omega) (by omega),
    ← Nat.cast_succ, hday0, hclosed]
  show (if t.tmYear < 70 then _ else _ : Except Fault (Int × Tm)) = _
  rw [if_neg (by omega)]
  show (if t.tmMon < 0 then _ else _ : Except Fault (Int × Tm)) = _
  rw [if_neg (by omega)]
  dsimp only
  rw [hyd, ← hdays, toTime_of_fits hw (x := ((_ : Nat) : Int)) (by omega) (by omega), htotal,
    toTime_of_fits hw (by omega) (by omega), Int.tmod_eq_emod_of_nonneg (by omega)]
  refine congrArg Except.ok (Prod.ext rfl ?_)
  rw [tmOf, Tm.mk.injEq]
  refine ⟨?_, ?_, ?_, hmday, hmon, hyear, ?_, rfl, rfl⟩ <;> dsimp only <;> omega

-- --------
-- One undoes the other
-- --------

theorem tmOf_valid {d : Date} {s : Nat} (hd : d.Valid) (hy : 1970 ≤ d.year) (hs : s < 86400) :
    (tmOf d s).Valid ∧ (tmOf d s).date = d ∧ (tmOf d s).clock = s := by
  have hdate : (tmOf d s).date = d := by
    obtain ⟨y, m, k⟩ := d
    simp only [Tm.date, tmOf, Int.sub_add_cancel, Int.toNat_natCast]
  have hclock : (tmOf d s).clock = s := by
    simp only [Tm.clock, tmOf]
    omega
  refine ⟨⟨?_, ?_, ?_, ?_, ?_, ?_, ?_⟩, hdate, hclock⟩
  case refine_7 => rwa [hdate]
  all_goals (simp only [tmOf]; omega)

theorem utcDate_year (t : Nat) : 1970 ≤ (utcDate t).year := by
  by_contra h
  -- a date of an earlier year comes before the epoch
  have hlt := (utcDate_valid t).yearDay_lt
  have hmono : beforeYear ((utcDate t).year + 1) ≤ beforeYear 1970 := beforeYear_mono (by omega)
  have h1970 := beforeYear_eq 1970
  have hn := utcDate_dayNumber t
  rw [beforeYear] at hmono
  rw [Date.dayNumber] at hn
  omega

theorem utc_valid (t : Nat) : (utc t).Valid ∧ (utc t).date = utcDate t ∧ (utc t).time = t := by
  obtain ⟨hv, hdate, hclock⟩ := tmOf_valid (utcDate_valid t) (utcDate_year t)
    (Nat.mod_lt t (by decide : 0 < 86400))
  refine ⟨hv, hdate, ?_⟩
  rw [utc, Tm.time, hdate, hclock, utcDate_dayNumber, epoch_dayNumber]
  omega

theorem gmtimeR_utc {t : Nat} (hy : (utcDate t).year < 2 ^ 31) : gmtimeR t = utc t :=
  gmtimeR_of (utcDate_valid t) (utcDate_year t) hy (utcDate_dayNumber t)

theorem timegm_utc (hw : 0 < w) {t : Nat} (hy : (utcDate t).year < 2 ^ 31) (ht : t < 2 ^ (w - 1)) :
    timegm w (utc t) = .ok (t, utc t) := by
  obtain ⟨hv, hdate, htime⟩ := utc_valid t
  have hclock := (tmOf_valid (utcDate_valid t) (utcDate_year t)
    (Nat.mod_lt t (by decide : 0 < 86400))).2.2
  rw [timegm_of hw hv (by rwa [hdate]) (by rwa [htime]), htime, hdate,
    show (utc t).clock = t % 86400 from hclock]
  rfl

/-- The date that valid fields name is the one their time counts to. -/
theorem utcDate_time (h : t.Valid) : utcDate t.time = t.date := by
  have hge := h.fields.2.2.2.1
  have hle := beforeYear_mono hge
  have h1970 := beforeYear_eq 1970
  have hclock : t.clock < 86400 := by
    have := h.fields.2.2.2.2
    have := h.sec
    have := h.min
    have := h.hour
    omega
  have hn : 719528 ≤ t.date.dayNumber := by
    rw [Date.dayNumber]
    omega
  refine iterate_next epoch_valid h.date ?_
  rw [Tm.time, epoch_dayNumber]
  omega

theorem utc_time (h : t.Valid) : utc t.time =
    { t with tmWday := (utc t.time).tmWday, tmYday := (utc t.time).tmYday, tmIsdst := 0 } := by
  obtain ⟨hyear, hmon, hmday, -, hclock⟩ := h.fields
  have hdate := utcDate_time h
  have hsec := h.sec
  have hmin := h.min
  have hhour := h.hour
  have hs : t.time % 86400 = t.clock := by
    rw [Tm.time]
    omega
  rw [Tm.mk.injEq]
  simp only [utc, tmOf, hdate, hs]
  refine ⟨?_, ?_, ?_, hmday.symm, hmon.symm, hyear.symm, trivial, trivial, trivial⟩ <;> omega

/-- **Calendar time.** While years are `int`s and times are `time_t`s, `gmtime_r` is the proleptic
Gregorian calendar, `timegm` is its inverse, and so are the local pair in every time zone. -/
theorem calendar_inverse (w : Nat) (hw : 32 ≤ w) :
    (∀ t : Nat, t < 2 ^ (w - 1) → (utcDate t).year < 2 ^ 31 →
      gmtimeR t = utc t ∧ timegm w (gmtimeR t) = .ok (t, utc t)) ∧
    (∀ t : Tm, t.Valid → t.date.year < 2 ^ 31 → t.time < 2 ^ (w - 1) →
      ∃ t', timegm w t = .ok (t.time, t') ∧ utcDate t.time = t.date ∧ gmtimeR t.time =
        { t with tmWday := t'.tmWday, tmYday := t'.tmYday, tmIsdst := 0 }) ∧
    (∀ tz t : Int, -2 ^ (w - 1) ≤ t → t < 2 ^ (w - 1) → 0 ≤ t + 3600 * tz →
      t + 3600 * tz < 2 ^ (w - 1) → (utcDate (t + 3600 * tz).toNat).year < 2 ^ 31 →
      ∃ t', mktime w tz (localtimeR w tz t) = .ok (t, t')) := by
  have hw0 : 0 < w := by omega
  refine ⟨fun t ht hy => ?_, fun t hv hy hT => ?_, fun tz t h1 h2 h3 h4 hy => ?_⟩
  · rw [gmtimeR_utc hy]
    exact ⟨rfl, timegm_utc hw0 hy ht⟩
  · have hdate := utcDate_time hv
    have hclock := (utc_valid t.time).2.2
    refine ⟨_, timegm_of hw0 hv hy hT, hdate, ?_⟩
    rw [gmtimeR_utc (by rwa [hdate]), utc_time hv]
    simp only [utc, tmOf, hdate]
  · obtain ⟨n, hn⟩ : ∃ n : Nat, t + 3600 * tz = n := Int.eq_ofNat_of_zero_le h3
    have hlt : n < 2 ^ (w - 1) := by
      rw [hn] at h4
      exact_mod_cast h4
    rw [hn, Int.toNat_natCast] at hy
    have hlocal : localtimeR w tz t = utc n := by
      rw [localtimeR, mul_comm tz, hn, toTime_of_fits hw0 (by omega) (by omega), gmtimeR_utc hy]
    refine ⟨utc n, ?_⟩
    rw [hlocal, mktime, timegm_utc hw0 hy hlt]
    show Except.ok (toTime w (n - 3600 * tz), utc n) = _
    rw [show (n : Int) - 3600 * tz = t by omega, toTime_of_fits hw0 h1 h2]

/-- 1 March 1970 in UTC, and in a zone eight hours ahead. -/
theorem calendar_inverse_march :
    gmtimeR 5097600 = utc 5097600 ∧
      (∃ t', timegm 32 ⟨0, 0, 0, 1, 2, 70, 0, 0, 0⟩ = .ok (5097600, t')) ∧
      ∃ t', mktime 32 8 (localtimeR 32 8 5097600) = .ok (5097600, t') := by
  obtain ⟨hgm, htm, hlocal⟩ := calendar_inverse 32 (by decide)
  obtain ⟨t', h, -⟩ := htm ⟨0, 0, 0, 1, 2, 70, 0, 0, 0⟩
    ⟨by decide, by decide, by decide, by decide, by decide, by decide,
      by decide, by decide, by decide⟩ (by decide +kernel) (by decide +kernel)
  have htime : (⟨0, 0, 0, 1, 2, 70, 0, 0, 0⟩ : Tm).time = 5097600 := by decide +kernel
  rw [htime] at h
  refine ⟨(hgm 5097600 (by decide) (by decide +kernel)).1, ⟨t', h⟩,
    hlocal 8 5097600 (by decide) (by decide) (by decide) (by decide) (by decide +kernel)⟩

-- --------
-- Beyond `int` years
-- --------

theorem leapsRight_past_int : LeapsRight 2147483648 52 := by
  unfold LeapsRight
  decide

/-- 1 March of the century year 2147483700, which `__isleap` takes for a leap year. -/
def marchPastInt : Nat := 67767977879625600

theorem yearLoop_reach {y m a b r k : Nat} (hm : y ≤ m) (h : LeapsRight y (m - y))
    (ha : beforeYear y = a) (hb : beforeYear m = b) (hk : a + k = b + r) :
    yearLoop y k = yearLoop m r := by
  have hmono : beforeYear y ≤ beforeYear m := beforeYear_mono hm
  have hadv := yearLoop_advance h r
  rw [Nat.add_sub_cancel' hm] at hadv
  rw [← hadv, show beforeYear m - beforeYear y + r = k by omega]

theorem yearLoop_lt {i work : Int} (h : work < 365) : yearLoop i work = (i, work) := by
  rw [yearLoop_eq, if_neg]
  split <;> omega

theorem beforeYear_past_int :
    beforeYear 1970 = 719528 ∧ beforeYear 2147483648 = 784352296305 ∧
      beforeYear 2147483700 = 784352315298 := by
  have h1 := beforeYear_eq 1970
  have h2 := beforeYear_eq 2147483648
  have h3 := beforeYear_eq 2147483700
  omega

theorem yearLoop_past_int : yearLoop 1970 784351595829 = (2147483700, 59) := by
  obtain ⟨h1, h2, h3⟩ := beforeYear_past_int
  -- up to 2147483647 the year is an `int`, and 52 years on the leap years still come out right
  have hto : yearLoop 1970 784351595829 = yearLoop 2147483648 19052 :=
    yearLoop_reach (by decide) (leapsRight_int (by decide)) h1 h2 (by decide)
  have hpast : yearLoop 2147483648 19052 = yearLoop 2147483700 59 :=
    yearLoop_reach (by decide) leapsRight_past_int h2 h3 (by decide)
  rw [hto, hpast, yearLoop_lt (by decide)]

theorem dayNumber_of {d : Date} {a b : Nat} (ha : beforeYear d.year = a) (hb : d.yearDay = b) :
    d.dayNumber = a + b := by
  rw [Date.dayNumber, ha, hb]

/-- **The calendar fails past `int` years**: the year of 1 March 2147483700 fits `tm_year`, and
`gmtime_r` says 29 February. -/
theorem gmtimeR_past_int : ¬ ∀ t : Nat, t < 2 ^ 63 → (utcDate t).year - 1900 < 2 ^ 31 →
    gmtimeR t = utc t := by
  intro h
  have hn : (⟨2147483700, 2, 1⟩ : Date).dayNumber = 784352315298 + 59 :=
    dayNumber_of beforeYear_past_int.2.2 (by decide)
  have hdate : utcDate marchPastInt = ⟨2147483700, 2, 1⟩ := by
    rw [utcDate]
    refine iterate_next epoch_valid ⟨by decide, by decide, by decide⟩ ?_
    rw [epoch_dayNumber, hn]
    rfl
  have hgm : (gmtimeR marchPastInt).tmMon = 1 := by
    rw [gmtimeR, (clock_fields marchPastInt).2.2.2,
      show ((marchPastInt / 86400 : Nat) : Int) = 784351595829 from rfl, yearLoop_past_int]
    rfl
  have heq := h marchPastInt (by decide) (by rw [hdate]; decide)
  have hmon : (utc marchPastInt).tmMon = 2 := by
    rw [utc, hdate]
    rfl
  rw [heq, hmon] at hgm
  omega

end RTThread.Libc
