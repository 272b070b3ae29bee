/-
The calendar of the Gregorian rules, carried back and forth over all years:
days counted from 1 January 1970, and the year, month and day they fall on.
-/
import Mathlib

namespace Calendar

section Places

/-- Where the unit numbered `n` lies among pieces of the given lengths: in which
piece, and how far into it. -/
def place : List ℕ → ℕ → ℕ × ℕ
  | [], n => (0, n)
  | length :: lengths, n =>
      if n < length then (0, n)
      else ((place lengths (n - length)).1 + 1, (place lengths (n - length)).2)

/-- How many units lie before the one `n` into piece `i`. -/
def before (lengths : List ℕ) (i n : ℕ) : ℕ := (lengths.take i).sum + n

theorem before_place (lengths : List ℕ) (n : ℕ) :
    before lengths (place lengths n).1 (place lengths n).2 = n := by
  induction lengths generalizing n with
  | nil => simp [place, before]
  | cons length lengths ih =>
      have hrest := ih (n - length)
      simp only [before] at hrest ⊢
      unfold place
      split
      · simp
      · simp only [List.take_succ_cons, List.sum_cons]
        omega

theorem place_fits {lengths : List ℕ} {n : ℕ} (hn : n < lengths.sum) :
    (place lengths n).2 < lengths[(place lengths n).1]?.getD 0 := by
  induction lengths generalizing n with
  | nil => simp at hn
  | cons length lengths ih =>
      unfold place
      split
      · simpa
      · have hrest : n - length < lengths.sum := by
          rw [List.sum_cons] at hn
          omega
        simpa using ih hrest

theorem before_lt_sum {lengths : List ℕ} {i n : ℕ}
    (hn : n < lengths[i]?.getD 0) : before lengths i n < lengths.sum := by
  induction lengths generalizing i with
  | nil => simp at hn
  | cons length lengths ih =>
      cases i with
      | zero =>
          simp only [List.getElem?_cons_zero, Option.getD_some] at hn
          simp [before]
          omega
      | succ i =>
          have hrest := ih (by simpa using hn)
          simp only [before, List.take_succ_cons, List.sum_cons] at hrest ⊢
          omega

end Places

section Years

/-- Every fourth year, but of the full centuries only every fourth. -/
def leap (year : ℤ) : Bool :=
  year % 4 = 0 && (year % 100 ≠ 0 || year % 400 = 0)

def monthLengths (leap : Bool) : List ℕ :=
  [31, if leap then 29 else 28, 31, 30, 31, 30, 31, 31, 30, 31, 30, 31]

/-- Days from 1 January 1970 to the first day of the year. -/
def yearStart (year : ℤ) : ℤ :=
  365 * (year - 1) + (year - 1) / 4 - (year - 1) / 100 + (year - 1) / 400
    - 719162

/-- The year of a day: 400 years have 146097 days, a full century of them 36524,
four years 1461, and the last piece of each kind may be a day longer. -/
def yearOf (day : ℤ) : ℤ :=
  let cycle := (day + 719162) / 146097
  let inCycle := (day + 719162) % 146097
  let century := min (inCycle / 36524) 3
  let inCentury := inCycle - 36524 * century
  let four := inCentury / 1461
  let inFour := inCentury - 1461 * four
  400 * cycle + 100 * century + 4 * four + min (inFour / 365) 3 + 1

theorem monthLengths_sum (leap : Bool) :
    (monthLengths leap).sum = if leap then 366 else 365 := by
  cases leap <;> rfl

theorem yearStart_succ (year : ℤ) :
    yearStart (year + 1)
      = yearStart year + ((monthLengths (leap year)).sum : ℕ) := by
  rw [monthLengths_sum]
  unfold yearStart leap
  split <;> rename_i hleap <;> simp at hleap <;> push_cast <;> omega

theorem yearStart_strictMono : StrictMono yearStart := by
  refine strictMono_int_of_lt_succ fun year => ?_
  have hpositive : 0 < (monthLengths (leap year)).sum := by
    rw [monthLengths_sum]
    split <;> decide
  rw [yearStart_succ]
  omega

/-- The pieces of a year number, and the days before the year in each. -/
theorem yearStart_pieces {cycle century four year : ℤ}
    (hcentury : 0 ≤ century ∧ century ≤ 3) (hfour : 0 ≤ four ∧ four ≤ 24)
    (hyear : 0 ≤ year ∧ year ≤ 3) :
    yearStart (400 * cycle + 100 * century + 4 * four + year + 1)
      = 146097 * cycle + 36524 * century + 1461 * four + 365 * year
        - 719162 := by
  have hfourth : (400 * cycle + 100 * century + 4 * four + year) / 4
      = 100 * cycle + 25 * century + four := by omega
  have hhundredth : (400 * cycle + 100 * century + 4 * four + year) / 100
      = 4 * cycle + century := by omega
  have hlast : (400 * cycle + 100 * century + 4 * four + year) / 400
      = cycle := by omega
  rw [yearStart, add_sub_cancel_right, hfourth, hhundredth, hlast]
  ring

theorem leap_pieces {cycle century four year : ℤ}
    (hcentury : 0 ≤ century ∧ century ≤ 3) (hfour : 0 ≤ four ∧ four ≤ 24)
    (hyear : 0 ≤ year ∧ year ≤ 3) :
    leap (400 * cycle + 100 * century + 4 * four + year + 1) = true ↔
      year = 3 ∧ (four ≠ 24 ∨ century = 3) := by
  simp only [leap, Bool.and_eq_true, Bool.or_eq_true, decide_eq_true_eq]
  omega

theorem yearStart_yearOf (day : ℤ) :
    yearStart (yearOf day) ≤ day ∧ day < yearStart (yearOf day + 1) := by
  obtain ⟨cycle, hcycle⟩ :
      ∃ cycle, cycle = (day + 719162) / 146097 := ⟨_, rfl⟩
  obtain ⟨inCycle, hin⟩ :
      ∃ inCycle, inCycle = (day + 719162) % 146097 := ⟨_, rfl⟩
  obtain ⟨century, hc⟩ :
      ∃ century, century = min (inCycle / 36524) 3 := ⟨_, rfl⟩
  obtain ⟨four, hf⟩ :
      ∃ four, four = (inCycle - 36524 * century) / 1461 := ⟨_, rfl⟩
  obtain ⟨year, hy⟩ : ∃ year,
      year = min ((inCycle - 36524 * century - 1461 * four) / 365) 3 :=
    ⟨_, rfl⟩
  have hof : yearOf day
      = 400 * cycle + 100 * century + 4 * four + year + 1 := by
    rw [hy, hf, hc, hin, hcycle]
    rfl
  have hcentury : 0 ≤ century ∧ century ≤ 3 := by omega
  have hrest : 0 ≤ inCycle - 36524 * century ∧
      inCycle - 36524 * century ≤ 36524 ∧
      (century ≠ 3 → inCycle - 36524 * century < 36524) := by omega
  have hfour : 0 ≤ four ∧ four ≤ 24 := by omega
  have hyear : 0 ≤ year ∧ year ≤ 3 := by omega
  have hlong := @leap_pieces cycle _ _ _ hcentury hfour hyear
  rw [yearStart_succ, monthLengths_sum, hof,
    yearStart_pieces hcentury hfour hyear]
  split
  · omega
  · rename_i hshort
    rw [hlong] at hshort
    push_cast
    omega

theorem yearOf_eq {day year : ℤ} (hfrom : yearStart year ≤ day)
    (hto : day < yearStart (year + 1)) : yearOf day = year := by
  obtain ⟨hstart, hend⟩ := yearStart_yearOf day
  have hlower := yearStart_strictMono.lt_iff_lt.mp (hstart.trans_lt hto)
  have hupper := yearStart_strictMono.lt_iff_lt.mp (hfrom.trans_lt hend)
  omega

end Years

section Dates

/-- A day of the calendar; its month and the day in it count from zero. -/
structure Date where
  year : ℤ
  month0 : ℕ
  day0 : ℕ
  real : day0 < (monthLengths (leap year))[month0]?.getD 0

/-- Days from 1 January 1970. -/
def Date.days (date : Date) : ℤ :=
  yearStart date.year
    + before (monthLengths (leap date.year)) date.month0 date.day0

theorem dayOfYear_lt (day : ℤ) : (day - yearStart (yearOf day)).toNat
    < (monthLengths (leap (yearOf day))).sum := by
  obtain ⟨hstart, hend⟩ := yearStart_yearOf day
  rw [yearStart_succ] at hend
  omega

def Date.ofDays (day : ℤ) : Date where
  year := yearOf day
  month0 := (place (monthLengths (leap (yearOf day)))
    (day - yearStart (yearOf day)).toNat).1
  day0 := (place (monthLengths (leap (yearOf day)))
    (day - yearStart (yearOf day)).toNat).2
  real := place_fits (dayOfYear_lt day)

@[simp] theorem Date.days_ofDays (day : ℤ) : (Date.ofDays day).days = day := by
  have hstart := (yearStart_yearOf day).1
  simp only [Date.days, Date.ofDays, before_place]
  omega

theorem Date.yearOf_days (date : Date) : yearOf date.days = date.year := by
  have hin := before_lt_sum date.real
  apply yearOf_eq
  · simp [Date.days]
  · rw [yearStart_succ, Date.days]
    omega

/-- The day with these numbers, if the month has it. -/
def Date.ofYmd? (year : ℤ) (month0 day0 : ℕ) : Option Date :=
  if real : day0 < (monthLengths (leap year))[month0]?.getD 0 then
    some ⟨year, month0, day0, real⟩
  else none

@[simp] theorem Date.ofYmd?_self (date : Date) :
    Date.ofYmd? date.year date.month0 date.day0 = some date := by
  simp [Date.ofYmd?, date.real]

theorem Date.year_of_ofYmd? {year : ℤ} {month0 day0 : ℕ} {date : Date}
    (h : Date.ofYmd? year month0 day0 = some date) : date.year = year := by
  unfold Date.ofYmd? at h
  split at h
  · cases h
    rfl
  · cases h

theorem Date.month0_lt (date : Date) : date.month0 < 12 := by
  have hreal := date.real
  by_contra hlarge
  rw [List.getElem?_eq_none (by simpa [monthLengths] using hlarge)] at hreal
  simp at hreal

theorem monthLengths_le (leap : Bool) (month0 : ℕ) :
    (monthLengths leap)[month0]?.getD 0 ≤ 31 := by
  by_cases hmonth : month0 < 12
  · cases leap <;> interval_cases month0 <;> decide
  · rw [List.getElem?_eq_none (by simpa [monthLengths] using hmonth)]
    simp

theorem Date.day0_lt (date : Date) : date.day0 < 31 :=
  date.real.trans_le (monthLengths_le _ _)

end Dates

section Moments

/-- A day's time by the clock on the wall, to the millisecond. -/
structure Moment where
  date : Date
  hour : ℕ
  minute : ℕ
  second : ℕ
  milli : ℕ

/-- Milliseconds from the start of 1 January 1970. -/
def Moment.millis (moment : Moment) : ℤ :=
  86400000 * moment.date.days + 3600000 * moment.hour + 60000 * moment.minute
    + 1000 * moment.second + moment.milli

def Moment.ofMillis (millis : ℤ) : Moment where
  date := Date.ofDays (millis / 86400000)
  hour := (millis % 86400000 / 3600000).toNat
  minute := (millis % 3600000 / 60000).toNat
  second := (millis % 60000 / 1000).toNat
  milli := (millis % 1000).toNat

@[simp] theorem Moment.millis_ofMillis (millis : ℤ) :
    (Moment.ofMillis millis).millis = millis := by
  simp only [Moment.millis, Moment.ofMillis, Date.days_ofDays]
  omega

/-- The clock's parts, each within its range. -/
theorem Moment.ofMillis_clock (millis : ℤ) :
    (Moment.ofMillis millis).hour < 24 ∧ (Moment.ofMillis millis).minute < 60 ∧
      (Moment.ofMillis millis).second < 60 ∧
      (Moment.ofMillis millis).milli < 1000 := by
  simp only [Moment.ofMillis]
  omega

/-- A time of the clock's range lies in the day of its date. -/
theorem Moment.day_millis {moment : Moment} (hhour : moment.hour < 24)
    (hminute : moment.minute < 60) (hsecond : moment.second < 60)
    (hmilli : moment.milli < 1000) :
    moment.millis / 86400000 = moment.date.days := by
  unfold Moment.millis
  omega

end Moments

end Calendar
