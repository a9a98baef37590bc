import Mathlib.Data.Int.Basic
import Mathlib.Tactic.Linarith

/-!
# The calendar

Days are counted from the first one of 1970, with the leap years of the Gregorian calendar before
and behind it.

* `daysBeforeYear`, `monthLengths`   the days in front of a year, and of its months;
* `yearOfDay`        the year of a day, and how many days of it are over (`daysBeforeYear_yearOfDay`);
* `inMonths`         the month of a day of the year, and how many days of it are over;
* `daysFromCivil_civilFromDays`   **the date of a day** gives the day again.
-/

namespace CSem

/-! ## years -/

def isLeap (year : Int) : Bool := year % 4 = 0 ∧ (year % 100 ≠ 0 ∨ year % 400 = 0)

def daysBeforeYear (year : Int) : Int :=
  365 * (year - 1970) + ((year - 1) / 4 - (year - 1) / 100 + (year - 1) / 400 - 477)

def daysInYear (year : Int) : Int := if isLeap year then 366 else 365

/-- by whole periods of 400, 100, 4 years and of one year; the last century of 400 years and the last
year of four are a day longer -/
def yearOfDay (day : Int) : Int × Int :=
  let since := day + 719162
  let inEra := since % 146097
  let century := min 3 (inEra / 36524)
  let inCentury := inEra - century * 36524
  let inFour := inCentury % 1461
  let one := min 3 (inFour / 365)
  (1 + 400 * (since / 146097) + 100 * century + 4 * (inCentury / 1461) + one, inFour - one * 365)

/-- the periods that are over, and the days behind them; there is a 366th day of the fourth year
only, and in the last four years of a century that is the fourth -/
theorem yearOfDay_periods (day : Int) : ∃ era century four one : Int,
    (0 ≤ century ∧ century ≤ 3) ∧ (0 ≤ four ∧ four ≤ 24) ∧ (0 ≤ one ∧ one ≤ 3) ∧
    (yearOfDay day).1 = 1 + 400 * era + 100 * century + 4 * four + one ∧
    day + 719162 = 146097 * era + 36524 * century + 1461 * four + 365 * one + (yearOfDay day).2 ∧
    0 ≤ (yearOfDay day).2 ∧
    ((yearOfDay day).2 < 365 ∨
      (yearOfDay day).2 = 365 ∧ one = 3 ∧ (four < 24 ∨ century = 3)) := by
  unfold yearOfDay
  dsimp only
  obtain ⟨inEra, hera⟩ : ∃ inEra, inEra = (day + 719162) % 146097 := ⟨_, rfl⟩
  obtain ⟨century, hcentury⟩ : ∃ century, century = min 3 (inEra / 36524) := ⟨_, rfl⟩
  obtain ⟨inCentury, hin⟩ : ∃ inCentury, inCentury = inEra - century * 36524 := ⟨_, rfl⟩
  have hlast : 0 ≤ inCentury ∧ (inCentury < 36524 ∨ inCentury = 36524 ∧ century = 3) := by omega
  obtain ⟨inFour, hfour⟩ : ∃ inFour, inFour = inCentury % 1461 := ⟨_, rfl⟩
  rw [← hera, ← hcentury, ← hin, ← hfour]
  refine ⟨(day + 719162) / 146097, century, inCentury / 1461, min 3 (inFour / 365), ?_, ?_, ?_, rfl,
    ?_, ?_, ?_⟩
  · omega
  · omega
  · omega
  · omega
  · omega
  · omega

theorem yearOfDay_nonneg (day : Int) : 0 ≤ (yearOfDay day).2 := by
  obtain ⟨-, -, -, -, -, -, -, -, -, hnonneg, -⟩ := yearOfDay_periods day
  exact hnonneg

/-- **the year of a day** -/
theorem daysBeforeYear_yearOfDay (day : Int) :
    daysBeforeYear (yearOfDay day).1 + (yearOfDay day).2 = day := by
  obtain ⟨era, century, four, one, hcentury, hfour, hone, hyear, hday, -, -⟩ :=
    yearOfDay_periods day
  have hquarter : ((yearOfDay day).1 - 1) / 4 = 100 * era + 25 * century + four := by omega
  have hhundred : ((yearOfDay day).1 - 1) / 100 = 4 * era + century := by omega
  have hera : ((yearOfDay day).1 - 1) / 400 = era := by omega
  unfold daysBeforeYear
  omega

/-- the 366th day is that of a leap year -/
theorem yearOfDay_lt (day : Int) : (yearOfDay day).2 < daysInYear (yearOfDay day).1 := by
  obtain ⟨era, century, four, one, hcentury, hfour, hone, hyear, -, -, hlast⟩ :=
    yearOfDay_periods day
  unfold daysInYear
  rcases hlast with hlt | ⟨heq, rfl, hlast⟩
  · split <;> omega
  · have hleap : isLeap (yearOfDay day).1 = true := by
      refine decide_eq_true ⟨by omega, ?_⟩
      rcases hlast with hlt | rfl
      · exact .inl (by omega)
      · by_cases h24 : four < 24
        · exact .inl (by omega)
        · exact .inr (by omega)
    rw [if_pos hleap, heq]
    decide

/-! ## months -/

def monthLengths (leap : Bool) : List Nat :=
  [31, if leap then 29 else 28, 31, 30, 31, 30, 31, 31, 30, 31, 30, 31]

/-- the months are taken off one after the other -/
def inMonths : List Nat → Nat → Nat × Nat
  | [], day => (0, day)
  | length :: lengths, day =>
    if day < length then (0, day)
    else
      let (month, rest) := inMonths lengths (day - length)
      (month + 1, rest)

/-- **the month of a day** -/
theorem inMonths_spec {lengths : List Nat} {day : Nat} (h : day < lengths.sum) :
    (lengths.take (inMonths lengths day).1).sum + (inMonths lengths day).2 = day ∧
      ∃ length, lengths[(inMonths lengths day).1]? = some length ∧
        (inMonths lengths day).2 < length := by
  induction lengths generalizing day with
  | nil => exact absurd h (Nat.not_lt_zero day)
  | cons length lengths ih =>
    rw [inMonths]
    split
    · rename_i hlt
      exact ⟨Nat.zero_add day, length, rfl, hlt⟩
    · rename_i hge
      rw [List.sum_cons] at h
      obtain ⟨hsum, next, hnext, hlt⟩ := @ih (day - length) (by omega)
      refine ⟨?_, next, hnext, hlt⟩
      show ((length :: lengths).take ((inMonths lengths (day - length)).1 + 1)).sum + _ = day
      rw [List.take_succ_cons, List.sum_cons]
      dsimp only
      omega

theorem sum_monthLengths (year : Int) : ((monthLengths (isLeap year)).sum : Int) = daysInYear year := by
  unfold daysInYear
  cases isLeap year <;> rfl

/-! ## dates -/

/-- a month is counted from 0, a day of it from 1 -/
structure Civil where
  year : Int
  month : Nat
  day : Nat
  deriving DecidableEq, Repr

def daysFromCivil (date : Civil) : Int :=
  daysBeforeYear date.year + ((monthLengths (isLeap date.year)).take date.month).sum +
    ((date.day : Int) - 1)

def civilFromDays (day : Int) : Civil :=
  let year := yearOfDay day
  let month := inMonths (monthLengths (isLeap year.1)) year.2.toNat
  { year := year.1, month := month.1, day := month.2 + 1 }

theorem civilFromDays_spec (day : Int) :
    daysFromCivil (civilFromDays day) = day ∧ ∃ length,
      (monthLengths (isLeap (civilFromDays day).year))[(civilFromDays day).month]? = some length ∧
        (civilFromDays day).day ≤ length := by
  have hrest : (yearOfDay day).2.toNat < (monthLengths (isLeap (yearOfDay day).1)).sum := by
    have hlt := yearOfDay_lt day
    rw [← sum_monthLengths] at hlt
    have hnonneg := yearOfDay_nonneg day
    omega
  obtain ⟨hsum, length, hlength, hover⟩ := inMonths_spec hrest
  have hyear := daysBeforeYear_yearOfDay day
  have hnonneg := yearOfDay_nonneg day
  unfold civilFromDays
  dsimp only
  refine ⟨?_, length, hlength, hover⟩
  rw [daysFromCivil]
  dsimp only
  omega

/-- **the date of a day** gives the day again -/
theorem daysFromCivil_civilFromDays (day : Int) : daysFromCivil (civilFromDays day) = day :=
  (civilFromDays_spec day).1

theorem civilFromDays_month_lt (day : Int) : (civilFromDays day).month < 12 := by
  obtain ⟨-, length, hlength, -⟩ := civilFromDays_spec day
  have hlt := (List.getElem?_eq_some_iff.1 hlength).1
  rwa [monthLengths] at hlt

theorem civilFromDays_day_pos (day : Int) : 0 < (civilFromDays day).day := Nat.succ_pos _

theorem civilFromDays_day_le (day : Int) : (civilFromDays day).day ≤ 31 := by
  obtain ⟨-, length, hlength, hday⟩ := civilFromDays_spec day
  have hmonths : ∀ leap, ∀ length ∈ monthLengths leap, length ≤ 31 := by decide
  exact le_trans hday (hmonths _ length (List.mem_of_getElem? hlength))

/-- a leap day, and the first day of all -/
example : civilFromDays 11016 = { year := 2000, month := 1, day := 29 } ∧
    civilFromDays 0 = { year := 1970, month := 0, day := 1 } := by decide

end CSem
