import Mathlib.Order.SuccPred.IntervalSucc
import Mathlib.Data.Int.ConditionallyCompleteOrder
import Mathlib.Data.Int.SuccPred
import Mathlib.Tactic.IntervalCases

/-!
# The proleptic Gregorian calendar

A `CivilDate` is a date of the calendar.  `dayNumber` counts the days from
1970-01-01 to a date; it is strictly increasing in the order of dates, and
`tomorrow` raises it by one.
-/

namespace Milona.Foundation

def isLeap (year : Int) : Bool :=
  decide (year % 4 = 0) && (decide (year % 100 ≠ 0) || decide (year % 400 = 0))

def yearLength (year : Int) : Nat :=
  if isLeap year then 366 else 365

def monthLength (year : Int) : Nat → Nat
  | 1 | 3 | 5 | 7 | 8 | 10 | 12 => 31
  | 4 | 6 | 9 | 11 => 30
  | 2 => if isLeap year then 29 else 28
  | _ => 0

def daysBeforeMonth (year : Int) : Nat → Nat
  | 0 => 0
  | month + 1 => daysBeforeMonth year month + monthLength year month

/-- Days from the first day of year 1 to the first day of `year`. -/
def daysBeforeYear (year : Int) : Int :=
  365 * (year - 1) + (year - 1) / 4 - (year - 1) / 100 + (year - 1) / 400

structure CivilDate where
  year : Int
  month : Nat
  day : Nat
  one_le_month : 1 ≤ month
  month_le : month ≤ 12
  one_le_day : 1 ≤ day
  day_le : day ≤ monthLength year month
  deriving DecidableEq

theorem isLeap_iff (year : Int) :
    isLeap year = true ↔ year % 4 = 0 ∧ (year % 100 ≠ 0 ∨ year % 400 = 0) := by
  simp [isLeap]

theorem daysBeforeYear_succ (year : Int) :
    daysBeforeYear (year + 1) = daysBeforeYear year + yearLength year := by
  have hleap := isLeap_iff year
  unfold daysBeforeYear yearLength
  cases h : isLeap year with
  | false =>
      rw [h] at hleap
      simp only [Bool.false_eq_true, false_iff, if_false] at hleap ⊢
      omega
  | true =>
      rw [h] at hleap
      simp only [true_iff, if_true] at hleap ⊢
      omega

theorem daysBeforeYear_mono : Monotone daysBeforeYear := by
  apply monotone_int_of_le_succ
  intro year
  rw [daysBeforeYear_succ]
  omega

theorem daysBeforeMonth_mono (year : Int) : Monotone (daysBeforeMonth year) := by
  apply monotone_nat_of_le_succ
  intro month
  exact Nat.le_add_right _ _

theorem daysBeforeMonth_thirteen (year : Int) :
    daysBeforeMonth year 13 = yearLength year := by
  cases h : isLeap year <;> simp [daysBeforeMonth, monthLength, yearLength, h]

theorem monthLength_le (year : Int) (month : Nat) : monthLength year month ≤ 31 := by
  unfold monthLength
  split <;> (try split) <;> omega

theorem one_le_monthLength (year : Int) {month : Nat} (hlow : 1 ≤ month)
    (hhigh : month ≤ 12) : 1 ≤ monthLength year month := by
  cases h : isLeap year <;> interval_cases month <;> simp [monthLength, h]

namespace CivilDate

def fields (date : CivilDate) : Int × Nat × Nat := (date.year, date.month, date.day)

def ofFields (year : Int) (month day : Nat) : Option CivilDate :=
  if h : (1 ≤ month ∧ month ≤ 12) ∧ 1 ≤ day ∧ day ≤ monthLength year month then
    some ⟨year, month, day, h.1.1, h.1.2, h.2.1, h.2.2⟩
  else none

theorem ofFields_fields (date : CivilDate) :
    ofFields date.year date.month date.day = some date := by
  unfold ofFields
  rw [dif_pos ⟨⟨date.one_le_month, date.month_le⟩, date.one_le_day, date.day_le⟩]

def dayNumber (date : CivilDate) : Int :=
  daysBeforeYear date.year + daysBeforeMonth date.year date.month + date.day -
    daysBeforeYear 1970 - 1

/-- The order of dates: by year, then month, then day. -/
def Precedes (first second : CivilDate) : Prop :=
  first.year < second.year ∨
    first.year = second.year ∧
      (first.month < second.month ∨
        first.month = second.month ∧ first.day < second.day)

def tomorrow (date : CivilDate) : CivilDate :=
  if hday : date.day < monthLength date.year date.month then
    { date with
      day := date.day + 1
      one_le_day := by omega
      day_le := hday }
  else if hmonth : date.month < 12 then
    { year := date.year
      month := date.month + 1
      day := 1
      one_le_month := by omega
      month_le := hmonth
      one_le_day := le_refl 1
      day_le := one_le_monthLength date.year (by omega) hmonth }
  else
    { year := date.year + 1
      month := 1
      day := 1
      one_le_month := le_refl 1
      month_le := by omega
      one_le_day := le_refl 1
      day_le := one_le_monthLength _ (le_refl 1) (by omega) }

theorem ext_fields {first second : CivilDate} (hyear : first.year = second.year)
    (hmonth : first.month = second.month) (hday : first.day = second.day) :
    first = second := by
  cases first
  cases second
  subst hyear hmonth hday
  rfl

theorem daysBefore_le_yearLength (date : CivilDate) :
    daysBeforeMonth date.year date.month + date.day ≤ yearLength date.year := by
  calc
    daysBeforeMonth date.year date.month + date.day
        ≤ daysBeforeMonth date.year (date.month + 1) :=
          Nat.add_le_add_left date.day_le _
    _ ≤ daysBeforeMonth date.year 13 :=
          daysBeforeMonth_mono date.year (Nat.succ_le_succ date.month_le)
    _ = yearLength date.year := daysBeforeMonth_thirteen date.year

private theorem dayNumber_lt_of_year_lt {first second : CivilDate}
    (h : first.year < second.year) : first.dayNumber < second.dayNumber := by
  have hyears : daysBeforeYear (first.year + 1) ≤ daysBeforeYear second.year :=
    daysBeforeYear_mono h
  rw [daysBeforeYear_succ] at hyears
  have hfirst := first.daysBefore_le_yearLength
  have hsecond := second.one_le_day
  unfold dayNumber
  omega

private theorem dayNumber_lt_of_month_lt {first second : CivilDate}
    (hyear : first.year = second.year) (h : first.month < second.month) :
    first.dayNumber < second.dayNumber := by
  have hmonths : daysBeforeMonth second.year (first.month + 1) ≤
      daysBeforeMonth second.year second.month := daysBeforeMonth_mono _ h
  have hfirst := first.day_le
  have hsecond := second.one_le_day
  rw [daysBeforeMonth] at hmonths
  rw [hyear] at hfirst
  unfold dayNumber
  rw [hyear]
  omega

theorem dayNumber_lt_of_precedes {first second : CivilDate}
    (h : first.Precedes second) : first.dayNumber < second.dayNumber := by
  rcases h with hyear | ⟨hyear, hmonth | ⟨hmonth, hday⟩⟩
  · exact dayNumber_lt_of_year_lt hyear
  · exact dayNumber_lt_of_month_lt hyear hmonth
  · unfold dayNumber
    rw [hyear, hmonth]
    omega

theorem precedes_or_eq_or_precedes (first second : CivilDate) :
    first.Precedes second ∨ first = second ∨ second.Precedes first := by
  unfold Precedes
  rcases lt_trichotomy first.year second.year with hyear | hyear | hyear
  · exact Or.inl (Or.inl hyear)
  · rcases lt_trichotomy first.month second.month with hmonth | hmonth | hmonth
    · exact Or.inl (Or.inr ⟨hyear, Or.inl hmonth⟩)
    · rcases lt_trichotomy first.day second.day with hday | hday | hday
      · exact Or.inl (Or.inr ⟨hyear, Or.inr ⟨hmonth, hday⟩⟩)
      · exact Or.inr (Or.inl (ext_fields hyear hmonth hday))
      · exact Or.inr (Or.inr (Or.inr ⟨hyear.symm, Or.inr ⟨hmonth.symm, hday⟩⟩))
    · exact Or.inr (Or.inr (Or.inr ⟨hyear.symm, Or.inl hmonth⟩))
  · exact Or.inr (Or.inr (Or.inl hyear))

theorem precedes_of_dayNumber_lt {first second : CivilDate}
    (h : first.dayNumber < second.dayNumber) : first.Precedes second := by
  rcases precedes_or_eq_or_precedes first second with hlt | heq | hgt
  · exact hlt
  · rw [heq] at h
    exact absurd h (lt_irrefl _)
  · exact absurd h (dayNumber_lt_of_precedes hgt).asymm

theorem dayNumber_injective : Function.Injective dayNumber := by
  intro first second h
  rcases precedes_or_eq_or_precedes first second with hlt | heq | hgt
  · exact absurd h (dayNumber_lt_of_precedes hlt).ne
  · exact heq
  · exact absurd h (dayNumber_lt_of_precedes hgt).ne'

theorem dayNumber_tomorrow (date : CivilDate) :
    date.tomorrow.dayNumber = date.dayNumber + 1 := by
  have hlow := date.one_le_day
  have hday := date.day_le
  have hmonth := date.month_le
  unfold tomorrow
  split
  · simp only [dayNumber, Nat.cast_add, Nat.cast_one]
    omega
  · have hlast : date.day = monthLength date.year date.month := by omega
    split
    · simp only [dayNumber, daysBeforeMonth, Nat.cast_add, Nat.cast_one]
      omega
    · have hmonth : date.month = 12 := by omega
      have hyear := daysBeforeMonth_thirteen date.year
      rw [daysBeforeMonth, ← hmonth] at hyear
      have hfirst : daysBeforeMonth (date.year + 1) 1 = 0 := rfl
      simp only [dayNumber, hfirst, daysBeforeYear_succ, ← hyear, Nat.cast_add]
      omega

theorem year_lt_of_dayNumber_lt {date : CivilDate} {year : Int}
    (h : date.dayNumber < daysBeforeYear year - daysBeforeYear 1970) :
    date.year < year := by
  by_contra hyear
  have hmono := daysBeforeYear_mono (not_lt.mp hyear)
  have hday := date.one_le_day
  unfold dayNumber at h
  omega

theorem le_year_of_le_dayNumber {date : CivilDate} {year : Int}
    (h : daysBeforeYear year - daysBeforeYear 1970 ≤ date.dayNumber) :
    year ≤ date.year := by
  by_contra hyear
  have hmono := daysBeforeYear_mono (show date.year + 1 ≤ year by omega)
  rw [daysBeforeYear_succ] at hmono
  have hday := date.daysBefore_le_yearLength
  unfold dayNumber at h
  omega

end CivilDate

end Milona.Foundation
