import Milona.Foundation.Calendar
import Milona.Foundation.MachineInt

/-!
# The current time

`civilFromDays` turns a day count into a date by checked 64-bit arithmetic.  It
meets the calendar: no operation overflows, and the date it returns is the one
whose `dayNumber` is the given count.
-/

namespace Milona.Tools

open Milona.Foundation

def eraOf (z : Int) : Option Int := do
  return (← if z ≥ 0 then some z else I64.sub z 146096).tdiv 146097

def yearOfEra (doe : Nat) : Option Nat := do
  let days ← U64.sub doe (doe / 1460)
  let days ← U64.add days (doe / 36524)
  return (← U64.sub days (doe / 146096)) / 365

def dayOfYear (doe yoe : Nat) : Option Nat := do
  let days ← U64.add (← U64.mul 365 yoe) (yoe / 4)
  U64.sub doe (← U64.sub days (yoe / 100))

def monthIndex (doy : Nat) : Option Nat := do
  return (← U64.add (← U64.mul 5 doy) 2) / 153

def dayOfMonth (doy mp : Nat) : Option Nat := do
  let before := (← U64.add (← U64.mul 153 mp) 2) / 5
  return U32.ofU64 (← U64.add (← U64.sub doy before) 1)

def monthOf (mp : Nat) : Option Nat := do
  return U32.ofU64 (← if mp < 10 then U64.add mp 3 else U64.sub mp 9)

def yearOf (y : Int) (month : Nat) : Option Int :=
  if month ≤ 2 then I64.add y 1 else some y

def civilFromDays (z : Int) : Option (Int × Nat × Nat) := do
  let z ← I64.add z 719468
  let era ← eraOf z
  let doe := U64.ofI64 (← I64.sub z (← I64.mul era 146097))
  let yoe ← yearOfEra doe
  let y ← I64.add (I64.ofU64 yoe) (← I64.mul era 400)
  let doy ← dayOfYear doe yoe
  let mp ← monthIndex doy
  let day ← dayOfMonth doy mp
  let month ← monthOf mp
  let year ← yearOf y month
  return (year, month, day)

/-- Days of an era without the leap days before `doe`. -/
def commonDays (doe : Nat) : Nat := doe - doe / 1460 + doe / 36524 - doe / 146096

/-- The first day of the `yoe`-th year, March to February, of an era. -/
def yearStart (yoe : Nat) : Nat := 365 * yoe + yoe / 4 - yoe / 100 + yoe / 400

theorem commonDays_mono : Monotone commonDays := by
  apply monotone_nat_of_le_succ
  intro doe
  have hnested : ∀ n, n / 146096 = n / 36524 / 4 :=
    fun n => (Nat.div_div_eq_div_mul n 36524 4).symm
  unfold commonDays
  rw [hnested, hnested]
  omega

theorem commonDays_yearStart : ∀ yoe < 400,
    365 * yoe ≤ commonDays (yearStart yoe) ∧
      commonDays (yearStart (yoe + 1) - 1) < 365 * (yoe + 1) := by
  decide +kernel

theorem yearOfEra_lt {doe : Nat} (h : doe < 146097) : commonDays doe / 365 < 400 := by
  unfold commonDays
  omega

theorem yearStart_le {doe : Nat} (h : doe < 146097) :
    yearStart (commonDays doe / 365) ≤ doe := by
  have hlast := yearOfEra_lt h
  generalize hyoe : commonDays doe / 365 = yoe at hlast
  by_contra hlow
  cases yoe with
  | zero => exact hlow (Nat.zero_le _)
  | succ yoe =>
      have hbefore : doe ≤ yearStart (yoe + 1) - 1 := by omega
      have hmono := commonDays_mono hbefore
      have hend := (commonDays_yearStart yoe (by omega)).2
      omega

private theorem lt_yearStart_succ {doe : Nat} (h : doe < 146097) :
    doe < yearStart (commonDays doe / 365 + 1) := by
  have hlast := yearOfEra_lt h
  generalize hyoe : commonDays doe / 365 = yoe at hlast
  by_contra hhigh
  by_cases hnext : yoe + 1 < 400
  · have hmono := commonDays_mono (not_lt.mp hhigh)
    have hstart := (commonDays_yearStart (yoe + 1) hnext).1
    omega
  · have hyear : yoe + 1 = 400 := by omega
    rw [hyear] at hhigh
    exact hhigh (lt_of_lt_of_le h (by decide))

theorem daysBeforeYear_of_era (era : Int) (yoe : Nat) :
    daysBeforeYear (yoe + era * 400 + 1) = 146097 * era + yearStart yoe := by
  unfold daysBeforeYear yearStart
  omega

theorem dayOfYear_lt {doe : Nat} (h : doe < 146097) (era : Int) :
    doe - yearStart (commonDays doe / 365) <
      yearLength ((commonDays doe / 365 : Nat) + era * 400 + 1) := by
  have hlow := yearStart_le h
  have hhigh := lt_yearStart_succ h
  generalize commonDays doe / 365 = yoe at hlow hhigh
  have hyear := daysBeforeYear_of_era era yoe
  have hnext := daysBeforeYear_of_era era (yoe + 1)
  have hsucc := daysBeforeYear_succ (yoe + era * 400 + 1)
  have hshift : ((yoe + 1 : Nat) : Int) + era * 400 + 1 = yoe + era * 400 + 1 + 1 := by
    omega
  rw [hshift] at hnext
  omega

/-- The month and the year of the `mp`-th month from March of year `y` on. -/
def marchMonth (mp : Nat) : Nat := if mp < 10 then mp + 3 else mp - 9

def marchYear (y : Int) (mp : Nat) : Int := if mp < 10 then y else y + 1

theorem yearLength_le (year : Int) : yearLength year ≤ 366 := by
  unfold yearLength
  split <;> omega

theorem marchIndex_lt {y : Int} {doy : Nat} (h : doy < yearLength (y + 1)) :
    (5 * doy + 2) / 153 < 12 := by
  have hlength := yearLength_le (y + 1)
  omega

theorem marchMonth_bounds {mp : Nat} (h : mp < 12) :
    1 ≤ marchMonth mp ∧ marchMonth mp ≤ 12 := by
  unfold marchMonth
  split <;> omega

theorem daysBeforeMonth_march (y : Int) {mp : Nat} (h : mp < 12) :
    daysBeforeYear (marchYear y mp) +
        daysBeforeMonth (marchYear y mp) (marchMonth mp) =
      daysBeforeYear (y + 1) - 306 + ((153 * mp + 2) / 5 : Nat) := by
  have hsucc := daysBeforeYear_succ y
  cases hleap : isLeap y <;> interval_cases mp <;>
    simp [marchMonth, marchYear, daysBeforeMonth, monthLength, yearLength, hleap]
      at hsucc ⊢ <;>
    omega

private theorem monthLength_march (y : Int) {mp : Nat} (h : mp < 11) :
    (153 * mp + 2) / 5 + monthLength (marchYear y mp) (marchMonth mp) =
      (153 * (mp + 1) + 2) / 5 := by
  interval_cases mp <;> rfl

private theorem monthLength_february (y : Int) :
    337 + monthLength (marchYear y 11) (marchMonth 11) = yearLength (y + 1) := by
  cases hleap : isLeap (y + 1) <;>
    simp [marchMonth, marchYear, monthLength, yearLength, hleap]

theorem dayOfMonth_le (y : Int) {doy : Nat} (h : doy < yearLength (y + 1)) :
    doy - (153 * ((5 * doy + 2) / 153) + 2) / 5 + 1 ≤
      monthLength (marchYear y ((5 * doy + 2) / 153))
        (marchMonth ((5 * doy + 2) / 153)) := by
  by_cases hlast : doy < 337
  · have hmonth := monthLength_march y
      (show (5 * doy + 2) / 153 < 11 by omega)
    omega
  · have hlength := yearLength_le (y + 1)
    have hmp : (5 * doy + 2) / 153 = 11 := by omega
    have hmonth := monthLength_february y
    rw [hmp]
    omega

/-- The `doy`-th day from the first of March of year `y` on. -/
def marchDate (y : Int) (doy : Nat) (h : doy < yearLength (y + 1)) : CivilDate where
  year := marchYear y ((5 * doy + 2) / 153)
  month := marchMonth ((5 * doy + 2) / 153)
  day := doy - (153 * ((5 * doy + 2) / 153) + 2) / 5 + 1
  one_le_month := (marchMonth_bounds (marchIndex_lt h)).1
  month_le := (marchMonth_bounds (marchIndex_lt h)).2
  one_le_day := Nat.le_add_left 1 _
  day_le := dayOfMonth_le y h

theorem dayNumber_marchDate (y : Int) (doy : Nat) (h : doy < yearLength (y + 1)) :
    (marchDate y doy h).dayNumber =
      daysBeforeYear (y + 1) - 306 + doy - daysBeforeYear 1970 := by
  have hmonth := daysBeforeMonth_march y (marchIndex_lt h)
  have hstart : (153 * ((5 * doy + 2) / 153) + 2) / 5 ≤ doy := by omega
  unfold CivilDate.dayNumber
  simp only [marchDate]
  omega

theorem eraOf_eq {z : Int} (hlow : -2 ^ 63 + 146096 ≤ z) :
    eraOf z = some (z / 146097) := by
  unfold eraOf
  by_cases hz : z ≥ 0
  · rw [if_pos hz]
    change some (z.tdiv 146097) = some (z / 146097)
    rw [Int.tdiv_eq_ediv_of_nonneg hz]
  · rw [if_neg hz, I64.sub_eq (by omega) (by omega)]
    change some ((z - 146096).tdiv 146097) = some (z / 146097)
    have hneg : z - 146096 = -(146096 - z) := by omega
    rw [hneg, Int.neg_tdiv, Int.tdiv_eq_ediv_of_nonneg (by omega), Option.some.injEq]
    omega

theorem yearOfEra_eq {doe : Nat} (h : doe < 146097) :
    yearOfEra doe = some (commonDays doe / 365) := by
  unfold yearOfEra
  simp only [Option.bind_eq_bind]
  rw [U64.sub_eq (by omega), Option.bind_some, U64.add_eq (by omega), Option.bind_some,
    U64.sub_eq (by omega), Option.bind_some]
  rfl

theorem dayOfYear_eq {doe yoe : Nat} (hyoe : yoe < 400) (h : yearStart yoe ≤ doe) :
    dayOfYear doe yoe = some (doe - yearStart yoe) := by
  have hstart : yearStart yoe = 365 * yoe + yoe / 4 - yoe / 100 := by
    unfold yearStart
    omega
  rw [hstart] at h ⊢
  unfold dayOfYear
  simp only [Option.bind_eq_bind]
  rw [U64.mul_eq (by omega), Option.bind_some, U64.add_eq (by omega), Option.bind_some,
    U64.sub_eq (by omega), Option.bind_some, U64.sub_eq h]

theorem monthIndex_eq {doy : Nat} (h : doy ≤ 365) :
    monthIndex doy = some ((5 * doy + 2) / 153) := by
  unfold monthIndex
  simp only [Option.bind_eq_bind]
  rw [U64.mul_eq (by omega), Option.bind_some, U64.add_eq (by omega), Option.bind_some,
    Option.pure_def]

theorem dayOfMonth_eq {doy mp : Nat} (hdoy : doy ≤ 365) (hmp : mp = (5 * doy + 2) / 153) :
    dayOfMonth doy mp = some (doy - (153 * mp + 2) / 5 + 1) := by
  unfold dayOfMonth
  simp only [Option.bind_eq_bind]
  rw [U64.mul_eq (by omega), Option.bind_some, U64.add_eq (by omega), Option.bind_some,
    U64.sub_eq (by omega), Option.bind_some, U64.add_eq (by omega), Option.bind_some,
    Option.pure_def, U32.ofU64_eq (by omega)]

private theorem monthOf_eq {mp : Nat} (h : mp < 12) : monthOf mp = some
    (marchMonth mp) := by
  unfold monthOf marchMonth
  simp only [Option.bind_eq_bind]
  split
  · rw [U64.add_eq (by omega), Option.bind_some, U32.ofU64_eq (by omega), Option.pure_def]
  · rw [U64.sub_eq (by omega), Option.bind_some, U32.ofU64_eq (by omega), Option.pure_def]

private theorem yearOf_eq {y : Int} {mp : Nat} (h : mp < 12)
    (hlow : -2 ^ 63 ≤ y + 1)
    (hhigh : y + 1 < 2 ^ 63) : yearOf y (marchMonth mp) = some (marchYear y mp) := by
  unfold yearOf marchMonth marchYear
  by_cases hmp : mp < 10
  · rw [if_pos hmp, if_neg (by omega), if_pos hmp]
  · rw [if_neg hmp, if_pos (by omega), if_neg hmp, I64.add_eq hlow hhigh]

theorem civilFromDays_spec {z : Int} (hlow : -2 ^ 63 ≤ z)
    (hhigh : z ≤ 2 ^ 63 - 1 - 719468) :
    ∃ date : CivilDate,
      civilFromDays z = some date.fields ∧ date.dayNumber = z := by
  obtain ⟨doe, hdoe⟩ : ∃ doe : Nat, (doe : Int) = (z + 719468) % 146097 :=
    ⟨((z + 719468) % 146097).toNat, by omega⟩
  have hlt : doe < 146097 := by omega
  have hera := Int.mul_ediv_add_emod (z + 719468) 146097
  rw [← hdoe] at hera
  generalize hdiv : (z + 719468) / 146097 = era at hera
  have hyoe := yearOfEra_lt hlt
  have hstart := yearStart_le hlt
  have hday := dayOfYear_lt hlt era
  have hyear := daysBeforeYear_of_era era (commonDays doe / 365)
  have hof := yearOfEra_eq hlt
  generalize commonDays doe / 365 = yoe at *
  have hdoy : doe - yearStart yoe ≤ 365 := by
    have hlength := yearLength_le (yoe + era * 400 + 1)
    omega
  refine ⟨marchDate _ _ hday, ?_, ?_⟩
  · unfold civilFromDays
    simp only [Option.bind_eq_bind]
    rw [I64.add_eq (by omega) (by omega), Option.bind_some, eraOf_eq (by omega),
      Option.bind_some, hdiv, I64.mul_eq (by omega) (by omega), Option.bind_some,
      I64.sub_eq (by omega) (by omega), Option.bind_some,
      U64.ofI64_eq (by omega) (by omega)]
    have hnat : (z + 719468 - era * 146097).toNat = doe := by omega
    rw [hnat, hof, Option.bind_some, I64.mul_eq (by omega) (by omega), Option.bind_some,
      I64.ofU64_eq (by omega), I64.add_eq (by omega) (by omega), Option.bind_some,
      dayOfYear_eq hyoe hstart, Option.bind_some, monthIndex_eq hdoy, Option.bind_some,
      dayOfMonth_eq hdoy rfl, Option.bind_some, monthOf_eq (marchIndex_lt hday),
      Option.bind_some, yearOf_eq (marchIndex_lt hday) (by omega) (by omega),
      Option.bind_some]
    rfl
  · have hepoch : daysBeforeYear 1970 = 719162 := by decide
    rw [dayNumber_marchDate, hyear, hepoch]
    omega

private theorem civilFromDays_dayNumber (date : CivilDate)
    (hlow : -2 ^ 63 ≤ date.dayNumber)
    (hhigh : date.dayNumber ≤ 2 ^ 63 - 1 - 719468) :
    civilFromDays date.dayNumber = some date.fields := by
  obtain ⟨other, heq, hday⟩ := civilFromDays_spec hlow hhigh
  rw [heq, CivilDate.dayNumber_injective hday]

theorem civilFromDays_correct {z : Int} (hlow : -2 ^ 63 ≤ z)
    (hhigh : z ≤ 2 ^ 63 - 1 - 719468) :
    civilFromDays 0 = some (1970, 1, 1) ∧
      ∃ date : CivilDate,
        civilFromDays z = some date.fields ∧
          date.dayNumber = z ∧
          (∀ other : CivilDate,
            other.dayNumber = z → civilFromDays z = some other.fields) ∧
          (z + 1 ≤ 2 ^ 63 - 1 - 719468 →
            civilFromDays (z + 1) = some date.tomorrow.fields) := by
  refine ⟨by decide, ?_⟩
  obtain ⟨date, heq, hday⟩ := civilFromDays_spec hlow hhigh
  refine ⟨date, heq, hday, ?_, ?_⟩
  · rintro other rfl
    exact civilFromDays_dayNumber other hlow hhigh
  · intro hnext
    have htomorrow := date.dayNumber_tomorrow
    rw [hday] at htomorrow
    rw [← htomorrow]
    exact civilFromDays_dayNumber _ (by omega) (by omega)

theorem civilFromDays_correct_epoch :
    civilFromDays 0 = some (1970, 1, 1) ∧
      ∃ date : CivilDate,
        civilFromDays 0 = some date.fields ∧
          date.dayNumber = 0 ∧
          (∀ other : CivilDate,
            other.dayNumber = 0 → civilFromDays 0 = some other.fields) ∧
          ((0 : Int) + 1 ≤ 2 ^ 63 - 1 - 719468 →
            civilFromDays (0 + 1) = some date.tomorrow.fields) :=
  civilFromDays_correct (z := 0) (by decide) (by decide)

end Milona.Tools
