import Mathlib.Data.Nat.Notation
import Mathlib.Tactic.Common

/-!
# Civil calendar

Days counted from 1970-01-01 and civil dates of the (proleptic) Gregorian
calendar, by era arithmetic: an era is 400 years or 146097 days, and years are
counted from March so that the leap day is the last day of the year. `gmtime`
and `timegm` are the functions of the C library on non-negative times.

* `daysOfCivil_civilOfDays` / `timegm_gmtime` — breaking a time up and putting
  it together again is the identity;
* `gmtime_bounds` / `gmtime_year` — the fields of a broken-down time.
-/

namespace Calendar

/-- A broken-down time, with the full year and months counted from 1. -/
structure Tm where
  year : Nat
  mon : Nat
  mday : Nat
  hour : Nat
  min : Nat
  sec : Nat
  deriving DecidableEq, Repr

/-- Year of the era and day of that year of a day of the era: three centuries of
36524 days and a longer one, cycles of four years, years of 365 days and a
longer one. The longer ones are the last of their kind, hence the minima. -/
def yearAndDay (doe : Nat) : Nat × Nat :=
  let c := min 3 (doe / 36524)
  let doc := doe - 36524 * c
  let y := min 3 (doc % 1461 / 365)
  (100 * c + 4 * (doc / 1461) + y, doc % 1461 - 365 * y)

/-- The civil date `(year, month, day)` of a day counted from 1970-01-01. -/
def civilOfDays (days : Nat) : Nat × Nat × Nat :=
  let z := days + 719468
  let yd := yearAndDay (z % 146097)
  let mp := (5 * yd.2 + 2) / 153
  let mon := if mp < 10 then mp + 3 else mp - 9
  (yd.1 + z / 146097 * 400 + (if mp < 10 then 0 else 1), mon, yd.2 - (153 * mp + 2) / 5 + 1)

/-- Days from 1970-01-01 to a civil date; days past the end of the month count
on, as `timegm` normalises them. -/
def daysOfCivil (year mon mday : Nat) : Int :=
  let y : Int := if mon ≤ 2 then (year : Int) - 1 else year
  let mp : Int := if mon ≤ 2 then (mon : Int) + 9 else (mon : Int) - 3
  y / 400 * 146097 + (y % 400 * 365 + y % 400 / 4 - y % 400 / 100) +
    ((153 * mp + 2) / 5 + mday - 1) - 719468

/-- `gmtime_r`: the fields of a time in seconds since the epoch, in UTC. -/
def gmtime (seconds : Nat) : Tm :=
  let date := civilOfDays (seconds / 86400)
  let rest := seconds % 86400
  { year := date.1, mon := date.2.1, mday := date.2.2,
    hour := rest / 3600, min := rest % 3600 / 60, sec := rest % 60 }

/-- `timegm`: the seconds since the epoch of a broken-down time. Fields out of
their range count on, the day before 1970 is negative. -/
def timegm (tm : Tm) : Int :=
  daysOfCivil tm.year tm.mon tm.mday * 86400 + tm.hour * 3600 + tm.min * 60 + tm.sec

/-! ## Days and dates -/

/-- The day of the era is the start of its year plus the day of the year. -/
theorem yearAndDay_spec {doe : Nat} (h : doe < 146097) :
    (yearAndDay doe).1 < 400 ∧ (yearAndDay doe).2 < 366 ∧
      (yearAndDay doe).1 * 365 + (yearAndDay doe).1 / 4 + (yearAndDay doe).2 =
        doe + (yearAndDay doe).1 / 100 := by
  simp only [yearAndDay]
  -- name the divisions one by one, so that `omega` sees few of them at a time
  generalize hc : min 3 (doe / 36524) = c
  generalize hdoc : doe - 36524 * c = doc
  have hdoc_le : doc ≤ 36524 := by omega
  generalize hy : min 3 (doc % 1461 / 365) = y
  have hquarter : (100 * c + 4 * (doc / 1461) + y) / 4 = 25 * c + doc / 1461 := by omega
  have hcentury : (100 * c + 4 * (doc / 1461) + y) / 100 = c := by omega
  rw [hquarter, hcentury]
  omega

theorem daysOfCivil_civilOfDays (days : Nat) :
    daysOfCivil (civilOfDays days).1 (civilOfDays days).2.1 (civilOfDays days).2.2 = days := by
  obtain ⟨z, hz⟩ : ∃ z, z = days + 719468 := ⟨_, rfl⟩
  -- of the year and the day in it only the specification is needed
  obtain ⟨hyoe, hdoy, hspec⟩ := yearAndDay_spec (Nat.mod_lt z (by decide : 146097 > 0))
  simp only [civilOfDays, ← hz, daysOfCivil]
  generalize (yearAndDay (z % 146097)).1 = yoe at hyoe hspec ⊢
  generalize (yearAndDay (z % 146097)).2 = doy at hdoy hspec ⊢
  -- the month in years that begin in March
  generalize hmp : (5 * doy + 2) / 153 = mp
  generalize hera : z / 146097 = era
  have hdiv : ((yoe : Int) + era * 400) / 400 = era := by omega
  have hmod : ((yoe : Int) + era * 400) % 400 = yoe := by omega
  -- March to December keep the year, January and February are in the next one
  by_cases hm : mp < 10
  · have hmon : ¬ mp + 3 ≤ 2 := by omega
    simp only [hm, hmon, if_true, if_false, Nat.add_zero]
    have hyear : ((yoe + era * 400 : Nat) : Int) = (yoe : Int) + era * 400 := by omega
    rw [hyear, hdiv, hmod]
    omega
  · have hmon : mp - 9 ≤ 2 := by omega
    simp only [hm, hmon, if_true, if_false]
    have hyear : ((yoe + era * 400 + 1 : Nat) : Int) - 1 = (yoe : Int) + era * 400 := by omega
    rw [hyear, hdiv, hmod]
    omega

/-- A date has a month from 1 to 12 and a day from 1 to 31. -/
theorem civilOfDays_bounds (days : Nat) :
    1 ≤ (civilOfDays days).2.1 ∧ (civilOfDays days).2.1 ≤ 12 ∧
      1 ≤ (civilOfDays days).2.2 ∧ (civilOfDays days).2.2 ≤ 31 := by
  obtain ⟨-, hdoy, -⟩ :=
    yearAndDay_spec (Nat.mod_lt (days + 719468) (by decide : 146097 > 0))
  simp only [civilOfDays]
  generalize (yearAndDay ((days + 719468) % 146097)).2 = doy at hdoy ⊢
  generalize hmp : (5 * doy + 2) / 153 = mp
  split <;> omega

/-- The first days are in 1970, and a year has at least 365 days. -/
theorem civilOfDays_year (days : Nat) :
    1970 ≤ (civilOfDays days).1 ∧ (civilOfDays days).1 ≤ 1970 + days / 365 := by
  obtain ⟨z, hz⟩ : ∃ z, z = days + 719468 := ⟨_, rfl⟩
  obtain ⟨hyoe, hdoy, hspec⟩ := yearAndDay_spec (Nat.mod_lt z (by decide : 146097 > 0))
  simp only [civilOfDays, ← hz]
  generalize (yearAndDay (z % 146097)).1 = yoe at hyoe hspec ⊢
  generalize (yearAndDay (z % 146097)).2 = doy at hdoy hspec ⊢
  generalize hmp : (5 * doy + 2) / 153 = mp
  have hera : z = z / 146097 * 146097 + z % 146097 := by omega
  generalize z / 146097 = era at hera ⊢
  -- the epoch is in the fifth era
  have heras : era = 4 ∨ 5 ≤ era := by omega
  by_cases hm : mp < 10
  · simp only [hm, if_true]
    have hmarch : doy < 306 := by omega
    rcases heras with rfl | h <;> omega
  · simp only [hm, if_false]
    have hjanuary : 306 ≤ doy := by omega
    rcases heras with rfl | h <;> omega

/-! ## Times -/

/-- **Breaking a time up and putting it together again is the identity**, for
every time from the epoch on. -/
theorem timegm_gmtime (seconds : Nat) : timegm (gmtime seconds) = seconds := by
  simp only [timegm, gmtime, daysOfCivil_civilOfDays]
  omega

/-- The fields of a broken-down time lie in the ranges that two digits can print
and that a reader of them accepts. -/
theorem gmtime_bounds (seconds : Nat) :
    (1 ≤ (gmtime seconds).mon ∧ (gmtime seconds).mon ≤ 12) ∧
      (1 ≤ (gmtime seconds).mday ∧ (gmtime seconds).mday ≤ 31) ∧
      (gmtime seconds).hour ≤ 23 ∧ (gmtime seconds).min ≤ 59 ∧ (gmtime seconds).sec ≤ 59 := by
  have hdate := civilOfDays_bounds (seconds / 86400)
  simp only [gmtime]
  omega

/-- The year is 1970 at the earliest, and at most as many years later as there
are whole years of 365 days. -/
theorem gmtime_year (seconds : Nat) :
    1970 ≤ (gmtime seconds).year ∧ (gmtime seconds).year ≤ 1970 + seconds / 86400 / 365 :=
  civilOfDays_year _

end Calendar
