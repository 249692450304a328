import LoopbackOData.Filter.Where

/-!
# Years of dates

The year that a date falls into, and the dates that begin a year within the range that dates have.
-/

namespace LoopbackOData

set_option autoImplicit false

/-- The dates that there are lie so many milliseconds around the epoch. -/
def maxTime : Int := 8640000000000000

def isTime (ms : Int) : Bool := -maxTime ≤ ms && ms ≤ maxTime

def msPerDay : Int := 86400000

/-- The first instant of a year, whether it is in range or not. -/
def timeFromYear (year : Int) : Int := msPerDay * dayFromYear year

/-- The year of a day: the mean length of a year misses it by one at most. -/
def yearFromDay (day : Int) : Int :=
  let year := 1970 + 400 * day / 146097
  if day < dayFromYear year then year - 1
  else if dayFromYear (year + 1) ≤ day then year + 1
  else year

/-- `getUTCFullYear`. -/
def yearFromTime (ms : Int) : Int := yearFromDay (ms / msPerDay)

theorem dayFromYear_lt {a b : Int} (h : a < b) : dayFromYear a < dayFromYear b := by
  unfold dayFromYear
  omega

theorem dayFromYear_le {a b : Int} (h : a ≤ b) : dayFromYear a ≤ dayFromYear b := by
  rcases Int.lt_or_eq_of_le h with h | rfl
  · exact Int.le_of_lt (dayFromYear_lt h)
  · exact Int.le_refl _

theorem yearFromDay_spec (day : Int) :
    dayFromYear (yearFromDay day) ≤ day ∧ day < dayFromYear (yearFromDay day + 1) := by
  have hestimate : dayFromYear (1970 + 400 * day / 146097 - 1) ≤ day ∧
      day < dayFromYear (1970 + 400 * day / 146097 + 1 + 1) := by
    unfold dayFromYear
    omega
  unfold yearFromDay
  dsimp only
  split
  · next h =>
    rw [Int.sub_add_cancel]
    exact ⟨hestimate.1, h⟩
  · next hle =>
    split
    · next h => exact ⟨h, hestimate.2⟩
    · next hlt => exact ⟨Int.not_lt.mp hle, Int.not_le.mp hlt⟩

theorem le_yearFromDay_iff {year day : Int} : year ≤ yearFromDay day ↔ dayFromYear year ≤ day := by
  obtain ⟨hle, hlt⟩ := yearFromDay_spec day
  constructor
  · intro h
    exact Int.le_trans (dayFromYear_le h) hle
  · intro h
    by_contra hnot
    have hnext : yearFromDay day + 1 ≤ year := by omega
    have := dayFromYear_le hnext
    omega

/-- A date is in a year or after it from the first instant of the year on. -/
theorem le_yearFromTime_iff {year ms : Int} : year ≤ yearFromTime ms ↔ timeFromYear year ≤ ms := by
  rw [yearFromTime, le_yearFromDay_iff, timeFromYear, msPerDay]
  omega

theorem timeFromYear_lt {a b : Int} (h : a < b) : timeFromYear a < timeFromYear b := by
  have := dayFromYear_lt h
  unfold timeFromYear msPerDay
  omega

theorem timeFromYear_le {a b : Int} (h : a ≤ b) : timeFromYear a ≤ timeFromYear b := by
  have := dayFromYear_le h
  unfold timeFromYear msPerDay
  omega

/-! ## The range of dates -/

/-- The years of the first and of the last date; the first year is in range from April on. -/
def minYear : Int := -271821

def maxYear : Int := 275760

theorem timeFromYear_minYear : timeFromYear minYear < -maxTime := by decide

theorem neg_maxTime_lt_timeFromYear : -maxTime < timeFromYear (minYear + 1) := by decide

theorem timeFromYear_maxYear : timeFromYear maxYear ≤ maxTime := by decide

theorem maxTime_lt_timeFromYear : maxTime < timeFromYear (maxYear + 1) := by decide

/-- No year begins with the first date. -/
theorem timeFromYear_ne (year : Int) : timeFromYear year ≠ -maxTime := by
  intro h
  rcases Int.lt_or_le minYear year with hlt | hle
  · have hlater : minYear + 1 ≤ year := by omega
    have := timeFromYear_le hlater
    have := neg_maxTime_lt_timeFromYear
    omega
  · have := timeFromYear_le hle
    have := timeFromYear_minYear
    omega

theorem timeFromYear_le_neg_maxTime {year : Int} : timeFromYear year ≤ -maxTime ↔ year ≤ minYear := by
  constructor
  · intro h
    by_contra hnot
    have hlater : minYear + 1 ≤ year := by omega
    have := timeFromYear_le hlater
    have := neg_maxTime_lt_timeFromYear
    omega
  · intro h
    have := timeFromYear_le h
    have := timeFromYear_minYear
    omega

theorem timeFromYear_le_maxTime {year : Int} : timeFromYear year ≤ maxTime ↔ year ≤ maxYear := by
  constructor
  · intro h
    by_contra hnot
    have hlater : maxYear + 1 ≤ year := by omega
    have := timeFromYear_le hlater
    have := maxTime_lt_timeFromYear
    omega
  · intro h
    have := timeFromYear_le h
    have := timeFromYear_maxYear
    omega

/-- A bound is the first instant of some year, or an invalid date. -/
theorem startOfYear_cases (year : Rat) :
    startOfYear year = .invalidDate ∨
      ∃ first, startOfYear year = .date (timeFromYear first) ∧
        isTime (timeFromYear first) = true := by
  unfold startOfYear
  dsimp only
  generalize (if 0 ≤ (if 0 ≤ year then year.floor else year.ceil) ∧
    (if 0 ≤ year then year.floor else year.ceil) ≤ 99 then
      1900 + (if 0 ≤ year then year.floor else year.ceil)
    else (if 0 ≤ year then year.floor else year.ceil)) = first
  split
  · next h =>
    right
    refine ⟨first, rfl, ?_⟩
    rw [isTime, Bool.and_eq_true, decide_eq_true_eq, decide_eq_true_eq, timeFromYear, msPerDay,
      maxTime]
    omega
  · exact Or.inl rfl

end LoopbackOData
