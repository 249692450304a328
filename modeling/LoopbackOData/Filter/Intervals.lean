import LoopbackOData.Filter.Patterns
import LoopbackOData.Filter.Years

/-!
# Functions of numbers and dates as intervals

`buildWhere` turns a comparison of `round`, `floor`, `ceiling` or `year` into bounds on the
property itself. When the bounds are those of the values that the comparison holds of.
-/

namespace LoopbackOData

set_option autoImplicit false

/-! ## What the clauses and the functions mean -/

/-- The conditions that a clause puts on its property. -/
def Where.conditions : Where → List Condition
  | .property _ condition => [condition]
  | .and clauses => clauses.filterMap fun
    | .property _ condition => some condition
    | _ => none
  | _ => []

/-- The operators of the `where` language. -/
def WhereOperator.isDefined : WhereOperator → Bool
  | .le => false
  | _ => true

def Condition.isDefined : Condition → Bool
  | .operator op _ => op.isDefined
  | _ => true

/-- A bound that is an invalid date is one that no value meets. -/
def Condition.isMeetable : Condition → Bool
  | .operator _ (.single .invalidDate) => false
  | _ => true

/-- A database that orders numbers and dates. -/
structure Database.ReadsNumbers (db : Database) : Prop where
  number : ∀ field x y, db.compare field (.num x) (.num y) = compareOfLessAndEq x y
  date : ∀ field s t, db.compare field (.date s) (.date t) = compareOfLessAndEq s t

/-- The stored value meets the conditions of the clause. -/
def Database.Meets (db : Database) (field : Text) (stored : Scalar) (w : Where) : Prop :=
  ∀ condition ∈ w.conditions,
    condition.isMeetable ∧ db.condition field stored condition = some .true

/-- The value of a function at the values it is for; halves are rounded up. -/
def FieldFunction.value : FieldFunction → Scalar → Option Rat
  | .round, .num x => some (x + 1 / 2).floor
  | .floor, .num x => some x.floor
  | .ceiling, .num x => some x.ceil
  | .year, .date ms => if isTime ms then some (yearFromTime ms) else none
  | _, _ => none

/-- The bound on dates is the first instant of the year. -/
def StartsAt (bound : Rat) (year : Int) : Prop := startOfYear bound = .date (timeFromYear year)

/-- The dates on or after a bound are those of a year and later. -/
def LowerBound (bound : Rat) (year : Int) : Prop :=
  StartsAt bound year ∨ (startOfYear bound = .invalidDate ∧ maxYear < year)

/-- The dates before a bound are those of earlier years. -/
def UpperBound (bound : Rat) (year : Int) : Prop :=
  StartsAt bound year ∨ (startOfYear bound = .invalidDate ∧ year ≤ minYear)

/-- No date lies between the bounds. -/
def EmptyRange (lower upper : Rat) : Prop :=
  startOfYear lower = .invalidDate ∨ startOfYear upper = .invalidDate ∨
    ∃ s t, startOfYear lower = .date s ∧ startOfYear upper = .date t ∧ t ≤ s

/-- The literals that a comparison of the year is translated exactly for. -/
def YearExact (comparator : Comparator) (value : Rat) : Prop :=
  match comparator with
  | .gte => LowerBound value value.ceil
  | .lt => UpperBound value value.ceil
  | .gt => LowerBound (value + 1) (value.floor + 1)
  | .lte => UpperBound (value + 1) (value.floor + 1)
  | .eq =>
    if isInteger value ∧ minYear ≤ value.floor ∧ value.floor ≤ maxYear then
      StartsAt value value.floor ∧ StartsAt (value + 1) (value.floor + 1)
    else EmptyRange value (value + 1)
  | _ => True

/-- The comparisons that are translated exactly. -/
def FieldFunction.Exact (name : FieldFunction) (comparator : Comparator) (value : Rat) : Prop :=
  match name with
  | .round => isInteger value
  | .floor => isInteger value
  | .ceiling => comparator = .gte ∧ isInteger value
  | .year => YearExact comparator value

/-! ## Integers among the rationals -/

theorem isInteger_iff {q : Rat} : isInteger q = true ↔ (q.floor : Rat) = q := by
  rw [isInteger, decide_eq_true_eq]
  constructor
  · intro h
    rw [Rat.floor_def, h]
    simp [← Rat.den_eq_one_iff, h]
  · intro h
    rw [← h]
    rfl

theorem isInteger_of_le_floor {q : Rat} (h : q ≤ q.floor) : isInteger q = true :=
  isInteger_iff.mpr (le_antisymm (Rat.floor_le q) h)

theorem isInteger_eq_intCast {q : Rat} (h : isInteger q = true) : ∃ n : Int, q = n :=
  ⟨q.floor, (isInteger_iff.mp h).symm⟩

/-! ## Bounds on a property -/

/-- A comparison in terms of the bounds: the property is on or after, or before, each of them. -/
def intervalHolds (comparator : Comparator) (geLower ltLower geUpper ltUpper : Prop) : Prop :=
  match comparator with
  | .eq => geLower ∧ ltUpper
  | .gte => geLower
  | .gt => geUpper
  | .lte => ltUpper
  | .lt => ltLower
  | _ => False

/-- The comparators of the numeric functions. -/
def Comparator.isOrdering : Comparator → Bool
  | .eq => true
  | .gt => true
  | .gte => true
  | .lt => true
  | .lte => true
  | _ => false

theorem floor_exact_iff {v : Rat} {comparator : Comparator} (hcomparator : comparator.isOrdering) :
    (∀ x : Rat, intervalHolds comparator (v ≤ x) (x < v) (v + 1 ≤ x) (x < v + 1) ↔
      comparator.test x.floor v = true) ↔ isInteger v = true := by
  constructor
  · intro h
    apply isInteger_of_le_floor
    have hpred : ((v.floor + 1 : Int) : Rat) = v.floor + 1 := by push_cast; rfl
    cases comparator with
    | eq =>
      have := (h v).mp ⟨le_refl v, lt_add_one v⟩
      simp only [Comparator.test, decide_eq_true_eq] at this
      exact this.ge
    | gte =>
      have := (h v).mp (le_refl v)
      simpa [Comparator.test] using this
    | lt =>
      have := mt (h v).mpr (lt_irrefl v)
      simpa [Comparator.test] using this
    | gt =>
      have hlater := (h (v.floor + 1 : Int)).mpr (by
        rw [Comparator.test, decide_eq_true_eq, Rat.floor_intCast]
        exact Rat.lt_floor_add_one v)
      rw [intervalHolds, hpred] at hlater
      linarith
    | lte =>
      have hnot := mt (h (v.floor + 1 : Int)).mp (by
        rw [Comparator.test, decide_eq_true_eq, Rat.floor_intCast, not_le]
        exact Rat.lt_floor_add_one v)
      rw [intervalHolds, hpred, not_lt] at hnot
      linarith
    | neq => cases hcomparator
    | inq => cases hcomparator
    | nin => cases hcomparator
  · intro h x
    obtain ⟨n, rfl⟩ := isInteger_eq_intCast h
    have hsucc : (n : Rat) + 1 = ((n + 1 : Int) : Rat) := by push_cast; rfl
    have hlower : (n : Rat) ≤ x ↔ n ≤ x.floor := Rat.le_floor_iff.symm
    have hupper : (n : Rat) + 1 ≤ x ↔ n < x.floor := by
      rw [hsucc, ← Rat.le_floor_iff]
      omega
    cases comparator with
    | eq =>
      simp only [intervalHolds, Comparator.test, decide_eq_true_eq, Rat.intCast_inj,
        ← not_le (a := (n : Rat) + 1), hlower, hupper]
      omega
    | gte =>
      simp only [intervalHolds, Comparator.test, decide_eq_true_eq, hlower, Rat.intCast_le_intCast]
    | gt =>
      simp only [intervalHolds, Comparator.test, decide_eq_true_eq, hupper, Rat.intCast_lt_intCast]
    | lte =>
      simp only [intervalHolds, Comparator.test, decide_eq_true_eq, ← not_le (a := (n : Rat) + 1),
        hupper, Rat.intCast_le_intCast, not_lt]
    | lt =>
      rw [intervalHolds, ← not_le, hlower, Comparator.test, decide_eq_true_eq,
        Rat.intCast_lt_intCast, not_le]
    | neq => cases hcomparator
    | inq => cases hcomparator
    | nin => cases hcomparator

/-- The interval of the values that are rounded to an integer lies half a unit lower. -/
theorem round_exact_iff {v : Rat} {comparator : Comparator} (hcomparator : comparator.isOrdering) :
    (∀ x : Rat, intervalHolds comparator (v - 1 / 2 ≤ x) (x < v - 1 / 2) (v + 1 / 2 ≤ x)
        (x < v + 1 / 2) ↔ comparator.test (x + 1 / 2).floor v = true) ↔ isInteger v = true := by
  have hge (x : Rat) : v - 1 / 2 ≤ x ↔ v ≤ x + 1 / 2 := sub_le_iff_le_add
  have hlt (x : Rat) : x < v - 1 / 2 ↔ x + 1 / 2 < v := lt_sub_iff_add_lt
  have hge' (x : Rat) : v + 1 / 2 ≤ x ↔ v + 1 ≤ x + 1 / 2 := by
    constructor <;> intro h <;> linarith
  have hlt' (x : Rat) : x < v + 1 / 2 ↔ x + 1 / 2 < v + 1 := by
    constructor <;> intro h <;> linarith
  rw [← floor_exact_iff hcomparator]
  simp only [hge, hlt, hge', hlt']
  constructor
  · intro h x
    have := h (x - 1 / 2)
    rwa [sub_add_cancel] at this
  · intro h x
    exact h (x + 1 / 2)

/-- `ceiling` is exact for `ge` only: the other comparators have the bounds of `floor`. -/
theorem ceiling_exact_iff {v : Rat} {comparator : Comparator}
    (hcomparator : comparator.isOrdering) (heq : comparator ≠ .eq) :
    (∀ x : Rat, intervalHolds comparator (v - 1 < x) (x < v) (v ≤ x) (x < v + 1) ↔
      comparator.test x.ceil v = true) ↔ comparator = .gte ∧ isInteger v = true := by
  have hfloor : ((v.floor + 1 : Int) : Rat) = v.floor + 1 := by push_cast; rfl
  have hlt : v < v.floor + 1 := hfloor ▸ Rat.lt_floor_add_one v
  -- what lies above the integer below the literal is rounded up beyond the literal
  have hbeyond (x : Rat) (hx : (v.floor : Rat) < x) : v < x.ceil := by
    have hceil : v.floor + 1 ≤ x.ceil := Rat.lt_ceil_iff.mpr hx
    have : ((v.floor + 1 : Int) : Rat) ≤ x.ceil := Rat.intCast_le_intCast.mpr hceil
    linarith
  constructor
  · intro h
    cases comparator with
    | eq => exact absurd rfl heq
    | gte =>
      refine ⟨rfl, isInteger_of_le_floor ?_⟩
      have := (h v.floor).mp (by rw [intervalHolds]; linarith)
      rwa [Comparator.test, decide_eq_true_eq, Rat.ceil_intCast] at this
    | gt =>
      exfalso
      have hself := (h v).mp (le_refl v)
      rw [Comparator.test, decide_eq_true_eq] at hself
      have hne : (v.floor : Rat) ≠ v := by
        intro heq
        rw [← heq, Rat.ceil_intCast] at hself
        exact lt_irrefl _ hself
      have hfrac : (v.floor : Rat) < v := lt_of_le_of_ne (Rat.floor_le v) hne
      have hmiddle := (h ((v.floor + v) / 2)).mpr (by
        rw [Comparator.test, decide_eq_true_eq]
        exact hbeyond _ (by linarith))
      rw [intervalHolds] at hmiddle
      linarith
    | lt =>
      exfalso
      have hpred : ((v.ceil - 1 : Int) : Rat) < v := Rat.lt_ceil_iff.mp (by omega)
      have hmiddle := (h ((((v.ceil - 1 : Int) : Rat) + v) / 2)).mp (by
        rw [intervalHolds]
        linarith)
      rw [Comparator.test, decide_eq_true_eq] at hmiddle
      have hceil : v.ceil - 1 < ((((v.ceil - 1 : Int) : Rat) + v) / 2).ceil :=
        Rat.lt_ceil_iff.mpr (by linarith)
      have : (v.ceil : Rat) ≤ ((((v.ceil - 1 : Int) : Rat) + v) / 2).ceil :=
        Rat.intCast_le_intCast.mpr (by omega)
      have := @Rat.le_ceil v
      linarith
    | lte =>
      exfalso
      have hmiddle := (h (v.floor + 1 / 2)).mp (by
        have := Rat.floor_le v
        rw [intervalHolds]
        linarith)
      rw [Comparator.test, decide_eq_true_eq] at hmiddle
      have := hbeyond (v.floor + 1 / 2) (by linarith)
      linarith
    | neq => cases hcomparator
    | inq => cases hcomparator
    | nin => cases hcomparator
  · rintro ⟨rfl, h⟩ x
    obtain ⟨n, rfl⟩ := isInteger_eq_intCast h
    have hpred : (n : Rat) - 1 = ((n - 1 : Int) : Rat) := by push_cast; rfl
    rw [intervalHolds, hpred, ← Rat.lt_ceil_iff, Comparator.test, decide_eq_true_eq,
      Rat.intCast_le_intCast]
    omega

/-! ## Years -/

/-- The date is on or after the bound. -/
def FromBound (bound : Rat) (ms : Int) : Prop := ∃ s, startOfYear bound = .date s ∧ s ≤ ms

/-- The date is before the bound. -/
def BeforeBound (bound : Rat) (ms : Int) : Prop := ∃ s, startOfYear bound = .date s ∧ ms < s

theorem fromBound_date {bound : Rat} {s : Int} (h : startOfYear bound = .date s) (ms : Int) :
    FromBound bound ms ↔ s ≤ ms := by
  simp [FromBound, h]

theorem beforeBound_date {bound : Rat} {s : Int} (h : startOfYear bound = .date s) (ms : Int) :
    BeforeBound bound ms ↔ ms < s := by
  simp [BeforeBound, h]

theorem not_fromBound {bound : Rat} (h : startOfYear bound = .invalidDate) (ms : Int) :
    ¬ FromBound bound ms := by
  simp [FromBound, h]

theorem not_beforeBound {bound : Rat} (h : startOfYear bound = .invalidDate) (ms : Int) :
    ¬ BeforeBound bound ms := by
  simp [BeforeBound, h]

theorem isTime_iff {ms : Int} : isTime ms = true ↔ -maxTime ≤ ms ∧ ms ≤ maxTime := by
  rw [isTime, Bool.and_eq_true, decide_eq_true_eq, decide_eq_true_eq]

theorem isTime_first : isTime (-maxTime) = true := by decide

theorem isTime_last : isTime maxTime = true := by decide

/-- The same first instant of a year, where the dates on or after two of them are the same. -/
theorem timeFromYear_eq_of_iff {first year : Int} (hfirst : isTime (timeFromYear first) = true)
    (h : ∀ ms, isTime ms = true → (timeFromYear first ≤ ms ↔ timeFromYear year ≤ ms)) :
    timeFromYear first = timeFromYear year := by
  have hlate := (h _ hfirst).mp (le_refl _)
  rw [isTime_iff] at hfirst
  by_cases hyear : -maxTime ≤ timeFromYear year
  · have hearly := (h _ (isTime_iff.mpr ⟨hyear, by omega⟩)).mpr (le_refl _)
    omega
  · have hearly := (h _ isTime_first).mpr (by omega)
    have := timeFromYear_ne first
    omega

theorem lowerBound_iff {bound : Rat} {year : Int} :
    (∀ ms, isTime ms = true → (FromBound bound ms ↔ year ≤ yearFromTime ms)) ↔
      LowerBound bound year := by
  simp only [le_yearFromTime_iff, LowerBound, StartsAt]
  rcases startOfYear_cases bound with hbound | ⟨first, hbound, hfirst⟩
  · simp only [not_fromBound hbound, false_iff, hbound, reduceCtorEq, false_or, true_and]
    rw [← not_le, ← timeFromYear_le_maxTime]
    constructor
    · intro h
      exact h _ isTime_last
    · intro h ms hms hle
      rw [isTime_iff] at hms
      omega
  · simp only [fromBound_date hbound, hbound, Scalar.date.injEq, reduceCtorEq, false_and, or_false]
    constructor
    · exact timeFromYear_eq_of_iff hfirst
    · intro h ms _
      rw [h]

theorem upperBound_iff {bound : Rat} {year : Int} :
    (∀ ms, isTime ms = true → (BeforeBound bound ms ↔ yearFromTime ms < year)) ↔
      UpperBound bound year := by
  simp only [← not_le, le_yearFromTime_iff, UpperBound, StartsAt]
  rcases startOfYear_cases bound with hbound | ⟨first, hbound, hfirst⟩
  · simp only [not_beforeBound hbound, false_iff, not_not, hbound, reduceCtorEq, false_or, true_and]
    rw [← timeFromYear_le_neg_maxTime]
    constructor
    · intro h
      exact h _ isTime_first
    · intro h ms hms
      rw [isTime_iff] at hms
      omega
  · simp only [beforeBound_date hbound, hbound, Scalar.date.injEq, reduceCtorEq, false_and,
      or_false, ← not_le, not_iff_not]
    constructor
    · exact timeFromYear_eq_of_iff hfirst
    · intro h ms _
      rw [h]

/-- No date between the bounds. -/
theorem emptyRange_iff {lower upper : Rat} :
    (∀ ms, isTime ms = true → ¬ (FromBound lower ms ∧ BeforeBound upper ms)) ↔
      EmptyRange lower upper := by
  rw [EmptyRange]
  rcases startOfYear_cases lower with hlower | ⟨first, hlower, hfirst⟩
  · simp [not_fromBound hlower, hlower]
  · rcases startOfYear_cases upper with hupper | ⟨last, hupper, _⟩
    · simp [not_beforeBound hupper, hupper]
    · simp only [fromBound_date hlower, beforeBound_date hupper, hlower, hupper, reduceCtorEq,
        false_or, Scalar.date.injEq]
      constructor
      · intro h
        refine ⟨_, _, rfl, rfl, ?_⟩
        by_contra hnot
        exact h _ hfirst ⟨le_refl _, by omega⟩
      · rintro ⟨_, _, rfl, rfl, hle⟩ ms _ hms
        omega

/-- A year between the bounds. -/
theorem oneYear_iff {lower upper : Rat} {year : Int} (hmin : minYear ≤ year)
    (hmax : year ≤ maxYear) :
    (∀ ms, isTime ms = true → (FromBound lower ms ∧ BeforeBound upper ms ↔
      yearFromTime ms = year)) ↔ StartsAt lower year ∧ StartsAt upper (year + 1) := by
  have hyear (ms : Int) : yearFromTime ms = year ↔
      timeFromYear year ≤ ms ∧ ms < timeFromYear (year + 1) := by
    rw [← le_yearFromTime_iff, ← not_le, ← le_yearFromTime_iff]
    omega
  simp only [hyear, StartsAt]
  constructor
  · intro h
    have hnext : timeFromYear year < timeFromYear (year + 1) := timeFromYear_lt (by omega)
    have hstart := timeFromYear_le_maxTime.mpr hmax
    have hstop := mt timeFromYear_le_neg_maxTime.mp (show ¬ year + 1 ≤ minYear by omega)
    -- a date of the year: its first instant, or the first date there is
    obtain ⟨ms, hms, htime⟩ : ∃ ms, (timeFromYear year ≤ ms ∧ ms < timeFromYear (year + 1)) ∧
        isTime ms = true := by
      refine ⟨max (timeFromYear year) (-maxTime), by omega, isTime_iff.mpr ?_⟩
      have : -maxTime ≤ maxTime := by decide
      omega
    obtain ⟨⟨s, hlower, hs⟩, ⟨t, hupper, ht⟩⟩ := (h ms htime).mpr hms
    have hrange {bound : Rat} {s : Int} (hbound : startOfYear bound = .date s) :
        isTime s = true ∧ s ≠ -maxTime := by
      rcases startOfYear_cases bound with hinvalid | ⟨first, hfirst, htime⟩
      · rw [hinvalid] at hbound
        cases hbound
      · rw [hfirst] at hbound
        cases hbound
        exact ⟨htime, timeFromYear_ne first⟩
    obtain ⟨hstime, hsne⟩ := hrange hlower
    obtain ⟨httime, _⟩ := hrange hupper
    simp only [fromBound_date hlower, beforeBound_date hupper] at h
    have hfirst := h s hstime
    have hlast := h t httime
    rw [isTime_iff] at hstime httime htime
    have hyearStart : timeFromYear year = s := by
      by_cases hbefore : -maxTime ≤ timeFromYear year
      · have := h _ (isTime_iff.mpr ⟨hbefore, hstart⟩)
        omega
      · have := h _ isTime_first
        omega
    have hyearStop : timeFromYear (year + 1) = t := by
      by_cases hafter : timeFromYear (year + 1) ≤ maxTime
      · have := h _ (isTime_iff.mpr ⟨by omega, hafter⟩)
        omega
      · omega
    rw [hlower, hupper, hyearStart, hyearStop]
    exact ⟨rfl, rfl⟩
  · rintro ⟨hlower, hupper⟩ ms _
    rw [fromBound_date hlower, beforeBound_date hupper]

theorem year_exact_iff {v : Rat} {comparator : Comparator} (hcomparator : comparator.isOrdering) :
    (∀ ms, isTime ms = true → (intervalHolds comparator (FromBound v ms) (BeforeBound v ms)
        (FromBound (v + 1) ms) (BeforeBound (v + 1) ms) ↔
      comparator.test (yearFromTime ms) v = true)) ↔ YearExact comparator v := by
  cases comparator with
  | gte =>
    rw [YearExact, ← lowerBound_iff]
    simp only [intervalHolds, Comparator.test, decide_eq_true_eq, Rat.ceil_le_iff]
  | gt =>
    rw [YearExact, ← lowerBound_iff]
    simp only [intervalHolds, Comparator.test, decide_eq_true_eq, ← Rat.floor_lt_iff,
      Int.add_one_le_iff]
  | lt =>
    rw [YearExact, ← upperBound_iff]
    simp only [intervalHolds, Comparator.test, decide_eq_true_eq, Rat.lt_ceil_iff]
  | lte =>
    rw [YearExact, ← upperBound_iff]
    simp only [intervalHolds, Comparator.test, decide_eq_true_eq, ← Rat.le_floor_iff,
      Int.lt_add_one_iff]
  | eq =>
    simp only [intervalHolds, Comparator.test, decide_eq_true_eq, YearExact]
    split
    · next h =>
      obtain ⟨hint, hmin, hmax⟩ := h
      rw [← oneYear_iff hmin hmax]
      have hvalue (year : Int) : (year : Rat) = v ↔ year = v.floor := by
        rw [← isInteger_iff.mp hint, Rat.intCast_inj, Rat.floor_intCast]
      simp only [hvalue]
    · next h =>
      rw [← emptyRange_iff]
      have hnever (ms : Int) (hms : isTime ms = true) : (yearFromTime ms : Rat) ≠ v := by
        rintro rfl
        rw [isTime_iff] at hms
        apply h
        rw [Rat.floor_intCast]
        refine ⟨rfl, ?_, ?_⟩
        · rw [le_yearFromTime_iff]
          have := timeFromYear_minYear
          omega
        · by_contra hlate
          have hnext := le_yearFromTime_iff.mp (show maxYear + 1 ≤ yearFromTime ms by omega)
          have := maxTime_lt_timeFromYear
          omega
      constructor
      · intro hall ms hms hrange
        exact hnever ms hms ((hall ms hms).mp hrange)
      · intro hall ms hms
        exact iff_of_false (hall ms hms) (hnever ms hms)
  | neq => cases hcomparator
  | inq => cases hcomparator
  | nin => cases hcomparator

/-! ## The clauses -/

theorem compare_eq_gt_iff {α : Type} [LinearOrder α] {x y : α} :
    compareOfLessAndEq x y = .gt ↔ y < x := by
  unfold compareOfLessAndEq
  rcases lt_trichotomy x y with hlt | rfl | hgt
  · simp [hlt, hlt.le]
  · simp
  · simp [hgt, hgt.ne', not_lt.mpr hgt.le]

section Clauses

variable (db : Database) (field : Text)

/-- The stored value meets one bound. -/
def Database.MeetsBound (stored : Scalar) (bound : WhereOperator × Scalar) : Prop :=
  (Condition.operator bound.1 (.single bound.2)).isMeetable ∧
    db.condition field stored (.operator bound.1 (.single bound.2)) = some .true

variable {field}

/-- The clauses of the functions that round down. -/
theorem intervalWhere_meets {comparator : Comparator} {unsupported : String} {a b : Scalar}
    {w : Where} (h : intervalWhere field comparator unsupported [(.gte, a), (.lt, b)]
      (.gte, a) (.gte, b) (.lt, b) (.lt, a) = .ok w) :
    comparator.isOrdering ∧ (∀ condition ∈ w.conditions, condition.isDefined) ∧
      ∀ stored, db.Meets field stored w ↔
        intervalHolds comparator (db.MeetsBound field stored (.gte, a))
          (db.MeetsBound field stored (.lt, a)) (db.MeetsBound field stored (.gte, b))
          (db.MeetsBound field stored (.lt, b)) := by
  cases comparator <;> cases h <;>
    simp [Comparator.isOrdering, Where.conditions, Condition.isDefined, WhereOperator.isDefined,
      Database.Meets, intervalHolds, Database.MeetsBound]

theorem ceilingWhere_meets {comparator : Comparator} {unsupported : String} {v : Rat}
    {w : Where} (h : intervalWhere field comparator unsupported
      [(.gt, .num (v - 1)), (.le, .num v)] (.gt, .num (v - 1)) (.gte, .num v) (.lt, .num (v + 1))
      (.lt, .num v) = .ok w) :
    comparator.isOrdering ∧ ((∀ condition ∈ w.conditions, condition.isDefined) ↔
        comparator ≠ .eq) ∧
      ∀ stored, comparator ≠ .eq → (db.Meets field stored w ↔
        intervalHolds comparator (db.MeetsBound field stored (.gt, .num (v - 1)))
          (db.MeetsBound field stored (.lt, .num v)) (db.MeetsBound field stored (.gte, .num v))
          (db.MeetsBound field stored (.lt, .num (v + 1)))) := by
  cases comparator <;> cases h <;>
    simp [Comparator.isOrdering, Where.conditions, Condition.isDefined, WhereOperator.isDefined,
      Database.Meets, intervalHolds, Database.MeetsBound]

variable {db} (hdb : db.ReadsNumbers)
include hdb

theorem meetsBound_num {x v : Rat} :
    (db.MeetsBound field (.num x) (.gte, .num v) ↔ v ≤ x) ∧
      (db.MeetsBound field (.num x) (.gt, .num v) ↔ v < x) ∧
      (db.MeetsBound field (.num x) (.lt, .num v) ↔ x < v) := by
  simp only [Database.MeetsBound, Condition.isMeetable, Database.condition, Database.operator,
    Database.comparison, Scalar.isNullish, hdb.number, Bool.or_self, Bool.false_eq_true, if_false,
    true_and, Option.some.injEq, ThreeValued.Truth.ofBool_eq_true, bne_iff_ne, ne_eq,
    beq_iff_eq, compareOfLessAndEq_eq_lt, not_lt, compare_eq_gt_iff, and_self]

theorem meetsBound_date {ms : Int} {u : Rat} :
    (db.MeetsBound field (.date ms) (.gte, startOfYear u) ↔ FromBound u ms) ∧
      (db.MeetsBound field (.date ms) (.lt, startOfYear u) ↔ BeforeBound u ms) := by
  rcases startOfYear_cases u with h | ⟨first, h, _⟩
  · simp [Database.MeetsBound, Condition.isMeetable, h, FromBound, BeforeBound]
  · rw [fromBound_date h, beforeBound_date h, h]
    simp only [Database.MeetsBound, Condition.isMeetable, Database.condition, Database.operator,
      Database.comparison, Scalar.isNullish, hdb.date, Bool.or_self, Bool.false_eq_true, if_false,
      true_and, Option.some.injEq, ThreeValued.Truth.ofBool_eq_true, bne_iff_ne, ne_eq,
      beq_iff_eq, compareOfLessAndEq_eq_lt, not_lt, and_self]

omit hdb in
/-- What holds of the values of a numeric function. -/
theorem forall_value_iff {name : FieldFunction} {f : Rat → Rat}
    (hname : ∀ stored, name.value stored = match stored with
      | .num x => some (f x)
      | _ => none) {P : Scalar → Rat → Prop} :
    (∀ stored value, name.value stored = some value → P stored value) ↔
      ∀ x, P (.num x) (f x) := by
  constructor
  · intro h x
    exact h _ _ (hname (.num x))
  · intro h stored value hvalue
    rw [hname] at hvalue
    cases stored with
    | num x =>
      cases hvalue
      exact h x
    | _ => cases hvalue

omit hdb in
theorem forall_value_year_iff {P : Scalar → Rat → Prop} :
    (∀ stored value, FieldFunction.year.value stored = some value → P stored value) ↔
      ∀ ms, isTime ms = true → P (.date ms) (yearFromTime ms) := by
  constructor
  · intro h ms hms
    exact h _ _ (if_pos hms)
  · intro h stored value hvalue
    cases stored with
    | date ms =>
      rw [FieldFunction.value] at hvalue
      split at hvalue
      · next hms =>
        cases hvalue
        exact h ms hms
      · cases hvalue
    | _ => cases hvalue

end Clauses

/-- A database of numbers and dates. -/
def numberDatabase : Database where
  compare _ stored literal :=
    match stored, literal with
    | .num x, .num y => compareOfLessAndEq x y
    | .date s, .date t => compareOfLessAndEq s t
    | _, _ => .lt
  matchesPattern _ _ _ := false

theorem readsNumbers_numberDatabase : numberDatabase.ReadsNumbers where
  number _ _ _ := rfl
  date _ _ _ := rfl

end LoopbackOData
