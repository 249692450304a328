import Mathlib

/-!
# Three-valued logic

Truth values with an unknown, as conditions over missing values have them: connectives on lists,
when each of them is true or false, and De Morgan's laws.
-/

namespace ThreeValued

set_option autoImplicit false

inductive Truth where
  | true | false | unknown
  deriving DecidableEq, Repr

namespace Truth

def ofBool : Bool → Truth
  | .true => .true
  | .false => .false

def not : Truth → Truth
  | .true => .false
  | .false => .true
  | .unknown => .unknown

def and : Truth → Truth → Truth
  | .false, _ => .false
  | _, .false => .false
  | .true, .true => .true
  | _, _ => .unknown

def or (a b : Truth) : Truth := (a.not.and b.not).not

def all (ts : List Truth) : Truth := ts.foldr and .true

def any (ts : List Truth) : Truth := ts.foldr or .false

/-- Neither unknown: the value is one of the two classical ones. -/
def Known (t : Truth) : Prop := t ≠ .unknown

@[simp] theorem ofBool_eq_true (b : Bool) : ofBool b = .true ↔ b = .true := by
  cases b <;> simp [ofBool]

@[simp] theorem ofBool_eq_false (b : Bool) : ofBool b = .false ↔ b = .false := by
  cases b <;> simp [ofBool]

@[simp] theorem not_ofBool (b : Bool) : (ofBool b).not = ofBool (!b) := by cases b <;> rfl

@[simp] theorem known_ofBool (b : Bool) : Known (ofBool b) := by cases b <;> simp [Known, ofBool]

@[simp] theorem not_not (t : Truth) : t.not.not = t := by cases t <;> rfl

@[simp] theorem not_eq_true (t : Truth) : t.not = .true ↔ t = .false := by
  cases t <;> simp [not]

@[simp] theorem not_eq_false (t : Truth) : t.not = .false ↔ t = .true := by
  cases t <;> simp [not]

@[simp] theorem known_not (t : Truth) : Known t.not ↔ Known t := by
  cases t <;> simp [Known, not]

theorem known_iff (t : Truth) : Known t ↔ t = .true ∨ t = .false := by
  cases t <;> simp [Known]

@[simp] theorem and_eq_true (a b : Truth) : a.and b = .true ↔ a = .true ∧ b = .true := by
  cases a <;> cases b <;> simp [and]

@[simp] theorem and_eq_false (a b : Truth) : a.and b = .false ↔ a = .false ∨ b = .false := by
  cases a <;> cases b <;> simp [and]

@[simp] theorem or_eq_true (a b : Truth) : a.or b = .true ↔ a = .true ∨ b = .true := by
  simp [or]

@[simp] theorem or_eq_false (a b : Truth) : a.or b = .false ↔ a = .false ∧ b = .false := by
  simp [or]

@[simp] theorem true_and (a : Truth) : Truth.true.and a = a := by cases a <;> rfl

@[simp] theorem and_true (a : Truth) : a.and .true = a := by cases a <;> rfl

@[simp] theorem false_or (a : Truth) : Truth.false.or a = a := by cases a <;> rfl

@[simp] theorem or_false (a : Truth) : a.or .false = a := by cases a <;> rfl

theorem and_and_and_comm (a b c d : Truth) :
    (a.and b).and (c.and d) = (a.and c).and (b.and d) := by
  cases a <;> cases b <;> cases c <;> cases d <;> rfl

theorem not_and (a b : Truth) : (a.and b).not = a.not.or b.not := by simp [or]

theorem not_or (a b : Truth) : (a.or b).not = a.not.and b.not := by simp [or]

@[simp] theorem all_nil : all [] = .true := rfl

@[simp] theorem all_cons (t : Truth) (ts : List Truth) : all (t :: ts) = t.and (all ts) := rfl

@[simp] theorem any_nil : any [] = .false := rfl

@[simp] theorem any_cons (t : Truth) (ts : List Truth) : any (t :: ts) = t.or (any ts) := rfl

theorem all_eq_true (ts : List Truth) : all ts = .true ↔ ∀ t ∈ ts, t = .true := by
  induction ts with
  | nil => simp
  | cons t ts ih => simp [ih]

theorem all_eq_false (ts : List Truth) : all ts = .false ↔ .false ∈ ts := by
  induction ts with
  | nil => simp
  | cons t ts ih => rw [all_cons, and_eq_false, ih, List.mem_cons, eq_comm]

theorem any_eq_true (ts : List Truth) : any ts = .true ↔ .true ∈ ts := by
  induction ts with
  | nil => simp
  | cons t ts ih => rw [any_cons, or_eq_true, ih, List.mem_cons, eq_comm]

theorem any_eq_false (ts : List Truth) : any ts = .false ↔ ∀ t ∈ ts, t = .false := by
  induction ts with
  | nil => simp
  | cons t ts ih => simp [ih]

theorem not_all (ts : List Truth) : (all ts).not = any (ts.map not) := by
  induction ts with
  | nil => rfl
  | cons t ts ih => rw [all_cons, not_and, ih]; rfl

theorem not_any (ts : List Truth) : (any ts).not = all (ts.map not) := by
  induction ts with
  | nil => rfl
  | cons t ts ih => rw [any_cons, not_or, ih]; rfl

/-- Known members make a known conjunction. -/
theorem known_all {ts : List Truth} (h : ∀ t ∈ ts, Known t) : Known (all ts) := by
  rw [known_iff]
  by_cases hfalse : Truth.false ∈ ts
  · exact .inr ((all_eq_false ts).mpr hfalse)
  · refine .inl ((all_eq_true ts).mpr fun t ht => ?_)
    rcases (known_iff t).mp (h t ht) with htrue | rfl
    · exact htrue
    · exact absurd ht hfalse

/-- Known members make a known disjunction. -/
theorem known_any {ts : List Truth} (h : ∀ t ∈ ts, Known t) : Known (any ts) := by
  have hall : Known (all (ts.map not)) := by
    apply known_all
    intro t ht
    obtain ⟨s, hs, rfl⟩ := List.mem_map.mp ht
    exact (known_not s).mpr (h s hs)
  rwa [← not_any, known_not] at hall

end Truth

end ThreeValued
