import LoopbackOData.Library.ThreeValued

/-!
# Combining `where` clauses

`combineWithAnd` and `combineWithOr`: the clauses of several origins (the client's filter, paging,
delta, search, ids) become one. A `where` object may have any keys: conditions on properties, an
`and` array and an `or` array. A clause that has such an array is merged by the entries of the
array, and then nothing else of the clause is.
-/

namespace LoopbackOData

open ThreeValued

set_option autoImplicit false

/-- A `where` object: the conditions under its other keys, and its `and` and `or` arrays where it
has them. An array may hold undefined entries. -/
structure Clause (γ : Type) where
  conditions : List γ := []
  and : Option (List (Option (Clause γ))) := none
  or : Option (List (Option (Clause γ))) := none

namespace Clause

variable {γ : Type} (truth : γ → Truth)

mutual

/-- The truth of a clause on a row, from what the row makes of each condition: all its keys
together. -/
def eval : Clause γ → Truth
  | ⟨conditions, and, or⟩ =>
    ((Truth.all (conditions.map truth)).and (evalAnd and)).and (evalOr or)

def evalAnd : Option (List (Option (Clause γ))) → Truth
  | none => .true
  | some entries => .all (evalEntries entries)

def evalOr : Option (List (Option (Clause γ))) → Truth
  | none => .true
  | some entries => .any (evalEntries entries)

def evalEntries : List (Option (Clause γ)) → List Truth
  | [] => []
  | none :: entries => evalEntries entries
  | some clause :: entries => eval clause :: evalEntries entries

end

theorem evalEntries_eq (entries : List (Option (Clause γ))) :
    evalEntries truth entries = entries.reduceOption.map (eval truth) := by
  induction entries with
  | nil => simp [evalEntries]
  | cons entry entries ih =>
    cases entry with
    | none => rw [evalEntries, ih, List.reduceOption_cons_of_none]
    | some clause => rw [evalEntries, ih, List.reduceOption_cons_of_some, List.map_cons]

/-- The clause is true of the row. -/
def Holds (clause : Clause γ) : Prop := clause.eval truth = .true

/-- The clause of a single condition. -/
def condition (condition : γ) : Clause γ := { conditions := [condition] }

/-- `{ and: clauses }`. -/
def conjunction (clauses : List (Clause γ)) : Clause γ := { and := some (clauses.map some) }

/-- `{ or: clauses }`. -/
def disjunction (clauses : List (Clause γ)) : Clause γ := { or := some (clauses.map some) }

variable {truth}

theorem reduceOption_map_some {α : Type} (l : List α) : (l.map some).reduceOption = l := by
  induction l with
  | nil => rfl
  | cons a l ih => rw [List.map_cons, List.reduceOption_cons_of_some, ih]

@[simp] theorem eval_condition (c : γ) : (condition c).eval truth = truth c := by
  simp [condition, eval, evalAnd, evalOr]

@[simp] theorem eval_conjunction (clauses : List (Clause γ)) :
    (conjunction clauses).eval truth = .all (clauses.map (eval truth)) := by
  simp [conjunction, eval, evalAnd, evalOr, evalEntries_eq, reduceOption_map_some]

@[simp] theorem eval_disjunction (clauses : List (Clause γ)) :
    (disjunction clauses).eval truth = .any (clauses.map (eval truth)) := by
  simp [disjunction, eval, evalAnd, evalOr, evalEntries_eq, reduceOption_map_some]

theorem holds_conjunction {clauses : List (Clause γ)} :
    (conjunction clauses).Holds truth ↔ ∀ clause ∈ clauses, clause.Holds truth := by
  rw [Holds, eval_conjunction, Truth.all_eq_true, List.forall_mem_map]
  rfl

theorem holds_disjunction {clauses : List (Clause γ)} :
    (disjunction clauses).Holds truth ↔ ∃ clause ∈ clauses, clause.Holds truth := by
  rw [Holds, eval_disjunction, Truth.any_eq_true, List.mem_map]
  rfl

/-- A clause with an `and` array: its entries, and what stands beside the array. -/
theorem holds_and_iff {clause : Clause γ} {entries : List (Option (Clause γ))}
    (h : clause.and = some entries) :
    clause.Holds truth ↔
      (∀ entry ∈ entries.reduceOption, entry.Holds truth) ∧
        ({ clause with and := none } : Clause γ).Holds truth := by
  obtain ⟨conditions, and, or⟩ := clause
  subst h
  simp only [Holds, eval, evalAnd, evalEntries_eq, Truth.and_eq_true, Truth.all_eq_true,
    List.forall_mem_map, Truth.and_true]
  tauto

/-- A clause with an `or` array: its entries, and what stands beside the array. -/
theorem holds_or_iff {clause : Clause γ} {entries : List (Option (Clause γ))}
    (h : clause.or = some entries) :
    clause.Holds truth ↔
      (∃ entry ∈ entries.reduceOption, entry.Holds truth) ∧
        ({ clause with or := none } : Clause γ).Holds truth := by
  obtain ⟨conditions, and, or⟩ := clause
  subst h
  simp only [Holds, eval, evalOr, evalEntries_eq, Truth.and_eq_true, Truth.any_eq_true,
    List.mem_map, Truth.and_true]
  tauto

/-- The entries of an array that is there and not empty. -/
def listed : Option (List (Option (Clause γ))) → Option (List (Clause γ))
  | some (entry :: entries) => some (entry :: entries).reduceOption
  | _ => none

theorem listed_eq_some {inner : Option (List (Option (Clause γ)))} {clauses : List (Clause γ)}
    (h : listed inner = some clauses) :
    ∃ entries, inner = some entries ∧ entries.reduceOption = clauses := by
  match inner, h with
  | some (entry :: entries), h => exact ⟨entry :: entries, rfl, Option.some.inj h⟩

end Clause

section Combine

variable {γ : Type}

/-- `combineWithAnd` and `combineWithOr`: `inner` is the array that is flattened, `wrap` makes the
clause of what was merged. -/
def combineWith (inner : Clause γ → Option (List (Option (Clause γ))))
    (wrap : List (Clause γ) → Clause γ) (parts : List (Option (Clause γ))) :
    Option (Clause γ) :=
  match parts.reduceOption with
  | [] => none
  | [clause] => some clause
  | filtered =>
    -- the other keys of a clause whose array is flattened do not come along
    some (wrap (filtered.flatMap fun clause => (Clause.listed (inner clause)).getD [clause]))

def combineWithAnd (parts : List (Option (Clause γ))) : Option (Clause γ) :=
  combineWith Clause.and Clause.conjunction parts

def combineWithOr (parts : List (Option (Clause γ))) : Option (Clause γ) :=
  combineWith Clause.or Clause.disjunction parts

variable {inner : Clause γ → Option (List (Option (Clause γ)))} {wrap : List (Clause γ) → Clause γ}
  {parts : List (Option (Clause γ))} {truth : γ → Truth}

/-- The combination is undefined exactly where no clause is defined. -/
theorem combineWith_eq_none : combineWith inner wrap parts = none ↔ parts.reduceOption = [] := by
  unfold combineWith
  split
  · next h => simp [h]
  · next h => simp [h]
  · next h _ => exact iff_of_false (Option.some_ne_none _) h

theorem combineWith_single {clause : Clause γ} (h : parts.reduceOption = [clause]) :
    combineWith inner wrap parts = some clause := by
  rw [combineWith, h]

theorem combineWith_several (h : 1 < parts.reduceOption.length) :
    combineWith inner wrap parts = some (wrap (parts.reduceOption.flatMap fun clause =>
      (Clause.listed (inner clause)).getD [clause])) := by
  unfold combineWith
  split
  · next heq => simp [heq] at h
  · next heq => simp [heq] at h
  · rfl

/-- Beside the `and` arrays nothing is lost on the row: where the entries of these arrays and the
clauses without one are true, so is what stands beside the arrays. -/
def KeepsBesideAnd (truth : γ → Truth) (clauses : List (Clause γ)) : Prop :=
  (∀ clause ∈ clauses, Clause.listed clause.and = none → clause.Holds truth) →
  (∀ clause ∈ clauses, ∀ entries, Clause.listed clause.and = some entries →
    ∀ entry ∈ entries, entry.Holds truth) →
  ∀ clause ∈ clauses, (Clause.listed clause.and).isSome →
    ({ clause with and := none } : Clause γ).Holds truth

/-- Beside the `or` arrays nothing is lost on the row: where an entry of such an array is true,
some clause is true with all its keys. -/
def KeepsBesideOr (truth : γ → Truth) (clauses : List (Clause γ)) : Prop :=
  ∀ clause ∈ clauses, ∀ entries, Clause.listed clause.or = some entries →
    (∃ entry ∈ entries, entry.Holds truth) → ∃ clause ∈ clauses, clause.Holds truth

/-- What `combineWithAnd` merges of a clause is true where the clause is. -/
theorem holds_of_mem_listed_and {clause entry : Clause γ} (h : clause.Holds truth)
    (hentry : entry ∈ (Clause.listed clause.and).getD [clause]) : entry.Holds truth := by
  cases hlisted : Clause.listed clause.and with
  | none =>
    rw [hlisted, Option.getD_none, List.mem_singleton] at hentry
    rwa [hentry]
  | some clauses =>
    rw [hlisted, Option.getD_some] at hentry
    obtain ⟨entries, hand, rfl⟩ := Clause.listed_eq_some hlisted
    exact ((Clause.holds_and_iff hand).mp h).1 entry hentry

/-- What `combineWithOr` merges of a clause holds an entry that is true where the clause is. -/
theorem exists_mem_listed_or {clause : Clause γ} (h : clause.Holds truth) :
    ∃ entry ∈ (Clause.listed clause.or).getD [clause], entry.Holds truth := by
  cases hlisted : Clause.listed clause.or with
  | none => exact ⟨clause, List.mem_singleton_self clause, h⟩
  | some clauses =>
    obtain ⟨entries, hor, rfl⟩ := Clause.listed_eq_some hlisted
    exact ((Clause.holds_or_iff hor).mp h).1

/-- Several clauses, combined with `and`: every clause is true exactly where the condition on
what stands beside the arrays is met. -/
theorem combineWithAnd_several (h : 1 < parts.reduceOption.length) :
    ((∀ clause, combineWithAnd parts = some clause → clause.Holds truth) ↔
      ∀ clause ∈ parts.reduceOption, clause.Holds truth) ↔
    KeepsBesideAnd truth parts.reduceOption := by
  rw [combineWithAnd, combineWith_several h]
  simp only [Option.some.injEq, forall_eq', Clause.holds_conjunction, List.mem_flatMap,
    forall_exists_index, and_imp]
  generalize parts.reduceOption = clauses
  constructor
  · intro hiff hwhole hentries clause hclause hlisted
    have hall : ∀ clause ∈ clauses, clause.Holds truth := by
      refine hiff.mp fun entry clause hclause hentry => ?_
      cases hlisted : Clause.listed clause.and with
      | none =>
        rw [hlisted, Option.getD_none, List.mem_singleton] at hentry
        rw [hentry]
        exact hwhole clause hclause hlisted
      | some entries =>
        rw [hlisted, Option.getD_some] at hentry
        exact hentries clause hclause entries hlisted entry hentry
    obtain ⟨entries, hentries⟩ := Option.isSome_iff_exists.mp hlisted
    obtain ⟨_, hand, _⟩ := Clause.listed_eq_some hentries
    exact ((Clause.holds_and_iff hand).mp (hall clause hclause)).2
  · intro hkeeps
    refine ⟨fun hmerged clause hclause => ?_, fun hall entry clause hclause hentry =>
      holds_of_mem_listed_and (hall clause hclause) hentry⟩
    have hwhole : ∀ clause ∈ clauses, Clause.listed clause.and = none → clause.Holds truth :=
      fun clause hclause hnone => hmerged clause clause hclause (by simp [hnone])
    have hentries : ∀ clause ∈ clauses, ∀ entries, Clause.listed clause.and = some entries →
        ∀ entry ∈ entries, entry.Holds truth :=
      fun clause hclause entries hlisted entry hentry =>
        hmerged entry clause hclause (by simpa [hlisted] using hentry)
    cases hlisted : Clause.listed clause.and with
    | none => exact hwhole clause hclause hlisted
    | some entries =>
      have hbeside := hkeeps hwhole hentries clause hclause (by simp [hlisted])
      obtain ⟨_, hand, rfl⟩ := Clause.listed_eq_some hlisted
      exact (Clause.holds_and_iff hand).mpr ⟨hentries clause hclause _ hlisted, hbeside⟩

/-- Several clauses, combined with `or`: some clause is true exactly where the condition on what
stands beside the arrays is met. -/
theorem combineWithOr_several (h : 1 < parts.reduceOption.length) :
    ((∃ clause, combineWithOr parts = some clause ∧ clause.Holds truth) ↔
      ∃ clause ∈ parts.reduceOption, clause.Holds truth) ↔
    KeepsBesideOr truth parts.reduceOption := by
  rw [combineWithOr, combineWith_several h]
  simp only [Option.some.injEq, exists_eq_left', Clause.holds_disjunction, List.mem_flatMap]
  generalize parts.reduceOption = clauses
  constructor
  · rintro hiff clause hclause entries hlisted ⟨entry, hentry, hholds⟩
    exact hiff.mp ⟨entry, ⟨clause, hclause, by simpa [hlisted] using hentry⟩, hholds⟩
  · intro hkeeps
    constructor
    · rintro ⟨entry, ⟨clause, hclause, hentry⟩, hholds⟩
      cases hlisted : Clause.listed clause.or with
      | none =>
        rw [hlisted, Option.getD_none, List.mem_singleton] at hentry
        exact ⟨clause, hclause, hentry ▸ hholds⟩
      | some entries =>
        rw [hlisted, Option.getD_some] at hentry
        exact hkeeps clause hclause entries hlisted ⟨entry, hentry, hholds⟩
    · rintro ⟨clause, hclause, hholds⟩
      obtain ⟨entry, hentry, hentryHolds⟩ := exists_mem_listed_or hholds
      exact ⟨entry, ⟨clause, hclause, hentry⟩, hentryHolds⟩

theorem combineWithAnd_few (h : parts.reduceOption.length ≤ 1) :
    (∀ clause, combineWithAnd parts = some clause → clause.Holds truth) ↔
      ∀ clause ∈ parts.reduceOption, clause.Holds truth := by
  match hparts : parts.reduceOption, h with
  | [], _ => simp [combineWithAnd, combineWith_eq_none.mpr hparts]
  | [clause], _ => simp [combineWithAnd, combineWith_single hparts]

theorem combineWithOr_few (h : parts.reduceOption.length ≤ 1) :
    (∃ clause, combineWithOr parts = some clause ∧ clause.Holds truth) ↔
      ∃ clause ∈ parts.reduceOption, clause.Holds truth := by
  match hparts : parts.reduceOption, h with
  | [], _ => simp [combineWithOr, combineWith_eq_none.mpr hparts]
  | [clause], _ => simp [combineWithOr, combineWith_single hparts]

/-- A clause that has nothing beside its array. -/
structure Clause.SingleKey (clause : Clause γ) : Prop where
  and : clause.and.isSome → clause.conditions = [] ∧ clause.or = none
  or : clause.or.isSome → clause.conditions = [] ∧ clause.and = none

namespace Clause.SingleKey

theorem condition (c : γ) : (Clause.condition c).SingleKey := ⟨nofun, nofun⟩

theorem conjunction (clauses : List (Clause γ)) : (Clause.conjunction clauses).SingleKey :=
  ⟨fun _ => ⟨rfl, rfl⟩, nofun⟩

theorem disjunction (clauses : List (Clause γ)) : (Clause.disjunction clauses).SingleKey :=
  ⟨nofun, fun _ => ⟨rfl, rfl⟩⟩

theorem combineWith (hwrap : ∀ clauses, (wrap clauses).SingleKey)
    (h : ∀ clause ∈ parts.reduceOption, clause.SingleKey) {clause : Clause γ}
    (hclause : combineWith inner wrap parts = some clause) : clause.SingleKey := by
  unfold LoopbackOData.combineWith at hclause
  split at hclause
  · exact absurd hclause (by simp)
  · next heq =>
    obtain rfl := Option.some.inj hclause
    exact h _ (by simp [heq])
  · obtain rfl := Option.some.inj hclause
    exact hwrap _

theorem keepsBesideAnd {clauses : List (Clause γ)} (h : ∀ clause ∈ clauses, clause.SingleKey) :
    KeepsBesideAnd truth clauses := by
  intro _ _ clause hclause hlisted
  obtain ⟨entries, hentries⟩ := Option.isSome_iff_exists.mp hlisted
  obtain ⟨_, hand, _⟩ := listed_eq_some hentries
  obtain ⟨hconditions, hor⟩ := (h clause hclause).and (by simp [hand])
  simp [Holds, hconditions, hor, eval, evalAnd, evalOr]

theorem keepsBesideOr {clauses : List (Clause γ)} (h : ∀ clause ∈ clauses, clause.SingleKey) :
    KeepsBesideOr truth clauses := by
  intro clause hclause clauses hlisted hentry
  obtain ⟨_, hor, rfl⟩ := listed_eq_some hlisted
  obtain ⟨hconditions, hand⟩ := (h clause hclause).or (by simp [hor])
  refine ⟨clause, hclause, (holds_or_iff hor).mpr ⟨hentry, ?_⟩⟩
  simp [Holds, hconditions, hand, eval, evalAnd, evalOr]

end Clause.SingleKey

variable (truth) in
/-- Nothing is lost of clauses of a single key. -/
theorem combineWithAnd_singleKey (h : ∀ clause ∈ parts.reduceOption, clause.SingleKey) :
    (∀ clause, combineWithAnd parts = some clause → clause.Holds truth) ↔
      ∀ clause ∈ parts.reduceOption, clause.Holds truth := by
  by_cases hlength : 1 < parts.reduceOption.length
  · exact (combineWithAnd_several hlength).mpr (Clause.SingleKey.keepsBesideAnd h)
  · exact combineWithAnd_few (Nat.not_lt.mp hlength)

variable (truth) in
theorem combineWithOr_singleKey (h : ∀ clause ∈ parts.reduceOption, clause.SingleKey) :
    (∃ clause, combineWithOr parts = some clause ∧ clause.Holds truth) ↔
      ∃ clause ∈ parts.reduceOption, clause.Holds truth := by
  by_cases hlength : 1 < parts.reduceOption.length
  · exact (combineWithOr_several hlength).mpr (Clause.SingleKey.keepsBesideOr h)
  · exact combineWithOr_few (Nat.not_lt.mp hlength)

variable (truth) in
theorem combineWithAnd_map_some {clauses : List (Clause γ)} (hne : clauses ≠ [])
    (h : ∀ clause ∈ clauses, clause.SingleKey) :
    ∃ clause, combineWithAnd (clauses.map some) = some clause ∧ clause.SingleKey ∧
      (clause.Holds truth ↔ ∀ clause ∈ clauses, clause.Holds truth) := by
  have hparts := Clause.reduceOption_map_some clauses
  have hsome : combineWithAnd (clauses.map some) ≠ none := fun hnone =>
    hne (hparts ▸ combineWith_eq_none.mp hnone)
  obtain ⟨clause, hclause⟩ := Option.ne_none_iff_exists'.mp hsome
  have hiff := combineWithAnd_singleKey truth (hparts.symm ▸ h)
  rw [hclause, hparts] at hiff
  refine ⟨clause, hclause, .combineWith Clause.SingleKey.conjunction (hparts.symm ▸ h) hclause, ?_⟩
  simpa using hiff

variable (truth) in
theorem combineWithOr_map_some {clauses : List (Clause γ)} (hne : clauses ≠ [])
    (h : ∀ clause ∈ clauses, clause.SingleKey) :
    ∃ clause, combineWithOr (clauses.map some) = some clause ∧ clause.SingleKey ∧
      (clause.Holds truth ↔ ∃ clause ∈ clauses, clause.Holds truth) := by
  have hparts := Clause.reduceOption_map_some clauses
  have hsome : combineWithOr (clauses.map some) ≠ none := fun hnone =>
    hne (hparts ▸ combineWith_eq_none.mp hnone)
  obtain ⟨clause, hclause⟩ := Option.ne_none_iff_exists'.mp hsome
  have hiff := combineWithOr_singleKey truth (hparts.symm ▸ h)
  rw [hclause, hparts] at hiff
  refine ⟨clause, hclause, .combineWith Clause.SingleKey.disjunction (hparts.symm ▸ h) hclause, ?_⟩
  simpa using hiff

end Combine

end LoopbackOData
