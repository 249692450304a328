import LoopbackOData.Apply.Paging
import LoopbackOData.Paging.SkipToken
import LoopbackOData.Search.Where

/-!
# The rows behind a skip token

`buildSkipTokenConstraint`: the values of a skip token become a `where` clause for the repository.
On rows that have a value in each of the descriptors' fields the clause is true exactly of those
that follow the row of the token in the order of the descriptors.
-/

namespace LoopbackOData

open Outcome ThreeValued

open Apply (TokenRuntime directed)

open Search (FieldClause rowTruth)

set_option autoImplicit false

/-! ## The clause -/

/-- What `coerceSkipTokenValue` tells of the type of a property. -/
inductive PropertyType where
  | number | boolean | date | other
  deriving DecidableEq, Repr

section Constraint

variable (tokens : TokenRuntime) (types : Text → PropertyType)

def coerceSkipTokenValue (field raw : Text) : Except HttpError Scalar :=
  if raw = "null".toList then .ok .null
  else match types field with
    | .number => match tokens.numberOf raw with
      | some q => .ok (.num q)
      | none =>
        badRequest ("Invalid numeric value in $skiptoken for " ++ String.ofList field ++ ".")
    | .boolean =>
      if raw = "true".toList then .ok (.bool true)
      else if raw = "false".toList then .ok (.bool false)
      else badRequest ("Invalid boolean value in $skiptoken for " ++ String.ofList field ++ ".")
    | .date => match tokens.dateOf raw with
      | some ms => .ok (.date ms)
      | none => badRequest ("Invalid date value in $skiptoken for " ++ String.ofList field ++ ".")
    | .other => .ok (.str raw)

/-- `parseSkipTokenValues`, after the token has been decoded. -/
def parseSkipTokenValues : List OrderDescriptor → List Text → Except HttpError (List Scalar)
  | [], _ => .ok []
  | item :: rest, raws => do
    let value ← coerceSkipTokenValue tokens types item.field (raws.headD [])
    return value :: (← parseSkipTokenValues rest raws.tail)

def buildEqualityClause (field : Text) (value : Scalar) : FieldClause :=
  Clause.condition (field, .equals value)

/-- The comparison of a field with the value of the token. Ascending, nothing follows `null`. -/
def skipTokenComparison (item : OrderDescriptor) (value : Scalar) : Option FieldClause :=
  if value = .null then
    match item.direction with
    | .desc => some (Clause.condition (item.field, .operator .neq (.single .null)))
    | .asc => none
  else
    let comparator := match item.direction with
      | .desc => WhereOperator.lt
      | .asc => WhereOperator.gt
    some (Clause.condition (item.field, .operator comparator (.single value)))

/-- A branch for each field: it is compared, and the fields before it are equal. -/
def skipTokenBranches (equalityParts : List FieldClause) :
    List OrderDescriptor → List Scalar → List FieldClause
  | item :: items, value :: values =>
    (combineWithAnd ((equalityParts ++ (skipTokenComparison item value).toList).map some)).toList ++
      skipTokenBranches (equalityParts ++ [buildEqualityClause item.field value]) items values
  | _, _ => []

def buildSkipTokenConstraint (descriptors : List OrderDescriptor) (raws : List Text) :
    Except HttpError (Option FieldClause) :=
  if descriptors = [] then badRequest "Unable to apply $skiptoken without an order clause."
  else do
    let values ← parseSkipTokenValues tokens types descriptors raws
    return combineWithOr ((skipTokenBranches [] descriptors values).map some)

end Constraint

/-! ## The order of the rows -/

/-- Rows in the order that the database has for their fields. -/
def Database.compareRows (db : Database) : List OrderDescriptor → Row → Row → Ordering
  | [], _, _ => .eq
  | item :: rest, a, b =>
    (directed item.direction (db.compare item.field (a item.field) (b item.field))).then
      (db.compareRows rest a b)

/-- The row has a value in each of the fields. -/
def Present (descriptors : List OrderDescriptor) (row : Row) : Prop :=
  ∀ item ∈ descriptors, (row item.field).isNullish = false

section Meaning

variable {db : Database} {row last : Row} {item : OrderDescriptor}
  {descriptors : List OrderDescriptor}

theorem rowTruth_equality {field : Text} {value : Scalar} (hrow : (row field).isNullish = false)
    (hvalue : value.isNullish = false) :
    (buildEqualityClause field value).Holds (rowTruth db row) ↔
      db.compare field (row field) value = .eq := by
  have hnull : value ≠ .null := by
    rintro rfl
    cases hvalue
  have hcondition : db.condition field (row field) (.equals value) =
      some (db.equals field (row field) value) := by
    cases value with
    | undefined => cases hvalue
    | _ => rfl
  rw [buildEqualityClause, Clause.Holds, Clause.eval_condition, rowTruth]
  dsimp only
  rw [hcondition, Option.getD_some, Database.equals, if_neg hnull, Database.comparison, hrow, hvalue]
  simp

theorem skipTokenComparison_holds {value : Scalar} (hrow : (row item.field).isNullish = false)
    (hvalue : value.isNullish = false) : ∃ clause, skipTokenComparison item value = some clause ∧
      clause.SingleKey ∧ (clause.Holds (rowTruth db row) ↔
        directed item.direction (db.compare item.field (row item.field) value) = .gt) := by
  have hnull : value ≠ .null := by
    rintro rfl
    cases hvalue
  rw [skipTokenComparison, if_neg hnull]
  refine ⟨_, rfl, .condition _, ?_⟩
  rw [Clause.Holds, Clause.eval_condition, rowTruth]
  cases item.direction with
  | asc => simp [Database.condition, Database.operator, Database.comparison, hrow, hvalue, directed]
  | desc => simp [Database.condition, Database.operator, Database.comparison, hrow, hvalue, directed]

theorem singleKey_skipTokenBranches {equal : List FieldClause}
    (hequal : ∀ part ∈ equal, part.SingleKey) (values : List Scalar) :
    ∀ branch ∈ skipTokenBranches equal descriptors values, branch.SingleKey := by
  induction descriptors generalizing equal values with
  | nil =>
    intro branch hbranch
    cases hbranch
  | cons item rest ih =>
    cases values with
    | nil =>
      intro branch hbranch
      cases hbranch
    | cons value values =>
      intro branch hbranch
      rw [skipTokenBranches, List.mem_append, Option.mem_toList] at hbranch
      rcases hbranch with hbranch | hbranch
      · refine Clause.SingleKey.combineWith Clause.SingleKey.conjunction ?_ hbranch
        rw [Clause.reduceOption_map_some, List.forall_mem_append]
        refine ⟨hequal, fun part hpart => ?_⟩
        rw [Option.mem_toList] at hpart
        unfold skipTokenComparison at hpart
        split at hpart
        · split at hpart
          · obtain rfl := Option.some.inj hpart
            exact .condition _
          · cases hpart
        · obtain rfl := Option.some.inj hpart
          exact .condition _
      · refine ih (List.forall_mem_append.mpr ⟨hequal, ?_⟩) values branch hbranch
        rw [List.forall_mem_singleton]
        exact .condition _

/-- By induction on the fields, those before being equal. -/
theorem exists_branch_iff {equal : List FieldClause} (hequal : ∀ part ∈ equal, part.SingleKey)
    (hrow : Present descriptors row) (hlast : Present descriptors last) :
    (∃ branch ∈ skipTokenBranches equal descriptors (descriptors.map fun item => last item.field),
        branch.Holds (rowTruth db row)) ↔
      (∀ part ∈ equal, part.Holds (rowTruth db row)) ∧
        db.compareRows descriptors row last = .gt := by
  induction descriptors generalizing equal with
  | nil => simp [skipTokenBranches, Database.compareRows]
  | cons item rest ih =>
    obtain ⟨hitem, hrest⟩ := List.forall_mem_cons.mp hrow
    obtain ⟨hvalue, hvalues⟩ := List.forall_mem_cons.mp hlast
    obtain ⟨comparison, hsome, hsingle, hcomparison⟩ := @skipTokenComparison_holds db row item
      (last item.field) hitem hvalue
    have hparts : ∀ part ∈ equal ++ [comparison], part.SingleKey := by
      rw [List.forall_mem_append, List.forall_mem_singleton]
      exact ⟨hequal, hsingle⟩
    obtain ⟨branch, hbranch, -, hholds⟩ :=
      combineWithAnd_map_some (rowTruth db row) (List.concat_ne_nil comparison equal) hparts
    have hequality : (buildEqualityClause item.field (last item.field)).Holds (rowTruth db row) ↔
        directed item.direction (db.compare item.field (row item.field) (last item.field)) = .eq := by
      rw [rowTruth_equality hitem hvalue]
      cases item.direction with
      | asc => exact Iff.rfl
      | desc => exact Ordering.swap_eq_eq.symm
    have hlater := ih (List.forall_mem_append.mpr ⟨hequal, List.forall_mem_singleton.mpr
      (Clause.SingleKey.condition (item.field, .equals (last item.field)))⟩) hrest hvalues
    rw [List.map_cons, skipTokenBranches, hsome, Option.toList_some, hbranch, Option.toList_some,
      List.singleton_append, List.exists_mem_cons_iff, hholds, List.forall_mem_append,
      List.forall_mem_singleton, hcomparison]
    rw [List.forall_mem_append, List.forall_mem_singleton] at hlater
    refine (or_congr_right hlater).trans ?_
    rw [Database.compareRows, Ordering.then_eq_gt, ← hequality]
    unfold buildEqualityClause
    tauto

end Meaning

/-! ## Values that are read back -/

section Resuming

variable (server : Server) (tokens : TokenRuntime) (types : Text → PropertyType)

/-- What a token holds of the value is read back as the value. -/
def Resumable (field : Text) (value : Scalar) : Prop :=
  value.isNullish = false ∧ ∃ raw, server.stringifySkipTokenValue value = .ok raw ∧
    coerceSkipTokenValue tokens types field raw = .ok value

variable {server tokens types} {db : Database} {last : Row} {descriptors : List OrderDescriptor}

/-- A row of resumable values has a token, whose values are those of the row. -/
theorem skipTokenValues_resumable
    (h : ∀ item ∈ descriptors, Resumable server tokens types item.field (last item.field)) :
    ∃ raws, server.skipTokenValues last descriptors = .ok (some raws) ∧
      raws.length = descriptors.length ∧ parseSkipTokenValues tokens types descriptors raws =
        .ok (descriptors.map fun item => last item.field) := by
  induction descriptors with
  | nil => exact ⟨[], rfl, rfl, rfl⟩
  | cons item rest ih =>
    obtain ⟨⟨hpresent, raw, hraw, hvalue⟩, hrest⟩ := List.forall_mem_cons.mp h
    obtain ⟨raws, hraws, hlength, hvalues⟩ := ih hrest
    have hdefined : last item.field ≠ .undefined := by
      intro hundefined
      rw [hundefined] at hpresent
      cases hpresent
    refine ⟨raw :: raws, ?_, ?_, ?_⟩
    · rw [Server.skipTokenValues, if_neg hdefined, hraw, hraws]
      rfl
    · rw [List.length_cons, List.length_cons, hlength]
    · rw [parseSkipTokenValues, List.headD_cons, hvalue, List.tail_cons, hvalues]
      rfl

/-- The clause of a token is true of the rows that follow its row. -/
theorem buildSkipTokenConstraint_holds (hne : descriptors ≠ [])
    (h : ∀ item ∈ descriptors, Resumable server tokens types item.field (last item.field)) :
    ∃ raws clause, server.skipTokenValues last descriptors = .ok (some raws) ∧
      raws.length = descriptors.length ∧
      buildSkipTokenConstraint tokens types descriptors raws = .ok (some clause) ∧
      clause.SingleKey ∧ ∀ row, Present descriptors row →
        (clause.Holds (rowTruth db row) ↔ db.compareRows descriptors row last = .gt) := by
  obtain ⟨raws, hraws, hlength, hvalues⟩ := skipTokenValues_resumable h
  have hpresent : Present descriptors last := fun item hitem => (h item hitem).1
  have hsingle := @singleKey_skipTokenBranches descriptors [] (by simp)
    (descriptors.map fun item => last item.field)
  have hbranches : skipTokenBranches [] descriptors (descriptors.map fun item => last item.field) ≠
      [] := by
    obtain ⟨item, rest, rfl⟩ := List.exists_cons_of_ne_nil hne
    obtain ⟨comparison, hsome, -⟩ := @skipTokenComparison_holds db last item (last item.field)
      (hpresent item List.mem_cons_self) (hpresent item List.mem_cons_self)
    rw [List.map_cons, skipTokenBranches, hsome]
    exact List.append_ne_nil_of_left_ne_nil (List.cons_ne_nil comparison []) _
  obtain ⟨clause, hclause, hkey, -⟩ := combineWithOr_map_some (rowTruth db last) hbranches hsingle
  refine ⟨raws, clause, hraws, hlength, ?_, hkey, fun row hrow => ?_⟩
  · rw [buildSkipTokenConstraint, if_neg hne, hvalues]
    exact congrArg Except.ok hclause
  · obtain ⟨clause', hclause', -, hholds⟩ :=
      combineWithOr_map_some (rowTruth db row) hbranches hsingle
    obtain rfl := Option.some.inj (hclause.symm.trans hclause')
    rw [hholds, exists_branch_iff (by simp) hrow hpresent]
    simp

end Resuming

end LoopbackOData
