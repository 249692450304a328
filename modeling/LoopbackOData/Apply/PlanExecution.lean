import LoopbackOData.Apply.Planner

/-!
# Running plans of `$apply` in memory

`runApplyPlanFallback` on the rows of the repository. What is done to rows by one operation is a
parameter: evaluating a filter, aggregating, sorting, and selecting by a `where` clause.
-/

namespace LoopbackOData

namespace ApplyPlan

open Aggregation Outcome

set_option autoImplicit false

/-- The operations on rows that plans are made of. -/
structure Operations (ρ : Type) where
  evaluatePredicate : ParsedExpression → ρ → Bool
  hasOwnProperty : ρ → Text → Bool
  executeAggregation : AggregationSpec → NavigationPaths → List ρ → Except HttpError (List ρ)
  orderResults : List OrderDescriptor → List ρ → List ρ
  /-- The rows that the repository finds for a `where` clause. -/
  selects : Where → ρ → Bool
  selects_and : ∀ clause clause' row,
    selects (.and [clause, clause']) row = (selects clause row && selects clause' row)

section Execution

variable {ρ : Type} (ops : Operations ρ)

def sliceResults (data : List ρ) (offset limit : Option Nat) : List ρ :=
  let result := data.drop (offset.getD 0)
  match limit with
  | none => result
  | some limit => result.take limit

def applyPostFilters (data : List ρ) (expressions : List ParsedExpression) : List ρ :=
  expressions.foldl (fun result expr => result.filter (ops.evaluatePredicate expr)) data

/-- The property `field` of an expression, where it has one. -/
def fieldOf : ParsedExpression → Option Text
  | .leaf (.stringfncmp ..) => none
  | .leaf leaf => leaf.fields.head?
  | _ => none

/-- Rows without the property that a filter reads are kept. -/
def preservesField (expr : ParsedExpression) (row : ρ) : Bool :=
  match fieldOf expr with
  | some field =>
    if ops.hasOwnProperty row ((field.splitOn '/').headD []) then ops.evaluatePredicate expr row
    else true
  | none => ops.evaluatePredicate expr row

def applyPostFiltersPreservingFields (data : List ρ) (expressions : List ParsedExpression) :
    List ρ :=
  expressions.foldl (fun result expr => result.filter (preservesField ops expr)) data

def limitExceeded (limit : Nat) : HttpError :=
  ⟨400, "$apply result exceeds the server limit of " ++ toString limit ++
    " records. Refine the query or increase maxApplyResultSize."⟩

def ensureApplyFallbackLimit (count : Nat) : Option Nat → Except HttpError Unit
  | none => .ok ()
  | some limit => if 0 < limit ∧ limit < count then .error (limitExceeded limit) else .ok ()

structure BranchOutcome (ρ : Type) where
  rows : List ρ
  lastStageOrdered : Bool
  /-- The rows of each branch; empty where there are no branches. -/
  branchSegments : List (List ρ)

/-- The body of the loop over the stages. -/
def executeStage (maxRows : Option Nat) (stage : ApplyAggregationStage) (working : List ρ) :
    Except HttpError (List ρ) := do
  let working ← ops.executeAggregation stage.spec stage.navigationPaths working
  let working := applyPostFilters ops working stage.postAggregationFilters
  ensureApplyFallbackLimit working.length maxRows
  let working :=
    if stage.orderBy = [] then working else ops.orderResults stage.orderBy working
  let working := sliceResults working stage.skip stage.top
  ensureApplyFallbackLimit working.length maxRows
  return working

def executeStages (maxRows : Option Nat) : List ApplyAggregationStage → List ρ →
    Except HttpError (List ρ)
  | [], working => .ok working
  | stage :: stages, working => do
    executeStages maxRows stages (← executeStage ops maxRows stage working)

/-- What follows the branches of a plan. -/
def finishBranch (maxRows : Option Nat) (plan : ApplyExecutionPlan) (lastStageOrdered : Bool)
    (working : List ρ) (branchSegments : List (List ρ)) : Except HttpError (BranchOutcome ρ) := do
  let segments :=
    if plan.postFilters = [] then branchSegments
    else branchSegments.map (applyPostFiltersPreservingFields ops · plan.postFilters)
  let working :=
    if plan.postFilters = [] then working
    else if branchSegments = [] then applyPostFilters ops working plan.postFilters
    else segments.flatten
  ensureApplyFallbackLimit working.length maxRows
  let sorted :=
    if plan.postOrderBy = [] then segments
    else segments.map (ops.orderResults plan.postOrderBy)
  let working :=
    if plan.postOrderBy = [] then working
    else if segments = [] then ops.orderResults plan.postOrderBy working
    else sorted.flatten
  ensureApplyFallbackLimit working.length maxRows
  let sliced := sliceResults working plan.postSkip plan.postTop
  ensureApplyFallbackLimit sliced.length maxRows
  return {
    rows := sliced
    lastStageOrdered := lastStageOrdered || plan.postOrderBy ≠ []
    branchSegments := if plan.postSkip = none ∧ plan.postTop = none then sorted else [] }

mutual

def executeApplyPlanBranch (maxRows : Option Nat) :
    ApplyExecutionPlan → List ρ → Except HttpError (BranchOutcome ρ)
  | ⟨pushdownWhere, preAggregationFilters, stages, concat, postOrderBy, postTop, postSkip,
      postFilters⟩, input => do
    let working := applyPostFilters ops input preAggregationFilters
    ensureApplyFallbackLimit working.length maxRows
    let working ← executeStages ops maxRows stages working
    let (branchRows, segments) ← executeBranches maxRows concat working []
    finishBranch ops maxRows
      ⟨pushdownWhere, preAggregationFilters, stages, concat, postOrderBy, postTop, postSkip,
        postFilters⟩
      (concat.isEmpty && (stages.getLast?.any (·.orderBy ≠ [])))
      (if concat.isEmpty then working else branchRows) segments

/-- The loop over the branches of `concat`, which all read the same rows. -/
def executeBranches (maxRows : Option Nat) :
    List ApplyExecutionPlan → List ρ → List ρ → Except HttpError (List ρ × List (List ρ))
  | [], _, branchResults => .ok (branchResults, [])
  | branch :: branches, working, branchResults => do
    let outcome ← executeApplyPlanBranch maxRows branch working
    let branchResults := branchResults ++ outcome.rows
    ensureApplyFallbackLimit branchResults.length maxRows
    let (rows, segments) ← executeBranches maxRows branches working branchResults
    return (rows, (if outcome.branchSegments = [] then [outcome.rows]
      else outcome.branchSegments) ++ segments)

end

def runApplyPlanFallback (maxRows : Option Nat) (plan : ApplyExecutionPlan) (input : List ρ) :
    Except HttpError (BranchOutcome ρ) :=
  executeApplyPlanBranch ops maxRows plan input

end Execution

end ApplyPlan

end LoopbackOData
