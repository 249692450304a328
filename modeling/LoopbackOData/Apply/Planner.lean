import LoopbackOData.Apply.Aggregation
import LoopbackOData.Filter.Where
import LoopbackOData.Paging.Order

/-!
# Plans of `$apply`

`buildApplyExecutionPlan` sorts the transformations of a pipeline into the slots of a plan: a
`where` clause for the repository, a list of stages with a filter, an order and a cut each, the
plans of the branches of `concat`, and an order and a cut of the whole.
-/

namespace LoopbackOData

namespace ApplyPlan

open Aggregation Outcome

set_option autoImplicit false

inductive ApplyTransformation where
  | filter (expression : ParsedExpression)
  | groupby (keys : List Text) (aggregates : List AggregationExpression)
  | aggregate (expressions : List AggregationExpression)
  | orderby (items : List OrderDescriptor)
  | skip (count : Nat)
  | top (count : Nat)
  | bottom (count : Nat)
  | concat (pipelines : List (List ApplyTransformation))

abbrev ApplyPipeline := List ApplyTransformation

/-- An aggregation and what follows it. No order is the empty list. -/
structure ApplyAggregationStage where
  spec : AggregationSpec
  postAggregationFilters : List ParsedExpression := []
  orderBy : List OrderDescriptor := []
  top : Option Nat := none
  skip : Option Nat := none
  navigationPaths : NavigationPaths := .none

structure ApplyExecutionPlan where
  pushdownWhere : Option Where
  preAggregationFilters : List ParsedExpression
  stages : List ApplyAggregationStage
  concat : List ApplyExecutionPlan
  postOrderBy : List OrderDescriptor
  postTop : Option Nat
  postSkip : Option Nat
  postFilters : List ParsedExpression

/-- `collectNavigationPaths` resolves the paths of a stage from the model; without a model there
are none. -/
structure ApplyPlannerOptions extends ParseOptions where
  collectNavigationPaths : AggregationSpec → Except FilterError NavigationPaths

/-! ## One transformation -/

/-- The variables of the loop. The stage that takes the next transformations is not yet among
`stages`. -/
structure PlannerState where
  pushdownWhere : Option Where := none
  preAggregationFilters : List ParsedExpression := []
  stages : List ApplyAggregationStage := []
  currentStage : Option ApplyAggregationStage := none
  concatBranches : List ApplyExecutionPlan := []
  planPostFilters : List ParsedExpression := []
  planOrderBy : List OrderDescriptor := []
  planTop : Option Nat := none
  planSkip : Option Nat := none

def planError {α : Type} (message : String) : Except FilterError α := .error (.error message)

def buildWhereCandidate (options : ApplyPlannerOptions) (expression : ParsedExpression) :
    Except FilterError (Option Where) :=
  match buildWhereFromParsedExpression expression options.toParseOptions with
  | .ok candidate => .ok (some candidate)
  | .error (.unsupportedFilter functions) =>
    if options.strict then
      planError ("Unsupported filter() transformation in strict mode: " ++
        "Unsupported filter functions: " ++ ", ".intercalate functions)
    else .ok none
  | .error error => .error error

def mergeWhereClauses (target : Option Where) (candidate : Where) : Where :=
  match target with
  | none => candidate
  | some target => .and [target, candidate]

namespace PlannerState

variable (s : PlannerState)

def allStages : List ApplyAggregationStage := s.stages ++ s.currentStage.toList

/-- Where no stage takes the transformation. -/
def hasPlanResults : Bool := s.stages ≠ [] || !s.concatBranches.isEmpty

def planFilter (options : ApplyPlannerOptions) (expression : ParsedExpression) :
    Except FilterError PlannerState :=
  match s.currentStage with
  | some stage => .ok { s with
      currentStage := some { stage with
        postAggregationFilters := stage.postAggregationFilters ++ [expression] } }
  | none =>
    if s.hasPlanResults then
      .ok { s with planPostFilters := s.planPostFilters ++ [expression] }
    else do
      match ← buildWhereCandidate options expression with
      | some candidate =>
        return { s with pushdownWhere := some (mergeWhereClauses s.pushdownWhere candidate) }
      | none => return { s with preAggregationFilters := s.preAggregationFilters ++ [expression] }

def startStage (spec : AggregationSpec) : PlannerState :=
  { s with stages := s.allStages, currentStage := some { spec := spec } }

def planOrder (requiresAggregation : Bool) (items : List OrderDescriptor) :
    Except FilterError PlannerState :=
  match s.currentStage with
  | some stage =>
    if stage.orderBy ≠ [] then
      planError "Multiple orderby() transformations are not supported within the same stage."
    else .ok { s with currentStage := some { stage with orderBy := items } }
  | none =>
    if requiresAggregation && !s.hasPlanResults then
      planError "orderby() transformation requires a preceding groupby() or aggregate()."
    else if s.planOrderBy ≠ [] then
      planError "Multiple orderby() transformations are not supported for the same pipeline."
    else .ok { s with planOrderBy := items }

def planSkipCount (requiresAggregation : Bool) (count : Nat) : Except FilterError PlannerState :=
  match s.currentStage with
  | some stage =>
    if stage.skip ≠ none then
      planError "Only one skip() transformation is supported per stage."
    else .ok { s with currentStage := some { stage with skip := some count } }
  | none =>
    if requiresAggregation && !s.hasPlanResults then
      planError "skip() transformation requires a preceding groupby() or aggregate()."
    else if s.planSkip ≠ none then
      planError "Only one skip() transformation is supported per pipeline."
    else .ok { s with planSkip := some count }

def planTopCount (requiresAggregation : Bool) (count : Nat) : Except FilterError PlannerState :=
  match s.currentStage with
  | some stage =>
    if stage.top ≠ none then
      planError "Only one top() transformation is supported per stage."
    else .ok { s with currentStage := some { stage with top := some count } }
  | none =>
    if requiresAggregation && !s.hasPlanResults then
      planError "top() transformation requires a preceding groupby() or aggregate()."
    else if s.planTop ≠ none then
      planError "Only one top() transformation is supported per pipeline."
    else .ok { s with planTop := some count }

def addBranches (branches : List ApplyExecutionPlan) : PlannerState :=
  { s with stages := s.allStages, currentStage := none,
           concatBranches := s.concatBranches ++ branches }

end PlannerState

/-! ## The plan -/

mutual

def planHasAggregation : ApplyExecutionPlan → Bool
  | ⟨_, _, stages, concat, _, _, _, _⟩ => !stages.isEmpty || anyHasAggregation concat

def anyHasAggregation : List ApplyExecutionPlan → Bool
  | [] => false
  | plan :: plans => planHasAggregation plan || anyHasAggregation plans

end

mutual

def containsAggregation : ApplyTransformation → Bool
  | .groupby _ _ => true
  | .aggregate _ => true
  | .concat pipelines => anyContainsAggregation pipelines
  | _ => false

def pipelineContainsAggregation : ApplyPipeline → Bool
  | [] => false
  | transformation :: rest => containsAggregation transformation || pipelineContainsAggregation rest

def anyContainsAggregation : List ApplyPipeline → Bool
  | [] => false
  | pipeline :: rest => pipelineContainsAggregation pipeline || anyContainsAggregation rest

end

def populateStage (options : ApplyPlannerOptions) (stage : ApplyAggregationStage) :
    Except FilterError ApplyAggregationStage := do
  return { stage with navigationPaths := ← options.collectNavigationPaths stage.spec }

/-- The plan after the loop. The stages of the branches have had their paths resolved already. -/
def finishPlan (options : ApplyPlannerOptions) (requiresAggregation : Bool) (s : PlannerState) :
    Except FilterError ApplyExecutionPlan :=
  if requiresAggregation && s.allStages.isEmpty && !anyHasAggregation s.concatBranches then
    planError "groupby() or aggregate() transformation is required in the $apply pipeline."
  else do
    return {
      pushdownWhere := s.pushdownWhere
      preAggregationFilters := s.preAggregationFilters
      stages := ← s.allStages.mapM (populateStage options)
      concat := s.concatBranches
      postOrderBy := s.planOrderBy
      postTop := s.planTop
      postSkip := s.planSkip
      postFilters := s.planPostFilters }

mutual

/-- The body of the loop over the transformations. -/
def planTransformation (options : ApplyPlannerOptions) (requiresAggregation : Bool)
    (s : PlannerState) : ApplyTransformation → Except FilterError PlannerState
  | .filter expression => s.planFilter options expression
  | .groupby keys aggregates => .ok (s.startStage ⟨keys, aggregates⟩)
  | .aggregate expressions => .ok (s.startStage ⟨[], expressions⟩)
  | .orderby items => s.planOrder requiresAggregation items
  | .skip count => s.planSkipCount requiresAggregation count
  | .top count => s.planTopCount requiresAggregation count
  | .bottom _ => planError "bottom() transformation is not supported yet."
  | .concat pipelines => do return s.addBranches (← planBranches options pipelines)

def planTransformations (options : ApplyPlannerOptions) (requiresAggregation : Bool)
    (s : PlannerState) : ApplyPipeline → Except FilterError PlannerState
  | [] => .ok s
  | transformation :: rest => do
    let s ← planTransformation options requiresAggregation s transformation
    planTransformations options requiresAggregation s rest

/-- `buildApplyExecutionPlan(branch, options, true)` for each branch. -/
def planBranches (options : ApplyPlannerOptions) :
    List ApplyPipeline → Except FilterError (List ApplyExecutionPlan)
  | [] => .ok []
  | branch :: rest =>
    if branch.isEmpty then planError "Empty $apply pipeline."
    else do
      let plan ← finishPlan options false (← planTransformations options false {} branch)
      return plan :: (← planBranches options rest)

end

def buildApplyExecutionPlan (options : ApplyPlannerOptions) (pipeline : ApplyPipeline)
    (allowNonAggregate : Bool) : Except FilterError ApplyExecutionPlan :=
  if pipeline.isEmpty then planError "Empty $apply pipeline."
  else do
    let requiresAggregation := !allowNonAggregate && pipelineContainsAggregation pipeline
    finishPlan options requiresAggregation
      (← planTransformations options requiresAggregation {} pipeline)

end ApplyPlan

end LoopbackOData
