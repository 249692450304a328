import LoopbackOData.Apply.PlanExecution

/-!
# What running a plan means

The meaning of a pipeline is that of its transformations, one after another. A plan is read back as
a pipeline in which the slots of each stage stand in the order in which they are executed; running
the plan is the meaning of that pipeline.
-/

namespace LoopbackOData

namespace ApplyPlan

open Aggregation Outcome

set_option autoImplicit false

/-! ## The meaning of a pipeline -/

section Meaning

variable {ρ : Type} (ops : Operations ρ) (paths : AggregationSpec → NavigationPaths)

mutual

def transformationMeans : ApplyTransformation → List ρ → Except HttpError (List ρ)
  | .filter expression, rows => .ok (rows.filter (ops.evaluatePredicate expression))
  | .groupby keys aggregates, rows =>
    ops.executeAggregation ⟨keys, aggregates⟩ (paths ⟨keys, aggregates⟩) rows
  | .aggregate expressions, rows =>
    ops.executeAggregation ⟨[], expressions⟩ (paths ⟨[], expressions⟩) rows
  | .orderby items, rows => .ok (ops.orderResults items rows)
  | .skip count, rows => .ok (rows.drop count)
  | .top count, rows => .ok (rows.take count)
  | .bottom count, rows => .ok (rows.drop (rows.length - count))
  | .concat pipelines, rows => branchesMean pipelines rows

def pipelineMeans : ApplyPipeline → List ρ → Except HttpError (List ρ)
  | [], rows => .ok rows
  | transformation :: rest, rows => do pipelineMeans rest (← transformationMeans transformation rows)

def branchesMean : List ApplyPipeline → List ρ → Except HttpError (List ρ)
  | [], _ => .ok []
  | branch :: rest, rows => do
    let first ← pipelineMeans branch rows
    return first ++ (← branchesMean rest rows)

end

variable {ops paths}

theorem pipelineMeans_nil (rows : List ρ) : pipelineMeans ops paths [] rows = .ok rows := by
  rw [pipelineMeans]

theorem pipelineMeans_cons (transformation : ApplyTransformation) (rest : ApplyPipeline)
    (rows : List ρ) :
    pipelineMeans ops paths (transformation :: rest) rows =
      transformationMeans ops paths transformation rows >>= pipelineMeans ops paths rest := by
  rw [pipelineMeans]

theorem pipelineMeans_singleton (transformation : ApplyTransformation) (rows : List ρ) :
    pipelineMeans ops paths [transformation] rows =
      transformationMeans ops paths transformation rows := by
  rw [pipelineMeans]
  cases transformationMeans ops paths transformation rows with
  | error e => rfl
  | ok rows => exact @pipelineMeans_nil ρ ops paths rows

theorem transformationMeans_filter (expression : ParsedExpression) (rows : List ρ) :
    transformationMeans ops paths (.filter expression) rows =
      .ok (rows.filter (ops.evaluatePredicate expression)) := by
  rw [transformationMeans]

theorem pipelineMeans_append (first second : ApplyPipeline) (rows : List ρ) :
    pipelineMeans ops paths (first ++ second) rows =
      pipelineMeans ops paths first rows >>= pipelineMeans ops paths second := by
  induction first generalizing rows with
  | nil =>
    rw [List.nil_append, pipelineMeans]
    rfl
  | cons transformation first ih =>
    rw [List.cons_append, pipelineMeans, pipelineMeans]
    cases transformationMeans ops paths transformation rows with
    | error e => rfl
    | ok rows => exact ih rows

theorem pipelineMeans_filters (expressions : List ParsedExpression) (rows : List ρ) :
    pipelineMeans ops paths (expressions.map .filter) rows =
      .ok (applyPostFilters ops rows expressions) := by
  induction expressions generalizing rows with
  | nil =>
    rw [List.map_nil, pipelineMeans]
    rfl
  | cons expression expressions ih =>
    rw [List.map_cons, pipelineMeans, transformationMeans]
    exact ih _

end Meaning

/-! ## Reading a plan back -/

/-- Sorting and cutting, in the order of `executeApplyPlanBranch`. -/
def cutTransformations (orderBy : List OrderDescriptor) (skip top : Option Nat) : ApplyPipeline :=
  (if orderBy = [] then [] else [.orderby orderBy]) ++ (skip.map .skip).toList ++
    (top.map .top).toList

def stageTransformations (stage : ApplyAggregationStage) : ApplyPipeline :=
  .groupby stage.spec.groupBy stage.spec.aggregates ::
    (stage.postAggregationFilters.map .filter ++
      cutTransformations stage.orderBy stage.skip stage.top)

def concatTransformation (branches : List ApplyPipeline) : ApplyPipeline :=
  if branches = [] then [] else [.concat branches]

mutual

/-- The transformations of a plan but for what its `where` clause stands for. -/
def transformationsOf : ApplyExecutionPlan → ApplyPipeline
  | ⟨_, preAggregationFilters, stages, concat, postOrderBy, postTop, postSkip, postFilters⟩ =>
    preAggregationFilters.map .filter ++ stages.flatMap stageTransformations ++
      concatTransformation (allTransformationsOf concat) ++ postFilters.map .filter ++
      cutTransformations postOrderBy postSkip postTop

def allTransformationsOf : List ApplyExecutionPlan → List ApplyPipeline
  | [] => []
  | plan :: plans => transformationsOf plan :: allTransformationsOf plans

end

/-- Induction on plans, the branches included. -/
@[elab_as_elim]
theorem ApplyExecutionPlan.induction {P : ApplyExecutionPlan → Prop}
    (plan : ∀ plan : ApplyExecutionPlan, (∀ branch ∈ plan.concat, P branch) → P plan) :
    ∀ plan, P plan := by
  intro p
  refine ApplyExecutionPlan.rec (motive_1 := P) (motive_2 := fun plans => ∀ q ∈ plans, P q)
    ?_ ?_ ?_ p
  · intro where' pre stages concat order top skip filters hconcat
    exact plan _ hconcat
  · intro q hq
    cases hq
  · intro head tail hhead htail q hq
    rcases List.mem_cons.mp hq with rfl | hq
    · exact hhead
    · exact htail q hq

/-- Branches that are filtered by expressions without a field, and not sorted as a whole: a filter
keeps rows without its field, and sorting sorts each branch. -/
def JoinsPlainly (plan : ApplyExecutionPlan) : Prop :=
  plan.concat = [] ∨ plan.postOrderBy = [] ∧ ∀ expr ∈ plan.postFilters, fieldOf expr = none

/-- A property of a plan and of all its branches. -/
inductive Throughout (property : ApplyExecutionPlan → Prop) : ApplyExecutionPlan → Prop where
  | mk {plan : ApplyExecutionPlan} (here : property plan)
      (branches : ∀ branch ∈ plan.concat, Throughout property branch) : Throughout property plan

/-- The paths of the stages are those of their aggregations. -/
def Populated (paths : AggregationSpec → NavigationPaths) (plan : ApplyExecutionPlan) : Prop :=
  ∀ stage ∈ plan.stages, stage.navigationPaths = paths stage.spec

/-! ## Running a plan -/

section Running

variable {ρ : Type} {ops : Operations ρ} {paths : AggregationSpec → NavigationPaths}

theorem preservesField_of_none {expr : ParsedExpression} (h : fieldOf expr = none) :
    preservesField ops expr = ops.evaluatePredicate expr := by
  funext row
  unfold preservesField
  rw [h]

theorem applyPostFilters_flatten (expressions : List ParsedExpression)
    (h : ∀ expr ∈ expressions, fieldOf expr = none) (segments : List (List ρ)) :
    (segments.map (applyPostFiltersPreservingFields ops · expressions)).flatten =
      applyPostFilters ops segments.flatten expressions := by
  induction expressions generalizing segments with
  | nil =>
    have hid : (applyPostFiltersPreservingFields ops · []) = (id : List ρ → List ρ) := rfl
    rw [hid, List.map_id]
    rfl
  | cons expr expressions ih =>
    have hrest := ih (fun expr' hexpr => h expr' (List.mem_cons_of_mem _ hexpr))
      (segments.map (List.filter (ops.evaluatePredicate expr)))
    rw [← List.filter_flatten, List.map_map] at hrest
    have hfirst : (applyPostFiltersPreservingFields ops · (expr :: expressions)) =
        (applyPostFiltersPreservingFields ops · expressions) ∘
          List.filter (ops.evaluatePredicate expr) := by
      funext segment
      rw [← preservesField_of_none (h expr List.mem_cons_self)]
      rfl
    rw [hfirst, hrest]
    rfl

theorem pipelineMeans_cut (orderBy : List OrderDescriptor) (skip top : Option Nat)
    (rows : List ρ) :
    pipelineMeans ops paths (cutTransformations orderBy skip top) rows =
      .ok (sliceResults (if orderBy = [] then rows else ops.orderResults orderBy rows) skip
        top) := by
  have hcut (sorted : List ρ) : pipelineMeans ops paths
      ((skip.map ApplyTransformation.skip).toList ++ (top.map ApplyTransformation.top).toList)
      sorted = .ok (sliceResults sorted skip top) := by
    cases skip <;> cases top <;> rfl
  unfold cutTransformations
  rw [List.append_assoc]
  split
  · exact hcut rows
  · rw [List.singleton_append, pipelineMeans, transformationMeans]
    exact hcut _

theorem executeStage_eq {stage : ApplyAggregationStage}
    (h : stage.navigationPaths = paths stage.spec) (rows : List ρ) :
    executeStage ops none stage rows =
      pipelineMeans ops paths (stageTransformations stage) rows := by
  unfold executeStage stageTransformations
  rw [h, pipelineMeans, transformationMeans]
  cases ops.executeAggregation stage.spec (paths stage.spec) rows with
  | error e => rfl
  | ok working =>
    change _ = pipelineMeans ops paths _ working
    rw [pipelineMeans_append, pipelineMeans_filters]
    exact (pipelineMeans_cut _ _ _ _).symm

theorem executeStages_eq {stages : List ApplyAggregationStage}
    (h : ∀ stage ∈ stages, stage.navigationPaths = paths stage.spec) (rows : List ρ) :
    executeStages ops none stages rows =
      pipelineMeans ops paths (stages.flatMap stageTransformations) rows := by
  induction stages generalizing rows with
  | nil => rw [executeStages, List.flatMap_nil, pipelineMeans]
  | cons stage stages ih =>
    have hstage := h stage List.mem_cons_self
    rw [executeStages, executeStage_eq hstage, List.flatMap_cons, pipelineMeans_append]
    cases pipelineMeans ops paths (stageTransformations stage) rows with
    | error e => rfl
    | ok working => exact ih (fun stage' hmem => h stage' (List.mem_cons_of_mem _ hmem)) working

/-- The segments of an outcome are its rows, branch by branch. -/
def IsOutcome (outcome : BranchOutcome ρ) (rows : List ρ) : Prop :=
  outcome.rows = rows ∧
    (outcome.branchSegments = [] ∨ outcome.branchSegments.flatten = rows)

theorem finishBranch_eq {plan : ApplyExecutionPlan} (hplain : JoinsPlainly plan)
    (ordered : Bool) {working : List ρ} {segments : List (List ρ)}
    (hnone : plan.concat = [] → segments = [])
    (hsegments : segments = [] ∨ segments.flatten = working) :
    Agree IsOutcome (finishBranch ops none plan ordered working segments)
      (pipelineMeans ops paths (plan.postFilters.map .filter ++
        cutTransformations plan.postOrderBy plan.postSkip plan.postTop) working) := by
  rw [pipelineMeans_append, pipelineMeans_filters]
  change Agree IsOutcome _ (pipelineMeans ops paths
    (cutTransformations plan.postOrderBy plan.postSkip plan.postTop) _)
  rw [pipelineMeans_cut]
  apply Agree.ok
  by_cases hempty : segments = []
  · subst hempty
    refine ⟨?_, Or.inl ?_⟩
    · dsimp only
      congr 1
      by_cases hfilters : plan.postFilters = []
      · rw [if_pos hfilters, if_pos hfilters, hfilters]
        rfl
      · rw [if_neg hfilters, if_pos rfl, if_neg hfilters]
        rfl
    · dsimp only
      have hnil : (if plan.postOrderBy = [] then
          if plan.postFilters = [] then ([] : List (List ρ))
          else [].map (applyPostFiltersPreservingFields ops · plan.postFilters)
          else (if plan.postFilters = [] then ([] : List (List ρ))
          else [].map (applyPostFiltersPreservingFields ops · plan.postFilters)).map
            (ops.orderResults plan.postOrderBy)) = [] := by
        split
        · split <;> rfl
        · split <;> rfl
      rw [hnil]
      split <;> rfl
  · have hflat := hsegments.resolve_left hempty
    obtain hconcat | ⟨horder, hfields⟩ := hplain
    · exact absurd (hnone hconcat) hempty
    · have hfiltered : (if plan.postFilters = [] then segments
          else segments.map (applyPostFiltersPreservingFields ops · plan.postFilters)).flatten =
            applyPostFilters ops working plan.postFilters := by
        split
        · next hfilters =>
          rw [hfilters, hflat]
          rfl
        · rw [applyPostFilters_flatten _ hfields, hflat]
      have hworking : (if plan.postFilters = [] then working
          else if segments = [] then applyPostFilters ops working plan.postFilters
          else (if plan.postFilters = [] then segments
          else segments.map (applyPostFiltersPreservingFields ops · plan.postFilters)).flatten) =
            applyPostFilters ops working plan.postFilters := by
        rw [if_neg hempty, hfiltered]
        split
        · next hfilters =>
          rw [hfilters]
          rfl
        · rfl
      rw [if_pos horder]
      refine ⟨?_, ?_⟩
      · dsimp only
        rw [if_pos horder]
        exact congrArg (sliceResults · plan.postSkip plan.postTop) hworking
      · dsimp only
        by_cases hcut : plan.postSkip = none ∧ plan.postTop = none
        · right
          rw [if_pos hcut, if_pos horder, if_pos horder, hcut.1, hcut.2]
          exact hfiltered
        · left
          exact if_neg hcut

theorem executeBranches_eq {branches : List ApplyExecutionPlan}
    (h : ∀ branch ∈ branches, ∀ rows, Agree IsOutcome (executeApplyPlanBranch ops none branch rows)
      (pipelineMeans ops paths (transformationsOf branch) rows)) (working done : List ρ) :
    Agree (fun result rows => result.1 = done ++ rows ∧ result.2.flatten = rows)
      (executeBranches ops none branches working done)
      (branchesMean ops paths (allTransformationsOf branches) working) := by
  induction branches generalizing done with
  | nil =>
    rw [executeBranches, allTransformationsOf, branchesMean]
    exact .ok ⟨(List.append_nil done).symm, rfl⟩
  | cons branch branches ih =>
    rw [executeBranches, allTransformationsOf, branchesMean]
    apply (h branch List.mem_cons_self working).bind
    rintro outcome first ⟨rfl, hsegments⟩
    have hrest := ih (fun branch' hmem => h branch' (List.mem_cons_of_mem _ hmem))
      (done ++ outcome.rows)
    change Agree _ (executeBranches ops none branches working (done ++ outcome.rows) >>= _) _
    apply hrest.bind
    rintro ⟨rows, segments⟩ second ⟨hrows, hflat⟩
    refine .ok ⟨?_, ?_⟩
    · dsimp only at hrows ⊢
      rw [hrows, List.append_assoc]
    · dsimp only at hflat ⊢
      rw [List.flatten_append, hflat]
      congr 1
      split
      · rw [List.flatten_singleton]
      · next hne => exact hsegments.resolve_left hne

theorem executeBranches_nil (working done : List ρ) :
    executeBranches ops none [] working done = .ok (done, []) := by
  rw [executeBranches]

/-- Running a plan is the meaning of what the plan is read back as: by induction on the plan. -/
theorem executeApplyPlanBranch_eq {plan : ApplyExecutionPlan}
    (h : Throughout (fun plan => JoinsPlainly plan ∧ Populated paths plan) plan)
    (rows : List ρ) :
    Agree IsOutcome (executeApplyPlanBranch ops none plan rows)
      (pipelineMeans ops paths (transformationsOf plan) rows) := by
  induction plan using ApplyExecutionPlan.induction generalizing rows with
  | plan plan ih =>
    obtain ⟨⟨hplain, hpopulated⟩, hbranches⟩ := h
    have hconcat := fun branch hmem => ih branch hmem (hbranches branch hmem)
    obtain ⟨pushdownWhere, preAggregationFilters, stages, concat, postOrderBy, postTop, postSkip,
      postFilters⟩ := plan
    rw [executeApplyPlanBranch, transformationsOf, List.append_assoc, pipelineMeans_append,
      pipelineMeans_append, pipelineMeans_append, pipelineMeans_filters]
    change Agree _ (executeStages ops none stages _ >>= _) ((pipelineMeans ops paths _ _ >>= _) >>= _)
    rw [executeStages_eq hpopulated]
    cases pipelineMeans ops paths (stages.flatMap stageTransformations)
        (applyPostFilters ops rows preAggregationFilters) with
    | error e => exact .error e
    | ok working =>
      change Agree _ (executeBranches ops none concat working [] >>= _)
        (pipelineMeans ops paths (concatTransformation (allTransformationsOf concat)) working >>= _)
      cases concat with
      | nil =>
        have hnone : pipelineMeans ops paths (concatTransformation (allTransformationsOf []))
            working = .ok working := by
          rw [allTransformationsOf, concatTransformation, if_pos rfl, pipelineMeans]
        rw [executeBranches_nil, hnone]
        exact finishBranch_eq hplain _ (fun _ => rfl) (Or.inl rfl)
      | cons branch branches =>
        have hjoined : pipelineMeans ops paths
            (concatTransformation (allTransformationsOf (branch :: branches))) working =
              branchesMean ops paths (allTransformationsOf (branch :: branches)) working := by
          rw [concatTransformation, if_neg (by rw [allTransformationsOf]; exact List.cons_ne_nil _ _),
            pipelineMeans_singleton, transformationMeans]
        rw [hjoined]
        apply (executeBranches_eq hconcat working []).bind
        rintro ⟨rows, segments⟩ joined ⟨hrows, hflat⟩
        dsimp only at hrows hflat ⊢
        rw [List.nil_append] at hrows
        subst hrows
        exact finishBranch_eq hplain _ (fun hnil => by cases hnil) (Or.inr hflat)

/-! ### Under a limit -/

variable {limit : Nat}

theorem refuses_ensure (count limit : Nat) :
    Refuses (limitExceeded limit) (ensureApplyFallbackLimit count (some limit))
      (ensureApplyFallbackLimit count none) := by
  unfold ensureApplyFallbackLimit
  dsimp only
  split
  · exact Or.inl rfl
  · exact Or.inr rfl

theorem refuses_executeStage (stage : ApplyAggregationStage) (working : List ρ) :
    Refuses (limitExceeded limit) (executeStage ops (some limit) stage working)
      (executeStage ops none stage working) := by
  apply Refuses.refl.bind
  intro rows
  apply (refuses_ensure _ _).bind
  intro _
  apply (refuses_ensure _ _).bind
  intro _
  exact Refuses.refl

theorem refuses_executeStages (stages : List ApplyAggregationStage) (working : List ρ) :
    Refuses (limitExceeded limit) (executeStages ops (some limit) stages working)
      (executeStages ops none stages working) := by
  induction stages generalizing working with
  | nil => exact Refuses.refl
  | cons stage stages ih =>
    rw [executeStages, executeStages]
    exact (refuses_executeStage stage working).bind ih

theorem refuses_finishBranch (plan : ApplyExecutionPlan) (ordered : Bool) (working : List ρ)
    (segments : List (List ρ)) :
    Refuses (limitExceeded limit) (finishBranch ops (some limit) plan ordered working segments)
      (finishBranch ops none plan ordered working segments) := by
  apply (refuses_ensure _ _).bind
  intro _
  apply (refuses_ensure _ _).bind
  intro _
  apply (refuses_ensure _ _).bind
  intro _
  exact Refuses.refl

theorem refuses_executeBranches {branches : List ApplyExecutionPlan}
    (h : ∀ branch ∈ branches, ∀ rows, Refuses (limitExceeded limit)
      (executeApplyPlanBranch ops (some limit) branch rows)
      (executeApplyPlanBranch ops none branch rows)) (working done : List ρ) :
    Refuses (limitExceeded limit) (executeBranches ops (some limit) branches working done)
      (executeBranches ops none branches working done) := by
  induction branches generalizing done with
  | nil =>
    rw [executeBranches, executeBranches]
    exact Refuses.refl
  | cons branch branches ih =>
    have hrest := ih fun branch' hmem => h branch' (List.mem_cons_of_mem _ hmem)
    rw [executeBranches, executeBranches]
    apply (h branch List.mem_cons_self working).bind
    intro outcome
    apply (refuses_ensure _ _).bind
    intro _
    apply (hrest _).bind
    intro _
    exact Refuses.refl

/-- A limit changes nothing but that a run may be refused: by induction on the plan. -/
theorem refuses_executeApplyPlanBranch (plan : ApplyExecutionPlan) (rows : List ρ) :
    Refuses (limitExceeded limit) (executeApplyPlanBranch ops (some limit) plan rows)
      (executeApplyPlanBranch ops none plan rows) := by
  induction plan using ApplyExecutionPlan.induction generalizing rows with
  | plan plan ih =>
    obtain ⟨pushdownWhere, preAggregationFilters, stages, concat, postOrderBy, postTop, postSkip,
      postFilters⟩ := plan
    rw [executeApplyPlanBranch, executeApplyPlanBranch]
    apply (refuses_ensure _ _).bind
    intro _
    apply (refuses_executeStages stages _).bind
    intro working
    apply (refuses_executeBranches ih working []).bind
    rintro ⟨branchRows, segments⟩
    exact refuses_finishBranch _ _ _ _

theorem le_of_ensure {count : Nat} (hlimit : 0 < limit)
    (h : ensureApplyFallbackLimit count (some limit) = .ok ()) : count ≤ limit := by
  unfold ensureApplyFallbackLimit at h
  dsimp only at h
  split at h
  · cases h
  · next hle =>
    rw [not_and] at hle
    exact Nat.le_of_not_lt (hle hlimit)

theorem length_finishBranch {plan : ApplyExecutionPlan} {ordered : Bool} {working : List ρ}
    {segments : List (List ρ)} {outcome : BranchOutcome ρ} (hlimit : 0 < limit)
    (h : finishBranch ops (some limit) plan ordered working segments = .ok outcome) :
    outcome.rows.length ≤ limit := by
  obtain ⟨_, _, h⟩ := bind_eq_ok.mp h
  obtain ⟨_, _, h⟩ := bind_eq_ok.mp h
  obtain ⟨_, hensure, h⟩ := bind_eq_ok.mp h
  obtain rfl := Except.ok.inj h
  exact le_of_ensure hlimit hensure

/-- With a limit a plan either is refused, with the message that names the limit, or runs as it does
without one, and then the result keeps the limit. -/
theorem runApplyPlanFallback_limited (ops : Operations ρ) (limit : Nat)
    (plan : ApplyExecutionPlan) (rows : List ρ) :
    Refuses (limitExceeded limit) (runApplyPlanFallback ops (some limit) plan rows)
        (runApplyPlanFallback ops none plan rows) ∧
      (0 < limit → ∀ outcome, runApplyPlanFallback ops (some limit) plan rows = .ok outcome →
        outcome.rows.length ≤ limit) := by
  refine ⟨refuses_executeApplyPlanBranch plan rows, ?_⟩
  intro hlimit outcome h
  obtain ⟨pushdownWhere, preAggregationFilters, stages, concat, postOrderBy, postTop, postSkip,
    postFilters⟩ := plan
  rw [runApplyPlanFallback, executeApplyPlanBranch] at h
  obtain ⟨_, _, h⟩ := bind_eq_ok.mp h
  obtain ⟨_, _, h⟩ := bind_eq_ok.mp h
  obtain ⟨_, _, h⟩ := bind_eq_ok.mp h
  exact length_finishBranch hlimit h

end Running

end ApplyPlan

end LoopbackOData
