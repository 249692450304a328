import LoopbackOData.Apply.Ordering
import LoopbackOData.Apply.PlannerOrder
import LoopbackOData.Filter.Selecting

/-!
# The planner keeps the meaning of a pipeline in order

The loop of `buildApplyExecutionPlan` followed over a pipeline in order: at each point what has been
planned, on the rows that the repository selects, means what the transformations so far mean on all
rows.
-/

namespace LoopbackOData

namespace ApplyPlan

open Aggregation Outcome

open Apply (integerRuntime)

set_option autoImplicit false

def ApplyPlannerOptions.pathsOf (options : ApplyPlannerOptions) (spec : AggregationSpec) :
    NavigationPaths :=
  match options.collectNavigationPaths spec with
  | .ok paths => paths
  | .error _ => .none

section Runs

variable {ρ : Type} {ops : Operations ρ}

/-- The rows that the repository finds. -/
def repositoryRows (ops : Operations ρ) (where' : Option Where) (rows : List ρ) : List ρ :=
  match where' with
  | none => rows
  | some clause => rows.filter (ops.selects clause)

/-- The repository selects the rows that the filters are true of which the planner hands to it. -/
def PushesFaithfully (ops : Operations ρ) (options : ApplyPlannerOptions)
    (expressions : List ParsedExpression) (rows : List ρ) : Prop :=
  ∀ expression ∈ expressions, ∀ candidate,
    buildWhereCandidate options expression = .ok (some candidate) →
      ∀ row ∈ rows, ops.selects candidate row = ops.evaluatePredicate expression row

theorem applyPostFilters_filter (expressions : List ParsedExpression) (p : ρ → Bool)
    (rows : List ρ) :
    applyPostFilters ops (rows.filter p) expressions =
      (applyPostFilters ops rows expressions).filter p := by
  induction expressions generalizing rows with
  | nil => rfl
  | cons expression expressions ih =>
    have hcomm : (rows.filter p).filter (ops.evaluatePredicate expression) =
        (rows.filter (ops.evaluatePredicate expression)).filter p := by
      rw [List.filter_filter, List.filter_filter]
      congr 1
      funext row
      exact Bool.and_comm _ _
    change applyPostFilters ops ((rows.filter p).filter _) expressions = _
    rw [hcomm]
    exact ih _

theorem repositoryRows_merge (where' : Option Where) (candidate : Where) (rows : List ρ) :
    repositoryRows ops (some (mergeWhereClauses where' candidate)) rows =
      (repositoryRows ops where' rows).filter (ops.selects candidate) := by
  cases where' with
  | none => rfl
  | some clause =>
    change rows.filter (ops.selects (.and [clause, candidate])) = _
    rw [repositoryRows, List.filter_filter]
    congr 1
    funext row
    rw [ops.selects_and, Bool.and_comm]

theorem repositoryRows_subset {where' : Option Where} {rows : List ρ} {row : ρ}
    (h : row ∈ repositoryRows ops where' rows) : row ∈ rows := by
  cases where' with
  | none => exact h
  | some clause => exact List.mem_of_mem_filter h

end Runs

/-! ## The end of the loop -/

section Finish

variable {options : ApplyPlannerOptions} {requires : Bool} {s : PlannerState}
  {plan : ApplyExecutionPlan}

theorem populateStages {stages stages' : List ApplyAggregationStage}
    (h : stages.mapM (populateStage options) = .ok stages') :
    stages'.flatMap stageTransformations = stages.flatMap stageTransformations ∧
      ∀ stage ∈ stages', stage.navigationPaths = options.pathsOf stage.spec := by
  induction stages generalizing stages' with
  | nil =>
    obtain rfl := Except.ok.inj h
    exact ⟨rfl, fun stage hstage => absurd hstage List.not_mem_nil⟩
  | cons stage stages ih =>
    rw [List.mapM_cons] at h
    obtain ⟨first, hfirst, h⟩ := bind_eq_ok.mp h
    obtain ⟨rest, hrest, h⟩ := bind_eq_ok.mp h
    obtain rfl := Except.ok.inj h
    obtain ⟨hflat, hpaths⟩ := ih hrest
    obtain ⟨paths, hcollect, hfirst⟩ := bind_eq_ok.mp hfirst
    obtain rfl := Except.ok.inj hfirst
    refine ⟨?_, ?_⟩
    · rw [List.flatMap_cons, List.flatMap_cons, hflat]
      rfl
    · intro stage' hstage
      rcases List.mem_cons.mp hstage with rfl | hstage
      · rw [ApplyPlannerOptions.pathsOf, hcollect]
      · exact hpaths stage' hstage

/-- The plan holds what the loop has planned. -/
structure Finishes (options : ApplyPlannerOptions) (s : PlannerState) (plan : ApplyExecutionPlan) :
    Prop where
  pushdownWhere : plan.pushdownWhere = s.pushdownWhere
  concat : plan.concat = s.concatBranches
  orderBy : plan.postOrderBy = s.planOrderBy
  filters : plan.postFilters = s.planPostFilters
  transformations : transformationsOf plan = s.transformations
  populated : Populated options.pathsOf plan

theorem finishes_finishPlan (h : finishPlan options requires s = .ok plan) :
    Finishes options s plan := by
  unfold finishPlan at h
  split at h
  · cases h
  · obtain ⟨stages, hstages, h⟩ := bind_eq_ok.mp h
    obtain rfl := Except.ok.inj h
    obtain ⟨hflat, hpaths⟩ := populateStages hstages
    refine ⟨rfl, rfl, rfl, rfl, ?_, hpaths⟩
    rw [transformationsOf, hflat]
    rfl

theorem Finishes.joinsPlainly (h : Finishes options s plan) {phase : Phase}
    (hfits : Fits s phase) : JoinsPlainly plan := by
  unfold JoinsPlainly
  rw [h.concat, h.orderBy, h.filters]
  cases phase with
  | input slot => exact Or.inl hfits.branches
  | stage slot => exact Or.inl hfits.branches
  | joined slot => exact Or.inr ⟨hfits.orderBy, hfits.filters⟩

end Finish

/-! ## One transformation -/

/-- A plan that is run as it is read back. -/
def RunsPlainly (options : ApplyPlannerOptions) (plan : ApplyExecutionPlan) : Prop :=
  Throughout (fun plan => JoinsPlainly plan ∧ Populated options.pathsOf plan) plan

section Loop

variable {ρ : Type} {ops : Operations ρ} {options : ApplyPlannerOptions}
  {inBranch requires : Bool} {phase next : Phase} {s s' : PlannerState}
  {transformation : ApplyTransformation}

variable (ops options) in
/-- What has been planned so far, on the rows that the repository finds. -/
def plannedMeans (s : PlannerState) (rows : List ρ) : Except HttpError (List ρ) :=
  pipelineMeans ops options.pathsOf s.transformations (repositoryRows ops s.pushdownWhere rows)

variable (ops options) in
/-- The branches of the transformation are planned as they are written. -/
def PlansBranches (transformation : ApplyTransformation) : Prop :=
  ∀ pipelines branches, transformation = .concat pipelines →
    branchesInOrder options pipelines = true → planBranches options pipelines = .ok branches →
      (∀ branch ∈ branches, RunsPlainly options branch) ∧
      ∀ rows, branchesMean ops options.pathsOf (allTransformationsOf branches) rows =
        branchesMean ops options.pathsOf pipelines rows

theorem plannedMeans_extends (h : Extends s s' transformation) (rows : List ρ) :
    plannedMeans ops options s' rows =
      plannedMeans ops options s rows >>=
        transformationMeans ops options.pathsOf transformation := by
  rw [plannedMeans, h.transformations, h.pushdownWhere, pipelineMeans_append]
  congr 1
  funext rows'
  exact pipelineMeans_singleton _ _

/-- Only `concat` adds branches. -/
theorem concatBranches_planTransformation
    (hs : planTransformation options requires s transformation = .ok s')
    (hconcat : ∀ pipelines, transformation ≠ .concat pipelines) :
    s'.concatBranches = s.concatBranches := by
  have hcut (hcuts : transformation.cuts = true) : s'.concatBranches = s.concatBranches := by
    obtain ⟨hplan, hstage⟩ := planTransformation_cut hcuts hs
    cases hcurrent : s.currentStage with
    | none => rw [hplan hcurrent, PlannerState.withCut]
    | some stage => rw [hstage stage hcurrent]
  cases transformation with
  | filter expression =>
    rw [planTransformation] at hs
    obtain ⟨hstage, hjoined, hinput⟩ := planFilter_ok hs
    cases hcurrent : s.currentStage with
    | some stage => rw [hstage stage hcurrent]
    | none =>
      cases hresults : s.hasPlanResults with
      | true => rw [hjoined hcurrent hresults]
      | false =>
        rcases hinput hcurrent hresults with ⟨candidate, _, rfl⟩ | rfl
        · rfl
        · rfl
  | groupby keys aggregates =>
    rw [planTransformation] at hs
    obtain rfl := Except.ok.inj hs
    rfl
  | aggregate expressions =>
    rw [planTransformation] at hs
    obtain rfl := Except.ok.inj hs
    rfl
  | orderby items => exact hcut rfl
  | skip count => exact hcut rfl
  | top count => exact hcut rfl
  | bottom count =>
    rw [planTransformation] at hs
    cases hs
  | concat pipelines => exact absurd rfl (hconcat pipelines)

/-- A filter that the repository is to run. -/
theorem plannedMeans_pushed {expression : ParsedExpression} {candidate : Where}
    (h : FitsInput .filter s) {rows : List ρ}
    (hselects : ∀ row ∈ rows, ops.selects candidate row = ops.evaluatePredicate expression row) :
    plannedMeans ops options
        { s with pushdownWhere := some (mergeWhereClauses s.pushdownWhere candidate) } rows =
      plannedMeans ops options s rows >>=
        transformationMeans ops options.pathsOf (.filter expression) := by
  have hpre (where' : Option Where) : PlannerState.transformations { s with pushdownWhere := where' } =
      s.preAggregationFilters.map .filter := by
    have hcut : PlannerState.cut { s with pushdownWhere := where' } = s.cut := rfl
    have hall : PlannerState.allStages { s with pushdownWhere := where' } = s.allStages := rfl
    have hnone : s.allStages = [] := by
      rw [PlannerState.allStages, h.stages, h.current]
      rfl
    rw [PlannerState.transformations, hcut, Cut.transformations_nil h.cut, hall, hnone, h.branches,
      h.filters, concatTransformation_nil, List.flatMap_nil, List.map_nil]
    simp only [List.append_nil]
  have hfilter : (repositoryRows ops s.pushdownWhere rows).filter (ops.selects candidate) =
      (repositoryRows ops s.pushdownWhere rows).filter (ops.evaluatePredicate expression) := by
    apply List.filter_congr
    intro row hrow
    exact hselects row (repositoryRows_subset hrow)
  have hself : s.transformations = s.preAggregationFilters.map .filter := hpre s.pushdownWhere
  rw [plannedMeans, plannedMeans, hpre, hself, pipelineMeans_filters, pipelineMeans_filters,
    repositoryRows_merge, hfilter, applyPostFilters_filter]
  exact (@transformationMeans_filter ρ ops options.pathsOf expression _).symm

theorem planBranches_ne_nil {pipelines : List ApplyPipeline} {branches : List ApplyExecutionPlan}
    (hne : pipelines ≠ []) (h : planBranches options pipelines = .ok branches) : branches ≠ [] := by
  cases pipelines with
  | nil => exact absurd rfl hne
  | cons pipeline pipelines =>
    rw [planBranches] at h
    split at h
    · cases h
    · obtain ⟨_, _, h⟩ := bind_eq_ok.mp h
      obtain ⟨plan, _, h⟩ := bind_eq_ok.mp h
      obtain ⟨rest, _, h⟩ := bind_eq_ok.mp h
      obtain rfl := Except.ok.inj h
      exact List.cons_ne_nil plan rest

/-- One transformation of a pipeline in order adds its meaning to what has been planned. -/
theorem planTransformation_means (hbranches : PlansBranches ops options transformation)
    (hinorder : transformationInOrder options transformation = true)
    (hnext : phase.next options inBranch transformation = some next) (h : Fits s phase)
    (hplain : ∀ branch ∈ s.concatBranches, RunsPlainly options branch)
    (hs : planTransformation options requires s transformation = .ok s') {rows : List ρ}
    (hpush : inBranch = false → phase = .input .filter → ∀ expression,
      transformation = .filter expression → PushesFaithfully ops options [expression] rows) :
    Fits s' next ∧ (∀ branch ∈ s'.concatBranches, RunsPlainly options branch) ∧
      (inBranch = true → s'.pushdownWhere = s.pushdownWhere) ∧
      plannedMeans ops options s' rows = plannedMeans ops options s rows >>=
        transformationMeans ops options.pathsOf transformation := by
  have hkeep (hconcat : ∀ pipelines, transformation ≠ .concat pipelines) :
      ∀ branch ∈ s'.concatBranches, RunsPlainly options branch := by
    rw [concatBranches_planTransformation hs hconcat]
    exact hplain
  have hextended {t : ApplyTransformation} (hfits : Fits s' next) (hextends : Extends s s' t)
      (hsame : transformationMeans ops options.pathsOf t =
        transformationMeans ops options.pathsOf transformation)
      (hconcat : ∀ pipelines, transformation ≠ .concat pipelines) :
      Fits s' next ∧ (∀ branch ∈ s'.concatBranches, RunsPlainly options branch) ∧
        (inBranch = true → s'.pushdownWhere = s.pushdownWhere) ∧
        plannedMeans ops options s' rows = plannedMeans ops options s rows >>=
          transformationMeans ops options.pathsOf transformation := by
    refine ⟨hfits, hkeep hconcat, fun _ => hextends.pushdownWhere, ?_⟩
    rw [plannedMeans_extends hextends, hsame]
  cases transformation with
  | filter expression =>
    rw [planTransformation] at hs
    obtain ⟨hfits, hextends | ⟨hphase, hbranch, candidate, hcandidate, rfl⟩⟩ :=
      step_filter hnext h hs
    · exact hextended hfits hextends rfl fun _ heq => ApplyTransformation.noConfusion heq
    · refine ⟨hfits, hplain, ?_, ?_⟩
      · intro htrue
        rw [hbranch] at htrue
        cases htrue
      · subst hphase
        apply plannedMeans_pushed h
        exact hpush hbranch rfl expression rfl expression List.mem_cons_self candidate hcandidate
  | groupby keys aggregates =>
    rw [planTransformation] at hs
    obtain rfl := Except.ok.inj hs
    obtain ⟨hphase, rfl⟩ := next_aggregates rfl hnext
    obtain ⟨hfits, hextends⟩ := @step_startStage phase s ⟨keys, aggregates⟩ hphase h
    exact hextended hfits hextends rfl fun _ heq => ApplyTransformation.noConfusion heq
  | aggregate expressions =>
    rw [planTransformation] at hs
    obtain rfl := Except.ok.inj hs
    obtain ⟨hphase, rfl⟩ := next_aggregates rfl hnext
    obtain ⟨hfits, hextends⟩ := @step_startStage phase s ⟨[], expressions⟩ hphase h
    refine hextended hfits hextends ?_ fun _ heq => ApplyTransformation.noConfusion heq
    funext rows'
    rw [transformationMeans, transformationMeans]
  | orderby items =>
    obtain ⟨hfits, hextends⟩ := step_cut rfl hnext h hs
    exact hextended hfits hextends rfl fun _ heq => ApplyTransformation.noConfusion heq
  | skip count =>
    obtain ⟨hfits, hextends⟩ := step_cut rfl hnext h hs
    exact hextended hfits hextends rfl fun _ heq => ApplyTransformation.noConfusion heq
  | top count =>
    obtain ⟨hfits, hextends⟩ := step_cut rfl hnext h hs
    exact hextended hfits hextends rfl fun _ heq => ApplyTransformation.noConfusion heq
  | bottom count =>
    rw [planTransformation] at hs
    cases hs
  | concat pipelines =>
    rw [planTransformation] at hs
    obtain ⟨branches, hplanned, hs⟩ := bind_eq_ok.mp hs
    obtain rfl := Except.ok.inj hs
    obtain ⟨hphase, rfl, hne⟩ := next_concat hnext
    obtain ⟨hruns, hmeans⟩ := hbranches pipelines branches rfl hinorder hplanned
    obtain ⟨hfits, hextends⟩ := step_addBranches (planBranches_ne_nil hne hplanned) hphase h
    refine ⟨hfits, ?_, fun _ => rfl, ?_⟩
    · intro branch hbranch
      rcases List.mem_append.mp hbranch with hbranch | hbranch
      · exact hplain branch hbranch
      · exact hruns branch hbranch
    · rw [plannedMeans_extends hextends]
      congr 1
      funext rows'
      rw [transformationMeans, transformationMeans, hmeans]

/-! ## The loop -/

theorem leadingFilters_cons {expression : ParsedExpression} {rest : ApplyPipeline} :
    leadingFilters (.filter expression :: rest) = expression :: leadingFilters rest := rfl

/-- The rows before any stage are only filtered. -/
theorem exists_filter_of_next
    (hnext : phase.next options inBranch transformation = some (.input .filter)) :
    phase = .input .filter ∧ ∃ expression, transformation = .filter expression := by
  have hcut (hcuts : transformation.cuts = true) : False := by
    cases phase with
    | input slot =>
      rw [next_input hcuts] at hnext
      obtain ⟨slot', hslot, heq⟩ := Option.map_eq_some_iff.mp hnext
      obtain rfl := Phase.input.inj heq
      cases transformation with
      | orderby items =>
        cases slot with
        | filter =>
          rw [Slot.next] at hslot
          split at hslot <;> cases hslot
        | _ => cases hslot
      | skip _ => cases slot <;> cases hslot
      | top _ => cases slot <;> cases hslot
      | _ => cases hcuts
    | stage slot =>
      rw [next_stage hcuts] at hnext
      obtain ⟨slot', _, heq⟩ := Option.map_eq_some_iff.mp hnext
      cases heq
    | joined slot =>
      obtain ⟨hmap, _⟩ := next_joined hcuts hnext
      obtain ⟨slot', _, heq⟩ := Option.map_eq_some_iff.mp hmap
      cases heq
  cases transformation with
  | filter expression =>
    refine ⟨?_, expression, rfl⟩
    cases phase with
    | input slot =>
      cases slot with
      | filter => rfl
      | _ => cases hnext
    | stage slot => cases slot <;> cases hnext
    | joined slot =>
      cases slot with
      | filter =>
        rw [Phase.next] at hnext
        split at hnext <;> cases hnext
      | _ => cases hnext
  | groupby _ _ => cases (next_aggregates rfl hnext).2
  | aggregate _ => cases (next_aggregates rfl hnext).2
  | orderby _ => exact (hcut rfl).elim
  | skip _ => exact (hcut rfl).elim
  | top _ => exact (hcut rfl).elim
  | bottom _ =>
    cases phase with
    | input slot => cases slot <;> cases hnext
    | stage slot => cases slot <;> cases hnext
    | joined slot => cases slot <;> cases hnext
  | concat _ => cases (next_concat hnext).2.1

/-- By induction on the pipeline. -/
theorem planTransformations_means {pipeline : ApplyPipeline}
    (hbranches : ∀ transformation ∈ pipeline, PlansBranches ops options transformation)
    (hinorder : pipelineInOrder options inBranch phase pipeline = true) (h : Fits s phase)
    (hplain : ∀ branch ∈ s.concatBranches, RunsPlainly options branch)
    (hs : planTransformations options requires s pipeline = .ok s') {rows : List ρ}
    (hpush : inBranch = false → phase = .input .filter →
      PushesFaithfully ops options (leadingFilters pipeline) rows) :
    (∃ last, Fits s' last) ∧ (∀ branch ∈ s'.concatBranches, RunsPlainly options branch) ∧
      (inBranch = true → s'.pushdownWhere = s.pushdownWhere) ∧
      plannedMeans ops options s' rows = plannedMeans ops options s rows >>=
        pipelineMeans ops options.pathsOf pipeline := by
  induction pipeline generalizing s phase with
  | nil =>
    rw [planTransformations] at hs
    obtain rfl := Except.ok.inj hs
    refine ⟨⟨phase, h⟩, hplain, fun _ => rfl, ?_⟩
    cases plannedMeans ops options s rows with
    | error e => rfl
    | ok result => exact (@pipelineMeans_nil ρ ops options.pathsOf result).symm
  | cons transformation rest ih =>
    rw [planTransformations] at hs
    obtain ⟨middle, hstep, hs⟩ := bind_eq_ok.mp hs
    rw [pipelineInOrder] at hinorder
    split at hinorder
    · next next hnext =>
      rw [Bool.and_eq_true] at hinorder
      have hfirst : inBranch = false → phase = .input .filter → ∀ expression,
          transformation = .filter expression →
            PushesFaithfully ops options [expression] rows := by
        rintro hbranch hphase expression rfl e he
        rw [List.mem_singleton.mp he]
        exact hpush hbranch hphase expression List.mem_cons_self
      obtain ⟨hfits, hplain', hwhere, hmeans⟩ :=
        planTransformation_means (hbranches transformation List.mem_cons_self) hinorder.1 hnext h
          hplain hstep hfirst
      have hlater : inBranch = false → next = .input .filter →
          PushesFaithfully ops options (leadingFilters rest) rows := by
        intro hbranch hinput
        rw [hinput] at hnext
        obtain ⟨hphase, expression, rfl⟩ := exists_filter_of_next hnext
        intro e he
        exact hpush hbranch hphase e (List.mem_cons_of_mem _ he)
      obtain ⟨hlast, hplain'', hwhere', hmeans'⟩ :=
        ih (fun t ht => hbranches t (List.mem_cons_of_mem _ ht)) hinorder.2 hfits hplain' hs hlater
      refine ⟨hlast, hplain'', fun hbranch => (hwhere' hbranch).trans (hwhere hbranch), ?_⟩
      rw [hmeans', hmeans]
      cases plannedMeans ops options s rows with
      | error e => rfl
      | ok result =>
        exact (@pipelineMeans_cons ρ ops options.pathsOf transformation rest result).symm
    · cases hinorder

/-! ## Branches -/

/-- Induction on transformations, those of the branches of a `concat` included. -/
@[elab_as_elim]
theorem ApplyTransformation.induction {P : ApplyTransformation → Prop}
    (other : ∀ transformation, (∀ pipelines, transformation ≠ .concat pipelines) → P transformation)
    (concat : ∀ pipelines, (∀ pipeline ∈ pipelines, ∀ transformation ∈ pipeline,
      P transformation) → P (.concat pipelines)) :
    ∀ transformation, P transformation := by
  intro t
  refine ApplyTransformation.rec (motive_1 := P)
    (motive_2 := fun pipelines => ∀ pipeline ∈ pipelines, ∀ t ∈ pipeline, P t)
    (motive_3 := fun pipeline => ∀ t ∈ pipeline, P t)
    ?_ ?_ ?_ ?_ ?_ ?_ ?_ ?_ ?_ ?_ ?_ ?_ t
  · exact fun expression => other _ fun _ heq => ApplyTransformation.noConfusion heq
  · exact fun keys aggregates => other _ fun _ heq => ApplyTransformation.noConfusion heq
  · exact fun expressions => other _ fun _ heq => ApplyTransformation.noConfusion heq
  · exact fun items => other _ fun _ heq => ApplyTransformation.noConfusion heq
  · exact fun count => other _ fun _ heq => ApplyTransformation.noConfusion heq
  · exact fun count => other _ fun _ heq => ApplyTransformation.noConfusion heq
  · exact fun count => other _ fun _ heq => ApplyTransformation.noConfusion heq
  · exact fun pipelines hpipelines => concat pipelines hpipelines
  · intro pipeline hpipeline
    cases hpipeline
  · intro head tail hhead htail pipeline hpipeline
    rcases List.mem_cons.mp hpipeline with rfl | hpipeline
    · exact hhead
    · exact htail pipeline hpipeline
  · intro t ht
    cases ht
  · intro head tail hhead htail t ht
    rcases List.mem_cons.mp ht with rfl | ht
    · exact hhead
    · exact htail t ht

theorem fits_start : Fits {} (.input .filter) := ⟨rfl, rfl, rfl, rfl, rfl, rfl, rfl⟩

theorem plannedMeans_start (rows : List ρ) : plannedMeans ops options {} rows = .ok rows := by
  have hnone : PlannerState.transformations {} = [] := by
    rw [PlannerState.transformations, concatTransformation_nil]
    rfl
  rw [plannedMeans, hnone]
  exact pipelineMeans_nil rows

theorem Finishes.runsPlainly {plan : ApplyExecutionPlan} (h : Finishes options s plan)
    (hfits : Fits s phase) (hplain : ∀ branch ∈ s.concatBranches, RunsPlainly options branch) :
    RunsPlainly options plan := by
  refine ⟨⟨h.joinsPlainly hfits, h.populated⟩, ?_⟩
  rw [h.concat]
  exact hplain

/-- Each branch is planned as it is written: by induction on the transformations. -/
theorem plansBranches (transformation : ApplyTransformation) :
    PlansBranches ops options transformation := by
  induction transformation using ApplyTransformation.induction with
  | other transformation hconcat =>
    intro pipelines branches heq
    exact absurd heq (hconcat pipelines)
  | concat pipelines ih =>
    intro pipelines' branches heq hinorder hplanned
    obtain rfl := ApplyTransformation.concat.inj heq
    induction pipelines generalizing branches with
    | nil =>
      rw [planBranches] at hplanned
      obtain rfl := Except.ok.inj hplanned
      refine ⟨fun branch hbranch => absurd hbranch List.not_mem_nil, fun rows => ?_⟩
      rw [allTransformationsOf]
    | cons pipeline pipelines ihs =>
      rw [planBranches] at hplanned
      split at hplanned
      · cases hplanned
      · obtain ⟨s, hs, hplanned⟩ := bind_eq_ok.mp hplanned
        obtain ⟨plan, hplan, hplanned⟩ := bind_eq_ok.mp hplanned
        obtain ⟨rest, hrest, hplanned⟩ := bind_eq_ok.mp hplanned
        obtain rfl := Except.ok.inj hplanned
        rw [branchesInOrder, Bool.and_eq_true] at hinorder
        obtain ⟨hruns, hmeans⟩ := ihs (fun p hp => ih p (List.mem_cons_of_mem _ hp)) rest rfl
          hinorder.2 hrest
        have hstart : ∀ branch ∈ ({} : PlannerState).concatBranches,
            RunsPlainly options branch := fun branch hbranch => absurd hbranch List.not_mem_nil
        have hfinish := finishes_finishPlan hplan
        have hfirst (rows : List ρ) := @planTransformations_means ρ ops options true false _ _ _
          pipeline (ih pipeline List.mem_cons_self) hinorder.1 fits_start hstart hs rows
          fun hfalse => by cases hfalse
        obtain ⟨⟨last, hfits⟩, hplain, _, _⟩ := hfirst []
        refine ⟨?_, ?_⟩
        · intro branch hbranch
          rcases List.mem_cons.mp hbranch with rfl | hbranch
          · exact hfinish.runsPlainly hfits hplain
          · exact hruns branch hbranch
        · intro rows
          obtain ⟨_, _, hwhere, hread⟩ := hfirst rows
          rw [plannedMeans, hwhere rfl, plannedMeans_start, ← hfinish.transformations] at hread
          have hbranch : pipelineMeans ops options.pathsOf (transformationsOf plan) rows =
              pipelineMeans ops options.pathsOf pipeline rows := hread
          rw [allTransformationsOf, branchesMean, branchesMean, hbranch, hmeans]

/-! ## Plans -/

theorem map_rows_of_agree {outcome : Except HttpError (BranchOutcome ρ)}
    {result : Except HttpError (List ρ)} (h : Agree IsOutcome outcome result) :
    outcome.map BranchOutcome.rows = result := by
  cases h with
  | ok h => exact congrArg Except.ok h.1
  | error e => rfl

end Loop

/-! ### Sales by country -/

mutual

/-- Clauses that compare properties with texts. -/
def selectsTexts : Where → Cell → Bool
  | .property field (.equals (.str text)), row => row.get field == .string text
  | .and clauses, row => selectsEach clauses row
  | _, _ => false

def selectsEach : List Where → Cell → Bool
  | [], _ => true
  | clause :: clauses, row => selectsTexts clause row && selectsEach clauses row

end

/-- What `JSON.stringify` writes for integers. -/
def integerTexts : JsonTexts where
  number q :=
    if h : Json.isNumber (toString q.num).toList = true then ⟨(toString q.num).toList, h⟩
    else ⟨['0'], rfl⟩
  date _ := []

/-- The operations on entities in memory, over a repository of texts. -/
def memoryOperations : Operations Cell where
  evaluatePredicate expr row := InMemory.evaluatePredicate integerRuntime row expr (.outside row)
  hasOwnProperty row name := row.get name != .undefined
  executeAggregation spec paths rows :=
    (Aggregation.executeAggregation integerTexts 1000 ⟨spec, paths⟩ rows).map (·.map (Cell.record · 0))
  orderResults order rows := InMemory.orderEntities integerRuntime rows order
  selects := selectsTexts
  selects_and clause clause' row := by
    rw [selectsTexts, selectsEach, selectsEach, selectsEach, Bool.and_true]

def sale (country item : String) (amount : Rat) : Cell :=
  .record [("country".toList, .string country.toList), ("item".toList, .string item.toList),
    ("amount".toList, .number amount)] 0

/-- The sales of one item by country, those of one country left out, and only the first two. -/
def salesPipeline : ApplyPipeline := [
  .filter (.leaf (.comparison "item".toList .eq (.single (.str "pen".toList)))),
  .groupby ["country".toList] [⟨some "amount".toList, none, .sum, "total".toList⟩],
  .filter (.leaf (.comparison "country".toList .neq (.single (.str "CH".toList)))),
  .orderby [⟨"total".toList, .desc⟩],
  .top 2]

def salesOptions : ApplyPlannerOptions where
  collectNavigationPaths _ := .ok .none

def salesPlan : ApplyExecutionPlan where
  pushdownWhere := some (.property "item".toList (.equals (.str "pen".toList)))
  preAggregationFilters := []
  stages := [{
    spec := ⟨["country".toList], [⟨some "amount".toList, none, .sum, "total".toList⟩]⟩
    postAggregationFilters :=
      [.leaf (.comparison "country".toList .neq (.single (.str "CH".toList)))]
    orderBy := [⟨"total".toList, .desc⟩]
    top := some 2 }]
  concat := []
  postOrderBy := []
  postTop := none
  postSkip := none
  postFilters := []

def salesOfPens : List Cell := [sale "AT" "pen" 3, sale "CH" "pen" 4, sale "AT" "ink" 5,
  sale "BE" "pen" 2, sale "AT" "pen" 1]

end ApplyPlan

end LoopbackOData
