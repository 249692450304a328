import LoopbackOData.Apply.PlanMeaning

/-!
# Pipelines that are planned as they are written

The planner keeps the meaning of a pipeline in which each stage is filtered, sorted, skipped and
topped in this order, and in which `concat` comes last but for filters without a field and a cut.
-/

namespace LoopbackOData

namespace ApplyPlan

open Aggregation Outcome

set_option autoImplicit false

/-! ## Pipelines in order -/

/-- What the last transformation of a stage, or of the whole plan, was. -/
inductive Slot where
  | filter | orderby | skip | top
  deriving DecidableEq, Repr

/-- Before any stage, in a stage, or behind the branches of a `concat`. -/
inductive Phase where
  | input (slot : Slot)
  | stage (slot : Slot)
  | joined (slot : Slot)
  deriving DecidableEq, Repr

/-- Sorting and cutting. -/
def Slot.next : Slot → ApplyTransformation → Option Slot
  | .filter, .orderby items => if items = [] then none else some .orderby
  | .filter, .skip _ => some .skip
  | .orderby, .skip _ => some .skip
  | .filter, .top _ => some .top
  | .orderby, .top _ => some .top
  | .skip, .top _ => some .top
  | _, _ => none

/-- The planner makes a `where` clause of the filter. -/
def pushesDown (options : ApplyPlannerOptions) (expression : ParsedExpression) : Bool :=
  match buildWhereCandidate options expression with
  | .ok (some _) => true
  | _ => false

/-- The phase after a transformation that is in order. The `where` clause of a branch is run by
nothing, so that no filter of a branch may become one. -/
def Phase.next (options : ApplyPlannerOptions) (inBranch : Bool) :
    Phase → ApplyTransformation → Option Phase
  | .input .filter, .filter expression =>
    if inBranch && pushesDown options expression then none else some (.input .filter)
  | .stage .filter, .filter _ => some (.stage .filter)
  | .joined .filter, .filter expression =>
    if fieldOf expression = none then some (.joined .filter) else none
  | .input .filter, .groupby _ _ => some (.stage .filter)
  | .input .filter, .aggregate _ => some (.stage .filter)
  | .stage _, .groupby _ _ => some (.stage .filter)
  | .stage _, .aggregate _ => some (.stage .filter)
  | .input .filter, .concat pipelines => if pipelines = [] then none else some (.joined .filter)
  | .stage _, .concat pipelines => if pipelines = [] then none else some (.joined .filter)
  | .joined _, .orderby _ => none
  | .input slot, transformation => (slot.next transformation).map .input
  | .stage slot, transformation => (slot.next transformation).map .stage
  | .joined slot, transformation => (slot.next transformation).map .joined

mutual

def transformationInOrder (options : ApplyPlannerOptions) : ApplyTransformation → Bool
  | .concat pipelines => branchesInOrder options pipelines
  | _ => true

def pipelineInOrder (options : ApplyPlannerOptions) (inBranch : Bool) : Phase → ApplyPipeline → Bool
  | _, [] => true
  | phase, transformation :: rest =>
    match phase.next options inBranch transformation with
    | some next =>
      transformationInOrder options transformation && pipelineInOrder options inBranch next rest
    | none => false

def branchesInOrder (options : ApplyPlannerOptions) : List ApplyPipeline → Bool
  | [] => true
  | branch :: rest =>
    pipelineInOrder options true (.input .filter) branch && branchesInOrder options rest

end

/-- The filters that come before any other transformation. -/
def leadingFilters : ApplyPipeline → List ParsedExpression
  | .filter expression :: rest => expression :: leadingFilters rest
  | _ => []

/-! ## Sorting and cutting -/

def ApplyTransformation.cuts : ApplyTransformation → Bool
  | .orderby _ => true
  | .skip _ => true
  | .top _ => true
  | _ => false

section Cuts

variable {options : ApplyPlannerOptions} {inBranch : Bool} {slot : Slot}
  {transformation : ApplyTransformation}

theorem next_input (h : transformation.cuts = true) :
    (Phase.input slot).next options inBranch transformation =
      (slot.next transformation).map .input := by
  cases transformation with
  | orderby _ => cases slot <;> rfl
  | skip _ => cases slot <;> rfl
  | top _ => cases slot <;> rfl
  | _ => cases h

theorem next_stage (h : transformation.cuts = true) :
    (Phase.stage slot).next options inBranch transformation =
      (slot.next transformation).map .stage := by
  cases transformation with
  | orderby _ => cases slot <;> rfl
  | skip _ => cases slot <;> rfl
  | top _ => cases slot <;> rfl
  | _ => cases h

/-- Behind branches nothing is sorted. -/
theorem next_joined (h : transformation.cuts = true) {next : Phase}
    (hnext : (Phase.joined slot).next options inBranch transformation = some next) :
    (slot.next transformation).map .joined = some next ∧
      ∀ items, transformation ≠ .orderby items := by
  cases transformation with
  | orderby _ => cases slot <;> cases hnext
  | skip _ =>
    refine ⟨?_, fun _ heq => ApplyTransformation.noConfusion heq⟩
    rw [← hnext]
    cases slot <;> rfl
  | top _ =>
    refine ⟨?_, fun _ heq => ApplyTransformation.noConfusion heq⟩
    rw [← hnext]
    cases slot <;> rfl
  | _ => cases h

end Cuts

def ApplyTransformation.aggregates : ApplyTransformation → Bool
  | .groupby _ _ => true
  | .aggregate _ => true
  | _ => false

/-- Where an aggregation or branches may come. -/
def Phase.IsOpen (phase : Phase) : Prop := phase = .input .filter ∨ ∃ slot, phase = .stage slot

theorem next_aggregates {options : ApplyPlannerOptions} {inBranch : Bool} {phase next : Phase}
    {transformation : ApplyTransformation} (h : transformation.aggregates = true)
    (hnext : phase.next options inBranch transformation = some next) :
    phase.IsOpen ∧ next = .stage .filter := by
  cases phase with
  | input slot =>
    cases transformation with
    | groupby _ _ =>
      cases slot with
      | filter => exact ⟨Or.inl rfl, (Option.some.inj hnext).symm⟩
      | _ => cases hnext
    | aggregate _ =>
      cases slot with
      | filter => exact ⟨Or.inl rfl, (Option.some.inj hnext).symm⟩
      | _ => cases hnext
    | _ => cases h
  | stage slot =>
    refine ⟨Or.inr ⟨slot, rfl⟩, ?_⟩
    cases transformation with
    | groupby _ _ => cases slot <;> exact (Option.some.inj hnext).symm
    | aggregate _ => cases slot <;> exact (Option.some.inj hnext).symm
    | _ => cases h
  | joined slot =>
    cases transformation with
    | groupby _ _ => cases slot <;> cases hnext
    | aggregate _ => cases slot <;> cases hnext
    | _ => cases h

theorem next_concat {options : ApplyPlannerOptions} {inBranch : Bool} {phase next : Phase}
    {pipelines : List ApplyPipeline}
    (hnext : phase.next options inBranch (.concat pipelines) = some next) :
    phase.IsOpen ∧ next = .joined .filter ∧ pipelines ≠ [] := by
  have hopen : phase.IsOpen := by
    cases phase with
    | input slot =>
      cases slot with
      | filter => exact Or.inl rfl
      | _ => cases hnext
    | stage slot => exact Or.inr ⟨slot, rfl⟩
    | joined slot => cases slot <;> cases hnext
  have hsome : (if pipelines = [] then none else some (Phase.joined .filter)) = some next := by
    rw [← hnext]
    rcases hopen with rfl | ⟨slot, rfl⟩
    · rfl
    · cases slot <;> rfl
  split at hsome
  · cases hsome
  · next hne => exact ⟨hopen, (Option.some.inj hsome).symm, hne⟩

/-- The slots that sort and cut the rows of a stage, or of the whole plan. -/
structure Cut where
  orderBy : List OrderDescriptor
  skip : Option Nat
  top : Option Nat

namespace Cut

def transformations (cut : Cut) : ApplyPipeline :=
  cutTransformations cut.orderBy cut.skip cut.top

/-- Filling the slot of a transformation. -/
def add (cut : Cut) : ApplyTransformation → Cut
  | .orderby items => { cut with orderBy := items }
  | .skip count => { cut with skip := some count }
  | .top count => { cut with top := some count }
  | _ => cut

/-- The slots behind the last one that was filled are empty. -/
def Fits (cut : Cut) : Slot → Prop
  | .filter => cut.orderBy = [] ∧ cut.skip = none ∧ cut.top = none
  | .orderby => cut.skip = none ∧ cut.top = none
  | .skip => cut.top = none
  | .top => True

theorem transformations_nil {cut : Cut} (h : cut.Fits .filter) : cut.transformations = [] := by
  obtain ⟨horder, hskip, htop⟩ := h
  rw [transformations, cutTransformations, horder, hskip, htop]
  rfl

theorem add_next {cut : Cut} {slot next : Slot} {transformation : ApplyTransformation}
    (hnext : slot.next transformation = some next) (h : cut.Fits slot) :
    (cut.add transformation).Fits next ∧
      (cut.add transformation).transformations = cut.transformations ++ [transformation] := by
  obtain ⟨orderBy, skip, top⟩ := cut
  cases transformation with
  | orderby items =>
    cases slot with
    | filter =>
      obtain ⟨rfl, rfl, rfl⟩ := h
      rw [Slot.next] at hnext
      split at hnext
      · cases hnext
      · next hne =>
        obtain rfl := Option.some.inj hnext
        refine ⟨⟨rfl, rfl⟩, ?_⟩
        unfold transformations cutTransformations add
        dsimp only
        rw [if_neg hne, if_pos rfl]
        rfl
    | _ => cases hnext
  | skip count =>
    have hempty : skip = none ∧ top = none ∧ next = .skip := by
      cases slot with
      | filter => exact ⟨h.2.1, h.2.2, (Option.some.inj hnext).symm⟩
      | orderby => exact ⟨h.1, h.2, (Option.some.inj hnext).symm⟩
      | _ => cases hnext
    obtain ⟨rfl, rfl, rfl⟩ := hempty
    refine ⟨rfl, ?_⟩
    unfold transformations cutTransformations add
    dsimp only
    rw [List.append_assoc, List.append_assoc, List.append_assoc]
    rfl
  | top count =>
    have hempty : top = none ∧ next = .top := by
      cases slot with
      | filter => exact ⟨h.2.2, (Option.some.inj hnext).symm⟩
      | orderby => exact ⟨h.2, (Option.some.inj hnext).symm⟩
      | skip => exact ⟨h, (Option.some.inj hnext).symm⟩
      | top => cases hnext
    obtain ⟨rfl, rfl⟩ := hempty
    refine ⟨trivial, ?_⟩
    unfold transformations cutTransformations add
    dsimp only
    rw [Option.map_none, Option.toList_none, List.append_nil]
    rfl
  | _ => cases slot <;> cases hnext

end Cut

def ApplyAggregationStage.cut (stage : ApplyAggregationStage) : Cut :=
  ⟨stage.orderBy, stage.skip, stage.top⟩

def ApplyAggregationStage.withCut (stage : ApplyAggregationStage) (cut : Cut) :
    ApplyAggregationStage :=
  { stage with orderBy := cut.orderBy, skip := cut.skip, top := cut.top }

def PlannerState.cut (s : PlannerState) : Cut := ⟨s.planOrderBy, s.planSkip, s.planTop⟩

def PlannerState.withCut (s : PlannerState) (cut : Cut) : PlannerState :=
  { s with planOrderBy := cut.orderBy, planSkip := cut.skip, planTop := cut.top }

/-- Orderby, skip and top are kept in the stage, or else in the plan. -/
theorem planTransformation_cut {options : ApplyPlannerOptions} {requires : Bool}
    {s s' : PlannerState} {transformation : ApplyTransformation}
    (hcuts : transformation.cuts = true)
    (h : planTransformation options requires s transformation = .ok s') :
    (s.currentStage = none → s' = s.withCut (s.cut.add transformation)) ∧
      ∀ stage, s.currentStage = some stage →
        s' = { s with currentStage := some (stage.withCut (stage.cut.add transformation)) } := by
  obtain ⟨pushdownWhere, pre, stages, current, branches, filters, orderBy, top, skip⟩ := s
  cases transformation with
  | orderby items =>
    rw [planTransformation, PlannerState.planOrder] at h
    cases current with
    | none =>
      refine ⟨fun _ => ?_, fun stage hstage => by cases hstage⟩
      dsimp only at h
      split at h
      · cases h
      · split at h
        · cases h
        · exact (Except.ok.inj h).symm
    | some stage =>
      refine ⟨fun hnone => absurd hnone (Option.some_ne_none _), fun stage' hstage => ?_⟩
      obtain rfl := Option.some.inj hstage
      dsimp only at h
      split at h
      · cases h
      · exact (Except.ok.inj h).symm
  | skip count =>
    rw [planTransformation, PlannerState.planSkipCount] at h
    cases current with
    | none =>
      refine ⟨fun _ => ?_, fun stage hstage => by cases hstage⟩
      dsimp only at h
      split at h
      · cases h
      · split at h
        · cases h
        · exact (Except.ok.inj h).symm
    | some stage =>
      refine ⟨fun hnone => absurd hnone (Option.some_ne_none _), fun stage' hstage => ?_⟩
      obtain rfl := Option.some.inj hstage
      dsimp only at h
      split at h
      · cases h
      · exact (Except.ok.inj h).symm
  | top count =>
    rw [planTransformation, PlannerState.planTopCount] at h
    cases current with
    | none =>
      refine ⟨fun _ => ?_, fun stage hstage => by cases hstage⟩
      dsimp only at h
      split at h
      · cases h
      · split at h
        · cases h
        · exact (Except.ok.inj h).symm
    | some stage =>
      refine ⟨fun hnone => absurd hnone (Option.some_ne_none _), fun stage' hstage => ?_⟩
      obtain rfl := Option.some.inj hstage
      dsimp only at h
      split at h
      · cases h
      · exact (Except.ok.inj h).symm
  | _ => cases hcuts

/-! ## The state of the planner -/

structure FitsInput (slot : Slot) (s : PlannerState) : Prop where
  stages : s.stages = []
  current : s.currentStage = none
  branches : s.concatBranches = []
  filters : s.planPostFilters = []
  cut : s.cut.Fits slot

structure FitsStage (slot : Slot) (s : PlannerState) : Prop where
  branches : s.concatBranches = []
  filters : s.planPostFilters = []
  planCut : s.cut.Fits .filter
  current : ∃ stage, s.currentStage = some stage ∧ stage.cut.Fits slot

structure FitsJoined (slot : Slot) (s : PlannerState) : Prop where
  current : s.currentStage = none
  branches : s.concatBranches ≠ []
  orderBy : s.planOrderBy = []
  filters : ∀ expr ∈ s.planPostFilters, fieldOf expr = none
  cut : s.cut.Fits slot

def Fits (s : PlannerState) : Phase → Prop
  | .input slot => FitsInput slot s
  | .stage slot => FitsStage slot s
  | .joined slot => FitsJoined slot s

/-- What has been planned so far, read back. -/
def PlannerState.transformations (s : PlannerState) : ApplyPipeline :=
  s.preAggregationFilters.map .filter ++ s.allStages.flatMap stageTransformations ++
    concatTransformation (allTransformationsOf s.concatBranches) ++
    s.planPostFilters.map .filter ++ s.cut.transformations

/-- A transformation went to the end of what is read back. -/
structure Extends (s s' : PlannerState) (transformation : ApplyTransformation) : Prop where
  pushdownWhere : s'.pushdownWhere = s.pushdownWhere
  transformations : s'.transformations = s.transformations ++ [transformation]

/-! ## One transformation -/

section Step

variable {options : ApplyPlannerOptions} {inBranch requires : Bool} {phase next : Phase}
  {s s' : PlannerState}

theorem allStages_of_current {stage : ApplyAggregationStage}
    (h : s.currentStage = some stage) : s.allStages = s.stages ++ [stage] := by
  rw [PlannerState.allStages, h]
  rfl

theorem concatTransformation_nil : concatTransformation (allTransformationsOf []) = [] := by
  rw [allTransformationsOf, concatTransformation, if_pos rfl]

theorem transformations_stage {slot : Slot} (h : FitsStage slot s)
    {stage : ApplyAggregationStage} (hcurrent : s.currentStage = some stage) :
    s.transformations = s.preAggregationFilters.map .filter ++
      s.stages.flatMap stageTransformations ++ stageTransformations stage := by
  rw [PlannerState.transformations, allStages_of_current hcurrent, h.branches, h.filters,
    Cut.transformations_nil h.planCut, concatTransformation_nil, List.flatMap_append,
    List.flatMap_singleton, List.map_nil, List.append_nil, List.append_nil, List.append_nil,
    List.append_assoc]

theorem extends_current {slot slot' : Slot} {stage stage' : ApplyAggregationStage}
    {transformation : ApplyTransformation} (h : FitsStage slot s)
    (hcurrent : s.currentStage = some stage) (hcut : stage'.cut.Fits slot')
    (hstage : stageTransformations stage' = stageTransformations stage ++ [transformation]) :
    FitsStage slot' { s with currentStage := some stage' } ∧
      Extends s { s with currentStage := some stage' } transformation := by
  have hfits : FitsStage slot' { s with currentStage := some stage' } :=
    ⟨h.branches, h.filters, h.planCut, stage', rfl, hcut⟩
  refine ⟨hfits, rfl, ?_⟩
  rw [transformations_stage hfits rfl, transformations_stage h hcurrent, hstage,
    List.append_assoc _ _ [transformation]]

theorem extends_withCut {cut : Cut} {transformation : ApplyTransformation}
    (h : cut.transformations = s.cut.transformations ++ [transformation]) :
    Extends s (s.withCut cut) transformation := by
  refine ⟨rfl, ?_⟩
  unfold PlannerState.transformations
  rw [List.append_assoc _ _ [transformation], ← h]
  rfl

theorem stageTransformations_withCut {stage : ApplyAggregationStage} {cut : Cut}
    {transformation : ApplyTransformation}
    (h : cut.transformations = stage.cut.transformations ++ [transformation]) :
    stageTransformations (stage.withCut cut) =
      stageTransformations stage ++ [transformation] := by
  have hcut : cutTransformations cut.orderBy cut.skip cut.top =
      cutTransformations stage.orderBy stage.skip stage.top ++ [transformation] := h
  unfold stageTransformations ApplyAggregationStage.withCut
  dsimp only
  rw [hcut, List.cons_append, List.append_assoc]

/-- Sorting, skipping and topping, in each phase. -/
theorem step_cut {transformation : ApplyTransformation} (hcuts : transformation.cuts = true)
    (hnext : phase.next options inBranch transformation = some next) (h : Fits s phase)
    (hs : planTransformation options requires s transformation = .ok s') :
    Fits s' next ∧ Extends s s' transformation := by
  obtain ⟨hplan, hstage⟩ := planTransformation_cut hcuts hs
  cases phase with
  | input slot =>
    rw [next_input hcuts] at hnext
    obtain ⟨slot', hslot, rfl⟩ := Option.map_eq_some_iff.mp hnext
    obtain ⟨hfits, htransformations⟩ := Cut.add_next hslot h.cut
    rw [hplan h.current]
    exact ⟨⟨h.stages, h.current, h.branches, h.filters, hfits⟩, extends_withCut htransformations⟩
  | stage slot =>
    rw [next_stage hcuts] at hnext
    obtain ⟨slot', hslot, rfl⟩ := Option.map_eq_some_iff.mp hnext
    obtain ⟨stage, hcurrent, hcut⟩ := h.current
    obtain ⟨hfits, htransformations⟩ := Cut.add_next hslot hcut
    rw [hstage stage hcurrent]
    exact extends_current h hcurrent hfits (stageTransformations_withCut htransformations)
  | joined slot =>
    obtain ⟨hmap, hunsorted⟩ := next_joined hcuts hnext
    obtain ⟨slot', hslot, rfl⟩ := Option.map_eq_some_iff.mp hmap
    obtain ⟨hfits, htransformations⟩ := Cut.add_next hslot h.cut
    have horder : (s.cut.add transformation).orderBy = s.planOrderBy := by
      cases transformation with
      | orderby items => exact absurd rfl (hunsorted items)
      | _ => rfl
    rw [hplan h.current]
    exact ⟨⟨h.current, h.branches, horder.trans h.orderBy, h.filters, hfits⟩,
      extends_withCut htransformations⟩

/-- An aggregation. -/
theorem step_startStage {spec : AggregationSpec}
    (hphase : phase.IsOpen) (h : Fits s phase) :
    Fits (s.startStage spec) (.stage .filter) ∧
      Extends s (s.startStage spec) (.groupby spec.groupBy spec.aggregates) := by
  have hempty : s.concatBranches = [] ∧ s.planPostFilters = [] ∧ s.cut.Fits .filter := by
    rcases hphase with rfl | ⟨slot, rfl⟩
    · exact ⟨h.branches, h.filters, h.cut⟩
    · exact ⟨h.branches, h.filters, h.planCut⟩
  obtain ⟨hbranches, hfilters, hcut⟩ := hempty
  have hfits : FitsStage .filter (s.startStage spec) :=
    ⟨hbranches, hfilters, hcut, { spec := spec }, rfl, rfl, rfl, rfl⟩
  refine ⟨hfits, rfl, ?_⟩
  rw [transformations_stage hfits rfl, PlannerState.transformations, hbranches, hfilters,
    Cut.transformations_nil hcut, concatTransformation_nil, List.map_nil, List.append_nil,
    List.append_nil, List.append_nil]
  rfl

/-- A filter goes to the stage, behind the branches, to the repository, or before the stages. -/
theorem planFilter_ok {expression : ParsedExpression}
    (hs : s.planFilter options expression = .ok s') :
    (∀ stage, s.currentStage = some stage → s' = { s with
      currentStage := some { stage with
        postAggregationFilters := stage.postAggregationFilters ++ [expression] } }) ∧
    (s.currentStage = none → s.hasPlanResults = true →
      s' = { s with planPostFilters := s.planPostFilters ++ [expression] }) ∧
    (s.currentStage = none → s.hasPlanResults = false →
      (∃ candidate, buildWhereCandidate options expression = .ok (some candidate) ∧
        s' = { s with pushdownWhere := some (mergeWhereClauses s.pushdownWhere candidate) }) ∨
      s' = { s with preAggregationFilters := s.preAggregationFilters ++ [expression] }) := by
  obtain ⟨pushdownWhere, pre, stages, current, branches, filters, orderBy, top, skip⟩ := s
  unfold PlannerState.planFilter at hs
  dsimp only at hs
  cases current with
  | some stage =>
    refine ⟨fun stage' hstage => ?_, fun hnone => absurd hnone (Option.some_ne_none _),
      fun hnone => absurd hnone (Option.some_ne_none _)⟩
    obtain rfl := Option.some.inj hstage
    exact (Except.ok.inj hs).symm
  | none =>
    refine ⟨fun stage' hstage => absurd hstage.symm (Option.some_ne_none _), ?_, ?_⟩
    · intro _ hresults
      dsimp only at hs
      rw [if_pos hresults] at hs
      exact (Except.ok.inj hs).symm
    · intro _ hresults
      dsimp only at hs
      rw [if_neg (by rw [hresults]; exact Bool.false_ne_true)] at hs
      obtain ⟨candidate, hcandidate, hs⟩ := bind_eq_ok.mp hs
      cases candidate with
      | some candidate => exact Or.inl ⟨candidate, hcandidate, (Except.ok.inj hs).symm⟩
      | none => exact Or.inr (Except.ok.inj hs).symm

/-- A filter is kept at the end, unless the repository is to run it. -/
theorem step_filter {expression : ParsedExpression}
    (hnext : phase.next options inBranch (.filter expression) = some next) (h : Fits s phase)
    (hs : s.planFilter options expression = .ok s') :
    Fits s' next ∧ (Extends s s' (.filter expression) ∨
      phase = .input .filter ∧ inBranch = false ∧ ∃ candidate,
        buildWhereCandidate options expression = .ok (some candidate) ∧
        s' = { s with pushdownWhere := some (mergeWhereClauses s.pushdownWhere candidate) }) := by
  obtain ⟨hstage, hjoined, hinput⟩ := planFilter_ok hs
  cases phase with
  | input slot =>
    cases slot with
    | filter =>
      have hresults : s.hasPlanResults = false := by
        rw [PlannerState.hasPlanResults, h.stages, h.branches]
        rfl
      rw [Phase.next] at hnext
      split at hnext
      · cases hnext
      · next hpushes =>
        obtain rfl := Option.some.inj hnext
        rcases hinput h.current hresults with ⟨candidate, hcandidate, rfl⟩ | rfl
        · have hbranch : inBranch = false := by
            rw [pushesDown, hcandidate, Bool.and_true] at hpushes
            exact Bool.eq_false_of_not_eq_true hpushes
          exact ⟨⟨h.stages, h.current, h.branches, h.filters, h.cut⟩,
            Or.inr ⟨rfl, hbranch, candidate, hcandidate, rfl⟩⟩
        · refine ⟨⟨h.stages, h.current, h.branches, h.filters, h.cut⟩, Or.inl ⟨rfl, ?_⟩⟩
          have hcut := Cut.transformations_nil h.cut
          simp only [PlannerState.transformations, PlannerState.allStages, h.stages, h.current,
            h.branches, h.filters, concatTransformation_nil, List.map_append, List.map_nil,
            List.flatMap_nil, Option.toList_none, List.append_nil, List.map_cons]
          rw [hcut]
          unfold PlannerState.cut at hcut ⊢
          rw [hcut, List.append_nil, List.append_nil]
    | _ => cases hnext
  | stage slot =>
    cases slot with
    | filter =>
      obtain rfl := Option.some.inj hnext
      obtain ⟨stage, hcurrent, hcut⟩ := h.current
      have hcuts : cutTransformations stage.orderBy stage.skip stage.top = [] :=
        Cut.transformations_nil hcut
      rw [hstage stage hcurrent]
      have hlast : stageTransformations { stage with
          postAggregationFilters := stage.postAggregationFilters ++ [expression] } =
            stageTransformations stage ++ [.filter expression] := by
        unfold stageTransformations
        dsimp only
        rw [hcuts, List.map_append, List.append_nil, List.append_nil, List.cons_append]
        rfl
      have hkept : ApplyAggregationStage.cut { stage with
          postAggregationFilters := stage.postAggregationFilters ++ [expression] } = stage.cut := rfl
      rw [← hkept] at hcut
      obtain ⟨hfits, hextends⟩ := extends_current h hcurrent hcut hlast
      exact ⟨hfits, Or.inl hextends⟩
    | _ => cases hnext
  | joined slot =>
    cases slot with
    | filter =>
      have hresults : s.hasPlanResults = true := by
        rw [PlannerState.hasPlanResults, Bool.or_eq_true, Bool.not_eq_true', List.isEmpty_eq_false_iff]
        exact Or.inr h.branches
      rw [Phase.next] at hnext
      split at hnext
      · next hfield =>
        obtain rfl := Option.some.inj hnext
        rw [hjoined h.current hresults]
        refine ⟨⟨h.current, h.branches, h.orderBy, ?_, h.cut⟩, Or.inl ⟨rfl, ?_⟩⟩
        · intro expr hexpr
          rcases List.mem_append.mp hexpr with hexpr | hexpr
          · exact h.filters expr hexpr
          · rw [List.mem_singleton.mp hexpr]
            exact hfield
        · have hcut : ∀ filters, PlannerState.cut { s with planPostFilters := filters } = s.cut :=
            fun _ => rfl
          rw [PlannerState.transformations, PlannerState.transformations, hcut,
            Cut.transformations_nil h.cut, List.append_nil, List.append_nil, List.map_append,
            ← List.append_assoc]
          rfl
      · cases hnext
    | _ => cases hnext

/-- The branches of a `concat`. -/
theorem step_addBranches {branches : List ApplyExecutionPlan} (hsome : branches ≠ [])
    (hphase : phase.IsOpen) (h : Fits s phase) :
    Fits (s.addBranches branches) (.joined .filter) ∧
      Extends s (s.addBranches branches) (.concat (allTransformationsOf branches)) := by
  have hempty : s.concatBranches = [] ∧ s.planPostFilters = [] ∧ s.cut.Fits .filter := by
    rcases hphase with rfl | ⟨slot, rfl⟩
    · exact ⟨h.branches, h.filters, h.cut⟩
    · exact ⟨h.branches, h.filters, h.planCut⟩
  obtain ⟨hbranches, hfilters, hcut⟩ := hempty
  have hall : (s.addBranches branches).concatBranches = branches := by
    rw [PlannerState.addBranches, hbranches]
    rfl
  have hstages : (s.addBranches branches).allStages = s.allStages := List.append_nil _
  have hplain : ∀ expr ∈ (s.addBranches branches).planPostFilters, fieldOf expr = none := by
    intro expr hexpr
    have hmem : expr ∈ s.planPostFilters := hexpr
    rw [hfilters] at hmem
    cases hmem
  refine ⟨⟨rfl, ?_, hcut.1, hplain, hcut⟩, rfl, ?_⟩
  · rw [hall]
    exact hsome
  · have hpost : (s.addBranches branches).planPostFilters = [] := hfilters
    have hcuts : (s.addBranches branches).cut.transformations = [] := Cut.transformations_nil hcut
    have hne : allTransformationsOf branches ≠ [] := by
      cases branches with
      | nil => exact absurd rfl hsome
      | cons branch rest =>
        rw [allTransformationsOf]
        exact List.cons_ne_nil _ _
    rw [PlannerState.transformations, PlannerState.transformations, hall, hstages, hpost, hcuts,
      hbranches, hfilters, Cut.transformations_nil hcut, concatTransformation_nil, List.map_nil,
      concatTransformation, if_neg hne]
    simp only [List.append_nil]
    rfl

end Step

end ApplyPlan

end LoopbackOData
