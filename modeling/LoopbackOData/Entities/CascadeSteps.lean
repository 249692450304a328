import LoopbackOData.Entities.CascadeDelete
import LoopbackOData.Library.Unfolding

/-!
# The steps of a cascade

Planning a cascade as a list of steps, and when it admits them. The entities that are entered are
those of the unfolding of the graph.
-/

namespace LoopbackOData

set_option autoImplicit false

open Relation Unfolding

namespace CompositionGraph

variable {ι ε : Type} (graph : CompositionGraph ι ε) (limits : CascadeLimits)

/-- The rows that a cascade takes of a relation. -/
def cascadeRows (entity : ε) (relation : ComposedRelation) : List ε :=
  match relation.type with
  | .hasOne => (graph.related entity relation.name).head?.toList
  | .hasMany => graph.related entity relation.name

def cascadeChildren (entity : ε) : List ε :=
  (graph.relationsWith .cascade entity).flatMap (graph.cascadeRows entity)

/-! ## The steps of planning -/

/-- What planning does in turn: it goes below the levels that there are, it enters an entity, and it
reads a page of a hasMany relation. -/
inductive PlanStep (ε : Type) where
  | tooDeep
  | enter (entity : ε)
  | readPage
  deriving DecidableEq

def pageSteps (steps : ε → List (PlanStep ε)) (rows : List ε) : List (PlanStep ε) :=
  .readPage :: ((rows.take 1000).flatMap steps ++
    if rows.length < 1000 then [] else pageSteps steps (rows.drop 1000))
termination_by rows.length
decreasing_by rw [List.length_drop]; omega

def relationSteps (steps : ε → List (PlanStep ε)) (entity : ε) (relation : ComposedRelation) :
    List (PlanStep ε) :=
  match relation.type with
  | .hasOne => (graph.related entity relation.name).head?.toList.flatMap steps
  | .hasMany => pageSteps steps (graph.related entity relation.name)

def planSteps : Nat → ε → List (PlanStep ε)
  | 0, _ => [.tooDeep]
  | levels + 1, entity => .enter entity ::
      (graph.relationsWith .cascade entity).flatMap
        (graph.relationSteps (planSteps levels) entity)

def PlanStep.entered : PlanStep ε → Option ε
  | .enter entity => some entity
  | .tooDeep | .readPage => none

/-- The number of entities planned after the steps, unless they are refused. -/
def admitSteps : Nat → List (PlanStep ε) → Option Nat
  | planned, [] => some planned
  | _, .tooDeep :: _ => none
  | planned, .enter entity :: steps =>
    if planned + 1 ≤ limits.maxEntities ∧ graph.blockedRelations entity = [] then
      admitSteps (planned + 1) steps
    else none
  | planned, .readPage :: steps =>
    if planned < limits.maxEntities then admitSteps planned steps else none

variable {graph} {limits} {planned : Nat} {steps more : List (PlanStep ε)} {root entity : ε}

theorem admitSteps_append : graph.admitSteps limits planned (steps ++ more) =
    (graph.admitSteps limits planned steps).bind fun planned =>
      graph.admitSteps limits planned more := by
  induction steps generalizing planned with
  | nil => rfl
  | cons step steps ih =>
    cases step with
    | tooDeep => rfl
    | enter entity =>
      rw [List.cons_append, admitSteps, admitSteps]
      split
      · exact ih
      · rfl
    | readPage =>
      rw [List.cons_append, admitSteps, admitSteps]
      split
      · exact ih
      · rfl

/-- The number of entities that the steps enter. -/
def enteredCount (steps : List (PlanStep ε)) : Nat := (steps.filterMap PlanStep.entered).length

theorem eq_of_admitSteps {after : Nat} (h : graph.admitSteps limits planned steps = some after) :
    after = planned + enteredCount steps := by
  induction steps generalizing planned with
  | nil => exact (Option.some.inj h).symm
  | cons step steps ih =>
    cases step with
    | tooDeep => cases h
    | enter entity =>
      rw [admitSteps, Option.ite_none_right_eq_some] at h
      have hafter := ih h.2
      simp only [enteredCount, List.filterMap_cons, PlanStep.entered, List.length_cons] at hafter ⊢
      omega
    | readPage =>
      rw [admitSteps, Option.ite_none_right_eq_some] at h
      exact ih h.2

/-- What the steps ask, whatever their order, and what they ask of the last one. -/
structure Admitted (graph : CompositionGraph ι ε) (limits : CascadeLimits) (planned : Nat)
    (steps : List (PlanStep ε)) : Prop where
  shallow : .tooDeep ∉ steps
  unrestricted : ∀ entity ∈ steps.filterMap PlanStep.entered, graph.blockedRelations entity = []
  count : planned + enteredCount steps ≤ limits.maxEntities
  last : planned + enteredCount steps < limits.maxEntities ∨ steps.getLast? ≠ some .readPage

theorem admitSteps_concat {step : PlanStep ε} :
    (∃ after, graph.admitSteps limits planned (steps ++ [step]) = some after) ↔
      (∃ after, graph.admitSteps limits planned steps = some after) ∧
        ∃ after, graph.admitSteps limits (planned + enteredCount steps) [step] = some after := by
  rw [admitSteps_append]
  constructor
  · rintro ⟨after, h⟩
    obtain ⟨between, hsteps, hstep⟩ := Option.bind_eq_some_iff.mp h
    rw [← eq_of_admitSteps hsteps]
    exact ⟨⟨between, hsteps⟩, after, hstep⟩
  · rintro ⟨⟨between, hsteps⟩, after, hstep⟩
    rw [← eq_of_admitSteps hsteps] at hstep
    exact ⟨after, Option.bind_eq_some_iff.mpr ⟨between, hsteps, hstep⟩⟩

theorem admitSteps_iff (hplanned : planned ≤ limits.maxEntities) :
    (∃ after, graph.admitSteps limits planned steps = some after) ↔
      Admitted graph limits planned steps := by
  induction steps using List.reverseRecOn with
  | nil =>
    refine ⟨fun _ => ⟨List.not_mem_nil, nofun, hplanned, .inr nofun⟩, fun _ => ⟨planned, rfl⟩⟩
  | append_singleton steps step ih =>
    rw [admitSteps_concat, ih]
    cases step with
    | tooDeep =>
      constructor
      · rintro ⟨-, after, h⟩
        cases h
      · intro h
        exact absurd (List.mem_append_right steps List.mem_cons_self) h.shallow
    | enter entity =>
      have hcount : enteredCount (steps ++ [.enter entity]) = enteredCount steps + 1 := by
        rw [enteredCount, List.filterMap_append, List.length_append]
        rfl
      have hstep : (∃ after, graph.admitSteps limits (planned + enteredCount steps)
          [.enter entity] = some after) ↔ planned + enteredCount steps + 1 ≤ limits.maxEntities ∧
            graph.blockedRelations entity = [] := by
        simp [admitSteps, Option.ite_none_right_eq_some]
      rw [hstep]
      constructor
      · rintro ⟨h, hfits, hfree⟩
        refine ⟨?_, ?_, ?_, .inr ?_⟩
        · simpa using h.shallow
        · intro other hother
          rw [List.filterMap_append, List.mem_append] at hother
          rcases hother with hother | hother
          · exact h.unrestricted other hother
          · rw [List.mem_singleton.mp hother]
            exact hfree
        · rw [hcount]
          exact hfits
        · rw [List.getLast?_concat]
          nofun
      · intro h
        have hfits := h.count
        rw [hcount] at hfits
        refine ⟨⟨?_, ?_, by omega, .inl (by omega)⟩, hfits, ?_⟩
        · exact fun hmem => h.shallow (List.mem_append_left _ hmem)
        · intro other hother
          refine h.unrestricted other ?_
          rw [List.filterMap_append]
          exact List.mem_append_left _ hother
        · refine h.unrestricted entity ?_
          rw [List.filterMap_append]
          exact List.mem_append_right _ List.mem_cons_self
    | readPage =>
      have hentered : (steps ++ [PlanStep.readPage]).filterMap PlanStep.entered =
          steps.filterMap PlanStep.entered := by
        rw [List.filterMap_append]
        exact List.append_nil _
      have hstep : (∃ after, graph.admitSteps limits (planned + enteredCount steps)
          [.readPage] = some after) ↔ planned + enteredCount steps < limits.maxEntities := by
        simp [admitSteps, Option.ite_none_right_eq_some]
      have hcount : enteredCount (steps ++ [PlanStep.readPage]) = enteredCount steps := by
        rw [enteredCount, hentered, enteredCount]
      rw [hstep]
      constructor
      · rintro ⟨h, hfits⟩
        refine ⟨by simpa using h.shallow, ?_, ?_, .inl ?_⟩
        · rw [hentered]
          exact h.unrestricted
        · rw [hcount]
          exact h.count
        · rw [hcount]
          exact hfits
      · intro h
        have hfits : planned + enteredCount steps < limits.maxEntities := by
          rcases h.last with hlast | hlast
          · rwa [hcount] at hlast
          · exact absurd List.getLast?_concat hlast
        refine ⟨⟨fun hmem => h.shallow (List.mem_append_left _ hmem), ?_, by omega, .inl hfits⟩,
          hfits⟩
        rw [← hentered]
        exact h.unrestricted

/-! ## Planning follows the steps -/

variable (graph limits)

/-- Where the ancestors are of the kind, a program yields the value when the steps are admitted, and
else fails without deleting anything. -/
def Follows {α : Type} (ancestors : List ε → Prop) (m : CascadeEffect ε α)
    (steps : List (PlanStep ε)) (value : α) : Prop :=
  ∀ state, ancestors state.visiting →
    match graph.admitSteps limits state.entitiesPlanned steps with
    | some after => m state = (.ok value, { state with entitiesPlanned := after })
    | none => ∃ error failed, m state = (.error error, failed) ∧ failed.deleted = state.deleted

variable {graph limits}

section Follows

variable {α β : Type} {ancestors : List ε → Prop} {m : CascadeEffect ε α} {value : α}

theorem follows_pure : Follows graph limits ancestors (pure value : CascadeEffect ε α) [] value :=
  fun _ _ => rfl

theorem follows_bind {f : α → CascadeEffect ε β} {result : β}
    (hm : Follows graph limits ancestors m steps value)
    (hf : Follows graph limits ancestors (f value) more result) :
    Follows graph limits ancestors (m >>= f) (steps ++ more) result := by
  intro state hstate
  have hfirst := hm state hstate
  rw [admitSteps_append, Effect.bind_apply]
  cases hsteps : graph.admitSteps limits state.entitiesPlanned steps with
  | none =>
    rw [hsteps] at hfirst
    obtain ⟨error, failed, hrun, hkept⟩ := hfirst
    rw [hrun]
    exact ⟨error, failed, rfl, hkept⟩
  | some after =>
    rw [hsteps] at hfirst
    have hrun : m state = (.ok value, { state with entitiesPlanned := after }) := hfirst
    rw [hrun]
    exact hf { state with entitiesPlanned := after } hstate

theorem follows_bind_pure {f : α → β} (hm : Follows graph limits ancestors m steps value) :
    Follows graph limits ancestors (m >>= fun a => pure (f a)) steps (f value) := by
  rw [← List.append_nil steps]
  exact follows_bind hm follows_pure

variable {plan : ε → CascadeEffect ε (CascadeNode ε)} {stepsOf : ε → List (PlanStep ε)}
  {nodeOf : ε → CascadeNode ε} {rows : List ε}

theorem follows_planEach
    (hplan : ∀ row ∈ rows, Follows graph limits ancestors (plan row) (stepsOf row) (nodeOf row)) :
    Follows graph limits ancestors (planEach plan rows) (rows.flatMap stepsOf)
      (rows.map nodeOf) := by
  induction rows with
  | nil => exact follows_pure
  | cons row rows ih =>
    rw [planEach, List.flatMap_cons, List.map_cons]
    refine follows_bind (hplan row List.mem_cons_self) ?_
    exact follows_bind_pure (ih fun other hother => hplan other (List.mem_cons_of_mem row hother))

theorem follows_readPage (hm : Follows graph limits ancestors m steps value) :
    Follows graph limits ancestors
      (do
        let state ← Effect.get
        if state.entitiesPlanned ≥ limits.maxEntities then
          Effect.fail (maxEntitiesGuardrail limits)
        else m) (.readPage :: steps) value := by
  intro state hstate
  have hget : (do
      let state ← Effect.get
      if state.entitiesPlanned ≥ limits.maxEntities then Effect.fail (maxEntitiesGuardrail limits)
      else m : CascadeEffect ε α) state =
        (if state.entitiesPlanned ≥ limits.maxEntities then
          Effect.fail (maxEntitiesGuardrail limits)
        else m : CascadeEffect ε α) state := rfl
  rw [hget, admitSteps]
  by_cases hroom : state.entitiesPlanned < limits.maxEntities
  · rw [if_pos hroom, if_neg (by omega)]
    exact hm state hstate
  · rw [if_neg hroom, if_pos (by omega)]
    exact ⟨_, state, rfl, rfl⟩

theorem follows_planPages
    (hplan : ∀ row ∈ rows, Follows graph limits ancestors (plan row) (stepsOf row) (nodeOf row)) :
    Follows graph limits ancestors (planPages limits plan rows) (pageSteps stepsOf rows)
      (rows.map nodeOf) := by
  induction rows using pageSteps.induct with
  | case1 rows ih =>
    have hpage : Follows graph limits ancestors (planEach plan (rows.take 1000))
        ((rows.take 1000).flatMap stepsOf) ((rows.take 1000).map nodeOf) :=
      follows_planEach fun row hrow => hplan row (List.mem_of_mem_take hrow)
    have hrest : Follows graph limits ancestors
        (do
          let nodes ← planEach plan (rows.take 1000)
          if rows.length < 1000 then pure nodes
          else do
            let more ← planPages limits plan (rows.drop 1000)
            pure (nodes ++ more))
        ((rows.take 1000).flatMap stepsOf ++
          if rows.length < 1000 then [] else pageSteps stepsOf (rows.drop 1000))
        (rows.map nodeOf) := by
      refine follows_bind hpage ?_
      split
      · next hshort =>
        rw [List.take_of_length_le (by omega)]
        exact follows_pure
      · next hfull =>
        have hmore := ih hfull fun row hrow => hplan row (List.mem_of_mem_drop hrow)
        rw [← List.take_append_drop 1000 rows, List.map_append]
        simp only [List.take_append_drop]
        exact follows_bind_pure hmore
    rw [planPages, pageSteps]
    exact follows_readPage hrest

theorem follows_planRelation {relation : ComposedRelation}
    (hplan : ∀ row ∈ graph.cascadeRows entity relation,
      Follows graph limits ancestors (plan row) (stepsOf row) (nodeOf row)) :
    Follows graph limits ancestors (graph.planRelation limits plan entity relation)
      (graph.relationSteps stepsOf entity relation)
      ((graph.cascadeRows entity relation).map nodeOf) := by
  unfold planRelation relationSteps cascadeRows at *
  cases htype : relation.type with
  | hasOne =>
    rw [htype] at hplan
    exact follows_planEach hplan
  | hasMany =>
    rw [htype] at hplan
    exact follows_planPages hplan

theorem follows_planRelations {relations : List ComposedRelation}
    (hplan : ∀ relation ∈ relations, ∀ row ∈ graph.cascadeRows entity relation,
      Follows graph limits ancestors (plan row) (stepsOf row) (nodeOf row)) :
    Follows graph limits ancestors (graph.planRelations limits plan entity relations)
      (relations.flatMap (graph.relationSteps stepsOf entity))
      ((relations.flatMap (graph.cascadeRows entity)).map nodeOf) := by
  induction relations with
  | nil => exact follows_pure
  | cons relation relations ih =>
    rw [planRelations, List.flatMap_cons, List.flatMap_cons, List.map_append]
    refine follows_bind (follows_planRelation (hplan relation List.mem_cons_self)) ?_
    exact follows_bind_pure
      (ih fun other hother => hplan other (List.mem_cons_of_mem relation hother))

theorem follows_mono {ancestors' : List ε → Prop}
    (hmono : ∀ visiting, ancestors' visiting → ancestors visiting)
    (h : Follows graph limits ancestors m steps value) :
    Follows graph limits ancestors' m steps value :=
  fun state hstate => h state (hmono _ hstate)

end Follows

theorem ensureNoRestrictChildren_of_eq_nil (h : graph.blockedRelations entity = []) :
    graph.ensureNoRestrictChildren entity = .ok ⟨⟩ := by
  unfold ensureNoRestrictChildren
  rw [h]
  rfl

theorem ensureNoRestrictChildren_of_ne_nil (h : graph.blockedRelations entity ≠ []) :
    ∃ error, graph.ensureNoRestrictChildren entity = .error error := by
  unfold ensureNoRestrictChildren
  cases hblocked : graph.blockedRelations entity with
  | nil => exact absurd hblocked h
  | cons name names => exact ⟨_, rfl⟩

/-! ## The steps and the unfolding -/

theorem entered_flatMap {stepsOf : ε → List (PlanStep ε)} {rows : List ε} :
    (rows.flatMap stepsOf).filterMap PlanStep.entered =
      rows.flatMap fun row => (stepsOf row).filterMap PlanStep.entered := by
  induction rows with
  | nil => rfl
  | cons row rows ih => rw [List.flatMap_cons, List.filterMap_append, ih, List.flatMap_cons]

theorem entered_pageSteps {stepsOf : ε → List (PlanStep ε)} {rows : List ε} :
    (pageSteps stepsOf rows).filterMap PlanStep.entered =
      rows.flatMap fun row => (stepsOf row).filterMap PlanStep.entered := by
  induction rows using pageSteps.induct with
  | case1 rows ih =>
    rw [pageSteps, List.filterMap_cons]
    show ((rows.take 1000).flatMap stepsOf ++ _).filterMap PlanStep.entered = _
    rw [List.filterMap_append, entered_flatMap]
    split
    · next hshort =>
      rw [List.take_of_length_le (by omega)]
      exact List.append_nil _
    · next hfull =>
      rw [ih hfull, ← List.flatMap_append, List.take_append_drop]

theorem mem_pageSteps {stepsOf : ε → List (PlanStep ε)} {rows : List ε} :
    .tooDeep ∈ pageSteps stepsOf rows ↔ ∃ row ∈ rows, .tooDeep ∈ stepsOf row := by
  induction rows using pageSteps.induct with
  | case1 rows ih =>
    rw [pageSteps, List.mem_cons, List.mem_append, List.mem_flatMap]
    have hpage : PlanStep.tooDeep ≠ (.readPage : PlanStep ε) := nofun
    split
    · next hshort =>
      rw [List.take_of_length_le (by omega)]
      simp
    · next hfull =>
      rw [ih hfull]
      conv_rhs => rw [← List.take_append_drop 1000 rows]
      simp only [List.mem_append, or_and_right, exists_or, hpage, false_or]

variable (graph) in
theorem entered_planSteps (k : Nat) (entity : ε) :
    (graph.planSteps k entity).filterMap PlanStep.entered =
      preorder graph.cascadeChildren k entity := by
  induction k generalizing entity with
  | zero => rfl
  | succ k ih =>
    have hrelation (relation : ComposedRelation) :
        (graph.relationSteps (graph.planSteps k) entity relation).filterMap PlanStep.entered =
          (graph.cascadeRows entity relation).flatMap (preorder graph.cascadeChildren k) := by
      unfold relationSteps cascadeRows
      cases relation.type with
      | hasOne =>
        dsimp only
        rw [entered_flatMap, funext ih]
      | hasMany =>
        dsimp only
        rw [entered_pageSteps, funext ih]
    rw [planSteps, List.filterMap_cons, preorder, cascadeChildren, List.flatMap_assoc]
    show entity :: _ = _
    congr 1
    induction graph.relationsWith .cascade entity with
    | nil => rfl
    | cons relation relations ihrelations =>
      rw [List.flatMap_cons, List.filterMap_append, hrelation, ihrelations, List.flatMap_cons]

theorem tooDeep_mem_relationSteps {stepsOf : ε → List (PlanStep ε)} {relation : ComposedRelation} :
    .tooDeep ∈ graph.relationSteps stepsOf entity relation ↔
      ∃ row ∈ graph.cascadeRows entity relation, .tooDeep ∈ stepsOf row := by
  unfold relationSteps cascadeRows
  cases relation.type with
  | hasOne => exact List.mem_flatMap
  | hasMany => exact mem_pageSteps

theorem tooDeep_not_mem_planSteps (k : Nat) (entity : ε) :
    .tooDeep ∉ graph.planSteps k entity ↔ Shallow graph.cascadeChildren k entity := by
  induction k generalizing entity with
  | zero =>
    rw [planSteps]
    refine iff_of_false (fun h => h List.mem_cons_self) fun h => ?_
    exact absurd (h 0 entity (.refl entity)) (Nat.lt_irrefl 0)
  | succ k ih =>
    rw [shallow_succ, planSteps, List.mem_cons, List.mem_flatMap]
    constructor
    · intro h child hchild
      obtain ⟨relation, hrelation, hrow⟩ := List.mem_flatMap.mp hchild
      rw [← ih]
      intro hdeep
      exact h (.inr ⟨relation, hrelation, tooDeep_mem_relationSteps.mpr ⟨child, hrow, hdeep⟩⟩)
    · rintro h (hfirst | ⟨relation, hrelation, hdeep⟩)
      · cases hfirst
      · obtain ⟨row, hrow, hdeep⟩ := tooDeep_mem_relationSteps.mp hdeep
        exact (ih row).mpr (h row (List.mem_flatMap.mpr ⟨relation, hrelation, hrow⟩)) hdeep

theorem admitSteps_of_tooDeep (h : .tooDeep ∈ steps) :
    graph.admitSteps limits planned steps = none := by
  obtain ⟨before, after, rfl⟩ := List.append_of_mem h
  rw [admitSteps_append]
  cases graph.admitSteps limits planned before <;> rfl

/-! ## Planning -/

variable (graph) in
def plannedNode : Nat → ε → CascadeNode ε
  | 0, entity => .mk entity []
  | k + 1, entity => .mk entity ((graph.cascadeChildren entity).map (plannedNode k))

variable [DecidableEq ε]

variable (graph limits) in
theorem follows_planCascadeForEntity (k : Nat) (entity : ε) :
    Follows graph limits
      (fun visiting => ∀ ancestor ∈ visiting,
        TransGen (Child graph.cascadeChildren) ancestor entity)
      (graph.planCascadeForEntity limits k entity) (graph.planSteps k entity)
      (graph.plannedNode k entity) := by
  induction k generalizing entity with
  | zero => exact fun state _ => ⟨_, state, rfl, rfl⟩
  | succ k ih =>
    intro state hstate
    let entered : CascadeState ε := { state with entitiesPlanned := state.entitiesPlanned + 1 }
    let visited : CascadeState ε := { entered with visiting := entity :: state.visiting }
    let children : CascadeEffect ε (CascadeNode ε) := do
      let children ← graph.planRelations limits (graph.planCascadeForEntity limits k) entity
        (graph.relationsWith .cascade entity)
      pure (.mk entity children)
    let leave : CascadeState ε → CascadeState ε := fun state =>
      { state with visiting := state.visiting.erase entity }
    have hchildren : Follows graph limits
        (fun visiting => ∀ ancestor ∈ visiting,
          ancestor = entity ∨ TransGen (Child graph.cascadeChildren) ancestor entity)
        children ((graph.relationsWith .cascade entity).flatMap
          (graph.relationSteps (graph.planSteps k) entity)) (graph.plannedNode (k + 1) entity) := by
      refine follows_bind_pure (f := CascadeNode.mk entity) (follows_planRelations ?_)
      intro relation hrelation row hrow
      refine follows_mono (fun visiting hvisiting ancestor hancestor => ?_) (ih row)
      have hrow : Child graph.cascadeChildren entity row :=
        List.mem_flatMap.mpr ⟨relation, hrelation, hrow⟩
      rcases hvisiting ancestor hancestor with rfl | hancestor
      · exact .single hrow
      · exact .tail hancestor hrow
    have hrun : graph.planCascadeForEntity limits (k + 1) entity state =
        (if entered.entitiesPlanned > limits.maxEntities then
          Effect.fail (maxEntitiesGuardrail limits)
        else if entity ∈ entered.visiting then
          Effect.fail ⟨400, "Composition cascade detected a cycle in configured relations."⟩
        else do
          Effect.modify fun state => { state with visiting := entity :: state.visiting }
          Effect.ensuring (Effect.ofExcept (graph.ensureNoRestrictChildren entity) >>= fun _ =>
            children) leave : CascadeEffect ε (CascadeNode ε)) entered := rfl
    rw [hrun, planSteps, admitSteps]
    by_cases hroom : state.entitiesPlanned + 1 ≤ limits.maxEntities
    · rw [if_neg (show ¬ entered.entitiesPlanned > limits.maxEntities by
        show ¬ state.entitiesPlanned + 1 > limits.maxEntities; omega)]
      by_cases hcycle : entity ∈ state.visiting
      · rw [if_pos (show entity ∈ entered.visiting from hcycle)]
        have hdeep : .tooDeep ∈ graph.planSteps (k + 1) entity := by
          by_contra hdeep
          exact not_shallow_of_cycle (hstate entity hcycle)
            ((tooDeep_not_mem_planSteps (k + 1) entity).mp hdeep)
        have hdeep : .tooDeep ∈ (graph.relationsWith .cascade entity).flatMap
            (graph.relationSteps (graph.planSteps k) entity) := by
          rw [planSteps] at hdeep
          exact (List.mem_cons.mp hdeep).resolve_left nofun
        rw [admitSteps_of_tooDeep hdeep, ite_self]
        exact ⟨_, entered, rfl, rfl⟩
      · rw [if_neg (show entity ∉ entered.visiting from hcycle)]
        by_cases hfree : graph.blockedRelations entity = []
        · rw [if_pos ⟨hroom, hfree⟩, ensureNoRestrictChildren_of_eq_nil hfree]
          show match graph.admitSteps limits (state.entitiesPlanned + 1) _ with
            | some after => ((children visited).1, leave (children visited).2) =
                (.ok (graph.plannedNode (k + 1) entity), { state with entitiesPlanned := after })
            | none => ∃ error failed, ((children visited).1, leave (children visited).2) =
                (.error error, failed) ∧ failed.deleted = state.deleted
          have hbelow := hchildren visited (by
            intro ancestor hancestor
            rcases List.mem_cons.mp hancestor with rfl | hancestor
            · exact .inl rfl
            · exact .inr (hstate ancestor hancestor))
          cases hsteps : graph.admitSteps limits (state.entitiesPlanned + 1)
            ((graph.relationsWith .cascade entity).flatMap
              (graph.relationSteps (graph.planSteps k) entity)) with
          | none =>
            have hsteps' : graph.admitSteps limits visited.entitiesPlanned _ = none := hsteps
            rw [hsteps'] at hbelow
            obtain ⟨error, failed, hfailed, hkept⟩ := hbelow
            rw [hfailed]
            exact ⟨error, leave failed, rfl, hkept⟩
          | some after =>
            have hsteps' : graph.admitSteps limits visited.entitiesPlanned _ = some after := hsteps
            rw [hsteps'] at hbelow
            have hbelow : children visited = (.ok (graph.plannedNode (k + 1) entity),
              { visited with entitiesPlanned := after }) := hbelow
            rw [hbelow]
            show (_, { state with
              entitiesPlanned := after
              visiting := (entity :: state.visiting).erase entity }) = _
            rw [List.erase_cons_head]
        · rw [if_neg fun h => hfree h.2]
          obtain ⟨error, hblocked⟩ := ensureNoRestrictChildren_of_ne_nil hfree
          rw [hblocked]
          exact ⟨error, leave visited, rfl, rfl⟩
    · rw [if_neg fun h => hroom h.1, if_pos (show entered.entitiesPlanned > limits.maxEntities by
        show state.entitiesPlanned + 1 > limits.maxEntities; omega)]
      exact ⟨_, entered, rfl, rfl⟩

end CompositionGraph

end LoopbackOData
