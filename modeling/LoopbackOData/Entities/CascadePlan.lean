import LoopbackOData.Entities.CascadeSteps

/-!
# When a cascading delete goes through

An entity with two paths to it is counted and deleted twice. A page of a hasMany relation is only
read while another entity may be planned, so that a cascade of exactly as many entities as are
allowed is refused when it ends with reading a page.
-/

namespace LoopbackOData

set_option autoImplicit false

open Relation Unfolding

namespace CompositionGraph

variable {ι ε : Type} (graph : CompositionGraph ι ε) (limits : CascadeLimits)

/-- Reached through cascade relations. -/
def Reachable (root entity : ε) : Prop := ReflTransGen (Child graph.cascadeChildren) root entity

noncomputable def reachableCount (root : ε) : Nat := {entity | graph.Reachable root entity}.ncard

/-- What the limits and the restrict relations ask of a cascade. -/
structure Permitted (root : ε) : Prop where
  entities : graph.reachableCount root ≤ limits.maxEntities
  depth : ∀ k entity, Chain graph.cascadeChildren k root entity → k ≤ limits.maxDepth
  unrestricted : ∀ entity, graph.Reachable root entity → graph.blockedRelations entity = []

/-- A cascade goes through exactly when it is permitted, and then deletes the reachable entities,
each once and after its children. Otherwise it deletes nothing. -/
structure CascadesRightly (root : ε) (outcome : Except HttpError PUnit × CascadeState ε) : Prop where
  accepted : outcome.1 = .ok ⟨⟩ ↔ graph.Permitted limits root
  reachable : outcome.1 = .ok ⟨⟩ → ∀ entity, entity ∈ outcome.2.deleted ↔ graph.Reachable root entity
  once : outcome.1 = .ok ⟨⟩ → outcome.2.deleted.Nodup
  childrenFirst : outcome.1 = .ok ⟨⟩ → ∀ before entity after,
    outcome.2.deleted = before ++ entity :: after → graph.cascadeChildren entity ⊆ before
  rejected : outcome.1 ≠ .ok ⟨⟩ → outcome.2.deleted = []

/-- Planning is over once it has read a page of a hasMany relation. -/
def EndsWithPage (root : ε) : Prop :=
  (graph.planSteps (limits.maxDepth + 1) root).getLast? = some .readPage

/-- No entity is reached along two paths. -/
def SinglePaths (root : ε) : Prop :=
  (preorder graph.cascadeChildren (limits.maxDepth + 1) root).Nodup

variable [DecidableEq ε] {graph} {limits} {root entity : ε}

/-! ## Deleting -/

/-- The program deletes the entities, in order; it fails where one has been deleted before. -/
structure Removes (m : CascadeEffect ε PUnit) (entities : List ε) : Prop where
  ok : ∀ state, (state.deleted ++ entities).Nodup →
    ∃ after, m state = (.ok ⟨⟩, after) ∧ after.deleted = state.deleted ++ entities
  fails : ∀ state, state.deleted.Nodup → ¬ (state.deleted ++ entities).Nodup →
    ∃ error after, m state = (.error error, after)

omit [DecidableEq ε] in
theorem removes_pure : Removes (pure ⟨⟩ : CascadeEffect ε PUnit) [] := by
  refine ⟨fun state _ => ⟨state, rfl, (List.append_nil _).symm⟩, fun state hnodup h => ?_⟩
  rw [List.append_nil] at h
  exact absurd hnodup h

theorem removes_bind {m n : CascadeEffect ε PUnit} {entities others : List ε}
    (hm : Removes m entities) (hn : Removes n others) :
    Removes (m >>= fun _ => n) (entities ++ others) := by
  constructor
  · intro state hnodup
    rw [← List.append_assoc] at hnodup ⊢
    obtain ⟨between, hfirst, hdeleted⟩ := hm.ok state hnodup.of_append_left
    rw [← hdeleted] at hnodup ⊢
    obtain ⟨after, hsecond, hafter⟩ := hn.ok between hnodup
    refine ⟨after, ?_, hafter⟩
    rw [Effect.bind_apply, hfirst]
    exact hsecond
  · intro state hstart hnodup
    rw [Effect.bind_apply]
    by_cases hfirst : (state.deleted ++ entities).Nodup
    · obtain ⟨between, hrun, hdeleted⟩ := hm.ok state hfirst
      rw [← List.append_assoc, ← hdeleted] at hnodup
      rw [hrun]
      exact hn.fails between (hdeleted ▸ hfirst) hnodup
    · obtain ⟨error, after, hrun⟩ := hm.fails state hstart hfirst
      exact ⟨error, after, by rw [hrun]⟩

theorem removes_deleteById (entity : ε) : Removes (deleteById entity) [entity] := by
  constructor
  · intro state hnodup
    have hnew : entity ∉ state.deleted := fun hmem =>
      (List.disjoint_of_nodup_append hnodup) hmem List.mem_cons_self
    exact ⟨{ state with deleted := state.deleted ++ [entity] }, by
      rw [deleteById, Effect.advance, if_neg hnew], rfl⟩
  · intro state hstart hnodup
    have hmem : entity ∈ state.deleted := by
      by_contra hnew
      exact hnodup (List.nodup_append'.mpr
        ⟨hstart, List.nodup_singleton entity, by simpa using hnew⟩)
    exact ⟨⟨404, "Entity not found"⟩, state, by rw [deleteById, Effect.advance, if_pos hmem]⟩

theorem removes_node {entity : ε} {children : List (CascadeNode ε)} {entities : List ε}
    (h : Removes (executeCascadeNodes children) entities) :
    Removes (executeCascadeNode (.mk entity children)) (entities ++ [entity]) := by
  rw [executeCascadeNode]
  refine removes_bind h ?_
  have hcount : Removes (Effect.modify fun state : CascadeState ε =>
      { state with entitiesDeleted := state.entitiesDeleted + 1 }) [] := by
    refine ⟨fun state _ => ⟨_, rfl, (List.append_nil _).symm⟩, fun state hnodup hnot => ?_⟩
    rw [List.append_nil] at hnot
    exact absurd hnodup hnot
  exact removes_bind (removes_deleteById entity) hcount

theorem removes_nodes {nodeOf : ε → CascadeNode ε} {entitiesOf : ε → List ε} {children : List ε}
    (h : ∀ child ∈ children, Removes (executeCascadeNode (nodeOf child)) (entitiesOf child)) :
    Removes (executeCascadeNodes (children.map nodeOf)) (children.flatMap entitiesOf) := by
  induction children with
  | nil => exact removes_pure
  | cons child children ih =>
    rw [List.map_cons, executeCascadeNodes, List.flatMap_cons]
    exact removes_bind (h child List.mem_cons_self)
      (ih fun other hother => h other (List.mem_cons_of_mem child hother))

/-- The entities below a node that fits the levels are deleted in postorder. -/
theorem removes_planned {k : Nat} (hshallow : Shallow graph.cascadeChildren k entity) :
    Removes (executeCascadeNode (graph.plannedNode k entity))
      (postorder graph.cascadeChildren k entity) := by
  induction k generalizing entity with
  | zero => exact absurd (hshallow 0 entity (.refl entity)) (Nat.lt_irrefl 0)
  | succ k ih =>
    rw [plannedNode, postorder]
    exact removes_node (removes_nodes fun child hchild =>
      ih (shallow_succ.mp hshallow child hchild))

/-! ## The cascade as a whole -/

variable (graph limits)

/-- The steps of planning are admitted. -/
def Plannable (root : ε) : Prop :=
  Admitted graph limits 0 (graph.planSteps (limits.maxDepth + 1) root)

variable {graph limits}

omit [DecidableEq ε] in
theorem plannable_iff : Plannable graph limits root ↔
    Shallow graph.cascadeChildren (limits.maxDepth + 1) root ∧
      (∀ entity ∈ preorder graph.cascadeChildren (limits.maxDepth + 1) root,
        graph.blockedRelations entity = []) ∧
      (preorder graph.cascadeChildren (limits.maxDepth + 1) root).length ≤ limits.maxEntities ∧
      ((preorder graph.cascadeChildren (limits.maxDepth + 1) root).length < limits.maxEntities ∨
        ¬ graph.EndsWithPage limits root) := by
  have hentered := entered_planSteps graph (limits.maxDepth + 1) root
  have hcount : 0 + enteredCount (graph.planSteps (limits.maxDepth + 1) root) =
      (preorder graph.cascadeChildren (limits.maxDepth + 1) root).length := by
    rw [Nat.zero_add, enteredCount, hentered]
  constructor
  · rintro ⟨hshallow, hfree, hfits, hlast⟩
    rw [hentered] at hfree
    rw [hcount] at hfits hlast
    exact ⟨(tooDeep_not_mem_planSteps _ _).mp hshallow, hfree, hfits, hlast⟩
  · rintro ⟨hshallow, hfree, hfits, hlast⟩
    refine ⟨(tooDeep_not_mem_planSteps _ _).mpr hshallow, ?_, ?_, ?_⟩
    · rwa [hentered]
    · rwa [hcount]
    · rwa [hcount]

variable (graph limits) in
/-- How a cascade ends. -/
theorem deleteCascade_cases (root : ε) :
    (Plannable graph limits root ∧ graph.SinglePaths limits root ∧
      ∃ after, graph.deleteCascade limits root {} = (.ok ⟨⟩, after) ∧
        after.deleted = postorder graph.cascadeChildren (limits.maxDepth + 1) root) ∨
    (Plannable graph limits root ∧ ¬ graph.SinglePaths limits root ∧
      ∃ error after, graph.deleteCascade limits root {} = (.error error, after)) ∨
    (¬ Plannable graph limits root ∧
      ∃ error after, graph.deleteCascade limits root {} = (.error error, after) ∧
        after.deleted = []) := by
  have hplan := follows_planCascadeForEntity graph limits (limits.maxDepth + 1) root {} nofun
  have hiff : (∃ after, graph.admitSteps limits 0 (graph.planSteps (limits.maxDepth + 1) root) =
      some after) ↔ Plannable graph limits root := admitSteps_iff (Nat.zero_le _)
  cases hsteps : graph.admitSteps limits ({} : CascadeState ε).entitiesPlanned
    (graph.planSteps (limits.maxDepth + 1) root) with
  | none =>
    rw [hsteps] at hplan
    obtain ⟨error, failed, hrun, hkept⟩ := hplan
    refine .inr (.inr ⟨fun hplannable => ?_, error, failed, ?_, hkept⟩)
    · obtain ⟨after, hafter⟩ := hiff.mpr hplannable
      rw [hsteps] at hafter
      cases hafter
    · rw [deleteCascade, Effect.bind_apply, hrun]
  | some count =>
    rw [hsteps] at hplan
    have hrun : graph.planCascadeForEntity limits (limits.maxDepth + 1) root {} =
      (.ok (graph.plannedNode (limits.maxDepth + 1) root), { entitiesPlanned := count }) := hplan
    have hplannable : Plannable graph limits root := hiff.mp ⟨count, hsteps⟩
    have hshallow := (plannable_iff.mp hplannable).1
    have hperm := postorder_perm_preorder graph.cascadeChildren
      (limits.maxDepth + 1) root
    have hremoves : Removes
        (executeCascadeNodes ((graph.cascadeChildren root).map
          (graph.plannedNode limits.maxDepth)) >>= fun _ => deleteById root)
        (postorder graph.cascadeChildren (limits.maxDepth + 1) root) :=
      removes_bind (removes_nodes fun child hchild =>
        removes_planned (shallow_succ.mp hshallow child hchild)) (removes_deleteById root)
    by_cases hsingle : graph.SinglePaths limits root
    · obtain ⟨after, hdelete, hdeleted⟩ := hremoves.ok { entitiesPlanned := count }
        (hperm.nodup_iff.mpr hsingle)
      refine .inl ⟨hplannable, hsingle, after, ?_, hdeleted⟩
      rw [deleteCascade, Effect.bind_apply, hrun]
      exact hdelete
    · obtain ⟨error, after, hdelete⟩ := hremoves.fails { entitiesPlanned := count } List.nodup_nil
        fun hnodup => hsingle (hperm.nodup_iff.mp hnodup)
      refine .inr (.inl ⟨hplannable, hsingle, error, after, ?_⟩)
      rw [deleteCascade, Effect.bind_apply, hrun]
      exact hdelete

omit [DecidableEq ε] in
/-- What a cascade that is permitted needs to go through. -/
theorem permitted_iff : graph.Permitted limits root ↔
    Shallow graph.cascadeChildren (limits.maxDepth + 1) root ∧
      (∀ entity ∈ preorder graph.cascadeChildren (limits.maxDepth + 1) root,
        graph.blockedRelations entity = []) ∧
      graph.reachableCount root ≤ limits.maxEntities := by
  constructor
  · rintro ⟨hcount, hdepth, hfree⟩
    have hshallow : Shallow graph.cascadeChildren (limits.maxDepth + 1) root :=
      fun j entity hchain => Nat.lt_succ_of_le (hdepth j entity hchain)
    exact ⟨hshallow, fun entity hmem => hfree entity (hshallow.mem_iff.mp hmem), hcount⟩
  · rintro ⟨hshallow, hfree, hcount⟩
    exact ⟨hcount, fun k entity hchain => Nat.le_of_lt_succ (hshallow k entity hchain),
      fun entity hreach => hfree entity (hshallow.mem_iff.mpr hreach)⟩

theorem permitted_of_plannable (h : Plannable graph limits root) : graph.Permitted limits root := by
  obtain ⟨hshallow, hfree, hfits, -⟩ := plannable_iff.mp h
  exact permitted_iff.mpr ⟨hshallow, hfree, hshallow.ncard_le.trans hfits⟩

theorem plannable_of_permitted (hpermitted : graph.Permitted limits root)
    (hsingle : graph.SinglePaths limits root)
    (hlast : graph.reachableCount root < limits.maxEntities ∨ ¬ graph.EndsWithPage limits root) :
    Plannable graph limits root := by
  obtain ⟨hshallow, hfree, hcount⟩ := permitted_iff.mp hpermitted
  have heq : graph.reachableCount root = _ := hshallow.ncard_eq hsingle
  rw [heq] at hcount hlast
  exact plannable_iff.mpr ⟨hshallow, hfree, hcount, hlast⟩

/-- A cascading delete goes right exactly when it is not permitted, or when no entity has two paths
and there is room left for another entity, unless planning does not end with reading a page. -/
theorem deleteCascade_iff (graph : CompositionGraph ι ε) (limits : CascadeLimits) (root : ε) :
    graph.CascadesRightly limits root (graph.deleteCascade limits root {}) ↔
      (graph.Permitted limits root → graph.SinglePaths limits root ∧
        (graph.reachableCount root < limits.maxEntities ∨ ¬ graph.EndsWithPage limits root)) := by
  constructor
  · intro hright hpermitted
    rcases deleteCascade_cases graph limits root with
      ⟨hplannable, hsingle, -⟩ | ⟨-, -, error, after, hrun⟩ | ⟨-, error, after, hrun, -⟩
    · obtain ⟨hshallow, -, -, hlast⟩ := plannable_iff.mp hplannable
      have heq : graph.reachableCount root = _ := hshallow.ncard_eq hsingle
      rw [← heq] at hlast
      exact ⟨hsingle, hlast⟩
    · have hok := hright.accepted.mpr hpermitted
      rw [hrun] at hok
      cases hok
    · have hok := hright.accepted.mpr hpermitted
      rw [hrun] at hok
      cases hok
  · intro hcondition
    rcases deleteCascade_cases graph limits root with
      ⟨hplannable, hsingle, after, hrun, hdeleted⟩ | ⟨hplannable, hdouble, -⟩ |
        ⟨hrefused, error, after, hrun, hnone⟩
    · have hshallow := (plannable_iff.mp hplannable).1
      have hperm := postorder_perm_preorder graph.cascadeChildren
        (limits.maxDepth + 1) root
      rw [hrun]
      refine ⟨iff_of_true rfl (permitted_of_plannable hplannable), ?_, ?_, ?_, ?_⟩
      · intro _ entity
        rw [hdeleted, hperm.mem_iff]
        exact hshallow.mem_iff
      · intro _
        rw [hdeleted]
        exact hperm.nodup_iff.mpr hsingle
      · intro _ before entity later hsplit
        rw [hdeleted] at hsplit
        exact children_before_of_postorder hshallow hsplit
      · intro hrejected
        exact absurd rfl hrejected
    · exact absurd (hcondition (permitted_of_plannable hplannable)).1 hdouble
    · have hnot : ¬ graph.Permitted limits root := fun hpermitted =>
        hrefused (plannable_of_permitted hpermitted (hcondition hpermitted).1
          (hcondition hpermitted).2)
      rw [hrun]
      exact ⟨iff_of_false nofun hnot, nofun, nofun, nofun, fun _ => hnone⟩

/-! ## A shared child, and a cascade that is full -/

/-- A document whose parts share a note, and an order without items. -/
inductive DocumentPart where
  | document
  | header
  | footer
  | note
  | order
  deriving DecidableEq

def cascadeTo (name : String) (type : ComposedType) : ComposedRelation :=
  ⟨name.toList, type, .cascade⟩

def partGraph : CompositionGraph DocumentPart DocumentPart where
  entitySet := id
  related part name :=
    match part with
    | .document => if name = "header".toList then [.header] else [.footer]
    | .header | .footer => [.note]
    | .note | .order => []
  composition
    | .document => [cascadeTo "header" .hasOne, cascadeTo "footer" .hasOne]
    | .header | .footer => [cascadeTo "note" .hasOne]
    | .note => []
    | .order => [cascadeTo "items" .hasMany]
  formatEntityInstance _ := "Parts(1)"

/-- The note is deleted a second time, and an order without items is refused where one entity may be
deleted. -/
theorem deleteCascade_shared_or_full :
    ¬ partGraph.CascadesRightly ⟨8, 5000⟩ .document
        (partGraph.deleteCascade ⟨8, 5000⟩ DocumentPart.document {}) ∧
      ¬ partGraph.CascadesRightly ⟨8, 1⟩ .order
        (partGraph.deleteCascade ⟨8, 1⟩ DocumentPart.order {}) := by
  constructor
  · intro hright
    have hshallow : Shallow partGraph.cascadeChildren 9 DocumentPart.document :=
      (tooDeep_not_mem_planSteps 9 DocumentPart.document).mp (by decide)
    have hpermitted : partGraph.Permitted ⟨8, 5000⟩ .document :=
      permitted_iff.mpr ⟨hshallow, by decide, hshallow.ncard_le.trans (by decide)⟩
    have hfails : (partGraph.deleteCascade ⟨8, 5000⟩ .document {}).1 =
      .error ⟨404, "Entity not found"⟩ := by decide +kernel
    rw [hright.accepted.mpr hpermitted] at hfails
    cases hfails
  · intro hright
    have hsteps : partGraph.planSteps 9 .order = [.enter .order, .readPage] := by
      have hpage : pageSteps (partGraph.planSteps 8) ([] : List DocumentPart) = [.readPage] := by
        rw [pageSteps]
        rfl
      show .enter .order :: (pageSteps (partGraph.planSteps 8) [] ++ []) = _
      rw [hpage]
      rfl
    have hshallow : Shallow partGraph.cascadeChildren 9 DocumentPart.order :=
      (tooDeep_not_mem_planSteps 9 DocumentPart.order).mp (by rw [hsteps]; decide)
    have hpermitted : partGraph.Permitted ⟨8, 1⟩ .order :=
      permitted_iff.mpr ⟨hshallow, by decide, hshallow.ncard_le.trans (by decide)⟩
    have hfull : ¬ Plannable partGraph ⟨8, 1⟩ .order := by
      intro hplannable
      rcases (plannable_iff.mp hplannable).2.2.2 with hroom | hlast
      · revert hroom
        decide
      · exact hlast (by rw [EndsWithPage, hsteps]; rfl)
    rcases deleteCascade_cases partGraph ⟨8, 1⟩ .order with
      ⟨hplannable, -⟩ | ⟨hplannable, -⟩ | ⟨-, error, after, hrun, -⟩
    · exact hfull hplannable
    · exact hfull hplannable
    · have hok := hright.accepted.mpr hpermitted
      rw [hrun] at hok
      cases hok

end CompositionGraph

end LoopbackOData
