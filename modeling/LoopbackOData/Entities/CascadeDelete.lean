import LoopbackOData.Library.Effect
import LoopbackOData.Request

/-!
# Cascading deletes

`planCascadeForEntity` and `executeCascadeNode` of the entity controller, over the entities that the
relation repositories find. The relations are those of a validated configuration: they have a
factory, a foreign key and a registered target. Delete hooks of the other entity sets are left out.
-/

namespace LoopbackOData

set_option autoImplicit false

/-- The relation types that a composition can have. -/
inductive ComposedType where
  | hasMany
  | hasOne
  deriving DecidableEq, Repr

inductive DeletePolicy where
  | restrict
  | cascade
  deriving DecidableEq, Repr

structure ComposedRelation where
  name : Text
  type : ComposedType
  delete : DeletePolicy

/-- The entities of a store by their entity set and key, and the rows of each relation of an
entity, in the order in which the repository finds them. -/
structure CompositionGraph (ι ε : Type) where
  entitySet : ε → ι
  related : ε → Text → List ε
  /-- The relations of `compositionResolved`; none where it is undefined. -/
  composition : ι → List ComposedRelation
  formatEntityInstance : ε → String

structure CascadeLimits where
  maxDepth : Nat
  maxEntities : Nat

/-- The rows that have been deleted are those of the store. -/
structure CascadeState (ε : Type) where
  entitiesPlanned : Nat := 0
  entitiesDeleted : Nat := 0
  visiting : List ε := []
  deleted : List ε := []

inductive CascadeNode (ε : Type) where
  | mk (entity : ε) (children : List (CascadeNode ε))

abbrev CascadeEffect (ε α : Type) := Effect HttpError (CascadeState ε) α

namespace CompositionGraph

variable {ι ε : Type} (graph : CompositionGraph ι ε) (limits : CascadeLimits)

def relationsWith (policy : DeletePolicy) (entity : ε) : List ComposedRelation :=
  (graph.composition (graph.entitySet entity)).filter fun relation => relation.delete = policy

/-- `find({limit: 1})` of a hasMany relation, `get` of a hasOne relation. -/
def blockedRelations (entity : ε) : List Text :=
  ((graph.relationsWith .restrict entity).filter fun relation =>
    !(graph.related entity relation.name).isEmpty).map (·.name)

def ensureNoRestrictChildren (entity : ε) : Except HttpError PUnit :=
  let blocked := graph.blockedRelations entity
  if blocked.isEmpty then .ok ⟨⟩
  else .error ⟨409, "Cannot delete " ++ graph.formatEntityInstance entity ++
    " because composed children exist: " ++ ", ".intercalate (blocked.map String.ofList) ++
    ". Delete children first or enable cascade."⟩

def depthGuardrail : HttpError :=
  ⟨400, "Composition delete exceeds maximum supported depth of " ++ toString limits.maxDepth ++ "."⟩

def maxEntitiesGuardrail : HttpError :=
  ⟨400, "Composition delete exceeds maximum supported entity delete limit of " ++
    toString limits.maxEntities ++ "."⟩

def planEach (plan : ε → CascadeEffect ε (CascadeNode ε)) :
    List ε → CascadeEffect ε (List (CascadeNode ε))
  | [] => pure []
  | child :: children => do
    let node ← plan child
    let nodes ← planEach plan children
    pure (node :: nodes)

/-- The loop over the pages of a hasMany relation, at the rows from the offset on. -/
def planPages (plan : ε → CascadeEffect ε (CascadeNode ε)) (rows : List ε) :
    CascadeEffect ε (List (CascadeNode ε)) := do
  let state ← Effect.get
  if state.entitiesPlanned ≥ limits.maxEntities then Effect.fail (maxEntitiesGuardrail limits)
  else do
    let nodes ← planEach plan (rows.take 1000)
    if rows.length < 1000 then pure nodes
    else do
      let more ← planPages plan (rows.drop 1000)
      pure (nodes ++ more)
termination_by rows.length
decreasing_by rw [List.length_drop]; omega

def planRelation (plan : ε → CascadeEffect ε (CascadeNode ε)) (entity : ε)
    (relation : ComposedRelation) : CascadeEffect ε (List (CascadeNode ε)) :=
  match relation.type with
  | .hasOne => planEach plan (graph.related entity relation.name).head?.toList
  | .hasMany => planPages limits plan (graph.related entity relation.name)

def planRelations (plan : ε → CascadeEffect ε (CascadeNode ε)) (entity : ε) :
    List ComposedRelation → CascadeEffect ε (List (CascadeNode ε))
  | [] => pure []
  | relation :: relations => do
    let nodes ← planRelation graph limits plan entity relation
    let more ← planRelations plan entity relations
    pure (nodes ++ more)

variable [DecidableEq ε]

/-- The levels are those that the depth of the entity leaves of the `maxDepth + 1` there may be. -/
def planCascadeForEntity : Nat → ε → CascadeEffect ε (CascadeNode ε)
  | 0, _ => Effect.fail (depthGuardrail limits)
  | levels + 1, entity => do
    Effect.modify fun state => { state with entitiesPlanned := state.entitiesPlanned + 1 }
    let state ← Effect.get
    if state.entitiesPlanned > limits.maxEntities then Effect.fail (maxEntitiesGuardrail limits)
    else if entity ∈ state.visiting then
      Effect.fail ⟨400, "Composition cascade detected a cycle in configured relations."⟩
    else do
      Effect.modify fun state => { state with visiting := entity :: state.visiting }
      Effect.ensuring
        (do
          Effect.ofExcept (graph.ensureNoRestrictChildren entity)
          let children ← graph.planRelations limits (planCascadeForEntity levels) entity
            (graph.relationsWith .cascade entity)
          pure (.mk entity children))
        fun state => { state with visiting := state.visiting.erase entity }

/-- `deleteById` of the repository of the entity set. -/
def deleteById (entity : ε) : CascadeEffect ε PUnit :=
  Effect.advance fun state =>
    if entity ∈ state.deleted then .error ⟨404, "Entity not found"⟩
    else .ok { state with deleted := state.deleted ++ [entity] }

mutual

def executeCascadeNode : CascadeNode ε → CascadeEffect ε PUnit
  | .mk entity children => do
    executeCascadeNodes children
    deleteById entity
    Effect.modify fun state => { state with entitiesDeleted := state.entitiesDeleted + 1 }

def executeCascadeNodes : List (CascadeNode ε) → CascadeEffect ε PUnit
  | [] => pure ⟨⟩
  | node :: nodes => do
    executeCascadeNode node
    executeCascadeNodes nodes

end

/-- The cascade of `delete`: the root is deleted after the nodes below it. -/
def deleteCascade (root : ε) : CascadeEffect ε PUnit := do
  let (.mk _ children) ← graph.planCascadeForEntity limits (limits.maxDepth + 1) root
  executeCascadeNodes children
  deleteById root

end CompositionGraph

end LoopbackOData
