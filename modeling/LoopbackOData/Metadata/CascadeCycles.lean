import LoopbackOData.Entities.CascadeDelete
import LoopbackOData.Library.Cycles
import LoopbackOData.Library.Outcome
import LoopbackOData.Metadata.Registry

/-!
# Cascade cycles between entity sets

`validateCompositionCascadeCycles`, run over the registry when the application boots: a depth-first
search of the entity sets that a delete cascades to. In strict mode the first cycle is an error,
otherwise each is reported to the logger. Entity sets are known by their names.
-/

namespace LoopbackOData

namespace Metadata

set_option autoImplicit false

open Cycles

/-! ## The graph of the cascades -/

inductive CompositionEnforcement where
  | database
  | application
  deriving DecidableEq

/-- `ODataCompositionResolvedConfig`, as far as the search reads it. -/
structure CompositionResolved where
  enforcement : CompositionEnforcement
  relations : Dictionary Text DeletePolicy

/-- What `target` of a relation is: a function that returns a model class or throws, or none. A
class that is not behind a function throws when it is called. -/
inductive RelationTarget where
  | missing
  | throws
  | returns (modelCtor : Option Nat)

def RelationTarget.targetCtor : RelationTarget → Option Nat
  | .returns modelCtor => modelCtor
  | _ => none

/-- `compositionResolved` of the registered definitions, and the targets of the relations that the
model definitions have. -/
structure CompositionModels (ν : Type) where
  compositionResolved : ν → CompositionResolved
  relations : Nat → Dictionary Text RelationTarget

/-- The field `to` of the source is `target` here. -/
structure CascadeEdge where
  target : Text
  via : Text

section Graph

variable {ν : Type} (models : CompositionModels ν) (registry : EntitySetRegistry ν)

/-- The composition of an entity set that the application enforces. -/
def enforcedComposition (set : EntitySetDef ν) : Option CompositionResolved :=
  match set.get .compositionResolved with
  | .other value =>
    if (models.compositionResolved value).enforcement = .application then
      some (models.compositionResolved value)
    else none
  | _ => none

def cascadeEdge (set : EntitySetDef ν) (relation : Text × DeletePolicy) : Option CascadeEdge :=
  if relation.2 ≠ .cascade then none
  else do
    let target ← Dictionary.get (models.relations set.modelCtor) relation.1
    let targetCtor ← target.targetCtor
    let targetDef ← Dictionary.get registry.sets targetCtor
    some { target := targetDef.name, via := set.name ++ ".".toList ++ relation.1 }

def cascadeEdges (set : EntitySetDef ν) : List CascadeEdge :=
  match enforcedComposition models set with
  | none => []
  | some resolved => resolved.relations.filterMap (cascadeEdge models registry set)

abbrev Adjacency := Dictionary Text (List CascadeEdge)

def Adjacency.edges (adjacency : Adjacency) (node : Text) : List CascadeEdge :=
  (Dictionary.get adjacency node).getD []

def Adjacency.push (source : Text) (adjacency : Adjacency) (edge : CascadeEdge) : Adjacency :=
  Dictionary.set adjacency source (adjacency.edges source ++ [edge])

def cascadeAdjacency : Adjacency :=
  registry.list.foldl
    (fun adjacency set => (cascadeEdges models registry set).foldl (Adjacency.push set.name)
      adjacency)
    Dictionary.empty

/-- A delete of an entity of the one set cascades to entities of the other. -/
inductive Cascades : Text → Text → Prop where
  | mk {source target : EntitySetDef ν} {resolved : CompositionResolved} {relation : Text}
      {relationTarget : RelationTarget} {targetCtor : Nat}
      (hsource : source ∈ registry.list)
      (hresolved : enforcedComposition models source = some resolved)
      (hrelation : (relation, DeletePolicy.cascade) ∈ resolved.relations)
      (hmeta : Dictionary.get (models.relations source.modelCtor) relation = some relationTarget)
      (hctor : relationTarget.targetCtor = some targetCtor)
      (htarget : Dictionary.get registry.sets targetCtor = some target) :
      Cascades source.name target.name

end Graph

/-! ## The search -/

inductive VisitState where
  | visiting
  | done
  deriving DecidableEq

structure CycleSearch where
  visitState : Dictionary Text VisitState := Dictionary.empty
  stack : List Text := []
  edgeStack : List Text := []
  /-- The cycles that the logger is told of. -/
  warnings : List (List Text) := []

namespace CycleSearch

/-- What a search ends with; it has no result while it needs more fuel. -/
abbrev Run := Option (Except String CycleSearch)

def enter (search : CycleSearch) (node : Text) : CycleSearch :=
  { search with
    visitState := Dictionary.set search.visitState node .visiting
    stack := search.stack ++ [node] }

def leave (search : CycleSearch) (node : Text) : CycleSearch :=
  { search with
    visitState := Dictionary.set search.visitState node .done
    stack := search.stack.dropLast }

def pushEdge (search : CycleSearch) (via : Text) : CycleSearch :=
  { search with edgeStack := search.edgeStack ++ [via] }

def popEdge (search : CycleSearch) : CycleSearch :=
  { search with edgeStack := search.edgeStack.dropLast }

/-- `edgeStack.slice(startIndex).concat(via)`; `slice(-1)` is the last element. -/
def cycleLabels (search : CycleSearch) (edge : CascadeEdge) : List Text :=
  let startIndex := (search.stack.findIdx? fun node => node = edge.target).getD
    (search.edgeStack.length - 1)
  search.edgeStack.drop startIndex ++ [edge.via]

def report (strict : Bool) (search : CycleSearch) (cycle : List Text) :
    Except String CycleSearch :=
  if strict then
    .error ("Composition cascade cycle detected: " ++
      " -> ".intercalate (cycle.map String.ofList))
  else .ok { search with warnings := search.warnings ++ [cycle] }

/-- The loop over the edges of a node; `visit` is the search of a node that is new. -/
def visitEdges (strict : Bool) (visit : Text → CycleSearch → Run) :
    List CascadeEdge → CycleSearch → Run
  | [], search => some (.ok search)
  | edge :: edges, search =>
    match Dictionary.get search.visitState edge.target with
    | some .visiting =>
      match report strict search (search.cycleLabels edge) with
      | .error message => some (.error message)
      | .ok search => visitEdges strict visit edges search
    | some .done => visitEdges strict visit edges search
    | none =>
      match visit edge.target (search.pushEdge edge.via) with
      | none => none
      | some (.error message) => some (.error message)
      | some (.ok search) => visitEdges strict visit edges search.popEdge

def dfs (strict : Bool) (adjacency : Adjacency) : Nat → Text → CycleSearch → Run
  | 0, _, _ => none
  | fuel + 1, node, search =>
    match visitEdges strict (dfs strict adjacency fuel) (adjacency.edges node)
        (search.enter node) with
    | none => none
    | some (.error message) => some (.error message)
    | some (.ok search) => some (.ok (search.leave node))

/-- The loop over `adjacency.keys()`. -/
def searchAll (strict : Bool) (adjacency : Adjacency) (fuel : Nat) :
    List Text → CycleSearch → Run
  | [], search => some (.ok search)
  | node :: nodes, search =>
    if (Dictionary.get search.visitState node).isSome then
      searchAll strict adjacency fuel nodes search
    else
      match dfs strict adjacency fuel node search with
      | none => none
      | some (.error message) => some (.error message)
      | some (.ok search) => searchAll strict adjacency fuel nodes search

end CycleSearch

/-- It throws the error, or returns after the warnings. -/
def validateCompositionCascadeCycles {ν : Type} (models : CompositionModels ν)
    (registry : EntitySetRegistry ν) (strict : Bool) (fuel : Nat) :
    Option (Except String (List (List Text))) :=
  let adjacency := cascadeAdjacency models registry
  (CycleSearch.searchAll strict adjacency fuel (adjacency.map Prod.fst) {}).map fun result =>
    result.map CycleSearch.warnings

/-! ## The adjacency is the graph -/

section Adjacency

variable {ν : Type} {models : CompositionModels ν} {registry : EntitySetRegistry ν}
  {adjacency : Adjacency} {edge : CascadeEdge}

theorem Adjacency.mem_edges_push {source node : Text} {pushed : CascadeEdge} :
    edge ∈ (adjacency.push source pushed).edges node ↔
      edge ∈ adjacency.edges node ∨ node = source ∧ edge = pushed := by
  unfold Adjacency.push
  rw [Adjacency.edges, Dictionary.get_set]
  by_cases h : source = node
  · subst h
    simp
  · rw [if_neg h, ← Adjacency.edges]
    simp [Ne.symm h]

theorem Adjacency.mem_edges_foldl_push {source node : Text} {edges : List CascadeEdge} :
    edge ∈ (edges.foldl (Adjacency.push source) adjacency).edges node ↔
      edge ∈ adjacency.edges node ∨ node = source ∧ edge ∈ edges := by
  induction edges generalizing adjacency with
  | nil => simp
  | cons first edges ih =>
    rw [List.foldl_cons, ih, Adjacency.mem_edges_push, List.mem_cons]
    tauto

theorem mem_edges_foldl_sets {sets : List (EntitySetDef ν)} {node : Text} :
    edge ∈ (sets.foldl (fun adjacency set =>
        (cascadeEdges models registry set).foldl (Adjacency.push set.name) adjacency)
      adjacency).edges node ↔
      edge ∈ adjacency.edges node ∨
        ∃ set ∈ sets, set.name = node ∧ edge ∈ cascadeEdges models registry set := by
  induction sets generalizing adjacency with
  | nil => simp
  | cons set sets ih =>
    rw [List.foldl_cons, ih, Adjacency.mem_edges_foldl_push, or_assoc, List.exists_mem_cons_iff,
      eq_comm]

theorem mem_edges_cascadeAdjacency {node : Text} :
    edge ∈ (cascadeAdjacency models registry).edges node ↔
      ∃ set ∈ registry.list, set.name = node ∧ edge ∈ cascadeEdges models registry set := by
  rw [cascadeAdjacency, mem_edges_foldl_sets]
  simp [Adjacency.edges]

theorem cascadeEdge_eq_some_iff {set : EntitySetDef ν} {relation : Text × DeletePolicy} :
    cascadeEdge models registry set relation = some edge ↔
      relation.2 = .cascade ∧ ∃ relationTarget targetCtor targetDef,
        Dictionary.get (models.relations set.modelCtor) relation.1 = some relationTarget ∧
        relationTarget.targetCtor = some targetCtor ∧
        Dictionary.get registry.sets targetCtor = some targetDef ∧
        edge = { target := targetDef.name, via := set.name ++ ".".toList ++ relation.1 } := by
  unfold cascadeEdge
  split
  next h => simp [h]
  next h =>
    rw [not_not] at h
    simp only [h, true_and, Option.bind_eq_bind, Option.bind_eq_some_iff, Option.some.injEq]
    constructor
    · rintro ⟨relationTarget, hmeta, targetCtor, hctor, targetDef, htarget, rfl⟩
      exact ⟨relationTarget, targetCtor, targetDef, hmeta, hctor, htarget, rfl⟩
    · rintro ⟨relationTarget, targetCtor, targetDef, hmeta, hctor, htarget, rfl⟩
      exact ⟨relationTarget, hmeta, targetCtor, hctor, targetDef, htarget, rfl⟩

theorem mem_cascadeEdges {set : EntitySetDef ν} :
    edge ∈ cascadeEdges models registry set ↔
      ∃ resolved, enforcedComposition models set = some resolved ∧
        ∃ relation ∈ resolved.relations, cascadeEdge models registry set relation = some edge := by
  unfold cascadeEdges
  cases enforcedComposition models set with
  | none => simp
  | some resolved => simp [List.mem_filterMap]

theorem edge_iff_cascades {source target : Text} :
    (∃ edge ∈ (cascadeAdjacency models registry).edges source, edge.target = target) ↔
      Cascades models registry source target := by
  constructor
  · rintro ⟨edge, hedge, rfl⟩
    obtain ⟨set, hset, rfl, hof⟩ := mem_edges_cascadeAdjacency.mp hedge
    obtain ⟨resolved, hresolved, ⟨relation, policy⟩, hrelation, hfrom⟩ := mem_cascadeEdges.mp hof
    obtain ⟨rfl, _, _, targetDef, hmeta, hctor, htarget, rfl⟩ := cascadeEdge_eq_some_iff.mp hfrom
    exact .mk hset hresolved hrelation hmeta hctor htarget
  · rintro ⟨hsource, hresolved, hrelation, hmeta, hctor, htarget⟩
    refine ⟨_, mem_edges_cascadeAdjacency.mpr ⟨_, hsource, rfl, mem_cascadeEdges.mpr
      ⟨_, hresolved, _, hrelation, cascadeEdge_eq_some_iff.mpr
        ⟨rfl, _, _, _, hmeta, hctor, htarget, rfl⟩⟩⟩, rfl⟩

end Adjacency

/-! ## The search finds the cycles -/

namespace CycleSearch

/-- An edge of the adjacency that the search runs over. -/
def Leads (adjacency : Adjacency) (source target : Text) : Prop :=
  ∃ edge ∈ adjacency.edges source, edge.target = target

def Visiting (search : CycleSearch) (node : Text) : Prop :=
  Dictionary.get search.visitState node = some .visiting

def Done (search : CycleSearch) (node : Text) : Prop :=
  Dictionary.get search.visitState node = some .done

def visited (search : CycleSearch) : List Text := search.visitState.map Prod.fst

/-- Between two steps: the nodes being visited are the path on the stack, and in strict mode those
that are done are settled. -/
structure Consistent (strict : Bool) (adjacency : Adjacency) (search : CycleSearch) : Prop where
  onStack : ∀ node, search.Visiting node ↔ node ∈ search.stack
  path : search.stack.IsChain (Leads adjacency)
  settled : strict = true → Settled (Leads adjacency) search.Done

/-- What a part of the search keeps. -/
structure Extends (before after : CycleSearch) : Prop where
  stack : after.stack = before.stack
  visiting : ∀ node, before.Visiting node → after.Visiting node
  done : ∀ node, before.Done node → after.Done node

/-- A run that has enough fuel: it fails at a cycle in strict mode, or ends in a state with the
postcondition. -/
def Finishes (strict : Bool) (adjacency : Adjacency) (post : CycleSearch → Prop) (run : Run) :
    Prop :=
  ∃ result, run = some result ∧
    Outcome.Ends (fun _ => strict = true ∧ Cyclic (Leads adjacency)) post result

variable {strict : Bool} {adjacency : Adjacency} {search search' search'' : CycleSearch}
  {node : Text}

theorem Extends.refl : Extends search search := ⟨rfl, fun _ h => h, fun _ h => h⟩

theorem Extends.trans (h : Extends search search') (h' : Extends search' search'') :
    Extends search search'' where
  stack := h'.stack.trans h.stack
  visiting := fun node hnode => h'.visiting node (h.visiting node hnode)
  done := fun node hnode => h'.done node (h.done node hnode)

theorem mem_visited : node ∈ search.visited ↔ search.Visiting node ∨ search.Done node := by
  have hhas : node ∈ search.visited ↔ ∃ state, Dictionary.get search.visitState node = some state :=
    by
      rw [← Dictionary.has_iff, Dictionary.has, List.any_eq_true, visited, List.mem_map]
      simp
  rw [hhas]
  constructor
  · rintro ⟨state, hstate⟩
    cases state with
    | visiting => exact .inl hstate
    | done => exact .inr hstate
  · rintro (h | h)
    · exact ⟨_, h⟩
    · exact ⟨_, h⟩

theorem Extends.mem_visited (h : Extends search search') (hnode : node ∈ search.visited) :
    node ∈ search'.visited := by
  rw [CycleSearch.mem_visited] at hnode ⊢
  exact hnode.imp (h.visiting node) (h.done node)

theorem unvisited_le_of_extends (nodes : List Text) (h : Extends search search') :
    (unvisited nodes search'.visited).length ≤ (unvisited nodes search.visited).length :=
  unvisited_length_le fun _ => h.mem_visited

/-! ### Entering and leaving a node -/

theorem visiting_enter {other : Text} :
    (search.enter node).Visiting other ↔ other = node ∨ search.Visiting other := by
  rw [Visiting, enter, Dictionary.get_set, Visiting]
  split
  next h => simp [h]
  next h => simp [Ne.symm h]

theorem done_enter {other : Text} :
    (search.enter node).Done other ↔ other ≠ node ∧ search.Done other := by
  rw [Done, enter, Dictionary.get_set, Done]
  split
  next h => simp [h]
  next h => simp [Ne.symm h]

theorem visiting_leave {other : Text} :
    (search.leave node).Visiting other ↔ other ≠ node ∧ search.Visiting other := by
  rw [Visiting, leave, Dictionary.get_set, Visiting]
  split
  next h => simp [h]
  next h => simp [Ne.symm h]

theorem done_leave {other : Text} :
    (search.leave node).Done other ↔ other = node ∨ search.Done other := by
  rw [Done, leave, Dictionary.get_set, Done]
  split
  next h => simp [h]
  next h => simp [Ne.symm h]

theorem Consistent.enter (h : Consistent strict adjacency search) (hnew : node ∉ search.visited)
    (hpath : (search.stack ++ [node]).IsChain (Leads adjacency)) :
    Consistent strict adjacency (search.enter node) where
  onStack := by
    intro other
    rw [visiting_enter, h.onStack, CycleSearch.enter, List.mem_append, List.mem_singleton,
      or_comm]
  path := hpath
  settled := by
    intro hstrict
    have hdone : (search.enter node).Done = search.Done := by
      funext other
      refine propext (done_enter.trans ⟨And.right, fun hother => ⟨?_, hother⟩⟩)
      rintro rfl
      exact hnew (mem_visited.mpr (.inr hother))
    rw [hdone]
    exact h.settled hstrict

/-- A node that leads to nodes that are done only, left after it was entered. -/
theorem Consistent.leave (h : Consistent strict adjacency search')
    (hstack : search'.stack = search.stack ++ [node]) (hnew : node ∉ search.stack)
    (hnext : strict = true → ∀ target, Leads adjacency node target → search'.Done target) :
    Consistent strict adjacency (search'.leave node) where
  onStack := by
    intro other
    rw [visiting_leave, h.onStack, hstack, CycleSearch.leave, hstack, List.dropLast_concat,
      List.mem_append, List.mem_singleton]
    constructor
    · rintro ⟨hne, hmem | heq⟩
      · exact hmem
      · exact absurd heq hne
    · intro hmem
      refine ⟨?_, .inl hmem⟩
      rintro rfl
      exact hnew hmem
  path := h.path.dropLast
  settled := by
    intro hstrict
    have hnode : ¬ search'.Done node := by
      intro hdone
      have hvisiting : search'.Visiting node := (h.onStack node).mpr (by rw [hstack]; simp)
      rw [Done, hvisiting] at hdone
      cases hdone
    have hdone : (search'.leave node).Done = fun other => other = node ∨ search'.Done other := by
      funext other
      exact propext done_leave
    rw [hdone]
    exact (h.settled hstrict).insert hnode (hnext hstrict)

/-! ### A run of the search -/

theorem Finishes.mono {post post' : CycleSearch → Prop} {run : Run}
    (h : Finishes strict adjacency post run) (himp : ∀ search, post search → post' search) :
    Finishes strict adjacency post' run := by
  obtain ⟨result, hrun, hends⟩ := h
  exact ⟨result, hrun, hends.mono himp⟩

/-- What the search of a new node comes to. -/
def Searched (strict : Bool) (adjacency : Adjacency) (before : CycleSearch) (node : Text)
    (after : CycleSearch) : Prop :=
  Consistent strict adjacency after ∧ Extends before after ∧ after.Done node

/-- Where a node can be searched from: it is new, and the path leads to it. -/
structure Reaches (strict : Bool) (adjacency : Adjacency) (search : CycleSearch) (node : Text) :
    Prop where
  consistent : Consistent strict adjacency search
  new : node ∉ search.visited
  path : (search.stack ++ [node]).IsChain (Leads adjacency)

theorem finishes_report {post : CycleSearch → Prop} {cycle : List Text} {next : CycleSearch → Run}
    (hcycle : Cyclic (Leads adjacency))
    (hnext : strict = false → Finishes strict adjacency post
      (next { search with warnings := search.warnings ++ [cycle] })) :
    Finishes strict adjacency post
      (match report strict search cycle with
        | .error message => some (.error message)
        | .ok search => next search) := by
  cases strict with
  | true => exact ⟨_, rfl, rfl, hcycle⟩
  | false => exact hnext rfl

theorem Consistent.of_eq (h : Consistent strict adjacency search)
    (hstate : search'.visitState = search.visitState) (hstack : search'.stack = search.stack) :
    Consistent strict adjacency search' where
  onStack := by
    intro other
    rw [Visiting, hstate, hstack]
    exact h.onStack other
  path := hstack ▸ h.path
  settled := by
    intro hstrict
    have hdone : search'.Done = search.Done := by
      funext other
      rw [Done, Done, hstate]
    exact hdone ▸ h.settled hstrict

theorem Extends.of_eq (hstate : search'.visitState = search.visitState)
    (hstack : search'.stack = search.stack) : Extends search search' where
  stack := hstack
  visiting := fun node h => by rwa [Visiting, hstate]
  done := fun node h => by rwa [Done, hstate]

/-- The nodes of a graph that a search has to have fuel for. -/
def Covers (nodes : List Text) (adjacency : Adjacency) : Prop :=
  ∀ source target, Leads adjacency source target → target ∈ nodes

section Run

variable {nodes : List Text} {fuel : Nat} {path : List Text}

/-- The search of a node that is new, whatever state it is reached in, if the fuel is enough. -/
def Visits (strict : Bool) (adjacency : Adjacency) (nodes : List Text) (fuel : Nat)
    (visit : Text → CycleSearch → Run) : Prop :=
  ∀ node search, Reaches strict adjacency search node → node ∈ nodes →
    (unvisited nodes search.visited).length ≤ fuel →
    Finishes strict adjacency (Searched strict adjacency search node) (visit node search)

/-- The loop over the edges of the node at the end of the path. -/
theorem finishes_visitEdges (hcovers : Covers nodes adjacency)
    {visit : Text → CycleSearch → Run} (hvisit : Visits strict adjacency nodes fuel visit)
    {edges : List CascadeEdge} (hedges : ∀ edge ∈ edges, edge ∈ adjacency.edges node)
    (h : Consistent strict adjacency search) (hstack : search.stack = path ++ [node])
    (hfuel : (unvisited nodes search.visited).length ≤ fuel) :
    Finishes strict adjacency
      (fun after => Consistent strict adjacency after ∧ Extends search after ∧
        (strict = true → ∀ edge ∈ edges, after.Done edge.target))
      (visitEdges strict visit edges search) := by
  induction edges generalizing search with
  | nil => exact ⟨_, rfl, h, .refl, fun _ _ hedge => absurd hedge List.not_mem_nil⟩
  | cons edge edges ih =>
    have hleads : Leads adjacency node edge.target := ⟨edge, hedges edge (by simp), rfl⟩
    have hrest : ∀ other ∈ edges, other ∈ adjacency.edges node := fun other hother =>
      hedges other (List.mem_cons_of_mem _ hother)
    -- how the loop goes on in a state where the edge has been dealt with
    have hloop : ∀ next, Consistent strict adjacency next → Extends search next →
        (strict = true → next.Done edge.target) →
        Finishes strict adjacency
          (fun after => Consistent strict adjacency after ∧ Extends search after ∧
            (strict = true → ∀ other ∈ edge :: edges, after.Done other.target))
          (visitEdges strict visit edges next) := by
      intro next hnext hextends hdone
      refine (ih hrest hnext (hextends.stack.trans hstack)
        ((unvisited_le_of_extends nodes hextends).trans hfuel)).mono ?_
      rintro after ⟨hafter, hextends', hall⟩
      refine ⟨hafter, hextends.trans hextends', fun hstrict other hother => ?_⟩
      rcases List.mem_cons.mp hother with rfl | hother
      · exact hextends'.done _ (hdone hstrict)
      · exact hall hstrict other hother
    rw [visitEdges]
    split
    next hstate =>
      -- the node lies on the path: the edge closes a cycle
      have hcycle : Cyclic (Leads adjacency) := by
        refine cyclic_of_path (hstack ▸ h.path) ?_ hleads
        rw [← hstack]
        exact (h.onStack _).mp hstate
      refine finishes_report hcycle fun hstrict => ?_
      refine hloop _ (h.of_eq rfl rfl) (.of_eq rfl rfl) fun hstrict' => ?_
      rw [hstrict] at hstrict'
      cases hstrict'
    next hstate => exact hloop search h .refl fun _ => hstate
    next hstate =>
      have hreaches : Reaches strict adjacency (search.pushEdge edge.via) edge.target := by
        refine ⟨h.of_eq rfl rfl, ?_, ?_⟩
        · rw [mem_visited, Visiting, Done, pushEdge, hstate]
          simp
        · change (search.stack ++ [edge.target]).IsChain (Leads adjacency)
          refine h.path.append (List.isChain_singleton _) ?_
          rw [hstack, List.getLast?_concat]
          intro last hlast first hfirst
          rw [← Option.mem_some_iff.mp hlast, ← Option.mem_some_iff.mp hfirst]
          exact hleads
      obtain ⟨result, hrun, hends⟩ := hvisit edge.target _ hreaches (hcovers _ _ hleads) hfuel
      rw [hrun]
      cases result with
      | error message => exact ⟨_, rfl, hends⟩
      | ok next =>
        obtain ⟨hnext, hextends, hdone⟩ := hends
        have hextends' : Extends search next.popEdge := ⟨hextends.stack, hextends.visiting,
          hextends.done⟩
        exact hloop next.popEdge (hnext.of_eq rfl rfl) hextends' fun _ => hdone

/-- Each node that is entered leaves one node less to visit. -/
theorem visits_dfs (hcovers : Covers nodes adjacency) (fuel : Nat) :
    Visits strict adjacency nodes fuel (dfs strict adjacency fuel) := by
  induction fuel with
  | zero =>
    intro node search hreaches hnode hfuel
    have hlt := unvisited_length_lt hnode hreaches.new
    omega
  | succ fuel ih =>
    intro node search hreaches hnode hfuel
    have hvisited : ∀ other, other ∈ node :: search.visited → other ∈ (search.enter node).visited := by
      intro other hother
      rw [mem_visited, visiting_enter, done_enter]
      rcases List.mem_cons.mp hother with rfl | hother
      · exact .inl (.inl rfl)
      · by_cases heq : other = node
        · exact .inl (.inl heq)
        · exact (mem_visited.mp hother).imp .inr fun hdone => ⟨heq, hdone⟩
    have hfuel' : (unvisited nodes (search.enter node).visited).length ≤ fuel := by
      have hle := @unvisited_length_le _ _ nodes _ _ hvisited
      have hlt := unvisited_length_lt hnode hreaches.new
      omega
    have hnew : node ∉ search.stack := fun hmem =>
      hreaches.new (mem_visited.mpr (.inl ((hreaches.consistent.onStack node).mpr hmem)))
    obtain ⟨result, hrun, hends⟩ := finishes_visitEdges hcovers ih (fun _ hedge => hedge)
      (hreaches.consistent.enter hreaches.new hreaches.path) rfl hfuel'
    rw [dfs, hrun]
    cases result with
    | error message => exact ⟨_, rfl, hends⟩
    | ok after =>
      obtain ⟨hafter, hextends, hall⟩ := hends
      refine ⟨_, rfl, ?_, ⟨?_, ?_, ?_⟩, done_leave.mpr (.inl rfl)⟩
      · refine hafter.leave hextends.stack hnew ?_
        rintro hstrict target ⟨edge, hedge, rfl⟩
        exact hall hstrict edge hedge
      · change after.stack.dropLast = search.stack
        rw [hextends.stack, enter, List.dropLast_concat]
      · intro other hother
        refine visiting_leave.mpr ⟨?_, hextends.visiting other (visiting_enter.mpr (.inr hother))⟩
        rintro rfl
        exact hnew ((hreaches.consistent.onStack _).mp hother)
      · intro other hother
        by_cases heq : other = node
        · exact done_leave.mpr (.inl heq)
        · exact done_leave.mpr (.inr (hextends.done other (done_enter.mpr ⟨heq, hother⟩)))

/-- Outside of the search of a node the stack is empty. -/
theorem finishes_searchAll (hcovers : Covers nodes adjacency) {roots : List Text}
    (hroots : ∀ root ∈ roots, root ∈ nodes) (hfuel : nodes.length ≤ fuel)
    (h : Consistent strict adjacency search) (hstack : search.stack = []) :
    Finishes strict adjacency
      (fun after => Consistent strict adjacency after ∧ Extends search after ∧
        ∀ root ∈ roots, after.Done root)
      (searchAll strict adjacency fuel roots search) := by
  induction roots generalizing search with
  | nil => exact ⟨_, rfl, h, .refl, fun _ hroot => absurd hroot List.not_mem_nil⟩
  | cons root roots ih =>
    have hrest : ∀ other ∈ roots, other ∈ nodes := fun other hother =>
      hroots other (List.mem_cons_of_mem _ hother)
    have hloop : ∀ next, Consistent strict adjacency next → Extends search next →
        next.Done root →
        Finishes strict adjacency
          (fun after => Consistent strict adjacency after ∧ Extends search after ∧
            ∀ other ∈ root :: roots, after.Done other)
          (searchAll strict adjacency fuel roots next) := by
      intro next hnext hextends hdone
      refine (ih hrest hnext (hextends.stack.trans hstack)).mono ?_
      rintro after ⟨hafter, hextends', hall⟩
      refine ⟨hafter, hextends.trans hextends', fun other hother => ?_⟩
      rcases List.mem_cons.mp hother with rfl | hother
      · exact hextends'.done _ hdone
      · exact hall other hother
    have hvisiting : ¬ search.Visiting root := by
      rw [h.onStack, hstack]
      exact List.not_mem_nil
    rw [searchAll]
    split
    next hstate =>
      refine hloop search h .refl ?_
      obtain ⟨state, hstate⟩ := Option.isSome_iff_exists.mp hstate
      cases state with
      | visiting => exact absurd hstate hvisiting
      | done => exact hstate
    next hstate =>
      have hnew : root ∉ search.visited := by
        rw [Option.not_isSome_iff_eq_none] at hstate
        rw [mem_visited, Visiting, Done, hstate]
        simp
      have hreaches : Reaches strict adjacency search root :=
        ⟨h, hnew, by rw [hstack]; exact List.isChain_singleton _⟩
      obtain ⟨result, hrun, hends⟩ := visits_dfs hcovers fuel root search hreaches
        (hroots root (by simp)) ((List.length_filter_le _ _).trans hfuel)
      rw [hrun]
      cases result with
      | error message => exact ⟨_, rfl, hends⟩
      | ok next => exact hloop next hends.1 hends.2.1 hends.2.2

end Run

theorem consistent_start : Consistent strict adjacency {} where
  onStack := fun node => by simp [Visiting]
  path := List.isChain_nil
  settled := fun _ => by
    have hdone : ({} : CycleSearch).Done = fun _ => False := by
      funext node
      simp [Done]
    rw [hdone]
    exact .none

/-- The nodes that a search can come to. -/
def searchNodes (adjacency : Adjacency) : List Text :=
  adjacency.map Prod.fst ++ adjacency.flatMap fun entry => entry.2.map CascadeEdge.target

theorem mem_keys_of_leads {source target : Text} (h : Leads adjacency source target) :
    source ∈ adjacency.map Prod.fst := by
  obtain ⟨edge, hedge, -⟩ := h
  by_contra hmem
  rw [Adjacency.edges, Dictionary.get_eq_none_of_not_mem hmem] at hedge
  exact absurd hedge List.not_mem_nil

theorem covers_searchNodes : Covers (searchNodes adjacency) adjacency := by
  rintro source target ⟨edge, hedge, rfl⟩
  rw [Adjacency.edges] at hedge
  cases hget : Dictionary.get adjacency source with
  | none =>
    rw [hget] at hedge
    exact absurd hedge List.not_mem_nil
  | some edges =>
    rw [hget] at hedge
    obtain ⟨before, after, hsplit, -⟩ := Dictionary.get_eq_some_iff.mp hget
    refine List.mem_append_right _ (List.mem_flatMap.mpr ⟨(source, edges), ?_, ?_⟩)
    · rw [hsplit]
      simp
    · exact List.mem_map_of_mem hedge

/-- A search with enough fuel ends; in strict mode it fails at a cycle and only there. -/
theorem searchAll_ends {fuel : Nat} (hfuel : (searchNodes adjacency).length ≤ fuel) :
    ∃ result, searchAll strict adjacency fuel (adjacency.map Prod.fst) {} = some result ∧
      ((∃ message, result = .error message) ↔ strict = true ∧ Cyclic (Leads adjacency)) := by
  obtain ⟨result, hrun, hends⟩ := @finishes_searchAll strict _ _ _ _ covers_searchNodes _
    (fun root hroot => List.mem_append_left _ hroot) hfuel consistent_start rfl
  refine ⟨result, hrun, ?_⟩
  cases result with
  | error message => exact ⟨fun _ => hends, fun _ => ⟨message, rfl⟩⟩
  | ok after =>
    obtain ⟨hafter, -, hall⟩ := hends
    constructor
    · rintro ⟨message, hmessage⟩
      cases hmessage
    · rintro ⟨hstrict, hcyclic⟩
      refine absurd hcyclic ((hafter.settled hstrict).not_cyclic fun source target hleads => ?_)
      exact hall source (mem_keys_of_leads hleads)

end CycleSearch

/-- In strict mode the validation throws if and only if the cascades have a cycle, otherwise never;
from some amount of fuel on it always ends. -/
theorem validateCompositionCascadeCycles_throws_iff {ν : Type} (models : CompositionModels ν)
    (registry : EntitySetRegistry ν) :
    ∃ enough, ∀ fuel ≥ enough, ∀ strict, ∃ result,
      validateCompositionCascadeCycles models registry strict fuel = some result ∧
      ((∃ message, result = .error message) ↔
        strict = true ∧ ∃ set, Relation.TransGen (Cascades models registry) set set) := by
  refine ⟨(CycleSearch.searchNodes (cascadeAdjacency models registry)).length,
    fun fuel hfuel strict => ?_⟩
  have hgraph : CycleSearch.Leads (cascadeAdjacency models registry)
      = Cascades models registry := by
    funext source target
    exact propext edge_iff_cascades
  obtain ⟨result, hrun, hthrows⟩ := @CycleSearch.searchAll_ends strict _ _ hfuel
  rw [hgraph] at hthrows
  refine ⟨result.map CycleSearch.warnings, by rw [validateCompositionCascadeCycles, hrun]; rfl, ?_⟩
  rw [← Cyclic, ← hthrows]
  cases result with
  | error message => exact ⟨fun _ => ⟨message, rfl⟩, fun _ => ⟨message, rfl⟩⟩
  | ok after =>
    constructor
    · rintro ⟨message, hmessage⟩
      cases hmessage
    · rintro ⟨message, hmessage⟩
      cases hmessage

end Metadata

end LoopbackOData
