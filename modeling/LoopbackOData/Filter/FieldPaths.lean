import LoopbackOData.Filter.Decompose
import LoopbackOData.Library.Dictionary
import LoopbackOData.Library.Outcome
import LoopbackOData.Library.Separated

/-!
# Paths of filter fields

A field of a filter is a property, or a path over relations and over the properties of structured
ones. `resolveNavigationPath` follows the relations of the models, `resolveStructuredPropertySegments`
the nested properties. Lookups in a model are functions of the name: what the object of the source
gives for it, own or inherited.
-/

namespace LoopbackOData

set_option autoImplicit false

/-! ## Models -/

inductive SupportedRelationType where
  | hasMany
  | hasOne
  | belongsTo
  deriving DecidableEq

inductive PrimitivePropertyKind where
  | string
  | number
  | boolean
  | date
  | buffer
  | json
  deriving DecidableEq

inductive StructuredPropertyNode where
  | mk (primitiveProps : List (Text × PrimitivePropertyKind))
      (structuredProps : List (Text × StructuredPropertyNode))

/-- The metadata of a relation: `targetKey` is what `ensureNavigationTargetKey` gives, the type is
normalised. -/
structure RelationMeta where
  name : Text
  through : Bool
  relationType : Option SupportedRelationType
  targetModel : Option Nat
  keyFrom : Option Text
  targetKey : Option Text

structure NavigationModel where
  relation : Text → Option RelationMeta
  /-- The definition of a property, as `classifyPrimitiveProperty` reads it. -/
  property : Text → Option (Option PrimitivePropertyKind)
  structured : Text → Option StructuredPropertyNode
  idProperties : List Text
  /-- The properties that are flagged as `id`. -/
  flaggedIds : List Text

/-- A model class is known by its identity; some have no definition. -/
abbrev NavigationModels := Nat → Option NavigationModel

/-! ## Navigation paths -/

inductive NavigationPathError where
  | noSegments
  | maxDepth
  | through
  | unsupportedType
  | noTargetModel
  | noDefinition
  | noIdProperty
  | compositeKey
  | noForeignKey
  | noKeyFrom

structure NavigationJoinSegment where
  relationName : Text
  relationType : SupportedRelationType
  sourceModel : Nat
  targetModel : Nat
  sourceKey : Text
  targetKey : Text

structure ResolvedNavigationPath where
  joins : List NavigationJoinSegment
  propertyPath : Option Text
  targetModel : Nat

def selectSingleKey : List Text → Except NavigationPathError Text
  | [key] => .ok key
  | [] => .error .noIdProperty
  | _ => .error .compositeKey

def getPrimaryKey (definition : NavigationModel) : Except NavigationPathError Text :=
  if definition.idProperties ≠ [] then selectSingleKey definition.idProperties
  else selectSingleKey definition.flaggedIds

section Paths

variable (models : NavigationModels)

def buildJoinSegment (sourceModel targetModel : Nat) (relation : RelationMeta)
    (relationType : SupportedRelationType) : Except NavigationPathError NavigationJoinSegment :=
  match models sourceModel, models targetModel with
  | some sourceDefinition, some targetDefinition => do
    let sourceId ← getPrimaryKey sourceDefinition
    let targetId ← getPrimaryKey targetDefinition
    match relationType with
    | .belongsTo =>
      match relation.keyFrom with
      | none => .error .noKeyFrom
      | some keyFrom =>
        .ok { relationName := relation.name, relationType, sourceModel, targetModel
              sourceKey := keyFrom, targetKey := targetId }
    | _ =>
      match relation.targetKey with
      | none => .error .noForeignKey
      | some foreignKey =>
        .ok { relationName := relation.name, relationType, sourceModel, targetModel
              sourceKey := relation.keyFrom.getD sourceId, targetKey := foreignKey }
  | _, _ => .error .noDefinition

/-- The loop of `resolveNavigationPath` without `allowThrough`: the joins, the segments that are
left for a property and the model that they belong to. The first argument is how many segments
`maxDepth` still allows. -/
def resolveJoins : Nat → Nat → List Text →
    Except NavigationPathError (List NavigationJoinSegment × List Text × Nat)
  | _, model, [] => .ok ([], [], model)
  | 0, _, _ :: _ => .error .maxDepth
  | depth + 1, model, segment :: rest =>
    match (models model).bind fun definition => definition.relation segment with
    | none => .ok ([], segment :: rest, model)
    | some relation =>
      if relation.through then .error .through
      else
        match relation.relationType with
        | none => .error .unsupportedType
        | some relationType =>
          match relation.targetModel with
          | none => .error .noTargetModel
          | some target => do
            let join ← buildJoinSegment models model target relation relationType
            let (joins, properties, last) ← resolveJoins depth target rest
            return (join :: joins, properties, last)

def resolveNavigationPath (maxDepth model : Nat) (path : Text) :
    Except NavigationPathError ResolvedNavigationPath :=
  let segments := pathSegments path
  if segments = [] then .error .noSegments
  else do
    let (joins, properties, targetModel) ← resolveJoins models maxDepth model segments
    return {
      joins, targetModel
      propertyPath :=
        if joins = [] then some (joinPath segments)
        else if properties = [] then none
        else some (joinPath properties) }

/-! ## Structured properties -/

structure StructuredPropertyResolution where
  rootProperty : Text
  jsonPath : List Text
  primitiveKind : PrimitivePropertyKind

def resolveStructuredNodePath : StructuredPropertyNode → List Text → Option PrimitivePropertyKind
  | _, [] => none
  | .mk primitiveProps _, [current] =>
    if current = [] then none else Dictionary.get primitiveProps current
  | .mk _ structuredProps, current :: rest =>
    if current = [] then none
    else
      match Dictionary.get structuredProps current with
      | none => none
      | some child => resolveStructuredNodePath child rest

def resolveStructuredPropertySegments (model : Nat) (segments : List Text) :
    Option StructuredPropertyResolution :=
  match segments with
  | [] => none
  | root :: rest =>
    if root = [] then none
    else do
      let definition ← models model
      let primitiveKind ← definition.property root
      match rest, primitiveKind with
      | [], none => none
      | [], some kind => some ⟨root, [], kind⟩
      | _ :: _, some _ => none
      | _ :: _, none => do
        let node ← definition.structured root
        let kind ← resolveStructuredNodePath node rest
        some ⟨root, rest, kind⟩

def pathRequiresStructuredLookup (model : Nat) (segments : List Text) : Bool :=
  if segments.length ≤ 1 then false
  else (resolveStructuredPropertySegments models model segments).any fun resolution =>
    resolution.jsonPath.length ≠ 0

/-- `maxDepth` is the limit of the configuration, 5 by default. -/
def isStructuredFieldPath (maxDepth entityCtor : Nat) (field : Text) : Bool :=
  if field = [] ∨ '/' ∉ field then false
  else
    match resolveNavigationPath models maxDepth entityCtor field with
    | .ok resolved =>
      if resolved.joins.length ≠ 0 then true
      else
        let propertySegments := (resolved.propertyPath.map pathSegments).getD []
        if propertySegments = [] then false
        else pathRequiresStructuredLookup models entityCtor propertySegments
    | .error _ =>
      let segments := pathSegments field
      if segments.length ≤ 1 then false
      else pathRequiresStructuredLookup models entityCtor segments

/-! ## What the paths of the memory evaluation are -/

/-- The path starts with a relation, and every relation of it can be joined. -/
def NavigationField (maxDepth entityCtor : Nat) (field : Text) : Prop :=
  '/' ∈ field ∧ ∃ resolved, resolveNavigationPath models maxDepth entityCtor field = .ok resolved ∧
    resolved.joins ≠ []

/-- The path leads into a structured property. -/
def StructuredField (entityCtor : Nat) (field : Text) : Prop :=
  '/' ∈ field ∧ ∃ resolution,
    resolveStructuredPropertySegments models entityCtor (pathSegments field) = some resolution ∧
    resolution.jsonPath ≠ []

end Paths

section Resolution

variable {models : NavigationModels} {maxDepth entityCtor : Nat} {field : Text}

theorem pathSegments_joinPath_pathSegments (path : Text) (h : pathSegments path ≠ []) :
    pathSegments (joinPath (pathSegments path)) = pathSegments path := by
  have hseparator : ∀ segment ∈ pathSegments path, '/' ∉ segment := by
    intro segment hsegment hmem
    have hsub := Separated.mem_splitOnP (List.mem_filter.mp hsegment).1
    have hfalse := (List.mem_filter.mp (hsub.subset hmem)).2
    simp at hfalse
  have hnonempty : ∀ segment ∈ pathSegments path, (!segment.isEmpty) = true := fun segment hmem =>
    (List.mem_filter.mp hmem).2
  rw [joinPath, pathSegments, List.splitOn_intercalate '/' hseparator h]
  exact List.filter_eq_self.mpr hnonempty

/-- A path without joins is looked up from its first segment. -/
theorem propertyPath_of_no_joins {resolved : ResolvedNavigationPath}
    (h : resolveNavigationPath models maxDepth entityCtor field = .ok resolved)
    (hjoins : resolved.joins = []) :
    resolved.propertyPath = some (joinPath (pathSegments field)) ∧ pathSegments field ≠ [] := by
  unfold resolveNavigationPath at h
  dsimp only at h
  split at h
  · cases h
  next hsegments =>
    obtain ⟨⟨joins, properties, targetModel⟩, hresolve, h⟩ := Outcome.bind_eq_ok.mp h
    obtain rfl := Except.ok.inj h
    dsimp only at hjoins
    subst hjoins
    exact ⟨rfl, hsegments⟩

theorem pathRequiresStructuredLookup_iff :
    pathRequiresStructuredLookup models entityCtor (pathSegments field) = true ↔
      ∃ resolution,
        resolveStructuredPropertySegments models entityCtor (pathSegments field) = some resolution ∧
        resolution.jsonPath ≠ [] := by
  unfold pathRequiresStructuredLookup
  split
  next h =>
    -- one segment is the root alone, and has no path below it
    have hnone : ∀ resolution, resolveStructuredPropertySegments models entityCtor
        (pathSegments field) = some resolution → resolution.jsonPath = [] := by
      intro resolution hresolution
      unfold resolveStructuredPropertySegments at hresolution
      split at hresolution
      · cases hresolution
      next root rest hsegments =>
        rw [hsegments, List.length_cons] at h
        obtain rfl : rest = [] := List.eq_nil_of_length_eq_zero (by omega)
        split at hresolution
        · cases hresolution
        · simp only [Option.bind_eq_bind, Option.bind_eq_some_iff] at hresolution
          obtain ⟨definition, -, kind, -, hkind⟩ := hresolution
          cases kind with
          | none => cases hkind
          | some kind =>
            obtain rfl := Option.some.inj hkind
            rfl
    constructor
    · intro hfalse
      cases hfalse
    · rintro ⟨resolution, hresolution, hpath⟩
      exact absurd (hnone resolution hresolution) hpath
  next h =>
    rw [Option.any_eq_true]
    simp

/-- The fields that are evaluated in memory are the paths that resolve. -/
theorem isStructuredFieldPath_iff :
    isStructuredFieldPath models maxDepth entityCtor field = true ↔
      NavigationField models maxDepth entityCtor field ∨ StructuredField models entityCtor field := by
  unfold isStructuredFieldPath NavigationField StructuredField
  by_cases hslash : '/' ∈ field
  · have hfield : field ≠ [] := List.ne_nil_of_mem hslash
    rw [if_neg (by simp [hfield, hslash])]
    cases hresolve : resolveNavigationPath models maxDepth entityCtor field with
    | error e =>
      dsimp only
      rw [← pathRequiresStructuredLookup_iff]
      split
      next hlength => simp [pathRequiresStructuredLookup, hlength]
      next => simp [hslash]
    | ok resolved =>
      dsimp only
      rw [← pathRequiresStructuredLookup_iff]
      by_cases hjoins : resolved.joins = []
      · obtain ⟨hpath, hsegments⟩ := propertyPath_of_no_joins hresolve hjoins
        rw [if_neg (by simp [hjoins]), hpath, Option.map_some, Option.getD_some,
          pathSegments_joinPath_pathSegments field hsegments, if_neg hsegments]
        simp [hslash, hjoins]
      · rw [if_pos (by simpa using hjoins)]
        simp [hslash, hjoins]
  · simp [hslash]

end Resolution

end LoopbackOData
