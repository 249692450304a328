import LoopbackOData.Entities.DeepInsert
import LoopbackOData.Library.Json

/-!
# Deep update

A `PATCH` that changes an entity and, where its payload nests entities, creates and changes those of
its relations.
-/

namespace LoopbackOData

set_option autoImplicit false

/-! ## Values -/

mutual

/-- `String(value)`. -/
def jsText (env : Environment) : JsValue → Text
  | .undefined => "undefined".toList
  | .null => "null".toList
  | .nan => "NaN".toList
  | .atom (.bool b) => if b then "true".toList else "false".toList
  | .atom (.num q) => env.rt.numberToString q
  | .atom (.bigint i) => env.bigintToString i
  | .atom (.str s) => s
  | .atom (.date ms) => env.dateText ms
  | .list items => List.intercalate [','] (jsTexts env items)
  | .object _ => "[object Object]".toList

/-- In a list, `null` and `undefined` have no text. -/
def jsTexts (env : Environment) : List JsValue → List Text
  | [] => []
  | item :: items => (if item.isNullish then [] else jsText env item) :: jsTexts env items

end

/-- `a === b`. No date, array or object is the same as another. -/
def isSame : JsValue → JsValue → Bool
  | .undefined, .undefined => true
  | .null, .null => true
  | a, b => strictlyEqual a b

def compareValues (env : Environment) (a b : JsValue) : Ordering :=
  if isSame a b then .eq
  else if a.isNullish then .lt
  else if b.isNullish then .gt
  else match a, b with
    | .atom (.date s), .atom (.date t) => compare s t
    | .atom (.num q), .atom (.num r) => compare q r
    | .nan, .nan | .nan, .atom (.num _) | .atom (.num _), .nan => .eq
    | _, _ => compareText (jsText env a) (jsText env b)

def coerceValueForProperty (env : Environment) (raw : JsValue) (model : ModelDefinition)
    (name : Text) : Except HttpError JsValue :=
  match raw with
  | .atom (.str s) => coerceIdentifierLiteral env s
      ((model.definition name).getD { type := [] }).toItemDefinition (String.ofList name)
  | _ => .ok raw

/-- The two checks of a foreign key, against the stored one and against the parent. -/
def assertCompositionForeignKey (env : Environment) (model : ModelDefinition) (fkField : Text)
    (expected rawValue : JsValue) : Except HttpError PUnit := do
  let value ← coerceValueForProperty env rawValue model fkField
  if compareValues env expected value = .eq then return ⟨⟩
  else conflict ("Re-parenting is not allowed for composition children (attempted to modify \"" ++
    String.ofList fkField ++ "\").")

/-! ## Repositories -/

/-- Whether the database finds a value for a constraint. -/
def satisfies (constraint value : JsValue) : Bool :=
  match constraint with
  | .atom a => isAtom value a
  | .null => value.isNullish
  | _ => false

/-- The data of an update over the fields of an entity. The key stays. -/
def mergeFields (model : ModelDefinition) (updateData : JsonObject) (fields : PlainObject) :
    PlainObject :=
  fun p => if p ≠ model.idName ∧ hasField updateData p = true then fieldOf updateData p
    else fields p

def EntityRecord.merge (model : ModelDefinition) (selects : EntityRecord → Bool)
    (updateData : JsonObject) (record : EntityRecord) : EntityRecord :=
  if record.setName = model.setName ∧ selects record = true then
    record.withFields (mergeFields model updateData record.fields)
  else record

theorem EntityRecord.id_merge (model : ModelDefinition) (selects : EntityRecord → Bool)
    (updateData : JsonObject) (record : EntityRecord) :
    (record.merge model selects updateData).id = record.id := by
  unfold EntityRecord.merge
  split <;> rfl

/-- `updateAll(data, where)`. -/
def Store.updateAll (store : Store) (model : ModelDefinition) (selects : EntityRecord → Bool)
    (updateData : JsonObject) : Store :=
  store.map (EntityRecord.merge model selects updateData)
    (EntityRecord.id_merge model selects updateData)

section Repositories

variable {ι : Type} (data : DataModel ι)

def isRelated (relation : RelationDefinition ι) (parentId : JsValue) (record : EntityRecord) :
    Bool :=
  record.setName = (data.model relation.target).setName &&
    satisfies parentId (record.fields relation.keyTo)

/-- `relationRepository.find()`. -/
def relationFind (relation : RelationDefinition ι) (parentId : JsValue) :
    StoreEffect (List EntityRecord) := do
  let store ← Effect.get
  return store.rows.filter (isRelated data relation parentId)

/-- `relationRepository.patch(updateData, where)`. -/
def relationPatch (relation : RelationDefinition ι) (parentId : JsValue) (updateData : JsonObject)
    (selects : EntityRecord → Bool) : StoreEffect PUnit := do
  let constrained ← Effect.ofExcept (constrainDataObject updateData relation.keyTo parentId)
  Effect.modify fun store => store.updateAll (data.model relation.target)
    (fun record => isRelated data relation parentId record && selects record) constrained

end Repositories

/-! ## The composition relations -/

/-- The classes with an entity set in the registry, and the relations that are configured as
compositions. -/
structure CompositionConfig (ι : Type) where
  registered : List ι
  resolved : ι → Text → Bool

section Composition

variable {ι : Type} [DecidableEq ι] (data : DataModel ι) (config : CompositionConfig ι) (root : ι)

def isCompositionRelationForEntityCtor (i : ι) (relationName : Text) : Bool :=
  if i ∈ config.registered then config.resolved i relationName
  else if i = root then config.resolved root relationName
  else false

def getCompositionParentForeignKeys : List Text :=
  config.registered.flatMap fun i =>
    ((data.relations i).filter fun relation =>
      config.resolved i relation.name && decide (relation.target = root)).map
        RelationDefinition.keyTo

end Composition

/-! ## The controller -/

/-- `prop:JSON.stringify(value)`. -/
def buildEntityIdKey (env : Environment) (idName : Text) (value : JsValue) : Except HttpError Text :=
  let key (text : Text) : Except HttpError Text := .ok (idName ++ ':' :: text)
  match value with
  | .undefined => key "undefined".toList
  | .atom (.bool b) => key (if b then "true".toList else "false".toList)
  | .atom (.num q) => key (env.rt.numberToString q)
  | .atom (.str s) => key (Json.quote s)
  | .atom (.date ms) => key (Json.quote (env.rt.dateToString ms))
  | .atom (.bigint _) => internalServerError "Do not know how to serialize a BigInt"
  | _ => key "null".toList

section Update

variable {ι : Type} [DecidableEq ι]
variable (env : Environment) (data : DataModel ι) (keys : KeyGenerator)
variable (config : CompositionConfig ι) (root : ι) (maxDepth : Nat)

/-- The key of an entity in output form. -/
def plainKey (i : ι) (entity : EntityRecord) : JsValue :=
  toPlainEntity env (data.model i) entity (data.model i).idName

/-- The children of a parent, in output form, under their keys. -/
def existingMap (relation : RelationDefinition ι) (existingEntities : List EntityRecord) :
    Except HttpError (List (Text × JsValue)) :=
  existingEntities.mapM fun entity => do
    let id := plainKey env data relation.target entity
    let key ← buildEntityIdKey env (data.model relation.target).idName id
    return (key, id)

/-- The key of the child that an entry with a key stands for. -/
def currentChild (relation : RelationDefinition ι) (existing : List (Text × JsValue))
    (id : JsValue) (idKey : Text) : StoreEffect JsValue := do
  let store ← Effect.get
  match store.findById (data.model relation.target) id with
  | some refreshed => return plainKey env data relation.target refreshed
  | none => return ((existing.reverse.find? fun child => child.1 = idKey).map Prod.snd).getD id

/-- The foreign key in the data of a child has to be that of the parent. -/
def assertCompositionForeignKeyMatchesParent (parent : ι) (relation : RelationDefinition ι)
    (expected : JsValue) (childRoot : JsonObject) : Except HttpError PUnit :=
  if isCompositionRelationForEntityCtor config root parent relation.name &&
      hasField childRoot relation.keyTo then do
    let parentValue ←
      coerceValueForProperty env expected (data.model relation.target) relation.keyTo
    assertCompositionForeignKey env (data.model relation.target) relation.keyTo parentValue
      (fieldOf childRoot relation.keyTo)
  else .ok ⟨⟩

/-- The relations of a payload with their values, to be applied under a parent. -/
abbrev RelationPayloads (ι : Type) := List (RelationDefinition ι × JsValue)

/-- An entity is patched where there is data for it. -/
def patchRelated (relation : RelationDefinition ι) (parentId : JsValue) (childRoot : JsonObject)
    (selects : EntityRecord → Bool) : StoreEffect PUnit :=
  let updateData := childRoot.filter fun field =>
    field.1 ≠ (data.model relation.target).idName
  if updateData.isEmpty then pure ⟨⟩ else relationPatch data relation parentId updateData selects

/-- A child is created, and what is nested in it. -/
def createRelated (recurse : ι → JsValue → RelationPayloads ι → StoreEffect PUnit)
    (relation : RelationDefinition ι) (parentId : JsValue) (normalized : NormalizedPayload ι) :
    StoreEffect PUnit := do
  let created ← relationCreate data keys relation parentId normalized.root
  recurse relation.target (plainKey env data relation.target created) normalized.children

/-- A child with a key is patched, and what is nested in it. -/
def updateKeyed (recurse : ι → JsValue → RelationPayloads ι → StoreEffect PUnit)
    (relation : RelationDefinition ι) (parentId : JsValue) (existing : List (Text × JsValue))
    (normalized : NormalizedPayload ι) : StoreEffect PUnit := do
  let id := fieldOf normalized.root (data.model relation.target).idName
  let idKey ← Effect.ofExcept (buildEntityIdKey env (data.model relation.target).idName id)
  patchRelated data relation parentId normalized.root fun record => satisfies id (.atom record.key)
  let childId ← currentChild env data relation existing id idKey
  recurse relation.target childId normalized.children

/-- One entity of a relation to many. -/
def updateHasManyEntry (recurse : ι → JsValue → RelationPayloads ι → StoreEffect PUnit)
    (parent : ι) (relation : RelationDefinition ι) (parentId expected : JsValue)
    (existing : List (Text × JsValue)) (rawEntry : JsValue) : StoreEffect PUnit := do
  let entry ← Effect.ofExcept (coercePayloadToObject rawEntry)
  let normalized := normalizeDeepInsertPayload (data.relations relation.target) entry
  Effect.ofExcept
    (assertCompositionForeignKeyMatchesParent env data config root parent relation expected
      normalized.root)
  if hasField normalized.root (data.model relation.target).idName then
    updateKeyed env data recurse relation parentId existing normalized
  else createRelated env data keys recurse relation parentId normalized

def persistHasManyDeepUpdate (recurse : ι → JsValue → RelationPayloads ι → StoreEffect PUnit)
    (parent : ι) (relation : RelationDefinition ι) (parentId value : JsValue) :
    StoreEffect PUnit := do
  let expected ← Effect.ofExcept
    (if isCompositionRelationForEntityCtor config root parent relation.name then
      coerceValueForProperty env parentId (data.model relation.target) relation.keyTo
    else .ok parentId)
  let existingEntities ← relationFind data relation parentId
  let existing ← Effect.ofExcept (existingMap env data relation existingEntities)
  Effect.each (fun rawEntry =>
    if rawEntry.isNullish then pure ⟨⟩
    else updateHasManyEntry env data keys config root recurse parent relation parentId expected
      existing rawEntry) (itemsOf value)

/-- The one child there is is patched, and what is nested in it. -/
def updateCurrent (recurse : ι → JsValue → RelationPayloads ι → StoreEffect PUnit)
    (relation : RelationDefinition ι) (parentId : JsValue) (current : EntityRecord)
    (normalized : NormalizedPayload ι) : StoreEffect PUnit := do
  patchRelated data relation parentId normalized.root fun _ => true
  let refreshed ← relationFind data relation parentId
  recurse relation.target (plainKey env data relation.target (refreshed.head?.getD current))
    normalized.children

def persistHasOneDeepUpdate (recurse : ι → JsValue → RelationPayloads ι → StoreEffect PUnit)
    (parent : ι) (relation : RelationDefinition ι) (parentId value : JsValue) :
    StoreEffect PUnit := do
  let entry ← Effect.ofExcept (coercePayloadToObject value)
  let normalized := normalizeDeepInsertPayload (data.relations relation.target) entry
  Effect.ofExcept
    (assertCompositionForeignKeyMatchesParent env data config root parent relation parentId
      normalized.root)
  let existing ← relationFind data relation parentId
  match existing.head? with
  | none => createRelated env data keys recurse relation parentId normalized
  | some current => updateCurrent env data recurse relation parentId current normalized

/-- One relation of a payload. -/
def updateRelation (recurse : ι → JsValue → RelationPayloads ι → StoreEffect PUnit) (parent : ι)
    (parentId : JsValue) (relation : RelationDefinition ι) (value : JsValue) : StoreEffect PUnit :=
  if relation.through then
    Effect.fail ⟨501, "Deep update is not supported for relation " ++
      String.ofList relation.name ++ " (through/ many-to-many)."⟩
  else match relation.type with
    | .hasMany =>
      persistHasManyDeepUpdate env data keys config root recurse parent relation parentId value
    | .hasOne =>
      persistHasOneDeepUpdate env data keys config root recurse parent relation parentId value
    | _ => Effect.fail ⟨400, "Deep update is only supported for hasOne/hasMany relations. Relation "
        ++ String.ofList relation.name ++ " uses another type."⟩

/-- The depth is counted down: none is left when it is over the maximum. -/
def applyDeepUpdateRelations : Nat → ι → JsValue → RelationPayloads ι → StoreEffect PUnit
  | 0, _, _, relations =>
    if relations.isEmpty then pure ⟨⟩
    else Effect.fail
      ⟨400, "Deep update exceeds maximum supported depth of " ++ toString maxDepth ++ "."⟩
  | remaining + 1, parent, parentId, relations =>
    Effect.each (fun (relation, value) =>
      if value.isNullish then pure ⟨⟩
      else updateRelation env data keys config root (applyDeepUpdateRelations remaining) parent
        parentId relation value) relations

/-- The entity that a change is about, found with the condition of the request or by its key. -/
def existingForUpdate (parentId : JsValue) (ifMatch : Option (EntityRecord → Bool)) :
    StoreEffect EntityRecord := do
  let store ← Effect.get
  match store.findById (data.model root) parentId, ifMatch with
  | some existing, some selects =>
    if selects existing then return existing
    else Effect.fail ⟨412, "Precondition Failed"⟩
  | some existing, none => return existing
  | none, some _ => Effect.fail ⟨412, "Precondition Failed"⟩
  | none, none => Effect.fail ⟨404, "Entity not found"⟩

/-- The foreign keys of compositions in the payload have to be the stored ones. -/
def assertCompositionForeignKeysUnchanged (parentId : JsValue)
    (ifMatch : Option (EntityRecord → Bool)) (workingPayload : JsonObject) : StoreEffect PUnit :=
  let forbiddenFksInPayload :=
    (getCompositionParentForeignKeys data config root).filter (hasField workingPayload)
  if forbiddenFksInPayload.isEmpty then pure ⟨⟩
  else do
    let existing ← existingForUpdate data root parentId ifMatch
    Effect.each (fun fkField => Effect.ofExcept
      (assertCompositionForeignKey env (data.model root) fkField
        (toPlainEntity env (data.model root) existing fkField) (fieldOf workingPayload fkField)))
      forbiddenFksInPayload

def updateRoot (parentId : JsValue) (ifMatch : Option (EntityRecord → Bool))
    (workingPayload : JsonObject) : StoreEffect PUnit :=
  if ifMatch.isNone && workingPayload.isEmpty then pure ⟨⟩
  else do
    let _ ← existingForUpdate data root parentId ifMatch
    Effect.modify fun store => store.updateAll (data.model root)
      (fun record => satisfies parentId (.atom record.key)) workingPayload

def normalizeUpdatePayload (deepUpdateEnabled : Bool) (payload : JsonObject) :
    NormalizedPayload ι :=
  if deepUpdateEnabled then normalizeDeepInsertPayload (data.relations root) payload
  else { root := payload, children := [] }

/-- `update`, for a body in JSON; `ifMatch` is what the header asks of the entity. -/
def update (deepUpdateEnabled : Bool) (ifMatch : Option (EntityRecord → Bool)) (id : Atom)
    (payload : JsonObject) : StoreEffect PUnit := do
  let normalized := normalizeUpdatePayload data root deepUpdateEnabled payload
  let parentId ← Effect.ofExcept (coerceParentId env (data.model root) id)
  assertCompositionForeignKeysUnchanged env data config root parentId ifMatch normalized.root
  updateRoot data root parentId ifMatch normalized.root
  let _ ← existingForUpdate data root parentId none
  applyDeepUpdateRelations env data keys config root maxDepth (maxDepth + 1) root parentId
    normalized.children
  let _ ← existingForUpdate data root parentId none
  pure ⟨⟩

end Update

/-! ## The tree of a payload -/

section Tree

variable {ι : Type} (data : DataModel ι)

/-- The objects of a relation, an array in place of one being read as the controller does. -/
def payloadsOf (relation : RelationDefinition ι) (value : JsValue) : List JsonObject :=
  (entriesOf relation value).filterMap fun entry => (coercePayloadToObject entry).toOption

/-- The objects in the tree of a payload. -/
inductive Nests (root : ι) (payload : JsonObject) : ι → JsonObject → Prop where
  | root : Nests root payload root payload
  | child {i : ι} {object entry : JsonObject} {relation : RelationDefinition ι} :
    Nests root payload i object → relation ∈ data.relations i →
    entry ∈ payloadsOf relation (fieldOf object relation.name) →
    Nests root payload relation.target entry

/-- A relation that an object of the payload names. -/
def Names (root : ι) (payload : JsonObject) (i : ι) (relation : RelationDefinition ι) : Prop :=
  relation ∈ data.relations i ∧
    ∃ object, Nests data root payload i object ∧ hasField object relation.name = true

/-- An object in the tree of a payload, as an entry of a relation. -/
def IsEntry (root : ι) (payload : JsonObject) (i : ι) (relation : RelationDefinition ι)
    (entry : JsonObject) : Prop :=
  relation ∈ data.relations i ∧ ∃ object, Nests data root payload i object ∧
    entry ∈ payloadsOf relation (fieldOf object relation.name)

/-- The scalars of an object, and the relations that it names. -/
abbrev rootOf (i : ι) (object : JsonObject) : JsonObject :=
  (normalizeDeepInsertPayload (data.relations i) object).root

abbrev childrenOf (i : ι) (object : JsonObject) : RelationPayloads ι :=
  (normalizeDeepInsertPayload (data.relations i) object).children

variable {data}

theorem IsEntry.nests {root i : ι} {payload entry : JsonObject} {relation : RelationDefinition ι}
    (h : IsEntry data root payload i relation entry) :
    Nests data root payload relation.target entry := by
  obtain ⟨hrelation, object, hobject, hentry⟩ := h
  exact .child hobject hrelation hentry

theorem hasField_eq_false_iff {object : JsonObject} {name : Text} :
    hasField object name = false ↔ ∀ field ∈ object, field.1 ≠ name := by
  simp [hasField]

theorem fieldOf_root_idName (i : ι) (entry : JsonObject) :
    fieldOf (rootOf data i entry) (data.model i).idName = fieldOf entry (data.model i).idName := by
  rw [fieldOf_normalizeDeepInsertPayload, scalarOf, if_neg]
  rw [List.any_eq_true]
  rintro ⟨relation, hrelation, hname⟩
  exact data.name_ne i relation hrelation (of_decide_eq_true hname)

theorem hasField_root {i : ι} {entry : JsonObject} {p : Text} (h : hasField entry p = false) :
    hasField (rootOf data i entry) p = false := by
  rw [hasField_eq_false_iff] at h ⊢
  exact fun field hfield => h field (List.mem_of_mem_filter hfield)

theorem hasField_root_idName (i : ι) (entry : JsonObject) :
    hasField (rootOf data i entry) (data.model i).idName = hasField entry (data.model i).idName := by
  by_cases hfield : hasField entry (data.model i).idName = true
  · rw [hfield]
    obtain ⟨field, hmem, hname⟩ := List.any_eq_true.mp hfield
    have hname := of_decide_eq_true hname
    refine List.any_eq_true.mpr ⟨field, List.mem_filter.mpr ⟨hmem, ?_⟩, decide_eq_true hname⟩
    rw [Bool.not_eq_true', List.any_eq_false]
    intro relation hrelation hrelationName
    exact data.name_ne i relation hrelation ((of_decide_eq_true hrelationName).trans hname)
  · rw [Bool.not_eq_true] at hfield
    rw [hfield]
    exact hasField_root hfield

end Tree

/-! ## A rule for deep updates -/

section Rule

variable {ι : Type} {env : Environment} {data : DataModel ι} {keys : KeyGenerator} {root : ι}
  {payload : JsonObject} {R : Store → Store → Prop} {Parent : ι → JsValue → Store → Prop}

/-- What is asked of the parts of a deep update: `R` of the states before and after each, and
`Parent` of every entity that the update goes on from. -/
structure UpdateRule (env : Environment) (data : DataModel ι) (keys : KeyGenerator) (root : ι)
    (payload : JsonObject) (R : Store → Store → Prop) (Parent : ι → JsValue → Store → Prop) :
    Prop where
  refl : ∀ s, R s s
  trans : ∀ s t u, R s t → R t u → R s u
  stable : ∀ i id s s', R s s' → Parent i id s → Parent i id s'
  find : ∀ i id relation, Names data root payload i relation →
    Effect.Triple R (Parent i id) (relationFind data relation id) fun found store =>
      ∀ record ∈ found, Parent relation.target (plainKey env data relation.target record) store
  create : ∀ i id relation entry, Names data root payload i relation →
    IsEntry data root payload i relation entry →
    Effect.Triple R (Parent i id)
      (relationCreate data keys relation id (rootOf data relation.target entry))
      fun created store =>
        Parent relation.target (plainKey env data relation.target created) store
  patch : ∀ i id relation entry selects, Names data root payload i relation →
    IsEntry data root payload i relation entry →
    (relation.type = .hasMany → hasField entry (data.model relation.target).idName = true) →
    Effect.Triple R (Parent i id)
      (patchRelated data relation id (rootOf data relation.target entry) selects) fun _ _ => True
  keyed : ∀ i id relation entry existing idKey, Names data root payload i relation →
    IsEntry data root payload i relation entry → relation.type = .hasMany →
    hasField entry (data.model relation.target).idName = true →
    (∃ nested ∈ data.relations relation.target, (fieldOf entry nested.name).isNullish = false) →
    Effect.Triple R (Parent i id)
      (currentChild env data relation existing
        (fieldOf entry (data.model relation.target).idName) idKey)
      fun childId store => Parent relation.target childId store

/-- The recursion satisfies the rule from every object in the tree of the payload, and does nothing
where no relation of the object has a value. -/
structure Recurses (data : DataModel ι) (root : ι) (payload : JsonObject)
    (R : Store → Store → Prop) (Parent : ι → JsValue → Store → Prop)
    (recurse : ι → JsValue → RelationPayloads ι → StoreEffect PUnit) : Prop where
  nested : ∀ i id object, Nests data root payload i object →
    Effect.Triple R (Parent i id) (recurse i id (childrenOf data i object)) fun _ _ => True
  idle : ∀ i id object, (∀ relation ∈ data.relations i,
      (fieldOf object relation.name).isNullish = true) →
    Effect.Triple R (fun _ => True) (recurse i id (childrenOf data i object)) fun _ _ => True

theorem triple_currentChild (hrefl : ∀ s, R s s) (htrans : ∀ s t u, R s t → R t u → R s u)
    {relation : RelationDefinition ι} {existing : List (Text × JsValue)} {id : JsValue}
    {idKey : Text} {P : Store → Prop} {Q : JsValue → Store → Prop}
    (hsome : ∀ store record, P store →
      store.findById (data.model relation.target) id = some record →
      Q (plainKey env data relation.target record) store)
    (hnone : ∀ store childId, P store → store.findById (data.model relation.target) id = none →
      Q childId store) :
    Effect.Triple R P (currentChild env data relation existing id idKey) Q := by
  unfold currentChild
  refine Effect.triple_bind htrans (Q := fun found store => found = store ∧ P store)
    (Effect.triple_get hrefl fun store h => ⟨rfl, h⟩) ?_
  intro found
  cases hfind : found.findById (data.model relation.target) id with
  | none =>
    refine Effect.triple_pure hrefl ?_
    rintro store ⟨rfl, h⟩
    exact hnone found _ h hfind
  | some refreshed =>
    refine Effect.triple_pure hrefl ?_
    rintro store ⟨rfl, h⟩
    exact hsome found refreshed h hfind

theorem triple_existingForUpdate (hrefl : ∀ s, R s s) (htrans : ∀ s t u, R s t → R t u → R s u)
    (P : Store → Prop) {i : ι} {id : JsValue} {ifMatch : Option (EntityRecord → Bool)} :
    Effect.Triple R P (existingForUpdate data i id ifMatch) fun existing store =>
      P store ∧ store.findById (data.model i) id = some existing ∧
        ∀ selects, ifMatch = some selects → selects existing = true := by
  unfold existingForUpdate
  refine Effect.triple_bind htrans (Q := fun found store => found = store ∧ P store)
    (Effect.triple_get hrefl fun store h => ⟨rfl, h⟩) ?_
  intro found
  cases hfind : found.findById (data.model i) id with
  | none => cases ifMatch <;> exact Effect.triple_fail hrefl
  | some existing =>
    cases ifMatch with
    | none =>
      refine Effect.triple_pure hrefl ?_
      rintro store ⟨rfl, h⟩
      exact ⟨h, hfind, fun _ h => by cases h⟩
    | some selects =>
      dsimp only
      split
      · next hselects =>
        refine Effect.triple_pure hrefl ?_
        rintro store ⟨rfl, h⟩
        refine ⟨h, hfind, ?_⟩
        intro other hother
        rw [← Option.some.inj hother]
        exact hselects
      · exact Effect.triple_fail hrefl

section Parts

variable (hrule : UpdateRule env data keys root payload R Parent)
  {recurse : ι → JsValue → RelationPayloads ι → StoreEffect PUnit}
  (hrecurse : Recurses data root payload R Parent recurse)
  {i : ι} {id : JsValue} {relation : RelationDefinition ι} {entry : JsonObject}

include hrule

theorem UpdateRule.keep (j : ι) (otherId : JsValue) {α : Type} {m : StoreEffect α}
    {P : Store → Prop} {Q : α → Store → Prop} (h : Effect.Triple R P m Q) :
    Effect.Triple R (fun store => P store ∧ Parent j otherId store) m
      fun a store => Q a store ∧ Parent j otherId store :=
  Effect.triple_keep (hrule.stable j otherId) h

include hrecurse

theorem UpdateRule.intoChild (hnests : Nests data root payload relation.target entry)
    (childId : JsValue) :
    Effect.Triple R (fun store => Parent relation.target childId store ∧ Parent i id store)
      (recurse relation.target childId (childrenOf data relation.target entry))
      fun _ => Parent i id :=
  Effect.triple_mono (hrule.keep i id (hrecurse.nested relation.target childId entry hnests))
    (fun _ h => h) fun _ _ h => h.2

variable (hnames : Names data root payload i relation)
  (hentry : IsEntry data root payload i relation entry)

include hnames hentry

theorem UpdateRule.createRelated :
    Effect.Triple R (Parent i id)
      (createRelated env data keys recurse relation id
        (normalizeDeepInsertPayload (data.relations relation.target) entry))
      fun _ => Parent i id := by
  unfold LoopbackOData.createRelated
  refine Effect.triple_bind hrule.trans
    (Effect.triple_mono (hrule.keep i id (hrule.create i id relation entry hnames hentry))
      (fun _ h => ⟨h, h⟩) fun _ _ h => h) fun created => ?_
  exact hrule.intoChild hrecurse hentry.nests _

theorem UpdateRule.updateCurrent {current : EntityRecord}
    (htype : relation.type ≠ .hasMany) :
    Effect.Triple R
      (fun store => Parent relation.target (plainKey env data relation.target current) store ∧
        Parent i id store)
      (updateCurrent env data recurse relation id current
        (normalizeDeepInsertPayload (data.relations relation.target) entry))
      fun _ => Parent i id := by
  unfold LoopbackOData.updateCurrent
  have hpatch := hrule.patch i id relation entry (fun _ => true) hnames hentry
    fun h => absurd h htype
  have hfind := hrule.find i id relation hnames
  refine Effect.triple_bind hrule.trans
    (Q := fun _ store => Parent relation.target (plainKey env data relation.target current) store ∧
      Parent i id store)
    (Effect.triple_mono (hrule.keep relation.target (plainKey env data relation.target current)
      (hrule.keep i id hpatch)) (fun _ h => ⟨⟨h.2, h.2⟩, h.1⟩) fun _ _ h => ⟨h.2, h.1.2⟩)
    fun _ => ?_
  refine Effect.triple_bind hrule.trans
    (Effect.triple_mono (hrule.keep relation.target (plainKey env data relation.target current)
      (hrule.keep i id hfind)) (fun _ h => ⟨⟨h.2, h.2⟩, h.1⟩) fun _ _ h => h) fun refreshed => ?_
  refine Effect.triple_mono (hrule.intoChild hrecurse hentry.nests _) ?_ fun _ _ h => h
  rintro store ⟨⟨hfound, hparent⟩, hcurrent⟩
  refine ⟨?_, hparent⟩
  cases refreshed with
  | nil => exact hcurrent
  | cons record _ => exact hfound record List.mem_cons_self

theorem UpdateRule.updateKeyed {existing : List (Text × JsValue)}
    (htype : relation.type = .hasMany)
    (hkey : hasField entry (data.model relation.target).idName = true) :
    Effect.Triple R (Parent i id)
      (updateKeyed env data recurse relation id existing
        (normalizeDeepInsertPayload (data.relations relation.target) entry))
      fun _ => Parent i id := by
  unfold LoopbackOData.updateKeyed
  dsimp only
  rw [fieldOf_root_idName]
  refine Effect.triple_bind hrule.trans
    (Effect.triple_ofExcept hrule.refl fun _ _ _ h => h) fun idKey => ?_
  refine Effect.triple_bind hrule.trans
    (Effect.triple_mono (hrule.keep i id (hrule.patch i id relation entry _ hnames hentry fun _ => hkey))
      (fun _ h => ⟨h, h⟩) fun _ _ h => h.2) fun _ => ?_
  by_cases hnested : ∃ nested ∈ data.relations relation.target,
      (fieldOf entry nested.name).isNullish = false
  · refine Effect.triple_bind hrule.trans (Effect.triple_mono (hrule.keep i id
      (hrule.keyed i id relation entry existing idKey hnames hentry htype hkey hnested))
      (fun _ h => ⟨h, h⟩) fun _ _ h => h) fun childId => ?_
    exact hrule.intoChild hrecurse hentry.nests childId
  · have hidle (nested : RelationDefinition ι) (hmem : nested ∈ data.relations relation.target) :
        (fieldOf entry nested.name).isNullish = true := by
      by_contra hnull
      exact hnested ⟨nested, hmem, Bool.eq_false_iff.mpr hnull⟩
    refine Effect.triple_bind hrule.trans (Q := fun _ => Parent i id)
      (triple_currentChild hrule.refl hrule.trans (fun _ _ h _ => h) fun _ _ h _ => h)
      fun childId => ?_
    exact Effect.triple_mono (hrule.keep i id (hrecurse.idle relation.target childId entry hidle))
      (fun _ h => ⟨trivial, h⟩) fun _ _ h => h.2

end Parts

section Relations

variable [DecidableEq ι] {config : CompositionConfig ι} {controller : ι}
  (hrule : UpdateRule env data keys root payload R Parent)
  {recurse : ι → JsValue → RelationPayloads ι → StoreEffect PUnit}
  (hrecurse : Recurses data root payload R Parent recurse)
  {i : ι} {id : JsValue} {relation : RelationDefinition ι} {object : JsonObject}
  (hobject : Nests data root payload i object) (hnames : Names data root payload i relation)

include hrule hrecurse hobject hnames

theorem UpdateRule.updateHasManyEntry {expected : JsValue} {existing : List (Text × JsValue)}
    {rawEntry : JsValue} (htype : relation.type = .hasMany)
    (hentry : rawEntry ∈ entriesOf relation (fieldOf object relation.name)) :
    Effect.Triple R (Parent i id)
      (updateHasManyEntry env data keys config controller recurse i relation id expected existing
        rawEntry)
      fun _ => Parent i id := by
  unfold LoopbackOData.updateHasManyEntry
  refine Effect.triple_bind hrule.trans
    (Q := fun entry store => coercePayloadToObject rawEntry = .ok entry ∧ Parent i id store)
    (Effect.triple_ofExcept hrule.refl fun _ _ h hparent => ⟨h, hparent⟩) ?_
  intro entry
  by_cases hcoerce : coercePayloadToObject rawEntry = .ok entry
  swap
  · exact fun store h => absurd h.1 hcoerce
  have hmem : IsEntry data root payload i relation entry :=
    ⟨hnames.1, object, hobject, List.mem_filterMap.mpr ⟨rawEntry, hentry, by rw [hcoerce]; rfl⟩⟩
  refine Effect.triple_mono ?_ (fun _ h => h.2) fun _ _ h => h
  dsimp only
  refine Effect.triple_bind hrule.trans
    (Effect.triple_ofExcept hrule.refl fun _ _ _ h => h) fun _ => ?_
  rw [hasField_root_idName]
  by_cases hkey : hasField entry (data.model relation.target).idName = true
  · rw [if_pos hkey]
    exact hrule.updateKeyed hrecurse hnames hmem htype hkey
  · rw [if_neg hkey]
    exact hrule.createRelated hrecurse hnames hmem

theorem UpdateRule.persistHasManyDeepUpdate (htype : relation.type = .hasMany) :
    Effect.Triple R (Parent i id)
      (persistHasManyDeepUpdate env data keys config controller recurse i relation id
        (fieldOf object relation.name))
      fun _ => Parent i id := by
  unfold LoopbackOData.persistHasManyDeepUpdate
  refine Effect.triple_bind hrule.trans
    (Effect.triple_ofExcept hrule.refl fun _ _ _ h => h) fun expected => ?_
  refine Effect.triple_bind hrule.trans
    (Effect.triple_mono (hrule.keep i id (hrule.find i id relation hnames)) (fun _ h => ⟨h, h⟩)
      fun _ _ h => h.2) fun existingEntities => ?_
  refine Effect.triple_bind hrule.trans
    (Effect.triple_ofExcept hrule.refl fun _ _ _ h => h) fun existing => ?_
  refine Effect.triple_each hrule.refl hrule.trans ?_
  intro rawEntry hentry
  split
  · exact Effect.triple_pure hrule.refl fun _ h => h
  · refine hrule.updateHasManyEntry hrecurse hobject hnames htype ?_
    rw [entriesOf, if_pos (by rw [htype]; rfl)]
    exact hentry

theorem UpdateRule.persistHasOneDeepUpdate (htype : relation.type = .hasOne) :
    Effect.Triple R (Parent i id)
      (persistHasOneDeepUpdate env data keys config controller recurse i relation id
        (fieldOf object relation.name))
      fun _ => Parent i id := by
  unfold LoopbackOData.persistHasOneDeepUpdate
  refine Effect.triple_bind hrule.trans
    (Q := fun entry store => coercePayloadToObject (fieldOf object relation.name) = .ok entry ∧
      Parent i id store)
    (Effect.triple_ofExcept hrule.refl fun _ _ h hparent => ⟨h, hparent⟩) ?_
  intro entry
  by_cases hcoerce : coercePayloadToObject (fieldOf object relation.name) = .ok entry
  swap
  · exact fun store h => absurd h.1 hcoerce
  have hmem : IsEntry data root payload i relation entry := by
    refine ⟨hnames.1, object, hobject, List.mem_filterMap.mpr
      ⟨fieldOf object relation.name, ?_, by rw [hcoerce]; rfl⟩⟩
    rw [entriesOf, if_neg (by rw [htype]; exact Bool.false_ne_true)]
    exact List.mem_singleton_self _
  refine Effect.triple_mono ?_ (fun _ h => h.2) fun _ _ h => h
  dsimp only
  refine Effect.triple_bind hrule.trans
    (Effect.triple_ofExcept hrule.refl fun _ _ _ h => h) fun _ => ?_
  refine Effect.triple_bind hrule.trans
    (Effect.triple_mono (hrule.keep i id (hrule.find i id relation hnames)) (fun _ h => ⟨h, h⟩)
      fun _ _ h => h) ?_
  intro existing
  cases existing with
  | nil =>
    exact Effect.triple_mono (hrule.createRelated hrecurse hnames hmem) (fun _ h => h.2)
      fun _ _ h => h
  | cons current rest =>
    exact Effect.triple_mono
      (hrule.updateCurrent hrecurse hnames hmem fun h => by rw [htype] at h; cases h)
      (fun _ h => ⟨h.1 current List.mem_cons_self, h.2⟩) fun _ _ h => h

theorem UpdateRule.updateRelation :
    Effect.Triple R (Parent i id)
      (updateRelation env data keys config controller recurse i id relation
        (fieldOf object relation.name))
      fun _ => Parent i id := by
  unfold LoopbackOData.updateRelation
  split
  · exact Effect.triple_fail hrule.refl
  · cases htype : relation.type with
    | hasMany => exact hrule.persistHasManyDeepUpdate hrecurse hobject hnames htype
    | hasOne => exact hrule.persistHasOneDeepUpdate hrecurse hobject hnames htype
    | _ => exact Effect.triple_fail hrule.refl

end Relations

/-- The recursion at each depth. -/
theorem UpdateRule.recurses [DecidableEq ι]
    (hrule : UpdateRule env data keys root payload R Parent) {config : CompositionConfig ι}
    {controller : ι} (maxDepth remaining : Nat) :
    Recurses data root payload R Parent
      (applyDeepUpdateRelations env data keys config controller maxDepth remaining) := by
  induction remaining with
  | zero =>
    constructor
    · intro i id object _
      rw [applyDeepUpdateRelations]
      split
      · exact Effect.triple_pure hrule.refl fun _ _ => trivial
      · exact Effect.triple_fail hrule.refl
    · intro i id object _
      rw [applyDeepUpdateRelations]
      split
      · exact Effect.triple_pure hrule.refl fun _ _ => trivial
      · exact Effect.triple_fail hrule.refl
  | succ remaining ih =>
    constructor
    · intro i id object hobject
      rw [applyDeepUpdateRelations]
      refine Effect.triple_mono (Effect.triple_each hrule.refl hrule.trans (P := Parent i id) ?_)
        (fun _ h => h) fun _ _ _ => trivial
      intro child hchild
      obtain ⟨relation, hrelation, rfl⟩ := List.mem_map.mp hchild
      obtain ⟨hmem, hfield⟩ := List.mem_filter.mp hrelation
      dsimp only
      split
      · exact Effect.triple_pure hrule.refl fun _ h => h
      · exact hrule.updateRelation ih hobject ⟨hmem, object, hobject, hfield⟩
    · intro i id object hnull
      rw [applyDeepUpdateRelations]
      refine Effect.triple_each hrule.refl hrule.trans ?_
      intro child hchild
      obtain ⟨relation, hrelation, rfl⟩ := List.mem_map.mp hchild
      dsimp only
      rw [if_pos (hnull relation (List.mem_of_mem_filter hrelation))]
      exact Effect.triple_pure hrule.refl fun _ h => h

end Rule

end LoopbackOData
