import LoopbackOData.Entities.Store
import LoopbackOData.Library.Effect

/-!
# Entity classes and their relations

The relations of the models, payloads that nest entities along them, and the repositories that a
relation is written through.
-/

namespace LoopbackOData

set_option autoImplicit false

inductive RelationType where
  | hasMany | hasOne | belongsTo | referencesMany
  deriving DecidableEq, Repr

def RelationType.targetsMany : RelationType → Bool
  | .hasMany | .referencesMany => true
  | .hasOne | .belongsTo => false

structure RelationDefinition (ι : Type) where
  name : Text
  type : RelationType
  target : ι
  keyTo : Text
  through : Bool

/-- The entity classes with their models and relations. Each class has a set of its own, a foreign
key is not the key of its entity, and no relation has the name of the key. -/
structure DataModel (ι : Type) where
  model : ι → ModelDefinition
  setName_injective : ∀ i j, (model i).setName = (model j).setName → i = j
  relations : ι → List (RelationDefinition ι)
  relations_nodup : ∀ i, ((relations i).map RelationDefinition.name).Nodup
  keyTo_ne : ∀ i, ∀ relation ∈ relations i, relation.keyTo ≠ (model relation.target).idName
  name_ne : ∀ i, ∀ relation ∈ relations i, relation.name ≠ (model i).idName

/-! ## Payloads -/

/-- An object as it is read from JSON. -/
abbrev JsonObject := List (Text × JsValue)

def hasField (object : JsonObject) (name : Text) : Bool := object.any fun field => field.1 = name

def fieldOf (object : JsonObject) (name : Text) : JsValue :=
  ((object.find? fun field => field.1 = name).map Prod.snd).getD .undefined

/-- `{...value}`: an array has its items under their indices. -/
def coercePayloadToObject (value : JsValue) : Except HttpError JsonObject :=
  match value with
  | .object fields => .ok fields
  | .list items => .ok (items.zipIdx.map fun (item, index) => ((toString index).toList, item))
  | _ => badRequest "Deep update payloads for related entities must be objects."

/-- The scalars of a payload, and the values of the relations it names. -/
structure NormalizedPayload (ι : Type) where
  root : JsonObject
  children : List (RelationDefinition ι × JsValue)

def normalizeDeepInsertPayload {ι : Type} (relations : List (RelationDefinition ι))
    (value : JsonObject) : NormalizedPayload ι where
  root := value.filter fun field => !relations.any fun relation => relation.name = field.1
  children := (relations.filter fun relation => hasField value relation.name).map fun relation =>
    (relation, fieldOf value relation.name)

/-- The items of an array, or a single value in place of one. -/
def itemsOf (value : JsValue) : List JsValue :=
  match value with
  | .list items => items
  | _ => [value]

/-! ## Repositories -/

/-- The keys that the data source gives to entities without one. -/
structure KeyGenerator where
  newKey : Store → ModelDefinition → Atom
  fresh : ∀ (store : Store) (model : ModelDefinition),
    store.find (model.setName, newKey store model) = none

abbrev StoreEffect (α : Type) := Effect HttpError Store α

def recordOf (model : ModelDefinition) (key : Atom) (data : JsonObject) : EntityRecord :=
  ⟨model.setName, key, fun p => if p = model.idName then .undefined else fieldOf data p⟩

def insertEntity (model : ModelDefinition) (key : Atom) (data : JsonObject) :
    StoreEffect EntityRecord := fun store =>
  if h : store.find (recordOf model key data).id = none then
    (.ok (recordOf model key data), store.insert (recordOf model key data) h)
  else (conflict "Duplicate entry", store)

/-- `repository.create(data)`, with the key in the data or a new one. -/
def createEntity (keys : KeyGenerator) (model : ModelDefinition) (data : JsonObject) :
    StoreEffect EntityRecord := fun store =>
  match fieldOf data model.idName with
  | .atom key => insertEntity model key data store
  | .undefined => insertEntity model (keys.newKey store model) data store
  | .null => insertEntity model (keys.newKey store model) data store
  | _ => (badRequest "Invalid key", store)

/-- `Boolean(value)`. -/
def isSet : JsValue → Bool
  | .undefined | .null | .nan => false
  | .atom (.bool b) => b
  | .atom (.num q) => q ≠ 0
  | .atom (.bigint i) => i ≠ 0
  | .atom (.str s) => s ≠ []
  | _ => true

/-- A relation repository sets the foreign key, and refuses another one. -/
def constrainDataObject (data : JsonObject) (keyTo : Text) (parentId : JsValue) :
    Except HttpError JsonObject :=
  if isSet (fieldOf data keyTo) && !strictlyEqual (fieldOf data keyTo) parentId then
    internalServerError ("Property \"" ++ String.ofList keyTo ++ "\" cannot be changed!")
  else .ok ((keyTo, parentId) :: data.filter fun field => field.1 ≠ keyTo)

section Repositories

variable {ι : Type} (data : DataModel ι)

/-- `relationRepository.create(payload)`. -/
def relationCreate (keys : KeyGenerator) (relation : RelationDefinition ι) (parentId : JsValue)
    (payload : JsonObject) : StoreEffect EntityRecord := do
  let constrained ← Effect.ofExcept (constrainDataObject payload relation.keyTo parentId)
  createEntity keys (data.model relation.target) constrained

end Repositories

/-! ## What creating does -/

theorem fieldOf_cons_self (name : Text) (value : JsValue) (object : JsonObject) :
    fieldOf ((name, value) :: object) name = value := by
  rw [fieldOf, List.find?_cons_of_pos (by simp)]
  rfl

theorem fieldOf_cons_of_ne {name p : Text} (h : p ≠ name) (value : JsValue) (object : JsonObject) :
    fieldOf ((name, value) :: object) p = fieldOf object p := by
  rw [fieldOf, List.find?_cons_of_neg (by simpa using Ne.symm h), fieldOf]

theorem fieldOf_filter (keep : Text → Bool) (object : JsonObject) (p : Text) :
    fieldOf (object.filter fun field => keep field.1) p =
      if keep p then fieldOf object p else .undefined := by
  induction object with
  | nil => cases keep p <;> rfl
  | cons field object ih =>
    obtain ⟨name, value⟩ := field
    by_cases hp : p = name
    · subst hp
      by_cases hkeep : keep p = true
      · rw [List.filter_cons_of_pos (by exact hkeep), fieldOf_cons_self, fieldOf_cons_self, if_pos hkeep]
      · rw [List.filter_cons_of_neg (by exact hkeep), ih, if_neg hkeep, if_neg hkeep]
    · rw [fieldOf_cons_of_ne hp, ← ih]
      by_cases hkeep : keep name = true
      · rw [List.filter_cons_of_pos (by exact hkeep), fieldOf_cons_of_ne hp]
      · rw [List.filter_cons_of_neg (by exact hkeep)]

theorem constrainDataObject_eq_ok {data constrained : JsonObject} {keyTo : Text}
    {parentId : JsValue} (h : constrainDataObject data keyTo parentId = .ok constrained) :
    fieldOf constrained keyTo = parentId ∧
      ∀ p, p ≠ keyTo → fieldOf constrained p = fieldOf data p := by
  unfold constrainDataObject at h
  split at h
  · cases h
  · obtain rfl := Except.ok.inj h
    refine ⟨fieldOf_cons_self _ _ _, fun p hp => ?_⟩
    rw [fieldOf_cons_of_ne hp, fieldOf_filter fun name => decide (name ≠ keyTo)]
    exact if_pos (by simpa using hp)

/-- What an entity has from the data it was created with. -/
structure CreatedFrom (model : ModelDefinition) (data : JsonObject) (record : EntityRecord) :
    Prop where
  setName : record.setName = model.setName
  key : ∀ a, fieldOf data model.idName = .atom a → record.key = a
  fields : ∀ p, p ≠ model.idName → record.fields p = fieldOf data p

section Create

variable {keys : KeyGenerator} {model : ModelDefinition} {data : JsonObject} {store after : Store}

theorem insertEntity_eq_ok {key : Atom} {record : EntityRecord}
    (h : insertEntity model key data store = (.ok record, after)) :
    record = recordOf model key data ∧ store.find record.id = none ∧
      after.rows = store.rows ++ [record] := by
  unfold insertEntity at h
  split at h
  · next hnone =>
    obtain ⟨hrecord, rfl⟩ := Prod.mk.inj h
    obtain rfl := Except.ok.inj hrecord
    exact ⟨rfl, hnone, rfl⟩
  · cases (Prod.mk.inj h).1

theorem insertEntity_eq_error {key : Atom} {e : HttpError}
    (h : insertEntity model key data store = (.error e, after)) : after = store := by
  unfold insertEntity at h
  split at h
  · cases (Prod.mk.inj h).1
  · exact (Prod.mk.inj h).2.symm

/-- The key of the new entity is the one in the data or a new one. -/
theorem createEntity_cases (keys : KeyGenerator) (model : ModelDefinition) (data : JsonObject)
    (store : Store) :
    (∃ key, createEntity keys model data store = insertEntity model key data store ∧
      (fieldOf data model.idName = .atom key ∨
        key = keys.newKey store model ∧ ∀ a, fieldOf data model.idName ≠ .atom a)) ∨
      ∃ e, createEntity keys model data store = (.error e, store) := by
  unfold createEntity
  cases fieldOf data model.idName with
  | atom key => exact .inl ⟨key, rfl, .inl rfl⟩
  | undefined => exact .inl ⟨_, rfl, .inr ⟨rfl, fun _ h => by cases h⟩⟩
  | null => exact .inl ⟨_, rfl, .inr ⟨rfl, fun _ h => by cases h⟩⟩
  | _ => exact .inr ⟨_, rfl⟩

theorem createEntity_eq_ok {record : EntityRecord}
    (h : createEntity keys model data store = (.ok record, after)) :
    CreatedFrom model data record ∧ store.find record.id = none ∧
      after.rows = store.rows ++ [record] := by
  rcases createEntity_cases keys model data store with ⟨key, hinsert, hkey⟩ | ⟨e, herror⟩
  · rw [hinsert] at h
    obtain ⟨rfl, hnone, hrows⟩ := insertEntity_eq_ok h
    refine ⟨⟨rfl, ?_, fun p hp => if_neg hp⟩, hnone, hrows⟩
    intro a ha
    rcases hkey with hkey | ⟨-, hkey⟩
    · rw [hkey] at ha
      injection ha
    · exact absurd ha (hkey a)
  · rw [herror] at h
    cases (Prod.mk.inj h).1

theorem key_of_createEntity {record : EntityRecord}
    (h : createEntity keys model data store = (.ok record, after)) :
    fieldOf data model.idName = .atom record.key ∨ record.key = keys.newKey store model := by
  rcases createEntity_cases keys model data store with ⟨key, hinsert, hkey⟩ | ⟨e, herror⟩
  · rw [hinsert] at h
    obtain ⟨rfl, -, -⟩ := insertEntity_eq_ok h
    rcases hkey with hkey | ⟨hkey, -⟩
    · exact .inl hkey
    · exact .inr hkey
  · rw [herror] at h
    cases (Prod.mk.inj h).1

/-- An entity that is not created leaves the store as it was. -/
theorem createEntity_eq_error {e : HttpError}
    (h : createEntity keys model data store = (.error e, after)) : after = store := by
  rcases createEntity_cases keys model data store with ⟨key, hinsert, -⟩ | ⟨_, herror⟩
  · rw [hinsert] at h
    exact insertEntity_eq_error h
  · rw [herror] at h
    exact (Prod.mk.inj h).2.symm

end Create

theorem relationCreate_eq_ok {ι : Type} {data : DataModel ι} {keys : KeyGenerator}
    {relation : RelationDefinition ι} {parentId : JsValue} {payload : JsonObject}
    {store after : Store} {record : EntityRecord}
    (h : relationCreate data keys relation parentId payload store = (.ok record, after)) :
    ∃ constrained, CreatedFrom (data.model relation.target) constrained record ∧
      fieldOf constrained relation.keyTo = parentId ∧
      (∀ p, p ≠ relation.keyTo → fieldOf constrained p = fieldOf payload p) ∧
      store.find record.id = none ∧ after.rows = store.rows ++ [record] := by
  unfold relationCreate at h
  rw [Effect.ok_bind_iff] at h
  obtain ⟨constrained, between, hconstrain, hcreate⟩ := h
  rw [Effect.ok_ofExcept_iff] at hconstrain
  obtain ⟨hconstrain, rfl⟩ := hconstrain
  obtain ⟨hkeyTo, hothers⟩ := constrainDataObject_eq_ok hconstrain
  obtain ⟨hcreated, hfresh, hrows⟩ := createEntity_eq_ok hcreate
  exact ⟨constrained, hcreated, hkeyTo, hothers, hfresh, hrows⟩

theorem key_of_relationCreate {ι : Type} {data : DataModel ι} {keys : KeyGenerator}
    {relation : RelationDefinition ι} {parentId : JsValue} {payload : JsonObject}
    (hkeyTo : relation.keyTo ≠ (data.model relation.target).idName)
    {store after : Store} {record : EntityRecord}
    (h : relationCreate data keys relation parentId payload store = (.ok record, after)) :
    fieldOf payload (data.model relation.target).idName = .atom record.key ∨
      record.key = keys.newKey store (data.model relation.target) := by
  unfold relationCreate at h
  rw [Effect.ok_bind_iff] at h
  obtain ⟨constrained, between, hconstrain, hcreate⟩ := h
  rw [Effect.ok_ofExcept_iff] at hconstrain
  obtain ⟨hconstrain, rfl⟩ := hconstrain
  rw [← (constrainDataObject_eq_ok hconstrain).2 _ (Ne.symm hkeyTo)]
  exact key_of_createEntity hcreate

theorem relationCreate_eq_error {ι : Type} {data : DataModel ι} {keys : KeyGenerator}
    {relation : RelationDefinition ι} {parentId : JsValue} {payload : JsonObject}
    {store after : Store} {e : HttpError}
    (h : relationCreate data keys relation parentId payload store = (.error e, after)) :
    after = store := by
  unfold relationCreate at h
  rw [Effect.bind_apply, Effect.ofExcept] at h
  split at h
  · next hconstrain =>
    rw [← (Prod.mk.inj hconstrain).2] at h
    exact createEntity_eq_error h
  · next hconstrain =>
    rw [← (Prod.mk.inj h).2]
    exact (Prod.mk.inj hconstrain).2.symm

end LoopbackOData
