import LoopbackOData.Entities.DataModel
import LoopbackOData.Entities.References

/-!
# Deep insert

A `POST` with nested entities creates one entity for each object of its payload.
-/

namespace LoopbackOData

set_option autoImplicit false

section Insert

variable {ι : Type} (env : Environment) (data : DataModel ι) (keys : KeyGenerator)

/-- What `entityClass.getIdOf(entity)` and the class of the controller say about an entity. -/
def extractEntityId (getIdOf : ι → EntityRecord → Option Atom) (root i : ι)
    (entity : EntityRecord) : Option Atom :=
  match getIdOf root entity with
  | some id => some id
  | none => match toPlainEntity env (data.model i) entity (data.model root).idName with
    | .atom id => some id
    | _ => none

/-- The loop over the relations of a payload. -/
def forRelations (persist : RelationDefinition ι → Atom → JsValue → StoreEffect PUnit)
    (parentId : Atom) (children : List (RelationDefinition ι × JsValue)) : StoreEffect PUnit :=
  Effect.each (fun (relation, value) =>
    if value.isNullish then pure ⟨⟩
    else if relation.type.targetsMany then
      Effect.each (fun entry => if entry.isNullish then pure ⟨⟩ else persist relation parentId entry)
        (itemsOf value)
    else persist relation parentId value) children

variable (getIdOf : ι → EntityRecord → Option Atom) (root : ι) (maxDepth : Nat)

/-- One entity of a relation, and those nested in it. -/
def createAndRecurse (persist : RelationDefinition ι → Atom → JsValue → StoreEffect PUnit)
    (relation : RelationDefinition ι) (parentId : Atom) (item : JsValue) : StoreEffect PUnit := do
  let payload ← Effect.ofExcept (coercePayloadToObject item)
  let normalized := normalizeDeepInsertPayload (data.relations relation.target) payload
  let createdChild ← relationCreate data keys relation (.atom parentId) normalized.root
  if normalized.children.isEmpty then pure ⟨⟩
  else match extractEntityId env data getIdOf root relation.target createdChild with
    | none => Effect.fail ⟨400, "Unable to determine identifier for nested entity on relation " ++
        String.ofList relation.name ++ "."⟩
    | some childId => forRelations persist childId normalized.children

/-- The depth is counted down: none is left when it is over the maximum. -/
def persistDeepInsertGraph : Nat → RelationDefinition ι → Atom → JsValue → StoreEffect PUnit
  | 0, _, _, _ => Effect.fail
      ⟨400, "Deep insert exceeds maximum supported depth of " ++ toString maxDepth ++ "."⟩
  | remaining + 1, relation, parentId, value =>
    if relation.type ≠ .hasMany ∧ relation.type ≠ .hasOne then
      Effect.fail ⟨400, "Deep insert is only supported for hasOne/hasMany relations. Relation " ++
        String.ofList relation.name ++ " uses another type."⟩
    else if relation.type.targetsMany then
      Effect.each (fun item =>
        if item.isNullish then pure ⟨⟩
        else createAndRecurse env data keys getIdOf root (persistDeepInsertGraph remaining) relation
          parentId item) (itemsOf value)
    else createAndRecurse env data keys getIdOf root (persistDeepInsertGraph remaining) relation
      parentId value

/-- `create`, for a body in JSON where deep insert is enabled. -/
def createDeep (value : JsValue) : StoreEffect EntityRecord := do
  let payload ← Effect.ofExcept (coercePayloadToObject value)
  let normalized := normalizeDeepInsertPayload (data.relations root) payload
  let created ← createEntity keys (data.model root) normalized.root
  if normalized.children.isEmpty then pure created
  else match extractEntityId env data getIdOf root root created with
    | none => Effect.fail ⟨500, "Unable to determine entity id for deep insert."⟩
    | some parentId => do
      forRelations (persistDeepInsertGraph env data keys getIdOf root maxDepth maxDepth) parentId
        normalized.children
      pure created

end Insert

/-! ## The tree of a payload -/

section Tree

variable {ι : Type} (data : DataModel ι)

def objectOf : JsValue → Option JsonObject
  | .object fields => some fields
  | _ => none

/-- The values that stand for entities of a relation. -/
def entriesOf (relation : RelationDefinition ι) (value : JsValue) : List JsValue :=
  if relation.type.targetsMany then itemsOf value else [value]

def objectsOf (relation : RelationDefinition ι) (value : JsValue) : List JsonObject :=
  (entriesOf relation value).filterMap objectOf

def isArray : JsValue → Bool
  | .list _ => true
  | _ => false

/-- A payload that the schema of the request allows: arrays hold the entities of a relation to many,
and stand nowhere else. -/
inductive ConformsToSchema : ι → JsonObject → Prop where
  | intro {i : ι} {payload : JsonObject} :
    (∀ relation ∈ data.relations i, ∀ entry ∈ entriesOf relation (fieldOf payload relation.name),
      isArray entry = false) →
    (∀ relation ∈ data.relations i, ∀ nested ∈ objectsOf relation (fieldOf payload relation.name),
      ConformsToSchema relation.target nested) →
    ConformsToSchema i payload

/-- The payload has an object at a level, itself being at level zero. -/
inductive HasObjectAt : ι → JsonObject → Nat → Prop where
  | root {i : ι} {payload : JsonObject} : HasObjectAt i payload 0
  | nested {i : ι} {payload nested : JsonObject} {relation : RelationDefinition ι} {n : Nat} :
    relation ∈ data.relations i → nested ∈ objectsOf relation (fieldOf payload relation.name) →
    HasObjectAt relation.target nested n → HasObjectAt i payload (n + 1)

/-- The scalar properties of a payload. -/
def scalarOf (i : ι) (payload : JsonObject) (p : Text) : JsValue :=
  if (data.relations i).any fun relation => relation.name = p then .undefined else fieldOf payload p

/-- The foreign key that links an entity to the entity of the enclosing object. -/
abbrev ParentLink := Option (Text × Atom)

mutual

/-- An object is stored as one entity, with its scalars and linked to its parent, and its nested
objects are stored behind it. -/
inductive StoresObject : ι → ParentLink → JsonObject → List EntityRecord → Prop where
  | intro {i : ι} {link : ParentLink} {payload : JsonObject} {record : EntityRecord}
      {records : List EntityRecord} :
    record.setName = (data.model i).setName →
    (∀ a, scalarOf data i payload (data.model i).idName = .atom a → record.key = a) →
    (∀ p, p ≠ (data.model i).idName → (∀ parentId, link ≠ some (p, parentId)) →
      record.fields p = scalarOf data i payload p) →
    (∀ keyTo parentId, link = some (keyTo, parentId) → record.fields keyTo = .atom parentId) →
    StoresRelations record.key payload (data.relations i) records →
    StoresObject i link payload (record :: records)

inductive StoresRelations : Atom → JsonObject → List (RelationDefinition ι) → List EntityRecord →
    Prop where
  | nil {parentId : Atom} {payload : JsonObject} : StoresRelations parentId payload [] []
  | cons {parentId : Atom} {payload : JsonObject} {relation : RelationDefinition ι}
      {relations : List (RelationDefinition ι)} {records records' : List EntityRecord} :
    StoresObjects relation parentId (objectsOf relation (fieldOf payload relation.name)) records →
    StoresRelations parentId payload relations records' →
    StoresRelations parentId payload (relation :: relations) (records ++ records')

inductive StoresObjects : RelationDefinition ι → Atom → List JsonObject → List EntityRecord →
    Prop where
  | nil {relation : RelationDefinition ι} {parentId : Atom} : StoresObjects relation parentId [] []
  | cons {relation : RelationDefinition ι} {parentId : Atom} {payload : JsonObject}
      {payloads : List JsonObject} {records records' : List EntityRecord} :
    StoresObject relation.target (some (relation.keyTo, parentId)) payload records →
    StoresObjects relation parentId payloads records' →
    StoresObjects relation parentId (payload :: payloads) (records ++ records')

end

end Tree

/-! ## What is stored -/

section Stored

variable {ι : Type} {data : DataModel ι}

theorem StoresObjects.append {relation : RelationDefinition ι} {parentId : Atom}
    {payloads payloads' : List JsonObject} {records records' : List EntityRecord}
    (h : StoresObjects data relation parentId payloads records)
    (h' : StoresObjects data relation parentId payloads' records') :
    StoresObjects data relation parentId (payloads ++ payloads') (records ++ records') := by
  induction payloads generalizing records with
  | nil =>
    cases h
    exact h'
  | cons payload payloads ih =>
    cases h with
    | cons hpayload hpayloads =>
      rw [List.append_assoc]
      exact .cons hpayload (ih hpayloads)

/-- The objects of a relation are stored behind what was there, and none of them nests more objects
than there are levels. -/
def Stored (data : DataModel ι) (levels : Nat) (relation : RelationDefinition ι) (parentId : Atom)
    (payloads : List JsonObject) (store after : Store) : Prop :=
  ∃ records, after.rows = store.rows ++ records ∧
    StoresObjects data relation parentId payloads records ∧
    ∀ payload ∈ payloads, ∀ n, HasObjectAt data relation.target payload n → n < levels

theorem Stored.nil {levels : Nat} {relation : RelationDefinition ι} {parentId : Atom}
    {store : Store} : Stored data levels relation parentId [] store store :=
  ⟨[], (List.append_nil _).symm, .nil, fun _ h => absurd h List.not_mem_nil⟩

theorem Stored.append {levels : Nat} {relation : RelationDefinition ι} {parentId : Atom}
    {payloads payloads' : List JsonObject} {store between after : Store}
    (h : Stored data levels relation parentId payloads store between)
    (h' : Stored data levels relation parentId payloads' between after) :
    Stored data levels relation parentId (payloads ++ payloads') store after := by
  obtain ⟨records, hrows, hstores, hlevels⟩ := h
  obtain ⟨records', hrows', hstores', hlevels'⟩ := h'
  refine ⟨records ++ records', ?_, hstores.append hstores', ?_⟩
  · rw [hrows', hrows, List.append_assoc]
  · intro payload hmem
    rcases List.mem_append.mp hmem with hmem | hmem
    · exact hlevels payload hmem
    · exact hlevels' payload hmem

/-- The loop over the entities of a relation. -/
theorem stored_of_each {levels : Nat} {relation : RelationDefinition ι} {parentId : Atom}
    {f : JsValue → StoreEffect PUnit} {entries : List JsValue} {store after : Store}
    (hf : ∀ entry ∈ entries, ∀ before after, f entry before = (.ok ⟨⟩, after) →
      Stored data levels relation parentId (objectOf entry).toList before after)
    (h : Effect.each f entries store = (.ok ⟨⟩, after)) :
    Stored data levels relation parentId (entries.filterMap objectOf) store after := by
  induction entries generalizing store with
  | nil =>
    obtain rfl := Effect.ok_each_nil_iff.mp h
    exact Stored.nil
  | cons entry entries ih =>
    obtain ⟨between, hentry, hentries⟩ := Effect.ok_each_cons_iff.mp h
    have hfirst := hf entry List.mem_cons_self store between hentry
    have hrest := ih (fun other hother => hf other (List.mem_cons_of_mem entry hother)) hentries
    have hsplit : (entry :: entries).filterMap objectOf =
        (objectOf entry).toList ++ entries.filterMap objectOf := by
      rw [List.filterMap_cons]
      cases objectOf entry <;> rfl
    rw [hsplit]
    exact hfirst.append hrest

/-! ### Relations of a payload -/

theorem objectOf_of_isNullish {value : JsValue} (h : value.isNullish = true) :
    objectOf value = none := by
  cases value <;> first | rfl | cases h

theorem objectsOf_of_isNullish {relation : RelationDefinition ι} {value : JsValue}
    (h : value.isNullish = true) : objectsOf relation value = [] := by
  have hentries : entriesOf relation value = [value] := by
    unfold entriesOf itemsOf
    split
    · split
      · cases h
      · rfl
    · rfl
  rw [objectsOf, hentries, List.filterMap_cons_none (objectOf_of_isNullish h)]
  rfl

theorem entriesOf_of_not_isArray {relation : RelationDefinition ι} {value : JsValue}
    (h : isArray value = false) : entriesOf relation value = [value] := by
  unfold entriesOf itemsOf
  split
  · split
    · cases h
    · rfl
  · rfl

theorem objectsOf_of_not_isArray {relation : RelationDefinition ι} {value : JsValue}
    (h : isArray value = false) : objectsOf relation value = (objectOf value).toList := by
  rw [objectsOf, entriesOf_of_not_isArray h, List.filterMap_cons]
  cases objectOf value <;> rfl

theorem fieldOf_of_not_hasField {object : JsonObject} {name : Text}
    (h : hasField object name = false) : fieldOf object name = .undefined := by
  have hnone : object.find? (fun field => field.1 = name) = none := by
    rw [List.find?_eq_none]
    intro field hfield hname
    have := List.any_eq_false.mp h field hfield
    exact this hname
  rw [fieldOf, hnone]
  rfl

theorem fieldOf_normalizeDeepInsertPayload (i : ι) (payload : JsonObject) (p : Text) :
    fieldOf (normalizeDeepInsertPayload (data.relations i) payload).root p =
      scalarOf data i payload p := by
  unfold normalizeDeepInsertPayload scalarOf
  dsimp only
  rw [fieldOf_filter fun name => !(data.relations i).any fun relation => relation.name = name]
  cases (data.relations i).any fun relation => decide (relation.name = p) <;> rfl

/-- What holds of a relation and its value in a payload: arrays stand only where the relation is to
many, and the objects conform in turn. -/
structure Conforms (data : DataModel ι) (relation : RelationDefinition ι) (value : JsValue) :
    Prop where
  keyTo_ne : relation.keyTo ≠ (data.model relation.target).idName
  entries : ∀ entry ∈ entriesOf relation value, isArray entry = false
  objects : ∀ payload ∈ objectsOf relation value, ConformsToSchema data relation.target payload

theorem ConformsToSchema.conforms {i : ι} {payload : JsonObject}
    (h : ConformsToSchema data i payload) {relation : RelationDefinition ι}
    (hrelation : relation ∈ data.relations i) :
    Conforms data relation (fieldOf payload relation.name) := by
  cases h with
  | intro hentries hnested =>
    exact ⟨data.keyTo_ne i relation hrelation, hentries relation hrelation,
      hnested relation hrelation⟩

theorem Conforms.entry {relation : RelationDefinition ι} {value entry : JsValue}
    (h : Conforms data relation value) (hentry : entry ∈ entriesOf relation value) :
    Conforms data relation entry := by
  have harray := h.entries entry hentry
  refine ⟨h.keyTo_ne, ?_, ?_⟩
  · intro other hother
    rw [entriesOf_of_not_isArray harray, List.mem_singleton] at hother
    rw [hother]
    exact harray
  · intro payload hpayload
    rw [objectsOf_of_not_isArray harray, Option.mem_toList] at hpayload
    exact h.objects payload (List.mem_filterMap.mpr ⟨entry, hentry, hpayload⟩)

/-- A program that stores the objects of any relation. -/
def Persists (data : DataModel ι) (levels : Nat)
    (persist : RelationDefinition ι → Atom → JsValue → StoreEffect PUnit) : Prop :=
  ∀ relation parentId value store after, Conforms data relation value →
    persist relation parentId value store = (.ok ⟨⟩, after) →
    Stored data levels relation parentId (objectsOf relation value) store after

/-- The relations of a payload are stored, with fewer nested objects than there are levels. -/
def StoredRelations (data : DataModel ι) (levels : Nat) (parentId : Atom) (payload : JsonObject)
    (relations : List (RelationDefinition ι)) (store after : Store) : Prop :=
  ∃ records, after.rows = store.rows ++ records ∧
    StoresRelations data parentId payload relations records ∧
    ∀ relation ∈ relations, ∀ nested ∈ objectsOf relation (fieldOf payload relation.name), ∀ n,
      HasObjectAt data relation.target nested n → n < levels

theorem StoredRelations.cons {levels : Nat} {parentId : Atom} {payload : JsonObject}
    {relation : RelationDefinition ι} {relations : List (RelationDefinition ι)}
    {store between after : Store}
    (h : Stored data levels relation parentId (objectsOf relation (fieldOf payload relation.name))
      store between)
    (h' : StoredRelations data levels parentId payload relations between after) :
    StoredRelations data levels parentId payload (relation :: relations) store after := by
  obtain ⟨records, hrows, hstores, hlevels⟩ := h
  obtain ⟨records', hrows', hstores', hlevels'⟩ := h'
  refine ⟨records ++ records', ?_, .cons hstores hstores', ?_⟩
  · rw [hrows', hrows, List.append_assoc]
  · intro other hother
    rcases List.mem_cons.mp hother with rfl | hother
    · exact hlevels
    · exact hlevels' other hother

theorem storedRelations_of_forRelations {levels : Nat}
    {persist : RelationDefinition ι → Atom → JsValue → StoreEffect PUnit}
    (hpersist : Persists data levels persist) {parentId : Atom} {payload : JsonObject}
    {relations : List (RelationDefinition ι)}
    (hconforms : ∀ relation ∈ relations, Conforms data relation (fieldOf payload relation.name))
    {store after : Store}
    (h : forRelations persist parentId (normalizeDeepInsertPayload relations payload).children store
      = (.ok ⟨⟩, after)) :
    StoredRelations data levels parentId payload relations store after := by
  unfold forRelations normalizeDeepInsertPayload at h
  dsimp only at h
  induction relations generalizing store with
  | nil =>
    obtain rfl := Effect.ok_each_nil_iff.mp h
    exact ⟨[], (List.append_nil _).symm, .nil, fun _ h => absurd h List.not_mem_nil⟩
  | cons relation relations ih =>
    have hrelation := hconforms relation List.mem_cons_self
    have hothers' : ∀ other ∈ relations, Conforms data other (fieldOf payload other.name) :=
      fun other hother => hconforms other (List.mem_cons_of_mem relation hother)
    by_cases hfield : hasField payload relation.name = true
    · rw [List.filter_cons_of_pos (by exact hfield), List.map_cons, Effect.ok_each_cons_iff] at h
      obtain ⟨between, hvalue, hothers⟩ := h
      refine StoredRelations.cons ?_ (ih hothers' hothers)
      by_cases hnull : (fieldOf payload relation.name).isNullish = true
      · rw [if_pos hnull, Effect.ok_pure_iff] at hvalue
        obtain ⟨-, rfl⟩ := hvalue
        rw [objectsOf_of_isNullish hnull]
        exact Stored.nil
      · rw [if_neg hnull] at hvalue
        by_cases hmany : relation.type.targetsMany = true
        · have hentries : entriesOf relation (fieldOf payload relation.name) =
              itemsOf (fieldOf payload relation.name) := if_pos hmany
          rw [if_pos hmany, ← hentries] at hvalue
          refine stored_of_each ?_ hvalue
          intro entry hentry before after h
          rw [← @objectsOf_of_not_isArray _ relation _ (hrelation.entries entry hentry)]
          by_cases hskip : entry.isNullish = true
          · rw [if_pos hskip, Effect.ok_pure_iff] at h
            obtain ⟨-, rfl⟩ := h
            rw [objectsOf_of_isNullish hskip]
            exact Stored.nil
          · rw [if_neg hskip] at h
            exact hpersist relation parentId entry before after (hrelation.entry hentry) h
        · rw [if_neg hmany] at hvalue
          exact hpersist relation parentId _ store between hrelation hvalue
    · rw [List.filter_cons_of_neg (by exact hfield)] at h
      have hmissing := fieldOf_of_not_hasField (Bool.eq_false_iff.mpr hfield)
      refine StoredRelations.cons ?_ (ih hothers' h)
      rw [hmissing, objectsOf_of_isNullish rfl]
      exact Stored.nil

/-! ### Entities with their relations -/

section Entities

variable {env : Environment} {keys : KeyGenerator} {getIdOf : ι → EntityRecord → Option Atom}
  {root : ι}

/-- Whether or not a payload names relations, all of its relations are stored. -/
theorem storedRelations_of_children {levels : Nat}
    {persist : RelationDefinition ι → Atom → JsValue → StoreEffect PUnit}
    (hpersist : Persists data levels persist) {i : ι} {payload : JsonObject}
    (hshape : ConformsToSchema data i payload) {parentId : Atom} {store after : Store}
    (h : ((normalizeDeepInsertPayload (data.relations i) payload).children.isEmpty = true ∧
        store = after) ∨
      forRelations persist parentId (normalizeDeepInsertPayload (data.relations i) payload).children
        store = (.ok ⟨⟩, after)) :
    StoredRelations data levels parentId payload (data.relations i) store after := by
  refine storedRelations_of_forRelations hpersist (fun relation => hshape.conforms) ?_
  rcases h with ⟨hempty, rfl⟩ | h
  · rw [List.isEmpty_iff.mp hempty]
    exact Effect.ok_each_nil_iff.mpr rfl
  · exact h

/-- An entity and the relations of its payload, read as the tree of the payload. -/
theorem storesObject_of_created (link : ParentLink) {levels : Nat} {i : ι} {payload : JsonObject}
    {record : EntityRecord} {store between after : Store}
    (hsetName : record.setName = (data.model i).setName)
    (hkey : ∀ a, scalarOf data i payload (data.model i).idName = .atom a → record.key = a)
    (hfields : ∀ p, p ≠ (data.model i).idName → (∀ parentId, link ≠ some (p, parentId)) →
      record.fields p = scalarOf data i payload p)
    (hlink : ∀ keyTo parentId, link = some (keyTo, parentId) →
      record.fields keyTo = .atom parentId)
    (hrows : between.rows = store.rows ++ [record])
    (h : StoredRelations data levels record.key payload (data.relations i) between after) :
    ∃ records, after.rows = store.rows ++ record :: records ∧
      StoresObject data i link payload (record :: records) ∧
      ∀ n, HasObjectAt data i payload n → n ≤ levels := by
  obtain ⟨records, hrows', hstores, hlevels⟩ := h
  refine ⟨records, ?_, .intro hsetName hkey hfields hlink hstores, ?_⟩
  · rw [hrows', hrows, List.append_assoc, List.singleton_append]
  · intro n hn
    cases hn with
    | root => exact Nat.zero_le levels
    | nested hrelation hnested hn => exact hlevels _ hrelation _ hnested _ hn

theorem extractEntityId_of_getIdOf
    (hgetId : ∀ i record, getIdOf i record = some record.key) (i : ι) (record : EntityRecord) :
    extractEntityId env data getIdOf root i record = some record.key := by
  rw [extractEntityId, hgetId]

theorem stored_of_createAndRecurse (hgetId : ∀ i record, getIdOf i record = some record.key)
    {levels : Nat} {persist : RelationDefinition ι → Atom → JsValue → StoreEffect PUnit}
    (hpersist : Persists data levels persist) {relation : RelationDefinition ι} {parentId : Atom}
    {item : JsValue} (hitem : Conforms data relation item) (harray : isArray item = false)
    {store after : Store}
    (h : createAndRecurse env data keys getIdOf root persist relation parentId item store =
      (.ok ⟨⟩, after)) :
    Stored data (levels + 1) relation parentId (objectOf item).toList store after := by
  unfold createAndRecurse at h
  simp only [Effect.ok_bind_iff, Effect.ok_ofExcept_iff] at h
  obtain ⟨payload, _, ⟨hpayload, rfl⟩, record, between, hcreate, hchildren⟩ := h
  have hobject : item = .object payload := by
    cases item with
    | object fields =>
      obtain rfl := Except.ok.inj hpayload
      rfl
    | list items => cases harray
    | _ => cases hpayload
  subst hobject
  have hshape : ConformsToSchema data relation.target payload := by
    apply hitem.objects
    rw [objectsOf_of_not_isArray harray]
    exact List.mem_singleton_self payload
  rw [extractEntityId_of_getIdOf hgetId] at hchildren
  have hrelations : StoredRelations data levels record.key payload (data.relations relation.target)
      between after := by
    refine storedRelations_of_children hpersist hshape ?_
    split at hchildren
    · next hempty =>
      rw [Effect.ok_pure_iff] at hchildren
      exact .inl ⟨hempty, hchildren.2⟩
    · exact .inr hchildren
  obtain ⟨constrained, hcreated, hkeyTo, hothers, -, hrows⟩ := relationCreate_eq_ok hcreate
  have hscalars {p : Text} (hp : p ≠ relation.keyTo) :
      fieldOf constrained p = scalarOf data relation.target payload p := by
    rw [hothers p hp, fieldOf_normalizeDeepInsertPayload]
  obtain ⟨records, hafter, hstores, hlevels⟩ := storesObject_of_created
    (some (relation.keyTo, parentId)) hcreated.setName
    (fun a ha => hcreated.key a ((hscalars (Ne.symm hitem.keyTo_ne)).trans ha))
    (fun p hp hlink => by
      have hne : p ≠ relation.keyTo := fun heq => hlink parentId (by rw [heq])
      rw [hcreated.fields p hp, hscalars hne])
    (fun keyTo parentId' hlink => by
      obtain ⟨rfl, rfl⟩ := Prod.mk.inj (Option.some.inj hlink)
      rw [hcreated.fields _ hitem.keyTo_ne, hkeyTo])
    hrows hrelations
  refine ⟨record :: records, hafter, ?_, ?_⟩
  · have := StoresObjects.cons hstores StoresObjects.nil
    rwa [List.append_nil] at this
  · intro nested hnested n hn
    obtain rfl := List.mem_singleton.mp hnested
    exact Nat.lt_succ_of_le (hlevels n hn)

/-- Each level that is left allows one more object in each other. -/
theorem persists_persistDeepInsertGraph
    (hgetId : ∀ i record, getIdOf i record = some record.key) (maxDepth remaining : Nat) :
    Persists data remaining
      (persistDeepInsertGraph env data keys getIdOf root maxDepth remaining) := by
  induction remaining with
  | zero =>
    intro relation parentId value store after _ h
    exact absurd h Effect.not_ok_fail
  | succ remaining ih =>
    intro relation parentId value store after hvalue h
    rw [persistDeepInsertGraph] at h
    by_cases htype : relation.type ≠ .hasMany ∧ relation.type ≠ .hasOne
    · rw [if_pos htype] at h
      exact absurd h Effect.not_ok_fail
    rw [if_neg htype] at h
    by_cases hmany : relation.type.targetsMany = true
    · have hentries : entriesOf relation value = itemsOf value := if_pos hmany
      rw [if_pos hmany, ← hentries] at h
      refine stored_of_each ?_ h
      intro entry hentry before after h
      by_cases hskip : entry.isNullish = true
      · rw [if_pos hskip, Effect.ok_pure_iff] at h
        obtain ⟨-, rfl⟩ := h
        rw [objectOf_of_isNullish hskip]
        exact Stored.nil
      · rw [if_neg hskip] at h
        exact stored_of_createAndRecurse hgetId ih (hvalue.entry hentry)
          (hvalue.entries entry hentry) h
    · have hentries : entriesOf relation value = [value] := if_neg hmany
      have harray : isArray value = false := by
        apply hvalue.entries
        rw [hentries]
        exact List.mem_singleton_self value
      rw [if_neg hmany] at h
      rw [objectsOf_of_not_isArray harray]
      exact stored_of_createAndRecurse hgetId ih hvalue harray h

/-- What a deep insert that succeeds has stored. -/
theorem storesObject_of_createDeep (hgetId : ∀ i record, getIdOf i record = some record.key)
    (maxDepth : Nat) {payload : JsonObject} (hshape : ConformsToSchema data root payload)
    {store after : Store} {created : EntityRecord}
    (h : createDeep env data keys getIdOf root maxDepth (.object payload) store =
      (.ok created, after)) :
    ∃ records, after.rows = store.rows ++ created :: records ∧
      StoresObject data root none payload (created :: records) ∧
      ∀ n, HasObjectAt data root payload n → n ≤ maxDepth := by
  unfold createDeep at h
  simp only [Effect.ok_bind_iff, Effect.ok_ofExcept_iff] at h
  obtain ⟨_, _, ⟨hpayload, rfl⟩, record, between, hcreate, hchildren⟩ := h
  obtain rfl := Except.ok.inj hpayload
  rw [extractEntityId_of_getIdOf hgetId] at hchildren
  have hpersists : Persists data maxDepth
      (persistDeepInsertGraph env data keys getIdOf root maxDepth maxDepth) :=
    persists_persistDeepInsertGraph hgetId maxDepth maxDepth
  obtain ⟨rfl, hrelations⟩ : record = created ∧
      StoredRelations data maxDepth record.key payload (data.relations root) between after := by
    split at hchildren
    · next hempty =>
      rw [Effect.ok_pure_iff] at hchildren
      exact ⟨hchildren.1, storedRelations_of_children hpersists hshape
        (.inl ⟨hempty, hchildren.2⟩)⟩
    · dsimp only at hchildren
      rw [Effect.ok_bind_iff] at hchildren
      obtain ⟨⟨⟩, last, hrelations, hcreated⟩ := hchildren
      rw [Effect.ok_pure_iff] at hcreated
      obtain ⟨rfl, rfl⟩ := hcreated
      exact ⟨rfl, storedRelations_of_children hpersists hshape (.inr hrelations)⟩
  obtain ⟨hcreated, -, hrows⟩ := createEntity_eq_ok hcreate
  refine storesObject_of_created none hcreated.setName ?_ ?_ ?_ hrows hrelations
  · intro a ha
    apply hcreated.key
    rw [fieldOf_normalizeDeepInsertPayload, ha]
  · intro p hp _
    rw [hcreated.fields p hp, fieldOf_normalizeDeepInsertPayload]
  · intro keyTo parentId hlink
    cases hlink

end Entities

end Stored

/-- A deep insert stores the tree of its payload: one entity for each object, with its scalars and
linked to the entity of the object around it. A payload with more levels than allowed is refused,
and nothing of it is stored. -/
theorem createDeep_stores_tree {ι : Type} (env : Environment) (data : DataModel ι)
    (keys : KeyGenerator) (getIdOf : ι → EntityRecord → Option Atom) (root : ι) (maxDepth : Nat)
    (payload : JsonObject) (store : Store)
    (hgetId : ∀ i record, getIdOf i record = some record.key)
    (hshape : ConformsToSchema data root payload) :
    (∀ enabled created after,
      Effect.transaction enabled (createDeep env data keys getIdOf root maxDepth (.object payload))
        store = (.ok created, after) →
      ∃ records, after.rows = store.rows ++ created :: records ∧
        StoresObject data root none payload (created :: records)) ∧
    (HasObjectAt data root payload (maxDepth + 1) →
      ∃ e, Effect.transaction true
        (createDeep env data keys getIdOf root maxDepth (.object payload)) store =
          (.error e, store)) := by
  constructor
  · intro enabled created after h
    rw [Effect.ok_transaction_iff] at h
    obtain ⟨records, hrows, hstores, -⟩ := storesObject_of_createDeep hgetId maxDepth hshape h
    exact ⟨records, hrows, hstores⟩
  · intro hdeep
    apply Effect.transaction_of_not_ok
    intro created after h
    obtain ⟨-, -, -, hlevels⟩ := storesObject_of_createDeep hgetId maxDepth hshape h
    have := hlevels _ hdeep
    omega

/-! ## Customers with invoices -/

/-- The number after the largest of a list. -/
def nextNumber (store : Store) : ℚ :=
  store.rows.foldr (fun record largest => match record.key with
    | .num q => max q largest
    | _ => largest) 0 + 1

theorem lt_nextNumber {store : Store} {record : EntityRecord} (hmem : record ∈ store.rows) {q : ℚ}
    (hkey : record.key = .num q) : q < nextNumber store := by
  unfold nextNumber
  have hle : ∀ rows : List EntityRecord, record ∈ rows →
      q ≤ rows.foldr (fun record largest => match record.key with
        | .num q => max q largest
        | _ => largest) 0 := by
    intro rows
    induction rows with
    | nil => exact fun h => absurd h List.not_mem_nil
    | cons row rows ih =>
      intro h
      rw [List.foldr_cons]
      rcases List.mem_cons.mp h with rfl | h
      · rw [hkey]
        exact le_max_left _ _
      · have := ih h
        split
        · exact le_max_of_le_right this
        · exact this
  exact lt_of_le_of_lt (hle _ hmem) (lt_add_one _)

def numberGenerator : KeyGenerator where
  newKey store _ := .num (nextNumber store)
  fresh store model := by
    rw [Table.find_eq_none_iff]
    intro record hmem hid
    have hkey : record.key = .num (nextNumber store) := congrArg Prod.snd hid
    exact lt_irrefl _ (lt_nextNumber hmem hkey)

inductive SalesClass where
  | customer | invoice | line
  deriving DecidableEq

def invoiceModel : ModelDefinition where
  setName := "Invoices".toList
  idName := "number".toList
  properties := [("number".toList, stringKey), ("customerId".toList, stringKey)]
  names_nodup := by decide

def lineModel : ModelDefinition where
  setName := "Lines".toList
  idName := "id".toList
  properties := [("id".toList, stringKey), ("invoiceNumber".toList, stringKey),
    ("note".toList, stringKey)]
  names_nodup := by decide

def customerInvoices : RelationDefinition SalesClass where
  name := "invoices".toList
  type := .hasMany
  target := .invoice
  keyTo := "customerId".toList
  through := false

def invoiceLines : RelationDefinition SalesClass where
  name := "lines".toList
  type := .hasMany
  target := .line
  keyTo := "invoiceNumber".toList
  through := false

def salesModel : DataModel SalesClass where
  model
    | .customer => customerModel
    | .invoice => invoiceModel
    | .line => lineModel
  setName_injective i j := by cases i <;> cases j <;> decide
  relations
    | .customer => [customerInvoices]
    | .invoice => [invoiceLines]
    | .line => []
  relations_nodup i := by cases i <;> decide
  keyTo_ne i := by cases i <;> decide
  name_ne i := by cases i <;> decide

def invoicePayload : JsonObject := [("number".toList, .atom (.num 7))]

def customerPayload : JsonObject :=
  [("id".toList, .atom (.str "c1".toList)),
    ("invoices".toList, .list [.null, .object invoicePayload])]

theorem conformsToSchema_customerPayload :
    ConformsToSchema salesModel .customer customerPayload := by
  have hinvoice : ConformsToSchema salesModel .invoice invoicePayload := by
    refine .intro ?_ ?_
    · intro relation hrelation
      obtain rfl := List.mem_singleton.mp hrelation
      decide
    · intro relation hrelation nested hnested
      obtain rfl := List.mem_singleton.mp hrelation
      exact absurd hnested List.not_mem_nil
  refine .intro ?_ ?_
  · intro relation hrelation
    obtain rfl := List.mem_singleton.mp hrelation
    decide
  · intro relation hrelation nested hnested
    obtain rfl := List.mem_singleton.mp hrelation
    obtain rfl := List.mem_singleton.mp hnested
    exact hinvoice

theorem createDeep_stores_tree_customer :
    (∃ created records, ∃ after : Store, after.rows = created :: records ∧
      StoresObject salesModel .customer none customerPayload (created :: records)) ∧
    ∃ e, Effect.transaction true (createDeep Environment.ascii salesModel numberGenerator
      (fun _ record => some record.key) .customer 0 (.object customerPayload)) ⟨[], .nil⟩ =
        (.error e, ⟨[], .nil⟩) := by
  constructor
  · obtain ⟨records, hrows, hstores⟩ := (createDeep_stores_tree Environment.ascii salesModel
      numberGenerator (fun _ record => some record.key) .customer 1 customerPayload ⟨[], .nil⟩
      (fun _ _ => rfl) conformsToSchema_customerPayload).1 true _ _ rfl
    exact ⟨_, records, _, hrows, hstores⟩
  · exact (createDeep_stores_tree Environment.ascii salesModel numberGenerator
      (fun _ record => some record.key) .customer 0 customerPayload ⟨[], .nil⟩
      (fun _ _ => rfl) conformsToSchema_customerPayload).2
        (.nested List.mem_cons_self List.mem_cons_self .root)

end LoopbackOData
