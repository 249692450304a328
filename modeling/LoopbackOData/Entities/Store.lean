import LoopbackOData.Entities.Properties
import LoopbackOData.Library.Table

/-!
# Stored entities

The entities of a data source, and the plain object that the controller makes of one when it writes
it back.
-/

namespace LoopbackOData

set_option autoImplicit false

/-- The fields of an object, `undefined` where it has none. -/
abbrev PlainObject := Text → JsValue

def setField (fields : PlainObject) (name : Text) (value : JsValue) : PlainObject :=
  fun p => if p = name then value else fields p

@[simp] theorem setField_self (fields : PlainObject) (name : Text) (value : JsValue) :
    setField fields name value name = value := if_pos rfl

theorem setField_of_ne {name p : Text} (h : p ≠ name) (fields : PlainObject) (value : JsValue) :
    setField fields name value p = fields p := if_neg h

/-- `===` on values other than `null` and `undefined`. No date is the same object as another. -/
def strictlyEqual : JsValue → JsValue → Bool
  | .atom (.date _), _ => false
  | .atom a, .atom b => a = b
  | _, _ => false

def conflict {α : Type} (message : String) : Except HttpError α := .error ⟨409, message⟩

def notFound {α : Type} (message : String) : Except HttpError α := .error ⟨404, message⟩

/-- A model whose entities have a single key. -/
structure ModelDefinition where
  setName : Text
  idName : Text
  properties : List (Text × PropertyDefinition)
  names_nodup : (properties.map Prod.fst).Nodup

def ModelDefinition.definition (model : ModelDefinition) (name : Text) : Option PropertyDefinition :=
  (model.properties.find? fun property => property.1 = name).map Prod.snd

/-- The definition of the key, as the coercion of identifiers sees it. -/
def ModelDefinition.idDefinition (model : ModelDefinition) : PropertyDefinition :=
  (model.definition model.idName).getD { type := [] }

/-- An entity in the data source. The fields are those other than its key. -/
structure EntityRecord where
  setName : Text
  key : Atom
  fields : PlainObject

def EntityRecord.id (record : EntityRecord) : Text × Atom := (record.setName, record.key)

/-- The entities of all sets, in the order in which the data source finds them. -/
abbrev Store := Table EntityRecord (Text × Atom) EntityRecord.id

/-! ## Repositories -/

/-- `findById`, none where it throws. -/
def Store.findById (store : Store) (model : ModelDefinition) (id : JsValue) : Option EntityRecord :=
  match id with
  | .atom key => store.find (model.setName, key)
  | _ => none

def EntityRecord.withFields (fields : PlainObject) (record : EntityRecord) : EntityRecord :=
  { record with fields := fields }

theorem EntityRecord.id_withFields (fields : PlainObject) (record : EntityRecord) :
    (record.withFields fields).id = record.id := rfl

/-- `replaceById` stores exactly the given fields. -/
def Store.replaceById (store : Store) (model : ModelDefinition) (key : Atom) (fields : PlainObject) : Store :=
  store.modify (model.setName, key) (EntityRecord.withFields fields)
    (EntityRecord.id_withFields fields)

theorem Store.findById_eq_some {store : Store} {model : ModelDefinition} {id : JsValue}
    {record : EntityRecord} (h : store.findById model id = some record) :
    id = .atom record.key ∧ record.setName = model.setName ∧
      store.find (model.setName, record.key) = some record := by
  cases id with
  | atom key =>
    have hkey : record.id = (model.setName, key) := Table.key_of_find h
    obtain ⟨hset, rfl⟩ := Prod.mk.inj hkey
    exact ⟨rfl, hset, h⟩
  | _ => cases h

theorem Store.find_replaceById {store : Store} {model : ModelDefinition} {record : EntityRecord}
    (fields : PlainObject) (h : store.find (model.setName, record.key) = some record) :
    (store.replaceById model record.key fields).find (model.setName, record.key) =
      some (record.withFields fields) := by
  rw [Store.replaceById, Table.find_modify_self, h]
  rfl

theorem Store.find_replaceById_of_ne {store : Store} {model : ModelDefinition} {key : Atom}
    {id : Text × Atom} (fields : PlainObject) (h : id ≠ (model.setName, key)) :
    (store.replaceById model key fields).find id = store.find id :=
  Table.find_modify_of_ne h

/-! ## Plain objects -/

/-- `key.includes('@odata.')`. -/
def isAnnotationName (name : Text) : Bool :=
  @decide ("@odata.".toList <:+: name) (List.instDecidableIsInfixOfDecidableEq _ _)

mutual

/-- `stripODataAnnotations` inside the values of an object. -/
def stripValue : JsValue → JsValue
  | .list items => .list (stripItems items)
  | .object fields => .object (stripFields fields)
  | value => value

def stripItems : List JsValue → List JsValue
  | [] => []
  | item :: items => stripValue item :: stripItems items

def stripFields : List (Text × JsValue) → List (Text × JsValue)
  | [] => []
  | (name, value) :: fields =>
    if isAnnotationName name then stripFields fields
    else (name, stripValue value) :: stripFields fields

end

def stripODataAnnotations (target : PlainObject) : PlainObject :=
  fun p => if isAnnotationName p then .undefined else stripValue (target p)

def removeEntityIdProperties (model : ModelDefinition) (target : PlainObject) : PlainObject :=
  setField target model.idName .undefined

/-- `entity.toObject({})` has the key and the declared properties. -/
def toObject (model : ModelDefinition) (record : EntityRecord) : PlainObject := fun p =>
  if p = model.idName then .atom record.key
  else if (model.definition p).isSome then record.fields p
  else .undefined

section Plain

variable (env : Environment)

/-- One turn of `normalizeScalarProperties`. -/
def normalizeProperty (target : PlainObject) (property : Text × PropertyDefinition) : PlainObject :=
  let (name, definition) := property
  if (target name).isNullish then target
  else match classifyProperty definition with
    | none => target
    | some plan => match applyPropertyNormalization env (target name) plan with
      | none => target
      | some normalized =>
        let target := setField target name normalized.value
        match normalized.typeAnnotation with
        | some annotation =>
          setField target (name ++ "@odata.type".toList) (.atom (.str annotation))
        | none => target

def normalizeScalarProperties (model : ModelDefinition) (target : PlainObject) : PlainObject :=
  model.properties.foldl (normalizeProperty env) target

/-- `toPlainEntity`, on an entity that was found without its relations. -/
def toPlainEntity (model : ModelDefinition) (record : EntityRecord) : PlainObject :=
  normalizeScalarProperties env model (toObject model record)

/-- What the controller writes back of an entity that it has read. -/
def writtenBack (model : ModelDefinition) (record : EntityRecord) : PlainObject :=
  removeEntityIdProperties model (stripODataAnnotations (toPlainEntity env model record))

/-- The form of a value in a response. -/
def outputForm (definition : PropertyDefinition) (value : JsValue) : JsValue :=
  if value.isNullish then value
  else match classifyProperty definition with
    | none => value
    | some plan => ((applyPropertyNormalization env value plan).map (·.value)).getD value

variable {env}

theorem isAnnotationName_of_not_mem {name : Text} (h : '@' ∉ name) :
    isAnnotationName name = false := by
  have hnot : ¬ "@odata.".toList <:+: name := by
    intro hinside
    have hmem : '@' ∈ "@odata.".toList := by decide
    exact h (hinside.subset hmem)
  simp only [isAnnotationName, hnot, decide_false]

theorem isAnnotationName_append (name : Text) :
    isAnnotationName (name ++ "@odata.type".toList) = true := by
  have hinside : "@odata.".toList <:+: name ++ "@odata.type".toList := ⟨name, "type".toList, by simp⟩
  simp only [isAnnotationName, hinside, decide_true]

theorem normalizeProperty_self {target : PlainObject} {name : Text} (definition : PropertyDefinition)
    (hname : isAnnotationName name = false) :
    normalizeProperty env target (name, definition) name = outputForm env definition (target name) := by
  have hne : name ≠ name ++ "@odata.type".toList := by
    intro h
    rw [h, isAnnotationName_append] at hname
    cases hname
  unfold normalizeProperty outputForm
  dsimp only
  by_cases hnull : (target name).isNullish = true
  · rw [if_pos hnull, if_pos hnull]
  · rw [if_neg hnull, if_neg hnull]
    cases classifyProperty definition with
    | none => rfl
    | some plan =>
      dsimp only
      cases applyPropertyNormalization env (target name) plan with
      | none => rfl
      | some normalized =>
        cases h : normalized.typeAnnotation with
        | none => simp [h]
        | some annotation =>
          simp only [h]
          rw [setField_of_ne hne, setField_self]
          rfl

theorem normalizeProperty_of_ne {target : PlainObject} {property : Text × PropertyDefinition} {p : Text}
    (hp : isAnnotationName p = false) (hne : p ≠ property.1) :
    normalizeProperty env target property p = target p := by
  have hannotation : p ≠ property.1 ++ "@odata.type".toList := by
    intro h
    rw [h, isAnnotationName_append] at hp
    cases hp
  unfold normalizeProperty
  dsimp only
  by_cases hnull : (target property.1).isNullish = true
  · rw [if_pos hnull]
  · rw [if_neg hnull]
    cases classifyProperty property.2 with
    | none => rfl
    | some plan =>
      dsimp only
      cases applyPropertyNormalization env (target property.1) plan with
      | none => rfl
      | some normalized =>
        cases h : normalized.typeAnnotation with
        | none =>
          simp only [h]
          rw [setField_of_ne hne]
        | some annotation =>
          simp only [h]
          rw [setField_of_ne hannotation, setField_of_ne hne]

/-- Each property gets its own output form. -/
theorem normalizeScalarProperties_apply {model : ModelDefinition} {target : PlainObject} {p : Text}
    (hp : isAnnotationName p = false) : normalizeScalarProperties env model target p =
      match model.definition p with
      | some definition => outputForm env definition (target p)
      | none => target p := by
  have hnodup := model.names_nodup
  rw [normalizeScalarProperties, ModelDefinition.definition]
  generalize model.properties = properties at hnodup
  induction properties generalizing target with
  | nil => rfl
  | cons property properties ih =>
    rw [List.map_cons, List.nodup_cons] at hnodup
    rw [List.foldl_cons, ih hnodup.2]
    by_cases hname : property.1 = p
    · have hrest : properties.find? (fun property => property.1 = p) = none := by
        rw [List.find?_eq_none]
        intro other hother
        rw [decide_eq_true_eq]
        intro heq
        exact hnodup.1 (List.mem_map.mpr ⟨other, hother, heq.trans hname.symm⟩)
      rw [List.find?_cons_of_pos (by simpa using hname), hrest]
      subst hname
      exact normalizeProperty_self _ hp
    · rw [List.find?_cons_of_neg (by simpa using hname),
        normalizeProperty_of_ne hp (Ne.symm hname)]

/-- What is written back of a property: nothing of an undeclared one, the output form of the
others. -/
theorem writtenBack_apply {model : ModelDefinition} {record : EntityRecord} {p : Text}
    (hid : p ≠ model.idName) : writtenBack env model record p =
      if isAnnotationName p then .undefined
      else match model.definition p with
        | some definition => stripValue (outputForm env definition (record.fields p))
        | none => .undefined := by
  rw [writtenBack, removeEntityIdProperties, setField_of_ne hid, stripODataAnnotations]
  by_cases hp : isAnnotationName p = true
  · rw [if_pos hp, if_pos hp]
  · rw [if_neg hp, if_neg hp, toPlainEntity,
      normalizeScalarProperties_apply (by simpa using hp), toObject, if_neg hid]
    cases model.definition p with
    | none => rfl
    | some definition => rfl

end Plain

end LoopbackOData
