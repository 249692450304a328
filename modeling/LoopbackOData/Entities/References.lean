import LoopbackOData.Entities.KeyRoundTrip
import LoopbackOData.Entities.Store

/-!
# References

Linking and unlinking entities by their references: what the two operations of the controller change
in the store.
-/

namespace LoopbackOData

set_option autoImplicit false

/-- A relation whose targets have a foreign key. -/
structure NavigationRelation where
  parent : ModelDefinition
  target : ModelDefinition
  name : Text
  keyTo : Text
  targetsMany : Bool
  isComposition : Bool
  keyTo_ne : keyTo ≠ target.idName

section Operations

variable (env : Environment) (urls : UrlParser) (service : Service)
variable (relation : NavigationRelation) (store : Store)

def coerceParentId (parent : ModelDefinition) (raw : Atom) : Except HttpError JsValue :=
  match raw with
  | .str literal =>
    coerceIdentifierLiteral env literal parent.idDefinition.toItemDefinition "identifier"
  | _ => .ok (.atom raw)

def relationLabel : String :=
  "\"" ++ String.ofList relation.parent.setName ++ "." ++ String.ofList relation.name ++ "\""

/-- The entity with a key, or the error of `findById`. -/
def findTarget (targetId : JsValue) : Except HttpError EntityRecord :=
  match store.findById relation.target targetId with
  | some existing => .ok existing
  | none => notFound "Entity not found"

/-- The stored entity is written back with another foreign key. -/
def replaceReference (existing : EntityRecord) (value : JsValue) : Store :=
  store.replaceById relation.target existing.key
    (setField (writtenBack env relation.target existing) relation.keyTo value)

def targetIdOf (rawKey : Text) : Except HttpError JsValue := do
  let literal ← parseKeyLiteral rawKey
  coerceTargetId env relation.target.idDefinition literal

def linkNavigationRef (parentIdRaw : Atom) (targetUri : Text) : Except HttpError Store := do
  let parentId ← coerceParentId env relation.parent parentIdRaw
  if targetUri = [] then badRequest "Missing @odata.id in request body."
  else if relation.isComposition then
    conflict ("Cannot link existing entities via $ref for composition relation " ++
      relationLabel relation ++ ". Create the child entity under the parent instead.")
  else
    let parsed ← parseODataIdReference env urls service targetUri
    let targetId ← targetIdOf env relation parsed.keyExpression
    let existing ← findTarget relation store targetId
    return replaceReference env relation store existing parentId

/-- Whether the database finds an entity for the constraint of the relation. -/
def isLinked (parentId : JsValue) (record : EntityRecord) : Bool :=
  record.setName = relation.target.setName && match parentId with
    | .atom a => isAtom (record.fields relation.keyTo) a
    | _ => false

def unlinkFromMany (parentId : JsValue) (targetKeyRaw : Text) : Except HttpError Store := do
  if targetKeyRaw = [] then
    badRequest "Target key is required to remove a reference from a collection."
  else
    let targetId ← targetIdOf env relation targetKeyRaw
    if relation.isComposition then
      conflict ("Cannot unlink entities via $ref for composition relation " ++
        relationLabel relation ++ ". Delete the child entity instead.")
    else
      let existing ← findTarget relation store targetId
      let linked := writtenBack env relation.target existing relation.keyTo
      if linked.isNullish || !strictlyEqual linked parentId then
        notFound "Navigation link does not exist."
      else return replaceReference env relation store existing .null

def unlinkFromOne (parentId : JsValue) : Except HttpError Store :=
  if relation.isComposition then
    conflict ("Cannot unlink entities via $ref for composition relation " ++
      relationLabel relation ++ ". Delete the child entity instead.")
  else match store.rows.find? (isLinked relation parentId) with
    | some existing => .ok (replaceReference env relation store existing .null)
    | none => notFound "Navigation link does not exist."

def unlinkNavigationRef (parentIdRaw : Atom) (targetKeyRaw : Text) : Except HttpError Store := do
  let parentId ← coerceParentId env relation.parent parentIdRaw
  if relation.targetsMany then unlinkFromMany env relation store parentId targetKeyRaw
  else unlinkFromOne env relation store parentId

end Operations

/-! ## One reference -/

/-- An entity has a new value in its foreign key, and nothing else changes. -/
structure ChangesReference (relation : NavigationRelation) (record : EntityRecord)
    (value : JsValue) (before after : Store) : Prop where
  changed : ∃ changed, after.find record.id = some changed ∧
    changed.fields relation.keyTo = value ∧
      ∀ p, p ≠ relation.keyTo → p ≠ relation.target.idName →
        changed.fields p = record.fields p
  others : ∀ id, id ≠ record.id → after.find id = before.find id

section Exactness

variable (env : Environment) (urls : UrlParser) (service : Service)
variable (relation : NavigationRelation) (store : Store)

/-- The entity that a reference leads to, with the set that it names. -/
structure Denotes (uri : Text) (entitySet : Text) (record : EntityRecord) : Prop where
  reference : ∃ parsed, parseODataIdReference env urls service uri = .ok parsed ∧
    parsed.entitySet = entitySet ∧
      targetIdOf env relation parsed.keyExpression = .ok (.atom record.key)
  stored : store.find record.id = some record
  target : record.setName = relation.target.setName

/-- Linking changes the foreign key of the entity that the reference names, and unlinking sets it to
null again. -/
def LinksExactly (parentIdRaw : Atom) (uri : Text) : Prop :=
  ∀ after, linkNavigationRef env urls service relation store parentIdRaw uri = .ok after →
    ∃ record parentId, Denotes env urls service relation store uri relation.target.setName record ∧
      coerceParentId env relation.parent parentIdRaw = .ok parentId ∧
      ChangesReference relation record parentId store after ∧
      ∀ rawKey unlinked, (relation.targetsMany = true →
          targetIdOf env relation rawKey = .ok (.atom record.key)) →
        unlinkNavigationRef env relation after parentIdRaw rawKey = .ok unlinked →
          ∃ linked, after.find record.id = some linked ∧
            ChangesReference relation linked .null after unlinked

/-- A property has its value in the form of a response already. -/
def KeepsForm (model : ModelDefinition) (p : Text) (value : JsValue) : Prop :=
  value = .undefined ∨ isAnnotationName p = false ∧ ∃ definition,
    model.definition p = some definition ∧ outputForm env definition value = value ∧
      stripValue value = value

/-- What makes linking exact for the entity of a reference. -/
structure KeepsOthers (parentId : JsValue) (entitySet : Text) (record : EntityRecord) : Prop where
  entitySet : entitySet = relation.target.setName
  forms : ∀ p, p ≠ relation.keyTo → p ≠ relation.target.idName →
    KeepsForm env relation.target p (record.fields p)
  first : relation.targetsMany = false →
    store.rows.find? (fun other => other.id = record.id || isLinked relation parentId other) =
      some record

end Exactness

/-! ## Forms of values -/

section Forms

variable {env : Environment}

theorem normalizeDateTimeOffsetValue_atom (a : Atom) :
    ∃ b, normalizeDateTimeOffsetValue env (.atom a) = .atom b := by
  unfold normalizeDateTimeOffsetValue normalizeDateTimeOffsetValue.fallback
  split
  · split
    · exact ⟨_, rfl⟩
    · split <;> exact ⟨_, rfl⟩
  · split <;> exact ⟨_, rfl⟩

theorem normalizeDateValue_atom (a : Atom) : ∃ b, normalizeDateValue env (.atom a) = .atom b := by
  cases a with
  | date ms =>
    simp only [normalizeDateValue]
    split <;> exact ⟨_, rfl⟩
  | str s =>
    simp only [normalizeDateValue]
    split
    · exact ⟨_, rfl⟩
    · split
      · exact ⟨_, rfl⟩
      · split
        · exact ⟨_, rfl⟩
        · split <;> exact ⟨_, rfl⟩
  | _ => exact ⟨_, rfl⟩

theorem normalizeTimeOfDayValue_atom (a : Atom) :
    ∃ b, normalizeTimeOfDayValue (.atom a) = .atom b := by
  have hrange (s : Text) (hours minutes seconds : Nat) (fraction : Text) :
      ∃ b, normalizeTimeOfDayValue.inRange s hours minutes seconds fraction = .atom b := by
    unfold normalizeTimeOfDayValue.inRange
    split <;> exact ⟨_, rfl⟩
  cases a with
  | str s =>
    simp only [normalizeTimeOfDayValue]
    split
    · exact ⟨_, rfl⟩
    · split
      · exact ⟨_, rfl⟩
      · split
        · exact hrange _ _ _ _ _
        · split
          · split
            · exact hrange _ _ _ _ _
            · exact ⟨_, rfl⟩
          · exact ⟨_, rfl⟩
        · exact ⟨_, rfl⟩
  | _ => exact ⟨_, rfl⟩

theorem normalizeDurationValue_atom (a : Atom) :
    ∃ b, normalizeDurationValue (.atom a) = .atom b := by
  cases a with
  | bigint i =>
    simp only [normalizeDurationValue]
    split <;> exact ⟨_, rfl⟩
  | str s =>
    simp only [normalizeDurationValue]
    split
    · exact ⟨_, rfl⟩
    · split
      · exact ⟨_, rfl⟩
      · split
        · split
          · split <;> exact ⟨_, rfl⟩
          · exact ⟨_, rfl⟩
        · exact ⟨_, rfl⟩
  | _ => exact ⟨_, rfl⟩

/-- A normal form is a plain value, or the value as it was. -/
theorem normalizeSingleValue_eq {value : JsValue} {kind : PropertyKind}
    {normalized : NormalizedPropertyValue}
    (h : normalizeSingleValue env value kind = some normalized) :
    (∃ a, normalized.value = .atom a) ∨ normalized.value = value := by
  cases kind with
  | datetimeoffset =>
    obtain rfl := Option.some.inj h
    cases value with
    | atom a => exact Or.inl (normalizeDateTimeOffsetValue_atom a)
    | _ => exact Or.inr rfl
  | date =>
    obtain rfl := Option.some.inj h
    cases value with
    | atom a => exact Or.inl (normalizeDateValue_atom a)
    | _ => exact Or.inr rfl
  | timeOfDay =>
    obtain rfl := Option.some.inj h
    cases value with
    | atom a => exact Or.inl (normalizeTimeOfDayValue_atom a)
    | _ => exact Or.inr rfl
  | duration =>
    obtain rfl := Option.some.inj h
    cases value with
    | atom a => exact Or.inl (normalizeDurationValue_atom a)
    | _ => exact Or.inr rfl
  | decimal =>
    rw [normalizeSingleValue, normalizeDecimalValue, Option.map_eq_some_iff] at h
    obtain ⟨text, _, rfl⟩ := h
    exact Or.inl ⟨_, rfl⟩
  | int64 =>
    rw [normalizeSingleValue, normalizeInt64Value, Option.map_eq_some_iff] at h
    obtain ⟨text, _, rfl⟩ := h
    exact Or.inl ⟨_, rfl⟩

mutual

theorem stripValue_stripValue (value : JsValue) : stripValue (stripValue value) = stripValue value := by
  cases value with
  | list items => rw [stripValue, stripValue, stripItems_stripItems items]
  | object fields => rw [stripValue, stripValue, stripFields_stripFields fields]
  | _ => rfl

theorem stripItems_stripItems (items : List JsValue) :
    stripItems (stripItems items) = stripItems items := by
  cases items with
  | nil => rfl
  | cons item items =>
    rw [stripItems, stripItems, stripValue_stripValue item, stripItems_stripItems items]

theorem stripFields_stripFields (fields : List (Text × JsValue)) :
    stripFields (stripFields fields) = stripFields fields := by
  cases fields with
  | nil => rfl
  | cons field fields =>
    obtain ⟨name, value⟩ := field
    rw [stripFields]
    split
    · exact stripFields_stripFields fields
    · next hname =>
      rw [stripFields, if_neg hname, stripValue_stripValue value, stripFields_stripFields fields]

end

theorem eq_of_stripValue_normalized {value : JsValue} {kind : PropertyKind}
    (h : stripValue (((normalizeSingleValue env value kind).map (·.value)).getD value) = value) :
    ((normalizeSingleValue env value kind).map (·.value)).getD value = value := by
  cases hnormalized : normalizeSingleValue env value kind with
  | none => rfl
  | some normalized =>
    rw [hnormalized, Option.map_some, Option.getD_some] at h
    rw [Option.map_some, Option.getD_some]
    rcases normalizeSingleValue_eq hnormalized with ⟨a, ha⟩ | heq
    · rw [ha] at h ⊢
      exact h
    · exact heq

theorem eq_of_stripItems_normalized {items : List JsValue} {kind : PropertyKind}
    (h : stripItems ((items.zip (items.map fun item => normalizeSingleValue env item kind)).map
      fun (item, n) => (n.map (·.value)).getD item) = items) :
    ((items.zip (items.map fun item => normalizeSingleValue env item kind)).map
      fun (item, n) => (n.map (·.value)).getD item) = items := by
  induction items with
  | nil => rfl
  | cons item items ih =>
    rw [List.map_cons, List.zip_cons_cons, List.map_cons, stripItems, List.cons.injEq] at h
    rw [List.map_cons, List.zip_cons_cons, List.map_cons, ih h.2]
    exact congrArg (· :: items) (eq_of_stripValue_normalized h.1)

/-- A value is written back as it was when its output form is itself and has no annotations. -/
theorem stripValue_outputForm_iff {definition : PropertyDefinition} {value : JsValue} :
    stripValue (outputForm env definition value) = value ↔
      outputForm env definition value = value ∧ stripValue value = value := by
  constructor
  · intro h
    have hstrip : stripValue value = value := by
      conv_lhs => rw [← h]
      rw [stripValue_stripValue, h]
    refine ⟨?_, hstrip⟩
    unfold outputForm at h ⊢
    split
    · rfl
    · next hnull =>
      rw [if_neg hnull] at h
      cases hclass : classifyProperty definition with
      | none => rfl
      | some plan =>
        rw [hclass] at h
        dsimp only at h ⊢
        unfold applyPropertyNormalization at h ⊢
        by_cases hcollection : plan.isCollection = true
        · rw [if_pos hcollection] at h ⊢
          cases value with
          | list items =>
            simp only [Option.map_some, Option.getD_some] at h ⊢
            rw [stripValue, JsValue.list.injEq] at h
            rw [eq_of_stripItems_normalized h]
          | _ => rfl
        · rw [if_neg hcollection] at h ⊢
          exact eq_of_stripValue_normalized h
  · rintro ⟨hform, hstrip⟩
    rw [hform, hstrip]

theorem writtenBack_eq_iff {model : ModelDefinition} {record : EntityRecord} {p : Text}
    (hid : p ≠ model.idName) :
    writtenBack env model record p = record.fields p ↔ KeepsForm env model p (record.fields p) := by
  rw [writtenBack_apply hid, KeepsForm]
  by_cases hp : isAnnotationName p = true
  · rw [if_pos hp]
    constructor
    · exact fun h => Or.inl h.symm
    · rintro (h | ⟨hp', _⟩)
      · exact h.symm
      · rw [hp] at hp'
        cases hp'
  · rw [if_neg hp]
    cases hdefinition : model.definition p with
    | none =>
      constructor
      · exact fun h => Or.inl h.symm
      · rintro (h | ⟨_, definition, hsome, _⟩)
        · exact h.symm
        · cases hsome
    | some definition =>
      dsimp only
      rw [stripValue_outputForm_iff]
      constructor
      · exact fun h => Or.inr ⟨by simpa using hp, definition, rfl, h⟩
      · rintro (h | ⟨_, definition', hsome, h⟩)
        · rw [h]
          exact ⟨rfl, rfl⟩
        · obtain rfl := Option.some.inj hsome
          exact h

end Forms

/-! ## What linking changes -/

section Linking

variable {env : Environment} {urls : UrlParser} {service : Service}
variable {relation : NavigationRelation} {store : Store} {record : EntityRecord}

theorem findTarget_eq_ok {targetId : JsValue}
    (h : findTarget relation store targetId = .ok record) :
    targetId = .atom record.key ∧ store.find record.id = some record ∧
      record.setName = relation.target.setName := by
  unfold findTarget at h
  split at h
  · next existing hfind =>
    obtain rfl := Except.ok.inj h
    obtain ⟨hid, hset, hfind⟩ := Store.findById_eq_some hfind
    refine ⟨hid, ?_, hset⟩
    rw [EntityRecord.id, hset]
    exact hfind
  · cases h

theorem findTarget_of_find (hfind : store.find record.id = some record)
    (hset : record.setName = relation.target.setName) :
    findTarget relation store (.atom record.key) = .ok record := by
  rw [EntityRecord.id, hset] at hfind
  unfold findTarget Store.findById
  dsimp only
  rw [hfind]

theorem linkNavigationRef_eq_ok {parentIdRaw : Atom} {uri : Text} {after : Store}
    (h : linkNavigationRef env urls service relation store parentIdRaw uri = .ok after) :
    uri ≠ [] ∧ relation.isComposition = false ∧ ∃ parentId entitySet record,
      coerceParentId env relation.parent parentIdRaw = .ok parentId ∧
      Denotes env urls service relation store uri entitySet record ∧
      after = replaceReference env relation store record parentId := by
  unfold linkNavigationRef at h
  cases hparent : coerceParentId env relation.parent parentIdRaw with
  | error e =>
    rw [hparent] at h
    cases h
  | ok parentId =>
    rw [hparent] at h
    simp only [bind, Except.bind] at h
    split at h
    · cases h
    · next huri =>
      split at h
      · cases h
      · next hcomposition =>
        cases hparsed : parseODataIdReference env urls service uri with
        | error e =>
          rw [hparsed] at h
          cases h
        | ok parsed =>
          rw [hparsed] at h
          dsimp only at h
          cases htarget : targetIdOf env relation parsed.keyExpression with
          | error e =>
            rw [htarget] at h
            cases h
          | ok targetId =>
            rw [htarget] at h
            dsimp only at h
            cases hfind : findTarget relation store targetId with
            | error e =>
              rw [hfind] at h
              cases h
            | ok existing =>
              rw [hfind] at h
              obtain rfl := Except.ok.inj h
              obtain ⟨rfl, hstored, hset⟩ := findTarget_eq_ok hfind
              exact ⟨huri, by simpa using hcomposition, parentId, parsed.entitySet, existing,
                rfl, ⟨⟨parsed, hparsed, rfl, htarget⟩, hstored, hset⟩, rfl⟩

theorem linkNavigationRef_of_denotes {parentIdRaw : Atom} {parentId : JsValue} {uri entitySet : Text}
    (huri : uri ≠ []) (hcomposition : relation.isComposition = false)
    (hparent : coerceParentId env relation.parent parentIdRaw = .ok parentId)
    (hdenotes : Denotes env urls service relation store uri entitySet record) :
    linkNavigationRef env urls service relation store parentIdRaw uri =
      .ok (replaceReference env relation store record parentId) := by
  obtain ⟨parsed, hparsed, _, htarget⟩ := hdenotes.reference
  unfold linkNavigationRef
  rw [hparent]
  simp only [bind, Except.bind, if_neg huri, hcomposition]
  rw [hparsed]
  simp only
  rw [htarget]
  simp only
  rw [findTarget_of_find hdenotes.stored hdenotes.target]
  rfl

/-- What replacing a reference does to the store. -/
theorem find_replaceReference (hfind : store.find record.id = some record)
    (hset : record.setName = relation.target.setName) (value : JsValue) :
    (replaceReference env relation store record value).find record.id = some (record.withFields
        (setField (writtenBack env relation.target record) relation.keyTo value)) ∧
      ∀ id, id ≠ record.id →
        (replaceReference env relation store record value).find id = store.find id := by
  have hid : record.id = (relation.target.setName, record.key) := by
    rw [EntityRecord.id, hset]
  rw [hid] at hfind ⊢
  exact ⟨Store.find_replaceById _ hfind, fun id hne => Store.find_replaceById_of_ne _ hne⟩

theorem changesReference_iff (hfind : store.find record.id = some record)
    (hset : record.setName = relation.target.setName) {value : JsValue} :
    ChangesReference relation record value store (replaceReference env relation store record value) ↔
      ∀ p, p ≠ relation.keyTo → p ≠ relation.target.idName →
        KeepsForm env relation.target p (record.fields p) := by
  obtain ⟨hself, hothers⟩ := @find_replaceReference env relation store record hfind hset value
  have hfields (p : Text) (hkey : p ≠ relation.keyTo) :
      (record.withFields (setField (writtenBack env relation.target record) relation.keyTo
        value)).fields p = writtenBack env relation.target record p :=
    setField_of_ne hkey _ _
  constructor
  · rintro ⟨⟨changed, hchanged, _, hkept⟩, _⟩ p hkey hid
    rw [hself] at hchanged
    obtain rfl := Option.some.inj hchanged
    rw [← writtenBack_eq_iff hid, ← hfields p hkey]
    exact hkept p hkey hid
  · intro hforms
    refine ⟨⟨_, hself, setField_self _ _ _, fun p hkey hid => ?_⟩, hothers⟩
    rw [hfields p hkey]
    exact (writtenBack_eq_iff hid).mpr (hforms p hkey hid)

theorem unlinkFromMany_eq_ok {parentId : JsValue} {rawKey : Text} {unlinked : Store}
    (h : unlinkFromMany env relation store parentId rawKey = .ok unlinked)
    (hkey : targetIdOf env relation rawKey = .ok (.atom record.key))
    (hfind : store.find record.id = some record)
    (hset : record.setName = relation.target.setName) :
    unlinked = replaceReference env relation store record .null := by
  unfold unlinkFromMany at h
  rw [hkey] at h
  simp only [bind, Except.bind] at h
  split at h
  · cases h
  · split at h
    · cases h
    · rw [findTarget_of_find hfind hset] at h
      dsimp only at h
      split at h
      · cases h
      · exact (Except.ok.inj h).symm

/-- The data source, which finds entities in their order, finds the linked entity first. -/
theorem find_isLinked_replaceReference (hset : record.setName = relation.target.setName) (a : Atom) :
    (replaceReference env relation store record (.atom a)).rows.find? (isLinked relation (.atom a)) =
      (store.rows.find? fun other => other.id = record.id || isLinked relation (.atom a) other).map
        fun other => if other.id = record.id then other.withFields
          (setField (writtenBack env relation.target record) relation.keyTo (.atom a)) else other := by
  have hid : (relation.target.setName, record.key) = record.id := by
    rw [EntityRecord.id, hset]
  rw [replaceReference, Store.replaceById, Table.modify, hid, List.find?_map]
  congr 1
  apply congrArg fun p => store.rows.find? p
  funext other
  rw [Function.comp_apply]
  by_cases hother : other.id = record.id
  · have hsetName : other.setName = record.setName := congrArg Prod.fst hother
    rw [if_pos hother]
    simp [isLinked, hother, EntityRecord.withFields, hsetName, hset, isAtom]
  · simp [hother]

theorem isLinked_of_not_atom {parentId : JsValue} (h : ∀ a, parentId ≠ .atom a)
    (other : EntityRecord) : isLinked relation parentId other = false := by
  unfold isLinked
  cases parentId with
  | atom a => exact absurd rfl (h a)
  | _ => simp

end Linking

section Exact

variable {env : Environment} {urls : UrlParser} {service : Service}
variable {relation : NavigationRelation} {store : Store} {record : EntityRecord}
variable {parentIdRaw : Atom} {parentId : JsValue}

/-- The first linked entity is the one that has just been linked. -/
theorem first_of_unlinked (hfind : store.find record.id = some record)
    (hset : record.setName = relation.target.setName)
    (hunlink : ∀ unlinked, unlinkFromOne env relation
        (replaceReference env relation store record parentId) parentId = .ok unlinked →
      ∀ id, id ≠ record.id → unlinked.find id =
        (replaceReference env relation store record parentId).find id)
    (hcomposition : relation.isComposition = false) :
    store.rows.find? (fun other => other.id = record.id || isLinked relation parentId other) =
      some record := by
  by_cases hatom : ∃ a, parentId = .atom a
  · obtain ⟨a, rfl⟩ := hatom
    cases hfirst : store.rows.find? fun other =>
        other.id = record.id || isLinked relation (.atom a) other with
    | none =>
      have hmem := (Table.find_eq_some_iff.mp hfind).1
      have := List.find?_eq_none.mp hfirst record hmem
      simp at this
    | some other =>
      by_cases hother : other.id = record.id
      · have hmem := List.mem_of_find?_eq_some hfirst
        rw [Table.eq_of_key hmem (Table.find_eq_some_iff.mp hfind).1 hother]
      · exfalso
        have hlinked : isLinked relation (.atom a) other = true := by
          have := List.find?_some hfirst
          simpa [hother] using this
        have hfound := @find_isLinked_replaceReference env relation store record hset a
        rw [hfirst, Option.map_some, if_neg hother] at hfound
        have hrun : unlinkFromOne env relation
            (replaceReference env relation store record (.atom a)) (.atom a) =
              .ok (replaceReference env relation
                (replaceReference env relation store record (.atom a)) other .null) := by
          rw [unlinkFromOne, if_neg (by simp [hcomposition]), hfound]
        have hsame := hunlink _ hrun other.id hother
        have hotherSet : other.setName = relation.target.setName := by
          rw [isLinked, Bool.and_eq_true, decide_eq_true_eq] at hlinked
          exact hlinked.1
        have hotherFind : (replaceReference env relation store record (.atom a)).find other.id =
            some other := Table.find_of_mem (List.mem_of_find?_eq_some hfound)
        rw [(find_replaceReference hotherFind hotherSet .null).1, hotherFind] at hsame
        have hfield := congrArg (fun r => r.fields relation.keyTo) (Option.some.inj hsame)
        rw [isLinked, Bool.and_eq_true, isAtom_iff] at hlinked
        rw [hlinked.2] at hfield
        simp [EntityRecord.withFields] at hfield
  · have hfalse := @isLinked_of_not_atom relation _ fun a h => hatom ⟨a, h⟩
    simp only [hfalse, Bool.or_false]
    exact hfind

theorem unlinkNavigationRef_eq (hparent : coerceParentId env relation.parent parentIdRaw = .ok parentId)
    (rawKey : Text) : unlinkNavigationRef env relation store parentIdRaw rawKey =
      if relation.targetsMany then unlinkFromMany env relation store parentId rawKey
      else unlinkFromOne env relation store parentId := by
  rw [unlinkNavigationRef, hparent]
  rfl

/-- Two readings of one reference give one entity. -/
theorem Denotes.unique {uri entitySet entitySet' : Text} {record' : EntityRecord}
    (h : Denotes env urls service relation store uri entitySet record)
    (h' : Denotes env urls service relation store uri entitySet' record') :
    entitySet = entitySet' ∧ record = record' := by
  obtain ⟨parsed, hparsed, hset, hkey⟩ := h.reference
  obtain ⟨parsed', hparsed', hset', hkey'⟩ := h'.reference
  obtain rfl := Except.ok.inj (hparsed.symm.trans hparsed')
  have hatom := Except.ok.inj (hkey.symm.trans hkey')
  have hid : record.id = record'.id := by
    injection hatom with hatom
    rw [EntityRecord.id, EntityRecord.id, h.target, h'.target, hatom]
  refine ⟨hset.symm.trans hset', ?_⟩
  have hfind := h.stored
  rw [hid, h'.stored] at hfind
  exact (Option.some.inj hfind).symm

/-- Unlinking the entity that was just linked changes its reference only. -/
theorem changesReference_unlinked {uri entitySet rawKey : Text} {unlinked : Store}
    (hdenotes : Denotes env urls service relation store uri entitySet record)
    (hkeeps : KeepsOthers env relation store parentId entitySet record)
    (hparent : coerceParentId env relation.parent parentIdRaw = .ok parentId)
    (hkey : relation.targetsMany = true → targetIdOf env relation rawKey = .ok (.atom record.key))
    (h : unlinkNavigationRef env relation (replaceReference env relation store record parentId)
      parentIdRaw rawKey = .ok unlinked) :
    ∃ linked, (replaceReference env relation store record parentId).find record.id = some linked ∧
      ChangesReference relation linked .null
        (replaceReference env relation store record parentId) unlinked := by
  obtain ⟨hself, _⟩ := @find_replaceReference env _ _ _ hdenotes.stored hdenotes.target parentId
  generalize hlinked : record.withFields
    (setField (writtenBack env relation.target record) relation.keyTo parentId) = linked at hself
  have hid : linked.id = record.id := by
    rw [← hlinked]
    rfl
  have hset : linked.setName = relation.target.setName := by
    rw [← hlinked]
    exact hdenotes.target
  have hforms : ∀ p, p ≠ relation.keyTo → p ≠ relation.target.idName →
      KeepsForm env relation.target p (linked.fields p) := by
    intro p hp hpid
    have hkept := hkeeps.forms p hp hpid
    have hsame : linked.fields p = record.fields p := by
      rw [← hlinked]
      exact (setField_of_ne hp _ _).trans ((writtenBack_eq_iff hpid).mpr hkept)
    rw [hsame]
    exact hkept
  have hfind : (replaceReference env relation store record parentId).find linked.id =
      some linked := by
    rw [hid]
    exact hself
  have hunlinked : unlinked = replaceReference env relation
      (replaceReference env relation store record parentId) linked .null := by
    rw [unlinkNavigationRef_eq hparent] at h
    split at h
    · next hmany =>
      have hlinkedKey : targetIdOf env relation rawKey = .ok (.atom linked.key) := by
        rw [← hlinked]
        exact hkey hmany
      exact unlinkFromMany_eq_ok h hlinkedKey hfind hset
    · next hone =>
      unfold unlinkFromOne at h
      split at h
      · cases h
      · by_cases hatom : ∃ a, parentId = .atom a
        · obtain ⟨a, rfl⟩ := hatom
          have hfirst := hkeeps.first (by simpa using hone)
          rw [find_isLinked_replaceReference hdenotes.target, hfirst, Option.map_some, if_pos rfl,
            hlinked] at h
          exact (Except.ok.inj h).symm
        · have hfalse := @isLinked_of_not_atom relation _ fun a h => hatom ⟨a, h⟩
          have hnone : (replaceReference env relation store record parentId).rows.find?
              (isLinked relation parentId) = none := by
            rw [List.find?_eq_none]
            intro other _
            rw [hfalse other]
            exact Bool.false_ne_true
          rw [hnone] at h
          cases h
  refine ⟨linked, hself, ?_⟩
  rw [hunlinked]
  exact (changesReference_iff hfind hset).mpr hforms

/-- Linking is exact when the reference names the set of the relation, the other properties of the
entity are stored in the form of a response, and no entity before it is linked in a relation to
one. -/
theorem linksExactly_iff {uri : Text} :
    LinksExactly env urls service relation store parentIdRaw uri ↔
      (uri ≠ [] → relation.isComposition = false → ∀ parentId entitySet record,
        coerceParentId env relation.parent parentIdRaw = .ok parentId →
        Denotes env urls service relation store uri entitySet record →
          KeepsOthers env relation store parentId entitySet record) := by
  constructor
  · intro h huri hcomposition parentId entitySet record hparent hdenotes
    have hlink := linkNavigationRef_of_denotes huri hcomposition hparent hdenotes
    obtain ⟨record', parentId', hdenotes', hparent', hchanges, hunlinks⟩ := h _ hlink
    obtain ⟨hset, rfl⟩ := hdenotes.unique hdenotes'
    obtain rfl := Except.ok.inj (hparent.symm.trans hparent')
    refine ⟨hset, (changesReference_iff hdenotes.stored hdenotes.target).mp hchanges, ?_⟩
    intro hone
    refine @first_of_unlinked env relation store record parentId hdenotes.stored hdenotes.target ?_
      hcomposition
    intro unlinked hunlink
    have hrun : unlinkNavigationRef env relation
        (replaceReference env relation store record parentId) parentIdRaw [] = .ok unlinked := by
      rw [unlinkNavigationRef_eq hparent, if_neg (by simp [hone])]
      exact hunlink
    obtain ⟨linked, hlinked, hothers⟩ := hunlinks [] unlinked (by simp [hone]) hrun
    rw [← Table.key_of_find hlinked]
    exact hothers.others
  · intro h after hafter
    obtain ⟨huri, hcomposition, parentId, entitySet, record, hparent, hdenotes, rfl⟩ :=
      linkNavigationRef_eq_ok hafter
    have hkeeps := h huri hcomposition parentId entitySet record hparent hdenotes
    obtain rfl := hkeeps.entitySet
    refine ⟨record, parentId, hdenotes, hparent,
      (changesReference_iff hdenotes.stored hdenotes.target).mpr hkeeps.forms, ?_⟩
    intro rawKey unlinked hkey hunlink
    exact changesReference_unlinked hdenotes hkeeps hparent hkey hunlink

end Exact

/-! ## A reference to another set -/

def customerModel : ModelDefinition where
  setName := "Customers".toList
  idName := "id".toList
  properties := [("id".toList, stringKey)]
  names_nodup := by decide

def orderModel : ModelDefinition where
  setName := "Orders".toList
  idName := "id".toList
  properties := [("id".toList, stringKey), ("customerId".toList, stringKey)]
  names_nodup := by decide

def customerOrders : NavigationRelation where
  parent := customerModel
  target := orderModel
  name := "orders".toList
  keyTo := "customerId".toList
  targetsMany := true
  isComposition := false
  keyTo_ne := by decide

def freeOrder : EntityRecord := ⟨"Orders".toList, .str "n1".toList, fun _ => .undefined⟩

def orderStore : Store := ⟨[freeOrder], List.nodup_singleton _⟩

def noteReference : Text := "/odata/Notes('n1')".toList

theorem parse_noteReference : parseODataIdReference Environment.ascii sampleUrls sampleService
    noteReference = .ok ⟨"Notes".toList, "'n1'".toList⟩ := rfl

/-- A reference to a note links the order with the same key. -/
theorem not_linksExactly :
    ¬ ∀ (env : Environment) (urls : UrlParser) (service : Service)
      (relation : NavigationRelation) (store : Store) (parentIdRaw : Atom) (uri : Text),
      LinksExactly env urls service relation store parentIdRaw uri := by
  intro h
  have hdenotes : Denotes Environment.ascii sampleUrls sampleService customerOrders orderStore
      noteReference "Notes".toList freeOrder :=
    ⟨⟨_, parse_noteReference, rfl, rfl⟩, rfl, rfl⟩
  have hlink := @linkNavigationRef_of_denotes Environment.ascii sampleUrls sampleService
    customerOrders orderStore freeOrder (.str "c1".toList) _ _ _ (by decide) rfl rfl hdenotes
  obtain ⟨record, _, hrecord, _⟩ := h _ _ _ _ _ _ _ _ hlink
  obtain ⟨hset, _⟩ := hdenotes.unique hrecord
  revert hset
  decide

end LoopbackOData
