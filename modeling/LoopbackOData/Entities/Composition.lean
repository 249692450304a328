import LoopbackOData.Entities.Subtree

/-!
# Children of compositions

A child of a composition keeps its parent. The operations that write entities are `PATCH`, `PUT` and
the two operations on references; which of them can change the foreign key of a child, and when.
-/

namespace LoopbackOData

set_option autoImplicit false

section Operations

variable {ι : Type} [DecidableEq ι]
variable (env : Environment) (urls : UrlParser) (service : ι → Service) (data : DataModel ι)
variable (keys : KeyGenerator) (config : CompositionConfig ι) (maxDepth : Nat)

/-- The fields of a body that a `PUT` stores. -/
def replacementOf (i : ι) (payload : JsonObject) : PlainObject :=
  removeEntityIdProperties (data.model i) fun p =>
    if (data.relations i).any fun relation => relation.name = p then .undefined
    else stripODataAnnotations (fieldOf payload) p

/-- The entity that a `PUT` replaces. -/
def existingForReplace (root : ι) (entityId : JsValue) (ifMatch : Option (EntityRecord → Bool)) :
    StoreEffect EntityRecord := do
  let store ← Effect.get
  match store.findById (data.model root) entityId with
  | none => Effect.fail ⟨404, "Entity not found"⟩
  | some existing =>
    if ifMatch.all fun selects => selects existing then return existing
    else Effect.fail ⟨412, "Precondition Failed"⟩

/-- `replace`; `ifMatch` is what the header asks of the entity. -/
def replace (root : ι) (ifMatch : Option (EntityRecord → Bool)) (id : Atom) (payload : JsonObject) :
    StoreEffect PUnit := do
  let entityId ← Effect.ofExcept (coerceParentId env (data.model root) id)
  let existing ← existingForReplace data root entityId ifMatch
  Effect.modify fun store =>
    store.replaceById (data.model root) existing.key (replacementOf data root payload)

/-- A relation of a class, as the operations on references see it. -/
def navigationRelation (i : ι) (relation : {relation // relation ∈ data.relations i}) :
    NavigationRelation where
  parent := data.model i
  target := data.model relation.1.target
  name := relation.1.name
  keyTo := relation.1.keyTo
  targetsMany := relation.1.type.targetsMany
  isComposition := config.resolved i relation.1.name
  keyTo_ne := data.keyTo_ne i relation.1 relation.2

inductive Operation where
  | patch (i : ι) (deepUpdateEnabled : Bool) (ifMatch : Option (EntityRecord → Bool)) (id : Atom)
    (payload : JsonObject)
  | put (i : ι) (ifMatch : Option (EntityRecord → Bool)) (id : Atom) (payload : JsonObject)
  | link (i : ι) (relation : {relation // relation ∈ data.relations i}) (parentId : Atom)
    (targetUri : Text)
  | unlink (i : ι) (relation : {relation // relation ∈ data.relations i}) (parentId : Atom)
    (targetKey : Text)

def throughNotSupported (relation : RelationDefinition ι) : StoreEffect PUnit :=
  Effect.fail ⟨501, "$ref operations are not supported for relation " ++
    String.ofList relation.name ++ " (through/ many-to-many)."⟩

def Operation.perform : Operation data → StoreEffect PUnit
  | .patch i deepUpdateEnabled ifMatch id payload =>
    update env data keys config i maxDepth deepUpdateEnabled ifMatch id payload
  | .put i ifMatch id payload => replace env data i ifMatch id payload
  | .link i relation parentId targetUri =>
    if relation.1.through then throughNotSupported relation.1
    else Effect.advance fun store =>
      linkNavigationRef env urls (service i) (navigationRelation data config i relation) store
        parentId targetUri
  | .unlink i relation parentId targetKey =>
    if relation.1.through then throughNotSupported relation.1
    else Effect.advance fun store =>
      unlinkNavigationRef env (navigationRelation data config i relation) store parentId targetKey

/-! ## Parents of children -/

/-- A foreign key of a composition whose children are of a class. -/
def IsCompositionKey (i : ι) (keyTo : Text) : Prop :=
  ∃ j relation, relation ∈ data.relations j ∧ config.resolved j relation.name = true ∧
    relation.target = i ∧ relation.keyTo = keyTo

/-- An entity is the child of some parent. -/
def HasCompositionParent (i : ι) (keyTo : Text) (record : EntityRecord) : Prop :=
  record.setName = (data.model i).setName ∧ IsCompositionKey data config i keyTo ∧
    (record.fields keyTo).isNullish = false

/-- Every child is still there, under the same parents. -/
def KeepsParents (before after : Store) : Prop :=
  ∀ record ∈ before.rows, ∀ i keyTo, HasCompositionParent data config i keyTo record →
    ∃ kept, after.find record.id = some kept ∧ kept.fields keyTo = record.fields keyTo

/-! ## Operations that keep foreign keys -/

/-- The entity that an operation is about. -/
def Selects (i : ι) (ifMatch : Option (EntityRecord → Bool)) (id : Atom) (store : Store)
    (record : EntityRecord) : Prop :=
  ∃ entityId, coerceParentId env (data.model i) id = .ok entityId ∧
    store.findById (data.model i) entityId = some record ∧
      ∀ selects, ifMatch = some selects → selects record = true

/-- The scalars of the payload of a `PATCH` that pass the check have the foreign keys of the
entity. -/
def PatchKeepsRoot (i : ι) (ifMatch : Option (EntityRecord → Bool)) (id : Atom)
    (scalars : JsonObject) (store : Store) : Prop :=
  ∀ record keyTo, Selects env data i ifMatch id store record →
    HasCompositionParent data config i keyTo record → hasField scalars keyTo = true →
    (keyTo ∈ getCompositionParentForeignKeys data config i →
      assertCompositionForeignKey env (data.model i) keyTo
        (toPlainEntity env (data.model i) record keyTo) (fieldOf scalars keyTo) = .ok ⟨⟩) →
    fieldOf scalars keyTo = record.fields keyTo

/-- Entries that can patch an entity have none of its foreign keys but that of their relation. -/
def PatchKeepsEntries (i : ι) (payload : JsonObject) : Prop :=
  ∀ j relation entry keyTo, IsEntry data i payload j relation entry →
    (relation.type = .hasMany → hasField entry (data.model relation.target).idName = true) →
    IsCompositionKey data config relation.target keyTo → keyTo ≠ relation.keyTo →
    hasField entry keyTo = false

/-- The body of a `PUT` has the foreign keys of the entity. -/
def PutKeeps (i : ι) (ifMatch : Option (EntityRecord → Bool)) (id : Atom) (payload : JsonObject)
    (store : Store) : Prop :=
  ∀ record keyTo, Selects env data i ifMatch id store record →
    HasCompositionParent data config i keyTo record →
    replacementOf data i payload keyTo = record.fields keyTo

/-- An entity is linked over another foreign key, or to the parent that it has, and its foreign keys
are in output form. -/
def LinkKeeps (i : ι) (relation : {relation // relation ∈ data.relations i}) (parentId : Atom)
    (targetUri : Text) (store : Store) : Prop :=
  config.resolved i relation.1.name = false →
    ∀ parent entitySet record keyTo, coerceParentId env (data.model i) parentId = .ok parent →
      Denotes env urls (service i) (navigationRelation data config i relation) store targetUri
        entitySet record →
      HasCompositionParent data config relation.1.target keyTo record →
      (keyTo = relation.1.keyTo → record.fields keyTo = parent) ∧
        (keyTo ≠ relation.1.keyTo →
          KeepsForm env (data.model relation.1.target) keyTo (record.fields keyTo))

/-- The entity that is unlinked from a parent. -/
def Unlinks (relation : NavigationRelation) (store : Store) (parentId : Atom) (targetKey : Text)
    (record : EntityRecord) : Prop :=
  store.find record.id = some record ∧ record.setName = relation.target.setName ∧
    ∃ parent, coerceParentId env relation.parent parentId = .ok parent ∧
      (relation.targetsMany = true →
        targetIdOf env relation targetKey = .ok (.atom record.key) ∧
          strictlyEqual (writtenBack env relation.target record relation.keyTo) parent = true) ∧
      (relation.targetsMany = false → store.rows.find? (isLinked relation parent) = some record)

/-- An entity is unlinked over another foreign key, and its foreign keys are in output form. -/
def UnlinkKeeps (i : ι) (relation : {relation // relation ∈ data.relations i}) (parentId : Atom)
    (targetKey : Text) (store : Store) : Prop :=
  config.resolved i relation.1.name = false →
    ∀ record keyTo,
      Unlinks env (navigationRelation data config i relation) store parentId targetKey record →
      HasCompositionParent data config relation.1.target keyTo record →
      keyTo ≠ relation.1.keyTo ∧
        KeepsForm env (data.model relation.1.target) keyTo (record.fields keyTo)

def Operation.KeepsForeignKeys (store : Store) : Operation data → Prop
  | .patch i deepUpdateEnabled ifMatch id payload =>
    PatchKeepsRoot env data config i ifMatch id
        (normalizeUpdatePayload data i deepUpdateEnabled payload).root store ∧
      (deepUpdateEnabled = true → PatchKeepsEntries data config i payload)
  | .put i ifMatch id payload => PutKeeps env data config i ifMatch id payload store
  | .link i relation parentId targetUri =>
    relation.1.through = false → LinkKeeps env urls service data config i relation parentId targetUri
      store
  | .unlink i relation parentId targetKey =>
    relation.1.through = false → UnlinkKeeps env data config i relation parentId targetKey store

/-- An operation that keeps foreign keys, answered with success or with an error. -/
def Step (transaction : Bool) (before after : Store) : Prop :=
  ∃ operation : Operation data,
    operation.KeepsForeignKeys env urls service data config before ∧
      after = (Effect.transaction transaction
        (operation.perform env urls service data keys config maxDepth) before).2

end Operations

/-! ## Writing to the store -/

section Writes

variable {ι : Type} {data : DataModel ι} {config : CompositionConfig ι}

theorem KeepsParents.refl (store : Store) : KeepsParents data config store store :=
  fun record hrecord _ _ _ => ⟨record, Table.find_of_mem hrecord, rfl⟩

theorem KeepsParents.trans (store between after : Store)
    (h : KeepsParents data config store between) (h' : KeepsParents data config between after) :
    KeepsParents data config store after := by
  intro record hrecord i keyTo hchild
  obtain ⟨kept, hfind, hkept⟩ := h record hrecord i keyTo hchild
  obtain ⟨hmem, hid⟩ := Table.find_eq_some_iff.mp hfind
  have hkeptChild : HasCompositionParent data config i keyTo kept := by
    refine ⟨(congrArg Prod.fst hid).trans hchild.1, hchild.2.1, ?_⟩
    rw [hkept]
    exact hchild.2.2
  obtain ⟨final, hfinal, hsame⟩ := h' kept hmem i keyTo hkeptChild
  rw [hid] at hfinal
  exact ⟨final, hfinal, hsame.trans hkept⟩

theorem keepsParents_updateAll {store : Store} {model : ModelDefinition}
    {selects : EntityRecord → Bool} {updateData : JsonObject}
    (h : ∀ record ∈ store.rows, record.setName = model.setName → selects record = true →
      ∀ i keyTo, HasCompositionParent data config i keyTo record →
        mergeFields model updateData record.fields keyTo = record.fields keyTo) :
    KeepsParents data config store (store.updateAll model selects updateData) := by
  intro record hrecord i keyTo hchild
  refine ⟨record.merge model selects updateData, ?_, ?_⟩
  · rw [Store.updateAll, Table.find_map, Table.find_of_mem hrecord]
    rfl
  · unfold EntityRecord.merge
    split
    · next hselects => exact h record hrecord hselects.1 hselects.2 i keyTo hchild
    · rfl

theorem keepsParents_append {store after : Store} {records : List EntityRecord}
    (h : after.rows = store.rows ++ records) : KeepsParents data config store after := by
  intro record hrecord _ _ _
  refine ⟨record, Table.find_of_mem ?_, rfl⟩
  rw [h]
  exact List.mem_append_left _ hrecord

/-- One entity changes, and keeps its foreign keys. -/
theorem keepsParents_of_find {store after : Store} {changed : EntityRecord} {fields : PlainObject}
    (hself : after.find changed.id = some (changed.withFields fields))
    (hstored : store.find changed.id = some changed)
    (hothers : ∀ id, id ≠ changed.id → after.find id = store.find id)
    (h : ∀ i keyTo, HasCompositionParent data config i keyTo changed →
      fields keyTo = changed.fields keyTo) : KeepsParents data config store after := by
  intro record hrecord i keyTo hchild
  by_cases hid : record.id = changed.id
  · obtain rfl : record = changed :=
      Table.eq_of_key hrecord (Table.find_eq_some_iff.mp hstored).1 hid
    exact ⟨_, hself, h i keyTo hchild⟩
  · exact ⟨record, (hothers _ hid).trans (Table.find_of_mem hrecord), rfl⟩

end Writes

/-! ## Patching -/

section Patch

variable {ι : Type} {env : Environment} {data : DataModel ι} {keys : KeyGenerator}
  {config : CompositionConfig ι} {root : ι} {payload : JsonObject}

theorem triple_relationPatch_keepsParents {relation : RelationDefinition ι} {id : JsValue}
    {updateData : JsonObject} {selects : EntityRecord → Bool}
    (h : ∀ keyTo, IsCompositionKey data config relation.target keyTo → keyTo ≠ relation.keyTo →
      hasField updateData keyTo = false) :
    Effect.Triple (KeepsParents data config) (fun _ => True)
      (relationPatch data relation id updateData selects) fun _ _ => True := by
  unfold relationPatch
  refine Effect.triple_bind KeepsParents.trans
    (Q := fun constrained _ => constrainDataObject updateData relation.keyTo id = .ok constrained)
    (Effect.triple_ofExcept KeepsParents.refl fun _ _ hconstrain _ => hconstrain) ?_
  intro constrained
  refine Effect.triple_modify ?_
  intro store hconstrain
  refine ⟨keepsParents_updateAll ?_, trivial⟩
  intro record _ hset hselects i keyTo hchild
  rw [Bool.and_eq_true, isRelated, Bool.and_eq_true] at hselects
  obtain rfl := data.setName_injective _ _ (hchild.1.symm.trans hset)
  unfold mergeFields
  split
  · next hfield =>
    by_cases hkeyTo : keyTo = relation.keyTo
    · subst hkeyTo
      rw [(constrainDataObject_eq_ok hconstrain).1]
      have hsatisfies := hselects.1.2
      have hnonnull := hchild.2.2
      cases id with
      | atom a => exact (isAtom_iff.mp hsatisfies).symm
      | null =>
        rw [show (record.fields relation.keyTo).isNullish = true from hsatisfies] at hnonnull
        cases hnonnull
      | _ => cases hsatisfies
    · have hnone : hasField constrained keyTo = false := by
        rw [hasField_eq_false_iff]
        intro field hmem
        rcases constrainDataObject_subset hconstrain field hmem with hself | hmem
        · exact fun h => hkeyTo (h.symm.trans hself)
        · exact hasField_eq_false_iff.mp (h keyTo hchild.2.1 hkeyTo) field hmem
      rw [hnone] at hfield
      exact absurd hfield.2 Bool.false_ne_true
  · rfl

theorem updateRule_keepsParents (hentries : PatchKeepsEntries data config root payload) :
    UpdateRule env data keys root payload (KeepsParents data config) fun _ _ _ => True where
  refl := KeepsParents.refl
  trans := KeepsParents.trans
  stable := fun _ _ _ _ _ _ => trivial
  find i id relation _ := by
    unfold relationFind
    refine Effect.triple_bind KeepsParents.trans (Q := fun _ _ => True)
      (Effect.triple_get KeepsParents.refl fun _ _ => trivial) fun _ => ?_
    exact Effect.triple_pure KeepsParents.refl fun _ _ _ _ => trivial
  create i id relation entry _ _ := by
    intro store _
    refine ⟨?_, fun _ _ _ => trivial⟩
    cases hrun : relationCreate data keys relation id (rootOf data relation.target entry) store with
    | mk result after =>
      cases result with
      | error e =>
        rw [relationCreate_eq_error hrun]
        exact KeepsParents.refl store
      | ok created =>
        obtain ⟨_, _, _, _, _, hrows⟩ := relationCreate_eq_ok hrun
        exact keepsParents_append hrows
  patch i id relation entry selects _ hentry hkey := by
    unfold patchRelated
    dsimp only
    split
    · exact Effect.triple_pure KeepsParents.refl fun _ _ => trivial
    · apply triple_relationPatch_keepsParents
      intro keyTo hcomposition hne
      have hfield := hentries i relation entry keyTo hentry hkey hcomposition hne
      rw [hasField_eq_false_iff]
      intro field hmem
      exact hasField_eq_false_iff.mp (hasField_root hfield) field (List.mem_of_mem_filter hmem)
  keyed i id relation entry existing idKey _ _ _ _ _ :=
    triple_currentChild KeepsParents.refl KeepsParents.trans (fun _ _ _ _ => trivial)
      fun _ _ _ _ => trivial

variable [DecidableEq ι]

/-- The checks of a `PATCH` change nothing, and pass for each foreign key of the payload. -/
theorem triple_assertCompositionForeignKeysUnchanged {start : Store} {entityId : JsValue}
    {ifMatch : Option (EntityRecord → Bool)} {workingPayload : JsonObject} :
    Effect.Triple (KeepsParents data config) (· = start)
      (assertCompositionForeignKeysUnchanged env data config root entityId ifMatch workingPayload)
      fun _ store => store = start ∧
        ∀ keyTo ∈ getCompositionParentForeignKeys data config root,
          hasField workingPayload keyTo = true →
          ∀ record, start.findById (data.model root) entityId = some record →
            assertCompositionForeignKey env (data.model root) keyTo
              (toPlainEntity env (data.model root) record keyTo) (fieldOf workingPayload keyTo) =
                .ok ⟨⟩ := by
  unfold assertCompositionForeignKeysUnchanged
  dsimp only
  split
  · next hempty =>
    refine Effect.triple_pure KeepsParents.refl ?_
    intro store hstore
    refine ⟨hstore, ?_⟩
    intro keyTo hmem hfield
    have hforbidden := List.mem_filter.mpr ⟨hmem, hfield⟩
    rw [List.isEmpty_iff.mp hempty] at hforbidden
    exact absurd hforbidden List.not_mem_nil
  · refine Effect.triple_bind KeepsParents.trans
      (triple_existingForUpdate KeepsParents.refl KeepsParents.trans _) fun existing => ?_
    refine Effect.triple_mono
      (Effect.triple_each_ofExcept KeepsParents.refl KeepsParents.trans) (fun _ h => h) ?_
    rintro _ store ⟨⟨rfl, hfind, -⟩, hchecks⟩
    refine ⟨rfl, ?_⟩
    intro keyTo hmem hfield record hrecord
    obtain rfl := Option.some.inj (hfind.symm.trans hrecord)
    exact hchecks keyTo (List.mem_filter.mpr ⟨hmem, hfield⟩)

/-- The entity itself, where its payload has passed the checks. -/
theorem triple_updateRoot_keepsParents {start : Store} {ifMatch : Option (EntityRecord → Bool)}
    {id : Atom} {entityId : JsValue} {scalars : JsonObject}
    (hcoerce : coerceParentId env (data.model root) id = .ok entityId)
    (hroot : PatchKeepsRoot env data config root ifMatch id scalars start)
    (hchecks : ∀ keyTo ∈ getCompositionParentForeignKeys data config root,
      hasField scalars keyTo = true →
      ∀ record, start.findById (data.model root) entityId = some record →
        assertCompositionForeignKey env (data.model root) keyTo
          (toPlainEntity env (data.model root) record keyTo) (fieldOf scalars keyTo) = .ok ⟨⟩) :
    Effect.Triple (KeepsParents data config) (· = start)
      (updateRoot data root entityId ifMatch scalars) fun _ _ => True := by
  unfold updateRoot
  split
  · exact Effect.triple_pure KeepsParents.refl fun _ _ => trivial
  refine Effect.triple_bind KeepsParents.trans
    (triple_existingForUpdate KeepsParents.refl KeepsParents.trans _) fun existing => ?_
  refine Effect.triple_modify ?_
  rintro store ⟨rfl, hfind, hselects⟩
  refine ⟨keepsParents_updateAll ?_, trivial⟩
  intro record hrecord hset hsatisfies i keyTo hchild
  obtain rfl := data.setName_injective _ _ (hchild.1.symm.trans hset)
  obtain ⟨hatom, _, hexisting⟩ := Store.findById_eq_some hfind
  obtain rfl : existing = record := by
    rw [hatom, satisfies, isAtom_iff, JsValue.atom.injEq] at hsatisfies
    rw [← hsatisfies, ← hset] at hexisting
    exact Option.some.inj (hexisting.symm.trans (Table.find_of_mem hrecord))
  unfold mergeFields
  split
  · next hfield =>
    exact hroot existing keyTo ⟨entityId, hcoerce, hfind, hselects⟩ hchild hfield.2
      fun hmem => hchecks keyTo hmem hfield.2 existing hfind
  · rfl

theorem triple_update_keepsParents {start : Store} {maxDepth : Nat} {deepUpdateEnabled : Bool}
    {ifMatch : Option (EntityRecord → Bool)} {id : Atom}
    (hroot : PatchKeepsRoot env data config root ifMatch id
      (normalizeUpdatePayload data root deepUpdateEnabled payload).root start)
    (hentries : deepUpdateEnabled = true → PatchKeepsEntries data config root payload) :
    Effect.Triple (KeepsParents data config) (· = start)
      (update env data keys config root maxDepth deepUpdateEnabled ifMatch id payload)
      fun _ _ => True := by
  unfold update
  dsimp only
  refine Effect.triple_bind KeepsParents.trans
    (Q := fun entityId store => coerceParentId env (data.model root) id = .ok entityId ∧
      store = start)
    (Effect.triple_ofExcept KeepsParents.refl fun _ _ hcoerce h => ⟨hcoerce, h⟩) ?_
  intro entityId
  by_cases hcoerce : coerceParentId env (data.model root) id = .ok entityId
  swap
  · exact fun store h => absurd h.1 hcoerce
  refine Effect.triple_mono ?_ (fun _ h => h.2) fun _ _ h => h
  refine Effect.triple_bind KeepsParents.trans triple_assertCompositionForeignKeysUnchanged
    fun _ => ?_
  refine Effect.triple_bind KeepsParents.trans (Q := fun _ _ => True) ?_ fun _ => ?_
  · rintro store ⟨rfl, hchecks⟩
    exact triple_updateRoot_keepsParents hcoerce hroot hchecks store rfl
  refine Effect.triple_bind KeepsParents.trans
    (triple_existingForUpdate KeepsParents.refl KeepsParents.trans _) fun _ => ?_
  refine Effect.triple_bind KeepsParents.trans (Q := fun _ _ => True) ?_ fun _ => ?_
  · cases deepUpdateEnabled with
    | true =>
      have hrecurses : Recurses data root payload (KeepsParents data config) (fun _ _ _ => True)
          (applyDeepUpdateRelations env data keys config root maxDepth (maxDepth + 1)) :=
        (updateRule_keepsParents (hentries rfl)).recurses maxDepth (maxDepth + 1)
      exact Effect.triple_mono (hrecurses.nested root entityId payload .root)
        (fun _ _ => trivial) fun _ _ h => h
    | false => exact Effect.triple_pure KeepsParents.refl fun _ _ => trivial
  refine Effect.triple_bind KeepsParents.trans
    (triple_existingForUpdate KeepsParents.refl KeepsParents.trans _) fun _ => ?_
  exact Effect.triple_pure KeepsParents.refl fun _ _ => trivial

end Patch

/-! ## Replacing and linking -/

section Replace

variable {ι : Type} {env : Environment} {urls : UrlParser} {service : ι → Service}
  {data : DataModel ι} {config : CompositionConfig ι}

theorem triple_replace_keepsParents {root : ι} {ifMatch : Option (EntityRecord → Bool)} {id : Atom}
    {payload : JsonObject} {start : Store}
    (h : PutKeeps env data config root ifMatch id payload start) :
    Effect.Triple (KeepsParents data config) (· = start)
      (replace env data root ifMatch id payload) fun _ _ => True := by
  unfold replace
  refine Effect.triple_bind KeepsParents.trans
    (Q := fun entityId store => coerceParentId env (data.model root) id = .ok entityId ∧
      store = start)
    (Effect.triple_ofExcept KeepsParents.refl fun _ _ hcoerce h => ⟨hcoerce, h⟩) fun entityId => ?_
  refine Effect.triple_bind KeepsParents.trans
    (Q := fun existing store => store = start ∧
      Selects env data root ifMatch id start existing) ?_ fun existing => ?_
  · unfold existingForReplace
    refine Effect.triple_bind KeepsParents.trans (Effect.triple_get KeepsParents.refl
      (Q := fun found store => found = store ∧
        coerceParentId env (data.model root) id = .ok entityId ∧ store = start)
      fun _ h => ⟨rfl, h⟩) fun found => ?_
    split
    · exact Effect.triple_fail KeepsParents.refl
    · next existing hfind =>
      split
      · next hselects =>
        refine Effect.triple_pure KeepsParents.refl ?_
        rintro store ⟨rfl, hcoerce, rfl⟩
        refine ⟨rfl, entityId, hcoerce, hfind, ?_⟩
        rintro selects rfl
        exact hselects
      · exact Effect.triple_fail KeepsParents.refl
  · refine Effect.triple_modify ?_
    rintro store ⟨rfl, hselected⟩
    refine ⟨?_, trivial⟩
    have hput := h existing
    obtain ⟨entityId, hcoerce, hfind, hselects⟩ := hselected
    obtain ⟨-, hset, hexisting⟩ := Store.findById_eq_some hfind
    have hid : existing.id = ((data.model root).setName, existing.key) := by
      rw [EntityRecord.id, hset]
    have hself : (store.replaceById (data.model root) existing.key
        (replacementOf data root payload)).find existing.id =
          some (existing.withFields (replacementOf data root payload)) := by
      rw [hid]
      exact Store.find_replaceById _ hexisting
    have hothers (other : Text × Atom) (hne : other ≠ existing.id) :
        (store.replaceById (data.model root) existing.key
          (replacementOf data root payload)).find other = store.find other := by
      rw [hid] at hne
      exact Store.find_replaceById_of_ne _ hne
    refine keepsParents_of_find hself (by rw [hid]; exact hexisting) hothers ?_
    intro i keyTo hchild
    obtain rfl := data.setName_injective _ _ (hchild.1.symm.trans hset)
    exact hput keyTo ⟨entityId, hcoerce, hfind, hselects⟩ hchild

variable {i : ι} {relation : {relation // relation ∈ data.relations i}} {parentId : Atom}
  {store after : Store}

/-- What a changed reference leaves of the foreign keys. -/
theorem keepsParents_replaceReference {record : EntityRecord} {value : JsValue}
    (hfind : store.find record.id = some record)
    (hset : record.setName = (data.model relation.1.target).setName)
    (h : ∀ keyTo, HasCompositionParent data config relation.1.target keyTo record →
      (keyTo = relation.1.keyTo → record.fields keyTo = value) ∧
        (keyTo ≠ relation.1.keyTo →
          KeepsForm env (data.model relation.1.target) keyTo (record.fields keyTo))) :
    KeepsParents data config store
      (replaceReference env (navigationRelation data config i relation) store record value) := by
  obtain ⟨hself, hothers⟩ := @find_replaceReference env
    (navigationRelation data config i relation) store record hfind hset value
  refine keepsParents_of_find hself hfind hothers ?_
  intro j keyTo hchild
  obtain rfl := data.setName_injective _ _ (hchild.1.symm.trans hset)
  obtain ⟨hsame, hother⟩ := h keyTo hchild
  by_cases hkeyTo : keyTo = relation.1.keyTo
  · rw [hkeyTo] at hsame ⊢
    exact (setField_self _ _ _).trans (hsame rfl).symm
  · refine (setField_of_ne hkeyTo _ _).trans ((writtenBack_eq_iff ?_).mpr (hother hkeyTo))
    obtain ⟨k, other, hmem, _, htarget, rfl⟩ := hchild.2.1
    change other.keyTo ≠ (data.model relation.1.target).idName
    rw [← htarget]
    exact data.keyTo_ne k other hmem

theorem keepsParents_linkNavigationRef {targetUri : Text}
    (h : LinkKeeps env urls service data config i relation parentId targetUri store)
    (hlink : linkNavigationRef env urls (service i) (navigationRelation data config i relation) store
      parentId targetUri = .ok after) : KeepsParents data config store after := by
  obtain ⟨-, hcomposition, parent, entitySet, record, hparent, hdenotes, rfl⟩ :=
    linkNavigationRef_eq_ok hlink
  exact keepsParents_replaceReference hdenotes.stored hdenotes.target fun keyTo hchild =>
    h hcomposition parent entitySet record keyTo hparent hdenotes hchild

theorem unlinkFromMany_cases {relation : NavigationRelation} {parent : JsValue} {targetKey : Text}
    (h : unlinkFromMany env relation store parent targetKey = .ok after) :
    relation.isComposition = false ∧ ∃ record, store.find record.id = some record ∧
      record.setName = relation.target.setName ∧
      targetIdOf env relation targetKey = .ok (.atom record.key) ∧
      strictlyEqual (writtenBack env relation.target record relation.keyTo) parent = true ∧
      after = replaceReference env relation store record .null := by
  unfold unlinkFromMany at h
  simp only [bind, Except.bind] at h
  split at h
  · cases h
  cases htarget : targetIdOf env relation targetKey with
  | error e =>
    rw [htarget] at h
    cases h
  | ok targetId =>
    rw [htarget] at h
    dsimp only at h
    split at h
    · cases h
    next hcomposition =>
    cases hfind : findTarget relation store targetId with
    | error e =>
      rw [hfind] at h
      cases h
    | ok record =>
      rw [hfind] at h
      dsimp only at h
      split at h
      · cases h
      next hlinked =>
      obtain rfl := Except.ok.inj h
      obtain ⟨rfl, hstored, hset⟩ := findTarget_eq_ok hfind
      rw [Bool.or_eq_true, not_or, Bool.not_eq_true', Bool.not_eq_false] at hlinked
      exact ⟨Bool.eq_false_iff.mpr hcomposition, record, hstored, hset, rfl, hlinked.2, rfl⟩

/-- An unlink that succeeds sets the reference of one entity to null. -/
theorem unlinkNavigationRef_eq_ok {relation : NavigationRelation} {targetKey : Text}
    (h : unlinkNavigationRef env relation store parentId targetKey = .ok after) :
    relation.isComposition = false ∧ ∃ record,
      Unlinks env relation store parentId targetKey record ∧
        after = replaceReference env relation store record .null := by
  unfold unlinkNavigationRef at h
  cases hparent : coerceParentId env relation.parent parentId with
  | error e =>
    rw [hparent] at h
    cases h
  | ok parent =>
    rw [hparent] at h
    simp only [bind, Except.bind] at h
    by_cases hmany : relation.targetsMany = true
    · rw [if_pos hmany] at h
      obtain ⟨hcomposition, record, hfind, hset, hkey, hlinked, rfl⟩ := unlinkFromMany_cases h
      refine ⟨hcomposition, record, ⟨hfind, hset, parent, hparent, fun _ => ⟨hkey, hlinked⟩, ?_⟩,
        rfl⟩
      intro hone
      rw [hmany] at hone
      cases hone
    · rw [if_neg hmany] at h
      unfold unlinkFromOne at h
      split at h
      · cases h
      · next hcomposition =>
        split at h
        · next record hfound =>
          obtain rfl := Except.ok.inj h
          have hlinked := List.find?_some hfound
          unfold isLinked at hlinked
          rw [Bool.and_eq_true, decide_eq_true_eq] at hlinked
          refine ⟨Bool.eq_false_iff.mpr hcomposition, record,
            ⟨Table.find_of_mem (List.mem_of_find?_eq_some hfound), hlinked.1, parent, hparent, ?_,
              fun _ => hfound⟩, rfl⟩
          exact fun h => absurd h hmany
        · cases h

theorem keepsParents_unlinkNavigationRef {targetKey : Text}
    (h : UnlinkKeeps env data config i relation parentId targetKey store)
    (hunlink : unlinkNavigationRef env (navigationRelation data config i relation) store parentId
      targetKey = .ok after) : KeepsParents data config store after := by
  obtain ⟨hcomposition, record, hunlinks, rfl⟩ := unlinkNavigationRef_eq_ok hunlink
  have hkeeps := h hcomposition record
  obtain ⟨hfind, hset, -⟩ := id hunlinks
  refine keepsParents_replaceReference hfind hset fun keyTo hchild => ?_
  obtain ⟨hne, hform⟩ := hkeeps keyTo hunlinks hchild
  exact ⟨fun heq => absurd heq hne, fun _ => hform⟩

end Replace

/-! ## Runs -/

section Run

variable {ι : Type} [DecidableEq ι] {env : Environment} {urls : UrlParser} {service : ι → Service}
  {data : DataModel ι} {keys : KeyGenerator} {config : CompositionConfig ι} {maxDepth : Nat}

/-- A `PUT` that the header does not exclude. -/
theorem perform_put {i : ι} {id : Atom} {entityId : JsValue} {payload : JsonObject} {store : Store}
    {existing : EntityRecord} (hcoerce : coerceParentId env (data.model i) id = .ok entityId)
    (hfind : store.findById (data.model i) entityId = some existing) :
    (Operation.put i none id payload : Operation data).perform env urls service data keys config
        maxDepth store =
      (.ok ⟨⟩, store.replaceById (data.model i) existing.key (replacementOf data i payload)) := by
  unfold Operation.perform replace existingForReplace
  dsimp only
  rw [hcoerce, Effect.bind_apply, Effect.ofExcept]
  dsimp only
  rw [Effect.bind_apply, Effect.bind_apply, Effect.get]
  dsimp only
  rw [hfind]
  rfl

theorem triple_perform_keepsParents {operation : Operation data} {start : Store}
    (h : operation.KeepsForeignKeys env urls service data config start) :
    Effect.Triple (KeepsParents data config) (· = start)
      (operation.perform env urls service data keys config maxDepth) fun _ _ => True := by
  cases operation with
  | patch i deepUpdateEnabled ifMatch id payload => exact triple_update_keepsParents h.1 h.2
  | put i ifMatch id payload => exact triple_replace_keepsParents h
  | link i relation parentId targetUri =>
    by_cases hthrough : relation.1.through = true
    · rw [Operation.perform, if_pos hthrough]
      exact Effect.triple_fail KeepsParents.refl
    · rw [Operation.perform, if_neg hthrough]
      refine Effect.triple_advance KeepsParents.refl ?_
      rintro store after rfl hlink
      exact ⟨keepsParents_linkNavigationRef (h (Bool.eq_false_iff.mpr hthrough)) hlink, trivial⟩
  | unlink i relation parentId targetKey =>
    by_cases hthrough : relation.1.through = true
    · rw [Operation.perform, if_pos hthrough]
      exact Effect.triple_fail KeepsParents.refl
    · rw [Operation.perform, if_neg hthrough]
      refine Effect.triple_advance KeepsParents.refl ?_
      rintro store after rfl hunlink
      exact ⟨keepsParents_unlinkNavigationRef (h (Bool.eq_false_iff.mpr hthrough)) hunlink,
        trivial⟩

theorem Step.keepsParents {transaction : Bool} {before after : Store}
    (h : Step env urls service data keys config maxDepth transaction before after) :
    KeepsParents data config before after := by
  obtain ⟨operation, hkeeps, rfl⟩ := h
  have htriple : Effect.Triple (KeepsParents data config) (· = before)
      (Effect.transaction transaction
        (operation.perform env urls service data keys config maxDepth)) fun _ _ => True :=
    Effect.triple_transaction KeepsParents.refl (triple_perform_keepsParents hkeeps)
  exact (htriple before rfl).1

end Run

/-- In a run of operations that keep foreign keys, every child keeps its parents. -/
theorem run_keepsParents {ι : Type} [DecidableEq ι] (env : Environment) (urls : UrlParser)
    (service : ι → Service) (data : DataModel ι) (keys : KeyGenerator)
    (config : CompositionConfig ι) (maxDepth : Nat) (transaction : Bool) (start reached after : Store)
    (_ : Relation.ReflTransGen (Step env urls service data keys config maxDepth transaction) start
      reached)
    (hafter : Relation.ReflTransGen (Step env urls service data keys config maxDepth transaction)
      reached after) : KeepsParents data config reached after := by
  induction hafter with
  | refl => exact KeepsParents.refl reached
  | tail _ hstep ih => exact KeepsParents.trans _ _ _ ih hstep.keepsParents

/-! ## An invoice that loses its customer -/

def invoiceComposition : CompositionConfig SalesClass where
  registered := [.customer, .invoice, .line]
  resolved i name := decide (i = .customer) && decide (name = "invoices".toList)

theorem eq_of_isCompositionKey {i : SalesClass} {keyTo : Text}
    (h : IsCompositionKey salesModel invoiceComposition i keyTo) :
    i = .invoice ∧ keyTo = "customerId".toList := by
  obtain ⟨j, relation, hrelation, hresolved, rfl, rfl⟩ := h
  cases j with
  | customer =>
    obtain rfl := List.mem_singleton.mp hrelation
    exact ⟨rfl, rfl⟩
  | _ => cases hresolved

theorem salesRecord_keyTo (setName key keyTo parentKey : String) :
    (salesRecord setName key keyTo parentKey).fields keyTo.toList =
      .atom (.str parentKey.toList) := if_pos rfl

theorem replacementOf_customerId (payload : JsonObject) :
    replacementOf salesModel .invoice payload "customerId".toList =
      stripValue (fieldOf payload "customerId".toList) := by
  have hrelation : ((salesModel.relations .invoice).any fun relation =>
      relation.name = "customerId".toList) = false := by decide
  have hid : (salesModel.model .invoice).idName = "number".toList := rfl
  have hne : ("customerId".toList : Text) ≠ "number".toList := by decide
  have hname : isAnnotationName "customerId".toList = false :=
    isAnnotationName_of_not_mem (by decide)
  unfold replacementOf removeEntityIdProperties
  rw [hid, setField_of_ne hne, hrelation, if_neg Bool.false_ne_true, stripODataAnnotations, hname,
    if_neg Bool.false_ne_true]

theorem put_invoice (payload : JsonObject) :
    Effect.transaction true ((Operation.put .invoice none (.str "n2".toList) payload :
        Operation salesModel).perform Environment.ascii sampleUrls (fun _ => sampleService)
          salesModel numberGenerator invoiceComposition 10) salesStore =
      (.ok ⟨⟩, salesStore.replaceById invoiceModel (.str "n2".toList)
        (replacementOf salesModel .invoice payload)) := by
  have hcoerce : coerceParentId Environment.ascii (salesModel.model .invoice)
      (.str "n2".toList) = .ok (.atom (.str "n2".toList)) := rfl
  have hfind : salesStore.findById (salesModel.model .invoice) (.atom (.str "n2".toList)) =
      some (salesRecord "Invoices" "n2" "customerId" "c2") := rfl
  exact Effect.ok_transaction_iff.mpr (perform_put hcoerce hfind)

theorem putKeeps_invoice :
    PutKeeps Environment.ascii salesModel invoiceComposition .invoice none (.str "n2".toList)
      [("customerId".toList, .atom (.str "c2".toList))] salesStore := by
  intro record keyTo hselects hchild
  obtain ⟨-, rfl⟩ := eq_of_isCompositionKey hchild.2.1
  obtain ⟨entityId, hcoerce, hfind, -⟩ := hselects
  obtain ⟨-, hset, hstored⟩ := Store.findById_eq_some hfind
  obtain rfl := invoice_of_mem (Table.find_eq_some_iff.mp hstored).1 hset
  rw [replacementOf_customerId, fieldOf_cons_self, salesRecord_keyTo]
  rfl

theorem step_put_invoice :
    Step Environment.ascii sampleUrls (fun _ => sampleService) salesModel numberGenerator
      invoiceComposition 10 true salesStore (salesStore.replaceById invoiceModel (.str "n2".toList)
        (replacementOf salesModel .invoice [("customerId".toList, .atom (.str "c2".toList))])) := by
  refine ⟨.put .invoice none (.str "n2".toList) [("customerId".toList, .atom (.str "c2".toList))],
    putKeeps_invoice, ?_⟩
  rw [put_invoice]

theorem run_keepsParents_invoice :
    KeepsParents salesModel invoiceComposition salesStore
      (salesStore.replaceById invoiceModel (.str "n2".toList)
        (replacementOf salesModel .invoice [("customerId".toList, .atom (.str "c2".toList))])) :=
  run_keepsParents Environment.ascii sampleUrls (fun _ => sampleService) salesModel
    numberGenerator invoiceComposition 10 true salesStore salesStore _ .refl
    (.single step_put_invoice)

/-- Without foreign key in its body, a `PUT` of an invoice takes it from its customer. -/
theorem not_keepsParents :
    ¬ ∀ (env : Environment) (urls : UrlParser) (service : SalesClass → Service)
      (data : DataModel SalesClass) (keys : KeyGenerator) (config : CompositionConfig SalesClass)
      (maxDepth : Nat) (transaction : Bool) (store after : Store) (operation : Operation data),
      (∀ record ∈ store.rows, ∀ i keyTo, record.setName = (data.model i).setName →
        IsCompositionKey data config i keyTo → (record.fields keyTo).isNullish = false) →
      Effect.transaction transaction
        (operation.perform env urls service data keys config maxDepth) store = (.ok ⟨⟩, after) →
      KeepsParents data config store after := by
  intro h
  have hchild : HasCompositionParent salesModel invoiceComposition .invoice "customerId".toList
      (salesRecord "Invoices" "n2" "customerId" "c2") :=
    ⟨rfl, ⟨.customer, customerInvoices, List.mem_cons_self, rfl, rfl, rfl⟩, rfl⟩
  have hstart : ∀ record ∈ salesStore.rows, ∀ i keyTo,
      record.setName = (salesModel.model i).setName →
      IsCompositionKey salesModel invoiceComposition i keyTo →
        (record.fields keyTo).isNullish = false := by
    intro record hrecord i keyTo hset hcomposition
    obtain ⟨rfl, rfl⟩ := eq_of_isCompositionKey hcomposition
    obtain rfl := invoice_of_mem hrecord hset
    rfl
  obtain ⟨kept, hfind, hkept⟩ := h Environment.ascii sampleUrls (fun _ => sampleService) salesModel
    numberGenerator invoiceComposition 10 true salesStore _ _ hstart (put_invoice [])
    (salesRecord "Invoices" "n2" "customerId" "c2") (by simp [salesStore]) .invoice
    "customerId".toList hchild
  have hreplaced := @Store.find_replaceById salesStore invoiceModel
    (salesRecord "Invoices" "n2" "customerId" "c2") (replacementOf salesModel .invoice []) rfl
  obtain rfl := Option.some.inj (hreplaced.symm.trans hfind)
  unfold EntityRecord.withFields at hkept
  dsimp only at hkept
  rw [replacementOf_customerId, salesRecord_keyTo] at hkept
  cases hkept

end LoopbackOData
