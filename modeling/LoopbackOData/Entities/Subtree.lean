import LoopbackOData.Entities.DeepUpdate

/-!
# The subtree of a deep update

A deep update should change the descendants of its root only, and what it creates should become
descendants. That depends on the keys in its payload.
-/

namespace LoopbackOData

set_option autoImplicit false

section Subtree

variable {ι : Type} (data : DataModel ι)

/-- The descendants of the root, through the relations that the payload names. -/
inductive Descends (root : ι) (rootKey : Atom) (payload : JsonObject) (store : Store) :
    ι → Atom → Prop where
  | root : Descends root rootKey payload store root rootKey
  | child {i : ι} {key : Atom} {relation : RelationDefinition ι} {record : EntityRecord} :
    Descends root rootKey payload store i key → Names data root payload i relation →
    record ∈ store.rows → record.setName = (data.model relation.target).setName →
    record.fields relation.keyTo = .atom key →
    Descends root rootKey payload store relation.target record.key

def IsDescendant (root : ι) (rootKey : Atom) (payload : JsonObject) (store : Store)
    (record : EntityRecord) : Prop :=
  ∃ i, record.setName = (data.model i).setName ∧
    Descends data root rootKey payload store i record.key

/-- Apart from the root, what changes was a descendant before, and what is new is one afterwards. -/
structure StaysInSubtree (root : ι) (rootKey : Atom) (payload : JsonObject)
    (before after : Store) : Prop where
  changed : ∀ record ∈ before.rows, record.id ≠ ((data.model root).setName, rootKey) →
    after.find record.id ≠ some record → IsDescendant data root rootKey payload before record
  created : ∀ record ∈ after.rows, before.find record.id = none →
    IsDescendant data root rootKey payload after record

/-- A key that the output form leaves as it is. -/
def ShowsKey (env : Environment) (i : ι) (key : Atom) : Prop :=
  ∀ record : EntityRecord, record.key = key → plainKey env data i record = .atom key

/-- A payload that keeps to the subtree of its root: an entry with a key that nests further entries
names a descendant, no entity refers to one that does not exist, entities are not moved by their
other foreign keys, and keys are in output form. -/
structure KeepsToSubtree (env : Environment) (keys : KeyGenerator) (root : ι) (rootKey : Atom)
    (payload : JsonObject) (store : Store) : Prop where
  keyed : ∀ i relation entry, IsEntry data root payload i relation entry →
    relation.type = .hasMany → hasField entry (data.model relation.target).idName = true →
    (∃ nested ∈ data.relations relation.target, (fieldOf entry nested.name).isNullish = false) →
    ∃ a, fieldOf entry (data.model relation.target).idName = .atom a ∧
      Descends data root rootKey payload store relation.target a
  refers : ∀ i relation, Names data root payload i relation → ∀ record ∈ store.rows,
    record.setName = (data.model relation.target).setName →
    ∀ a, record.fields relation.keyTo = .atom a →
      (store.find ((data.model i).setName, a)).isSome = true
  moves : ∀ i relation entry, IsEntry data root payload i relation entry →
    (relation.type = .hasMany → hasField entry (data.model relation.target).idName = true) →
    ∀ j other, Names data root payload j other → other.target = relation.target →
      other.keyTo ≠ relation.keyTo → hasField entry other.keyTo = false
  storedKeys : ∀ record ∈ store.rows, ∀ i, record.setName = (data.model i).setName →
    ShowsKey data env i record.key
  newKeys : ∀ i before, ShowsKey data env i (keys.newKey before (data.model i))
  givenKeys : ∀ i relation entry, IsEntry data root payload i relation entry →
    ∀ a, fieldOf entry (data.model relation.target).idName = .atom a →
      ShowsKey data env relation.target a

end Subtree

/-! ## States of a deep update -/

section Within

variable {ι : Type} {data : DataModel ι} {env : Environment} {keys : KeyGenerator} {root : ι}
  {rootKey : Atom} {payload : JsonObject}

/-- Entities stay, and descendants stay descendants. -/
structure Extends (data : DataModel ι) (root : ι) (rootKey : Atom) (payload : JsonObject)
    (store after : Store) : Prop where
  present : ∀ id, (store.find id).isSome = true → (after.find id).isSome = true
  descends : ∀ i key, Descends data root rootKey payload store i key →
    Descends data root rootKey payload after i key

/-- What holds in every state after a start. -/
structure Within (data : DataModel ι) (env : Environment) (root : ι) (rootKey : Atom)
    (payload : JsonObject) (start store : Store) : Prop where
  unchanged : ∀ record ∈ start.rows, record.id ≠ ((data.model root).setName, rootKey) →
    ¬ IsDescendant data root rootKey payload start record → store.find record.id = some record
  extends_start : Extends data root rootKey payload start store
  created : ∀ record ∈ store.rows, start.find record.id = none →
    IsDescendant data root rootKey payload store record
  shows : ∀ record ∈ store.rows, ∀ i, record.setName = (data.model i).setName →
    ShowsKey data env i record.key

/-- What each part of a deep update does to the state. -/
def Advances (data : DataModel ι) (env : Environment) (root : ι) (rootKey : Atom)
    (payload : JsonObject) (start store after : Store) : Prop :=
  Within data env root rootKey payload start store →
    Within data env root rootKey payload start after ∧
      Extends data root rootKey payload store after

theorem Extends.refl (store : Store) : Extends data root rootKey payload store store :=
  ⟨fun _ h => h, fun _ _ h => h⟩

theorem Extends.trans {store between after : Store}
    (h : Extends data root rootKey payload store between)
    (h' : Extends data root rootKey payload between after) :
    Extends data root rootKey payload store after :=
  ⟨fun id hid => h'.present id (h.present id hid),
    fun i key hkey => h'.descends i key (h.descends i key hkey)⟩

theorem Advances.refl (start store : Store) :
    Advances data env root rootKey payload start store store :=
  fun h => ⟨h, Extends.refl store⟩

theorem Advances.trans (start store between after : Store)
    (h : Advances data env root rootKey payload start store between)
    (h' : Advances data env root rootKey payload start between after) :
    Advances data env root rootKey payload start store after := by
  intro hwithin
  obtain ⟨hbetween, hextends⟩ := h hwithin
  obtain ⟨hafter, hextends'⟩ := h' hbetween
  exact ⟨hafter, hextends.trans hextends'⟩

/-- The parent of a relation: a descendant, of a root that exists. -/
structure IsParent (data : DataModel ι) (env : Environment) (root : ι) (rootKey : Atom)
    (payload : JsonObject) (start : Store) (i : ι) (key : Atom) (store : Store) : Prop where
  within : Within data env root rootKey payload start store
  rooted : (store.find ((data.model root).setName, rootKey)).isSome = true
  descends : Descends data root rootKey payload store i key

theorem IsParent.stable {start : Store} {i : ι} {key : Atom} (store after : Store)
    (h : Advances data env root rootKey payload start store after)
    (hparent : IsParent data env root rootKey payload start i key store) :
    IsParent data env root rootKey payload start i key after := by
  obtain ⟨hwithin, hextends⟩ := h hparent.within
  exact ⟨hwithin, hextends.present _ hparent.rooted, hextends.descends _ _ hparent.descends⟩

/-- What can be reached during the update is the root, a descendant from before or new. -/
theorem Within.inside {start store : Store}
    (hkeeps : KeepsToSubtree data env keys root rootKey payload start)
    (hwithin : Within data env root rootKey payload start store) {i : ι} {key : Atom}
    (h : Descends data root rootKey payload store i key) {record : EntityRecord}
    (hrecord : record ∈ start.rows) (hid : record.id = ((data.model i).setName, key)) :
    record.id = ((data.model root).setName, rootKey) ∨
      IsDescendant data root rootKey payload start record := by
  induction h generalizing record with
  | root => exact .inl hid
  | @child i parentKey relation child _ hnames hchild hset hlink ih =>
    by_contra houtside
    rw [not_or] at houtside
    have hfind := hwithin.unchanged record hrecord houtside.1 houtside.2
    have hchildId : child.id = record.id := by
      rw [hid, ← hset]
      rfl
    have hsame : record = child := by
      rw [← hchildId, Table.find_of_mem hchild] at hfind
      exact (Option.some.inj hfind).symm
    subst hsame
    obtain ⟨parent, hparent⟩ := Option.isSome_iff_exists.mp
      (hkeeps.refers i relation hnames record hrecord hset parentKey hlink)
    obtain ⟨hmem, hparentId⟩ := Table.find_eq_some_iff.mp hparent
    have hdescends : Descends data root rootKey payload start i parentKey := by
      rcases ih hmem hparentId with hroot | ⟨j, hj, hdescends⟩
      · rw [hparentId] at hroot
        obtain ⟨hsetName, rfl⟩ := Prod.mk.inj hroot
        obtain rfl := data.setName_injective _ _ hsetName
        exact .root
      · obtain ⟨hsetName, rfl⟩ := Prod.mk.inj hparentId
        obtain rfl := data.setName_injective _ _ (hj.symm.trans hsetName)
        exact hdescends
    exact houtside.2 ⟨relation.target, hset, .child hdescends hnames hrecord hset hlink⟩

/-! ### Writing to the store -/

theorem Descends.of_record {store : Store} {i : ι} {record : EntityRecord}
    (hset : record.setName = (data.model i).setName)
    (h : record.id = ((data.model root).setName, rootKey)) :
    Descends data root rootKey payload store i record.key := by
  obtain ⟨hsetName, rfl⟩ := Prod.mk.inj h
  obtain rfl := data.setName_injective _ _ (hset.symm.trans hsetName)
  exact .root

theorem isDescendant_iff {store : Store} {i : ι} {record : EntityRecord}
    (hset : record.setName = (data.model i).setName) :
    IsDescendant data root rootKey payload store record ↔
      Descends data root rootKey payload store i record.key := by
  constructor
  · rintro ⟨j, hj, h⟩
    obtain rfl := data.setName_injective _ _ (hj.symm.trans hset)
    exact h
  · exact fun h => ⟨i, hset, h⟩

/-- Changing descendants and the root, and no foreign key that makes an entity a descendant. -/
theorem advances_updateAll {start store : Store}
    (hkeeps : KeepsToSubtree data env keys root rootKey payload start) {model : ModelDefinition}
    {selects : EntityRecord → Bool} {updateData : JsonObject}
    (hinside : ∀ record ∈ store.rows, record.setName = model.setName → selects record = true →
      record.id = ((data.model root).setName, rootKey) ∨
        IsDescendant data root rootKey payload store record)
    (hlinks : ∀ i key relation, Names data root payload i relation → ∀ record ∈ store.rows,
      record.setName = (data.model relation.target).setName → record.setName = model.setName →
      selects record = true → record.fields relation.keyTo = .atom key →
      record.id = ((data.model root).setName, rootKey) ∨
        (record.merge model selects updateData).fields relation.keyTo = .atom key) :
    Advances data env root rootKey payload start store (store.updateAll model selects updateData)
      := by
  intro hwithin
  have hmerge (record : EntityRecord) : (record.merge model selects updateData).setName =
        record.setName ∧ (record.merge model selects updateData).key = record.key :=
    Prod.mk.inj (EntityRecord.id_merge model selects updateData record)
  have hextends : Extends data root rootKey payload store
      (store.updateAll model selects updateData) := by
    refine ⟨?_, ?_⟩
    · intro id hid
      rw [Store.updateAll, Table.find_map, Option.isSome_map]
      exact hid
    · intro i key h
      induction h with
      | root => exact .root
      | @child i key relation record _ hnames hrecord hset hlink ih =>
        by_cases hroot : record.id = ((data.model root).setName, rootKey)
        · exact .of_record hset hroot
        · have hmem : record.merge model selects updateData ∈
              (store.updateAll model selects updateData).rows :=
            Table.mem_map.mpr ⟨record, hrecord, rfl⟩
          have hlink' : (record.merge model selects updateData).fields relation.keyTo =
              .atom key := by
            by_cases hselects : record.setName = model.setName ∧ selects record = true
            · rcases hlinks i key relation hnames record hrecord hset hselects.1 hselects.2
                hlink with hroot' | hkept
              · exact absurd hroot' hroot
              · exact hkept
            · rw [EntityRecord.merge, if_neg hselects]
              exact hlink
          rw [← (hmerge record).2]
          exact .child ih hnames hmem ((hmerge record).1.trans hset) hlink'
  refine ⟨⟨?_, ?_, ?_, ?_⟩, hextends⟩
  · intro record hrecord hroot houtside
    have hfind := hwithin.unchanged record hrecord hroot houtside
    rw [Store.updateAll, Table.find_map, hfind, Option.map_some, EntityRecord.merge, if_neg]
    rintro ⟨hset, hselects⟩
    obtain ⟨hmem, -⟩ := Table.find_eq_some_iff.mp hfind
    rcases hinside record hmem hset hselects with hroot' | ⟨i, hi, hdescends⟩
    · exact hroot hroot'
    · rcases hwithin.inside hkeeps hdescends hrecord (by rw [← hi]; rfl) with hroot' | h
      · exact hroot hroot'
      · exact houtside h
  · exact hwithin.extends_start.trans hextends
  · intro record hrecord hnew
    obtain ⟨before, hbefore, rfl⟩ := Table.mem_map.mp hrecord
    rw [EntityRecord.id_merge] at hnew
    obtain ⟨i, hi, hdescends⟩ := hwithin.created before hbefore hnew
    refine ⟨i, (hmerge before).1.trans hi, ?_⟩
    rw [(hmerge before).2]
    exact hextends.descends i _ hdescends
  · intro record hrecord i hi
    obtain ⟨before, hbefore, rfl⟩ := Table.mem_map.mp hrecord
    rw [(hmerge before).2]
    exact hwithin.shows before hbefore i ((hmerge before).1.symm.trans hi)

/-- Adding an entity below a descendant. -/
theorem advances_insert {start store after : Store} {i : ι} {key : Atom}
    {relation : RelationDefinition ι} (hdescends : Descends data root rootKey payload store i key)
    (hnames : Names data root payload i relation) {record : EntityRecord}
    (hset : record.setName = (data.model relation.target).setName)
    (hlink : record.fields relation.keyTo = .atom key) (hnone : store.find record.id = none)
    (hshows : ShowsKey data env relation.target record.key)
    (hrows : after.rows = store.rows ++ [record]) :
    Advances data env root rootKey payload start store after ∧
      Descends data root rootKey payload after relation.target record.key := by
  have hmem (other : EntityRecord) : other ∈ after.rows ↔ other ∈ store.rows ∨ other = record := by
    rw [hrows, List.mem_append, List.mem_singleton]
  have hfind {id : Text × Atom} {other : EntityRecord} (h : store.find id = some other) :
      after.find id = some other := by
    obtain ⟨hother, hid⟩ := Table.find_eq_some_iff.mp h
    exact Table.find_eq_some_iff.mpr ⟨(hmem other).mpr (.inl hother), hid⟩
  have hextends : Extends data root rootKey payload store after := by
    refine ⟨?_, ?_⟩
    · intro id hid
      obtain ⟨other, hother⟩ := Option.isSome_iff_exists.mp hid
      rw [hfind hother]
      rfl
    · intro j other h
      induction h with
      | root => exact .root
      | child _ hnames hrecord hset hlink ih =>
        exact .child ih hnames ((hmem _).mpr (.inl hrecord)) hset hlink
  have hnew : Descends data root rootKey payload after relation.target record.key :=
    .child (hextends.descends i key hdescends) hnames ((hmem record).mpr (.inr rfl)) hset hlink
  refine ⟨fun hwithin => ⟨⟨?_, ?_, ?_, ?_⟩, hextends⟩, hnew⟩
  · intro other hother hroot houtside
    exact hfind (hwithin.unchanged other hother hroot houtside)
  · exact hwithin.extends_start.trans hextends
  · intro other hother hstart
    rcases (hmem other).mp hother with hother | rfl
    · obtain ⟨j, hj, h⟩ := hwithin.created other hother hstart
      exact ⟨j, hj, hextends.descends j _ h⟩
    · exact ⟨relation.target, hset, hnew⟩
  · intro other hother j hj
    rcases (hmem other).mp hother with hother | rfl
    · exact hwithin.shows other hother j hj
    · obtain rfl := data.setName_injective _ _ (hset.symm.trans hj)
      exact hshows

/-! ### Parts of a deep update -/

theorem constrainDataObject_subset {object constrained : JsonObject} {keyTo : Text}
    {parentId : JsValue} (h : constrainDataObject object keyTo parentId = .ok constrained) :
    ∀ field ∈ constrained, field.1 = keyTo ∨ field ∈ object := by
  unfold constrainDataObject at h
  split at h
  · cases h
  · obtain rfl := Except.ok.inj h
    intro field hfield
    rcases List.mem_cons.mp hfield with rfl | hfield
    · exact .inl rfl
    · exact .inr (List.mem_of_mem_filter hfield)

theorem IsParent.find {start store : Store} {i : ι} {key : Atom}
    (h : IsParent data env root rootKey payload start i key store) :
    ∃ record, store.find ((data.model i).setName, key) = some record := by
  cases h.descends with
  | root => exact Option.isSome_iff_exists.mp h.rooted
  | @child _ _ _ record _ _ hmem hset _ =>
    refine ⟨record, ?_⟩
    rw [← hset]
    exact Table.find_of_mem hmem

section Parts

variable {start : Store} {i : ι} {id : JsValue} {relation : RelationDefinition ι}

/-- A parent given by its key in output form. -/
def HasParent (data : DataModel ι) (env : Environment) (root : ι) (rootKey : Atom)
    (payload : JsonObject) (start : Store) (i : ι) (id : JsValue) (store : Store) : Prop :=
  ∃ key, id = .atom key ∧ IsParent data env root rootKey payload start i key store

theorem HasParent.of_record {store : Store} {record : EntityRecord}
    (h : HasParent data env root rootKey payload start i id store)
    (hnames : Names data root payload i relation) (hmem : record ∈ store.rows)
    (hrelated : isRelated data relation id record = true) :
    HasParent data env root rootKey payload start relation.target
      (plainKey env data relation.target record) store := by
  obtain ⟨key, rfl, h⟩ := h
  rw [isRelated, Bool.and_eq_true, decide_eq_true_eq, satisfies, isAtom_iff] at hrelated
  have hshows := h.within.shows record hmem relation.target hrelated.1
  exact ⟨record.key, hshows record rfl, h.within, h.rooted,
    .child h.descends hnames hmem hrelated.1 hrelated.2⟩

theorem triple_relationFind (hnames : Names data root payload i relation) :
    Effect.Triple (Advances data env root rootKey payload start)
      (HasParent data env root rootKey payload start i id) (relationFind data relation id)
      fun found store => ∀ record ∈ found,
        HasParent data env root rootKey payload start relation.target
          (plainKey env data relation.target record) store := by
  unfold relationFind
  refine Effect.triple_bind (Advances.trans start)
    (Q := fun found store => found = store ∧
      HasParent data env root rootKey payload start i id store)
    (Effect.triple_get (Advances.refl start) fun store h => ⟨rfl, h⟩) ?_
  intro found
  refine Effect.triple_pure (Advances.refl start) ?_
  rintro store ⟨rfl, h⟩ record hrecord
  obtain ⟨hmem, hrelated⟩ := List.mem_filter.mp hrecord
  exact h.of_record hnames hmem hrelated

variable (hkeeps : KeepsToSubtree data env keys root rootKey payload start)
  {entry : JsonObject} (hnames : Names data root payload i relation)
  (hentry : IsEntry data root payload i relation entry)

include hkeeps hnames hentry

theorem triple_relationCreate :
    Effect.Triple (Advances data env root rootKey payload start)
      (HasParent data env root rootKey payload start i id)
      (relationCreate data keys relation id (rootOf data relation.target entry))
      fun created store => HasParent data env root rootKey payload start relation.target
        (plainKey env data relation.target created) store := by
  rintro store ⟨key, rfl, hparent⟩
  have hkeyTo := data.keyTo_ne i relation hnames.1
  cases hrun : relationCreate data keys relation (.atom key) (rootOf data relation.target entry)
      store with
  | mk result after =>
    cases result with
    | error e =>
      rw [relationCreate_eq_error hrun]
      exact ⟨Advances.refl start store, fun _ _ h => by cases (Prod.mk.inj h).1⟩
    | ok created =>
      have hshows : ShowsKey data env relation.target created.key := by
        rcases key_of_relationCreate hkeyTo hrun with hgiven | hnew
        · rw [fieldOf_root_idName] at hgiven
          exact hkeeps.givenKeys i relation entry hentry _ hgiven
        · rw [hnew]
          exact hkeeps.newKeys relation.target store
      obtain ⟨constrained, hcreated, hlink, -, hnone, hrows⟩ := relationCreate_eq_ok hrun
      have hlink' : created.fields relation.keyTo = .atom key := by
        rw [hcreated.fields _ hkeyTo, hlink]
      obtain ⟨hadvances, hdescends⟩ :
          Advances data env root rootKey payload start store after ∧
            Descends data root rootKey payload after relation.target created.key :=
        advances_insert hparent.descends hnames hcreated.setName hlink' hnone hshows hrows
      refine ⟨hadvances, ?_⟩
      intro record final h
      obtain ⟨hrecord, rfl⟩ := Prod.mk.inj h
      obtain rfl := Except.ok.inj hrecord
      obtain ⟨hwithin, hextends⟩ := hadvances hparent.within
      exact ⟨created.key, hshows created rfl, hwithin, hextends.present _ hparent.rooted,
        hdescends⟩

/-- Patching the related entities changes descendants, and none of the foreign keys that make
entities descendants. -/
theorem advances_patch {store : Store} {selects : EntityRecord → Bool} {key : Atom}
    {updateData constrained : JsonObject}
    (hkey : relation.type = .hasMany → hasField entry (data.model relation.target).idName = true)
    (hparent : IsParent data env root rootKey payload start i key store)
    (hupdate : ∀ field ∈ updateData, field ∈ rootOf data relation.target entry)
    (hconstrain : constrainDataObject updateData relation.keyTo (.atom key) = .ok constrained) :
    Advances data env root rootKey payload start store
      (store.updateAll (data.model relation.target)
        (fun record => isRelated data relation (.atom key) record && selects record)
        constrained) := by
  have hrelated (record : EntityRecord)
      (h : (isRelated data relation (.atom key) record && selects record) = true) :
      record.setName = (data.model relation.target).setName ∧
        record.fields relation.keyTo = .atom key := by
    rw [Bool.and_eq_true, isRelated, Bool.and_eq_true, decide_eq_true_eq, satisfies,
      isAtom_iff] at h
    exact h.1
  apply advances_updateAll hkeeps
  · intro record hmem _ hselects
    obtain ⟨hset, hlink⟩ := hrelated record hselects
    exact .inr ⟨relation.target, hset, .child hparent.descends hnames hmem hset hlink⟩
  · intro j otherKey other hother record _ hset hmodel hselects hlink
    right
    rw [EntityRecord.merge, if_pos ⟨hmodel, hselects⟩]
    have htarget : other.target = relation.target :=
      data.setName_injective _ _ (hset.symm.trans hmodel)
    change mergeFields _ constrained record.fields other.keyTo = _
    unfold mergeFields
    split
    · next hfield =>
      by_cases hkeyTo : other.keyTo = relation.keyTo
      · rw [hkeyTo] at hlink ⊢
        rw [(constrainDataObject_eq_ok hconstrain).1, ← hlink]
        exact (hrelated record hselects).2.symm
      · have hentryField :=
          hkeeps.moves i relation entry hentry hkey j other hother htarget hkeyTo
        have hnone : hasField constrained other.keyTo = false := by
          rw [hasField_eq_false_iff]
          intro field hmem
          rcases constrainDataObject_subset hconstrain field hmem with hself | hmem
          · exact fun h => hkeyTo (h.symm.trans hself)
          · exact hasField_eq_false_iff.mp (hasField_root hentryField) field (hupdate field hmem)
        rw [hnone] at hfield
        exact absurd hfield.2 Bool.false_ne_true
    · exact hlink

theorem triple_patchRelated {selects : EntityRecord → Bool}
    (hkey : relation.type = .hasMany → hasField entry (data.model relation.target).idName = true) :
    Effect.Triple (Advances data env root rootKey payload start)
      (HasParent data env root rootKey payload start i id)
      (patchRelated data relation id (rootOf data relation.target entry) selects)
      fun _ _ => True := by
  unfold patchRelated
  dsimp only
  split
  · exact Effect.triple_pure (Advances.refl start) fun _ _ => trivial
  · unfold relationPatch
    refine Effect.triple_bind (Advances.trans start)
      (Q := fun constrained store => constrainDataObject
          ((rootOf data relation.target entry).filter fun field =>
            field.1 ≠ (data.model relation.target).idName) relation.keyTo id = .ok constrained ∧
        HasParent data env root rootKey payload start i id store)
      (Effect.triple_ofExcept (Advances.refl start) fun _ _ hconstrain h => ⟨hconstrain, h⟩) ?_
    intro constrained
    refine Effect.triple_modify ?_
    rintro store ⟨hconstrain, key, rfl, hparent⟩
    exact ⟨advances_patch hkeeps hnames hentry hkey hparent
      (fun _ h => List.mem_of_mem_filter h) hconstrain, trivial⟩

omit hnames in
/-- The key of an entry that nests more is the key of the child that is found. -/
theorem triple_keyed {existing : List (Text × JsValue)} {idKey : Text}
    (htype : relation.type = .hasMany)
    (hkey : hasField entry (data.model relation.target).idName = true)
    (hnested : ∃ nested ∈ data.relations relation.target,
      (fieldOf entry nested.name).isNullish = false) :
    Effect.Triple (Advances data env root rootKey payload start)
      (HasParent data env root rootKey payload start i id)
      (currentChild env data relation existing
        (fieldOf entry (data.model relation.target).idName) idKey)
      fun childId store =>
        HasParent data env root rootKey payload start relation.target childId store := by
  obtain ⟨a, ha, hdescends⟩ := hkeeps.keyed i relation entry hentry htype hkey hnested
  rw [ha]
  have hchild (store : Store) (h : HasParent data env root rootKey payload start i id store) :
      IsParent data env root rootKey payload start relation.target a store := by
    obtain ⟨_, _, hparent⟩ := h
    exact ⟨hparent.within, hparent.rooted,
      hparent.within.extends_start.descends _ _ hdescends⟩
  refine triple_currentChild (Advances.refl start) (Advances.trans start) ?_ ?_
  · intro store record h hfind
    obtain ⟨hmem, hid⟩ := Table.find_eq_some_iff.mp hfind
    obtain ⟨hset, rfl⟩ := Prod.mk.inj hid
    have hshows := (hchild store h).within.shows record hmem relation.target hset
    exact ⟨record.key, hshows record rfl, hchild store h⟩
  · intro store childId h hfind
    obtain ⟨record, hrecord⟩ := (hchild store h).find
    rw [Store.findById, hrecord] at hfind
    cases hfind

end Parts

theorem updateRule {start : Store}
    (hkeeps : KeepsToSubtree data env keys root rootKey payload start) :
    UpdateRule env data keys root payload (Advances data env root rootKey payload start)
      (HasParent data env root rootKey payload start) where
  refl := Advances.refl start
  trans := Advances.trans start
  stable := by
    rintro i id store after hadvances ⟨key, hid, hparent⟩
    exact ⟨key, hid, hparent.stable store after hadvances⟩
  find i id relation hnames := triple_relationFind hnames
  create i id relation entry hnames hentry := triple_relationCreate hkeeps hnames hentry
  patch i id relation entry selects hnames hentry hkey :=
    triple_patchRelated hkeeps hnames hentry hkey
  keyed i id relation entry existing idKey _ hentry htype hkey hnested :=
    triple_keyed hkeeps hentry htype hkey hnested

/-! ### The whole request -/

theorem Within.start {start : Store}
    (hkeeps : KeepsToSubtree data env keys root rootKey payload start) :
    Within data env root rootKey payload start start := by
  refine ⟨fun record hmem _ _ => Table.find_of_mem hmem, Extends.refl start, ?_,
    hkeeps.storedKeys⟩
  intro record hmem hnone
  rw [Table.find_of_mem hmem] at hnone
  cases hnone

theorem triple_existingRoot {start : Store} {ifMatch : Option (EntityRecord → Bool)}
    (P : Store → Prop) :
    Effect.Triple (Advances data env root rootKey payload start) P
      (existingForUpdate data root (.atom rootKey) ifMatch) fun _ store =>
        P store ∧ (store.find ((data.model root).setName, rootKey)).isSome = true := by
  refine Effect.triple_mono
    (triple_existingForUpdate (Advances.refl start) (Advances.trans start) P) (fun _ h => h) ?_
  rintro existing store ⟨hP, hfind, -⟩
  rw [Store.findById] at hfind
  rw [hfind]
  exact ⟨hP, rfl⟩

theorem triple_updateRoot {start : Store}
    (hkeeps : KeepsToSubtree data env keys root rootKey payload start)
    {ifMatch : Option (EntityRecord → Bool)} {workingPayload : JsonObject} :
    Effect.Triple (Advances data env root rootKey payload start)
      (Within data env root rootKey payload start)
      (updateRoot data root (.atom rootKey) ifMatch workingPayload)
      fun _ => Within data env root rootKey payload start := by
  unfold updateRoot
  split
  · exact Effect.triple_pure (Advances.refl start) fun _ h => h
  refine Effect.triple_bind (Advances.trans start) (triple_existingRoot _) fun _ => ?_
  refine Effect.triple_modify ?_
  rintro store ⟨hwithin, -⟩
  have hroot (record : EntityRecord) (hset : record.setName = (data.model root).setName)
      (hselects : satisfies (.atom rootKey) (.atom record.key) = true) :
      record.id = ((data.model root).setName, rootKey) := by
    rw [satisfies, isAtom_iff, JsValue.atom.injEq] at hselects
    rw [EntityRecord.id, hset, hselects]
  have hadvances : Advances data env root rootKey payload start store
      (store.updateAll (data.model root)
        (fun record => satisfies (.atom rootKey) (.atom record.key)) workingPayload) := by
    apply advances_updateAll hkeeps
    · exact fun record _ hset hselects => .inl (hroot record hset hselects)
    · exact fun _ _ _ _ record _ _ hset hselects _ => .inl (hroot record hset hselects)
  exact ⟨hadvances, (hadvances hwithin).1⟩

theorem triple_update [DecidableEq ι] {start : Store}
    (hkeeps : KeepsToSubtree data env keys root rootKey payload start)
    {config : CompositionConfig ι} {maxDepth : Nat} {deepUpdateEnabled : Bool}
    {ifMatch : Option (EntityRecord → Bool)} {id : Atom}
    (hroot : coerceParentId env (data.model root) id = .ok (.atom rootKey)) :
    Effect.Triple (Advances data env root rootKey payload start)
      (Within data env root rootKey payload start)
      (update env data keys config root maxDepth deepUpdateEnabled ifMatch id payload)
      fun _ => Within data env root rootKey payload start := by
  unfold update
  dsimp only
  rw [hroot]
  refine Effect.triple_bind (Advances.trans start)
    (Q := fun parentId store => parentId = .atom rootKey ∧
      Within data env root rootKey payload start store)
    (Effect.triple_ofExcept (Advances.refl start) ?_) ?_
  · intro parentId store h hwithin
    exact ⟨(Except.ok.inj h).symm, hwithin⟩
  intro parentId
  by_cases hparentId : parentId = .atom rootKey
  swap
  · intro store h
    exact absurd h.1 hparentId
  subst hparentId
  refine Effect.triple_mono ?_ (fun _ h => h.2) fun _ _ h => h
  refine Effect.triple_bind (Advances.trans start)
    (Q := fun _ => Within data env root rootKey payload start) ?_ fun _ => ?_
  · unfold assertCompositionForeignKeysUnchanged
    dsimp only
    split
    · exact Effect.triple_pure (Advances.refl start) fun _ h => h
    · refine Effect.triple_bind (Advances.trans start) (triple_existingRoot _)
        fun existing => ?_
      refine Effect.triple_mono (Effect.triple_each (Advances.refl start) (Advances.trans start)
        fun _ _ => Effect.triple_ofExcept (Advances.refl start) fun _ _ _ h => h)
        (fun _ h => h.1) fun _ _ h => h
  refine Effect.triple_bind (Advances.trans start) (triple_updateRoot hkeeps) fun _ => ?_
  refine Effect.triple_bind (Advances.trans start) (triple_existingRoot _) fun _ => ?_
  refine Effect.triple_bind (Advances.trans start)
    (Q := fun _ => Within data env root rootKey payload start) ?_ fun _ => ?_
  · have hrecurse : Effect.Triple (Advances data env root rootKey payload start)
        (HasParent data env root rootKey payload start root (.atom rootKey))
        (applyDeepUpdateRelations env data keys config root maxDepth (maxDepth + 1) root
          (.atom rootKey) (normalizeUpdatePayload data root deepUpdateEnabled payload).children)
        fun _ _ => True := by
      cases deepUpdateEnabled with
      | true =>
        exact ((updateRule hkeeps).recurses maxDepth (maxDepth + 1)).nested root (.atom rootKey)
          payload .root
      | false => exact Effect.triple_pure (Advances.refl start) fun _ _ => trivial
    have hstable (store after : Store)
        (hadvances : Advances data env root rootKey payload start store after)
        (h : Within data env root rootKey payload start store) :
        Within data env root rootKey payload start after := (hadvances h).1
    exact Effect.triple_mono (Effect.triple_keep hstable hrecurse)
      (fun _ h => ⟨⟨rootKey, rfl, h.1, h.2, .root⟩, h.1⟩) fun _ _ h => h.2
  refine Effect.triple_bind (Advances.trans start) (triple_existingRoot _) fun _ => ?_
  exact Effect.triple_pure (Advances.refl start) fun _ h => h.1

end Within

def salesRecord (setName key : String) (keyTo parentKey : String) : EntityRecord :=
  ⟨setName.toList, .str key.toList, fun p =>
    if p = keyTo.toList then .atom (.str parentKey.toList) else .undefined⟩

/-- The first customer has no invoice, the second one has an invoice with a line. -/
def salesStore : Store where
  rows := [⟨"Customers".toList, .str "c1".toList, fun _ => .undefined⟩,
    ⟨"Customers".toList, .str "c2".toList, fun _ => .undefined⟩,
    salesRecord "Invoices" "n2" "customerId" "c2", salesRecord "Lines" "l2" "invoiceNumber" "n2"]
  nodup := by decide

def lineEntry : JsonObject :=
  [("id".toList, .atom (.str "l2".toList)), ("note".toList, .atom (.str "paid".toList))]

def invoiceEntry : JsonObject :=
  [("number".toList, .atom (.str "n2".toList)), ("lines".toList, .list [.object lineEntry])]

def invoicesPayload : JsonObject := [("invoices".toList, .list [.object invoiceEntry])]

def salesComposition : CompositionConfig SalesClass := ⟨[], fun _ _ => false⟩

theorem isEntry_invoicesPayload {i : SalesClass} {relation : RelationDefinition SalesClass}
    {entry : JsonObject} (h : IsEntry salesModel .customer invoicesPayload i relation entry) :
    (relation = customerInvoices ∧ entry = invoiceEntry) ∨
      (relation = invoiceLines ∧ entry = lineEntry) := by
  obtain ⟨hrelation, object, hobject, hentry⟩ := h
  have hobjects : (i = .customer ∧ object = invoicesPayload) ∨
      (i = .invoice ∧ object = invoiceEntry) ∨ i = .line := by
    clear hrelation hentry
    induction hobject with
    | root => exact .inl ⟨rfl, rfl⟩
    | child _ hrelation hentry ih =>
      rcases ih with ⟨rfl, rfl⟩ | ⟨rfl, rfl⟩ | rfl
      · obtain rfl := List.mem_singleton.mp hrelation
        exact .inr (.inl ⟨rfl, List.mem_singleton.mp hentry⟩)
      · obtain rfl := List.mem_singleton.mp hrelation
        exact .inr (.inr rfl)
      · exact absurd hrelation List.not_mem_nil
  rcases hobjects with ⟨rfl, rfl⟩ | ⟨rfl, rfl⟩ | rfl
  · obtain rfl := List.mem_singleton.mp hrelation
    exact .inl ⟨rfl, List.mem_singleton.mp hentry⟩
  · obtain rfl := List.mem_singleton.mp hrelation
    exact .inr ⟨rfl, List.mem_singleton.mp hentry⟩
  · exact absurd hrelation List.not_mem_nil

theorem showsKey_salesModel (i : SalesClass) (key : Atom) :
    ShowsKey salesModel Environment.ascii i key := by
  intro record hkey
  have hid : isAnnotationName (salesModel.model i).idName = false := by cases i <;> decide
  have hdefinition : (salesModel.model i).definition (salesModel.model i).idName =
      some stringKey := by cases i <;> rfl
  rw [plainKey, toPlainEntity, normalizeScalarProperties_apply hid, hdefinition, toObject, if_pos rfl, hkey]
  rfl

theorem eq_of_target {j : SalesClass} {relation other : RelationDefinition SalesClass}
    {i : SalesClass} (hrelation : relation ∈ salesModel.relations i)
    (hother : other ∈ salesModel.relations j) (htarget : other.target = relation.target) :
    other = relation := by
  cases i with
  | customer =>
    obtain rfl := List.mem_singleton.mp hrelation
    cases j with
    | customer => exact List.mem_singleton.mp hother
    | invoice =>
      obtain rfl := List.mem_singleton.mp hother
      cases htarget
    | line => exact absurd hother List.not_mem_nil
  | invoice =>
    obtain rfl := List.mem_singleton.mp hrelation
    cases j with
    | customer =>
      obtain rfl := List.mem_singleton.mp hother
      cases htarget
    | invoice => exact List.mem_singleton.mp hother
    | line => exact absurd hother List.not_mem_nil
  | line => exact absurd hrelation List.not_mem_nil

theorem invoice_of_mem {record : EntityRecord} (h : record ∈ salesStore.rows)
    (hset : record.setName = "Invoices".toList) :
    record = salesRecord "Invoices" "n2" "customerId" "c2" := by
  simp only [salesStore, List.mem_cons, List.not_mem_nil, or_false] at h
  rcases h with rfl | rfl | rfl | rfl
  · exact absurd hset (by decide)
  · exact absurd hset (by decide)
  · rfl
  · exact absurd hset (by decide)

theorem line_of_mem {record : EntityRecord} (h : record ∈ salesStore.rows)
    (hset : record.setName = "Lines".toList) :
    record = salesRecord "Lines" "l2" "invoiceNumber" "n2" := by
  simp only [salesStore, List.mem_cons, List.not_mem_nil, or_false] at h
  rcases h with rfl | rfl | rfl | rfl
  · exact absurd hset (by decide)
  · exact absurd hset (by decide)
  · exact absurd hset (by decide)
  · rfl

theorem keepsToSubtree_invoicesPayload :
    KeepsToSubtree salesModel Environment.ascii numberGenerator .customer (.str "c2".toList)
      invoicesPayload salesStore := by
  refine ⟨?_, ?_, ?_, ?_, fun i before => showsKey_salesModel i _, ?_⟩
  · intro i relation entry hentry _ _ hnested
    rcases isEntry_invoicesPayload hentry with ⟨rfl, rfl⟩ | ⟨rfl, rfl⟩
    · have hinvoice : salesRecord "Invoices" "n2" "customerId" "c2" ∈ salesStore.rows := by
        simp [salesStore]
      have hnames : Names salesModel .customer invoicesPayload .customer customerInvoices :=
        ⟨List.mem_cons_self, invoicesPayload, .root, rfl⟩
      exact ⟨.str "n2".toList, rfl, .child .root hnames hinvoice rfl rfl⟩
    · obtain ⟨nested, hmem, -⟩ := hnested
      exact absurd hmem List.not_mem_nil
  · intro i relation hnames record hrecord hset a hlink
    cases i with
    | customer =>
      obtain rfl := List.mem_singleton.mp hnames.1
      obtain rfl := invoice_of_mem hrecord hset
      obtain rfl := JsValue.atom.inj hlink
      rfl
    | invoice =>
      obtain rfl := List.mem_singleton.mp hnames.1
      obtain rfl := line_of_mem hrecord hset
      obtain rfl := JsValue.atom.inj hlink
      rfl
    | line => exact absurd hnames.1 List.not_mem_nil
  · intro i relation entry hentry _ j other hother htarget hne
    exact absurd (congrArg _ (eq_of_target hentry.1 hother.1 htarget)) hne
  · exact fun record _ i _ => showsKey_salesModel i _
  · exact fun i relation entry _ a _ => showsKey_salesModel _ a

/-- The first customer has no descendants. -/
theorem descends_first {i : SalesClass} {key : Atom}
    (h : Descends salesModel .customer (.str "c1".toList) invoicesPayload salesStore i key) :
    i = .customer ∧ key = .str "c1".toList := by
  induction h with
  | root => exact ⟨rfl, rfl⟩
  | child _ hnames hrecord hset hlink ih =>
    obtain ⟨rfl, rfl⟩ := ih
    obtain rfl := List.mem_singleton.mp hnames.1
    obtain rfl := invoice_of_mem hrecord hset
    have hne : ("c2".toList : Text) = "c1".toList := Atom.str.inj (JsValue.atom.inj hlink)
    revert hne
    decide

end LoopbackOData
