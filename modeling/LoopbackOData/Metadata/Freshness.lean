import LoopbackOData.Metadata.Generator

/-!
# Cached metadata

A stored document is the one that would be built, in every run in which no changeset establishes or
withdraws the transaction support of an entity set while a document of the present version is
stored, and in which configurations that differ have different digests.
-/

namespace LoopbackOData

namespace Metadata

open Effect

set_option autoImplicit false

variable {ν ε δ : Type}

/-! ## What a changeset leaves as it is -/

section Changesets

/-- The same definitions apart from the transaction support that is known of them. -/
structure SameDescriptions (before after : EntitySetRegistry ν) : Prop where
  version : after.version = before.version
  described : after.list.map EntitySetDef.described = before.list.map EntitySetDef.described

theorem SameDescriptions.refl (registry : EntitySetRegistry ν) :
    SameDescriptions registry registry := ⟨rfl, rfl⟩

theorem SameDescriptions.trans {r r' r'' : EntitySetRegistry ν} (h : SameDescriptions r r')
    (h' : SameDescriptions r' r'') : SameDescriptions r r'' :=
  ⟨h'.version.trans h.version, h'.described.trans h.described⟩

theorem get_set (set : EntitySetDef ν) (property property' : DefProperty) (value : DefValue ν) :
    (set.set property value).get property' =
      if property = property' then value else set.get property' := by
  rw [EntitySetDef.get, EntitySetDef.set, Dictionary.get_set, EntitySetDef.get]
  split <;> rfl

theorem described_set {property : DefProperty} (h : property ∉ describedProperties)
    (set : EntitySetDef ν) (value : DefValue ν) :
    (set.set property value).described = set.described := by
  have hvalues : describedProperties.map (set.set property value).get =
      describedProperties.map set.get := by
    apply List.map_congr_left
    intro property' hproperty
    have hne : property ≠ property' := fun heq => h (heq ▸ hproperty)
    rw [get_set, if_neg hne]
  rw [EntitySetDef.described, EntitySetDef.described, hvalues]
  rfl

theorem get_of_findByName {rt : Runtime} {registry : EntitySetRegistry ν} {name : Text}
    {set : EntitySetDef ν} (h : registry.findByName rt name = some set) :
    Dictionary.get registry.sets set.modelCtor = some set := by
  have hmem := List.mem_of_find?_eq_some h
  rw [EntitySetRegistry.list, List.mem_map] at hmem
  obtain ⟨entry, hentry, rfl⟩ := hmem
  rw [← registry.keyed entry hentry]
  exact registry.distinct.mem_iff.mp hentry

theorem list_put {α : Type} {f : EntitySetDef ν → α} {registry : EntitySetRegistry ν}
    {set set' : EntitySetDef ν} {version : Nat}
    (hget : Dictionary.get registry.sets set.modelCtor = some set')
    (hf : f set = f set') :
    (registry.put set version).list.map f = registry.list.map f := by
  rw [EntitySetRegistry.list, EntitySetRegistry.list, List.map_map, List.map_map]
  exact Dictionary.map_set_of_get hget hf

theorem sameDescriptions_change {registry : EntitySetRegistry ν} {set set' : EntitySetDef ν}
    (hget : Dictionary.get registry.sets set.modelCtor = some set')
    (hdescribed : set.described = set'.described) :
    SameDescriptions registry (registry.change set) :=
  ⟨rfl, list_put hget hdescribed⟩

/-- A program that leaves the descriptions as they are. -/
def KeepsDescriptions {α : Type} (m : GroupM ν α) : Prop :=
  Triple SameDescriptions (fun _ => True) m fun _ _ => True

theorem keepsDescriptions_pure {α : Type} (a : α) : KeepsDescriptions (pure a : GroupM ν α) :=
  triple_pure SameDescriptions.refl fun _ _ => trivial

theorem keepsDescriptions_fail {α : Type} (e : GroupError) :
    KeepsDescriptions (Effect.fail e : GroupM ν α) :=
  triple_fail SameDescriptions.refl

theorem keepsDescriptions_bind {α β : Type} {m : GroupM ν α} {f : α → GroupM ν β}
    (hm : KeepsDescriptions m) (hf : ∀ a, KeepsDescriptions (f a)) :
    KeepsDescriptions (m >>= f) :=
  triple_bind (R := SameDescriptions) (fun _ _ _ h h' => h.trans h') hm fun a => hf a

theorem keepsDescriptions_each {α : Type} {f : α → GroupM ν PUnit} (xs : List α)
    (hf : ∀ x, KeepsDescriptions (f x)) : KeepsDescriptions (each f xs) :=
  triple_each SameDescriptions.refl (fun _ _ _ h h' => h.trans h') fun x _ => hf x

variable {rt : Runtime} {connections : Connections}

theorem keepsDescriptions_setCapability (setName : Text) (supported : Bool) :
    KeepsDescriptions (setCapability rt setName supported : GroupM ν PUnit) := by
  apply triple_modify
  intro registry _
  refine ⟨?_, trivial⟩
  split
  · exact SameDescriptions.refl registry
  · next set hset =>
    have hget := get_of_findByName hset
    have hdescribed : ((set.set .supportsTransactions (.bool supported)).set
        .transactionCapabilityLocked (.bool true)).described = set.described := by
      rw [described_set (by decide), described_set (by decide)]
    exact sameDescriptions_change hget hdescribed

theorem keepsDescriptions_findSet (setName : Text) :
    KeepsDescriptions (findSet rt setName : GroupM ν (EntitySetDef ν)) := by
  apply keepsDescriptions_bind
  · exact triple_get SameDescriptions.refl fun _ _ => trivial
  · intro registry
    split
    · exact keepsDescriptions_fail _
    · exact keepsDescriptions_pure _

theorem keepsDescriptions_mapDataSources (setNames : List Text) :
    KeepsDescriptions
      (mapDataSources rt connections setNames : GroupM ν (List (Text × Nat) × List Text)) := by
  induction setNames with
  | nil => exact keepsDescriptions_pure _
  | cons setName setNames ih =>
    apply keepsDescriptions_bind (keepsDescriptions_findSet setName)
    intro set
    split
    · exact keepsDescriptions_bind ih fun _ => keepsDescriptions_pure _
    · split
      · split
        · exact keepsDescriptions_fail _
        · exact keepsDescriptions_bind (keepsDescriptions_setCapability setName false) fun _ =>
            keepsDescriptions_bind ih fun _ => keepsDescriptions_pure _
        · exact keepsDescriptions_bind ih fun _ => keepsDescriptions_pure _
      · exact keepsDescriptions_fail _

theorem keepsDescriptions_tryRefresh (setName : Text) (dataSource : Nat) :
    KeepsDescriptions
      (tryRefreshTransactionalSupport rt connections setName dataSource : GroupM ν Bool) := by
  unfold tryRefreshTransactionalSupport
  split
  · exact keepsDescriptions_bind (keepsDescriptions_setCapability setName true) fun _ =>
      keepsDescriptions_pure _
  · exact keepsDescriptions_bind (keepsDescriptions_setCapability setName false) fun _ =>
      keepsDescriptions_pure _
  · exact keepsDescriptions_fail _

theorem keepsDescriptions_ensureTransactionalSupport (setName : Text) (dataSource : Nat) :
    KeepsDescriptions
      (ensureTransactionalSupport rt connections setName dataSource : GroupM ν Bool) := by
  apply keepsDescriptions_bind (keepsDescriptions_findSet setName)
  intro set
  split
  · exact keepsDescriptions_pure _
  · apply keepsDescriptions_bind
    · split
      · exact keepsDescriptions_tryRefresh setName dataSource
      · exact keepsDescriptions_pure _
    · intro refreshed
      split
      · exact keepsDescriptions_pure _
      · apply keepsDescriptions_bind (keepsDescriptions_findSet setName)
        intro set
        split
        · exact keepsDescriptions_bind (keepsDescriptions_setCapability setName false) fun _ =>
            keepsDescriptions_pure _
        · exact keepsDescriptions_pure _

theorem keepsDescriptions_validateCapabilities (dataSources : List (Text × Nat)) :
    KeepsDescriptions (validateCapabilities rt connections dataSources : GroupM ν (List Text)) := by
  induction dataSources with
  | nil => exact keepsDescriptions_pure _
  | cons entry rest ih =>
    apply keepsDescriptions_bind (keepsDescriptions_ensureTransactionalSupport entry.1 entry.2)
    intro transactional
    split
    · exact keepsDescriptions_bind ih fun _ => keepsDescriptions_pure _
    · split
      · exact ih
      · exact keepsDescriptions_bind (keepsDescriptions_setCapability entry.1 false) fun _ =>
          keepsDescriptions_bind ih fun _ => keepsDescriptions_pure _

theorem keepsDescriptions_createAtomicGroupContext (setNames : List Text) :
    KeepsDescriptions (createAtomicGroupContext rt connections setNames : GroupM ν PUnit) := by
  apply keepsDescriptions_bind (keepsDescriptions_mapDataSources setNames)
  rintro ⟨dataSources, nonTransactional⟩
  dsimp only
  split
  · exact keepsDescriptions_fail _
  · split
    · exact keepsDescriptions_fail _
    · apply keepsDescriptions_bind (keepsDescriptions_validateCapabilities dataSources)
      intro nonTransactional
      split
      · exact keepsDescriptions_fail _
      · split
        · exact keepsDescriptions_pure _
        · split
          · exact keepsDescriptions_each setNames fun setName =>
              keepsDescriptions_setCapability setName true
          · exact keepsDescriptions_bind (keepsDescriptions_each setNames fun setName =>
              keepsDescriptions_setCapability setName false) fun _ => keepsDescriptions_fail _
          · exact keepsDescriptions_fail _

theorem sameDescriptions_createAtomicGroupContext (setNames : List Text)
    (registry : EntitySetRegistry ν) :
    SameDescriptions registry (createAtomicGroupContext rt connections setNames registry).2 :=
  (keepsDescriptions_createAtomicGroupContext setNames registry trivial).1

end Changesets

/-! ## What a document depends on -/

section Documents

variable {builder : CsdlBuilder ν ε δ}

theorem changeSetsAnnotations_congr {sets sets' : List (EntitySetDef ν)}
    (hdescribed : sets'.map EntitySetDef.described = sets.map EntitySetDef.described)
    (hsupports : sets'.map EntitySetDef.supports = sets.map EntitySetDef.supports) :
    changeSetsAnnotations builder sets' = changeSetsAnnotations builder sets := by
  induction sets generalizing sets' with
  | nil =>
    rw [List.map_nil, List.map_eq_nil_iff] at hdescribed
    rw [hdescribed]
  | cons set sets ih =>
    cases sets' with
    | nil => cases hdescribed
    | cons set' sets' =>
      rw [List.map_cons, List.map_cons, List.cons.injEq] at hdescribed hsupports
      have hrest := ih hdescribed.2 hsupports.2
      have hname : set'.name = set.name := congrArg DescribedSet.name hdescribed.1
      have hmodel : set'.modelCtor = set.modelCtor := congrArg DescribedSet.modelCtor hdescribed.1
      have hvalues := congrArg DescribedSet.values hdescribed.1
      have hexpose : set'.get .exposeEntitySet = set.get .exposeEntitySet :=
        List.head_eq_of_cons_eq hvalues
      rw [changeSetsAnnotations, changeSetsAnnotations] at hrest ⊢
      rw [List.filter_cons, List.filter_cons, hmodel, hexpose]
      split
      · rw [List.map_cons, List.map_cons, hrest, hname, hsupports.1]
      · exact hrest

theorem containerChangeSets_congr {sets sets' : List (EntitySetDef ν)}
    (hsupports : sets'.map EntitySetDef.supports = sets.map EntitySetDef.supports) :
    containerChangeSets sets' = containerChangeSets sets := by
  have hcontainer (sets : List (EntitySetDef ν)) : containerChangeSets sets =
      (!(sets.map EntitySetDef.supports).isEmpty && (sets.map EntitySetDef.supports).all id) := by
    rw [containerChangeSets, List.isEmpty_map, List.all_map]
    rfl
  rw [hcontainer, hcontainer, hsupports]

/-- What is known of the transactions of the entity sets. -/
def KeepsSupport (before after : EntitySetRegistry ν) : Prop :=
  after.list.map EntitySetDef.supports = before.list.map EntitySetDef.supports

theorem buildDocument_congr {registry registry' : EntitySetRegistry ν} {cfg cfg' : ODataConfig}
    (hsame : SameDescriptions registry registry') (hsupport : KeepsSupport registry registry')
    (hsettings : settingsOf cfg = settingsOf cfg') (format : Format) :
    buildDocument builder registry' cfg' format = buildDocument builder registry cfg format := by
  rw [buildDocument, buildDocument, hsame.described, hsettings,
    changeSetsAnnotations_congr hsame.described hsupport, containerChangeSets_congr hsupport]

end Documents

/-! ## Stored documents -/

section Stored

variable {builder : CsdlBuilder ν ε δ} {generator : CsdlGenerator ν δ}

/-- A generator that has not served a document yet. -/
def CsdlGenerator.start (registry : EntitySetRegistry ν) (cfg : ODataConfig) :
    CsdlGenerator ν δ where
  registry := registry
  cfg := cfg
  cache := fun _ => none

def CsdlGenerator.key (generator : CsdlGenerator ν δ) : Nat × Text :=
  (generator.registry.version, generator.configSignature)

/-- A stored document with the key that it is stored under. -/
def CsdlGenerator.stored (ε : Type) (generator : CsdlGenerator ν δ) (format : Format) :
    Option ((Nat × Text) × Except ε (Document δ)) :=
  (generator.cache format).map fun cached => ((cached.version, cached.config), .ok cached.body)

def CsdlGenerator.fresh (builder : CsdlBuilder ν ε δ) (format : Format)
    (generator : CsdlGenerator ν δ) : Except ε (Document δ) :=
  buildDocument builder generator.registry generator.cfg format

theorem rebuild_fst (format : Format) :
    (generator.rebuild builder format).1 = generator.fresh builder format := by
  rw [CsdlGenerator.rebuild, CsdlGenerator.fresh]
  cases buildDocument builder generator.registry generator.cfg format <;> rfl

theorem generate_fst (format : Format) :
    (generator.generate builder format).1 =
      Memo.lookup CsdlGenerator.key (CsdlGenerator.fresh builder format)
        (generator.stored ε format) generator := by
  unfold CsdlGenerator.generate CsdlGenerator.stored
  cases generator.cache format with
  | none => exact rebuild_fst format
  | some cached =>
    dsimp only [Option.map_some, Memo.lookup]
    simp only [CsdlGenerator.key, Prod.mk.injEq]
    split
    · rfl
    · exact rebuild_fst format

theorem start_generate (registry : EntitySetRegistry ν) (cfg : ODataConfig) (format : Format) :
    ((CsdlGenerator.start registry cfg).generate builder format).1 =
      buildDocument builder registry cfg format := by
  rw [generate_fst]
  rfl

/-- Each document is the one that a new generator would produce, and both formats agree on the
annotations about changesets. -/
structure ServesFresh (builder : CsdlBuilder ν ε δ) (generator : CsdlGenerator ν δ) : Prop where
  fresh : ∀ format, (generator.generate builder format).1 =
    ((CsdlGenerator.start generator.registry generator.cfg).generate builder format).1
  agree : ∀ xml json, (generator.generate builder .xml).1 = .ok xml →
    (generator.generate builder .json).1 = .ok json →
      xml.changeSetsSupported = json.changeSetsSupported ∧
        xml.containerChangeSetsSupported = json.containerChangeSetsSupported

theorem annotations_of_buildDocument {registry : EntitySetRegistry ν} {cfg : ODataConfig}
    {format : Format} {document : Document δ}
    (h : buildDocument builder registry cfg format = .ok document) :
    document.changeSetsSupported = changeSetsAnnotations builder registry.list ∧
      document.containerChangeSetsSupported = containerChangeSets registry.list := by
  rw [buildDocument] at h
  cases hdeclare : builder.declare format (settingsOf cfg)
      (registry.list.map EntitySetDef.described) with
  | error e =>
    rw [hdeclare] at h
    cases h
  | ok declarations =>
    rw [hdeclare] at h
    cases h
    exact ⟨rfl, rfl⟩

theorem servesFresh_iff :
    ServesFresh builder generator ↔ ∀ format, Memo.Valid CsdlGenerator.key
      (CsdlGenerator.fresh builder format) (generator.stored ε format) generator := by
  have hfresh (format : Format) :
      (generator.generate builder format).1 =
          ((CsdlGenerator.start generator.registry generator.cfg).generate builder format).1 ↔
        Memo.Valid CsdlGenerator.key (CsdlGenerator.fresh builder format)
          (generator.stored ε format) generator := by
    rw [generate_fst, start_generate]
    exact Memo.lookup_eq_iff
  refine ⟨fun h format => (hfresh format).mp (h.fresh format), fun h => ?_⟩
  refine ⟨fun format => (hfresh format).mpr (h format), ?_⟩
  intro xml json hxml hjson
  rw [(hfresh .xml).mpr (h .xml), start_generate] at hxml
  rw [(hfresh .json).mpr (h .json), start_generate] at hjson
  have hxml := annotations_of_buildDocument hxml
  have hjson := annotations_of_buildDocument hjson
  rw [hxml.1, hxml.2, hjson.1, hjson.2]
  exact ⟨rfl, rfl⟩

end Stored

/-! ## Runs -/

section Runs

variable {service : MetadataService ν ε δ} {configs : ODataConfig → Prop}
  {generator : CsdlGenerator ν δ}

/-- Some document of the present version is stored. -/
def CsdlGenerator.HoldsDocument (generator : CsdlGenerator ν δ) : Prop :=
  ∃ format cached, generator.cache format = some cached ∧
    cached.version = generator.registry.version

/-- While a document of the present version is stored, no changeset establishes or withdraws the
transaction support of an entity set. -/
def Harmless (service : MetadataService ν ε δ) (configs : ODataConfig → Prop)
    (generator : CsdlGenerator ν δ) : MetadataEvent ν → Prop
  | .changeset connections setNames => generator.HoldsDocument →
      KeepsSupport generator.registry
        (createAtomicGroupContext service.rt connections setNames generator.registry).2
  | .configure cfg => configs cfg
  | .register _ => True
  | .attachRepository _ _ _ => True
  | .request _ => True

/-- What is stored for the present version was built of the definitions as they are, under one of
the configurations. -/
structure StoredRight (builder : CsdlBuilder ν ε δ) (configs : ODataConfig → Prop)
    (generator : CsdlGenerator ν δ) : Prop where
  cfg : configs generator.cfg
  version : ∀ format cached, generator.cache format = some cached →
    cached.version ≤ generator.registry.version
  built : ∀ format cached, generator.cache format = some cached →
    cached.version = generator.registry.version → ∃ cfg, configs cfg ∧
      cached.config = buildConfigSignature (settingsOf cfg) ∧
        buildDocument builder generator.registry cfg format = .ok cached.body

theorem StoredRight.servesFresh {builder : CsdlBuilder ν ε δ}
    (hconfigs : ∀ cfg cfg', configs cfg → configs cfg' →
      buildConfigSignature (settingsOf cfg) = buildConfigSignature (settingsOf cfg') →
        settingsOf cfg = settingsOf cfg')
    (h : StoredRight builder configs generator) : ServesFresh builder generator := by
  rw [servesFresh_iff]
  intro format entry hentry hkey
  rw [CsdlGenerator.stored, Option.map_eq_some_iff] at hentry
  obtain ⟨cached, hcached, rfl⟩ := hentry
  obtain ⟨hversion, hsignature⟩ := Prod.mk.inj hkey
  obtain ⟨cfg, hcfg, hconfig, hbuilt⟩ := h.built format cached hcached hversion
  have hsettings := hconfigs cfg generator.cfg hcfg h.cfg (hconfig.symm.trans hsignature)
  rw [← hbuilt, CsdlGenerator.fresh, buildDocument, buildDocument, hsettings]

/-- A new version makes what is stored out of date. -/
theorem StoredRight.newVersion {builder : CsdlBuilder ν ε δ}
    (h : StoredRight builder configs generator) {registry : EntitySetRegistry ν}
    (hregistry : registry = generator.registry ∨
      registry.version = generator.registry.version + 1) :
    StoredRight builder configs { generator with registry := registry } := by
  rcases hregistry with rfl | hversion
  · exact h
  · refine ⟨h.cfg, ?_, ?_⟩
    · intro format cached hcached
      have hle := h.version format cached hcached
      dsimp only
      omega
    · intro format cached hcached hcurrent
      have hle := h.version format cached hcached
      dsimp only at hcurrent
      omega

theorem register_version (registry : EntitySetRegistry ν) (definition : EntitySetDef ν) :
    nextRegistry service registry (.register definition) = registry ∨
      (nextRegistry service registry (.register definition)).version = registry.version + 1 := by
  rw [nextRegistry, EntitySetRegistry.register]
  split
  · exact Or.inr rfl
  · exact Or.inl rfl

theorem attachRepository_version (registry : EntitySetRegistry ν) (modelCtor : Nat)
    (bindingKey : Text) (repositoryCtor : DefValue ν) :
    nextRegistry service registry (.attachRepository modelCtor bindingKey repositoryCtor) =
        registry ∨
      (nextRegistry service registry
        (.attachRepository modelCtor bindingKey repositoryCtor)).version =
          registry.version + 1 := by
  rw [nextRegistry, EntitySetRegistry.attachRepository]
  cases Dictionary.get registry.sets modelCtor with
  | none => exact Or.inl rfl
  | some definition => exact Or.inr rfl

theorem StoredRight.changeset {builder : CsdlBuilder ν ε δ}
    (h : StoredRight builder configs generator) {registry : EntitySetRegistry ν}
    (hsame : SameDescriptions generator.registry registry)
    (hsupport : generator.HoldsDocument → KeepsSupport generator.registry registry) :
    StoredRight builder configs { generator with registry := registry } := by
  refine ⟨h.cfg, ?_, ?_⟩
  · intro format cached hcached
    dsimp only
    rw [hsame.version]
    exact h.version format cached hcached
  · intro format cached hcached hcurrent
    dsimp only at hcurrent ⊢
    rw [hsame.version] at hcurrent
    obtain ⟨cfg, hcfg, hconfig, hbuilt⟩ := h.built format cached hcached hcurrent
    refine ⟨cfg, hcfg, hconfig, ?_⟩
    rw [buildDocument_congr hsame (hsupport ⟨format, cached, hcached, hcurrent⟩) rfl, hbuilt]

theorem StoredRight.rebuild {builder : CsdlBuilder ν ε δ}
    (h : StoredRight builder configs generator) (format : Format) :
    StoredRight builder configs (generator.rebuild builder format).2 := by
  rw [CsdlGenerator.rebuild]
  cases hbuilt : buildDocument builder generator.registry generator.cfg format with
  | error e => exact h
  | ok body =>
    have hcache {format' : Format} {cached : CachedDocument δ}
        (hcached : Function.update generator.cache format (some
          ⟨generator.registry.version, generator.configSignature, body⟩) format' = some cached) :
        format' = format ∧
            cached = ⟨generator.registry.version, generator.configSignature, body⟩ ∨
          generator.cache format' = some cached := by
      rw [Function.update_apply] at hcached
      split at hcached
      · next hformat => exact Or.inl ⟨hformat, (Option.some.inj hcached).symm⟩
      · exact Or.inr hcached
    refine ⟨h.cfg, ?_, ?_⟩
    · intro format' cached hcached
      rcases hcache hcached with ⟨-, rfl⟩ | hcached
      · exact le_rfl
      · exact h.version format' cached hcached
    · intro format' cached hcached hcurrent
      rcases hcache hcached with ⟨rfl, rfl⟩ | hcached
      · exact ⟨generator.cfg, h.cfg, rfl, hbuilt⟩
      · exact h.built format' cached hcached hcurrent

theorem StoredRight.generate {builder : CsdlBuilder ν ε δ}
    (h : StoredRight builder configs generator) (format : Format) :
    StoredRight builder configs (generator.generate builder format).2 := by
  unfold CsdlGenerator.generate
  split
  · exact h.rebuild format
  · split
    · exact h
    · exact h.rebuild format

theorem StoredRight.step (h : StoredRight service.toCsdlBuilder configs generator)
    {event : MetadataEvent ν} (hevent : Harmless service configs generator event) :
    StoredRight service.toCsdlBuilder configs (generator.step service event) := by
  cases event with
  | register definition => exact h.newVersion (register_version generator.registry definition)
  | attachRepository modelCtor bindingKey repositoryCtor =>
    exact h.newVersion
      (attachRepository_version generator.registry modelCtor bindingKey repositoryCtor)
  | configure cfg => exact ⟨hevent, h.version, h.built⟩
  | changeset connections setNames =>
    exact h.changeset (sameDescriptions_createAtomicGroupContext setNames generator.registry) hevent
  | request format => exact h.generate format

/-- In a run without such changesets, over configurations that their digests tell apart, no document
is ever out of date. -/
theorem reaches_servesFresh (service : MetadataService ν ε δ) (configs : ODataConfig → Prop)
    (hconfigs : ∀ cfg cfg', configs cfg → configs cfg' →
      buildConfigSignature (settingsOf cfg) = buildConfigSignature (settingsOf cfg') →
        settingsOf cfg = settingsOf cfg')
    (registry : EntitySetRegistry ν) (cfg : ODataConfig) (hcfg : configs cfg)
    (h : Machine.Reaches (fun generator event => some (CsdlGenerator.step service generator event))
      (Harmless service configs) (CsdlGenerator.start registry cfg) generator) :
    ServesFresh service.toCsdlBuilder generator := by
  have hstored : StoredRight service.toCsdlBuilder configs generator := by
    refine Machine.Reaches.invariant (I := StoredRight service.toCsdlBuilder configs) ?_ ?_ h
    · refine ⟨hcfg, ?_, ?_⟩
      · intro format cached hcached
        cases hcached
      · intro format cached hcached
        cases hcached
    · intro generator event generator' hright hguard hstep
      obtain rfl := Option.some.inj hstep
      exact hright.step hguard
  exact hstored.servesFresh hconfigs

/-- The other way round: a document that is stored for the present version and configuration is out
of date as soon as an annotation changes without the version. -/
theorem not_servesFresh_of_annotations {builder : CsdlBuilder ν ε δ} {format : Format}
    {body : Document δ} (h : ServesFresh builder generator)
    (hstored : generator.stored ε format = some (generator.key, .ok body))
    {registry : EntitySetRegistry ν} (hversion : registry.version = generator.registry.version)
    (hchange : changeSetsAnnotations builder registry.list ≠
        changeSetsAnnotations builder generator.registry.list ∨
      containerChangeSets registry.list ≠ containerChangeSets generator.registry.list) :
    ¬ ServesFresh builder { generator with registry := registry } := by
  intro hafter
  have hbefore := h.fresh format
  rw [generate_fst, hstored, Memo.lookup, if_pos rfl, start_generate] at hbefore
  have hkey : CsdlGenerator.key { generator with registry := registry } = generator.key := by
    rw [CsdlGenerator.key, CsdlGenerator.key, hversion]
    rfl
  have hstored' : CsdlGenerator.stored ε { generator with registry := registry } format =
      some (CsdlGenerator.key { generator with registry := registry }, .ok body) := by
    rw [hkey]
    exact hstored
  have hfresh := hafter.fresh format
  rw [generate_fst, hstored', Memo.lookup, if_pos rfl, start_generate] at hfresh
  have hold := annotations_of_buildDocument hbefore.symm
  have hnew := annotations_of_buildDocument hfresh.symm
  rcases hchange with hchange | hchange
  · exact hchange (hnew.1.symm.trans hold.1)
  · exact hchange (hnew.2.symm.trans hold.2)

end Runs

/-! ## An entity set whose support is not known -/

section Orders

/-- A service that declares nothing but the annotations. -/
def orderService : MetadataService Unit Unit Unit where
  hasDefinition _ := true
  declare _ _ _ := .ok ()
  rt := Runtime.ascii
  validPagination _ := true

def orderConfig : ODataConfig where
  namespaceName := none
  namespaceAlias := none
  entityContainerName := none
  capabilities := none
  enableDeepInsert := none
  searchMode := none
  searchFields := none

def ordersSet (supportsTransactions : DefValue Unit) : EntitySetDef Unit where
  name := "Orders".toList
  modelCtor := 0
  properties := [(.repositoryBindingKey, .text "repositories.OrderRepository".toList),
    (.supportsTransactions, supportsTransactions), (.transactionCapabilityLocked, .bool false)]

/-- One data source, which begins transactions. -/
def orderConnections : Connections where
  dataSource _ := some (some 0)
  supportsTransactions _ := true
  probe _ := .supported
  beginTransaction _ := .begun

/-- The generator after a request for the XML document and a changeset on the orders. -/
def afterChangeset (supportsTransactions : DefValue Unit) : CsdlGenerator Unit Unit :=
  (((CsdlGenerator.start EntitySetRegistry.empty orderConfig).step orderService
    (.register (ordersSet supportsTransactions))).step orderService (.request .xml)).step
      orderService (.changeset orderConnections ["Orders".toList])

/-- The changeset finds out that the orders have transactions; the stored document still denies
it. -/
theorem not_servesFresh_afterChangeset :
    ¬ ServesFresh orderService.toCsdlBuilder (afterChangeset .undefined) := by
  intro h
  have hstored : (afterChangeset .undefined).stored Unit .xml =
      some ((afterChangeset .undefined).key, .ok ⟨(), [("Orders".toList, false)], false⟩) := rfl
  have hfresh := h.fresh .xml
  rw [generate_fst, hstored, Memo.lookup, if_pos rfl, start_generate] at hfresh
  have hbuilt : buildDocument orderService.toCsdlBuilder (afterChangeset .undefined).registry
      (afterChangeset .undefined).cfg .xml = .ok ⟨(), [("Orders".toList, true)], true⟩ := rfl
  rw [hbuilt] at hfresh
  have hflags := congrArg (fun document => document.toOption.map
    Document.containerChangeSetsSupported) hfresh
  revert hflags
  decide

theorem reaches_servesFresh_orders :
    ServesFresh orderService.toCsdlBuilder (afterChangeset (.bool true)) := by
  refine reaches_servesFresh orderService (fun cfg => cfg = orderConfig) ?_
    EntitySetRegistry.empty orderConfig rfl ?_
  · rintro cfg cfg' rfl rfl _
    rfl
  · refine .next (.changeset orderConnections ["Orders".toList]) ?_ ?_ rfl
    · exact .next (.request .xml) (.next (.register (ordersSet (.bool true))) .start trivial rfl)
        trivial rfl
    · intro _
      rfl

end Orders

end Metadata

end LoopbackOData
