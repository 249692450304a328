import LoopbackOData.Library.Memo
import LoopbackOData.Library.Runs
import LoopbackOData.Metadata.Registry
import LoopbackOData.Paging.TokenSigning

/-!
# The generator of service metadata

A document is stored for each format under the version of the registry and a digest of the
configuration. What the generator declares besides the annotations about changesets is a parameter:
a function of the values that it reads.
-/

namespace LoopbackOData

namespace Metadata

set_option autoImplicit false

inductive Format where
  | xml
  | json
  deriving DecidableEq

/-! ## Configuration -/

/-- The configuration that the generator reads. -/
structure ODataConfig where
  namespaceName : Option Text
  namespaceAlias : Option Text
  entityContainerName : Option Text
  capabilities : Option Json.Value
  enableDeepInsert : Option Bool
  searchMode : Option Text
  searchFields : Option Json.Value

def normalizeNamespace (ns : Option Text) : Text :=
  let trimmed := trimText (ns.getD [])
  if trimmed = [] then "Default".toList else trimmed

def normalizeContainerName (name : Option Text) : Text :=
  let trimmed := trimText (name.getD [])
  if trimmed = [] then "DefaultContainer".toList else trimmed

/-- What a document depends on. -/
structure Settings where
  namespaceName : Text
  namespaceAlias : Option Text
  containerName : Text
  capabilities : Option Json.Value
  enableDeepInsert : Option Bool
  searchMode : Option Text
  searchFields : Option Json.Value

def settingsOf (cfg : ODataConfig) : Settings where
  namespaceName := normalizeNamespace cfg.namespaceName
  namespaceAlias := cfg.namespaceAlias.map trimText
  containerName := normalizeContainerName cfg.entityContainerName
  capabilities := cfg.capabilities
  enableDeepInsert := cfg.enableDeepInsert
  searchMode := cfg.searchMode
  searchFields := cfg.searchFields

/-- Properties without a value are left out by `JSON.stringify`. -/
def buildConfigSignature (settings : Settings) : Text :=
  stableStringify (.obj
    ([("namespace".toList, Json.Value.str settings.namespaceName)] ++
      (settings.namespaceAlias.map fun s => ("namespaceAlias".toList, Json.Value.str s)).toList ++
      [("containerName".toList, Json.Value.str settings.containerName)] ++
      (settings.capabilities.map fun value => ("capabilities".toList, value)).toList ++
      (settings.enableDeepInsert.map fun b =>
        ("enableDeepInsert".toList, Json.Value.bool b)).toList ++
      (settings.searchMode.map fun s => ("searchMode".toList, Json.Value.str s)).toList ++
      (settings.searchFields.map fun value => ("searchFields".toList, value)).toList))

/-! ## Documents -/

/-- The properties of a definition that the document is built of, besides the annotations. -/
def describedProperties : List DefProperty :=
  [.exposeEntitySet, .singleton, .etagProperties, .hasStream, .mediaContentTypeField,
    .mediaEtagField, .capabilities, .deepInsert, .actions, .functions]

structure DescribedSet (ν : Type) where
  name : Text
  modelCtor : Nat
  values : List (DefValue ν)

def EntitySetDef.described {ν : Type} (set : EntitySetDef ν) : DescribedSet ν :=
  ⟨set.name, set.modelCtor, describedProperties.map set.get⟩

/-- The rest of the generator: the classes that have a model definition, and what is declared of a
list of definitions, or the error that this throws. -/
structure CsdlBuilder (ν ε δ : Type) where
  hasDefinition : Nat → Bool
  declare : Format → Settings → List (DescribedSet ν) → Except ε δ

/-- A document: its declarations, the annotation of each entity set and that of the container. -/
structure Document (δ : Type) where
  declarations : δ
  changeSetsSupported : List (Text × Bool)
  containerChangeSetsSupported : Bool

variable {ν ε δ : Type} (builder : CsdlBuilder ν ε δ)

def changeSetsAnnotations (sets : List (EntitySetDef ν)) : List (Text × Bool) :=
  (sets.filter fun set =>
    builder.hasDefinition set.modelCtor ∧ ¬ (set.get .exposeEntitySet).isBool false).map
      fun set => (set.name, set.supports)

def containerChangeSets (sets : List (EntitySetDef ν)) : Bool :=
  !sets.isEmpty && sets.all EntitySetDef.supports

/-- What `generate` builds where nothing is stored. -/
def buildDocument (registry : EntitySetRegistry ν) (cfg : ODataConfig) (format : Format) :
    Except ε (Document δ) :=
  (builder.declare format (settingsOf cfg) (registry.list.map EntitySetDef.described)).map
    fun declarations =>
      ⟨declarations, changeSetsAnnotations builder registry.list, containerChangeSets registry.list⟩

/-! ## The generator -/

structure CachedDocument (δ : Type) where
  version : Nat
  config : Text
  body : Document δ

structure CsdlGenerator (ν δ : Type) where
  registry : EntitySetRegistry ν
  cfg : ODataConfig
  cache : Format → Option (CachedDocument δ)

namespace CsdlGenerator

def configSignature (generator : CsdlGenerator ν δ) : Text :=
  buildConfigSignature (settingsOf generator.cfg)

def rebuild (generator : CsdlGenerator ν δ) (format : Format) :
    Except ε (Document δ) × CsdlGenerator ν δ :=
  match buildDocument builder generator.registry generator.cfg format with
  | .error e => (.error e, generator)
  | .ok body => (.ok body, { generator with
      cache := Function.update generator.cache format
        (some ⟨generator.registry.version, generator.configSignature, body⟩) })

def generate (generator : CsdlGenerator ν δ) (format : Format) :
    Except ε (Document δ) × CsdlGenerator ν δ :=
  match generator.cache format with
  | none => generator.rebuild builder format
  | some cached =>
    if cached.version = generator.registry.version ∧ cached.config = generator.configSignature then
      (.ok cached.body, generator)
    else generator.rebuild builder format

end CsdlGenerator

/-! ## Runs -/

/-- A changeset finds the data sources as they are at its time. -/
inductive MetadataEvent (ν : Type) where
  | register (definition : EntitySetDef ν)
  | attachRepository (modelCtor : Nat) (bindingKey : Text) (repositoryCtor : DefValue ν)
  | configure (cfg : ODataConfig)
  | changeset (connections : Connections) (setNames : List Text)
  | request (format : Format)

/-- What is outside the registry and the generator. -/
structure MetadataService (ν ε δ : Type) extends CsdlBuilder ν ε δ where
  rt : Runtime
  validPagination : DefValue ν → Bool

/-- The registry after an event; what throws leaves it as it is. -/
def nextRegistry (service : MetadataService ν ε δ) (registry : EntitySetRegistry ν) :
    MetadataEvent ν → EntitySetRegistry ν
  | .register definition => (registry.register service.validPagination definition).getD registry
  | .attachRepository modelCtor bindingKey repositoryCtor =>
    (registry.attachRepository modelCtor bindingKey repositoryCtor).getD registry
  | .changeset connections setNames =>
    (createAtomicGroupContext service.rt connections setNames registry).2
  | .configure _ => registry
  | .request _ => registry

def CsdlGenerator.step (service : MetadataService ν ε δ) (generator : CsdlGenerator ν δ) :
    MetadataEvent ν → CsdlGenerator ν δ
  | .configure cfg => { generator with cfg := cfg }
  | .request format => (generator.generate service.toCsdlBuilder format).2
  | event => { generator with registry := nextRegistry service generator.registry event }

end Metadata

end LoopbackOData
