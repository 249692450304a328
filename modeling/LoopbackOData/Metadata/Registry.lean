import LoopbackOData.Filter.Literals
import LoopbackOData.Library.Dictionary
import LoopbackOData.Library.Effect

/-!
# The registry of entity sets

Definitions of entity sets are objects that the registry hands out and that other modules change in
place. Registration and the attachment of a repository count the registry's version up; what a
changeset learns about the transactions of a data source does not.
-/

namespace LoopbackOData

namespace Metadata

set_option autoImplicit false

/-! ## Definitions of entity sets -/

/-- The properties of an `EntitySetDef`, apart from its name and its model class. -/
inductive DefProperty where
  | exposeEntitySet | controllerCtor | repositoryBindingKey | repositoryCtor
  | supportsTransactions | transactionCapabilityLocked
  | actions | functions | singleton | etagProperties
  | securityMetadata | securityMethodAliases | hooks | sourceControllerBindingKey
  | hasStream | mediaField | mediaContentTypeField | mediaEtagField | mediaLengthField
  | mediaHandlerBindingKey | mediaMaxPayloadBytes
  | capabilities | composition | compositionResolved | deepInsert | deepUpdate
  | applyPushdown | applyExecutorId | sqlMetadata | applySupportsNavigation
  | deltaEnabled | deltaField | deltaToken | documentInOpenApi | pagination
  deriving DecidableEq

/-- The value of a property; what objects and numbers hold is left to `ν`. -/
inductive DefValue (ν : Type) where
  | undefined
  | bool (b : Bool)
  | text (s : Text)
  | other (value : ν)

variable {ν : Type}

def DefValue.isUndefined : DefValue ν → Bool
  | .undefined => true
  | _ => false

def DefValue.isTruthy : DefValue ν → Bool
  | .undefined => false
  | .bool b => b
  | .text s => s ≠ []
  | .other _ => true

def DefValue.isBool : DefValue ν → Bool → Bool
  | .bool b, b' => b = b'
  | _, _ => false

/-- A model class is known by its identity. -/
structure EntitySetDef (ν : Type) where
  name : Text
  modelCtor : Nat
  properties : Dictionary DefProperty (DefValue ν)

def EntitySetDef.get (set : EntitySetDef ν) (property : DefProperty) : DefValue ν :=
  (Dictionary.get set.properties property).getD .undefined

def EntitySetDef.set (set : EntitySetDef ν) (property : DefProperty) (value : DefValue ν) :
    EntitySetDef ν :=
  { set with properties := Dictionary.set set.properties property value }

/-- `set.supportsTransactions === true`. -/
def EntitySetDef.supports (set : EntitySetDef ν) : Bool :=
  (set.get .supportsTransactions).isBool true

/-! ## The registry -/

/-- Each definition is kept under its model class. -/
structure EntitySetRegistry (ν : Type) where
  sets : Dictionary Nat (EntitySetDef ν)
  version : Nat
  distinct : Dictionary.Distinct sets
  keyed : ∀ entry ∈ sets, entry.1 = entry.2.modelCtor

namespace EntitySetRegistry

def empty : EntitySetRegistry ν where
  sets := Dictionary.empty
  version := 0
  distinct := Dictionary.distinct_empty
  keyed := fun _ h => absurd h List.not_mem_nil

/-- A definition in the place of the one of its model class, or after all others. -/
def put (registry : EntitySetRegistry ν) (set : EntitySetDef ν) (version : Nat) :
    EntitySetRegistry ν where
  sets := Dictionary.set registry.sets set.modelCtor set
  version := version
  distinct := registry.distinct.set
  keyed := by
    intro entry hentry
    rcases Dictionary.mem_set hentry with rfl | hentry
    · rfl
    · exact registry.keyed entry hentry

def list (registry : EntitySetRegistry ν) : List (EntitySetDef ν) := registry.sets.map Prod.snd

/-- The properties that a registration keeps from an earlier one where it leaves them undefined. -/
def keptIfUndefined : List DefProperty :=
  [.composition, .compositionResolved, .deepInsert, .deepUpdate, .applyPushdown,
    .applySupportsNavigation, .deltaEnabled, .documentInOpenApi, .supportsTransactions,
    .transactionCapabilityLocked, .pagination, .hasStream, .mediaMaxPayloadBytes]

/-- Those that it keeps where it leaves them empty. -/
def keptIfFalsy : List DefProperty :=
  [.securityMetadata, .applyExecutorId, .sqlMetadata, .deltaField, .mediaField,
    .mediaContentTypeField, .mediaEtagField, .mediaLengthField, .mediaHandlerBindingKey]

def keepProperty (existing definition : EntitySetDef ν) (next : EntitySetDef ν)
    (property : DefProperty) : EntitySetDef ν :=
  if property ∈ keptIfUndefined then
    if (definition.get property).isUndefined ∧ ¬ (existing.get property).isUndefined then
      next.set property (existing.get property)
    else next
  else if ¬ (definition.get property).isTruthy ∧ (existing.get property).isTruthy then
    next.set property (existing.get property)
  else next

/-- `next`: the earlier definition, if there is one, overlaid with the new one. -/
def mergeDefinition (existing : Option (EntitySetDef ν)) (definition : EntitySetDef ν) :
    EntitySetDef ν :=
  let next := match existing with
    | none => definition
    | some existing => (keptIfUndefined ++ keptIfFalsy).foldl (keepProperty existing definition)
      { definition with
        properties := Dictionary.setAll existing.properties definition.properties }
  if (next.get .supportsTransactions).isBool false ∧
      (next.get .transactionCapabilityLocked).isUndefined then
    next.set .transactionCapabilityLocked (.bool true)
  else next

/-- A registration with limits of pages that are not valid throws. -/
def register (validPagination : DefValue ν → Bool) (registry : EntitySetRegistry ν)
    (definition : EntitySetDef ν) : Option (EntitySetRegistry ν) :=
  let next := mergeDefinition (Dictionary.get registry.sets definition.modelCtor) definition
  if validPagination (next.get .pagination) then some (registry.put next (registry.version + 1))
  else none

/-- A repository cannot be attached to a model that is not registered. -/
def attachRepository (registry : EntitySetRegistry ν) (modelCtor : Nat) (bindingKey : Text)
    (repositoryCtor : DefValue ν) : Option (EntitySetRegistry ν) :=
  (Dictionary.get registry.sets modelCtor).map fun definition =>
    registry.put ((definition.set .repositoryBindingKey (.text bindingKey)).set .repositoryCtor
      repositoryCtor) (registry.version + 1)

def findByName (rt : Runtime) (registry : EntitySetRegistry ν) (name : Text) :
    Option (EntitySetDef ν) :=
  registry.list.find? fun set => rt.toLowerCase set.name = rt.toLowerCase name

/-- A definition that was handed out, changed in place. -/
def change (registry : EntitySetRegistry ν) (set : EntitySetDef ν) : EntitySetRegistry ν :=
  registry.put set registry.version

end EntitySetRegistry

/-! ## Changesets -/

inductive TransactionCapability where
  | supported
  | unsupported
  | unknown

/-- `beginTransactionForDataSource`: it throws 501 where the data source has no transactions. -/
inductive BeginTransaction where
  | begun
  | notImplemented
  | failed

/-- The data sources of the repositories, as a changeset finds them. -/
structure Connections where
  /-- The data source of the repository that is bound to a key; an error where there is none. -/
  dataSource : Text → Option (Option Nat)
  supportsTransactions : Nat → Bool
  probe : Nat → TransactionCapability
  beginTransaction : Nat → BeginTransaction

inductive GroupError where
  | unresolvable
  | missingBinding
  | notBound
  | transactionsUnsupported
  | multiDataSource
  | notVerified
  | notBegun

section Group

variable (rt : Runtime) (connections : Connections)

open EntitySetRegistry

/-- What a changeset does to the registry. -/
abbrev GroupM (ν α : Type) := Effect GroupError (EntitySetRegistry ν) α

/-- Both properties at once. -/
def setCapability (setName : Text) (supported : Bool) : GroupM ν PUnit :=
  Effect.modify fun registry =>
    match registry.findByName rt setName with
    | none => registry
    | some set => registry.change ((set.set .supportsTransactions (.bool supported)).set
        .transactionCapabilityLocked (.bool true))

def findSet (setName : Text) : GroupM ν (EntitySetDef ν) := do
  let registry ← Effect.get
  match registry.findByName rt setName with
  | none => Effect.fail .unresolvable
  | some set => pure set

/-- The entity sets of a changeset with their data sources, and those without transactions. -/
def mapDataSources : List Text → GroupM ν (List (Text × Nat) × List Text)
  | [] => pure ([], [])
  | setName :: setNames => do
    let set ← findSet rt setName
    if (set.get .supportsTransactions).isBool false ∧
        (set.get .transactionCapabilityLocked).isBool true then do
      let (dataSources, nonTransactional) ← mapDataSources setNames
      pure (dataSources, setName :: nonTransactional)
    else
      match set.get .repositoryBindingKey with
      | .text (c :: key) =>
        match connections.dataSource (c :: key) with
        | none => Effect.fail .notBound
        | some none => do
          setCapability rt setName false
          let (dataSources, nonTransactional) ← mapDataSources setNames
          pure (dataSources, setName :: nonTransactional)
        | some (some dataSource) => do
          let (dataSources, nonTransactional) ← mapDataSources setNames
          pure ((setName, dataSource) :: dataSources, nonTransactional)
      | _ => Effect.fail .missingBinding

def tryRefreshTransactionalSupport (setName : Text) (dataSource : Nat) : GroupM ν Bool :=
  match connections.probe dataSource with
  | .supported => do
    setCapability rt setName true
    pure true
  | .unsupported => do
    setCapability rt setName false
    pure false
  | .unknown => Effect.fail .notVerified

def ensureTransactionalSupport (setName : Text) (dataSource : Nat) : GroupM ν Bool := do
  let set ← findSet rt setName
  if set.supports then pure true
  else do
    let refreshed ← (if (set.get .transactionCapabilityLocked).isBool false then
      tryRefreshTransactionalSupport rt connections setName dataSource else pure false)
    if refreshed then pure true
    else do
      let set ← findSet rt setName
      if (set.get .supportsTransactions).isBool false then do
        setCapability rt setName false
        pure false
      else pure true

/-- The entity sets whose data sources turn out to have no transactions. -/
def validateCapabilities : List (Text × Nat) → GroupM ν (List Text)
  | [] => pure []
  | (setName, dataSource) :: rest => do
    let transactional ← ensureTransactionalSupport rt connections setName dataSource
    if ¬ transactional then do
      let nonTransactional ← validateCapabilities rest
      pure (setName :: nonTransactional)
    else if connections.supportsTransactions dataSource then validateCapabilities rest
    else do
      setCapability rt setName false
      let nonTransactional ← validateCapabilities rest
      pure (setName :: nonTransactional)

/-- `createAtomicGroupContext` for the entity sets that the requests of a group write, as far as it
reads and changes their definitions. -/
def createAtomicGroupContext (setNames : List Text) : GroupM ν PUnit := do
  let (dataSources, nonTransactional) ← mapDataSources rt connections setNames
  if nonTransactional ≠ [] then Effect.fail .transactionsUnsupported
  else if (Dictionary.distinctKeys (dataSources.map Prod.snd)).length > 1 then
    Effect.fail .multiDataSource
  else do
    let nonTransactional ← validateCapabilities rt connections dataSources
    if nonTransactional ≠ [] then Effect.fail .transactionsUnsupported
    else
      match dataSources with
      | [] => pure ⟨⟩
      | (_, dataSource) :: _ =>
        match connections.beginTransaction dataSource with
        | .begun => Effect.each (fun setName => setCapability rt setName true) setNames
        | .notImplemented => do
          Effect.each (fun setName => setCapability rt setName false) setNames
          Effect.fail .transactionsUnsupported
        | .failed => Effect.fail .notBegun

end Group

end Metadata

end LoopbackOData
