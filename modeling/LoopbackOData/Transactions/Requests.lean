import LoopbackOData.Batch.Requests
import LoopbackOData.Library.Effect

/-!
# Transactions of write requests

The write requests of a controller with the calls that they make: which repository methods and hooks
they call, in which order, and with which transaction. The values that are passed are left out. What
a handler decides from values, and what a call throws, is up to an environment that knows what has
happened before.
-/

namespace LoopbackOData

namespace WriteTx

set_option autoImplicit false

/-! ## States -/

abbrev Transaction := Nat

structure DataSource where
  id : Nat
  name : Option Text
  deriving DecidableEq

/-- What the requests of an atomicity group carry. -/
structure AtomicityState where
  groupId : Text
  dataSource : Option DataSource
  dataSourceKey : Option Text
  transactionsBySet : List (Text × Transaction)

def AtomicityState.getTransaction (state : AtomicityState) (entitySetName : Text) :
    Option Transaction := state.transactionsBySet.lookup entitySetName

structure WriteTxState where
  transaction : Option Transaction
  dataSource : DataSource

/-- A call that can throw. The options of a repository call are the transaction they carry. -/
inductive Call where
  | beginTransaction (transaction : Transaction)
  | commit (transaction : Transaction)
  | rollback (transaction : Transaction)
  | read (entitySet : Text) (options : Option Transaction)
  | write (method : String) (entitySet : Text) (options : Option Transaction)
  | hook (entitySet : Text) (stage : String)
  | step (what : String)
  deriving DecidableEq

structure Event where
  call : Call
  succeeded : Bool
  deriving DecidableEq

/-- A request, with what it has called so far, the last call first. -/
structure RequestState where
  atomicity : Option AtomicityState
  writeTx : Option WriteTxState
  events : List Event

/-- An `on` hook: it returns or throws in the end, and it may call `next` before, going on with
what that has thrown. -/
inductive OnHook where
  | finish (thrown : Option Thrown)
  | next (rest : Option Thrown → OnHook)

/-- A relation in the payload of a deep insert or update, with the relations in each of its
items. -/
inductive DeepRelation where
  | mk (name : Text) (targetsMany : Bool) (items : List (List DeepRelation))

/-- An entity that a cascade finds. -/
inductive CompositionCascadeNode where
  | mk (entitySet : Text) (children : List CompositionCascadeNode)

structure Environment where
  throws : List Event → Call → Option Thrown
  decides : List Event → String → Bool
  beforeHooks : Text → Nat
  onHook : Option OnHook
  afterHooks : Text → Nat
  /-- The data source of the repository of an entity set or a relation. -/
  dataSourceOf : Text → Option DataSource
  /-- What a delete finds below its entity. -/
  cascade : List CompositionCascadeNode

structure Controller where
  setName : Text
  dataSource : Option DataSource
  supportsTransactions : DataSource → Bool
  /-- `cfg.writeTransactions`. -/
  enabled : Bool
  requireTransactionSupport : Bool
  rejectMultiDataSource : Bool
  /-- `requireTransactionSupport` of the composition settings. -/
  cascadeRequireSupport : Bool

abbrev TxM := Effect Thrown RequestState

section Requests

variable (controller : Controller) (env : Environment)

def call (c : Call) : TxM PUnit := fun s =>
  match env.throws s.events c with
  | none => (.ok ⟨⟩, { s with events := ⟨c, true⟩ :: s.events })
  | some e => (.error e, { s with events := ⟨c, false⟩ :: s.events })

/-- What a handler does with values. It may throw. -/
def step (what : String) : TxM PUnit := call env (.step what)

/-- A decision that a handler takes from values. -/
def ifHolds (what : String) (m m' : TxM PUnit) : TxM PUnit := fun s =>
  if env.decides s.events what then m s else m' s

def whenHolds (what : String) (m : TxM PUnit) : TxM PUnit := ifHolds env what m (pure ⟨⟩)

def httpFailure {α : Type} (statusCode : Nat) (code : String) (message : Text) : TxM α :=
  Effect.fail (.http ⟨statusCode, some code.toList, message⟩)

/-! ## Options and data sources -/

/-- The transaction in `buildRepositoryOptions`. -/
def buildRepositoryOptions (entitySetName : Text) (s : RequestState) : Option Transaction :=
  ((s.atomicity.bind fun state => state.getTransaction entitySetName).or
    (s.atomicity.bind fun state => state.getTransaction controller.setName)).or
    (s.writeTx.bind fun state => state.transaction)

def repositoryOptionsForEntitySet (entitySetName : Text) : TxM (Option Transaction) := fun s =>
  (.ok (buildRepositoryOptions controller entitySetName s), s)

def repositoryOptions : TxM (Option Transaction) :=
  repositoryOptionsForEntitySet controller controller.setName

/-- Whether the data source of a repository is not that of the atomicity group. -/
def AtomicityState.excludes (state : AtomicityState) (repoDs : Option DataSource) : Bool :=
  match repoDs, state.dataSource with
  | none, _ => false
  | some repoDs, some dataSource => repoDs ≠ dataSource
  | some repoDs, none =>
    match state.dataSourceKey, repoDs.name with
    | some expectedKey, some actualKey => expectedKey ≠ actualKey
    | _, _ => false

def assertWriteDataSource (repoDs : Option DataSource) (hint : String) : TxM PUnit := do
  let s ← Effect.get
  match s.atomicity.filter fun state => state.excludes repoDs with
  | some state =>
    httpFailure 501 "MultiDataSourceChangesetNotSupported"
      ("Atomicity group ".toList ++ state.groupId ++
        (" would write across multiple datasources (" ++ hint ++ ").").toList)
  | none =>
    if (s.writeTx.any fun state => repoDs.any fun repoDs => repoDs ≠ state.dataSource) &&
        controller.enabled && controller.rejectMultiDataSource then
      httpFailure 501 "NotImplemented"
        ("Atomic writes across multiple datasources are not supported (" ++ hint ++ ").").toList
    else pure ⟨⟩

def assertCompositionWriteDataSource (repoDs : Option DataSource) (hint : String) :
    TxM PUnit := do
  let s ← Effect.get
  if s.writeTx.any fun state => repoDs.any fun repoDs => repoDs ≠ state.dataSource then
    httpFailure 501 "NotImplemented"
      ("Cascade delete across multiple datasources is not supported (" ++ hint ++ ").").toList
  else pure ⟨⟩

/-! ## Transactions -/

/-- `delete this.request[ODATA_WRITE_TX_STATE]`. -/
def clearWriteTxState (s : RequestState) : RequestState := { s with writeTx := none }

def setWriteTxState (transaction : Option Transaction) (dataSource : DataSource) : TxM PUnit :=
  Effect.modify fun s => { s with writeTx := some ⟨transaction, dataSource⟩ }

/-- `try { return await fn() } finally { this.clearWriteTxState() }`, with no transaction. -/
def withoutTransaction (dataSource : DataSource) (m : TxM PUnit) : TxM PUnit := do
  setWriteTxState none dataSource
  Effect.ensuring m clearWriteTxState

def rollbackQuietly (transaction : Transaction) : TxM Bool := do
  match ← Effect.attempt (call env (.rollback transaction)) with
  | .ok _ => pure true
  | .error _ => pure false

def commitFailed : TxM PUnit :=
  httpFailure 500 "TransactionCommitFailed" "Failed to commit datasource transaction.".toList

/-- The commit after the work, and the rollbacks where the commit or the work throws. A commit that
throws is rolled back once more where the first rollback throws as well. -/
def settle (transaction : Transaction) : Except Thrown PUnit → TxM PUnit
  | .ok _ => do
    match ← Effect.attempt (call env (.commit transaction)) with
    | .ok _ => pure ⟨⟩
    | .error _ => do
      let rolledBack ← rollbackQuietly env transaction
      Effect.when (rolledBack = false)
        (rollbackQuietly env transaction >>= fun _ => pure ⟨⟩)
      commitFailed
  | .error e => do
    let _ ← rollbackQuietly env transaction
    Effect.fail e

def commitOrRollback (transaction : Transaction) (m : TxM PUnit) : TxM PUnit := do
  settle env transaction (← Effect.attempt m)

def inTransaction (transaction : Transaction) (dataSource : DataSource) (m : TxM PUnit) :
    TxM PUnit := do
  setWriteTxState (some transaction) dataSource
  Effect.ensuring (commitOrRollback env transaction m) clearWriteTxState

/-- What both wrappers do where the request has no transaction yet. A transaction is known by the
number of calls before it. -/
def beginAndRun (dataSource : DataSource) (requireSupport : Bool)
    (unsupported : Option Thrown → TxM PUnit) (m : TxM PUnit) : TxM PUnit :=
  if ¬ controller.supportsTransactions dataSource then
    if requireSupport then unsupported none else withoutTransaction dataSource m
  else do
    let s ← Effect.get
    let transaction := s.events.length
    match ← Effect.attempt (call env (.beginTransaction transaction)) with
    | .error e => if requireSupport then unsupported (some e) else withoutTransaction dataSource m
    | .ok _ => inTransaction env transaction dataSource m

def thrownMessage : Thrown → Text
  | .http error => error.message
  | .other _ message => message

def writeTxNotSupported (reason : Option Thrown) : TxM PUnit :=
  let message : Text := match (reason.map thrownMessage).filter (· ≠ []) with
    | some message => "Datasource does not support transactions: ".toList ++ message
    | none => "Datasource does not support transactions.".toList
  httpFailure 501 "NotImplemented" (message ++ (" Enable $batch changesets for atomic writes or " ++
    "use a transactional connector (for example PostgreSQL).").toList)

def withWriteTransaction (m : TxM PUnit) : TxM PUnit :=
  if ¬ controller.enabled then m
  else do
    step env "ensureConfigValidated"
    let s ← Effect.get
    if s.atomicity.isSome then m
    else if s.writeTx.isSome then m
    else
      match controller.dataSource with
      | none => if controller.requireTransactionSupport then writeTxNotSupported none else m
      | some dataSource =>
        beginAndRun controller env dataSource controller.requireTransactionSupport
          writeTxNotSupported m

def cascadeNotSupported (_ : Option Thrown) : TxM PUnit :=
  httpFailure 501 "NotImplemented"
    "Cascade delete requires transaction support for atomicity.".toList

def withCompositionWriteTransaction (m : TxM PUnit) : TxM PUnit := do
  step env "ensureConfigValidated"
  let s ← Effect.get
  if s.writeTx.isSome then m
  else
    match controller.dataSource with
    | none => m
    | some dataSource =>
      if s.atomicity.isSome then withoutTransaction dataSource m
      else
        beginAndRun controller env dataSource controller.cascadeRequireSupport cascadeNotSupported m

/-! ## Hooks -/

def runHooks (entitySet : Text) (stage : String) : Nat → TxM PUnit
  | 0 => pure ⟨⟩
  | n + 1 => do
    call env (.hook entitySet stage)
    runHooks entitySet stage n

def OnHook.run (next : TxM PUnit) : OnHook → TxM PUnit
  | .finish none => pure ⟨⟩
  | .finish (some e) => Effect.fail e
  | .next rest => fun s =>
    match next s with
    | (.ok _, s') => (rest none).run next s'
    | (.error e, s') => (rest (some e)).run next s'

def runOn (execDefault : TxM PUnit) : TxM PUnit :=
  match env.onHook with
  | none => execDefault
  | some hook => hook.run execDefault

/-- The part of every handler that runs in its transaction. -/
def handle (execDefault : TxM PUnit) : TxM PUnit := do
  step env "enforceTenantLimit"
  runHooks env controller.setName "before" (env.beforeHooks controller.setName)
  runOn env execDefault
  runHooks env controller.setName "after" (env.afterHooks controller.setName)

/-! ## Deep payloads -/

mutual

/-- A relation of a deep insert below the entity that was created last. -/
def persistDeepInsertGraph (options : Option Transaction) : DeepRelation → TxM PUnit
  | .mk name _ items => do
    step env "relation of a deep insert"
    persistInsertItems options name items

def persistInsertItems (options : Option Transaction) (name : Text) :
    List (List DeepRelation) → TxM PUnit
  | [] => pure ⟨⟩
  | children :: items => do
    step env "item of a deep insert"
    assertWriteDataSource controller (env.dataSourceOf name) "deep-insert"
    call env (.write "create" name options)
    persistInsertRelations options children
    persistInsertItems options name items

def persistInsertRelations (options : Option Transaction) : List DeepRelation → TxM PUnit
  | [] => pure ⟨⟩
  | relation :: relations => do
    persistDeepInsertGraph options relation
    persistInsertRelations options relations

end

/-- The relations of the entity itself: their data sources are checked here as well. -/
def persistRootRelations (options : Option Transaction) : List DeepRelation → TxM PUnit
  | [] => pure ⟨⟩
  | .mk name targetsMany items :: relations => do
    step env "relation of the entity"
    assertWriteDataSource controller (env.dataSourceOf name) "deep-insert"
    persistDeepInsertGraph controller env options (.mk name targetsMany items)
    persistRootRelations options relations

mutual

/-- A relation of a deep update. What is there already is read first; an error of a read that only
refreshes an item is ignored. -/
def persistDeepUpdateGraph (options : Option Transaction) : DeepRelation → TxM PUnit
  | .mk name targetsMany items => do
    step env "relation of a deep update"
    call env (.read name options)
    persistUpdateItems options name targetsMany items

def persistUpdateItems (options : Option Transaction) (name : Text) (targetsMany : Bool) :
    List (List DeepRelation) → TxM PUnit
  | [] => pure ⟨⟩
  | children :: items => do
    step env "item of a deep update"
    ifHolds env "the item is new"
      (do
        assertWriteDataSource controller (env.dataSourceOf name) "deep-update"
        call env (.write "create" name options)
        whenHolds env "the new item has a key" (applyDeepUpdateRelations options children))
      (do
        whenHolds env "the item has values" (do
          assertWriteDataSource controller (env.dataSourceOf name) "deep-update"
          call env (.write "patch" name options))
        Effect.when (¬ targetsMany ∨ children ≠ [])
          (Effect.attempt (call env (.read name options)) >>= fun _ => pure ⟨⟩)
        whenHolds env "the item has a key" (applyDeepUpdateRelations options children))
    persistUpdateItems options name targetsMany items

def applyDeepUpdateRelations (options : Option Transaction) : List DeepRelation → TxM PUnit
  | [] => pure ⟨⟩
  | relation :: relations => do
    persistDeepUpdateGraph options relation
    applyDeepUpdateRelations options relations

end

/-! ## Cascades -/

/-- `ensureNoRestrictChildren` and the search for the children of an entity. -/
def readChildren (entitySet : Text) : TxM PUnit := do
  let options ← repositoryOptionsForEntitySet controller entitySet
  call env (.read entitySet options)
  step env "composed children"

mutual

def planCascadeForEntity : CompositionCascadeNode → TxM PUnit
  | .mk entitySet children => do
    readChildren controller env entitySet
    planCascadeForChildren children

def planCascadeForChildren : List CompositionCascadeNode → TxM PUnit
  | [] => pure ⟨⟩
  | child :: children => do
    planCascadeForEntity child
    planCascadeForChildren children

end

mutual

def executeCascadeNode : CompositionCascadeNode → TxM PUnit
  | .mk entitySet children => do
    executeCascadeChildren children
    step env "repository of the entity set"
    assertCompositionWriteDataSource (env.dataSourceOf entitySet) "composition-cascade"
    let options ← repositoryOptionsForEntitySet controller entitySet
    runHooks env entitySet "before" (env.beforeHooks entitySet)
    call env (.write "deleteById" entitySet options)
    runHooks env entitySet "after" (env.afterHooks entitySet)

def executeCascadeChildren : List CompositionCascadeNode → TxM PUnit
  | [] => pure ⟨⟩
  | child :: children => do
    executeCascadeNode child
    executeCascadeChildren children

end

/-! ## Handlers -/

/-- The upload of a media entity: the handler that keeps the content in a property writes it through
the repository, and the description of the content is written after it. -/
def writeMedia (options : Option Transaction) : TxM PUnit := do
  step env "entity id of a media upload"
  ifHolds env "the content is a property"
    (call env (.write "updateById" controller.setName options))
    (step env "media handler")
  whenHolds env "the media has metadata" (do
    let options ← repositoryOptions controller
    call env (.write "updateById" controller.setName options))

def createDefault (deepInsert : List DeepRelation) (bodyIsBinary : Bool) : TxM PUnit := do
  let options ← repositoryOptions controller
  step env "payload of a create"
  call env (.write "create" controller.setName options)
  step env "location of the entity"
  Effect.when (deepInsert ≠ []) (do
    persistRootRelations controller env options deepInsert
    call env (.read controller.setName options))
  Effect.when bodyIsBinary (writeMedia controller env options)
  whenHolds env "the entity has no ETag" (call env (.read controller.setName options))
  step env "response of a create"

def create (deepInsert : List DeepRelation) (bodyIsBinary : Bool) : TxM PUnit := do
  step env "request of a create"
  withWriteTransaction controller env
    (handle controller env (createDefault controller env deepInsert bodyIsBinary))

def replaceDefault : TxM PUnit := do
  let options ← repositoryOptions controller
  step env "precondition"
  whenHolds env "If-Match has values" (do
    call env (.read controller.setName options)
    step env "ETag")
  assertWriteDataSource controller controller.dataSource "replace"
  call env (.write "replaceById" controller.setName options)
  call env (.read controller.setName options)
  step env "response of a replacement"

def replace : TxM PUnit := do
  step env "request of a replacement"
  withWriteTransaction controller env (handle controller env (replaceDefault controller env))

def updateDefault (deepUpdate : List DeepRelation) : TxM PUnit := do
  let options ← repositoryOptions controller
  step env "precondition"
  whenHolds env "the payload has foreign keys of compositions" (do
    call env (.read controller.setName options)
    step env "foreign keys")
  ifHolds env "If-Match has values"
    (do
      call env (.write "updateAll" controller.setName options)
      step env "count of the update")
    (whenHolds env "the payload has values"
      (call env (.write "updateById" controller.setName options)))
  call env (.read controller.setName options)
  Effect.when (deepUpdate ≠ []) (do
    applyDeepUpdateRelations controller env options deepUpdate
    call env (.read controller.setName options))
  step env "response of an update"

def update (deepUpdate : List DeepRelation) : TxM PUnit := do
  step env "request of an update"
  withWriteTransaction controller env
    (handle controller env (updateDefault controller env deepUpdate))

/-- What the compositions of an entity set ask of a delete. -/
inductive DeleteMode where
  | plain
  | restrict
  | cascade
  deriving DecidableEq

/-- The checks and the cascade before the entity itself is deleted. -/
def deleteComposed (mode : DeleteMode) (options : Option Transaction) : TxM PUnit :=
  match mode with
  | .plain => pure ⟨⟩
  | .restrict => do
    call env (.read controller.setName options)
    step env "precondition"
    readChildren controller env controller.setName
  | .cascade => do
    call env (.read controller.setName options)
    step env "precondition"
    planCascadeForEntity controller env (.mk controller.setName env.cascade)
    executeCascadeChildren controller env env.cascade

def deleteDefault (mode : DeleteMode) : TxM PUnit := do
  let options ← repositoryOptions controller
  step env "precondition"
  deleteComposed controller env mode options
  whenHolds env "the entity is returned" (call env (.read controller.setName options))
  Effect.when (mode = .cascade)
    (assertCompositionWriteDataSource controller.dataSource "composition-delete:root")
  ifHolds env "If-Match has values"
    (do
      call env (.write "deleteAll" controller.setName options)
      step env "count of the delete")
    (call env (.write "deleteById" controller.setName options))
  step env "response of a delete"

def runDelete (mode : DeleteMode) : TxM PUnit :=
  handle controller env (deleteDefault controller env mode)

/-- With an `on` hook, compositions are left to that. -/
def delete (mode : DeleteMode) : TxM PUnit := do
  step env "request of a delete"
  let mode := if env.onHook.isSome then .plain else mode
  if mode = .cascade then
    withCompositionWriteTransaction controller env (runDelete controller env mode)
  else withWriteTransaction controller env (runDelete controller env mode)

/-- The entity that is linked or unlinked, read and written back with another foreign key. -/
def replaceTarget (relation : Text) (hint : String) : TxM PUnit := do
  let options ← repositoryOptions controller
  call env (.read relation options)
  step env "foreign key"
  assertWriteDataSource controller (env.dataSourceOf relation) hint
  let options ← repositoryOptions controller
  call env (.write "replaceById" relation options)

def linkNavigationRef (relation : Text) : TxM PUnit := do
  step env "reference"
  withWriteTransaction controller env (handle controller env (do
    step env "target of the link"
    replaceTarget controller env relation "link-navigation-ref"))

def unlinkNavigationRef (relation : Text) : TxM PUnit := do
  step env "relation"
  withWriteTransaction controller env (do
    step env "target of the link"
    handle controller env (replaceTarget controller env relation "unlink-navigation-ref"))

inductive WriteRequest where
  | create (deepInsert : List DeepRelation) (bodyIsBinary : Bool)
  | replace
  | update (deepUpdate : List DeepRelation)
  | delete (mode : DeleteMode)
  | link (relation : Text)
  | unlink (relation : Text)

def WriteRequest.run : WriteRequest → TxM PUnit
  | .create deepInsert bodyIsBinary => WriteTx.create controller env deepInsert bodyIsBinary
  | .replace => WriteTx.replace controller env
  | .update deepUpdate => WriteTx.update controller env deepUpdate
  | .delete mode => WriteTx.delete controller env mode
  | .link relation => linkNavigationRef controller env relation
  | .unlink relation => unlinkNavigationRef controller env relation

end Requests

/-! ## Changesets -/

/-- `createAtomicGroupContext`: one transaction for the entity sets that the requests of the group
resolve to. -/
structure Changeset where
  groupId : Text
  dataSource : DataSource
  dataSourceKey : Text
  setNames : List Text
  transaction : Transaction

def Changeset.atomicityState (changeset : Changeset) : AtomicityState where
  groupId := changeset.groupId
  dataSource := some changeset.dataSource
  dataSourceKey := some changeset.dataSourceKey
  transactionsBySet := changeset.setNames.map (·, changeset.transaction)

/-- A request as its controller gets it. -/
def RequestState.start (changeset : Option Changeset) : RequestState where
  atomicity := changeset.map Changeset.atomicityState
  writeTx := none
  events := []

def WriteRequest.isReference : WriteRequest → Bool
  | .link _ => true
  | .unlink _ => true
  | _ => false

/-- A changeset that the request belongs to. The URL of a reference leads to the entity set of the
relation's target, that of any other request to the entity set of the controller. -/
structure Membership (controller : Controller) (request : WriteRequest) where
  changeset : Changeset
  resolved : request.isReference = false → controller.setName ∈ changeset.setNames

end WriteTx

end LoopbackOData
