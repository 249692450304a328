import LoopbackOData.Batch.Planning
import LoopbackOData.Library.Effect

/-!
# The batch controller

`handleBatch`: single requests are executed one by one, the requests of an atomicity group together
in a transaction, which is committed when none of them failed. The application that answers the
requests, its data sources and the transactions are parameters that act on a world.
-/

set_option autoImplicit false

namespace LoopbackOData

open Effect

/-- A request as it is handed to the application. -/
structure SubRequest where
  method : Text
  url : Text
  headers : Headers
  body : Bytes
  transaction : Option Text

/-- What comes of it: a response, an error of the response, or nothing in time. -/
inductive SubResponse where
  | finished (status : Nat) (headers : Headers) (body : Bytes)
  | failed (status : Option Nat) (message : Text)
  | timedOut

/-- The application and the settings of the controller. `openTransaction` finds the data source of
the entity sets of a group and begins a transaction on it; `resolveUrl` is `new URL` with the URL of
the server as base, its origin and its path and query. -/
structure BatchServer (σ : Type) where
  service : BatchService
  handleRequest : SubRequest → σ → SubResponse × σ
  openTransaction : Text → List Text → σ → Except Thrown Text × σ
  commit : Text → σ → Except Thrown Unit × σ
  rollback : Text → σ → Except Thrown Unit × σ
  limits : NormalizedBatchLimits
  depth : Nat
  parentHeaders : Headers
  allowedSubRequestHeaders : List Text
  correlation : Option (Text × Text)
  serverOrigin : Text
  resolveUrl : Text → Option (Text × Text)

/-- What a batch has come to. `executed` and `groups` only record which requests were handed to the
application and which groups were committed. -/
structure BatchState (σ : Type) where
  world : σ
  dependencyResults : Dictionary Text BatchResponseEntry
  tracker : ResponseSizeTracker
  rolledBack : Bool
  executed : List Nat
  committed : List Text

abbrev BatchM (σ : Type) := Effect Thrown (BatchState σ)

section Handling

variable {σ : Type} (server : BatchServer σ)

/-! ## One request -/

def batchDepthHeader : Text := "x-odata-batch-depth".toList

def forbiddenHeaders : List Text :=
  ["connection", "content-length", "transfer-encoding", "proxy-connection", "keep-alive", "upgrade",
    "te", "trailer", "content-transfer-encoding"].map String.toList ++ [batchDepthHeader]

/-- The headers of the batch, then those of the request that it may set. -/
def buildHeadersForRequest (request : BatchRequest) : Headers :=
  let lower := server.service.rt.toLowerCase
  let inherited := server.parentHeaders.foldl (fun (merged : Headers) header =>
    if lower header.1 = batchDepthHeader then merged else merged.assign (lower header.1) header.2) []
  let merged := (request.headers.getD []).foldl (fun (merged : Headers) header =>
    if lower header.1 = "host".toList ∨ lower header.1 = batchDepthHeader ∨
        lower header.1 ∉ server.allowedSubRequestHeaders then merged
    else merged.assign (lower header.1) header.2) inherited
  let kept := merged.filter fun header => header.1 ∉ forbiddenHeaders
  match server.correlation with
  | none => kept
  | some (name, value) => Headers.assign kept name value

/-- A batch is no request of a batch that is nested too deep. -/
def enforceBatchDepthLimit (depth : Nat) : Except Thrown Unit :=
  match server.limits.maxDepth with
  | none => .ok ()
  | some maxDepth =>
    if 0 < maxDepth ∧ maxDepth ≤ depth then
      .error (.http ⟨400, some "BatchDepthLimitExceeded".toList,
        "Batch request exceeds the configured nesting depth.".toList⟩)
    else .ok ()

/-- The type of a content type in lower case, without parameters. -/
def normalizeContentType (value : Option Text) : Text :=
  server.service.rt.toLowerCase (trimText ((value.getD []).takeWhile (· ≠ ';')))

def isJsonContentType (value : Option Text) : Bool :=
  let type := normalizeContentType server value
  type = "application/json".toList || endsWith type "+json".toList

def textLikeMimeTypes : List Text :=
  ["application/xml", "application/xhtml+xml", "application/javascript", "application/ecmascript",
    "application/x-www-form-urlencoded"].map String.toList

def isTextContentType (value : Option Text) : Bool :=
  let type := normalizeContentType server value
  startsWith type "text/".toList || endsWith type "+xml".toList || textLikeMimeTypes.contains type

def decodeBufferedBody (body : Bytes) (headers : Headers) : ResponseBody :=
  if body = [] then .undefined
  else
    let contentType := getHeaderCaseInsensitive server.service.rt.toRuntime (some headers)
      "content-type"
    if isJsonContentType server contentType then
      .value ((Json.parse (decodeText body)).getD (.str (decodeText body)))
    else if isTextContentType server contentType then .value (.str (decodeText body))
    else .buffer body

/-- The body that comes with a content type of its own. -/
def shouldDefaultJsonContentType (request : BatchRequest) : Bool :=
  match request.rawBody, request.body with
  | some _, _ => false
  | none, none => false
  | none, some (.str _) => false
  | none, some _ => true

def subRequestHeaders (request : BatchRequest) (body : Bytes) : Headers :=
  let headers := buildHeadersForRequest server request
  if body = [] then headers
  else
    let headers := if shouldDefaultJsonContentType request ∧
        ¬ hasText (headers.get "content-type") then
      headers.assign "content-type".toList "application/json".toList else headers
    headers.assign "content-length".toList (Json.digits body.length)

def failedEntry (id : Option Text) (status : Nat) (code message : Text) : BatchResponseEntry :=
  ⟨id, none, status, none, odataError code message⟩

/-- The entry of a response, unless its body is longer than the limit. -/
def responseEntry (request : BatchRequest) (response : SubResponse) : BatchResponseEntry :=
  match response with
  | .finished status headers body =>
    if exceeds server.limits.maxResponseBodyBytes body.length then
      failedEntry request.id 413 "ResponseTooLarge".toList
        "Batch sub-response exceeded the configured size limit.".toList
    else ⟨request.id, none, status, some headers, decodeBufferedBody server body headers⟩
  | .failed status message =>
    failedEntry request.id (status.getD 500) "BatchExecutionError".toList message
  | .timedOut =>
    failedEntry request.id 504 "BatchSubRequestTimeout".toList
      "Batch sub-request timeout".toList

def executeWithHandler (transaction : Option Text) (request : IndexedRequest) :
    BatchM σ BatchResponseEntry := fun s =>
  match sanitizeUrl server.service request.1.url with
  | none =>
    (.ok (failedEntry request.1.id 400 "InvalidUrl".toList
      ("Invalid request URL: ".toList ++ request.1.url)), s)
  | some url =>
    let method := server.service.rt.toUpperCase request.1.method
    if method = [] then
      (.ok (failedEntry request.1.id 400 "InvalidMethod".toList
        "Batch request method is required.".toList), s)
    else
      match enforceBatchDepthLimit server (server.depth + 1) with
      | .error e => (.error e, s)
      | .ok () =>
        let body := resolveRequestBodyBuffer request.1
        let (response, world) := server.handleRequest
          ⟨method, url, subRequestHeaders server request.1 body, body, transaction⟩ s.world
        (.ok (responseEntry server request.1 response),
          { s with world := world, executed := s.executed ++ [request.2] })

def isRedirectStatus (status : Nat) : Bool := status ∈ [301, 302, 303, 307, 308]

def resolveRedirectPath (location : Text) : Option Text :=
  let trimmed := trimText location
  if trimmed = [] then none
  else if isWebUrl trimmed then
    (server.resolveUrl trimmed).bind fun url =>
      if url.1 = server.serverOrigin then some url.2 else none
  else
    (sanitizeUrl server.service trimmed).bind fun sanitized =>
      (server.resolveUrl sanitized).map (·.2)

/-- Where a response sends a request that reads. -/
def redirectTarget (request : BatchRequest) (entry : BatchResponseEntry) : Option Text :=
  if ¬ isRedirectStatus entry.status then none
  else
    let method := server.service.rt.toUpperCase request.method
    if method ≠ "GET".toList ∧ method ≠ "HEAD".toList then none
    else
      (firstText [responseHeader server.service entry "location"]).bind fun location =>
        firstText [resolveRedirectPath server location]

def executeWithRedirects (transaction : Option Text) :
    Nat → IndexedRequest → BatchM σ BatchResponseEntry
  | remaining, request => do
    let entry ← executeWithHandler server transaction request
    match redirectTarget server request.1 entry with
    | none => pure entry
    | some url =>
      match remaining with
      | 0 =>
        pure (failedEntry request.1.id 400 "TooManyRedirects".toList
          "Batch sub-request exceeded redirect limits.".toList)
      | remaining + 1 =>
        executeWithRedirects transaction remaining ({ request.1 with url := url }, request.2)

def executeSingle (transaction : Option Text) (request : IndexedRequest) :
    BatchM σ BatchResponseEntry := executeWithRedirects server transaction 3 request

/-! ## A group of requests -/

def failedDependency (request : BatchRequest) (dependencyId : Text) (reason : String) :
    BatchResponseEntry :=
  failedEntry request.id 424 "FailedDependency".toList
    ("Request depends on ".toList ++ dependencyId ++ reason.toList)

def evaluateDependencies (request : BatchRequest) (results : Dictionary Text BatchResponseEntry) :
    List Text → Option BatchResponseEntry
  | [] => none
  | dependencyId :: deps =>
    match results.get dependencyId with
    | none => some (failedDependency request dependencyId ", which did not execute.")
    | some prior =>
      if 400 ≤ prior.status then some (failedDependency request dependencyId ", which failed.")
      else evaluateDependencies request results deps

def evaluateDependsOn (request : BatchRequest) (results : Dictionary Text BatchResponseEntry) :
    Option BatchResponseEntry := evaluateDependencies request results (request.dependsOn.getD [])

def track (entry : BatchResponseEntry) : BatchM σ PUnit :=
  advance fun s =>
    (trackResponseSize server.service.rt s.tracker entry).map fun tracker =>
      { s with tracker := tracker }

def recordDependency (request : BatchRequest) (entry : BatchResponseEntry) : BatchM σ PUnit :=
  modify fun s =>
    match request.id with
    | none => s
    | some id =>
      if id = [] then s
      else { s with dependencyResults := s.dependencyResults.set id entry }

/-- The outcome of a request in a group, with the references that it adds. -/
def executeRequest (transaction : Option Text) (references : BatchReferences)
    (request : IndexedRequest) : BatchM σ (BatchResponseEntry × BatchReferences) := do
  ofExcept (assertContentIdAvailability server.service.rt.toRuntime request.1 references.contentIds)
  let s ← get
  match evaluateDependsOn request.1 s.dependencyResults with
  | some failure => do
    track server failure
    recordDependency request.1 failure
    pure (failure, references)
  | none => do
    let prepared ← ofExcept
      (applyContentIdReferences server.service.rt.toRuntime request.1 references.contentIds)
    let prepared := ensureEtagPreconditions server.service prepared references.etags
    let entry ← executeSingle server transaction (prepared, request.2)
    track server entry
    recordDependency request.1 entry
    let references ← ofExcept
      (recordContentIdResult server.service request prepared entry references)
    pure (entry, references)

def executeGroup (transaction : Option Text) (abortOnFailure : Bool) :
    List IndexedRequest → BatchReferences → BatchM σ (List BatchResponseEntry × BatchReferences)
  | [], references => pure ([], references)
  | request :: requests, references => do
    let (entry, references) ← executeRequest server transaction references request
    if abortOnFailure ∧ 400 ≤ entry.status then pure ([entry], references)
    else do
      let (entries, references) ← executeGroup transaction abortOnFailure requests references
      pure (entry :: entries, references)

/-! ## A changeset -/

def ensureAtomicityGroupContainsOnlyWrites (groupId : Text) :
    List IndexedRequest → Except Thrown Unit
  | [] => .ok ()
  | request :: requests =>
    let method := server.service.rt.toUpperCase request.1.method
    if method ∉ ["POST".toList, "PUT".toList, "PATCH".toList, "DELETE".toList] then
      .error (.badRequest ("Atomicity group ".toList ++ groupId ++ " contains unsupported ".toList ++
        (if method = [] then "unknown".toList else method) ++ " request.".toList))
    else ensureAtomicityGroupContainsOnlyWrites groupId requests

def addName (names : List Text) (name : Text) : List Text :=
  if name ∈ names then names else names ++ [name]

/-- The entity sets that the requests of a group write. -/
def groupSetNames (groupId : Text) (group requests : List IndexedRequest) :
    List IndexedRequest → List Text → Except Thrown (List Text)
  | [], names => .ok names
  | request :: rest, names => do
    match ← resolveAtomicityGroupEntitySetName server.service groupId group requests request with
    | none =>
      .error (.http ⟨501, some "AtomicityGroupNotSupported".toList, "Atomicity group ".toList ++
        groupId ++ (" contains a write request that cannot be mapped to a registered entity set; " ++
          "changeset atomicity cannot be guaranteed.").toList⟩)
    | some name => groupSetNames groupId group requests rest (addName names name)

/-- The transaction of a group, all of whose requests write. -/
def createAtomicGroupContext (groupId : Text) (group requests : List IndexedRequest) :
    BatchM σ (Option Text) := fun s =>
  match groupSetNames server groupId group requests group [] with
  | .error e => (.error e, s)
  | .ok [] => (.ok none, { s with rolledBack := false })
  | .ok (name :: names) =>
    match server.openTransaction groupId (name :: names) s.world with
    | (.error e, world) => (.error e, { s with world := world })
    | (.ok transaction, world) => (.ok (some transaction), { s with world := world, rolledBack := false })

def describeAtomicityGroupRejection (error : Thrown) : Option BatchError :=
  match error with
  | .http e =>
    if e.statusCode = 501 ∧ (e.code = some "MultiDataSourceChangesetNotSupported".toList ∨
        e.code = some "AtomicityGroupNotSupported".toList) then some e
    else none
  | .other _ _ => none

/-- `AtomicityGroupContext.rollback`: once. -/
def rollbackTransaction (transaction : Option Text) : BatchM σ PUnit := fun s =>
  match transaction with
  | none => (.ok ⟨⟩, s)
  | some transaction =>
    if s.rolledBack then (.ok ⟨⟩, s)
    else
      match server.rollback transaction s.world with
      | (.ok (), world) => (.ok ⟨⟩, { s with world := world, rolledBack := true })
      | (.error e, world) =>
        (.error (.other none e.message), { s with world := world, rolledBack := true })

/-- `AtomicityGroupContext.commit`: a transaction that cannot be committed is rolled back. -/
def commitTransaction (groupId : Text) (transaction : Option Text) : BatchM σ PUnit := fun s =>
  match transaction with
  | none => (.ok ⟨⟩, { s with committed := s.committed ++ [groupId] })
  | some tx =>
    match server.commit tx s.world with
    | (.ok (), world) =>
      (.ok ⟨⟩, { s with world := world, committed := s.committed ++ [groupId] })
    | (.error e, world) =>
      (.error e, (rollbackTransaction server transaction { s with world := world }).2)

/-- Entries with the same status for requests that were not executed. -/
def answerAll (entryOf : BatchRequest → BatchResponseEntry) :
    List IndexedRequest → BatchM σ (List BatchResponseEntry)
  | [] => pure []
  | request :: requests => do
    let entry := entryOf request.1
    track server entry
    recordDependency request.1 entry
    let entries ← answerAll entryOf requests
    pure (entry :: entries)

def notExecuted (request : BatchRequest) : BatchResponseEntry :=
  failedEntry request.id 424 "FailedDependency".toList
    "Request not executed due to prior failure in changeset.".toList

def rejectedEntry (rejection : BatchError) (request : BatchRequest) : BatchResponseEntry :=
  failedEntry request.id 501 (rejection.code.getD []) rejection.message

/-- The requests of a group, and the end of its transaction. -/
def executeInTransaction (groupId : Text) (transaction : Option Text) (group : List IndexedRequest)
    (references : BatchReferences) : BatchM σ (List BatchResponseEntry × BatchReferences) := do
  let (entries, inner) ← executeGroup server transaction true group references
  if entries.any fun entry => 400 ≤ entry.status then do
    rollbackTransaction server transaction
    let rest ← answerAll server notExecuted (group.drop entries.length)
    pure (entries ++ rest, references)
  else do
    commitTransaction server groupId transaction
    pure (entries, ⟨references.contentIds.setMissing inner.contentIds,
      references.etags.setMissing inner.etags⟩)

def executeAtomicGroup (groupId : Text) (group requests : List IndexedRequest)
    (references : BatchReferences) : BatchM σ (List BatchResponseEntry × BatchReferences) := do
  ofExcept (ensureAtomicityGroupContainsOnlyWrites server groupId group)
  match ← attempt (createAtomicGroupContext server groupId group requests) with
  | .error e =>
    match describeAtomicityGroupRejection e with
    | none => Effect.fail e
    | some rejection => do
      let entries ← answerAll server (rejectedEntry rejection) group
      pure (entries, references)
  | .ok transaction =>
    match ← attempt (executeInTransaction server groupId transaction group references) with
    | .ok result => pure result
    | .error e => do
      rollbackTransaction server transaction
      Effect.fail e

/-! ## The batch -/

structure LoopState where
  responses : List BatchResponseEntry
  executedGroups : Dictionary Text (List BatchResponseEntry)
  references : BatchReferences

/-- What a group that threw an error is answered with. -/
def groupFailure (groupId : Text) (error : Thrown) (request : IndexedRequest) :
    BatchResponseEntry :=
  ⟨request.1.id, some groupId, resolveErrorStatus error 500, none,
    odataError "BatchExecutionError".toList error.message⟩

def runGroup (groupId : Text) (group requests : List IndexedRequest)
    (references : BatchReferences) : BatchM σ (List BatchResponseEntry × BatchReferences) := do
  match ← attempt (executeAtomicGroup server groupId group requests references) with
  | .ok (entries, references) =>
    pure (entries.map fun entry => { entry with atomicityGroup := some groupId }, references)
  | .error e =>
    if isBatchValidationError e then Effect.fail e
    else pure (group.map (groupFailure groupId e), references)

def handleSingle (request : IndexedRequest) (loop : LoopState) : BatchM σ LoopState := do
  let (entries, references) ← executeGroup server none false [request] loop.references
  pure { loop with responses := loop.responses ++ entries, references := references }

def handleMember (groupId : Text) (group requests : List IndexedRequest) (loop : LoopState) :
    BatchM σ LoopState := do
  let (pending, references) ← match loop.executedGroups.get groupId with
    | some pending => pure (pending, loop.references)
    | none => runGroup server groupId group requests loop.references
  pure ⟨loop.responses ++ pending.take 1, loop.executedGroups.set groupId pending.tail, references⟩

def handleEach (changeSets : Dictionary Text (List IndexedRequest)) (requests : List IndexedRequest) :
    List IndexedRequest → LoopState → BatchM σ LoopState
  | [], loop => pure loop
  | request :: rest, loop => do
    let loop ← match groupOf request.1 with
      | some groupId =>
        handleMember server groupId ((changeSets.get groupId).getD []) requests loop
      | none => handleSingle server request loop
    handleEach changeSets requests rest loop

/-- The responses of a batch whose requests have been read and sanitized. -/
def handleRequests (requests : List BatchRequest) : BatchM σ (List BatchResponseEntry) := do
  ofExcept (validateContiguousAtomicityGroups requests)
  let changeSets := collectAtomicityGroups requests
  ofExcept (enforceChangesetLimit server.limits changeSets)
  let loop ← handleEach server changeSets requests.zipIdx requests.zipIdx
    ⟨[], .empty, ⟨.empty, .empty⟩⟩
  advance fun s =>
    (finalizeResponseSizeTracker s.tracker).map fun tracker => { s with tracker := tracker }
  pure loop.responses

end Handling

end LoopbackOData
