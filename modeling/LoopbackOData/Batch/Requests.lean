import LoopbackOData.Batch.MultipartParser
import LoopbackOData.Library.Dictionary

/-!
# The requests of a batch

What both encodings of a batch are read to, and the checks that come before the first request is
executed.
-/

set_option autoImplicit false

namespace LoopbackOData

/-- A request without a group has none of its own; `rawBody` only comes from a multipart batch. -/
structure BatchRequest where
  id : Option Text
  atomicityGroup : Option Text
  method : Text
  url : Text
  headers : Option Headers
  body : Option Json.Value
  rawBody : Option Bytes
  dependsOn : Option (List Text)

def ParsedBatchRequest.toBatchRequest (request : ParsedBatchRequest) : BatchRequest where
  id := some request.id
  atomicityGroup := request.atomicityGroup
  method := request.method
  url := request.url
  headers := some request.headers
  body := request.body
  rawBody := request.rawBody
  dependsOn := none

/-- A body that is a text is the value of a text. -/
inductive ResponseBody where
  | undefined
  | value (v : Json.Value)
  | buffer (bytes : Bytes)

structure BatchResponseEntry where
  id : Option Text
  atomicityGroup : Option Text
  status : Nat
  headers : Option Headers
  body : ResponseBody

structure NormalizedBatchLimits extends MultipartParserLimits where
  maxResponseBodyBytes : Option Rat
  maxResponsePayloadBytes : Option Rat

/-- What the code throws: an `HttpError` of its own, or an error of what it calls, with the status
it may carry. -/
inductive Thrown where
  | http (error : BatchError)
  | other (status : Option Nat) (message : Text)

def Thrown.badRequest (message : Text) : Thrown := .http ⟨400, none, message⟩

def isBatchValidationError : Thrown → Bool
  | .http e => 400 ≤ e.statusCode && e.statusCode < 500
  | .other _ _ => false

def resolveErrorStatus (error : Thrown) (fallback : Nat) : Nat :=
  match error with
  | .http e => e.statusCode
  | .other status _ => status.getD fallback

def Thrown.message : Thrown → Text
  | .http e => e.message
  | .other _ message => message

def odataError (code message : Text) : ResponseBody :=
  .value (.obj [("error".toList, .obj [("code".toList, .str code), ("message".toList,
    .str message)])])

/-! ## Sizes and counts -/

/-- `Buffer.byteLength`. -/
def byteLength (s : Text) : Nat := (utf8Bytes s).length

def resolveRequestBodyBuffer (request : BatchRequest) : Bytes :=
  match request.rawBody with
  | some rawBody => rawBody
  | none =>
    match request.body with
    | none => []
    | some (.str s) => utf8Bytes s
    | some body => utf8Bytes (Json.print body)

section Limits

variable (limits : NormalizedBatchLimits)

/-- The limit on what the `Content-Length` header says. -/
def enforceDeclaredSizeLimit (declared : Option Rat) : Except Thrown Unit :=
  match limits.maxPayloadBytes, declared with
  | some max, some declared =>
    if max ≠ 0 ∧ max < declared then
      .error (.http ⟨413, some "BatchPayloadSizeLimitExceeded".toList,
        "Batch payload exceeds the configured size limit.".toList⟩)
    else .ok ()
  | _, _ => .ok ()

def enforceOperationLimit (count : Nat) : Except Thrown Unit :=
  if exceeds limits.maxOperations count then
    .error (.http ⟨400, some "BatchOperationLimitExceeded".toList,
      "Batch payload exceeds the configured operation limit.".toList⟩)
  else .ok ()

/-- Whether the payload, written again, is too long. -/
def jsonPayloadTooLarge (payload : Json.Value) : Except Thrown Unit :=
  match limits.maxPayloadBytes with
  | none => .ok ()
  | some max =>
    if max ≠ 0 ∧ max < byteLength (Json.print payload) then
      .error (.http ⟨413, some "BatchPayloadSizeLimitExceeded".toList,
        "Batch payload exceeds the configured size limit.".toList⟩)
    else .ok ()

/-- The error is thrown within the `try` whose `catch` only writes a warning. -/
def enforceJsonPayloadSize (payload : Json.Value) : Except Thrown Unit :=
  match jsonPayloadTooLarge limits payload with
  | .error _ => .ok ()
  | .ok () => .ok ()

def enforceJsonPartBodySize : List BatchRequest → Except Thrown Unit
  | [] => .ok ()
  | request :: requests =>
    if exceeds limits.maxPartBodyBytes (resolveRequestBodyBuffer request).length then
      .error (.http ⟨413, some "BatchPartSizeLimitExceeded".toList,
        "Batch part exceeds the configured size limit.".toList⟩)
    else enforceJsonPartBodySize requests

def enforceChangesetLimit : List (Text × List (BatchRequest × Nat)) → Except Thrown Unit
  | [] => .ok ()
  | (_, members) :: changeSets =>
    if exceeds limits.maxChangesetOperations members.length then
      .error (.http ⟨400, some "ChangesetOperationLimitExceeded".toList,
        "Changeset exceeds the configured operation limit for $batch requests.".toList⟩)
    else enforceChangesetLimit changeSets

end Limits

/-! ## Identifiers -/

/-- `/^[!#$%&'*+.^_|~0-9A-Za-z-]+$/`, and the backtick. -/
def isTokenChar (c : Char) : Bool :=
  c.isAlphanum || c ∈ "!#$%&'*+.^_|~-".toList || c.toNat = 96

def isBatchToken (s : Text) : Bool := s ≠ [] && s.all isTokenChar

def sanitizeBatchToken (value : Option Text) (field : String) : Except Thrown (Option Text) :=
  match value with
  | none => .ok none
  | some value =>
    let trimmed := trimText value
    if trimmed = [] then
      .error (.badRequest ("Batch " ++ field ++ " must be a non-empty token.").toList)
    else if ¬ isBatchToken trimmed then
      .error (.badRequest ("Batch " ++ field ++
        " contains invalid characters. Only RFC7230 tokens are allowed.").toList)
    else .ok (some trimmed)

/-- An entry of `dependsOn` is there, so it stays there. -/
def sanitizeDependencies : List Text → Except Thrown (List Text)
  | [] => .ok []
  | dep :: deps => do
    let token ← sanitizeBatchToken (some dep) "dependsOn entry"
    let tokens ← sanitizeDependencies deps
    .ok (token.getD [] :: tokens)

def sanitizeRequest (request : BatchRequest) : Except Thrown BatchRequest := do
  let id ← sanitizeBatchToken request.id "request id"
  let atomicityGroup ← sanitizeBatchToken request.atomicityGroup "atomicityGroup"
  match request.dependsOn with
  | none => .ok { request with id := id, atomicityGroup := atomicityGroup }
  | some deps => do
    let deps ← sanitizeDependencies deps
    .ok { request with id := id, atomicityGroup := atomicityGroup, dependsOn := some deps }

def sanitizeBatchRequestIdentifiers : List BatchRequest → Except Thrown (List BatchRequest)
  | [] => .ok []
  | request :: requests => do
    let request ← sanitizeRequest request
    let requests ← sanitizeBatchRequestIdentifiers requests
    .ok (request :: requests)

/-! ## Dependencies -/

/-- The positions of the ids, each of which stands once. -/
def idPositions : List (BatchRequest × Nat) → Dictionary Text Nat →
    Except Thrown (Dictionary Text Nat)
  | [], positions => .ok positions
  | (request, index) :: requests, positions =>
    match request.id with
    | none => idPositions requests positions
    | some id =>
      if positions.has id then
        .error (.badRequest ("Duplicate request id detected in batch payload: ".toList ++ id))
      else idPositions requests (positions.set id index)

def checkDependencies (positions : Dictionary Text Nat) (id : Text) (index : Nat) :
    List Text → Except Thrown Unit
  | [] => .ok ()
  | dependencyId :: deps =>
    match positions.get dependencyId with
    | none =>
      .error (.badRequest ("dependsOn references unknown request id: ".toList ++ dependencyId ++
        ".".toList))
    | some dependencyIndex =>
      if index ≤ dependencyIndex then
        .error (.badRequest ("Request ".toList ++ id ++ " depends on ".toList ++ dependencyId ++
          ", which appears later in the payload.".toList))
      else checkDependencies positions id index deps

def checkRequestDependencies (positions : Dictionary Text Nat) :
    List (BatchRequest × Nat) → Except Thrown Unit
  | [] => .ok ()
  | (request, index) :: requests =>
    match request.dependsOn.getD [] with
    | [] => checkRequestDependencies positions requests
    | deps =>
      match request.id with
      | none =>
        .error (.badRequest "Requests that declare dependsOn must also specify an id.".toList)
      | some id => do
        checkDependencies positions id index deps
        checkRequestDependencies positions requests

def validateJsonDependsOn (requests : List BatchRequest) : Except Thrown Unit := do
  let positions ← idPositions requests.zipIdx .empty
  checkRequestDependencies positions requests.zipIdx

/-! ## Groups -/

/-- The group of a request after `trim`, when it says one. -/
def groupOf (request : BatchRequest) : Option Text :=
  match request.atomicityGroup with
  | none => none
  | some group => if trimText group = [] then none else some (trimText group)

def contiguousFrom (seen : List Text) (activeGroup : Option Text) :
    List BatchRequest → Except Thrown Unit
  | [] => .ok ()
  | request :: requests =>
    match groupOf request with
    | none => contiguousFrom seen none requests
    | some groupId =>
      if groupId ∉ seen then contiguousFrom (groupId :: seen) (some groupId) requests
      else if activeGroup ≠ some groupId then
        .error (.badRequest ("Atomicity group ".toList ++ groupId ++
          " must be contiguous within the batch payload.".toList))
      else contiguousFrom seen (some groupId) requests

def validateContiguousAtomicityGroups (requests : List BatchRequest) : Except Thrown Unit :=
  contiguousFrom [] none requests

def collectFrom (groups : Dictionary Text (List (BatchRequest × Nat))) :
    List (BatchRequest × Nat) → Dictionary Text (List (BatchRequest × Nat))
  | [] => groups
  | request :: requests =>
    match groupOf request.1 with
    | none => collectFrom groups requests
    | some groupId =>
      collectFrom (groups.set groupId ((groups.get groupId).getD [] ++ [request])) requests

def collectAtomicityGroups (requests : List BatchRequest) :
    Dictionary Text (List (BatchRequest × Nat)) :=
  collectFrom .empty requests.zipIdx

end LoopbackOData
