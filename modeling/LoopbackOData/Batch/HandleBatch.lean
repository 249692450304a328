import LoopbackOData.Batch.Controller

/-!
# Handling a batch

A batch in either encoding, from its payload to the response. The framework checks a JSON payload
against the schema of the operation before the controller sees it.
-/

set_option autoImplicit false

namespace LoopbackOData

open Effect

inductive BatchPayload where
  | json (payload : Json.Value)
  | multipart (boundary : Option Text) (chunks : List Bytes)

def BatchPayload.isMultipart : BatchPayload → Bool
  | .json _ => false
  | .multipart _ _ => true

inductive BatchResult where
  | json (responses : List BatchResponseEntry)
  | multipart (boundary : Text) (body : Bytes)

/-! ## JSON payloads -/

def textField (fields : List (Text × Json.Value)) (name : String) : Option Text :=
  match bodyField fields name.toList with
  | some (.str s) => some s
  | _ => none

def textItems : List Json.Value → List Text
  | [] => []
  | .str s :: items => s :: textItems items
  | _ :: items => textItems items

def textFields (fields : List (Text × Json.Value)) : Headers :=
  fields.foldl (fun headers field =>
    match field.2 with
    | .str s => Headers.assign headers field.1 s
    | _ => headers) []

/-- A request that the schema allows: texts where it asks for texts. -/
def readJsonRequest (value : Json.Value) : BatchRequest :=
  match value with
  | .obj fields =>
    { id := textField fields "id"
      atomicityGroup := textField fields "atomicityGroup"
      method := (textField fields "method").getD []
      url := (textField fields "url").getD []
      headers := match bodyField fields "headers".toList with
        | some (.obj headers) => some (textFields headers)
        | _ => none
      body := bodyField fields "body".toList
      rawBody := none
      dependsOn := match bodyField fields "dependsOn".toList with
        | some (.arr items) => some (textItems items)
        | _ => none }
  | _ => ⟨none, none, [], [], none, none, none, none⟩

def readJsonRequests (payload : Json.Value) : List BatchRequest :=
  match payload with
  | .obj fields =>
    match bodyField fields "requests".toList with
    | some (.arr items) => items.map readJsonRequest
    | _ => []
  | _ => []

section Handling

variable {σ : Type} (server : BatchServer σ)

def emptyBatch {α : Type} : Except Thrown α :=
  .error (.badRequest "Batch payload must contain at least one request.".toList)

/-- The checks of the requests of a JSON batch. -/
def admitJson (payload : Json.Value) (requests : List BatchRequest) :
    Except Thrown (List BatchRequest) := do
  enforceOperationLimit server.limits requests.length
  enforceJsonPayloadSize server.limits payload
  let requests ← sanitizeBatchRequestIdentifiers requests
  validateJsonDependsOn requests
  enforceJsonPartBodySize server.limits requests
  enforceOperationLimit server.limits requests.length
  .ok requests

/-- The checks of the requests of a multipart batch that the parser has read. -/
def admitMultipart (requests : List BatchRequest) : Except Thrown (List BatchRequest) := do
  enforceOperationLimit server.limits requests.length
  sanitizeBatchRequestIdentifiers requests

/-- The requests of a payload: from JSON, or from the chunks of a stream. -/
def readPayload (payload : BatchPayload) : Except Thrown (List BatchRequest) :=
  match payload with
  | .json payload =>
    if readJsonRequests payload = [] then emptyBatch else .ok (readJsonRequests payload)
  | .multipart boundary chunks =>
    match boundary with
    | none =>
      .error (.badRequest "Multipart batch request must specify a boundary.".toList)
    | some boundary =>
      if boundary = [] then
        .error (.badRequest "Multipart batch request must specify a boundary.".toList)
      else
        match parseMultipartBatch ValidQueue server.limits.toMultipartParserLimits
          server.service.rt.toRuntime boundary chunks with
        | .error e => .error (.http e)
        | .ok requests =>
          if requests = [] then emptyBatch else .ok (requests.map (·.toBatchRequest))

def admitPayload (payload : BatchPayload) (requests : List BatchRequest) :
    Except Thrown (List BatchRequest) :=
  match payload with
  | .json payload => admitJson server payload requests
  | .multipart _ _ => admitMultipart server requests

/-- The responses to the requests that have been read from a payload. -/
def handleParsed (payload : BatchPayload) (requests : List BatchRequest) :
    BatchM σ (List BatchResponseEntry) := do
  let requests ← ofExcept (admitPayload server payload requests)
  handleRequests server requests

def serializeResponses (isMultipart : Bool) (random : Text) (randoms : List Text)
    (responses : List BatchResponseEntry) : BatchResult :=
  if isMultipart then
    .multipart (generateBoundary "batch".toList random)
      (serializeMultipartBatch server.service.rt random randoms responses)
  else .json (normalizeJsonBatchResponses server.service.rt.toRuntime responses)

/-- `declared` is the number that the `Content-Length` header says. -/
def handleBatch (declared : Option Rat) (payload : BatchPayload) (random : Text)
    (randoms : List Text) : BatchM σ BatchResult := do
  ofExcept (enforceDeclaredSizeLimit server.limits declared)
  ofExcept (enforceBatchDepthLimit server server.depth)
  let requests ← ofExcept (readPayload server payload)
  let responses ← handleParsed server payload requests
  pure (serializeResponses server payload.isMultipart random randoms responses)

/-- Before the first request is handled. -/
def initialState (payload : BatchPayload) (world : σ) : BatchState σ where
  world := world
  dependencyResults := .empty
  tracker := createResponseSizeTracker payload.isMultipart server.limits
  rolledBack := false
  executed := []
  committed := []

end Handling

end LoopbackOData
