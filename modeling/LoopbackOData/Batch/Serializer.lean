import LoopbackOData.Batch.Requests
import LoopbackOData.Library.Base64

/-!
# The response of a batch

The two serializations of a list of response entries. The text of a status is that of the runtime's
table, and the boundaries end in random texts, which are parameters.
-/

set_option autoImplicit false

namespace LoopbackOData

/-- What a serialization takes from the runtime. -/
structure ResponseRuntime extends Runtime where
  statusText : Nat → Text

/-! ## Headers -/

/-- A text that is missing or empty is falsy. -/
def hasText (value : Option Text) : Bool := value.getD [] ≠ []

/-- `value[name]`, whatever the case of the name: the first that is there. -/
def getHeaderCaseInsensitive (rt : Runtime) (headers : Option Headers) (name : String) :
    Option Text :=
  ((headers.getD []).find? fun header => rt.toLowerCase header.1 = name.toList).map (·.2)

def normaliseHeaders (rt : Runtime) (headers : Headers) : Headers :=
  headers.foldl (fun normalized header => normalized.assign (rt.toLowerCase header.1) header.2) []

/-- `name.split('-')`. -/
def splitDashes : Text → List Text
  | [] => [[]]
  | '-' :: rest => [] :: splitDashes rest
  | c :: rest =>
    match splitDashes rest with
    | part :: parts => (c :: part) :: parts
    | [] => [[c]]

def joinTexts (separator : Text) : List Text → Text
  | [] => []
  | [part] => part
  | part :: parts => part ++ separator ++ joinTexts separator parts

def capitalize (rt : Runtime) (part : Text) : Text :=
  rt.toUpperCase (part.take 1) ++ rt.toLowerCase (part.drop 1)

def formatHeaderName (rt : Runtime) (name : Text) : Text :=
  joinTexts ['-'] ((splitDashes name).map (capitalize rt))

def crlf : Text := "\r\n".toList

/-! ## Multipart -/

def buildPartHeaders (entry : BatchResponseEntry) : Text :=
  let lines := ["Content-Type: application/http".toList, "Content-Transfer-Encoding: binary".toList]
  joinTexts crlf (if hasText entry.id then ("Content-ID: ".toList ++ entry.id.getD []) :: lines
    else lines)

/-- The bytes of a body, and the headers with the content type that a value gets. -/
def serializeEntryBody (body : ResponseBody) (headers : Headers) : Option Bytes × Headers :=
  match body with
  | .undefined => (none, headers)
  | .value .null => (none, headers)
  | .buffer bytes => (some bytes, headers)
  | .value (.str s) => (some (utf8Bytes s), headers)
  | .value v =>
    (some (utf8Bytes (Json.print v)),
      if hasText (headers.get "content-type") then headers
      else headers.assign "content-type".toList "application/json; charset=utf-8".toList)

def headerLine (rt : Runtime) (header : Text × Text) : Text :=
  formatHeaderName rt header.1 ++ ": ".toList ++ header.2

def renderHttpResponse (rt : ResponseRuntime) (entry : BatchResponseEntry) : Bytes :=
  let (body, headers) := serializeEntryBody entry.body
    (normaliseHeaders rt.toRuntime (entry.headers.getD []))
  let bodyBuffer := body.getD []
  let headers := if bodyBuffer ≠ [] ∧ ¬ hasText (headers.get "content-length") then
    headers.assign "content-length".toList (Json.digits bodyBuffer.length) else headers
  let headerLines := headers.map (headerLine rt.toRuntime)
  let responseHead := "HTTP/1.1 ".toList ++ Json.digits entry.status ++ [' '] ++
    rt.statusText entry.status ++
    (if headerLines = [] then [] else crlf ++ joinTexts crlf headerLines) ++ crlf ++ crlf
  utf8Bytes responseHead ++ bodyBuffer

inductive ResponseGroup where
  | single (entry : BatchResponseEntry)
  | changeset (id : Text) (entries : List BatchResponseEntry)

def ResponseGroup.entries : ResponseGroup → List BatchResponseEntry
  | .single entry => [entry]
  | .changeset _ entries => entries

/-- An entry joins the last group when that is the changeset it belongs to. -/
def addToGroups (groups : List ResponseGroup) (entry : BatchResponseEntry) : List ResponseGroup :=
  if hasText entry.atomicityGroup then
    let group := entry.atomicityGroup.getD []
    match groups.getLast? with
    | some (.changeset id members) =>
      if id = group then groups.dropLast ++ [.changeset id (members ++ [entry])]
      else groups ++ [.changeset group [entry]]
    | _ => groups ++ [.changeset group [entry]]
  else groups ++ [.single entry]

def groupResponses (entries : List BatchResponseEntry) : List ResponseGroup :=
  entries.foldl addToGroups []

/-- A part and the line break after it. -/
def renderPart (rt : ResponseRuntime) (boundary : Text) (entry : BatchResponseEntry) : Bytes :=
  utf8Bytes ("--".toList ++ boundary ++ crlf ++ buildPartHeaders entry ++ crlf ++ crlf) ++
    renderHttpResponse rt entry ++ utf8Bytes crlf

def closingLine (boundary : Text) : Text := "--".toList ++ boundary ++ "--\r\n".toList

def generateBoundary (label random : Text) : Text := label ++ ['_'] ++ random

def renderChangesetPart (rt : ResponseRuntime) (boundary changesetBoundary : Text)
    (entries : List BatchResponseEntry) : Bytes :=
  utf8Bytes ("--".toList ++ boundary ++ "\r\nContent-Type: multipart/mixed; boundary=".toList ++
      changesetBoundary ++ crlf ++ crlf) ++
    entries.flatMap (renderPart rt changesetBoundary) ++ utf8Bytes (closingLine changesetBoundary)

/-- The random texts are drawn one after the other. -/
def renderGroups (rt : ResponseRuntime) (boundary : Text) :
    List ResponseGroup → List Text → Bytes
  | [], _ => []
  | .single entry :: groups, randoms => renderPart rt boundary entry ++ renderGroups rt boundary groups randoms
  | .changeset id entries :: groups, randoms =>
    renderChangesetPart rt boundary (generateBoundary id (randoms.headD [])) entries ++
      renderGroups rt boundary groups randoms.tail

def serializeMultipartBatch (rt : ResponseRuntime) (random : Text) (randoms : List Text)
    (responses : List BatchResponseEntry) : Bytes :=
  let boundary := generateBoundary "batch".toList random
  renderGroups rt boundary (groupResponses responses) randoms ++ utf8Bytes (closingLine boundary)

/-! ## JSON -/

/-- Headers that say nothing about a body in base64. -/
def disallowedHeaders : List Text :=
  ["content-length", "content-transfer-encoding", "content-encoding", "transfer-encoding", "te",
    "trailer", "connection", "keep-alive", "upgrade", "proxy-connection"].map String.toList

def sanitizeHeadersForJsonBatchBody (rt : Runtime) (headers : Headers) : Headers :=
  headers.filter fun header => rt.toLowerCase header.1 ∉ disallowedHeaders

/-- `bytes.toString('base64')`: the other alphabet, and padding. -/
def base64Text (bytes : Bytes) : Text :=
  (Base64.encode bytes).map (fun c => if c = '-' then '+' else if c = '_' then '/' else c) ++
    List.replicate ((3 - bytes.length % 3) % 3) '='

/-- A body of bytes becomes a text in base64. -/
def normalizeJsonBatchResponse (rt : Runtime) (entry : BatchResponseEntry) : BatchResponseEntry :=
  match entry.body with
  | .buffer bytes =>
    let headers := sanitizeHeadersForJsonBatchBody rt (entry.headers.getD [])
    let contentType := (getHeaderCaseInsensitive rt (some headers) "content-type").getD
      "application/octet-stream".toList
    let headers := headers.filter fun header => rt.toLowerCase header.1 ≠ "content-type".toList
    let headers := Headers.assign headers "Content-Type".toList contentType
    let headers := headers.assign "Content-Transfer-Encoding".toList "base64".toList
    { entry with headers := some headers, body := .value (.str (base64Text bytes)) }
  | _ => entry

def normalizeJsonBatchResponses (rt : Runtime) (responses : List BatchResponseEntry) :
    List BatchResponseEntry :=
  responses.map (normalizeJsonBatchResponse rt)

/-- An entry as an object. What is undefined has no field; the order of the fields has no bearing
on the length of the text. -/
def entryJson (entry : BatchResponseEntry) : Json.Value :=
  .obj ((match entry.id with
      | some id => [("id".toList, .str id)]
      | none => []) ++
    [("status".toList, .num (Json.Number.ofInt entry.status))] ++
    (match entry.headers with
      | some headers => [("headers".toList, .obj (headers.map fun header => (header.1, .str header.2)))]
      | none => []) ++
    (match entry.body with
      | .value v => [("body".toList, v)]
      | _ => []) ++
    match entry.atomicityGroup with
      | some group => [("atomicityGroup".toList, .str group)]
      | none => [])

def serializeJsonBatch (rt : Runtime) (responses : List BatchResponseEntry) : Bytes :=
  utf8Bytes (Json.print (.obj [("responses".toList,
    .arr ((normalizeJsonBatchResponses rt responses).map entryJson))]))

/-! ## Response size tracking -/

structure ResponseSizeTracker where
  limit : Option Rat
  isMultipart : Bool
  bufferedBytes : Nat
  serializedBytes : Nat
  responsesCount : Nat
  activeChangesetId : Option Text

def estimatedBatchBoundary : Text := "batch_boundary".toList

def estimatedChangesetBoundary : Text := "changeset_boundary".toList

/-- `text.replace(/\\r\\n/g, '\r\n')`: the four characters of an escaped line break. -/
def replaceEscapedLineBreaks : Text → Text
  | '\\' :: 'r' :: '\\' :: 'n' :: rest => '\r' :: '\n' :: replaceEscapedLineBreaks rest
  | c :: rest => c :: replaceEscapedLineBreaks rest
  | [] => []

def createResponseSizeTracker (isMultipart : Bool) (limits : NormalizedBatchLimits) :
    ResponseSizeTracker :=
  ⟨limits.maxResponsePayloadBytes, isMultipart, 0, 0, 0, none⟩

def estimateBufferedResponseBytes (entry : BatchResponseEntry) : Nat :=
  match entry.body with
  | .undefined => 0
  | .value .null => 0
  | .buffer bytes => bytes.length
  | .value (.str s) => byteLength s
  | .value v => byteLength (Json.print v)

def estimateJsonResponseBytes (rt : Runtime) (entry : BatchResponseEntry) : Nat :=
  byteLength (Json.print (entryJson (normalizeJsonBatchResponse rt entry)))

/-- The length of the body, and the headers with the content type that a value gets. -/
def estimateSerializedBodyLength (body : ResponseBody) (headers : Headers) : Nat × Headers :=
  match body with
  | .undefined => (0, headers)
  | .value .null => (0, headers)
  | .buffer bytes => (bytes.length, headers)
  | .value (.str s) => (byteLength s, headers)
  | .value v =>
    (byteLength (Json.print v),
      if hasText (headers.get "content-type") then headers
      else headers.assign "content-type".toList "application/json; charset=utf-8".toList)

def estimateHttpResponseLength (rt : ResponseRuntime) (entry : BatchResponseEntry) : Nat :=
  let (bodyLength, headers) := estimateSerializedBodyLength entry.body
    (normaliseHeaders rt.toRuntime (entry.headers.getD []))
  let headers := if 0 < bodyLength ∧ ¬ hasText (headers.get "content-length") then
    headers.assign "content-length".toList (Json.digits bodyLength) else headers
  let headerLines := headers.map (headerLine rt.toRuntime)
  let responseHead := "HTTP/1.1 ".toList ++ Json.digits entry.status ++ [' '] ++
    rt.statusText entry.status ++
    (if headerLines = [] then [] else crlf ++ joinTexts crlf headerLines) ++ crlf ++ crlf
  byteLength responseHead + bodyLength

/-- An entry in a part with a boundary of the estimate. -/
def estimateEntryBytes (rt : ResponseRuntime) (boundary : Text) (entry : BatchResponseEntry) : Nat :=
  byteLength (replaceEscapedLineBreaks
      ("--".toList ++ boundary ++ crlf ++ buildPartHeaders entry ++ crlf ++ crlf)) +
    estimateHttpResponseLength rt entry + byteLength crlf

def estimateMultipartSingleEntryBytes (rt : ResponseRuntime) (entry : BatchResponseEntry) : Nat :=
  estimateEntryBytes rt estimatedBatchBoundary entry

def estimateChangesetEntryBytes (rt : ResponseRuntime) (entry : BatchResponseEntry) : Nat :=
  estimateEntryBytes rt estimatedChangesetBoundary entry

def estimateChangesetStartBytes : Nat :=
  byteLength (replaceEscapedLineBreaks ("--".toList ++ estimatedBatchBoundary ++
    "\r\nContent-Type: multipart/mixed; boundary=".toList ++ estimatedChangesetBoundary ++ crlf ++
    crlf))

def estimateChangesetClosingBytes : Nat :=
  byteLength (replaceEscapedLineBreaks (closingLine estimatedChangesetBoundary))

def estimateBatchClosingBytes : Nat :=
  byteLength (replaceEscapedLineBreaks (closingLine estimatedBatchBoundary))

def estimateJsonEnvelopeBytes (count : Nat) : Nat :=
  byteLength "\x7b\"responses\":".toList + byteLength "\x7d".toList +
    if count = 0 then byteLength "[]".toList
    else byteLength "[".toList + byteLength "]".toList + (count - 1)

/-- Whether there is a limit: `!limit || limit <= 0` says that there is none. -/
def ResponseSizeTracker.limited (tracker : ResponseSizeTracker) : Bool :=
  match tracker.limit with
  | none => false
  | some limit => 0 < limit

/-- What a change of the changeset costs, and the changeset of the entry. -/
def prepareMultipartTrackerState (active : Option Text) (entry : BatchResponseEntry) :
    Nat × Option Text :=
  if hasText entry.atomicityGroup then
    let closing := if hasText active ∧ active ≠ entry.atomicityGroup then
      estimateChangesetClosingBytes else 0
    if active ≠ entry.atomicityGroup then
      (closing + estimateChangesetStartBytes, entry.atomicityGroup)
    else (closing, active)
  else if hasText active then (estimateChangesetClosingBytes, none)
  else (0, active)

def enforceResponsePayloadLimit (tracker : ResponseSizeTracker) :
    Except Thrown ResponseSizeTracker :=
  if tracker.limited && exceeds tracker.limit (tracker.bufferedBytes + tracker.serializedBytes) then
    .error (.http ⟨413, none, "Batch responses exceeded the configured size limit.".toList⟩)
  else .ok tracker

def trackResponseSize (rt : ResponseRuntime) (tracker : ResponseSizeTracker)
    (entry : BatchResponseEntry) : Except Thrown ResponseSizeTracker :=
  let tracker := { tracker with responsesCount := tracker.responsesCount + 1 }
  if ¬ tracker.limited then
    if ¬ tracker.isMultipart then .ok tracker
    else if ¬ hasText entry.atomicityGroup ∧ hasText tracker.activeChangesetId then
      .ok { tracker with activeChangesetId := none }
    else if hasText entry.atomicityGroup then
      .ok { tracker with activeChangesetId := entry.atomicityGroup }
    else .ok tracker
  else
    let (increment, active) := if tracker.isMultipart then
        let (addition, active) := prepareMultipartTrackerState tracker.activeChangesetId entry
        (addition + (if hasText entry.atomicityGroup then estimateChangesetEntryBytes rt entry
          else estimateMultipartSingleEntryBytes rt entry), active)
      else (estimateJsonResponseBytes rt.toRuntime entry, tracker.activeChangesetId)
    enforceResponsePayloadLimit { tracker with
      bufferedBytes := tracker.bufferedBytes + estimateBufferedResponseBytes entry
      serializedBytes := tracker.serializedBytes + increment
      activeChangesetId := active }

def finalizeResponseSizeTracker (tracker : ResponseSizeTracker) :
    Except Thrown ResponseSizeTracker :=
  if ¬ tracker.limited then .ok tracker
  else if tracker.isMultipart then
    let closing := if hasText tracker.activeChangesetId then estimateChangesetClosingBytes else 0
    enforceResponsePayloadLimit { tracker with
      serializedBytes := tracker.serializedBytes + closing + estimateBatchClosingBytes
      activeChangesetId := if hasText tracker.activeChangesetId then none
        else tracker.activeChangesetId }
  else
    enforceResponsePayloadLimit { tracker with
      serializedBytes := tracker.serializedBytes + estimateJsonEnvelopeBytes tracker.responsesCount }

end LoopbackOData
