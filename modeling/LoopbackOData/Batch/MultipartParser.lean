import LoopbackOData.Batch.BufferQueue
import LoopbackOData.Filter.Literals
import LoopbackOData.Library.Json
import LoopbackOData.Library.Outcome
import LoopbackOData.Library.Utf8
import LoopbackOData.Request

/-!
# The multipart parser of batch requests

`parseMultipartBatch` over the chunks in which a payload arrives. The parser keeps what has arrived
in a queue and takes a step whenever the queue holds enough: the first boundary, the headers of a
part, the body of a part. It is written over any queue of bytes; the one it runs on is the buffer
queue.
-/

set_option autoImplicit false

namespace LoopbackOData

structure BatchError where
  statusCode : Nat
  code : Option Text
  message : Text
  deriving DecidableEq

def batchBadRequest {α : Type} (message : String) : Except BatchError α :=
  .error ⟨400, none, message.toList⟩

/-- What a queue throws when it is asked for more than it has. -/
def rangeError : BatchError := ⟨500, none, "RangeError".toList⟩

abbrev Headers := List (Text × Text)

/-- `headers[name] = value`. -/
def Headers.assign (headers : Headers) (name value : Text) : Headers :=
  if name = "__proto__".toList then headers
  else if headers.any (·.1 = name) then
    headers.map fun header => if header.1 = name then (name, value) else header
  else headers ++ [(name, value)]

def Headers.get (headers : Headers) (name : String) : Option Text := headers.lookup name.toList

structure ParsedBatchRequest where
  id : Text
  method : Text
  url : Text
  headers : Headers
  body : Option Json.Value
  rawBody : Option Bytes
  atomicityGroup : Option Text

/-! ## Limits -/

/-- A limit that is absent, not a number or infinite is `none`. -/
structure MultipartParserLimits where
  maxPayloadBytes : Option Rat
  maxOperations : Option Rat
  maxChangesetOperations : Option Rat
  maxDepth : Option Rat
  maxPartBodyBytes : Option Rat

/-- `max && max > 0 && n > max`. -/
def exceeds (max : Option Rat) (n : Nat) : Bool :=
  match max with
  | none => false
  | some max => 0 < max && max < n

structure ParserContext where
  autoId : Nat
  totalOperations : Nat

def ParserContext.nextAutoId (context : ParserContext) : Nat × ParserContext :=
  (context.autoId + 1, { context with autoId := context.autoId + 1 })

section Limits

variable (limits : MultipartParserLimits)

def checkTotalBytes (totalBytes : Nat) : Except BatchError Unit :=
  if exceeds limits.maxPayloadBytes totalBytes then
    .error ⟨413, some "BatchPayloadSizeLimitExceeded".toList,
      "Batch payload exceeds the configured size limit.".toList⟩
  else .ok ()

def recordOperation (context : ParserContext) (changesetId : Option Text)
    (positionInChangeset : Option Nat) : Except BatchError ParserContext :=
  let context := { context with totalOperations := context.totalOperations + 1 }
  if exceeds limits.maxOperations context.totalOperations then
    .error ⟨400, some "BatchOperationLimitExceeded".toList,
      "Batch payload exceeds the configured operation limit.".toList⟩
  else if changesetId.getD [] ≠ [] ∧
      exceeds limits.maxChangesetOperations (positionInChangeset.getD 0) then
    .error ⟨400, some "ChangesetOperationLimitExceeded".toList,
      "Changeset exceeds the configured operation limit.".toList⟩
  else .ok context

def ensureDepth (nextDepth : Nat) : Except BatchError Unit :=
  match limits.maxDepth with
  | none => .ok ()
  | some maxDepth =>
    if 0 < maxDepth ∧ maxDepth ≤ nextDepth then
      .error ⟨400, some "BatchDepthLimitExceeded".toList,
        "Changeset nesting depth exceeds the configured limit.".toList⟩
    else .ok ()

def ensurePartSize (size : Nat) : Except BatchError Unit :=
  if exceeds limits.maxPartBodyBytes size then
    .error ⟨413, some "BatchPartSizeLimitExceeded".toList,
      "Batch part exceeds the configured size limit.".toList⟩
  else .ok ()

end Limits

/-! ## Texts of a part -/

/-- `Buffer.toString('utf-8')`. -/
def decodeText (bytes : Bytes) : Text := Utf8.decode bytes

/-- `raw.split(/\r?\n/)`. -/
def splitLines : Text → List Text
  | [] => [[]]
  | '\r' :: '\n' :: rest => [] :: splitLines rest
  | '\n' :: rest => [] :: splitLines rest
  | c :: rest =>
    match splitLines rest with
    | line :: lines => (c :: line) :: lines
    | [] => [[c]]

def parseHeaderLine (rt : Runtime) (headers : Headers) (line : Text) : Headers :=
  if line = [] then headers
  else if ':' ∉ line then headers
  else
    headers.assign (rt.toLowerCase (trimText (line.takeWhile (· ≠ ':'))))
      (trimText ((line.dropWhile (· ≠ ':')).drop 1))

def parseHeaders (rt : Runtime) (raw : Text) : Headers :=
  (splitLines raw).foldl (parseHeaderLine rt) []

/-- `.replace(/^"|"$/g, '')`. -/
def stripQuotes (s : Text) : Text :=
  let s := if s.head? = some '"' then s.drop 1 else s
  if s.getLast? = some '"' then s.dropLast else s

/-- `/boundary=([^;]+)/i`. -/
def extractBoundary : Text → Option Text
  | [] => none
  | c :: contentType =>
    let value := ((c :: contentType).drop "boundary=".length).takeWhile (· ≠ ';')
    if asciiLower ((c :: contentType).take "boundary=".length) = "boundary=".toList ∧ value ≠ [] then
      some (stripQuotes (trimText value))
    else extractBoundary contentType

/-- `/application\/json/i.test(contentType)`. -/
def mentionsJson (contentType : Text) : Bool :=
  (Occurrence.first "application/json".toList (asciiLower contentType)).isSome

/-- `/^text\//i.test(contentType)`. -/
def isTextType (contentType : Text) : Bool := startsWith (asciiLower contentType) "text/".toList

/-! ## The request in a part -/

def stripLeadingEmptyLine : Bytes → Bytes
  | 13 :: 10 :: rest => rest
  | 10 :: rest => rest
  | bytes => bytes

/-- The index of the first line break and its length. -/
def findLineBreak : Bytes → Option (Nat × Nat)
  | [] => none
  | 13 :: 10 :: _ => some (0, 2)
  | 10 :: _ => some (0, 1)
  | _ :: rest => (findLineBreak rest).map fun found => (found.1 + 1, found.2)

def crlfCrlf : Bytes := [13, 10, 13, 10]

def lfLf : Bytes := [10, 10]

def findHeaderSeparator (buffer : Bytes) : Option (Nat × Nat) :=
  match Occurrence.first crlfCrlf buffer with
  | some index => some (index, 4)
  | none => (Occurrence.first lfLf buffer).map fun index => (index, 2)

structure HttpPayload where
  method : Text
  url : Text
  headers : Headers
  body : Option Json.Value
  rawBody : Option Bytes

/-- What a body is parsed to, and what of it is kept as it came. -/
def parsePayloadBody (contentType : Option Text) (rawBody : Bytes) :
    Except BatchError (Option Json.Value × Option Bytes) :=
  if rawBody = [] then .ok (none, none)
  else
    match contentType with
    | none => .ok (none, some rawBody)
    | some contentType =>
      if mentionsJson contentType then
        match Json.parse (decodeText rawBody) with
        | some value => .ok (some value, none)
        | none => batchBadRequest "Invalid JSON payload inside batch part."
      else if isTextType contentType then .ok (some (.str (decodeText rawBody)), some rawBody)
      else .ok (none, some rawBody)

def parseHttpPayload (rt : Runtime) (body : Bytes) : Except BatchError HttpPayload :=
  let sanitized := stripLeadingEmptyLine body
  match findLineBreak sanitized with
  | none => batchBadRequest "Malformed batch part: missing request line."
  | some (index, length) =>
    let requestLine := trimText (decodeText (sanitized.take index))
    let rest := sanitized.drop (index + length)
    let method := requestLine.takeWhile (!isSpace ·)
    let url := ((requestLine.dropWhile (!isSpace ·)).dropWhile isSpace).takeWhile (!isSpace ·)
    if method = [] ∨ url = [] then
      batchBadRequest "Malformed batch part: invalid request line."
    else
      let headerInfo := findHeaderSeparator rest
      let headers := parseHeaders rt (decodeText (match headerInfo with
        | some (index, _) => rest.take index
        | none => rest))
      let bodyStart := match headerInfo with
        | some (index, length) => index + length
        | none => rest.length
      match parsePayloadBody (headers.get "content-type") (rest.drop bodyStart) with
      | .error e => .error e
      | .ok (parsedBody, rawBody) =>
        .ok ⟨rt.toUpperCase method, url, headers, parsedBody, rawBody⟩

def autoIdText (n : Nat) : Text := "auto-".toList ++ Json.digits n

/-- The part's own id, or the next one that the parser makes up. -/
def parseHttpPart (rt : Runtime) (body : Bytes) (headers : Headers) (context : ParserContext)
    (atomicityGroup : Option Text) : Except BatchError (ParsedBatchRequest × ParserContext) :=
  let id := match headers.get "content-id" with
    | some id => (id, context)
    | none => (autoIdText context.nextAutoId.1, context.nextAutoId.2)
  match parseHttpPayload rt body with
  | .error e => .error e
  | .ok payload =>
    .ok (⟨id.1, payload.method, payload.url, payload.headers, payload.body, payload.rawBody,
      atomicityGroup⟩, id.2)

/-! ## The parser -/

/-- What handling a part changes. -/
structure PartsState where
  requests : List ParsedBatchRequest
  changesetOperationIndex : Nat
  context : ParserContext

abbrev PartHandler := Bytes → Option Headers → PartsState → Except BatchError PartsState

inductive ParserState where
  | headers
  | body
  deriving DecidableEq

structure StreamingBatchParser (Q : Type) where
  buffer : Q
  firstBoundarySeen : Bool
  state : ParserState
  currentHeaders : Option Headers
  currentPartBytes : Nat
  ended : Bool
  parts : PartsState

/-- A turn of the loop returns, or goes on with what is left. -/
inductive Turn (σ : Type) where
  | stop (s : σ)
  | again (s : σ)

def boundaryPrefix (boundary : Text) : Bytes := utf8Bytes ("--".toList ++ boundary)

def boundaryMarker (boundary : Text) : Bytes := utf8Bytes ("\r\n--".toList ++ boundary)

def closingMarker (boundary : Text) : Bytes := utf8Bytes ("\r\n--".toList ++ boundary ++ "--".toList)

def boundaryHeadroom (boundary : Text) : Nat :=
  max (boundaryMarker boundary).length (closingMarker boundary).length + 4

section Streaming

open ByteQueue

variable {Q : Type} [ByteQueue Q]

/-- `buffer.length >= 2 && buffer.byteAt(0) === a && buffer.byteAt(1) === b`. -/
def nextTwo (q : Q) (a b : UInt8) : Bool × Q :=
  if length q < 2 then (false, q)
  else
    let first := byteAt q 0
    if first.1 = some a then
      let second := byteAt first.2 1
      (second.1 == some b, second.2)
    else (false, first.2)

def consumeBytes (q : Q) (n : Nat) : Except BatchError Q :=
  match consume q n with
  | some q => .ok q
  | none => .error rangeError

def sliceBytes (q : Q) (start stop : Nat) : Except BatchError Bytes :=
  match slice q start stop with
  | some bytes => .ok bytes
  | none => .error rangeError

/-- Takes a line break off if it has arrived. -/
def skipLineBreak (q : Q) : Except BatchError Q :=
  let lineBreak := nextTwo q 13 10
  if lineBreak.1 then consumeBytes lineBreak.2 2 else .ok lineBreak.2

def findHeaderSeparatorInQueue (q : Q) : Option (Nat × Nat) × Q :=
  let crlf := ByteQueue.indexOf q crlfCrlf
  let lf := ByteQueue.indexOf crlf.2 lfLf
  match crlf.1, lf.1 with
  | none, none => (none, lf.2)
  | none, some lfIdx => (some (lfIdx, 2), lf.2)
  | some crlfIdx, none => (some (crlfIdx, 4), lf.2)
  | some crlfIdx, some lfIdx =>
    (if crlfIdx ≤ lfIdx then some (crlfIdx, 4) else some (lfIdx, 2), lf.2)

variable (boundary : Text)

/-- The end of `consumeAnchoredFirstBoundary`, when no boundary is there. -/
def rejectFirstBoundary (finalPass : Bool) (q : Q) : Except BatchError (Option Nat × Q) :=
  if length q = 0 then
    if !finalPass then .ok (none, q)
    else batchBadRequest "Malformed batch payload: boundary not found."
  else
    let first := byteAt q 0
    if length q < (boundaryPrefix boundary).length ∧
        (first.1 = some 45 ∨ first.1 = some 13) ∧ !finalPass then
      .ok (none, first.2)
    else batchBadRequest "Malformed batch payload: boundary must appear at start of payload."

/-- The number of consumed bytes, `none` while more have to arrive. -/
def consumeAnchoredFirstBoundary (finalPass : Bool) (q : Q) : Except BatchError (Option Nat × Q) :=
  let opening := boundaryPrefix boundary
  let anchored := ByteQueue.startsWith q opening 0
  if anchored.1 then do
    let q ← consumeBytes anchored.2 opening.length
    .ok (some opening.length, q)
  else if length q < 2 then
    if !finalPass then .ok (none, anchored.2) else rejectFirstBoundary boundary finalPass anchored.2
  else
    let lineBreak := nextTwo anchored.2 13 10
    if lineBreak.1 then
      if length q < 2 + opening.length then
        if !finalPass then .ok (none, lineBreak.2)
        else rejectFirstBoundary boundary finalPass lineBreak.2
      else
        let broken := ByteQueue.startsWith lineBreak.2 opening 2
        if broken.1 then do
          let q ← consumeBytes broken.2 (2 + opening.length)
          .ok (some (2 + opening.length), q)
        else rejectFirstBoundary boundary finalPass broken.2
    else rejectFirstBoundary boundary finalPass lineBreak.2

/-- The index of the next boundary and whether it closes the payload. -/
def findNextBoundary (q : Q) : Option (Nat × Bool) × Q :=
  let closing := ByteQueue.indexOf q (closingMarker boundary)
  let marker := ByteQueue.indexOf closing.2 (boundaryMarker boundary)
  match closing.1, marker.1 with
  | none, none => (none, marker.2)
  | some closingIndex, none => (some (closingIndex, true), marker.2)
  | none, some markerIndex => (some (markerIndex, false), marker.2)
  | some closingIndex, some markerIndex =>
    (if closingIndex ≤ markerIndex then some (closingIndex, true) else some (markerIndex, false),
      marker.2)

variable (limits : MultipartParserLimits)

def enforceStreamingPartLimit (s : StreamingBatchParser Q) :
    Except BatchError (StreamingBatchParser Q) :=
  match limits.maxPartBodyBytes with
  | none => .ok s
  | some max =>
    if max ≤ 0 then .ok s
    else
      let safeLength := length s.buffer - boundaryHeadroom boundary
      if safeLength ≤ s.currentPartBytes then .ok s
      else do
        ensurePartSize limits safeLength
        .ok { s with currentPartBytes := safeLength }

variable (handle : PartHandler)

def readFirstBoundary (finalPass : Bool) (s : StreamingBatchParser Q) :
    Except BatchError (Turn (StreamingBatchParser Q)) := do
  let (consumed, q) ← consumeAnchoredFirstBoundary boundary finalPass s.buffer
  match consumed with
  | none => .ok (.stop { s with buffer := q })
  | some _ =>
    let closing := nextTwo q 45 45
    if closing.1 then do
      let q ← consumeBytes closing.2 2
      .ok (.stop { s with buffer := q, firstBoundarySeen := true, ended := true })
    else do
      let q ← skipLineBreak closing.2
      .ok (.again { s with buffer := q, firstBoundarySeen := true, state := .headers })

def readHeaders (rt : Runtime) (finalPass : Bool) (s : StreamingBatchParser Q) :
    Except BatchError (Turn (StreamingBatchParser Q)) :=
  let headerInfo := findHeaderSeparatorInQueue s.buffer
  match headerInfo.1 with
  | none =>
    if finalPass then batchBadRequest "Malformed multipart part: missing header separator."
    else .ok (.stop { s with buffer := headerInfo.2 })
  | some (index, length) => do
    let headerBuffer ← sliceBytes headerInfo.2 0 index
    let q ← consumeBytes headerInfo.2 (index + length)
    .ok (.again { s with
      buffer := q
      currentHeaders := some (parseHeaders rt (decodeText headerBuffer))
      state := .body
      currentPartBytes := 0 })

def readBody (finalPass : Bool) (s : StreamingBatchParser Q) :
    Except BatchError (Turn (StreamingBatchParser Q)) :=
  let boundaryInfo := findNextBoundary boundary s.buffer
  match boundaryInfo.1 with
  | none => do
    let s ← enforceStreamingPartLimit boundary limits { s with buffer := boundaryInfo.2 }
    if finalPass then batchBadRequest "Malformed multipart part: unterminated body."
    else .ok (.stop s)
  | some (index, closing) => do
    let bodyBuffer ← sliceBytes boundaryInfo.2 0 index
    ensurePartSize limits bodyBuffer.length
    let parts ← handle bodyBuffer s.currentHeaders s.parts
    let q ← consumeBytes boundaryInfo.2
      (index + (if closing then closingMarker boundary else boundaryMarker boundary).length)
    let q ← skipLineBreak q
    let s := { s with buffer := q, currentHeaders := none, currentPartBytes := 0, parts := parts }
    if closing then .ok (.stop { s with ended := true })
    else .ok (.again { s with state := .headers })

/-- One of the three things that the loop of `processBuffer` does in turn. -/
def turn (rt : Runtime) (finalPass : Bool) (s : StreamingBatchParser Q) :
    Except BatchError (Turn (StreamingBatchParser Q)) :=
  if !s.firstBoundarySeen then readFirstBoundary boundary finalPass s
  else
    match s.state with
    | .headers => readHeaders rt finalPass s
    | .body => readBody boundary limits handle finalPass s

def processTurns (rt : Runtime) (finalPass : Bool) :
    Nat → StreamingBatchParser Q → Except BatchError (StreamingBatchParser Q)
  | 0, s => .ok s
  | n + 1, s => do
    match ← turn boundary limits handle rt finalPass s with
    | .stop s => .ok s
    | .again s => processTurns rt finalPass n s

/-- Every turn that goes on consumes bytes, so there are no more turns than bytes. -/
def processBuffer (rt : Runtime) (finalPass : Bool) (s : StreamingBatchParser Q) :
    Except BatchError (StreamingBatchParser Q) :=
  if s.ended then .ok s
  else processTurns boundary limits handle rt finalPass (length s.buffer + 1) s

def startParser (parts : PartsState) : StreamingBatchParser Q :=
  ⟨empty, false, .headers, none, 0, false, parts⟩

def pushChunk (s : StreamingBatchParser Q) (chunk : Bytes) : StreamingBatchParser Q :=
  { s with buffer := push s.buffer chunk }

/-- The last pass, when no chunk follows. -/
def finishParse (rt : Runtime) (s : StreamingBatchParser Q) : Except BatchError PartsState := do
  let s ← processBuffer boundary limits handle rt true s
  if s.ended then .ok s.parts
  else batchBadRequest "Malformed batch payload: missing closing boundary."

def parseChunks (rt : Runtime) :
    List Bytes → StreamingBatchParser Q → Except BatchError PartsState
  | [], s => finishParse boundary limits handle rt s
  | chunk :: chunks, s => do
    let s ← processBuffer boundary limits handle rt false (pushChunk s chunk)
    parseChunks rt chunks s

/-- `parseChunks` on a stream that counts its bytes before it hands them on. -/
def parseLimited (rt : Runtime) :
    Nat → List Bytes → StreamingBatchParser Q → Except BatchError PartsState
  | _, [], s => finishParse boundary limits handle rt s
  | total, chunk :: chunks, s => do
    checkTotalBytes limits (total + chunk.length)
    let s ← processBuffer boundary limits handle rt false (pushChunk s chunk)
    parseLimited rt (total + chunk.length) chunks s

def parseBuffer (rt : Runtime) (buffer : Bytes) (s : StreamingBatchParser Q) :
    Except BatchError PartsState :=
  finishParse boundary limits handle rt (pushChunk s buffer)

end Streaming

/-! ## Parts -/

section Parts

variable (Q : Type) [ByteQueue Q] (limits : MultipartParserLimits) (rt : Runtime)

def nextChangesetOperation (changesetId : Option Text) (s : PartsState) : Option Nat × PartsState :=
  if changesetId.getD [] = [] then (none, s)
  else (some (s.changesetOperationIndex + 1),
    { s with changesetOperationIndex := s.changesetOperationIndex + 1 })

/-- A changeset is parsed by a parser of its own. The first argument is larger than the number of
changesets around each other, for which the length of the body is enough. -/
def handlePartWithin : Nat → Nat → Option Text → PartHandler
  | 0, _, _, _, _, _ => .error rangeError
  | _ + 1, _, _, _, none, _ => batchBadRequest "Multipart part is missing headers."
  | n + 1, depth, changesetId, body, some headers, s =>
    let contentType := ((headers.get "content-type").map rt.toLowerCase).getD []
    if startsWith contentType "multipart/mixed".toList then
      let nestedBoundary := (extractBoundary contentType).getD []
      if nestedBoundary = [] then
        batchBadRequest "Changeset part is missing boundary attribute."
      else do
        ensureDepth limits (depth + 1)
        let groupId := (headers.get "content-id").getD nestedBoundary
        let nested ← parseBuffer (Q := Q) nestedBoundary limits
          (handlePartWithin n (depth + 1) (some groupId)) rt body (startParser ⟨[], 0, s.context⟩)
        if nested.requests = [] then
          batchBadRequest "Changeset part must contain at least one request."
        else .ok { s with requests := s.requests ++ nested.requests, context := nested.context }
    else if startsWith contentType "application/http".toList then do
      let (request, context) ← parseHttpPart rt body headers s.context changesetId
      let (position, s) := nextChangesetOperation changesetId { s with context := context }
      let context ← recordOperation limits s.context changesetId position
      .ok { s with requests := s.requests ++ [request], context := context }
    else
      .error ⟨400, none, "Unsupported part content-type: ".toList ++
        (if contentType = [] then "unknown".toList else contentType) ++ ".".toList⟩

def handlePart (depth : Nat) (changesetId : Option Text) : PartHandler := fun body headers s =>
  handlePartWithin Q limits rt (body.length + 1) depth changesetId body headers s

/-- `new StreamingBatchParser(boundary, context, 0).parse(stream)`. -/
def parse (boundary : Text) (chunks : List Bytes) : Except BatchError (List ParsedBatchRequest) := do
  let s ← parseChunks boundary limits (handlePart Q limits rt 0 none) rt chunks
    (startParser (Q := Q) ⟨[], 0, ⟨0, 0⟩⟩)
  .ok s.requests

def parseMultipartBatch (boundary : Text) (chunks : List Bytes) :
    Except BatchError (List ParsedBatchRequest) := do
  let s ← parseLimited boundary limits (handlePart Q limits rt 0 none) rt 0 chunks
    (startParser (Q := Q) ⟨[], 0, ⟨0, 0⟩⟩)
  .ok s.requests

end Parts

end LoopbackOData
