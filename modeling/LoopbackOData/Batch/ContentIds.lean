import LoopbackOData.Batch.ServiceUrls

/-!
# Content-ID references

A request of a batch can name the entity of an earlier one by its Content-ID: in its URL, in a
header, or in an `@odata.id` or `@odata.bind` of its body. The references are replaced right before
the request is executed, and what it made is recorded right after.
-/

set_option autoImplicit false

namespace LoopbackOData

abbrev ContentIds := Dictionary Text Text

/-! ## Tokens -/

structure ContentIdTokenMatch where
  token : Text
  wrapper : Option (Text × Text)

def isQuote (c : Char) : Bool := c = '"' || c = '\''

/-- The text within quotes, which a backslash may stand before, and what is around it. -/
def unwrapContentIdWrapper (value : Text) : Option (Text × Text × Text) :=
  match value with
  | '\\' :: quote :: rest =>
    if isQuote quote ∧ endsWith rest ['\\', quote] ∧ 2 < rest.length then
      some (rest.take (rest.length - 2), ['\\', quote], ['\\', quote])
    else none
  | quote :: rest =>
    if isQuote quote ∧ rest.getLast? = some quote ∧ 1 < rest.length then
      some (rest.dropLast, [quote], [quote])
    else none
  | [] => none

def isNameStart (c : Char) : Bool := c.isAlpha || c = '_'

def isNameChar (c : Char) : Bool := c.isAlphanum || c ∈ "_.-".toList

/-- `/^\$\d+$/` or `/^\$[A-Za-z_][A-Za-z0-9_.-]*$/`, after the dollar. -/
def isPlainToken (s : Text) : Bool :=
  match s with
  | [] => false
  | c :: rest => (c :: rest).all isDigit || (isNameStart c && rest.all isNameChar)

/-- `/^\$requests\([^)]*\)$/i`, after the dollar: what is in the parentheses. -/
def requestsInner (s : Text) : Option Text :=
  if asciiLower (s.take "requests(".length) = "requests(".toList then
    let rest := s.drop "requests(".length
    if rest.getLast? = some ')' ∧ ')' ∉ rest.dropLast then some rest.dropLast else none
  else none

def matchContentIdToken (candidate : Text) : Option Text :=
  match candidate with
  | '$' :: name =>
    if isPlainToken name then some name
    else
      match requestsInner name with
      | none => none
      | some inner => if inner = [] then none else some ("requests(".toList ++ inner ++ [')'])
  | _ => none

def extractContentIdToken (value : Text) : Option ContentIdTokenMatch :=
  match unwrapContentIdWrapper value with
  | some (inner, before, after) =>
    (matchContentIdToken inner).map fun token => ⟨token, some (before, after)⟩
  | none => (matchContentIdToken value).map fun token => ⟨token, none⟩

/-! ## The table of references -/

section References

variable (rt : Runtime)

def registerContentIdAlias (contentIds : ContentIds) (key value : Text) : ContentIds :=
  if key = [] then contentIds
  else
    let contentIds := contentIds.set key value
    if rt.toLowerCase key ≠ [] ∧ rt.toLowerCase key ≠ key then
      contentIds.set (rt.toLowerCase key) value
    else contentIds

def getContentIdValue (contentIds : ContentIds) (key : Text) : Option Text :=
  if key = [] then none
  else
    match contentIds.get key with
    | some value => some value
    | none =>
      if rt.toLowerCase key ≠ [] ∧ rt.toLowerCase key ≠ key then
        contentIds.get (rt.toLowerCase key)
      else none

/-- A text between quotes of one kind; a single quote counts as both of them. -/
def unquoteId (inner : Text) : Option Text :=
  if startsWith inner ['\''] && endsWith inner ['\''] ||
      startsWith inner ['"'] && endsWith inner ['"'] then
    some ((inner.drop 1).dropLast)
  else none

def expandContentIdToken (token inner : Text) : List Text :=
  match unquoteId inner with
  | some unquoted => [token, "requests(".toList ++ unquoted ++ [')']]
  | none => [token]

/-- A value that is missing or empty is not taken. -/
def firstText : List (Option Text) → Option Text
  | [] => none
  | value :: values => if hasText value then value else firstText values

def resolveContentIdTokenValue (token : Text) (contentIds : ContentIds) : Option Text :=
  if token = [] then none
  else if ¬ startsWith token "requests(".toList then getContentIdValue rt contentIds token
  else
    let inner := (token.drop "requests(".length).dropLast
    match firstText ((expandContentIdToken token inner).map (getContentIdValue rt contentIds)) with
    | some value => some value
    | none =>
      if inner = [] then none
      else
        match firstText [getContentIdValue rt contentIds inner] with
        | some value => some value
        | none => (unquoteId inner).bind (getContentIdValue rt contentIds)

def unknownReference {α : Type} (value : Text) : Except Thrown α :=
  .error (.http ⟨400, some "ContentIdReferenceInvalid".toList,
    "Unknown Content-ID reference ".toList ++ value ++ ".".toList⟩)

def replaceContentIdTokensInString (contentIds : ContentIds) (value : Text) : Except Thrown Text :=
  match extractContentIdToken value with
  | none => .ok value
  | some placeholder =>
    let resolved := resolveContentIdTokenValue rt placeholder.token contentIds
    if ¬ hasText resolved then unknownReference value
    else
      match placeholder.wrapper with
      | some (before, after) => .ok (before ++ resolved.getD [] ++ after)
      | none => .ok (resolved.getD [])

def detectUnknownContentIdsInString (contentIds : ContentIds) (value : Text) : Except Thrown Unit :=
  match extractContentIdToken value with
  | none => .ok ()
  | some placeholder =>
    if ¬ hasText (resolveContentIdTokenValue rt placeholder.token contentIds) then
      unknownReference value
    else .ok ()

/-- Only the values of `@odata.id` and `@odata.bind` are looked at. -/
def shouldInspectContentIdValue (key : Option Text) : Bool :=
  match key with
  | none => false
  | some key =>
    let normalized := rt.toLowerCase key
    normalized = "@odata.id".toList || endsWith normalized "@odata.bind".toList

mutual

def detectUnknownContentIdsInBody (contentIds : ContentIds) (key : Option Text) :
    Json.Value → Except Thrown Unit
  | .str s =>
    if shouldInspectContentIdValue rt key then detectUnknownContentIdsInString rt contentIds s
    else .ok ()
  | .arr items => detectUnknownContentIdsInItems contentIds key items
  | .obj fields => detectUnknownContentIdsInFields contentIds fields
  | .null => .ok ()
  | .bool _ => .ok ()
  | .num _ => .ok ()

def detectUnknownContentIdsInItems (contentIds : ContentIds) (key : Option Text) :
    List Json.Value → Except Thrown Unit
  | [] => .ok ()
  | item :: items => do
    detectUnknownContentIdsInBody contentIds key item
    detectUnknownContentIdsInItems contentIds key items

def detectUnknownContentIdsInFields (contentIds : ContentIds) :
    List (Text × Json.Value) → Except Thrown Unit
  | [] => .ok ()
  | (key, value) :: fields => do
    detectUnknownContentIdsInBody contentIds (some key) value
    detectUnknownContentIdsInFields contentIds fields

end

mutual

def replaceContentIdTokensInBody (contentIds : ContentIds) (key : Option Text) :
    Json.Value → Except Thrown Json.Value
  | .str s =>
    if shouldInspectContentIdValue rt key then do
      let s ← replaceContentIdTokensInString rt contentIds s
      .ok (.str s)
    else .ok (.str s)
  | .arr items => do
    let items ← replaceContentIdTokensInItems contentIds key items
    .ok (.arr items)
  | .obj fields => do
    let fields ← replaceContentIdTokensInFields contentIds fields
    .ok (.obj fields)
  | .null => .ok .null
  | .bool b => .ok (.bool b)
  | .num n => .ok (.num n)

def replaceContentIdTokensInItems (contentIds : ContentIds) (key : Option Text) :
    List Json.Value → Except Thrown (List Json.Value)
  | [] => .ok []
  | item :: items => do
    let item ← replaceContentIdTokensInBody contentIds key item
    let items ← replaceContentIdTokensInItems contentIds key items
    .ok (item :: items)

/-- Assigning `__proto__` makes no field. -/
def replaceContentIdTokensInFields (contentIds : ContentIds) :
    List (Text × Json.Value) → Except Thrown (List (Text × Json.Value))
  | [] => .ok []
  | (key, value) :: fields => do
    let value ← replaceContentIdTokensInBody contentIds (some key) value
    let fields ← replaceContentIdTokensInFields contentIds fields
    .ok (if key = "__proto__".toList then fields else (key, value) :: fields)

end

def checkHeaders (contentIds : ContentIds) : Headers → Except Thrown Unit
  | [] => .ok ()
  | header :: headers => do
    detectUnknownContentIdsInString rt contentIds header.2
    checkHeaders contentIds headers

def assertContentIdAvailability (request : BatchRequest) (contentIds : ContentIds) :
    Except Thrown Unit := do
  detectUnknownContentIdsInString rt contentIds request.url
  checkHeaders rt contentIds (request.headers.getD [])
  match request.body with
  | none => .ok ()
  | some body => detectUnknownContentIdsInBody rt contentIds none body

def replaceInHeaders (contentIds : ContentIds) : Headers → Except Thrown Headers
  | [] => .ok []
  | header :: headers => do
    let value ← replaceContentIdTokensInString rt contentIds header.2
    let headers ← replaceInHeaders contentIds headers
    .ok ((header.1, value) :: headers)

def replaceInRequestHeaders (contentIds : ContentIds) :
    Option Headers → Except Thrown (Option Headers)
  | none => .ok none
  | some headers => do
    let headers ← replaceInHeaders rt contentIds headers
    .ok (some headers)

def replaceInRequestBody (contentIds : ContentIds) :
    Option Json.Value → Except Thrown (Option Json.Value)
  | none => .ok none
  | some body => do
    let body ← replaceContentIdTokensInBody rt contentIds none body
    .ok (some body)

def applyContentIdReferences (request : BatchRequest) (contentIds : ContentIds) :
    Except Thrown BatchRequest := do
  let url ← replaceContentIdTokensInString rt contentIds request.url
  let headers ← replaceInRequestHeaders rt contentIds request.headers
  let body ← replaceInRequestBody rt contentIds request.body
  .ok { request with url := url, headers := headers, body := body }

end References

/-! ## What a request made -/

section Results

variable (service : BatchService)

def responseHeader (response : BatchResponseEntry) (name : String) : Option Text :=
  getHeaderCaseInsensitive service.rt.toRuntime response.headers name

def resolveContentIdTarget (request : BatchRequest) (response : BatchResponseEntry) :
    Except Thrown (Option Text) :=
  let fromHeaders := ((responseHeader service response "location").orElse fun _ =>
    responseHeader service response "odata-entityid").orElse fun _ =>
      responseHeader service response "odata-entity-id"
  match firstText [fromHeaders.bind (normalizeReferencedUrl service)] with
  | some target => .ok (some target)
  | none =>
    match response.body with
    | .value (.obj fields) =>
      let odataId := match bodyField fields "@odata.id".toList with
        | some (.str s) => normalizeReferencedUrl service s
        | _ => none
      match firstText [odataId] with
      | some target => .ok (some target)
      | none =>
        match resolveEntitySetName service request.url with
        | none => .ok none
        | some entitySet => buildEntityKeyPath service entitySet fields
    | _ => .ok none

def extractEtagFromResponse (response : BatchResponseEntry) : Option Text :=
  match firstText [responseHeader service response "etag"] with
  | some etag => some etag
  | none =>
    match response.body with
    | .value (.obj fields) =>
      match bodyField fields "@odata.etag".toList with
      | some (.str s) => if trimText s = [] then none else some s
      | _ => none
    | _ => none

/-- The path without its query. -/
def normalizeContentIdPath (value : Text) : Option Text :=
  let trimmed := trimText value
  if trimmed = [] then none else some (urlPath trimmed)

def recordContentIdEtag (target : Text) (response : BatchResponseEntry)
    (contentIdEtags : ContentIds) : ContentIds :=
  match extractEtagFromResponse service response, normalizeContentIdPath target with
  | some etag, some path => contentIdEtags.set path etag
  | _, _ => contentIdEtags

/-- The aliases of a request: its id, its place in the batch, and its id in parentheses. -/
def registerAliases (contentIds : ContentIds) (id target : Text) (index : Nat) : ContentIds :=
  ["requests(".toList ++ Json.digits (index + 1) ++ [')'],
    "requests(".toList ++ id ++ [')'],
    "requests('".toList ++ id ++ "')".toList,
    "requests(\"".toList ++ id ++ "\")".toList].foldl
      (fun contentIds key => registerContentIdAlias service.rt.toRuntime contentIds key target)
      (registerContentIdAlias service.rt.toRuntime contentIds id target)

structure BatchReferences where
  contentIds : ContentIds
  etags : ContentIds

def recordContentIdResult (request : BatchRequest × Nat) (prepared : BatchRequest)
    (response : BatchResponseEntry) (references : BatchReferences) :
    Except Thrown BatchReferences :=
  match request.1.id with
  | none => .ok references
  | some id =>
    if id = [] then .ok references
    else if response.status < 200 ∨ 400 ≤ response.status then .ok references
    else do
      match ← resolveContentIdTarget service prepared response with
      | none => .ok references
      | some target =>
        if target = [] then .ok references
        else
          .ok ⟨registerAliases service references.contentIds id target request.2,
            recordContentIdEtag service target response references.etags⟩

/-! ## ETags of earlier requests -/

def hasIfMatchHeader (headers : Headers) : Bool :=
  headers.any fun header => service.rt.toLowerCase header.1 = "if-match".toList

def normalizeContentIdLookupPath (value : Text) : Option Text :=
  match firstText [sanitizeUrl service value] with
  | some sanitized => normalizeContentIdPath sanitized
  | none => normalizeContentIdPath value

def changesEntity (method : Text) : Bool :=
  method = "PATCH".toList || method = "PUT".toList || method = "DELETE".toList

def ensureEtagPreconditions (request : BatchRequest) (contentIdEtags : ContentIds) : BatchRequest :=
  if ¬ changesEntity (service.rt.toUpperCase request.method) then request
  else
    let headers := request.headers.getD []
    if hasIfMatchHeader service headers then request
    else
      match (normalizeContentIdLookupPath service request.url).bind contentIdEtags.get with
      | none => request
      | some etag =>
        if etag = [] then request
        else { request with headers := some (Headers.assign headers "If-Match".toList etag) }

end Results

end LoopbackOData
