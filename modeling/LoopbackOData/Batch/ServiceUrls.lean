import LoopbackOData.Batch.Serializer
import LoopbackOData.Entities.KeyLiterals

/-!
# URLs of requests in a batch

How a batch reads the URL of a request: relative to the service, absolute within the application,
or absolute on the Web, which `new URL` takes apart. The entity sets are those of the registry.
-/

set_option autoImplicit false

namespace LoopbackOData

/-- An entity set as the registry has it. -/
structure EntitySetDef where
  name : Text
  /-- The key properties, `id` when the model has none. -/
  keys : List Text
  propertyType : Text → Option Text
  /-- The relations with the entity sets they lead to. -/
  navigation : List (Text × Text)

/-- The settings of the controller and what it calls of the runtime. `parseUrl` is `new URL`, of
which the path and the query are read; `stringOf` is `String(value)` where the value is no text, and
`numberText` the same of `Number(value)`, unless that is not a number. -/
structure BatchService where
  rt : ResponseRuntime
  basePath : Option Text
  rootRouteNames : List Text
  namespaces : List Text
  registry : List EntitySetDef
  parseUrl : Text → Option (Text × Text)
  stringOf : Json.Value → Text
  numberText : Json.Value → Option Text

section Urls

variable (service : BatchService)

def BatchService.findByName (name : Text) : Option EntitySetDef :=
  service.registry.find? fun definition =>
    service.rt.toLowerCase definition.name = service.rt.toLowerCase name

def BatchService.serviceRootPath : Text := normalizeBasePath service.basePath

def slashParts (path : Text) : List Text := path.splitOnP (· = '/')

/-- `path.split('/').filter(Boolean)`. -/
def urlSegments (path : Text) : List Text := (slashParts path).filter (· ≠ [])

def pathMatches (path base : Text) : Bool :=
  if path = [] ∨ base = [] then false
  else if base = ['/'] then
    path = ['/'] || startsWith path "/?".toList || startsWith path "/#".toList
  else
    path = base || startsWith path (base ++ ['/']) || startsWith path (base ++ ['?']) ||
      startsWith path (base ++ ['#'])

def normalizePathForMatching (path : Text) : Text :=
  let withoutHash := (trimText path).takeWhile (· ≠ '#')
  let withoutQuery := withoutHash.takeWhile (· ≠ '?')
  if withoutQuery = [] then ['/'] else withoutQuery

def normalizeFirstSegment (segment : Text) : Text :=
  match segment with
  | '(' :: _ => segment
  | _ => segment.takeWhile (· ≠ '(')

def matchesConfiguredODataPath (path basePath : Text) (rootRouteNames : List Text) : Bool :=
  if path = [] ∨ basePath = [] then false
  else if basePath ≠ ['/'] then pathMatches path basePath
  else
    let normalized := normalizePathForMatching path
    if ¬ startsWith normalized ['/'] then false
    else
      let firstSegment := (slashParts (normalized.drop 1)).headD []
      firstSegment = [] || firstSegment = "$metadata".toList || firstSegment = "$batch".toList ||
        (normalizeFirstSegment firstSegment ≠ [] &&
          rootRouteNames.contains (normalizeFirstSegment firstSegment))

def ensureWithinServiceRoot (url : Text) : Option Text :=
  if startsWith url ['/'] &&
      matchesConfiguredODataPath url service.serviceRootPath service.rootRouteNames then
    some url
  else none

def buildServiceRelativePath (rawUrl : Text) : Option Text :=
  let trimmed := trimText rawUrl
  if trimmed = [] then some service.serviceRootPath
  else if startsWith trimmed "//".toList then none
  else if startsWith trimmed ['/'] then some trimmed
  else
    let pathPart := trimmed.takeWhile (· ≠ '?')
    let query := trimmed.dropWhile (· ≠ '?')
    let root := service.serviceRootPath
    let separator := if pathPart = [] ∨ root = ['/'] then [] else ['/']
    ensureWithinServiceRoot service (root ++ separator ++ pathPart ++ query)

/-- `/^https?:\/\//i`. -/
def isWebUrl (url : Text) : Bool :=
  startsWith (asciiLower url) "http://".toList || startsWith (asciiLower url) "https://".toList

/-- `sanitizeUrl(rawUrl, true)`. -/
def sanitizeUrl (rawUrl : Text) : Option Text :=
  let trimmed := trimText rawUrl
  if trimmed = [] then none
  else if startsWith trimmed "//".toList then none
  else if isWebUrl trimmed then
    (service.parseUrl trimmed).bind fun url => ensureWithinServiceRoot service (url.1 ++ url.2)
  else if startsWith trimmed ['/'] then ensureWithinServiceRoot service trimmed
  else buildServiceRelativePath service trimmed

def normalizeReferencedUrl (raw : Text) : Option Text :=
  let trimmed := trimText raw
  if trimmed = [] then none
  else if isWebUrl trimmed then (service.parseUrl trimmed).map fun url => url.1 ++ url.2
  else if startsWith trimmed ['/'] then some trimmed
  else buildServiceRelativePath service trimmed

/-! ## Entity sets -/

def BatchService.serviceRootSegments : List Text := urlSegments service.serviceRootPath

def stripServiceRootSegments (segments : List Text) : Option (List Text) :=
  let root := service.serviceRootSegments
  if (segments.take root.length).map service.rt.toLowerCase = root.map service.rt.toLowerCase then
    some (segments.drop root.length)
  else none

def urlPath (url : Text) : Text := url.takeWhile (· ≠ '?')

def stripServiceRootFromUrl (rawUrl : Text) : Option (List Text) :=
  (sanitizeUrl service rawUrl).bind fun sanitized =>
    stripServiceRootSegments service (urlSegments (urlPath sanitized))

def decodePathSegment (segment : Text) : Text := (decodeURIComponent segment).getD segment

/-- A segment without the key after it. -/
def normalizePathSegment (segment : Text) : Option Text :=
  let base := (trimText segment).takeWhile (· ≠ '(')
  if base = [] then none else some (decodePathSegment base)

def BatchService.stripNamespacePrefix (entitySet : Text) : Text :=
  match service.namespaces.find? fun ns => startsWith entitySet (ns ++ ['.']) with
  | some ns => entitySet.drop (ns.length + 1)
  | none => entitySet

def resolveNavigationTargetEntitySet (current : EntitySetDef) (segment : Text) :
    Option EntitySetDef :=
  let relation := match current.navigation.find? fun relation => relation.1 = segment with
    | some relation => some relation
    | none => current.navigation.find? fun relation =>
        service.rt.toLowerCase relation.1 = service.rt.toLowerCase segment
  relation.bind fun relation => service.findByName relation.2

/-- Along the navigation properties as far as they go. -/
def followSegments (current : EntitySetDef) : List Text → EntitySetDef
  | [] => current
  | segment :: segments =>
    if segment = [] ∨ startsWith segment ['$'] then current
    else
      match resolveNavigationTargetEntitySet service current segment with
      | none => current
      | some next => followSegments next segments

def resolveEntitySetName (rawUrl : Text) : Option Text :=
  (stripServiceRootFromUrl service rawUrl).bind fun stripped =>
    match (stripped.filterMap normalizePathSegment).filter (· ≠ []) with
    | [] => none
    | first :: rest =>
      if startsWith first ['$'] then none
      else
        let current := match service.findByName first with
          | some definition => some definition
          | none => service.findByName (service.stripNamespacePrefix first)
        current.map fun current => (followSegments service current rest).name

/-- As `followSegments`, but an empty segment ends the path as well. -/
def followRawSegments (current : EntitySetDef) : List Text → EntitySetDef
  | [] => current
  | segment :: segments =>
    match normalizePathSegment segment with
    | none => current
    | some segment =>
      if segment = [] ∨ startsWith segment ['$'] then current
      else
        match resolveNavigationTargetEntitySet service current segment with
        | none => current
        | some next => followRawSegments next segments

def resolveEntitySetFromBase (baseSetName : Text) (trailingSegments : List Text) : Option Text :=
  (service.findByName baseSetName).map fun current =>
    (followRawSegments service current trailingSegments).name

/-! ## The URL of an entity -/

/-- `body[key]`, where the last field of a name counts. -/
def bodyField (fields : List (Text × Json.Value)) (key : Text) : Option Json.Value :=
  (fields.reverse.find? fun field => field.1 = key).map (·.2)

def isJsonTruthy : Json.Value → Bool
  | .null => false
  | .bool b => b
  | .num n => service.stringOf (.num n) ≠ "0".toList
  | .str s => s ≠ []
  | .arr _ => true
  | .obj _ => true

def integerTypes : List Text := ["bigint", "int64", "long", "integer"].map String.toList

/-- `String(value)`. -/
def BatchService.jsonText (value : Json.Value) : Text :=
  match value with
  | .str s => s
  | value => service.stringOf value

def serializeKeyValue (value : Json.Value) (type : Option Text) : Except Thrown Text :=
  let quoted := '\'' :: (escapeODataString (service.jsonText value) ++ ['\''])
  match value with
  | .null => .error (.http ⟨400, some "ContentIdReferenceInvalid".toList,
      "Missing key value for Content-ID reference.".toList⟩)
  | value =>
    if type.any (integerTypes.contains ·) then .ok (service.jsonText value)
    else if type = some "number".toList then .ok ((service.numberText value).getD quoted)
    else if type = some "boolean".toList then
      .ok (if isJsonTruthy service value then "true".toList else "false".toList)
    else .ok quoted

def serializeKeyEntries (definition : EntitySetDef) (fields : List (Text × Json.Value)) :
    List Text → Except Thrown (Option (List (Text × Text)))
  | [] => .ok (some [])
  | key :: keys =>
    match bodyField fields key with
    | none => .ok none
    | some value => do
      match ← serializeKeyEntries definition fields keys with
      | none => .ok none
      | some entries =>
        let literal ← serializeKeyValue service value (definition.propertyType key)
        .ok (some ((key, literal) :: entries))

def buildKeyLiteral (entries : List (Text × Text)) : Text :=
  match entries with
  | [entry] => entry.2
  | entries => joinTexts [','] (entries.map fun entry => entry.1 ++ ['='] ++ entry.2)

def buildEntityKeyPath (entitySetName : Text) (fields : List (Text × Json.Value)) :
    Except Thrown (Option Text) :=
  match service.findByName entitySetName with
  | none => .ok none
  | some definition => do
    match ← serializeKeyEntries service definition fields definition.keys with
    | none => .ok none
    | some entries =>
      let root := service.serviceRootPath
      let separator := if endsWith root ['/'] then [] else ['/']
      .ok (some (root ++ separator ++ entitySetName ++ ['('] ++ buildKeyLiteral entries ++ [')']))

end Urls

end LoopbackOData
