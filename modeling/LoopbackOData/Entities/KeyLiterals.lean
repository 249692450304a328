import LoopbackOData.Entities.Properties

/-!
# Entity URLs and references

The URL that the controller writes for an entity, and the key that it reads from the reference of a
`$ref` request.
-/

namespace LoopbackOData

set_option autoImplicit false

/-! ## The URL of an entity -/

inductive Scheme where
  | http | https
  deriving DecidableEq, Repr

def Scheme.text : Scheme → Text
  | .http => "http".toList
  | .https => "https".toList

/-- The settings of the service, and what the headers of a request say about the server:
`getEffectiveHost` and `getEffectiveProtocol`. -/
structure Service where
  basePath : Option Text
  namespaces : List Text
  setName : Text
  host : Option Text
  protocol : Option Scheme

def normalizeBasePath (configured : Option Text) : Text :=
  let basePath := trimText (configured.getD [])
  if basePath = [] then "/odata".toList
  else
    let basePath := if startsWith basePath ['/'] then basePath else '/' :: basePath
    if 1 < basePath.length ∧ endsWith basePath ['/'] then basePath.dropLast else basePath

/-- `String(value)`. -/
def atomText (env : Environment) : Atom → Text
  | .bool b => if b then "true".toList else "false".toList
  | .num q => env.rt.numberToString q
  | .bigint i => env.bigintToString i
  | .str s => s
  | .date ms => env.dateText ms

def escapeODataString (value : Text) : Text :=
  value.flatMap fun c => if c = '\'' then ['\'', '\''] else [c]

def startsWithGuid (literal : Text) : Bool := startsWith (asciiLower literal) "guid'".toList

/-- `guid'` and the quote at the end are removed. -/
def stripGuid (literal : Text) : Text :=
  if startsWithGuid literal then
    let literal := literal.drop 5
    if endsWith literal ['\''] then literal.dropLast else literal
  else literal

def normalizeGuidLiteralValue (env : Environment) (value : Atom) : Option Text :=
  let literal := trimText (atomText env value)
  if literal = [] then none
  else
    let literal := stripGuid literal
    let literal := if startsWith literal ['{'] && endsWith literal ['}'] then
      (literal.drop 1).dropLast else literal
    if literal = [] then none else some (env.rt.toLowerCase literal)

/-- The normalized value in quotes behind the name of its type. -/
def typedLiteral (kind : Text) (normalized : JsValue) : Option Text :=
  match normalized with
  | .atom (.str literal) => some (kind ++ '\'' :: (literal ++ ['\'']))
  | _ => none

/-- `typedLiteral`, but not for an empty text. -/
def nonemptyTypedLiteral (kind : Text) (normalized : JsValue) : Option Text :=
  match normalized with
  | .atom (.str []) => none
  | _ => typedLiteral kind normalized

def serializeKeyLiteralValue (env : Environment) (value : Atom) (definition : PropertyDefinition) :
    Option Text :=
  match (classifyProperty definition).map PropertyNormalizationPlan.kind with
  | some .datetimeoffset =>
    nonemptyTypedLiteral "datetimeoffset".toList (normalizeDateTimeOffsetValue env (.atom value))
  | some .date => nonemptyTypedLiteral "date".toList (normalizeDateValue env (.atom value))
  | some .timeOfDay => typedLiteral "timeofday".toList (normalizeTimeOfDayValue (.atom value))
  | some .duration => typedLiteral "duration".toList (normalizeDurationValue (.atom value))
  | some .int64 => (int64Text env (.atom value)).filter (· ≠ [])
  | some .decimal => (decimalText env (.atom value)).filter (· ≠ [])
  | none =>
    if isGuidProperty definition.toItemDefinition then
      (normalizeGuidLiteralValue env value).map fun literal =>
        "guid'".toList ++ literal ++ ['\'']
    else match classifyPrimitiveProperty definition.toItemDefinition with
      | some .boolean => match value with
        | .bool b => some (if b then "true".toList else "false".toList)
        | .str s =>
          let normalized := asciiLower (trimText s)
          if normalized = "true".toList ∨ normalized = "false".toList then some normalized else none
        | _ => none
      | some .number => match value with
        | .num q => some (env.rt.numberToString q)
        | .bigint i => some (env.bigintToString i)
        | .str s => if trimText s = [] then none else some (trimText s)
        | _ => none
      | _ => some ('\'' :: (escapeODataString (atomText env value) ++ ['\'']))

def buildEntityKeyLiteral (env : Environment) (id : Atom) (definition : PropertyDefinition) :
    Option Text :=
  (serializeKeyLiteralValue env id definition).map fun literal => '(' :: (literal ++ [')'])

/-- `getRequestOrigin`. -/
def Service.requestOrigin (service : Service) : Option Text :=
  service.host.map fun host =>
    (service.protocol.getD .http).text ++ "://".toList ++ host

def buildEntityLocationUrl (env : Environment) (service : Service) (id : Atom)
    (definition : PropertyDefinition) : Option Text :=
  (buildEntityKeyLiteral env id definition).map fun keyLiteral =>
    let basePath := normalizeBasePath service.basePath
    let pre := if basePath = ['/'] then [] else basePath
    let relativePath := pre ++ '/' :: (service.setName ++ keyLiteral)
    match service.requestOrigin with
    | some origin => origin ++ relativePath
    | none => relativePath

/-! ## URLs -/

/-- The characters that the path of a URL has as escapes. -/
def isPathEncoded (c : Char) : Bool :=
  c.toNat ≤ 0x1f || 0x7e < c.toNat || c ∈ " \"#<>?^`\x7b\x7d".toList

def percentByte (b : UInt8) : Text := ['%', hexDigit (b.toNat / 16), hexDigit (b.toNat % 16)]

def encodePath (s : Text) : Text :=
  s.flatMap fun c => if isPathEncoded c then (utf8Bytes [c]).flatMap percentByte else [c]

def isSingleDot (segment : Text) : Bool :=
  asciiLower segment ∈ [".", "%2e"].map String.toList

def isDoubleDot (segment : Text) : Bool :=
  asciiLower segment ∈ ["..", ".%2e", "%2e.", "%2e%2e"].map String.toList

/-- The segments of a path with the dots resolved; those before them are given in reverse. -/
def resolveSegments : List Text → List Text → List Text
  | before, [] => before.reverse
  | before, segment :: rest =>
    let atEnd (segments : List Text) : List Text := if rest = [] then [] :: segments else segments
    if isDoubleDot segment then resolveSegments (atEnd (before.drop 1)) rest
    else if isSingleDot segment then resolveSegments (atEnd before) rest
    else resolveSegments (encodePath segment :: before) rest

/-- A backslash is a slash in the URLs of the Web. -/
def splitPath (path : Text) : List Text := path.splitOnP fun c => c = '/' || c = '\\'

/-- The path of a URL, from the text that follows the host. -/
def urlPathname (path : Text) : Text :=
  let path := path.filter fun c => c ≠ '\t' ∧ c ≠ '\n' ∧ c ≠ '\r'
  let path := path.takeWhile fun c => c ≠ '?' ∧ c ≠ '#'
  (resolveSegments [] (splitPath (path.drop 1))).flatMap fun segment => '/' :: segment

structure Url where
  origin : Text
  pathname : Text

/-- `new URL(text, base)`, and how it reads the absolute URLs of the Web. -/
structure UrlParser where
  parse : Text → Text → Option Url
  /-- The hosts that a URL leaves as they are, under a scheme. -/
  keepsHost : Scheme → Text → Bool
  parse_absolute : ∀ scheme host path base, keepsHost scheme host = true →
    path.head? = some '/' → (∀ c ∈ path.getLast?, 0x20 < c.toNat) →
      parse (scheme.text ++ "://".toList ++ host ++ path) base =
        some ⟨scheme.text ++ "://".toList ++ host, urlPathname path⟩

/-! ## References -/

section References

variable (env : Environment) (urls : UrlParser) (service : Service)

/-- `normalizeConfiguredBasePath` is `normalizeBasePath` again. -/
def Service.normalizedBasePath : Text := normalizeBasePath service.basePath

def matchesServiceRootPrefix (path basePath : Text) : Bool :=
  if ¬ startsWith path ['/'] then false
  else if basePath = [] ∨ basePath = ['/'] then true
  else
    let normalizedPath := env.rt.toLowerCase path
    let normalizedBase := env.rt.toLowerCase basePath
    normalizedPath = normalizedBase || startsWith normalizedPath (normalizedBase ++ ['/'])

def stripBasePath (path basePath : Text) : Text :=
  if basePath = [] ∨ basePath = ['/'] then path
  else
    let normalizedPath := env.rt.toLowerCase path
    let normalizedBase := env.rt.toLowerCase basePath
    if normalizedPath = normalizedBase then ['/']
    else if startsWith normalizedPath (normalizedBase ++ ['/']) then path.drop basePath.length
    else path

/-- `/^[a-z][a-z0-9+.-]*:/i`. -/
def isAbsoluteReference (s : Text) : Bool :=
  match s with
  | [] => false
  | c :: rest =>
    c.isAlpha && (rest.dropWhile fun c => c.isAlphanum || c ∈ "+.-".toList).head? = some ':'

def invalidReference {α : Type} (reference : Text) : Except HttpError α :=
  badRequest ("Invalid @odata.id value: " ++ String.ofList reference)

def withLeadingSlash (path : Text) : Text := if startsWith path ['/'] then path else '/' :: path

/-- The path of an absolute reference to the service. -/
def absoluteReferencePath (reference trimmed : Text) : Except HttpError Text :=
  match service.requestOrigin with
  | none => invalidReference reference
  | some origin =>
    let basePath := service.normalizedBasePath
    let serviceRoot := if basePath ≠ ['/'] then origin ++ basePath else origin
    match urls.parse trimmed serviceRoot with
    | none => invalidReference reference
    | some url =>
      if url.origin ≠ origin ∨ ¬ matchesServiceRootPrefix env url.pathname basePath then
        invalidReference reference
      else .ok url.pathname

/-- The path without query and fragment, with one slash in front. -/
def cutReferencePath (path : Text) : Text :=
  '/' :: ((withLeadingSlash path).takeWhile fun c => c ≠ '?' ∧ c ≠ '#').dropWhile (· = '/')

def stripServiceRoot (reference path : Text) : Except HttpError Text :=
  let basePath := service.normalizedBasePath
  if matchesServiceRootPrefix env path basePath then
    .ok (withLeadingSlash (stripBasePath env path basePath))
  else invalidReference reference

def normalizeReferencePath (reference : Text) : Except HttpError Text :=
  let trimmed := trimText reference
  if isAbsoluteReference trimmed || startsWith trimmed "//".toList then do
    let path ← absoluteReferencePath env urls service reference trimmed
    stripServiceRoot env service reference (cutReferencePath path)
  else if trimmed ≠ [] ∧ ¬ startsWith trimmed ['/'] then .ok (cutReferencePath trimmed)
  else stripServiceRoot env service reference (cutReferencePath trimmed)

/-- The key up to the closing parenthesis, with what follows it, or whether a string was open at the
end. -/
def closeKey : Bool → Text → Except Bool (Text × Text)
  | inString, [] => .error inString
  | true, '\'' :: '\'' :: rest => do
    let (key, rest) ← closeKey true rest
    return ('\'' :: '\'' :: key, rest)
  | true, c :: rest => do
    let (key, rest) ← closeKey (c ≠ '\'') rest
    return (c :: key, rest)
  | false, c :: rest =>
    if c = ')' then .ok ([], rest)
    else do
      let (key, rest) ← closeKey (c = '\'') rest
      return (c :: key, rest)

def stripNamespacePrefix (entitySet : Text) : Text :=
  match (service.namespaces.filter (· ≠ [])).find? fun name =>
    startsWith entitySet (name ++ ['.']) with
  | some name => entitySet.drop (name.length + 1)
  | none => entitySet

/-- The entity set and the key expression of a canonical reference. -/
structure EntityReference where
  entitySet : Text
  keyExpression : Text

def parseReferenceSegment (reference segment : Text) : Except HttpError EntityReference :=
  let entitySetRaw := segment.takeWhile (· ≠ '(')
  match segment.dropWhile (· ≠ '(') with
  | [] => invalidReference reference
  | _ :: rest =>
    if startsWith segment ['$'] ∨ entitySetRaw = [] then invalidReference reference
    else match closeKey false rest with
      | .error true =>
        badRequest "Invalid @odata.id value: unterminated string literal in key predicate."
      | .error false =>
        badRequest "Invalid @odata.id value: missing closing parenthesis in key predicate."
      | .ok (_, _ :: _) =>
        badRequest "Invalid @odata.id value: unexpected trailing characters after key predicate."
      | .ok (keyExpression, []) => .ok ⟨stripNamespacePrefix service entitySetRaw, keyExpression⟩

/-- `path.split('/').filter(Boolean)`. -/
def pathParts (path : Text) : List Text := (path.splitOn '/').filter (· ≠ [])

def parseODataIdReference (reference : Text) : Except HttpError EntityReference := do
  let path ← normalizeReferencePath env urls service reference
  match pathParts (withLeadingSlash path) with
  | [segment] => parseReferenceSegment service reference segment
  | _ =>
    badRequest ("Invalid @odata.id value: navigation-path references are not supported; " ++
      "use canonical EntitySet(key).")

end References

def parseKeyLiteral (raw : Text) : Except HttpError Text :=
  match decodeURIComponent raw with
  | none => badRequest "Invalid key literal encoding."
  | some decoded =>
    let literal := stripGuid (trimText decoded)
    .ok (if isQuoted literal then unquote literal else literal)

/-- `coerceTargetId`, with the definition of the target's key. -/
def coerceTargetId (env : Environment) (definition : PropertyDefinition) (literal : Text) :
    Except HttpError JsValue :=
  coerceIdentifierLiteral env literal definition.toItemDefinition "identifier"

/-- The key that a reference stands for, in a `$ref` request for entities with this key. -/
def referencedKey (env : Environment) (urls : UrlParser) (service : Service)
    (definition : PropertyDefinition) (reference : Text) : Except HttpError JsValue := do
  let parsed ← parseODataIdReference env urls service reference
  let literal ← parseKeyLiteral parsed.keyExpression
  coerceTargetId env definition literal

end LoopbackOData
