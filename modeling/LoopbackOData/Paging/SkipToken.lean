import LoopbackOData.Paging.Order
import LoopbackOData.Paging.TokenSigning

/-!
# Skip tokens and next links

How the controller binds a skip token to a request, reads one back, and builds the link that
carries it.
-/

namespace LoopbackOData

open Outcome

set_option autoImplicit false

/-! ## The canonical form of a query -/

def QueryValue.toJson : QueryValue → Json.Value
  | .text s => .str s
  | .list entries => .arr (entries.attach.map fun ⟨entry, _⟩ => entry.toJson)
  | .object fields => .obj (fields.attach.map fun ⟨(key, value), _⟩ => (key, value.toJson))
decreasing_by
  all_goals simp_wf
  · have := List.sizeOf_lt_of_mem ‹_›
    omega
  · have := List.sizeOf_lt_of_mem ‹_›
    simp only [Prod.mk.sizeOf_spec] at this
    omega

/-- `canonicalizeQueryValue`. -/
def QueryValue.canonicalize : QueryValue → Text
  | .text s => s
  | .list entries =>
    '[' :: ([','].intercalate (entries.attach.map fun ⟨entry, _⟩ => entry.canonicalize) ++ [']'])
  | value => stableStringify value.toJson

def skipTokenKey : Text := "$skiptoken".toList

def skipKey : Text := "$skip".toList

/-- The parameters that a skip token does not depend on. -/
def isSkipParameter (key : Text) : Bool := key = skipTokenKey || key = skipKey

/-- The values of one parameter, in the canonical form. -/
def canonicalValues : QueryValue → List Text
  | .list entries => entries.map QueryValue.canonicalize
  | value => [value.canonicalize]

/-- What one parameter adds to the context. -/
def contextEntry (entry : Text × QueryValue) : List (Text × Text) :=
  if isSkipParameter entry.1 then [] else (canonicalValues entry.2).map (entry.1, ·)

def contextParams (query : Query) : List (Text × Text) := query.entries.flatMap contextEntry

def serializeParam (p : Text × Text) : Text :=
  encodeURIComponent p.1 ++ '=' :: encodeURIComponent p.2

/-! ## Servers -/

/-- What the code gets from its environment: cryptography, the runtime's tables, `localeCompare`,
the server's query parser and its router. -/
structure Server where
  /-- HMAC-SHA256 of a message under a secret, as base64url. -/
  hmac : Text → Text → Text
  rt : Runtime
  localeCompare : Text → Text → Ordering
  /-- The query of a URL whose query string has these parameters. -/
  parseQuery : SearchParams → Query
  /-- The path that the controller sees of a URL path. -/
  route : Text → Text

structure Config where
  tokenSecret : Text
  skipTokenTtl : Option Rat

/-- `normalizeTtlSeconds`. -/
def normalizeTtlSeconds (value : Option Rat) (fallback : Rat) : Rat :=
  match value with
  | some value => if 0 < value then value.floor else fallback
  | none => fallback

def buildSkipTokenOptions (config : Config) : Except HttpError TokenSecurityOptions :=
  if config.tokenSecret = [] then
    internalServerError "ODataConfig.tokenSecret must be configured to issue $skiptoken values."
  else .ok ⟨config.tokenSecret, some (normalizeTtlSeconds config.skipTokenTtl 900)⟩

namespace Server

variable (server : Server)

/-- The comparison that the parameters of a context are sorted by. -/
def paramOrder (a b : Text × Text) : Ordering :=
  if a.1 = b.1 then server.localeCompare a.2 b.2 else server.localeCompare a.1 b.1

def serializeParams (params : List (Text × Text)) : Text :=
  ['&'].intercalate
    ((params.mergeSort fun a b => server.paramOrder a b != .gt).map serializeParam)

/-- Collections are read by `GET`. -/
def buildSkipTokenContext (request : Request) : Text :=
  "GET".toList ++ ':' :: (server.route request.path ++
    '?' :: server.serializeParams (contextParams request.query))

/-! ## Issuing and reading tokens -/

def stringifySkipTokenValue : Scalar → Except HttpError Text
  | .undefined => .ok "null".toList
  | .null => .ok "null".toList
  | .date ms => .ok (server.rt.dateToString ms)
  | .invalidDate => internalServerError "Invalid time value"
  | .bool b => .ok (if b then "true".toList else "false".toList)
  | .num q => .ok (server.rt.numberToString q)
  | .str s => .ok s

/-- The values of a record that its skip token holds; none where a field is missing. -/
def skipTokenValues (record : Row) :
    List OrderDescriptor → Except HttpError (Option (List Text))
  | [] => .ok (some [])
  | item :: rest =>
    if record item.field = .undefined then .ok none
    else do
      let value ← server.stringifySkipTokenValue (record item.field)
      return (← skipTokenValues record rest).map (value :: ·)

/-- The payload that a token of this request carries. -/
def skipTokenPayload (request : Request) (descriptors : List OrderDescriptor)
    (values : List Text) : SkipTokenPayload where
  descriptor := buildSkipTokenDescriptorKey descriptors
  context := server.buildSkipTokenContext request
  values := values

def signSkipTokenValues (config : Config) (request : Request) (now : Int) (nonce : Text)
    (values : List Text) (descriptors : List OrderDescriptor) :
    Except HttpError (Option Text) :=
  if descriptors = [] ∨ values = [] then .ok none
  else if values.length ≠ descriptors.length then
    internalServerError "Failed to serialize $skiptoken values."
  else do
    let options ← buildSkipTokenOptions config
    return some (signSkipToken server.hmac (server.skipTokenPayload request descriptors values)
      options now nonce)

def createSkipToken (config : Config) (request : Request) (now : Int) (nonce : Text)
    (record : Row) (descriptors : List OrderDescriptor) : Except HttpError (Option Text) := do
  if descriptors = [] then .ok none
  else match ← server.skipTokenValues record descriptors with
    | none => .ok none
    | some values => server.signSkipTokenValues config request now nonce values descriptors

/-- `value ?? ''`; the server signs nothing but texts. -/
def tokenValue : Json.Value → Text
  | .str s => s
  | .null => []
  | value => Json.print value

/-- A token that fails verification is a bad request, whatever the reason. -/
def decodeSkipTokenValues (config : Config) (request : Request) (now : Int) (token : Text)
    (descriptors : List OrderDescriptor) : Except HttpError (List Text) := do
  let options ← buildSkipTokenOptions config
  match verifySkipToken server.hmac token (buildSkipTokenDescriptorKey descriptors)
      (server.buildSkipTokenContext request) options now with
  | .error (.verification _ _) => badRequest "Invalid $skiptoken value."
  | .error .typeError => internalServerError "Internal Server Error"
  | .ok values =>
    if values.length ≠ descriptors.length then badRequest "Invalid $skiptoken value."
    else .ok (values.map tokenValue)

end Server

/-! ## Links -/

structure Link where
  path : Text
  params : SearchParams

/-- What `buildNextLink` adds for one parameter of the request. -/
def addLinkParam (params : SearchParams) (entry : Text × QueryValue) : SearchParams :=
  if isSkipParameter entry.1 then params
  else match entry.2 with
    | .text [] => params
    | .text s => params.set entry.1 s
    | .list entries => entries.foldl (fun params e => params.append entry.1 e.toText) params
    | .object _ => params.append entry.1 entry.2.toText

def buildNextLink (request : Request) (skipToken : Text) : Link where
  path := request.path
  params := (request.query.entries.foldl addLinkParam []).set skipTokenKey skipToken

/-- The request that a client makes by following a link. -/
def Server.follow (server : Server) (link : Link) : Request where
  path := link.path
  query := server.parseQuery link.params

/-! ## A page of a collection -/

/-- The text of a system query option; an empty one counts as missing. -/
def skipTokenOf (query : Query) : Except HttpError (Option Text) := do
  return (← query.single skipTokenKey).filter (· ≠ [])

/-- `$skip` together with a positive `$top` asks for one page and no next link. -/
def manualPagingRequested (query : Query) : Bool :=
  (query.get skipKey).isSome &&
    match query.get "$top".toList with
    | some (.text top) => (finiteNumber top).any (0 < ·)
    | _ => false

/-- The order of a collection request and, where it has a skip token, the values in it. -/
def Server.readSkipToken (server : Server) (config : Config) (model : EntityModel)
    (request : Request) (now : Int) :
    Except HttpError (List OrderDescriptor × Option (List Text)) := do
  let token ← skipTokenOf request.query
  let descriptors ← requestDescriptors model request.query
  match token with
  | none => return (descriptors, none)
  | some token =>
    if (request.query.get skipKey).isSome then
      badRequest "$skip cannot be combined with $skiptoken."
    else
      let values ← server.decodeSkipTokenValues config request now token descriptors
      return (descriptors, some values)

/-- `applyServerDrivenPaging`: the items of a page and the token of the next one. -/
def Server.applyServerDrivenPaging (server : Server) (config : Config) (request : Request)
    (now : Int) (nonce : Text) (data : List Row) (descriptors : List OrderDescriptor)
    (pageSize : Nat) : Except HttpError (List Row × Option Text) := do
  if pageSize = 0 ∨ data.length ≤ pageSize then return (data, none)
  else
    let items := data.take pageSize
    match items.getLast? with
    | none => internalServerError "Unable to generate $skiptoken for next page."
    | some last =>
      match ← server.createSkipToken config request now nonce last descriptors with
      | none => internalServerError "Unable to generate $skiptoken for next page."
      | some token => return (items, some token)

/-- The paging of `list`: `fetch` reads the rows of the request, in the order of the descriptors
and after the values of the token, one more than a page holds. -/
def Server.listPage (server : Server) (config : Config) (model : EntityModel) (request : Request)
    (now : Int) (nonce : Text) (fetch : List OrderDescriptor → Option (List Text) → List Row)
    (pageSize : Nat) : Except HttpError (List Row × Option Link) := do
  let (descriptors, values) ← server.readSkipToken config model request now
  let descriptors := withDelta model.deltaField descriptors
  let data := fetch descriptors values
  if manualPagingRequested request.query then return (data, none)
  else
    let (items, token) ←
      server.applyServerDrivenPaging config request now nonce data descriptors pageSize
    return (items, token.map (buildNextLink request))

end LoopbackOData
