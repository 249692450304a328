import LoopbackOData.Expand.Inclusion
import LoopbackOData.Filter.Decompose
import LoopbackOData.Paging.Order

/-!
# The `$expand` parser

From the text of `$expand` to include filters. The functions that look relations up take the model
the relations are those of, `none` where the source has no relations to look in.
-/

namespace LoopbackOData

namespace Expand

set_option autoImplicit false

/-- The relations that the models declare, with the model each leads to, if its target can be
resolved. -/
structure RelationGraph (ι : Type) where
  relation : ι → Text → Option (Option ι)

section

variable {ι : Type} (graph : RelationGraph ι)

/-- `relations?.[name]`. -/
def RelationGraph.definition (relations : Option ι) (name : Text) : Option (Option ι) :=
  relations.bind fun model => graph.relation model name

/-- The relations of the target of `name`; an error if relations are known and it is none. -/
def RelationGraph.follow (relations : Option ι) (name : Text) : Except FilterError (Option ι) :=
  match graph.definition relations name with
  | some next => .ok next
  | none =>
    if relations.isSome then fail ("Unknown expand relation: " ++ String.ofList name) else .ok none

end

/-! ## Cutting texts -/

def pushTrimmed (current : Text) (results : List Text) : List Text :=
  if trimText current = [] then results else trimText current :: results

def splitTopLevelFrom (delimiter : Char) (inString : Bool) (depth : Nat) (current : Text) :
    Text → Except FilterError (List Text)
  | [] =>
    if inString then fail "Malformed expand expression: unterminated string literal."
    else if depth ≠ 0 then fail "Malformed expand expression: unmatched parentheses."
    else .ok (pushTrimmed current [])
  | '\'' :: '\'' :: rest =>
    if inString then splitTopLevelFrom delimiter true depth (current ++ ['\'', '\'']) rest
    else splitTopLevelFrom delimiter true depth (current ++ ['\'']) ('\'' :: rest)
  | c :: rest =>
    if c = '\'' then splitTopLevelFrom delimiter (!inString) depth (current ++ [c]) rest
    else if inString then splitTopLevelFrom delimiter true depth (current ++ [c]) rest
    else if c = '(' then splitTopLevelFrom delimiter false (depth + 1) (current ++ [c]) rest
    else if c = ')' then
      if depth = 0 then fail "Malformed expand expression: unmatched closing parenthesis."
      else splitTopLevelFrom delimiter false (depth - 1) (current ++ [c]) rest
    else if c = delimiter ∧ depth = 0 then do
      return pushTrimmed current (← splitTopLevelFrom delimiter false 0 [] rest)
    else splitTopLevelFrom delimiter false depth (current ++ [c]) rest

def splitTopLevel (value : Text) (delimiter : Char) : Except FilterError (List Text) :=
  splitTopLevelFrom delimiter false 0 [] value

/-- The text before the first parenthesis outside strings, and what follows it. -/
def findOpening (inString : Bool) (path : Text) : Text → Except FilterError (Text × Option Text)
  | [] => .ok (path, none)
  | '\'' :: '\'' :: rest =>
    if inString then findOpening true (path ++ ['\'', '\'']) rest
    else findOpening true (path ++ ['\'']) ('\'' :: rest)
  | c :: rest =>
    if c = '\'' then findOpening (!inString) (path ++ [c]) rest
    else if inString then findOpening true (path ++ [c]) rest
    else if c = '(' then .ok (path, some rest)
    else if c = ')' then fail "Malformed expand segment: unmatched closing parenthesis."
    else findOpening false (path ++ [c]) rest

/-- The text before the parenthesis that closes the first one, and what follows it; `depth` counts
the parentheses open inside it. -/
def findClosing (inString : Bool) (depth : Nat) (options : Text) :
    Text → Except FilterError (Text × Text)
  | [] => fail "Malformed expand segment: unmatched parentheses."
  | '\'' :: '\'' :: rest =>
    if inString then findClosing true depth (options ++ ['\'', '\'']) rest
    else findClosing true depth (options ++ ['\'']) ('\'' :: rest)
  | c :: rest =>
    if c = '\'' then findClosing (!inString) depth (options ++ [c]) rest
    else if inString then findClosing true depth (options ++ [c]) rest
    else if c = '(' then findClosing false (depth + 1) (options ++ [c]) rest
    else if c = ')' then
      if depth = 0 then .ok (options, rest)
      else findClosing false (depth - 1) (options ++ [c]) rest
    else findClosing false depth (options ++ [c]) rest

/-- The path of a segment and its options, empty if there are none. -/
def extractPathAndOptions (segment : Text) : Except FilterError (Text × Text) := do
  let (path, group) ← findOpening false [] (trimText segment)
  match group with
  | none => return (trimText path, [])
  | some group =>
    let (options, remainder) ← findClosing false 0 [] group
    if trimText remainder ≠ [] then
      fail "Malformed expand segment: trailing characters after options."
    else return (trimText path, trimText options)

/-! ## Options -/

def parseSelect (select : Text) : List Text :=
  (((select.splitOn ',').map trimText).filter (· ≠ [])).foldl projectRelationField []

/-- `Number.MAX_SAFE_INTEGER`. -/
def maxSafeInteger : Nat := 9007199254740991

def parseQueryNonNegativeInteger (value : Text) (option : String) : Except FilterError Nat :=
  let trimmed := trimText value
  if trimmed ≠ [] ∧ trimmed.all isDigit ∧ digitsValue trimmed ≤ maxSafeInteger then
    .ok (digitsValue trimmed)
  else fail ("Invalid " ++ option ++ " value: " ++ String.ofList value)

def OperandTransform.name : OperandTransform → String
  | .tolower => "tolower"
  | .toupper => "toupper"

mutual

/-- `visit` in `collectUnsupportedExpandFilterFeatures`. -/
def listUnsupported : ParsedExpression → List String
  | .leaf (.function _ _ _ _ (some transform) _) => [OperandTransform.name transform]
  | .leaf _ => []
  | .logical _ expressions => listAllUnsupported expressions
  | .not expr => listUnsupported expr
  | .lambda _ _ _ predicate => "lambda" :: listUnsupported predicate

def listAllUnsupported : List ParsedExpression → List String
  | [] => []
  | expr :: rest => listUnsupported expr ++ listAllUnsupported rest

end

def collectUnsupportedExpandFilterFeatures (parsed : ParsedODataQuery) : List String :=
  let postFiltered :=
    if parsed.postFilter.isNone then []
    else if parsed.unsupportedFunctions.isEmpty then ["post-filter"]
    else parsed.unsupportedFunctions
  let lambdas :=
    if parsed.lambdas.isEmpty && parsed.lambdaExpression.isNone then [] else ["lambda"]
  (postFiltered ++ lambdas ++ (parsed.whereExpression.elim [] listUnsupported)).eraseDups

/-- What `parseExpandOptions` returns. -/
structure ExpandOptions where
  scope : Scope := .empty
  includes : List Inclusion := []
  levels : Option Nat := none

/-- `key.toLowerCase()` where it is compared with the names of options: the Kelvin sign is the only
character that becomes a letter of one and is no ASCII capital. -/
def lowerKey (key : Text) : Text := key.map fun c => if c = '\u212a' then 'k' else c.toLower

def parseLevels (rawValue : Text) : Except FilterError Nat :=
  if asciiLower rawValue = "max".toList then
    fail "$levels=max is not supported. Specify a numeric depth."
  else match finiteNumber rawValue with
    | some parsedLevel =>
      if parsedLevel.den = 1 ∧ 1 ≤ parsedLevel then .ok parsedLevel.num.toNat else invalid
    | none => invalid
where
  invalid : Except FilterError Nat := fail ("Invalid $levels value: " ++ String.ofList rawValue)

section

variable {ι : Type} (rt : Runtime) (options : ParseOptions) (graph : RelationGraph ι)

def parseScopeFilter (rawValue : Text) : Except FilterError (Option Where) := do
  let parsed ← parseODataQuery rt options (some rawValue)
  let unsupported := collectUnsupportedExpandFilterFeatures parsed
  if unsupported ≠ [] then
    fail ("$expand $filter requires unsupported relation post-filter evaluation: " ++
      String.intercalate ", " unsupported ++ ".")
  else return parsed.whereClause

/-- The `switch` over the key of an option. -/
def applyExpandOption (parseIncludes : Text → Except FilterError (List Inclusion))
    (state : ExpandOptions) (key rawValue : Text) : Except FilterError ExpandOptions :=
  if key = "$select".toList then
    .ok { state with
      scope := mergeScopes state.scope (.mk { fields := some (parseSelect rawValue) } []) }
  else if key = "$expand".toList then do
    let includes ← parseIncludes rawValue
    if includes.isEmpty then return state
    else if state.includes.isEmpty then return { state with includes }
    else return { state with includes := mergeInclusionList state.includes includes }
  else if key = "$filter".toList then do
    match ← parseScopeFilter rt options rawValue with
    | some clause =>
      return { state with
        scope := mergeScopes state.scope (.mk { whereClause := some clause } []) }
    | none => return state
  else if key = "$orderby".toList then do
    let order ← (parseOrder rawValue).mapError fun err => FilterError.error err.message
    if order.isEmpty then return state
    else return { state with scope := mergeScopes state.scope (.mk { order := some order } []) }
  else if key = "$top".toList then do
    let limit ← parseQueryNonNegativeInteger rawValue "$top"
    return { state with scope := mergeScopes state.scope (.mk { limit := some limit } []) }
  else if key = "$skip".toList then do
    let offset ← parseQueryNonNegativeInteger rawValue "$skip"
    return { state with scope := mergeScopes state.scope (.mk { offset := some offset } []) }
  else if key = "$count".toList then .ok state
  else if key = "$levels".toList then
    if state.levels.isSome then fail "Duplicate $levels option is not allowed."
    else do return { state with levels := some (← parseLevels rawValue) }
  else fail ("Unsupported expand option: " ++ String.ofList key)

def parseExpandOption (parseIncludes : Text → Except FilterError (List Inclusion))
    (state : ExpandOptions) (token : Text) : Except FilterError ExpandOptions :=
  let entry := trimText token
  if entry = [] then .ok state
  else if '=' ∉ entry then fail ("Invalid expand option: " ++ String.ofList entry)
  else
    let key := lowerKey (trimText (entry.takeWhile (· ≠ '=')))
    let rawValue := trimText ((entry.dropWhile (· ≠ '=')).drop 1)
    if rawValue = [] then
      fail ("Expand option " ++ String.ofList key ++ " requires a value.")
    else applyExpandOption rt options parseIncludes state key rawValue

def parseExpandOptions (parseIncludes : Text → Except FilterError (List Inclusion))
    (text : Text) : Except FilterError ExpandOptions := do
  (← splitTopLevel text ';').foldlM (parseExpandOption rt options parseIncludes) {}

/-! ## Segments -/

/-- `expandLevels`: the scope with the relation below it `levels` more times, as far as the targets
have it. Every level gets the scope that the first one started with. -/
def expandLevels (relation : Text) (template : Scope) : Nat → Option ι → Scope
  | 0, _ => template
  | levels + 1, relations =>
    match graph.definition relations relation with
    | none => template
    | some next =>
      .mk template.options
        (template.includes ++ [(relation, expandLevels relation template levels next)])

def buildIncludeFromParts
    (parseIncludes : Option ι → Text → Except FilterError (List Inclusion)) (text : Text) :
    List Text → Option ι → Except FilterError Inclusion
  | [], _ => fail "Invalid $expand segment: missing relation name."
  | [current], relations => do
    let next ← graph.follow relations current
    if text = [] then return (current, .empty)
    else
      let parsed ← parseExpandOptions rt options (parseIncludes next) text
      let scope := mergeScopes (mergeScopes .empty parsed.scope) (.mk {} parsed.includes)
      return (current, expandLevels graph current scope (parsed.levels.getD 1 - 1) next)
  | current :: part :: rest, relations => do
    let next ← graph.follow relations current
    let child ← buildIncludeFromParts parseIncludes text (part :: rest) next
    return (current, mergeScopes .empty (.mk {} [child]))

def parseSegment (parseIncludes : Option ι → Text → Except FilterError (List Inclusion))
    (relations : Option ι) (includes : List Inclusion) (segment : Text) :
    Except FilterError (List Inclusion) := do
  let (path, text) ← extractPathAndOptions segment
  let parts := ((path.splitOn '/').map trimText).filter (· ≠ [])
  return upsert includes (← buildIncludeFromParts rt options graph parseIncludes text parts
    relations)

/-- `parseExpand`; `fuel` bounds the nesting of the options. -/
def parseExpandWithin : Nat → Option ι → Text → Except FilterError (List Inclusion)
  | 0, _, _ => .error .outOfFuel
  | fuel + 1, relations, expand => do
    (← splitTopLevel expand ',').foldlM
      (parseSegment rt options graph (parseExpandWithin fuel) relations) []

/-- `parseExpand`, the empty list standing for `undefined`. The options of a segment are shorter than
the text it is in, so that the nesting ends. -/
def parseExpand (relations : Option ι) (expand : Text) : Except FilterError (List Inclusion) :=
  parseExpandWithin rt options graph (expand.length + 1) relations expand

end

end Expand

end LoopbackOData
