import LoopbackOData.Library.Pages
import LoopbackOData.Library.ThreeValued
import LoopbackOData.Paging.Order

/-!
# Paging the result of `$apply`

How a collection request with `$apply` orders the rows of its pipeline and hands them out in pages,
in memory and by a query of the database. The rows are those that the stages compute, without a
limit on their number; the signing of tokens is left out.
-/

namespace LoopbackOData

namespace Apply

open Outcome ThreeValued

set_option autoImplicit false

/-- What the runtime makes of the texts in a token, and of a date as a text. -/
structure TokenRuntime extends Runtime where
  /-- `Number(text)`, where that is a number. -/
  numberOf : Text → Option Rat
  /-- `new Date(text).getTime()`, where the date is valid. -/
  dateOf : Text → Option Int
  /-- `String(date)`, which depends on the time zone. -/
  dateText : Int → Text

/-! ## Order -/

section Order

variable (rt : TokenRuntime)

/-- `String(value)`. -/
def textOf : Scalar → Text
  | .undefined => "undefined".toList
  | .null => "null".toList
  | .bool b => (if b then "true" else "false").toList
  | .num q => rt.numberToString q
  | .str s => s
  | .date ms => rt.dateText ms
  | .invalidDate => "Invalid Date".toList

def compareValues (a b : Scalar) : Ordering :=
  if a = b then .eq
  else if a.isNullish then .lt
  else if b.isNullish then .gt
  else match a, b with
    | .date s, .date t => compare s t
    | .num q, .num r => compare q r
    | _, _ => compareText (textOf rt a) (textOf rt b)

/-- One field in the comparison of `orderResults`. -/
def orderValues (a b : Scalar) : Ordering :=
  if a = b then .eq
  else if a.isNullish then .gt
  else if b.isNullish then .lt
  else match a, b with
    | .num q, .num r => compare q r
    | _, _ => compareText (textOf rt a) (textOf rt b)

def directed (direction : Direction) (order : Ordering) : Ordering :=
  match direction with
  | .asc => order
  | .desc => order.swap

/-- Rows in the order of a comparison of their values, field by field. -/
def orderBy (compare : Scalar → Scalar → Ordering) : List OrderDescriptor → Row → Row → Ordering
  | [], _, _ => .eq
  | item :: rest, a, b =>
    (directed item.direction (compare (a item.field) (b item.field))).then
      (orderBy compare rest a b)

def sortBy (compare : Scalar → Scalar → Ordering) (order : List OrderDescriptor)
    (rows : List Row) : List Row :=
  rows.mergeSort fun a b => orderBy compare order a b != .gt

def orderResults (rows : List Row) (order : List OrderDescriptor) : List Row :=
  sortBy (orderValues rt) order rows

end Order

/-! ## Skip tokens -/

section Tokens

variable (rt : TokenRuntime)

/-- A field with a slash is a path into the row, where nothing is found: the columns are values. -/
def extractFieldValue (row : Row) (field : Text) : Scalar :=
  if '/' ∈ field then .undefined else row field

def stringifySkipTokenValue : Scalar → Except HttpError Text
  | .undefined => .ok "null".toList
  | .null => .ok "null".toList
  | .date ms => .ok (rt.dateToString ms)
  | .invalidDate => internalServerError "Invalid time value"
  | value => .ok (textOf rt value)

/-- The values of a row that its token holds; none where one is undefined. -/
def skipTokenValues (valueOf : Row → Text → Scalar) (row : Row) :
    List OrderDescriptor → Except HttpError (Option (List Text))
  | [] => .ok (some [])
  | item :: rest =>
    if valueOf row item.field = .undefined then .ok none
    else do
      let value ← stringifySkipTokenValue rt (valueOf row item.field)
      return (← skipTokenValues valueOf row rest).map (value :: ·)

def createSkipToken (descriptors : List OrderDescriptor) (row : Row) :
    Except HttpError (List Text) := do
  match ← skipTokenValues rt extractFieldValue row descriptors with
  | none => internalServerError "Unable to generate $skiptoken for next page."
  | some values => return values

/-- The value of a token in the type of the row's. -/
def coerceTokenValue (raw : Text) : Scalar → Except HttpError Scalar
  | .undefined | .null => .ok (if raw = "null".toList then .null else .str raw)
  | .date _ | .invalidDate =>
    match rt.dateOf raw with
    | none => badRequest "Invalid date value in $skiptoken."
    | some ms => .ok (.date ms)
  | .num _ =>
    match rt.numberOf raw with
    | none => badRequest "Invalid numeric value in $skiptoken."
    | some q => .ok (.num q)
  | .bool _ =>
    if raw = "true".toList then .ok (.bool true)
    else if raw = "false".toList then .ok (.bool false)
    else badRequest "Invalid boolean value in $skiptoken."
  | .str _ => .ok (.str raw)

def compareRowAgainstToken (row : Row) :
    List OrderDescriptor → List Text → Except HttpError Ordering
  | item :: rest, raw :: raws => do
    let rowValue := extractFieldValue row item.field
    let tokenValue ← coerceTokenValue rt raw rowValue
    match directed item.direction (compareValues rt rowValue tokenValue) with
    | .eq => compareRowAgainstToken row rest raws
    | order => return order
  | _, _ => .ok .eq

def rowsAfter (descriptors : List OrderDescriptor) (values : List Text) :
    List Row → Except HttpError (List Row)
  | [] => .ok []
  | row :: rows => do
    let order ← compareRowAgainstToken rt row descriptors values
    let rest ← rowsAfter descriptors values rows
    return if order = .gt then row :: rest else rest

def filterRowsAfterSkipToken (rows : List Row) (descriptors : List OrderDescriptor)
    (token : Option (List Text)) : Except HttpError (List Row) :=
  match token with
  | none => .ok rows
  | some values => rowsAfter rt descriptors values rows

def applyServerDrivenPaging (rows : List Row) (descriptors : List OrderDescriptor)
    (pageSize : Nat) : Except HttpError (List Row × Option (List Text)) :=
  Pages.cut (createSkipToken rt descriptors) pageSize rows

end Tokens

/-! ## The last stage -/

/-- The last stage of a plan: its columns and the order and the cut that follow the aggregation. -/
structure Stage where
  groupBy : List Text
  aliases : List Text
  orderBy : List OrderDescriptor
  skip : Option Nat
  top : Option Nat

def addDescriptor (descriptors : List OrderDescriptor) (item : OrderDescriptor) :
    List OrderDescriptor :=
  if item.field = [] ∨ item.field ∈ descriptors.map (·.field) then descriptors
  else descriptors ++ [item]

def buildApplyOrderDescriptors (stage : Stage) : List OrderDescriptor :=
  let ordered := stage.orderBy.foldl addDescriptor []
  if ordered ≠ [] then ordered
  else
    let columns := ((stage.groupBy ++ stage.aliases).map (⟨·, .asc⟩)).foldl addDescriptor []
    if columns ≠ [] then columns else [⟨"value".toList, .asc⟩]

def sliceResults (rows : List Row) (offset limit : Option Nat) : List Row :=
  let result := rows.drop (offset.getD 0)
  match limit with
  | none => result
  | some limit => result.take limit

/-! ## Page sizes -/

/-- `getPaginationLimits` and the settings beside it. What is missing sets no limit, and
`coerceLimit` drops what is not positive. -/
structure PaginationLimits where
  strict : Bool
  pageSize : Nat
  maxTop : Option Nat
  maxSkip : Option Nat
  maxPageSize : Option Nat
  maxApplyPageSize : Option Nat
  maxTop_pos : ∀ limit ∈ maxTop, 0 < limit
  maxPageSize_pos : ∀ limit ∈ maxPageSize, 0 < limit
  maxApplyPageSize_pos : ∀ limit ∈ maxApplyPageSize, 0 < limit

def clamp (value : Nat) : Option Nat → Nat
  | none => value
  | some limit => min value limit

def resolvePageSize (limits : PaginationLimits) (maxPageSize requested : Option Nat) : Nat :=
  let base := clamp (if 0 < limits.pageSize then limits.pageSize else 200) maxPageSize
  match requested with
  | none => base
  | some requested =>
    if requested = 0 then base
    else if maxPageSize.any (· < requested) then clamp base maxPageSize
    else min requested base

/-! ## Requests -/

/-- The system query options next to `$apply`. -/
structure ListOptions where
  orderBy : List OrderDescriptor
  skip : Option Nat
  top : Option Nat

/-- The options of a next link: `buildNextLink` leaves `$skip` out. -/
def ListOptions.next (options : ListOptions) : ListOptions := { options with skip := none }

/-- What the checks of a request depend on. -/
structure ListContext where
  limits : PaginationLimits
  /-- The properties and structured paths that `$orderby` may name. -/
  orderable : List Text
  /-- `planHasInternalOrder`. -/
  pipelineHasOrder : Bool

def checkOptions (context : ListContext) (options : ListOptions) : Except HttpError Unit :=
  if context.pipelineHasOrder ∧ options.orderBy ≠ [] then
    badRequest
      "Combining $orderby outside $apply with orderby() inside the pipeline is not supported."
  else if context.limits.strict ∧
      (options.top.any fun top => context.limits.maxTop.any (· < top)) then
    badRequest "The $top value exceeds the maximum allowed."
  else
    match options.orderBy.find? fun item => item.field ∉ context.orderable with
    | some item => badRequest ("Unknown property in $orderby: " ++ String.ofList item.field)
    | none =>
      if context.limits.strict ∧
          (options.skip.any fun skip => context.limits.maxSkip.any (· < skip)) then
        badRequest "$skip exceeds maximum allowed."
      else .ok ()

/-- `baseFilter.limit`. -/
def originalTop (limits : PaginationLimits) (options : ListOptions) : Option Nat :=
  if limits.strict then options.top
  else match limits.maxTop with
    | none => options.top
    | some cap => some (clamp cap options.top)

def applyPageSize (limits : PaginationLimits) (stage : Stage) (options : ListOptions) : Nat :=
  clamp (resolvePageSize limits (limits.maxApplyPageSize.or limits.maxPageSize)
    (originalTop limits options)) stage.top

/-! ## Databases -/

/-- How a database compares the values of a column with each other and with a parameter of a query,
and in which order it returns rows that no `ORDER BY` tells apart. -/
structure Database where
  arrange : Option (List Text) → List Row → List Row
  arrange_perm : ∀ token rows, (arrange token rows).Perm rows
  order : Scalar → Scalar → Ordering
  equals : Scalar → Text → Truth
  greater : Scalar → Text → Truth
  less : Scalar → Text → Truth

namespace Database

variable (db : Database)

/-- `buildSkipTokenPredicate`: the branch for each field, the fields before it being equal. -/
def skipTokenBranches (row : Row) (equal : List Truth) :
    List OrderDescriptor → List Text → List Truth
  | item :: rest, value :: values =>
    let comparison := match item.direction with
      | .asc => db.greater (row item.field) value
      | .desc => db.less (row item.field) value
    Truth.all (equal ++ [comparison]) ::
      skipTokenBranches row (equal ++ [db.equals (row item.field) value]) rest values
  | _, _ => []

def passesSkipToken (descriptors : List OrderDescriptor) (token : Option (List Text))
    (row : Row) : Bool :=
  token.all fun values => Truth.any (db.skipTokenBranches row [] descriptors values) = .true

/-- `composeFinalQuery` on the rows of the last stage. There is an `ORDER BY` only where the stage
has one; its offset and its limit are part of each query. -/
def select (stage : Stage) (descriptors : List OrderDescriptor) (pageSize : Nat)
    (token : Option (List Text)) (rows : List Row) : List Row :=
  let found := db.arrange token (rows.filter (db.passesSkipToken descriptors token))
  sliceResults (sortBy db.order stage.orderBy found) stage.skip
    (some (clamp (pageSize + 1) stage.top))

/-- The paging of the executors. -/
def execute (rt : TokenRuntime) (stage : Stage) (descriptors : List OrderDescriptor)
    (pageSize : Nat) (token : Option (List Text)) (rows : List Row) :
    Except HttpError (List Row × Option (List Text)) := do
  let found := db.select stage descriptors pageSize token rows
  if found.length ≤ pageSize then return (found, none)
  else match (found.take pageSize).getLast? with
    | none => return (found.take pageSize, none)
    | some last =>
      let values ← skipTokenValues rt (fun row field => row field) last descriptors
      return (found.take pageSize, values)

end Database

/-! ## Lists -/

/-- Where the rows come from: the executor of the entity set, or the controller itself where there
is none or it declines. -/
inductive Source where
  | memory
  | database (db : Database)

/-- The rows that the last stage leaves, in memory: its order, then its cut. -/
def Stage.result (rt : TokenRuntime) (stage : Stage) (rows : List Row) : List Row :=
  sliceResults (orderResults rt rows stage.orderBy) stage.skip stage.top

/-- The rows of a list in memory, in the order that they are paged in. -/
def orderedRows (rt : TokenRuntime) (stage : Stage) (options : ListOptions) (rows : List Row) :
    List Row :=
  let working := stage.result rt rows
  let ordered := if stage.orderBy = [] then orderResults rt working options.orderBy else working
  orderResults rt ordered (buildApplyOrderDescriptors stage)

/-- The answer of `list` to one request: the rows of a page and the values of the next token. -/
def listApply (rt : TokenRuntime) (context : ListContext) (source : Source) (stage : Stage)
    (rows : List Row) (options : ListOptions) (token : Option (List Text)) :
    Except HttpError (List Row × Option (List Text)) := do
  checkOptions context options
  let descriptors := buildApplyOrderDescriptors stage
  let pageSize := applyPageSize context.limits stage options
  match source with
  | .memory =>
    let ordered ← filterRowsAfterSkipToken rt (orderedRows rt stage options rows) descriptors token
    applyServerDrivenPaging rt ordered descriptors pageSize
  | .database db => db.execute rt stage descriptors pageSize token rows

/-- The answer to the first request, and to the request that a next link makes. -/
def fetchApply (rt : TokenRuntime) (context : ListContext) (source : Source) (stage : Stage)
    (rows : List Row) (options : ListOptions) (token : Option (List Text)) :
    Except HttpError (List Row × Option (List Text)) :=
  listApply rt context source stage rows (if token = none then options else options.next) token

end Apply

end LoopbackOData
