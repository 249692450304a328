import LoopbackOData.Filter.Including

/-!
# Counting and reading the entities of a filter

What `count`, and `find` for a filter with lambdas, make of a parsed `$filter` where the data source
is not one that takes predicates as SQL: a `where` clause for the repository, and the rest evaluated
in memory on the entities that are found. Outside of strict mode, and without `$search`.
-/

namespace LoopbackOData

namespace InMemory

open Aggregation Injecting Outcome ThreeValued

open Apply (TokenRuntime orderBy orderValues)

set_option autoImplicit false

/-- The settings of an entity set that bear on its filters, and its model. -/
structure ReadSettings where
  options : ParseOptions
  notStrict : options.strict = false
  models : NavigationModels
  entityCtor : Nat
  maxExpandDepth : Nat
  isRelation : Text → Bool
  isToMany : Text → Bool
  /-- `coerceFilterLiteralForProperty`. -/
  coerceLiteral : Text → Scalar → Except HttpError Scalar
  maxLambdaScanRows : Option Rat
  maxApplyResultSize : Option Rat
  maxPostFilterScanRows : Option Rat
  /-- The number of an array that is made while a request is handled. -/
  fresh : Nat

/-- The entities as they are stored, with all their relations, and which of them a `where` clause
finds. -/
structure EntityRepository where
  rows : List Cell
  selects : Where → Cell → Bool

/-! ## Literals -/

section Coercion

variable (coerceLiteral : Text → Scalar → Except HttpError Scalar)

def coerceLeaf : Leaf → Except HttpError Leaf
  | .comparison field comparator (.list values) =>
    if comparator = .inq ∨ comparator = .nin then do
      let values ← values.mapM fun value =>
        if value = .null then .ok .null else coerceLiteral field value
      return .comparison field comparator (.list values)
    else .ok (.comparison field comparator (.list values))
  | .comparison field comparator (.single value) => do
    return .comparison field comparator (.single (← coerceLiteral field value))
  | leaf => .ok leaf

mutual

def coerceExpression : ParsedExpression → Except HttpError ParsedExpression
  | .leaf leaf => do return .leaf (← coerceLeaf coerceLiteral leaf)
  | .logical type expressions => do return .logical type (← coerceExpressions expressions)
  | .not expr => do return .not (← coerceExpression expr)
  | .lambda type path aliasName predicate => do
    return .lambda type path aliasName (← coerceExpression predicate)

def coerceExpressions : List ParsedExpression → Except HttpError (List ParsedExpression)
  | [] => .ok []
  | expr :: rest => do
    let first ← coerceExpression expr
    return first :: (← coerceExpressions rest)

end

def coerceFilterExpressionLiterals :
    Option ParsedExpression → Except HttpError (Option ParsedExpression)
  | none => .ok none
  | some expr => (coerceExpression coerceLiteral expr).map some

end Coercion

/-! ## The parts of a filter -/

/-- A `$filter` as `count` and `find` divide it up. -/
structure FilterParts where
  whereClause : Option Where
  postFilter : Option ParsedExpression
  navigationFilter : Option ParsedExpression
  lambdas : List LambdaExpression
  lambdaExpression : Option ParsedExpression

def combinePostFilterExpressions (left right : Option ParsedExpression) : Option ParsedExpression :=
  match left, right with
  | none, right => right
  | left, none => left
  | some left, some right => some (.logical .and [left, right])

section Parts

variable (settings : ReadSettings)

def isPrimitiveModelProperty (model : Nat) (name : Text) : Bool :=
  ((settings.models model).bind (·.property name)).any Option.isSome

/-- A path over relations to one entity, to a property there. -/
def isPushdownPath (field : Text) (primitive : Bool) : Bool :=
  if '/' ∉ field then false
  else match resolveNavigationPath settings.models settings.maxExpandDepth settings.entityCtor field with
    | .ok resolved =>
      resolved.joins.length ≠ 0 && resolved.joins.all (·.relationType ≠ .hasMany) &&
        resolved.propertyPath.any fun property => '/' ∉ property &&
          (!primitive || isPrimitiveModelProperty settings resolved.targetModel property)
    | .error _ => false

mutual

def containsNavigationPushdownFilter : ParsedExpression → Bool
  | .leaf (.comparison field _ _) => isPushdownPath settings field false
  | .leaf (.transformcmp _ field _ _) => isPushdownPath settings field false
  | .leaf (.function _ field _ _ _ _) => isPushdownPath settings field true
  | .leaf _ => false
  | .logical _ expressions => anyNavigationPushdownFilter expressions
  | .not expr => containsNavigationPushdownFilter expr
  | .lambda _ _ _ predicate => containsNavigationPushdownFilter predicate

def anyNavigationPushdownFilter : List ParsedExpression → Bool
  | [] => false
  | expr :: rest => containsNavigationPushdownFilter expr || anyNavigationPushdownFilter rest

end

def rejectQuery : FilterError → HttpError
  | .error message => ⟨400, message⟩
  | .badRequest message _ => ⟨400, message⟩
  | .unsupportedFilter functions =>
    ⟨400, "Unsupported filter functions: " ++ ", ".intercalate functions⟩
  | .lambdaRejected message _ _ => ⟨400, message⟩
  | .outOfFuel => ⟨500, "Internal Server Error"⟩

/-- The where expression of a filter, divided between the repository and memory. -/
def divideWhere (filter : ParsedODataQuery) (postFilter : Option ParsedExpression)
    (whereExpression : Option ParsedExpression) : Except HttpError FilterParts :=
  let splitWhere := splitWhereExpression settings.models settings.maxExpandDepth settings.entityCtor
    whereExpression
  let navigates := splitWhere.structuredExpr.any (containsNavigationPushdownFilter settings)
  let navigationFilter := if navigates then splitWhere.structuredExpr else none
  let postFilter := if navigates then postFilter
    else combinePostFilterExpressions postFilter splitWhere.structuredExpr
  let parts (whereClause : Option Where) (postFilter : Option ParsedExpression) : FilterParts :=
    ⟨whereClause, postFilter, navigationFilter, filter.lambdas, filter.lambdaExpression⟩
  match splitWhere.repoExpr with
  | none => .ok (parts none postFilter)
  | some repoExpr =>
    match buildWhereFromParsedExpression repoExpr settings.options with
    | .ok clause => .ok (parts (some clause) postFilter)
    | .error (.unsupportedFilter _) =>
      .ok (parts none (combinePostFilterExpressions postFilter (some repoExpr)))
    | .error err => .error (rejectQuery err)

/-- The parts that `find` reads; the post-filter of the query comes first. -/
def findParts (filter : ParsedODataQuery) : Except HttpError FilterParts := do
  let postFilter ← coerceFilterExpressionLiterals settings.coerceLiteral filter.postFilter
  let whereExpression ← coerceFilterExpressionLiterals settings.coerceLiteral filter.whereExpression
  divideWhere settings filter postFilter whereExpression

/-- The parts that `count` reads; the post-filter of the query comes last. -/
def countParts (filter : ParsedODataQuery) : Except HttpError FilterParts := do
  let whereExpression ← coerceFilterExpressionLiterals settings.coerceLiteral filter.whereExpression
  let parts ← divideWhere settings filter none whereExpression
  let postFilter ← coerceFilterExpressionLiterals settings.coerceLiteral filter.postFilter
  return { parts with postFilter := combinePostFilterExpressions parts.postFilter postFilter }

def FilterParts.hasLambdas (parts : FilterParts) : Bool :=
  !parts.lambdas.isEmpty || parts.lambdaExpression.isSome

def FilterParts.rootLambdas (parts : FilterParts) : List LambdaExpression :=
  if parts.lambdas ≠ [] then parts.lambdas
  else match parts.lambdaExpression with
    | some expr => collectRootLambdasFromExpression expr
    | none => []

/-! ### Filters over navigation properties -/

/-- The fields that `collectNavigationIncludePathsFromExpression` looks at. -/
def navigationFields : Leaf → List Text
  | .transformcmp .. => []
  | leaf => leaf.fields

def navigationIncludePath (field : Text) : Option (List Text) :=
  if '/' ∉ field then none
  else match resolveNavigationPath settings.models settings.maxExpandDepth settings.entityCtor field with
    | .ok resolved =>
      if resolved.joins.length = 0 ∨ resolved.joins.any (·.relationType = .hasMany) then none
      else some (resolved.joins.map (·.relationName))
    | .error _ => none

mutual

def navigationIncludePaths : ParsedExpression → List (List Text)
  | .leaf leaf => (navigationFields leaf).filterMap (navigationIncludePath settings)
  | .logical _ expressions => allNavigationIncludePaths expressions
  | .not expr => navigationIncludePaths expr
  | .lambda _ _ _ predicate => navigationIncludePaths predicate

def allNavigationIncludePaths : List ParsedExpression → List (List Text)
  | [] => []
  | expr :: rest => navigationIncludePaths expr ++ allNavigationIncludePaths rest

end

def ensureNavigationInclusionForExpression (expr : ParsedExpression)
    (entries : List NormalizedInclusion) : List NormalizedInclusion :=
  ((navigationIncludePaths settings expr).eraseDups.map toIncludePath).foldl
    (fun entries path => ensureIncludePath path entries) entries

/-- No data source takes the filter over navigation properties: it becomes part of the post-filter,
and what it reads is included. -/
def withoutPushdown (parts : FilterParts) (entries : List NormalizedInclusion) :
    Except HttpError (FilterParts × List NormalizedInclusion) :=
  match parts.navigationFilter with
  | none => .ok (parts, entries)
  | some navigationFilter =>
    if parts.hasLambdas then
      badRequest ("Combining navigation-property filters with lambda expressions is not supported " ++
        "for pushdown.")
    else
      let postFilter := combinePostFilterExpressions parts.postFilter (some navigationFilter)
      .ok ({ parts with postFilter, navigationFilter := none },
        match postFilter with
        | some expr => ensureNavigationInclusionForExpression settings expr entries
        | none => entries)

end Parts

/-! ## Evaluating in memory -/

section Reading

variable (settings : ReadSettings) (rt : TokenRuntime) (repository : EntityRepository)

/-- A configured limit, or the standard one where it is not positive. -/
def scanLimit (value : Rat) (standard : Nat) : Nat :=
  if 0 < value then (if 0 < value.floor.toNat then value.floor.toNat else standard) else standard

def resolveMaxLambdaScanRows : Nat :=
  scanLimit (settings.maxLambdaScanRows.getD (settings.maxApplyResultSize.getD 2000)) 2000

def resolveMaxPostFilterScanRows : Nat :=
  scanLimit (settings.maxPostFilterScanRows.getD 5000) 5000

def EntityRepository.found (whereClause : Option Where) : List Cell :=
  repository.rows.filter fun row => whereClause.all fun clause => repository.selects clause row

/-- `repository.find` with one row more than may be read. -/
def scanEntities (whereClause : Option Where) (entries : List NormalizedInclusion) (limit : Nat)
    (message : String) : Except HttpError (List Cell) :=
  let entities := ((repository.found whereClause).take (limit + 1)).map
    (fetchEntity settings.isRelation entries)
  if limit < entities.length then badRequest message else .ok entities

def scanForLambdas (whereClause : Option Where) (entries : List NormalizedInclusion) :
    Except HttpError (List Cell) :=
  scanEntities settings repository whereClause entries (resolveMaxLambdaScanRows settings)
    ("Lambda filter scan exceeds the server limit of " ++ toString (resolveMaxLambdaScanRows settings)
      ++ " rows. Add $top or refine $filter.")

def scanForPostFilter (whereClause : Option Where) (entries : List NormalizedInclusion) :
    Except HttpError (List Cell) :=
  scanEntities settings repository whereClause entries (resolveMaxPostFilterScanRows settings)
    ("Post-filter scan exceeds the server limit of " ++
      toString (resolveMaxPostFilterScanRows settings) ++ " rows. Refine $filter.")

/-- The lambdas and then the post-filter, on the entities that were found. -/
def filterByLambdas (parts : FilterParts) (entities : List Cell) : List Cell :=
  let plain := entities.map
    (normalizeLambdaCollections settings.fresh settings.isToMany parts.rootLambdas)
  let filtered := match parts.lambdaExpression with
    | some expr => applyPostFilter rt plain (some expr)
    | none => filterEntitiesByLambdas rt plain parts.lambdas
  applyPostFilter rt filtered parts.postFilter

def parseFilterQuery (filterExpr : Option Text) : Except HttpError ParsedODataQuery :=
  match parseODataQuery rt.toRuntime settings.options filterExpr with
  | .ok filter => .ok filter
  | .error err => .error (rejectQuery err)

def count (filterExpr : Option Text) : Except HttpError Nat := do
  let filter ← parseFilterQuery settings rt filterExpr
  let parts ← countParts settings filter
  let entries ← ensureLambdasInclusion [] parts.rootLambdas
  let (parts, entries) ← withoutPushdown settings parts entries
  if parts.hasLambdas then do
    let entities ← scanForLambdas settings repository parts.whereClause entries
    return (filterByLambdas settings rt parts entities).length
  else match parts.postFilter with
    | some expr => do
      let entities ← scanForPostFilter settings repository parts.whereClause entries
      return (applyPostFilter rt entities (some expr)).length
    | none => return (repository.found parts.whereClause).length

/-- `orderResults` on entities. -/
def orderEntities (entities : List Cell) (order : List OrderDescriptor) : List Cell :=
  entities.mergeSort fun a b =>
    orderBy (orderValues rt) order (fun name => comparedAs rt (a.get name))
      (fun name => comparedAs rt (b.get name)) != .gt

def sliceEntities (entities : List Cell) (offset : Nat) (limit : Option Nat) : List Cell :=
  match limit with
  | none => entities.drop offset
  | some limit => (entities.drop offset).take limit

/-- `find` for a filter with lambdas: the inline count, and the entities of the answer before they
are decorated. `entries` are the relations that are read besides. -/
def findByLambdas (filterExpr : Option Text) (entries : List NormalizedInclusion)
    (order : List OrderDescriptor) (requestedOffset : Nat) (requestedLimit : Option Nat) :
    Except HttpError (Nat × List Cell) := do
  let filter ← parseFilterQuery settings rt filterExpr
  let parts ← findParts settings filter
  let entries ← ensureLambdasInclusion entries parts.rootLambdas
  let (parts, entries) ← withoutPushdown settings parts entries
  let entities ← scanForLambdas settings repository parts.whereClause entries
  let filtered := filterByLambdas settings rt parts entities
  return (filtered.length,
    sliceEntities (orderEntities rt filtered order) requestedOffset requestedLimit)

end Reading

end InMemory

end LoopbackOData
