import LoopbackOData.Apply.Aggregation
import LoopbackOData.Apply.Paging
import LoopbackOData.Filter.Decompose
import LoopbackOData.Filter.Years

/-!
# Filters in memory

`evaluatePredicate`: the truth of a parsed filter for an entity that was read together with its
related entities. What a lambda ranges over, and how a path finds its range variable, is what the
meaning of filters over the graph of these entities says.
-/

namespace LoopbackOData

namespace InMemory

open Aggregation

open Apply (TokenRuntime compareValues textOf)

set_option autoImplicit false

/-! ## Values -/

section Values

variable (rt : TokenRuntime)

mutual

/-- `String(value)`. -/
def cellText : Cell → Text
  | .undefined => "undefined".toList
  | .null => "null".toList
  | .bool b => (if b then "true" else "false").toList
  | .number q => rt.numberToString q
  | .string s => s
  | .date ms _ => rt.dateText ms
  | .array items _ => List.intercalate [','] (itemTexts items)
  | .record _ _ => "[object Object]".toList

/-- An array writes nothing for `undefined` and `null`. -/
def itemTexts : List Cell → List Text
  | [] => []
  | item :: items => (if item.isNullish then [] else cellText item) :: itemTexts items

end

/-- A value as comparisons see it: of an object that is no date they see the text. -/
def comparedAs : Cell → Scalar
  | .undefined => .undefined
  | .null => .null
  | .bool b => .bool b
  | .number q => .num q
  | .string s => .str s
  | .date ms _ => .date ms
  | .array items object => .str (cellText rt (.array items object))
  | .record fields object => .str (cellText rt (.record fields object))

/-- `compareValues` with the right-hand side of a comparison. -/
def compareLiteral (left : Cell) : Literal → Ordering
  | .single value => compareValues rt (comparedAs rt left) value
  | .list values =>
    if left.isNullish then .lt
    else compareText (cellText rt left) (List.intercalate [','] (values.map fun value =>
      if value.isNullish then [] else textOf rt value))

/-- How the result of `compareValues` is read; the lists have no order. -/
def ordersAs : Comparator → Ordering → Bool
  | .eq, o => o = .eq
  | .neq, o => o ≠ .eq
  | .gt, o => o = .gt
  | .gte, o => o ≠ .lt
  | .lt, o => o = .lt
  | .lte, o => o ≠ .gt
  | .inq, _ => false
  | .nin, _ => false

/-- `null` in a list stands for a missing value. -/
def isAmong (left : Cell) (values : List Scalar) : Bool :=
  if left.isNullish then values.contains .null
  else (values.filter (· ≠ .null)).any fun value => compareValues rt (comparedAs rt left) value = .eq

def evaluateComparison (left : Cell) : Comparator → Literal → Bool
  | .inq, .list values => isAmong rt left values
  | .inq, .single _ => false
  | .nin, .list values => !isAmong rt left values
  | .nin, .single _ => false
  | comparator, value => ordersAs comparator (compareLiteral rt left value)

def evaluateEquality : Equality → Bool → Bool
  | .eq, same => same
  | .neq, same => !same

/-- `value.indexOf(needle)`, counted in code units. -/
def jsIndexOf (needle s : Text) : Int :=
  match s.tails.findIdx? (needle.isPrefixOf ·) with
  | some i => jsLength (s.take i)
  | none => -1

/-- `value.substr(start, length)` and `value.slice(start)`, in code units. -/
def jsSubstring (s : Text) (start : Rat) (length : Option Rat) : List Nat :=
  let rest := (s.flatMap utf16).drop (max 0 start).floor.toNat
  match length with
  | some length => rest.take length.floor.toNat
  | none => rest

/-! ## Parts of dates -/

/-- `new Date(value)` of a number that is in range. -/
def timeClip (q : Rat) : Option Int :=
  let ms := if 0 ≤ q then q.floor else q.ceil
  if isTime ms then some ms else none

def timeOf : Cell → Option Int
  | .date ms _ => some ms
  | .string s => rt.dateOf s
  | .number q => timeClip q
  | _ => none

/-- The days before each month of a year, January being the first. -/
def monthStarts (leap : Bool) : List Int :=
  [0, 31, 59, 90, 120, 151, 181, 212, 243, 273, 304, 334].mapIdx fun i day =>
    if leap && 2 ≤ i then day + 1 else day

def isLeapYear (year : Int) : Bool := dayFromYear (year + 1) - dayFromYear year = 366

/-- The starts of the months up to a day of the year: as many as the number of its month. -/
def monthsUpTo (leap : Bool) (dayOfYear : Int) : List Int :=
  (monthStarts leap).filter (· ≤ dayOfYear)

def extractDatePart (ms : Int) : DatePart → Int
  | .month => (monthsUpTo leap dayOfYear).length
  | .day => dayOfYear - (monthsUpTo leap dayOfYear).getLastD 0 + 1
  | .hour => ms % msPerDay / 3600000
  | .minute => ms % 3600000 / 60000
  | .second => ms % 60000 / 1000
where
  year : Int := yearFromTime ms
  leap : Bool := isLeapYear year
  dayOfYear : Int := ms / msPerDay - dayFromYear year

/-! ## Expressions without subexpressions -/

/-- `resolveFunctionArgValue`, as the text that is made of it; nothing for a missing value. -/
def functionArgText (value : Text → Cell) : FunctionArg → Option Text
  | .literal literal => if literal.isNullish then none else some (textOf rt literal)
  | .field name transform =>
    let raw := value name
    if raw.isNullish then none
    else some (match transform with
      | none => cellText rt raw
      | some transform => rt.transform transform (cellText rt raw))

def evaluateStringFunction (value : Text → Cell) (name : StringFunction) (args : List FunctionArg) :
    Option Text :=
  match name with
  | .trim => (args.head?.bind (functionArgText rt value)).map trimText
  | .concat => some (args.flatMap fun arg => (functionArgText rt value arg).getD [])

/-- `Math.round`, `Math.floor` and `Math.ceil`. -/
def applyRounding : FieldFunction → Rat → Option Int
  | .round, q => some (q + 1 / 2).floor
  | .floor, q => some q.floor
  | .ceiling, q => some q.ceil
  | .year, _ => none

/-- The comparator of a rounding is not looked at. -/
def evaluateFieldFunction (name : FieldFunction) (value : Cell) (expected : Rat) : Bool :=
  match value with
  | .date ms _ => name = .year && (yearFromTime ms : Rat) = expected
  | value =>
    match (toNumber value).bind (applyRounding name) with
    | some rounded => (rounded : Rat) = expected
    | none => false

/-- `contains`, `startswith` and `endswith` of texts. -/
def matchesText (name : StringPredicate) (source needle : Text) : Bool :=
  match name with
  | .contains => needle <:+: source
  | .startswith => needle <+: source
  | .endswith => needle <:+ source

/-- The truth of an expression without subexpressions, `value` giving the value of a field. -/
def evaluateLeaf (value : Text → Cell) : Leaf → Bool
  | .comparison field comparator literal => evaluateComparison rt (value field) comparator literal
  | .transformcmp transform field comparator literal =>
    match value field, literal with
    | .undefined, none => comparator = .eq
    | .null, none => comparator = .eq
    | .undefined, some _ => comparator = .neq
    | .null, some _ => comparator = .neq
    | .string _, none => comparator = .neq
    | .string s, some literal => evaluateEquality comparator (rt.transform transform s = literal)
    | _, _ => false
  | .function name field arg caseInsensitive _ _ =>
    match value field with
    | .string s =>
      let arg := if arg.isNullish then [] else textOf rt arg
      if caseInsensitive then matchesText name (rt.toLowerCase s) (rt.toLowerCase arg)
      else matchesText name s arg
    | _ => false
  | .stringfncmp name args comparator literal =>
    match evaluateStringFunction rt value name args with
    | some result => evaluateEquality comparator (result = literal)
    | none => false
  | .datepart part field comparator expected =>
    match timeOf rt (value field) with
    | some ms => ordersAs comparator (compare (extractDatePart ms part : Rat) expected)
    | none => false
  | .fncmp name field _ expected => evaluateFieldFunction name (value field) expected
  | .indexofcmp field comparator expected needle =>
    match value field with
    | .string s =>
      ordersAs comparator
        (compare (jsIndexOf (rt.toLowerCase needle) (rt.toLowerCase s) : Rat) expected)
    | _ => false
  | .substrcmp field start length comparator literal =>
    match value field with
    | .string s => evaluateEquality comparator (jsSubstring s start length = literal.flatMap utf16)
    | _ => false
  | .lengthcmp field comparator expected =>
    let length := match value field with
      | .string s => jsLength s
      | .array items _ => items.length
      | _ => 0
    ordersAs comparator (compare (length : Rat) expected)

end Values

/-! ## Paths -/

def isTruthy : Cell → Bool
  | .undefined => false
  | .null => false
  | .bool b => b
  | .number q => q ≠ 0
  | .string s => s ≠ []
  | _ => true

/-- The values that one segment of a path leads to from an item. -/
def collectionStep (segment : Text) (item : Cell) : List Cell :=
  if item.isNullish then []
  else match item.get segment with
    | .array items _ => items
    | .undefined => []
    | .null => []
    | value => [value]

def resolveCollectionPath (source : Cell) (segments : List Text) : List Cell :=
  (segments.foldl (fun current segment => current.flatMap (collectionStep segment)) [source]).filter
    fun item => !item.isNullish

/-- `bindings?.[name]`, where it is looked at. -/
def boundSource (bindings : Bindings Cell) (name : Text) : Option Cell :=
  if name = [] then none else (bindings.lookup name).filter isTruthy

/-- The innermost range variable with its value; the entity itself outside of all lambdas. -/
structure Scope where
  current : Cell
  aliasName : Text
  bindings : Bindings Cell

def Scope.outside (entity : Cell) : Scope := ⟨entity, [], []⟩

def Scope.bind (scope : Scope) (aliasName : Text) (item : Cell) : Scope :=
  ⟨item, aliasName, (aliasName, item) :: scope.bindings⟩

def resolvePredicateValue (root : Cell) (scope : Scope) (path : Text) : Cell :=
  let segments := path.splitOn '/'
  match boundSource scope.bindings (segments.headD []) with
  | some bound => walkSegments bound segments.tail
  | none =>
    if segments.headD [] = scope.aliasName then walkSegments scope.current segments.tail
    else walkSegments root segments

/-- What a lambda inside the predicate ranges over. -/
def lambdaItems (root : Cell) (bindings : Bindings Cell) (path : List Text) : List Cell :=
  match path.tail with
  | [] => resolveCollectionPath root path
  | rest =>
    match boundSource bindings (path.headD []) with
    | some source => resolveCollectionPath source rest
    | none => resolveCollectionPath root path

def quantify : LambdaType → List Cell → (Cell → Bool) → Bool
  | .any, items, holds => items.any holds
  | .all, items, holds => items.all holds

section Evaluation

variable (rt : TokenRuntime) (root : Cell)

mutual

def evaluatePredicate : ParsedExpression → Scope → Bool
  | .leaf leaf, scope => evaluateLeaf rt (resolvePredicateValue root scope) leaf
  | .logical .and expressions, scope => evaluateEvery expressions scope
  | .logical .or expressions, scope => evaluateSome expressions scope
  | .not expr, scope => !evaluatePredicate expr scope
  | .lambda lambdaType path aliasName predicate, scope =>
    if path = [] then false
    else quantify lambdaType (lambdaItems root scope.bindings path) fun item =>
      evaluatePredicate predicate (scope.bind aliasName item)

def evaluateEvery : List ParsedExpression → Scope → Bool
  | [], _ => true
  | expr :: rest, scope => evaluatePredicate expr scope && evaluateEvery rest scope

def evaluateSome : List ParsedExpression → Scope → Bool
  | [], _ => false
  | expr :: rest, scope => evaluatePredicate expr scope || evaluateSome rest scope

end

end Evaluation

/-- A filter that is evaluated for each entity of a result. -/
def applyPostFilter (rt : TokenRuntime) (data : List Cell) : Option ParsedExpression → List Cell
  | none => data
  | some expr => data.filter fun entity => evaluatePredicate rt entity expr (.outside entity)

/-- A lambda at the top of a filter. -/
def evaluateLambda (rt : TokenRuntime) (entity : Cell) (lambda : LambdaExpression) : Bool :=
  quantify lambda.type (resolveCollectionPath entity lambda.path) fun item =>
    evaluatePredicate rt entity lambda.predicate ((Scope.outside entity).bind lambda.aliasName item)

def filterEntitiesByLambdas (rt : TokenRuntime) (entities : List Cell)
    (lambdas : List LambdaExpression) : List Cell :=
  entities.filter fun entity => lambdas.all (evaluateLambda rt entity)

/-! ## The entities as a graph -/

/-- The scope that bindings stand for, innermost first. -/
def scopeOf (entity : Cell) (bindings : Bindings Cell) : Scope :=
  match bindings with
  | [] => .outside entity
  | (aliasName, item) :: rest => ⟨item, aliasName, (aliasName, item) :: rest⟩

theorem scopeOf_bindings (entity : Cell) (bindings : Bindings Cell) :
    (scopeOf entity bindings).bindings = bindings := by
  cases bindings <;> rfl

theorem scopeOf_bind (entity : Cell) (bindings : Bindings Cell) (aliasName : Text) (item : Cell) :
    (scopeOf entity bindings).bind aliasName item = scopeOf entity ((aliasName, item) :: bindings) := by
  rw [Scope.bind, scopeOf_bindings, scopeOf]

/-- The entities with what is related to them, and the truth of the leaves in memory. -/
def entityGraph (rt : TokenRuntime) : EntityGraph Cell where
  related item segment := (collectionStep segment item).filter fun item => !item.isNullish
  satisfies root bindings leaf :=
    evaluateLeaf rt (resolvePredicateValue root (scopeOf root bindings)) leaf = true

section Graph

variable {rt : TokenRuntime}

theorem collectionStep_of_isNullish {segment : Text} {item : Cell} (h : item.isNullish = true) :
    collectionStep segment item = [] := by
  rw [collectionStep, if_pos h]

/-- Values that are missing lead nowhere, so that it does not matter when they are left out. -/
theorem flatMap_collectionStep_filter (segment : Text) (items : List Cell) :
    (items.filter fun item => !item.isNullish).flatMap (collectionStep segment) =
      items.flatMap (collectionStep segment) := by
  induction items with
  | nil => rfl
  | cons item items ih =>
    rw [List.flatMap_cons]
    cases h : item.isNullish with
    | true =>
      rw [List.filter_cons_of_neg (by simp [h]), ih, collectionStep_of_isNullish h, List.nil_append]
    | false => rw [List.filter_cons_of_pos (by simp [h]), List.flatMap_cons, ih]

theorem follow_eq (path : List Text) (items : List Cell) :
    (entityGraph rt).follow (items.filter fun item => !item.isNullish) path =
      (path.foldl (fun current segment => current.flatMap (collectionStep segment)) items).filter
        fun item => !item.isNullish := by
  induction path generalizing items with
  | nil => rfl
  | cons segment path ih =>
    rw [EntityGraph.follow, List.foldl_cons, ← ih, ← flatMap_collectionStep_filter,
      List.filter_flatMap]
    rfl

/-- What a lambda with a path ranges over. -/
theorem follow_singleton {source : Cell} {path : List Text} (hpath : path ≠ []) :
    (entityGraph rt).follow [source] path = resolveCollectionPath source path := by
  obtain ⟨segment, rest, rfl⟩ := List.exists_cons_of_ne_nil hpath
  rw [EntityGraph.follow, List.flatMap_singleton, resolveCollectionPath, List.foldl_cons,
    List.flatMap_singleton]
  exact follow_eq rest (collectionStep segment source)

end Graph

/-! ## The evaluation is the meaning -/

mutual

/-- Every lambda has a path, and the segments of paths are not empty. -/
def Navigates : ParsedExpression → Prop
  | .leaf _ => True
  | .logical _ expressions => NavigatesAll expressions
  | .not expr => Navigates expr
  | .lambda _ path _ predicate => path ≠ [] ∧ [] ∉ path ∧ Navigates predicate

def NavigatesAll : List ParsedExpression → Prop
  | [] => True
  | expr :: rest => Navigates expr ∧ NavigatesAll rest

end

mutual

/-- The lambdas of an expression range over objects: a value like `0` or the empty text is not
taken for the value of a range variable. -/
def RangesOverObjects (rt : TokenRuntime) (root : Cell) :
    Bindings Cell → ParsedExpression → Prop
  | _, .leaf _ => True
  | bindings, .logical _ expressions => RangeOverObjects rt root bindings expressions
  | bindings, .not expr => RangesOverObjects rt root bindings expr
  | bindings, .lambda _ path aliasName predicate =>
    ∀ item ∈ (entityGraph rt).collection root bindings path,
      isTruthy item = true ∧ RangesOverObjects rt root ((aliasName, item) :: bindings) predicate

def RangeOverObjects (rt : TokenRuntime) (root : Cell) :
    Bindings Cell → List ParsedExpression → Prop
  | _, [] => True
  | bindings, expr :: rest =>
    RangesOverObjects rt root bindings expr ∧ RangeOverObjects rt root bindings rest

end

theorem navigatesAll_iff (expressions : List ParsedExpression) :
    NavigatesAll expressions ↔ ∀ expr ∈ expressions, Navigates expr := by
  induction expressions with
  | nil => simp [NavigatesAll]
  | cons expr rest ih => rw [NavigatesAll, ih, List.forall_mem_cons]

section Meaning

variable (rt : TokenRuntime) (root : Cell)

theorem rangeOverObjects_iff (bindings : Bindings Cell) (expressions : List ParsedExpression) :
    RangeOverObjects rt root bindings expressions ↔
      ∀ expr ∈ expressions, RangesOverObjects rt root bindings expr := by
  induction expressions with
  | nil => simp [RangeOverObjects]
  | cons expr rest ih => rw [RangeOverObjects, ih, List.forall_mem_cons]

theorem evaluateEvery_eq (expressions : List ParsedExpression) (scope : Scope) :
    evaluateEvery rt root expressions scope =
      expressions.all fun expr => evaluatePredicate rt root expr scope := by
  induction expressions with
  | nil => rw [evaluateEvery, List.all_nil]
  | cons expr rest ih => rw [evaluateEvery, ih, List.all_cons]

theorem evaluateSome_eq (expressions : List ParsedExpression) (scope : Scope) :
    evaluateSome rt root expressions scope =
      expressions.any fun expr => evaluatePredicate rt root expr scope := by
  induction expressions with
  | nil => rw [evaluateSome, List.any_nil]
  | cons expr rest ih => rw [evaluateSome, ih, List.any_cons]

variable {rt root} {bindings : Bindings Cell}

theorem mem_of_lookup {name : Text} {item : Cell} (h : bindings.lookup name = some item) :
    ∃ binding ∈ bindings, binding.2 = item := by
  induction bindings with
  | nil => cases h
  | cons binding rest ih =>
    rw [List.lookup_cons] at h
    split at h
    · exact ⟨binding, List.mem_cons_self, Option.some.inj h⟩
    · obtain ⟨found, hmem, heq⟩ := ih h
      exact ⟨found, List.mem_cons_of_mem _ hmem, heq⟩

/-- A range variable that stands for an object is found by its name. -/
theorem boundSource_eq (hobjects : ∀ binding ∈ bindings, isTruthy binding.2 = true) {name : Text}
    (hname : name ≠ []) : boundSource bindings name = bindings.lookup name := by
  rw [boundSource, if_neg hname]
  cases h : bindings.lookup name with
  | none => rfl
  | some item =>
    obtain ⟨binding, hmem, rfl⟩ := mem_of_lookup h
    rw [Option.filter_some, if_pos (hobjects binding hmem)]

theorem lambdaItems_eq (hobjects : ∀ binding ∈ bindings, isTruthy binding.2 = true)
    {path : List Text} (hpath : path ≠ []) (hsegments : [] ∉ path) :
    lambdaItems root bindings path = (entityGraph rt).collection root bindings path := by
  cases path with
  | nil => exact absurd rfl hpath
  | cons first rest =>
    cases rest with
    | nil => exact (follow_singleton (List.cons_ne_nil _ _)).symm
    | cons second rest =>
      have hfirst : first ≠ [] := by
        rintro rfl
        exact hsegments List.mem_cons_self
      rw [lambdaItems, EntityGraph.collection, List.tail_cons, List.headD_cons,
        boundSource_eq hobjects hfirst]
      cases bindings.lookup first with
      | none => exact (follow_singleton (List.cons_ne_nil _ _)).symm
      | some source => exact (follow_singleton (List.cons_ne_nil _ _)).symm

/-- The evaluation in memory is the meaning over the graph of the entities, under the bindings of
any lambdas: by induction on the expression, a lambda binding its variable to an object. -/
theorem evaluatePredicate_iff_holds (expr : ParsedExpression) (hnavigates : Navigates expr)
    (hbound : ∀ binding ∈ bindings, isTruthy binding.2 = true)
    (hobjects : RangesOverObjects rt root bindings expr) :
    evaluatePredicate rt root expr (scopeOf root bindings) = true ↔
      (entityGraph rt).Holds root bindings expr := by
  induction expr generalizing bindings with
  | leaf leaf =>
    rw [evaluatePredicate, EntityGraph.Holds]
    exact Iff.rfl
  | logical type expressions ih =>
    rw [Navigates, navigatesAll_iff] at hnavigates
    rw [RangesOverObjects, rangeOverObjects_iff] at hobjects
    have hmember : ∀ expr ∈ expressions,
        evaluatePredicate rt root expr (scopeOf root bindings) = true ↔
          (entityGraph rt).Holds root bindings expr := fun expr hexpr =>
      ih expr hexpr (hnavigates expr hexpr) hbound (hobjects expr hexpr)
    cases type with
    | and =>
      rw [evaluatePredicate, evaluateEvery_eq, List.all_eq_true, EntityGraph.holds_and]
      exact forall₂_congr hmember
    | or =>
      rw [evaluatePredicate, evaluateSome_eq, List.any_eq_true, EntityGraph.holds_or]
      exact exists_congr fun expr => and_congr_right (hmember expr)
  | not expr ih =>
    rw [Navigates] at hnavigates
    rw [RangesOverObjects] at hobjects
    rw [evaluatePredicate, EntityGraph.holds_not, ← ih hnavigates hbound hobjects,
      Bool.not_eq_true', Bool.not_eq_true]
  | lambda type path aliasName predicate ih =>
    obtain ⟨hpath, hsegments, hpredicate⟩ := (by rwa [Navigates] at hnavigates :
      path ≠ [] ∧ [] ∉ path ∧ Navigates predicate)
    rw [RangesOverObjects] at hobjects
    have hitem : ∀ item ∈ (entityGraph rt).collection root bindings path,
        evaluatePredicate rt root predicate (scopeOf root ((aliasName, item) :: bindings)) = true ↔
          (entityGraph rt).Holds root ((aliasName, item) :: bindings) predicate := by
      intro item hmem
      obtain ⟨htruthy, hinner⟩ := hobjects item hmem
      exact ih hpredicate (List.forall_mem_cons.mpr ⟨htruthy, hbound⟩) hinner
    rw [evaluatePredicate, if_neg hpath, scopeOf_bindings, lambdaItems_eq hbound hpath hsegments]
    simp only [scopeOf_bind]
    cases type with
    | any =>
      rw [quantify, List.any_eq_true, EntityGraph.holds_any]
      exact exists_congr fun item => and_congr_right (hitem item)
    | all =>
      rw [quantify, List.all_eq_true, EntityGraph.holds_all]
      exact forall₂_congr hitem

end Meaning

end InMemory

end LoopbackOData
