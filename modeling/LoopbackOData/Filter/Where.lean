import LoopbackOData.Filter.Expression
import LoopbackOData.Filter.Literals

/-!
# The `where` clause of a filter

`buildWhere`: the translation of a parsed filter into the `where` object of a LoopBack repository,
with negation pushed to the leaves.
-/

namespace LoopbackOData

set_option autoImplicit false

/-- The operators `buildWhere` writes into a condition. `le` is what the translation of
`ceiling(..) eq ..` writes; the `where` language calls this operator `lte`. -/
inductive WhereOperator where
  | eq | neq | gt | gte | lt | lte | inq | nin | le
  deriving DecidableEq, Repr

/-- What a property is mapped to: a value, an operator with its operand, or a pattern. -/
inductive Condition where
  | equals (value : Scalar)
  | operator (op : WhereOperator) (operand : Literal)
  | like (negated : Bool) (pattern : Text) (insensitive : Bool)
  deriving DecidableEq, Repr

/-- A `where` object; each one that `buildWhere` makes has a single key. -/
inductive Where where
  | and (clauses : List Where)
  | or (clauses : List Where)
  | not (clause : Where)
  | property (field : Text) (condition : Condition)
  deriving Repr

mutual

def Where.decEq : (a b : Where) → Decidable (a = b)
  | .and as, .and bs =>
    have := Where.decEqList as bs
    decidable_of_iff (as = bs) (by simp)
  | .or as, .or bs =>
    have := Where.decEqList as bs
    decidable_of_iff (as = bs) (by simp)
  | .not a, .not b =>
    have := Where.decEq a b
    decidable_of_iff (a = b) (by simp)
  | .property f c, .property f' c' => decidable_of_iff (f = f' ∧ c = c') (by simp)
  | .and _, .or _ => isFalse nofun
  | .and _, .not _ => isFalse nofun
  | .and _, .property .. => isFalse nofun
  | .or _, .and _ => isFalse nofun
  | .or _, .not _ => isFalse nofun
  | .or _, .property .. => isFalse nofun
  | .not _, .and _ => isFalse nofun
  | .not _, .or _ => isFalse nofun
  | .not _, .property .. => isFalse nofun
  | .property .., .and _ => isFalse nofun
  | .property .., .or _ => isFalse nofun
  | .property .., .not _ => isFalse nofun

def Where.decEqList : (as bs : List Where) → Decidable (as = bs)
  | [], [] => isTrue rfl
  | a :: as, b :: bs =>
    have := Where.decEq a b
    have := Where.decEqList as bs
    decidable_of_iff (a = b ∧ as = bs) (by simp)
  | [], _ :: _ => isFalse nofun
  | _ :: _, [] => isFalse nofun

end

instance : DecidableEq Where := Where.decEq

/-- The options of `parseODataQuery` that bear on `$filter`. -/
structure ParseOptions where
  strict : Bool := false
  maxFilterPatternLength : Option Rat := none
  maxSubstringStart : Option Rat := none
  maxSubstringLength : Option Rat := none
  maxFilterFieldNameLength : Option Rat := none
  maxLambdaExistsDepth : Option Rat := none
  maxInListItems : Option Rat := none

def readPositiveLimit (value : Option Rat) (fallback : Nat) : Nat :=
  match value with
  | none => fallback
  | some num => if num ≤ 0 then fallback else num.floor.toNat

def ParseOptions.patternLength (o : ParseOptions) : Nat :=
  readPositiveLimit o.maxFilterPatternLength 10000

def ParseOptions.substringStart (o : ParseOptions) : Nat :=
  readPositiveLimit o.maxSubstringStart 10000

def ParseOptions.substringLength (o : ParseOptions) : Nat :=
  readPositiveLimit o.maxSubstringLength 10000

def ParseOptions.fieldNameLength (o : ParseOptions) : Nat :=
  readPositiveLimit o.maxFilterFieldNameLength 256

def ParseOptions.inListItems (o : ParseOptions) : Nat :=
  readPositiveLimit o.maxInListItems 100

def dangerousFieldNames : List Text :=
  ["__proto__".toList, "prototype".toList, "constructor".toList]

/-- `/^[_A-Za-z][0-9A-Za-z_./]*$/`. -/
def isFilterFieldName (field : Text) : Bool :=
  field.head?.any (fun c => c = '_' || c.isAlpha) &&
    field.all (fun c => c.isAlphanum || c = '_' || c = '.' || c = '/')

def assertSafeFilterFieldName (options : ParseOptions) (field : Text) : Except FilterError Unit :=
  if field = [] then .error (.error "Filter field name is required.")
  else if jsLength field > options.fieldNameLength then
    .error (.error ("Filter field name exceeds maximum length of " ++
      toString options.fieldNameLength ++ "."))
  else if asciiLower field ∈ dangerousFieldNames then
    .error (.error "Filter field name is not allowed.")
  else if !isFilterFieldName field then
    .error (.error "Filter field name contains unsupported characters.")
  else .ok ()

def escapeLikeLiteral (input : Text) : Text :=
  input.flatMap fun c => if c = '\\' || c = '%' || c = '_' then ['\\', c] else [c]

def isInteger (q : Rat) : Bool := q.den = 1

def underscorePattern (options : ParseOptions) (length : Rat) : Except FilterError Text :=
  if length < 0 || !isInteger length then
    .error (.error "Filter pattern length must be a non-negative integer.")
  else if length > options.patternLength then
    .error (.error ("Filter pattern length exceeds maximum of " ++
      toString options.patternLength ++ "."))
  else .ok (List.replicate length.num.toNat '_')

def like (field pattern : Text) : Where := .property field (.like false pattern false)

def nlike (field pattern : Text) : Where := .property field (.like true pattern false)

def checkLength (value : Rat) : Except FilterError Unit :=
  if value < 0 then
    .error (.error "length comparison requires a non-negative integer value.")
  else if !isInteger value then
    .error (.error "length comparison requires an integer literal.")
  else .ok ()

/-- The texts of exactly, or of at least, so many characters. -/
def lengthWhere (options : ParseOptions) (field : Text) (comparator : Comparator) (value : Rat) :
    Except FilterError Where :=
  let isEmpty := Where.property field (.equals (.str []))
  let notEmpty := Where.property field (.operator .neq (.single (.str [])))
  let atLeast (pattern : Text) := like field (pattern ++ ['%'])
  let lessThan (pattern : Text) := nlike field (pattern ++ ['%'])
  match comparator with
  | .eq => if value = 0 then .ok isEmpty else (underscorePattern options value).map (like field)
  | .neq => if value = 0 then .ok notEmpty else (underscorePattern options value).map (nlike field)
  | .gt => if value = 0 then .ok notEmpty else (underscorePattern options (value + 1)).map atLeast
  | .gte => if value ≤ 0 then .ok (like field ['%']) else (underscorePattern options value).map atLeast
  | .lt => (underscorePattern options value).map lessThan
  | .lte => if value = 0 then .ok isEmpty else (underscorePattern options (value + 1)).map lessThan
  | _ => .error (.error "Unsupported length comparison.")

def translateLengthComparison (options : ParseOptions) (field : Text) (comparator : Comparator)
    (value : Rat) : Except FilterError Where := do
  assertSafeFilterFieldName options field
  checkLength value
  lengthWhere options field comparator value

/-- The comparators that stand for themselves in a condition. -/
def whereOperator : Comparator → WhereOperator
  | .eq => .eq
  | .neq => .neq
  | .gt => .gt
  | .gte => .gte
  | .lt => .lt
  | .lte => .lte
  | .inq => .inq
  | .nin => .nin

/-- `in` with a list; `null` in the list stands for a missing value. -/
def inqWhere (field : Text) (values : List Scalar) : Where :=
  let nonNull := values.filter (· ≠ .null)
  let isNull := Where.property field (.equals .null)
  let among := Where.property field (.operator .inq (.list nonNull))
  if .null ∈ values then if nonNull = [] then isNull else .or [isNull, among] else among

/-- The negation of `inqWhere`. -/
def ninWhere (field : Text) (values : List Scalar) : Where :=
  let nonNull := values.filter (· ≠ .null)
  let notNull := Where.property field (.operator .neq (.single .null))
  let notAmong := Where.property field (.operator .nin (.list nonNull))
  if .null ∈ values then if nonNull = [] then notNull else .and [notNull, notAmong] else notAmong

/-- `{ [field]: value }`, `{ [field]: { [comparator]: value } }` for the other comparators. -/
def buildComparison (options : ParseOptions) (field : Text) (comparator : Comparator)
    (value : Literal) : Except FilterError Where := do
  assertSafeFilterFieldName options field
  match comparator, value with
  | .inq, .list values =>
    checkItems values
    return inqWhere field values
  | .nin, .list values =>
    checkItems values
    return ninWhere field values
  | .inq, .single _ | .nin, .single _ =>
    .error (.badRequest "in operator requires a list." "in-operator-requires-list")
  | .eq, .single value => return .property field (.equals value)
  | comparator, value => return .property field (.operator (whereOperator comparator) value)
where
  checkItems (values : List Scalar) : Except FilterError Unit :=
    if values.length > options.inListItems then
      .error (.badRequest ("in list exceeds maximum of " ++ toString options.inListItems ++
        " items.") "in-list-too-large")
    else .ok ()

def likePattern (name : StringPredicate) (escaped : Text) : Text :=
  match name with
  | .contains => '%' :: escaped ++ ['%']
  | .startswith => escaped ++ ['%']
  | .endswith => '%' :: escaped

def predicateName : StringPredicate → String
  | .contains => "contains"
  | .startswith => "startswith"
  | .endswith => "endswith"

def buildFunction (options : ParseOptions) (name : StringPredicate) (field : Text) (arg : Scalar)
    (caseInsensitive negated : Bool) : Except FilterError Where := do
  assertSafeFilterFieldName options field
  match arg with
  | .str value =>
    return .property field (.like negated (likePattern name (escapeLikeLiteral value))
      caseInsensitive)
  | _ => .error (.error (predicateName name ++ " requires a string literal argument."))

def buildIndexOf (options : ParseOptions) (field : Text) (comparator : Comparator) (value : Rat)
    (needle : Text) : Except FilterError Where := do
  assertSafeFilterFieldName options field
  let pattern := '%' :: escapeLikeLiteral needle ++ ['%']
  if (comparator = .gte ∧ 0 ≤ value) ∨ (comparator = .gt ∧ -1 ≤ value) then
    return .property field (.like false pattern true)
  else if comparator = .eq ∧ value = -1 then
    return .property field (.like true pattern true)
  else .error (.error "Unsupported indexof comparison. Supported: ge 0, gt -1, eq -1.")

def checkSubstringLength (options : ParseOptions) : Option Rat → Except FilterError Unit
  | none => .ok ()
  | some length =>
    if length < 0 || !isInteger length then
      .error (.error "substring length must be a non-negative integer literal.")
    else if length > options.substringLength then
      .error (.error ("substring length exceeds maximum of " ++
        toString options.substringLength ++ "."))
    else .ok ()

def checkSubstringStart (options : ParseOptions) (start : Rat) : Except FilterError Unit :=
  if start < 0 || !isInteger start then
    .error (.error "substring start must be a non-negative integer literal.")
  else if start > options.substringStart then
    .error (.error ("substring start exceeds maximum of " ++
      toString options.substringStart ++ "."))
  else .ok ()

def buildSubstring (options : ParseOptions) (field : Text) (start : Rat) (length : Option Rat)
    (comparator : Equality) (literal : Text) : Except FilterError Where := do
  assertSafeFilterFieldName options field
  checkSubstringStart options start
  checkSubstringLength options length
  let pattern := List.replicate start.num.toNat '_' ++ escapeLikeLiteral literal ++
    (if length.isSome then ['%'] else [])
  return .property field (.like (comparator = .neq) pattern false)

/-- `DayFromYear` of the language standard. -/
def dayFromYear (year : Int) : Int :=
  365 * (year - 1970) + (year - 1969) / 4 - (year - 1901) / 100 + (year - 1601) / 400

/-- `new Date(Date.UTC(year, 0, 1, 0, 0, 0, 0))`. -/
def startOfYear (year : Rat) : Scalar :=
  let truncated : Int := if 0 ≤ year then year.floor else year.ceil
  let full := if 0 ≤ truncated ∧ truncated ≤ 99 then 1900 + truncated else truncated
  let ms := 86400000 * dayFromYear full
  if ms.natAbs ≤ 8640000000000000 then .date ms else .invalidDate

/-- The five comparators that the numeric functions support, as conditions on the interval from
`lower` to `upper` that one value of the function stands for. -/
def intervalWhere (field : Text) (comparator : Comparator) (unsupported : String)
    (eq : List (WhereOperator × Scalar)) (gte gt lte lt : WhereOperator × Scalar) :
    Except FilterError Where :=
  let clause (c : WhereOperator × Scalar) : Where :=
    .property field (.operator c.1 (.single c.2))
  match comparator with
  | .eq => .ok (.and (eq.map clause))
  | .gte => .ok (clause gte)
  | .gt => .ok (clause gt)
  | .lte => .ok (clause lte)
  | .lt => .ok (clause lt)
  | _ => .error (.error unsupported)

def comparatorName : Comparator → String
  | .eq => "eq"
  | .neq => "neq"
  | .gt => "gt"
  | .gte => "gte"
  | .lt => "lt"
  | .lte => "lte"
  | .inq => "inq"
  | .nin => "nin"

def buildFieldFunction (options : ParseOptions) (name : FieldFunction) (field : Text)
    (comparator : Comparator) (value : Rat) : Except FilterError Where := do
  assertSafeFilterFieldName options field
  let unsupported (name : String) := name ++ "() does not support comparator: " ++
    comparatorName comparator
  match name with
  | .year =>
    let start := startOfYear value
    let stop := startOfYear (value + 1)
    intervalWhere field comparator (unsupported "year") [(.gte, start), (.lt, stop)]
      (.gte, start) (.gte, stop) (.lt, stop) (.lt, start)
  | .floor =>
    intervalWhere field comparator (unsupported "floor") [(.gte, .num value), (.lt, .num (value + 1))]
      (.gte, .num value) (.gte, .num (value + 1)) (.lt, .num (value + 1)) (.lt, .num value)
  | .ceiling =>
    intervalWhere field comparator (unsupported "ceiling") [(.gt, .num (value - 1)), (.le, .num value)]
      (.gt, .num (value - 1)) (.gte, .num value) (.lt, .num (value + 1)) (.lt, .num value)
  | .round =>
    let lower := Scalar.num (value - 1 / 2)
    let upper := Scalar.num (value + 1 / 2)
    intervalWhere field comparator (unsupported "round") [(.gte, lower), (.lt, upper)]
      (.gte, lower) (.gte, upper) (.lt, upper) (.lt, lower)

def stringFunctionName : StringFunction → String
  | .trim => "trim"
  | .concat => "concat"

def datePartName : DatePart → String
  | .month => "month"
  | .day => "day"
  | .hour => "hour"
  | .minute => "minute"
  | .second => "second"

def transformText : OperandTransform → String
  | .tolower => "tolower"
  | .toupper => "toupper"

def buildLeaf (options : ParseOptions) : Leaf → Except FilterError Where
  | .stringfncmp name _ _ _ => .error (.unsupportedFilter [stringFunctionName name])
  | .datepart part _ _ _ => .error (.unsupportedFilter [datePartName part])
  | .transformcmp transform _ _ _ => .error (.unsupportedFilter [transformText transform])
  | .comparison field comparator value => buildComparison options field comparator value
  | .function name field arg caseInsensitive _ negated =>
    buildFunction options name field arg caseInsensitive negated
  | .indexofcmp field comparator value needle =>
    buildIndexOf options field comparator value needle
  | .substrcmp field start length comparator literal =>
    buildSubstring options field start length comparator literal
  | .lengthcmp field comparator value => translateLengthComparison options field comparator value
  | .fncmp name field comparator value =>
    buildFieldFunction options name field comparator value

/-- The comparator that a negated comparison is translated with. -/
def inverseComparator : Comparator → Comparator
  | .eq => .neq
  | .neq => .eq
  | .gt => .lte
  | .gte => .lt
  | .lt => .gte
  | .lte => .gt
  | .inq => .nin
  | .nin => .inq

def inverseEquality : Equality → Equality
  | .eq => .neq
  | .neq => .eq

def negateIndexOfExpression (comparator : Comparator) (value : Rat) :
    Except FilterError (Comparator × Rat) :=
  if comparator = .eq ∧ value = -1 then .ok (.gte, 0)
  else if comparator = .gte ∧ 0 ≤ value then .ok (.eq, -1)
  else if comparator = .gt ∧ -1 < value then .ok (.eq, -1)
  else .error (.error "Unsupported negated indexof comparison.")

def negateLengthExpression (comparator : Comparator) : Except FilterError Comparator :=
  match comparator with
  | .inq | .nin => .error (.error "Unsupported negated length comparison.")
  | comparator => .ok (inverseComparator comparator)

/-- `not` of an expression without subexpressions. -/
def buildNegatedLeaf (options : ParseOptions) : Leaf → Except FilterError Where
  | .comparison field comparator value =>
    buildComparison options field (inverseComparator comparator) value
  | .function name field arg caseInsensitive _ negated =>
    buildFunction options name field arg caseInsensitive (!negated)
  | .fncmp name field comparator value => do
    return .not (← buildFieldFunction options name field comparator value)
  | .indexofcmp field comparator value needle => do
    let (comparator, value) ← negateIndexOfExpression comparator value
    buildIndexOf options field comparator value needle
  | .substrcmp field start length comparator literal =>
    buildSubstring options field start length (inverseEquality comparator) literal
  | .lengthcmp field comparator value => do
    translateLengthComparison options field (← negateLengthExpression comparator) value
  | .stringfncmp name _ _ _ => .error (.unsupportedFilter [stringFunctionName name])
  | .datepart part _ _ _ => .error (.unsupportedFilter [datePartName part])
  | .transformcmp transform _ _ _ => .error (.unsupportedFilter [transformText transform])

def logicalWhere : LogicalType → List Where → Where
  | .and => .and
  | .or => .or

def LogicalType.dual : LogicalType → LogicalType
  | .and => .or
  | .or => .and

/-- The end of the loop over the members of a conjunction or disjunction. -/
def finishClauses (type : LogicalType) : List Where × List String → Except FilterError Where
  | (clauses, []) => .ok (logicalWhere type clauses)
  | (_, unsupported) => .error (.unsupportedFilter unsupported.eraseDups)

mutual

def buildWhere (options : ParseOptions) : ParsedExpression → Except FilterError Where
  | .leaf leaf => buildLeaf options leaf
  | .not inner => buildNegated options inner
  | .logical type expressions => do finishClauses type (← buildClauses options expressions)
  | .lambda .. => .error (.error "Unsupported filter expression")

/-- The loop over the members of a conjunction or disjunction, which collects the functions that
are not supported. -/
def buildClauses (options : ParseOptions) :
    List ParsedExpression → Except FilterError (List Where × List String)
  | [] => .ok ([], [])
  | child :: rest =>
    match buildWhere options child with
    | .ok clause => do
      let (clauses, unsupported) ← buildClauses options rest
      return (clause :: clauses, unsupported)
    | .error (.unsupportedFilter functions) => do
      let (clauses, unsupported) ← buildClauses options rest
      return (clauses, functions ++ unsupported)
    | .error err => .error err

/-- `buildWhere` on `not` of the given expression. A negation of a negation or of a lambda is none
of the cases the source handles. -/
def buildNegated (options : ParseOptions) : ParsedExpression → Except FilterError Where
  | .leaf leaf => buildNegatedLeaf options leaf
  | .logical type expressions => do
    return logicalWhere type.dual (← buildNegatedAll options expressions)
  | .not _ => .error (.error "Unsupported filter expression")
  | .lambda .. => .error (.error "Unsupported filter expression")

def buildNegatedAll (options : ParseOptions) :
    List ParsedExpression → Except FilterError (List Where)
  | [] => .ok []
  | child :: rest => do
    let clause ← buildNegated options child
    let clauses ← buildNegatedAll options rest
    return clause :: clauses

end

def buildWhereFromParsedExpression (expr : ParsedExpression) (options : ParseOptions := {}) :
    Except FilterError Where :=
  buildWhere options expr

end LoopbackOData
