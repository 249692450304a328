import LoopbackOData.Filter.Literals

/-!
# The `$filter` parser

The recursive descent of the query parser. The source walks an index over one token array; here
each function gets the tokens that are left and returns those it did not consume. The mutually
recursive functions count down a `fuel`; `parseFilter_ne_outOfFuel` shows that the amount
`parseFilter` starts with is never used up.
-/

namespace LoopbackOData

set_option autoImplicit false

/-- A parsed value and the tokens that are left. -/
abbrev Parsed (α : Type) := α × List Text

def fail {α : Type} (message : String) : Except FilterError α := .error (.error message)

/-- An argument of a filter function. -/
inductive Operand where
  | field (name : Text) (transform : Option OperandTransform)
  | literal (value : Scalar) (transform : Option OperandTransform)

/-- `ParseContext`. -/
structure ParseContext where
  strict : Bool

def comparisonOperator (token : Text) : Option Comparator :=
  if token = "eq".toList then some .eq
  else if token = "ne".toList then some .neq
  else if token = "gt".toList then some .gt
  else if token = "ge".toList then some .gte
  else if token = "lt".toList then some .lt
  else if token = "le".toList then some .lte
  else none

def transformName (token : Text) : Option OperandTransform :=
  if token = "tolower".toList then some .tolower
  else if token = "toupper".toList then some .toupper
  else none

def Runtime.transform (rt : Runtime) : OperandTransform → Text → Text
  | .tolower => rt.toLowerCase
  | .toupper => rt.toUpperCase

def applyTransform (rt : Runtime) (operand : Operand) (transform : OperandTransform) : Operand :=
  match operand with
  | .field name _ => .field name (some transform)
  | .literal (.str value) _ => .literal (.str (rt.transform transform value)) (some transform)
  | .literal value _ => .literal value (some transform)

def literalOperand (token : Text) : Operand :=
  if isQuoted token then .literal (.str (unquote token)) none
  else if token = "null".toList then .literal .null none
  else if token = "true".toList then .literal (.bool true) none
  else if token = "false".toList then .literal (.bool false) none
  else match tryParseNumericToken token with
    | some numeric => .literal (.num numeric) none
    | none => .field token none

/-- Consumes a closing parenthesis. -/
def expectClosing (message : String) : List Text → Except FilterError (List Text)
  | [')'] :: rest => .ok rest
  | _ => fail message

def parseOperand (rt : Runtime) : List Text → Except FilterError (Parsed Operand)
  | [] => fail "Unexpected end of function arguments."
  | ['('] :: rest => do
    let (inner, rest) ← parseOperand rt rest
    let rest ← expectClosing "Unmatched parenthesis in function argument." rest
    return (inner, rest)
  | token :: ['('] :: rest =>
    match transformName (asciiLower token) with
    | some transform => do
      let (inner, rest) ← parseOperand rt rest
      let rest ← expectClosing
        ("Malformed " ++ String.ofList (asciiLower token) ++
          " invocation. Expected closing parenthesis.") rest
      return (applyTransform rt inner transform, rest)
    | none => .ok (literalOperand token, ['('] :: rest)
  | token :: rest => .ok (literalOperand token, rest)

def operandToFunctionArg : Operand → FunctionArg
  | .field name transform => .field name transform
  | .literal value _ => .literal value

/-- The opening parenthesis after a function name. -/
def expectOpening (name : Text) : List Text → Except FilterError (List Text)
  | ['('] :: rest => .ok rest
  | _ => fail ("Malformed " ++ String.ofList name ++ " invocation. Expected opening parenthesis.")

/-- A first argument that has to be a field. -/
def parseFieldArgument (rt : Runtime) (message : String) (tokens : List Text) :
    Except FilterError (Parsed (Text × Option OperandTransform)) := do
  match ← parseOperand rt tokens with
  | (.field name transform, rest) => return ((name, transform), rest)
  | (.literal .., _) => fail message

def expectComma (message : String) : List Text → Except FilterError (List Text)
  | [','] :: rest => .ok rest
  | _ => fail message

def malformed (name : Text) : String :=
  "Malformed " ++ String.ofList name ++ " invocation. Expected closing parenthesis."

def stringPredicate (name : Text) : Option StringPredicate :=
  if name = "contains".toList then some .contains
  else if name = "startswith".toList then some .startswith
  else if name = "endswith".toList then some .endswith
  else none

/-- The literal of a string predicate in the case its field or itself is converted to. -/
def convertArgument (rt : Runtime) (fieldTransform valueTransform : Option OperandTransform) :
    Scalar → Scalar
  | .str value =>
    if fieldTransform = some .tolower || valueTransform = some .tolower then
      .str (rt.toLowerCase value)
    else if fieldTransform = some .toupper || valueTransform = some .toupper then
      .str (rt.toUpperCase value)
    else .str value
  | value => value

/-- `parseFunction`, after the function name. -/
def parseFunction (rt : Runtime) (predicate : StringPredicate) (name : Text)
    (tokens : List Text) : Except FilterError (Parsed Leaf) := do
  let tokens ← expectOpening name tokens
  let ((field, transform), tokens) ← parseFieldArgument rt
    (String.ofList name ++ " requires the first argument to be a field.") tokens
  let tokens ← expectComma (String.ofList name ++ " requires a value argument.") tokens
  match ← parseOperand rt tokens with
  | (.field .., _) =>
    fail (String.ofList name ++ " requires the second argument to be a literal.")
  | (.literal value valueTransform, tokens) =>
    let tokens ← expectClosing (malformed name) tokens
    return (.function predicate field (convertArgument rt transform valueTransform value) true
      transform false, tokens)

def stringFunction (name : Text) : Option StringFunction :=
  if name = "trim".toList then some .trim
  else if name = "concat".toList then some .concat
  else none

/-- The arguments of `trim` and `concat`, up to the closing parenthesis. -/
def parseArguments (rt : Runtime) :
    Nat → List Text → Except FilterError (Parsed (List FunctionArg))
  | 0, tokens => .ok ([], tokens)
  | _ + 1, [] => .ok ([], [])
  | fuel + 1, tokens => do
    let (operand, rest) ← parseOperand rt tokens
    match rest with
    | [','] :: rest =>
      let (args, rest) ← parseArguments rt fuel rest
      return (operandToFunctionArg operand :: args, rest)
    | rest => return ([operandToFunctionArg operand], rest)

def equality (token : Text) : Option Equality :=
  if token = "eq".toList then some .eq else if token = "ne".toList then some .neq else none

/-- The comparator and the value token after a function call. -/
def expectComparison (message : String) : List Text → Except FilterError (Text × Text × List Text)
  | comparator :: value :: rest => .ok (asciiLower comparator, value, rest)
  | _ => fail message

/-- `parseStringFunctionComparison`, after the function name. -/
def parseStringFunctionComparison (rt : Runtime) (function : StringFunction) (name : Text)
    (tokens : List Text) : Except FilterError (Parsed Leaf) := do
  let tokens ← expectOpening name tokens
  let (args, tokens) ← parseArguments rt tokens.length tokens
  let tokens ← expectClosing (malformed name) tokens
  if function = .trim ∧ args.length ≠ 1 then fail "trim requires exactly one argument."
  if function = .concat ∧ args.length < 2 then fail "concat requires at least two arguments."
  let (comparator, value, tokens) ←
    expectComparison ("Invalid " ++ String.ofList name ++ " comparison.") tokens
  match equality comparator with
  | none => fail (String.ofList name ++ " comparison only supports eq/ne comparators.")
  | some comparator =>
    match parseLiteral value with
    | .str literal => return (.stringfncmp function args comparator literal, tokens)
    | _ => fail (String.ofList name ++
        " comparison requires a string literal comparator value.")

def datePart (name : Text) : Option DatePart :=
  if name = "month".toList then some .month
  else if name = "day".toList then some .day
  else if name = "hour".toList then some .hour
  else if name = "minute".toList then some .minute
  else if name = "second".toList then some .second
  else none

def fieldFunction (name : Text) : Option FieldFunction :=
  if name = "round".toList then some .round
  else if name = "floor".toList then some .floor
  else if name = "ceiling".toList then some .ceiling
  else if name = "year".toList then some .year
  else none

/-- The functions of one field that are compared with a number: the date parts, `round`, `floor`,
`ceiling`, `year` and `length`. They differ in their messages only; `build` makes the leaf. -/
def parseNumericComparison (rt : Runtime) (build : Text → Comparator → Rat → Leaf)
    (name : Text) (invalid notNumeric : String) (tokens : List Text) :
    Except FilterError (Parsed Leaf) := do
  let tokens ← expectOpening name tokens
  let ((field, _), tokens) ← parseFieldArgument rt
    (String.ofList name ++ " requires the first argument to be a field.") tokens
  let tokens ← expectClosing (malformed name) tokens
  let (comparator, value, tokens) ← expectComparison invalid tokens
  match comparisonOperator comparator with
  | none => fail ("Unsupported comparator: " ++ String.ofList comparator)
  | some comparator =>
    match finiteNumber value with
    | none => fail notNumeric
    | some numeric => return (build field comparator numeric, tokens)

def parseDatePartComparison (rt : Runtime) (part : DatePart) (name : Text)
    (tokens : List Text) : Except FilterError (Parsed Leaf) :=
  parseNumericComparison rt (.datepart part) name
    ("Invalid " ++ String.ofList name ++ " comparison.")
    (String.ofList name ++ " comparison requires a numeric literal comparator value.") tokens

def parseFieldFunctionComparison (rt : Runtime) (function : FieldFunction) (name : Text)
    (tokens : List Text) : Except FilterError (Parsed Leaf) :=
  parseNumericComparison rt (.fncmp function) name "Invalid filter expression"
    (String.ofList name ++ " requires a numeric literal comparator value.") tokens

def parseLengthComparison (rt : Runtime) (tokens : List Text) : Except FilterError (Parsed Leaf) :=
  parseNumericComparison rt .lengthcmp "length".toList "Invalid length comparison."
    "length comparison requires a numeric value." tokens

def parseIndexOfComparison (rt : Runtime) (tokens : List Text) :
    Except FilterError (Parsed Leaf) := do
  let tokens ← expectOpening "indexof".toList tokens
  let ((field, _), tokens) ← parseFieldArgument rt
    "indexof requires the first argument to be a field." tokens
  let tokens ← expectComma "indexof requires a search literal." tokens
  match ← parseOperand rt tokens with
  | (.literal (.str needle) _, tokens) =>
    let tokens ← expectClosing (malformed "indexof".toList) tokens
    let (comparator, value, tokens) ← expectComparison "Invalid indexof comparison." tokens
    match comparisonOperator comparator with
    | none => fail ("Unsupported comparator: " ++ String.ofList comparator)
    | some comparator =>
      match finiteNumber value with
      | none => fail "indexof comparison requires a numeric value."
      | some numeric => return (.indexofcmp field comparator numeric needle, tokens)
  | _ => fail "indexof requires a string literal as second argument."

/-- The optional third argument of `substring`. -/
def parseSubstringLength (rt : Runtime) : List Text → Except FilterError (Parsed (Option Rat))
  | [','] :: tokens => do
    match ← parseOperand rt tokens with
    | (.literal (.num length) _, tokens) => return (some length, tokens)
    | _ => fail "substring length must be a numeric literal."
  | tokens => .ok (none, tokens)

def parseSubstringComparison (rt : Runtime) (tokens : List Text) :
    Except FilterError (Parsed Leaf) := do
  let tokens ← expectOpening "substring".toList tokens
  let ((field, _), tokens) ← parseFieldArgument rt
    "substring requires the first argument to be a field." tokens
  let tokens ← expectComma "substring requires a start argument." tokens
  match ← parseOperand rt tokens with
  | (.literal (.num start) _, tokens) =>
    let (length, tokens) ← parseSubstringLength rt tokens
    let tokens ← expectClosing (malformed "substring".toList) tokens
    let (comparator, value, tokens) ← expectComparison "Invalid substring comparison." tokens
    match equality comparator with
    | none => fail ("Unsupported comparator for substring: " ++ String.ofList comparator)
    | some comparator =>
      match parseLiteral value with
      | .str literal => return (.substrcmp field start length comparator literal, tokens)
      | _ => fail "substring comparison requires a string literal."
  | _ => fail "substring start must be a numeric literal."

/-- `^\d{4}-\d{2}-\d{2}` followed by the rest of the text. -/
def afterDate (s : Text) : Option Text :=
  if (s.take 4).all isDigit && (s.drop 5 |>.take 2).all isDigit && (s.drop 8 |>.take 2).all isDigit
      && 10 ≤ s.length && s[4]? = some '-' && s[7]? = some '-' then some (s.drop 10)
  else none

/-- `T\d{2}:\d{2}:\d{2}(?:\.\d{1,7})?(?:Z|z|[+-]\d{2}(?::?\d{2})?)?$`. -/
def isTimeText (s : Text) : Bool :=
  let clock := s.take 9
  let fraction := if startsWith (s.drop 9) ['.'] then (s.drop 10).takeWhile isDigit else []
  let zone := if startsWith (s.drop 9) ['.'] then (s.drop 10).dropWhile isDigit else s.drop 9
  clock.length = 9 && clock[0]? = some 'T' && clock[3]? = some ':' && clock[6]? = some ':' &&
    (clock.drop 1 |>.take 2).all isDigit && (clock.drop 4 |>.take 2).all isDigit &&
    (clock.drop 7).all isDigit &&
    (!startsWith (s.drop 9) ['.'] || (1 ≤ fraction.length && fraction.length ≤ 7)) &&
    (zone = [] || zone = ['Z'] || zone = ['z'] ||
      ((startsWith zone ['+'] || startsWith zone ['-']) &&
        ((zone.length = 3 && (zone.drop 1).all isDigit) ||
          (zone.length = 5 && (zone.drop 1).all isDigit) ||
          (zone.length = 6 && zone[3]? = some ':' && (zone.drop 1 |>.take 2).all isDigit &&
            (zone.drop 4).all isDigit))))

def isHexDigit (c : Char) : Bool := isDigit c || ('a' ≤ c.toLower && c.toLower ≤ 'f')

/-- `^[0-9a-f]{8}-[0-9a-f]{4}-[0-9a-f]{4}-[0-9a-f]{4}-[0-9a-f]{12}$`, ignoring case. -/
def isGuidText (s : Text) : Bool :=
  s.length = 36 && (List.range 36).all fun i =>
    if i = 8 || i = 13 || i = 18 || i = 23 then s[i]? = some '-'
    else (s[i]?).any isHexDigit

def isInListLiteralToken (token : Text) : Bool :=
  let raw := trimText token
  raw ≠ [] &&
    (isQuoted raw ||
      asciiLower raw = "null".toList || asciiLower raw = "true".toList ||
      asciiLower raw = "false".toList ||
      (readDecimal raw).isSome ||
      (asciiLower (raw.drop (raw.length - 1)) = ['l'] &&
        (readDecimal raw.dropLast).any (fun d => raw.dropLast.all (fun c => isDigit c || c = '-')
          && d.whole ≠ [])) ||
      (typedLiteralKinds.findSome? (unwrapODataTypedLiteral raw)).isSome ||
      (match afterDate raw with
        | some rest => rest = [] || isTimeText rest
        | none => false) ||
      isGuidText raw)

/-- The list items of an `in`; `expectValue` says whether an item or a comma comes next. -/
def parseInItems (ctx : ParseContext) :
    List Text → Bool → List Scalar → Except FilterError (Parsed (List Scalar))
  | [], _, _ => fail "Malformed in expression. Expected closing parenthesis."
  | [')'] :: rest, expectValue, values =>
    if expectValue && !values.isEmpty then
      fail "Malformed in expression. Expected list item."
    else if values.isEmpty then
      .error (.badRequest "in operator requires at least one list item."
        "in-operator-requires-non-empty-list")
    else .ok (values, rest)
  | token :: rest, true, values =>
    if token = [','] then fail "Malformed in expression. Expected list item."
    else if ctx.strict && !isInListLiteralToken token then
      .error (.badRequest "in operator requires literal list items."
        "in-operator-requires-literal-list-items")
    else parseInItems ctx rest false (values ++ [parseLiteral token])
  | token :: rest, false, values =>
    if token ≠ [','] then
      fail "Malformed in expression. Expected comma between list items."
    else parseInItems ctx rest true values

/-- A plain comparison of a field, `in` included. -/
def parseFieldComparison (ctx : ParseContext) : List Text → Except FilterError (Parsed Leaf)
  | field :: comparator :: rest =>
    if asciiLower comparator = "in".toList then
      match rest with
      | ['('] :: rest => do
        let (values, rest) ← parseInItems ctx rest true []
        return (.comparison field .inq (.list values), rest)
      | _ => fail "Malformed in expression. Expected opening parenthesis."
    else
      match rest with
      | [] => fail "Invalid filter expression"
      | value :: rest =>
        match comparisonOperator (asciiLower comparator) with
        | none => fail ("Unsupported comparator: " ++ String.ofList comparator)
        | some operator =>
          .ok (.comparison field operator (.single (parseLiteral value)), rest)
  | _ => fail "Invalid filter expression"

/-- What `tolower` and `toupper` do not accept as a field. -/
def isTransformField (field : Text) : Bool :=
  !(startsWith field ['\''] || endsWith field ['\''] || field = ['('] || field = [')'] ||
    field = [','] || asciiLower field = "null".toList || asciiLower field = "true".toList ||
    asciiLower field = "false".toList ||
    (field.head?.any isDigit || (startsWith field ['-'] && (field.drop 1).head?.any isDigit)) ||
    typedLiteralKinds.any (fun kind => startsWith (asciiLower field) (kind ++ ['\''])))

/-- `parseTransformComparison`, after the function name and its opening parenthesis. -/
def parseTransformComparison (transform : OperandTransform) (name : Text) :
    List Text → Except FilterError (Parsed Leaf)
  | field :: [')'] :: rest =>
    if !isTransformField field then
      fail (String.ofList name ++ " requires a single field argument.")
    else match rest with
      | [] => fail (String.ofList name ++ " comparisons support only eq/ne.")
      | comparator :: rest =>
        match equality (asciiLower comparator) with
        | none => fail (String.ofList name ++ " comparisons support only eq/ne.")
        | some comparator =>
          match rest with
          | [] => fail (String.ofList name ++ " comparisons require a string or null literal.")
          | value :: rest =>
            if asciiLower value = "null".toList then
              .ok (.transformcmp transform field comparator none, rest)
            else if isQuoted value then
              match parseLiteral value with
              | .str literal => .ok (.transformcmp transform field comparator (some literal), rest)
              | _ => fail (String.ofList name ++
                  " comparisons require a string or null literal.")
            else fail (String.ofList name ++ " comparisons require a string or null literal.")
  | _ => fail (String.ofList name ++ " requires a single field argument.")

/-- The comparisons that are not lambdas, in the order `parseComparison` tries them. -/
def parseLeaf (rt : Runtime) (ctx : ParseContext) (tokens : List Text) :
    Except FilterError (Parsed Leaf) :=
  match tokens with
  | [] => fail "Invalid filter expression"
  | token :: rest =>
    let name := asciiLower token
    match transformName name, rest with
    | some transform, ['('] :: rest => parseTransformComparison transform name rest
    | _, _ =>
      match stringFunction name with
      | some function => parseStringFunctionComparison rt function name rest
      | none =>
        match datePart name with
        | some part => parseDatePartComparison rt part name rest
        | none =>
          match stringPredicate name with
          | some predicate => parseFunction rt predicate name rest
          | none =>
            if name = "indexof".toList then parseIndexOfComparison rt rest
            else if name = "substring".toList then parseSubstringComparison rt rest
            else if name = "length".toList then parseLengthComparison rt rest
            else match fieldFunction name with
              | some function => parseFieldFunctionComparison rt function name rest
              | none => parseFieldComparison ctx tokens

def isAsciiLetter (c : Char) : Bool := ('a' ≤ c && c ≤ 'z') || ('A' ≤ c && c ≤ 'Z')

/-- `/^([A-Za-z_][A-Za-z0-9_\/]*)\/(any|all)$/i`, with its groups. -/
def matchLambda (token : Text) : Option (Text × LambdaType) :=
  let path := token.take (token.length - 4)
  let suff := asciiLower (token.drop (token.length - 4))
  if path.head?.any (fun c => isAsciiLetter c || c = '_') &&
      path.all (fun c => isAsciiLetter c || isDigit c || c = '_' || c = '/') then
    if suff = "/any".toList then some (path, .any)
    else if suff = "/all".toList then some (path, .all)
    else none
  else none

def lambdaName : LambdaType → String
  | .any => "any"
  | .all => "all"

/-- The tokens up to the parenthesis that closes the lambda, `depth` parentheses being open. -/
def collectInner : Nat → List Text → Except FilterError (List Text × List Text)
  | _, [] => fail "Malformed lambda expression: unmatched parentheses."
  | depth, ['('] :: rest => do
    let (inner, rest) ← collectInner (depth + 1) rest
    return (['('] :: inner, rest)
  | depth, [')'] :: rest =>
    if depth ≤ 1 then .ok ([], rest)
    else do
      let (inner, rest) ← collectInner (depth - 1) rest
      return ([')'] :: inner, rest)
  | depth, token :: rest => do
    let (inner, rest) ← collectInner depth rest
    return (token :: inner, rest)

/-- The alias of a lambda and the tokens of its predicate. -/
def readAlias : List Text → Except FilterError (Text × List Text)
  | [] => fail "Lambda expressions require an alias before the predicate."
  | aliasToken :: inner =>
    if endsWith aliasToken [':'] then nonEmpty aliasToken.dropLast inner
    else match inner with
      | [':'] :: inner => nonEmpty aliasToken inner
      | _ =>
        if aliasToken.contains ':' then
          let before := aliasToken.takeWhile (· ≠ ':')
          let after := (aliasToken.dropWhile (· ≠ ':')).drop 1
          if before = [] then
            fail "Malformed lambda expression: expected alias before \":\"."
          else nonEmpty before (if after = [] then inner else after :: inner)
        else fail "Malformed lambda expression: expected \":\" after alias."
where
  nonEmpty (aliasName : Text) (inner : List Text) : Except FilterError (Text × List Text) :=
    if aliasName = [] then fail "Lambda alias cannot be empty."
    else if inner = [] then fail "Lambda predicate is required."
    else .ok (aliasName, inner)

/-- `path.split('/').filter(Boolean)`. -/
def pathSegments (path : Text) : List Text := (path.splitOn '/').filter (fun s => !s.isEmpty)

def isKeyword (token : Text) (keyword : String) : Bool := asciiLower token = keyword.toList

mutual

def parseExpression (rt : Runtime) (ctx : ParseContext) :
    Nat → List Text → Except FilterError (Parsed ParsedExpression)
  | 0, _ => .error .outOfFuel
  | fuel + 1, tokens => parseOr rt ctx fuel tokens

def parseOr (rt : Runtime) (ctx : ParseContext) :
    Nat → List Text → Except FilterError (Parsed ParsedExpression)
  | 0, _ => .error .outOfFuel
  | fuel + 1, tokens => do
    let (left, rest) ← parseAnd rt ctx fuel tokens
    parseOrRest rt ctx fuel left rest

/-- The loop of `parseOr`. -/
def parseOrRest (rt : Runtime) (ctx : ParseContext) :
    Nat → ParsedExpression → List Text → Except FilterError (Parsed ParsedExpression)
  | 0, _, _ => .error .outOfFuel
  | fuel + 1, left, tokens =>
    match tokens with
    | token :: rest =>
      if isKeyword token "or" then do
        let (right, rest) ← parseAnd rt ctx fuel rest
        parseOrRest rt ctx fuel (.logical .or [left, right]) rest
      else .ok (left, tokens)
    | [] => .ok (left, [])

def parseAnd (rt : Runtime) (ctx : ParseContext) :
    Nat → List Text → Except FilterError (Parsed ParsedExpression)
  | 0, _ => .error .outOfFuel
  | fuel + 1, tokens => do
    let (left, rest) ← parseUnary rt ctx fuel tokens
    parseAndRest rt ctx fuel left rest

/-- The loop of `parseAnd`. -/
def parseAndRest (rt : Runtime) (ctx : ParseContext) :
    Nat → ParsedExpression → List Text → Except FilterError (Parsed ParsedExpression)
  | 0, _, _ => .error .outOfFuel
  | fuel + 1, left, tokens =>
    match tokens with
    | token :: rest =>
      if isKeyword token "and" then do
        let (right, rest) ← parseUnary rt ctx fuel rest
        parseAndRest rt ctx fuel (.logical .and [left, right]) rest
      else .ok (left, tokens)
    | [] => .ok (left, [])

def parseUnary (rt : Runtime) (ctx : ParseContext) :
    Nat → List Text → Except FilterError (Parsed ParsedExpression)
  | 0, _ => .error .outOfFuel
  | fuel + 1, tokens =>
    match tokens with
    | token :: rest =>
      if isKeyword token "not" then do
        let (expr, rest) ← parseUnary rt ctx fuel rest
        return (.not expr, rest)
      else parsePrimary rt ctx fuel tokens
    | [] => parsePrimary rt ctx fuel tokens

def parsePrimary (rt : Runtime) (ctx : ParseContext) :
    Nat → List Text → Except FilterError (Parsed ParsedExpression)
  | 0, _ => .error .outOfFuel
  | fuel + 1, tokens =>
    match tokens with
    | ['('] :: rest => do
      let (expr, rest) ← parseExpression rt ctx fuel rest
      let rest ← expectClosing "Unmatched parenthesis in filter expression." rest
      return (expr, rest)
    | tokens => parseComparison rt ctx fuel tokens

def parseComparison (rt : Runtime) (ctx : ParseContext) :
    Nat → List Text → Except FilterError (Parsed ParsedExpression)
  | 0, _ => .error .outOfFuel
  | fuel + 1, tokens =>
    match tokens with
    | token :: rest =>
      match matchLambda token with
      | some (path, lambdaType) => parseLambda rt ctx fuel path lambdaType rest
      | none => do
        let (leaf, rest) ← parseLeaf rt ctx tokens
        return (.leaf leaf, rest)
    | [] => do
      let (leaf, rest) ← parseLeaf rt ctx tokens
      return (.leaf leaf, rest)

/-- `tryParseLambda`, once the path and the quantifier are recognised. -/
def parseLambda (rt : Runtime) (ctx : ParseContext) :
    Nat → Text → LambdaType → List Text → Except FilterError (Parsed ParsedExpression)
  | 0, _, _, _ => .error .outOfFuel
  | fuel + 1, path, lambdaType, tokens =>
    match tokens with
    | ['('] :: rest => do
      let (inner, rest) ← collectInner 1 rest
      let (aliasName, inner) ← readAlias inner
      let (predicate, unread) ← parseExpression rt ctx fuel inner
      if unread ≠ [] then fail "Unable to parse lambda predicate."
      if pathSegments path = [] then
        fail "Lambda expressions must reference a navigation property."
      return (.lambda lambdaType (pathSegments path) aliasName predicate, rest)
    | _ => fail ("Malformed " ++ lambdaName lambdaType ++
        " expression. Expected opening parenthesis.")

end

/-- `parseFilter` on all tokens, and the check that nothing is left. -/
def parseFilter (rt : Runtime) (ctx : ParseContext) (tokens : List Text) :
    Except FilterError ParsedExpression :=
  match tokens with
  | [] => fail "Empty filter expression"
  | tokens => do
    let (expr, rest) ← parseExpression rt ctx (6 * tokens.length + 6) tokens
    match rest with
    | [] => return expr
    | token :: _ => fail ("Invalid $filter expression near \"" ++ String.ofList token ++ "\".")

end LoopbackOData
