import LoopbackOData.Entities.References

/-!
# Rewriting of request paths

`middleware/odata-path-rewriter.ts`: the key in `Set(key)` becomes a path segment of its own, and
the parameters of a function call become query options. The position in the path is the text that
is behind it.
-/

namespace LoopbackOData

namespace Routing

set_option autoImplicit false

def maxKeyExpressionLength : Nat := 4096

structure RewriteOptions where
  namespaceName : Option Text
  namespaceAlias : Option Text
  operationNames : Option (List Text)

/-! ## Literals -/

/-- Cuts at a delimiter outside strings. Blanks around a part and empty parts are dropped. -/
def splitTopLevelFrom (delimiter : Char) : Bool → Text → Text → List Text
  | _, current, [] => if current = [] then [] else [trimText current]
  | true, current, '\'' :: '\'' :: rest =>
    splitTopLevelFrom delimiter true (current ++ ['\'', '\'']) rest
  | inString, current, c :: rest =>
    if c = '\'' then splitTopLevelFrom delimiter (!inString) (current ++ [c]) rest
    else if inString = false ∧ c = delimiter then
      trimText current :: splitTopLevelFrom delimiter false [] rest
    else splitTopLevelFrom delimiter inString (current ++ [c]) rest

def splitTopLevel (input : Text) (delimiter : Char) : List Text :=
  (splitTopLevelFrom delimiter false [] input).filter (· ≠ [])

/-- The position of the first equals sign outside strings. -/
def findTopLevelEqualsFrom : Bool → Text → Option Nat
  | _, [] => none
  | true, '\'' :: '\'' :: rest => (findTopLevelEqualsFrom true rest).map (· + 2)
  | inString, c :: rest =>
    if c = '\'' then (findTopLevelEqualsFrom (!inString) rest).map (· + 1)
    else if inString = false ∧ c = '=' then some 0
    else (findTopLevelEqualsFrom inString rest).map (· + 1)

def findTopLevelEquals (input : Text) : Option Nat := findTopLevelEqualsFrom false input

def decodeComponent (input : Text) : Text := (decodeURIComponent input).getD input

def isNameStart (c : Char) : Bool := c.isAlpha || c = '_'

def isNameChar (c : Char) : Bool := c.isAlphanum || c = '_' || c = '.'

/-- What follows `[A-Za-z_][A-Za-z0-9_.]*'` at the start of a text. -/
def afterKeyPrefix (literal : Text) : Option Text :=
  if literal.head?.any isNameStart then
    match literal.dropWhile isNameChar with
    | '\'' :: rest => some rest
    | _ => none
  else none

def normalizeLiteral (raw : Text) : Text :=
  let literal := trimText (decodeComponent (trimText raw))
  let unprefixed := (afterKeyPrefix literal).getD literal
  undoubleQuotes
    (if isQuoted unprefixed ∧ 2 ≤ unprefixed.length then (unprefixed.drop 1).dropLast
    else if (afterKeyPrefix literal).isSome ∧ endsWith unprefixed ['\''] then unprefixed.dropLast
    else unprefixed)

def joinCommas (parts : List Text) : Text := [','].intercalate parts

/-- `key=value` with both sides decoded, for each part. -/
def normalizePair (part : Text) : Option Text :=
  (findTopLevelEquals part).map fun i =>
    decodeComponent (trimText (part.take i)) ++ '=' :: normalizeLiteral (part.drop (i + 1))

def normalizeKeyExpression (expression : Text) : Option Text :=
  let parts := splitTopLevel (trimText expression) ','
  if parts.any fun part => (findTopLevelEquals part).isSome then
    (parts.mapM normalizePair).map joinCommas
  else some (joinCommas (parts.map normalizeLiteral))

/-! ## Function calls -/

def encodeLiteral (value : Text) : Text :=
  (encodeURIComponent value).flatMap fun c => if c = '\'' then "%27".toList else [c]

def isLineTerminator (c : Char) : Bool := c ∈ ['\n', '\r', '\u2028', '\u2029']

def encodeCanonicalLiteral (rawValue : Text) : Text :=
  let trimmed := trimText rawValue
  let typed := (afterKeyPrefix trimmed).bind fun rest =>
    if endsWith rest ['\''] ∧ ¬ rest.dropLast.any isLineTerminator then some rest.dropLast else none
  match typed with
  | some literal =>
    encodeLiteral (trimmed.takeWhile isNameChar ++ '\'' :: (undoubleQuotes literal ++ ['\'']))
  | none =>
    if isQuoted trimmed then encodeLiteral (unquote trimmed) else encodeLiteral trimmed

def canonicalParameter (part : Text) : Option Text :=
  (findTopLevelEquals part).bind fun i =>
    let name := decodeComponent (trimText (part.take i))
    if name = [] then none
    else some (encodeURIComponent name ++
      '=' :: encodeCanonicalLiteral (trimText (part.drop (i + 1))))

def canonicalParametersToQuery (expression : Text) : Option Text :=
  ((splitTopLevel (trimText expression) ',').mapM canonicalParameter).map (['&'].intercalate ·)

def stripNamespace (options : RewriteOptions) (segment : Text) : Text :=
  let prefixes := ([options.namespaceName, options.namespaceAlias].filterMap id).filter (· ≠ [])
  match (prefixes.map (· ++ ['.'])).find? (startsWith segment ·) with
  | some pre => segment.drop pre.length
  | none => segment

/-! ## Paths -/

def isSegmentChar (c : Char) : Bool := c.isAlphanum || c = '_' || c = '.'

/-- The key expression from the opening parenthesis on, and what follows the closing one. The number
is the length of the expression up to here. -/
def scanKey : Bool → Nat → Text → Option (Text × Text)
  | _, _, [] => none
  | true, n, '\'' :: '\'' :: rest =>
    (scanKey true (n + 2) rest).map fun found => ('\'' :: '\'' :: found.1, found.2)
  | inString, n, c :: rest =>
    if inString = false ∧ c = ')' then
      if n > maxKeyExpressionLength then none else some ([], rest)
    else
      let inString := if c = '\'' then !inString else inString
      if inString = false ∧ n > maxKeyExpressionLength then none
      else (scanKey inString (n + 1) rest).map fun found => (c :: found.1, found.2)

/-- `before` is the path up to the parenthesis, and `after` what follows it. -/
def extractKeySegment (before after : Text) : Option (Text × Text) :=
  match before.getLast? with
  | none => none
  | some preceding =>
    if preceding = '/' ∨ preceding = ')' ∨ isSegmentChar preceding = true then
      scanKey false 0 after
    else none

/-- The last segment of a path. -/
def lastSegment (path : Text) : Text := (path.reverse.takeWhile (· ≠ '/')).reverse

/-- What is written for a parenthesis and its key, after `plain` has been written, and the query
that is added. -/
def rewriteKey (options : RewriteOptions) (before plain keyExpression : Text) : Text × Option Text :=
  let segmentName := lastSegment (before ++ plain)
  let upToSegment := plain.take ((before ++ plain).length - segmentName.length - before.length)
  let query := canonicalParametersToQuery keyExpression
  if (options.operationNames.any fun names => names.contains segmentName) ∧ query.isSome then
    (upToSegment ++ segmentName, query)
  else if segmentName.contains '.' ∧ query.isSome then
    (upToSegment ++ stripNamespace options segmentName, query)
  else match normalizeKeyExpression keyExpression with
    | none => (plain ++ '(' :: (keyExpression ++ [')']), none)
    | some normalizedKey => (plain ++ '/' :: encodeLiteral normalizedKey, none)

/-- The rest of a path, rewritten, with the queries. The first argument bounds the parentheses. -/
def rewriteFrom (options : RewriteOptions) : Nat → Text → Text → Text × List Text
  | 0, _, rest => (rest, [])
  | n + 1, before, rest =>
    let plain := rest.takeWhile (· ≠ '(')
    match rest.dropWhile (· ≠ '(') with
    | [] => (rest, [])
    | _ :: after =>
      match extractKeySegment (before ++ plain) after with
      | none =>
        let next := rewriteFrom options n (before ++ plain ++ ['(']) after
        (plain ++ '(' :: next.1, next.2)
      | some (keyExpression, after) =>
        let written := rewriteKey options before plain keyExpression
        let next := rewriteFrom options n
          (before ++ plain ++ '(' :: (keyExpression ++ [')'])) after
        (written.1 ++ next.1, (written.2.toList.filter (· ≠ [])) ++ next.2)

/-- A path with the query that its function calls add. -/
def rewritePath (options : RewriteOptions) (path : Text) : Text × Text :=
  let rewritten := rewriteFrom options (path.count '(') [] path
  (rewritten.1, ['&'].intercalate rewritten.2)

/-! ## URLs -/

structure SplitUrl where
  path : Text
  query : Text
  fragment : Text

/-- A missing query and an empty one are the same to what follows. -/
def splitUrl (url : Text) : SplitUrl :=
  let beforeHash := url.takeWhile (· ≠ '#')
  { path := beforeHash.takeWhile (· ≠ '?')
    query := (beforeHash.dropWhile (· ≠ '?')).drop 1
    fragment := (url.dropWhile (· ≠ '#')).drop 1 }

def mergeQueryStrings (existing extra : Text) : Text :=
  if extra = [] then existing else if existing = [] then extra else existing ++ '&' :: extra

def buildSuffix (query fragment : Text) : Text :=
  (if query = [] then [] else '?' :: query) ++ (if fragment = [] then [] else '#' :: fragment)

def rewriteODataUrl (options : RewriteOptions) (url : Text) : Text :=
  let parts := splitUrl url
  let rewritten := rewritePath options parts.path
  rewritten.1 ++ buildSuffix (mergeQueryStrings parts.query rewritten.2) parts.fragment

end Routing

end LoopbackOData
