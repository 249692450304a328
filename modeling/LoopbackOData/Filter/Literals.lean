import LoopbackOData.Filter.Expression

/-!
# Tokens and literals of a filter

`tokenize`, the recognition of literals in one token, and JavaScript's `Number(text)`.
-/

namespace LoopbackOData

set_option autoImplicit false

/-- The three characters that are tokens of their own. -/
def isDelimiter (c : Char) : Bool := c = '(' || c = ')' || c = ','

/-- `if (current) tokens.push(current)`. -/
def pushCurrent (current : Text) (tokens : List Text) : List Text :=
  if current.isEmpty then tokens else current :: tokens

/-- The loop of `tokenize`: what is left of the filter, the token being read and whether it is
inside a string literal. -/
def tokenizeFrom : Text → Text → Bool → Except FilterError (List Text)
  | [], current, inString =>
    if inString then .error (.error "Unterminated string literal in filter expression.")
    else .ok (pushCurrent current [])
  | '\'' :: '\'' :: rest, current, true => tokenizeFrom rest (current ++ ['\'', '\'']) true
  | char :: rest, current, inString =>
    if char = '\'' then tokenizeFrom rest (current ++ ['\'']) (!inString)
    else if inString then tokenizeFrom rest (current ++ [char]) true
    else if isDelimiter char then
      return pushCurrent current ([char] :: (← tokenizeFrom rest [] false))
    else if isSpace char then return pushCurrent current (← tokenizeFrom rest [] false)
    else tokenizeFrom rest (current ++ [char]) false

def tokenize (filter : Text) : Except FilterError (List Text) := tokenizeFrom filter [] false

/-- `text.replace(/''/g, "'")`. -/
def undoubleQuotes : Text → Text
  | '\'' :: '\'' :: rest => '\'' :: undoubleQuotes rest
  | c :: rest => c :: undoubleQuotes rest
  | [] => []

def startsWith (s pre : Text) : Bool := pre.isPrefixOf s

def endsWith (s suff : Text) : Bool := suff.isSuffixOf s

/-- `token.startsWith("'") && token.endsWith("'")`. -/
def isQuoted (token : Text) : Bool := startsWith token ['\''] && endsWith token ['\'']

/-- `token.slice(1, -1)` with doubled quotes undone. -/
def unquote (token : Text) : Text := undoubleQuotes (token.drop 1).dropLast

/-- The prefixes of typed literals such as `guid'...'`. -/
def typedLiteralKinds : List Text :=
  ["datetimeoffset".toList, "date".toList, "guid".toList, "decimal".toList, "int64".toList]

/-- `unwrapODataTypedLiteral`. -/
def unwrapODataTypedLiteral (token kind : Text) : Option Text :=
  if endsWith token ['\''] && startsWith (asciiLower token) (kind ++ ['\'']) then
    some (undoubleQuotes (token.drop (kind.length + 1)).dropLast)
  else none

def digitsValue (digits : Text) : Nat :=
  digits.foldl (fun value c => 10 * value + (c.toNat - '0'.toNat)) 0

/-- A decimal number in parts: sign, digits before and after the point, signed exponent. -/
structure DecimalText where
  negative : Bool
  whole : Text
  fraction : Text
  exponent : Int

/-- The number that the parts denote. -/
def DecimalText.value (d : DecimalText) : Rat :=
  let unsigned : Rat :=
    digitsValue (d.whole ++ d.fraction) * (10 : Rat) ^ (d.exponent - d.fraction.length)
  if d.negative then -unsigned else unsigned

/-- `(?:[eE][+-]?\d+)?$`. -/
def readExponent : Text → Option Int
  | [] => some 0
  | e :: rest =>
    if e = 'e' || e = 'E' then
      match rest with
      | '+' :: digits => readDigits digits
      | '-' :: digits => (readDigits digits).map (- ·)
      | digits => readDigits digits
    else none
where
  readDigits (digits : Text) : Option Int :=
    if digits ≠ [] && digits.all isDigit then some (digitsValue digits) else none

/-- `^-?\d+(?:\.\d+)?(?:[eE][+-]?\d+)?$`, with its groups. -/
def readDecimal (token : Text) : Option DecimalText :=
  let negative := startsWith token ['-']
  let unsigned := if negative then token.drop 1 else token
  let whole := unsigned.takeWhile isDigit
  if whole = [] then none
  else match unsigned.dropWhile isDigit with
    | '.' :: rest =>
      let fraction := rest.takeWhile isDigit
      if fraction = [] then none
      else (readExponent (rest.dropWhile isDigit)).map (⟨negative, whole, fraction, ·⟩)
    | rest => (readExponent rest).map (⟨negative, whole, [], ·⟩)

/-- `Number.isFinite(Number(text))`: rounding to double precision does not overflow. -/
def isFiniteNumber (q : Rat) : Bool := |q| < (2 : Rat) ^ 1024 - (2 : Rat) ^ 970

def tryParseNumericToken (token : Text) : Option Rat :=
  match readDecimal token with
  | none => none
  | some d =>
    if token.all (fun c => isDigit c || c = '-') then
      -- `/^-?\d+$/`: integers are kept as texts from 16 digits on
      if d.whole.length > 15 then none else some d.value
    else if d.fraction.length > 15 then none
    else if ((d.whole ++ d.fraction).dropWhile (· = '0')).length > 15 then none
    else if isFiniteNumber d.value then some d.value else none

/-- The digits of a `0x`, `0o` or `0b` literal. -/
def radixValue (radix : Nat) (digits : Text) : Option Nat :=
  if digits = [] then none
  else digits.foldl (fun value c => do
    let value ← value
    let digit :=
      if isDigit c then c.toNat - '0'.toNat
      else if 'a' ≤ c.toLower && c.toLower ≤ 'f' then c.toLower.toNat - 'a'.toNat + 10
      else radix
    if digit < radix then some (radix * value + digit) else none) (some 0)

/-- The texts that `Edm.Int64` values are carried as. -/
def isInt64Text (s : Text) : Bool :=
  let digits := if startsWith s ['-'] then s.drop 1 else s
  digits ≠ [] && digits.all isDigit

def trimText (s : Text) : Text := ((s.dropWhile isSpace).reverse.dropWhile isSpace).reverse

theorem dropWhile_of_head {p : Char → Bool} {s : Text} (h : ∀ c ∈ s.head?, p c = false) :
    s.dropWhile p = s := by
  cases s with
  | nil => rfl
  | cons c s => rw [List.dropWhile_cons, if_neg (by simp [h c rfl])]

theorem trimText_of_ends {t : Text} (hhead : ∀ c ∈ t.head?, isSpace c = false)
    (hlast : ∀ c ∈ t.getLast?, isSpace c = false) : trimText t = t := by
  rw [trimText, dropWhile_of_head hhead, dropWhile_of_head, List.reverse_reverse]
  rw [List.head?_reverse]
  exact hlast

theorem trimText_sublist (s : Text) : (trimText s).Sublist s := by
  have h := (List.dropWhile_sublist (p := isSpace) (l := (s.dropWhile isSpace).reverse)).reverse
  rw [List.reverse_reverse] at h
  exact h.trans (List.dropWhile_sublist _)

/-- `Number(text)` when it is a finite number. -/
def finiteNumber (text : Text) : Option Rat :=
  match trimText text with
  | [] => some 0
  | '0' :: 'x' :: digits => (radixValue 16 digits).map (fun n => (n : Rat))
  | '0' :: 'X' :: digits => (radixValue 16 digits).map (fun n => (n : Rat))
  | '0' :: 'o' :: digits => (radixValue 8 digits).map (fun n => (n : Rat))
  | '0' :: 'O' :: digits => (radixValue 8 digits).map (fun n => (n : Rat))
  | '0' :: 'b' :: digits => (radixValue 2 digits).map (fun n => (n : Rat))
  | '0' :: 'B' :: digits => (radixValue 2 digits).map (fun n => (n : Rat))
  | token =>
    let negative := startsWith token ['-']
    let unsigned := if negative || startsWith token ['+'] then token.drop 1 else token
    let whole := unsigned.takeWhile isDigit
    let parts : Text × Text := match unsigned.dropWhile isDigit with
      | '.' :: rest => (rest.takeWhile isDigit, rest.dropWhile isDigit)
      | rest => ([], rest)
    if whole = [] ∧ parts.1 = [] then none
    else do
      let exponent ← readExponent parts.2
      let value := (DecimalText.mk negative whole parts.1 exponent).value
      if isFiniteNumber value then some value else none

def parseLiteral (token : Text) : Scalar :=
  match typedLiteralKinds.findSome? (unwrapODataTypedLiteral token) with
  | some inner => .str inner
  | none =>
    if isQuoted token then .str (unquote token)
    else if asciiLower token = "true".toList then .bool true
    else if asciiLower token = "false".toList then .bool false
    else if asciiLower token = "null".toList then .null
    else match tryParseNumericToken token with
      | some numeric => .num numeric
      | none => .str token

end LoopbackOData
