import LoopbackOData.Etag.Tokens

/-!
# Properties of entities

The values of stored properties, the kinds that the controller sees in their definitions, and the
forms it gives to values of these kinds.
-/

namespace LoopbackOData

set_option autoImplicit false

/-! ## Values -/

/-- What a database compares and what keys are made of. -/
inductive Atom where
  | bool (b : Bool)
  | num (q : Rat)
  | bigint (i : Int)
  | str (s : Text)
  | date (ms : Int)
  deriving DecidableEq, Repr

/-- A value of a property or in a payload; `nan` is a number that is not finite. -/
inductive JsValue where
  | undefined
  | null
  | nan
  | atom (a : Atom)
  | list (items : List JsValue)
  | object (fields : List (Text × JsValue))

def JsValue.isNullish : JsValue → Bool
  | .undefined => true
  | .null => true
  | _ => false

def isAtom (value : JsValue) (a : Atom) : Bool :=
  match value with
  | .atom b => b = a
  | _ => false

theorem isAtom_iff {value : JsValue} {a : Atom} : isAtom value a = true ↔ value = .atom a := by
  cases value <;> simp [isAtom]

/-! ## Texts of dates, times and numbers -/

/-- The runtime, with the date in the time zone of the server (year, month and day) and
`String(date)`, and a setting of the server. -/
structure Environment extends Conversions where
  localDate : Int → Int × Nat × Nat
  dateText : Int → Text
  maxDecimalExponentAbs : Nat

/-- Whether a text has a shape, in which `d` stands for any digit. -/
def hasShape : Text → Text → Bool
  | [], [] => true
  | 'd' :: shape, c :: s => isDigit c && hasShape shape s
  | p :: shape, c :: s => p = c && hasShape shape s
  | _, _ => false

/-- `\.\d+` if it is there, with what is left. -/
def splitFraction (s : Text) : Text × Text :=
  match s with
  | '.' :: rest =>
    let digits := rest.takeWhile isDigit
    if digits = [] then ([], s) else ('.' :: digits, rest.dropWhile isDigit)
  | _ => ([], s)

def isOffset (s : Text) : Bool := hasShape "+dd:dd".toList s || hasShape "-dd:dd".toList s

/-- `Z` or an offset with a colon. -/
def normalizeOffset (offset : Text) : Option Text :=
  if offset = [] ∨ offset = ['Z'] ∨ offset = ['z'] then some ['Z']
  else
    let rest := (offset.drop 1).filter (· ≠ ':')
    if offset.head? ≠ some '+' ∧ offset.head? ≠ some '-' then none
    else if hasShape "dd".toList rest ∧ offset.length = 3 then
      normal (offset.take 1) rest ['0', '0']
    else if hasShape "dddd".toList rest ∧
        (offset.length = 5 ∨ hasShape "dd:dd".toList (offset.drop 1)) then
      normal (offset.take 1) (rest.take 2) (rest.drop 2)
    else none
where
  normal (sign hours minutes : Text) : Option Text :=
    if hours = ['0', '0'] ∧ minutes = ['0', '0'] then some ['Z']
    else some (sign ++ hours ++ ':' :: minutes)

def normalizeDateTimeOffsetString (raw : Text) : Option Text :=
  let trimmed := trimText raw
  let date := trimmed.take 10
  let separator := (trimmed.drop 10).take 1
  let time := (trimmed.drop 11).take 8
  let (fraction, offset) := splitFraction (trimmed.drop 19)
  if ¬ hasShape "dddd-dd-dd".toList date ∨ ¬ hasShape "dd:dd:dd".toList time then none
  else if separator = ['T'] ∧ fraction.length ≤ 8 ∧ (offset = ['Z'] ∨ isOffset offset) then
    some trimmed
  else if separator = ['T'] ∨ separator = [' '] then
    (normalizeOffset offset).map fun offset => date ++ 'T' :: (time ++ fraction ++ offset)
  else none

def padNumber (value : Int) (digits : Nat) : Text :=
  let text := (toString value.natAbs).toList
  (if value < 0 then ['-'] else []) ++ List.replicate (digits - text.length) '0' ++ text

def dropTrailingZeros (s : Text) : Text := (s.reverse.dropWhile (· = '0')).reverse

def formatTimeOfDay (hours minutes seconds millis : Int) : Text :=
  let fractionDigits := if millis ≠ 0 then dropTrailingZeros (padNumber millis 3) else []
  padNumber hours 2 ++ ':' :: padNumber minutes 2 ++ ':' :: padNumber seconds 2 ++
    (if fractionDigits ≠ [] then '.' :: fractionDigits else [])

/-- `Math.trunc`. -/
def truncate (q : Rat) : Int := if q < 0 then q.ceil else q.floor

def formatDurationFromMilliseconds (totalMillis : Rat) : Text :=
  let sign : Text := if totalMillis < 0 then ['-'] else []
  let total := (truncate totalMillis).natAbs
  let millis := total % 1000
  let seconds := total / 1000 % 60
  let minutes := total / 60000 % 60
  let hours := total / 3600000 % 24
  let days := total / 86400000
  let fraction := if millis ≠ 0 then dropTrailingZeros (padNumber millis 3) else []
  let number (n : Nat) : Text := (toString n).toList
  let timeParts :=
    (if hours ≠ 0 then number hours ++ ['H'] else []) ++
    (if minutes ≠ 0 then number minutes ++ ['M'] else []) ++
    (if seconds ≠ 0 ∨ fraction ≠ [] then
      number seconds ++ (if fraction ≠ [] then '.' :: fraction else []) ++ ['S'] else [])
  if timeParts = [] ∧ days = 0 then sign ++ "PT0S".toList
  else sign ++ 'P' :: (if days ≠ 0 then number days ++ ['D'] else []) ++
    (if timeParts ≠ [] then 'T' :: timeParts else [])

/-- `(?:\d+u)?`, on either case of the unit. -/
def dropUnit (unit : Char) (s : Text) : Text :=
  match s.takeWhile isDigit, s.dropWhile isDigit with
  | _ :: _, c :: rest => if c.toUpper = unit then rest else s
  | _, _ => s

/-- `(?:\d+(?:\.\d+)?S)?`. -/
def dropSeconds (s : Text) : Text :=
  match s.takeWhile isDigit, (splitFraction (s.dropWhile isDigit)).2 with
  | _ :: _, c :: rest => if c.toUpper = 'S' then rest else s
  | _, _ => s

/-- `/^-?P(?:(\d+)D)?(?:T(?:(\d+)H)?(?:(\d+)M)?(?:(\d+(?:\.\d+)?)S)?)?$/i`. -/
def isCanonicalDuration (s : Text) : Bool :=
  let unsigned := if startsWith s ['-'] then s.drop 1 else s
  match unsigned with
  | [] => false
  | p :: rest => p.toUpper = 'P' && match dropUnit 'D' rest with
    | [] => true
    | t :: time => t.toUpper = 'T' && dropSeconds (dropUnit 'M' (dropUnit 'H' time)) = []

/-- `^(\d{1,2}):(\d{2})`, with what is left. -/
def splitHours (s : Text) : Option (Nat × Nat × Text) :=
  let hours := s.takeWhile isDigit
  match s.dropWhile isDigit with
  | ':' :: rest =>
    let minutes := rest.take 2
    if (hours.length = 1 ∨ hours.length = 2) ∧ hasShape "dd".toList minutes then
      some (digitsValue hours, digitsValue minutes, rest.drop 2)
    else none
  | _ => none

/-- `^:(\d{2})(\.\d+)?$`. -/
def splitSeconds (s : Text) : Option (Nat × Text) :=
  match s with
  | ':' :: rest =>
    let (fraction, tail) := splitFraction (rest.drop 2)
    if hasShape "dd".toList (rest.take 2) ∧ tail = [] then
      some (digitsValue (rest.take 2), fraction)
    else none
  | _ => none

def combineDecimalParts (sign integer fraction : Text) : Text :=
  -- the last digit of an integer of zeros stays
  let significant := integer.dropWhile (· = '0')
  let normalizedInteger := if significant = [] then ['0'] else significant
  let normalizedFraction := dropTrailingZeros fraction
  if normalizedFraction ≠ [] then sign ++ normalizedInteger ++ '.' :: normalizedFraction
  else sign ++ normalizedInteger

/-- The digits with the point at an index, as integer and fraction. -/
def placePoint (digits : Text) (index : Int) : Text × Text :=
  if index ≤ 0 then (['0'], List.replicate index.natAbs '0' ++ digits)
  else if digits.length ≤ index then
    (digits ++ List.replicate (index.toNat - digits.length) '0', [])
  else (digits.take index.toNat, digits.drop index.toNat)

/-- `/^[+-]?(?:\d+\.?\d*|\.\d+)(?:e[+-]?\d+)?$/i` on what follows the sign: whole part, decimals and
exponent. -/
def splitDecimal (unsigned : Text) : Option (Text × Text × Option Int) :=
  let whole := unsigned.takeWhile isDigit
  let (decimals, rest) := match unsigned.dropWhile isDigit with
    | '.' :: rest => (rest.takeWhile isDigit, rest.dropWhile isDigit)
    | rest => ([], rest)
  if whole = [] ∧ decimals = [] then none
  else match rest with
    | [] => some (whole, decimals, none)
    | _ => (readExponent rest).map fun exponent => (whole, decimals, some exponent)

def normalizeDecimalString (maxExponentAbs : Nat) (input : Text) : Option Text :=
  let trimmed := trimText input
  let sign : Text := if startsWith trimmed ['-'] then ['-'] else []
  let unsigned := if startsWith trimmed ['-'] || startsWith trimmed ['+'] then trimmed.drop 1
    else trimmed
  match splitDecimal unsigned with
  | none => none
  | some (whole, decimals, none) =>
    some (combineDecimalParts sign (if whole = [] then ['0'] else whole) decimals)
  | some (whole, decimals, some exponent) =>
    if 0 < maxExponentAbs ∧ maxExponentAbs < exponent.natAbs then none
    else
      let (integer, fraction) := placePoint (whole ++ decimals) (whole.length + exponent)
      some (combineDecimalParts sign integer fraction)

/-- `toPlainDecimalString`, on the text of a number. -/
def toPlainDecimalString (str : Text) : Text :=
  let negative := startsWith str ['-']
  match splitDecimal (if negative then str.drop 1 else str) with
  | some (whole, decimals, some exponent) =>
    let sign : Text := if negative then ['-'] else []
    let digits := whole ++ decimals
    let targetIndex : Int := whole.length + exponent
    if targetIndex ≤ 0 then
      sign ++ '0' :: '.' :: (List.replicate targetIndex.natAbs '0' ++ digits)
    else if digits.length ≤ targetIndex then
      sign ++ digits ++ List.replicate (targetIndex.toNat - digits.length) '0'
    else
      let fractionalPart := dropTrailingZeros (digits.drop targetIndex.toNat)
      sign ++ digits.take targetIndex.toNat ++
        (if fractionalPart ≠ [] then '.' :: fractionalPart else [])
  | _ => str

/-! ## Definitions of properties -/

structure JsonSchema where
  type : Option Text := none
  format : Option Text := none
  dataType : Option Text := none
  odataType : Option Text := none
  precision : Bool := false
  scale : Bool := false

/-- The definition of a single value. All its texts are in lower case; a constructor like `Date` is
given by its name. -/
structure ItemDefinition where
  type : Text
  jsonSchema : JsonSchema := {}

/-- The definition of a property. An array says what its items are, which are not arrays. -/
structure PropertyDefinition extends ItemDefinition where
  isArray : Bool := false
  items : Option ItemDefinition := none

inductive PropertyKind where
  | datetimeoffset | date | timeOfDay | duration | decimal | int64
  deriving DecidableEq, Repr

def oneOf (value : Option Text) (names : List String) : Bool :=
  value.any fun value => value ∈ names.map String.toList

def classifyTemporalProperty (definition : ItemDefinition) : Option PropertyKind :=
  let schema := definition.jsonSchema
  if oneOf definition.type ["date", "datetime", "datetimeoffset", "timestamp"] then
    some .datetimeoffset
  else if oneOf schema.format ["date"] then some .date
  else if oneOf schema.dataType ["date"] then some .date
  else if oneOf schema.format ["date-time"] then some .datetimeoffset
  else if oneOf schema.dataType ["datetimeoffset", "datetime", "timestamp"] then
    some .datetimeoffset
  else none

/-- `classifyProperty` on single values. -/
def classifyItem (definition : ItemDefinition) : Option PropertyKind :=
  let schema := definition.jsonSchema
  match classifyTemporalProperty definition with
  | some kind => some kind
  | none =>
    if oneOf schema.format ["time", "time-of-day"] || oneOf schema.dataType ["timeofday"] ||
        oneOf definition.type ["time"] then some .timeOfDay
    else if oneOf schema.format ["duration"] || oneOf schema.dataType ["duration"] then
      some .duration
    else if oneOf schema.format ["decimal"] || oneOf schema.dataType ["decimal"] ||
        schema.precision || schema.scale then some .decimal
    else if oneOf schema.format ["int64", "long"] || oneOf schema.dataType ["int64", "long"] ||
        oneOf definition.type ["bigint"] then some .int64
    else none

structure PropertyNormalizationPlan where
  kind : PropertyKind
  isCollection : Bool

def classifyProperty (definition : PropertyDefinition) : Option PropertyNormalizationPlan :=
  if definition.isArray then
    (definition.items.bind classifyItem).map fun kind => ⟨kind, true⟩
  else (classifyItem definition.toItemDefinition).map fun kind => ⟨kind, false⟩

/-- The primitive types that identifiers are coerced to. -/
inductive PrimitiveType where
  | bigint | number | boolean
  deriving DecidableEq, Repr

def detectPrimitivePropertyType (definition : ItemDefinition) : Option PrimitiveType :=
  let schema := definition.jsonSchema
  if oneOf definition.type ["bigint"] then some .bigint
  else if oneOf definition.type ["number"] then some .number
  else if oneOf definition.type ["boolean"] then some .boolean
  else if oneOf schema.dataType ["int64", "long"] || oneOf schema.format ["int64", "long"] then
    some .bigint
  else if oneOf schema.type ["boolean"] then some .boolean
  else if oneOf schema.type ["number", "integer"] then some .number
  else none

def propertyDeclaresString (definition : ItemDefinition) : Bool :=
  oneOf definition.type ["string"]

def isGuidProperty (definition : ItemDefinition) : Bool :=
  let schema := definition.jsonSchema
  oneOf definition.type ["guid", "uuid"] || oneOf schema.format ["uuid", "guid"] ||
    oneOf schema.dataType ["guid"] || oneOf schema.odataType ["edm.guid"]

/-- `classifyPrimitiveProperty`, as far as keys are concerned. -/
def classifyPrimitiveProperty (definition : ItemDefinition) : Option PrimitiveType :=
  if oneOf definition.type ["number", "float", "double", "decimal", "integer"] then some .number
  else if oneOf definition.type ["boolean"] then some .boolean
  else none

/-! ## Normalization -/

section Normalization

variable (env : Environment)

/-- `[+-]\d{4}` at the end gets a colon. -/
def colonOffset (s : Text) : Text :=
  let offset := s.drop (s.length - 5)
  if hasShape "+dddd".toList offset || hasShape "-dddd".toList offset then
    s.take (s.length - 2) ++ ':' :: s.drop (s.length - 2)
  else s

def replaceFirst (c replacement : Char) : Text → Text
  | [] => []
  | d :: s => if d = c then replacement :: s else d :: replaceFirst c replacement s

def coerceDateText (value : Text) : Option Int :=
  let trimmed := trimText value
  if trimmed = [] then none
  else match normalizeDateTimeOffsetString trimmed with
    | some normalized => env.parseDate normalized
    | none =>
      let withOffsetColon := colonOffset trimmed
      env.parseDate trimmed <|> env.parseDate (replaceFirst ' ' 'T' trimmed) <|>
        (if withOffsetColon ≠ trimmed then
          env.parseDate (replaceFirst ' ' 'T' withOffsetColon) <|> env.parseDate withOffsetColon
        else none)

/-- `new Date(value)` on numbers within the range of dates, and on texts. -/
def coerceDate : JsValue → Option Int
  | .atom (.date ms) => some ms
  | .atom (.num q) => if |q| ≤ 8640000000000000 then some (truncate q) else none
  | .atom (.str s) => coerceDateText env s
  | _ => none

def normalizeDateTimeOffsetValue (value : JsValue) : JsValue :=
  match value with
  | .atom (.str s) =>
    match normalizeDateTimeOffsetString s with
    | some normalized => .atom (.str normalized)
    | none => fallback
  | _ => fallback
where
  fallback : JsValue :=
    match coerceDate env value with
    | some ms => .atom (.str (env.rt.dateToString ms))
    | none => value

def isoDate (year : Int) (month day : Nat) : Text :=
  padNumber year 4 ++ '-' :: padNumber month 2 ++ '-' :: padNumber day 2

/-- A date with `-` or slashes, in which month and day may have one digit. -/
def splitDate (s : Text) : Option (Nat × Nat × Nat) :=
  let isSeparator (c : Char) : Bool := c = '-' || c = '/'
  let month := (s.drop 5).takeWhile isDigit
  let rest := (s.drop 5).dropWhile isDigit
  let day := rest.drop 1
  if hasShape "dddd".toList (s.take 4) ∧ ((s.drop 4).take 1).any isSeparator ∧
      (month.length = 1 ∨ month.length = 2) ∧ (rest.take 1).any isSeparator ∧
      (hasShape "d".toList day ∨ hasShape "dd".toList day) then
    some (digitsValue (s.take 4), digitsValue month, digitsValue day)
  else none

def normalizeDateValue : JsValue → JsValue
  | .atom (.date ms) =>
    if ms % 86400000 = 0 then .atom (.str ((env.rt.dateToString ms).take 10))
    else
      let (year, month, day) := env.localDate ms
      .atom (.str (isoDate year month day))
  | .atom (.str s) =>
    let trimmed := trimText s
    if trimmed = [] then .atom (.str s)
    else if hasShape "dddd-dd-dd".toList trimmed then .atom (.str trimmed)
    else match splitDate trimmed with
      | some (year, month, day) => .atom (.str (isoDate year month day))
      | none => match coerceDateText env trimmed with
        | some ms => .atom (.str ((env.rt.dateToString ms).take 10))
        | none => .atom (.str s)
  | value => value

def normalizeTimeOfDayValue : JsValue → JsValue
  | .atom (.date ms) =>
    let time := ms % 86400000
    .atom (.str (formatTimeOfDay (time / 3600000) (time / 60000 % 60) (time / 1000 % 60)
      (time % 1000)))
  | .atom (.num q) =>
    let totalMillis := truncate q
    .atom (.str (formatTimeOfDay ((totalMillis / 3600000).tmod 24) (totalMillis / 60000 % 60)
      (totalMillis / 1000 % 60) (totalMillis % 1000)))
  | .atom (.str s) =>
    let trimmed := trimText s
    let (fraction, rest) := splitFraction (trimmed.drop 8)
    if trimmed = [] then .atom (.str s)
    else if hasShape "dd:dd:dd".toList (trimmed.take 8) ∧ rest = [] ∧ fraction.length ≤ 8 then
      .atom (.str trimmed)
    else match splitHours trimmed with
      | some (hours, minutes, []) => inRange s hours minutes 0 []
      | some (hours, minutes, rest) => match splitSeconds rest with
        | some (seconds, fraction) =>
          if fraction.length ≤ 8 then inRange s hours minutes seconds fraction else .atom (.str s)
        | none => .atom (.str s)
      | none => .atom (.str s)
  | value => value
where
  inRange (s : Text) (hours minutes seconds : Nat) (fraction : Text) : JsValue :=
    if hours < 24 ∧ minutes < 60 ∧ seconds < 60 then
      .atom (.str (padNumber hours 2 ++ ':' :: padNumber minutes 2 ++ ':' :: padNumber seconds 2 ++
        fraction))
    else .atom (.str s)

def normalizeDurationValue : JsValue → JsValue
  | .atom (.num q) => .atom (.str (formatDurationFromMilliseconds q))
  | .atom (.bigint i) =>
    if isFiniteNumber i then .atom (.str (formatDurationFromMilliseconds i)) else .atom (.bigint i)
  | .atom (.str s) =>
    let trimmed := trimText s
    let negative := startsWith trimmed ['-']
    if trimmed = [] then .atom (.str s)
    else if isCanonicalDuration trimmed then .atom (.str (asciiUpper trimmed))
    else match splitHours (if negative then trimmed.drop 1 else trimmed) with
      | some (hours, minutes, rest) => match splitSeconds rest with
        | some (seconds, fraction) =>
          if minutes < 60 ∧ seconds < 60 then
            .atom (.str ((if negative then ['-'] else []) ++ "PT".toList ++ part hours [] 'H' ++
              part minutes [] 'M' ++ part seconds fraction 'S'))
          else .atom (.str s)
        | none => .atom (.str s)
      | none => .atom (.str s)
  | value => value
where
  part (n : Nat) (fraction : Text) (unit : Char) : Text :=
    if n ≠ 0 ∨ fraction ≠ [] then (toString n).toList ++ fraction ++ [unit] else []

/-- A value in its form for a response, with an annotation of its type. -/
structure NormalizedPropertyValue where
  value : JsValue
  typeAnnotation : Option Text

def int64Text : JsValue → Option Text
  | .atom (.str s) => if isInt64Text (trimText s) then some (trimText s) else none
  | .atom (.num q) => if q.den = 1 then some (env.rt.numberToString q) else none
  | .atom (.bigint i) => some (env.bigintToString i)
  | _ => none

def normalizeInt64Value (value : JsValue) : Option NormalizedPropertyValue :=
  (int64Text env value).map fun text => ⟨.atom (.str text), some "Edm.Int64".toList⟩

def decimalText : JsValue → Option Text
  | .atom (.str s) => normalizeDecimalString env.maxDecimalExponentAbs s
  | .atom (.num q) => some (toPlainDecimalString (env.rt.numberToString q))
  | _ => none

def normalizeDecimalValue (value : JsValue) : Option NormalizedPropertyValue :=
  (decimalText env value).map fun text => ⟨.atom (.str text), some "Edm.Decimal".toList⟩

def normalizeSingleValue (value : JsValue) : PropertyKind → Option NormalizedPropertyValue
  | .datetimeoffset => some ⟨normalizeDateTimeOffsetValue env value, none⟩
  | .date => some ⟨normalizeDateValue env value, none⟩
  | .timeOfDay => some ⟨normalizeTimeOfDayValue value, none⟩
  | .duration => some ⟨normalizeDurationValue value, none⟩
  | .int64 => normalizeInt64Value env value
  | .decimal => normalizeDecimalValue env value

/-- An array with the items that have no form of their own left as they are. -/
def applyPropertyNormalization (value : JsValue) (plan : PropertyNormalizationPlan) :
    Option NormalizedPropertyValue :=
  if plan.isCollection then
    match value with
    | .list items =>
      let normalized := items.map fun item => normalizeSingleValue env item plan.kind
      let annotation := (normalized.filterMap id).findSome? NormalizedPropertyValue.typeAnnotation
      some {
        value := .list ((items.zip normalized).map fun (item, n) => (n.map (·.value)).getD item)
        typeAnnotation := annotation.map fun edmType => "Collection(".toList ++ edmType ++ [')'] }
    | _ => none
  else normalizeSingleValue env value plan.kind

end Normalization

/-! ## Identifiers -/

/-- `Number(text)`, none for `NaN`. -/
def numberOfText (text : Text) : Option JsValue :=
  match finiteNumber text with
  | some q => some (.atom (.num q))
  | none =>
    let trimmed := trimText text
    let unsigned := if startsWith trimmed ['-'] || startsWith trimmed ['+'] then trimmed.drop 1
      else trimmed
    if unsigned = "Infinity".toList ∨ (splitDecimal unsigned).isSome then some .nan else none

def coerceIdentifierLiteral (env : Environment) (literal : Text) (definition : ItemDefinition)
    (descriptor : String) : Except HttpError JsValue :=
  let invalid : Except HttpError JsValue :=
    badRequest ("Invalid " ++ descriptor ++ ": " ++ String.ofList literal)
  match detectPrimitivePropertyType definition with
  | some .bigint => match env.parseBigInt literal with
    | some i =>
      .ok (.atom (if propertyDeclaresString definition then .str literal else .bigint i))
    | none => invalid
  | some .number => match numberOfText literal with
    | some number => .ok number
    | none => invalid
  | some .boolean =>
    if asciiLower literal = "true".toList then .ok (.atom (.bool true))
    else if asciiLower literal = "false".toList then .ok (.atom (.bool false))
    else invalid
  | none => .ok (.atom (.str literal))

end LoopbackOData
