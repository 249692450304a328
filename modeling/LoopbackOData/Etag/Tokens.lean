import LoopbackOData.Filter.Literals
import LoopbackOData.Library.Json
import LoopbackOData.Library.Outcome
import LoopbackOData.Request

/-!
# Entity tags

How the tag of an entity is written, how the tags of an `If-Match` header are compared with it,
and how they are decoded into the values that a conditional write asks the database for.
-/

namespace LoopbackOData

set_option autoImplicit false

/-! ## Values of tag properties -/

/-- The value of a property, or what a text of a tag was coerced to. -/
inductive EtagValue where
  | missing
  | str (s : Text)
  | num (q : Rat)
  | bool (b : Bool)
  | bigint (i : Int)
  | date (ms : Int)
  | object (v : Json.Value)
  /-- `NaN`, infinities and invalid dates, which no stored value equals. -/
  | noValue

/-- The types of tag properties; `object` stands for every type that has no coercion of its own
and is not text. -/
inductive EtagType where
  | string | number | boolean | bigint | date | object
  deriving DecidableEq, Repr

/-- The texts of numbers and dates, and `new Date(..)` and `BigInt(..)` on texts. -/
structure Conversions where
  rt : Runtime
  parseDate : Text → Option Int
  bigintToString : Int → Text
  parseBigInt : Text → Option Int

/-- What the database finds when it is asked for a value. -/
def EtagValue.isStoredAs (stored : EtagValue) : EtagValue → Bool
  | .str s => match stored with
    | .str t => s = t
    | _ => false
  | .num q => match stored with
    | .num r => q = r
    | _ => false
  | .bool b => match stored with
    | .bool c => b = c
    | _ => false
  | .bigint i => match stored with
    | .bigint j => i = j
    | _ => false
  | .date ms => match stored with
    | .date ms' => ms = ms'
    | _ => false
  | _ => false

variable (conv : Conversions)

def serializeAtomicValue : EtagValue → Option Text
  | .missing => none
  | .str s => some s
  | .num q => some (conv.rt.numberToString q)
  | .bool b => some (if b then "true".toList else "false".toList)
  | .bigint i => some (conv.bigintToString i)
  | .date ms => some (conv.rt.dateToString ms)
  | .object v => some (Json.print v)
  | .noValue => none

def coerceToPropertyType (text : Text) : EtagType → EtagValue
  | .number => match finiteNumber text with
    | some q => .num q
    | none => .noValue
  | .boolean => .bool (asciiLower text = "true".toList)
  | .date => match conv.parseDate text with
    | some ms => .date ms
    | none => .noValue
  | .bigint => match conv.parseBigInt text with
    | some i => .bigint i
    | none => .str text
  | .string => .str text
  | .object => .str text

/-- The text of a value that is read back as the value. -/
def ReadsBack {α : Type} (read : Text → Option α) (text : Text) (a : α) : Prop :=
  text ≠ [] ∧ read text = some a

/-- The non-null values of a type, as far as the runtime has them. -/
def EtagType.Holds : EtagType → EtagValue → Prop
  | .string, .str _ => True
  | .number, .num q => ReadsBack finiteNumber (conv.rt.numberToString q) q
  | .boolean, .bool _ => True
  | .bigint, .bigint i => ReadsBack conv.parseBigInt (conv.bigintToString i) i
  | .date, .date ms => ReadsBack conv.parseDate (conv.rt.dateToString ms) ms
  | .object, .object _ => True
  | _, _ => False

/-! ## Writing a tag -/

def replaceChar (c : Char) (replacement s : Text) : Text :=
  s.flatMap fun d => if d = c then replacement else [d]

/-- `s.replace(/ab/g, r)`. -/
def replacePair (a b r : Char) : Text → Text
  | c :: d :: s => if c = a ∧ d = b then r :: replacePair a b r s else c :: replacePair a b r (d :: s)
  | s => s

def escapeEtagValue (s : Text) : Text :=
  replaceChar '"' ['\\', '"'] (replaceChar '\\' ['\\', '\\'] s)

def unescapeEtagValue (s : Text) : Text :=
  replacePair '\\' '\\' '\\' (replacePair '\\' '"' '"' s)

def weakWrap (content : Text) : Text := 'W' :: '/' :: '"' :: (content ++ ['"'])

/-- The properties that tags are made of: none where tags are disabled. -/
structure EtagConfig where
  properties : List (Text × EtagType)
  distinct : (properties.map Prod.fst).Nodup
  named : ∀ p ∈ properties, p.1 ≠ []

/-- The tag properties of an entity. -/
abbrev EtagState := Text → EtagValue

def etagSegment (name text : Text) : Text :=
  encodeURIComponent name ++ '=' :: encodeURIComponent text

/-- The segments of a composite tag; none where a value is missing. -/
def etagSegments (state : EtagState) : List (Text × EtagType) → Option (List Text)
  | [] => some []
  | (name, _) :: rest => do
    let text ← serializeAtomicValue conv (state name)
    return etagSegment name text :: (← etagSegments state rest)

/-- `computeEtagFromPlain`. -/
def encodeEtagToken (config : EtagConfig) (state : EtagState) : Option Text :=
  match config.properties with
  | [] => none
  | [(name, _)] => (serializeAtomicValue conv (state name)).map (weakWrap ∘ escapeEtagValue)
  | properties => (etagSegments conv state properties).map (weakWrap ∘ ['&'].intercalate)

/-! ## Reading a header -/

/-- An `If-Match` header: any tag, or one of a list. -/
inductive IfMatch where
  | any
  | values (tags : List Text)
  deriving DecidableEq, Repr

/-- The header's list is split at every comma, those inside a tag included. -/
def parseIfMatch (header : Option Text) : Option IfMatch :=
  match header with
  | none => none
  | some header =>
    let trimmed := trimText header
    if trimmed = [] then none
    else if trimmed = ['*'] then some .any
    else some (.values (((trimmed.splitOn ',').map trimText).filter (· ≠ [])))

def normalizeHeaderValue (headerValue : Text) : Text :=
  let trimmed := trimText headerValue
  trimText (if startsWith trimmed ['W', '/'] then trimmed.drop 2 else trimmed)

def isQuotedTag (s : Text) : Bool := s.head? = some '"' && s.getLast? = some '"'

/-- What stands between the quotes. -/
def tagContent (s : Text) : Text := (s.drop 1).dropLast

def normaliseTagForComparison (value : Text) : Text :=
  let normalised := normalizeHeaderValue value
  if isQuotedTag normalised then unescapeEtagValue (tagContent normalised) else normalised

def matchesEtag (encoded : Option Text) (expected : List Text) : Bool :=
  match encoded with
  | none => false
  | some encoded =>
    expected.any fun item => normaliseTagForComparison item = normaliseTagForComparison encoded

/-! ## Decoding tags -/

/-- A tag as the values that it asks for. -/
inductive DecodedEtag where
  | single (value : EtagValue)
  | composite (values : List (Text × EtagValue))

/-- The segments of a composite tag, of the properties that there are; none where one cannot be
read. -/
def decodeSegments (config : EtagConfig) : List Text → Option (List (Text × EtagValue))
  | [] => some []
  | [] :: rest => decodeSegments config rest
  | segment :: rest => do
    let parts := segment.splitOn '='
    let key ← decodeURIComponent (parts.headD [])
    if key = [] then none
    else match config.properties.lookup key with
      | none => decodeSegments config rest
      | some type =>
        let value ← decodeURIComponent ((parts.drop 1).headD [])
        return (key, coerceToPropertyType conv value type) :: (← decodeSegments config rest)

def decodeEtagToken (config : EtagConfig) (headerValue : Text) : Option DecodedEtag :=
  let normalized := normalizeHeaderValue headerValue
  if normalized = [] then none
  else match config.properties with
    | [] => some (.single (.str (normaliseTagForComparison headerValue)))
    | [(_, type)] =>
      some (.single (coerceToPropertyType conv (normaliseTagForComparison headerValue) type))
    | _ =>
      let inner := if isQuotedTag normalized then tagContent normalized else normalized
      match decodeSegments conv config (inner.splitOn '&') with
      | none => none
      | some [] => none
      | some values => some (.composite values)

/-- The last segment of a name counts. -/
def DecodedEtag.value (values : List (Text × EtagValue)) (name : Text) : Option EtagValue :=
  values.reverse.lookup name

/-- The values of the tags, and whether one of them lacks some of the properties. -/
def decodeIfMatchValues (config : EtagConfig) : List Text → List DecodedEtag × Bool
  | [] => ([], false)
  | raw :: rest =>
    let (decoded, invalidComposite) := decodeIfMatchValues config rest
    match config.properties with
    | [] => ([], false)
    | [_] => match decodeEtagToken conv config raw with
      | none => (decoded, invalidComposite)
      | some value => (value :: decoded, invalidComposite)
    | properties => match decodeEtagToken conv config raw with
      | some (.composite values) =>
        if properties.all fun p => (DecodedEtag.value values p.1).isSome then
          (.composite values :: decoded, invalidComposite)
        else (decoded, true)
      | _ => (decoded, true)

/-! ## Preconditions -/

/-- The condition of `buildConditionalWhere` for one tag, on the entity with the given key. -/
def selectsDecoded (config : EtagConfig) (state : EtagState) : DecodedEtag → Bool
  | .single value => match config.properties with
    | [(name, _)] => (state name).isStoredAs value
    | _ => false
  | .composite values => config.properties.all fun p =>
    (DecodedEtag.value values p.1).any (state p.1).isStoredAs

/-- Whether `replace` goes on, for an entity in this state. -/
def replacePrecondition (config : EtagConfig) (state : EtagState) (header : Option Text) : Bool :=
  match parseIfMatch header with
  | some (.values tags) =>
    config.properties = [] || matchesEtag (encodeEtagToken conv config state) tags
  | _ => true

/-- Whether the conditional write of `update` and `delete` finds the entity. -/
def conditionalWhereSelects (config : EtagConfig) (state : EtagState) (header : Option Text) :
    Bool :=
  match parseIfMatch header with
  | some (.values tags) =>
    match decodeIfMatchValues conv config tags with
    | (_, true) => false
    | (decoded, false) => decoded.any (selectsDecoded config state)
  | _ => true

end LoopbackOData
