import LoopbackOData.Library.Dictionary
import LoopbackOData.Paging.TokenSigning

/-!
# Delta tokens

What a delta token carries, how the values in it are written, and how they are read back. Tokens of
the older formats, which are not signed, are refused as by default.
-/

namespace LoopbackOData

open Outcome

set_option autoImplicit false

/-- A value in a result row or in a payload. A number is finite and known by the text it prints as,
a date by its ISO text. -/
inductive RowValue where
  | undefined
  | null
  | bool (b : Bool)
  | number (n : Json.Number)
  | bigint (i : Int)
  | string (s : Text)
  | date (iso : Text)
  | array (items : List RowValue)
  | record (fields : List (Text × RowValue))

namespace RowValue

/-- An object with the properties of a row. -/
abbrev Record := Dictionary Text RowValue

/-- `record[name]`. -/
def Record.value (record : Record) (name : Text) : RowValue :=
  (Dictionary.get record name).getD .undefined

mutual

/-- What `JSON.stringify` prints for the value; nothing for `undefined`. It throws on a bigint,
which is not among the values that are printed whole. -/
def toJson : RowValue → Option Json.Value
  | .undefined => none
  | .bigint _ => none
  | .null => some .null
  | .bool b => some (.bool b)
  | .number n => some (.num n)
  | .string s => some (.str s)
  | .date iso => some (.str iso)
  | .array items => some (.arr (toJsonItems items))
  | .record fields => some (.obj (toJsonFields fields))

def toJsonItems : List RowValue → List Json.Value
  | [] => []
  | item :: items => item.toJson.getD .null :: toJsonItems items

def toJsonFields : List (Text × RowValue) → List (Text × Json.Value)
  | [] => []
  | (name, value) :: fields =>
    match value.toJson with
    | some value => (name, value) :: toJsonFields fields
    | none => toJsonFields fields

end

mutual

/-- The value that `JSON.parse` makes. -/
def ofJson : Json.Value → RowValue
  | .null => .null
  | .bool b => .bool b
  | .num n => .number n
  | .str s => .string s
  | .arr items => .array (ofJsonItems items)
  | .obj fields => .record (ofJsonFields fields)

def ofJsonItems : List Json.Value → List RowValue
  | [] => []
  | item :: items => ofJson item :: ofJsonItems items

def ofJsonFields : List (Text × Json.Value) → List (Text × RowValue)
  | [] => []
  | (name, value) :: fields => (name, ofJson value) :: ofJsonFields fields

end

/-- `null`, a text, a number, a truth value, a date or nothing. -/
def IsScalar : RowValue → Prop
  | .bigint _ => False
  | .array _ => False
  | .record _ => False
  | _ => True

def isDate : RowValue → Bool
  | .date _ => true
  | _ => false

end RowValue

open RowValue

/-! ## Encoded values -/

def encodedDeltaValue (kind : String) (value : Json.Value) : Json.Value :=
  .obj [("kind".toList, .str kind.toList), ("value".toList, value)]

def encodedNull : Json.Value := .obj [("kind".toList, .str "null".toList)]

def encodeValue : RowValue → Json.Value
  | .null => encodedNull
  | .undefined => encodedNull
  | .string s => encodedDeltaValue "string" (.str s)
  | .number n => encodedDeltaValue "number" (.str n.text)
  | .bigint i => encodedDeltaValue "bigint" (.str (Json.Number.ofInt i).text)
  | .bool b => encodedDeltaValue "boolean" (.bool b)
  | .date iso => encodedDeltaValue "date" (.str iso)
  | value => encodedDeltaValue "json" (.str (Json.print (value.toJson.getD .null)))

/-- `entry.kind`, where it is a text. -/
def encodedKind : Json.Value → Option Text
  | .obj fields => TokenEnvelope.text fields "kind"
  | _ => none

/-- `entry.value`. -/
def encodedContent : Json.Value → Option Json.Value
  | .obj fields => TokenEnvelope.get fields "value"
  | _ => none

/-- `Number(text)` for the literal of a number. What is no number prints as `null`. -/
def numberOfLiteral (text : Text) : RowValue :=
  if h : Json.isNumber text then .number ⟨text, h⟩ else .null

/-- `BigInt(text)`; nothing where it throws. -/
def readBigInt (text : Text) : Option Int :=
  let token := trimText text
  let digits := if startsWith token ['-'] || startsWith token ['+'] then token.drop 1 else token
  if token = [] then some 0
  else if digits ≠ [] ∧ digits.all isDigit then
    some (if startsWith token ['-'] then -(digitsValue digits : Int) else digitsValue digits)
  else match token with
    | '0' :: 'x' :: digits => (radixValue 16 digits).map Int.ofNat
    | '0' :: 'X' :: digits => (radixValue 16 digits).map Int.ofNat
    | '0' :: 'o' :: digits => (radixValue 8 digits).map Int.ofNat
    | '0' :: 'O' :: digits => (radixValue 8 digits).map Int.ofNat
    | '0' :: 'b' :: digits => (radixValue 2 digits).map Int.ofNat
    | '0' :: 'B' :: digits => (radixValue 2 digits).map Int.ofNat
    | _ => none

/-- `Boolean(value)`. -/
def contentTruth : Option Json.Value → Bool
  | none => false
  | some value => isTruthy value

def contentValue : Option Json.Value → RowValue
  | none => .undefined
  | some value => ofJson value

/-- Values that are not encoded occur in tokens of the older formats only. -/
def decodeStoredValue (value : Json.Value) : RowValue :=
  match encodedKind value with
  | none => ofJson value
  | some kind =>
    let content := encodedContent value
    if kind = "null".toList then .null
    else if kind = "string".toList then
      match content with
      | none => .string []
      | some .null => .string []
      | some value => ofJson value
    else if kind = "number".toList then
      match content with
      | some (.str text) => numberOfLiteral text
      | some (.num n) => .number n
      | some (.bool b) => numberOfLiteral (if b then ['1'] else ['0'])
      | _ => numberOfLiteral ['0']
    else if kind = "bigint".toList then
      match content with
      | some (.str text) => ((readBigInt text).map .bigint).getD (.string text)
      | _ => contentValue content
    else if kind = "boolean".toList then .bool (contentTruth content)
    else if kind = "date".toList then
      match content with
      | some (.str text) => .date text
      | _ => contentValue content
    else if kind = "json".toList then
      match content with
      | some (.str text) => ((Json.parse text).map ofJson).getD (.string text)
      | _ => contentValue content
    else contentValue content

/-- The properties of an object to which the fields are assigned one by one. -/
def assignedFields {α : Type} (fields : List (Text × α)) : List (Text × α) :=
  fields.filter fun field => decide (field.1 ≠ prototypeKey)

def encodeFieldValues (fields : List (Text × RowValue)) : List (Text × Json.Value) :=
  assignedFields (fields.map fun field => (field.1, encodeValue field.2))

def encodeKeyValues : Option Record → Option Json.Value
  | none => none
  | some [] => none
  | some fields => some (.obj (encodeFieldValues fields))

def encodeKeyValuesArray (list : Option (List Record)) : Option Json.Value :=
  match (list.getD []).filterMap fun entry => encodeKeyValues (some entry) with
  | [] => none
  | entries => some (.arr entries)

def decodeKeyValuesObject : Json.Value → Option Record
  | .obj fields =>
    some (assignedFields (fields.map fun field => (field.1, decodeStoredValue field.2)))
  | _ => none

def decodeKeyValuesArray : Option Json.Value → Option (List Record)
  | some (.arr items) =>
    match items.filterMap decodeKeyValuesObject with
    | [] => none
    | entries => some entries
  | _ => none

/-! ## Structured values -/

mutual

/-- A date passes for a plain record, and it has no properties of its own. -/
def encodeStructuredValue : RowValue → Option Json.Value
  | .undefined => none
  | .array items => some (.arr (encodeStructuredItems items))
  | .record fields => some (.obj (encodeStructuredFields fields))
  | .date _ => some (.obj [])
  | value => some (encodeValue value)

def encodeStructuredItems : List RowValue → List Json.Value
  | [] => []
  | item :: items => (encodeStructuredValue item).getD .null :: encodeStructuredItems items

def encodeStructuredFields : List (Text × RowValue) → List (Text × Json.Value)
  | [] => []
  | (name, value) :: fields =>
    if name = prototypeKey then encodeStructuredFields fields
    else match encodeStructuredValue value with
      | some value => (name, value) :: encodeStructuredFields fields
      | none => encodeStructuredFields fields

end

mutual

def decodeStructuredValue : Json.Value → RowValue
  | .arr items => .array (decodeStructuredItems items)
  | .obj fields =>
    if (encodedKind (.obj fields)).isSome then decodeStoredValue (.obj fields)
    else .record (decodeStructuredFields fields)
  | value => ofJson value

def decodeStructuredItems : List Json.Value → List RowValue
  | [] => []
  | item :: items => decodeStructuredValue item :: decodeStructuredItems items

def decodeStructuredFields : List (Text × Json.Value) → List (Text × RowValue)
  | [] => []
  | (name, value) :: fields =>
    if name = prototypeKey then decodeStructuredFields fields
    else (name, decodeStructuredValue value) :: decodeStructuredFields fields

end

/-! ## Buckets and payloads -/

structure DeltaTokenBucketState where
  key : Record
  data : Option Record

/-- An object whose undefined properties are left out. -/
def presentFields (fields : List (String × Option Json.Value)) : Json.Value :=
  .obj (fields.filterMap fun field => field.2.map (field.1.toList, ·))

def encodeBucketState (entry : DeltaTokenBucketState) : Json.Value :=
  presentFields
    [("key", encodeStructuredValue (.record entry.key)),
      ("data", entry.data.bind fun data => encodeStructuredValue (.record data))]

/-- `decodeStructuredValue` of an object; that of anything else is no object. -/
def decodeRecord (fields : List (Text × Json.Value)) : Record :=
  match decodeStructuredValue (.obj fields) with
  | .record decoded => decoded
  | _ => []

/-- A member that is an object. -/
def objectField (fields : List (Text × Json.Value)) (name : String) :
    Option (List (Text × Json.Value)) :=
  match TokenEnvelope.get fields name with
  | some (.obj nested) => some nested
  | _ => none

/-- An entry without a key is the key. -/
def normalizeBucketState : Json.Value → Option DeltaTokenBucketState
  | .obj fields =>
    match objectField fields "key" with
    | some key => some ⟨decodeRecord key, (objectField fields "data").map decodeRecord⟩
    | none => some ⟨decodeRecord fields, none⟩
  | _ => none

def normalizeBucketStates : Option Json.Value → Option (List DeltaTokenBucketState)
  | some (.arr items) =>
    match items.filterMap normalizeBucketState with
    | [] => none
    | entries => some entries
  | _ => none

structure DeltaTokenPayload where
  entitySet : Text
  lastValue : Text
  keyValues : Option Record
  pageKeys : Option (List Record)
  buckets : Option (List DeltaTokenBucketState)
  issuedAt : Option Text

/-- What a token is signed for; `nowIso` is the ISO text of the present. -/
def DeltaTokenPayload.encode (payload : DeltaTokenPayload) (nowIso : Text) : Json.Value :=
  presentFields
    [("entitySet", some (.str payload.entitySet)), ("lastValue", some (.str payload.lastValue)),
      ("keyValues", encodeKeyValues payload.keyValues),
      ("pageKeys", encodeKeyValuesArray payload.pageKeys),
      ("buckets", payload.buckets.map fun buckets => .arr (buckets.map encodeBucketState)),
      ("issuedAt", some (.str (payload.issuedAt.getD nowIso)))]

def deltaTokenType : Text := "delta".toList

def encodeDeltaToken (hmac : Text → Text → Text) (payload : DeltaTokenPayload)
    (options : TokenSecurityOptions) (now : Int) (nowIso nonce : Text) : Text :=
  signToken hmac deltaTokenType (payload.encode nowIso) options now nonce

def decodeDeltaToken (hmac : Text → Text → Text) (token : Text) (options : TokenSecurityOptions)
    (now : Int) : Except TokenError DeltaTokenPayload :=
  if token = [] then invalidToken "Invalid delta token format."
  else if startsWith token "v2:".toList || startsWith token "v1:".toList then
    .error (.verification "Legacy delta tokens are not allowed." .legacyDenied)
  else do
    match ← verifyToken hmac token deltaTokenType options now with
    | some (.obj data) =>
      .ok
        { entitySet := (TokenEnvelope.text data "entitySet").getD []
          lastValue := (TokenEnvelope.text data "lastValue").getD []
          keyValues := (TokenEnvelope.get data "keyValues").bind decodeKeyValuesObject
          pageKeys := decodeKeyValuesArray (TokenEnvelope.get data "pageKeys")
          buckets := normalizeBucketStates (TokenEnvelope.get data "buckets")
          issuedAt := TokenEnvelope.text data "issuedAt" }
    | _ => .error .typeError

/-! ## What comes back -/

/-- The value that is read back in place of one that was written. -/
def storedValue (value : RowValue) : RowValue :=
  match encodeStructuredValue value with
  | some encoded => decodeStructuredValue encoded
  | none => .undefined

theorem numberOfLiteral_text (n : Json.Number) : numberOfLiteral n.text = .number n := by
  rw [numberOfLiteral, dif_pos n.valid]

theorem storedValue_scalar {value : RowValue} (h : value.IsScalar) :
    storedValue value = if value.isDate then .record [] else value := by
  cases value with
  | undefined => rfl
  | null => rfl
  | bool b => cases b <;> rfl
  | number n => exact numberOfLiteral_text n
  | string s => rfl
  | date iso => rfl
  | bigint i => exact absurd h id
  | array items => exact absurd h id
  | record fields => exact absurd h id

/-- The record that is read back. -/
def storedFields (fields : Record) : Record :=
  decodeStructuredFields (encodeStructuredFields fields)

theorem encodedKind_encodeStructuredFields (fields : Record) :
    encodedKind (.obj (encodeStructuredFields fields)) = none := by
  have hnot : ∀ member ∈ encodeStructuredFields fields, ∀ s, member.2 ≠ .str s := by
    induction fields with
    | nil => simp [encodeStructuredFields]
    | cons field fields ih =>
      obtain ⟨name, value⟩ := field
      rw [encodeStructuredFields]
      have hvalue (encoded : Json.Value) (h : encodeStructuredValue value = some encoded)
          (s : Text) : encoded ≠ .str s := by
        rintro rfl
        cases value <;> simp [encodeStructuredValue, encodeValue, encodedNull,
          encodedDeltaValue] at h
      split
      · exact ih
      · cases hencoded : encodeStructuredValue value with
        | none => exact ih
        | some encoded => exact List.forall_mem_cons.mpr ⟨hvalue encoded hencoded, ih⟩
  rw [encodedKind, TokenEnvelope.text, TokenEnvelope.get]
  cases hlookup : (encodeStructuredFields fields).reverse.lookup "kind".toList with
  | none => rfl
  | some member =>
    obtain ⟨before, after, heq, _⟩ := List.lookup_eq_some_iff.mp hlookup
    have hmem : ("kind".toList, member) ∈ encodeStructuredFields fields := by
      rw [← List.mem_reverse, heq]
      simp
    cases member with
    | str s => exact absurd rfl (hnot _ hmem s)
    | null => rfl
    | bool b => rfl
    | num n => rfl
    | arr items => rfl
    | obj fields => rfl

theorem decodeRecord_encodeStructuredFields (fields : Record) :
    decodeRecord (encodeStructuredFields fields) = storedFields fields := by
  rw [decodeRecord, decodeStructuredValue, encodedKind_encodeStructuredFields]
  rfl

theorem storedFields_cons (name : Text) (value : RowValue) (fields : Record) :
    storedFields ((name, value) :: fields) =
      if name = prototypeKey then storedFields fields
      else match encodeStructuredValue value with
        | some encoded => (name, decodeStructuredValue encoded) :: storedFields fields
        | none => storedFields fields := by
  rw [storedFields, encodeStructuredFields]
  by_cases hname : name = prototypeKey
  · rw [if_pos hname, if_pos hname]
    rfl
  · rw [if_neg hname, if_neg hname]
    cases encodeStructuredValue value with
    | none => rfl
    | some encoded =>
      dsimp only
      rw [decodeStructuredFields, if_neg hname]
      rfl

theorem keys_storedFields_subset {fields : Record} :
    (storedFields fields).map Prod.fst ⊆ fields.map Prod.fst := by
  induction fields with
  | nil => exact List.Subset.refl _
  | cons field fields ih =>
    rw [storedFields_cons]
    split
    · exact List.subset_cons_of_subset _ ih
    · cases encodeStructuredValue field.2 with
      | none => exact List.subset_cons_of_subset _ ih
      | some encoded => exact List.cons_subset_cons _ ih

theorem distinct_storedFields {fields : Record} (h : fields.Distinct) :
    (storedFields fields).Distinct := by
  induction fields with
  | nil => exact h
  | cons field fields ih =>
    obtain ⟨hnot, hrest⟩ := Dictionary.distinct_cons.mp h
    rw [storedFields_cons]
    split
    · exact ih hrest
    · cases encodeStructuredValue field.2 with
      | none => exact ih hrest
      | some encoded =>
        exact Dictionary.distinct_cons.mpr
          ⟨fun hmem => hnot (keys_storedFields_subset hmem), ih hrest⟩

/-- A record with distinct names is read back value by value, but for undefined ones and what is
named `__proto__`. -/
theorem get_storedFields {fields : Record} (h : fields.Distinct) (name : Text) :
    Dictionary.get (storedFields fields) name =
      if name = prototypeKey then none
      else (Dictionary.get fields name).bind fun value =>
        (encodeStructuredValue value).map decodeStructuredValue := by
  induction fields with
  | nil => exact (ite_self _).symm
  | cons field fields ih =>
    obtain ⟨fieldName, value⟩ := field
    obtain ⟨hnot, hrest⟩ := Dictionary.distinct_cons.mp h
    have ih := ih hrest
    rw [storedFields_cons, Dictionary.get_cons]
    by_cases hname : fieldName = name
    · subst hname
      rw [if_pos rfl, Option.bind_some]
      by_cases hprototype : fieldName = prototypeKey
      · rw [if_pos hprototype, if_pos hprototype, ih, if_pos hprototype]
      · rw [if_neg hprototype, if_neg hprototype]
        cases encodeStructuredValue value with
        | none =>
          rw [Option.map_none]
          exact Dictionary.get_eq_none_of_not_mem fun hmem => hnot (keys_storedFields_subset hmem)
        | some encoded =>
          dsimp only
          rw [Dictionary.get_cons, if_pos rfl]
          rfl
    · rw [if_neg hname, ← ih]
      split
      · rfl
      · cases encodeStructuredValue value with
        | none => rfl
        | some encoded =>
          dsimp only
          rw [Dictionary.get_cons, if_neg hname]

theorem storedValue_eq (value : RowValue) :
    storedValue value =
      ((encodeStructuredValue value).map decodeStructuredValue).getD .undefined := by
  rw [storedValue]
  cases encodeStructuredValue value <;> rfl

/-- With nothing under `__proto__` the records agree name by name. -/
theorem get_storedFields_of_plain {fields : Record} (h : fields.Distinct)
    (hplain : fields.value prototypeKey = .undefined) (name : Text) :
    Dictionary.get (storedFields fields) name =
      (Dictionary.get fields name).bind fun value =>
        (encodeStructuredValue value).map decodeStructuredValue := by
  rw [get_storedFields h]
  by_cases hname : name = prototypeKey
  · rw [if_pos hname, hname]
    rw [Record.value] at hplain
    cases hget : Dictionary.get fields prototypeKey with
    | none => rfl
    | some value =>
      rw [hget, Option.getD_some] at hplain
      rw [hplain]
      rfl
  · rw [if_neg hname]

theorem value_storedFields {fields : Record} (h : fields.Distinct)
    (hplain : fields.value prototypeKey = .undefined) (name : Text) :
    (storedFields fields).value name = storedValue (fields.value name) := by
  rw [Record.value, get_storedFields_of_plain h hplain, Record.value, storedValue_eq]
  cases Dictionary.get fields name <;> rfl

theorem normalizeBucketState_encodeBucketState (entry : DeltaTokenBucketState) :
    normalizeBucketState (encodeBucketState entry) =
      some ⟨storedFields entry.key, entry.data.map storedFields⟩ := by
  obtain ⟨key, data⟩ := entry
  rw [← decodeRecord_encodeStructuredFields]
  cases data with
  | none =>
    simp [normalizeBucketState, encodeBucketState, presentFields, objectField, TokenEnvelope.get,
      List.lookup, encodeStructuredValue]
  | some data =>
    simp [normalizeBucketState, encodeBucketState, presentFields, objectField, TokenEnvelope.get,
      List.lookup, encodeStructuredValue, decodeRecord_encodeStructuredFields]

/-- The bucket that is read back. -/
def storedBucket (entry : DeltaTokenBucketState) : DeltaTokenBucketState :=
  ⟨storedFields entry.key, entry.data.map storedFields⟩

theorem normalizeBucketStates_encode (buckets : List DeltaTokenBucketState) :
    (normalizeBucketStates (some (.arr (buckets.map encodeBucketState)))).getD [] =
      buckets.map storedBucket := by
  have hall : (buckets.map encodeBucketState).filterMap normalizeBucketState =
      buckets.map storedBucket := by
    induction buckets with
    | nil => rfl
    | cons entry buckets ih =>
      rw [List.map_cons,
        List.filterMap_cons_some (normalizeBucketState_encodeBucketState entry), ih]
      rfl
  rw [normalizeBucketStates, hall]
  cases buckets <;> rfl

/-- The payload that is read back. -/
def storedPayload (payload : DeltaTokenPayload) (nowIso : Text) : DeltaTokenPayload where
  entitySet := payload.entitySet
  lastValue := payload.lastValue
  keyValues := (encodeKeyValues payload.keyValues).bind decodeKeyValuesObject
  pageKeys := decodeKeyValuesArray (encodeKeyValuesArray payload.pageKeys)
  buckets :=
    normalizeBucketStates (payload.buckets.map fun buckets => .arr (buckets.map encodeBucketState))
  issuedAt := some (payload.issuedAt.getD nowIso)

theorem get_encode (payload : DeltaTokenPayload) (nowIso : Text) :
    ∃ data, payload.encode nowIso = .obj data ∧
      TokenEnvelope.text data "entitySet" = some payload.entitySet ∧
      TokenEnvelope.text data "lastValue" = some payload.lastValue ∧
      TokenEnvelope.get data "keyValues" = encodeKeyValues payload.keyValues ∧
      TokenEnvelope.get data "pageKeys" = encodeKeyValuesArray payload.pageKeys ∧
      TokenEnvelope.get data "buckets" =
        payload.buckets.map (fun buckets => .arr (buckets.map encodeBucketState)) ∧
      TokenEnvelope.text data "issuedAt" = some (payload.issuedAt.getD nowIso) := by
  refine ⟨_, rfl, ?_⟩
  cases encodeKeyValues payload.keyValues <;> cases encodeKeyValuesArray payload.pageKeys <;>
    cases payload.buckets <;> simp [TokenEnvelope.text, TokenEnvelope.get, List.lookup]

section Tokens

variable {hmac : Text → Text → Text} {payload : DeltaTokenPayload} {options : TokenSecurityOptions}
  {now later : Int} {nowIso nonce : Text}

/-- A token is accepted before it expires if it is not too large. -/
theorem decodeDeltaToken_eq (hsecret : options.secret ≠ [])
    (hexpiry : ∀ ttlMs ∈ options.ttlMs, later ≤ now + ttlMs) :
    decodeDeltaToken hmac (encodeDeltaToken hmac payload options now nowIso nonce) options later =
      if (envelopeBytes (signedEnvelope hmac deltaTokenType (payload.encode nowIso) options now
          nonce)).length > maxTokenEnvelopeBytes then
        invalidToken "Token payload exceeds maximum size."
      else .ok (storedPayload payload nowIso) := by
  have hnonempty : encodeDeltaToken hmac payload options now nowIso nonce ≠ [] := by
    simp [encodeDeltaToken, signToken, encodeEnvelope]
  have hsigned : (startsWith (encodeDeltaToken hmac payload options now nowIso nonce)
      "v2:".toList || startsWith (encodeDeltaToken hmac payload options now nowIso nonce)
      "v1:".toList) = false := rfl
  rw [decodeDeltaToken, if_neg hnonempty, hsigned, if_neg Bool.false_ne_true, encodeDeltaToken,
    verifyToken_signToken hsecret hexpiry]
  split
  · rfl
  · obtain ⟨data, hencode, hentitySet, hlastValue, hkeyValues, hpageKeys, hbuckets, hissuedAt⟩ :=
      get_encode payload nowIso
    rw [hencode]
    refine bind_eq_ok.mpr ⟨_, rfl, ?_⟩
    dsimp only
    rw [hentitySet, hlastValue, hkeyValues, hpageKeys, hbuckets, hissuedAt]
    rfl

/-- The buckets that are read back from an accepted token. -/
theorem decodeDeltaToken_encodeDeltaToken {buckets : List DeltaTokenBucketState}
    (hsecret : options.secret ≠ []) (hexpiry : ∀ ttlMs ∈ options.ttlMs, later ≤ now + ttlMs)
    (hbuckets : payload.buckets = some buckets) :
    (decodeDeltaToken hmac (encodeDeltaToken hmac payload options now nowIso nonce) options
        later).map (fun decoded => decoded.buckets.getD []) =
      if (envelopeBytes (signedEnvelope hmac deltaTokenType (payload.encode nowIso) options now
          nonce)).length > maxTokenEnvelopeBytes then
        invalidToken "Token payload exceeds maximum size."
      else .ok (buckets.map storedBucket) := by
  rw [decodeDeltaToken_eq hsecret hexpiry]
  split
  · rfl
  · rw [Except.map, storedPayload, hbuckets, Option.map_some, normalizeBucketStates_encode]

end Tokens

end LoopbackOData
