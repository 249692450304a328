import LoopbackOData.Library.Utf8
import LoopbackOData.Paging.DeltaToken
import LoopbackOData.Paging.Order

/-!
# Tokens of any shape

What reading a token throws, whatever JSON it carries. Of the values that are read only those are
kept that are looked at again; how deep the runtime lets functions recurse is left out.
-/

namespace LoopbackOData

namespace BadTokens

open Outcome

set_option autoImplicit false

/-! ## The runtime -/

/-- A number in double precision. -/
inductive Double where
  | nan
  | infinite (negative : Bool)
  | finite (q : Rat)

def Double.isTruthy : Double → Bool
  | .nan => false
  | .infinite _ => true
  | .finite q => q ≠ 0

def Double.isBelow (limit : Int) : Double → Bool
  | .nan => false
  | .infinite negative => negative
  | .finite q => q < limit

/-- What is thrown: a `TokenVerificationError`, an error of the HTTP library, or any other. -/
inductive Fault where
  | verification (message : String) (reason : TokenReason)
  | badRequest (message : String)
  | typeError
  | syntaxError
  | error (message : String)

def Fault.isClientError : Fault → Bool
  | .verification _ _ => true
  | .badRequest _ => true
  | _ => false

/-- Reading ends with a value or with an error that is the client's. -/
def EndsWell {α : Type} (r : Except Fault α) : Prop :=
  Ends (fun fault => fault.isClientError = true) (fun _ => True) r

def invalid {α : Type} (message : String) : Except Fault α := .error (.verification message .invalid)

/-- The built-in functions of the runtime and of its buffers. -/
structure Platform where
  hmac : Text → Text → Text
  /-- How the number literals of JSON are printed again. -/
  reading : NumberReading
  /-- `Number(text)`. -/
  numberOf : Text → Double
  /-- `Buffer.from(value, 'utf8')` on a value or nothing, none where it throws. -/
  bufferFrom : Option Json.Value → Option (List UInt8)

def toStringKey : Text := "toString".toList

mutual

/-- The text of a value in a list, none where it throws: an object whose own `toString` is no
function has no text. -/
def valueText : Json.Value → Option Text
  | .null => some []
  | .bool b => some (if b then "true".toList else "false".toList)
  | .num n => some n.text
  | .str s => some s
  | .arr items => itemsText items
  | .obj fields => if toStringKey ∈ fields.map Prod.fst then none else some "[object Object]".toList

def itemsText : List Json.Value → Option Text
  | [] => some []
  | item :: items =>
    match valueText item, itemsText items with
    | some text, some rest => some (if items = [] then text else text ++ ',' :: rest)
    | _, _ => none

end

/-! ## Envelopes -/

section Verification

variable (p : Platform)

/-- Whether a value counts as true. -/
def isTruthy : Json.Value → Bool
  | .null => false
  | .bool b => b
  | .num n => (p.numberOf n.text).isTruthy
  | .str s => s ≠ []
  | _ => true

/-- `value < limit`. -/
def isBelow (limit : Int) : Json.Value → Except Fault Bool
  | .null => .ok (0 < limit)
  | .bool b => .ok ((if b then 1 else 0) < limit)
  | .num n => .ok ((p.numberOf n.text).isBelow limit)
  | .str s => .ok ((p.numberOf s).isBelow limit)
  | value =>
    match valueText value with
    | some text => .ok ((p.numberOf text).isBelow limit)
    | none => .error .typeError

/-- `envelope.exp && envelope.exp < Date.now()`. -/
def isExpired (envelope : TokenEnvelope) (now : Int) : Except Fault Bool :=
  match envelope.get "exp" with
  | none => .ok false
  | some exp => if isTruthy p exp then isBelow p now exp else .ok false

/-- Whatever goes wrong in reading the JSON is caught. -/
def decodeEnvelope (token : Text) : Except Fault TokenEnvelope :=
  if ':' ∉ token then invalid "Token is missing version prefix."
  else if token.takeWhile (· ≠ ':') ≠ tokenVersion then invalid "Unsupported token version."
  else
    let decodedBuffer := Base64.decode ((token.dropWhile (· ≠ ':')).drop 1)
    if decodedBuffer.length > maxTokenEnvelopeBytes then
      invalid "Token payload exceeds maximum size."
    else match Json.parse (Utf8.decode decodedBuffer) with
      | some (.obj envelope) =>
        if TokenEnvelope.text envelope "v" = some tokenVersion ∧
            (TokenEnvelope.text envelope "type").isSome then .ok envelope
        else invalid "Failed to decode token payload."
      | _ => invalid "Failed to decode token payload."

/-- The rest of `verifyToken`, on an envelope of the right type. -/
def verifyEnvelope (secret : Text) (now : Int) (envelope : TokenEnvelope) :
    Except Fault (Option Json.Value) := do
  if ← isExpired p envelope now then .error (.verification "Token has expired." .expired)
  else match p.bufferFrom (envelope.get "sig") with
    | none => .error .typeError
    | some sig =>
      if sig ≠ utf8Bytes (computeSignatureOf p.reading p.hmac envelope secret) then
        invalid "Token signature mismatch."
      else .ok (envelope.get "data")

def verifyToken (secret token type : Text) (now : Int) : Except Fault (Option Json.Value) :=
  if secret = [] then invalid "Missing token secret."
  else do
    let envelope ← decodeEnvelope token
    if envelope.text "type" ≠ some type then invalid "Token type mismatch."
    else verifyEnvelope p secret now envelope

/-! ## Skip tokens -/

def skipTokenType : Text := "skip".toList

def verifySkipToken (secret token expectedDescriptor expectedContext : Text) (now : Int) :
    Except Fault (List Json.Value) := do
  match ← verifyToken p secret token skipTokenType now with
  | some (.obj data) =>
    if TokenEnvelope.text data "descriptor" ≠ some expectedDescriptor ∨
        TokenEnvelope.text data "context" ≠ some expectedContext then
      invalid "Skip token descriptor mismatch."
    else match TokenEnvelope.get data "values" with
      | some (.arr values) => .ok values
      | _ => invalid "Skip token payload is invalid."
  | _ => invalid "Skip token descriptor mismatch."

/-- Only a `TokenVerificationError` is turned into an error of the client. -/
def decodeSkipTokenValues (secret context : Text) (descriptors : List OrderDescriptor)
    (now : Int) (token : Text) : Except Fault (List Json.Value) :=
  match verifySkipToken p secret token (buildSkipTokenDescriptorKey descriptors) context now with
  | .error (.verification _ _) => .error (.badRequest "Invalid $skiptoken value.")
  | .error fault => .error fault
  | .ok values =>
    if values.length ≠ descriptors.length then .error (.badRequest "Invalid $skiptoken value.")
    else .ok (values.map fun value => match value with
      | .null => .str []
      | value => value)

end Verification

/-! ## Stored values

Whether decoding the members of a delta token throws. -/

/-- `Number(content)`. -/
def checkNumber (content : Json.Value) : Except Fault Unit :=
  match valueText content with
  | some _ => .ok ()
  | none => .error .typeError

/-- `decodeStoredValue` of an object with these members. -/
def decodeMembers (members : TokenEnvelope) : Except Fault Unit :=
  if members.text "kind" = some "number".toList then
    match members.get "value" with
    | some content => checkNumber content
    | none => .ok ()
  else .ok ()

def decodeStoredValue : Json.Value → Except Fault Unit
  | .obj members => decodeMembers members
  | _ => .ok ()

/-- The entries of a text are texts. -/
def decodeKeyValuesObject : Option Json.Value → Except Fault Unit
  | some (.obj fields) => (lastFields fields).forM fun field => decodeStoredValue field.2
  | some (.arr items) => items.forM decodeStoredValue
  | _ => .ok ()

def decodeKeyValuesArray : Option Json.Value → Except Fault Unit
  | some (.arr items) => items.forM fun entry => match entry with
      | .str _ => .ok ()
      | entry => decodeKeyValuesObject (some entry)
  | _ => .ok ()

mutual

def decodeStructuredValue : Json.Value → Except Fault Unit
  | .arr items => decodeStructuredItems items
  | .obj fields =>
    if (TokenEnvelope.text fields "kind").isSome then decodeMembers fields
    else decodeStructuredFields fields
  | _ => .ok ()

def decodeStructuredItems : List Json.Value → Except Fault Unit
  | [] => .ok ()
  | item :: items => do
    decodeStructuredValue item
    decodeStructuredItems items

/-- The last value of a repeated field counts. -/
def decodeStructuredFields : List (Text × Json.Value) → Except Fault Unit
  | [] => .ok ()
  | (name, value) :: fields => do
    if name ∉ fields.map Prod.fst then
      decodeStructuredValue value
    decodeStructuredFields fields

end

/-- What is assigned to `__proto__` becomes the prototype, whose members are seen in the object. -/
def prototypeMembers (fields : TokenEnvelope) : TokenEnvelope :=
  match fields.get "__proto__" with
  | some (.obj members) => members
  | _ => []

/-- `decodeStructuredValue` of what `cloneRecord` makes. -/
def decodeClone (fields : TokenEnvelope) : Except Fault Unit :=
  let members : TokenEnvelope := prototypeMembers fields ++ assignedFields fields
  if (members.text "kind").isSome then decodeMembers members
  else decodeStructuredFields (assignedFields fields)

def normalizeBucketState : Json.Value → Except Fault Unit
  | .obj fields =>
    match objectField fields "key", objectField fields "data" with
    | some key, some data => do
      decodeClone key
      decodeClone data
    | some key, none => decodeClone key
    | none, _ => decodeClone fields
  | _ => .ok ()

def normalizeBucketStates : Option Json.Value → Except Fault Unit
  | some (.arr items) => items.forM normalizeBucketState
  | _ => .ok ()

/-- The members that a payload is read from; only an object has any. -/
def payloadMembers : Json.Value → TokenEnvelope
  | .obj members => members
  | _ => []

def decodePayload (members : TokenEnvelope) : Except Fault Unit := do
  decodeKeyValuesObject (members.get "keyValues")
  decodeKeyValuesArray (members.get "pageKeys")
  normalizeBucketStates (members.get "buckets")

/-! ## Delta tokens -/

section Delta

variable (p : Platform)

def invalidPayload : Fault := .error "Invalid delta token payload."

def decodeLegacyPayload (raw : Text) : Except Fault Text :=
  let decodedBuffer := Base64.decode raw
  if decodedBuffer.length > maxTokenEnvelopeBytes then
    invalid "Token payload exceeds maximum size."
  else .ok (Utf8.decode decodedBuffer)

def decodeLegacyPair (pair : Text) : Except Fault Unit :=
  match pair.splitOn '=' with
  | [] => .ok ()
  | keyRaw :: rest =>
    if keyRaw = [] then .ok ()
    else match decodeURIComponent keyRaw, decodeURIComponent (rest.headD []) with
      | some (_ :: _), some _ => .ok ()
      | _, _ => .error invalidPayload

def decodeLegacyText (raw : Text) : Except Fault Unit :=
  let parts := raw.splitOn '|'
  if parts.getD 0 [] = [] ∨ parts.getD 1 [] = [] then .error invalidPayload
  else ((parts.getD 2 []).splitOn '&').forM decodeLegacyPair

def decodeLegacyToken (raw : Text) : Except Fault Unit := do
  decodeLegacyText (← decodeLegacyPayload raw)

def isTruthyMember (members : TokenEnvelope) (name : String) : Bool :=
  (members.get name).any (isTruthy p)

def decodeJsonText (raw : Text) : Except Fault Unit :=
  match Json.parse raw with
  | none => .error .syntaxError
  | some parsed =>
    if isTruthyMember p (payloadMembers parsed) "entitySet" ∧
        isTruthyMember p (payloadMembers parsed) "lastValue" then
      decodePayload (payloadMembers parsed)
    else .error invalidPayload

def decodeJsonToken (raw : Text) : Except Fault Unit := do
  decodeJsonText p (← decodeLegacyPayload raw)

def jsonPrefix : Text := "v2:".toList

def legacyPrefix : Text := "v1:".toList

/-- The payload of a token that was verified; the members of nothing cannot be read. -/
def decodeSignedPayload : Option Json.Value → Except Fault Unit
  | none => .error .typeError
  | some .null => .error .typeError
  | some payload => decodePayload (payloadMembers payload)

def decodeDeltaToken (secret : Text) (allowLegacyUnsigned : Bool) (now : Int) (token : Text) :
    Except Fault Unit :=
  if token = [] then invalid "Invalid delta token format."
  else if startsWith token jsonPrefix then
    if allowLegacyUnsigned then decodeJsonToken p (token.drop 3)
    else .error (.verification "Legacy delta tokens are not allowed." .legacyDenied)
  else if startsWith token legacyPrefix then
    if allowLegacyUnsigned then decodeLegacyToken (token.drop 3)
    else .error (.verification "Legacy delta tokens are not allowed." .legacyDenied)
  else do
    decodeSignedPayload (← verifyToken p secret token deltaTokenType now)

end Delta

/-! ## What is handed to `Number`

A stored number is read by its text. -/

def membersNumbers (members : TokenEnvelope) : List Json.Value :=
  if members.text "kind" = some "number".toList then (members.get "value").toList else []

def storedNumbers : Json.Value → List Json.Value
  | .obj members => membersNumbers members
  | _ => []

def keyNumbers : Option Json.Value → List Json.Value
  | some (.obj fields) => (lastFields fields).flatMap fun field => storedNumbers field.2
  | some (.arr items) => items.flatMap storedNumbers
  | _ => []

def pageNumbers : Option Json.Value → List Json.Value
  | some (.arr items) => items.flatMap fun entry => keyNumbers (some entry)
  | _ => []

mutual

def structuredNumbers : Json.Value → List Json.Value
  | .arr items => itemsNumbers items
  | .obj fields =>
    if (TokenEnvelope.text fields "kind").isSome then membersNumbers fields
    else fieldsNumbers fields
  | _ => []

def itemsNumbers : List Json.Value → List Json.Value
  | [] => []
  | item :: items => structuredNumbers item ++ itemsNumbers items

def fieldsNumbers : List (Text × Json.Value) → List Json.Value
  | [] => []
  | (name, value) :: fields =>
    (if name ∉ fields.map Prod.fst then structuredNumbers value else []) ++ fieldsNumbers fields

end

def cloneNumbers (fields : TokenEnvelope) : List Json.Value :=
  let members : TokenEnvelope := prototypeMembers fields ++ assignedFields fields
  if (members.text "kind").isSome then membersNumbers members
  else fieldsNumbers (assignedFields fields)

def bucketNumbers : Json.Value → List Json.Value
  | .obj fields =>
    match objectField fields "key" with
    | some key => cloneNumbers key ++ ((objectField fields "data").map cloneNumbers).getD []
    | none => cloneNumbers fields
  | _ => []

def bucketsNumbers : Option Json.Value → List Json.Value
  | some (.arr items) => items.flatMap bucketNumbers
  | _ => []

/-- All of them in a payload. -/
def payloadNumbers (members : TokenEnvelope) : List Json.Value :=
  keyNumbers (members.get "keyValues") ++ pageNumbers (members.get "pageKeys") ++
    bucketsNumbers (members.get "buckets")

/-- All the values can be read as numbers. -/
def AllTexts (values : List Json.Value) : Prop := ∀ value ∈ values, (valueText value).isSome

instance (values : List Json.Value) : Decidable (AllTexts values) :=
  inferInstanceAs (Decidable (∀ value ∈ values, _))

def checkAll (values : List Json.Value) : Except Fault Unit :=
  if AllTexts values then .ok () else .error .typeError

theorem checkAll_append (values values' : List Json.Value) :
    checkAll (values ++ values') = checkAll values >>= fun _ => checkAll values' := by
  have happend : AllTexts (values ++ values') ↔ AllTexts values ∧ AllTexts values' :=
    List.forall_mem_append
  rw [checkAll, checkAll]
  by_cases h : AllTexts values
  · rw [if_pos h]
    exact if_congr (happend.trans (and_iff_right h)) rfl rfl
  · rw [if_neg h, if_neg fun hall => h (happend.mp hall).1]
    rfl

theorem forM_checkAll {α : Type} {f : α → Except Fault Unit} {numbers : α → List Json.Value}
    {items : List α} (h : ∀ item ∈ items, f item = checkAll (numbers item)) :
    items.forM f = checkAll (items.flatMap numbers) := by
  induction items with
  | nil => rfl
  | cons item items ih =>
    have ih := ih fun item' hmem => h item' (List.mem_cons_of_mem _ hmem)
    rw [List.flatMap_cons, checkAll_append, ← h item List.mem_cons_self, ← ih]
    rfl

theorem checkAll_single (value : Json.Value) : checkAll [value] = checkNumber value := by
  have hsingle : AllTexts [value] ↔ (valueText value).isSome = true := List.forall_mem_singleton
  rw [checkAll, checkNumber]
  cases htext : valueText value with
  | none => exact if_neg fun h => by simpa [htext] using hsingle.mp h
  | some text => exact if_pos (hsingle.mpr (by rw [htext]; rfl))

theorem decodeMembers_eq (members : TokenEnvelope) :
    decodeMembers members = checkAll (membersNumbers members) := by
  rw [decodeMembers, membersNumbers]
  split
  · cases members.get "value" with
    | none => rfl
    | some content => exact (checkAll_single content).symm
  · rfl

theorem decodeStoredValue_eq (value : Json.Value) :
    decodeStoredValue value = checkAll (storedNumbers value) := by
  cases value with
  | obj members => exact decodeMembers_eq members
  | _ => rfl

theorem decodeKeyValuesObject_eq (raw : Option Json.Value) :
    decodeKeyValuesObject raw = checkAll (keyNumbers raw) := by
  match raw with
  | none => rfl
  | some (.obj fields) => exact forM_checkAll fun field _ => decodeStoredValue_eq field.2
  | some (.arr items) => exact forM_checkAll fun item _ => decodeStoredValue_eq item
  | some .null => rfl
  | some (.bool _) => rfl
  | some (.num _) => rfl
  | some (.str _) => rfl

theorem decodeKeyValuesArray_eq (raw : Option Json.Value) :
    decodeKeyValuesArray raw = checkAll (pageNumbers raw) := by
  match raw with
  | none => rfl
  | some (.arr items) =>
    refine forM_checkAll fun entry _ => ?_
    cases entry with
    | str s => rfl
    | _ => exact decodeKeyValuesObject_eq _
  | some (.obj _) => rfl
  | some .null => rfl
  | some (.bool _) => rfl
  | some (.num _) => rfl
  | some (.str _) => rfl

mutual

theorem decodeStructuredValue_eq (value : Json.Value) :
    decodeStructuredValue value = checkAll (structuredNumbers value) := by
  match value with
  | .arr items => exact decodeStructuredItems_eq items
  | .obj fields =>
    rw [decodeStructuredValue, structuredNumbers]
    split
    · exact decodeMembers_eq fields
    · exact decodeStructuredFields_eq fields
  | .null => rfl
  | .bool _ => rfl
  | .num _ => rfl
  | .str _ => rfl

theorem decodeStructuredItems_eq (items : List Json.Value) :
    decodeStructuredItems items = checkAll (itemsNumbers items) := by
  match items with
  | [] => rfl
  | item :: items =>
    rw [decodeStructuredItems, itemsNumbers, checkAll_append, decodeStructuredValue_eq item,
      decodeStructuredItems_eq items]

theorem decodeStructuredFields_eq (fields : List (Text × Json.Value)) :
    decodeStructuredFields fields = checkAll (fieldsNumbers fields) := by
  match fields with
  | [] => rfl
  | (name, value) :: fields =>
    rw [decodeStructuredFields, fieldsNumbers, checkAll_append]
    split
    · rw [decodeStructuredValue_eq value, decodeStructuredFields_eq fields]
    · exact decodeStructuredFields_eq fields

end

theorem decodeClone_eq (fields : TokenEnvelope) :
    decodeClone fields = checkAll (cloneNumbers fields) := by
  unfold decodeClone cloneNumbers
  dsimp only
  split
  · exact decodeMembers_eq _
  · exact decodeStructuredFields_eq _

theorem normalizeBucketState_eq (entry : Json.Value) :
    normalizeBucketState entry = checkAll (bucketNumbers entry) := by
  match entry with
  | .obj fields =>
    rw [normalizeBucketState, bucketNumbers]
    cases objectField fields "key" with
    | none => exact decodeClone_eq fields
    | some key =>
      cases objectField fields "data" with
      | none => simpa using decodeClone_eq key
      | some data =>
        dsimp only
        rw [checkAll_append, decodeClone_eq key, decodeClone_eq data]
        rfl
  | .null => rfl
  | .bool _ => rfl
  | .num _ => rfl
  | .str _ => rfl
  | .arr _ => rfl

theorem normalizeBucketStates_eq (raw : Option Json.Value) :
    normalizeBucketStates raw = checkAll (bucketsNumbers raw) := by
  match raw with
  | none => rfl
  | some (.arr items) => exact forM_checkAll fun item _ => normalizeBucketState_eq item
  | some (.obj _) => rfl
  | some .null => rfl
  | some (.bool _) => rfl
  | some (.num _) => rfl
  | some (.str _) => rfl

theorem decodePayload_eq (members : TokenEnvelope) :
    decodePayload members = checkAll (payloadNumbers members) := by
  rw [decodePayload, payloadNumbers, checkAll_append, checkAll_append,
    decodeKeyValuesObject_eq, decodeKeyValuesArray_eq, normalizeBucketStates_eq]
  cases checkAll (keyNumbers (TokenEnvelope.get members "keyValues")) <;> rfl

theorem endsWell_checkAll {values : List Json.Value} :
    EndsWell (checkAll values) ↔ AllTexts values := by
  rw [checkAll]
  split
  · next h => exact iff_of_true trivial h
  · next h => exact iff_of_false (fun hend => Bool.false_ne_true hend) h

theorem endsWell_decodePayload {members : TokenEnvelope} :
    EndsWell (decodePayload members) ↔ AllTexts (payloadNumbers members) := by
  rw [decodePayload_eq, endsWell_checkAll]

/-! ## Envelopes of any shape -/

/-- The text is a token of this type with this envelope. -/
def IsEnvelopeOf (token type : Text) (envelope : TokenEnvelope) : Prop :=
  ∃ payload, token = tokenVersion ++ ':' :: payload ∧
    (Base64.decode payload).length ≤ maxTokenEnvelopeBytes ∧
    Json.parse (Utf8.decode (Base64.decode payload)) = some (.obj envelope) ∧
    envelope.text "v" = some tokenVersion ∧ envelope.text "type" = some type

theorem endsWell_bind {α β : Type} {r : Except Fault α} {f : α → Except Fault β} :
    EndsWell (r >>= f) ↔ EndsWell r ∧ ∀ a, r = .ok a → EndsWell (f a) := by
  cases r with
  | ok a =>
    constructor
    · intro h
      refine ⟨trivial, fun a' ha => ?_⟩
      cases ha
      exact h
    · exact fun h => h.2 a rfl
  | error fault =>
    constructor
    · exact fun h => ⟨h, fun a ha => nomatch ha⟩
    · exact fun h => h.1

theorem endsWell_invalid {α : Type} (message : String) :
    EndsWell (invalid message : Except Fault α) := rfl

/-- A text with a separator is what stands before the first one, and what stands after it. -/
theorem eq_split_of_mem {separator : Char} {text : Text} (h : separator ∈ text) :
    text = text.takeWhile (· ≠ separator) ++
      separator :: (text.dropWhile (· ≠ separator)).drop 1 := by
  induction text with
  | nil => exact absurd h List.not_mem_nil
  | cons c text ih =>
    by_cases hc : c = separator
    · subst hc
      simp
    · have hmem : separator ∈ text := (List.mem_cons.mp h).resolve_left fun heq => hc heq.symm
      rw [List.takeWhile_cons_of_pos (by simpa using hc),
        List.dropWhile_cons_of_pos (by simpa using hc), List.cons_append, ← ih hmem]

theorem endsWell_ok {α : Type} (a : α) : EndsWell (.ok a) := trivial

theorem decodeEnvelope_eq_ok {token : Text} {envelope : TokenEnvelope} :
    decodeEnvelope token = .ok envelope ↔ ∃ type, IsEnvelopeOf token type envelope := by
  constructor
  · intro h
    unfold decodeEnvelope at h
    dsimp only at h
    split at h
    · cases h
    · next hcolon =>
      split at h
      · cases h
      · next hversion =>
        split at h
        · cases h
        · next hsize =>
          split at h
          · next fields hparse =>
            split at h
            · next hmembers =>
              cases h
              obtain ⟨type, htype⟩ := Option.isSome_iff_exists.mp hmembers.2
              refine ⟨type, _, ?_, not_lt.mp hsize, hparse, hmembers.1, htype⟩
              rw [← not_not.mp hversion]
              exact eq_split_of_mem (not_not.mp hcolon)
            · cases h
          · cases h
  · rintro ⟨type, payload, rfl, hsize, hparse, hversion, htype⟩
    have htake : (tokenVersion ++ ':' :: payload).takeWhile (· ≠ ':') = tokenVersion := rfl
    have hdrop : (tokenVersion ++ ':' :: payload).dropWhile (· ≠ ':') = ':' :: payload := rfl
    have hcolon : ':' ∈ tokenVersion ++ ':' :: payload := by simp
    unfold decodeEnvelope
    rw [if_neg (not_not.mpr hcolon), if_neg (not_not.mpr htake), hdrop]
    dsimp only [List.drop_one, List.tail_cons]
    rw [List.drop_one, List.tail_cons, if_neg (not_lt.mpr hsize), hparse]
    exact if_pos ⟨hversion, by rw [htype]; rfl⟩

theorem endsWell_decodeEnvelope (token : Text) : EndsWell (decodeEnvelope token) := by
  unfold decodeEnvelope
  dsimp only
  split
  · exact endsWell_invalid _
  · split
    · exact endsWell_invalid _
    · split
      · exact endsWell_invalid _
      · split
        · split
          · trivial
          · exact endsWell_invalid _
        · exact endsWell_invalid _

section Verified

variable (p : Platform)

/-- The time when the envelope expires can be read as a number. -/
def HasReadableExpiry (envelope : TokenEnvelope) : Prop :=
  ∀ exp, envelope.get "exp" = some exp → (valueText exp).isSome

/-- Neither the expiry nor the signature of the envelope is of a type that the built-in functions
throw on. -/
def IsTraceable (now : Int) (envelope : TokenEnvelope) : Prop :=
  HasReadableExpiry envelope ∧
    (isExpired p envelope now = .ok true ∨ (p.bufferFrom (envelope.get "sig")).isSome)

variable {p} {now : Int} {envelope : TokenEnvelope} {secret token type : Text}

theorem isBelow_cases (limit : Int) (value : Json.Value) :
    (∃ below, isBelow p limit value = .ok below) ∧ (valueText value).isSome ∨
      isBelow p limit value = .error .typeError ∧ valueText value = none := by
  cases value with
  | null => exact .inl ⟨⟨_, rfl⟩, rfl⟩
  | bool b => exact .inl ⟨⟨_, rfl⟩, rfl⟩
  | num n => exact .inl ⟨⟨_, rfl⟩, rfl⟩
  | str s => exact .inl ⟨⟨_, rfl⟩, rfl⟩
  | arr items =>
    cases htext : valueText (.arr items) with
    | none => exact .inr ⟨by simp only [isBelow, htext], rfl⟩
    | some text => exact .inl ⟨⟨_, by simp only [isBelow, htext]; rfl⟩, rfl⟩
  | obj fields =>
    cases htext : valueText (.obj fields) with
    | none => exact .inr ⟨by simp only [isBelow, htext], rfl⟩
    | some text => exact .inl ⟨⟨_, by simp only [isBelow, htext]; rfl⟩, rfl⟩

theorem isTruthy_of_valueText_none {value : Json.Value} (h : valueText value = none) :
    isTruthy p value = true := by
  cases value with
  | arr items => rfl
  | obj fields => rfl
  | null => cases h
  | bool b => cases h
  | num n => cases h
  | str s => cases h

theorem isExpired_cases (p : Platform) (envelope : TokenEnvelope) (now : Int) :
    (∃ expired, isExpired p envelope now = .ok expired) ∧ HasReadableExpiry envelope ∨
      isExpired p envelope now = .error .typeError ∧ ¬ HasReadableExpiry envelope := by
  rw [isExpired, HasReadableExpiry]
  cases envelope.get "exp" with
  | none => exact .inl ⟨⟨_, rfl⟩, fun exp h => nomatch h⟩
  | some exp =>
    have hread : (∀ exp', some exp = some exp' → (valueText exp').isSome = true) ↔
        (valueText exp).isSome = true := by simp
    dsimp only
    rw [hread]
    obtain ⟨⟨below, hbelow⟩, htext⟩ | ⟨herror, htext⟩ := isBelow_cases (p := p) now exp
    · refine .inl ⟨?_, htext⟩
      split
      · exact ⟨below, hbelow⟩
      · exact ⟨false, rfl⟩
    · refine .inr ⟨?_, by rw [htext]; exact Bool.false_ne_true⟩
      rw [isTruthy_of_valueText_none htext, if_pos rfl, herror]

/-- The envelope has not expired, and it is signed with the secret. -/
def IsSigned (p : Platform) (secret : Text) (now : Int) (envelope : TokenEnvelope) : Prop :=
  isExpired p envelope now = .ok false ∧
    p.bufferFrom (envelope.get "sig") =
      some (utf8Bytes (computeSignatureOf p.reading p.hmac envelope secret))

theorem endsWell_verifyEnvelope :
    EndsWell (verifyEnvelope p secret now envelope) ↔ IsTraceable p now envelope := by
  rw [verifyEnvelope, IsTraceable]
  obtain ⟨⟨expired, hexpired⟩, hread⟩ | ⟨herror, hread⟩ := isExpired_cases p envelope now
  · rw [hexpired, and_iff_right hread, endsWell_bind, and_iff_right (endsWell_ok expired)]
    constructor
    · intro h
      have h := h expired rfl
      cases expired with
      | true => exact .inl rfl
      | false =>
        cases hsig : p.bufferFrom (envelope.get "sig") with
        | none =>
          rw [hsig] at h
          exact absurd h Bool.false_ne_true
        | some sig => exact .inr rfl
    · rintro h _ ⟨⟩
      cases expired with
      | true => rfl
      | false =>
        obtain ⟨sig, hsig⟩ := Option.isSome_iff_exists.mp (h.resolve_left (by simp))
        rw [hsig, if_neg Bool.false_ne_true]
        dsimp only
        split
        · exact endsWell_invalid _
        · trivial
  · rw [herror]
    exact iff_of_false (fun h => Bool.false_ne_true h) fun h => hread h.1

theorem verifyEnvelope_eq_ok {data : Option Json.Value} :
    verifyEnvelope p secret now envelope = .ok data ↔
      IsSigned p secret now envelope ∧ envelope.get "data" = data := by
  rw [verifyEnvelope, bind_eq_ok, IsSigned]
  constructor
  · rintro ⟨expired, hexpired, h⟩
    split at h
    · cases h
    · next hnot =>
      rw [hexpired, Bool.eq_false_iff.mpr hnot]
      cases hsig : p.bufferFrom (envelope.get "sig") with
      | none =>
        rw [hsig] at h
        cases h
      | some sig =>
        rw [hsig] at h
        dsimp only at h
        split at h
        · cases h
        · next heq =>
          cases h
          exact ⟨⟨rfl, congrArg some (not_not.mp heq)⟩, rfl⟩
  · rintro ⟨⟨hexpired, hsig⟩, hdata⟩
    refine ⟨false, hexpired, ?_⟩
    rw [if_neg Bool.false_ne_true, hsig, ← hdata]
    exact if_neg (not_not.mpr rfl)

/-- Of a token that is verified without an error of the runtime the expiry and the signature can be
looked at. -/
theorem endsWell_verifyToken :
    EndsWell (verifyToken p secret token type now) ↔
      (secret ≠ [] → ∀ envelope, IsEnvelopeOf token type envelope →
        IsTraceable p now envelope) := by
  rw [verifyToken]
  by_cases hsecret : secret = []
  · rw [if_pos hsecret]
    exact iff_of_true (endsWell_invalid _) fun h => absurd hsecret h
  · rw [if_neg hsecret, endsWell_bind, and_iff_right (endsWell_decodeEnvelope token),
      forall_prop_of_true hsecret]
    constructor
    · intro hend envelope hof
      have hend := hend envelope (decodeEnvelope_eq_ok.mpr ⟨type, hof⟩)
      obtain ⟨_, _, _, _, _, htype⟩ := hof
      rw [if_neg (not_not.mpr htype)] at hend
      exact endsWell_verifyEnvelope.mp hend
    · intro htrace envelope hdecode
      obtain ⟨type', hof⟩ := decodeEnvelope_eq_ok.mp hdecode
      split
      · exact endsWell_invalid _
      · next htype =>
        obtain ⟨payload, htoken, hsize, hparse, hversion, _⟩ := hof
        exact endsWell_verifyEnvelope.mpr
          (htrace envelope ⟨payload, htoken, hsize, hparse, hversion, not_not.mp htype⟩)

theorem verifyToken_eq_ok {data : Option Json.Value} :
    verifyToken p secret token type now = .ok data ↔
      secret ≠ [] ∧ ∃ envelope, IsEnvelopeOf token type envelope ∧
        IsSigned p secret now envelope ∧ envelope.get "data" = data := by
  rw [verifyToken]
  by_cases hsecret : secret = []
  · rw [if_pos hsecret]
    exact iff_of_false (fun h => nomatch h) fun h => h.1 hsecret
  · rw [if_neg hsecret, bind_eq_ok, and_iff_right hsecret]
    refine exists_congr fun envelope => ?_
    constructor
    · rintro ⟨hdecode, h⟩
      obtain ⟨type', payload, htoken, hsize, hparse, hversion, _⟩ :=
        decodeEnvelope_eq_ok.mp hdecode
      split at h
      · cases h
      · next htype =>
        exact ⟨⟨payload, htoken, hsize, hparse, hversion, not_not.mp htype⟩,
          verifyEnvelope_eq_ok.mp h⟩
    · rintro ⟨hof, h⟩
      refine ⟨decodeEnvelope_eq_ok.mpr ⟨type, hof⟩, ?_⟩
      obtain ⟨_, _, _, _, _, htype⟩ := hof
      rw [if_neg (not_not.mpr htype)]
      exact verifyEnvelope_eq_ok.mpr h

/-! ## Skip tokens that end well -/

/-- What the values of a skip token are checked for is checked by its own code. -/
theorem endsWell_verifySkipToken {descriptor context : Text} :
    EndsWell (verifySkipToken p secret token descriptor context now) ↔
      EndsWell (verifyToken p secret token skipTokenType now) := by
  rw [verifySkipToken, endsWell_bind]
  refine and_iff_left_of_imp fun _ data _ => ?_
  split
  · split
    · exact endsWell_invalid _
    · split
      · exact endsWell_ok _
      · exact endsWell_invalid _
  · exact endsWell_invalid _

theorem endsWell_decodeSkipTokenValues {context : Text} {descriptors : List OrderDescriptor} :
    EndsWell (decodeSkipTokenValues p secret context descriptors now token) ↔
      (secret ≠ [] → ∀ envelope, IsEnvelopeOf token skipTokenType envelope →
        IsTraceable p now envelope) := by
  have hverify : EndsWell (verifySkipToken p secret token (buildSkipTokenDescriptorKey descriptors)
      context now) ↔ EndsWell (verifyToken p secret token skipTokenType now) :=
    endsWell_verifySkipToken
  rw [← endsWell_verifyToken, ← hverify, decodeSkipTokenValues]
  cases verifySkipToken p secret token (buildSkipTokenDescriptorKey descriptors) context now with
  | ok values =>
    dsimp only
    split
    · exact iff_of_true rfl trivial
    · exact iff_of_true trivial trivial
  | error fault =>
    cases fault with
    | verification message reason => exact iff_of_true rfl rfl
    | badRequest message => exact iff_of_true rfl rfl
    | typeError => exact Iff.rfl
    | syntaxError => exact Iff.rfl
    | error message => exact Iff.rfl

/-! ## Delta tokens that end well -/

/-- The payload has members, and the numbers that are stored in it can be read by their texts. -/
def IsReadable (data : Option Json.Value) : Prop :=
  ∃ payload, data = some payload ∧ payload ≠ .null ∧
    AllTexts (payloadNumbers (payloadMembers payload))

theorem endsWell_decodeSignedPayload {data : Option Json.Value} :
    EndsWell (decodeSignedPayload data) ↔ IsReadable data := by
  have hfault : ¬ EndsWell (.error .typeError : Except Fault Unit) := fun h =>
    Bool.false_ne_true h
  cases data with
  | none => exact iff_of_false hfault fun ⟨_, h, _⟩ => nomatch h
  | some payload =>
    by_cases hnull : payload = .null
    · subst hnull
      refine iff_of_false hfault ?_
      rintro ⟨_, ⟨⟩, hne, _⟩
      exact hne rfl
    · have hdecode : decodeSignedPayload (some payload) =
          decodePayload (payloadMembers payload) := by
        cases payload with
        | null => exact absurd rfl hnull
        | _ => rfl
      rw [hdecode, endsWell_decodePayload, IsReadable]
      constructor
      · exact fun h => ⟨payload, rfl, hnull, h⟩
      · rintro ⟨_, ⟨⟩, _, h⟩
        exact h

variable (p) in
/-- The JSON text of an unsigned token of the second format names an entity set and a last value. -/
def IsReadableJson (raw : Text) : Prop :=
  ∃ parsed, Json.parse raw = some parsed ∧
    isTruthyMember p (payloadMembers parsed) "entitySet" ∧
    isTruthyMember p (payloadMembers parsed) "lastValue" ∧
    AllTexts (payloadNumbers (payloadMembers parsed))

def IsReadablePair (pair : Text) : Prop :=
  ∀ keyRaw rest, pair.splitOn '=' = keyRaw :: rest → keyRaw ≠ [] →
    (∃ c key, decodeURIComponent keyRaw = some (c :: key)) ∧
      (decodeURIComponent (rest.headD [])).isSome

/-- The text of an unsigned token of the first format names an entity set and a last value, and its
key values are encoded as in a URL. -/
def IsReadableLegacy (raw : Text) : Prop :=
  (raw.splitOn '|').getD 0 [] ≠ [] ∧ (raw.splitOn '|').getD 1 [] ≠ [] ∧
    ∀ pair ∈ ((raw.splitOn '|').getD 2 []).splitOn '&', IsReadablePair pair

/-- What the text of an unsigned token has, if it is not too large. -/
def IsReadablePayload (readable : Text → Prop) (raw : Text) : Prop :=
  (Base64.decode raw).length ≤ maxTokenEnvelopeBytes → readable (Utf8.decode (Base64.decode raw))

theorem endsWell_decodeJsonText {raw : Text} :
    EndsWell (decodeJsonText p raw) ↔ IsReadableJson p raw := by
  rw [decodeJsonText, IsReadableJson]
  cases Json.parse raw with
  | none => exact iff_of_false (fun h => Bool.false_ne_true h) fun ⟨_, h, _⟩ => nomatch h
  | some parsed =>
    dsimp only
    split
    · next htruthy =>
      rw [endsWell_decodePayload]
      constructor
      · exact fun h => ⟨parsed, rfl, htruthy.1, htruthy.2, h⟩
      · rintro ⟨_, ⟨⟩, _, _, h⟩
        exact h
    · next htruthy =>
      refine iff_of_false (fun h => Bool.false_ne_true h) ?_
      rintro ⟨_, ⟨⟩, hset, hvalue, _⟩
      exact htruthy ⟨hset, hvalue⟩

theorem endsWell_forM {α : Type} {f : α → Except Fault Unit} {items : List α}
    (h : ∀ item, EndsWell (f item) → f item = .ok ()) :
    EndsWell (items.forM f) ↔ ∀ item ∈ items, EndsWell (f item) := by
  induction items with
  | nil => exact iff_of_true trivial fun item hmem => absurd hmem List.not_mem_nil
  | cons item items ih =>
    change EndsWell (f item >>= fun _ => items.forM f) ↔ _
    rw [endsWell_bind, ih, List.forall_mem_cons]
    refine and_congr_right fun hitem => ?_
    constructor
    · exact fun hrest => hrest () (h item hitem)
    · exact fun hrest _ _ => hrest

theorem endsWell_decodeLegacyPair {pair : Text} :
    EndsWell (decodeLegacyPair pair) ↔ IsReadablePair pair := by
  rw [decodeLegacyPair, IsReadablePair]
  cases pair.splitOn '=' with
  | nil => exact iff_of_true trivial fun _ _ h => nomatch h
  | cons keyRaw rest =>
    dsimp only
    by_cases hkey : keyRaw = []
    · rw [if_pos hkey]
      refine iff_of_true trivial ?_
      rintro _ _ ⟨⟩ hne
      exact absurd hkey hne
    · rw [if_neg hkey]
      have hall : (∀ keyRaw' rest', keyRaw :: rest = keyRaw' :: rest' → keyRaw' ≠ [] →
          (∃ c key, decodeURIComponent keyRaw' = some (c :: key)) ∧
            (decodeURIComponent (rest'.headD [])).isSome = true) ↔
          (∃ c key, decodeURIComponent keyRaw = some (c :: key)) ∧
            (decodeURIComponent (rest.headD [])).isSome = true := by
        constructor
        · exact fun h => h keyRaw rest rfl hkey
        · rintro h _ _ ⟨⟩ _
          exact h
      rw [hall]
      split
      · next hdecoded hvalue =>
        exact iff_of_true trivial ⟨⟨_, _, hdecoded⟩, by rw [hvalue]; rfl⟩
      · next hnot =>
        refine iff_of_false (fun h => Bool.false_ne_true h) ?_
        rintro ⟨⟨c, key, hdecoded⟩, hvalue⟩
        obtain ⟨value, hvalue⟩ := Option.isSome_iff_exists.mp hvalue
        exact hnot c key value hdecoded hvalue

theorem decodeLegacyPair_cases (pair : Text) :
    decodeLegacyPair pair = .ok () ∨ decodeLegacyPair pair = .error invalidPayload := by
  rw [decodeLegacyPair]
  split
  · exact .inl rfl
  · split
    · exact .inl rfl
    · split
      · exact .inl rfl
      · exact .inr rfl

theorem endsWell_decodeLegacyText {raw : Text} :
    EndsWell (decodeLegacyText raw) ↔ IsReadableLegacy raw := by
  rw [decodeLegacyText, IsReadableLegacy]
  split
  · next hempty =>
    exact iff_of_false (fun h => Bool.false_ne_true h) fun h =>
      hempty.elim h.1 h.2.1
  · next hempty =>
    rw [not_or] at hempty
    rw [and_iff_right hempty.1, and_iff_right hempty.2, endsWell_forM]
    · exact forall_congr' fun pair => forall_congr' fun _ => endsWell_decodeLegacyPair
    · intro pair hend
      obtain hok | herror := decodeLegacyPair_cases pair
      · exact hok
      · rw [herror] at hend
        exact absurd hend Bool.false_ne_true

/-- Texts that are too large are refused. -/
theorem endsWell_decodeLegacyPayload {raw : Text} {decodeText : Text → Except Fault Unit}
    {readable : Text → Prop} (h : ∀ text, EndsWell (decodeText text) ↔ readable text) :
    EndsWell (decodeLegacyPayload raw >>= decodeText) ↔ IsReadablePayload readable raw := by
  rw [decodeLegacyPayload, IsReadablePayload]
  split
  · next hlarge => exact iff_of_true rfl fun hsmall => absurd hlarge (not_lt.mpr hsmall)
  · next hsmall =>
    rw [← h, forall_prop_of_true (not_lt.mp hsmall)]
    rfl

variable (p) in
/-- Signed tokens can be traced, and what they are signed for can be read. -/
def IsReadableDelta (secret : Text) (allowLegacyUnsigned : Bool) (now : Int) (token : Text) :
    Prop :=
  (allowLegacyUnsigned = true → ∀ raw,
    (token = jsonPrefix ++ raw → IsReadablePayload (IsReadableJson p) raw) ∧
      (token = legacyPrefix ++ raw → IsReadablePayload IsReadableLegacy raw)) ∧
  (secret ≠ [] → ∀ envelope, IsEnvelopeOf token deltaTokenType envelope →
    IsTraceable p now envelope ∧
      (IsSigned p secret now envelope → IsReadable (envelope.get "data")))

theorem startsWith_iff {text start : Text} :
    startsWith text start = true ↔ ∃ rest, text = start ++ rest := by
  rw [startsWith, List.isPrefixOf_iff_prefix]
  exact exists_congr fun rest => eq_comm

theorem endsWell_allowed {allowed : Prop} [Decidable allowed] {r : Except Fault Unit} :
    EndsWell (if allowed then r
      else .error (.verification "Legacy delta tokens are not allowed." .legacyDenied)) ↔
      (allowed → EndsWell r) := by
  split
  · next h => exact ⟨fun hend _ => hend, fun hend => hend h⟩
  · next h => exact iff_of_true rfl fun hallowed => absurd hallowed h

theorem endsWell_decodeDeltaToken {allowLegacyUnsigned : Bool} :
    EndsWell (decodeDeltaToken p secret allowLegacyUnsigned now token) ↔
      IsReadableDelta p secret allowLegacyUnsigned now token := by
  rw [decodeDeltaToken, IsReadableDelta]
  by_cases hempty : token = []
  · subst hempty
    rw [if_pos rfl]
    refine iff_of_true (endsWell_invalid _) ⟨fun _ raw => ⟨fun h => ?_, fun h => ?_⟩, ?_⟩
    · exact absurd h (by simp [jsonPrefix])
    · exact absurd h (by simp [legacyPrefix])
    · rintro _ envelope ⟨payload, h, _⟩
      exact absurd h (by simp)
  rw [if_neg hempty]
  by_cases hjson : startsWith token jsonPrefix = true
  · obtain ⟨raw, rfl⟩ := startsWith_iff.mp hjson
    rw [if_pos hjson, endsWell_allowed, decodeJsonToken,
      endsWell_decodeLegacyPayload fun text => endsWell_decodeJsonText]
    constructor
    · intro h
      refine ⟨fun hallowed raw' => ⟨fun heq => ?_, fun heq => ?_⟩, ?_⟩
      · rw [← List.append_cancel_left heq]
        exact h hallowed
      · exact absurd heq (by simp [jsonPrefix, legacyPrefix])
      · rintro _ envelope ⟨payload, heq, _⟩
        exact absurd heq (by simp [jsonPrefix, tokenVersion])
    · exact fun h hallowed => (h.1 hallowed raw).1 rfl
  rw [if_neg hjson]
  by_cases hlegacy : startsWith token legacyPrefix = true
  · obtain ⟨raw, rfl⟩ := startsWith_iff.mp hlegacy
    rw [if_pos hlegacy, endsWell_allowed, decodeLegacyToken,
      endsWell_decodeLegacyPayload fun text => endsWell_decodeLegacyText]
    constructor
    · intro h
      refine ⟨fun hallowed raw' => ⟨fun heq => ?_, fun heq => ?_⟩, ?_⟩
      · exact absurd heq (by simp [jsonPrefix, legacyPrefix])
      · rw [← List.append_cancel_left heq]
        exact h hallowed
      · rintro _ envelope ⟨payload, heq, _⟩
        exact absurd heq (by simp [legacyPrefix, tokenVersion])
    · exact fun h hallowed => (h.1 hallowed raw).2 rfl
  rw [if_neg hlegacy, endsWell_bind, endsWell_verifyToken]
  constructor
  · rintro ⟨htrace, hread⟩
    refine ⟨fun _ raw => ⟨fun heq => ?_, fun heq => ?_⟩, fun hsecret envelope hof => ?_⟩
    · exact absurd (startsWith_iff.mpr ⟨raw, heq⟩) hjson
    · exact absurd (startsWith_iff.mpr ⟨raw, heq⟩) hlegacy
    · refine ⟨htrace hsecret envelope hof, fun hsigned => ?_⟩
      exact endsWell_decodeSignedPayload.mp
        (hread _ (verifyToken_eq_ok.mpr ⟨hsecret, envelope, hof, hsigned, rfl⟩))
  · rintro ⟨_, hall⟩
    refine ⟨fun hsecret envelope hof => (hall hsecret envelope hof).1, fun data hdata => ?_⟩
    obtain ⟨hsecret, envelope, hof, hsigned, rfl⟩ := verifyToken_eq_ok.mp hdata
    exact endsWell_decodeSignedPayload.mpr ((hall hsecret envelope hof).2 hsigned)

/-! ## Every text -/

/-- A platform whose buffers are made of texts only. -/
def textPlatform : Platform where
  hmac _ text := text
  reading := .finite
  numberOf _ := .nan
  bufferFrom
    | some (.str s) => some (utf8Bytes s)
    | _ => none

def unsignedSkipEnvelope : TokenEnvelope :=
  [("v".toList, .str tokenVersion), ("type".toList, .str skipTokenType)]

end Verified

end BadTokens

end LoopbackOData
