import LoopbackOData.Filter.Literals
import LoopbackOData.Library.Base64
import LoopbackOData.Library.Json
import LoopbackOData.Library.Outcome
import LoopbackOData.Request

/-!
# Signed tokens

The envelopes that skip tokens travel in. A token is the base64url text of a JSON envelope with a
signature; what it takes for a token that the server signed to be accepted again is
`verifyToken_signToken`.
-/

namespace LoopbackOData

open Outcome

set_option autoImplicit false

/-! ## Stable serialization -/

/-- The number of an array index that stands for a property name. -/
def arrayIndex (key : Text) : Option Nat :=
  if key ≠ [] ∧ key.all isDigit ∧ (key.length = 1 ∨ key.head? ≠ some '0') then
    let index := digitsValue key
    if index < 4294967295 then some index else none
  else none

/-- The order of the properties of an object whose keys were added by their code units: array
indices come first. -/
def beforeKey (key key' : Text) : Bool :=
  match arrayIndex key, arrayIndex key' with
  | some index, some index' => index ≤ index'
  | some _, none => true
  | none, some _ => false
  | none, none => compareText key key' != .gt

/-- The properties that are left when a repeated key keeps its last value. -/
def lastFields {α : Type} : List (Text × α) → List (Text × α)
  | [] => []
  | field :: rest =>
    if field.1 ∈ rest.map Prod.fst then lastFields rest else field :: lastFields rest

/-- The number that `JSON.parse` makes of a literal: a finite one, known by the text that
`JSON.stringify` writes for it, or one out of range. -/
inductive JsonNumber where
  | finite (printed : Json.Number)
  | infinite (negative : Bool)
  deriving DecidableEq

/-- How the literals of a text are read, with rounding to double precision. -/
abbrev NumberReading := Json.Number → JsonNumber

/-- `JSON.stringify` on a number. -/
def JsonNumber.print : JsonNumber → Json.Value
  | .finite printed => .num printed
  | .infinite _ => .null

mutual

/-- `normalizeStableValue` on a value whose numbers are read in this way, and with the numbers as
`JSON.stringify` writes them. -/
def normalizeValue (read : NumberReading) : Json.Value → Json.Value
  | .null => .null
  | .bool b => .bool b
  | .num n => (read n).print
  | .str s => .str s
  | .arr items => .arr (normalizeItems read items)
  | .obj fields =>
    .obj ((lastFields (normalizeFields read fields)).mergeSort fun a b => beforeKey a.1 b.1)

def normalizeItems (read : NumberReading) : List Json.Value → List Json.Value
  | [] => []
  | item :: items => normalizeValue read item :: normalizeItems read items

def normalizeFields (read : NumberReading) :
    List (Text × Json.Value) → List (Text × Json.Value)
  | [] => []
  | (key, value) :: fields =>
    if key = prototypeKey then normalizeFields read fields
    else (key, normalizeValue read value) :: normalizeFields read fields

end

/-- On values whose numbers are written as `JSON.stringify` writes them. -/
def normalizeStableValue (value : Json.Value) : Json.Value := normalizeValue .finite value

def stableStringifyOf (read : NumberReading) (value : Json.Value) : Text :=
  Json.print (normalizeValue read value)

def stableStringify (value : Json.Value) : Text := Json.print (normalizeStableValue value)

/-! ## Envelopes -/

/-- The members of a token's JSON object. -/
abbrev TokenEnvelope := List (Text × Json.Value)

/-- `envelope.key`: the last value of a repeated member. -/
def TokenEnvelope.get (envelope : TokenEnvelope) (key : String) : Option Json.Value :=
  envelope.reverse.lookup key.toList

/-- A member that is a string. -/
def TokenEnvelope.text (envelope : TokenEnvelope) (key : String) : Option Text :=
  match envelope.get key with
  | some (.str s) => some s
  | _ => none

structure TokenSecurityOptions where
  secret : Text
  ttlSeconds : Option Rat

inductive TokenReason where
  | invalid | expired | legacyDenied
  deriving DecidableEq, Repr

/-- What decoding and verification throw. -/
inductive TokenError where
  | verification (message : String) (reason : TokenReason)
  /-- A member of a type that the built-in functions do not accept. -/
  | typeError
  deriving DecidableEq, Repr

def invalidToken {α : Type} (message : String) : Except TokenError α :=
  .error (.verification message .invalid)

def tokenVersion : Text := "v3".toList

def maxTokenEnvelopeBytes : Nat := 64 * 1024

/-- The bytes of the JSON text. -/
def envelopeBytes (envelope : TokenEnvelope) : List UInt8 := utf8Bytes (Json.print (.obj envelope))

def encodeEnvelope (envelope : TokenEnvelope) : Text :=
  tokenVersion ++ ':' :: Base64.encode (envelopeBytes envelope)

def decodeEnvelope (token : Text) : Except TokenError TokenEnvelope :=
  if ':' ∉ token then invalidToken "Token is missing version prefix."
  else if token.takeWhile (· ≠ ':') ≠ tokenVersion then invalidToken "Unsupported token version."
  else
    let decodedBuffer := Base64.decode ((token.dropWhile (· ≠ ':')).drop 1)
    if decodedBuffer.length > maxTokenEnvelopeBytes then
      invalidToken "Token payload exceeds maximum size."
    else match (utf8Text decodedBuffer).bind Json.parse with
      | some (.obj envelope) =>
        if TokenEnvelope.text envelope "v" = some tokenVersion ∧
            (TokenEnvelope.text envelope "type").isSome then .ok envelope
        else invalidToken "Failed to decode token payload."
      | _ => invalidToken "Failed to decode token payload."

/-- The envelope without its signature is what is signed. -/
def TokenEnvelope.unsigned (envelope : TokenEnvelope) : TokenEnvelope :=
  envelope.filter (·.1 ≠ "sig".toList)

def computeSignatureOf (read : NumberReading) (hmac : Text → Text → Text)
    (envelope : TokenEnvelope) (secret : Text) : Text :=
  hmac secret (stableStringifyOf read (.obj envelope.unsigned))

def computeSignature (hmac : Text → Text → Text) (envelope : TokenEnvelope) (secret : Text) :
    Text :=
  computeSignatureOf .finite hmac envelope secret

/-- The time to live in milliseconds; none where it is missing, not positive, or rounds to zero. -/
def TokenSecurityOptions.ttlMs (options : TokenSecurityOptions) : Option Int :=
  match options.ttlSeconds with
  | none => none
  | some ttlSeconds =>
    let ttlMs := (ttlSeconds * 1000).floor
    if 0 < ttlSeconds ∧ ttlMs ≠ 0 then some ttlMs else none

/-- The envelope that `signToken` makes at the time `now`, `nonce` being the random bytes. -/
def signedEnvelope (hmac : Text → Text → Text) (type : Text) (data : Json.Value)
    (options : TokenSecurityOptions) (now : Int) (nonce : Text) : TokenEnvelope :=
  let unsigned : TokenEnvelope :=
    [("v".toList, .str tokenVersion), ("type".toList, .str type),
      ("iat".toList, .num (.ofInt now))] ++
    (match options.ttlMs with
      | some ttlMs => [("exp".toList, .num (.ofInt (now + ttlMs)))]
      | none => []) ++
    [("nonce".toList, .str nonce), ("data".toList, data)]
  unsigned ++ [("sig".toList, .str (computeSignature hmac unsigned options.secret))]

/-- `signToken` throws on an empty secret, which `requireTokenSecret` never passes on. -/
def signToken (hmac : Text → Text → Text) (type : Text) (data : Json.Value)
    (options : TokenSecurityOptions) (now : Int) (nonce : Text) : Text :=
  encodeEnvelope (signedEnvelope hmac type data options now nonce)

/-- `value < limit` for a JSON value; arrays and objects are no numbers. -/
def isBelow (value : Json.Value) (limit : Rat) : Bool :=
  match value with
  | .null => 0 < limit
  | .bool b => (if b then 1 else 0) < limit
  | .num n => (readDecimal n.text).any fun d => d.value < limit
  | .str s => (finiteNumber s).any fun q => q < limit
  | _ => false

/-- Whether `JSON.parse` made a value that counts as true. -/
def isTruthy : Json.Value → Bool
  | .null => false
  | .bool b => b
  | .num n => (readDecimal n.text).any fun d => d.value ≠ 0
  | .str s => s ≠ []
  | _ => true

/-- `envelope.exp && envelope.exp < Date.now()`. -/
def isExpired (envelope : TokenEnvelope) (now : Int) : Bool :=
  (envelope.get "exp").any fun exp => isTruthy exp && isBelow exp now

def verifyTokenOf (read : NumberReading) (hmac : Text → Text → Text) (token type : Text)
    (options : TokenSecurityOptions) (now : Int) : Except TokenError (Option Json.Value) :=
  if options.secret = [] then invalidToken "Missing token secret."
  else do
    let envelope ← decodeEnvelope token
    if envelope.text "type" ≠ some type then invalidToken "Token type mismatch."
    else if isExpired envelope now then .error (.verification "Token has expired." .expired)
    else match envelope.text "sig" with
      | some sig =>
        if sig ≠ computeSignatureOf read hmac envelope options.secret then
          invalidToken "Token signature mismatch."
        else .ok (envelope.get "data")
      | none => .error .typeError

/-- `verifyToken` on tokens whose numbers are written as `JSON.stringify` writes them. -/
def verifyToken (hmac : Text → Text → Text) (token type : Text) (options : TokenSecurityOptions)
    (now : Int) : Except TokenError (Option Json.Value) :=
  verifyTokenOf .finite hmac token type options now

/-! ## Accepting what was signed -/

theorem digitsValue_append (s t : Text) :
    digitsValue (s ++ t) = digitsValue s * 10 ^ t.length + digitsValue t := by
  have hfold (n : Nat) (t : Text) :
      t.foldl (fun value c => 10 * value + (c.toNat - '0'.toNat)) n =
        n * 10 ^ t.length + digitsValue t := by
    induction t generalizing n with
    | nil => simp [digitsValue]
    | cons c t ih =>
      have hdigit : digitsValue (c :: t) =
          (c.toNat - '0'.toNat) * 10 ^ t.length + digitsValue t := by
        rw [digitsValue, List.foldl_cons, ih, Nat.mul_zero, Nat.zero_add]
      rw [List.foldl_cons, ih, hdigit, List.length_cons, pow_succ]
      ring
  rw [digitsValue, List.foldl_append, hfold]
  rfl

theorem digitsValue_digits (n : Nat) : digitsValue (Json.digits n) = n := by
  have hdigit : ∀ m < 10, digitsValue [Nat.digitChar m] = m := by decide
  induction n using Json.digits.induct with
  | case1 n hn => rw [Json.digits, if_pos hn, hdigit n hn]
  | case2 n hn ih =>
    rw [Json.digits, if_neg hn, digitsValue_append, ih, hdigit _ (Nat.mod_lt n (by omega))]
    simp only [List.length_singleton, pow_one]
    omega

/-- An integer is read back from its literal. -/
theorem readDecimal_ofInt (i : Int) :
    (readDecimal (Json.Number.ofInt i).text).map DecimalText.value = some (i : Rat) := by
  have hall := List.all_eq_true.mp (Json.all_isDigit_digits i.natAbs)
  have hne := Json.digits_ne_nil i.natAbs
  have htake : (Json.digits i.natAbs).takeWhile isDigit = Json.digits i.natAbs :=
    List.takeWhile_eq_self_iff.mpr hall
  have hdrop : (Json.digits i.natAbs).dropWhile isDigit = [] :=
    List.dropWhile_eq_nil_iff.mpr hall
  have hread : readDecimal (Json.Number.ofInt i).text =
      some ⟨decide (i < 0), Json.digits i.natAbs, [], 0⟩ := by
    have hminus : startsWith (Json.digits i.natAbs) ['-'] = false := by
      obtain ⟨c, rest, heq⟩ := List.exists_cons_of_ne_nil hne
      have hc := hall c (heq ▸ List.mem_cons_self)
      rw [heq]
      by_contra hstarts
      rw [Bool.not_eq_false] at hstarts
      have hc' : '-' = c := by simpa [startsWith, List.isPrefixOf] using hstarts
      rw [← hc'] at hc
      exact absurd hc (by decide)
    by_cases hi : i < 0
    · simp [Json.Number.ofInt, readDecimal, hi, startsWith, List.isPrefixOf, htake, hdrop, hne,
        readExponent]
    · simp [Json.Number.ofInt, readDecimal, hi, hminus, htake, hdrop, hne, readExponent]
  rw [hread, Option.map_some, DecimalText.value]
  simp only [List.append_nil, digitsValue_digits, List.length_nil, Nat.cast_zero, sub_zero,
    zpow_zero, mul_one, Option.some.injEq]
  by_cases hi : i < 0
  · have habs : (i.natAbs : Int) = -i := Int.ofNat_natAbs_of_nonpos (le_of_lt hi)
    have hcast : ((i.natAbs : Nat) : Rat) = -(i : Rat) := by
      rw [← Int.cast_natCast, habs, Int.cast_neg]
    simp only [hi, decide_true, if_true]
    rw [hcast, neg_neg]
  · have habs : (i.natAbs : Int) = i := Int.natAbs_of_nonneg (not_lt.mp hi)
    have hcast : ((i.natAbs : Nat) : Rat) = (i : Rat) := by
      rw [← Int.cast_natCast, habs]
    simp only [hi, decide_false, Bool.false_eq_true, if_false]
    exact hcast

section Verification

variable {hmac : Text → Text → Text} {type : Text} {data : Json.Value}
  {options : TokenSecurityOptions} {now : Int} {nonce : Text}

theorem get_signedEnvelope :
    (signedEnvelope hmac type data options now nonce).text "v" = some tokenVersion ∧
      (signedEnvelope hmac type data options now nonce).text "type" = some type ∧
      (signedEnvelope hmac type data options now nonce).get "data" = some data ∧
      (signedEnvelope hmac type data options now nonce).get "exp" =
        options.ttlMs.map (fun ttlMs => .num (.ofInt (now + ttlMs))) := by
  cases httl : options.ttlMs with
  | none =>
    simp [signedEnvelope, TokenEnvelope.text, TokenEnvelope.get, httl, List.lookup]
  | some ttlMs =>
    simp [signedEnvelope, TokenEnvelope.text, TokenEnvelope.get, httl, List.lookup]

/-- The signature in a signed envelope is that of the envelope. -/
theorem sig_signedEnvelope :
    (signedEnvelope hmac type data options now nonce).text "sig" =
      some (computeSignature hmac (signedEnvelope hmac type data options now nonce)
        options.secret) := by
  cases httl : options.ttlMs with
  | none =>
    simp [signedEnvelope, TokenEnvelope.text, TokenEnvelope.get, httl, computeSignature,
      computeSignatureOf, TokenEnvelope.unsigned]
  | some ttlMs =>
    simp [signedEnvelope, TokenEnvelope.text, TokenEnvelope.get, httl, computeSignature,
      computeSignatureOf, TokenEnvelope.unsigned]

theorem isExpired_signedEnvelope {later : Int}
    (hexpiry : ∀ ttlMs ∈ options.ttlMs, later ≤ now + ttlMs) :
    isExpired (signedEnvelope hmac type data options now nonce) later = false := by
  rw [isExpired, get_signedEnvelope.2.2.2]
  cases httl : options.ttlMs with
  | none => rfl
  | some ttlMs =>
    have hlater := hexpiry ttlMs httl
    have hread := readDecimal_ofInt (now + ttlMs)
    rw [Option.map_eq_some_iff] at hread
    obtain ⟨d, hd, hvalue⟩ := hread
    have hnot : ¬ d.value < (later : Rat) := by
      rw [hvalue, not_lt]
      exact_mod_cast hlater
    simp only [Option.map_some, Option.any_some, isBelow, hd, hnot, decide_false, Bool.and_false]

/-- Decoding an envelope that the server encoded fails on its size only. -/
theorem decodeEnvelope_encodeEnvelope {envelope : TokenEnvelope}
    (hversion : envelope.text "v" = some tokenVersion)
    (htype : (envelope.text "type").isSome) :
    decodeEnvelope (encodeEnvelope envelope) =
      if (envelopeBytes envelope).length > maxTokenEnvelopeBytes then
        invalidToken "Token payload exceeds maximum size."
      else .ok envelope := by
  have hbefore : ∀ c ∈ tokenVersion, (decide (c ≠ ':')) = true := by decide
  have htake : (encodeEnvelope envelope).takeWhile (· ≠ ':') = tokenVersion := by
    rw [encodeEnvelope, List.takeWhile_append_of_pos hbefore]
    simp
  have hdrop : ((encodeEnvelope envelope).dropWhile (· ≠ ':')).drop 1 =
      Base64.encode (envelopeBytes envelope) := by
    rw [encodeEnvelope, List.dropWhile_append_of_pos hbefore]
    simp
  have hcolon : ':' ∈ encodeEnvelope envelope := by simp [encodeEnvelope]
  have hparse : (utf8Text (envelopeBytes envelope)).bind Json.parse = some (.obj envelope) := by
    rw [envelopeBytes, utf8Text_utf8Bytes, Option.bind_some, Json.parse_print]
  rw [decodeEnvelope, if_neg (not_not_intro hcolon), if_neg (not_not_intro htake), hdrop,
    Base64.decode_encode]
  dsimp only
  rw [hparse]
  dsimp only
  have hvalid : envelope.text "v" = some tokenVersion ∧ (envelope.text "type").isSome :=
    ⟨hversion, htype⟩
  rw [if_pos hvalid]

/-- A signed token is accepted, before it expires, exactly if its envelope is not too large. -/
theorem verifyToken_signToken {later : Int} (hsecret : options.secret ≠ [])
    (hexpiry : ∀ ttlMs ∈ options.ttlMs, later ≤ now + ttlMs) :
    verifyToken hmac (signToken hmac type data options now nonce) type options later =
      if (envelopeBytes (signedEnvelope hmac type data options now nonce)).length >
          maxTokenEnvelopeBytes then
        invalidToken "Token payload exceeds maximum size."
      else .ok (some data) := by
  obtain ⟨hversion, htype, hdata, _⟩ := @get_signedEnvelope hmac type data options now nonce
  rw [verifyToken, verifyTokenOf, if_neg hsecret, signToken,
    decodeEnvelope_encodeEnvelope hversion (by rw [htype]; rfl)]
  split
  · rfl
  · refine bind_eq_ok.mpr ⟨_, rfl, ?_⟩
    rw [if_neg (not_not_intro htype), isExpired_signedEnvelope hexpiry,
      if_neg Bool.false_ne_true, sig_signedEnvelope]
    dsimp only
    rw [computeSignature, if_neg (not_not_intro rfl), hdata]

end Verification

/-! ## Skip tokens -/

structure SkipTokenPayload where
  descriptor : Text
  context : Text
  values : List Text
  deriving DecidableEq

def SkipTokenPayload.toJson (payload : SkipTokenPayload) : Json.Value :=
  .obj [("descriptor".toList, .str payload.descriptor), ("context".toList, .str payload.context),
    ("values".toList, .arr (payload.values.map .str))]

def skipTokenType : Text := "skip".toList

def signSkipToken (hmac : Text → Text → Text) (payload : SkipTokenPayload)
    (options : TokenSecurityOptions) (now : Int) (nonce : Text) : Text :=
  signToken hmac skipTokenType payload.toJson options now nonce

/-- The values of a token that was signed for the descriptor and the context. -/
def verifySkipToken (hmac : Text → Text → Text)
    (token expectedDescriptor expectedContext : Text) (options : TokenSecurityOptions)
    (now : Int) : Except TokenError (List Json.Value) := do
  match ← verifyToken hmac token skipTokenType options now with
  | some (.obj data) =>
    if TokenEnvelope.text data "descriptor" ≠ some expectedDescriptor ∨
        TokenEnvelope.text data "context" ≠ some expectedContext then
      invalidToken "Skip token descriptor mismatch."
    else match TokenEnvelope.get data "values" with
      | some (.arr values) => .ok values
      | _ => invalidToken "Skip token payload is invalid."
  | _ => invalidToken "Skip token descriptor mismatch."

theorem get_toJson (payload : SkipTokenPayload) :
    ∃ data, payload.toJson = .obj data ∧
      TokenEnvelope.text data "descriptor" = some payload.descriptor ∧
      TokenEnvelope.text data "context" = some payload.context ∧
      TokenEnvelope.get data "values" = some (.arr (payload.values.map .str)) := by
  refine ⟨_, rfl, ?_, ?_, ?_⟩ <;>
    simp [TokenEnvelope.text, TokenEnvelope.get, List.lookup]

/-- A skip token is accepted for the descriptor and the context it was signed for, and for no
others. -/
theorem verifySkipToken_signSkipToken {hmac : Text → Text → Text} {payload : SkipTokenPayload}
    {options : TokenSecurityOptions} {now later : Int} {nonce : Text}
    (hsecret : options.secret ≠ []) (hexpiry : ∀ ttlMs ∈ options.ttlMs, later ≤ now + ttlMs)
    (descriptor context : Text) (values : List Json.Value) :
    verifySkipToken hmac (signSkipToken hmac payload options now nonce) descriptor context options
        later = .ok values ↔
      (envelopeBytes (signedEnvelope hmac skipTokenType payload.toJson options now nonce)).length ≤
          maxTokenEnvelopeBytes ∧
        payload.descriptor = descriptor ∧ payload.context = context ∧
        payload.values.map Json.Value.str = values := by
  rw [verifySkipToken, signSkipToken, verifyToken_signToken hsecret hexpiry]
  by_cases hsize :
      (envelopeBytes (signedEnvelope hmac skipTokenType payload.toJson options now nonce)).length >
        maxTokenEnvelopeBytes
  · rw [if_pos hsize]
    simp [invalidToken, bind, Except.bind, Nat.not_le.mpr hsize]
  · rw [if_neg hsize]
    obtain ⟨data, hdata, hdescriptor, hcontext, hvalues⟩ := get_toJson payload
    simp only [hdata, bind, Except.bind, hdescriptor, hcontext, hvalues, ne_eq,
      Option.some.injEq]
    rw [hdata] at hsize
    by_cases hmatch : ¬ payload.descriptor = descriptor ∨ ¬ payload.context = context
    · rw [if_pos hmatch]
      constructor
      · exact nofun
      · rintro ⟨_, hd, hc, _⟩
        exact absurd hmatch (by simp [hd, hc])
    · rw [if_neg hmatch]
      rw [not_or, not_not, not_not] at hmatch
      rw [Except.ok.injEq]
      exact ⟨fun h => ⟨Nat.not_lt.mp hsize, hmatch.1, hmatch.2, h⟩, fun h => h.2.2.2⟩

end LoopbackOData
