import LoopbackOData.Logging.MaskPaths

/-!
# Capturing bodies

The copy of a request or response body that is logged. A budget of bytes goes through the copy,
which stops where it is used up, at objects that are being copied already, and below a depth.
Functions, accessors and symbols are not among the values; arrays have no holes.
-/

namespace LoopbackOData

namespace Logging

set_option autoImplicit false

/-- `Buffer.byteLength(s, 'utf8')`. -/
def byteLength (s : Text) : Nat := (utf8Bytes s).length

/-! ## Bodies -/

/-- A finite number, known by the text it prints as, which has 25 characters at most. -/
structure PrintedNumber where
  number : Json.Number
  short : byteLength number.text ≤ 25

/-- `date.toISOString()`. -/
structure IsoText where
  text : Text
  nonempty : text ≠ []

/-- A value of a body. Objects are known by their places in memory, so that they may be shared and
may hold each other. -/
inductive Value where
  | undefined
  | null
  | bool (b : Bool)
  | number (n : PrintedNumber)
  | bigint (i : Int)
  | string (s : Text)
  | object (address : Nat)

inductive Object where
  | array (items : List Value)
  | record (fields : List (Text × Value))
  | buffer (bytes : List UInt8)
  /-- An invalid date has no text. -/
  | date (iso : Option IsoText)
  /-- An object or array of another prototype. -/
  | other

abbrev Memory := Nat → Object

/-- The value as it stands; only what is no object. -/
def Value.plain : Value → RowValue
  | .undefined => .undefined
  | .null => .null
  | .bool b => .bool b
  | .number n => .number n.number
  | .bigint i => .bigint i
  | .string s => .string s
  | .object _ => .undefined

/-- `bytes.toString('base64')`. -/
def toBase64 (bytes : List UInt8) : Text :=
  ((Base64.encode bytes).map fun c => if c = '-' then '+' else if c = '_' then '/' else c) ++
    List.replicate ((3 - bytes.length % 3) % 3) '='

/-! ## The budget -/

structure CloneState where
  remaining : Nat
  truncated : Bool

namespace CloneState

def flag (state : CloneState) : CloneState := { state with truncated := true }

def consumeBudget (state : CloneState) (bytes : Nat) : CloneState :=
  if bytes = 0 then state
  else if state.remaining = 0 then state.flag
  else if state.remaining < bytes then ⟨0, true⟩
  else { state with remaining := state.remaining - bytes }

end CloneState

def truncateStringByBytes : Text → Nat → Text
  | [], _ => []
  | char :: value, limit =>
    if limit < char.utf8Size then [] else char :: truncateStringByBytes value (limit - char.utf8Size)

def consumeStringValue (value : Text) (state : CloneState) : RowValue × CloneState :=
  if byteLength value ≤ state.remaining then
    (.string value, { state with remaining := state.remaining - byteLength value })
  else if state.remaining = 0 then (.string [], state.flag)
  else (.string (truncateStringByBytes value state.remaining), ⟨0, true⟩)

def boolText (b : Bool) : Text := if b then "true".toList else "false".toList

def clonePrimitiveValue (value : Value) (state : CloneState) : RowValue × CloneState :=
  match value with
  | .null => (.null, state.consumeBudget 4)
  | .string s => consumeStringValue s state
  | .number n => (.number n.number, state.consumeBudget (byteLength n.number.text))
  | .bool b => (.bool b, state.consumeBudget (byteLength (boolText b)))
  | .bigint i => consumeStringValue (Json.Number.ofInt i).text state
  | .undefined => (.undefined, state.consumeBudget 4)
  | .object _ => (.undefined, state)

def cloneNonPlainObject (state : CloneState) : RowValue × CloneState :=
  consumeStringValue "[NonPlainObject]".toList state.flag

def keyBudget (key : Text) : Nat := byteLength key + 4

/-! ## The copy -/

def maxContainerEntries : Nat := 100

/-- A step of the copy; none where it throws. -/
abbrev Cloner := Value → CloneState → Option (RowValue × CloneState)

/-- Nothing came of a step, and the copy is cut. -/
def isCut (next : RowValue) (state : CloneState) : Bool :=
  match next with
  | .undefined => state.truncated
  | _ => false

/-- The entries of an array, so many of which have been copied. -/
def cloneItems (clone : Cloner) : Nat → List Value → CloneState →
    Option (List RowValue × CloneState)
  | _, [], state => some ([], state)
  | processed, item :: items, state =>
    if maxContainerEntries ≤ processed then some ([], state.flag)
    else if state.remaining = 0 then some ([], state.flag)
    else do
      let (next, state) ← clone item state
      if isCut next state then return ([], state)
      let (rest, state) ← cloneItems clone (processed + 1) items (state.consumeBudget 1)
      return (next :: rest, state)

/-- A field of the copy; under `__proto__` there is none. -/
def assignField (key : Text) (value : RowValue) (fields : List (Text × RowValue)) :
    List (Text × RowValue) :=
  if key = prototypeKey then fields else (key, value) :: fields

def cloneFields (clone : Cloner) : Nat → List (Text × Value) → CloneState →
    Option (List (Text × RowValue) × CloneState)
  | _, [], state => some ([], state)
  | processed, (key, value) :: fields, state =>
    if maxContainerEntries ≤ processed then some ([], state.flag)
    else if state.remaining = 0 then some ([], state.flag)
    else
      let state := state.consumeBudget (keyBudget key)
      if state.remaining = 0 then some ([], state.flag)
      else do
        let (next, state) ← clone value state
        if isCut next state then return ([], state)
        let (rest, state) ← cloneFields clone (processed + 1) fields state
        return (assignField key next rest, state)

section Copy

variable (memory : Memory)

/-- What is seen below an object that is being copied; none at the greatest depth. -/
abbrev Nested := Option (List Nat → Cloner)

def cloneContainer (nested : Nested) (seen : List Nat) (address : Nat) (state : CloneState)
    (copy : Cloner → CloneState → Option (RowValue × CloneState)) :
    Option (RowValue × CloneState) :=
  if address ∈ seen then some (.string "[Circular]".toList, state.flag)
  else match nested with
    | none => some (.string "[MaxDepth]".toList, state.flag)
    | some clone => copy (clone (address :: seen)) (state.consumeBudget 2)

def cloneObject (nested : Nested) (seen : List Nat) (address : Nat) (state : CloneState) :
    Option (RowValue × CloneState) :=
  match memory address with
  | .buffer bytes => some (consumeStringValue (toBase64 bytes) state)
  | .date none => none
  | .date (some iso) => some (consumeStringValue iso.text state)
  | .other => some (cloneNonPlainObject state)
  | .array items =>
    cloneContainer nested seen address state fun clone state =>
      (cloneItems clone 0 items state).map fun (items, state) => (.array items, state)
  | .record fields =>
    cloneContainer nested seen address state fun clone state =>
      (cloneFields clone 0 fields state).map fun (fields, state) => (.record fields, state)

def cloneWith (nested : Nested) (seen : List Nat) : Cloner := fun value state =>
  if state.remaining = 0 then some (.undefined, state.flag)
  else match value with
    | .object address => cloneObject memory nested seen address state
    | value => some (clonePrimitiveValue value state)

/-- So many levels of containers are copied. The objects around the value are `seen`; one is
forgotten when its copy is done. -/
def cloneStructuredValue : Nat → List Nat → Cloner
  | 0 => cloneWith memory none
  | levels + 1 => cloneWith memory (some (cloneStructuredValue levels))

structure CapturedPayload where
  body : RowValue
  truncated : Bool

def cloneStructuredPayload (payload : Value) (maxBytes maxDepth : Nat) : CapturedPayload :=
  match cloneStructuredValue memory maxDepth [] payload ⟨maxBytes, false⟩ with
  | some (body, state) => ⟨body, state.truncated⟩
  | none => ⟨.string "[unserializable]".toList, true⟩

def defaultMaxCaptureDepth : Nat := 5

def captureText (payload : Text) (maxBytes : Nat) : CapturedPayload :=
  if maxBytes < byteLength payload then
    ⟨.string (truncateStringByBytes payload maxBytes), true⟩
  else ⟨.string payload, false⟩

def captureBuffer (payload : List UInt8) (maxBytes : Nat) : CapturedPayload :=
  if maxBytes < payload.length then ⟨.string (toBase64 (payload.take maxBytes)), true⟩
  else ⟨.string (toBase64 payload), false⟩

/-- Whether the copy counts as true. -/
def isTruthyBody : RowValue → Bool
  | .undefined => false
  | .null => false
  | .bool b => b
  | .number n => n.text ≠ ['0']
  | .string s => s ≠ []
  | _ => true

/-- A copy that counts as false is not logged. -/
def captureObject (reading : IntegerReading) (payload : Value) (maxBytes : Nat)
    (maskBodyPaths : List Text) : CapturedPayload :=
  let cloned := cloneStructuredPayload memory payload maxBytes defaultMaxCaptureDepth
  if isTruthyBody cloned.body then
    ⟨maskRequestBody reading cloned.body maskBodyPaths, cloned.truncated⟩
  else ⟨.undefined, cloned.truncated⟩

def captureRequestBody (reading : IntegerReading) (payload : Value) (maxBytes : Nat)
    (maskBodyPaths : List Text) : Option CapturedPayload :=
  match payload with
  | .undefined => none
  | .null => none
  | .string s => some (captureText s maxBytes)
  | .object address =>
    match memory address with
    | .buffer bytes => some (captureBuffer bytes maxBytes)
    | _ => some (captureObject memory reading payload maxBytes maskBodyPaths)
  | payload => some ⟨payload.plain, false⟩

def captureResponseBody (payload : Value) (maxBytes : Nat) : Option CapturedPayload :=
  match payload with
  | .undefined => none
  | .null => none
  | .string s => some (captureText s maxBytes)
  | .object _ => some (cloneStructuredPayload memory payload maxBytes defaultMaxCaptureDepth)
  | payload => some ⟨payload.plain, false⟩

end Copy

end Logging

end LoopbackOData
