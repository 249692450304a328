import LoopbackOData.Paging.DeltaToken

/-!
# Masks of logged bodies

How the paths of masked fields are read, and how the values at them are replaced in the copy of a
body that is logged.
-/

namespace LoopbackOData

namespace Logging

set_option autoImplicit false

/-- The integers that digits are read as, in double precision. -/
structure IntegerReading where
  /-- `Number(digits)`; none where it is infinite. -/
  value : Text → Option Int
  /-- `String(Number(digits))`. -/
  text : Text → Text

/-- A step of a path: a text, or the number that digits are read as. -/
inductive PathSegment where
  | key (name : Text)
  | number (digits : Text)
  deriving DecidableEq

/-! ## Reading paths -/

def isDigits (s : Text) : Bool := s ≠ [] && s.all isDigit

def isInteger (s : Text) : Bool :=
  match s with
  | '-' :: digits => isDigits digits
  | digits => isDigits digits

def rawKey (buffer : Text) : List PathSegment := if buffer = [] then [] else [.key buffer]

def trimmedKey (buffer : Text) : List PathSegment := rawKey (trimText buffer)

def isQuoted (quote : Char) (token : Text) : Bool :=
  startsWith token [quote] && endsWith token [quote]

def unquoted (token : Text) : Text :=
  if isQuoted '"' token || isQuoted '\'' token then (token.drop 1).dropLast else token

/-- What stands between brackets; nothing is no step. -/
def bracketSegment (bracket : Text) : Option PathSegment :=
  let token := trimText bracket
  if token = [] then none
  else some (if isInteger (unquoted token) then .number (unquoted token) else .key (unquoted token))

/-- Where the reader is: outside of brackets or between them, with what it has read there. -/
inductive PathMode where
  | plain (buffer : Text)
  | bracket (token : Text)

/-- The loop of `parseMaskPath`. -/
def parseSegments : PathMode → Text → Option (List PathSegment)
  | .plain buffer, [] => some (trimmedKey buffer)
  | .bracket _, [] => none
  | .plain buffer, char :: rest =>
    if char = '.' then (parseSegments (.plain []) rest).map (trimmedKey buffer ++ ·)
    else if char = '[' then (parseSegments (.bracket []) rest).map (rawKey buffer ++ ·)
    else parseSegments (.plain (buffer ++ [char])) rest
  | .bracket token, char :: rest =>
    if char = ']' then do
      let segment ← bracketSegment token
      return segment :: (← parseSegments (.plain []) rest)
    else parseSegments (.bracket (token ++ [char])) rest

def parseMaskPath (path : Text) : Option (List PathSegment) :=
  let trimmed := trimText path
  if trimmed = [] then none else parseSegments (.plain []) trimmed

/-! ## Replacing values -/

section Masks

variable (reading : IntegerReading)

def normalizeArrayIndex : PathSegment → Option Int
  | .number digits => reading.value digits
  | .key name => if isDigits (trimText name) then reading.value (trimText name) else none

/-- The place in an array of this length that a step leads to. -/
def arrayPlace (segment : PathSegment) (length : Nat) : Option Nat :=
  match normalizeArrayIndex reading segment with
  | some index => if 0 ≤ index ∧ index < length then some index.toNat else none
  | none => none

/-- The property of an object that a step leads to. -/
def propertyKey : PathSegment → Text
  | .key name => name
  | .number digits => reading.text digits

def maskText : Text := "***".toList

/-- The fields of an object, one of them changed. -/
def modifyField (fields : List (Text × RowValue)) (key : Text) (change : RowValue → RowValue) :
    List (Text × RowValue) :=
  fields.map fun field => if field.1 = key then (key, change field.2) else field

/-- The value with what is at the end of the path replaced. -/
def maskAt : List PathSegment → RowValue → RowValue
  | [], _ => .string maskText
  | segment :: segments, .array items =>
    match arrayPlace reading segment items.length with
    | some index => .array (items.modify index (maskAt segments))
    | none => .array items
  | segment :: segments, .record fields =>
    if propertyKey reading segment = [] then .record fields
    else .record (modifyField fields (propertyKey reading segment) (maskAt segments))
  | _ :: _, value => value

/-- No steps lead nowhere. -/
def applyMaskAtPath (target : RowValue) (segments : List PathSegment) : RowValue :=
  if segments = [] then target else maskAt reading segments target

def maskPath (target : RowValue) (path : Text) : RowValue :=
  applyMaskAtPath reading target ((parseMaskPath path).getD [])

def isObjectBody : RowValue → Bool
  | .array _ => true
  | .record _ => true
  | _ => false

def maskRequestBody (body : RowValue) (maskPaths : List Text) : RowValue :=
  if isObjectBody body then maskPaths.foldl (maskPath reading) body else body

end Masks

end Logging

end LoopbackOData
