import Mathlib

/-!
# JavaScript values

The values that query literals and stored rows take, and the built-in conversions and
comparisons the code applies to them. Numbers are the rationals they denote (rounding to
double precision is not modelled), dates are milliseconds since the epoch, and a text is the
list of its characters.
-/

namespace LoopbackOData

set_option autoImplicit false

abbrev Text := List Char

/-- Assigning to this property of an object makes no property: it sets the prototype. -/
def prototypeKey : Text := "__proto__".toList

/-- Found once here, so that the definitions comparing texts all refer to it by this name. -/
instance lawfulText : LawfulBEq Text := inferInstance

/-- Characters are finitely many, so an instance that quantifies over all of them may exist too;
this one only looks at those of the text. -/
instance decidableForallMem (s : Text) (p : Char → Prop) [DecidablePred p] :
    Decidable (∀ c ∈ s, p c) :=
  List.decidableBAll p s

instance decidableForallMemHead (s : Option Char) (p : Char → Prop) [DecidablePred p] :
    Decidable (∀ c ∈ s, p c) :=
  match s with
  | none => isTrue (by simp)
  | some c => decidable_of_iff (p c) (by simp)

/-- What an expression like `row[field]` or a query literal can evaluate to, arrays and nested
objects apart. -/
inductive Scalar where
  | undefined
  | null
  | bool (b : Bool)
  | num (q : Rat)
  | str (s : Text)
  | date (ms : Int)
  | invalidDate
  deriving DecidableEq, Repr

/-- The properties of a stored entity. -/
abbrev Row := Text → Scalar

/-- `value == null` in JavaScript: both `null` and `undefined`. -/
def Scalar.isNullish : Scalar → Bool
  | .undefined => true
  | .null => true
  | _ => false

/-- The built-in conversions that depend on tables or algorithms of the JavaScript runtime:
Unicode case mapping (character by character) and the texts of numbers and dates. -/
structure Runtime where
  lowerChar : Char → Text
  upperChar : Char → Text
  numberToString : Rat → Text
  dateToString : Int → Text

def Runtime.toLowerCase (rt : Runtime) (s : Text) : Text := s.flatMap rt.lowerChar

def Runtime.toUpperCase (rt : Runtime) (s : Text) : Text := s.flatMap rt.upperChar

/-- A runtime that is right on texts of ASCII characters, on integers and on the epoch. -/
def Runtime.ascii : Runtime where
  lowerChar c := [c.toLower]
  upperChar c := [c.toUpper]
  numberToString q := (toString q).toList
  dateToString _ := "1970-01-01T00:00:00.000Z".toList

/-- `token.toLowerCase()` where it is compared with a keyword: no other character than an ASCII
capital becomes a letter of one. -/
def asciiLower (s : Text) : Text := s.map Char.toLower

/-- `token.toUpperCase()` where it is compared with `ASC` or `DESC`, on ASCII letters. -/
def asciiUpper (s : Text) : Text := s.map Char.toUpper

def isDigit (c : Char) : Bool := '0' ≤ c && c ≤ '9'

/-- `\s` in a regular expression, which is also what `trim` removes. -/
def isSpace (c : Char) : Bool :=
  c = ' ' || c = '\t' || c = '\n' || c = '\r' || c = '\x0b' || c = '\x0c' || c = '\u00a0' ||
    c = '\u1680' || ('\u2000' ≤ c && c ≤ '\u200a') || c = '\u2028' || c = '\u2029' ||
    c = '\u202f' || c = '\u205f' || c = '\u3000' || c = '\ufeff'

/-- The UTF-16 code units of one character. -/
def utf16 (c : Char) : List Nat :=
  if c.toNat < 0x10000 then [c.toNat]
  else [0xd800 + (c.toNat - 0x10000) / 0x400, 0xdc00 + (c.toNat - 0x10000) % 0x400]

/-- `text.length`: JavaScript counts UTF-16 code units. -/
def jsLength (s : Text) : Nat := (s.flatMap utf16).length

/-- `a < b` on strings, `a > b` being `b < a`: JavaScript compares code units. -/
def compareText (a b : Text) : Ordering :=
  compareOfLessAndEq (a.flatMap utf16) (b.flatMap utf16)

end LoopbackOData
