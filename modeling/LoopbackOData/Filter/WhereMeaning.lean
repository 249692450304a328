import LoopbackOData.Filter.Where
import LoopbackOData.Library.ThreeValued

/-!
# The meaning of a `where` clause

The truth of a `where` clause on a row, in the three-valued logic of SQL, for the clauses that
`translateWhere` has a translation of. How the database orders two present values and matches
patterns is a parameter.
-/

namespace LoopbackOData

open ThreeValued

set_option autoImplicit false

/-- What the database does with values that are present: `compare field stored literal`, and
`matchesPattern insensitive pattern stored` for `LIKE` and `ILIKE`. -/
structure Database where
  compare : Text → Scalar → Scalar → Ordering
  matchesPattern : Bool → Text → Scalar → Bool

namespace Database

variable (db : Database)

/-- A comparison of a stored value with a literal; unknown when one of them is missing. -/
def comparison (test : Ordering → Bool) (field : Text) (stored literal : Scalar) : Truth :=
  if stored.isNullish || literal.isNullish then .unknown
  else .ofBool (test (db.compare field stored literal))

def isNull (stored : Scalar) : Truth := .ofBool stored.isNullish

/-- `=`, a comparison with `null` being `IS NULL`. -/
def equals (field : Text) (stored literal : Scalar) : Truth :=
  if literal = .null then isNull stored else db.comparison (· == .eq) field stored literal

/-- `IN (..)`. -/
def inList (field : Text) (stored : Scalar) (values : List Scalar) : Truth :=
  .any (values.map (db.comparison (· == .eq) field stored))

def operator (field : Text) (stored : Scalar) : WhereOperator → Literal → Option Truth
  | .eq, .single literal => some (db.equals field stored literal)
  | .neq, .single literal => some (db.equals field stored literal).not
  | .gt, .single literal => some (db.comparison (· == .gt) field stored literal)
  | .gte, .single literal => some (db.comparison (· != .lt) field stored literal)
  | .lt, .single literal => some (db.comparison (· == .lt) field stored literal)
  | .lte, .single literal => some (db.comparison (· != .gt) field stored literal)
  | .inq, .list values => some (db.inList field stored values)
  | .nin, .list values => some (db.inList field stored values).not
  | _, _ => none

/-- `LIKE` and `NOT LIKE`. -/
def matching (negated : Bool) (pattern : Text) (insensitive : Bool) (stored : Scalar) : Truth :=
  if stored.isNullish then .unknown
  else .ofBool (db.matchesPattern insensitive pattern stored != negated)

def condition (field : Text) (stored : Scalar) : Condition → Option Truth
  | .equals .undefined => none
  | .equals value => some (db.equals field stored value)
  | .operator op operand => db.operator field stored op operand
  | .like negated pattern insensitive => some (db.matching negated pattern insensitive stored)

/-- The keys of a `where` object that do not name a property. -/
def isReservedKey (field : Text) : Bool :=
  field = "and".toList || field = "or".toList || field = "not".toList

/-- A connective of an empty list has no translation. -/
def connective (combine : List Truth → Truth) : Option (List Truth) → Option Truth
  | some (t :: ts) => some (combine (t :: ts))
  | _ => none

mutual

/-- `none` where `translateWhere` returns `undefined`. -/
def eval (row : Row) : Where → Option Truth
  | .and clauses => connective .all (evalAll row clauses)
  | .or clauses => connective .any (evalAll row clauses)
  | .not clause => (eval row clause).map .not
  | .property field condition =>
    if isReservedKey field then none else db.condition field (row field) condition

def evalAll (row : Row) : List Where → Option (List Truth)
  | [] => some []
  | clause :: clauses => do
    let t ← eval row clause
    let ts ← evalAll row clauses
    return t :: ts

end

@[simp] theorem eval_not (row : Row) (clause : Where) :
    db.eval row (.not clause) = (db.eval row clause).map .not := by
  rw [eval]

@[simp] theorem eval_property {field : Text} (hfield : isReservedKey field = false) (row : Row)
    (condition : Condition) :
    db.eval row (.property field condition) = db.condition field (row field) condition := by
  simp [eval, hfield]

theorem eval_property_reserved {field : Text} (hfield : isReservedKey field = true) (row : Row)
    (condition : Condition) : db.eval row (.property field condition) = none := by
  simp [eval, hfield]

/-- The members have these truth values, one by one. -/
theorem evalAll_eq_some {row : Row} {clauses : List Where} {ts : List Truth} :
    db.evalAll row clauses = some ts ↔
      List.Forall₂ (fun clause t => db.eval row clause = some t) clauses ts := by
  induction clauses generalizing ts with
  | nil => cases ts <;> simp [evalAll]
  | cons clause clauses ih =>
    cases ts with
    | nil => cases h : db.eval row clause <;> cases h' : db.evalAll row clauses <;>
        simp [evalAll, h, h']
    | cons t ts =>
      rw [List.forall₂_cons, ← ih]
      cases h : db.eval row clause <;> cases h' : db.evalAll row clauses <;>
        simp [evalAll, h, h']

end Database

/-- The property types of a model. -/
inductive ColumnType where
  | string | number | boolean | date | int64 | decimal
  deriving DecidableEq, Repr

/-- The non-null values of a type. -/
def ColumnType.Holds : ColumnType → Scalar → Prop
  | .string, .str _ => True
  | .number, .num _ => True
  | .boolean, .bool _ => True
  | .date, .date _ => True
  | .int64, .str s => isInt64Text s = true
  | .decimal, .str s => (readDecimal s).isSome = true
  | _, _ => False

theorem ColumnType.Holds.not_nullish {type : ColumnType} {value : Scalar}
    (h : type.Holds value) : value.isNullish = false := by
  cases type <;> cases value <;> simp_all [ColumnType.Holds, Scalar.isNullish]

abbrev Schema := Text → ColumnType

end LoopbackOData
