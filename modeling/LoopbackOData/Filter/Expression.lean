import LoopbackOData.Js

/-!
# Parsed filter expressions

The trees `ParsedExpression` that the filter parser builds and every evaluator reads. The
operators without subexpressions are grouped in `Leaf`.
-/

namespace LoopbackOData

set_option autoImplicit false

/-- The comparators after `comparisonOperators` renamed `ne`, `ge` and `le`; `nin` only arises
by negating `inq`. -/
inductive Comparator where
  | eq | neq | gt | gte | lt | lte | inq | nin
  deriving DecidableEq, Repr

/-- The comparators of the operators that know equality only. -/
inductive Equality where
  | eq | neq
  deriving DecidableEq, Repr

inductive OperandTransform where
  | tolower | toupper
  deriving DecidableEq, Repr

/-- The functions of `FunctionExpression`. -/
inductive StringPredicate where
  | contains | startswith | endswith
  deriving DecidableEq, Repr

inductive StringFunction where
  | trim | concat
  deriving DecidableEq, Repr

inductive FieldFunction where
  | round | floor | ceiling | year
  deriving DecidableEq, Repr

inductive DatePart where
  | month | day | hour | minute | second
  deriving DecidableEq, Repr

inductive FunctionArg where
  | field (name : Text) (transform : Option OperandTransform)
  | literal (value : Scalar)
  deriving DecidableEq, Repr

/-- The right-hand side of a comparison: one literal, or the list of an `in`. -/
inductive Literal where
  | single (value : Scalar)
  | list (values : List Scalar)
  deriving DecidableEq, Repr

/-- The expressions without subexpressions. -/
inductive Leaf where
  | comparison (field : Text) (comparator : Comparator) (value : Literal)
  | function (name : StringPredicate) (field : Text) (arg : Scalar) (caseInsensitive : Bool)
      (transform : Option OperandTransform) (negated : Bool)
  | transformcmp (transform : OperandTransform) (field : Text) (comparator : Equality)
      (value : Option Text)
  | fncmp (name : FieldFunction) (field : Text) (comparator : Comparator) (value : Rat)
  | stringfncmp (name : StringFunction) (args : List FunctionArg) (comparator : Equality)
      (value : Text)
  | datepart (part : DatePart) (field : Text) (comparator : Comparator) (value : Rat)
  | indexofcmp (field : Text) (comparator : Comparator) (value : Rat) (needle : Text)
  | substrcmp (field : Text) (start : Rat) (length : Option Rat) (comparator : Equality)
      (literal : Text)
  | lengthcmp (field : Text) (comparator : Comparator) (value : Rat)
  deriving DecidableEq, Repr

/-- The properties an expression without subexpressions reads. -/
def Leaf.fields : Leaf → List Text
  | .comparison field _ _ => [field]
  | .function _ field _ _ _ _ => [field]
  | .transformcmp _ field _ _ => [field]
  | .fncmp _ field _ _ => [field]
  | .stringfncmp _ args _ _ => args.filterMap fun
    | .field name _ => some name
    | .literal _ => none
  | .datepart _ field _ _ => [field]
  | .indexofcmp field _ _ _ => [field]
  | .substrcmp field _ _ _ _ => [field]
  | .lengthcmp field _ _ => [field]

inductive LogicalType where
  | and | or
  deriving DecidableEq, Repr

inductive LambdaType where
  | any | all
  deriving DecidableEq, Repr

inductive ParsedExpression where
  | leaf (leaf : Leaf)
  | logical (type : LogicalType) (expressions : List ParsedExpression)
  | not (expr : ParsedExpression)
  | lambda (lambdaType : LambdaType) (path : List Text) (aliasName : Text)
      (predicate : ParsedExpression)
  deriving Repr

namespace ParsedExpression

/-- Induction on expressions, the members of a conjunction or disjunction included. -/
@[elab_as_elim, induction_eliminator]
theorem induction {P : ParsedExpression → Prop} (leaf : ∀ l, P (.leaf l))
    (logical : ∀ type es, (∀ e ∈ es, P e) → P (.logical type es))
    (not : ∀ e, P e → P (.not e))
    (lambda : ∀ type path aliasName e, P e → P (.lambda type path aliasName e)) :
    ∀ e, P e := by
  intro e
  refine ParsedExpression.rec (motive_1 := P) (motive_2 := fun es => ∀ e ∈ es, P e)
    leaf logical not lambda ?_ ?_ e
  · intro e he
    cases he
  · intro head tail hhead htail e he
    rcases List.mem_cons.mp he with rfl | he
    · exact hhead
    · exact htail e he

end ParsedExpression

mutual

/-- Equality of expressions is decided structurally. -/
def ParsedExpression.decEq : (a b : ParsedExpression) → Decidable (a = b)
  | .leaf a, .leaf b => decidable_of_iff (a = b) (by simp)
  | .logical t es, .logical t' es' =>
    have := ParsedExpression.decEqList es es'
    decidable_of_iff (t = t' ∧ es = es') (by simp)
  | .not e, .not e' =>
    have := ParsedExpression.decEq e e'
    decidable_of_iff (e = e') (by simp)
  | .lambda t p a e, .lambda t' p' a' e' =>
    have := ParsedExpression.decEq e e'
    decidable_of_iff (t = t' ∧ p = p' ∧ a = a' ∧ e = e') (by simp)
  | .leaf _, .logical .. => isFalse nofun
  | .leaf _, .not _ => isFalse nofun
  | .leaf _, .lambda .. => isFalse nofun
  | .logical .., .leaf _ => isFalse nofun
  | .logical .., .not _ => isFalse nofun
  | .logical .., .lambda .. => isFalse nofun
  | .not _, .leaf _ => isFalse nofun
  | .not _, .logical .. => isFalse nofun
  | .not _, .lambda .. => isFalse nofun
  | .lambda .., .leaf _ => isFalse nofun
  | .lambda .., .logical .. => isFalse nofun
  | .lambda .., .not _ => isFalse nofun

def ParsedExpression.decEqList : (as bs : List ParsedExpression) → Decidable (as = bs)
  | [], [] => isTrue rfl
  | a :: as, b :: bs =>
    have := ParsedExpression.decEq a b
    have := ParsedExpression.decEqList as bs
    decidable_of_iff (a = b ∧ as = bs) (by simp)
  | [], _ :: _ => isFalse nofun
  | _ :: _, [] => isFalse nofun

end

instance : DecidableEq ParsedExpression := ParsedExpression.decEq

/-- The errors a filter can be rejected with. -/
inductive FilterError where
  | error (message : String)
  | badRequest (message code : String)
  | unsupportedFilter (functions : List String)
  | lambdaRejected (message reason : String) (paths : List Text)
  | outOfFuel
  deriving DecidableEq, Repr

end LoopbackOData
