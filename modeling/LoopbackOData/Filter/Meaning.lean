import LoopbackOData.Filter.Expression

/-!
# Filters over an entity graph

What it means for an entity to satisfy a filter, lambdas included, with classical connectives and
quantifiers. The truth of the expressions without subexpressions is a parameter.
-/

namespace LoopbackOData

set_option autoImplicit false

/-- The range variables of the enclosing lambdas, innermost first. -/
abbrev Bindings (E : Type) := List (Text × E)

/-- Entities with their navigation properties, and the truth of a leaf for a root entity under
bindings. -/
structure EntityGraph (E : Type) where
  related : E → Text → List E
  satisfies : E → Bindings E → Leaf → Prop

namespace EntityGraph

variable {E : Type} (g : EntityGraph E)

/-- The entities at the end of a path of navigation properties. -/
def follow : List E → List Text → List E
  | current, [] => current
  | current, segment :: rest => follow (current.flatMap (g.related · segment)) rest

/-- The collection of a lambda. A path of two or more segments may start at a range variable; every
other path starts at the root. -/
def collection (root : E) (bindings : Bindings E) : List Text → List E
  | first :: second :: rest =>
    match bindings.lookup first with
    | some bound => g.follow [bound] (second :: rest)
    | none => g.follow [root] (first :: second :: rest)
  | path => g.follow [root] path

mutual

def Holds (root : E) : Bindings E → ParsedExpression → Prop
  | bindings, .leaf leaf => g.satisfies root bindings leaf
  | bindings, .logical .and expressions => HoldsAll root bindings expressions
  | bindings, .logical .or expressions => HoldsAny root bindings expressions
  | bindings, .not expr => ¬ Holds root bindings expr
  | bindings, .lambda .any path aliasName predicate =>
    ∃ item ∈ g.collection root bindings path, Holds root ((aliasName, item) :: bindings) predicate
  | bindings, .lambda .all path aliasName predicate =>
    ∀ item ∈ g.collection root bindings path, Holds root ((aliasName, item) :: bindings) predicate

def HoldsAll (root : E) : Bindings E → List ParsedExpression → Prop
  | _, [] => True
  | bindings, expr :: rest => Holds root bindings expr ∧ HoldsAll root bindings rest

def HoldsAny (root : E) : Bindings E → List ParsedExpression → Prop
  | _, [] => False
  | bindings, expr :: rest => Holds root bindings expr ∨ HoldsAny root bindings rest

end

attribute [local simp] Holds HoldsAll HoldsAny

variable (root : E) (bindings : Bindings E)

theorem holdsAll_iff (expressions : List ParsedExpression) :
    g.HoldsAll root bindings expressions ↔ ∀ e ∈ expressions, g.Holds root bindings e := by
  induction expressions with
  | nil => simp
  | cons e rest ih => simp [ih]

theorem holdsAny_iff (expressions : List ParsedExpression) :
    g.HoldsAny root bindings expressions ↔ ∃ e ∈ expressions, g.Holds root bindings e := by
  induction expressions with
  | nil => simp
  | cons e rest ih => simp [ih]

@[simp] theorem holds_and (expressions : List ParsedExpression) :
    g.Holds root bindings (.logical .and expressions) ↔
      ∀ e ∈ expressions, g.Holds root bindings e := by
  rw [Holds, holdsAll_iff]

@[simp] theorem holds_or (expressions : List ParsedExpression) :
    g.Holds root bindings (.logical .or expressions) ↔
      ∃ e ∈ expressions, g.Holds root bindings e := by
  rw [Holds, holdsAny_iff]

@[simp] theorem holds_not (e : ParsedExpression) :
    g.Holds root bindings (.not e) ↔ ¬ g.Holds root bindings e := by
  rw [Holds]

@[simp] theorem holds_any (path : List Text) (aliasName : Text) (predicate : ParsedExpression) :
    g.Holds root bindings (.lambda .any path aliasName predicate) ↔
      ∃ item ∈ g.collection root bindings path,
        g.Holds root ((aliasName, item) :: bindings) predicate := by
  rw [Holds]

@[simp] theorem holds_all (path : List Text) (aliasName : Text) (predicate : ParsedExpression) :
    g.Holds root bindings (.lambda .all path aliasName predicate) ↔
      ∀ item ∈ g.collection root bindings path,
        g.Holds root ((aliasName, item) :: bindings) predicate := by
  rw [Holds]

/-- Connectives and lambdas read their members only through their truth. -/
theorem holds_logical_congr {type : LogicalType} {es es' : List ParsedExpression}
    (h : List.Forall₂ (fun e e' => g.Holds root bindings e ↔ g.Holds root bindings e') es es') :
    g.Holds root bindings (.logical type es) ↔ g.Holds root bindings (.logical type es') := by
  cases type with
  | and =>
    rw [Holds, Holds]
    induction h with
    | nil => exact Iff.rfl
    | cons hhead _ ih => rw [HoldsAll, HoldsAll, hhead, ih]
  | or =>
    rw [Holds, Holds]
    induction h with
    | nil => exact Iff.rfl
    | cons hhead _ ih => rw [HoldsAny, HoldsAny, hhead, ih]

end EntityGraph

end LoopbackOData
