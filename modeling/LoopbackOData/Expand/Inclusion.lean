import LoopbackOData.Filter.Where
import LoopbackOData.Library.Dictionary

/-!
# Include filters

The `include` lists that `$expand` is translated to, and how the parts of one are merged. A scope
that the source leaves undefined is the empty one.
-/

namespace LoopbackOData

namespace Expand

set_option autoImplicit false

/-- The properties of a scope apart from its own includes. The `fields` are the names that are set
to `true`, in the order in which they were. -/
structure ScopeOptions where
  fields : Option (List Text) := none
  whereClause : Option Where := none
  order : Option (List Text) := none
  limit : Option Nat := none
  offset : Option Nat := none
  deriving DecidableEq

/-- The scope of an include; `includes` maps the relations to the scopes of theirs. -/
inductive Scope where
  | mk (options : ScopeOptions) (includes : List (Text × Scope))

/-- `InclusionFilter`: the relation and the scope. -/
abbrev Inclusion := Text × Scope

def Scope.empty : Scope := .mk {} []

def Scope.options : Scope → ScopeOptions
  | .mk options _ => options

def Scope.includes : Scope → List Inclusion
  | .mk _ includes => includes

/-- `fields[name] = true`. -/
def projectRelationField (fields : List Text) (name : Text) : List Text :=
  if name ∈ fields then fields else fields ++ [name]

mutual

/-- The relations of the includes are selected wherever something is. -/
def ensureFieldsIncludeRelations : Scope → Scope
  | .mk options includes =>
    .mk { options with
      fields := options.fields.map ((includes.map Prod.fst).foldl projectRelationField ·) }
      (ensureIncludes includes)

def ensureIncludes : List (Text × Scope) → List (Text × Scope)
  | [] => []
  | (relation, scope) :: rest =>
    (relation, ensureFieldsIncludeRelations scope) :: ensureIncludes rest

end

/-- `{...(result.fields ?? {}), ...incoming.fields}`. -/
def mergeFields (target : Option (List Text)) : Option (List Text) → Option (List Text)
  | none => target
  | some names => some (names.foldl projectRelationField (target.getD []))

def mergeWhere : Option Where → Option Where → Option Where
  | some clause, some added => some (.and [clause, added])
  | clause, none => clause
  | none, added => added

/-- `mergeScopes`, the includes apart. -/
def ScopeOptions.merge (target incoming : ScopeOptions) : ScopeOptions where
  fields := mergeFields target.fields incoming.fields
  whereClause := mergeWhere target.whereClause incoming.whereClause
  order := incoming.order.or target.order
  limit := incoming.limit.or target.limit
  offset := incoming.offset.or target.offset

/-- `upsert`, with the way in which the scopes are merged. -/
def upsertBy (merge : Scope → Scope → Scope) (map : List Inclusion) (entry : Inclusion) :
    List Inclusion :=
  Dictionary.combineAt merge Scope.empty map entry

def mergeInclusionListBy (merge : Scope → Scope → Scope) (existing additions : List Inclusion) :
    List Inclusion :=
  (existing ++ additions).foldl (upsertBy merge) []

/-- `mergeScopes`; `fuel` bounds the depth of the includes. -/
def mergeScopesWithin : Nat → Scope → Scope → Scope
  | 0, target, _ => target
  | fuel + 1, target, incoming =>
    let options := target.options.merge incoming.options
    if incoming.includes.isEmpty then .mk options target.includes
    else
      ensureFieldsIncludeRelations (.mk options
        (mergeInclusionListBy (mergeScopesWithin fuel) target.includes incoming.includes))

mutual

/-- How deep the includes are nested. -/
def Scope.depth : Scope → Nat
  | .mk _ includes => includesDepth includes

def includesDepth : List (Text × Scope) → Nat
  | [] => 0
  | (_, scope) :: rest => max (scope.depth + 1) (includesDepth rest)

end

def mergeScopes (target incoming : Scope) : Scope :=
  mergeScopesWithin (max target.depth incoming.depth + 1) target incoming

def upsert : List Inclusion → Inclusion → List Inclusion := upsertBy mergeScopes

def mergeInclusionList : List Inclusion → List Inclusion → List Inclusion :=
  mergeInclusionListBy mergeScopes

end Expand

end LoopbackOData
