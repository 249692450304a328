import LoopbackOData.Filter.Meaning
import LoopbackOData.Filter.Parser
import LoopbackOData.Filter.Where

/-!
# Decomposing a filter

The `$filter` part of `parseODataQuery`: negated lambdas are rewritten, the lambdas are checked,
and the filter is split into a part for the repository, a part to evaluate afterwards and lambdas.
-/

namespace LoopbackOData

set_option autoImplicit false

mutual

def containsLambda : ParsedExpression → Bool
  | .leaf _ => false
  | .logical _ expressions => anyContainsLambda expressions
  | .not expr => containsLambda expr
  | .lambda .. => true

def anyContainsLambda : List ParsedExpression → Bool
  | [] => false
  | expr :: rest => containsLambda expr || anyContainsLambda rest

end

/-- `path.join('/')`. -/
def joinPath (path : List Text) : Text := List.intercalate ['/'] path

mutual

def listLambdaPaths : ParsedExpression → List Text
  | .leaf _ => []
  | .logical _ expressions => listAllLambdaPaths expressions
  | .not expr => listLambdaPaths expr
  | .lambda _ path _ predicate => joinPath path :: listLambdaPaths predicate

def listAllLambdaPaths : List ParsedExpression → List Text
  | [] => []
  | expr :: rest => listLambdaPaths expr ++ listAllLambdaPaths rest

end

/-- `normalizeMaxLambdaDepth`. -/
def ParseOptions.lambdaDepth (o : ParseOptions) : Nat := readPositiveLimit o.maxLambdaExistsDepth 2

def aliasPrefixRequired : String := "lambda-alias-prefix-required"

/-- `const [token, ...rest] = String(field).split('/')`. -/
def assertAliasedField (field : Text) (aliasesInScope : List Text) (lambdaPaths : List Text) :
    Except FilterError Unit :=
  if aliasesInScope = [] then .ok ()
  else match field.splitOn '/' with
    | token :: _ :: _ =>
      if token = [] ∨ token ∉ aliasesInScope then .error rejected else .ok ()
    | _ => .error rejected
where
  rejected : FilterError :=
    .lambdaRejected ("Fields inside lambda predicates must be prefixed with the lambda alias " ++
      "(lambda-alias-prefix-required).") aliasPrefixRequired lambdaPaths

/-- The path of a lambda inside another has to start at a range variable. -/
def startsInScope (aliasesInScope : List Text) : List Text → Bool
  | sourceAlias :: _ :: _ => sourceAlias ≠ [] && aliasesInScope.contains sourceAlias
  | _ => false

mutual

/-- `visit` in `validateLambdaExpressionTree`. -/
def validateLambdas (maxDepth : Nat) (lambdaPaths : List Text) :
    ParsedExpression → List Text → Nat → Except FilterError Unit
  | .leaf leaf, aliasesInScope, _ =>
    leaf.fields.forM fun field => assertAliasedField field aliasesInScope lambdaPaths
  | .logical type expressions, aliasesInScope, depth =>
    if aliasesInScope ≠ [] ∧ type = .or ∧ anyContainsLambda expressions then
      .error (.lambdaRejected ("Lambda expressions combined with OR inside lambda predicates are " ++
        "not supported (lambda-or-unsupported).") "lambda-or-unsupported" lambdaPaths)
    else validateAllLambdas maxDepth lambdaPaths expressions aliasesInScope depth
  | .not expr, aliasesInScope, depth =>
    validateLambdas maxDepth lambdaPaths expr aliasesInScope depth
  | .lambda _ path aliasName predicate, aliasesInScope, depth =>
    if depth + 1 > maxDepth then
      .error (.lambdaRejected ("Nested lambda expressions exceed the maximum supported depth of " ++
        toString maxDepth ++ " (nested-lambda-depth-exceeded).") "nested-lambda-depth-exceeded"
        lambdaPaths)
    else if aliasesInScope ≠ [] ∧ !startsInScope aliasesInScope path then
      .error (.lambdaRejected ("Nested lambda paths inside lambda predicates must start with an " ++
        "in-scope lambda alias (lambda-alias-prefix-required).") aliasPrefixRequired lambdaPaths)
    else validateLambdas maxDepth lambdaPaths predicate (aliasesInScope ++ [aliasName]) (depth + 1)

def validateAllLambdas (maxDepth : Nat) (lambdaPaths : List Text) :
    List ParsedExpression → List Text → Nat → Except FilterError Unit
  | [], _, _ => .ok ()
  | expr :: rest, aliasesInScope, depth => do
    validateLambdas maxDepth lambdaPaths expr aliasesInScope depth
    validateAllLambdas maxDepth lambdaPaths rest aliasesInScope depth

end

def validateLambdaExpressionTree (options : ParseOptions) (expr : ParsedExpression) :
    Except FilterError Unit :=
  if containsLambda expr then
    validateLambdas options.lambdaDepth (listLambdaPaths expr) expr [] 0
  else .ok ()

def LambdaType.dual : LambdaType → LambdaType
  | .any => .all
  | .all => .any

theorem sizeOf_map_le {α : Type} (f g : α → ParsedExpression) (h : ∀ a, sizeOf (f a) ≤ sizeOf (g a))
    (as : List α) : sizeOf (as.map f) ≤ sizeOf (as.map g) := by
  induction as with
  | nil => exact le_rfl
  | cons a as ih =>
    have ha := h a
    simp only [List.map_cons, List.cons.sizeOf_spec]
    omega

theorem sizeOf_member_lt {type : LogicalType} {es : List ParsedExpression} {e : ParsedExpression}
    (h : e ∈ es) : sizeOf e < sizeOf (ParsedExpression.logical type es) := by
  have := List.sizeOf_lt_of_mem h
  simp only [ParsedExpression.logical.sizeOf_spec]
  omega

/-- `rewriteNegatedLambdas`. The result is no larger than the expression, so that the second call,
on what stands under a double negation, ends. -/
def rewriteSized (expr : ParsedExpression) : {r : ParsedExpression // sizeOf r ≤ sizeOf expr} :=
  match expr with
  | .leaf leaf => ⟨.leaf leaf, le_rfl⟩
  | .lambda type path aliasName predicate => ⟨.lambda type path aliasName predicate, le_rfl⟩
  | .logical type expressions =>
    ⟨.logical type (expressions.attach.map fun child => (rewriteSized child.1).1), by
      have hsize := sizeOf_map_le _ Subtype.val (fun child => (rewriteSized child.1).2)
        expressions.attach
      rw [List.attach_map_subtype_val] at hsize
      simp only [ParsedExpression.logical.sizeOf_spec]
      omega⟩
  | .not expr =>
    let inner := rewriteSized expr
    match h : inner.1 with
    | .not again =>
      let result := rewriteSized again
      ⟨result.1, by
        have hinner := inner.2
        have hresult := result.2
        simp only [h, ParsedExpression.not.sizeOf_spec] at hinner ⊢
        omega⟩
    | .lambda type path aliasName predicate =>
      ⟨.lambda type.dual path aliasName (.not predicate), by
        have hinner := inner.2
        simp only [h, ParsedExpression.not.sizeOf_spec, ParsedExpression.lambda.sizeOf_spec]
          at hinner ⊢
        cases type <;> simp [LambdaType.dual] at hinner ⊢ <;> omega⟩
    | other => ⟨.not other, by
        have hinner := inner.2
        simp only [h, ParsedExpression.not.sizeOf_spec] at hinner ⊢
        omega⟩
termination_by sizeOf expr
decreasing_by
  · exact sizeOf_member_lt child.2
  · exact sizeOf_member_lt child.2
  · exact sizeOf_member_lt child.2
  · simp only [ParsedExpression.not.sizeOf_spec]
    omega
  · have hinner := inner.2
    simp only [h, ParsedExpression.not.sizeOf_spec] at hinner ⊢
    omega

def rewriteNegatedLambdas (expr : ParsedExpression) : ParsedExpression := (rewriteSized expr).1

@[simp] theorem rewriteNegatedLambdas_leaf (leaf : Leaf) :
    rewriteNegatedLambdas (.leaf leaf) = .leaf leaf := by
  rw [rewriteNegatedLambdas, rewriteSized]

@[simp] theorem rewriteNegatedLambdas_lambda (type : LambdaType) (path : List Text)
    (aliasName : Text) (predicate : ParsedExpression) :
    rewriteNegatedLambdas (.lambda type path aliasName predicate) =
      .lambda type path aliasName predicate := by
  rw [rewriteNegatedLambdas, rewriteSized]

@[simp] theorem rewriteNegatedLambdas_logical (type : LogicalType) (es : List ParsedExpression) :
    rewriteNegatedLambdas (.logical type es) = .logical type (es.map rewriteNegatedLambdas) := by
  rw [rewriteNegatedLambdas, rewriteSized]
  simp [rewriteNegatedLambdas]

theorem rewriteNegatedLambdas_not (expr : ParsedExpression) :
    rewriteNegatedLambdas (.not expr) =
      match rewriteNegatedLambdas expr with
      | .not again => rewriteNegatedLambdas again
      | .lambda type path aliasName predicate =>
        .lambda type.dual path aliasName (.not predicate)
      | other => .not other := by
  rw [rewriteNegatedLambdas, rewriteSized]
  simp only [rewriteNegatedLambdas]
  split <;> simp_all

mutual

def collectAndTerms : ParsedExpression → List ParsedExpression
  | .logical .and expressions => collectAllAndTerms expressions
  | .logical .or expressions => [.logical .or expressions]
  | .leaf leaf => [.leaf leaf]
  | .not expr => [.not expr]
  | .lambda type path aliasName predicate => [.lambda type path aliasName predicate]

def collectAllAndTerms : List ParsedExpression → List ParsedExpression
  | [] => []
  | expr :: rest => collectAndTerms expr ++ collectAllAndTerms rest

end

/-- `LambdaExpression`. -/
structure LambdaExpression where
  type : LambdaType
  path : List Text
  aliasName : Text
  predicate : ParsedExpression
  deriving DecidableEq

/-- What `splitLambdaExpressions` returns; an absent `lambdas` is the empty list. -/
structure SplitFilter where
  lambdas : List LambdaExpression := []
  predicate : Option ParsedExpression := none
  lambdaExpression : Option ParsedExpression := none

def negatedLambdaUnsupported : FilterError :=
  .error ("Negated lambda expressions are only supported as " ++
    "\"not <collection>/any(...)\" or \"not <collection>/all(...)\".")

/-- The terms of a conjunction that are not lambdas, as one predicate. -/
def joinTerms : List ParsedExpression → Option ParsedExpression
  | [] => none
  | [term] => some term
  | terms => some (.logical .and terms)

/-- The loop over the terms of the conjunction `expr`. -/
def splitTerms (expr : ParsedExpression) :
    List ParsedExpression → List LambdaExpression → List ParsedExpression →
      Except FilterError SplitFilter
  | [], lambdas, others => .ok { lambdas, predicate := joinTerms others }
  | .lambda type path aliasName predicate :: terms, lambdas, others =>
    splitTerms expr terms (lambdas ++ [⟨type, path, aliasName, predicate⟩]) others
  | .not inner :: terms, lambdas, others =>
    if containsLambda inner then .error negatedLambdaUnsupported
    else splitTerms expr terms lambdas (others ++ [.not inner])
  | term :: terms, lambdas, others =>
    if containsLambda term then .ok { lambdaExpression := some expr }
    else splitTerms expr terms lambdas (others ++ [term])

def splitLambdaExpressions (expr : ParsedExpression) : Except FilterError SplitFilter :=
  match expr with
  | .lambda type path aliasName predicate =>
    .ok { lambdas := [⟨type, path, aliasName, predicate⟩] }
  | .logical .or _ =>
    if containsLambda expr then .ok { lambdaExpression := some expr }
    else .ok { predicate := some expr }
  | .logical .and _ => splitTerms expr (collectAndTerms expr) [] []
  | .not inner =>
    if containsLambda inner then .error negatedLambdaUnsupported
    else .ok { predicate := some expr }
  | .leaf _ => .ok { predicate := some expr }

/-- The properties of `ParsedODataQuery` that `$filter` sets. -/
structure ParsedODataQuery where
  lambdas : List LambdaExpression := []
  lambdaExpression : Option ParsedExpression := none
  whereExpression : Option ParsedExpression := none
  whereClause : Option Where := none
  postFilter : Option ParsedExpression := none
  unsupportedFunctions : List String := []
  deriving DecidableEq

/-- `filter.where`, or `filter.postFilter` where the predicate has no translation. -/
def translatePredicate (options : ParseOptions) (filter : ParsedODataQuery)
    (predicate : ParsedExpression) : Except FilterError ParsedODataQuery :=
  match buildWhere options predicate with
  | .ok clause =>
    .ok { filter with whereExpression := some predicate, whereClause := some clause }
  | .error (.unsupportedFilter functions) =>
    .ok { filter with
      whereExpression := some predicate
      postFilter := some predicate
      unsupportedFunctions := functions }
  | .error err => .error err

/-- The expression that a `$filter` text stands for, `none` when it has no tokens. -/
def parseFilterText (rt : Runtime) (options : ParseOptions) (text : Text) :
    Except FilterError (Option ParsedExpression) := do
  let tokens ← tokenize text
  if tokens = [] then return none
  return some (← parseFilter rt ⟨options.strict⟩ tokens)

/-- The `$filter` part of `parseODataQuery`, after the parsing of the text. -/
def decomposeFilter (options : ParseOptions) (expr : ParsedExpression) :
    Except FilterError ParsedODataQuery := do
  let rewritten := rewriteNegatedLambdas expr
  validateLambdaExpressionTree options rewritten
  let split ← splitLambdaExpressions rewritten
  let filter : ParsedODataQuery :=
    { lambdas := split.lambdas, lambdaExpression := split.lambdaExpression }
  match split.predicate with
  | some predicate => translatePredicate options filter predicate
  | none => return filter

/-- The `$filter` part of `parseODataQuery`. -/
def parseODataQuery (rt : Runtime) (options : ParseOptions) (filterExpr : Option Text) :
    Except FilterError ParsedODataQuery := do
  match filterExpr with
  | none => return {}
  | some text =>
    match ← parseFilterText rt options text with
    | none => return {}
    | some expr => decomposeFilter options expr

/-! ## The parts mean the whole -/

namespace EntityGraph

variable {E : Type} (g : EntityGraph E)

/-- `rewriteNegatedLambdas` keeps the meaning: the dual quantifier of the negated predicate is the
negated quantifier. -/
theorem holds_rewriteNegatedLambdas (root : E) (bindings : Bindings E) (expr : ParsedExpression) :
    g.Holds root bindings (rewriteNegatedLambdas expr) ↔ g.Holds root bindings expr := by
  induction hsize : sizeOf expr using Nat.strong_induction_on generalizing expr with
  | _ n ih =>
    subst hsize
    cases expr with
    | leaf leaf => rw [rewriteNegatedLambdas_leaf]
    | lambda type path aliasName predicate => rw [rewriteNegatedLambdas_lambda]
    | logical type es =>
      rw [rewriteNegatedLambdas_logical]
      apply holds_logical_congr
      rw [List.forall₂_map_left_iff, List.forall₂_same]
      exact fun e he => ih _ (sizeOf_member_lt he) e rfl
    | not inner =>
      have hinner := ih (sizeOf inner) (by simp) inner rfl
      have hle : sizeOf (rewriteNegatedLambdas inner) ≤ sizeOf inner := (rewriteSized inner).2
      rw [rewriteNegatedLambdas_not, holds_not, ← hinner]
      split
      · next again heq =>
        rw [heq, ParsedExpression.not.sizeOf_spec] at hle
        rw [heq, holds_not, Classical.not_not]
        exact ih (sizeOf again) (by simp; omega) again rfl
      · next type path aliasName predicate heq =>
        rw [heq]
        cases type <;> simp [LambdaType.dual]
      · rw [holds_not]

theorem holds_collectAndTerms (root : E) (bindings : Bindings E) (expr : ParsedExpression) :
    (∀ term ∈ collectAndTerms expr, g.Holds root bindings term) ↔ g.Holds root bindings expr := by
  induction expr with
  | leaf leaf => simp [collectAndTerms]
  | not expr ih => simp [collectAndTerms]
  | lambda type path aliasName predicate ih => simp [collectAndTerms]
  | logical type es ih =>
    cases type with
    | or => simp [collectAndTerms]
    | and =>
      rw [collectAndTerms, holds_and]
      induction es with
      | nil => simp [collectAllAndTerms]
      | cons e es ihes =>
        rw [collectAllAndTerms, List.forall_mem_append, List.forall_mem_cons,
          ih e List.mem_cons_self, ihes fun e he => ih e (List.mem_cons_of_mem _ he)]

/-- `evaluateLambda`, over the graph. -/
def HoldsLambda (root : E) (lambda : LambdaExpression) : Prop :=
  let items := g.follow [root] lambda.path
  match lambda.type with
  | .any => ∃ item ∈ items, g.Holds root [(lambda.aliasName, item)] lambda.predicate
  | .all => ∀ item ∈ items, g.Holds root [(lambda.aliasName, item)] lambda.predicate

theorem holdsLambda_iff (root : E) (type : LambdaType) (path : List Text) (aliasName : Text)
    (predicate : ParsedExpression) :
    g.HoldsLambda root ⟨type, path, aliasName, predicate⟩ ↔
      g.Holds root [] (.lambda type path aliasName predicate) := by
  have hcollection : g.collection root [] path = g.follow [root] path := by
    rw [collection.eq_def]
    split <;> simp
  cases type <;> simp [HoldsLambda, hcollection]

/-- The conjunction of the parts of a decomposed filter. -/
structure HoldsParts (root : E) (filter : ParsedODataQuery) : Prop where
  whereExpression : ∀ e ∈ filter.whereExpression, g.Holds root [] e
  postFilter : ∀ e ∈ filter.postFilter, g.Holds root [] e
  lambdas : ∀ lambda ∈ filter.lambdas, g.HoldsLambda root lambda
  lambdaExpression : ∀ e ∈ filter.lambdaExpression, g.Holds root [] e

/-- The conjunction of the parts of a split. -/
def HoldsSplit (root : E) (split : SplitFilter) : Prop :=
  (∀ lambda ∈ split.lambdas, g.HoldsLambda root lambda) ∧
    (∀ e ∈ split.predicate, g.Holds root [] e) ∧ ∀ e ∈ split.lambdaExpression, g.Holds root [] e

theorem holds_joinTerms (root : E) (terms : List ParsedExpression) :
    (∀ e ∈ joinTerms terms, g.Holds root [] e) ↔ ∀ e ∈ terms, g.Holds root [] e := by
  rcases terms with _ | ⟨term, _ | ⟨term', terms⟩⟩ <;> simp [joinTerms]

/-- The loop keeps the meaning: what is collected so far together with the terms to come means the
conjunction. -/
theorem holdsSplit_splitTerms (root : E) {expr : ParsedExpression} {split : SplitFilter}
    (terms : List ParsedExpression) (lambdas : List LambdaExpression)
    (others : List ParsedExpression)
    (hexpr : g.Holds root [] expr ↔ (∀ lambda ∈ lambdas, g.HoldsLambda root lambda) ∧
      (∀ e ∈ others, g.Holds root [] e) ∧ ∀ e ∈ terms, g.Holds root [] e)
    (h : splitTerms expr terms lambdas others = .ok split) :
    g.HoldsSplit root split ↔ g.Holds root [] expr := by
  induction terms generalizing lambdas others with
  | nil =>
    cases h
    rw [HoldsSplit, hexpr, holds_joinTerms]
    simp
  | cons term terms ih =>
    have hwhole : g.HoldsSplit root { lambdaExpression := some expr } ↔ g.Holds root [] expr := by
      simp [HoldsSplit]
    cases term with
    | lambda type path aliasName predicate =>
      refine ih _ _ ?_ h
      rw [hexpr]
      simp only [List.forall_mem_append, List.forall_mem_cons, holdsLambda_iff]
      tauto
    | not inner =>
      rw [splitTerms] at h
      split at h
      · cases h
      · refine ih _ _ ?_ h
        rw [hexpr]
        simp only [List.forall_mem_append, List.forall_mem_cons]
        tauto
    | leaf leaf =>
      refine ih _ _ ?_ h
      rw [hexpr]
      simp only [List.forall_mem_append, List.forall_mem_cons]
      tauto
    | logical type es =>
      rw [splitTerms] at h
      · split at h
        · cases h
          exact hwhole
        · refine ih _ _ ?_ h
          rw [hexpr]
          simp only [List.forall_mem_append, List.forall_mem_cons]
          tauto
      · simp
      · simp

theorem holdsSplit_splitLambdaExpressions (root : E) {expr : ParsedExpression}
    {split : SplitFilter} (h : splitLambdaExpressions expr = .ok split) :
    g.HoldsSplit root split ↔ g.Holds root [] expr := by
  have hpredicate : g.HoldsSplit root { predicate := some expr } ↔ g.Holds root [] expr := by
    simp [HoldsSplit]
  have hwhole : g.HoldsSplit root { lambdaExpression := some expr } ↔ g.Holds root [] expr := by
    simp [HoldsSplit]
  cases expr with
  | leaf leaf =>
    cases h
    exact hpredicate
  | lambda type path aliasName predicate =>
    cases h
    simp [HoldsSplit, holdsLambda_iff]
  | not inner =>
    simp only [splitLambdaExpressions] at h
    split at h
    · cases h
    · cases h
      exact hpredicate
  | logical type es =>
    cases type with
    | or =>
      simp only [splitLambdaExpressions] at h
      split at h <;> cases h
      · exact hwhole
      · exact hpredicate
    | and =>
      refine g.holdsSplit_splitTerms root _ _ _ ?_ h
      simp [holds_collectAndTerms]

theorem holdsParts_translatePredicate (root : E) {options : ParseOptions}
    {filter filter' : ParsedODataQuery} {predicate : ParsedExpression}
    (hnone : filter.postFilter = none)
    (h : translatePredicate options filter predicate = .ok filter') :
    g.HoldsParts root filter' ↔ g.Holds root [] predicate ∧
      (∀ lambda ∈ filter.lambdas, g.HoldsLambda root lambda) ∧
      ∀ e ∈ filter.lambdaExpression, g.Holds root [] e := by
  rw [translatePredicate] at h
  split at h <;> cases h
  · constructor
    · exact fun parts => ⟨parts.whereExpression _ rfl, parts.lambdas, parts.lambdaExpression⟩
    · exact fun ⟨hp, hl, ht⟩ => ⟨by simpa using hp, by simp [hnone], hl, ht⟩
  · constructor
    · exact fun parts => ⟨parts.whereExpression _ rfl, parts.lambdas, parts.lambdaExpression⟩
    · exact fun ⟨hp, hl, ht⟩ => ⟨by simpa using hp, by simpa using hp, hl, ht⟩

theorem holdsParts_decomposeFilter (root : E) {options : ParseOptions} {expr : ParsedExpression}
    {filter : ParsedODataQuery} (h : decomposeFilter options expr = .ok filter) :
    g.HoldsParts root filter ↔ g.Holds root [] expr := by
  rw [decomposeFilter] at h
  cases hvalid : validateLambdaExpressionTree options (rewriteNegatedLambdas expr) with
  | error err => simp [hvalid, bind, Except.bind] at h
  | ok _ =>
    cases hsplit : splitLambdaExpressions (rewriteNegatedLambdas expr) with
    | error err => simp [hvalid, hsplit, bind, Except.bind] at h
    | ok split =>
      have hmeaning := g.holdsSplit_splitLambdaExpressions root hsplit
      rw [holds_rewriteNegatedLambdas] at hmeaning
      rw [← hmeaning]
      simp only [hvalid, hsplit, bind, Except.bind] at h
      split at h
      · next predicate heq =>
        rw [g.holdsParts_translatePredicate root rfl h, HoldsSplit, heq]
        simp
        tauto
      · next heq =>
        cases h
        constructor
        · exact fun parts => ⟨parts.lambdas, by simp [heq], parts.lambdaExpression⟩
        · exact fun ⟨hl, _, ht⟩ => ⟨by simp, by simp, hl, ht⟩

end EntityGraph

/-- A `where` clause is the translation of the predicate it stands beside. -/
theorem whereClause_of_decomposeFilter {options : ParseOptions} {expr : ParsedExpression}
    {filter : ParsedODataQuery} (h : decomposeFilter options expr = .ok filter) :
    ∀ clause ∈ filter.whereClause,
      ∃ predicate ∈ filter.whereExpression, buildWhere options predicate = .ok clause := by
  intro clause hclause
  rw [decomposeFilter] at h
  cases hvalid : validateLambdaExpressionTree options (rewriteNegatedLambdas expr) with
  | error err => simp [hvalid, bind, Except.bind] at h
  | ok _ =>
    cases hsplit : splitLambdaExpressions (rewriteNegatedLambdas expr) with
    | error err => simp [hvalid, hsplit, bind, Except.bind] at h
    | ok split =>
      simp only [hvalid, hsplit, bind, Except.bind] at h
      split at h
      · next predicate _ =>
        rw [translatePredicate] at h
        split at h <;> cases h
        · next hbuild =>
          cases hclause
          exact ⟨predicate, rfl, hbuild⟩
        · cases hclause
      · cases h
        cases hclause

/-- Every accepted filter is decomposed into parts that together mean the same, over every entity
graph. -/
theorem parseODataQuery_holds_iff (rt : Runtime) (options : ParseOptions) (text : Text)
    {expr : ParsedExpression} {filter : ParsedODataQuery}
    (hexpr : parseFilterText rt options text = .ok (some expr))
    (h : parseODataQuery rt options (some text) = .ok filter) :
    (∀ {E : Type} (g : EntityGraph E) (root : E),
      g.Holds root [] expr ↔ g.HoldsParts root filter) ∧
    ∀ clause ∈ filter.whereClause,
      ∃ predicate ∈ filter.whereExpression, buildWhere options predicate = .ok clause := by
  have hdecompose : decomposeFilter options expr = .ok filter := by
    simpa only [parseODataQuery, hexpr, bind, Except.bind] using h
  exact ⟨fun g root => (g.holdsParts_decomposeFilter root hdecompose).symm,
    whereClause_of_decomposeFilter hdecompose⟩

/-- A filter with a negated lambda; its parts are a `where` clause and the dual lambda. -/
theorem parseODataQuery_holds_iff_negatedLambda :
    let expr : ParsedExpression := .logical .and [
      .not (.lambda .any ["Items".toList] ['i']
        (.leaf (.comparison "i/Tag".toList .eq (.single (.str ['a']))))),
      .leaf (.comparison "Name".toList .eq (.single (.str ['x'])))]
    ∃ filter : ParsedODataQuery, filter.lambdas.length = 1 ∧ filter.whereClause.isSome ∧
      ∀ {E : Type} (g : EntityGraph E) (root : E),
        g.Holds root [] expr ↔ g.HoldsParts root filter :=
  ⟨{ lambdas := [⟨.all, ["Items".toList], ['i'],
        .not (.leaf (.comparison "i/Tag".toList .eq (.single (.str ['a']))))⟩]
     whereExpression := some (.leaf (.comparison "Name".toList .eq (.single (.str ['x']))))
     whereClause := some (.property "Name".toList (.equals (.str ['x']))) },
    rfl, rfl,
    (parseODataQuery_holds_iff .ascii {}
      "not Items/any(i: i/Tag eq 'a') and Name eq 'x'".toList
      (by decide +kernel) (by decide +kernel)).1⟩


end LoopbackOData
