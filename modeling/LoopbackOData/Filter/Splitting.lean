import LoopbackOData.Filter.FieldPaths
import LoopbackOData.Filter.Populated
import LoopbackOData.Library.ThreeValued

/-!
# The repository's part of a filter

`splitWhereExpression`: a filter whose fields are partly paths is split into an expression for the
repository and one that is evaluated in memory. A conjunction is split anywhere, a disjunction or
negation goes to one side as a whole.
-/

namespace LoopbackOData

set_option autoImplicit false

open ThreeValued

/-! ## Splitting -/

structure SplitExpression where
  repoExpr : Option ParsedExpression := none
  structuredExpr : Option ParsedExpression := none

def combineParsedExpressions (type : LogicalType) :
    List ParsedExpression → Option ParsedExpression
  | [] => none
  | [expr] => some expr
  | expressions => some (.logical type expressions)

def splitLeaf (structured : Text → Bool) (leaf : Leaf) : SplitExpression :=
  match leaf with
  | .function _ _ _ _ (some _) _ => { structuredExpr := some (.leaf leaf) }
  | _ =>
    if leaf.fields.any structured then { structuredExpr := some (.leaf leaf) }
    else { repoExpr := some (.leaf leaf) }

mutual

def splitParsedExpression (structured : Text → Bool) : ParsedExpression → SplitExpression
  | .leaf leaf => splitLeaf structured leaf
  | .logical .and expressions =>
    let splits := splitParsedExpressions structured expressions
    { repoExpr := combineParsedExpressions .and (splits.filterMap (·.repoExpr))
      structuredExpr := combineParsedExpressions .and (splits.filterMap (·.structuredExpr)) }
  | .logical .or expressions =>
    let childSplits := splitParsedExpressions structured expressions
    if childSplits.all fun split => split.structuredExpr.isNone && split.repoExpr.isSome then
      { repoExpr := combineParsedExpressions .or (childSplits.filterMap (·.repoExpr)) }
    else { structuredExpr := some (.logical .or expressions) }
  | .not expr =>
    match splitParsedExpression structured expr with
    | { repoExpr := some child, structuredExpr := none } => { repoExpr := some (.not child) }
    | _ => { structuredExpr := some (.not expr) }
  | .lambda lambdaType path aliasName predicate =>
    { repoExpr := some (.lambda lambdaType path aliasName predicate) }

def splitParsedExpressions (structured : Text → Bool) :
    List ParsedExpression → List SplitExpression
  | [] => []
  | expr :: rest =>
    splitParsedExpression structured expr :: splitParsedExpressions structured rest

end

def splitWhereExpression (models : NavigationModels) (maxDepth entityCtor : Nat) :
    Option ParsedExpression → SplitExpression
  | none => {}
  | some expr => splitParsedExpression (isStructuredFieldPath models maxDepth entityCtor) expr

/-! ## Meaning -/

mutual

/-- The truth of an expression for a row, given by the truth of its leaves and lambdas there. -/
def evaluate (row : ParsedExpression → Truth) : ParsedExpression → Truth
  | .leaf leaf => row (.leaf leaf)
  | .logical .and expressions => .all (evaluateAll row expressions)
  | .logical .or expressions => .any (evaluateAll row expressions)
  | .not expr => (evaluate row expr).not
  | .lambda lambdaType path aliasName predicate => row (.lambda lambdaType path aliasName predicate)

def evaluateAll (row : ParsedExpression → Truth) : List ParsedExpression → List Truth
  | [] => []
  | expr :: rest => evaluate row expr :: evaluateAll row rest

end

/-- A part that is missing counts as true. -/
def evaluatePart (row : ParsedExpression → Truth) : Option ParsedExpression → Truth
  | none => .true
  | some expr => evaluate row expr

mutual

/-- The fields that an expression mentions; a lambda mentions its path. -/
def ParsedExpression.fields : ParsedExpression → List Text
  | .leaf predicate => predicate.fields
  | .logical _ expressions => ParsedExpression.fieldsOfAll expressions
  | .not expr => expr.fields
  | .lambda _ path _ predicate => joinPath path :: predicate.fields

def ParsedExpression.fieldsOfAll : List ParsedExpression → List Text
  | [] => []
  | expr :: rest => expr.fields ++ ParsedExpression.fieldsOfAll rest

end

/-! ## The parts together are the whole -/

section Meaning

variable (row : ParsedExpression → Truth) (structured : Text → Bool)

theorem evaluateAll_eq (expressions : List ParsedExpression) :
    evaluateAll row expressions = expressions.map (evaluate row) := by
  induction expressions with
  | nil => rfl
  | cons expr rest ih => rw [evaluateAll, ih, List.map_cons]

theorem splitParsedExpressions_eq (expressions : List ParsedExpression) :
    splitParsedExpressions structured expressions =
      expressions.map (splitParsedExpression structured) := by
  induction expressions with
  | nil => rfl
  | cons expr rest ih => rw [splitParsedExpressions, ih, List.map_cons]

theorem evaluatePart_combine_and (expressions : List ParsedExpression) :
    evaluatePart row (combineParsedExpressions .and expressions) =
      .all (expressions.map (evaluate row)) := by
  unfold combineParsedExpressions
  split
  · rfl
  · simp [evaluatePart]
  · rw [evaluatePart, evaluate, evaluateAll_eq]

theorem evaluatePart_combine_or {expressions : List ParsedExpression} (hne : expressions ≠ []) :
    evaluatePart row (combineParsedExpressions .or expressions) =
      .any (expressions.map (evaluate row)) := by
  unfold combineParsedExpressions
  split
  · exact absurd rfl hne
  · simp [evaluatePart]
  · rw [evaluatePart, evaluate, evaluateAll_eq]

/-- The truth of a split: both parts at once. -/
def evaluateSplit (split : SplitExpression) : Truth :=
  (evaluatePart row split.repoExpr).and (evaluatePart row split.structuredExpr)

theorem evaluateSplit_splitLeaf (leaf : Leaf) :
    evaluateSplit row (splitLeaf structured leaf) = row (.leaf leaf) := by
  unfold splitLeaf
  split
  · simp [evaluateSplit, evaluatePart, evaluate]
  · split
    · simp [evaluateSplit, evaluatePart, evaluate]
    · simp [evaluateSplit, evaluatePart, evaluate]

/-- The members of a conjunction may be taken apart in any way. -/
theorem all_filterMap_and (splits : List SplitExpression) :
    (Truth.all ((splits.filterMap (·.repoExpr)).map (evaluate row))).and
        (Truth.all ((splits.filterMap (·.structuredExpr)).map (evaluate row))) =
      Truth.all (splits.map (evaluateSplit row)) := by
  have hpart (part : SplitExpression → Option ParsedExpression) (split : SplitExpression)
      (rest : List SplitExpression) :
      Truth.all (((split :: rest).filterMap part).map (evaluate row)) =
        (evaluatePart row (part split)).and
          (Truth.all ((rest.filterMap part).map (evaluate row))) := by
    rw [List.filterMap_cons]
    cases part split with
    | none => rw [evaluatePart, Truth.true_and]
    | some expr => rfl
  induction splits with
  | nil => rfl
  | cons split rest ih =>
    rw [hpart, hpart, List.map_cons, Truth.all_cons, ← ih, evaluateSplit]
    exact Truth.and_and_and_comm ..

/-- Children that are the repository's as a whole. -/
theorem evaluate_of_repo_only {split : SplitExpression} (hstructured : split.structuredExpr = none) :
    evaluateSplit row split = evaluatePart row split.repoExpr := by
  rw [evaluateSplit, hstructured, evaluatePart, Truth.and_true]

theorem evaluateSplit_or {expressions : List ParsedExpression} (hne : expressions ≠ [])
    (ih : ∀ expr ∈ expressions,
      evaluateSplit row (splitParsedExpression structured expr) = evaluate row expr) :
    evaluateSplit row (splitParsedExpression structured (.logical .or expressions)) =
      evaluate row (.logical .or expressions) := by
  rw [splitParsedExpression, splitParsedExpressions_eq]
  split
  next hall =>
    rw [List.all_eq_true, List.forall_mem_map] at hall
    -- every child has a repository part of its own truth, and no other part
    have hchildren : (expressions.map (splitParsedExpression structured)).filterMap (·.repoExpr)
        |>.map (evaluate row) |> (· = expressions.map (evaluate row)) := by
      rw [List.filterMap_map, List.map_filterMap]
      rw [← List.filterMap_eq_map]
      refine List.filterMap_congr fun expr hexpr => ?_
      have hsplit := hall expr hexpr
      rw [Bool.and_eq_true, Option.isNone_iff_eq_none, Option.isSome_iff_exists] at hsplit
      obtain ⟨hstructured, child, hchild⟩ := hsplit
      have heval := ih expr hexpr
      rw [evaluate_of_repo_only row hstructured, hchild, evaluatePart] at heval
      simp [hchild, heval]
    have hne' : (expressions.map (splitParsedExpression structured)).filterMap (·.repoExpr) ≠ [] := by
      intro hnil
      rw [hnil, List.map_nil] at hchildren
      exact hne (List.map_eq_nil_iff.mp hchildren.symm)
    rw [evaluate_of_repo_only row rfl, evaluatePart_combine_or row hne', hchildren, evaluate,
      evaluateAll_eq]
  next => rw [evaluateSplit, evaluatePart, evaluatePart, Truth.true_and]

theorem evaluateSplit_not {expr : ParsedExpression}
    (ih : evaluateSplit row (splitParsedExpression structured expr) = evaluate row expr) :
    evaluateSplit row (splitParsedExpression structured (.not expr)) =
      evaluate row (.not expr) := by
  rw [splitParsedExpression]
  split
  next child hsplit =>
    rw [hsplit, evaluate_of_repo_only row rfl, evaluatePart] at ih
    rw [evaluate_of_repo_only row rfl, evaluatePart, evaluate, evaluate, ih]
  next => rw [evaluateSplit, evaluatePart, evaluatePart, Truth.true_and]

/-- A split has the truth value of the expression, the unknown one included. -/
theorem evaluateSplit_splitParsedExpression {expr : ParsedExpression} (h : Populated expr) :
    evaluateSplit row (splitParsedExpression structured expr) = evaluate row expr := by
  induction h with
  | leaf leaf =>
    rw [splitParsedExpression, evaluateSplit_splitLeaf, evaluate]
  | @logical type expressions hne _ ih =>
    cases type with
    | and =>
      rw [splitParsedExpression, splitParsedExpressions_eq, evaluateSplit,
        evaluatePart_combine_and, evaluatePart_combine_and, all_filterMap_and, evaluate,
        evaluateAll_eq, List.map_map]
      exact congrArg Truth.all (List.map_congr_left ih)
    | or => exact evaluateSplit_or row structured hne ih
  | not _ ih => exact evaluateSplit_not row structured ih
  | lambda _ => rw [splitParsedExpression, evaluate_of_repo_only row rfl, evaluatePart]

end Meaning

/-! ## The fields of the repository's part -/

section Fields

variable {structured : Text → Bool}

theorem mem_fieldsOfAll {field : Text} {expressions : List ParsedExpression} :
    field ∈ ParsedExpression.fieldsOfAll expressions ↔
      ∃ expr ∈ expressions, field ∈ expr.fields := by
  induction expressions with
  | nil => simp [ParsedExpression.fieldsOfAll]
  | cons expr rest ih => simp [ParsedExpression.fieldsOfAll, ih]

theorem mem_fields_combine {field : Text} {type : LogicalType}
    {expressions : List ParsedExpression} {combined : ParsedExpression}
    (hcombined : combineParsedExpressions type expressions = some combined)
    (hfield : field ∈ combined.fields) : ∃ expr ∈ expressions, field ∈ expr.fields := by
  unfold combineParsedExpressions at hcombined
  split at hcombined
  · cases hcombined
  · obtain rfl := Option.some.inj hcombined
    exact ⟨_, List.mem_singleton_self _, hfield⟩
  · obtain rfl := Option.some.inj hcombined
    rw [ParsedExpression.fields] at hfield
    exact mem_fieldsOfAll.mp hfield

theorem containsLambda_of_mem {expressions : List ParsedExpression} {expr : ParsedExpression}
    (h : anyContainsLambda expressions = false) (hexpr : expr ∈ expressions) :
    containsLambda expr = false := by
  induction expressions with
  | nil => cases hexpr
  | cons first rest ih =>
    rw [anyContainsLambda, Bool.or_eq_false_iff] at h
    rcases List.mem_cons.mp hexpr with rfl | hexpr
    · exact h.1
    · exact ih h.2 hexpr

/-- No field of the repository's part is evaluated in memory. -/
theorem not_structured_of_mem_repoExpr {expr repo : ParsedExpression}
    (hlambda : containsLambda expr = false)
    (hrepo : (splitParsedExpression structured expr).repoExpr = some repo) {field : Text}
    (hfield : field ∈ repo.fields) : structured field = false := by
  induction expr generalizing repo with
  | leaf leaf =>
    rw [splitParsedExpression] at hrepo
    unfold splitLeaf at hrepo
    split at hrepo
    · cases hrepo
    · split at hrepo
      · cases hrepo
      next hfields =>
        obtain rfl := Option.some.inj hrepo
        rw [List.any_eq_true, not_exists] at hfields
        rw [ParsedExpression.fields] at hfield
        simpa using fun h => hfields field ⟨hfield, h⟩
  | logical type expressions ih =>
    have hmembers : ∀ child ∈ expressions, containsLambda child = false := fun child hchild =>
      containsLambda_of_mem (by rwa [containsLambda] at hlambda) hchild
    have hparts : ∀ parts : List SplitExpression,
        parts = splitParsedExpressions structured expressions →
        combineParsedExpressions type (parts.filterMap (·.repoExpr)) = some repo →
        structured field = false := by
      rintro _ rfl hcombined
      obtain ⟨part, hpart, hmem⟩ := mem_fields_combine hcombined hfield
      rw [splitParsedExpressions_eq, List.mem_filterMap] at hpart
      obtain ⟨split, hsplit, hpart⟩ := hpart
      obtain ⟨child, hchild, rfl⟩ := List.mem_map.mp hsplit
      exact ih child hchild (hmembers child hchild) hpart hmem
    cases type with
    | and =>
      rw [splitParsedExpression] at hrepo
      exact hparts _ rfl hrepo
    | or =>
      rw [splitParsedExpression] at hrepo
      split at hrepo
      · exact hparts _ rfl hrepo
      · cases hrepo
  | not expr ih =>
    rw [splitParsedExpression] at hrepo
    split at hrepo
    next child hsplit =>
      obtain rfl := Option.some.inj hrepo
      rw [ParsedExpression.fields] at hfield
      exact ih (by rwa [containsLambda] at hlambda) (by rw [hsplit]) hfield
    · cases hrepo
  | lambda => cases hlambda

end Fields

/-! ## Both at once -/

section Splits

variable (models : NavigationModels) (maxDepth entityCtor : Nat) (expr : ParsedExpression)

/-- For every row the filter is true exactly when both parts are. -/
def KeepsFilter : Prop :=
  ∀ row : ParsedExpression → Truth, evaluate row expr = .true ↔
    (∀ part ∈ (splitWhereExpression models maxDepth entityCtor (some expr)).repoExpr,
      evaluate row part = .true) ∧
    ∀ part ∈ (splitWhereExpression models maxDepth entityCtor (some expr)).structuredExpr,
      evaluate row part = .true

/-- All fields of the repository's part satisfy a predicate. -/
def RepositoryFields (evaluable : Text → Prop) : Prop :=
  ∀ part ∈ (splitWhereExpression models maxDepth entityCtor (some expr)).repoExpr,
    ∀ field ∈ part.fields, evaluable field

theorem evaluatePart_eq_true_iff (row : ParsedExpression → Truth)
    (part : Option ParsedExpression) :
    evaluatePart row part = .true ↔ ∀ expr ∈ part, evaluate row expr = .true := by
  cases part with
  | none => simp [evaluatePart]
  | some expr => simp [evaluatePart]

/-- The parts keep the filter, and the repository's part mentions no path that resolves to joins or
to a structured property. A path that does not resolve is left to the repository. -/
theorem splitWhereExpression_splits (h : WhereExpression expr) :
    KeepsFilter models maxDepth entityCtor expr ∧
      RepositoryFields models maxDepth entityCtor expr fun field =>
        ¬ NavigationField models maxDepth entityCtor field ∧
          ¬ StructuredField models entityCtor field := by
  constructor
  · intro row
    rw [← evaluateSplit_splitParsedExpression row (isStructuredFieldPath models maxDepth entityCtor)
      h.1, evaluateSplit, Truth.and_eq_true, evaluatePart_eq_true_iff, evaluatePart_eq_true_iff]
    rfl
  · intro part hpart field hfield
    rw [← not_or, ← isStructuredFieldPath_iff, Bool.not_eq_true]
    exact not_structured_of_mem_repoExpr h.2 hpart hfield

theorem splitWhereExpression_splits_conjunction :
    KeepsFilter (fun _ => none) 5 0 (.logical .and [
        .leaf (.comparison "name".toList .eq (.single (.str "a".toList))),
        .leaf (.lengthcmp "name".toList .gt 1)]) ∧
      RepositoryFields (fun _ => none) 5 0 (.logical .and [
        .leaf (.comparison "name".toList .eq (.single (.str "a".toList))),
        .leaf (.lengthcmp "name".toList .gt 1)]) fun field =>
          ¬ NavigationField (fun _ => none) 5 0 field ∧ ¬ StructuredField (fun _ => none) 0 field :=
  splitWhereExpression_splits (fun _ => none) 5 0 _
    ⟨.logical (List.cons_ne_nil _ _) (by
      simpa using ⟨Populated.leaf _, Populated.leaf _⟩), rfl⟩

/-- A model with a relation over a joining model. -/
def throughModels : NavigationModels := fun _ => some {
  relation := fun name => if name = "tags".toList then
      some { name, through := true, relationType := some .hasMany, targetModel := some 1
             keyFrom := none, targetKey := none }
    else none
  property := fun _ => none
  structured := fun _ => none
  idProperties := ["id".toList]
  flaggedIds := [] }

/-- The path over the relation cannot be joined, and is left to the repository. -/
theorem not_repositoryFields_through :
    ¬ ∀ (models : NavigationModels) (maxDepth entityCtor : Nat) (expr : ParsedExpression),
      WhereExpression expr → KeepsFilter models maxDepth entityCtor expr ∧
        RepositoryFields models maxDepth entityCtor expr fun field => '/' ∉ field := by
  intro h
  let expr : ParsedExpression :=
    .leaf (.comparison "tags/name".toList .eq (.single (.str "a".toList)))
  have hfields := (h throughModels 5 0 expr ⟨.leaf _, rfl⟩).2
  have hsplit : (splitWhereExpression throughModels 5 0 (some expr)).repoExpr = some expr := by
    have hpath : isStructuredFieldPath throughModels 5 0 "tags/name".toList = false := by decide
    simp only [splitWhereExpression, expr, splitParsedExpression, splitLeaf, Leaf.fields,
      List.any_cons, hpath, List.any_nil]
    rfl
  exact hfields expr hsplit "tags/name".toList List.mem_cons_self (by decide)

end Splits

end LoopbackOData
