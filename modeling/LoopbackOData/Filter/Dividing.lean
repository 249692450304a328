import LoopbackOData.Filter.Selecting

/-!
# What the parts of a filter mean

The parts that `count` and `find` divide a filter into mean together what the filter means, and they
inherit the properties of the filter that its evaluation relies on.
-/

namespace LoopbackOData

namespace InMemory

open Aggregation Injecting Outcome ThreeValued

open Apply (TokenRuntime)

set_option autoImplicit false

/-! ## Properties that the parts inherit -/

theorem hereditary_navigates : Hereditary Navigates where
  logical type expressions := by rw [Navigates, navigatesAll_iff]
  not expr := by rw [Navigates]
  dual type type' path aliasName predicate h := by rwa [Navigates, Navigates] at *

theorem hereditary_usesModel (isRelation : Text → Bool) :
    Hereditary (UsesModel isRelation false) where
  logical type expressions := by rw [UsesModel, allUseModel_iff]
  not expr := by rw [UsesModel]
  dual type type' path aliasName predicate h := by
    rw [UsesModel] at h ⊢
    rwa [UsesModel]

theorem hereditary_rangesOverObjects (rt : TokenRuntime) (root : Cell) :
    Hereditary (RangesOverObjects rt root []) where
  logical type expressions := by rw [RangesOverObjects, rangeOverObjects_iff]
  not expr := by rw [RangesOverObjects]
  dual type type' path aliasName predicate h := by
    rw [RangesOverObjects] at h ⊢
    intro item hitem
    rw [RangesOverObjects]
    exact h item hitem

section Coercion

variable (coerceLiteral : Text → Scalar → Except HttpError Scalar)

/-- The literals are what the properties are compared with already. -/
def KeepsLiterals (expr : ParsedExpression) : Prop := coerceExpression coerceLiteral expr = .ok expr

theorem coerceExpressions_eq_ok (expressions : List ParsedExpression) :
    coerceExpressions coerceLiteral expressions = .ok expressions ↔
      ∀ expr ∈ expressions, KeepsLiterals coerceLiteral expr := by
  induction expressions with
  | nil => simp [coerceExpressions]
  | cons expr rest ih =>
    rw [coerceExpressions, bind_eq_ok, List.forall_mem_cons, ← ih]
    constructor
    · rintro ⟨first, hfirst, h⟩
      obtain ⟨others, hothers, h⟩ := bind_eq_ok.mp h
      obtain ⟨rfl, rfl⟩ := List.cons.inj (Except.ok.inj h)
      exact ⟨hfirst, hothers⟩
    · rintro ⟨hfirst, hrest⟩
      exact ⟨expr, hfirst, bind_eq_ok.mpr ⟨rest, hrest, rfl⟩⟩

theorem hereditary_keepsLiterals : Hereditary (KeepsLiterals coerceLiteral) where
  logical type expressions := by
    rw [← coerceExpressions_eq_ok, KeepsLiterals, coerceExpression, bind_eq_ok]
    constructor
    · rintro ⟨others, hothers, h⟩
      obtain ⟨-, rfl⟩ := ParsedExpression.logical.inj (Except.ok.inj h)
      exact hothers
    · exact fun h => ⟨expressions, h, rfl⟩
  not expr := by
    rw [KeepsLiterals, coerceExpression, bind_eq_ok]
    constructor
    · rintro ⟨inner, hinner, h⟩
      obtain rfl := ParsedExpression.not.inj (Except.ok.inj h)
      exact hinner
    · exact fun h => ⟨expr, h, rfl⟩
  dual type type' path aliasName predicate h := by
    rw [KeepsLiterals, coerceExpression, bind_eq_ok] at h
    obtain ⟨inner, hinner, h⟩ := h
    obtain ⟨-, -, -, rfl⟩ := ParsedExpression.lambda.inj (Except.ok.inj h)
    rw [KeepsLiterals, coerceExpression, coerceExpression, hinner]
    rfl

theorem coerceFilterExpressionLiterals_eq {part : Option ParsedExpression}
    (h : ∀ expr ∈ part, KeepsLiterals coerceLiteral expr) :
    coerceFilterExpressionLiterals coerceLiteral part = .ok part := by
  cases part with
  | none => rfl
  | some expr =>
    rw [coerceFilterExpressionLiterals, h expr rfl]
    rfl

end Coercion

theorem hereditary_validateLambdas (maxDepth : Nat) (lambdaPaths : List Text) :
    Hereditary fun expr => validateLambdas maxDepth lambdaPaths expr [] 0 = .ok () where
  logical type expressions := by
    rw [validateLambdas, if_neg (by simp)]
    constructor
    · exact validateAllLambdas_eq_ok
    · intro h
      induction expressions with
      | nil => rw [validateAllLambdas]
      | cons expr rest ih =>
        obtain ⟨hfirst, hrest⟩ := List.forall_mem_cons.mp h
        rw [validateAllLambdas, hfirst]
        exact ih hrest
  not expr := by rw [validateLambdas]
  dual type type' path aliasName predicate h := by
    rw [validateLambdas] at h ⊢
    rwa [validateLambdas]

/-- A filter without lambdas needs no validation. -/
theorem validateLambdas_of_containsLambda {maxDepth : Nat} {lambdaPaths : List Text} {depth : Nat}
    {expr : ParsedExpression} (h : containsLambda expr = false) :
    validateLambdas maxDepth lambdaPaths expr [] depth = .ok () := by
  induction expr with
  | leaf leaf =>
    rw [validateLambdas]
    generalize leaf.fields = fields
    induction fields with
    | nil => rfl
    | cons field rest ih =>
      rw [List.forM_eq_forM, List.forM_cons]
      exact ih
  | logical type expressions ih =>
    rw [containsLambda] at h
    rw [validateLambdas, if_neg (by simp)]
    induction expressions with
    | nil => rw [validateAllLambdas]
    | cons expr rest ihrest =>
      rw [anyContainsLambda, Bool.or_eq_false_iff] at h
      rw [validateAllLambdas, ih expr List.mem_cons_self h.1]
      exact ihrest (fun e he => ih e (List.mem_cons_of_mem _ he)) h.2
  | not expr ih =>
    rw [containsLambda] at h
    rw [validateLambdas]
    exact ih h
  | lambda => cases h

theorem validateLambdas_of_decomposeFilter {options : ParseOptions} {expr : ParsedExpression}
    {filter : ParsedODataQuery} (h : decomposeFilter options expr = .ok filter) :
    ∃ lambdaPaths, validateLambdas options.lambdaDepth lambdaPaths (rewriteNegatedLambdas expr) [] 0 =
      .ok () := by
  unfold decomposeFilter at h
  obtain ⟨_, hvalid, -⟩ := bind_eq_ok.mp h
  unfold validateLambdaExpressionTree at hvalid
  split at hvalid
  · exact ⟨_, hvalid⟩
  next hnone => exact ⟨[], validateLambdas_of_containsLambda (by simpa using hnone)⟩

/-! ## A filter without lambdas -/

theorem hereditary_lambdaFree : Hereditary fun expr => containsLambda expr = false where
  logical type expressions := by
    rw [containsLambda]
    constructor
    · exact fun h expr hexpr => containsLambda_of_mem h hexpr
    · exact anyContainsLambda_eq_false
  not expr := by rw [containsLambda]
  dual type type' path aliasName predicate h := by cases h

theorem supplied_of_containsLambda {reachable : List Text → Prop} {expr : ParsedExpression}
    (h : containsLambda expr = false) : Supplied reachable [] expr := by
  induction expr with
  | leaf leaf =>
    rw [Supplied]
    exact fun hne => absurd rfl hne
  | logical type expressions ih =>
    rw [containsLambda] at h
    rw [Supplied, allSupplied_iff]
    exact fun expr hexpr => ih expr hexpr (containsLambda_of_mem h hexpr)
  | not expr ih =>
    rw [containsLambda] at h
    rw [Supplied]
    exact ih h
  | lambda => cases h

/-- The whole filter is kept, and nothing else, where its lambdas cannot be taken out of it. -/
theorem lambdaExpression_of_splitTerms {expr e : ParsedExpression} {terms : List ParsedExpression}
    {lambdas : List LambdaExpression} {others : List ParsedExpression} {split : SplitFilter}
    (h : splitTerms expr terms lambdas others = .ok split) (he : split.lambdaExpression = some e) :
    e = expr ∧ split.lambdas = [] := by
  induction terms generalizing lambdas others with
  | nil =>
    obtain rfl := Except.ok.inj h
    cases he
  | cons term terms ih =>
    cases term with
    | lambda type path aliasName predicate => exact ih h
    | leaf leaf => exact ih h
    | not inner =>
      rw [splitTerms] at h
      split at h
      · cases h
      · exact ih h
    | logical type expressions =>
      rw [splitTerms] at h
      · split at h
        · obtain rfl := Except.ok.inj h
          exact ⟨(Option.some.inj he).symm, rfl⟩
        · exact ih h
      · simp
      · simp

theorem lambdaExpression_of_decomposeFilter {options : ParseOptions} {expr e : ParsedExpression}
    {filter : ParsedODataQuery} (h : decomposeFilter options expr = .ok filter)
    (he : filter.lambdaExpression = some e) :
    e = rewriteNegatedLambdas expr ∧ filter.lambdas = [] := by
  unfold decomposeFilter at h
  obtain ⟨_, -, h⟩ := bind_eq_ok.mp h
  obtain ⟨split, hsplit, h⟩ := bind_eq_ok.mp h
  have hfilter : filter.lambdas = split.lambdas ∧
      filter.lambdaExpression = split.lambdaExpression := by
    dsimp only at h
    split at h
    · unfold translatePredicate at h
      split at h
      · obtain rfl := Except.ok.inj h
        exact ⟨rfl, rfl⟩
      · obtain rfl := Except.ok.inj h
        exact ⟨rfl, rfl⟩
      · cases h
    · obtain rfl := Except.ok.inj h
      exact ⟨rfl, rfl⟩
  have hkept : split.lambdaExpression = some e := hfilter.2.symm.trans he
  rw [hfilter.1]
  unfold splitLambdaExpressions at hsplit
  split at hsplit
  · obtain rfl := Except.ok.inj hsplit
    cases hkept
  · split at hsplit
    · obtain rfl := Except.ok.inj hsplit
      exact ⟨(Option.some.inj hkept).symm, rfl⟩
    · obtain rfl := Except.ok.inj hsplit
      cases hkept
  · exact lambdaExpression_of_splitTerms hsplit hkept
  · split at hsplit
    · cases hsplit
    · obtain rfl := Except.ok.inj hsplit
      cases hkept
  · obtain rfl := Except.ok.inj hsplit
    cases hkept

/-- What is evaluated afterwards is the where expression. -/
theorem whereExpression_of_postFilter {options : ParseOptions} {expr e : ParsedExpression}
    {filter : ParsedODataQuery} (h : decomposeFilter options expr = .ok filter)
    (he : filter.postFilter = some e) : filter.whereExpression = some e := by
  unfold decomposeFilter at h
  obtain ⟨_, -, h⟩ := bind_eq_ok.mp h
  obtain ⟨split, -, h⟩ := bind_eq_ok.mp h
  dsimp only at h
  split at h
  · unfold translatePredicate at h
    split at h
    · obtain rfl := Except.ok.inj h
      cases he
    · obtain rfl := Except.ok.inj h
      exact he
    · cases h
  · obtain rfl := Except.ok.inj h
    cases he

/-! ## Meaning of the parts -/

section Meaning

variable {rt : TokenRuntime} {row : Cell}

/-- A part that is missing holds. -/
def HoldsPart (rt : TokenRuntime) (row : Cell) (part : Option ParsedExpression) : Prop :=
  ∀ expr ∈ part, (entityGraph rt).Holds row [] expr

theorem holdsPart_combinePostFilterExpressions (left right : Option ParsedExpression) :
    HoldsPart rt row (combinePostFilterExpressions left right) ↔
      HoldsPart rt row left ∧ HoldsPart rt row right := by
  cases left <;> cases right <;> simp [HoldsPart, combinePostFilterExpressions]

theorem inherit_combinePostFilterExpressions {P : ParsedExpression → Prop} (hP : Hereditary P)
    {left right : Option ParsedExpression} (hleft : ∀ expr ∈ left, P expr)
    (hright : ∀ expr ∈ right, P expr) :
    ∀ expr ∈ combinePostFilterExpressions left right, P expr := by
  cases left with
  | none => exact hright
  | some first =>
    cases right with
    | none => exact hleft
    | some second =>
      intro expr hexpr
      obtain rfl := Option.some.inj hexpr
      rw [hP.logical, List.forall_mem_cons, List.forall_mem_singleton]
      exact ⟨hleft first rfl, hright second rfl⟩

open Classical in
/-- The meaning of an expression as a truth value, which is never unknown. -/
noncomputable def meaningOf (rt : TokenRuntime) (row : Cell) (expr : ParsedExpression) : Truth :=
  .ofBool (decide ((entityGraph rt).Holds row [] expr))

theorem meaningOf_eq_true {expr : ParsedExpression} :
    meaningOf rt row expr = .true ↔ (entityGraph rt).Holds row [] expr := by
  simp [meaningOf]

theorem meaningOf_eq_false {expr : ParsedExpression} :
    meaningOf rt row expr = .false ↔ ¬ (entityGraph rt).Holds row [] expr := by
  simp [meaningOf]

theorem eq_meaningOf {t : Truth} {expr : ParsedExpression}
    (htrue : (entityGraph rt).Holds row [] expr → t = .true)
    (hfalse : ¬ (entityGraph rt).Holds row [] expr → t = .false) : t = meaningOf rt row expr := by
  by_cases h : (entityGraph rt).Holds row [] expr
  · rw [htrue h, meaningOf_eq_true.mpr h]
  · rw [hfalse h, meaningOf_eq_false.mpr h]

theorem evaluate_meaningOf (expr : ParsedExpression) :
    evaluate (meaningOf rt row) expr = meaningOf rt row expr := by
  induction expr with
  | leaf leaf => rw [evaluate]
  | logical type expressions ih =>
    have hmembers : evaluateAll (meaningOf rt row) expressions =
        expressions.map (meaningOf rt row) := by
      rw [evaluateAll_eq]
      exact List.map_congr_left ih
    cases type with
    | and =>
      rw [evaluate, hmembers]
      apply eq_meaningOf
      · rw [EntityGraph.holds_and, Truth.all_eq_true, List.forall_mem_map]
        exact fun h expr hexpr => meaningOf_eq_true.mpr (h expr hexpr)
      · rw [EntityGraph.holds_and, Truth.all_eq_false, List.mem_map]
        intro h
        push Not at h
        obtain ⟨expr, hexpr, h⟩ := h
        exact ⟨expr, hexpr, meaningOf_eq_false.mpr h⟩
    | or =>
      rw [evaluate, hmembers]
      apply eq_meaningOf
      · rw [EntityGraph.holds_or, Truth.any_eq_true, List.mem_map]
        rintro ⟨expr, hexpr, h⟩
        exact ⟨expr, hexpr, meaningOf_eq_true.mpr h⟩
      · rw [EntityGraph.holds_or, Truth.any_eq_false, List.forall_mem_map]
        intro h expr hexpr
        exact meaningOf_eq_false.mpr fun hholds => h ⟨expr, hexpr, hholds⟩
  | not expr ih =>
    rw [evaluate, ih]
    apply eq_meaningOf
    · rw [EntityGraph.holds_not, Truth.not_eq_true]
      exact meaningOf_eq_false.mpr
    · rw [EntityGraph.holds_not, not_not, Truth.not_eq_false]
      exact meaningOf_eq_true.mpr
  | lambda type path aliasName predicate => rw [evaluate]

/-- Both parts of a split where expression together mean the whole. -/
theorem holds_splitWhereExpression {models : NavigationModels} {maxDepth entityCtor : Nat}
    {whereExpression : Option ParsedExpression}
    (h : ∀ expr ∈ whereExpression, WhereExpression expr) :
    HoldsPart rt row whereExpression ↔
      HoldsPart rt row (splitWhereExpression models maxDepth entityCtor whereExpression).repoExpr ∧
        HoldsPart rt row
          (splitWhereExpression models maxDepth entityCtor whereExpression).structuredExpr := by
  cases whereExpression with
  | none => simp [HoldsPart, splitWhereExpression]
  | some expr =>
    have hsplit := (splitWhereExpression_splits models maxDepth entityCtor expr (h expr rfl)).1
      (meaningOf rt row)
    simpa [HoldsPart, evaluate_meaningOf, meaningOf_eq_true] using hsplit

end Meaning

/-! ## The divided filter -/

section Dividing

variable {settings : ReadSettings} {rt : TokenRuntime} {repository : EntityRepository}
  {filter : ParsedODataQuery} {parts : FilterParts}

/-- The row is found by a `where` clause. -/
def EntityRepository.Finds (repository : EntityRepository) (whereClause : Option Where)
    (row : Cell) : Prop :=
  ∀ clause ∈ whereClause, repository.selects clause row = true

theorem mem_found {whereClause : Option Where} {row : Cell} :
    row ∈ repository.found whereClause ↔
      row ∈ repository.rows ∧ repository.Finds whereClause row := by
  rw [EntityRepository.found, List.mem_filter, Option.all_eq_true]
  rfl

/-- The parts mean the where expression and the post-filter, and inherit what these have. -/
structure Divides (rt : TokenRuntime) (repository : EntityRepository) (filter : ParsedODataQuery)
    (parts : FilterParts) : Prop where
  lambdas : parts.lambdas = filter.lambdas
  lambdaExpression : parts.lambdaExpression = filter.lambdaExpression
  inherit : ∀ P, Hereditary P → (∀ expr ∈ filter.postFilter, P expr) →
    (∀ expr ∈ filter.whereExpression, P expr) →
    (∀ expr ∈ parts.postFilter, P expr) ∧ ∀ expr ∈ parts.navigationFilter, P expr
  means : ∀ row ∈ repository.rows,
    (repository.Finds parts.whereClause row ∧ HoldsPart rt row parts.postFilter ∧
      HoldsPart rt row parts.navigationFilter) ↔
    HoldsPart rt row filter.postFilter ∧ HoldsPart rt row filter.whereExpression

/-- The repository finds the rows for which its part of a where expression holds. -/
def FindsMeant (settings : ReadSettings) (rt : TokenRuntime) (repository : EntityRepository)
    (whereExpression : Option ParsedExpression) : Prop :=
  ∀ part ∈ (splitWhereExpression settings.models settings.maxExpandDepth settings.entityCtor
      whereExpression).repoExpr,
    ∀ clause, buildWhereFromParsedExpression part settings.options = .ok clause →
      ∀ row ∈ repository.rows,
        repository.selects clause row = true ↔ (entityGraph rt).Holds row [] part

theorem divides_divideWhere {postFilter whereExpression : Option ParsedExpression}
    (hfinds : FindsMeant settings rt repository whereExpression)
    (hwhere : ∀ expr ∈ whereExpression, WhereExpression expr)
    (h : divideWhere settings filter postFilter whereExpression = .ok parts) :
    Divides rt repository { filter with postFilter, whereExpression } parts := by
  unfold FindsMeant at hfinds
  unfold divideWhere at h
  dsimp only at h
  generalize hsplit : splitWhereExpression settings.models settings.maxExpandDepth
    settings.entityCtor whereExpression = split at h hfinds
  -- the part for memory, wherever it goes
  generalize hnavigationFilter : (if split.structuredExpr.any
    (containsNavigationPushdownFilter settings) = true then split.structuredExpr else none) =
      navigationFilter at h
  generalize hpostFilter : (if split.structuredExpr.any
    (containsNavigationPushdownFilter settings) = true then postFilter
      else combinePostFilterExpressions postFilter split.structuredExpr) = postFilter' at h
  have hmemory (row : Cell) : HoldsPart rt row postFilter' ∧ HoldsPart rt row navigationFilter ↔
      HoldsPart rt row postFilter ∧ HoldsPart rt row split.structuredExpr := by
    rw [← hpostFilter, ← hnavigationFilter]
    split
    · exact Iff.rfl
    · rw [holdsPart_combinePostFilterExpressions]
      simp [HoldsPart]
  have hwhole (row : Cell) : HoldsPart rt row whereExpression ↔
      HoldsPart rt row split.repoExpr ∧ HoldsPart rt row split.structuredExpr := by
    rw [← hsplit]
    exact holds_splitWhereExpression hwhere
  have hparts (P : ParsedExpression → Prop) (hP : Hereditary P)
      (hpost : ∀ expr ∈ postFilter, P expr) (hexpr : ∀ expr ∈ whereExpression, P expr) :
      (∀ expr ∈ split.repoExpr, P expr) ∧ (∀ expr ∈ postFilter', P expr) ∧
        ∀ expr ∈ navigationFilter, P expr := by
    have hboth : (∀ expr ∈ split.repoExpr, P expr) ∧ ∀ expr ∈ split.structuredExpr, P expr := by
      rw [← hsplit]
      cases whereExpression with
      | none => simp [splitWhereExpression]
      | some expr => exact hP.splitParsedExpression (hexpr expr rfl)
    refine ⟨hboth.1, ?_⟩
    rw [← hpostFilter, ← hnavigationFilter]
    split
    · exact ⟨hpost, hboth.2⟩
    · exact ⟨inherit_combinePostFilterExpressions hP hpost hboth.2, by simp⟩
  split at h
  next hrepo =>
    obtain rfl := Except.ok.inj h
    refine ⟨rfl, rfl, fun P hP hpost hexpr => (hparts P hP hpost hexpr).2, fun row _ => ?_⟩
    dsimp only
    rw [hwhole, hrepo, hmemory]
    simp [HoldsPart, EntityRepository.Finds]
  next repoExpr hrepo =>
    split at h
    next clause hbuild =>
      obtain rfl := Except.ok.inj h
      refine ⟨rfl, rfl, fun P hP hpost hexpr => (hparts P hP hpost hexpr).2, fun row hrow => ?_⟩
      dsimp only
      have hselects : repository.Finds (some clause) row ↔ HoldsPart rt row (some repoExpr) := by
        simpa [EntityRepository.Finds, HoldsPart] using hfinds repoExpr hrepo clause hbuild row hrow
      rw [hwhole, hrepo, hmemory, hselects]
      tauto
    next =>
      obtain rfl := Except.ok.inj h
      refine ⟨rfl, rfl, fun P hP hpost hexpr => ?_, fun row _ => ?_⟩
      · obtain ⟨hrepoExpr, hpost', hnavigation⟩ := hparts P hP hpost hexpr
        rw [hrepo] at hrepoExpr
        exact ⟨inherit_combinePostFilterExpressions hP hpost' hrepoExpr, hnavigation⟩
      · dsimp only
        have hboth := hmemory row
        rw [hwhole, hrepo, holdsPart_combinePostFilterExpressions]
        simp only [EntityRepository.Finds, Option.mem_def, reduceCtorEq, false_implies,
          implies_true, true_and]
        tauto
    next => cases h

/-- The parts that `find` reads. -/
theorem divides_findParts (hfinds : FindsMeant settings rt repository filter.whereExpression)
    (hwhere : ∀ expr ∈ filter.whereExpression, WhereExpression expr)
    (hpost : ∀ expr ∈ filter.postFilter, KeepsLiterals settings.coerceLiteral expr)
    (hliterals : ∀ expr ∈ filter.whereExpression, KeepsLiterals settings.coerceLiteral expr)
    (h : findParts settings filter = .ok parts) : Divides rt repository filter parts := by
  rw [findParts, coerceFilterExpressionLiterals_eq _ hpost,
    coerceFilterExpressionLiterals_eq _ hliterals] at h
  exact divides_divideWhere hfinds hwhere h

/-- The parts that `count` reads. -/
theorem divides_countParts (hfinds : FindsMeant settings rt repository filter.whereExpression)
    (hwhere : ∀ expr ∈ filter.whereExpression, WhereExpression expr)
    (hpost : ∀ expr ∈ filter.postFilter, KeepsLiterals settings.coerceLiteral expr)
    (hliterals : ∀ expr ∈ filter.whereExpression, KeepsLiterals settings.coerceLiteral expr)
    (h : countParts settings filter = .ok parts) : Divides rt repository filter parts := by
  rw [countParts, coerceFilterExpressionLiterals_eq _ hliterals] at h
  obtain ⟨whereExpression, hwhereExpression, h⟩ := bind_eq_ok.mp h
  obtain rfl := Except.ok.inj hwhereExpression
  obtain ⟨divided, hdivided, h⟩ := bind_eq_ok.mp h
  rw [coerceFilterExpressionLiterals_eq _ hpost] at h
  obtain rfl := Except.ok.inj h
  obtain ⟨hlambdas, hexpression, hinherit, hmeans⟩ := divides_divideWhere hfinds hwhere hdivided
  refine ⟨hlambdas, hexpression, fun P hP hpostFilter hwhereExpression => ?_, fun row hrow => ?_⟩
  · obtain ⟨hdividedPost, hnavigation⟩ := hinherit P hP (by simp) hwhereExpression
    exact ⟨inherit_combinePostFilterExpressions hP hdividedPost hpostFilter, hnavigation⟩
  · have hdividedMeans := hmeans row hrow
    dsimp only at hdividedMeans ⊢
    rw [holdsPart_combinePostFilterExpressions]
    simp only [HoldsPart, Option.mem_def, reduceCtorEq, false_implies, implies_true, true_and]
      at hdividedMeans ⊢
    tauto

/-- A filter over navigation properties joins the post-filter. -/
theorem divides_withoutPushdown (hdivides : Divides rt repository filter parts)
    {entries entries' : List NormalizedInclusion} {parts' : FilterParts}
    (h : withoutPushdown settings parts entries = .ok (parts', entries')) :
    Divides rt repository filter parts' ∧ parts'.navigationFilter = none ∧
      (parts.hasLambdas = true → entries' = entries) := by
  unfold withoutPushdown at h
  split at h
  next hnone =>
    obtain ⟨rfl, rfl⟩ := Prod.mk.inj (Except.ok.inj h)
    exact ⟨hdivides, hnone, fun _ => rfl⟩
  next navigationFilter hnavigation =>
    split at h
    · cases h
    next hlambdas =>
      obtain ⟨rfl, -⟩ := Prod.mk.inj (Except.ok.inj h)
      refine ⟨⟨hdivides.lambdas, hdivides.lambdaExpression, fun P hP hpost hexpr => ?_,
        fun row hrow => ?_⟩, rfl, fun htrue => absurd htrue hlambdas⟩
      · obtain ⟨hpostFilter, hnavigationFilter⟩ := hdivides.inherit P hP hpost hexpr
        rw [hnavigation] at hnavigationFilter
        exact ⟨inherit_combinePostFilterExpressions hP hpostFilter hnavigationFilter, by simp⟩
      · rw [← hdivides.means row hrow, hnavigation]
        dsimp only
        rw [holdsPart_combinePostFilterExpressions]
        simp [HoldsPart]

end Dividing

end InMemory

end LoopbackOData
