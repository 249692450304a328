import LoopbackOData.Apply.Ordering
import LoopbackOData.Filter.Dividing

/-!
# Counting and reading are what the filter means

The number that `count` answers with, and the entities that `find` reads for a filter with lambdas,
are those of the stored entities, with all their relations, that satisfy the filter as it was
written.
-/

namespace LoopbackOData

namespace InMemory

open Aggregation Injecting Outcome ThreeValued

open Apply (TokenRuntime integerRuntime)

set_option autoImplicit false

/-! ## Evaluating the parts in memory -/

section Evaluating

variable {settings : ReadSettings} {rt : TokenRuntime} {repository : EntityRepository}
  {filter : ParsedODataQuery} {parts : FilterParts} {row : Cell}

/-- The relations of the model. -/
structure ModelsRelations (settings : ReadSettings) : Prop where
  names : NamesRelations settings.isRelation
  many : ∀ name, settings.isToMany name = true → settings.isRelation name = true

/-- What an expression is evaluated on keeps its meaning. -/
def Readable (settings : ReadSettings) (rt : TokenRuntime) (row : Cell) (expr : ParsedExpression) :
    Prop :=
  Navigates expr ∧ UsesModel settings.isRelation false expr ∧ RangesOverObjects rt row [] expr

theorem hereditary_readable : Hereditary (Readable settings rt row) :=
  hereditary_navigates.and ((hereditary_usesModel _).and (hereditary_rangesOverObjects rt row))

/-- The entity as it is read with an include list. -/
abbrev ReadSettings.read (settings : ReadSettings) (entries : List NormalizedInclusion)
    (lambdas : List LambdaExpression) : Cell → Cell :=
  readEntity settings.isRelation settings.isToMany settings.fresh entries lambdas

/-- The paths that the include list leads along. -/
abbrev Included (entries : List NormalizedInclusion) : List Text → Prop :=
  LeadsAlong ((extractIncludePaths entries).map pathTexts)

theorem evaluatePredicate_read (hmodel : ModelsRelations settings) {expr : ParsedExpression}
    (hreadable : Readable settings rt row expr) {entries : List NormalizedInclusion}
    (hsupplied : Supplied (Included entries) [] expr) (lambdas : List LambdaExpression) :
    evaluatePredicate rt (settings.read entries lambdas row) expr
        (.outside (settings.read entries lambdas row)) = true ↔
      (entityGraph rt).Holds row [] expr := by
  obtain ⟨hnavigates, huses, hobjects⟩ := hreadable
  obtain ⟨copy, hcopies, hcopy⟩ :=
    copies_readEntity hmodel.names hmodel.many settings.fresh entries lambdas
  rw [ReadSettings.read, ← hcopy]
  exact evaluatePredicate_copy hcopies hnavigates huses hsupplied hobjects

/-- A lambda at the top is evaluated as the expression that it was. -/
theorem evaluateLambda_eq {entity : Cell} {lambda : LambdaExpression} (hpath : lambda.path ≠ []) :
    evaluateLambda rt entity lambda =
      evaluatePredicate rt entity lambda.toExpression (.outside entity) := by
  rw [LambdaExpression.toExpression, evaluatePredicate, if_neg hpath]
  exact congrArg (fun items => quantify lambda.type items fun item =>
    evaluatePredicate rt entity lambda.predicate
      ((Scope.outside entity).bind lambda.aliasName item)) (lambdaItems_nil entity lambda.path).symm

/-- The entity passes the lambdas and the post-filter. -/
def FilterParts.passes (rt : TokenRuntime) (parts : FilterParts) (entity : Cell) : Bool :=
  (match parts.lambdaExpression with
    | some expr => evaluatePredicate rt entity expr (.outside entity)
    | none => parts.lambdas.all (evaluateLambda rt entity)) &&
  parts.postFilter.all fun expr => evaluatePredicate rt entity expr (.outside entity)

theorem filterByLambdas_eq (rows : List Cell) (entries : List NormalizedInclusion) :
    filterByLambdas settings rt parts (rows.map (fetchEntity settings.isRelation entries)) =
      (rows.filter fun row => parts.passes rt (settings.read entries parts.rootLambdas row)).map
        (settings.read entries parts.rootLambdas) := by
  have hpost (entities : List Cell) : applyPostFilter rt entities parts.postFilter =
      entities.filter fun entity =>
        parts.postFilter.all fun expr => evaluatePredicate rt entity expr (.outside entity) := by
    cases parts.postFilter with
    | none => simp [applyPostFilter]
    | some expr => rfl
  have hread : (normalizeLambdaCollections settings.fresh settings.isToMany parts.rootLambdas) ∘
      fetchEntity settings.isRelation entries = settings.read entries parts.rootLambdas := rfl
  unfold filterByLambdas
  dsimp only
  rw [hpost, List.map_map, hread]
  unfold FilterParts.passes
  cases parts.lambdaExpression with
  | none =>
    dsimp only
    rw [filterEntitiesByLambdas, List.filter_filter, List.filter_map]
    exact congrArg _ (List.filter_congr fun row _ => Bool.and_comm _ _)
  | some expr =>
    dsimp only
    rw [applyPostFilter, List.filter_filter, List.filter_map]
    exact congrArg _ (List.filter_congr fun row _ => Bool.and_comm _ _)

end Evaluating

/-! ## The rows of a filter -/

section Selected

variable {settings : ReadSettings} {rt : TokenRuntime} {repository : EntityRepository}
  {expr : ParsedExpression} {filter : ParsedODataQuery} {parts : FilterParts} {row : Cell}
  {entries entries' : List NormalizedInclusion}

/-- What a filter relies on where it is evaluated in memory: it is written for the model, its
literals are what the properties are compared with, lambdas that are evaluated together can be told
apart, the related entities are objects, and the repository finds the rows that its part of the
filter means. -/
structure ReadsFilter (settings : ReadSettings) (rt : TokenRuntime)
    (repository : EntityRepository) (expr : ParsedExpression) : Prop where
  model : ModelsRelations settings
  uses : UsesModel settings.isRelation false expr
  literals : KeepsLiterals settings.coerceLiteral expr
  keys : ((rootLambdas [] (rewriteNegatedLambdas expr)).map lambdaKey).Nodup
  objects : ∀ row ∈ repository.rows, RangesOverObjects rt row [] expr
  finds : ∀ filter, decomposeFilter settings.options expr = .ok filter →
    FindsMeant settings rt repository filter.whereExpression

/-- The include list for the lambdas of the parts, which other paths may be added to only where
there are no lambdas. -/
def IncludesLambdas (parts : FilterParts) (entries entries' : List NormalizedInclusion) : Prop :=
  parts.hasLambdas = true → ensureLambdasInclusion entries parts.rootLambdas = .ok entries'

theorem hasLambdas_of_lambdas {lambda : LambdaExpression} (h : lambda ∈ parts.lambdas) :
    parts.hasLambdas = true := by
  rw [FilterParts.hasLambdas, List.isEmpty_eq_false_iff.mpr (List.ne_nil_of_mem h)]
  rfl

theorem hasLambdas_of_lambdaExpression {e : ParsedExpression} (h : parts.lambdaExpression = some e) :
    parts.hasLambdas = true := by
  rw [FilterParts.hasLambdas, h, Option.isSome_some, Bool.or_true]

theorem supplied_of_mem_lambdas (hreads : ReadsFilter settings rt repository expr)
    (hnavigates : Navigates expr) (hdecompose : decomposeFilter settings.options expr = .ok filter)
    (hlambdas : parts.lambdas = filter.lambdas) (hincludes : IncludesLambdas parts entries entries')
    {lambda : LambdaExpression} (hlambda : lambda ∈ parts.lambdas) :
    Supplied (Included entries') [] lambda.toExpression := by
  have hmem : lambda ∈ filter.lambdas := hlambdas ▸ hlambda
  obtain ⟨lambdaPaths, hvalid⟩ := validateLambdas_of_decomposeFilter hdecompose
  have hvalidParts := (hereditary_validateLambdas settings.options.lambdaDepth
    lambdaPaths).decomposeRewritten hvalid hdecompose
  have hpath := (hereditary_navigates.decomposeFilter hnavigates hdecompose).lambdas lambda hmem
  rw [LambdaExpression.toExpression, Navigates] at hpath
  have huses := ((hereditary_usesModel _).decomposeFilter hreads.uses hdecompose).lambdas lambda hmem
  refine supplied_lambda (hvalidParts.lambdas lambda hmem) hpath.1 huses ?_
  intro path hmemPath hne hrelations
  refine leadsAlong_ensureLambdasInclusion hreads.model.names
    (hincludes (hasLambdas_of_lambdas hlambda)) ?_ hmemPath hne hrelations
  rw [FilterParts.rootLambdas, if_pos (List.ne_nil_of_mem hlambda)]
  exact hlambda

theorem supplied_of_lambdaExpression (hreads : ReadsFilter settings rt repository expr)
    (hnavigates : Navigates expr) (hdecompose : decomposeFilter settings.options expr = .ok filter)
    (hlambdas : parts.lambdas = filter.lambdas)
    (hexpression : parts.lambdaExpression = filter.lambdaExpression)
    (hincludes : IncludesLambdas parts entries entries') {e : ParsedExpression}
    (he : parts.lambdaExpression = some e) : Supplied (Included entries') [] e := by
  have hfilter : filter.lambdaExpression = some e := hexpression ▸ he
  obtain ⟨rfl, hnone⟩ := lambdaExpression_of_decomposeFilter hdecompose hfilter
  obtain ⟨lambdaPaths, hvalid⟩ := validateLambdas_of_decomposeFilter hdecompose
  refine supplied_outside hvalid (hereditary_navigates.rewriteNegatedLambdas hnavigates)
    ((hereditary_usesModel _).rewriteNegatedLambdas hreads.uses) ?_
  intro lambda hlambda path hmemPath hne hrelations
  refine leadsAlong_ensureLambdasInclusion hreads.model.names
    (hincludes (hasLambdas_of_lambdaExpression he)) ?_ hmemPath hne hrelations
  rw [FilterParts.rootLambdas, hlambdas, hnone, if_neg (by simp), he]
  dsimp only
  rw [collectRootLambdasFromExpression, firstOfKey_eq hreads.keys (by simp)]
  exact hlambda

/-- A row is found and passes exactly if the filter, as it was written, holds for it. -/
theorem passes_iff_holds (hreads : ReadsFilter settings rt repository expr)
    (hnavigates : Navigates expr) (hwhere : ∀ e ∈ filter.whereExpression, WhereExpression e)
    (hpost : ∀ e ∈ filter.postFilter, WhereExpression e)
    (hdecompose : decomposeFilter settings.options expr = .ok filter)
    (hdivides : Divides rt repository filter parts) (hnavigation : parts.navigationFilter = none)
    (hincludes : IncludesLambdas parts entries entries') (hrow : row ∈ repository.rows) :
    repository.Finds parts.whereClause row ∧
        parts.passes rt (settings.read entries' parts.rootLambdas row) = true ↔
      (entityGraph rt).Holds row [] expr := by
  have hreadable : Inherit (Readable settings rt row) filter :=
    hereditary_readable.decomposeFilter ⟨hnavigates, hreads.uses, hreads.objects row hrow⟩ hdecompose
  have hpostFilter : HoldsPart rt row parts.postFilter ↔
      ∀ e ∈ parts.postFilter, evaluatePredicate rt (settings.read entries' parts.rootLambdas row) e
        (.outside (settings.read entries' parts.rootLambdas row)) = true := by
    have hreadablePost := (hdivides.inherit _ hereditary_readable hreadable.postFilter
      hreadable.whereExpression).1
    have hfree := (hdivides.inherit _ hereditary_lambdaFree (fun e he => (hpost e he).2)
      fun e he => (hwhere e he).2).1
    exact forall₂_congr fun e he => (evaluatePredicate_read hreads.model (hreadablePost e he)
      (supplied_of_containsLambda (hfree e he)) _).symm
  have hlambdas : (∀ lambda ∈ filter.lambdas, (entityGraph rt).HoldsLambda row lambda) ↔
      ∀ lambda ∈ parts.lambdas,
        evaluateLambda rt (settings.read entries' parts.rootLambdas row) lambda = true := by
    rw [← hdivides.lambdas]
    refine forall₂_congr fun lambda hlambda => ?_
    have hpart := hreadable.lambdas lambda (hdivides.lambdas ▸ hlambda)
    have hpath := hpart.1
    rw [LambdaExpression.toExpression, Navigates] at hpath
    rw [evaluateLambda_eq hpath.1, evaluatePredicate_read hreads.model hpart
      (supplied_of_mem_lambdas hreads hnavigates hdecompose hdivides.lambdas hincludes hlambda),
      LambdaExpression.toExpression]
    exact EntityGraph.holdsLambda_iff _ row lambda.type lambda.path lambda.aliasName lambda.predicate
  have hexpression (e : ParsedExpression) (he : parts.lambdaExpression = some e) :
      evaluatePredicate rt (settings.read entries' parts.rootLambdas row) e
          (.outside (settings.read entries' parts.rootLambdas row)) = true ↔
        (entityGraph rt).Holds row [] e :=
    evaluatePredicate_read hreads.model
      (hreadable.lambdaExpression e (hdivides.lambdaExpression ▸ he))
      (supplied_of_lambdaExpression hreads hnavigates hdecompose hdivides.lambdas
        hdivides.lambdaExpression hincludes he) _
  have hpasses : parts.passes rt (settings.read entries' parts.rootLambdas row) = true ↔
      (∀ lambda ∈ filter.lambdas, (entityGraph rt).HoldsLambda row lambda) ∧
        (∀ e ∈ filter.lambdaExpression, (entityGraph rt).Holds row [] e) ∧
        HoldsPart rt row parts.postFilter := by
    rw [hpostFilter, hlambdas, ← hdivides.lambdaExpression, FilterParts.passes, Bool.and_eq_true,
      Option.all_eq_true, ← and_assoc]
    refine and_congr_left fun _ => ?_
    cases he : parts.lambdaExpression with
    | none =>
      dsimp only
      rw [List.all_eq_true]
      simp
    | some e =>
      have hnone := (lambdaExpression_of_decomposeFilter hdecompose
        (hdivides.lambdaExpression ▸ he)).2
      dsimp only
      rw [hexpression e he, hdivides.lambdas, hnone]
      simp
  have hmeans := hdivides.means row hrow
  rw [hnavigation] at hmeans
  have hmissing : HoldsPart rt row none := by simp [HoldsPart]
  rw [hpasses, ← (entityGraph rt).holdsParts_decomposeFilter row hdecompose]
  constructor
  · rintro ⟨hfound, hholdsLambdas, hholdsExpression, hholdsPost⟩
    obtain ⟨hholdsPostFilter, hholdsWhere⟩ := hmeans.mp ⟨hfound, hholdsPost, hmissing⟩
    exact ⟨hholdsWhere, hholdsPostFilter, hholdsLambdas, hholdsExpression⟩
  · rintro ⟨hholdsWhere, hholdsPostFilter, hholdsLambdas, hholdsExpression⟩
    obtain ⟨hfound, hholdsPost, -⟩ := hmeans.mpr ⟨hholdsPostFilter, hholdsWhere⟩
    exact ⟨hfound, hholdsLambdas, hholdsExpression, hholdsPost⟩

theorem scanEntities_eq_ok {whereClause : Option Where} {limit : Nat} {message : String}
    {entities : List Cell}
    (h : scanEntities settings repository whereClause entries limit message = .ok entities) :
    entities = (repository.found whereClause).map (fetchEntity settings.isRelation entries) := by
  unfold scanEntities at h
  dsimp only at h
  split at h
  · cases h
  next hlength =>
    obtain rfl := Except.ok.inj h
    rw [List.length_map, List.length_take] at hlength
    rw [List.take_of_length_le (by omega)]

theorem rootLambdas_congr {parts' : FilterParts} (hlambdas : parts.lambdas = parts'.lambdas)
    (hexpression : parts.lambdaExpression = parts'.lambdaExpression) :
    parts.rootLambdas = parts'.rootLambdas := by
  unfold FilterParts.rootLambdas
  rw [hlambdas, hexpression]

theorem hasLambdas_congr {parts' : FilterParts} (hlambdas : parts.lambdas = parts'.lambdas)
    (hexpression : parts.lambdaExpression = parts'.lambdaExpression) :
    parts.hasLambdas = parts'.hasLambdas := by
  unfold FilterParts.hasLambdas
  rw [hlambdas, hexpression]

/-- The include list that the evaluation reads is the one for the lambdas. -/
theorem includesLambdas_withoutPushdown {parts' : FilterParts} {entries'' : List NormalizedInclusion}
    (hdivides : Divides rt repository filter parts)
    (hincludes : ensureLambdasInclusion entries parts.rootLambdas = .ok entries')
    (h : withoutPushdown settings parts entries' = .ok (parts', entries'')) :
    Divides rt repository filter parts' ∧ parts'.navigationFilter = none ∧
      IncludesLambdas parts' entries entries'' := by
  obtain ⟨hdivides', hnavigation, hkept⟩ := divides_withoutPushdown hdivides h
  refine ⟨hdivides', hnavigation, fun hlambdas => ?_⟩
  have hsame := hdivides'.lambdas.trans hdivides.lambdas.symm
  have hsame' := hdivides'.lambdaExpression.trans hdivides.lambdaExpression.symm
  rw [hkept ((hasLambdas_congr hsame hsame').symm.trans hlambdas), rootLambdas_congr hsame hsame']
  exact hincludes

open Classical in
/-- The stored rows for which a filter holds. -/
noncomputable def EntityRepository.matching (repository : EntityRepository) (rt : TokenRuntime)
    (expr : ParsedExpression) : List Cell :=
  repository.rows.filter fun row => (entityGraph rt).Holds row [] expr

section Accepted

variable {text : Text} (hparse : parseFilterText rt.toRuntime settings.options text = .ok (some expr))
  (hreads : ReadsFilter settings rt repository expr)
  (hfilter : parseFilterQuery settings rt (some text) = .ok filter)

include hparse hfilter

theorem decomposeFilter_of_parseFilterQuery :
    parseODataQuery rt.toRuntime settings.options (some text) = .ok filter ∧
      decomposeFilter settings.options expr = .ok filter := by
  unfold parseFilterQuery at hfilter
  split at hfilter
  next parsed hquery =>
    obtain rfl := Except.ok.inj hfilter
    refine ⟨hquery, ?_⟩
    unfold parseODataQuery at hquery
    dsimp only at hquery
    rw [hparse] at hquery
    exact hquery
  · cases hfilter

include hreads

theorem divides_of_parseFilterQuery :
    (findParts settings filter = .ok parts → Divides rt repository filter parts) ∧
      (countParts settings filter = .ok parts → Divides rt repository filter parts) := by
  obtain ⟨hquery, hdecompose⟩ := decomposeFilter_of_parseFilterQuery hparse hfilter
  have hliterals := (hereditary_keepsLiterals _).decomposeFilter hreads.literals hdecompose
  have hwhere : ∀ e ∈ filter.whereExpression, WhereExpression e := fun e he =>
    whereExpression_of_parseODataQuery hquery he
  constructor
  · exact divides_findParts (hreads.finds filter hdecompose) hwhere hliterals.postFilter
      hliterals.whereExpression
  · exact divides_countParts (hreads.finds filter hdecompose) hwhere hliterals.postFilter
      hliterals.whereExpression

/-- What the evaluation in memory leaves are the rows for which the filter holds, as they are read
with their relations. -/
theorem filterByLambdas_found (hdivides : Divides rt repository filter parts)
    (hnavigation : parts.navigationFilter = none)
    (hincludes : IncludesLambdas parts entries entries') :
    filterByLambdas settings rt parts ((repository.found parts.whereClause).map
        (fetchEntity settings.isRelation entries')) =
      (repository.matching rt expr).map (settings.read entries' parts.rootLambdas) := by
  obtain ⟨hquery, hdecompose⟩ := decomposeFilter_of_parseFilterQuery hparse hfilter
  have hnavigates : Navigates expr := hereditary_navigates.parseFilterText
    (fun leaf => by rw [Navigates]; trivial)
    (fun type path aliasName predicate hpath hsegments h => by
      rw [Navigates]
      exact ⟨hpath, hsegments, h⟩) hparse
  have hwhere : ∀ e ∈ filter.whereExpression, WhereExpression e := fun e he =>
    whereExpression_of_parseODataQuery hquery he
  have hpost : ∀ e ∈ filter.postFilter, WhereExpression e := fun e he =>
    hwhere e (whereExpression_of_postFilter hdecompose he)
  rw [filterByLambdas_eq, EntityRepository.found, List.filter_filter, EntityRepository.matching]
  congr 1
  refine List.filter_congr fun row hrow => ?_
  have hiff := passes_iff_holds hreads hnavigates hwhere hpost hdecompose hdivides hnavigation
    hincludes hrow
  rw [Bool.eq_iff_iff, Bool.and_eq_true, Option.all_eq_true, and_comm]
  exact hiff.trans (by simp)

end Accepted

/-- Orders with items, of a model that is not known to the resolution of paths. -/
def orderSettings : ReadSettings where
  options := {}
  notStrict := rfl
  models := fun _ => none
  entityCtor := 0
  maxExpandDepth := 5
  isRelation name := name = "items".toList
  isToMany name := name = "items".toList
  coerceLiteral _ value := .ok value
  maxLambdaScanRows := none
  maxApplyResultSize := none
  maxPostFilterScanRows := none
  fresh := 0

def order (number : Nat) (name : String) (tags : List String) : Cell :=
  .record [("name".toList, .string name.toList),
    ("items".toList, .array (tags.map fun tag => .record [("tag".toList, .string tag.toList)] 0) 0)]
    number

/-- A repository that compares properties with texts. -/
def orderRepository : EntityRepository where
  rows := [order 1 "x" ["a", "b"], order 2 "x" ["b"], order 3 "y" ["a"], order 4 "x" ["a"]]
  selects
    | .property field (.equals (.str text)), row => row.get field == .string text
    | _, _ => false

def orderFilter : Text := "items/any(i:i/tag eq 'a') and name eq 'x'".toList

def orderExpr : ParsedExpression := .logical .and [
  .lambda .any ["items".toList] "i".toList
    (.leaf (.comparison "i/tag".toList .eq (.single (.str "a".toList)))),
  .leaf (.comparison "name".toList .eq (.single (.str "x".toList)))]

theorem readsFilter_orderExpr :
    ReadsFilter orderSettings integerRuntime orderRepository orderExpr where
  model := by
    constructor
    · intro name hname
      obtain rfl : name = "items".toList := by simpa [orderSettings] using hname
      decide
    · exact fun name hname => hname
  uses := by
    rw [orderExpr, UsesModel, allUseModel_iff]
    simp only [List.forall_mem_cons, UsesModel, List.not_mem_nil, false_implies, implies_true,
      and_true]
    decide
  literals := rfl
  keys := by
    rw [orderExpr, rewriteNegatedLambdas_logical]
    simp only [List.map_cons, rewriteNegatedLambdas_lambda, rewriteNegatedLambdas_leaf, List.map_nil]
    decide
  objects := by
    intro row hrow
    rw [orderExpr, RangesOverObjects, rangeOverObjects_iff]
    simp only [List.forall_mem_cons, RangesOverObjects, List.not_mem_nil, false_implies,
      implies_true, and_true]
    revert row
    decide
  finds := by
    intro filter hfilter
    have hparts : (decomposeFilter orderSettings.options orderExpr).map (·.whereExpression) =
        .ok (some (.leaf (.comparison "name".toList .eq (.single (.str "x".toList))))) := by
      decide +kernel
    rw [hfilter] at hparts
    have hwhere := Except.ok.inj hparts
    dsimp only at hwhere
    rw [hwhere]
    intro part hpart clause hclause
    obtain rfl : .leaf (.comparison "name".toList .eq (.single (.str "x".toList))) = part :=
      Option.some.inj hpart
    obtain rfl : .property "name".toList (.equals (.str "x".toList)) = clause :=
      Except.ok.inj hclause
    simp only [EntityGraph.Holds, entityGraph]
    decide

end Selected

end InMemory

end LoopbackOData
