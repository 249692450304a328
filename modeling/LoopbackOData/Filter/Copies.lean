import LoopbackOData.Filter.InMemory

/-!
# Filters on copies of the entities

An entity is read together with only some of its relations, and some of its collections are brought
into one form. A copy that keeps the properties of each entity and the collections that a filter
ranges over satisfies the same filters.
-/

namespace LoopbackOData

namespace InMemory

open Aggregation

open Apply (TokenRuntime)

set_option autoImplicit false

/-! ## What a filter reads -/

section Supply

variable (isRelation : Text → Bool)

mutual

/-- The paths of lambdas are made of relations, behind a range variable for a lambda inside of
another one, and the fields of the leaves are properties. -/
def UsesModel : Bool → ParsedExpression → Prop
  | false, .leaf leaf => ∀ field ∈ leaf.fields,
    (field.splitOn '/').headD [] ≠ [] ∧ isRelation ((field.splitOn '/').headD []) = false
  | true, .leaf leaf => ∀ field ∈ leaf.fields,
    isRelation ((field.splitOn '/').tail.headD []) = false
  | inside, .logical _ expressions => AllUseModel inside expressions
  | inside, .not expr => UsesModel inside expr
  | inside, .lambda _ path _ predicate =>
    (∀ segment ∈ (if inside then path.tail else path), isRelation segment = true) ∧
      UsesModel true predicate

def AllUseModel : Bool → List ParsedExpression → Prop
  | _, [] => True
  | inside, expr :: rest => UsesModel inside expr ∧ AllUseModel inside rest

end

theorem allUseModel_iff (inside : Bool) (expressions : List ParsedExpression) :
    AllUseModel isRelation inside expressions ↔
      ∀ expr ∈ expressions, UsesModel isRelation inside expr := by
  induction expressions with
  | nil => simp [AllUseModel]
  | cons expr rest ih => rw [AllUseModel, ih, List.forall_mem_cons]

/-- The path from the entity that the path of a nested lambda stands for. -/
def includePathOf (aliasPaths : Bindings (List Text)) (path : List Text) : Option (List Text) :=
  if path.headD [] = [] ∨ path.tail = [] then none
  else (aliasPaths.lookup (path.headD [])).map fun base => base ++ path.tail

/-- The path from the entity of a lambda; outside of all lambdas it is the path itself. -/
def basePathOf (aliasPaths : Bindings (List Text)) (path : List Text) : Option (List Text) :=
  if aliasPaths = [] then some path else includePathOf aliasPaths path

variable (reachable : List Text → Prop)

mutual

/-- The lambdas range over what is reachable, and inside of a lambda every field is read from a range
variable. -/
def Supplied : Bindings (List Text) → ParsedExpression → Prop
  | aliasPaths, .leaf leaf => aliasPaths ≠ [] → ∀ field ∈ leaf.fields,
    (field.splitOn '/').headD [] ≠ [] ∧ (field.splitOn '/').tail ≠ [] ∧
      (aliasPaths.lookup ((field.splitOn '/').headD [])).isSome
  | aliasPaths, .logical _ expressions => AllSupplied aliasPaths expressions
  | aliasPaths, .not expr => Supplied aliasPaths expr
  | aliasPaths, .lambda _ path aliasName predicate => ∃ base, basePathOf aliasPaths path = some base ∧
    reachable base ∧ Supplied ((aliasName, base) :: aliasPaths) predicate

def AllSupplied : Bindings (List Text) → List ParsedExpression → Prop
  | _, [] => True
  | aliasPaths, expr :: rest => Supplied aliasPaths expr ∧ AllSupplied aliasPaths rest

end

theorem allSupplied_iff (aliasPaths : Bindings (List Text)) (expressions : List ParsedExpression) :
    AllSupplied reachable aliasPaths expressions ↔
      ∀ expr ∈ expressions, Supplied reachable aliasPaths expr := by
  induction expressions with
  | nil => simp [AllSupplied]
  | cons expr rest ih => rw [AllSupplied, ih, List.forall_mem_cons]

end Supply

/-! ## Copies -/

/-- A copy of each entity, which may depend on the path that leads to it: the properties are kept,
and the collections that can be reached are copied. -/
structure Copies (isRelation : Text → Bool) (reachable : List Text → Prop)
    (copy : List Text → Cell → Cell) : Prop where
  closed : ∀ base rest, reachable (base ++ rest) → reachable base
  nullish : ∀ base item, (copy base item).isNullish = item.isNullish
  truthy : ∀ base item, isTruthy (copy base item) = isTruthy item
  property : ∀ base name item, isRelation name = false → (copy base item).get name = item.get name
  step : ∀ base segment item, isRelation segment = true → reachable (base ++ [segment]) →
    collectionStep segment (copy base item) =
      (collectionStep segment item).map (copy (base ++ [segment]))

/-- The range variables in scope with the path to their objects and the objects. -/
abbrev Ranges := Bindings (List Text × Cell)

def Ranges.aliasPaths (ranges : Ranges) : Bindings (List Text) :=
  ranges.map (Prod.map id Prod.fst)

def Ranges.stored (ranges : Ranges) : Bindings Cell := ranges.map (Prod.map id Prod.snd)

def Ranges.copied (copy : List Text → Cell → Cell) (ranges : Ranges) : Bindings Cell :=
  ranges.map (Prod.map id fun range => copy range.1 range.2)

theorem lookup_map {α β : Type} (f : α → β) (bindings : Bindings α) (name : Text) :
    (bindings.map (Prod.map id f)).lookup name = (bindings.lookup name).map f := by
  induction bindings with
  | nil => rfl
  | cons binding rest ih =>
    obtain ⟨aliasName, value⟩ := binding
    rw [List.map_cons, Prod.map_apply, List.lookup_cons, List.lookup_cons, id]
    split
    · rfl
    · exact ih

/-- A leaf is read through the values of its fields. -/
theorem evaluateLeaf_congr {rt : TokenRuntime} {value value' : Text → Cell} {leaf : Leaf}
    (h : ∀ field ∈ leaf.fields, value field = value' field) :
    evaluateLeaf rt value leaf = evaluateLeaf rt value' leaf := by
  cases leaf with
  | stringfncmp name args comparator literal =>
    have harg : ∀ arg ∈ args, functionArgText rt value arg = functionArgText rt value' arg := by
      intro arg harg
      cases arg with
      | literal literal => rfl
      | field field transform =>
        have hfield : field ∈ (Leaf.stringfncmp name args comparator literal).fields :=
          List.mem_filterMap.mpr ⟨_, harg, rfl⟩
        simp only [functionArgText, h field hfield]
    have hresult : evaluateStringFunction rt value name args =
        evaluateStringFunction rt value' name args := by
      cases name with
      | trim =>
        rw [evaluateStringFunction, evaluateStringFunction]
        cases args with
        | nil => rfl
        | cons arg rest =>
          simp only [List.head?_cons, Option.bind_some, harg arg List.mem_cons_self]
      | concat =>
        rw [evaluateStringFunction, evaluateStringFunction]
        exact congrArg some (List.flatMap_congr fun arg hmem => by rw [harg arg hmem])
    rw [evaluateLeaf, evaluateLeaf, hresult]
  | _ => simp [evaluateLeaf, h _ (List.mem_singleton_self _)]

theorem truthy_stored {ranges : Ranges} (hbound : ∀ range ∈ ranges, isTruthy range.2.2 = true) :
    ∀ binding ∈ ranges.stored, isTruthy binding.2 = true := by
  rw [Ranges.stored, List.forall_mem_map]
  exact hbound

theorem boundSource_nil (name : Text) : boundSource [] name = none := by
  rw [boundSource]
  split <;> rfl

theorem lambdaItems_nil (entity : Cell) (path : List Text) :
    lambdaItems entity [] path = resolveCollectionPath entity path := by
  unfold lambdaItems
  rw [boundSource_nil]
  split <;> rfl

section Meaning

variable {rt : TokenRuntime} {isRelation : Text → Bool} {reachable : List Text → Prop}
  {copy : List Text → Cell → Cell} (hcopies : Copies isRelation reachable copy) {root : Cell}
  {ranges : Ranges}

include hcopies

/-- A path of relations leads to the copies of what it leads to. -/
theorem foldl_collectionStep_copy {base segments : List Text}
    (hrelations : ∀ segment ∈ segments, isRelation segment = true)
    (hreachable : reachable (base ++ segments)) (items : List Cell) :
    segments.foldl (fun current segment => current.flatMap (collectionStep segment))
        (items.map (copy base)) =
      (segments.foldl (fun current segment => current.flatMap (collectionStep segment)) items).map
        (copy (base ++ segments)) := by
  induction segments generalizing base items with
  | nil => rw [List.foldl_nil, List.foldl_nil, List.append_nil]
  | cons segment segments ih =>
    obtain ⟨hsegment, hrest⟩ := List.forall_mem_cons.mp hrelations
    rw [List.append_cons] at hreachable
    have hstep : (items.map (copy base)).flatMap (collectionStep segment) =
        (items.flatMap (collectionStep segment)).map (copy (base ++ [segment])) := by
      rw [List.flatMap_map, List.map_flatMap]
      exact List.flatMap_congr fun item _ =>
        hcopies.step base segment item hsegment (hcopies.closed _ _ hreachable)
    rw [List.foldl_cons, List.foldl_cons, hstep, ih hrest hreachable, ← List.append_cons]

theorem resolveCollectionPath_copy {base segments : List Text}
    (hrelations : ∀ segment ∈ segments, isRelation segment = true)
    (hreachable : reachable (base ++ segments)) (source : Cell) :
    resolveCollectionPath (copy base source) segments =
      (resolveCollectionPath source segments).map (copy (base ++ segments)) := by
  have hfold := foldl_collectionStep_copy hcopies hrelations hreachable [source]
  rw [List.map_singleton] at hfold
  rw [resolveCollectionPath, hfold, List.filter_map, resolveCollectionPath]
  congr 1
  exact List.filter_congr fun item _ => by simp [hcopies.nullish]

theorem walkSegments_copy {base : List Text} {item : Cell} {segments : List Text}
    (hne : segments ≠ []) (hname : isRelation (segments.headD []) = false) :
    walkSegments (copy base item) segments = walkSegments item segments := by
  obtain ⟨first, rest, rfl⟩ := List.exists_cons_of_ne_nil hne
  rw [List.headD_cons] at hname
  rw [walkSegments, walkSegments, hcopies.nullish, hcopies.property base first item hname]

theorem truthy_copied (hbound : ∀ range ∈ ranges, isTruthy range.2.2 = true) :
    ∀ binding ∈ ranges.copied copy, isTruthy binding.2 = true := by
  rw [Ranges.copied, List.forall_mem_map]
  intro range hrange
  rw [Prod.map_snd, hcopies.truthy]
  exact hbound range hrange

/-- The field of a leaf has the same value on the copies. -/
theorem resolvePredicateValue_copy {field : Text} {leaf : Leaf} (hfield : field ∈ leaf.fields)
    (huses : UsesModel isRelation (!ranges.isEmpty) (.leaf leaf))
    (hsupplied : Supplied reachable ranges.aliasPaths (.leaf leaf))
    (hbound : ∀ range ∈ ranges, isTruthy range.2.2 = true) :
    resolvePredicateValue (copy [] root) (scopeOf (copy [] root) (ranges.copied copy)) field =
      resolvePredicateValue root (scopeOf root ranges.stored) field := by
  cases ranges with
  | nil =>
    obtain ⟨hhead, hproperty⟩ := (by simpa [UsesModel] using huses :
      ∀ field ∈ leaf.fields, (field.splitOn '/').headD [] ≠ [] ∧
        isRelation ((field.splitOn '/').headD []) = false) field hfield
    have houtside (entity : Cell) : resolvePredicateValue entity (scopeOf entity []) field =
        walkSegments entity (field.splitOn '/') := by
      unfold resolvePredicateValue
      dsimp only
      rw [scopeOf_bindings, boundSource_nil]
      exact if_neg hhead
    have hne : field.splitOn '/' ≠ [] := by
      intro h
      rw [h] at hhead
      exact hhead rfl
    exact (houtside _).trans
      ((walkSegments_copy hcopies hne hproperty).trans (houtside _).symm)
  | cons range rest =>
    have hproperty := (by simpa [UsesModel] using huses : ∀ field ∈ leaf.fields,
      isRelation ((field.splitOn '/').tail.headD []) = false) field hfield
    rw [Supplied] at hsupplied
    obtain ⟨hhead, htail, hlookup⟩ := hsupplied (List.cons_ne_nil _ _) field hfield
    rw [Ranges.aliasPaths, lookup_map, Option.isSome_map, Option.isSome_iff_exists] at hlookup
    obtain ⟨⟨base, item⟩, hlookup⟩ := hlookup
    unfold resolvePredicateValue
    dsimp only
    rw [scopeOf_bindings, scopeOf_bindings, boundSource_eq (truthy_copied hcopies hbound) hhead,
      boundSource_eq (truthy_stored hbound) hhead, Ranges.copied, Ranges.stored, lookup_map,
      lookup_map, hlookup]
    exact walkSegments_copy hcopies htail hproperty

/-- A lambda ranges over the copies of the objects that it ranges over. -/
theorem collection_copy {path base : List Text} (hpath : path ≠ []) (hsegments : [] ∉ path)
    (hrelations : ∀ segment ∈ (if (!ranges.isEmpty) = true then path.tail else path),
      isRelation segment = true)
    (hbase : basePathOf ranges.aliasPaths path = some base) (hreachable : reachable base)
    (hbound : ∀ range ∈ ranges, isTruthy range.2.2 = true) :
    (entityGraph rt).collection (copy [] root) (ranges.copied copy) path =
      ((entityGraph rt).collection root ranges.stored path).map (copy base) := by
  rw [← lambdaItems_eq (truthy_copied hcopies hbound) hpath hsegments,
    ← lambdaItems_eq (truthy_stored hbound) hpath hsegments]
  cases ranges with
  | nil =>
    obtain rfl : path = base := Option.some.inj hbase
    have hcopy := @resolveCollectionPath_copy _ _ _ hcopies [] path (by simpa using hrelations)
      hreachable root
    exact (lambdaItems_nil _ _).trans (hcopy.trans (congrArg _ (lambdaItems_nil _ _).symm))
  | cons range rest =>
    have hscope : Ranges.aliasPaths (range :: rest) ≠ [] := List.cons_ne_nil _ _
    rw [basePathOf, if_neg hscope, includePathOf] at hbase
    split at hbase
    · cases hbase
    next hnested =>
      obtain ⟨hhead, htail⟩ := not_or.mp hnested
      rw [Ranges.aliasPaths, lookup_map, Option.map_map, Option.map_eq_some_iff] at hbase
      obtain ⟨⟨outer, item⟩, hlookup, rfl⟩ := hbase
      obtain ⟨second, segments, hrest⟩ := List.exists_cons_of_ne_nil htail
      rw [List.isEmpty_cons, Bool.not_false, if_pos rfl, hrest] at hrelations
      unfold lambdaItems
      rw [boundSource_eq (truthy_copied hcopies hbound) hhead,
        boundSource_eq (truthy_stored hbound) hhead, Ranges.copied, Ranges.stored, lookup_map,
        lookup_map, hlookup, hrest]
      dsimp only [Function.comp_apply, Option.map_some] at hreachable ⊢
      rw [hrest] at hreachable
      exact resolveCollectionPath_copy hcopies hrelations hreachable item

/-- A filter means the same on the copies, by induction on the expression: a lambda binds its
variable to the copy of an object along the base path. -/
theorem holds_copy (expr : ParsedExpression) (hnavigates : Navigates expr)
    (huses : UsesModel isRelation (!ranges.isEmpty) expr)
    (hsupplied : Supplied reachable ranges.aliasPaths expr)
    (hbound : ∀ range ∈ ranges, isTruthy range.2.2 = true)
    (hobjects : RangesOverObjects rt root ranges.stored expr) :
    ((entityGraph rt).Holds (copy [] root) (ranges.copied copy) expr ↔
        (entityGraph rt).Holds root ranges.stored expr) ∧
      RangesOverObjects rt (copy [] root) (ranges.copied copy) expr := by
  induction expr generalizing ranges with
  | leaf leaf =>
    refine ⟨?_, by rw [RangesOverObjects]; trivial⟩
    rw [EntityGraph.Holds, EntityGraph.Holds]
    have hleaf := @evaluateLeaf_congr rt _ _ leaf fun field hfield =>
      @resolvePredicateValue_copy _ _ _ hcopies root ranges field leaf hfield huses hsupplied hbound
    exact Eq.congr hleaf rfl
  | logical type expressions ih =>
    rw [Navigates, navigatesAll_iff] at hnavigates
    rw [UsesModel, allUseModel_iff] at huses
    rw [Supplied, allSupplied_iff] at hsupplied
    rw [RangesOverObjects, rangeOverObjects_iff] at hobjects
    have hmember := fun expr hexpr => ih expr hexpr (hnavigates expr hexpr) (huses expr hexpr)
      (hsupplied expr hexpr) hbound (hobjects expr hexpr)
    constructor
    · cases type with
      | and =>
        rw [EntityGraph.holds_and, EntityGraph.holds_and]
        exact forall₂_congr fun expr hexpr => (hmember expr hexpr).1
      | or =>
        rw [EntityGraph.holds_or, EntityGraph.holds_or]
        exact exists_congr fun expr => and_congr_right fun hexpr => (hmember expr hexpr).1
    · rw [RangesOverObjects, rangeOverObjects_iff]
      exact fun expr hexpr => (hmember expr hexpr).2
  | not expr ih =>
    rw [Navigates] at hnavigates
    rw [UsesModel] at huses
    rw [Supplied] at hsupplied
    rw [RangesOverObjects] at hobjects
    obtain ⟨hmeaning, hranges⟩ := ih hnavigates huses hsupplied hbound hobjects
    constructor
    · rw [EntityGraph.holds_not, EntityGraph.holds_not, hmeaning]
    · rwa [RangesOverObjects]
  | lambda type path aliasName predicate ih =>
    rw [Navigates] at hnavigates
    obtain ⟨hpath, hsegments, hnavigates⟩ := hnavigates
    rw [UsesModel] at huses
    obtain ⟨hrelations, huses⟩ := huses
    rw [Supplied] at hsupplied
    obtain ⟨base, hbase, hreachable, hsupplied⟩ := hsupplied
    rw [RangesOverObjects] at hobjects
    have hcollection := @collection_copy rt _ _ _ hcopies root ranges path base hpath hsegments
      hrelations hbase hreachable hbound
    have hitem : ∀ item ∈ (entityGraph rt).collection root ranges.stored path,
        ((entityGraph rt).Holds (copy [] root)
            ((aliasName, copy base item) :: ranges.copied copy) predicate ↔
          (entityGraph rt).Holds root ((aliasName, item) :: ranges.stored) predicate) ∧
        RangesOverObjects rt (copy [] root)
          ((aliasName, copy base item) :: ranges.copied copy) predicate := by
      intro item hmem
      obtain ⟨htruthy, hinner⟩ := hobjects item hmem
      exact @ih ((aliasName, base, item) :: ranges) hnavigates huses hsupplied
        (List.forall_mem_cons.mpr ⟨htruthy, hbound⟩) hinner
    constructor
    · cases type with
      | any =>
        rw [EntityGraph.holds_any, EntityGraph.holds_any, hcollection]
        simp only [List.mem_map, exists_exists_and_eq_and]
        exact exists_congr fun item => and_congr_right fun hmem => (hitem item hmem).1
      | all =>
        rw [EntityGraph.holds_all, EntityGraph.holds_all, hcollection, List.forall_mem_map]
        exact forall₂_congr fun item hmem => (hitem item hmem).1
    · rw [RangesOverObjects, hcollection, List.forall_mem_map]
      intro item hmem
      rw [hcopies.truthy]
      exact ⟨(hobjects item hmem).1, (hitem item hmem).2⟩

/-- An entity satisfies a filter exactly if its copy does, evaluated in memory. -/
theorem evaluatePredicate_copy {expr : ParsedExpression} (hnavigates : Navigates expr)
    (huses : UsesModel isRelation false expr) (hsupplied : Supplied reachable [] expr)
    (hobjects : RangesOverObjects rt root [] expr) :
    evaluatePredicate rt (copy [] root) expr (.outside (copy [] root)) = true ↔
      (entityGraph rt).Holds root [] expr := by
  obtain ⟨hmeaning, hranges⟩ := @holds_copy rt _ _ _ hcopies root [] expr hnavigates huses hsupplied
    (by simp) hobjects
  exact (@evaluatePredicate_iff_holds rt (copy [] root) [] expr hnavigates (by simp) hranges).trans
    hmeaning

end Meaning

end InMemory

end LoopbackOData
