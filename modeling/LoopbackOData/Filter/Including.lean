import LoopbackOData.Expand.Injecting
import LoopbackOData.Filter.Copies
import LoopbackOData.Filter.Hereditary

/-!
# The entities that lambdas are evaluated on

A query fetches an entity without its relations, but for those of its include list. The paths of
lambdas are added to that list, also the paths that start at the range variable of an enclosing
lambda. On what is fetched then, a filter means the same as on the entities with all their
relations.
-/

namespace LoopbackOData

namespace InMemory

open Aggregation Injecting Outcome

open Apply (TokenRuntime)

set_option autoImplicit false

/-! ## Include paths of lambdas -/

mutual

/-- `walk` in `collectNestedLambdaIncludePaths`. -/
def nestedIncludePaths : Bindings (List Text) → ParsedExpression → List (List Text)
  | _, .leaf _ => []
  | aliasPaths, .logical _ expressions => allNestedIncludePaths aliasPaths expressions
  | aliasPaths, .not expr => nestedIncludePaths aliasPaths expr
  | aliasPaths, .lambda _ path aliasName predicate =>
    match includePathOf aliasPaths path with
    | some includePath =>
      includePath :: nestedIncludePaths ((aliasName, includePath) :: aliasPaths) predicate
    | none => []

def allNestedIncludePaths : Bindings (List Text) → List ParsedExpression → List (List Text)
  | _, [] => []
  | aliasPaths, expr :: rest =>
    nestedIncludePaths aliasPaths expr ++ allNestedIncludePaths aliasPaths rest

end

def collectNestedLambdaIncludePaths (lambda : LambdaExpression) : List (List Text) :=
  (nestedIncludePaths [(lambda.aliasName, lambda.path)] lambda.predicate).eraseDups

/-- A path up to the first segment that is not the name of a relation. -/
def toIncludePath : List Text → IncludePath
  | [] => []
  | segment :: rest =>
    if h : segment ≠ [] ∧ '/' ∉ segment ∧ segment ≠ prototypeKey then
      ⟨segment, h.1, h.2.1, h.2.2⟩ :: toIncludePath rest
    else []

def lambdaIncludePaths (lambda : LambdaExpression) : List (List Text) :=
  lambda.path :: collectNestedLambdaIncludePaths lambda

def ensureLambdasInclusion (entries : List NormalizedInclusion) (lambdas : List LambdaExpression) :
    Except HttpError (List NormalizedInclusion) :=
  if lambdas.any (·.path = []) then
    badRequest "Lambda expressions must reference a navigation property."
  else .ok (((lambdas.flatMap lambdaIncludePaths).map toIncludePath).foldl
    (fun entries path => ensureIncludePath path entries) entries)

/-! ### The lambdas of an expression -/

/-- The text by which `collectRootLambdasFromExpression` knows a lambda again. -/
def lambdaKey (lambda : LambdaExpression) : Text :=
  (match lambda.type with
    | .any => "any".toList
    | .all => "all".toList) ++ ':' :: joinPath lambda.path ++ ':' :: lambda.aliasName

mutual

/-- The lambdas that do not start at a range variable. -/
def rootLambdas (aliasesInScope : List Text) : ParsedExpression → List LambdaExpression
  | .leaf _ => []
  | .logical _ expressions => allRootLambdas aliasesInScope expressions
  | .not expr => rootLambdas aliasesInScope expr
  | .lambda type path aliasName predicate =>
    (if startsInScope aliasesInScope path then [] else [⟨type, path, aliasName, predicate⟩]) ++
      rootLambdas (aliasName :: aliasesInScope) predicate

def allRootLambdas (aliasesInScope : List Text) : List ParsedExpression → List LambdaExpression
  | [] => []
  | expr :: rest => rootLambdas aliasesInScope expr ++ allRootLambdas aliasesInScope rest

end

/-- The first lambda of each key. -/
def firstOfKey (seen : List Text) : List LambdaExpression → List LambdaExpression
  | [] => []
  | lambda :: rest =>
    if lambdaKey lambda ∈ seen then firstOfKey seen rest
    else lambda :: firstOfKey (lambdaKey lambda :: seen) rest

def collectRootLambdasFromExpression (expr : ParsedExpression) : List LambdaExpression :=
  firstOfKey [] (rootLambdas [] expr)

/-! ## What is fetched -/

section Fetch

variable (isRelation : Text → Bool)

/-- What is left of paths behind a relation. -/
def pathsBehind (paths : List (List Text)) (name : Text) : List (List Text) :=
  (paths.filter fun path => path.head? = some name).map List.tail

mutual

/-- An entity without the relations that no include path leads along. -/
def fetch (paths : List (List Text)) : Cell → Cell
  | .record fields object => .record (fetchFields paths fields) object
  | .array items object => .array (fetchItems paths items) object
  | .undefined => .undefined
  | .null => .null
  | .bool b => .bool b
  | .number q => .number q
  | .string s => .string s
  | .date ms object => .date ms object

def fetchFields (paths : List (List Text)) : List (Text × Cell) → List (Text × Cell)
  | [] => []
  | (name, value) :: fields =>
    if isRelation name then
      if paths.any fun path => path.head? = some name then
        (name, fetch (pathsBehind paths name) value) :: fetchFields paths fields
      else fetchFields paths fields
    else (name, value) :: fetchFields paths fields

def fetchItems (paths : List (List Text)) : List Cell → List Cell
  | [] => []
  | item :: items => fetch paths item :: fetchItems paths items

end

/-- The entity that a query with this include list reads. -/
def fetchEntity (entries : List NormalizedInclusion) (entity : Cell) : Cell :=
  fetch isRelation ((extractIncludePaths entries).map pathTexts) entity

end Fetch

/-! ### Values of a fetched entity -/

section Values

variable {isRelation : Text → Bool} {paths : List (List Text)}

theorem fetchItems_eq (paths : List (List Text)) (items : List Cell) :
    fetchItems isRelation paths items = items.map (fetch isRelation paths) := by
  induction items with
  | nil => rw [fetchItems, List.map_nil]
  | cons item items ih => rw [fetchItems, ih, List.map_cons]

theorem isNullish_fetch (paths : List (List Text)) (item : Cell) :
    (fetch isRelation paths item).isNullish = item.isNullish := by
  cases item <;> simp [fetch, Cell.isNullish]

theorem isTruthy_fetch (paths : List (List Text)) (item : Cell) :
    isTruthy (fetch isRelation paths item) = isTruthy item := by
  cases item <;> simp [fetch, isTruthy]

theorem get_fetchFields_of_not_relation {name : Text} (hname : isRelation name = false)
    (fields : List (Text × Cell)) :
    Dictionary.get (fetchFields isRelation paths fields) name = Dictionary.get fields name := by
  induction fields with
  | nil => rw [fetchFields]
  | cons pair fields ih =>
    obtain ⟨key, value⟩ := pair
    rw [fetchFields, Dictionary.get_cons]
    split
    next hkey =>
      have hne : key ≠ name := by
        rintro rfl
        rw [hkey] at hname
        cases hname
      rw [if_neg hne]
      split
      · rw [Dictionary.get_cons, if_neg hne, ih]
      · exact ih
    next => rw [Dictionary.get_cons, ih]

theorem get_fetchFields_of_included {name : Text} (hname : isRelation name = true)
    (hincluded : ∃ path ∈ paths, path.head? = some name) (fields : List (Text × Cell)) :
    Dictionary.get (fetchFields isRelation paths fields) name =
      (Dictionary.get fields name).map (fetch isRelation (pathsBehind paths name)) := by
  have hany : (paths.any fun path => path.head? = some name) = true := by simpa using hincluded
  induction fields with
  | nil =>
    rw [fetchFields]
    rfl
  | cons pair fields ih =>
    obtain ⟨key, value⟩ := pair
    rw [fetchFields, Dictionary.get_cons]
    by_cases hkey : key = name
    · subst hkey
      rw [if_pos hname, if_pos hany, Dictionary.get_cons, if_pos rfl, if_pos rfl]
      rfl
    · rw [if_neg hkey]
      split
      · split
        · rw [Dictionary.get_cons, if_neg hkey, ih]
        · exact ih
      · rw [Dictionary.get_cons, if_neg hkey, ih]

/-- The properties of an entity are fetched as they are. -/
theorem get_fetch_of_not_relation {name : Text} (hname : isRelation name = false)
    (item : Cell) : (fetch isRelation paths item).get name = item.get name := by
  cases item with
  | record fields object => rw [fetch, Cell.get, Cell.get, get_fetchFields_of_not_relation hname]
  | _ => rw [fetch] <;> rfl

/-- An included relation leads to what is fetched of the related entities. -/
theorem get_fetch_of_included {name : Text} (hname : isRelation name = true)
    (hincluded : ∃ path ∈ paths, path.head? = some name) (item : Cell) :
    (fetch isRelation paths item).get name =
      fetch isRelation (pathsBehind paths name) (item.get name) := by
  cases item with
  | record fields object =>
    rw [fetch, Cell.get, Cell.get, get_fetchFields_of_included hname hincluded]
    cases Dictionary.get fields name with
    | none =>
      simp only [Option.map_none, Option.getD_none]
      rw [fetch]
    | some value => rfl
  | _ => simp only [fetch, Cell.get]

theorem collectionStep_fetch {name : Text} (hname : isRelation name = true)
    (hincluded : ∃ path ∈ paths, path.head? = some name) (item : Cell) :
    collectionStep name (fetch isRelation paths item) =
      (collectionStep name item).map (fetch isRelation (pathsBehind paths name)) := by
  unfold collectionStep
  rw [isNullish_fetch, get_fetch_of_included hname hincluded]
  split
  · rfl
  · cases item.get name <;> simp [fetch, fetchItems_eq]

/-- What is left of paths behind several relations. -/
def pathsAlong (paths : List (List Text)) (segments : List Text) : List (List Text) :=
  segments.foldl pathsBehind paths

/-- Some path leads along all the segments. -/
def LeadsAlong (paths : List (List Text)) (segments : List Text) : Prop :=
  ∃ path ∈ paths, segments <+: path

theorem leadsAlong_pathsBehind {name : Text} {segments : List Text} :
    LeadsAlong (pathsBehind paths name) segments ↔ LeadsAlong paths (name :: segments) := by
  unfold LeadsAlong pathsBehind
  constructor
  · rintro ⟨path, hpath, hprefix⟩
    obtain ⟨whole, hwhole, rfl⟩ := List.mem_map.mp hpath
    obtain ⟨hmem, hhead⟩ := List.mem_filter.mp hwhole
    cases whole with
    | nil => simp at hhead
    | cons first rest =>
      obtain rfl : first = name := by simpa using hhead
      exact ⟨_, hmem, List.cons_prefix_cons.mpr ⟨rfl, hprefix⟩⟩
  · rintro ⟨path, hpath, hprefix⟩
    cases path with
    | nil => simp at hprefix
    | cons first rest =>
      obtain ⟨rfl, hrest⟩ := List.cons_prefix_cons.mp hprefix
      refine ⟨rest, List.mem_map.mpr ⟨name :: rest, ?_, rfl⟩, hrest⟩
      exact List.mem_filter.mpr ⟨hpath, by simp⟩

theorem leadsAlong_pathsAlong {before segments : List Text} :
    LeadsAlong (pathsAlong paths before) segments ↔ LeadsAlong paths (before ++ segments) := by
  induction before generalizing paths with
  | nil => exact Iff.rfl
  | cons name before ih =>
    rw [pathsAlong, List.foldl_cons, ← pathsAlong, ih, leadsAlong_pathsBehind, List.cons_append]

theorem pathsAlong_append (before segments : List Text) :
    pathsAlong paths (before ++ segments) = pathsAlong (pathsAlong paths before) segments := by
  rw [pathsAlong, List.foldl_append]
  rfl

end Values

/-! ### Collections in one form -/

/-- One relation in `normalizeLambdaCollectionsForResponse`; a new array gets the number `fresh`. -/
def normalizeCollection (fresh : Nat) (relation : Text) : Cell → Cell
  | .record fields object =>
    match (Cell.record fields object).get relation with
    | .undefined => .record (assign fields relation (.array [] fresh)) object
    | .null => .record (assign fields relation (.array [] fresh)) object
    | .array _ _ => .record fields object
    | current => .record (assign fields relation (.array [current] fresh)) object
  | entity => entity

/-- The relations to several entities that lambdas start from are made arrays. -/
def normalizeLambdaCollections (fresh : Nat) (isToMany : Text → Bool)
    (lambdas : List LambdaExpression) (entity : Cell) : Cell :=
  (lambdas.filterMap fun lambda => lambda.path.head?.filter isToMany).eraseDups.foldl
    (fun entity relation => normalizeCollection fresh relation entity) entity

section Normalized

variable {fresh : Nat} {relation : Text}

theorem get_assign {fields : List (Text × Cell)} {object : Nat} {name : Text} {value : Cell}
    (hproto : relation ≠ prototypeKey) :
    (Cell.record (assign fields relation value) object).get name =
      if relation = name then value else (Cell.record fields object).get name := by
  rw [assign, if_neg hproto, Cell.get, Dictionary.get_set]
  split
  · rfl
  · rfl

/-- The entity with one relation brought into the form of an array. -/
theorem normalizeCollection_cases (entity : Cell) : normalizeCollection fresh relation entity = entity ∨
    ∃ fields object items, entity = .record fields object ∧
      normalizeCollection fresh relation entity =
        .record (assign fields relation (.array items fresh)) object ∧
      collectionStep relation entity = items := by
  cases entity with
  | record fields object =>
    rw [normalizeCollection]
    cases h : (Cell.record fields object).get relation with
    | undefined => exact Or.inr ⟨fields, object, [], rfl, rfl, by simp [collectionStep, h, Cell.isNullish]⟩
    | null => exact Or.inr ⟨fields, object, [], rfl, rfl, by simp [collectionStep, h, Cell.isNullish]⟩
    | array items number => exact Or.inl rfl
    | _ => exact Or.inr ⟨fields, object, _, rfl, rfl, by simp [collectionStep, h, Cell.isNullish]⟩
  | _ => exact Or.inl rfl

theorem isNullish_normalizeCollection (entity : Cell) :
    (normalizeCollection fresh relation entity).isNullish = entity.isNullish := by
  rcases @normalizeCollection_cases fresh relation entity with h | ⟨_, _, _, rfl, h, _⟩
  · rw [h]
  · rw [h]
    rfl

theorem isTruthy_normalizeCollection (entity : Cell) :
    isTruthy (normalizeCollection fresh relation entity) = isTruthy entity := by
  rcases @normalizeCollection_cases fresh relation entity with h | ⟨_, _, _, rfl, h, _⟩
  · rw [h]
  · rw [h]
    rfl

theorem get_normalizeCollection {name : Text} (hne : relation ≠ name) (entity : Cell) :
    (normalizeCollection fresh relation entity).get name = entity.get name := by
  rcases @normalizeCollection_cases fresh relation entity with h | ⟨fields, _, _, rfl, h, _⟩
  · rw [h]
  · rw [h]
    by_cases hproto : relation = prototypeKey
    · rw [assign, if_pos hproto]
    · rw [get_assign hproto, if_neg hne]

/-- The collections stay what they are. -/
theorem collectionStep_normalizeCollection (hproto : relation ≠ prototypeKey) (segment : Text)
    (entity : Cell) :
    collectionStep segment (normalizeCollection fresh relation entity) =
      collectionStep segment entity := by
  by_cases hne : relation = segment
  · subst hne
    rcases @normalizeCollection_cases fresh relation entity with h | ⟨fields, _, items, rfl, h, hitems⟩
    · rw [h]
    · rw [h, hitems, collectionStep, get_assign hproto, if_pos rfl]
      rfl
  · unfold collectionStep
    rw [isNullish_normalizeCollection, get_normalizeCollection hne]

end Normalized

/-! ### The entity as it is evaluated -/

section Read

variable {isRelation : Text → Bool} {paths : List (List Text)}

/-- The names of relations can stand in an include list. -/
def NamesRelations (isRelation : Text → Bool) : Prop :=
  ∀ name, isRelation name = true → name ≠ [] ∧ '/' ∉ name ∧ name ≠ prototypeKey

/-- What is fetched of the entities behind a path. -/
def fetchBehind (isRelation : Text → Bool) (paths : List (List Text)) (base : List Text) :
    Cell → Cell :=
  fetch isRelation (pathsAlong paths base)

theorem copies_fetch :
    Copies isRelation (LeadsAlong paths) (fetchBehind isRelation paths) where
  closed base rest := by
    rintro ⟨path, hpath, hprefix⟩
    exact ⟨path, hpath, (List.prefix_append base rest).trans hprefix⟩
  nullish base item := isNullish_fetch _ item
  truthy base item := isTruthy_fetch _ item
  property base name item hname := get_fetch_of_not_relation hname item
  step base segment item hsegment hleads := by
    have hincluded : ∃ path ∈ pathsAlong paths base, path.head? = some segment := by
      obtain ⟨path, hpath, rest, rfl⟩ := leadsAlong_pathsAlong.mpr hleads
      exact ⟨_, hpath, rfl⟩
    rw [fetchBehind, collectionStep_fetch hsegment hincluded, fetchBehind, pathsAlong_append]
    rfl

/-- A change of an entity that keeps its properties and collections. -/
structure KeepsEntity (isRelation : Text → Bool) (change : Cell → Cell) : Prop where
  nullish : ∀ item, (change item).isNullish = item.isNullish
  truthy : ∀ item, isTruthy (change item) = isTruthy item
  property : ∀ name item, isRelation name = false → (change item).get name = item.get name
  step : ∀ segment item, collectionStep segment (change item) = collectionStep segment item

theorem keepsEntity_normalizeCollection (hnames : NamesRelations isRelation) {fresh : Nat}
    {relation : Text} (hrelation : isRelation relation = true) :
    KeepsEntity isRelation (normalizeCollection fresh relation) where
  nullish := isNullish_normalizeCollection
  truthy := isTruthy_normalizeCollection
  property name item hname := by
    refine get_normalizeCollection ?_ item
    rintro rfl
    rw [hname] at hrelation
    cases hrelation
  step segment item := collectionStep_normalizeCollection (hnames relation hrelation).2.2 segment item

theorem KeepsEntity.foldl {α : Type} {change : α → Cell → Cell} {steps : List α}
    (h : ∀ a ∈ steps, KeepsEntity isRelation (change a)) :
    KeepsEntity isRelation fun entity => steps.foldl (fun entity a => change a entity) entity := by
  induction steps with
  | nil => exact ⟨fun _ => rfl, fun _ => rfl, fun _ _ _ => rfl, fun _ _ => rfl⟩
  | cons first rest ih =>
    obtain ⟨hfirst, hrest⟩ := List.forall_mem_cons.mp h
    have hlater := ih hrest
    constructor
    · exact fun item => (hlater.nullish _).trans (hfirst.nullish item)
    · exact fun item => (hlater.truthy _).trans (hfirst.truthy item)
    · exact fun name item hname =>
        (hlater.property name _ hname).trans (hfirst.property name item hname)
    · exact fun segment item => (hlater.step segment _).trans (hfirst.step segment item)

/-- Such a change may be made to the copy of the entity itself. -/
theorem Copies.comp_root {reachable : List Text → Prop} {copy : List Text → Cell → Cell}
    (hcopies : Copies isRelation reachable copy) {change : Cell → Cell}
    (hchange : KeepsEntity isRelation change) :
    Copies isRelation reachable fun base item =>
      if base = [] then change (copy base item) else copy base item where
  closed := hcopies.closed
  nullish base item := by
    split
    · rw [hchange.nullish, hcopies.nullish]
    · exact hcopies.nullish base item
  truthy base item := by
    split
    · rw [hchange.truthy, hcopies.truthy]
    · exact hcopies.truthy base item
  property base name item hname := by
    split
    · rw [hchange.property name _ hname, hcopies.property base name item hname]
    · exact hcopies.property base name item hname
  step base segment item hsegment hreachable := by
    have hbehind : (fun item => if base ++ [segment] = [] then change (copy (base ++ [segment]) item)
        else copy (base ++ [segment]) item) = copy (base ++ [segment]) := by
      funext item
      rw [if_neg (by simp)]
    rw [hbehind, ← hcopies.step base segment item hsegment hreachable]
    split
    · exact hchange.step segment _
    · rfl

/-- The entity as it is evaluated: fetched with some relations, its collections in one form. -/
def readEntity (isRelation isToMany : Text → Bool) (fresh : Nat) (entries : List NormalizedInclusion)
    (lambdas : List LambdaExpression) (entity : Cell) : Cell :=
  normalizeLambdaCollections fresh isToMany lambdas (fetchEntity isRelation entries entity)

/-- The copies of an entity and of what is behind it that the evaluation reads. -/
theorem copies_readEntity (hnames : NamesRelations isRelation) {isToMany : Text → Bool}
    (hmany : ∀ name, isToMany name = true → isRelation name = true) (fresh : Nat)
    (entries : List NormalizedInclusion) (lambdas : List LambdaExpression) :
    ∃ copy, Copies isRelation (LeadsAlong ((extractIncludePaths entries).map pathTexts)) copy ∧
      copy [] = readEntity isRelation isToMany fresh entries lambdas := by
  have hchange : KeepsEntity isRelation (normalizeLambdaCollections fresh isToMany lambdas) := by
    refine KeepsEntity.foldl fun relation hrelation => ?_
    refine keepsEntity_normalizeCollection hnames (hmany relation ?_)
    obtain ⟨lambda, -, hhead⟩ := List.mem_filterMap.mp (List.mem_eraseDups.mp hrelation)
    exact (Option.filter_eq_some_iff.mp hhead).2
  refine ⟨_, copies_fetch.comp_root hchange, funext fun entity => ?_⟩
  rw [if_pos rfl]
  rfl

end Read

/-! ## The include list supplies what is validated -/

section Validated

variable {isRelation : Text → Bool} {paths : List (List Text)} {maxDepth : Nat}
  {lambdaPaths : List Text}

theorem validateAllLambdas_eq_ok {expressions : List ParsedExpression} {aliases : List Text}
    {depth : Nat}
    (h : validateAllLambdas maxDepth lambdaPaths expressions aliases depth = .ok ()) :
    ∀ expr ∈ expressions, validateLambdas maxDepth lambdaPaths expr aliases depth = .ok () := by
  induction expressions with
  | nil => simp
  | cons expr rest ih =>
    rw [validateAllLambdas] at h
    obtain ⟨_, hfirst, hrest⟩ := bind_eq_ok.mp h
    exact List.forall_mem_cons.mpr ⟨hfirst, ih hrest⟩

theorem assertAliasedField_eq_ok {field : Text} {aliases : List Text} (hne : aliases ≠ [])
    (h : assertAliasedField field aliases lambdaPaths = .ok ()) :
    (field.splitOn '/').headD [] ≠ [] ∧ (field.splitOn '/').tail ≠ [] ∧
      (field.splitOn '/').headD [] ∈ aliases := by
  unfold assertAliasedField at h
  rw [if_neg hne] at h
  split at h
  next token second rest hsegments =>
    split at h
    · cases h
    next hscope =>
      obtain ⟨htoken, hmem⟩ := not_or.mp hscope
      rw [hsegments]
      exact ⟨htoken, List.cons_ne_nil _ _, not_not.mp hmem⟩
  · cases h

theorem forM_eq_ok {ε α : Type} {f : α → Except ε Unit} {items : List α}
    (h : items.forM f = .ok ()) : ∀ item ∈ items, f item = .ok () := by
  induction items with
  | nil => simp
  | cons item items ih =>
    rw [List.forM_eq_forM, List.forM_cons] at h
    obtain ⟨_, hfirst, hrest⟩ := bind_eq_ok.mp h
    exact List.forall_mem_cons.mpr ⟨hfirst, ih hrest⟩

theorem startsInScope_eq_true {aliases path : List Text} (h : startsInScope aliases path = true) :
    path.headD [] ≠ [] ∧ path.tail ≠ [] ∧ path.headD [] ∈ aliases := by
  unfold startsInScope at h
  split at h
  next first second rest =>
    obtain ⟨hfirst, hmem⟩ := (Bool.and_eq_true _ _).mp h
    exact ⟨by simpa using hfirst, List.cons_ne_nil _ _, by simpa using hmem⟩
  · cases h

theorem mem_allNestedIncludePaths {aliasPaths : Bindings (List Text)}
    {expressions : List ParsedExpression} {path : List Text} :
    path ∈ allNestedIncludePaths aliasPaths expressions ↔
      ∃ expr ∈ expressions, path ∈ nestedIncludePaths aliasPaths expr := by
  induction expressions with
  | nil => simp [allNestedIncludePaths]
  | cons expr rest ih => rw [allNestedIncludePaths, List.mem_append, ih, List.exists_mem_cons_iff]

/-- Inside of a lambda: what has been validated finds the range variables that it starts from, and
the nested paths lead to what they stand for. -/
theorem supplied_inside {expr : ParsedExpression} {aliasPaths : Bindings (List Text)}
    {aliases : List Text} {depth : Nat}
    (hvalid : validateLambdas maxDepth lambdaPaths expr aliases depth = .ok ())
    (huses : UsesModel isRelation true expr) (hne : aliases ≠ [])
    (hscope : ∀ name ∈ aliases, ∃ base, aliasPaths.lookup name = some base ∧
      ∀ segment ∈ base, isRelation segment = true)
    (hcover : ∀ path ∈ nestedIncludePaths aliasPaths expr, path ≠ [] →
      (∀ segment ∈ path, isRelation segment = true) → LeadsAlong paths path) :
    Supplied (LeadsAlong paths) aliasPaths expr := by
  induction expr generalizing aliasPaths aliases depth with
  | leaf leaf =>
    rw [validateLambdas] at hvalid
    rw [Supplied]
    intro _ field hfield
    obtain ⟨hhead, htail, hmem⟩ := assertAliasedField_eq_ok hne (forM_eq_ok hvalid field hfield)
    obtain ⟨base, hlookup, _⟩ := hscope _ hmem
    exact ⟨hhead, htail, by rw [hlookup]; rfl⟩
  | logical type expressions ih =>
    rw [validateLambdas] at hvalid
    rw [UsesModel, allUseModel_iff] at huses
    rw [nestedIncludePaths] at hcover
    rw [Supplied, allSupplied_iff]
    split at hvalid
    · cases hvalid
    intro expr hexpr
    exact ih expr hexpr (validateAllLambdas_eq_ok hvalid expr hexpr) (huses expr hexpr) hne hscope
      fun path hpath => hcover path (mem_allNestedIncludePaths.mpr ⟨expr, hexpr, hpath⟩)
  | not expr ih =>
    rw [validateLambdas] at hvalid
    rw [UsesModel] at huses
    rw [nestedIncludePaths] at hcover
    rw [Supplied]
    exact ih hvalid huses hne hscope hcover
  | lambda type path aliasName predicate ih =>
    rw [validateLambdas] at hvalid
    rw [UsesModel, if_pos rfl] at huses
    obtain ⟨hrelations, huses⟩ := huses
    split at hvalid
    · cases hvalid
    split at hvalid
    · cases hvalid
    next hstart =>
      have hstart : startsInScope aliases path = true := by simpa [hne] using hstart
      obtain ⟨hhead, htail, hmem⟩ := startsInScope_eq_true hstart
      obtain ⟨outer, hlookup, houter⟩ := hscope _ hmem
      have hinclude : includePathOf aliasPaths path = some (outer ++ path.tail) := by
        rw [includePathOf, if_neg (not_or.mpr ⟨hhead, htail⟩), hlookup]
        rfl
      have hsome : aliasPaths ≠ [] := by
        rintro rfl
        cases hlookup
      have hbase : ∀ segment ∈ outer ++ path.tail, isRelation segment = true :=
        List.forall_mem_append.mpr ⟨houter, hrelations⟩
      rw [nestedIncludePaths, hinclude] at hcover
      rw [Supplied]
      refine ⟨outer ++ path.tail, by rw [basePathOf, if_neg hsome, hinclude],
        hcover _ List.mem_cons_self (List.append_ne_nil_of_right_ne_nil _ htail) hbase, ?_⟩
      refine ih hvalid huses (by simp) ?_ fun path hpath =>
        hcover path (List.mem_cons_of_mem _ hpath)
      intro name hname
      rw [List.lookup_cons]
      split
      · exact ⟨_, rfl, hbase⟩
      next hother =>
        rcases List.mem_append.mp hname with hname | hname
        · exact hscope name hname
        · rw [List.mem_singleton.mp hname, beq_self_eq_true] at hother
          cases hother

/-- A lambda at the top. -/
theorem supplied_lambda {lambda : LambdaExpression} {depth : Nat}
    (hvalid : validateLambdas maxDepth lambdaPaths lambda.toExpression [] depth = .ok ())
    (hpath : lambda.path ≠ []) (huses : UsesModel isRelation false lambda.toExpression)
    (hcover : ∀ path ∈ lambdaIncludePaths lambda, path ≠ [] →
      (∀ segment ∈ path, isRelation segment = true) → LeadsAlong paths path) :
    Supplied (LeadsAlong paths) [] lambda.toExpression := by
  rw [LambdaExpression.toExpression, UsesModel, if_neg (by simp)] at huses
  obtain ⟨hrelations, huses⟩ := huses
  rw [LambdaExpression.toExpression, validateLambdas] at hvalid
  rw [LambdaExpression.toExpression, Supplied]
  refine ⟨lambda.path, rfl, hcover _ List.mem_cons_self hpath hrelations, ?_⟩
  split at hvalid
  · cases hvalid
  rw [if_neg (by simp)] at hvalid
  refine supplied_inside hvalid huses (by simp) ?_ fun path hpath => hcover path ?_
  · intro name hname
    obtain rfl : name = lambda.aliasName := by simpa using hname
    exact ⟨lambda.path, by simp, hrelations⟩
  · rw [lambdaIncludePaths, collectNestedLambdaIncludePaths]
    exact List.mem_cons_of_mem _ (List.mem_eraseDups.mpr hpath)

theorem mem_allRootLambdas {aliases : List Text} {expressions : List ParsedExpression}
    {lambda : LambdaExpression} :
    lambda ∈ allRootLambdas aliases expressions ↔
      ∃ expr ∈ expressions, lambda ∈ rootLambdas aliases expr := by
  induction expressions with
  | nil => simp [allRootLambdas]
  | cons expr rest ih => rw [allRootLambdas, List.mem_append, ih, List.exists_mem_cons_iff]

theorem startsInScope_nil (path : List Text) : startsInScope [] path = false := by
  unfold startsInScope
  split <;> simp

/-- An expression outside of all lambdas. -/
theorem supplied_outside {expr : ParsedExpression} {depth : Nat}
    (hvalid : validateLambdas maxDepth lambdaPaths expr [] depth = .ok ())
    (hnavigates : Navigates expr) (huses : UsesModel isRelation false expr)
    (hcover : ∀ lambda ∈ rootLambdas [] expr, ∀ path ∈ lambdaIncludePaths lambda, path ≠ [] →
      (∀ segment ∈ path, isRelation segment = true) → LeadsAlong paths path) :
    Supplied (LeadsAlong paths) [] expr := by
  induction expr with
  | leaf leaf =>
    rw [Supplied]
    exact fun h => absurd rfl h
  | logical type expressions ih =>
    rw [validateLambdas, if_neg (by simp)] at hvalid
    rw [Navigates, navigatesAll_iff] at hnavigates
    rw [UsesModel, allUseModel_iff] at huses
    rw [Supplied, allSupplied_iff]
    intro expr hexpr
    refine ih expr hexpr (validateAllLambdas_eq_ok hvalid expr hexpr) (hnavigates expr hexpr)
      (huses expr hexpr)
      fun lambda hlambda => hcover lambda ?_
    rw [rootLambdas, mem_allRootLambdas]
    exact ⟨expr, hexpr, hlambda⟩
  | not expr ih =>
    rw [validateLambdas] at hvalid
    rw [Navigates] at hnavigates
    rw [UsesModel] at huses
    rw [Supplied]
    exact ih hvalid hnavigates huses hcover
  | lambda type path aliasName predicate _ =>
    rw [Navigates] at hnavigates
    refine @supplied_lambda isRelation paths maxDepth lambdaPaths
      ⟨type, path, aliasName, predicate⟩ depth hvalid hnavigates.1 huses (hcover _ ?_)
    rw [rootLambdas, startsInScope_nil]
    exact List.mem_cons_self

end Validated

/-! ### The paths of the include list -/

section Included

variable {isRelation : Text → Bool}

theorem pathTexts_toIncludePath (hnames : NamesRelations isRelation) {path : List Text}
    (hpath : ∀ segment ∈ path, isRelation segment = true) :
    pathTexts (toIncludePath path) = path := by
  induction path with
  | nil => rfl
  | cons segment rest ih =>
    obtain ⟨hsegment, hrest⟩ := List.forall_mem_cons.mp hpath
    rw [toIncludePath, dif_pos (hnames segment hsegment)]
    exact congrArg (segment :: ·) (ih hrest)

theorem firstOfKey_eq {seen : List Text} {lambdas : List LambdaExpression}
    (hdistinct : (lambdas.map lambdaKey).Nodup)
    (hnew : ∀ lambda ∈ lambdas, lambdaKey lambda ∉ seen) : firstOfKey seen lambdas = lambdas := by
  induction lambdas generalizing seen with
  | nil => rfl
  | cons lambda rest ih =>
    rw [List.map_cons, List.nodup_cons] at hdistinct
    obtain ⟨hfirst, hrest⟩ := List.forall_mem_cons.mp hnew
    rw [firstOfKey, if_neg hfirst, ih hdistinct.2]
    intro other hother hseen
    rcases List.mem_cons.mp hseen with heq | hseen
    · exact hdistinct.1 (heq ▸ List.mem_map_of_mem hother)
    · exact hrest other hother hseen

theorem leadsAlong_ensureLambdasInclusion (hnames : NamesRelations isRelation)
    {entries entries' : List NormalizedInclusion} {lambdas : List LambdaExpression}
    (h : ensureLambdasInclusion entries lambdas = .ok entries') {lambda : LambdaExpression}
    (hlambda : lambda ∈ lambdas) {path : List Text} (hpath : path ∈ lambdaIncludePaths lambda)
    (hne : path ≠ []) (hrelations : ∀ segment ∈ path, isRelation segment = true) :
    LeadsAlong ((extractIncludePaths entries').map pathTexts) path := by
  unfold ensureLambdasInclusion at h
  split at h
  · cases h
  obtain rfl := Except.ok.inj h
  have htexts := pathTexts_toIncludePath hnames hrelations
  have hsome : toIncludePath path ≠ [] := by
    intro h
    rw [h] at htexts
    exact hne htexts.symm
  refine ⟨path, List.mem_map.mpr ⟨toIncludePath path, ?_, htexts⟩, List.prefix_refl _⟩
  rw [mem_extractIncludePaths, adds_foldl_ensureIncludePath]
  refine Or.inr ⟨hsome, toIncludePath path, List.mem_map_of_mem ?_, List.prefix_refl _⟩
  exact List.mem_flatMap.mpr ⟨lambda, hlambda, hpath⟩

end Included

end InMemory

end LoopbackOData
