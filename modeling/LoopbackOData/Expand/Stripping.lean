import LoopbackOData.Expand.Injecting

/-!
# Stripping what was injected

`stripInjectedIncludesFromEntities` deletes the relations that the client did not ask for from the
entities that were fetched for a query. The entities are trees: no object is in two places.
-/

namespace LoopbackOData

namespace Injecting

set_option autoImplicit false

/-! ## Entities -/

/-- The values of an entity; `data` is anything that is neither an array nor an object. -/
inductive EntityValue (δ : Type) where
  | data (value : δ)
  | array (items : List (EntityValue δ))
  | object (properties : List (Text × EntityValue δ))

variable {δ : Type}

/-- An entity with its properties, relations among them. -/
abbrev EntityData (δ : Type) := List (Text × EntityValue δ)

def deleteProperty (entity : EntityData δ) (key : Text) : EntityData δ :=
  entity.filter fun property => property.1 ≠ key

mutual

def stripPath : EntityValue δ → IncludePath → EntityValue δ
  | .data value, _ => .data value
  | .array items, segments => .array (stripItems items segments)
  | .object properties, [] => .object properties
  | .object properties, [last] => .object (deleteProperty properties last.text)
  | .object properties, head :: next :: rest =>
    .object (stripProperty properties head.text (next :: rest))

def stripItems : List (EntityValue δ) → IncludePath → List (EntityValue δ)
  | [], _ => []
  | item :: items, segments => stripPath item segments :: stripItems items segments

/-- `stripPath(obj[head], rest)` changes the value of one property. -/
def stripProperty : List (Text × EntityValue δ) → Text → IncludePath →
    List (Text × EntityValue δ)
  | [], _, _ => []
  | (key, value) :: properties, head, rest =>
    (key, if key = head then stripPath value rest else value) ::
      stripProperty properties head rest

end

def stripEntity (entity : EntityData δ) : IncludePath → EntityData δ
  | [] => entity
  | [last] => deleteProperty entity last.text
  | head :: next :: rest => stripProperty entity head.text (next :: rest)

/-- The keys of all prefixes of the client's paths. -/
def clientPrefixSet (clientPaths : List IncludePath) : List Text :=
  clientPaths.flatMap fun path =>
    ((List.range path.length).map fun i => includePathKey (path.take (i + 1))).filter
      fun key => key ≠ []

/-- The loop over the injected paths, at one of them. -/
def stripInjected (clientPrefixSet : List Text) (entities : List (EntityData δ)) :
    IncludePath → List (EntityData δ)
  | [] => entities
  | root :: rest =>
    if includePathKey (root :: rest) ∈ clientPrefixSet then entities
    else if root.text ∉ clientPrefixSet then
      entities.map fun entity => deleteProperty entity root.text
    else entities.map fun entity => stripEntity entity (root :: rest)

def stripInjectedIncludesFromEntities (entities : List (EntityData δ))
    (injectedPaths clientPaths : List IncludePath) : List (EntityData δ) :=
  if entities.isEmpty || injectedPaths.isEmpty then entities
  else injectedPaths.foldl (stripInjected (clientPrefixSet clientPaths)) entities

/-! ## What is kept -/

mutual

/-- An entity without the properties at paths that are not kept; the path of a property is that of
the properties it is under, arrays not counted. -/
def keep (kept : List Text → Bool) : List Text → EntityValue δ → EntityValue δ
  | _, .data value => .data value
  | path, .array items => .array (keepItems kept path items)
  | path, .object properties => .object (keepProperties kept path properties)

def keepItems (kept : List Text → Bool) : List Text → List (EntityValue δ) → List (EntityValue δ)
  | _, [] => []
  | path, item :: items => keep kept path item :: keepItems kept path items

def keepProperties (kept : List Text → Bool) :
    List Text → List (Text × EntityValue δ) → List (Text × EntityValue δ)
  | _, [] => []
  | path, (key, value) :: properties =>
    if kept (path ++ [key]) then
      (key, keep kept (path ++ [key]) value) :: keepProperties kept path properties
    else keepProperties kept path properties

end

/-- A nonempty prefix of one of the paths. -/
def onPaths (paths : List IncludePath) (path : List Text) : Bool :=
  path ≠ [] && paths.any fun longer => path.isPrefixOf (pathTexts longer)

mutual

/-- Of the relations of its model, which depend on the path, an entity holds exactly those of a
tree of paths. -/
def HoldsExactly (relations : List Text → Text → Prop) (tree : List Text → Prop) :
    List Text → EntityValue δ → Prop
  | _, .data _ => True
  | path, .array items => ItemsHold relations tree path items
  | path, .object properties =>
    (∀ relation, relations path relation →
      (relation ∈ properties.map Prod.fst ↔ tree (path ++ [relation]))) ∧
    RelationsHold relations tree path properties

def ItemsHold (relations : List Text → Text → Prop) (tree : List Text → Prop) :
    List Text → List (EntityValue δ) → Prop
  | _, [] => True
  | path, item :: items =>
    HoldsExactly relations tree path item ∧ ItemsHold relations tree path items

def RelationsHold (relations : List Text → Text → Prop) (tree : List Text → Prop) :
    List Text → List (Text × EntityValue δ) → Prop
  | _, [] => True
  | path, (key, value) :: properties =>
    (relations path key → HoldsExactly relations tree (path ++ [key]) value) ∧
      RelationsHold relations tree path properties

end

/-! ## Keeping -/

section Keeping

variable {kept kept' : List Text → Bool}

mutual

/-- What two rounds keep is what one round keeps that asks both. -/
theorem keep_keep (kept kept' : List Text → Bool) (path : List Text) :
    ∀ value : EntityValue δ,
      keep kept path (keep kept' path value) = keep (fun q => kept' q && kept q) path value
  | .data value => rfl
  | .array items => by rw [keep, keep, keep, keepItems_keepItems]
  | .object properties => by rw [keep, keep, keep, keepProperties_keepProperties]

theorem keepItems_keepItems (kept kept' : List Text → Bool) (path : List Text) :
    ∀ items : List (EntityValue δ), keepItems kept path (keepItems kept' path items) =
      keepItems (fun q => kept' q && kept q) path items
  | [] => rfl
  | item :: items => by
    rw [keepItems, keepItems, keepItems, keep_keep, keepItems_keepItems]

theorem keepProperties_keepProperties (kept kept' : List Text → Bool) (path : List Text) :
    ∀ properties : List (Text × EntityValue δ),
      keepProperties kept path (keepProperties kept' path properties) =
        keepProperties (fun q => kept' q && kept q) path properties
  | [] => rfl
  | (key, value) :: properties => by
    have ih := keepProperties_keepProperties kept kept' path properties
    rw [keepProperties.eq_def kept', keepProperties.eq_def fun q => kept' q && kept q]
    dsimp only
    cases kept' (path ++ [key]) with
    | false => exact ih
    | true =>
      rw [if_pos rfl, keepProperties, keep_keep, ih, Bool.true_and]

end

mutual

/-- Two predicates that agree below the paths that are kept so far. -/
theorem keep_congr (path : List Text)
    (h : ∀ rest, (∀ shorter, shorter <+: rest → shorter ≠ rest → shorter ≠ [] →
      kept (path ++ shorter) = true) → kept (path ++ rest) = kept' (path ++ rest)) :
    ∀ value : EntityValue δ, keep kept path value = keep kept' path value
  | .data value => rfl
  | .array items => by rw [keep, keep, keepItems_congr path h]
  | .object properties => by rw [keep, keep, keepProperties_congr path h]

theorem keepItems_congr (path : List Text)
    (h : ∀ rest, (∀ shorter, shorter <+: rest → shorter ≠ rest → shorter ≠ [] →
      kept (path ++ shorter) = true) → kept (path ++ rest) = kept' (path ++ rest)) :
    ∀ items : List (EntityValue δ), keepItems kept path items = keepItems kept' path items
  | [] => rfl
  | item :: items => by rw [keepItems, keepItems, keep_congr path h, keepItems_congr path h]

theorem keepProperties_congr (path : List Text)
    (h : ∀ rest, (∀ shorter, shorter <+: rest → shorter ≠ rest → shorter ≠ [] →
      kept (path ++ shorter) = true) → kept (path ++ rest) = kept' (path ++ rest)) :
    ∀ properties : List (Text × EntityValue δ),
      keepProperties kept path properties = keepProperties kept' path properties
  | [] => rfl
  | (key, value) :: properties => by
    have hkey : kept (path ++ [key]) = kept' (path ++ [key]) := by
      refine h [key] fun shorter hprefix hne hnil => ?_
      rcases List.prefix_cons_iff.mp hprefix with rfl | ⟨rest, rfl, hrest⟩
      · exact absurd rfl hnil
      · rw [List.prefix_nil] at hrest
        exact absurd (by rw [hrest]) hne
    rw [keepProperties, keepProperties, keepProperties_congr path h properties, ← hkey]
    by_cases hkept : kept (path ++ [key]) = true
    · have hbelow : keep kept (path ++ [key]) value = keep kept' (path ++ [key]) value := by
        refine keep_congr (path ++ [key]) (fun rest hrest => ?_) value
        rw [List.append_assoc]
        refine h (key :: rest) fun shorter hprefix hne hnil => ?_
        rcases List.prefix_cons_iff.mp hprefix with rfl | ⟨shorter, rfl, hshorter⟩
        · exact absurd rfl hnil
        · by_cases hend : shorter = []
          · subst hend
            exact hkept
          · have hlonger := hrest shorter hshorter (fun heq => hne (by rw [heq])) hend
            rwa [List.append_assoc] at hlonger
      rw [hbelow]
    · rw [if_neg hkept, if_neg hkept]

end

mutual

theorem keep_all (path : List Text) (h : ∀ rest, rest ≠ [] → kept (path ++ rest) = true) :
    ∀ value : EntityValue δ, keep kept path value = value
  | .data value => rfl
  | .array items => by rw [keep, keepItems_all path h]
  | .object properties => by rw [keep, keepProperties_all path h]

theorem keepItems_all (path : List Text) (h : ∀ rest, rest ≠ [] → kept (path ++ rest) = true) :
    ∀ items : List (EntityValue δ), keepItems kept path items = items
  | [] => rfl
  | item :: items => by rw [keepItems, keep_all path h, keepItems_all path h]

theorem keepProperties_all (path : List Text)
    (h : ∀ rest, rest ≠ [] → kept (path ++ rest) = true) :
    ∀ properties : List (Text × EntityValue δ), keepProperties kept path properties = properties
  | [] => rfl
  | (key, value) :: properties => by
    have hbelow : ∀ rest, rest ≠ [] → kept (path ++ [key] ++ rest) = true := by
      intro rest _
      rw [List.append_assoc]
      exact h _ (List.cons_ne_nil _ _)
    rw [keepProperties, if_pos (h [key] (List.cons_ne_nil _ _)), keep_all _ hbelow,
      keepProperties_all path h]

end

/-! ### Each step of the loop keeps all paths but one -/

theorem deleteProperty_eq (path : List Text) (name : Text) (properties : EntityData δ) :
    deleteProperty properties name =
      keepProperties (fun q => decide (q ≠ path ++ [name])) path properties := by
  induction properties with
  | nil => rfl
  | cons property properties ih =>
    obtain ⟨key, value⟩ := property
    have hbelow : ∀ rest, rest ≠ [] →
        decide (path ++ [key] ++ rest ≠ path ++ [name]) = true := by
      intro rest hrest
      rw [decide_eq_true_eq, List.append_assoc]
      intro heq
      exact hrest (List.append_eq_nil_iff.mp (List.cons.inj (List.append_cancel_left heq)).2).2
    rw [keepProperties, ← ih, deleteProperty, keep_all _ hbelow, List.filter_cons]
    by_cases hkey : key = name
    · rw [if_neg (by simp [hkey]), if_neg (by simp [hkey])]
      rfl
    · rw [if_pos (by simpa using hkey), if_pos (by simpa using hkey)]
      rfl

mutual

theorem stripPath_eq (path : List Text) : ∀ (value : EntityValue δ) (segments : IncludePath),
    segments ≠ [] → stripPath value segments =
      keep (fun q => decide (q ≠ path ++ pathTexts segments)) path value
  | .data value, _, _ => by rw [stripPath, keep]
  | .array items, segments, h => by rw [stripPath, keep, stripItems_eq path items segments h]
  | .object _, [], h => absurd rfl h
  | .object properties, [last], _ => by
    rw [stripPath, keep, deleteProperty_eq path]
    rfl
  | .object properties, head :: next :: rest, _ => by
    rw [stripPath, keep, stripProperty_eq path properties head (next :: rest) (List.cons_ne_nil _ _)]

theorem stripItems_eq (path : List Text) : ∀ (items : List (EntityValue δ))
    (segments : IncludePath), segments ≠ [] → stripItems items segments =
      keepItems (fun q => decide (q ≠ path ++ pathTexts segments)) path items
  | [], _, _ => by rw [stripItems, keepItems]
  | item :: items, segments, h => by
    rw [stripItems, keepItems, stripPath_eq path item segments h,
      stripItems_eq path items segments h]

theorem stripProperty_eq (path : List Text) : ∀ (properties : List (Text × EntityValue δ))
    (head : RelationName) (rest : IncludePath), rest ≠ [] →
      stripProperty properties head.text rest =
        keepProperties (fun q => decide (q ≠ path ++ pathTexts (head :: rest))) path properties
  | [], _, _, _ => by rw [stripProperty, keepProperties]
  | (key, value) :: properties, head, rest, h => by
    have hkept : decide (path ++ [key] ≠ path ++ pathTexts (head :: rest)) = true := by
      rw [decide_eq_true_eq]
      intro heq
      have hnil := (List.cons.inj (List.append_cancel_left heq)).2
      exact h (List.map_eq_nil_iff.mp hnil.symm)
    rw [stripProperty, keepProperties, if_pos hkept, stripProperty_eq path properties head rest h]
    congr 2
    by_cases hkey : key = head.text
    · subst hkey
      rw [if_pos rfl, stripPath_eq (path ++ [head.text]) value rest h]
      simp [pathTexts]
    · rw [if_neg hkey, keep_all]
      intro below _
      rw [decide_eq_true_eq, List.append_assoc]
      intro heq
      exact hkey (List.cons.inj (List.append_cancel_left heq)).1

end

theorem stripEntity_eq (entity : EntityData δ) {segments : IncludePath} (h : segments ≠ []) :
    stripEntity entity segments =
      keepProperties (fun q => decide (q ≠ pathTexts segments)) [] entity := by
  match segments with
  | [last] => exact deleteProperty_eq [] last.text entity
  | head :: next :: rest => exact stripProperty_eq [] entity head (next :: rest) (List.cons_ne_nil _ _)

end Keeping

/-! ## The whole loop -/

section Loop

/-- Whether the loop deletes the property at a path because of an injected path. -/
def gone (clientKeys : List Text) : IncludePath → List Text → Bool
  | [], _ => false
  | root :: rest, path =>
    if includePathKey (root :: rest) ∈ clientKeys then false
    else if root.text ∉ clientKeys then path = [root.text]
    else path = pathTexts (root :: rest)

theorem stripInjected_eq (clientKeys : List Text) (entities : List (EntityData δ))
    (injected : IncludePath) :
    stripInjected clientKeys entities injected =
      entities.map (keepProperties (fun q => !gone clientKeys injected q) []) := by
  have hall : entities = entities.map (keepProperties (fun _ => true) []) := by
    conv_lhs => rw [← List.map_id entities]
    exact List.map_congr_left fun entity _ => (keepProperties_all [] (fun _ _ => rfl) entity).symm
  cases injected with
  | nil => exact hall
  | cons root rest =>
    rw [stripInjected]
    by_cases hclient : includePathKey (root :: rest) ∈ clientKeys
    · rw [if_pos hclient]
      simpa only [gone, if_pos hclient, Bool.not_false] using hall
    · rw [if_neg hclient]
      by_cases hroot : root.text ∉ clientKeys
      · rw [if_pos hroot]
        refine List.map_congr_left fun entity _ => ?_
        rw [deleteProperty_eq []]
        congr 1
        funext q
        simp [gone, hclient, hroot]
      · rw [if_neg hroot]
        refine List.map_congr_left fun entity _ => ?_
        rw [stripEntity_eq entity (List.cons_ne_nil _ _)]
        congr 1
        funext q
        simp [gone, hclient, hroot]

theorem foldl_stripInjected_eq (clientKeys : List Text) (injectedPaths : List IncludePath)
    (entities : List (EntityData δ)) :
    injectedPaths.foldl (stripInjected clientKeys) entities =
      entities.map (keepProperties
        (fun q => injectedPaths.all fun injected => !gone clientKeys injected q) []) := by
  induction injectedPaths generalizing entities with
  | nil =>
    conv_lhs => rw [List.foldl_nil, ← List.map_id entities]
    exact List.map_congr_left fun entity _ => (keepProperties_all [] (fun _ _ => rfl) entity).symm
  | cons injected injectedPaths ih =>
    rw [List.foldl_cons, ih, stripInjected_eq, List.map_map]
    refine List.map_congr_left fun entity _ => ?_
    exact keepProperties_keepProperties _ _ [] entity

theorem stripInjectedIncludesFromEntities_eq (entities : List (EntityData δ))
    (injectedPaths clientPaths : List IncludePath) :
    stripInjectedIncludesFromEntities entities injectedPaths clientPaths =
      entities.map (keepProperties (fun q => injectedPaths.all fun injected =>
        !gone (clientPrefixSet clientPaths) injected q) []) := by
  unfold stripInjectedIncludesFromEntities
  split
  next hempty =>
    rw [Bool.or_eq_true, List.isEmpty_iff, List.isEmpty_iff] at hempty
    rcases hempty with rfl | rfl
    · rfl
    · exact foldl_stripInjected_eq (clientPrefixSet clientPaths) [] entities
  next => exact foldl_stripInjected_eq _ _ _

/-! ### Paths as keys and as texts -/

theorem mem_clientPrefixSet {clientPaths : List IncludePath} {path : IncludePath} :
    includePathKey path ∈ clientPrefixSet clientPaths ↔
      path ≠ [] ∧ ∃ longer ∈ clientPaths, path <+: longer := by
  simp only [clientPrefixSet, List.mem_flatMap, List.mem_filter, List.mem_map, List.mem_range,
    decide_eq_true_eq, ne_eq, includePathKey_eq_nil, includePathKey_inj]
  constructor
  · rintro ⟨longer, hlonger, ⟨i, -, rfl⟩, hne⟩
    exact ⟨hne, longer, hlonger, List.take_prefix _ _⟩
  · rintro ⟨hne, longer, hlonger, hprefix⟩
    refine ⟨longer, hlonger, ⟨path.length - 1, ?_, ?_⟩, hne⟩
    · have hlength := hprefix.length_le
      have hpos := List.length_pos_of_ne_nil hne
      omega
    · have hpos := List.length_pos_of_ne_nil hne
      rw [Nat.sub_add_cancel hpos]
      exact (List.prefix_iff_eq_take.mp hprefix).symm

theorem onPaths_iff {paths : List IncludePath} {path : List Text} :
    onPaths paths path = true ↔
      ∃ names : IncludePath, path = pathTexts names ∧ names ≠ [] ∧
        ∃ longer ∈ paths, names <+: longer := by
  simp only [onPaths, Bool.and_eq_true, decide_eq_true_eq, List.any_eq_true,
    List.isPrefixOf_iff_prefix]
  constructor
  · rintro ⟨hne, longer, hlonger, hprefix⟩
    obtain ⟨names, hnames, rfl⟩ := List.prefix_map_iff.mp hprefix
    exact ⟨names, rfl, fun heq => hne (by rw [heq]; rfl), longer, hlonger, hnames⟩
  · rintro ⟨names, rfl, hne, longer, hlonger, hprefix⟩
    exact ⟨fun heq => hne (List.map_eq_nil_iff.mp heq), longer, hlonger, hprefix.map _⟩

theorem onPaths_client_iff {client : ClientIncludes} {path : List Text} :
    onPaths client.paths path = true ↔
      ∃ names, path = pathTexts names ∧ Includes client.entries names := by
  rw [onPaths_iff]
  refine exists_congr fun names => and_congr_right fun _ => ?_
  constructor
  · rintro ⟨hne, longer, hlonger, hprefix⟩
    exact includes_of_longer (mem_extractIncludePaths.mp hlonger) hprefix hne
  · intro h
    exact ⟨ne_nil_of_includes h, names, mem_extractIncludePaths.mpr h, List.prefix_refl _⟩

theorem includes_client_iff {client : ClientIncludes} {names : IncludePath} :
    includePathKey names ∈ clientPrefixSet (mergeIncludePaths client.paths) ↔
      Includes client.entries names := by
  rw [mem_clientPrefixSet]
  constructor
  · rintro ⟨hne, longer, hlonger, hprefix⟩
    exact includes_of_longer (mem_extractIncludePaths.mp (mem_mergeIncludePaths.mp hlonger).1)
      hprefix hne
  · intro h
    exact ⟨ne_nil_of_includes h, names,
      mem_mergeIncludePaths.mpr ⟨mem_extractIncludePaths.mpr h, ne_nil_of_includes h⟩,
      List.prefix_refl _⟩

theorem includes_root_iff {client : ClientIncludes} {root : RelationName} :
    root.text ∈ clientPrefixSet (mergeIncludePaths client.paths) ↔
      Includes client.entries [root] := by
  rw [← includes_client_iff]
  exact Iff.of_eq (congrArg (· ∈ _) (@List.intercalate_singleton _ _ root.text).symm)

/-- The paths of the merged include tree: those of the client and those that were requested, with
all their prefixes. -/
def mergedPaths (client : ClientIncludes) (injections : List Injection) : List IncludePath :=
  client.paths ++ injections.flatMap Injection.requested

theorem onPaths_merged_iff {client : ClientIncludes} {injections : List Injection}
    {path : List Text} :
    onPaths (mergedPaths client injections) path = true ↔
      ∃ names, path = pathTexts names ∧ Includes (client.inject injections).entries names := by
  rw [onPaths_iff]
  refine exists_congr fun names => and_congr_right fun _ => ?_
  rw [(tracks_inject client injections).adds]
  simp only [mergedPaths, List.mem_append, or_and_right, exists_or]
  constructor
  · rintro ⟨hne, ⟨longer, hlonger, hprefix⟩ | hrequested⟩
    · exact .inl (includes_of_longer (mem_extractIncludePaths.mp hlonger) hprefix hne)
    · exact .inr ⟨hne, hrequested⟩
  · rintro (h | ⟨hne, hrequested⟩)
    · exact ⟨ne_nil_of_includes h, .inl ⟨names, mem_extractIncludePaths.mpr h, List.prefix_refl _⟩⟩
    · exact ⟨hne, .inr hrequested⟩

/-- What should be kept: everything but the merged relations that the client did not ask for. -/
def keptForClient (client : ClientIncludes) (injections : List Injection) (path : List Text) :
    Bool :=
  !onPaths (mergedPaths client injections) path || onPaths client.paths path

theorem keptForClient_eq_false_iff {client : ClientIncludes} {injections : List Injection}
    {names : IncludePath} :
    keptForClient client injections (pathTexts names) = false ↔
      Includes (client.inject injections).entries names ∧ ¬ Includes client.entries names := by
  have hnames {P : IncludePath → Prop} : (∃ other, pathTexts names = pathTexts other ∧ P other) ↔
      P names := by
    constructor
    · rintro ⟨other, heq, h⟩
      rwa [pathTexts_injective heq]
    · intro h
      exact ⟨names, rfl, h⟩
  rw [keptForClient, Bool.or_eq_false_iff, Bool.not_eq_false', ← Bool.not_eq_true (onPaths _ _),
    onPaths_merged_iff, onPaths_client_iff, hnames, hnames]

/-- Along the paths that should be kept, the loop deletes what should not be. -/
theorem all_not_gone_iff (client : ClientIncludes) (injections : List Injection)
    {path : List Text} (hshorter : ∀ shorter, shorter <+: path → shorter ≠ path → shorter ≠ [] →
      keptForClient client injections shorter = true) :
    keptForClient client injections path =
      (mergeIncludePaths (client.inject injections).injectedIncludePaths).all fun injected =>
        !gone (clientPrefixSet (mergeIncludePaths client.paths)) injected path := by
  have htracks := tracks_inject client injections
  rw [Bool.eq_iff_iff, ← not_iff_not, Bool.not_eq_true, Bool.not_eq_true, List.all_eq_false]
  simp only [Bool.not_eq_true, Bool.not_eq_false', mem_mergeIncludePaths]
  constructor
  · intro hfalse
    have hmerged : onPaths (mergedPaths client injections) path = true := by
      rw [keptForClient, Bool.or_eq_false_iff, Bool.not_eq_false'] at hfalse
      exact hfalse.1
    obtain ⟨names, rfl, hnames⟩ := onPaths_merged_iff.mp hmerged
    have hclient := (keptForClient_eq_false_iff.mp hfalse).2
    refine ⟨names, ⟨(htracks.injected names).mpr ⟨hnames, hclient⟩, ne_nil_of_includes hnames⟩, ?_⟩
    match names with
    | [] => exact absurd rfl (ne_nil_of_includes hnames)
    | root :: rest =>
      rw [gone, if_neg (fun hkey => hclient (includes_client_iff.mp hkey))]
      by_cases hrest : rest = []
      · subst hrest
        rw [if_pos fun hkey => hclient (includes_root_iff.mp hkey)]
        exact decide_eq_true rfl
      · -- the root is on a path of the client, or the path would not have been reached
        have hroot : Includes client.entries [root] := by
          have hkept := hshorter (pathTexts [root]) (List.prefix_iff_eq_append.mpr rfl)
            (fun heq => hrest (List.map_eq_nil_iff.mp (List.cons.inj heq).2.symm))
            (List.cons_ne_nil _ _)
          by_contra hnot
          rw [keptForClient_eq_false_iff.mpr ⟨includes_of_longer hnames
            (List.prefix_append [root] rest) (List.cons_ne_nil _ _), hnot⟩] at hkept
          cases hkept
        rw [if_neg (not_not_intro (includes_root_iff.mpr hroot))]
        exact decide_eq_true rfl
  · rintro ⟨injected, ⟨hinjected, hne⟩, hgone⟩
    obtain ⟨hmerged, hclient⟩ := (htracks.injected injected).mp hinjected
    match injected with
    | [] => exact absurd rfl hne
    | root :: rest =>
      rw [gone, if_neg (fun hkey => hclient (includes_client_iff.mp hkey))] at hgone
      split at hgone
      next hroot =>
        obtain rfl : path = pathTexts [root] := of_decide_eq_true hgone
        refine keptForClient_eq_false_iff.mpr ⟨includes_of_longer hmerged
          (List.prefix_append [root] rest) (List.cons_ne_nil _ _), fun hincludes => hroot ?_⟩
        exact includes_root_iff.mpr hincludes
      next =>
        obtain rfl : path = pathTexts (root :: rest) := of_decide_eq_true hgone
        exact keptForClient_eq_false_iff.mpr ⟨hmerged, hclient⟩

end Loop

/-! ## The relations that are left -/

section Left

variable {relations : List Text → Text → Prop} {tree tree' : List Text → Prop}
  {kept : List Text → Bool}

theorem mem_keys_keepProperties {path : List Text} {name : Text}
    {properties : List (Text × EntityValue δ)} :
    name ∈ (keepProperties kept path properties).map Prod.fst ↔
      name ∈ properties.map Prod.fst ∧ kept (path ++ [name]) = true := by
  induction properties with
  | nil => simp [keepProperties]
  | cons property properties ih =>
    obtain ⟨key, value⟩ := property
    rw [keepProperties]
    split
    next hkept =>
      rw [List.map_cons, List.mem_cons, ih, List.map_cons, List.mem_cons, or_and_right]
      refine or_congr ⟨fun h => ⟨h, ?_⟩, And.left⟩ Iff.rfl
      dsimp only at h
      rw [h, hkept]
    next hkept =>
      rw [ih, List.map_cons, List.mem_cons, or_and_right]
      constructor
      · exact Or.inr
      · rintro (⟨rfl, h⟩ | h)
        · exact absurd h hkept
        · exact h

mutual

/-- A tree of relations cut down to one that it contains. -/
theorem holdsExactly_keep (hkept : ∀ path, kept path = true ↔ (tree path → tree' path))
    (hsub : ∀ path, tree' path → tree path) (path : List Text) :
    ∀ value : EntityValue δ, HoldsExactly relations tree path value →
      HoldsExactly relations tree' path (keep kept path value)
  | .data _, _ => trivial
  | .array items, h => itemsHold_keep hkept hsub path items h
  | .object properties, h => by
    refine ⟨fun relation hrelation => ?_, relationsHold_keep hkept hsub path properties h.2⟩
    rw [mem_keys_keepProperties, h.1 relation hrelation, hkept]
    exact ⟨fun ⟨hmem, hto⟩ => hto hmem, fun hmem => ⟨hsub _ hmem, fun _ => hmem⟩⟩

theorem itemsHold_keep (hkept : ∀ path, kept path = true ↔ (tree path → tree' path))
    (hsub : ∀ path, tree' path → tree path) (path : List Text) :
    ∀ items : List (EntityValue δ), ItemsHold relations tree path items →
      ItemsHold relations tree' path (keepItems kept path items)
  | [], _ => trivial
  | item :: items, h =>
    ⟨holdsExactly_keep hkept hsub path item h.1, itemsHold_keep hkept hsub path items h.2⟩

theorem relationsHold_keep (hkept : ∀ path, kept path = true ↔ (tree path → tree' path))
    (hsub : ∀ path, tree' path → tree path) (path : List Text) :
    ∀ properties : List (Text × EntityValue δ), RelationsHold relations tree path properties →
      RelationsHold relations tree' path (keepProperties kept path properties)
  | [], _ => trivial
  | (key, value) :: properties, h => by
    have hrest := relationsHold_keep hkept hsub path properties h.2
    rw [keepProperties]
    split
    · exact ⟨fun hrelation => holdsExactly_keep hkept hsub _ value (h.1 hrelation), hrest⟩
    · exact hrest

end

end Left

/-- The fetched entities hold exactly the relations of the merged include tree. Afterwards they hold
exactly those on the client's paths, and nothing else has been taken away or changed. -/
theorem stripInjectedIncludesFromEntities_exact (client : ClientIncludes)
    (injections : List Injection) (relations : List Text → Text → Prop)
    (entities : List (EntityData δ))
    (h : ∀ entity ∈ entities, HoldsExactly relations
      (fun path => onPaths (mergedPaths client injections) path = true) [] (.object entity)) :
    let after := stripInjectedIncludesFromEntities entities
      (mergeIncludePaths (client.inject injections).injectedIncludePaths)
      (mergeIncludePaths client.paths)
    (∀ entity ∈ after, HoldsExactly relations (fun path => onPaths client.paths path = true) []
      (.object entity)) ∧
    after = entities.map (keepProperties (fun path =>
      !onPaths (mergedPaths client injections) path || onPaths client.paths path) []) := by
  have hafter : stripInjectedIncludesFromEntities entities
      (mergeIncludePaths (client.inject injections).injectedIncludePaths)
      (mergeIncludePaths client.paths) =
      entities.map (keepProperties (keptForClient client injections) []) := by
    rw [stripInjectedIncludesFromEntities_eq]
    refine List.map_congr_left fun entity _ => Eq.symm ?_
    apply keepProperties_congr
    intro path hpath
    exact all_not_gone_iff client injections hpath
  refine ⟨?_, hafter⟩
  rw [hafter, List.forall_mem_map]
  intro entity hentity
  refine holdsExactly_keep (fun path => ?_) (fun path hpath => ?_) [] (.object entity)
    (h entity hentity)
  · rw [keptForClient, Bool.or_eq_true, Bool.not_eq_true', ← Bool.not_eq_true, imp_iff_not_or]
  · -- the client's paths are among the merged ones
    obtain ⟨names, rfl, hne, longer, hlonger, hprefix⟩ := onPaths_iff.mp hpath
    exact onPaths_iff.mpr ⟨names, rfl, hne, longer, List.mem_append_left _ hlonger, hprefix⟩

/-- The client expands `items`, a filter needs `items/product` and `owner`. -/
theorem stripInjectedIncludesFromEntities_exact_items :
    let items : RelationName := ⟨"items".toList, by decide, by decide, by decide⟩
    let product : RelationName := ⟨"product".toList, by decide, by decide, by decide⟩
    let owner : RelationName := ⟨"owner".toList, by decide, by decide, by decide⟩
    let client : ClientIncludes := ⟨[.mk items []], List.nodup_singleton _⟩
    let injections : List Injection := [.paths [[items, product]], .relations [owner]]
    let relations : List Text → Text → Prop := fun path name =>
      path = [] ∧ (name = items.text ∨ name = owner.text) ∨
        path = [items.text] ∧ name = product.text
    let entities : List (EntityData Nat) := [[("id".toList, .data 1),
      (items.text, .array [.object [("id".toList, .data 2),
        (product.text, .object [("id".toList, .data 3)])]]),
      (owner.text, .object [("id".toList, .data 4)])]]
    let after := stripInjectedIncludesFromEntities entities
      (mergeIncludePaths (client.inject injections).injectedIncludePaths)
      (mergeIncludePaths client.paths)
    (∀ entity ∈ after, HoldsExactly relations (fun path => onPaths client.paths path = true) []
      (.object entity)) ∧
    after = entities.map (keepProperties (fun path =>
      !onPaths (mergedPaths client injections) path || onPaths client.paths path) []) := by
  refine stripInjectedIncludesFromEntities_exact _ _ _ _ ?_
  simp [HoldsExactly, RelationsHold, ItemsHold, mergedPaths, onPaths, ClientIncludes.paths,
    extractIncludePaths, visitEntries, visitEntry, Injection.requested, pathTexts]

end Injecting

end LoopbackOData
