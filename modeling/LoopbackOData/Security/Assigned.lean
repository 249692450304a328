import LoopbackOData.Security.Collected

/-!
# Assigned security metadata

A generated method gets the value of the first collected method that stands for it, by its own name
or by an alias.
-/

namespace LoopbackOData

namespace Security

open Dictionary

set_option autoImplicit false

theorem findSome?_congr {β γ : Type} {f g : β → Option γ} {l : List β}
    (h : ∀ x ∈ l, f x = g x) : l.findSome? f = l.findSome? g := by
  induction l with
  | nil => rfl
  | cons x l ih =>
    rw [List.findSome?_cons, List.findSome?_cons, h x List.mem_cons_self,
      ih fun y hy => h y (List.mem_cons_of_mem x hy)]

/-! ## Assigned metadata -/

section Assign

variable {α : Type} {controllerMethods : List Text} {remap : Option MethodAliasMap}

theorem get_assignTarget (value : α) (methodValues : Dictionary Text α) (targetName name : Text) :
    (assignTarget controllerMethods value methodValues targetName).get name =
      (methodValues.get name).or
        (if name ∈ controllerMethods ∧ name = targetName then some value else none) := by
  unfold assignTarget
  by_cases hname : name = targetName
  · subst hname
    by_cases hmem : name ∈ controllerMethods
    · rw [has_eq_isSome]
      cases hget : methodValues.get name with
      | none => simp [hmem]
      | some v => simp [hget]
    · rw [if_pos (Or.inl hmem)]
      simp [hmem]
  · have hnot : ¬ (name ∈ controllerMethods ∧ name = targetName) := fun h => hname h.2
    rw [if_neg hnot, Option.or_none]
    split
    · rfl
    · exact get_set_of_ne (Ne.symm hname)

theorem get_foldl_assignTarget (value : α) (targets : List Text)
    (methodValues : Dictionary Text α) (name : Text) :
    (targets.foldl (assignTarget controllerMethods value) methodValues).get name =
      (methodValues.get name).or
        (if name ∈ controllerMethods ∧ name ∈ targets then some value else none) := by
  induction targets generalizing methodValues with
  | nil => simp
  | cons target targets ih =>
    rw [List.foldl_cons, ih, get_assignTarget, Option.or_assoc]
    apply congrArg
    by_cases hname : name = target
    · by_cases hmem : name ∈ controllerMethods
      · rw [hname] at hmem ⊢
        simp [hmem]
      · simp [hmem]
    · simp [hname]

/-- The value of the first method that stands for the name. -/
theorem get_methodValuesOf (mapping : MetadataAlias)
    {methodMetadata : Dictionary Text (Dictionary MetadataAlias α)}
    (hdistinct : Distinct methodMetadata) (name : Text) :
    (methodValuesOf controllerMethods remap mapping methodMetadata).get name =
      (methodMetadata.map Prod.fst).findSome? fun source =>
        if name ∈ controllerMethods ∧ name ∈ resolveMethodAliasNames source remap then
          valueAt methodMetadata source mapping
        else none := by
  have hfold (entries : Dictionary Text (Dictionary MetadataAlias α))
      (methodValues : Dictionary Text α) :
      (entries.foldl (assignMethod controllerMethods remap mapping) methodValues).get name =
        (methodValues.get name).or (entries.findSome? fun entry =>
          if name ∈ controllerMethods ∧ name ∈ resolveMethodAliasNames entry.1 remap then
            entry.2.get mapping
          else none) := by
    induction entries generalizing methodValues with
    | nil => exact Option.or_none.symm
    | cons entry entries ih =>
      rw [List.foldl_cons, ih, assignMethod, List.findSome?_cons]
      cases hvalue : entry.2.get mapping with
      | none => simp
      | some value =>
        dsimp only
        rw [get_foldl_assignTarget, Option.or_assoc]
        apply congrArg
        split <;> simp
  rw [methodValuesOf, hfold, get_empty, Option.none_or, List.findSome?_map]
  apply findSome?_congr
  intro entry hentry
  have hget := hdistinct.mem_iff.mp hentry
  rw [Function.comp_apply, valueAt, hget, Option.bind_some]

theorem get_applyAlias (metadata : ControllerSecurityMetadata α) (target : GeneratedMetadata α)
    (mapping : MetadataAlias) (key : MetadataKey) (name : Text) :
    (applyAlias controllerMethods metadata remap target mapping).methodValue key name =
      if key ∈ mapping.methodKeys ∧
          (methodValuesOf controllerMethods remap mapping metadata.methodMetadata).isEmpty =
            false then
        (methodValuesOf controllerMethods remap mapping metadata.methodMetadata).get name
      else target.methodValue key name := by
  have hfold (values : Dictionary Text α) (keys : List MetadataKey)
      (defined : Dictionary MetadataKey (Dictionary Text α)) :
      (keys.foldl (fun defined key => defined.set key values) defined).get key =
        if key ∈ keys then some values else defined.get key := by
    induction keys generalizing defined with
    | nil => rfl
    | cons first keys ih =>
      rw [List.foldl_cons, ih, get_set]
      by_cases hkey : first = key
      · simp [hkey]
      · simp [hkey, Ne.symm hkey]
  rw [GeneratedMetadata.methodValue, applyAlias]
  dsimp only
  cases hempty : (methodValuesOf controllerMethods remap mapping
      metadata.methodMetadata).isEmpty with
  | true =>
    rw [if_pos rfl, if_neg (fun h => Bool.false_ne_true h.2.symm)]
    rfl
  | false =>
    rw [if_neg Bool.false_ne_true, hfold]
    by_cases hkey : key ∈ mapping.methodKeys
    · rw [if_pos hkey, if_pos ⟨hkey, rfl⟩]
      rfl
    · rw [if_neg hkey, if_neg (fun h => hkey h.1)]
      rfl

theorem isEmpty_methodValuesOf {ctor : SourceClass α} {mapping mapping' : MetadataAlias}
    (hsome : ∀ name, (readMetadata (ctor.methodMetadata name) mapping.methodKeys).isSome =
      (readMetadata (ctor.methodMetadata name) mapping'.methodKeys).isSome)
    (h : (methodValuesOf controllerMethods remap mapping'
      (allCollected ctor).methodMetadata).isEmpty = true) :
    (methodValuesOf controllerMethods remap mapping
      (allCollected ctor).methodMetadata).isEmpty = true := by
  rw [isEmpty_iff_get] at h ⊢
  intro name
  have hnone := h name
  rw [get_methodValuesOf _ distinct_allCollected, keys_allCollected,
    List.findSome?_eq_none_iff] at hnone ⊢
  intro source hsource
  have hmethod := mem_methods_of_mem_collected hsource
  have hvalue := hnone source hsource
  rw [valueAt_allCollected hmethod] at hvalue ⊢
  split at hvalue
  · next hstands =>
    rw [if_pos hstands]
    have hfalse := hsome source
    rw [hvalue, Option.isSome_none] at hfalse
    exact Option.isSome_eq_false_iff.mp hfalse |> Option.isNone_iff_eq_none.mp
  · next hstands => rw [if_neg hstands]

/-- Of the two aliases that define a key, the second counts. -/
theorem methodValue_applyAliases (ctor : SourceClass α) (key : MetadataKey) (name : Text) :
    (metadataAliases.foldl (applyAlias controllerMethods (allCollected ctor) remap)
        ⟨Dictionary.empty, Dictionary.empty⟩).methodValue key name =
      (methodValuesOf controllerMethods remap key.mapping
        (allCollected ctor).methodMetadata).get name := by
  have hnone (mapping : MetadataAlias) (h : (methodValuesOf controllerMethods remap mapping
      (allCollected ctor).methodMetadata).isEmpty = true) :
      (methodValuesOf controllerMethods remap mapping
        (allCollected ctor).methodMetadata).get name = none := (isEmpty_iff_get _).mp h name
  have hauthentication := @isEmpty_methodValuesOf α controllerMethods remap ctor
    .authenticationMetadata .authenticationMethod fun _ => isSome_readMetadata _ _ _
  have hauthorization := @isEmpty_methodValuesOf α controllerMethods remap ctor
    .authorizationMetadata .authorizationMethod fun _ => isSome_readMetadata _ _ _
  have hempty : (⟨Dictionary.empty, Dictionary.empty⟩ : GeneratedMetadata α).methodValue key name =
    none := rfl
  rw [metadataAliases]
  simp only [List.foldl_cons, List.foldl_nil, get_applyAlias, hempty]
  cases key with
  | legacyAuthentication | authentication =>
    simp only [MetadataAlias.methodKeys, MetadataKey.mapping, List.mem_cons, List.not_mem_nil,
      reduceCtorEq, or_false, false_or, false_and, true_and, if_false]
    split
    · rfl
    · next h =>
      rw [Bool.not_eq_false] at h
      rw [if_neg (by simp [hauthentication h]), hnone _ h]
  | legacyAuthorization | authorization =>
    simp only [MetadataAlias.methodKeys, MetadataKey.mapping, List.mem_cons, List.not_mem_nil,
      reduceCtorEq, or_false, false_or, false_and, true_and, if_false]
    split
    · rfl
    · next h =>
      rw [Bool.not_eq_false] at h
      rw [if_neg (by simp [hauthorization h]), hnone _ h]

end Assign

/-! ## Aliases -/

section Aliases

variable {kind : ControllerKind} {controllerMethods : List Text} {source target : Text}

/-- That a source has a target among its aliases. -/
def Derives (derived : DerivedAliases) (source target : Text) : Prop :=
  ∃ priority, ((derived.get source).getD Dictionary.empty).get target = some priority

theorem derives_addAlias (derived : DerivedAliases) (name name' : Text) (priority : Nat) :
    Derives (addAlias controllerMethods derived name name' priority) source target ↔
      Derives derived source target ∨
        name = source ∧ name' = target ∧ target ∈ controllerMethods := by
  have hset (priority' : Nat) :
      Derives (derived.set name (((derived.get name).getD Dictionary.empty).set name' priority'))
        source target ↔ Derives derived source target ∨ name = source ∧ name' = target := by
    rw [Derives, Derives, get_set]
    by_cases hsource : name = source
    · subst hsource
      rw [if_pos rfl, Option.getD_some, get_set]
      by_cases htarget : name' = target
      · simp [htarget]
      · simp [htarget]
    · simp [hsource]
  unfold addAlias
  by_cases hmem : name' ∈ controllerMethods
  · have hiff : name = source ∧ name' = target ∧ target ∈ controllerMethods ↔
        name = source ∧ name' = target :=
      ⟨fun h => ⟨h.1, h.2.1⟩, fun h => ⟨h.1, h.2, h.2 ▸ hmem⟩⟩
    rw [if_neg (not_not_intro hmem), hiff]
    dsimp only
    cases hget : ((derived.get name).getD Dictionary.empty).get name' with
    | none => exact hset priority
    | some existing =>
      dsimp only
      split
      · exact hset priority
      · refine ⟨Or.inl, ?_⟩
        rintro (h | ⟨rfl, rfl⟩)
        · exact h
        · exact ⟨existing, hget⟩
  · rw [if_pos hmem]
    refine ⟨Or.inl, ?_⟩
    rintro (h | ⟨-, rfl, h⟩)
    · exact h
    · exact absurd h hmem

theorem derives_deriveMethodAliases (hasDelete : Bool) (derived : DerivedAliases) (name : Text) :
    Derives (deriveMethodAliases kind controllerMethods hasDelete derived name) source target ↔
      Derives derived source target ∨ name = source ∧
        target ∈ (defaultAliases kind controllerMethods hasDelete name).map Prod.fst ∧
          target ∈ controllerMethods := by
  rw [deriveMethodAliases]
  induction defaultAliases kind controllerMethods hasDelete name generalizing derived with
  | nil => simp
  | cons item items ih =>
    rw [List.foldl_cons, ih, derives_addAlias, List.map_cons, List.mem_cons, or_assoc]
    apply or_congr_right
    constructor
    · rintro (⟨h, h', hmem⟩ | ⟨h, h', hmem⟩)
      · exact ⟨h, Or.inl h'.symm, hmem⟩
      · exact ⟨h, Or.inr h', hmem⟩
    · rintro ⟨h, h' | h', hmem⟩
      · exact Or.inl ⟨h, h'.symm, hmem⟩
      · exact Or.inr ⟨h, h', hmem⟩

theorem derives_foldl_deriveMethodAliases (hasDelete : Bool) (names : List Text)
    (derived : DerivedAliases) :
    Derives (names.foldl (deriveMethodAliases kind controllerMethods hasDelete) derived)
        source target ↔
      Derives derived source target ∨ source ∈ names ∧
        target ∈ (defaultAliases kind controllerMethods hasDelete source).map Prod.fst ∧
          target ∈ controllerMethods := by
  induction names generalizing derived with
  | nil => simp
  | cons name names ih =>
    rw [List.foldl_cons, ih, derives_deriveMethodAliases, or_assoc, List.mem_cons]
    apply or_congr_right
    constructor
    · rintro (⟨rfl, h⟩ | ⟨h', h⟩)
      · exact ⟨Or.inl rfl, h⟩
      · exact ⟨Or.inr h', h⟩
    · rintro ⟨rfl | h', h⟩
      · exact Or.inl ⟨rfl, h⟩
      · exact Or.inr ⟨h', h⟩

theorem distinct_deriveMethodAliases (hasDelete : Bool) {derived : DerivedAliases}
    (h : Distinct derived) (name : Text) :
    Distinct (deriveMethodAliases kind controllerMethods hasDelete derived name) := by
  rw [deriveMethodAliases]
  induction defaultAliases kind controllerMethods hasDelete name generalizing derived with
  | nil => exact h
  | cons item items ih =>
    rw [List.foldl_cons]
    apply ih
    unfold addAlias
    dsimp only
    split
    · exact h
    · split
      · exact h.set
      · split
        · exact h.set
        · exact h

theorem distinct_foldl_deriveMethodAliases (hasDelete : Bool) (names : List Text)
    {derived : DerivedAliases} (h : Distinct derived) :
    Distinct (names.foldl (deriveMethodAliases kind controllerMethods hasDelete) derived) := by
  induction names generalizing derived with
  | nil => exact h
  | cons name names ih => exact ih (distinct_deriveMethodAliases hasDelete h name)

theorem mem_sortedAliases (aliases : Dictionary Text Nat) :
    target ∈ sortedAliases aliases ↔ ∃ priority, aliases.get target = some priority := by
  rw [sortedAliases, ((List.mergeSort_perm aliases _).map Prod.fst).mem_iff, ← has_iff,
    Dictionary.has, List.any_eq_true, List.mem_map]
  simp only [decide_eq_true_eq]

/-- The names that an entry of an alias map leaves. -/
def normalizeAliases (names : List Text) : Option (List Text) :=
  let normalized := (names.map trimText).filter (· ≠ [])
  if normalized = [] then none else some (distinctKeys normalized)

theorem get_mergeMethodAliases (aggregated : MethodAliasMap) (entry : Text × List Text) :
    (mergeMethodAliases aggregated entry).get source =
      if entry.1 = source then normalizeAliases entry.2 else aggregated.get source := by
  unfold mergeMethodAliases normalizeAliases
  dsimp only
  split
  · have hne (pair : Text × List Text) : decide (pair.1 ≠ entry.1) = !decide (pair.1 = entry.1) :=
      decide_not
    exact get_filter_ne aggregated entry.1 source
  · rw [get_set]

theorem get_foldl_mergeMethodAliases (aliases aggregated : MethodAliasMap) :
    (aliases.foldl mergeMethodAliases aggregated).get source =
      (Dictionary.get aliases.reverse source).elim (aggregated.get source) normalizeAliases := by
  induction aliases generalizing aggregated with
  | nil => rfl
  | cons entry aliases ih =>
    rw [List.foldl_cons, ih, List.reverse_cons, get_append, get_mergeMethodAliases]
    cases Dictionary.get aliases.reverse source with
    | some names => rfl
    | none =>
      rw [get_cons, Option.none_or]
      by_cases hentry : entry.1 = source
      · rw [if_pos hentry, if_pos hentry]
        rfl
      · rw [if_neg hentry, if_neg hentry]
        rfl

/-- The names that a source stands for besides its own, before they are trimmed. -/
def defaultTargets (kind : ControllerKind) (controllerMethods : List Text) (hasDelete : Bool)
    (source : Text) : List Text :=
  ((defaultAliases kind controllerMethods hasDelete source).map Prod.fst).filter
    (· ∈ controllerMethods)

/-- What is configured for a method: of several entries the last counts. -/
def configuredTargets (securityMethodAliases : Option MethodAliasMap) (source : Text) :
    Option (List Text) :=
  securityMethodAliases.bind fun aliases => Dictionary.get aliases.reverse source

/-- That a source stands for a method of the generated controller: it has its name, or the name is
configured for it, or derived where nothing is configured. -/
def StandsFor (kind : ControllerKind) (controllerMethods : List Text)
    (securityMethodAliases : Option MethodAliasMap) (hasDelete : Bool) (source target : Text) :
    Prop :=
  target = source ∨ target ≠ [] ∧
    ∃ name ∈ (configuredTargets securityMethodAliases source).getD
      (defaultTargets kind controllerMethods hasDelete source), trimText name = target

instance {hasDelete : Bool} {aliases : Option MethodAliasMap} :
    Decidable (StandsFor kind controllerMethods aliases hasDelete source target) :=
  inferInstanceAs (Decidable (_ ∨ _))

theorem mem_normalizeAliases (names : List Text) :
    target ∈ (normalizeAliases names).getD [] ↔
      target ≠ [] ∧ ∃ name ∈ names, trimText name = target := by
  have hmem : target ∈ (names.map trimText).filter (· ≠ []) ↔
      target ≠ [] ∧ ∃ name ∈ names, trimText name = target := by
    rw [List.mem_filter, List.mem_map, decide_eq_true_eq, and_comm]
  unfold normalizeAliases
  dsimp only
  split
  · next hnil =>
    rw [hnil] at hmem
    exact hmem
  · rw [Option.getD_some, mem_distinctKeys]
    exact hmem

theorem get_mergeMethodAliasMaps (first second : Option MethodAliasMap) (source : Text) :
    (mergeMethodAliasMaps [first, second]).bind (fun aliases => aliases.get source) =
      ((configuredTargets second source).or (configuredTargets first source)).bind
        normalizeAliases := by
  have hstep (aggregated : MethodAliasMap) (map : Option MethodAliasMap) :
      (mergeMethodAliasMap aggregated map).get source =
        (configuredTargets map source).elim (aggregated.get source) normalizeAliases := by
    cases map with
    | none => rfl
    | some map => exact get_foldl_mergeMethodAliases map aggregated
  have hget : Dictionary.get (mergeMethodAliasMap (mergeMethodAliasMap Dictionary.empty first)
      second) source = ((configuredTargets second source).or (configuredTargets first source)).bind
        normalizeAliases := by
    rw [hstep, hstep, get_empty]
    cases configuredTargets second source with
    | some names => rfl
    | none => cases configuredTargets first source <;> rfl
  unfold mergeMethodAliasMaps
  dsimp only [List.foldl_cons, List.foldl_nil]
  split
  · next hempty =>
    rw [← hget, (isEmpty_iff_get _).mp hempty source]
    rfl
  · exact hget

variable {α : Type} {ctor : SourceClass α} {aliases : Option MethodAliasMap}

/-- `hasExplicitDeleteMetadata` of a class. -/
def SourceClass.hasDelete (ctor : SourceClass α) : Bool :=
  ctor.collected.any fun name => name ∈ deleteAliasSources

theorem get_map_sortedAliases (derived : DerivedAliases) (source : Text) :
    Dictionary.get (derived.map fun entry => (entry.1, sortedAliases entry.2)) source =
      (derived.get source).map sortedAliases := by
  induction derived with
  | nil => rfl
  | cons entry derived ih =>
    rw [List.map_cons, get_cons, get_cons, ih]
    split <;> rfl

theorem mem_configuredTargets_derived (kind : ControllerKind) (controllerMethods : List Text)
    (hsource : source ∈ ctor.collected) (target : Text) :
    target ∈ (configuredTargets (deriveDefaultMethodAliases kind controllerMethods
        (some (allCollected ctor))) source).getD [] ↔
      target ∈ defaultTargets kind controllerMethods ctor.hasDelete source := by
  let derived := ctor.collected.foldl
    (deriveMethodAliases kind controllerMethods ctor.hasDelete) Dictionary.empty
  have hderives : Derives derived source target ↔
      target ∈ defaultTargets kind controllerMethods ctor.hasDelete source := by
    have hempty : ¬ Derives Dictionary.empty source target := by
      rintro ⟨priority, h⟩
      cases h
    rw [derives_foldl_deriveMethodAliases, or_iff_right hempty, and_iff_right hsource,
      defaultTargets, List.mem_filter, decide_eq_true_eq]
  have hdistinct : Distinct (derived.map fun entry => (entry.1, sortedAliases entry.2)) := by
    have h : Distinct derived := distinct_foldl_deriveMethodAliases _ _ distinct_empty
    rw [Distinct, List.map_map]
    exact h
  rw [← hderives, Derives, ← mem_sortedAliases]
  have hderive : deriveDefaultMethodAliases kind controllerMethods (some (allCollected ctor)) =
      if derived.isEmpty then none
      else some (derived.map fun entry => (entry.1, sortedAliases entry.2)) := by
    unfold deriveDefaultMethodAliases
    rw [Option.bind_some, keys_allCollected]
    rfl
  have hnil : sortedAliases ((none : Option (Dictionary Text Nat)).getD Dictionary.empty) = [] := by
    simp [sortedAliases, Dictionary.empty]
  rw [hderive]
  split
  · next hempty =>
    rw [(isEmpty_iff_get derived).mp hempty source, hnil]
    exact Iff.rfl
  · rw [configuredTargets, Option.bind_some, hdistinct.get_reverse, get_map_sortedAliases]
    cases derived.get source with
    | none =>
      rw [hnil]
      exact Iff.rfl
    | some targets => exact Iff.rfl

/-- The aliases of a collected method. -/
theorem mem_resolveMethodAliasNames (hsource : source ∈ ctor.collected) :
    target ∈ resolveMethodAliasNames source
        (methodNameRemapOf controllerMethods kind aliases (some (allCollected ctor))) ↔
      StandsFor kind controllerMethods aliases ctor.hasDelete source target := by
  rw [resolveMethodAliasNames, mem_distinctKeys, List.mem_cons, methodNameRemapOf,
    get_mergeMethodAliasMaps, StandsFor]
  apply or_congr_right
  cases configuredTargets aliases source with
  | some names =>
    rw [Option.some_or, Option.bind_some]
    exact mem_normalizeAliases names
  | none =>
    rw [Option.none_or, Option.getD_none]
    have hmem := mem_configuredTargets_derived kind controllerMethods hsource
    cases hderived : configuredTargets (deriveDefaultMethodAliases kind controllerMethods
        (some (allCollected ctor))) source with
    | none =>
      rw [hderived, Option.getD_none] at hmem
      simp [← hmem]
    | some names =>
      rw [hderived, Option.getD_some] at hmem
      rw [Option.bind_some, mem_normalizeAliases]
      simp only [hmem]

end Aliases

end Security

end LoopbackOData
