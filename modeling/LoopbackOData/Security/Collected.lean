import LoopbackOData.Security.Metadata

/-!
# Collected security metadata

What is collected of a source controller: each of its own methods with metadata, those with
authentication metadata first, and under each alias what it reads for the method.
-/

namespace LoopbackOData

namespace Security

open Dictionary

set_option autoImplicit false

/-! ## Collected metadata -/

section Collect

variable {α : Type} {ctor : SourceClass α}

theorem get_collectMethod (mapping : MetadataAlias)
    (collected : Dictionary Text (Dictionary MetadataAlias α)) (methodName name : Text) :
    (collectMethod ctor mapping collected methodName).get name =
      if methodName = name then
        ((readMetadata (ctor.methodMetadata name) mapping.methodKeys).map fun value =>
          ((collected.get name).getD Dictionary.empty).set mapping value).or (collected.get name)
      else collected.get name := by
  unfold collectMethod
  by_cases hname : methodName = name
  · subst hname
    rw [if_pos rfl]
    cases readMetadata (ctor.methodMetadata methodName) mapping.methodKeys with
    | none => rfl
    | some value => exact get_set_self
  · rw [if_neg hname]
    cases readMetadata (ctor.methodMetadata methodName) mapping.methodKeys with
    | none => rfl
    | some value => exact get_set_of_ne hname

theorem get_foldl_collectMethod (mapping : MetadataAlias) {methods : List Text}
    (hnodup : methods.Nodup) (collected : Dictionary Text (Dictionary MetadataAlias α))
    (name : Text) :
    (methods.foldl (collectMethod ctor mapping) collected).get name =
      if name ∈ methods then
        ((readMetadata (ctor.methodMetadata name) mapping.methodKeys).map fun value =>
          ((collected.get name).getD Dictionary.empty).set mapping value).or (collected.get name)
      else collected.get name := by
  induction methods generalizing collected with
  | nil => rfl
  | cons method methods ih =>
    obtain ⟨hnot, hnodup⟩ := List.nodup_cons.mp hnodup
    rw [List.foldl_cons, ih hnodup]
    by_cases hname : method = name
    · subst hname
      rw [if_neg hnot, if_pos List.mem_cons_self, get_collectMethod, if_pos rfl]
    · have hmem : name ∈ method :: methods ↔ name ∈ methods := by
        rw [List.mem_cons]
        exact or_iff_right (Ne.symm hname)
      rw [get_collectMethod, if_neg hname]
      simp only [hmem]

theorem keys_foldl_collectMethod (mapping : MetadataAlias) {methods : List Text}
    (hnodup : methods.Nodup) (collected : Dictionary Text (Dictionary MetadataAlias α)) :
    (methods.foldl (collectMethod ctor mapping) collected).map Prod.fst =
      collected.map Prod.fst ++ methods.filter fun name =>
        (readMetadata (ctor.methodMetadata name) mapping.methodKeys).isSome ∧
          name ∉ collected.map Prod.fst := by
  induction methods generalizing collected with
  | nil => simp
  | cons method methods ih =>
    obtain ⟨hnot, hnodup⟩ := List.nodup_cons.mp hnodup
    rw [List.foldl_cons, ih hnodup, List.filter_cons, collectMethod]
    cases hvalue : readMetadata (ctor.methodMetadata method) mapping.methodKeys with
    | none => simp
    | some value =>
      dsimp only
      rw [keys_set]
      by_cases hmem : method ∈ collected.map Prod.fst
      · rw [if_pos hmem]
        simp [hmem]
      · rw [if_neg hmem, List.append_assoc]
        have hrest : methods.filter (fun name => decide
            ((readMetadata (ctor.methodMetadata name) mapping.methodKeys).isSome ∧
              name ∉ collected.map Prod.fst ++ [method])) =
            methods.filter fun name => decide
              ((readMetadata (ctor.methodMetadata name) mapping.methodKeys).isSome ∧
                name ∉ collected.map Prod.fst) := by
          apply List.filter_congr
          intro name hname
          have hne : name ≠ method := fun heq => hnot (heq ▸ hname)
          have hiff : name ∈ collected.map Prod.fst ++ [method] ↔
              name ∈ collected.map Prod.fst := by
            rw [List.mem_append, List.mem_singleton]
            exact or_iff_left hne
          simp only [hiff]
        rw [hrest]
        simp [hmem]

/-- The value that is collected for a method under an alias. -/
def valueAt (collected : Dictionary Text (Dictionary MetadataAlias α)) (name : Text)
    (mapping : MetadataAlias) : Option α :=
  (collected.get name).bind fun values => values.get mapping

theorem valueAt_foldl_collectMethod (collected : Dictionary Text (Dictionary MetadataAlias α))
    (name : Text) (mapping mapping' : MetadataAlias) :
    valueAt (ctor.methods.foldl (collectMethod ctor mapping) collected) name mapping' =
      if name ∈ ctor.methods ∧ mapping = mapping' then
        (readMetadata (ctor.methodMetadata name) mapping.methodKeys).or
          (valueAt collected name mapping')
      else valueAt collected name mapping' := by
  rw [valueAt, get_foldl_collectMethod mapping ctor.methods_nodup, valueAt]
  by_cases hname : name ∈ ctor.methods
  · rw [if_pos hname]
    cases readMetadata (ctor.methodMetadata name) mapping.methodKeys with
    | none => split <;> rfl
    | some value =>
      rw [Option.map_some, Option.some_or, Option.bind_some, get_set]
      by_cases hmapping : mapping = mapping'
      · rw [if_pos hmapping, if_pos ⟨hname, hmapping⟩]
        rfl
      · rw [if_neg hmapping, if_neg (fun h => hmapping h.2)]
        cases collected.get name <;> rfl
  · rw [if_neg hname, if_neg (fun h => hname h.1)]

theorem valueAt_collectAlias {mappings : List MetadataAlias}
    (collected : ControllerSecurityMetadata α) {name : Text} (hname : name ∈ ctor.methods)
    (mapping : MetadataAlias) :
    valueAt (mappings.foldl (collectAlias ctor) collected).methodMetadata name mapping =
      if mapping ∈ mappings then
        (readMetadata (ctor.methodMetadata name) mapping.methodKeys).or
          (valueAt collected.methodMetadata name mapping)
      else valueAt collected.methodMetadata name mapping := by
  induction mappings generalizing collected with
  | nil => rfl
  | cons first mappings ih =>
    rw [List.foldl_cons, ih, collectAlias, valueAt_foldl_collectMethod]
    by_cases hfirst : first = mapping
    · subst hfirst
      have hboth : name ∈ ctor.methods ∧ first = first := ⟨hname, rfl⟩
      rw [if_pos hboth, if_pos List.mem_cons_self]
      split
      · cases readMetadata (ctor.methodMetadata name) first.methodKeys <;> rfl
      · rfl
    · have hmem : mapping ∈ first :: mappings ↔ mapping ∈ mappings := by
        rw [List.mem_cons]
        exact or_iff_right (Ne.symm hfirst)
      have hnot : ¬ (name ∈ ctor.methods ∧ first = mapping) := fun h => hfirst h.2
      rw [if_neg hnot]
      simp only [hmem]

theorem distinct_collectAlias {mappings : List MetadataAlias}
    {collected : ControllerSecurityMetadata α} (h : Distinct collected.methodMetadata) :
    Distinct (mappings.foldl (collectAlias ctor) collected).methodMetadata := by
  induction mappings generalizing collected with
  | nil => exact h
  | cons first mappings ih =>
    apply ih
    rw [collectAlias, Distinct, keys_foldl_collectMethod first ctor.methods_nodup,
      List.nodup_append]
    refine ⟨h, ctor.methods_nodup.filter _, ?_⟩
    rintro name hname name' hname' rfl
    have hfilter := (List.mem_filter.mp hname').2
    rw [decide_eq_true_eq] at hfilter
    exact hfilter.2 hname

end Collect

/-! ## What is collected of a class -/

/-- The alias that a key is defined under last. -/
def MetadataKey.mapping : MetadataKey → MetadataAlias
  | .legacyAuthentication | .authentication => .authenticationMethod
  | .legacyAuthorization | .authorization => .authorizationMethod

/-- A key and the other form that its metadata can have. -/
def MetadataKey.forms : MetadataKey → List MetadataKey
  | .legacyAuthentication => [.legacyAuthentication, .authentication]
  | .authentication => [.authentication, .legacyAuthentication]
  | .legacyAuthorization => [.legacyAuthorization, .authorization]
  | .authorization => [.authorization, .legacyAuthorization]

section Source

variable {α : Type}

/-- What is collected of a method for both forms of a key: the new form counts before the old. -/
def SourceClass.methodValue (ctor : SourceClass α) (key : MetadataKey) (name : Text) : Option α :=
  readMetadata (ctor.methodMetadata name) key.mapping.methodKeys

def SourceClass.isAuthenticated (ctor : SourceClass α) (name : Text) : Bool :=
  (ctor.methodValue .authentication name).isSome

/-- The methods with metadata in the order in which they are collected. -/
def SourceClass.collected (ctor : SourceClass α) : List Text :=
  ctor.methods.filter ctor.isAuthenticated ++ ctor.methods.filter fun name =>
    (ctor.methodValue .authorization name).isSome ∧ ctor.isAuthenticated name = false

variable {ctor : SourceClass α}

def allCollected (ctor : SourceClass α) : ControllerSecurityMetadata α :=
  metadataAliases.foldl (collectAlias ctor) ⟨Dictionary.empty, Dictionary.empty⟩

theorem isSome_readMetadata (metadata : MetadataKey → Option α) (key key' : MetadataKey) :
    (readMetadata metadata [key, key']).isSome = (readMetadata metadata [key', key]).isSome := by
  rw [readMetadata, readMetadata]
  cases h : metadata key <;> cases h' : metadata key' <;> simp [List.findSome?, h, h']

theorem keys_allCollected (ctor : SourceClass α) :
    (allCollected ctor).methodMetadata.map Prod.fst = ctor.collected := by
  have hpass (collected : Dictionary Text (Dictionary MetadataAlias α)) (mapping : MetadataAlias)
      (hold : ∀ name ∈ ctor.methods,
        (readMetadata (ctor.methodMetadata name) mapping.methodKeys).isSome = true →
          name ∈ collected.map Prod.fst) :
      (ctor.methods.foldl (collectMethod ctor mapping) collected).map Prod.fst =
        collected.map Prod.fst := by
    have hnil : (ctor.methods.filter fun name => decide
        ((readMetadata (ctor.methodMetadata name) mapping.methodKeys).isSome ∧
          name ∉ collected.map Prod.fst)) = [] := by
      rw [List.filter_eq_nil_iff]
      intro name hname
      rw [decide_eq_true_eq]
      rintro ⟨hvalue, hnot⟩
      exact hnot (hold name hname hvalue)
    rw [keys_foldl_collectMethod mapping ctor.methods_nodup, hnil, List.append_nil]
  have hauthentication (name : Text) :
      (readMetadata (ctor.methodMetadata name)
        MetadataAlias.authenticationMetadata.methodKeys).isSome = ctor.isAuthenticated name :=
    isSome_readMetadata _ _ _
  have hauthorization (name : Text) :
      (readMetadata (ctor.methodMetadata name)
        MetadataAlias.authorizationMetadata.methodKeys).isSome =
          (ctor.methodValue .authorization name).isSome := isSome_readMetadata _ _ _
  let first := ctor.methods.foldl (collectMethod ctor .authenticationMetadata) Dictionary.empty
  let second := ctor.methods.foldl (collectMethod ctor .authorizationMetadata) first
  have hfirst : first.map Prod.fst = ctor.methods.filter ctor.isAuthenticated := by
    rw [keys_foldl_collectMethod _ ctor.methods_nodup]
    apply List.filter_congr
    intro name _
    rw [hauthentication]
    simp [Dictionary.empty]
  have hsecond : second.map Prod.fst = ctor.collected := by
    rw [keys_foldl_collectMethod _ ctor.methods_nodup, hfirst, SourceClass.collected]
    apply congrArg
    apply List.filter_congr
    intro name hname
    rw [hauthorization]
    simp [hname]
  have hmem (name : Text) (hname : name ∈ ctor.methods)
      (hvalue : ctor.isAuthenticated name = true ∨
        (ctor.methodValue .authorization name).isSome = true) : name ∈ ctor.collected := by
    rw [SourceClass.collected, List.mem_append, List.mem_filter, List.mem_filter,
      decide_eq_true_eq]
    cases hauthenticated : ctor.isAuthenticated name with
    | true => exact Or.inl ⟨hname, rfl⟩
    | false =>
      rw [hauthenticated] at hvalue
      exact Or.inr ⟨hname, hvalue.resolve_left Bool.false_ne_true, rfl⟩
  let third := ctor.methods.foldl (collectMethod ctor .authenticationClass) second
  let fourth := ctor.methods.foldl (collectMethod ctor .authenticationMethod) third
  let fifth := ctor.methods.foldl (collectMethod ctor .authorizationClass) fourth
  have hthird : third.map Prod.fst = second.map Prod.fst :=
    hpass second .authenticationClass fun name _ h => by cases h
  have hfourth : fourth.map Prod.fst = third.map Prod.fst :=
    hpass third .authenticationMethod fun name hname h => by
      rw [hthird, hsecond]
      exact hmem name hname (Or.inl h)
  have hfifth : fifth.map Prod.fst = fourth.map Prod.fst :=
    hpass fourth .authorizationClass fun name _ h => by cases h
  have hsixth := hpass fifth .authorizationMethod fun name hname h => by
    rw [hfifth, hfourth, hthird, hsecond]
    exact hmem name hname (Or.inr h)
  exact hsixth.trans (hfifth.trans (hfourth.trans (hthird.trans hsecond)))

theorem valueAt_allCollected {name : Text} (hname : name ∈ ctor.methods)
    (mapping : MetadataAlias) :
    valueAt (allCollected ctor).methodMetadata name mapping =
      readMetadata (ctor.methodMetadata name) mapping.methodKeys := by
  have hmem : mapping ∈ metadataAliases := by cases mapping <;> decide
  rw [allCollected, valueAt_collectAlias _ hname, if_pos hmem]
  exact Option.or_none

theorem distinct_allCollected : Distinct (allCollected ctor).methodMetadata :=
  distinct_collectAlias distinct_empty

theorem mem_methods_of_mem_collected {name : Text} (h : name ∈ ctor.collected) :
    name ∈ ctor.methods := by
  rw [SourceClass.collected, List.mem_append, List.mem_filter, List.mem_filter] at h
  rcases h with h | h
  · exact h.1
  · exact h.1

end Source

end Security

end LoopbackOData
