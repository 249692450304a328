import LoopbackOData.Security.Assigned

/-!
# Which generated methods carry the metadata of their source

A generated method gets the metadata of the first source method that stands for it, among those with
authentication metadata before the others. It is that of its own name, whatever the order of
declaration, exactly if the source methods that can come first agree with it.
-/

namespace LoopbackOData

namespace Security

open Dictionary

set_option autoImplicit false

/-! ## The first source that stands for a method -/

section First

variable {α : Type} {kind : ControllerKind} {controllerMethods : List Text}
  {aliases : Option MethodAliasMap} {ctor : SourceClass α} {key : MetadataKey}
  {source name : Text} {value : α}

/-- The sources whose value a generated method could get. -/
def Offers (kind : ControllerKind) (controllerMethods : List Text)
    (aliases : Option MethodAliasMap) (ctor : SourceClass α) (key : MetadataKey)
    (name source : Text) : Prop :=
  source ∈ ctor.methods ∧ (ctor.methodValue key source).isSome ∧
    StandsFor kind controllerMethods aliases ctor.hasDelete source name

/-- Those of them that are collected first in some order of declaration: methods with
authentication metadata come before the others. -/
def Leads (kind : ControllerKind) (controllerMethods : List Text)
    (aliases : Option MethodAliasMap) (ctor : SourceClass α) (key : MetadataKey)
    (name source : Text) : Prop :=
  Offers kind controllerMethods aliases ctor key name source ∧
    (ctor.isAuthenticated source = true ∨
      ∀ other, Offers kind controllerMethods aliases ctor key name other →
        ctor.isAuthenticated other = false)

/-- What a source offers to a method of the generated controller. -/
def offered (kind : ControllerKind) (controllerMethods : List Text)
    (aliases : Option MethodAliasMap) (ctor : SourceClass α) (key : MetadataKey)
    (name source : Text) : Option α :=
  if name ∈ controllerMethods ∧
      StandsFor kind controllerMethods aliases ctor.hasDelete source name then
    ctor.methodValue key source
  else none

theorem offered_eq_some_iff :
    offered kind controllerMethods aliases ctor key name source = some value ↔
      name ∈ controllerMethods ∧
        StandsFor kind controllerMethods aliases ctor.hasDelete source name ∧
          ctor.methodValue key source = some value := by
  rw [offered]
  split
  · next h => exact ⟨fun hvalue => ⟨h.1, h.2, hvalue⟩, fun h => h.2.2⟩
  · next h =>
    constructor
    · intro hvalue
      cases hvalue
    · rintro ⟨hname, hstands, -⟩
      exact absurd ⟨hname, hstands⟩ h

theorem Offers.offered (hname : name ∈ controllerMethods)
    (h : Offers kind controllerMethods aliases ctor key name source) :
    offered kind controllerMethods aliases ctor key name source = ctor.methodValue key source :=
  if_pos ⟨hname, h.2.2⟩

theorem methodValue_generatedMetadata :
    (generatedMetadata controllerMethods kind aliases ctor).methodValue key name =
      ctor.collected.findSome? (offered kind controllerMethods aliases ctor key name) := by
  have hcollect : collectControllerSecurityMetadata ctor =
      if (allCollected ctor).classMetadata.isEmpty && (allCollected ctor).methodMetadata.isEmpty
      then none else some (allCollected ctor) := rfl
  rw [generatedMetadata, hcollect]
  split
  · next hempty =>
    have hnil : ctor.collected = [] := by
      rw [Bool.and_eq_true, List.isEmpty_iff, List.isEmpty_iff] at hempty
      rw [← keys_allCollected, hempty.2]
      rfl
    rw [hnil]
    rfl
  · rw [applyControllerSecurityMetadata, methodValue_applyAliases,
      get_methodValuesOf _ distinct_allCollected, keys_allCollected]
    apply findSome?_congr
    intro source hsource
    rw [valueAt_allCollected (mem_methods_of_mem_collected hsource)]
    simp only [mem_resolveMethodAliasNames hsource]
    rfl

/-- A method with a value is authenticated, or else the value is one of authorization. -/
theorem isAuthenticated_or_isSome (h : (ctor.methodValue key source).isSome = true) :
    ctor.isAuthenticated source = true ∨ (ctor.methodValue .authorization source).isSome = true := by
  cases key with
  | legacyAuthentication | authentication => exact Or.inl h
  | legacyAuthorization | authorization => exact Or.inr h

theorem mem_collected_iff :
    source ∈ ctor.collected ↔ source ∈ ctor.methods ∧ (ctor.isAuthenticated source = true ∨
      (ctor.methodValue .authorization source).isSome = true) := by
  rw [SourceClass.collected, List.mem_append, List.mem_filter, List.mem_filter, decide_eq_true_eq,
    ← and_or_left]
  apply and_congr_right
  intro _
  cases ctor.isAuthenticated source <;> simp

theorem Offers.mem_collected (h : Offers kind controllerMethods aliases ctor key name source) :
    source ∈ ctor.collected :=
  mem_collected_iff.mpr ⟨h.1, isAuthenticated_or_isSome h.2.1⟩

/-- The value comes from a source that leads. -/
theorem exists_leads_of_methodValue
    (h : (generatedMetadata controllerMethods kind aliases ctor).methodValue key name =
      some value) :
    name ∈ controllerMethods ∧ ∃ source, Leads kind controllerMethods aliases ctor key name source ∧
      ctor.methodValue key source = some value := by
  rw [methodValue_generatedMetadata, SourceClass.collected, List.findSome?_append,
    Option.or_eq_some_iff] at h
  have hoffers {source : Text} (hmem : source ∈ ctor.methods)
      (h : offered kind controllerMethods aliases ctor key name source = some value) :
      Offers kind controllerMethods aliases ctor key name source :=
    have hoffered := (offered_eq_some_iff.mp h).2
    ⟨hmem, Option.isSome_of_eq_some hoffered.2, hoffered.1⟩
  rcases h with h | ⟨hnone, h⟩
  · obtain ⟨source, hsource, hvalue⟩ := List.exists_of_findSome?_eq_some h
    obtain ⟨hmem, hauthenticated⟩ := List.mem_filter.mp hsource
    obtain ⟨hname, -, hown⟩ := offered_eq_some_iff.mp hvalue
    exact ⟨hname, source, ⟨hoffers hmem hvalue, Or.inl hauthenticated⟩, hown⟩
  · obtain ⟨source, hsource, hvalue⟩ := List.exists_of_findSome?_eq_some h
    obtain ⟨hmem, -⟩ := List.mem_filter.mp hsource
    obtain ⟨hname, -, hown⟩ := offered_eq_some_iff.mp hvalue
    refine ⟨hname, source, ⟨hoffers hmem hvalue, Or.inr ?_⟩, hown⟩
    intro other hother
    by_contra hauthenticated
    rw [Bool.not_eq_false] at hauthenticated
    have hfalse := List.findSome?_eq_none_iff.mp hnone other
      (List.mem_filter.mpr ⟨hother.1, hauthenticated⟩)
    rw [hother.offered hname] at hfalse
    have hsome := hother.2.1
    rw [hfalse] at hsome
    cases hsome

theorem methodValue_isSome (hname : name ∈ controllerMethods)
    (h : Offers kind controllerMethods aliases ctor key name source) :
    ((generatedMetadata controllerMethods kind aliases ctor).methodValue key name).isSome =
      true := by
  rw [methodValue_generatedMetadata, List.findSome?_isSome_iff]
  refine ⟨source, h.mem_collected, ?_⟩
  rw [h.offered hname]
  exact h.2.1

/-- A source that leads and is declared first gives its value. -/
theorem methodValue_of_leads (hname : name ∈ controllerMethods) {rest : List Text}
    (hmethods : ctor.methods = source :: rest)
    (h : Leads kind controllerMethods aliases ctor key name source) :
    (generatedMetadata controllerMethods kind aliases ctor).methodValue key name =
      ctor.methodValue key source := by
  obtain ⟨hoffer, hleads⟩ := h
  rw [methodValue_generatedMetadata, SourceClass.collected, List.findSome?_append]
  obtain ⟨value, hvalue⟩ := Option.isSome_iff_exists.mp hoffer.2.1
  cases hauthenticated : ctor.isAuthenticated source with
  | true =>
    rw [hmethods, List.filter_cons_of_pos hauthenticated, List.findSome?_cons,
      hoffer.offered hname, hvalue]
    rfl
  | false =>
    rw [hauthenticated] at hleads
    have hothers := hleads.resolve_left Bool.false_ne_true
    have hnone : (ctor.methods.filter ctor.isAuthenticated).findSome?
        (offered kind controllerMethods aliases ctor key name) = none := by
      rw [List.findSome?_eq_none_iff]
      intro other hother
      obtain ⟨hmem, hother⟩ := List.mem_filter.mp hother
      by_contra hsome
      obtain ⟨value', hvalue'⟩ := Option.ne_none_iff_exists'.mp hsome
      obtain ⟨-, hstands, hown⟩ := offered_eq_some_iff.mp hvalue'
      have hfalse := hothers other ⟨hmem, Option.isSome_of_eq_some hown, hstands⟩
      rw [hother] at hfalse
      cases hfalse
    have hauthorized := isAuthenticated_or_isSome hoffer.2.1
    rw [hauthenticated] at hauthorized
    rw [hnone, Option.none_or, hmethods, List.filter_cons,
      if_pos (decide_eq_true ⟨hauthorized.resolve_left Bool.false_ne_true, hauthenticated⟩),
      List.findSome?_cons, hoffer.offered hname, hvalue]

end First

/-! ## Orders of declaration -/

section Orders

variable {α : Type} {kind : ControllerKind} {controllerMethods : List Text}
  {aliases : Option MethodAliasMap} {ctor : SourceClass α} {methods : List Text}
  {key : MetadataKey} {source name : Text}

/-- The same class with its methods declared in another order. -/
def SourceClass.reorder (ctor : SourceClass α) (methods : List Text)
    (h : methods.Perm ctor.methods) : SourceClass α :=
  { ctor with methods := methods, methods_nodup := h.nodup_iff.mpr ctor.methods_nodup }

theorem hasDelete_reorder (h : methods.Perm ctor.methods) :
    (ctor.reorder methods h).hasDelete = ctor.hasDelete :=
  ((h.filter _).append (h.filter _)).any_eq

theorem offers_reorder (h : methods.Perm ctor.methods) :
    Offers kind controllerMethods aliases (ctor.reorder methods h) key name source ↔
      Offers kind controllerMethods aliases ctor key name source := by
  rw [Offers, Offers, hasDelete_reorder]
  exact and_congr_left' h.mem_iff

theorem leads_reorder (h : methods.Perm ctor.methods) :
    Leads kind controllerMethods aliases (ctor.reorder methods h) key name source ↔
      Leads kind controllerMethods aliases ctor key name source := by
  rw [Leads, Leads]
  simp only [offers_reorder]
  exact Iff.rfl

/-- Each source that leads is the first in some order. -/
theorem exists_reorder_methodValue (hname : name ∈ controllerMethods)
    (h : Leads kind controllerMethods aliases ctor key name source) :
    ∃ (methods : List Text) (hmethods : methods.Perm ctor.methods),
      (generatedMetadata controllerMethods kind aliases
        (ctor.reorder methods hmethods)).methodValue key name = ctor.methodValue key source := by
  have hperm := (List.perm_cons_erase h.1.1).symm
  exact ⟨_, hperm, methodValue_of_leads hname rfl ((leads_reorder hperm).mpr h)⟩

end Orders

/-! ## The condition -/

section Condition

variable {α : Type}

/-- The metadata of a method under a key: that of the key itself, else that of its other form. -/
def SourceClass.formValue (ctor : SourceClass α) (key : MetadataKey) (name : Text) : Option α :=
  readMetadata (ctor.methodMetadata name) key.forms

def SourceClass.isDecorated (ctor : SourceClass α) (name : Text) : Bool :=
  (ctor.methodValue .authentication name).isSome || (ctor.methodValue .authorization name).isSome

variable (kind : ControllerKind) (controllerMethods : List Text)
  (aliases : Option MethodAliasMap) (ctor : SourceClass α)

/-- The generated controller carries the metadata of its source: a method with the name of a
decorated method has that method's metadata, other metadata comes to a method by an alias only where
the source has none under its name, and the order of declaration does not matter. -/
structure CarriesSecurity : Prop where
  own : ∀ name ∈ ctor.methods ++ ctor.inherited, ctor.isDecorated name = true →
    name ∈ controllerMethods → ∀ key,
      (generatedMetadata controllerMethods kind aliases ctor).methodValue key name =
        ctor.formValue key name
  aliased : ∀ key name value,
    (generatedMetadata controllerMethods kind aliases ctor).methodValue key name = some value →
      ctor.formValue key name = some value ∨
        ¬ (name ∈ ctor.methods ++ ctor.inherited ∧ ctor.isDecorated name = true) ∧
          ∃ source, Offers kind controllerMethods aliases ctor key name source ∧
            ctor.methodValue key source = some value
  anyOrder : ∀ (methods : List Text) (hmethods : methods.Perm ctor.methods) key name,
    (generatedMetadata controllerMethods kind aliases
        (ctor.reorder methods hmethods)).methodValue key name =
      (generatedMetadata controllerMethods kind aliases ctor).methodValue key name

/-- The sources that can come first for a method agree, with its own metadata where it has some. -/
structure LeadersAgree : Prop where
  forms : ∀ name ∈ ctor.methods ++ ctor.inherited, ctor.isDecorated name = true →
    name ∈ controllerMethods → ∀ key, ctor.formValue key name = ctor.methodValue key name
  own : ∀ name ∈ ctor.methods ++ ctor.inherited, ctor.isDecorated name = true →
    name ∈ controllerMethods → ∀ key source,
      Leads kind controllerMethods aliases ctor key name source →
        ctor.methodValue key source = ctor.methodValue key name
  reached : ∀ name ∈ ctor.methods ++ ctor.inherited, name ∈ controllerMethods → ∀ key,
    (ctor.methodValue key name).isSome = true →
      ∃ source, Leads kind controllerMethods aliases ctor key name source
  same : ∀ name ∈ controllerMethods, ∀ key source other,
    Leads kind controllerMethods aliases ctor key name source →
      Leads kind controllerMethods aliases ctor key name other →
        ctor.methodValue key source = ctor.methodValue key other

end Condition

section Agreement

variable {α : Type} {kind : ControllerKind} {controllerMethods : List Text}
  {aliases : Option MethodAliasMap} {ctor : SourceClass α} {key : MetadataKey} {name : Text}

/-- Both forms of a key carry the same values in a generated controller. -/
theorem formValue_eq_of_generated
    (h : ∀ key, (generatedMetadata controllerMethods kind aliases ctor).methodValue key name =
      ctor.formValue key name) : ctor.formValue key name = ctor.methodValue key name := by
  have hmapping (key key' : MetadataKey) (hkey : key.mapping = key'.mapping) :
      (generatedMetadata controllerMethods kind aliases ctor).methodValue key name =
        (generatedMetadata controllerMethods kind aliases ctor).methodValue key' name := by
    have hvalue (name : Text) : ctor.methodValue key name = ctor.methodValue key' name := by
      rw [SourceClass.methodValue, hkey]
      rfl
    rw [methodValue_generatedMetadata, methodValue_generatedMetadata]
    apply findSome?_congr
    intro source _
    rw [offered, offered, hvalue]
  cases key with
  | authentication | authorization => rfl
  | legacyAuthentication =>
    rw [← h, hmapping .legacyAuthentication .authentication rfl, h]
    rfl
  | legacyAuthorization =>
    rw [← h, hmapping .legacyAuthorization .authorization rfl, h]
    rfl

theorem isDecorated_of_isSome (h : (ctor.methodValue key name).isSome = true) :
    ctor.isDecorated name = true := by
  rw [SourceClass.isDecorated, Bool.or_eq_true]
  exact isAuthenticated_or_isSome h

theorem LeadersAgree.of_carriesSecurity
    (h : CarriesSecurity kind controllerMethods aliases ctor) :
    LeadersAgree kind controllerMethods aliases ctor := by
  have hleads {key : MetadataKey} {name source : Text} (hname : name ∈ controllerMethods)
      (hsource : Leads kind controllerMethods aliases ctor key name source) :
      ctor.methodValue key source =
        (generatedMetadata controllerMethods kind aliases ctor).methodValue key name := by
    obtain ⟨methods, hmethods, hvalue⟩ := exists_reorder_methodValue hname hsource
    rw [← hvalue]
    exact h.anyOrder methods hmethods key name
  have hforms (name : Text) (hmem : name ∈ ctor.methods ++ ctor.inherited)
      (hdecorated : ctor.isDecorated name = true) (hname : name ∈ controllerMethods)
      (key : MetadataKey) : ctor.formValue key name = ctor.methodValue key name :=
    formValue_eq_of_generated fun key => h.own name hmem hdecorated hname key
  refine ⟨hforms, ?_, ?_, ?_⟩
  · intro name hmem hdecorated hname key source hsource
    rw [hleads hname hsource, h.own name hmem hdecorated hname,
      hforms name hmem hdecorated hname]
  · intro name hmem hname key hsome
    have hdecorated := isDecorated_of_isSome hsome
    obtain ⟨value, hvalue⟩ := Option.isSome_iff_exists.mp hsome
    have hgenerated := h.own name hmem hdecorated hname key
    rw [hforms name hmem hdecorated hname, hvalue] at hgenerated
    obtain ⟨-, source, hsource, -⟩ := exists_leads_of_methodValue hgenerated
    exact ⟨source, hsource⟩
  · intro name hname key source other hsource hother
    rw [hleads hname hsource, hleads hname hother]

/-- A generated method has no value exactly if no source that stands for it leads. -/
theorem methodValue_eq_none_iff (hname : name ∈ controllerMethods) :
    (generatedMetadata controllerMethods kind aliases ctor).methodValue key name = none ↔
      ∀ source, ¬ Leads kind controllerMethods aliases ctor key name source := by
  constructor
  · intro h source hsource
    have hsome := methodValue_isSome hname hsource.1
    rw [h] at hsome
    cases hsome
  · intro h
    by_contra hsome
    obtain ⟨value, hvalue⟩ := Option.ne_none_iff_exists'.mp hsome
    obtain ⟨-, source, hsource, -⟩ := exists_leads_of_methodValue hvalue
    exact h source hsource

theorem LeadersAgree.own_value (h : LeadersAgree kind controllerMethods aliases ctor)
    (hmem : name ∈ ctor.methods ++ ctor.inherited) (hdecorated : ctor.isDecorated name = true)
    (hname : name ∈ controllerMethods) (key : MetadataKey) :
    (generatedMetadata controllerMethods kind aliases ctor).methodValue key name =
      ctor.formValue key name := by
  rw [h.forms name hmem hdecorated hname]
  cases hvalue : (generatedMetadata controllerMethods kind aliases ctor).methodValue key name with
  | none =>
    rw [methodValue_eq_none_iff hname] at hvalue
    by_contra hsome
    obtain ⟨source, hsource⟩ := h.reached name hmem hname key
      (Option.isSome_iff_ne_none.mpr (Ne.symm hsome))
    exact hvalue source hsource
  | some value =>
    obtain ⟨-, source, hsource, hown⟩ := exists_leads_of_methodValue hvalue
    rw [← h.own name hmem hdecorated hname key source hsource, hown]

theorem LeadersAgree.any_order (h : LeadersAgree kind controllerMethods aliases ctor)
    {methods : List Text} (hmethods : methods.Perm ctor.methods) (key : MetadataKey)
    (name : Text) :
    (generatedMetadata controllerMethods kind aliases
        (ctor.reorder methods hmethods)).methodValue key name =
      (generatedMetadata controllerMethods kind aliases ctor).methodValue key name := by
  cases hvalue : (generatedMetadata controllerMethods kind aliases
      (ctor.reorder methods hmethods)).methodValue key name with
  | some value =>
    obtain ⟨hname, source, hsource, hown⟩ := exists_leads_of_methodValue hvalue
    rw [leads_reorder] at hsource
    cases hvalue' : (generatedMetadata controllerMethods kind aliases ctor).methodValue key
        name with
    | none => exact absurd hsource ((methodValue_eq_none_iff hname).mp hvalue' source)
    | some value' =>
      obtain ⟨-, other, hother, hown'⟩ := exists_leads_of_methodValue hvalue'
      rw [← hown', ← hown]
      exact h.same name hname key source other hsource hother
  | none =>
    cases hvalue' : (generatedMetadata controllerMethods kind aliases ctor).methodValue key
        name with
    | none => rfl
    | some value' =>
      obtain ⟨hname, other, hother, -⟩ := exists_leads_of_methodValue hvalue'
      rw [methodValue_eq_none_iff hname] at hvalue
      exact absurd ((leads_reorder hmethods).mpr hother) (hvalue other)

/-- The metadata of the source is carried exactly if the sources that can come first agree. -/
theorem carriesSecurity_iff :
    CarriesSecurity kind controllerMethods aliases ctor ↔
      LeadersAgree kind controllerMethods aliases ctor := by
  refine ⟨LeadersAgree.of_carriesSecurity, fun h => ?_⟩
  refine ⟨?_, ?_, ?_⟩
  · intro name hmem hdecorated hname key
    exact h.own_value hmem hdecorated hname key
  · intro key name value hvalue
    obtain ⟨hname, source, hsource, hown⟩ := exists_leads_of_methodValue hvalue
    by_cases hdecorated : name ∈ ctor.methods ++ ctor.inherited ∧ ctor.isDecorated name = true
    · left
      rw [← h.own_value hdecorated.1 hdecorated.2 hname, hvalue]
    · exact Or.inr ⟨hdecorated, source, hsource.1, hown⟩
  · intro methods hmethods key name
    exact h.any_order hmethods key name

end Agreement

/-! ## A class that declares `updateById` before `update` -/

def singletonControllerMethods : List Text :=
  ["resolveSingletonId".toList, "rewriteSingletonContext".toList, "findById".toList,
    "create".toList, "update".toList, "replace".toList, "delete".toList, "getMediaValue".toList,
    "replaceMediaValue".toList, "deleteMediaValue".toList, "getPropertyValue".toList,
    "getProperty".toList, "linkNavigationRef".toList, "unlinkNavigationRef".toList]

/-- A class whose methods carry their policies under the key for methods. -/
def sourceOf (policies : Dictionary Text Nat) (h : (policies.map Prod.fst).Nodup) :
    SourceClass Nat where
  classMetadata := fun _ => none
  methods := policies.map Prod.fst
  inherited := []
  methodMetadata := fun name key => if key = .authentication then policies.get name else none
  methods_nodup := h

def updateByIdFirst : SourceClass Nat :=
  sourceOf [("updateById".toList, 1), ("update".toList, 2)] (by decide)

/-- `update` gets the policy of `updateById`, and its own in the other order. -/
theorem not_carriesSecurity_updateByIdFirst :
    ¬ CarriesSecurity .singleton singletonControllerMethods none updateByIdFirst := by
  intro h
  have hleads : Leads .singleton singletonControllerMethods none updateByIdFirst .authentication
      "update".toList "updateById".toList :=
    ⟨⟨by decide, by decide, by decide⟩, Or.inl (by decide)⟩
  have hvalue := methodValue_of_leads (by decide) rfl hleads
  have hown := h.own "update".toList (by decide) (by decide) (by decide) .authentication
  rw [hvalue] at hown
  revert hown
  decide

/-- With one of the two methods alone there is nothing to disagree about. -/
theorem carriesSecurity_update_alone :
    CarriesSecurity .singleton singletonControllerMethods none
      (sourceOf [("update".toList, 2)] (by decide)) := by
  have honly {key : MetadataKey} {name source : Text}
      (h : Leads .singleton singletonControllerMethods none
        (sourceOf [("update".toList, 2)] (by decide)) key name source) :
      source = "update".toList := List.mem_singleton.mp h.1.1
  rw [carriesSecurity_iff]
  refine ⟨?_, ?_, ?_, ?_⟩
  · intro name hmem hdecorated hname key
    cases key <;> rfl
  · intro name hmem hdecorated hname key source hsource
    rw [honly hsource, List.mem_singleton.mp hmem]
  · intro name hmem hname key hsome
    rw [List.mem_singleton.mp hmem] at hname hsome ⊢
    refine ⟨"update".toList, ⟨List.mem_cons_self, hsome, Or.inl rfl⟩, Or.inl ?_⟩
    decide
  · intro name hname key source other hsource hother
    rw [honly hsource, honly hother]

end Security

end LoopbackOData
