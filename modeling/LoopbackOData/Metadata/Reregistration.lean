import LoopbackOData.Metadata.Registry

/-!
# Registering again

A second registration of a model is merged into the first: a property that is given as undefined
overwrites, and then single properties are repaired. A property without a repair is lost if it is
given as undefined, and so is a value that its repair takes for one that is not given.
-/

namespace LoopbackOData

namespace Metadata

set_option autoImplicit false

variable {ν : Type} [DecidableEq ν]

/-! ## Limits of pages -/

inductive LimitKey where
  | maxTop | maxSkip | maxPageSize | maxApplyPageSize
  deriving DecidableEq, Repr

def LimitKey.text : LimitKey → String
  | .maxTop => "maxTop"
  | .maxSkip => "maxSkip"
  | .maxPageSize => "maxPageSize"
  | .maxApplyPageSize => "maxApplyPageSize"

/-- A number, or `NaN` or an infinity. -/
inductive LimitValue where
  | finite (q : Rat)
  | notFinite
  deriving DecidableEq

def LimitValue.IsPositive : LimitValue → Prop
  | .finite q => 0 < q
  | .notFinite => False

/-- The limits in the object of a pagination. -/
abbrev PaginationLimits : Type := LimitKey → Option LimitValue

def normalizePositiveNumber (label : String) : LimitValue → Except String LimitValue
  | .finite q =>
    if 0 < q then .ok (.finite q.floor) else .error s!"{label} must be a positive number."
  | .notFinite => .error s!"{label} must be a positive number."

/-- The keys are assigned one by one until one is refused. -/
def assignPositive (label : String) :
    List LimitKey → PaginationLimits → Option String × PaginationLimits
  | [], limits => (none, limits)
  | key :: keys, limits =>
    match limits key with
    | none => assignPositive label keys limits
    | some value =>
      let name := key.text
      match normalizePositiveNumber s!"{label}.{name}" value with
      | .error message => (some message, limits)
      | .ok rounded => assignPositive label keys (Function.update limits key (some rounded))

/-- The limits are rounded in the object itself. A boolean or a text has no keys. -/
def validatePaginationLimits (label : String) (objects : ν → PaginationLimits) :
    DefValue ν → Option String × (ν → PaginationLimits)
  | .undefined => (none, objects)
  | .bool b => (if b then some "TypeError" else none, objects)
  | .text s => (if s = [] then none else some "TypeError", objects)
  | .other pagination =>
    let checked := assignPositive label [.maxTop, .maxSkip, .maxPageSize, .maxApplyPageSize]
      (objects pagination)
    (checked.1, Function.update objects pagination checked.2)

/-! ## Calls -/

/-- The registry, with the limits in the objects that it holds. -/
structure RegistryState (ν : Type) where
  registry : EntitySetRegistry ν
  objects : ν → PaginationLimits

/-- The keys of the object that is passed to `register` are distinct. -/
inductive RegistryCall (ν : Type) where
  | register (definition : EntitySetDef ν) (distinct : Dictionary.Distinct definition.properties)
  | attachRepository (modelCtor : Nat) (bindingKey : Text) (repositoryCtor : DefValue ν)

def RegistryCall.modelCtor : RegistryCall ν → Nat
  | .register definition _ => definition.modelCtor
  | .attachRepository modelCtor _ _ => modelCtor

/-- The definition of a model. -/
def RegistryState.entry (state : RegistryState ν) (modelCtor : Nat) : Option (EntitySetDef ν) :=
  Dictionary.get state.registry.sets modelCtor

/-- A property of the definition of a model; undefined where there is none. -/
def RegistryState.value (state : RegistryState ν) (modelCtor : Nat) (property : DefProperty) :
    DefValue ν :=
  (state.entry modelCtor).elim .undefined fun entry => entry.get property

def paginationLabel (definition : EntitySetDef ν) : String :=
  let name := String.ofList definition.name
  s!"EntitySet \"{name}\".pagination"

/-- A call that throws leaves the registry as it was. -/
def RegistryCall.apply (state : RegistryState ν) : RegistryCall ν → RegistryState ν
  | .register definition _ =>
    let next := EntitySetRegistry.mergeDefinition (state.entry definition.modelCtor) definition
    let checked := validatePaginationLimits (paginationLabel definition) state.objects
      (next.get .pagination)
    ⟨(state.registry.register (fun _ => checked.1.isNone) definition).getD state.registry,
      checked.2⟩
  | .attachRepository modelCtor bindingKey repositoryCtor =>
    { state with
      registry := (state.registry.attachRepository modelCtor bindingKey repositoryCtor).getD
        state.registry }

def runCalls (objects : ν → PaginationLimits) (calls : List (RegistryCall ν)) : RegistryState ν :=
  calls.foldl RegistryCall.apply ⟨.empty, objects⟩

/-! ## What was given -/

/-- The value that a call gives for a property of a model; undefined where it gives none. -/
def RegistryCall.gives (call : RegistryCall ν) (modelCtor : Nat) (property : DefProperty) :
    DefValue ν :=
  if call.modelCtor = modelCtor then
    match call with
    | .register definition _ => definition.get property
    | .attachRepository _ bindingKey repositoryCtor =>
      if property = .repositoryBindingKey then .text bindingKey
      else if property = .repositoryCtor then repositoryCtor
      else .undefined
  else .undefined

def RegistryCall.givesName (call : RegistryCall ν) (modelCtor : Nat) : Option Text :=
  match call with
  | .register definition _ => if definition.modelCtor = modelCtor then some definition.name else none
  | .attachRepository _ _ _ => none

/-- The value given by the last call that defined the property. -/
def lastGiven (calls : List (RegistryCall ν)) (modelCtor : Nat) (property : DefProperty) :
    DefValue ν :=
  calls.foldl (fun last call =>
    if (call.gives modelCtor property).isUndefined then last else call.gives modelCtor property)
    .undefined

def lastName (calls : List (RegistryCall ν)) (modelCtor : Nat) : Option Text :=
  calls.foldl (fun last call => (call.givesName modelCtor).or last) none

/-- Every property and the name of every model have the values given last. The lock may be derived
where none was given. -/
structure IsLast (calls : List (RegistryCall ν)) (state : RegistryState ν) : Prop where
  properties : ∀ modelCtor property,
    property ≠ .transactionCapabilityLocked ∨ lastGiven calls modelCtor property ≠ .undefined →
    state.value modelCtor property = lastGiven calls modelCtor property
  names : ∀ modelCtor, (state.entry modelCtor).map EntitySetDef.name = lastName calls modelCtor

/-- After a call everything has the value given last, the other models have what they had, and the
version is another one. -/
structure KeepsConfiguration (before : List (RegistryCall ν)) (call : RegistryCall ν)
    (state : RegistryState ν) : Prop where
  last : IsLast (before ++ [call]) (call.apply state)
  others : ∀ modelCtor, modelCtor ≠ call.modelCtor →
    (call.apply state).entry modelCtor = state.entry modelCtor
  version : (call.apply state).registry.version ≠ state.registry.version

/-! ## Condition -/

/-- What is given, if it is given at all, does not take away what there is: a property without a
repair is not given as undefined over a value; one whose repair asks for truth is not given as
undefined over an empty text, nor as an empty text over a value. -/
def PropertyKept (property : DefProperty) (given : Option (DefValue ν)) (existing : DefValue ν) :
    Prop :=
  ∀ value, given = some value →
    property ∈ EntitySetRegistry.keptIfUndefined ∨ value.isTruthy = true ∨
      (if property ∈ EntitySetRegistry.keptIfFalsy then
        if value.isUndefined then existing.isTruthy = true ∨ existing = .undefined
        else existing.isTruthy = false
      else value = .undefined → existing = .undefined)

/-- The limits of a pagination are positive. -/
def PaginationAccepted (objects : ν → PaginationLimits) : DefValue ν → Prop
  | .undefined => True
  | .bool b => b = false
  | .text s => s = []
  | .other pagination => ∀ key, ∀ limit ∈ objects pagination key, limit.IsPositive

/-- The call is not refused and takes nothing away. -/
def RegistryCall.Suits (state : RegistryState ν) : RegistryCall ν → Prop
  | .register definition _ =>
    (∀ property, PropertyKept property (Dictionary.get definition.properties property)
      (state.value definition.modelCtor property)) ∧
      PaginationAccepted state.objects
        (if (definition.get .pagination).isUndefined then
          state.value definition.modelCtor .pagination
        else definition.get .pagination)
  | .attachRepository modelCtor _ repositoryCtor =>
    state.entry modelCtor ≠ none ∧
      (repositoryCtor = .undefined → state.value modelCtor .repositoryCtor = .undefined)

/-! ## Merging -/

section Merging

omit [DecidableEq ν]

/-- Whether the repair of a property takes the earlier value. -/
def Restores (property : DefProperty) (given existing : DefValue ν) : Prop :=
  if property ∈ EntitySetRegistry.keptIfUndefined then
    given.isUndefined = true ∧ ¬ existing.isUndefined = true
  else property ∈ EntitySetRegistry.keptIfFalsy ∧ ¬ given.isTruthy = true ∧
    existing.isTruthy = true

instance (property : DefProperty) (given existing : DefValue ν) :
    Decidable (Restores property given existing) := by
  unfold Restores
  infer_instance

/-- A property after the spread and the repairs. -/
def mergedValue (property : DefProperty) (given : Option (DefValue ν)) (existing : DefValue ν) :
    DefValue ν :=
  if Restores property (given.getD .undefined) existing then existing else given.getD existing

theorem isUndefined_iff {value : DefValue ν} : value.isUndefined = true ↔ value = .undefined := by
  cases value <;> simp [DefValue.isUndefined]

/-- The merged value is the one given last exactly if nothing is taken away. -/
theorem mergedValue_eq_iff (property : DefProperty) (given : Option (DefValue ν))
    (existing : DefValue ν) :
    mergedValue property given existing =
        (if (given.getD .undefined).isUndefined then existing else given.getD .undefined) ↔
      PropertyKept property given existing := by
  unfold mergedValue PropertyKept Restores
  cases given with
  | none => simp [DefValue.isUndefined]
  | some value =>
    by_cases hkept : property ∈ EntitySetRegistry.keptIfUndefined
    · cases value with
      | undefined => cases existing <;> simp [hkept, DefValue.isUndefined]
      | bool b => simp [hkept, DefValue.isUndefined]
      | text s => simp [hkept, DefValue.isUndefined]
      | other o => simp [hkept, DefValue.isUndefined]
    · by_cases hfalsy : property ∈ EntitySetRegistry.keptIfFalsy
      · cases value with
        | undefined =>
          have hundefined : (DefValue.undefined : DefValue ν).isUndefined = true := rfl
          have hfalse : ¬ (DefValue.undefined : DefValue ν).isTruthy = true := Bool.false_ne_true
          by_cases htruthy : existing.isTruthy = true
          · simp [hkept, hfalsy, htruthy, hundefined, hfalse]
          · simp [hkept, hfalsy, htruthy, hundefined, hfalse]
            exact eq_comm
        | bool b =>
          cases existing <;> cases b <;>
            simp [hkept, hfalsy, DefValue.isUndefined, DefValue.isTruthy]
        | text s =>
          by_cases hs : s = []
          · cases existing <;>
              simp [hkept, hfalsy, hs, DefValue.isUndefined, DefValue.isTruthy]
          · simp [hkept, hfalsy, hs, DefValue.isUndefined, DefValue.isTruthy]
        | other o => simp [hkept, hfalsy, DefValue.isUndefined, DefValue.isTruthy]
      · cases value with
        | undefined =>
          simp [hkept, hfalsy, DefValue.isUndefined, DefValue.isTruthy]
          exact eq_comm
        | bool b => simp [hkept, hfalsy, DefValue.isUndefined]
        | text s => simp [hkept, hfalsy, DefValue.isUndefined]
        | other o => simp [hkept, hfalsy, DefValue.isUndefined]

theorem get_set_property (entry : EntitySetDef ν) (property other : DefProperty)
    (value : DefValue ν) :
    (entry.set property value).get other = if property = other then value else entry.get other := by
  rw [EntitySetDef.get, EntitySetDef.set, Dictionary.get_set]
  split
  · rfl
  · rfl

theorem get_keepProperty (existing definition next : EntitySetDef ν)
    {repaired : DefProperty} (hmem : repaired ∈
      EntitySetRegistry.keptIfUndefined ++ EntitySetRegistry.keptIfFalsy)
    (property : DefProperty) :
    (EntitySetRegistry.keepProperty existing definition next repaired).get property =
      if property = repaired ∧ Restores property (definition.get property) (existing.get property)
      then existing.get property else next.get property := by
  have hfalsy (hkept : repaired ∉ EntitySetRegistry.keptIfUndefined) :
      repaired ∈ EntitySetRegistry.keptIfFalsy :=
    (List.mem_append.mp hmem).resolve_left hkept
  by_cases heq : property = repaired
  · subst heq
    unfold EntitySetRegistry.keepProperty
    by_cases hkept : property ∈ EntitySetRegistry.keptIfUndefined
    · have hrestores : Restores property (definition.get property) (existing.get property) ↔
          (definition.get property).isUndefined = true ∧
            ¬ (existing.get property).isUndefined = true := by
        unfold Restores
        rw [if_pos hkept]
      rw [if_pos hkept]
      split
      · next h => rw [get_set_property, if_pos rfl, if_pos ⟨rfl, hrestores.mpr h⟩]
      · next h => rw [if_neg fun hboth => h (hrestores.mp hboth.2)]
    · have hrestores : Restores property (definition.get property) (existing.get property) ↔
          ¬ (definition.get property).isTruthy = true ∧
            (existing.get property).isTruthy = true := by
        unfold Restores
        rw [if_neg hkept]
        exact and_iff_right (hfalsy hkept)
      rw [if_neg hkept]
      split
      · next h => rw [get_set_property, if_pos rfl, if_pos ⟨rfl, hrestores.mpr h⟩]
      · next h => rw [if_neg fun hboth => h (hrestores.mp hboth.2)]
  · rw [if_neg fun h => heq h.1]
    have hother (value : DefValue ν) :
        (next.set repaired value).get property = next.get property := by
      rw [get_set_property, if_neg (Ne.symm heq)]
    unfold EntitySetRegistry.keepProperty
    split <;> split
    · exact hother _
    · rfl
    · exact hother _
    · rfl

theorem get_foldl_keepProperty (existing definition : EntitySetDef ν) (properties : List DefProperty)
    (hsub : properties ⊆ EntitySetRegistry.keptIfUndefined ++ EntitySetRegistry.keptIfFalsy)
    (next : EntitySetDef ν) (property : DefProperty) :
    (properties.foldl (EntitySetRegistry.keepProperty existing definition) next).get property =
      if property ∈ properties ∧
        Restores property (definition.get property) (existing.get property)
      then existing.get property else next.get property := by
  induction properties generalizing next with
  | nil => simp
  | cons first rest ih =>
    rw [List.foldl_cons, ih fun p hp => hsub (List.mem_cons_of_mem _ hp),
      get_keepProperty existing definition next (hsub List.mem_cons_self)]
    by_cases hrestores : Restores property (definition.get property) (existing.get property)
    · by_cases hrest : property ∈ rest
      · rw [if_pos ⟨hrest, hrestores⟩, if_pos ⟨List.mem_cons_of_mem _ hrest, hrestores⟩]
      · rw [if_neg fun h => hrest h.1]
        refine if_congr ?_ rfl rfl
        rw [List.mem_cons]
        simp [hrest]
    · rw [if_neg fun h => hrestores h.2, if_neg fun h => hrestores h.2,
        if_neg fun h => hrestores h.2]

theorem mem_of_restores {property : DefProperty} {given existing : DefValue ν}
    (h : Restores property given existing) :
    property ∈ EntitySetRegistry.keptIfUndefined ++ EntitySetRegistry.keptIfFalsy := by
  unfold Restores at h
  split at h
  · next hkept => exact List.mem_append_left _ hkept
  · exact List.mem_append_right _ h.1

/-- The definition before the lock is derived. -/
def repairedDefinition (existing : Option (EntitySetDef ν)) (definition : EntitySetDef ν) :
    EntitySetDef ν :=
  match existing with
  | none => definition
  | some existing =>
    (EntitySetRegistry.keptIfUndefined ++ EntitySetRegistry.keptIfFalsy).foldl
      (EntitySetRegistry.keepProperty existing definition)
      { definition with
        properties := Dictionary.setAll existing.properties definition.properties }

theorem get_repairedDefinition (existing : Option (EntitySetDef ν)) {definition : EntitySetDef ν}
    (hdistinct : Dictionary.Distinct definition.properties) (property : DefProperty) :
    (repairedDefinition existing definition).get property =
      mergedValue property (Dictionary.get definition.properties property)
        (existing.elim .undefined fun entry => entry.get property) := by
  unfold repairedDefinition mergedValue
  cases existing with
  | none =>
    rw [if_neg]
    · rfl
    · unfold Restores
      simp [DefValue.isUndefined, DefValue.isTruthy]
  | some entry =>
    dsimp only [Option.elim_some]
    rw [get_foldl_keepProperty entry definition _ (List.Subset.refl _)]
    have hspread : ({ definition with
        properties := Dictionary.setAll entry.properties definition.properties } :
          EntitySetDef ν).get property =
        (Dictionary.get definition.properties property).getD (entry.get property) := by
      rw [EntitySetDef.get, Dictionary.get_setAll, hdistinct.get_reverse, EntitySetDef.get]
      cases Dictionary.get definition.properties property with
      | none => rfl
      | some value => rfl
    rw [hspread]
    refine if_congr ⟨fun h => h.2, fun h => ⟨mem_of_restores h, h⟩⟩ rfl rfl

theorem get_mergeDefinition (existing : Option (EntitySetDef ν)) {definition : EntitySetDef ν}
    (hdistinct : Dictionary.Distinct definition.properties) {property : DefProperty}
    (hlock : property ≠ .transactionCapabilityLocked ∨
      mergedValue property (Dictionary.get definition.properties property)
        (existing.elim .undefined fun entry => entry.get property) ≠ .undefined) :
    (EntitySetRegistry.mergeDefinition existing definition).get property =
      mergedValue property (Dictionary.get definition.properties property)
        (existing.elim .undefined fun entry => entry.get property) := by
  have hrepaired := get_repairedDefinition existing hdistinct property
  show (if (((repairedDefinition existing definition).get .supportsTransactions).isBool false ∧
      ((repairedDefinition existing definition).get .transactionCapabilityLocked).isUndefined) then
    (repairedDefinition existing definition).set .transactionCapabilityLocked (.bool true)
    else repairedDefinition existing definition).get property = _
  split
  · next hderived =>
    rw [get_set_property]
    by_cases heq : DefProperty.transactionCapabilityLocked = property
    · subst heq
      rw [hrepaired, isUndefined_iff] at hderived
      exact absurd hderived.2 (hlock.resolve_left fun hne => hne rfl)
    · rw [if_neg heq, hrepaired]
  · exact hrepaired

theorem keys_mergeDefinition (existing : Option (EntitySetDef ν)) (definition : EntitySetDef ν) :
    (EntitySetRegistry.mergeDefinition existing definition).modelCtor = definition.modelCtor ∧
      (EntitySetRegistry.mergeDefinition existing definition).name = definition.name := by
  have hkeep (entry : EntitySetDef ν) (properties : List DefProperty) (next : EntitySetDef ν) :
      (properties.foldl (EntitySetRegistry.keepProperty entry definition) next).modelCtor =
          next.modelCtor ∧
        (properties.foldl (EntitySetRegistry.keepProperty entry definition) next).name =
          next.name := by
    induction properties generalizing next with
    | nil => exact ⟨rfl, rfl⟩
    | cons first rest ih =>
      have hfirst : (EntitySetRegistry.keepProperty entry definition next first).modelCtor =
            next.modelCtor ∧
          (EntitySetRegistry.keepProperty entry definition next first).name = next.name := by
        unfold EntitySetRegistry.keepProperty
        split <;> split <;> exact ⟨rfl, rfl⟩
      rw [List.foldl_cons]
      exact ⟨(ih _).1.trans hfirst.1, (ih _).2.trans hfirst.2⟩
  have hrepaired : (repairedDefinition existing definition).modelCtor = definition.modelCtor ∧
      (repairedDefinition existing definition).name = definition.name := by
    unfold repairedDefinition
    cases existing with
    | none => exact ⟨rfl, rfl⟩
    | some entry => exact hkeep entry _ _
  show (if (((repairedDefinition existing definition).get .supportsTransactions).isBool false ∧
      ((repairedDefinition existing definition).get .transactionCapabilityLocked).isUndefined) then
    (repairedDefinition existing definition).set .transactionCapabilityLocked (.bool true)
    else repairedDefinition existing definition).modelCtor = _ ∧ (if
      (((repairedDefinition existing definition).get .supportsTransactions).isBool false ∧
      ((repairedDefinition existing definition).get .transactionCapabilityLocked).isUndefined) then
    (repairedDefinition existing definition).set .transactionCapabilityLocked (.bool true)
    else repairedDefinition existing definition).name = _
  split
  · exact hrepaired
  · exact hrepaired

end Merging

/-! ## Validating -/

theorem assignPositive_eq_none_iff (label : String) {keys : List LimitKey} (hnodup : keys.Nodup)
    (limits : PaginationLimits) :
    (assignPositive label keys limits).1 = none ↔
      ∀ key ∈ keys, ∀ limit ∈ limits key, limit.IsPositive := by
  induction keys generalizing limits with
  | nil => exact iff_of_true rfl fun key hkey => absurd hkey List.not_mem_nil
  | cons key keys ih =>
    obtain ⟨hnot, hrest⟩ := List.nodup_cons.mp hnodup
    rw [List.forall_mem_cons, assignPositive]
    cases hlimit : limits key with
    | none =>
      dsimp only
      rw [ih hrest]
      exact (and_iff_right fun limit hmem => absurd hmem (Option.not_mem_none limit)).symm
    | some value =>
      have hother (rounded : LimitValue) :
          (∀ other ∈ keys, ∀ limit ∈ Function.update limits key (some rounded) other,
            limit.IsPositive) ↔ ∀ other ∈ keys, ∀ limit ∈ limits other, limit.IsPositive := by
        refine forall₂_congr fun other hmem => ?_
        rw [Function.update_of_ne]
        rintro rfl
        exact hnot hmem
      dsimp only
      cases value with
      | notFinite =>
        refine iff_of_false (Option.some_ne_none _) fun h => ?_
        exact h.1 _ rfl
      | finite q =>
        rw [normalizePositiveNumber]
        by_cases hq : 0 < q
        · rw [if_pos hq]
          dsimp only
          rw [ih hrest, hother]
          refine (and_iff_right fun limit hmem => ?_).symm
          obtain rfl := Option.some.inj hmem
          exact hq
        · rw [if_neg hq]
          refine iff_of_false (Option.some_ne_none _) fun h => ?_
          exact hq (h.1 _ rfl)

theorem validatePaginationLimits_iff (label : String) (objects : ν → PaginationLimits)
    (pagination : DefValue ν) :
    (validatePaginationLimits label objects pagination).1.isNone = true ↔
      PaginationAccepted objects pagination := by
  rw [Option.isNone_iff_eq_none]
  cases pagination with
  | undefined => exact iff_of_true rfl trivial
  | bool b => cases b <;> simp [validatePaginationLimits, PaginationAccepted]
  | text s =>
    by_cases hs : s = []
    · simp [validatePaginationLimits, PaginationAccepted, hs]
    · simp [validatePaginationLimits, PaginationAccepted, hs]
  | other o =>
    refine (assignPositive_eq_none_iff label (by decide) (objects o)).trans ?_
    constructor
    · intro h key
      refine h key ?_
      cases key <;> decide
    · exact fun h key _ => h key

/-! ## One call -/

section Step

variable {before : List (RegistryCall ν)} {call : RegistryCall ν} {state : RegistryState ν}

omit [DecidableEq ν] in
theorem lastGiven_append (before : List (RegistryCall ν)) (call : RegistryCall ν)
    (modelCtor : Nat) (property : DefProperty) :
    lastGiven (before ++ [call]) modelCtor property =
      if (call.gives modelCtor property).isUndefined then lastGiven before modelCtor property
      else call.gives modelCtor property := by
  rw [lastGiven, List.foldl_append]
  rfl

omit [DecidableEq ν] in
theorem lastName_append (before : List (RegistryCall ν)) (call : RegistryCall ν)
    (modelCtor : Nat) :
    lastName (before ++ [call]) modelCtor =
      (call.givesName modelCtor).or (lastName before modelCtor) := by
  rw [lastName, List.foldl_append]
  rfl

omit [DecidableEq ν] in
theorem gives_of_ne {modelCtor : Nat} (hne : modelCtor ≠ call.modelCtor) (property : DefProperty) :
    call.gives modelCtor property = .undefined := if_neg (Ne.symm hne)

omit [DecidableEq ν] in
theorem givesName_of_ne {modelCtor : Nat} (hne : modelCtor ≠ call.modelCtor) :
    call.givesName modelCtor = none := by
  cases call with
  | register definition _ => exact if_neg (Ne.symm hne)
  | attachRepository _ _ _ => rfl

/-- A call that puts a definition in the place of its model keeps the configuration exactly if the
definition has what was given last. -/
theorem keepsConfiguration_iff_of_put (call : RegistryCall ν) (next : EntitySetDef ν)
    (hlast : IsLast before state)
    (hentry : ∀ modelCtor, (call.apply state).entry modelCtor =
      if call.modelCtor = modelCtor then some next else state.entry modelCtor)
    (hversion : (call.apply state).registry.version = state.registry.version + 1)
    (hname : some next.name =
      (call.givesName call.modelCtor).or (lastName before call.modelCtor)) :
    KeepsConfiguration before call state ↔
      ∀ property, property ≠ .transactionCapabilityLocked ∨
          lastGiven (before ++ [call]) call.modelCtor property ≠ .undefined →
        next.get property = lastGiven (before ++ [call]) call.modelCtor property := by
  have hvalue (modelCtor : Nat) (property : DefProperty) :
      (call.apply state).value modelCtor property =
        if call.modelCtor = modelCtor then next.get property
        else state.value modelCtor property := by
    rw [RegistryState.value, hentry]
    split
    · rfl
    · rfl
  constructor
  · intro h property hproperty
    have hlast := h.last.properties call.modelCtor property hproperty
    rw [hvalue, if_pos rfl] at hlast
    exact hlast
  · intro h
    refine ⟨⟨fun modelCtor property hproperty => ?_, fun modelCtor => ?_⟩, fun modelCtor hne => ?_,
      ?_⟩
    · rw [hvalue]
      by_cases heq : call.modelCtor = modelCtor
      · subst heq
        rw [if_pos rfl]
        exact h property hproperty
      · rw [lastGiven_append, gives_of_ne (Ne.symm heq)] at hproperty ⊢
        rw [if_neg heq]
        exact hlast.properties modelCtor property hproperty
    · rw [hentry, lastName_append]
      by_cases heq : call.modelCtor = modelCtor
      · subst heq
        rw [if_pos rfl]
        exact hname
      · rw [if_neg heq, givesName_of_ne (Ne.symm heq)]
        exact hlast.names modelCtor
    · rw [hentry, if_neg (Ne.symm hne)]
    · rw [hversion]
      exact Nat.succ_ne_self _

/-- The value that the registration merges is the one given last so far, where that counts. -/
theorem keepsConfiguration_register (hlast : IsLast before state) (definition : EntitySetDef ν)
    (hdistinct : Dictionary.Distinct definition.properties) :
    KeepsConfiguration before (.register definition hdistinct) state ↔
      (RegistryCall.register definition hdistinct).Suits state := by
  have hpagination : (EntitySetRegistry.mergeDefinition (state.entry definition.modelCtor)
      definition).get .pagination =
      if (definition.get .pagination).isUndefined then
        state.value definition.modelCtor .pagination
      else definition.get .pagination := by
    rw [get_mergeDefinition _ hdistinct (.inl (by decide))]
    exact (mergedValue_eq_iff _ _ _).mpr fun value _ => .inl (by decide)
  have haccepted := validatePaginationLimits_iff (paginationLabel definition) state.objects
    ((EntitySetRegistry.mergeDefinition (state.entry definition.modelCtor) definition).get
      .pagination)
  rw [hpagination] at haccepted
  by_cases hrefused : PaginationAccepted state.objects
      (if (definition.get .pagination).isUndefined then
        state.value definition.modelCtor .pagination else definition.get .pagination)
  · have hregister : state.registry.register (fun _ => (validatePaginationLimits
        (paginationLabel definition) state.objects
        ((EntitySetRegistry.mergeDefinition (state.entry definition.modelCtor) definition).get
          .pagination)).1.isNone) definition =
        some (state.registry.put (EntitySetRegistry.mergeDefinition
          (state.entry definition.modelCtor) definition) (state.registry.version + 1)) := by
      refine if_pos ?_
      rw [hpagination]
      exact haccepted.mpr hrefused
    have happly : ((RegistryCall.register definition hdistinct).apply state).registry =
        state.registry.put (EntitySetRegistry.mergeDefinition
          (state.entry definition.modelCtor) definition) (state.registry.version + 1) := by
      rw [RegistryCall.apply]
      dsimp only
      rw [hregister, Option.getD_some]
    obtain ⟨hmodel, hname⟩ := keys_mergeDefinition (state.entry definition.modelCtor) definition
    have hput := keepsConfiguration_iff_of_put (.register definition hdistinct)
      (EntitySetRegistry.mergeDefinition (state.entry definition.modelCtor) definition) hlast
      (fun modelCtor => by
        rw [RegistryState.entry, happly, EntitySetRegistry.put, Dictionary.get_set, hmodel]
        rfl)
      (by rw [happly]; rfl)
      (by rw [hname, RegistryCall.givesName, RegistryCall.modelCtor, if_pos rfl]; rfl)
    have hgives (property : DefProperty) :
        (RegistryCall.register definition hdistinct).gives definition.modelCtor property =
          definition.get property := if_pos rfl
    have hnext (property : DefProperty) :
        lastGiven (before ++ [.register definition hdistinct]) definition.modelCtor property =
          if (definition.get property).isUndefined then
            lastGiven before definition.modelCtor property
          else definition.get property := by
      rw [lastGiven_append, hgives]
    rw [hput, RegistryCall.Suits, and_iff_left hrefused]
    refine forall_congr' fun property => ?_
    show (property ≠ .transactionCapabilityLocked ∨
      lastGiven (before ++ [_]) definition.modelCtor property ≠ _ →
        _ = lastGiven (before ++ [_]) definition.modelCtor property) ↔ _
    rw [hnext]
    by_cases hlock : property = .transactionCapabilityLocked
    · subst hlock
      refine iff_of_true (fun hgiven => ?_) fun value _ => .inl (by decide)
      have hmust := hgiven.resolve_left fun hne => hne rfl
      have hmerged : mergedValue .transactionCapabilityLocked
          (Dictionary.get definition.properties .transactionCapabilityLocked)
          (state.value definition.modelCtor .transactionCapabilityLocked) =
          if (definition.get .transactionCapabilityLocked).isUndefined then
            state.value definition.modelCtor .transactionCapabilityLocked
          else definition.get .transactionCapabilityLocked :=
        (mergedValue_eq_iff _ _ _).mpr fun value _ => .inl (by decide)
      have hvalue : (if (definition.get .transactionCapabilityLocked).isUndefined then
            state.value definition.modelCtor .transactionCapabilityLocked
          else definition.get .transactionCapabilityLocked) =
          if (definition.get .transactionCapabilityLocked).isUndefined then
            lastGiven before definition.modelCtor .transactionCapabilityLocked
          else definition.get .transactionCapabilityLocked := by
        split at hmust
        · next hundefined =>
          rw [if_pos hundefined, if_pos hundefined]
          exact hlast.properties _ _ (.inr hmust)
        · next hdefined => rw [if_neg hdefined, if_neg hdefined]
      rw [hvalue] at hmerged
      rw [← hmerged]
      exact get_mergeDefinition _ hdistinct (.inr (by rw [← hmerged] at hmust; exact hmust))
    · have hexisting := hlast.properties definition.modelCtor property (.inl hlock)
      have hmerge := get_mergeDefinition (state.entry definition.modelCtor) hdistinct (.inl hlock)
      rw [hmerge, ← hexisting, ← mergedValue_eq_iff]
      exact ⟨fun h => h (.inl hlock), fun h _ => h⟩
  · refine iff_of_false (fun h => h.version ?_) fun h => hrefused h.2
    have hregister : state.registry.register (fun _ => (validatePaginationLimits
        (paginationLabel definition) state.objects
        ((EntitySetRegistry.mergeDefinition (state.entry definition.modelCtor) definition).get
          .pagination)).1.isNone) definition = none := by
      refine if_neg ?_
      rw [hpagination]
      exact haccepted.not.mpr hrefused
    rw [RegistryCall.apply]
    dsimp only
    rw [hregister, Option.getD_none]

theorem keepsConfiguration_attachRepository (hlast : IsLast before state) (modelCtor : Nat)
    (bindingKey : Text) (repositoryCtor : DefValue ν) :
    KeepsConfiguration before (.attachRepository modelCtor bindingKey repositoryCtor) state ↔
      (RegistryCall.attachRepository modelCtor bindingKey repositoryCtor).Suits state := by
  cases hentry : state.entry modelCtor with
  | none =>
    refine iff_of_false (fun h => h.version ?_) fun h => h.1 hentry
    have hattach : state.registry.attachRepository modelCtor bindingKey repositoryCtor = none := by
      rw [RegistryState.entry] at hentry
      rw [EntitySetRegistry.attachRepository, hentry]
      rfl
    rw [RegistryCall.apply, hattach, Option.getD_none]
  | some entry =>
    have hget : Dictionary.get state.registry.sets modelCtor = some entry := hentry
    have hattach : state.registry.attachRepository modelCtor bindingKey repositoryCtor =
        some (state.registry.put ((entry.set .repositoryBindingKey (.text bindingKey)).set
          .repositoryCtor repositoryCtor) (state.registry.version + 1)) := by
      rw [EntitySetRegistry.attachRepository, hget]
      rfl
    have hmodel : entry.modelCtor = modelCtor :=
      (state.registry.keyed (modelCtor, entry)
        (state.registry.distinct.mem_iff.mpr hget)).symm
    have hput := keepsConfiguration_iff_of_put
      (.attachRepository modelCtor bindingKey repositoryCtor)
      ((entry.set .repositoryBindingKey (.text bindingKey)).set .repositoryCtor repositoryCtor)
      hlast
      (fun other => by
        rw [RegistryState.entry, RegistryCall.apply, hattach, Option.getD_some,
          EntitySetRegistry.put, Dictionary.get_set]
        refine if_congr ?_ rfl rfl
        rw [← hmodel]
        rfl)
      (by rw [RegistryCall.apply, hattach]; rfl)
      (by
        have hname := hlast.names modelCtor
        rw [hentry] at hname
        exact hname)
    have hvalue (property : DefProperty) :
        state.value modelCtor property = entry.get property := by
      rw [RegistryState.value, hentry]
      rfl
    have hgives (property : DefProperty) :
        (RegistryCall.attachRepository modelCtor bindingKey repositoryCtor).gives modelCtor
            property =
          if property = .repositoryBindingKey then .text bindingKey
          else if property = .repositoryCtor then repositoryCtor else .undefined := if_pos rfl
    have hnext (property : DefProperty) :
        lastGiven (before ++ [.attachRepository modelCtor bindingKey repositoryCtor]) modelCtor
            property =
          if property = .repositoryBindingKey then .text bindingKey
          else if property = .repositoryCtor ∧ ¬ repositoryCtor.isUndefined = true then
            repositoryCtor
          else lastGiven before modelCtor property := by
      rw [lastGiven_append, hgives]
      by_cases hbinding : property = .repositoryBindingKey
      · rw [if_pos hbinding, if_pos hbinding]
        rfl
      · rw [if_neg hbinding, if_neg hbinding]
        by_cases hctor : property = .repositoryCtor
        · rw [if_pos hctor]
          by_cases hundefined : repositoryCtor.isUndefined = true
          · rw [if_pos hundefined, if_neg fun h => h.2 hundefined]
          · rw [if_neg hundefined, if_pos ⟨hctor, hundefined⟩]
        · have hnot : ¬ (property = .repositoryCtor ∧ ¬ repositoryCtor.isUndefined = true) :=
            fun h => hctor h.1
          rw [if_neg hctor, if_neg hnot]
          rfl
    rw [hput, RegistryCall.Suits, hentry]
    show (∀ property, _ ∨ lastGiven (before ++ [_]) modelCtor property ≠ _ →
      _ = lastGiven (before ++ [_]) modelCtor property) ↔ _
    simp only [hnext, get_set_property]
    constructor
    · intro h
      refine ⟨Option.some_ne_none _, fun hundefined => ?_⟩
      have hctor := h .repositoryCtor (.inl (by decide))
      have hgiven : repositoryCtor.isUndefined = true := isUndefined_iff.mpr hundefined
      rw [if_pos rfl, if_neg DefProperty.noConfusion, if_neg fun hboth => hboth.2 hgiven,
        hundefined] at hctor
      rw [hlast.properties modelCtor .repositoryCtor (.inl (by decide))]
      exact hctor.symm
    · rintro ⟨_, hkept⟩ property hproperty
      by_cases hctor : property = .repositoryCtor
      · subst hctor
        rw [if_pos rfl, if_neg DefProperty.noConfusion]
        by_cases hundefined : repositoryCtor.isUndefined = true
        · rw [if_neg fun hboth => hboth.2 hundefined,
            ← hlast.properties modelCtor .repositoryCtor (.inl (by decide))]
          rw [isUndefined_iff] at hundefined
          rw [hkept hundefined, hundefined]
        · rw [if_pos ⟨rfl, hundefined⟩]
      · rw [if_neg (Ne.symm hctor)]
        by_cases hbinding : property = .repositoryBindingKey
        · rw [if_pos hbinding.symm, if_pos hbinding]
        · have hnot : ¬ (property = .repositoryCtor ∧ ¬ repositoryCtor.isUndefined = true) :=
            fun h => hctor h.1
          rw [if_neg hbinding, if_neg hnot] at hproperty ⊢
          rw [if_neg (Ne.symm hbinding), ← hvalue]
          exact hlast.properties modelCtor property hproperty

theorem keepsConfiguration_iff_suits (hlast : IsLast before state) (call : RegistryCall ν) :
    KeepsConfiguration before call state ↔ call.Suits state := by
  cases call with
  | register definition hdistinct => exact keepsConfiguration_register hlast definition hdistinct
  | attachRepository modelCtor bindingKey repositoryCtor =>
    exact keepsConfiguration_attachRepository hlast modelCtor bindingKey repositoryCtor

end Step

/-! ## Sequences of calls -/

theorem runCalls_append (objects : ν → PaginationLimits) (before : List (RegistryCall ν))
    (call : RegistryCall ν) :
    runCalls objects (before ++ [call]) = call.apply (runCalls objects before) := by
  rw [runCalls, List.foldl_append]
  rfl

theorem isLast_nil (objects : ν → PaginationLimits) : IsLast [] (runCalls objects []) :=
  ⟨fun _ _ _ => rfl, fun _ => rfl⟩

/-- Every call of a sequence keeps the configuration exactly if every call is accepted and takes
nothing away. -/
theorem register_keepsConfiguration_iff (objects : ν → PaginationLimits)
    (calls : List (RegistryCall ν)) :
    (∀ before call, before ++ [call] <+: calls →
        KeepsConfiguration before call (runCalls objects before)) ↔
      ∀ before call, before ++ [call] <+: calls → call.Suits (runCalls objects before) := by
  constructor
  · intro h before call hprefix
    have hlast : IsLast before (runCalls objects before) := by
      cases before using List.reverseRecOn with
      | nil => exact isLast_nil objects
      | append_singleton earlier last _ =>
        rw [runCalls_append]
        exact (h earlier last ((List.prefix_append _ _).trans hprefix)).last
    exact (keepsConfiguration_iff_suits hlast call).mp (h before call hprefix)
  · intro h before
    have hlast (hbefore : before <+: calls) : IsLast before (runCalls objects before) := by
      induction before using List.reverseRecOn with
      | nil => exact isLast_nil objects
      | append_singleton earlier last ih =>
        have hearlier := ih ((List.prefix_append _ _).trans hbefore)
        rw [runCalls_append]
        exact ((keepsConfiguration_iff_suits hearlier last).mpr (h earlier last hbefore)).last
    intro call hprefix
    exact (keepsConfiguration_iff_suits (hlast ((List.prefix_append _ _).trans hprefix)) call).mpr
      (h before call hprefix)

/-- The ETag properties of a set, given and then given as undefined. -/
def etagGiven (value : DefValue Nat) : RegistryCall Nat :=
  .register ⟨"Products".toList, 0, [(.etagProperties, value)]⟩ (List.nodup_singleton _)

theorem register_losesEtags :
    ¬ ∀ before call, before ++ [call] <+: [etagGiven (.other 1), etagGiven .undefined] →
      KeepsConfiguration before call (runCalls (fun _ _ => none) before) := by
  intro h
  have hlast := (h [etagGiven (.other 1)] (etagGiven .undefined) (List.prefix_refl _)).last
  have hvalue := hlast.properties 0 .etagProperties (.inl (by decide))
  have hlost : (DefValue.undefined : DefValue Nat) = .other 1 := hvalue
  cases hlost

end Metadata

end LoopbackOData
