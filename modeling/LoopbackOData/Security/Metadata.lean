import LoopbackOData.Filter.Literals
import LoopbackOData.Library.Dictionary

/-!
# Security metadata of generated controllers

How the authentication and authorization metadata of a source controller reaches the methods of the
controller that is generated for it: collected by name of method, multiplied by aliases, assigned to
the first that comes.
-/

namespace LoopbackOData

namespace Security

set_option autoImplicit false

/-! ## Keys -/

/-- The keys that metadata is stored under, each for classes and for methods. -/
inductive MetadataKey where
  | legacyAuthentication
  | authentication
  | legacyAuthorization
  | authorization
  deriving DecidableEq

inductive MetadataAlias where
  | authenticationMetadata
  | authorizationMetadata
  | authenticationClass
  | authenticationMethod
  | authorizationClass
  | authorizationMethod
  deriving DecidableEq

def MetadataAlias.classKeys : MetadataAlias → List MetadataKey
  | .authenticationMetadata => [.legacyAuthentication, .authentication]
  | .authorizationMetadata => [.legacyAuthorization, .authorization]
  | .authenticationClass => [.authentication, .legacyAuthentication]
  | .authenticationMethod => []
  | .authorizationClass => [.authorization, .legacyAuthorization]
  | .authorizationMethod => []

def MetadataAlias.methodKeys : MetadataAlias → List MetadataKey
  | .authenticationMetadata => [.legacyAuthentication, .authentication]
  | .authorizationMetadata => [.legacyAuthorization, .authorization]
  | .authenticationClass => []
  | .authenticationMethod => [.authentication, .legacyAuthentication]
  | .authorizationClass => []
  | .authorizationMethod => [.authorization, .legacyAuthorization]

def metadataAliases : List MetadataAlias :=
  [.authenticationMetadata, .authorizationMetadata, .authenticationClass, .authenticationMethod,
    .authorizationClass, .authorizationMethod]

/-! ## Source controllers -/

/-- A controller class: the methods of its own prototype, in the order of their declaration, those
of its base classes, and the metadata of each. A method has one name, which is an identifier. -/
structure SourceClass (α : Type) where
  classMetadata : MetadataKey → Option α
  methods : List Text
  inherited : List Text
  methodMetadata : Text → MetadataKey → Option α
  methods_nodup : methods.Nodup

section Metadata

variable {α : Type}

structure ControllerSecurityMetadata (α : Type) where
  classMetadata : Dictionary MetadataAlias α
  methodMetadata : Dictionary Text (Dictionary MetadataAlias α)

/-- `readClassMetadata` and `readMethodMetadata`: the first key that has a value. -/
def readMetadata (metadata : MetadataKey → Option α) (keys : List MetadataKey) : Option α :=
  keys.findSome? metadata

def collectMethod (ctor : SourceClass α) (mapping : MetadataAlias)
    (methodMetadata : Dictionary Text (Dictionary MetadataAlias α)) (methodName : Text) :
    Dictionary Text (Dictionary MetadataAlias α) :=
  match readMetadata (ctor.methodMetadata methodName) mapping.methodKeys with
  | none => methodMetadata
  | some value =>
    let values := (methodMetadata.get methodName).getD Dictionary.empty
    methodMetadata.set methodName (values.set mapping value)

def collectAlias (ctor : SourceClass α) (collected : ControllerSecurityMetadata α)
    (mapping : MetadataAlias) : ControllerSecurityMetadata α where
  classMetadata := match readMetadata ctor.classMetadata mapping.classKeys with
    | none => collected.classMetadata
    | some value => collected.classMetadata.set mapping value
  methodMetadata := ctor.methods.foldl (collectMethod ctor mapping) collected.methodMetadata

def collectControllerSecurityMetadata (ctor : SourceClass α) :
    Option (ControllerSecurityMetadata α) :=
  let collected := metadataAliases.foldl (collectAlias ctor) ⟨Dictionary.empty, Dictionary.empty⟩
  if collected.classMetadata.isEmpty && collected.methodMetadata.isEmpty then none
  else some collected

end Metadata

/-! ## Aliases -/

/-- The further methods that take the metadata of a method; a single name is a list of one. -/
abbrev MethodAliasMap := Dictionary Text (List Text)

def resolveMethodAliasNames (methodName : Text) (aliasMap : Option MethodAliasMap) : List Text :=
  Dictionary.distinctKeys
    (methodName :: (aliasMap.bind fun aliasMap => aliasMap.get methodName).getD [])

/-- An entry of a later map replaces that of an earlier one; without a name it removes it. -/
def mergeMethodAliases (aggregated : MethodAliasMap) (entry : Text × List Text) :
    MethodAliasMap :=
  let normalized := (entry.2.map trimText).filter (· ≠ [])
  if normalized = [] then aggregated.filter fun other => other.1 ≠ entry.1
  else aggregated.set entry.1 (Dictionary.distinctKeys normalized)

def mergeMethodAliasMap (aggregated : MethodAliasMap) : Option MethodAliasMap → MethodAliasMap
  | none => aggregated
  | some map => map.foldl mergeMethodAliases aggregated

def mergeMethodAliasMaps (maps : List (Option MethodAliasMap)) : Option MethodAliasMap :=
  let aggregated := maps.foldl mergeMethodAliasMap Dictionary.empty
  if aggregated.isEmpty then none else some aggregated

/-- The controllers that are generated: their `deriveDefaultMethodAliases` differ in the method that
`find` stands for. -/
inductive ControllerKind where
  | crud
  | singleton

def ControllerKind.findTarget : ControllerKind → Text
  | .crud => "list".toList
  | .singleton => "findById".toList

def writeAliasSources : List Text :=
  ["update".toList, "updateById".toList, "replace".toList, "replaceById".toList, "patch".toList,
    "patchById".toList, "bulkUpdate".toList]

def deleteAliasSources : List Text :=
  ["delete".toList, "deleteById".toList, "destroyById".toList]

/-- The targets of each source with their priorities. -/
abbrev DerivedAliases := Dictionary Text (Dictionary Text Nat)

def addAlias (controllerMethods : List Text) (derived : DerivedAliases) (source target : Text)
    (priority : Nat) : DerivedAliases :=
  if target ∉ controllerMethods then derived
  else
    let map := (derived.get source).getD Dictionary.empty
    match map.get target with
    | none => derived.set source (map.set target priority)
    | some existing =>
      if priority < existing then derived.set source (map.set target priority) else derived

/-- `methodName.substring(0, methodName.length - 'ById'.length)` after the check for that ending. -/
def stripById (methodName : Text) : Option Text :=
  if endsWith methodName "ById".toList then some (methodName.take (methodName.length - 4))
  else none

/-- The targets that a method name stands for, with their priorities. -/
def defaultAliases (kind : ControllerKind) (controllerMethods : List Text)
    (hasExplicitDeleteMetadata : Bool) (methodName : Text) : List (Text × Nat) :=
  (if methodName = "find".toList ∧ kind.findTarget ∈ controllerMethods then
    [(kind.findTarget, 10)] else []) ++
  (match stripById methodName with
    | none => []
    | some base =>
      if base ≠ [] ∧ base ∈ controllerMethods then [(base, 10)]
      else if base = "replace".toList ∧ "update".toList ∈ controllerMethods then
        [("update".toList, 10)]
      else []) ++
  (if methodName ∈ writeAliasSources then
    ("linkNavigationRef".toList, 10) ::
      (if hasExplicitDeleteMetadata then [] else [("unlinkNavigationRef".toList, 20)])
    else []) ++
  (if methodName ∈ deleteAliasSources then [("unlinkNavigationRef".toList, 5)] else [])

def deriveMethodAliases (kind : ControllerKind) (controllerMethods : List Text)
    (hasExplicitDeleteMetadata : Bool) (derived : DerivedAliases) (methodName : Text) :
    DerivedAliases :=
  (defaultAliases kind controllerMethods hasExplicitDeleteMetadata methodName).foldl
    (fun derived item => addAlias controllerMethods derived methodName item.1 item.2) derived

def sortedAliases (aliases : Dictionary Text Nat) : List Text :=
  (aliases.mergeSort fun a b => a.2 ≤ b.2).map Prod.fst

def deriveDefaultMethodAliases {α : Type} (kind : ControllerKind) (controllerMethods : List Text)
    (metadata : Option (ControllerSecurityMetadata α)) : Option MethodAliasMap :=
  metadata.bind fun metadata =>
    let names := metadata.methodMetadata.map Prod.fst
    let hasExplicitDeleteMetadata := names.any fun name => name ∈ deleteAliasSources
    let derived := names.foldl
      (deriveMethodAliases kind controllerMethods hasExplicitDeleteMetadata) Dictionary.empty
    if derived.isEmpty then none
    else some (derived.map fun entry => (entry.1, sortedAliases entry.2))

/-! ## Generated controllers -/

section Apply

variable {α : Type} (controllerMethods : List Text)

/-- The metadata of a generated controller under each key, of the class and of its methods. -/
structure GeneratedMetadata (α : Type) where
  classMetadata : Dictionary MetadataKey α
  methodMetadata : Dictionary MetadataKey (Dictionary Text α)

def assignTarget (value : α) (methodValues : Dictionary Text α) (targetName : Text) :
    Dictionary Text α :=
  if targetName ∉ controllerMethods ∨ methodValues.has targetName then methodValues
  else methodValues.set targetName value

def assignMethod (methodNameRemap : Option MethodAliasMap) (mapping : MetadataAlias)
    (methodValues : Dictionary Text α) (entry : Text × Dictionary MetadataAlias α) :
    Dictionary Text α :=
  match entry.2.get mapping with
  | none => methodValues
  | some value => (resolveMethodAliasNames entry.1 methodNameRemap).foldl
      (assignTarget controllerMethods value) methodValues

def methodValuesOf (methodNameRemap : Option MethodAliasMap) (mapping : MetadataAlias)
    (methodMetadata : Dictionary Text (Dictionary MetadataAlias α)) : Dictionary Text α :=
  methodMetadata.foldl (assignMethod controllerMethods methodNameRemap mapping) Dictionary.empty

def applyAlias (metadata : ControllerSecurityMetadata α) (methodNameRemap : Option MethodAliasMap)
    (target : GeneratedMetadata α) (mapping : MetadataAlias) : GeneratedMetadata α where
  classMetadata := match metadata.classMetadata.get mapping with
    | none => target.classMetadata
    | some classValue =>
      mapping.classKeys.foldl (fun defined key => defined.set key classValue) target.classMetadata
  methodMetadata :=
    let methodValues :=
      methodValuesOf controllerMethods methodNameRemap mapping metadata.methodMetadata
    if methodValues.isEmpty then target.methodMetadata
    else mapping.methodKeys.foldl (fun defined key => defined.set key methodValues)
      target.methodMetadata

/-- The methods that are available are those of the generated prototype. -/
def applyControllerSecurityMetadata (metadata : Option (ControllerSecurityMetadata α))
    (methodNameRemap : Option MethodAliasMap) : GeneratedMetadata α :=
  match metadata with
  | none => ⟨Dictionary.empty, Dictionary.empty⟩
  | some metadata => metadataAliases.foldl (applyAlias controllerMethods metadata methodNameRemap)
      ⟨Dictionary.empty, Dictionary.empty⟩

/-- The end of `defineODataController` and `defineODataSingletonController`. -/
def methodNameRemapOf (kind : ControllerKind) (securityMethodAliases : Option MethodAliasMap)
    (metadata : Option (ControllerSecurityMetadata α)) : Option MethodAliasMap :=
  mergeMethodAliasMaps
    [deriveDefaultMethodAliases kind controllerMethods metadata, securityMethodAliases]

def generatedMetadata (kind : ControllerKind) (securityMethodAliases : Option MethodAliasMap)
    (ctor : SourceClass α) : GeneratedMetadata α :=
  let metadata := collectControllerSecurityMetadata ctor
  applyControllerSecurityMetadata controllerMethods metadata
    (methodNameRemapOf controllerMethods kind securityMethodAliases metadata)

/-- `MetadataInspector.getMethodMetadata` on the generated controller. -/
def GeneratedMetadata.methodValue (generated : GeneratedMetadata α) (key : MetadataKey)
    (methodName : Text) : Option α :=
  (generated.methodMetadata.get key).bind fun values => values.get methodName

end Apply

end Security

end LoopbackOData
