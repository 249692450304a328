import LoopbackOData.Batch.ContentIds

/-!
# The entity sets of a changeset

Before a changeset is executed, the entity set that each of its requests writes is worked out from
its URL, which may begin with a reference to an earlier request of the changeset.
-/

set_option autoImplicit false

namespace LoopbackOData

abbrev IndexedRequest := BatchRequest × Nat

/-- `groupById.get(id)`: the last request of the group with an id. -/
def findById (group : List IndexedRequest) (id : Text) : Option IndexedRequest :=
  if id = [] then none else group.reverse.find? fun request => request.1.id = some id

def isOrdinal (inner : Text) : Bool := inner ≠ [] && inner.all isDigit

def ordinalValue (inner : Text) : Nat := inner.foldl (fun n c => 10 * n + (c.toNat - '0'.toNat)) 0

/-- The request that a token stands for: by its place in the batch, or by its id in the group. -/
def referencedRequest (token : Text) (group requests : List IndexedRequest) :
    Option IndexedRequest :=
  if startsWith token "requests(".toList && endsWith token [')'] then
    let inner := trimText ((token.drop "requests(".length).dropLast)
    if isOrdinal inner then
      if ordinalValue inner = 0 then none
      else requests.find? fun request => request.2 + 1 = ordinalValue inner
    else findById group ((unquoteId inner).getD inner)
  else findById group token

def resolveAtomicityGroupContentIdReference (token : Text) (index : Nat) (groupId : Text)
    (group requests : List IndexedRequest) : Option IndexedRequest :=
  match referencedRequest token group requests with
  | none => none
  | some referenced =>
    if referenced.1.atomicityGroup.map trimText ≠ some groupId then none
    else if index ≤ referenced.2 then none
    else some referenced

def invalidGroupReference {α : Type} (reference : Text) : Except Thrown α :=
  .error (.http ⟨400, some "ContentIdReferenceInvalid".toList,
    "Invalid Content-ID reference ".toList ++ reference ++
      ": must reference an earlier request in the same changeset.".toList⟩)

/-- A reference is to an earlier request, so there are fewer references in a row than requests. -/
def resolveSetNameWithin (service : BatchService) (groupId : Text)
    (group requests : List IndexedRequest) : Nat → IndexedRequest → Except Thrown (Option Text)
  | 0, _ => .ok none
  | n + 1, request =>
    match resolveEntitySetName service request.1.url with
    | some direct => .ok (some direct)
    | none =>
      match stripServiceRootFromUrl service request.1.url with
      | none => .ok none
      | some [] => .ok none
      | some (first :: trailing) =>
        let firstRaw := decodePathSegment first
        match extractContentIdToken firstRaw with
        | none => .ok none
        | some placeholder =>
          if ¬ startsWith firstRaw ['$'] then .ok none
          else
            match resolveAtomicityGroupContentIdReference placeholder.token request.2 groupId group
              requests with
            | none => invalidGroupReference firstRaw
            | some referenced => do
              match ← resolveSetNameWithin service groupId group requests n referenced with
              | none => .ok none
              | some baseSet => .ok (resolveEntitySetFromBase service baseSet trailing)

def resolveAtomicityGroupEntitySetName (service : BatchService) (groupId : Text)
    (group requests : List IndexedRequest) (request : IndexedRequest) :
    Except Thrown (Option Text) :=
  resolveSetNameWithin service groupId group requests (request.2 + 1) request

end LoopbackOData
