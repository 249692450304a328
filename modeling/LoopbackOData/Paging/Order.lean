import LoopbackOData.Filter.Parser
import LoopbackOData.Library.Outcome
import LoopbackOData.Request

/-!
# Order descriptors

From the text of `$orderby` to the list of fields and directions that server-driven paging sorts
and resumes by.
-/

namespace LoopbackOData

open Outcome Separated

set_option autoImplicit false

inductive Direction where
  | asc | desc
  deriving DecidableEq, Repr

def Direction.text : Direction → Text
  | .asc => "ASC".toList
  | .desc => "DESC".toList

structure OrderDescriptor where
  field : Text
  direction : Direction
  deriving DecidableEq, Repr

/-- `text.split(/\s+/)` on a trimmed text. -/
def splitSpaces (s : Text) : List Text := (s.splitOnP isSpace).filter (· ≠ [])

/-- A name without the separators of a descriptor key. -/
structure IsIdentifier (name : Text) : Prop where
  colon : ':' ∉ name
  bar : '|' ∉ name

/-- What the paging code reads of an entity set: the primitive properties of its model, the
structured paths it allows in `$orderby`, the key, and the field that delta tracking is on for. -/
structure EntityModel where
  properties : List Text
  structuredPaths : List Text
  idProperties : List Text
  deltaField : Option Text
  identifiers : ∀ name ∈ properties, IsIdentifier name
  paths : ∀ path ∈ structuredPaths, '/' ∈ path
  idProperties_mem : ∀ name ∈ idProperties, name ∈ properties
  deltaField_mem : ∀ name ∈ deltaField, name ∈ properties

/-! ## `$orderby` -/

/-- One item of `$orderby`, as `field DIRECTION`. -/
def parseOrderItem (part : Text) : Except HttpError Text :=
  match splitSpaces part with
  | [] => badRequest "Invalid $orderby expression: empty property."
  | [field] => .ok (field ++ ' ' :: Direction.asc.text)
  | [field, direction] =>
    if asciiLower direction = "asc".toList then .ok (field ++ ' ' :: Direction.asc.text)
    else if asciiLower direction = "desc".toList then .ok (field ++ ' ' :: Direction.desc.text)
    else badRequest ("Invalid $orderby direction: " ++ String.ofList direction)
  | _ => badRequest ("Invalid $orderby expression: " ++ String.ofList (trimText part))

def parseOrder (order : Text) : Except HttpError (List Text) :=
  if order = [] then .ok [] else (order.splitOn ',').mapM parseOrderItem

def validateOrderByField (model : EntityModel) (item : Text) : Except HttpError Unit :=
  match splitSpaces item with
  | [] => .ok ()
  | field :: _ =>
    if field ∈ model.properties ∨ field ∈ model.structuredPaths then .ok ()
    else badRequest ("Unknown property in $orderby: " ++ String.ofList field)

def validateOrderByFields (model : EntityModel) : List Text → Except HttpError Unit
  | [] => .ok ()
  | item :: rest => do
    validateOrderByField model item
    validateOrderByFields model rest

/-- The descriptors of the clauses, each field once. -/
def clauseDescriptors (seen : List OrderDescriptor) :
    List Text → Except HttpError (List OrderDescriptor)
  | [] => .ok seen
  | clause :: rest =>
    match splitSpaces clause with
    | [] => clauseDescriptors seen rest
    | field :: direction =>
      if '/' ∈ field then
        badRequest "$orderby with navigation paths cannot be combined with server-driven paging."
      else if field ∈ seen.map (·.field) then clauseDescriptors seen rest
      else
        let direction := if direction.head?.map asciiUpper = some Direction.desc.text then
          Direction.desc else .asc
        clauseDescriptors (seen ++ [⟨field, direction⟩]) rest

/-- The key properties that are no descriptors yet. -/
def keyDescriptors (seen : List OrderDescriptor) : List Text → List OrderDescriptor
  | [] => seen
  | id :: ids =>
    if id = [] ∨ id ∈ seen.map (·.field) then keyDescriptors seen ids
    else keyDescriptors (seen ++ [⟨id, .asc⟩]) ids

def normalizeOrderDescriptors (order idProperties : List Text) :
    Except HttpError (List OrderDescriptor) := do
  let descriptors := keyDescriptors (← clauseDescriptors [] order) idProperties
  if descriptors = [] then
    return [⟨idProperties.headD "id".toList, .asc⟩]
  else return descriptors

/-- The descriptors that the rows are fetched by when delta tracking is on: its field first. -/
def withDelta (deltaField : Option Text) (descriptors : List OrderDescriptor) :
    List OrderDescriptor :=
  match deltaField with
  | none => descriptors
  | some deltaField => ⟨deltaField, .desc⟩ :: descriptors.filter (·.field ≠ deltaField)

/-- `buildSkipTokenDescriptorKey`. -/
def buildSkipTokenDescriptorKey (descriptors : List OrderDescriptor) : Text :=
  ['|'].intercalate (descriptors.map fun item => item.field ++ ':' :: item.direction.text)

def orderbyKey : Text := "$orderby".toList

/-- The clauses of the request's `$orderby`. -/
def requestOrder (query : Query) : Except HttpError (List Text) := do
  parseOrder ((← query.single orderbyKey).getD [])

/-- The descriptors of the request's `$orderby`, the key properties last. -/
def requestDescriptors (model : EntityModel) (query : Query) :
    Except HttpError (List OrderDescriptor) := do
  let order ← requestOrder query
  validateOrderByFields model order
  normalizeOrderDescriptors order model.idProperties

/-! ## Fields -/

/-- Every field is an identifier of the model, and none is repeated. -/
structure Fields (descriptors : List OrderDescriptor) : Prop where
  identifiers : ∀ item ∈ descriptors, IsIdentifier item.field
  distinct : (descriptors.map (·.field)).Nodup

theorem Fields.concat {descriptors : List OrderDescriptor} {item : OrderDescriptor}
    (h : Fields descriptors) (hitem : IsIdentifier item.field)
    (hnew : item.field ∉ descriptors.map (·.field)) : Fields (descriptors ++ [item]) where
  identifiers := by
    intro item' hmem
    rcases List.mem_append.mp hmem with hmem | hmem
    · exact h.identifiers item' hmem
    · rw [List.mem_singleton.mp hmem]
      exact hitem
  distinct := by
    rw [List.map_append, List.nodup_append]
    refine ⟨h.distinct, List.nodup_singleton _, ?_⟩
    rintro field hfield _ hmem rfl
    rw [List.map_singleton, List.mem_singleton] at hmem
    exact hnew (hmem ▸ hfield)

theorem fields_clauseDescriptors {model : EntityModel} {order : List Text}
    {seen descriptors : List OrderDescriptor} (hseen : Fields seen)
    (hvalid : validateOrderByFields model order = .ok ())
    (h : clauseDescriptors seen order = .ok descriptors) : Fields descriptors := by
  induction order generalizing seen with
  | nil =>
    cases h
    exact hseen
  | cons clause order ih =>
    obtain ⟨_, hclause, hvalid⟩ := bind_eq_ok.mp hvalid
    rw [clauseDescriptors] at h
    cases hwords : splitSpaces clause with
    | nil =>
      rw [hwords] at h
      exact ih hseen hvalid h
    | cons field direction =>
      rw [validateOrderByField, hwords] at hclause
      simp only [hwords] at h
      split at h
      · cases h
      · next hslash =>
        split at h
        · exact ih hseen hvalid h
        · next hnew =>
          refine ih (hseen.concat ?_ hnew) hvalid h
          dsimp only at hclause
          split at hclause
          · next hallowed =>
            rcases hallowed with hmem | hmem
            · exact model.identifiers _ hmem
            · exact absurd (model.paths _ hmem) hslash
          · cases hclause

theorem fields_keyDescriptors {model : EntityModel} {ids : List Text}
    {seen : List OrderDescriptor} (hseen : Fields seen) (hids : ∀ id ∈ ids, id ∈ model.properties) :
    Fields (keyDescriptors seen ids) := by
  induction ids generalizing seen with
  | nil => exact hseen
  | cons id ids ih =>
    have hrest := fun id' hid' => hids id' (List.mem_cons_of_mem _ hid')
    rw [keyDescriptors]
    split
    · exact ih hseen hrest
    · next hnew =>
      rw [not_or] at hnew
      exact ih (hseen.concat (model.identifiers id (hids id List.mem_cons_self)) hnew.2) hrest

theorem fields_requestDescriptors {model : EntityModel} {query : Query}
    {descriptors : List OrderDescriptor} (h : requestDescriptors model query = .ok descriptors) :
    Fields descriptors := by
  obtain ⟨order, _, h⟩ := bind_eq_ok.mp h
  obtain ⟨_, hvalid, h⟩ := bind_eq_ok.mp h
  obtain ⟨clauses, hclauses, h⟩ := bind_eq_ok.mp h
  have hempty : Fields [] := ⟨by simp, List.nodup_nil⟩
  have hfields := fields_keyDescriptors (fields_clauseDescriptors hempty hvalid hclauses)
    model.idProperties_mem
  dsimp only at h
  split at h
  · cases h
    refine ⟨?_, List.nodup_singleton _⟩
    intro item hitem
    rw [List.mem_singleton.mp hitem]
    cases hids : model.idProperties with
    | nil => exact ⟨by decide, by decide⟩
    | cons id ids =>
      exact model.identifiers id (model.idProperties_mem id (hids ▸ List.mem_cons_self))
  · cases h
    exact hfields

theorem Direction.text_injective {d d' : Direction} (h : d.text = d'.text) : d = d' := by
  revert d d'
  intro d d'
  cases d <;> cases d' <;> decide

/-- The key of a token names the fields and their directions. -/
theorem buildSkipTokenDescriptorKey_inj {descriptors descriptors' : List OrderDescriptor}
    (hfields : Fields descriptors) (hfields' : Fields descriptors')
    (h : buildSkipTokenDescriptorKey descriptors = buildSkipTokenDescriptorKey descriptors') :
    descriptors = descriptors' := by
  have hbar (items : List OrderDescriptor) (hitems : Fields items) :
      ∀ p ∈ items.map fun item => item.field ++ ':' :: item.direction.text, '|' ∉ p := by
    intro p hp
    obtain ⟨item, hitem, rfl⟩ := List.mem_map.mp hp
    have hdirection : '|' ∉ item.direction.text := by
      cases item.direction <;> decide
    simp [(hitems.identifiers item hitem).bar, hdirection]
  have hne (items : List OrderDescriptor) :
      ∀ p ∈ items.map fun item => item.field ++ ':' :: item.direction.text, p ≠ [] := by
    intro p hp
    obtain ⟨item, _, rfl⟩ := List.mem_map.mp hp
    simp
  have hpieces := intercalate_inj (hbar _ hfields) (hbar _ hfields') (hne _) (hne _) h
  clear h
  induction descriptors generalizing descriptors' with
  | nil => simpa using hpieces.symm
  | cons item items ih =>
    cases descriptors' with
    | nil => simp at hpieces
    | cons item' items' =>
      rw [List.map_cons, List.map_cons, List.cons.injEq] at hpieces
      obtain ⟨hfield, hdirection⟩ := append_cons_inj
        (hfields.identifiers item List.mem_cons_self).colon
        (hfields'.identifiers item' List.mem_cons_self).colon hpieces.1
      have hitem : item = item' := by
        have hdirection := Direction.text_injective hdirection
        cases item
        cases item'
        cases hfield
        cases hdirection
        rfl
      have htail {i : OrderDescriptor} {is : List OrderDescriptor} (h : Fields (i :: is)) :
          Fields is :=
        ⟨fun j hj => h.identifiers j (List.mem_cons_of_mem _ hj),
          (List.nodup_cons.mp (by simpa using h.distinct)).2⟩
      rw [hitem, ih (htail hfields) (htail hfields') hpieces.2]

theorem fields_withDelta {model : EntityModel} {descriptors : List OrderDescriptor}
    (h : Fields descriptors) : Fields (withDelta model.deltaField descriptors) := by
  cases hdelta : model.deltaField with
  | none => exact h
  | some deltaField =>
    constructor
    · intro item hitem
      rcases List.mem_cons.mp hitem with rfl | hitem
      · exact model.identifiers _ (model.deltaField_mem _ hdelta)
      · exact h.identifiers item (List.mem_filter.mp hitem).1
    · rw [withDelta, List.map_cons, List.nodup_cons]
      refine ⟨?_, h.distinct.sublist (List.filter_sublist.map _)⟩
      intro hmem
      obtain ⟨item, hitem, hfield⟩ := List.mem_map.mp hmem
      have := (List.mem_filter.mp hitem).2
      rw [decide_eq_true_eq] at this
      exact this hfield

/-- Delta tracking keeps an order that its field already leads, descending, and changes every
other. -/
theorem withDelta_eq_self_iff {deltaField : Option Text} {descriptors : List OrderDescriptor}
    (h : Fields descriptors) : withDelta deltaField descriptors = descriptors ↔
      ∀ field ∈ deltaField, descriptors.head? = some ⟨field, .desc⟩ := by
  cases deltaField with
  | none => simp [withDelta]
  | some field =>
    constructor
    · rintro heq _ ⟨⟩
      rw [← heq]
      rfl
    · intro hhead
      cases descriptors with
      | nil => cases hhead field rfl
      | cons item items =>
        cases hhead field rfl
        have hdistinct := h.distinct
        rw [List.map_cons, List.nodup_cons] at hdistinct
        have hothers : items.filter (·.field ≠ field) = items := by
          rw [List.filter_eq_self]
          intro item hitem
          rw [decide_eq_true_eq]
          intro hfield
          exact hdistinct.1 (List.mem_map.mpr ⟨item, hitem, hfield⟩)
        rw [withDelta, List.filter_cons_of_neg (by simp), hothers]

end LoopbackOData
