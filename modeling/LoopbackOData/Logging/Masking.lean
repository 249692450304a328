import LoopbackOData.Logging.Complete

/-!
# What masks hide

A guide says which children of a container a step of a path leads to. Hiding the ends of paths
under the guide of keys and indices is what masks are for; under the guide of parsed paths it is
what they do. The masks do what they are for on a body exactly if the two end at the same places.
-/

namespace LoopbackOData

namespace Logging

set_option autoImplicit false

/-! ## Hiding the ends of paths -/

structure Guide (α : Type) where
  /-- The step leads to the item with this index, of an array of this length. -/
  toItem : Nat → Nat → α → Bool
  /-- The step leads to the property with this key. -/
  toField : Text → α → Bool

section Paths

variable {α : Type}

/-- What remains of the paths whose first step leads on. -/
def pathsAfter (leads : α → Bool) : List (List α) → List (List α)
  | [] => []
  | [] :: paths => pathsAfter leads paths
  | (step :: rest) :: paths =>
    if leads step then rest :: pathsAfter leads paths else pathsAfter leads paths

/-- One of the paths ends here. -/
def endsHere (paths : List (List α)) : Bool := paths.any List.isEmpty

theorem pathsAfter_append (leads : α → Bool) (paths paths' : List (List α)) :
    pathsAfter leads (paths ++ paths') = pathsAfter leads paths ++ pathsAfter leads paths' := by
  induction paths with
  | nil => rfl
  | cons path paths ih =>
    cases path with
    | nil => exact ih
    | cons step rest =>
      rw [List.cons_append, pathsAfter, pathsAfter, ih]
      split <;> rfl

variable (guide : Guide α)

mutual

/-- The value with everything at the end of a path replaced. -/
def hide : List (List α) → RowValue → RowValue
  | paths, .array items =>
    if endsHere paths then .string maskText
    else .array (hideItems paths items.length 0 items)
  | paths, .record fields =>
    if endsHere paths then .string maskText else .record (hideFields paths fields)
  | paths, value => if endsHere paths then .string maskText else value

def hideItems : List (List α) → Nat → Nat → List RowValue → List RowValue
  | _, _, _, [] => []
  | paths, length, index, item :: items =>
    hide (pathsAfter (guide.toItem length index) paths) item ::
      hideItems paths length (index + 1) items

def hideFields : List (List α) → List (Text × RowValue) → List (Text × RowValue)
  | _, [] => []
  | paths, (key, value) :: fields =>
    (key, hide (pathsAfter (guide.toField key) paths) value) :: hideFields paths fields

end

theorem hide_of_endsHere {paths : List (List α)} (h : endsHere paths = true) (value : RowValue) :
    hide guide paths value = .string maskText := by
  cases value <;> exact if_pos h

theorem hide_array {paths : List (List α)} (h : ¬ endsHere paths = true)
    (items : List RowValue) :
    hide guide paths (.array items) = .array (hideItems guide paths items.length 0 items) :=
  if_neg h

theorem hide_record {paths : List (List α)} (h : ¬ endsHere paths = true)
    (fields : List (Text × RowValue)) :
    hide guide paths (.record fields) = .record (hideFields guide paths fields) :=
  if_neg h

theorem length_hideItems (paths : List (List α)) (length index : Nat) (items : List RowValue) :
    (hideItems guide paths length index items).length = items.length := by
  induction items generalizing index with
  | nil => rfl
  | cons item items ih => exact congrArg Nat.succ (ih (index + 1))

mutual

/-- Hiding twice hides nothing more. -/
theorem hide_hide (paths : List (List α)) (value : RowValue) :
    hide guide paths (hide guide paths value) = hide guide paths value := by
  by_cases h : endsHere paths = true
  · rw [hide_of_endsHere guide h, hide_of_endsHere guide h]
  · match value with
    | .array items =>
      rw [hide, if_neg h, hide, if_neg h, length_hideItems, hideItems_hideItems]
    | .record fields => rw [hide, if_neg h, hide, if_neg h, hideFields_hideFields]
    | .undefined => simp only [hide, if_neg h]
    | .null => simp only [hide, if_neg h]
    | .bool b => simp only [hide, if_neg h]
    | .number n => simp only [hide, if_neg h]
    | .bigint i => simp only [hide, if_neg h]
    | .string s => simp only [hide, if_neg h]
    | .date iso => simp only [hide, if_neg h]

theorem hideItems_hideItems (paths : List (List α)) (length index : Nat)
    (items : List RowValue) :
    hideItems guide paths length index (hideItems guide paths length index items) =
      hideItems guide paths length index items := by
  match items with
  | [] => rfl
  | item :: items =>
    rw [hideItems, hideItems, hide_hide _ item, hideItems_hideItems paths length _ items]

theorem hideFields_hideFields (paths : List (List α)) (fields : List (Text × RowValue)) :
    hideFields guide paths (hideFields guide paths fields) = hideFields guide paths fields := by
  match fields with
  | [] => rfl
  | (key, value) :: fields =>
    rw [hideFields, hideFields, hide_hide _ value, hideFields_hideFields paths fields]

end

end Paths

/-! ## The two guides -/

/-- A step of a path through a JSON value. -/
inductive Step where
  | key (name : Text)
  | index (n : Nat)
  deriving DecidableEq

def stepGuide : Guide Step where
  toItem _ index step := step = .index index
  toField key step := step = .key key

variable (reading : IntegerReading)

/-- Where the steps of a parsed path lead. -/
def segmentGuide : Guide PathSegment where
  toItem length index segment := arrayPlace reading segment length = some index
  toField key segment := propertyKey reading segment ≠ [] ∧ propertyKey reading segment = key

/-- The steps of the paths that can be read. -/
def maskSegments (maskPaths : List Text) : List (List PathSegment) :=
  (maskPaths.map fun path => (parseMaskPath path).getD []).filter (· ≠ [])

/-! ## What the masks do -/

theorem maskAt_string (segments : List PathSegment) :
    maskAt reading segments (.string maskText) = .string maskText := by
  cases segments <;> rfl

theorem pathsAfter_single (leads : PathSegment → Bool) (segment : PathSegment)
    (segments : List PathSegment) :
    pathsAfter leads [segment :: segments] = if leads segment then [segments] else [] := rfl

theorem endsHere_append {α : Type} (paths paths' : List (List α)) :
    endsHere (paths ++ paths') = (endsHere paths || endsHere paths') :=
  List.any_append

section Masks

variable {reading}

theorem toItem_iff {length index : Nat} {segment : PathSegment} :
    (segmentGuide reading).toItem length index segment = true ↔
      arrayPlace reading segment length = some index :=
  decide_eq_true_iff

theorem toField_iff {key : Text} {segment : PathSegment} :
    (segmentGuide reading).toField key segment = true ↔
      propertyKey reading segment ≠ [] ∧ propertyKey reading segment = key :=
  decide_eq_true_iff

/-- A path whose first step leads to none of these items hides nothing of them. -/
theorem hideItems_append_of_not {segment : PathSegment} (paths : List (List PathSegment))
    (segments : List PathSegment) (length : Nat) (items : List RowValue) {index : Nat}
    (h : ∀ place, arrayPlace reading segment length = some place → place < index) :
    hideItems (segmentGuide reading) (paths ++ [segment :: segments]) length index items =
      hideItems (segmentGuide reading) paths length index items := by
  induction items generalizing index with
  | nil => rfl
  | cons item items ih =>
    have hnot : ¬ (segmentGuide reading).toItem length index segment = true := fun hlead =>
      absurd (h index (toItem_iff.mp hlead)) (lt_irrefl index)
    rw [hideItems, hideItems, pathsAfter_append, pathsAfter_single, if_neg hnot, List.append_nil,
      ih fun place hplace => (h place hplace).trans (Nat.lt_succ_self index)]

mutual

/-- The masks are applied one after the other, and each hides the end of its path. -/
theorem maskAt_hide (paths : List (List PathSegment)) (segments : List PathSegment)
    (value : RowValue) :
    maskAt reading segments (hide (segmentGuide reading) paths value) =
      hide (segmentGuide reading) (paths ++ [segments]) value := by
  by_cases hends : endsHere paths = true
  · have hends' : endsHere (paths ++ [segments]) = true := by
      rw [endsHere_append, hends, Bool.true_or]
    rw [hide_of_endsHere _ hends, hide_of_endsHere _ hends', maskAt_string]
  · match segments with
    | [] =>
      have hends' : endsHere (paths ++ [[]]) = true := by
        rw [endsHere_append]
        exact Bool.or_true _
      rw [hide_of_endsHere _ hends', maskAt]
    | segment :: segments =>
      have hends' : ¬ endsHere (paths ++ [segment :: segments]) = true := by
        rw [endsHere_append]
        simpa [endsHere] using hends
      match value with
      | .array items =>
        rw [hide, if_neg hends, hide, if_neg hends', maskAt, length_hideItems]
        split
        · next place hplace =>
          rw [hideItems_append hplace paths segments items (Nat.zero_le place), Nat.sub_zero]
        · next hplace =>
          rw [hideItems_append_of_not paths segments items.length items fun place h =>
            absurd (h.symm.trans hplace) (Option.some_ne_none place)]
      | .record fields =>
        rw [hide, if_neg hends, hide, if_neg hends', maskAt, hideFields_append]
        split <;> rfl
      | .undefined => simp only [hide, if_neg hends, if_neg hends', maskAt]
      | .null => simp only [hide, if_neg hends, if_neg hends', maskAt]
      | .bool b => simp only [hide, if_neg hends, if_neg hends', maskAt]
      | .number n => simp only [hide, if_neg hends, if_neg hends', maskAt]
      | .bigint i => simp only [hide, if_neg hends, if_neg hends', maskAt]
      | .string s => simp only [hide, if_neg hends, if_neg hends', maskAt]
      | .date iso => simp only [hide, if_neg hends, if_neg hends', maskAt]

theorem hideItems_append {segment : PathSegment} {length place : Nat}
    (hplace : arrayPlace reading segment length = some place) (paths : List (List PathSegment))
    (segments : List PathSegment) (items : List RowValue) {index : Nat} (hle : index ≤ place) :
    hideItems (segmentGuide reading) (paths ++ [segment :: segments]) length index items =
      (hideItems (segmentGuide reading) paths length index items).modify (place - index)
        (maskAt reading segments) := by
  match items with
  | [] => simp [hideItems]
  | item :: items =>
    rw [hideItems, hideItems, pathsAfter_append, pathsAfter_single]
    by_cases heq : index = place
    · subst heq
      rw [if_pos (toItem_iff.mpr hplace), ← maskAt_hide _ segments item, Nat.sub_self,
        List.modify_zero_cons, hideItems_append_of_not]
      intro place' hplace'
      rw [hplace] at hplace'
      cases hplace'
      exact Nat.lt_succ_self index
    · have hnot : ¬ (segmentGuide reading).toItem length index segment = true := fun hlead =>
        heq (Option.some.inj ((toItem_iff.mp hlead).symm.trans hplace))
      have hsub : place - index = (place - (index + 1)) + 1 := by omega
      rw [if_neg hnot, List.append_nil, hsub, List.modify_succ_cons,
        hideItems_append hplace paths segments items (by omega)]

theorem hideFields_append {segment : PathSegment} (paths : List (List PathSegment))
    (segments : List PathSegment) (fields : List (Text × RowValue)) :
    hideFields (segmentGuide reading) (paths ++ [segment :: segments]) fields =
      if propertyKey reading segment = [] then hideFields (segmentGuide reading) paths fields
      else modifyField (hideFields (segmentGuide reading) paths fields)
        (propertyKey reading segment) (maskAt reading segments) := by
  match fields with
  | [] => simp [hideFields, modifyField]
  | (key, value) :: fields =>
    rw [hideFields, hideFields, pathsAfter_append, pathsAfter_single,
      hideFields_append paths segments fields]
    by_cases hempty : propertyKey reading segment = []
    · have hnot : ¬ (segmentGuide reading).toField key segment = true := fun hlead =>
        (toField_iff.mp hlead).1 hempty
      rw [if_neg hnot, List.append_nil, if_pos hempty, if_pos hempty]
    · rw [if_neg hempty, if_neg hempty, modifyField, modifyField, List.map_cons]
      by_cases hkey : propertyKey reading segment = key
      · rw [if_pos (toField_iff.mpr ⟨hempty, hkey⟩), if_pos hkey.symm,
          ← maskAt_hide _ segments value, hkey]
      · have hnot : ¬ (segmentGuide reading).toField key segment = true := fun hlead =>
          hkey (toField_iff.mp hlead).2
        rw [if_neg hnot, List.append_nil, if_neg (Ne.symm hkey)]

end

theorem endsHere_nil {α : Type} : ¬ endsHere ([] : List (List α)) = true := Bool.false_ne_true

mutual

/-- Without paths nothing is hidden. -/
theorem hide_nil {α : Type} (guide : Guide α) (value : RowValue) :
    hide guide [] value = value := by
  match value with
  | .array items => rw [hide, if_neg endsHere_nil, hideItems_nil]
  | .record fields => rw [hide, if_neg endsHere_nil, hideFields_nil]
  | .undefined => rfl
  | .null => rfl
  | .bool b => rfl
  | .number n => rfl
  | .bigint i => rfl
  | .string s => rfl
  | .date iso => rfl

theorem hideItems_nil {α : Type} (guide : Guide α) (length index : Nat)
    (items : List RowValue) : hideItems guide [] length index items = items := by
  match items with
  | [] => rfl
  | item :: items => rw [hideItems, pathsAfter, hide_nil guide item, hideItems_nil]

theorem hideFields_nil {α : Type} (guide : Guide α) (fields : List (Text × RowValue)) :
    hideFields guide [] fields = fields := by
  match fields with
  | [] => rfl
  | (key, value) :: fields => rw [hideFields, pathsAfter, hide_nil guide value, hideFields_nil]

end

theorem endsHere_maskSegments (maskPaths : List Text) :
    endsHere (maskSegments maskPaths) = false := by
  rw [endsHere, List.any_eq_false]
  intro segments hmem
  have hne := (List.mem_filter.mp hmem).2
  rw [List.isEmpty_iff]
  exact of_decide_eq_true hne

theorem maskSegments_cons (path : Text) (maskPaths : List Text) :
    maskSegments (path :: maskPaths) =
      if (parseMaskPath path).getD [] = [] then maskSegments maskPaths
      else [(parseMaskPath path).getD []] ++ maskSegments maskPaths := by
  rw [maskSegments, List.map_cons]
  split
  · next hempty => exact List.filter_cons_of_neg (by simp [hempty])
  · next hne => exact List.filter_cons_of_pos (by simpa using hne)

theorem foldl_maskPath (paths : List (List PathSegment)) (maskPaths : List Text)
    (body : RowValue) :
    maskPaths.foldl (maskPath reading) (hide (segmentGuide reading) paths body) =
      hide (segmentGuide reading) (paths ++ maskSegments maskPaths) body := by
  induction maskPaths generalizing paths with
  | nil => exact congrArg (fun paths => hide _ paths body) (List.append_nil paths).symm
  | cons path maskPaths ih =>
    rw [List.foldl_cons, maskPath, applyMaskAtPath, maskSegments_cons]
    split
    · exact ih paths
    · rw [maskAt_hide, ih, List.append_assoc]

/-- The logged body hides the ends of the paths that are read. -/
theorem maskRequestBody_eq (body : RowValue) (maskPaths : List Text) :
    maskRequestBody reading body maskPaths =
      hide (segmentGuide reading) (maskSegments maskPaths) body := by
  have hfold := @foldl_maskPath reading [] maskPaths body
  rw [hide_nil, List.nil_append] at hfold
  rw [maskRequestBody]
  split
  · exact hfold
  · next hobject =>
    have hends : ¬ endsHere (maskSegments maskPaths) = true := by
      rw [endsHere_maskSegments]
      exact Bool.false_ne_true
    cases body with
    | array items => exact absurd rfl hobject
    | record fields => exact absurd rfl hobject
    | _ => simp only [hide, if_neg hends]

end Masks

/-! ## Hiding the same places -/

variable {α : Type}

/-- At this place no path of the first kind ends, and nothing is hidden that was not hidden, and
so below. -/
def AgreesHere (paths : List (List Step)) (segments : List (List α)) (value : RowValue)
    (below : Prop) : Prop :=
  if endsHere paths then endsHere segments = true
  else if endsHere segments then value = .string maskText
  else below

section Agreement

variable (guide : Guide α)

mutual

/-- Where one of the steps ends one of the segments ends, and where one of the segments ends one of
the steps has ended, or what is there is the mask itself. -/
def Agrees : List (List Step) → List (List α) → RowValue → Prop
  | paths, segments, .array items =>
    AgreesHere paths segments (.array items) (AgreesItems paths segments items.length 0 items)
  | paths, segments, .record fields =>
    AgreesHere paths segments (.record fields) (AgreesFields paths segments fields)
  | paths, segments, value => AgreesHere paths segments value True

def AgreesItems : List (List Step) → List (List α) → Nat → Nat → List RowValue → Prop
  | _, _, _, _, [] => True
  | paths, segments, length, index, item :: items =>
    Agrees (pathsAfter (stepGuide.toItem length index) paths)
        (pathsAfter (guide.toItem length index) segments) item ∧
      AgreesItems paths segments length (index + 1) items

def AgreesFields : List (List Step) → List (List α) → List (Text × RowValue) → Prop
  | _, _, [] => True
  | paths, segments, (key, value) :: fields =>
    Agrees (pathsAfter (stepGuide.toField key) paths) (pathsAfter (guide.toField key) segments)
        value ∧ AgreesFields paths segments fields

end

end Agreement

/-! ## The masks do what they are for -/

section Hiding

variable {guide : Guide α} {paths : List (List Step)} {segments : List (List α)}

/-- What shows as an array with the ends of the paths hidden is one. -/
theorem eq_array_of_hide {value : RowValue} {shown : List RowValue}
    (hends : ¬ endsHere paths = true) (h : hide stepGuide paths value = .array shown) :
    ∃ items, value = .array items ∧ hideItems stepGuide paths items.length 0 items = shown := by
  cases value with
  | array items =>
    rw [hide, if_neg hends] at h
    exact ⟨items, rfl, RowValue.array.inj h⟩
  | _ => simp [hide, if_neg hends] at h

theorem eq_record_of_hide {value : RowValue} {shown : List (Text × RowValue)}
    (hends : ¬ endsHere paths = true) (h : hide stepGuide paths value = .record shown) :
    ∃ fields, value = .record fields ∧ hideFields stepGuide paths fields = shown := by
  cases value with
  | record fields =>
    rw [hide, if_neg hends] at h
    exact ⟨fields, rfl, RowValue.record.inj h⟩
  | _ => simp [hide, if_neg hends] at h

/-- No container. -/
def IsLeaf : RowValue → Prop
  | .array _ => False
  | .record _ => False
  | _ => True

theorem hide_leaf (guide : Guide α) (value : RowValue) (hleaf : IsLeaf value)
    (hends : ¬ endsHere segments = true) : hide guide segments value = value := by
  cases value with
  | array items => exact absurd hleaf id
  | record fields => exact absurd hleaf id
  | _ => simp only [hide, if_neg hends]

theorem eq_of_hide_leaf {value leaf : RowValue} (hleaf : IsLeaf leaf)
    (hends : ¬ endsHere paths = true) (h : hide stepGuide paths value = leaf) : value = leaf := by
  cases value with
  | array items =>
    rw [hide, if_neg hends] at h
    rw [← h] at hleaf
    exact absurd hleaf id
  | record fields =>
    rw [hide, if_neg hends] at h
    rw [← h] at hleaf
    exact absurd hleaf id
  | undefined => rwa [hide_leaf stepGuide .undefined trivial hends] at h
  | null => rwa [hide_leaf stepGuide .null trivial hends] at h
  | bool b => rwa [hide_leaf stepGuide (.bool b) trivial hends] at h
  | number n => rwa [hide_leaf stepGuide (.number n) trivial hends] at h
  | bigint i => rwa [hide_leaf stepGuide (.bigint i) trivial hends] at h
  | string s => rwa [hide_leaf stepGuide (.string s) trivial hends] at h
  | date iso => rwa [hide_leaf stepGuide (.date iso) trivial hends] at h

theorem agrees_leaf {value : RowValue} (hleaf : IsLeaf value) :
    Agrees guide paths segments value ↔ AgreesHere paths segments value True := by
  cases value with
  | array items => exact absurd hleaf id
  | record fields => exact absurd hleaf id
  | _ => exact Iff.rfl

theorem length_eq_of_hideItems {length index : Nat} {items items' : List RowValue}
    (h : hideItems stepGuide paths length index items' =
      hideItems stepGuide paths length index items) : items'.length = items.length := by
  rw [← length_hideItems stepGuide paths length index items', h, length_hideItems]

/-- Where the place agrees, and the bodies differ at the ends of paths only, the masks hide these
ends there if they do so below. -/
theorem hide_eq_of_agreesHere {value value' : RowValue} {below : Prop}
    (h : AgreesHere paths segments value below)
    (hsame : hide stepGuide paths value' = hide stepGuide paths value)
    (hbelow : ¬ endsHere paths = true → ¬ endsHere segments = true → below →
      hide guide segments value' = hide stepGuide paths value') :
    hide guide segments value' = hide stepGuide paths value' := by
  rw [AgreesHere] at h
  by_cases hpaths : endsHere paths = true
  · rw [if_pos hpaths] at h
    rw [hide_of_endsHere _ h, hide_of_endsHere _ hpaths]
  · rw [if_neg hpaths] at h
    by_cases hsegments : endsHere segments = true
    · rw [if_pos hsegments] at h
      rw [h, hide_leaf stepGuide (.string maskText) trivial hpaths] at hsame
      rw [hide_of_endsHere _ hsegments, hsame]
    · rw [if_neg hsegments] at h
      exact hbelow hpaths hsegments h

theorem hide_leaf_eq (value : RowValue) {value' : RowValue} (hleaf : IsLeaf value)
    (h : Agrees guide paths segments value)
    (hsame : hide stepGuide paths value' = hide stepGuide paths value) :
    hide guide segments value' = hide stepGuide paths value' := by
  refine hide_eq_of_agreesHere ((agrees_leaf hleaf).mp h) hsame fun hpaths hsegments _ => ?_
  rw [hide_leaf stepGuide value hleaf hpaths] at hsame
  rw [eq_of_hide_leaf hleaf hpaths hsame, hide_leaf guide value hleaf hsegments,
    hide_leaf stepGuide value hleaf hpaths]

mutual

theorem hide_eq_of_agrees {paths : List (List Step)} {segments : List (List α)}
    {value value' : RowValue} (h : Agrees guide paths segments value)
    (hsame : hide stepGuide paths value' = hide stepGuide paths value) :
    hide guide segments value' = hide stepGuide paths value' := by
  match value with
  | .array items =>
    rw [Agrees] at h
    refine hide_eq_of_agreesHere h hsame fun hpaths hsegments hitems => ?_
    rw [hide, if_neg hpaths] at hsame
    obtain ⟨items', rfl, heq⟩ := eq_array_of_hide hpaths hsame
    have hlength : items'.length = items.length := by
      rw [← length_hideItems stepGuide paths items'.length 0 items', heq, length_hideItems]
    rw [hlength] at heq
    rw [hide, if_neg hsegments, hide, if_neg hpaths, hlength,
      hideItems_eq_of_agrees hitems heq]
  | .record fields =>
    rw [Agrees] at h
    refine hide_eq_of_agreesHere h hsame fun hpaths hsegments hfields => ?_
    rw [hide, if_neg hpaths] at hsame
    obtain ⟨fields', rfl, heq⟩ := eq_record_of_hide hpaths hsame
    rw [hide, if_neg hsegments, hide, if_neg hpaths, hideFields_eq_of_agrees hfields heq]
  | .undefined => exact hide_leaf_eq .undefined trivial h hsame
  | .null => exact hide_leaf_eq .null trivial h hsame
  | .bool b => exact hide_leaf_eq (.bool b) trivial h hsame
  | .number n => exact hide_leaf_eq (.number n) trivial h hsame
  | .bigint i => exact hide_leaf_eq (.bigint i) trivial h hsame
  | .string s => exact hide_leaf_eq (.string s) trivial h hsame
  | .date iso => exact hide_leaf_eq (.date iso) trivial h hsame

theorem hideItems_eq_of_agrees {paths : List (List Step)} {segments : List (List α)}
    {length index : Nat} {items items' : List RowValue}
    (h : AgreesItems guide paths segments length index items)
    (hsame : hideItems stepGuide paths length index items' =
      hideItems stepGuide paths length index items) :
    hideItems guide segments length index items' =
      hideItems stepGuide paths length index items' := by
  match items, items' with
  | [], [] => rfl
  | [], _ :: _ => cases hsame
  | _ :: _, [] => cases hsame
  | item :: items, item' :: items' =>
    rw [hideItems, hideItems] at hsame
    obtain ⟨hitem, hitems⟩ := List.cons.inj hsame
    rw [hideItems, hideItems, hide_eq_of_agrees h.1 hitem, hideItems_eq_of_agrees h.2 hitems]

theorem hideFields_eq_of_agrees {paths : List (List Step)} {segments : List (List α)}
    {fields fields' : List (Text × RowValue)} (h : AgreesFields guide paths segments fields)
    (hsame : hideFields stepGuide paths fields' = hideFields stepGuide paths fields) :
    hideFields guide segments fields' = hideFields stepGuide paths fields' := by
  match fields, fields' with
  | [], [] => rfl
  | [], _ :: _ => cases hsame
  | _ :: _, [] => cases hsame
  | (key, value) :: fields, (key', value') :: fields' =>
    rw [hideFields, hideFields] at hsame
    obtain ⟨hfield, hfields⟩ := List.cons.inj hsame
    obtain ⟨rfl, hvalue⟩ := Prod.mk.inj hfield
    rw [hideFields, hideFields, hide_eq_of_agrees h.1 hvalue, hideFields_eq_of_agrees h.2 hfields]

end

end Hiding

section Secrecy

variable (guide : Guide α)

/-- What is hidden under the guide does not depend on what is at the ends of the paths, and nothing
else is hidden. -/
def Protects (paths : List (List Step)) (segments : List (List α)) (value : RowValue) : Prop :=
  (∀ value', hide stepGuide paths value' = hide stepGuide paths value →
      hide guide segments value' = hide guide segments value) ∧
    hide stepGuide paths (hide guide segments value) = hide stepGuide paths value

def ProtectsItems (paths : List (List Step)) (segments : List (List α)) (length index : Nat)
    (items : List RowValue) : Prop :=
  (∀ items', hideItems stepGuide paths length index items' =
      hideItems stepGuide paths length index items →
    hideItems guide segments length index items' = hideItems guide segments length index items) ∧
    hideItems stepGuide paths length index (hideItems guide segments length index items) =
      hideItems stepGuide paths length index items

def ProtectsFields (paths : List (List Step)) (segments : List (List α))
    (fields : List (Text × RowValue)) : Prop :=
  (∀ fields', hideFields stepGuide paths fields' = hideFields stepGuide paths fields →
      hideFields guide segments fields' = hideFields guide segments fields) ∧
    hideFields stepGuide paths (hideFields guide segments fields) =
      hideFields stepGuide paths fields

variable {guide}

section Places

variable {paths : List (List Step)} {segments : List (List α)}

/-- Two values that differ at the end of a path show that something hides it. -/
theorem agreesHere_of_protects {value : RowValue} {below : Prop}
    (h : Protects guide paths segments value)
    (hbelow : ¬ endsHere paths = true → ¬ endsHere segments = true → below) :
    AgreesHere paths segments value below := by
  rw [AgreesHere]
  split
  · next hpaths =>
    by_contra hsegments
    have hshown (s : Text) : hide guide segments value = .string s := by
      have hsame : hide stepGuide paths (.string s) = hide stepGuide paths value := by
        rw [hide_of_endsHere _ hpaths, hide_of_endsHere _ hpaths]
      rw [← h.1 _ hsame, hide_leaf guide (.string s) trivial hsegments]
    exact absurd (RowValue.string.inj ((hshown []).symm.trans (hshown maskText))) (by decide)
  · next hpaths =>
    split
    · next hsegments =>
      have hhidden := h.2
      rw [hide_of_endsHere _ hsegments, hide_leaf stepGuide (.string maskText) trivial hpaths]
        at hhidden
      exact eq_of_hide_leaf trivial hpaths hhidden.symm
    · next hsegments => exact hbelow hpaths hsegments

theorem protectsItems_of_protects {items : List RowValue}
    (h : Protects guide paths segments (.array items)) (hpaths : ¬ endsHere paths = true)
    (hsegments : ¬ endsHere segments = true) :
    ProtectsItems guide paths segments items.length 0 items := by
  constructor
  · intro items' hsame
    have hlength := length_eq_of_hideItems hsame
    have harray := h.1 (.array items') (by
      rw [hide, if_neg hpaths, hide, if_neg hpaths, hlength, hsame])
    rw [hide, if_neg hsegments, hide, if_neg hsegments, hlength] at harray
    exact RowValue.array.inj harray
  · have harray := h.2
    rw [hide_array guide hsegments, hide_array stepGuide hpaths, length_hideItems,
      hide_array stepGuide hpaths] at harray
    exact RowValue.array.inj harray

theorem protectsFields_of_protects {fields : List (Text × RowValue)}
    (h : Protects guide paths segments (.record fields)) (hpaths : ¬ endsHere paths = true)
    (hsegments : ¬ endsHere segments = true) : ProtectsFields guide paths segments fields := by
  constructor
  · intro fields' hsame
    have hrecord := h.1 (.record fields') (by
      rw [hide, if_neg hpaths, hide, if_neg hpaths, hsame])
    rw [hide, if_neg hsegments, hide, if_neg hsegments] at hrecord
    exact RowValue.record.inj hrecord
  · have hrecord := h.2
    rw [hide_record guide hsegments, hide_record stepGuide hpaths,
      hide_record stepGuide hpaths] at hrecord
    exact RowValue.record.inj hrecord

theorem protectsItems_cons {length index : Nat} {item : RowValue} {items : List RowValue}
    (h : ProtectsItems guide paths segments length index (item :: items)) :
    Protects guide (pathsAfter (stepGuide.toItem length index) paths)
        (pathsAfter (guide.toItem length index) segments) item ∧
      ProtectsItems guide paths segments length (index + 1) items := by
  have hhidden := h.2
  rw [hideItems, hideItems, hideItems] at hhidden
  obtain ⟨hitem, hitems⟩ := List.cons.inj hhidden
  refine ⟨⟨fun item' hsame => ?_, hitem⟩, fun items' hsame => ?_, hitems⟩
  · have hcons := h.1 (item' :: items) (by rw [hideItems, hideItems, hsame])
    rw [hideItems, hideItems] at hcons
    exact (List.cons.inj hcons).1
  · have hcons := h.1 (item :: items') (by rw [hideItems, hideItems, hsame])
    rw [hideItems, hideItems] at hcons
    exact (List.cons.inj hcons).2

theorem protectsFields_cons {key : Text} {value : RowValue} {fields : List (Text × RowValue)}
    (h : ProtectsFields guide paths segments ((key, value) :: fields)) :
    Protects guide (pathsAfter (stepGuide.toField key) paths)
        (pathsAfter (guide.toField key) segments) value ∧
      ProtectsFields guide paths segments fields := by
  have hhidden := h.2
  rw [hideFields, hideFields, hideFields] at hhidden
  obtain ⟨hfield, hfields⟩ := List.cons.inj hhidden
  refine ⟨⟨fun value' hsame => ?_, (Prod.mk.inj hfield).2⟩, fun fields' hsame => ?_, hfields⟩
  · have hcons := h.1 ((key, value') :: fields) (by rw [hideFields, hideFields, hsame])
    rw [hideFields, hideFields] at hcons
    exact (Prod.mk.inj (List.cons.inj hcons).1).2
  · have hcons := h.1 ((key, value) :: fields') (by rw [hideFields, hideFields, hsame])
    rw [hideFields, hideFields] at hcons
    exact (List.cons.inj hcons).2

end Places

mutual

theorem agrees_of_protects {paths : List (List Step)} {segments : List (List α)}
    {value : RowValue} (h : Protects guide paths segments value) :
    Agrees guide paths segments value := by
  match value with
  | .array items =>
    rw [Agrees]
    exact agreesHere_of_protects h fun hpaths hsegments =>
      agreesItems_of_protects (protectsItems_of_protects h hpaths hsegments)
  | .record fields =>
    rw [Agrees]
    exact agreesHere_of_protects h fun hpaths hsegments =>
      agreesFields_of_protects (protectsFields_of_protects h hpaths hsegments)
  | .undefined => exact agreesHere_of_protects h fun _ _ => trivial
  | .null => exact agreesHere_of_protects h fun _ _ => trivial
  | .bool b => exact agreesHere_of_protects h fun _ _ => trivial
  | .number n => exact agreesHere_of_protects h fun _ _ => trivial
  | .bigint i => exact agreesHere_of_protects h fun _ _ => trivial
  | .string s => exact agreesHere_of_protects h fun _ _ => trivial
  | .date iso => exact agreesHere_of_protects h fun _ _ => trivial

theorem agreesItems_of_protects {paths : List (List Step)} {segments : List (List α)}
    {length index : Nat} {items : List RowValue}
    (h : ProtectsItems guide paths segments length index items) :
    AgreesItems guide paths segments length index items := by
  match items with
  | [] => trivial
  | item :: items =>
    obtain ⟨hitem, hitems⟩ := protectsItems_cons h
    exact ⟨agrees_of_protects hitem, agreesItems_of_protects hitems⟩

theorem agreesFields_of_protects {paths : List (List Step)} {segments : List (List α)}
    {fields : List (Text × RowValue)} (h : ProtectsFields guide paths segments fields) :
    AgreesFields guide paths segments fields := by
  match fields with
  | [] => trivial
  | (key, value) :: fields =>
    obtain ⟨hvalue, hfields⟩ := protectsFields_cons h
    exact ⟨agrees_of_protects hvalue, agreesFields_of_protects hfields⟩

end

/-- The ends of the paths are protected exactly where the guide leads to the same places. -/
theorem protects_iff_agrees {paths : List (List Step)} {segments : List (List α)}
    {value : RowValue} :
    Protects guide paths segments value ↔ Agrees guide paths segments value := by
  refine ⟨agrees_of_protects, fun h => ⟨fun value' hsame => ?_, ?_⟩⟩
  · rw [hide_eq_of_agrees h hsame, hide_eq_of_agrees h rfl, hsame]
  · rw [hide_eq_of_agrees h rfl, hide_hide]

end Secrecy

/-! ## Written paths -/

/-- A key that needs no quotes. -/
structure PlainKey where
  name : Text
  nonempty : name ≠ []
  plain : ∀ c ∈ name, c ≠ '.' ∧ c ≠ '[' ∧ isSpace c = false

/-- A step as it is written: a plain key after a dot, an index in brackets, or a key in brackets and
quotes. -/
inductive StepText where
  | plain (key : PlainKey)
  | index (n : Nat)
  | quoted (quote : Char) (name : Text)

namespace StepText

def step : StepText → Step
  | .plain key => .key key.name
  | .index n => .index n
  | .quoted _ name => .key name

/-- What is read: between quotes too an integer is a number. -/
def segment : StepText → PathSegment
  | .plain key => .key key.name
  | .index n => .number (Json.digits n)
  | .quoted _ name => if isInteger name then .number name else .key name

/-- The quotes are quotes, and the key between them does not close the bracket. -/
def IsReadable : StepText → Prop
  | .quoted quote name => (quote = '"' ∨ quote = '\'') ∧ ']' ∉ name
  | _ => True

def write : StepText → Text
  | .plain key => '.' :: key.name
  | .index n => '[' :: (Json.digits n ++ [']'])
  | .quoted quote name => '[' :: quote :: (name ++ [quote, ']'])

end StepText

def writeSteps (steps : List StepText) : Text := steps.flatMap StepText.write

/-- The first key has no dot before it. -/
def writePath : List StepText → Text
  | .plain key :: steps => key.name ++ writeSteps steps
  | steps => writeSteps steps

section Reading

theorem parseSegments_plain {name : Text} (h : ∀ c ∈ name, c ≠ '.' ∧ c ≠ '[') (buffer rest : Text) :
    parseSegments (.plain buffer) (name ++ rest) =
      parseSegments (.plain (buffer ++ name)) rest := by
  induction name generalizing buffer with
  | nil => rw [List.nil_append, List.append_nil]
  | cons c name ih =>
    obtain ⟨⟨hdot, hbracket⟩, hrest⟩ := List.forall_mem_cons.mp h
    rw [List.cons_append, parseSegments, if_neg hdot, if_neg hbracket, ih hrest,
      List.append_assoc, List.singleton_append]

theorem parseSegments_bracket {text : Text} (h : ']' ∉ text) (token rest : Text) :
    parseSegments (.bracket token) (text ++ ']' :: rest) =
      (bracketSegment (token ++ text)).bind fun segment =>
        (parseSegments (.plain []) rest).map (segment :: ·) := by
  induction text generalizing token with
  | nil =>
    rw [List.nil_append, List.append_nil, parseSegments, if_pos rfl]
    cases bracketSegment token with
    | none => rfl
    | some segment => cases parseSegments (.plain []) rest <;> rfl
  | cons c text ih =>
    obtain ⟨hc, hrest⟩ := not_or.mp (mt List.mem_cons.mpr h)
    rw [List.cons_append, parseSegments, if_neg (Ne.symm hc), ih hrest, List.append_assoc,
      List.singleton_append]

theorem trimText_of_all {s : Text} (h : ∀ c ∈ s, isSpace c = false) : trimText s = s :=
  trimText_of_ends (fun c hc => h c (List.mem_of_mem_head? hc))
    fun c hc => h c (List.mem_of_mem_getLast? hc)

theorem digit_spec {n : Nat} {c : Char} (h : c ∈ Json.digits n) :
    isSpace c = false ∧ c ≠ ']' ∧ c ≠ '"' ∧ c ≠ '\'' ∧ c ≠ '-' ∧ isDigit c = true := by
  have hdigit : isDigit c = true := List.all_eq_true.mp (Json.all_isDigit_digits n) c h
  have hrange : 48 ≤ c.toNat ∧ c.toNat ≤ 57 := by
    simpa [isDigit, Char.le_def, UInt32.le_iff_toNat_le] using hdigit
  have hall : ∀ n : Fin 128, isDigit (Char.ofNat n) = true → isSpace (Char.ofNat n) = false ∧
      Char.ofNat n ≠ ']' ∧ Char.ofNat n ≠ '"' ∧ Char.ofNat n ≠ '\'' ∧ Char.ofNat n ≠ '-' ∧
      isDigit (Char.ofNat n) = true := by decide
  have hc := hall ⟨c.toNat, by omega⟩
  rw [Char.ofNat_toNat] at hc
  exact hc hdigit

/-- An index is read as the number of its digits. -/
theorem bracketSegment_digits (n : Nat) :
    bracketSegment (Json.digits n) = some (.number (Json.digits n)) := by
  have hne := Json.digits_ne_nil n
  have htrim : trimText (Json.digits n) = Json.digits n :=
    trimText_of_all fun c hc => (digit_spec hc).1
  have hquoted (quote : Char) (hquote : quote ∉ Json.digits n) :
      isQuoted quote (Json.digits n) = false := by
    rw [isQuoted, Bool.and_eq_false_iff, startsWith]
    refine .inl (Bool.eq_false_iff.mpr fun hprefix => ?_)
    obtain ⟨rest, heq⟩ := List.isPrefixOf_iff_prefix.mp hprefix
    exact hquote (by rw [← heq]; exact List.mem_cons_self)
  have hplain : unquoted (Json.digits n) = Json.digits n := by
    rw [unquoted, hquoted '"' fun hc => (digit_spec hc).2.2.1 rfl,
      hquoted '\'' fun hc => (digit_spec hc).2.2.2.1 rfl]
    rfl
  have hinteger : isInteger (Json.digits n) = true := by
    unfold isInteger
    split
    · next heq =>
      have hminus : '-' ∈ Json.digits n := by
        rw [heq]
        exact List.mem_cons_self
      exact absurd rfl (digit_spec hminus).2.2.2.2.1
    · rw [isDigits, Bool.and_eq_true]
      exact ⟨decide_eq_true hne, Json.all_isDigit_digits n⟩
  unfold bracketSegment
  dsimp only
  rw [htrim, if_neg hne, hplain, if_pos hinteger]

/-- What is quoted is read without its quotes. -/
theorem bracketSegment_quoted {quote : Char} (hquote : quote = '"' ∨ quote = '\'') (name : Text) :
    bracketSegment (quote :: (name ++ [quote])) =
      some (if isInteger name then .number name else .key name) := by
  have hspace : isSpace quote = false := by
    obtain rfl | rfl := hquote <;> decide
  have htrim : trimText (quote :: (name ++ [quote])) = quote :: (name ++ [quote]) := by
    apply trimText_of_ends
    · rintro c ⟨⟩
      exact hspace
    · intro c hc
      rw [← List.cons_append, List.getLast?_concat] at hc
      cases hc
      exact hspace
  have hunquoted : unquoted (quote :: (name ++ [quote])) = name := by
    have hquoted : isQuoted quote (quote :: (name ++ [quote])) = true := by
      rw [isQuoted, startsWith, endsWith, Bool.and_eq_true, List.isPrefixOf_iff_prefix,
        List.isSuffixOf_iff_suffix]
      exact ⟨⟨name ++ [quote], rfl⟩, ⟨quote :: name, rfl⟩⟩
    have heither : (isQuoted '"' (quote :: (name ++ [quote])) ||
        isQuoted '\'' (quote :: (name ++ [quote]))) = true := by
      obtain rfl | rfl := hquote
      · rw [hquoted, Bool.true_or]
      · rw [hquoted, Bool.or_true]
    rw [unquoted, if_pos heither, List.drop_one, List.tail_cons, List.dropLast_concat]
  unfold bracketSegment
  dsimp only
  rw [htrim, if_neg (List.cons_ne_nil _ _), hunquoted]

theorem rawKey_plain (key : PlainKey) : rawKey key.name = [.key key.name] := if_neg key.nonempty

theorem trimmedKey_plain (key : PlainKey) : trimmedKey key.name = [.key key.name] := by
  rw [trimmedKey, trimText_of_all fun c hc => (key.plain c hc).2.2, rawKey_plain]

/-- What the reader has before a step, and what it makes of that. -/
theorem parseSegments_writeSteps {steps : List StepText} (h : ∀ step ∈ steps, step.IsReadable) :
    parseSegments (.plain []) (writeSteps steps) = some (steps.map StepText.segment) ∧
      ∀ key : PlainKey, parseSegments (.plain key.name) (writeSteps steps) =
        some (.key key.name :: steps.map StepText.segment) := by
  induction steps with
  | nil =>
    refine ⟨rfl, fun key => ?_⟩
    rw [writeSteps, List.flatMap_nil, parseSegments, trimmedKey_plain]
    rfl
  | cons step steps ih =>
    obtain ⟨hstep, hrest⟩ := List.forall_mem_cons.mp h
    obtain ⟨hempty, hkey⟩ := ih hrest
    have hbracket (token : Text) (hclose : ']' ∉ token)
        (hsegment : bracketSegment token = some step.segment) (buffer : Text) :
        parseSegments (.plain buffer) ('[' :: (token ++ ']' :: writeSteps steps)) =
          some (rawKey buffer ++ step.segment :: steps.map StepText.segment) := by
      rw [parseSegments, if_neg (by decide), if_pos rfl, parseSegments_bracket hclose,
        List.nil_append, hsegment, hempty]
      rfl
    have hstepText (buffer : Text) (htrim : trimmedKey buffer = rawKey buffer) :
        parseSegments (.plain buffer) (writeSteps (step :: steps)) =
          some (rawKey buffer ++ step.segment :: steps.map StepText.segment) := by
      cases step with
      | plain key =>
        rw [writeSteps, List.flatMap_cons, StepText.write, List.cons_append, parseSegments,
          if_pos rfl, parseSegments_plain fun c hc => ⟨(key.plain c hc).1, (key.plain c hc).2.1⟩,
          List.nil_append, ← writeSteps, hkey key, htrim]
        rfl
      | index n =>
        have hclose : ']' ∉ Json.digits n := fun hc => (digit_spec hc).2.1 rfl
        rw [← hbracket _ hclose (bracketSegment_digits n) buffer, writeSteps, List.flatMap_cons,
          StepText.write, List.cons_append, List.append_assoc, List.singleton_append]
        rfl
      | quoted quote name =>
        have hclose : ']' ∉ quote :: (name ++ [quote]) := by
          obtain ⟨rfl | rfl, hname⟩ := hstep <;> simpa using hname
        rw [← hbracket _ hclose (bracketSegment_quoted hstep.1 name) buffer, writeSteps,
          List.flatMap_cons, StepText.write]
        simp [writeSteps]
    refine ⟨hstepText [] rfl, fun key => ?_⟩
    rw [hstepText key.name (by rw [trimmedKey_plain, rawKey_plain]), rawKey_plain]
    rfl

theorem getLast?_write {step : StepText} {c : Char} (h : c ∈ step.write.getLast?) :
    isSpace c = false := by
  cases step with
  | plain key =>
    rw [StepText.write, List.getLast?_cons_of_ne_nil key.nonempty] at h
    exact (key.plain c (List.mem_of_mem_getLast? h)).2.2
  | index n =>
    rw [StepText.write, ← List.cons_append, List.getLast?_concat] at h
    cases h
    decide
  | quoted quote name =>
    have hwrite : '[' :: quote :: (name ++ [quote, ']']) =
        ('[' :: quote :: (name ++ [quote])) ++ [']'] := by simp
    rw [StepText.write, hwrite, List.getLast?_concat] at h
    cases h
    decide

theorem write_ne_nil (step : StepText) : step.write ≠ [] := by
  cases step <;> exact List.cons_ne_nil _ _

theorem getLast?_writeSteps {steps : List StepText} {c : Char}
    (h : c ∈ (writeSteps steps).getLast?) : isSpace c = false := by
  induction steps using List.reverseRecOn with
  | nil => cases h
  | append_singleton steps step ih =>
    rw [writeSteps, List.flatMap_append, List.flatMap_singleton,
      List.getLast?_append_of_ne_nil _ (write_ne_nil step)] at h
    exact getLast?_write h

/-- The steps are written as the path is, but for a dot before the first key. -/
theorem writeSteps_cases (steps : List StepText) :
    writeSteps steps = writePath steps ∨
      writeSteps steps = '.' :: writePath steps ∧ writePath steps ≠ [] := by
  cases steps with
  | nil => exact .inl rfl
  | cons step steps =>
    cases step with
    | plain key =>
      exact .inr ⟨rfl, fun h => key.nonempty (List.append_eq_nil_iff.mp h).1⟩
    | index n => exact .inl rfl
    | quoted quote name => exact .inl rfl

theorem trimText_writePath (steps : List StepText) : trimText (writePath steps) = writePath steps := by
  apply trimText_of_ends
  · intro c hc
    cases steps with
    | nil => cases hc
    | cons step steps =>
      cases step with
      | plain key =>
        rw [writePath, List.head?_append_of_ne_nil _ key.nonempty] at hc
        exact (key.plain c (List.mem_of_mem_head? hc)).2.2
      | index n =>
        cases hc
        decide
      | quoted quote name =>
        cases hc
        decide
  · intro c hc
    obtain heq | ⟨heq, hne⟩ := writeSteps_cases steps
    · exact getLast?_writeSteps (by rw [heq]; exact hc)
    · exact getLast?_writeSteps (by rw [heq, List.getLast?_cons_of_ne_nil hne]; exact hc)

/-- A path is read step by step unless a key closes its bracket. -/
theorem parseMaskPath_writePath {steps : List StepText} (hne : steps ≠ [])
    (h : ∀ step ∈ steps, step.IsReadable) :
    parseMaskPath (writePath steps) = some (steps.map StepText.segment) := by
  have hparse := (parseSegments_writeSteps h).1
  have hpath : parseSegments (.plain []) (writePath steps) =
      some (steps.map StepText.segment) := by
    obtain heq | ⟨heq, _⟩ := writeSteps_cases steps
    · rwa [← heq]
    · rw [heq, parseSegments, if_pos rfl] at hparse
      obtain ⟨segments, hsegments, hmap⟩ := Option.map_eq_some_iff.mp hparse
      rw [hsegments, ← hmap]
      rfl
  unfold parseMaskPath
  dsimp only
  rw [trimText_writePath, if_neg, hpath]
  intro hempty
  rw [hempty] at hpath
  exact hne (List.map_eq_nil_iff.mp (Option.some.inj hpath).symm)

theorem maskSegments_writePath {written : List (List StepText)}
    (h : ∀ steps ∈ written, steps ≠ [] ∧ ∀ step ∈ steps, step.IsReadable) :
    maskSegments (written.map writePath) = written.map fun steps => steps.map StepText.segment := by
  induction written with
  | nil => rfl
  | cons steps written ih =>
    obtain ⟨⟨hne, hreadable⟩, hrest⟩ := List.forall_mem_cons.mp h
    rw [List.map_cons, maskSegments_cons, parseMaskPath_writePath hne hreadable, Option.getD_some,
      if_neg (by simpa using hne), ih hrest]
    rfl

end Reading

/-! ## Logged request bodies -/

/-- The masks of these paths, as they are written, keep what they are for out of the logged bodies,
and nothing else. -/
def KeepsOut (reading : IntegerReading) (written : List (List StepText)) (body : RowValue) : Prop :=
  (∀ body', hide stepGuide (written.map (List.map StepText.step)) body' =
        hide stepGuide (written.map (List.map StepText.step)) body →
      maskRequestBody reading body' (written.map writePath) =
        maskRequestBody reading body (written.map writePath)) ∧
    hide stepGuide (written.map (List.map StepText.step))
        (maskRequestBody reading body (written.map writePath)) =
      hide stepGuide (written.map (List.map StepText.step)) body

/-- They do exactly if the paths that are read end, in the body, where the written ones do. The
paths are read step by step unless a quoted key has a closing bracket. What is logged of a body that
is captured whole is its masked copy. -/
theorem keepsOut_iff (reading : IntegerReading) (written : List (List StepText)) :
    (∀ body, KeepsOut reading written body ↔
      Agrees (segmentGuide reading) (written.map (List.map StepText.step))
        (maskSegments (written.map writePath)) body) ∧
    ((∀ steps ∈ written, steps ≠ [] ∧ ∀ step ∈ steps, step.IsReadable) →
      maskSegments (written.map writePath) = written.map (List.map StepText.segment)) ∧
    ∀ memory, HasNoPrototypeField memory → ∀ payload maxBytes captured,
      captureRequestBody memory reading payload maxBytes (written.map writePath) = some captured →
      captured.truncated = false → ∃ shown, ShowsBody memory payload shown ∧
        captured.body = maskRequestBody reading shown (written.map writePath) := by
  refine ⟨fun body => ?_, maskSegments_writePath, ?_⟩
  · rw [← protects_iff_agrees, KeepsOut, Protects]
    simp only [maskRequestBody_eq]
  · intro memory hplain payload maxBytes captured hcapture hunflagged
    exact captureRequestBody_unflagged hplain hcapture hunflagged

/-- A key of digits with leading zeros. -/
def zeroKey : Text := "007".toList

/-- Between quotes it is read as the number seven, and the value under it is logged. -/
theorem logs_zeroKey :
    ¬ KeepsOut exactIntegers [[.quoted '"' zeroKey]]
      (.record [(zeroKey, .string "secret".toList)]) := by
  intro h
  have hlogged := h.1 (.record [(zeroKey, .string "public".toList)]) rfl
  have hpublic : maskRequestBody exactIntegers (.record [(zeroKey, .string "public".toList)])
      [writePath [.quoted '"' zeroKey]] = .record [(zeroKey, .string "public".toList)] := rfl
  have hsecret : maskRequestBody exactIntegers (.record [(zeroKey, .string "secret".toList)])
      [writePath [.quoted '"' zeroKey]] = .record [(zeroKey, .string "secret".toList)] := rfl
  rw [List.map_cons, List.map_nil, hpublic, hsecret] at hlogged
  cases hlogged

end Logging

end LoopbackOData
