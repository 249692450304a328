import LoopbackOData.Paging.DeltaToken

/-!
# Removed buckets

A delta read of an aggregation compares the groups that its token recorded with the groups of the
page that it sends, and reports those that are not on the page as removed.
-/

namespace LoopbackOData

open Outcome RowValue

set_option autoImplicit false

/-! ## Keys -/

/-- A path names no built-in property of a text or a number. -/
def RowValue.property (value : RowValue) (name : Text) : RowValue :=
  match value with
  | .record fields => Record.value fields name
  | _ => .undefined

def extractFieldValue (record : Record) (field : Text) : RowValue :=
  if '/' ∉ field then record.value field
  else (field.splitOn '/').foldl RowValue.property (.record record)

def buildBucketKeyFromRow (row : Record) (groupKeys : List Text) : Record :=
  Dictionary.ofKeys groupKeys (extractFieldValue row)

def serializeBucketKey (key : Record) (groupKeys : List Text) : Text :=
  if groupKeys = [] then Json.print (.obj [])
  else Json.print (.obj (toJsonFields (Dictionary.ofKeys groupKeys key.value)))

/-! ## Snapshots -/

mutual

def cloneBucketValue : RowValue → RowValue
  | .array items => .array (cloneBucketItems items)
  | .record fields => .record (cloneBucketFields fields)
  | value => value

def cloneBucketItems : List RowValue → List RowValue
  | [] => []
  | item :: items => cloneBucketValue item :: cloneBucketItems items

def cloneBucketFields : List (Text × RowValue) → List (Text × RowValue)
  | [] => []
  | (name, value) :: fields =>
    if name.head? = some '@' then cloneBucketFields fields
    else (name, cloneBucketValue value) :: cloneBucketFields fields

end

def clonePlainRecord (source : Record) : Record :=
  source.map fun field => (field.1, cloneBucketValue field.2)

/-- Nothing where only annotations are left. -/
def cloneBucketSnapshot (row : Record) : Option Record :=
  match cloneBucketFields row with
  | [] => none
  | snapshot => some snapshot

/-! ## Buckets -/

def bucketOfRow (groupKeys : List Text) (row : Record) : DeltaTokenBucketState :=
  ⟨buildBucketKeyFromRow row groupKeys, cloneBucketSnapshot row⟩

/-- Of rows with one signature the last one is recorded. -/
def buildBucketState (groupKeys : List Text) (rows : List Record) : List DeltaTokenBucketState :=
  ((Dictionary.empty : Dictionary Text DeltaTokenBucketState).setAll (rows.map fun row =>
    (serializeBucketKey (buildBucketKeyFromRow row groupKeys) groupKeys,
      bucketOfRow groupKeys row))).map Prod.snd

def removedName : Text := "@removed".toList

def removedMarker : RowValue := .record [("reason".toList, .string "deleted".toList)]

/-- The row that reports the bucket as removed. -/
def bucketTombstone (entry : DeltaTokenBucketState) : Record :=
  (((entry.data.map clonePlainRecord).getD []).setAll entry.key).set removedName removedMarker

def buildRemovedBuckets (previous : List DeltaTokenBucketState) (current : List Record)
    (groupKeys : List Text) : List Record :=
  let currentSignatures := current.map fun row =>
    serializeBucketKey (buildBucketKeyFromRow row groupKeys) groupKeys
  (previous.filter fun entry =>
    serializeBucketKey entry.key groupKeys ∉ currentSignatures).map bucketTombstone

/-- The removed buckets that a read with the token reports on its pages. -/
def removedByRead (hmac : Text → Text → Text) (options : TokenSecurityOptions) (token : Text)
    (now : Int) (groupKeys : List Text) (pages : List (List Record)) :
    Except TokenError (List Record) := do
  let deltaPayload ← decodeDeltaToken hmac token options now
  return pages.flatMap fun page =>
    buildRemovedBuckets (deltaPayload.buckets.getD []) page groupKeys

/-! ## Results -/

def isValidIdentifierSegment (segment : Text) : Bool :=
  segment ≠ [] && segment.head?.all (fun c => c = '_' || c.isAlpha) &&
    segment.all fun c => c = '_' || c.isAlphanum

def isValidPath (path : Text) : Bool := (path.splitOn '/').all isValidIdentifierSegment

/-- A row of an aggregation, as the response has it: its columns are the group fields and the
aliases of the aggregates. They were assigned to it, so none is named `__proto__`. -/
structure ResultRow where
  columns : Record
  distinct : columns.Distinct
  plain : prototypeKey ∉ columns.map Prod.fst
  scalar : ∀ column ∈ columns, column.2.IsScalar

/-- The tuple of group values that a reader of the response sees. -/
def groupTuple (groupBy : List Text) (record : Record) : List (Option Json.Value) :=
  groupBy.map fun field => (record.value field).toJson

/-- The tuple is reported as that of a removed group exactly if it is one. -/
def ReportsTuple (groupBy : List Text) (previous current : List ResultRow) (removed : List Record)
    (tuple : List (Option Json.Value)) : Prop :=
  (∃ tombstone ∈ removed, groupTuple groupBy tombstone = tuple) ↔
    (∃ row ∈ previous, groupTuple groupBy row.columns = tuple) ∧
      ∀ row ∈ current, groupTuple groupBy row.columns ≠ tuple

/-- The read reports exactly the groups of the previous result that the current one lacks. -/
def ReportsExactly (groupBy : List Text) (previous current : List ResultRow)
    (outcome : Except TokenError (List Record)) : Prop :=
  ∃ removed, outcome = .ok removed ∧ ∀ tuple, ReportsTuple groupBy previous current removed tuple

/-! ## Signatures -/

theorem value_ofKeys {keys : List Text} {f : Text → RowValue} {name : Text} (h : name ∈ keys) :
    Record.value (Dictionary.ofKeys keys f) name = f name := by
  rw [Record.value, Dictionary.get_ofKeys, if_pos h]
  rfl

theorem toJsonFields_map (names : List Text) (f : Text → RowValue) :
    toJsonFields (names.map fun name => (name, f name)) =
      names.filterMap fun name => (f name).toJson.map (name, ·) := by
  induction names with
  | nil => rfl
  | cons name names ih =>
    rw [List.map_cons, toJsonFields, ih]
    cases hjson : (f name).toJson with
    | none => rw [List.filterMap_cons_none (by rw [hjson]; rfl)]
    | some value => rw [List.filterMap_cons_some (by rw [hjson]; rfl)]

/-- Which optional values are paired with names can be told from the pairs. -/
theorem filterMap_pair_inj {names : List Text} {f f' : Text → Option Json.Value}
    (h : (names.filterMap fun name => (f name).map (name, ·)) =
      names.filterMap fun name => (f' name).map (name, ·)) {name : Text} (hmem : name ∈ names) :
    f name = f' name := by
  have hpair (f : Text → Option Json.Value) (value : Json.Value) :
      (name, value) ∈ (names.filterMap fun name => (f name).map (name, ·)) ↔
        f name = some value := by
    rw [List.mem_filterMap]
    constructor
    · rintro ⟨other, _, heq⟩
      obtain ⟨found, hfound, hpair⟩ := Option.map_eq_some_iff.mp heq
      cases hpair
      exact hfound
    · intro heq
      exact ⟨name, hmem, by rw [heq]; rfl⟩
  refine Option.ext fun value => ?_
  rw [← hpair f, h, hpair f']

/-- Two keys have one signature if they print alike in every field. -/
theorem serializeBucketKey_eq_iff {key key' : Record} {groupKeys : List Text} :
    serializeBucketKey key groupKeys = serializeBucketKey key' groupKeys ↔
      ∀ field ∈ groupKeys, (key.value field).toJson = (key'.value field).toJson := by
  rw [serializeBucketKey, serializeBucketKey]
  by_cases hempty : groupKeys = []
  · rw [if_pos hempty, if_pos hempty, hempty]
    simp
  · rw [if_neg hempty, if_neg hempty, Dictionary.ofKeys_eq, Dictionary.ofKeys_eq,
      toJsonFields_map, toJsonFields_map]
    constructor
    · intro h field hfield
      have hfields := Json.Value.obj.inj (Json.print_injective h)
      exact filterMap_pair_inj (f := fun field => (key.value field).toJson) hfields
        (Dictionary.mem_distinctKeys.mpr hfield)
    · intro h
      congr 2
      refine List.filterMap_congr fun field hfield => ?_
      rw [h field (Dictionary.mem_distinctKeys.mp hfield)]

/-! ## Keys of result rows -/

namespace ResultRow

variable (row : ResultRow)

theorem isScalar_value (field : Text) : (row.columns.value field).IsScalar := by
  rw [Record.value]
  cases hget : Dictionary.get row.columns field with
  | none => trivial
  | some value => exact row.scalar _ (row.distinct.mem_iff.mpr hget)

theorem value_prototypeKey : row.columns.value prototypeKey = .undefined := by
  rw [Record.value, Dictionary.get_eq_none_of_not_mem row.plain]
  rfl

/-- Scalars have no properties. -/
theorem property_scalar {value : RowValue} (h : value.IsScalar) (name : Text) :
    value.property name = .undefined := by
  cases value with
  | record fields => exact absurd h id
  | _ => rfl

theorem walk_undefined (names : List Text) :
    names.foldl RowValue.property .undefined = .undefined := by
  induction names with
  | nil => rfl
  | cons name names ih => exact ih

theorem walk_scalar {value : RowValue} (h : value.IsScalar) {names : List Text}
    (hne : names ≠ []) : names.foldl RowValue.property value = .undefined := by
  cases names with
  | nil => exact absurd rfl hne
  | cons name names => rw [List.foldl_cons, property_scalar h, walk_undefined]

theorem isScalar_walk {names : List Text} (hne : names ≠ []) :
    (names.foldl RowValue.property (.record row.columns)).IsScalar := by
  cases names with
  | nil => exact absurd rfl hne
  | cons name names =>
    have hfirst : (RowValue.record row.columns).property name = row.columns.value name := rfl
    rw [List.foldl_cons, hfirst]
    by_cases hnames : names = []
    · rw [hnames]
      exact row.isScalar_value name
    · rw [walk_scalar (row.isScalar_value name) hnames]
      trivial

/-- The columns that paths are grouped under are not found under the paths. -/
theorem extractFieldValue_path {field : Text} (h : '/' ∈ field) :
    extractFieldValue row.columns field = .undefined := by
  obtain ⟨before, after, rfl⟩ := List.append_of_mem h
  rw [extractFieldValue, if_neg (not_not_intro h), List.splitOn_append_cons_self,
    List.foldl_append]
  exact walk_scalar (row.isScalar_walk (List.splitOn_ne_nil _ _)) (List.splitOn_ne_nil _ _)

theorem extractFieldValue_name {field : Text} (h : '/' ∉ field) :
    extractFieldValue row.columns field = row.columns.value field := by
  rw [extractFieldValue, if_pos h]

end ResultRow

/-- The rows agree on the group fields that are no paths. -/
def AgreeOnNames (groupBy : List Text) (row row' : ResultRow) : Prop :=
  ∀ field ∈ groupBy, '/' ∉ field →
    (row.columns.value field).toJson = (row'.columns.value field).toJson

/-- No date is among the values of the group fields that are no paths. -/
def NoNamedDate (groupBy : List Text) (row : ResultRow) : Prop :=
  ∀ field ∈ groupBy, '/' ∉ field → (row.columns.value field).isDate = false

def NoDate (groupBy : List Text) (row : ResultRow) : Prop :=
  ∀ field ∈ groupBy, (row.columns.value field).isDate = false

section Comparison

variable {groupBy : List Text}

theorem value_buildBucketKeyFromRow {row : Record} {field : Text} (h : field ∈ groupBy) :
    (buildBucketKeyFromRow row groupBy).value field = extractFieldValue row field :=
  value_ofKeys h

theorem distinct_buildBucketKeyFromRow (groupBy : List Text) (row : Record) :
    (buildBucketKeyFromRow row groupBy).Distinct := Dictionary.distinct_ofKeys _ _

/-- Rows have one signature if they agree on the group fields that are no paths. -/
theorem signature_eq_iff {row row' : ResultRow} :
    serializeBucketKey (buildBucketKeyFromRow row.columns groupBy) groupBy =
        serializeBucketKey (buildBucketKeyFromRow row'.columns groupBy) groupBy ↔
      AgreeOnNames groupBy row row' := by
  rw [serializeBucketKey_eq_iff]
  refine forall₂_congr fun field hfield => ?_
  rw [value_buildBucketKeyFromRow hfield, value_buildBucketKeyFromRow hfield]
  by_cases hpath : '/' ∈ field
  · simp [row.extractFieldValue_path hpath, row'.extractFieldValue_path hpath, hpath]
  · simp [row.extractFieldValue_name hpath, row'.extractFieldValue_name hpath, hpath]

theorem isScalar_extractFieldValue (row : ResultRow) (field : Text) :
    (extractFieldValue row.columns field).IsScalar := by
  by_cases hpath : '/' ∈ field
  · rw [row.extractFieldValue_path hpath]
    trivial
  · rw [row.extractFieldValue_name hpath]
    exact row.isScalar_value field

/-- The value that comes back prints like a scalar if it is that scalar, and no date. -/
theorem toJson_storedValue_eq_iff {value value' : RowValue} (h : value.IsScalar)
    (h' : value'.IsScalar) :
    (storedValue value).toJson = value'.toJson ↔
      value.isDate = false ∧ value.toJson = value'.toJson := by
  rw [storedValue_scalar h]
  cases hdate : value.isDate with
  | false => simp
  | true =>
    rw [if_pos rfl]
    refine iff_of_false ?_ fun hand => Bool.noConfusion hand.1
    intro heq
    cases value' with
    | record fields => exact h'
    | array items => exact h'
    | bigint i => exact h'
    | undefined => cases heq
    | null => cases heq
    | bool b => cases heq
    | number n => cases heq
    | string s => cases heq
    | date iso => cases heq

/-- No value of a bucket's key is found under `__proto__`. -/
theorem value_buildBucketKeyFromRow_prototypeKey (row : ResultRow) :
    (buildBucketKeyFromRow row.columns groupBy).value prototypeKey = .undefined := by
  by_cases hmem : prototypeKey ∈ groupBy
  · rw [value_buildBucketKeyFromRow hmem, row.extractFieldValue_name (by decide),
      row.value_prototypeKey]
  · rw [Record.value, buildBucketKeyFromRow, Dictionary.get_ofKeys, if_neg hmem]
    rfl

/-- A row has the signature that was recorded for another one if that has no date under a name and
they agree. -/
theorem signature_storedFields_iff {row kept : ResultRow} :
    serializeBucketKey (storedFields (buildBucketKeyFromRow kept.columns groupBy)) groupBy =
        serializeBucketKey (buildBucketKeyFromRow row.columns groupBy) groupBy ↔
      NoNamedDate groupBy kept ∧ AgreeOnNames groupBy kept row := by
  rw [serializeBucketKey_eq_iff, NoNamedDate, AgreeOnNames, ← forall₂_and]
  refine forall₂_congr fun field hfield => ?_
  rw [value_storedFields (distinct_buildBucketKeyFromRow _ _)
      (value_buildBucketKeyFromRow_prototypeKey kept),
    value_buildBucketKeyFromRow hfield, value_buildBucketKeyFromRow hfield,
    toJson_storedValue_eq_iff (isScalar_extractFieldValue kept field)
      (isScalar_extractFieldValue row field)]
  by_cases hpath : '/' ∈ field
  · simp [row.extractFieldValue_path hpath, kept.extractFieldValue_path hpath, hpath, isDate]
  · simp [row.extractFieldValue_name hpath, kept.extractFieldValue_name hpath, hpath]

end Comparison

/-! ## Snapshots of result rows -/

theorem head_of_isValidPath {path : Text} (h : isValidPath path = true) :
    path.head? ≠ some '@' := by
  intro hhead
  cases path with
  | nil => cases hhead
  | cons c path =>
    cases hhead
    rw [isValidPath, List.splitOn_cons_eq_if_modifyHead, if_neg (by decide)] at h
    cases hsplit : path.splitOn '/' with
    | nil => exact List.splitOn_ne_nil _ _ hsplit
    | cons segment segments =>
      rw [hsplit] at h
      simp [isValidIdentifierSegment] at h

theorem cloneBucketValue_scalar {value : RowValue} (h : value.IsScalar) :
    cloneBucketValue value = value := by
  cases value with
  | array items => exact absurd h id
  | record fields => exact absurd h id
  | _ => rfl

theorem keys_cloneBucketFields_subset {fields : Record} :
    (cloneBucketFields fields).map Prod.fst ⊆ fields.map Prod.fst := by
  induction fields with
  | nil => exact List.Subset.refl _
  | cons field fields ih =>
    rw [cloneBucketFields]
    split
    · exact List.subset_cons_of_subset _ ih
    · exact List.cons_subset_cons _ ih

theorem distinct_cloneBucketFields {fields : Record} (h : fields.Distinct) :
    Dictionary.Distinct (cloneBucketFields fields) := by
  induction fields with
  | nil => exact h
  | cons field fields ih =>
    obtain ⟨hnot, hrest⟩ := Dictionary.distinct_cons.mp h
    rw [cloneBucketFields]
    split
    · exact ih hrest
    · exact Dictionary.distinct_cons.mpr
        ⟨fun hmem => hnot (keys_cloneBucketFields_subset hmem), ih hrest⟩

theorem get_cloneBucketFields {fields : Record} {name : Text} (h : name.head? ≠ some '@') :
    Dictionary.get (cloneBucketFields fields) name =
      (Dictionary.get fields name).map cloneBucketValue := by
  induction fields with
  | nil => rfl
  | cons field fields ih =>
    obtain ⟨fieldName, value⟩ := field
    rw [cloneBucketFields, Dictionary.get_cons]
    by_cases hname : fieldName = name
    · rw [if_neg (hname ▸ h), Dictionary.get_cons, if_pos hname, if_pos hname]
      rfl
    · rw [if_neg hname, ← ih]
      split
      · rfl
      · rw [Dictionary.get_cons, if_neg hname]

theorem get_clonePlainRecord (source : Record) (name : Text) :
    Dictionary.get (clonePlainRecord source) name =
      (Dictionary.get source name).map cloneBucketValue := by
  induction source with
  | nil => rfl
  | cons field source ih =>
    rw [clonePlainRecord, List.map_cons, Dictionary.get_cons, Dictionary.get_cons]
    split
    · rfl
    · exact ih

theorem snapshot_getD (row : Record) :
    (((cloneBucketSnapshot row).map storedFields).map clonePlainRecord).getD [] =
      clonePlainRecord (storedFields (cloneBucketFields row)) := by
  rw [cloneBucketSnapshot]
  cases cloneBucketFields row <;> rfl

theorem cloneBucketValue_storedValue {value : RowValue} (h : value.IsScalar) :
    cloneBucketValue (storedValue value) = storedValue value := by
  rw [storedValue_scalar h]
  cases value.isDate with
  | false => exact cloneBucketValue_scalar h
  | true => rfl

/-- A column in the snapshot of a row, after it was read back. -/
theorem value_snapshot (row : ResultRow) {name : Text} (h : name.head? ≠ some '@') :
    Record.value (clonePlainRecord (storedFields (cloneBucketFields row.columns))) name =
      storedValue (row.columns.value name) := by
  have hscalar := row.isScalar_value name
  have hplain : Record.value (cloneBucketFields row.columns) prototypeKey = .undefined := by
    rw [Record.value, Dictionary.get_eq_none_of_not_mem fun hmem =>
      row.plain (keys_cloneBucketFields_subset hmem)]
    rfl
  rw [Record.value] at hscalar ⊢
  rw [get_clonePlainRecord,
    get_storedFields_of_plain (distinct_cloneBucketFields row.distinct) hplain,
    get_cloneBucketFields h, Record.value]
  cases hget : Dictionary.get row.columns name with
  | none => rfl
  | some value =>
    rw [hget] at hscalar
    have hvalue : value.IsScalar := hscalar
    rw [Option.map_some, Option.bind_some, cloneBucketValue_scalar hvalue, Option.getD_some,
      ← cloneBucketValue_storedValue hvalue, storedValue_eq]
    cases encodeStructuredValue value <;> rfl

/-! ## Tombstones -/

section Tombstones

variable {groupBy : List Text} {field : Text}

/-- A tombstone has the group values of the row that was recorded, as far as they survive the
token. -/
theorem value_bucketTombstone (row : ResultRow) (hfield : field ∈ groupBy)
    (hvalid : isValidPath field = true) :
    (bucketTombstone (storedBucket (bucketOfRow groupBy row.columns))).value field =
      storedValue (row.columns.value field) := by
  have hhead := head_of_isValidPath hvalid
  have hremoved : removedName ≠ field := by
    rintro rfl
    exact hhead rfl
  have hkey := distinct_storedFields (distinct_buildBucketKeyFromRow groupBy row.columns)
  have hget : Dictionary.get (buildBucketKeyFromRow row.columns groupBy) field =
      some (extractFieldValue row.columns field) := by
    rw [buildBucketKeyFromRow, Dictionary.get_ofKeys, if_pos hfield]
  have hsnapshot := value_snapshot row hhead
  rw [bucketTombstone, Record.value, Dictionary.get_set_of_ne hremoved, Dictionary.get_setAll,
    storedBucket, bucketOfRow, hkey.get_reverse,
    get_storedFields_of_plain (distinct_buildBucketKeyFromRow _ _)
      (value_buildBucketKeyFromRow_prototypeKey row),
    hget, Option.bind_some, snapshot_getD]
  by_cases hpath : '/' ∈ field
  · rw [row.extractFieldValue_path hpath]
    exact hsnapshot
  · rw [row.extractFieldValue_name hpath]
    cases hencode : encodeStructuredValue (row.columns.value field) with
    | none => exact hsnapshot
    | some encoded =>
      rw [storedValue_eq, hencode]
      rfl

/-- The tuple of a tombstone is that of a result row if it is the one of the recorded row, and no
date is in it. -/
theorem groupTuple_bucketTombstone_iff {row kept : ResultRow}
    (hvalid : ∀ field ∈ groupBy, isValidPath field = true) :
    groupTuple groupBy (bucketTombstone (storedBucket (bucketOfRow groupBy kept.columns))) =
        groupTuple groupBy row.columns ↔
      NoDate groupBy kept ∧ groupTuple groupBy kept.columns = groupTuple groupBy row.columns := by
  rw [groupTuple, groupTuple, groupTuple, List.map_inj_left, List.map_inj_left, NoDate,
    ← forall₂_and]
  refine forall₂_congr fun field hfield => ?_
  rw [value_bucketTombstone kept hfield (hvalid field hfield),
    toJson_storedValue_eq_iff (kept.isScalar_value field) (row.isScalar_value field)]

theorem agreeOnNames_of_groupTuple {row row' : ResultRow}
    (h : groupTuple groupBy row.columns = groupTuple groupBy row'.columns) :
    AgreeOnNames groupBy row row' := fun field hfield _ =>
  List.map_inj_left.mp h field hfield

end Tombstones

/-! ## What a read reports -/

section Reports

variable {groupBy : List Text} {issued page : List ResultRow} {row row' : ResultRow}

/-- The row is the last one on the page with its values in the group fields that are no paths. -/
def IsRecorded (groupBy : List Text) (page : List ResultRow) (row : ResultRow) : Prop :=
  ∃ before after, page = before ++ row :: after ∧
    ∀ later ∈ after, ¬ AgreeOnNames groupBy later row

theorem AgreeOnNames.symm (h : AgreeOnNames groupBy row row') : AgreeOnNames groupBy row' row :=
  fun field hfield hpath => (h field hfield hpath).symm

theorem IsRecorded.mem (h : IsRecorded groupBy page row) : row ∈ page := by
  obtain ⟨before, after, rfl, _⟩ := h
  simp

theorem IsRecorded.unique (h : IsRecorded groupBy page row) (h' : IsRecorded groupBy page row')
    (hagree : AgreeOnNames groupBy row row') : row = row' := by
  obtain ⟨before, after, rfl, hafter⟩ := h
  obtain ⟨before', after', heq, hafter'⟩ := h'
  rcases List.append_eq_append_iff.mp heq with ⟨between, _, htail⟩ | ⟨between, _, htail⟩
  · cases between with
    | nil => exact (List.cons.inj htail).1
    | cons first between =>
      refine absurd hagree.symm (hafter row' ?_)
      rw [(List.cons.inj htail).2]
      simp
  · cases between with
    | nil => exact (List.cons.inj htail).1.symm
    | cons first between =>
      refine absurd hagree (hafter' row ?_)
      rw [(List.cons.inj htail).2]
      simp

theorem mem_buildBucketState {entry : DeltaTokenBucketState} :
    entry ∈ buildBucketState groupBy (page.map ResultRow.columns) ↔
      ∃ row, IsRecorded groupBy page row ∧ entry = bucketOfRow groupBy row.columns := by
  rw [buildBucketState, List.map_map, List.mem_map]
  constructor
  · rintro ⟨⟨signature, _⟩, hmem, rfl⟩
    obtain ⟨before, after, heq, hafter⟩ := Dictionary.mem_setAll_empty.mp hmem
    obtain ⟨rows, rest, rfl, rfl, hrest⟩ := List.map_eq_append_iff.mp heq
    obtain ⟨row, later, rfl, hrow, rfl⟩ := List.map_eq_cons_iff.mp hrest
    obtain ⟨hsignature, hentry⟩ := Prod.mk.inj hrow
    refine ⟨row, ⟨rows, later, rfl, fun row' hrow' hagree => ?_⟩, hentry.symm⟩
    exact hafter _ (List.mem_map_of_mem hrow')
      (hsignature ▸ signature_eq_iff.mpr hagree)
  · rintro ⟨row, ⟨rows, later, rfl, hlater⟩, rfl⟩
    refine ⟨(_, bucketOfRow groupBy row.columns), Dictionary.mem_setAll_empty.mpr
      ⟨_, _, by rw [List.map_append, List.map_cons]; rfl, fun pair hpair hsignature => ?_⟩, rfl⟩
    obtain ⟨row', hrow', rfl⟩ := List.mem_map.mp hpair
    exact hlater row' hrow' (signature_eq_iff.mp hsignature)

/-- A page leaves the bucket that was recorded for the row out of the report. -/
def Spares (groupBy : List Text) (page : List ResultRow) (row : ResultRow) : Prop :=
  NoNamedDate groupBy row ∧ ∃ current ∈ page, AgreeOnNames groupBy row current

theorem mem_buildRemovedBuckets {tombstone : Record} :
    tombstone ∈ buildRemovedBuckets
        ((buildBucketState groupBy (issued.map ResultRow.columns)).map storedBucket)
        (page.map ResultRow.columns) groupBy ↔
      ∃ row, IsRecorded groupBy issued row ∧ ¬ Spares groupBy page row ∧
        bucketTombstone (storedBucket (bucketOfRow groupBy row.columns)) = tombstone := by
  have hspares (row : ResultRow) :
      serializeBucketKey (storedBucket (bucketOfRow groupBy row.columns)).key groupBy ∈
          (page.map ResultRow.columns).map (fun row =>
            serializeBucketKey (buildBucketKeyFromRow row groupBy) groupBy) ↔
        Spares groupBy page row := by
    rw [List.map_map, List.mem_map, Spares, ← exists_and_left]
    refine exists_congr fun current => ?_
    rw [and_left_comm]
    refine and_congr_right fun _ => ?_
    rw [eq_comm]
    exact signature_storedFields_iff
  rw [buildRemovedBuckets, List.mem_map]
  constructor
  · rintro ⟨entry, hentry, rfl⟩
    obtain ⟨hmem, hnot⟩ := List.mem_filter.mp hentry
    obtain ⟨bucket, hbucket, rfl⟩ := List.mem_map.mp hmem
    obtain ⟨row, hrecorded, rfl⟩ := mem_buildBucketState.mp hbucket
    rw [decide_eq_true_eq, hspares] at hnot
    exact ⟨row, hrecorded, hnot, rfl⟩
  · rintro ⟨row, hrecorded, hnot, rfl⟩
    refine ⟨_, List.mem_filter.mpr ⟨List.mem_map_of_mem (mem_buildBucketState.mpr
      ⟨row, hrecorded, rfl⟩), ?_⟩, rfl⟩
    rw [decide_eq_true_eq, hspares]
    exact hnot

/-- No row of the result has the group values of the row. -/
def IsGone (groupBy : List Text) (current : List ResultRow) (row : ResultRow) : Prop :=
  ∀ other ∈ current, groupTuple groupBy other.columns ≠ groupTuple groupBy row.columns

/-- What it takes for the recorded rows of the page that a token was issued with to stand for the
previous result when a read sends its pages. -/
structure TokenCovers (groupBy : List Text) (issued previous : List ResultRow)
    (pages : List (List ResultRow)) : Prop where
  /-- Every removed group is that of a recorded row. -/
  recorded : ∀ row ∈ previous, IsGone groupBy pages.flatten row →
    ∃ kept, IsRecorded groupBy issued kept ∧
      groupTuple groupBy kept.columns = groupTuple groupBy row.columns
  /-- Every page has a row that passes for a group that is still there. -/
  present : ∀ kept, IsRecorded groupBy issued kept → ¬ IsGone groupBy pages.flatten kept →
    NoNamedDate groupBy kept ∧ ∀ page ∈ pages, ∃ row ∈ page, AgreeOnNames groupBy kept row
  /-- Some page has no row that passes for a group that was removed. -/
  removed : ∀ kept, IsRecorded groupBy issued kept → IsGone groupBy pages.flatten kept →
    NoDate groupBy kept ∧ ∃ page ∈ pages, ∀ row ∈ page, ¬ AgreeOnNames groupBy kept row

theorem NoDate.noNamedDate (h : NoDate groupBy row) : NoNamedDate groupBy row :=
  fun field hfield _ => h field hfield

end Reports

section Exactness

variable {groupBy : List Text} {issued previous first : List ResultRow}
  {more : List (List ResultRow)}

/-- The reports of the pages taken together. -/
def reportedRows (groupBy : List Text) (issued : List ResultRow) (pages : List (List ResultRow)) :
    List Record :=
  (pages.map (List.map ResultRow.columns)).flatMap fun page =>
    buildRemovedBuckets
      ((buildBucketState groupBy (issued.map ResultRow.columns)).map storedBucket) page groupBy

theorem mem_reportedRows {pages : List (List ResultRow)} {tombstone : Record} :
    tombstone ∈ reportedRows groupBy issued pages ↔
      ∃ row, IsRecorded groupBy issued row ∧ (∃ page ∈ pages, ¬ Spares groupBy page row) ∧
        bucketTombstone (storedBucket (bucketOfRow groupBy row.columns)) = tombstone := by
  rw [reportedRows, List.flatMap_map, List.mem_flatMap]
  constructor
  · rintro ⟨page, hpage, hmem⟩
    obtain ⟨row, hrecorded, hspares, heq⟩ := mem_buildRemovedBuckets.mp hmem
    exact ⟨row, hrecorded, ⟨page, hpage, hspares⟩, heq⟩
  · rintro ⟨row, hrecorded, ⟨page, hpage, hspares⟩, heq⟩
    exact ⟨page, hpage, mem_buildRemovedBuckets.mpr ⟨row, hrecorded, hspares, heq⟩⟩

variable (hvalid : ∀ field ∈ groupBy, isValidPath field = true) (hissued : issued ⊆ previous)
include hvalid hissued

theorem tokenCovers_of_reportsTuple
    (h : ∀ tuple, ReportsTuple groupBy previous (first :: more).flatten
      (reportedRows groupBy issued (first :: more)) tuple) :
    TokenCovers groupBy issued previous (first :: more) := by
  have hgone {row : ResultRow} (hrow : row ∈ previous)
      (hgone : IsGone groupBy (first :: more).flatten row) :
      ∃ kept, IsRecorded groupBy issued kept ∧
        (∃ page ∈ first :: more, ¬ Spares groupBy page kept) ∧ NoDate groupBy kept ∧
        groupTuple groupBy kept.columns = groupTuple groupBy row.columns := by
    obtain ⟨tombstone, hmem, htuple⟩ := (h _).mpr ⟨⟨row, hrow, rfl⟩, hgone⟩
    obtain ⟨kept, hrecorded, hpages, rfl⟩ := mem_reportedRows.mp hmem
    exact ⟨kept, hrecorded, hpages, (groupTuple_bucketTombstone_iff hvalid).mp htuple⟩
  refine ⟨fun row hrow hrowGone => ?_, fun kept hkept hpresent => ?_, fun kept hkept hkeptGone => ?_⟩
  · obtain ⟨kept, hrecorded, _, _, htuple⟩ := hgone hrow hrowGone
    exact ⟨kept, hrecorded, htuple⟩
  · have hspares : ∀ page ∈ first :: more, Spares groupBy page kept := by
      by_contra hnot
      obtain ⟨page, hpage, hpageNot⟩ : ∃ page ∈ first :: more, ¬ Spares groupBy page kept := by
        simpa only [not_forall, exists_prop] using hnot
      obtain ⟨⟨row, hrow, htuple⟩, habsent⟩ :=
        (h _).mp ⟨_, mem_reportedRows.mpr ⟨kept, hkept, ⟨page, hpage, hpageNot⟩, rfl⟩, rfl⟩
      obtain ⟨_, hsame⟩ := (groupTuple_bucketTombstone_iff hvalid).mp htuple.symm
      refine hpresent fun other hother => ?_
      rw [hsame, htuple]
      exact habsent other hother
    exact ⟨(hspares first List.mem_cons_self).1, fun page hpage => (hspares page hpage).2⟩
  · obtain ⟨kept', hkept', ⟨page, hpage, hspares⟩, hdate, htuple⟩ :=
      hgone (hissued hkept.mem) hkeptGone
    have hsame : kept' = kept := hkept'.unique hkept (agreeOnNames_of_groupTuple htuple)
    rw [hsame] at hspares hdate
    refine ⟨hdate, page, hpage, fun row hrow hagree => hspares ?_⟩
    exact ⟨hdate.noNamedDate, row, hrow, hagree⟩

theorem reportsTuple_of_tokenCovers {pages : List (List ResultRow)}
    (h : TokenCovers groupBy issued previous pages) (tuple : List (Option Json.Value)) :
    ReportsTuple groupBy previous pages.flatten (reportedRows groupBy issued pages) tuple := by
  constructor
  · rintro ⟨tombstone, hmem, rfl⟩
    obtain ⟨kept, hkept, ⟨page, hpage, hspares⟩, rfl⟩ := mem_reportedRows.mp hmem
    by_cases hgone : IsGone groupBy pages.flatten kept
    · have hdate := (h.removed kept hkept hgone).1
      have htuple : groupTuple groupBy
          (bucketTombstone (storedBucket (bucketOfRow groupBy kept.columns))) =
            groupTuple groupBy kept.columns :=
        (groupTuple_bucketTombstone_iff hvalid).mpr ⟨hdate, rfl⟩
      rw [htuple]
      exact ⟨⟨kept, hissued hkept.mem, rfl⟩, hgone⟩
    · obtain ⟨hdate, hpages⟩ := h.present kept hkept hgone
      exact absurd ⟨hdate, hpages page hpage⟩ hspares
  · rintro ⟨⟨row, hrow, rfl⟩, hgone⟩
    obtain ⟨kept, hkept, htuple⟩ := h.recorded row hrow hgone
    have hkeptGone : IsGone groupBy pages.flatten kept := by
      intro other hother
      rw [htuple]
      exact hgone other hother
    obtain ⟨hdate, page, hpage, hnone⟩ := h.removed kept hkept hkeptGone
    refine ⟨_, mem_reportedRows.mpr ⟨kept, hkept, ⟨page, hpage, ?_⟩, rfl⟩,
      (groupTuple_bucketTombstone_iff hvalid).mpr ⟨hdate, htuple⟩⟩
    rintro ⟨_, other, hother, hagree⟩
    exact hnone other hother hagree

end Exactness

section Reads

variable {hmac : Text → Text → Text} {options : TokenSecurityOptions} {now later : Int}
  {nowIso nonce : Text} {groupBy : List Text} {issued first : List ResultRow}
  {before after more : List (List ResultRow)}

/-- The payload of the token of a page. -/
def DeltaTokenPayload.withBuckets (payload : DeltaTokenPayload) (groupBy : List Text)
    (issued : List ResultRow) : DeltaTokenPayload :=
  { payload with buckets := some (buildBucketState groupBy (issued.map ResultRow.columns)) }

theorem removedByRead_encodeDeltaToken (payload : DeltaTokenPayload)
    (pages : List (List ResultRow)) (hsecret : options.secret ≠ [])
    (hexpiry : ∀ ttlMs ∈ options.ttlMs, later ≤ now + ttlMs) :
    removedByRead hmac options
        (encodeDeltaToken hmac (payload.withBuckets groupBy issued) options now nowIso nonce) later
        groupBy (pages.map (List.map ResultRow.columns)) =
      if (envelopeBytes (signedEnvelope hmac deltaTokenType
          ((payload.withBuckets groupBy issued).encode nowIso) options now nonce)).length >
            maxTokenEnvelopeBytes then
        invalidToken "Token payload exceeds maximum size."
      else .ok (reportedRows groupBy issued pages) := by
  have hdecode := @decodeDeltaToken_encodeDeltaToken hmac (payload.withBuckets groupBy issued)
    options now later nowIso nonce _ hsecret hexpiry rfl
  rw [removedByRead]
  by_cases hlarge : (envelopeBytes (signedEnvelope hmac deltaTokenType
      ((payload.withBuckets groupBy issued).encode nowIso) options now nonce)).length >
        maxTokenEnvelopeBytes
  · rw [if_pos hlarge] at hdecode ⊢
    cases hresult : decodeDeltaToken hmac (encodeDeltaToken hmac
        (payload.withBuckets groupBy issued) options now nowIso nonce) options later with
    | error error =>
      rw [hresult] at hdecode
      cases hdecode
      rfl
    | ok deltaPayload =>
      rw [hresult] at hdecode
      cases hdecode
  · rw [if_neg hlarge] at hdecode ⊢
    cases hresult : decodeDeltaToken hmac (encodeDeltaToken hmac
        (payload.withBuckets groupBy issued) options now nowIso nonce) options later with
    | error error =>
      rw [hresult] at hdecode
      cases hdecode
    | ok deltaPayload =>
      rw [hresult] at hdecode
      have hbuckets : deltaPayload.buckets.getD [] =
          (buildBucketState groupBy (issued.map ResultRow.columns)).map storedBucket :=
        Except.ok.inj hdecode
      refine congrArg Except.ok ?_
      rw [hbuckets]
      rfl

/-- The delta read reports exactly the removed groups if its token is not too large, every removed
group and only such a group looks removed from the page that the token was issued with, and no
date is among the values that have to be compared or reported. -/
theorem removedByRead_reportsExactly_iff (payload : DeltaTokenPayload)
    (hvalid : ∀ field ∈ groupBy, isValidPath field = true) (hsecret : options.secret ≠ [])
    (hexpiry : ∀ ttlMs ∈ options.ttlMs, later ≤ now + ttlMs) :
    ReportsExactly groupBy (before ++ issued :: after).flatten (first :: more).flatten
        (removedByRead hmac options
          (encodeDeltaToken hmac (payload.withBuckets groupBy issued) options now nowIso nonce)
          later groupBy ((first :: more).map (List.map ResultRow.columns))) ↔
      (envelopeBytes (signedEnvelope hmac deltaTokenType
          ((payload.withBuckets groupBy issued).encode nowIso) options now nonce)).length ≤
            maxTokenEnvelopeBytes ∧
        TokenCovers groupBy issued (before ++ issued :: after).flatten (first :: more) := by
  have hissued : issued ⊆ (before ++ issued :: after).flatten := by
    intro row hrow
    exact List.mem_flatten.mpr ⟨issued, by simp, hrow⟩
  rw [removedByRead_encodeDeltaToken payload (first :: more) hsecret hexpiry, ReportsExactly]
  split
  · next hlarge =>
    refine iff_of_false ?_ fun h => absurd h.1 (Nat.not_le.mpr hlarge)
    rintro ⟨removed, heq, _⟩
    cases heq
  · next hsize =>
    rw [and_iff_right (Nat.not_lt.mp hsize)]
    constructor
    · rintro ⟨removed, heq, htuples⟩
      rw [← Except.ok.inj heq] at htuples
      exact tokenCovers_of_reportsTuple hvalid hissued htuples
    · intro hcovers
      exact ⟨_, rfl, reportsTuple_of_tokenCovers hvalid hissued hcovers⟩

end Reads

/-! ## A group on another page -/

/-- A row with one group column. -/
def countryRow (country : Text) : ResultRow where
  columns := [("country".toList, .string country)]
  distinct := by simp [Dictionary.Distinct]
  plain := by
    change prototypeKey ∉ ["country".toList]
    decide
  scalar := by simp [RowValue.IsScalar]

def countryPayload : DeltaTokenPayload where
  entitySet := "Orders".toList
  lastValue := "2024-05-01T00:00:00.000Z".toList
  keyValues := none
  pageKeys := none
  buckets := none
  issuedAt := none

def sampleOptions : TokenSecurityOptions where
  secret := "secret".toList
  ttlSeconds := none

theorem removedByRead_reportsExactly_sample :
    ReportsExactly ["country".toList] ([] ++ [countryRow ['A']] :: []).flatten
        ([countryRow ['B']] :: []).flatten
        (removedByRead (fun _ _ => []) sampleOptions
          (encodeDeltaToken (fun _ _ => [])
            (countryPayload.withBuckets ["country".toList] [countryRow ['A']]) sampleOptions 0 [] [])
          1 ["country".toList] (([countryRow ['B']] :: []).map (List.map ResultRow.columns))) ↔
      (envelopeBytes (signedEnvelope (fun _ _ => []) deltaTokenType
          ((countryPayload.withBuckets ["country".toList] [countryRow ['A']]).encode [])
          sampleOptions 0 [])).length ≤ maxTokenEnvelopeBytes ∧
        TokenCovers ["country".toList] [countryRow ['A']]
          ([] ++ [countryRow ['A']] :: []).flatten ([countryRow ['B']] :: []) :=
  removedByRead_reportsExactly_iff countryPayload (by decide) (by decide) (by decide)

/-- A group that is on the second page now is reported as removed by the first one. -/
theorem removedByRead_misses_other_page :
    ¬ ReportsExactly ["country".toList] [[countryRow ['B']]].flatten
        [[countryRow ['A']], [countryRow ['B']]].flatten
        (removedByRead (fun _ _ => []) sampleOptions
          (encodeDeltaToken (fun _ _ => [])
            (countryPayload.withBuckets ["country".toList] [countryRow ['B']]) sampleOptions 0 [] [])
          1 ["country".toList]
          ([[countryRow ['A']], [countryRow ['B']]].map (List.map ResultRow.columns))) := by
  rw [removedByRead_encodeDeltaToken countryPayload [[countryRow ['A']], [countryRow ['B']]]
    (by decide) (by decide)]
  rintro ⟨removed, heq, htuples⟩
  have hrecorded : IsRecorded ["country".toList] [countryRow ['B']] (countryRow ['B']) :=
    ⟨[], [], rfl, by simp⟩
  have hcovers : TokenCovers ["country".toList] [countryRow ['B']] [countryRow ['B']]
      [[countryRow ['A']], [countryRow ['B']]] := by
    split at heq
    · cases heq
    · rw [← Except.ok.inj heq] at htuples
      exact tokenCovers_of_reportsTuple (by decide) (List.Subset.refl _) htuples
  obtain ⟨_, hpages⟩ := hcovers.present (countryRow ['B']) hrecorded fun hgone =>
    hgone (countryRow ['B']) (by simp) rfl
  obtain ⟨row, hrow, hagree⟩ := hpages [countryRow ['A']] (by simp)
  rw [List.mem_singleton] at hrow
  rw [hrow] at hagree
  have h := hagree "country".toList (by simp) (by decide)
  cases h

end LoopbackOData
