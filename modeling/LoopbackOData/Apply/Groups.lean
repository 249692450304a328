import LoopbackOData.Apply.Accumulators
import LoopbackOData.Library.Grouping

/-!
# Groups in memory

Whether the records of an aggregation are one for every tuple of group values, each with the
aggregates of its rows. The rows are put together by the JSON text of their group values.
-/

namespace LoopbackOData

namespace Aggregation

set_option autoImplicit false

/-! ## Reference -/

/-- The group values of a row. -/
def rowTuple (spec : AggregationSpec) (row : Cell) : List Cell :=
  spec.groupBy.map fun field => (resolveVariantValue row Dictionary.empty field).plain

/-- The group values that a record shows. -/
def recordTuple (spec : AggregationSpec) (record : Record) : List Cell :=
  spec.groupBy.map fun field => ((Dictionary.get record field).getD .undefined).plain

/-- The operands of an aggregate in the rows of a group. -/
def groupOperands (spec : AggregationSpec) (rows : List Cell) (tuple : List Cell)
    (aggregate : AggregationExpression) : List Cell :=
  (rows.filter fun row => rowTuple spec row = tuple).map fun row =>
    evaluateAggregateOperand aggregate row Dictionary.empty

/-- One record for every tuple of group values, or one record where there are none to group by, and
every aggregate of a record is that of the rows of its group. -/
structure IsExact (spec : AggregationSpec) (rows : List Cell) (records : List Record) : Prop where
  nodup : (records.map (recordTuple spec)).Nodup
  tuples : ∀ tuple, tuple ∈ records.map (recordTuple spec) ↔
    tuple ∈ rows.map (rowTuple spec) ∨ spec.groupBy = [] ∧ tuple = []
  aggregates : ∀ record ∈ records, ∀ aggregate ∈ spec.aggregates,
    (∃ result, IsAggregate aggregate.operator
      (groupOperands spec rows (recordTuple spec record) aggregate) result) →
    ∃ result, Dictionary.get record aggregate.aliasName = some result ∧
      IsAggregate aggregate.operator
        (groupOperands spec rows (recordTuple spec record) aggregate) result

/-! ## Condition -/

/-- Every value of a record has a name of its own. -/
structure AggregationSpec.IsNamed (spec : AggregationSpec) : Prop where
  distinct : (spec.aggregates.map AggregationExpression.aliasName).Nodup
  apart : ∀ aggregate ∈ spec.aggregates, aggregate.aliasName ∉ spec.groupBy
  aliases : ∀ aggregate ∈ spec.aggregates, aggregate.aliasName ≠ prototypeKey
  fields : prototypeKey ∉ spec.groupBy

/-- What JSON tells apart are the values. -/
def PrintsApart (texts : JsonTexts) (spec : AggregationSpec) (rows : List Cell) : Prop :=
  ∀ row ∈ rows, ∀ row' ∈ rows,
    toJsonItems texts (spec.groupBy.map (resolveVariantValue row Dictionary.empty)) =
      toJsonItems texts (spec.groupBy.map (resolveVariantValue row' Dictionary.empty)) →
    rowTuple spec row = rowTuple spec row'

/-- The rows on which the stage is exact. -/
structure GroupsWell (texts : JsonTexts) (maxFanout : Nat) (spec : AggregationSpec)
    (rows : List Cell) : Prop where
  fanout : rows = [] ∨ 1 ≤ maxFanout
  some : spec.groupBy = [] → rows ≠ []
  apart : PrintsApart texts spec rows
  operands : ∀ row ∈ rows, ∀ aggregate ∈ spec.aggregates,
    (∃ result, IsAggregate aggregate.operator
      (groupOperands spec rows (rowTuple spec row) aggregate) result) →
    Suits aggregate.operator (groupOperands spec rows (rowTuple spec row) aggregate)

/-! ## Values and JSON -/

section Values

theorem toJson_eq_none_iff {texts : JsonTexts} {c : Cell} :
    c.toJson texts = none ↔ c = .undefined := by
  cases c <;> simp [Cell.toJson]

mutual

/-- Values that are the same are printed the same. -/
theorem toJson_plain (texts : JsonTexts) :
    (c : Cell) → c.plain.toJson texts = some ((c.toJson texts).getD .null)
  | .undefined => rfl
  | .null => rfl
  | .bool _ => rfl
  | .number _ => rfl
  | .string _ => rfl
  | .date _ _ => rfl
  | .array items _ => by
    rw [Cell.plain, Cell.toJson, Cell.toJson, toJsonItems_plain texts items]
    rfl
  | .record fields _ => by
    rw [Cell.plain, Cell.toJson, Cell.toJson, toJsonFields_plain texts fields]
    rfl

theorem toJsonItems_plain (texts : JsonTexts) :
    (items : List Cell) → toJsonItems texts (plainItems items) = toJsonItems texts items
  | [] => rfl
  | item :: items => by
    rw [plainItems, toJsonItems, toJsonItems, toJson_plain texts item,
      toJsonItems_plain texts items]
    rfl

theorem toJsonFields_plain (texts : JsonTexts) :
    (fields : List (Text × Cell)) →
      toJsonFields texts (plainFields fields) = toJsonFields texts fields
  | [] => rfl
  | (name, value) :: fields => by
    have hfields := toJsonFields_plain texts fields
    have hvalue := toJson_plain texts value
    rw [plainFields, toJsonFields]
    by_cases hundefined : value = .undefined
    · rw [if_pos hundefined, toJson_eq_none_iff.mpr hundefined]
      exact hfields
    · rw [if_neg hundefined, toJsonFields, hvalue]
      cases hjson : value.toJson texts with
      | none => exact absurd (toJson_eq_none_iff.mp hjson) hundefined
      | some json =>
        dsimp only
        rw [hfields, Option.getD_some]

end

theorem plainItems_eq_map (items : List Cell) : plainItems items = items.map Cell.plain := by
  induction items with
  | nil => rfl
  | cons item items ih => rw [plainItems, ih, List.map_cons]

theorem toJsonItems_congr (texts : JsonTexts) {items items' : List Cell}
    (h : items.map Cell.plain = items'.map Cell.plain) :
    toJsonItems texts items = toJsonItems texts items' := by
  rw [← toJsonItems_plain, ← toJsonItems_plain texts items', plainItems_eq_map,
    plainItems_eq_map, h]

end Values

/-! ## Groups -/

section Groups

variable {spec : AggregationSpec}

theorem foldl_assign {α : Type} {pairs : List (Text × α)}
    (h : ∀ pair ∈ pairs, pair.1 ≠ prototypeKey) (record : Dictionary Text α) :
    pairs.foldl (fun record pair => assign record pair.1 pair.2) record = record.setAll pairs := by
  induction pairs generalizing record with
  | nil => rfl
  | cons pair pairs ih =>
    rw [List.foldl_cons, Dictionary.setAll_cons, assign, if_neg (h pair List.mem_cons_self)]
    exact ih (fun pair hpair => h pair (List.mem_cons_of_mem _ hpair)) _

theorem groupValuesOf_eq (hnamed : spec.IsNamed) (row : Cell) (variant : Variant) :
    groupValuesOf spec row variant =
      Dictionary.ofKeys spec.groupBy (resolveVariantValue row variant) := by
  rw [groupValuesOf, Dictionary.ofKeys, ← foldl_assign, List.foldl_map]
  intro pair hpair
  obtain ⟨field, hfield, rfl⟩ := List.mem_map.mp hpair
  exact fun heq => hnamed.fields (heq ▸ hfield)

/-- The states of the aggregates of a group, each under its name. -/
structure HoldsStates (spec : AggregationSpec) (states : Dictionary Text AccumulatorState)
    (state : AggregationExpression → AccumulatorState) : Prop where
  distinct : states.Distinct
  names : ∀ name ∈ states.map Prod.fst, ∃ aggregate ∈ spec.aggregates, aggregate.aliasName = name
  get : ∀ aggregate ∈ spec.aggregates, states.get aggregate.aliasName = some (state aggregate)

theorem eq_of_aliasName (hnamed : spec.IsNamed) {aggregate aggregate' : AggregationExpression}
    (h : aggregate ∈ spec.aggregates) (h' : aggregate' ∈ spec.aggregates)
    (heq : aggregate.aliasName = aggregate'.aliasName) : aggregate = aggregate' :=
  List.inj_on_of_nodup_map hnamed.distinct h h' heq

theorem holdsStates_newEntry (hnamed : spec.IsNamed) (row : Cell) (variant : Variant) :
    HoldsStates spec (newEntry spec row variant).aggregates
      fun aggregate => createAccumulatorState aggregate.operator := by
  have hentry : (newEntry spec row variant).aggregates = Dictionary.empty.setAll
      (spec.aggregates.map fun aggregate =>
        (aggregate.aliasName, createAccumulatorState aggregate.operator)) := by
    rw [← foldl_assign, List.foldl_map]
    · rfl
    · intro pair hpair
      obtain ⟨aggregate, haggregate, rfl⟩ := List.mem_map.mp hpair
      exact hnamed.aliases aggregate haggregate
  have hdistinct : Dictionary.Distinct (spec.aggregates.map fun aggregate =>
      (aggregate.aliasName, createAccumulatorState aggregate.operator)) := by
    rw [Dictionary.Distinct, List.map_map]
    exact hnamed.distinct
  rw [hentry]
  refine ⟨Dictionary.distinct_empty.setAll _, fun name hname => ?_, fun aggregate haggregate => ?_⟩
  · obtain ⟨⟨_, state⟩, hmem, rfl⟩ := List.mem_map.mp hname
    obtain ⟨before, after, heq, -⟩ := Dictionary.mem_setAll_empty.mp hmem
    obtain ⟨aggregate, haggregate, hpair⟩ := List.mem_map.mp
      (heq ▸ List.mem_append_right before List.mem_cons_self)
    exact ⟨aggregate, haggregate, (Prod.mk.inj hpair).1⟩
  · rw [Dictionary.get_setAll, Dictionary.get_empty, Option.or_none, hdistinct.get_reverse,
      ← hdistinct.mem_iff]
    exact List.mem_map_of_mem haggregate

theorem HoldsStates.congr {states : Dictionary Text AccumulatorState}
    {state state' : AggregationExpression → AccumulatorState} (h : HoldsStates spec states state)
    (heq : ∀ aggregate ∈ spec.aggregates, state aggregate = state' aggregate) :
    HoldsStates spec states state' :=
  ⟨h.distinct, h.names, fun aggregate haggregate => by
    rw [h.get aggregate haggregate, heq aggregate haggregate]⟩

/-- The states of aggregates are updated one by one. -/
theorem HoldsStates.foldl {step : Dictionary Text AccumulatorState → AggregationExpression →
      Dictionary Text AccumulatorState}
    {update : AggregationExpression → AccumulatorState → AccumulatorState}
    (hstep : ∀ states aggregate state, Dictionary.get states aggregate.aliasName = some state →
      step states aggregate = states.set aggregate.aliasName (update aggregate state))
    (hnamed : spec.IsNamed) {aggregates : List AggregationExpression}
    (hsub : ∀ aggregate ∈ aggregates, aggregate ∈ spec.aggregates)
    (hnodup : (aggregates.map AggregationExpression.aliasName).Nodup)
    {states : Dictionary Text AccumulatorState} {state : AggregationExpression → AccumulatorState}
    (h : HoldsStates spec states state) :
    HoldsStates spec (aggregates.foldl step states) fun aggregate =>
      if aggregate.aliasName ∈ aggregates.map AggregationExpression.aliasName then
        update aggregate (state aggregate) else state aggregate := by
  induction aggregates generalizing states state with
  | nil => exact h.congr fun aggregate _ => (if_neg List.not_mem_nil).symm
  | cons first aggregates ih =>
    rw [List.map_cons, List.nodup_cons] at hnodup
    have hmem := hsub first List.mem_cons_self
    rw [List.foldl_cons, hstep _ _ _ (h.get first hmem)]
    have hset : HoldsStates spec (states.set first.aliasName (update first (state first)))
        fun aggregate => if first.aliasName = aggregate.aliasName then
          update aggregate (state aggregate) else state aggregate := by
      refine ⟨h.distinct.set, fun name hname => ?_, fun aggregate haggregate => ?_⟩
      · rcases Dictionary.mem_keys_set.mp hname with rfl | hname
        · exact ⟨first, hmem, rfl⟩
        · exact h.names name hname
      · rw [Dictionary.get_set]
        split
        · next heq => rw [eq_of_aliasName hnamed hmem haggregate heq]
        · exact h.get aggregate haggregate
    refine (ih (fun aggregate haggregate => hsub _ (List.mem_cons_of_mem _ haggregate)) hnodup.2
      hset).congr fun aggregate _ => ?_
    rw [List.map_cons]
    by_cases heq : first.aliasName = aggregate.aliasName
    · rw [if_pos heq, if_neg (heq ▸ hnodup.1), if_pos (heq ▸ List.mem_cons_self)]
    · rw [if_neg heq]
      exact if_congr (List.mem_cons.trans (or_iff_right (Ne.symm heq))).symm rfl rfl

theorem holdsStates_updateEntry (hnamed : spec.IsNamed) {entry : GroupEntry}
    {state : AggregationExpression → AccumulatorState}
    (h : HoldsStates spec entry.aggregates state) (row : Cell) (variant : Variant) :
    HoldsStates spec (updateEntry spec entry row variant).aggregates fun aggregate =>
      updateAccumulatorState (state aggregate)
        (evaluateAggregateOperand aggregate row variant) := by
  unfold updateEntry
  refine HoldsStates.congr (@HoldsStates.foldl spec _ (fun aggregate state =>
    updateAccumulatorState state (evaluateAggregateOperand aggregate row variant))
    (fun _ _ _ hget => by simp only [hget]) hnamed _ (fun _ hmem => hmem) hnamed.distinct _ _ h)
    fun aggregate haggregate => ?_
  exact if_pos (List.mem_map_of_mem haggregate)

/-- A row is added to its group. -/
def addRow (spec : AggregationSpec) (entry : Option GroupEntry) (row : Cell) : GroupEntry :=
  updateEntry spec (entry.getD (newEntry spec row Dictionary.empty)) row Dictionary.empty

def operandsOf (rows : List Cell) (aggregate : AggregationExpression) : List Cell :=
  rows.map fun row => evaluateAggregateOperand aggregate row Dictionary.empty

/-- What is left of a group: the group values of its first row and a state for the operands of
every aggregate. -/
theorem collect_addRow (hnamed : spec.IsNamed) {rows : List Cell} {entry : GroupEntry}
    (h : Dictionary.collect (addRow spec) rows = some entry) :
    (∃ row ∈ rows, entry.groupValues = groupValuesOf spec row Dictionary.empty) ∧
      HoldsStates spec entry.aggregates fun aggregate =>
        (operandsOf rows aggregate).foldl updateAccumulatorState
          (createAccumulatorState aggregate.operator) := by
  induction rows using List.reverseRecOn generalizing entry with
  | nil => cases h
  | append_singleton rows row ih =>
    rw [Dictionary.collect_append] at h
    obtain rfl := Option.some.inj h
    have hstates {before : GroupEntry} (hbefore : HoldsStates spec before.aggregates
        fun aggregate => (operandsOf rows aggregate).foldl updateAccumulatorState
          (createAccumulatorState aggregate.operator)) :
        HoldsStates spec (updateEntry spec before row Dictionary.empty).aggregates
          fun aggregate => (operandsOf (rows ++ [row]) aggregate).foldl updateAccumulatorState
            (createAccumulatorState aggregate.operator) :=
      (holdsStates_updateEntry hnamed hbefore row Dictionary.empty).congr fun aggregate _ => by
        rw [operandsOf, operandsOf, List.map_append, List.foldl_append]
        rfl
    cases hbefore : Dictionary.collect (addRow spec) rows with
    | none =>
      obtain rfl := Dictionary.collect_eq_none_iff.mp hbefore
      exact ⟨⟨row, by simp, rfl⟩, hstates (holdsStates_newEntry hnamed row Dictionary.empty)⟩
    | some before =>
      obtain ⟨⟨first, hfirst, hvalues⟩, hbeforeStates⟩ := ih hbefore
      exact ⟨⟨first, List.mem_append_left _ hfirst, hvalues⟩, hstates hbeforeStates⟩

theorem get_map_snd {α β : Type} (d : Dictionary Text α) (f : α → β) (name : Text) :
    Dictionary.get (d.map fun pair => (pair.1, f pair.2)) name = (d.get name).map f := by
  induction d with
  | nil => rfl
  | cons pair d ih =>
    rw [List.map_cons, Dictionary.get_cons, Dictionary.get_cons, ih]
    split <;> rfl

/-- The record of a group has the group values of one of its rows and what the aggregates are
computed to. -/
theorem finalizeEntry_spec (hnamed : spec.IsNamed) {rows : List Cell} {entry : GroupEntry}
    (h : Dictionary.collect (addRow spec) rows = some entry) :
    (∃ row ∈ rows, recordTuple spec (finalizeEntry entry) = rowTuple spec row) ∧
      ∀ aggregate ∈ spec.aggregates, Dictionary.get (finalizeEntry entry) aggregate.aliasName =
        some (accumulated aggregate.operator (operandsOf rows aggregate)) := by
  obtain ⟨⟨row, hrow, hvalues⟩, hstates⟩ := collect_addRow hnamed h
  rw [groupValuesOf_eq hnamed] at hvalues
  have hgetValues (name : Text) : entry.groupValues.get name = if name ∈ spec.groupBy then
      some (resolveVariantValue row Dictionary.empty name) else none := by
    rw [hvalues]
    refine Dictionary.get_ofKeys.trans ?_
    congr
  have hvaluesDistinct : entry.groupValues.Distinct := by
    rw [hvalues]
    exact Dictionary.distinct_ofKeys _ _
  have hkeys {name : Text} (hname : name ∈ entry.groupValues.map Prod.fst) :
      name ∈ spec.groupBy := by
    by_contra hnot
    obtain ⟨⟨_, value⟩, hmem, rfl⟩ := List.mem_map.mp hname
    have hget := hvaluesDistinct.mem_iff.mp hmem
    rw [hgetValues, if_neg hnot] at hget
    cases hget
  have hpairs : Dictionary.Distinct (entry.groupValues ++ entry.aggregates.map fun pair =>
      (pair.1, finalizeAccumulatorState pair.2)) := by
    rw [Dictionary.Distinct, List.map_append, List.nodup_append, List.map_map]
    refine ⟨hvaluesDistinct, hstates.distinct, ?_⟩
    rintro name hname _ hname' rfl
    obtain ⟨aggregate, haggregate, heq⟩ := hstates.names name hname'
    exact hnamed.apart aggregate haggregate (heq ▸ hkeys hname)
  have hget (name : Text) : Dictionary.get (finalizeEntry entry) name =
      (entry.groupValues.get name).or
        ((entry.aggregates.get name).map finalizeAccumulatorState) := by
    rw [finalizeEntry, foldl_assign, Dictionary.get_setAll, Dictionary.get_empty, Option.or_none,
      hpairs.get_reverse, Dictionary.get_append, get_map_snd]
    intro pair hpair
    rcases List.mem_append.mp hpair with hpair | hpair
    · exact fun heq => hnamed.fields (heq ▸ hkeys (List.mem_map_of_mem hpair))
    · obtain ⟨state, hstate, rfl⟩ := List.mem_map.mp hpair
      obtain ⟨aggregate, haggregate, heq⟩ := hstates.names _ (List.mem_map_of_mem hstate)
      exact heq ▸ hnamed.aliases aggregate haggregate
  refine ⟨⟨row, hrow, ?_⟩, fun aggregate haggregate => ?_⟩
  · refine List.map_congr_left fun field hfield => ?_
    rw [hget, hgetValues, if_pos hfield]
    rfl
  · rw [hget, hgetValues, if_neg (hnamed.apart aggregate haggregate), Option.none_or,
      hstates.get aggregate haggregate]
    rfl

/-! ### Runs -/

variable (texts : JsonTexts) (rows : List Cell)

def rowKey (texts : JsonTexts) (spec : AggregationSpec) (row : Cell) : Text :=
  groupKey texts spec row Dictionary.empty

/-- The record of the group of a key. -/
def groupRecord (texts : JsonTexts) (spec : AggregationSpec) (rows : List Cell) (key : Text) :
    Option Record :=
  (Dictionary.collect (addRow spec) (rows.filter fun row => rowKey texts spec row = key)).map
    finalizeEntry

def groupRecords (texts : JsonTexts) (spec : AggregationSpec) (rows : List Cell) : List Record :=
  (Dictionary.groupItems (rowKey texts spec) (addRow spec) rows).map fun pair =>
    finalizeEntry pair.2

theorem addRows_none (maxFanout : Nat) (groupMap : Dictionary Text GroupEntry) :
    addRows texts spec maxFanout Dictionary.empty rows groupMap =
      if rows = [] ∨ 1 ≤ maxFanout then
        .ok (rows.foldl (fun groupMap row => groupMap.set (rowKey texts spec row)
          (addRow spec (groupMap.get (rowKey texts spec row)) row)) groupMap)
      else fanoutExceeded maxFanout := by
  induction rows generalizing groupMap with
  | nil => rfl
  | cons row rows ih =>
    have hvariants : expandNavigationVariants maxFanout row Dictionary.empty =
        if 1 ≤ maxFanout then .ok [Dictionary.empty] else fanoutExceeded maxFanout := by
      rw [expandNavigationVariants]
      change (if 1 > maxFanout then fanoutExceeded maxFanout else .ok [Dictionary.empty]) = _
      split
      · next h => rw [if_neg (by omega)]
      · next h => rw [if_pos (by omega)]
    rw [addRows, hvariants]
    by_cases hfanout : 1 ≤ maxFanout
    · rw [if_pos hfanout, if_pos (.inr hfanout), List.foldl_cons]
      refine (ih _).trans ?_
      rw [if_pos (.inr hfanout)]
      rfl
    · rw [if_neg hfanout, if_neg (by simp [hfanout])]
      rfl

theorem executeAggregation_eq (maxFanout : Nat) :
    executeAggregation texts maxFanout ⟨spec, NavigationPaths.none⟩ rows =
      if rows = [] ∨ 1 ≤ maxFanout then .ok (groupRecords texts spec rows)
      else fanoutExceeded maxFanout := by
  have hgroups : groupNavigationPaths NavigationPaths.none.paths = Dictionary.empty := rfl
  rw [executeAggregation]
  dsimp only
  rw [hgroups, addRows_none]
  split <;> rfl

variable {texts rows}

theorem map_groupRecords :
    (groupRecords texts spec rows).map some =
      (Dictionary.distinctKeys (rows.map (rowKey texts spec))).map
        (groupRecord texts spec rows) := by
  rw [groupRecords, List.map_map]
  refine Dictionary.map_groupItems _ _ _ (groupRecord texts spec rows) _ fun pair hpair => ?_
  rw [groupRecord, hpair]
  rfl

theorem mem_groupRecords {record : Record} :
    record ∈ groupRecords texts spec rows ↔
      ∃ row ∈ rows, groupRecord texts spec rows (rowKey texts spec row) = some record := by
  rw [← List.mem_map_of_injective (Option.some_injective _), map_groupRecords, List.mem_map]
  simp only [Dictionary.mem_distinctKeys, List.mem_map, exists_exists_and_eq_and]

theorem rowKey_eq_iff {row row' : Cell} :
    rowKey texts spec row = rowKey texts spec row' ↔
      toJsonItems texts (spec.groupBy.map (resolveVariantValue row Dictionary.empty)) =
        toJsonItems texts (spec.groupBy.map (resolveVariantValue row' Dictionary.empty)) :=
  ⟨fun h => Json.Value.arr.inj (Json.print_injective h),
    fun h => congrArg (fun items => Json.print (.arr items)) h⟩

/-- Rows with the same group values have the same key. -/
theorem rowKey_of_rowTuple {row row' : Cell} (h : rowTuple spec row = rowTuple spec row') :
    rowKey texts spec row = rowKey texts spec row' := by
  refine rowKey_eq_iff.mpr (toJsonItems_congr texts ?_)
  rwa [List.map_map, List.map_map]

/-- The record of the group of a row. -/
theorem groupRecord_spec (hnamed : spec.IsNamed) {row : Cell} (hrow : row ∈ rows) :
    ∃ record, groupRecord texts spec rows (rowKey texts spec row) = some record ∧
      (∃ first ∈ rows, rowKey texts spec first = rowKey texts spec row ∧
        recordTuple spec record = rowTuple spec first) ∧
      ∀ aggregate ∈ spec.aggregates, Dictionary.get record aggregate.aliasName =
        some (accumulated aggregate.operator (operandsOf
          (rows.filter fun row' => rowKey texts spec row' = rowKey texts spec row) aggregate)) := by
  have hmem : row ∈ rows.filter fun row' => rowKey texts spec row' = rowKey texts spec row :=
    List.mem_filter.mpr ⟨hrow, decide_eq_true rfl⟩
  cases hcollect : Dictionary.collect (addRow spec)
      (rows.filter fun row' => rowKey texts spec row' = rowKey texts spec row) with
  | none =>
    rw [Dictionary.collect_eq_none_iff.mp hcollect] at hmem
    cases hmem
  | some entry =>
    obtain ⟨⟨first, hfirst, htuple⟩, haggregates⟩ := finalizeEntry_spec hnamed hcollect
    obtain ⟨hfirst, hkey⟩ := List.mem_filter.mp hfirst
    refine ⟨finalizeEntry entry, ?_, ⟨first, hfirst, of_decide_eq_true hkey, htuple⟩, haggregates⟩
    rw [groupRecord, hcollect]
    rfl

/-- The record of a row where JSON tells the group values apart. -/
theorem groupRecord_of_apart (hnamed : spec.IsNamed) (hapart : PrintsApart texts spec rows)
    {row : Cell} (hrow : row ∈ rows) :
    ∃ record, groupRecord texts spec rows (rowKey texts spec row) = some record ∧
      recordTuple spec record = rowTuple spec row ∧
      ∀ aggregate ∈ spec.aggregates, Dictionary.get record aggregate.aliasName =
        some (accumulated aggregate.operator
          (groupOperands spec rows (rowTuple spec row) aggregate)) := by
  obtain ⟨record, hrecord, ⟨first, hfirst, hkey, htuple⟩, haggregates⟩ :=
    @groupRecord_spec spec texts rows hnamed _ hrow
  have hsame {row' : Cell} (hrow' : row' ∈ rows) :
      rowKey texts spec row' = rowKey texts spec row ↔ rowTuple spec row' = rowTuple spec row :=
    ⟨fun heq => hapart row' hrow' row hrow (rowKey_eq_iff.mp heq), rowKey_of_rowTuple⟩
  refine ⟨record, hrecord, by rw [htuple, (hsame hfirst).mp hkey], fun aggregate haggregate => ?_⟩
  rw [haggregates aggregate haggregate, groupOperands, operandsOf]
  refine congrArg (fun rows : List Cell => some (accumulated aggregate.operator (rows.map _))) ?_
  exact List.filter_congr fun row' hrow' => decide_eq_decide.mpr (hsame hrow')

theorem nodup_groupRecords (hnamed : spec.IsNamed) :
    ((groupRecords texts spec rows).map (recordTuple spec)).Nodup := by
  refine List.Nodup.of_map some ?_
  have hmap : ((groupRecords texts spec rows).map (recordTuple spec)).map some =
      (Dictionary.distinctKeys (rows.map (rowKey texts spec))).map fun key =>
        (groupRecord texts spec rows key).map (recordTuple spec) := by
    have h := congrArg (List.map (Option.map (recordTuple spec)))
      (@map_groupRecords spec texts rows)
    rw [List.map_map, List.map_map] at h
    rw [List.map_map]
    exact h
  rw [hmap]
  refine (Dictionary.nodup_distinctKeys _).map_on fun key hkey key' hkey' heq => ?_
  obtain ⟨row, hrow, rfl⟩ := List.mem_map.mp (Dictionary.mem_distinctKeys.mp hkey)
  obtain ⟨row', hrow', rfl⟩ := List.mem_map.mp (Dictionary.mem_distinctKeys.mp hkey')
  obtain ⟨record, hrecord, ⟨first, -, hfirst, htuple⟩, -⟩ :=
    @groupRecord_spec spec texts rows hnamed _ hrow
  obtain ⟨record', hrecord', ⟨first', -, hfirst', htuple'⟩, -⟩ :=
    @groupRecord_spec spec texts rows hnamed _ hrow'
  rw [hrecord, hrecord', Option.map_some, Option.map_some, htuple, htuple'] at heq
  rw [← hfirst, ← hfirst', rowKey_of_rowTuple (Option.some.inj heq)]

/-- Records for every tuple are records of rows that JSON tells apart. -/
theorem printsApart_of_isExact (hnamed : spec.IsNamed)
    (h : IsExact spec rows (groupRecords texts spec rows)) : PrintsApart texts spec rows := by
  have hrecord {row : Cell} (hrow : row ∈ rows) :
      ∃ record, groupRecord texts spec rows (rowKey texts spec row) = some record ∧
        recordTuple spec record = rowTuple spec row := by
    obtain ⟨record, hmem, htuple⟩ :=
      List.mem_map.mp ((h.tuples _).mpr (.inl (List.mem_map_of_mem hrow)))
    obtain ⟨row', hrow', hrecord⟩ := mem_groupRecords.mp hmem
    obtain ⟨record', hrecord', ⟨first, -, hkey, htuple'⟩, -⟩ :=
      @groupRecord_spec spec texts rows hnamed _ hrow'
    obtain rfl := Option.some.inj (hrecord.symm.trans hrecord')
    rw [← rowKey_of_rowTuple (htuple'.symm.trans htuple), hkey]
    exact ⟨record, hrecord, htuple⟩
  intro row hrow row' hrow' hjson
  obtain ⟨record, hget, htuple⟩ := hrecord hrow
  obtain ⟨record', hget', htuple'⟩ := hrecord hrow'
  rw [rowKey_eq_iff.mpr hjson] at hget
  obtain rfl := Option.some.inj (hget.symm.trans hget')
  exact htuple.symm.trans htuple'

theorem isExact_groupRecords_iff (hnamed : spec.IsNamed) :
    IsExact spec rows (groupRecords texts spec rows) ↔
      (spec.groupBy = [] → rows ≠ []) ∧ PrintsApart texts spec rows ∧
        ∀ row ∈ rows, ∀ aggregate ∈ spec.aggregates,
          (∃ result, IsAggregate aggregate.operator
            (groupOperands spec rows (rowTuple spec row) aggregate) result) →
          Suits aggregate.operator (groupOperands spec rows (rowTuple spec row) aggregate) := by
  constructor
  · intro h
    have hapart := printsApart_of_isExact hnamed h
    refine ⟨?_, hapart, fun row hrow aggregate haggregate hexists => ?_⟩
    · rintro hnone rfl
      cases (h.tuples []).mpr (.inr ⟨hnone, rfl⟩)
    · obtain ⟨record, hrecord, htuple, hget⟩ := groupRecord_of_apart hnamed hapart hrow
      have haggregates := h.aggregates record (mem_groupRecords.mpr ⟨row, hrow, hrecord⟩)
        aggregate haggregate
      rw [htuple, hget aggregate haggregate] at haggregates
      obtain ⟨result, hresult, hisAggregate⟩ := haggregates hexists
      rw [← Option.some.inj hresult] at hisAggregate
      exact (isAggregate_iff hexists).mp hisAggregate
  · rintro ⟨hsome, hapart, hsuits⟩
    refine ⟨nodup_groupRecords hnamed, fun tuple => ?_, fun record hrecord => ?_⟩
    · rw [List.mem_map]
      constructor
      · rintro ⟨record, hmem, rfl⟩
        obtain ⟨row, hrow, hrecord⟩ := mem_groupRecords.mp hmem
        obtain ⟨record', hrecord', htuple, -⟩ := groupRecord_of_apart hnamed hapart hrow
        obtain rfl := Option.some.inj (hrecord.symm.trans hrecord')
        exact .inl (htuple ▸ List.mem_map_of_mem hrow)
      · intro htuple
        have hmem : tuple ∈ rows.map (rowTuple spec) := by
          rcases htuple with hmem | ⟨hnone, rfl⟩
          · exact hmem
          · obtain ⟨row, hrow⟩ := List.exists_mem_of_ne_nil _ (hsome hnone)
            refine List.mem_map.mpr ⟨row, hrow, ?_⟩
            rw [rowTuple, hnone, List.map_nil]
        obtain ⟨row, hrow, rfl⟩ := List.mem_map.mp hmem
        obtain ⟨record, hrecord, htuple', -⟩ := groupRecord_of_apart hnamed hapart hrow
        exact ⟨record, mem_groupRecords.mpr ⟨row, hrow, hrecord⟩, htuple'⟩
    · obtain ⟨row, hrow, hget⟩ := mem_groupRecords.mp hrecord
      obtain ⟨record', hrecord', htuple, hgets⟩ := groupRecord_of_apart hnamed hapart hrow
      obtain rfl := Option.some.inj (hget.symm.trans hrecord')
      intro aggregate haggregate hexists
      rw [htuple] at hexists ⊢
      exact ⟨_, hgets aggregate haggregate,
        (isAggregate_iff hexists).mpr (hsuits row hrow aggregate haggregate hexists)⟩

end Groups

/-- The sum of the prices of all rows. -/
def totalSpec : AggregationSpec where
  groupBy := []
  aggregates := [⟨some "price".toList, none, .sum, "total".toList⟩]

end Aggregation

end LoopbackOData
