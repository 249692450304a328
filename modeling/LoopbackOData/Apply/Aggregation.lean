import LoopbackOData.Filter.Literals
import LoopbackOData.Library.Dictionary
import LoopbackOData.Library.Json
import LoopbackOData.Library.Outcome
import LoopbackOData.Request

/-!
# Aggregation in memory

How a stage of `$apply` is computed where the database does not: the rows are spread over their
related rows, put into groups by the JSON text of their group values, and every aggregate is
accumulated row by row.
-/

namespace LoopbackOData

namespace Aggregation

open Outcome

set_option autoImplicit false

/-! ## Rows -/

/-- A value in a row, related rows included. Numbers are finite; dates, arrays and records are
objects, which are told apart by their numbers. -/
inductive Cell where
  | undefined
  | null
  | bool (b : Bool)
  | number (q : Rat)
  | string (s : Text)
  | date (ms : Int) (object : Nat)
  | array (items : List Cell) (object : Nat)
  | record (fields : List (Text × Cell)) (object : Nat)

mutual

def Cell.beq : Cell → Cell → Bool
  | .undefined, .undefined => true
  | .null, .null => true
  | .bool b, .bool b' => b = b'
  | .number q, .number q' => q = q'
  | .string s, .string s' => s = s'
  | .date ms object, .date ms' object' => ms = ms' && object = object'
  | .array items object, .array items' object' => object = object' && beqItems items items'
  | .record fields object, .record fields' object' => object = object' && beqFields fields fields'
  | _, _ => false

def beqItems : List Cell → List Cell → Bool
  | [], [] => true
  | item :: items, item' :: items' => item.beq item' && beqItems items items'
  | _, _ => false

def beqFields : List (Text × Cell) → List (Text × Cell) → Bool
  | [], [] => true
  | (name, value) :: fields, (name', value') :: fields' =>
    name = name' && value.beq value' && beqFields fields fields'
  | _, _ => false

end

mutual

theorem beq_iff : (c c' : Cell) → (c.beq c' = true ↔ c = c')
  | .array items object, c' => by
    cases c' <;> simp [Cell.beq, beqItems_iff items, and_comm]
  | .record fields object, c' => by
    cases c' <;> simp [Cell.beq, beqFields_iff fields, and_comm]
  | .undefined, c' => by cases c' <;> simp [Cell.beq]
  | .null, c' => by cases c' <;> simp [Cell.beq]
  | .bool _, c' => by cases c' <;> simp [Cell.beq]
  | .number _, c' => by cases c' <;> simp [Cell.beq]
  | .string _, c' => by cases c' <;> simp [Cell.beq]
  | .date _ _, c' => by cases c' <;> simp [Cell.beq]

theorem beqItems_iff : (items items' : List Cell) → (beqItems items items' = true ↔ items = items')
  | [], items' => by cases items' <;> simp [beqItems]
  | item :: items, items' => by
    cases items' <;> simp [beqItems, beq_iff item, beqItems_iff items]

theorem beqFields_iff :
    (fields fields' : List (Text × Cell)) → (beqFields fields fields' = true ↔ fields = fields')
  | [], fields' => by cases fields' <;> simp [beqFields]
  | (name, value) :: fields, fields' => by
    cases fields' with
    | nil => simp [beqFields]
    | cons first rest => simp [beqFields, beq_iff value, beqFields_iff fields, Prod.ext_iff]

end

instance : DecidableEq Cell := fun c c' => decidable_of_iff _ (beq_iff c c')

namespace Cell

/-- `value == null`. -/
def isNullish : Cell → Bool
  | .undefined => true
  | .null => true
  | _ => false

/-- `source[name]`, where no name is that of a built-in property. -/
def get (source : Cell) (name : Text) : Cell :=
  match source with
  | .record fields _ => (Dictionary.get fields name).getD .undefined
  | _ => .undefined

end Cell

/-- The properties of an object to which values are assigned. -/
abbrev Record := Dictionary Text Cell

/-- `record[name] = value`. -/
def assign {α : Type} (record : Dictionary Text α) (name : Text) (value : α) : Dictionary Text α :=
  if name = prototypeKey then record else record.set name value

/-- The texts that `JSON.stringify` writes for numbers and dates. -/
structure JsonTexts where
  number : Rat → Json.Number
  date : Int → Text

mutual

/-- What `JSON.stringify` writes for a value; nothing for `undefined`. -/
def Cell.toJson (texts : JsonTexts) : Cell → Option Json.Value
  | .undefined => none
  | .null => some .null
  | .bool b => some (.bool b)
  | .number q => some (.num (texts.number q))
  | .string s => some (.str s)
  | .date ms _ => some (.str (texts.date ms))
  | .array items _ => some (.arr (toJsonItems texts items))
  | .record fields _ => some (.obj (toJsonFields texts fields))

def toJsonItems (texts : JsonTexts) : List Cell → List Json.Value
  | [] => []
  | item :: items => (item.toJson texts).getD .null :: toJsonItems texts items

def toJsonFields (texts : JsonTexts) : List (Text × Cell) → List (Text × Json.Value)
  | [] => []
  | (name, value) :: fields =>
    match value.toJson texts with
    | some json => (name, json) :: toJsonFields texts fields
    | none => toJsonFields texts fields

end

/-- `JSON.stringify` of an array. -/
def stringifyItems (texts : JsonTexts) (items : List Cell) : Text :=
  Json.print (.arr (toJsonItems texts items))

/-! ## Navigation -/

/-- A path over relations, as it was resolved: the names of the relations are segments of it. -/
structure NavigationPath where
  originalPath : Text
  joins : List Text
  propertyPath : Option Text
  named : ∀ relationName ∈ joins, relationName ≠ [] ∧ '/' ∉ relationName

/-- The paths of a stage, as they are collected: those with a slash, each once. -/
structure NavigationPaths where
  paths : List NavigationPath
  slashed : ∀ path ∈ paths, '/' ∈ path.originalPath
  distinct : (paths.map NavigationPath.originalPath).Nodup

def NavigationPaths.none : NavigationPaths :=
  ⟨[], fun _ h => absurd h List.not_mem_nil, List.nodup_nil⟩

/-- The paths that go over the same relations. -/
def groupNavigationPaths (paths : List NavigationPath) : Dictionary Text (List NavigationPath) :=
  paths.foldl (fun groups path =>
    if path.joins = [] then groups
    else
      let key := ['/'].intercalate path.joins
      groups.set key ((groups.get key).getD [] ++ [path])) Dictionary.empty

/-- The values of the paths on one choice of related rows. -/
abbrev Variant := Record

/-- The rows that a row is related to; `undefined` where there are none. -/
def relatedRows (item : Cell) (relationName : Text) : List Cell :=
  if item.isNullish then [.undefined]
  else match item.get relationName with
    | .array [] _ => [.undefined]
    | .array entries _ => entries
    | .undefined => [.undefined]
    | .null => [.undefined]
    | related => [related]

def collectNavigationTargets (row : Cell) (joins : List Text) : List Cell :=
  joins.foldl (fun current relationName =>
    match current.flatMap fun item => relatedRows item relationName with
    | [] => [.undefined]
    | next => next) [row]

/-- The walk along the segments ends where there is nothing. -/
def walkSegments (current : Cell) : List Text → Cell
  | [] => current
  | segment :: segments =>
    if current.isNullish then .undefined else walkSegments (current.get segment) segments

def resolvePropertyFromTarget (target : Cell) (propertyPath : Option Text) : Cell :=
  match propertyPath with
  | none => target
  | some path => if path = [] then target
    else walkSegments target ((path.splitOn '/').filter (· ≠ []))

def fanoutExceeded {α : Type} (maxFanout : Nat) : Except HttpError α :=
  badRequest
    s!"$apply navigation expansion exceeds the configured limit of {maxFanout} combinations."

/-- The values of paths over the same relations at the end of these. -/
def assignPaths (paths : List NavigationPath) (target : Cell) (variant : Variant) : Variant :=
  paths.foldl (fun values path =>
    assign values path.originalPath (resolvePropertyFromTarget target path.propertyPath)) variant

/-- The variants are pushed one by one. -/
def pushVariants (maxFanout : Nat) (paths : List NavigationPath) :
    List (Variant × Cell) → List Variant → Except HttpError (List Variant)
  | [], next => .ok next
  | (variant, target) :: rest, next =>
    let values := assignPaths paths target variant
    if (next ++ [values]).length > maxFanout then fanoutExceeded maxFanout
    else pushVariants maxFanout paths rest (next ++ [values])

def expandGroups (maxFanout : Nat) (row : Cell) :
    List (List NavigationPath) → List Variant → Except HttpError (List Variant)
  | [], variants => if variants.length > maxFanout then fanoutExceeded maxFanout else .ok variants
  | paths :: groups, variants => do
    let targets := collectNavigationTargets row ((paths.head?.map NavigationPath.joins).getD [])
    let safeTargets := if targets = [] then [.undefined] else targets
    let next ← pushVariants maxFanout paths
      (variants.flatMap fun variant => safeTargets.map fun target => (variant, target)) []
    expandGroups maxFanout row groups next

def expandNavigationVariants (maxFanout : Nat) (row : Cell)
    (groups : Dictionary Text (List NavigationPath)) : Except HttpError (List Variant) :=
  expandGroups maxFanout row (groups.map Prod.snd) [Dictionary.empty]

def extractPathValues (source : Cell) : List Text → List Cell
  | [] => [source]
  | segment :: segments =>
    if source.isNullish then [.undefined]
    else match source.get segment with
      | .array [] _ => [.undefined]
      | .array entries _ => entries.flatMap fun entry => extractPathValues entry segments
      | next => extractPathValues next segments

def resolveVariantValue (row : Cell) (variant : Variant) (path : Text) : Cell :=
  match variant.get path with
  | some value => value
  | none =>
    if path = [] then .undefined
    else if '/' ∉ path then row.get path
    else (extractPathValues row (path.splitOn '/')).headD .undefined

/-! ## Accumulators -/

inductive AggregationOperator where
  | sum | average | min | max | count | countdistinct
  deriving DecidableEq, Repr

/-- An aggregate; the value of a computed operand is that of `evaluateComputeNode`. -/
structure AggregationExpression where
  field : Option Text
  expression : Option (Cell → Variant → Cell)
  operator : AggregationOperator
  aliasName : Text

structure AggregationSpec where
  groupBy : List Text
  aggregates : List AggregationExpression

structure ApplyAggregationStage where
  spec : AggregationSpec
  navigationPaths : NavigationPaths

def evaluateAggregateOperand (aggregate : AggregationExpression) (row : Cell) (variant : Variant) :
    Cell :=
  match aggregate.expression with
  | some expression => expression row variant
  | none => match aggregate.field with
    | none => .undefined
    | some field => if field = [] then .undefined else resolveVariantValue row variant field

structure AccumulatorState where
  operator : AggregationOperator
  sum : Option Rat
  count : Option Nat
  min : Option Rat
  max : Option Rat
  distinct : Option (List Cell)

/-- `Number(value)`, where that is finite. An array is read by its only item. -/
def toNumber : Cell → Option Rat
  | .undefined => none
  | .null => some 0
  | .bool b => some (if b then 1 else 0)
  | .number q => some q
  | .string s => finiteNumber s
  | .date ms _ => some ms
  | .array [] _ => some 0
  | .array [.undefined] _ => some 0
  | .array [.null] _ => some 0
  | .array [.number q] _ => some q
  | .array [.string s] _ => finiteNumber s
  | .array [.array items object] _ => toNumber (.array items object)
  | .array _ _ => none
  | .record _ _ => none

/-- A value that is the same, or the same object, is not added again. -/
def addToSet (set : List Cell) (value : Cell) : List Cell :=
  if value ∈ set then set else set ++ [value]

def createAccumulatorState (operator : AggregationOperator) : AccumulatorState where
  operator := operator
  sum := if operator = .sum ∨ operator = .average then some 0 else none
  count := if operator = .count ∨ operator = .average then some 0 else none
  min := none
  max := none
  distinct := if operator = .countdistinct then some [] else none

def updateAccumulatorState (state : AccumulatorState) (rawValue : Cell) : AccumulatorState :=
  match state.operator with
  | .sum => match toNumber rawValue with
    | some num => { state with sum := some (state.sum.getD 0 + num) }
    | none => state
  | .average => match toNumber rawValue with
    | some num =>
      { state with sum := some (state.sum.getD 0 + num), count := some (state.count.getD 0 + 1) }
    | none => state
  | .min => match toNumber rawValue with
    | some num => { state with min := some (state.min.elim num fun least => Min.min least num) }
    | none => state
  | .max => match toNumber rawValue with
    | some num => { state with max := some (state.max.elim num fun most => Max.max most num) }
    | none => state
  | .count => { state with count := some (state.count.getD 0 + 1) }
  | .countdistinct => { state with distinct := some (addToSet (state.distinct.getD []) rawValue) }

def finalizeAccumulatorState (state : AccumulatorState) : Cell :=
  match state.operator with
  | .sum => .number (state.sum.getD 0)
  | .average =>
    if state.count.getD 0 = 0 then .null else .number (state.sum.getD 0 / state.count.getD 0)
  | .min => state.min.elim .null .number
  | .max => state.max.elim .null .number
  | .count => .number (state.count.getD 0)
  | .countdistinct => .number (state.distinct.getD []).length

/-! ## Groups -/

/-- A group that is being accumulated. -/
structure GroupEntry where
  groupValues : Record
  aggregates : Dictionary Text AccumulatorState

section Execution

variable (texts : JsonTexts) (spec : AggregationSpec)

def groupValuesOf (row : Cell) (variant : Variant) : Record :=
  spec.groupBy.foldl (fun values field =>
    assign values field (resolveVariantValue row variant field)) Dictionary.empty

def groupKey (row : Cell) (variant : Variant) : Text :=
  stringifyItems texts (spec.groupBy.map (resolveVariantValue row variant))

def newEntry (row : Cell) (variant : Variant) : GroupEntry where
  groupValues := groupValuesOf spec row variant
  aggregates := spec.aggregates.foldl (fun aggregates aggregate =>
    assign aggregates aggregate.aliasName (createAccumulatorState aggregate.operator))
    Dictionary.empty

def updateEntry (entry : GroupEntry) (row : Cell) (variant : Variant) : GroupEntry :=
  { entry with
    aggregates := spec.aggregates.foldl (fun aggregates aggregate =>
      match aggregates.get aggregate.aliasName with
      | some state => aggregates.set aggregate.aliasName
        (updateAccumulatorState state (evaluateAggregateOperand aggregate row variant))
      | none => aggregates) entry.aggregates }

def addVariant (groupMap : Dictionary Text GroupEntry) (row : Cell) (variant : Variant) :
    Dictionary Text GroupEntry :=
  let key := groupKey texts spec row variant
  groupMap.set key
    (updateEntry spec ((groupMap.get key).getD (newEntry spec row variant)) row variant)

def addRows (maxFanout : Nat) (navigationGroups : Dictionary Text (List NavigationPath)) :
    List Cell → Dictionary Text GroupEntry → Except HttpError (Dictionary Text GroupEntry)
  | [], groupMap => .ok groupMap
  | row :: rows, groupMap => do
    let variants ← expandNavigationVariants maxFanout row navigationGroups
    let variantList := if variants = [] then [Dictionary.empty] else variants
    addRows maxFanout navigationGroups rows
      (variantList.foldl (fun groupMap variant => addVariant texts spec groupMap row variant)
        groupMap)

def finalizeEntry (entry : GroupEntry) : Record :=
  (entry.groupValues ++ entry.aggregates.map fun pair =>
    (pair.1, finalizeAccumulatorState pair.2)).foldl
      (fun record pair => assign record pair.1 pair.2) Dictionary.empty

end Execution

def executeAggregation (texts : JsonTexts) (maxFanout : Nat) (stage : ApplyAggregationStage)
    (rows : List Cell) : Except HttpError (List Record) := do
  let navigationGroups := groupNavigationPaths stage.navigationPaths.paths
  let groupMap ← addRows texts stage.spec maxFanout navigationGroups rows Dictionary.empty
  return groupMap.map fun pair => finalizeEntry pair.2

end Aggregation

end LoopbackOData
