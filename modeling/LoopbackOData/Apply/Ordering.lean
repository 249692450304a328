import LoopbackOData.Apply.Paging
import LoopbackOData.Library.Preorders

/-!
# The order of rows in memory

Whether the rows of `$apply` are sorted by the natural order of their columns. Bigints are among the
values here.
-/

namespace LoopbackOData

namespace Apply

open Preorders

set_option autoImplicit false

/-! ## Rows -/

/-- A value of a row in memory. -/
inductive Cell where
  | scalar (v : Scalar)
  | bigint (i : Int)
  deriving DecidableEq

abbrev CellRow := Text → Cell

def Cell.isNullish : Cell → Bool
  | .scalar v => v.isNullish
  | .bigint _ => false

/-- The clause that a plan's item of `orderby` is passed on as. -/
def orderClause (item : OrderDescriptor) : Text := item.field ++ ' ' :: item.direction.text

/-- The field and the direction of a clause. -/
def parseOrderClause (clause : Text) : Option OrderDescriptor :=
  match splitSpaces clause with
  | [] => none
  | field :: direction =>
    some ⟨field, if direction.head?.map asciiUpper = some Direction.desc.text then .desc else .asc⟩

section Order

variable (rt : TokenRuntime)

/-- `String(value)`. -/
def Cell.text : Cell → Text
  | .scalar v => textOf rt v
  | .bigint i => (toString i).toList

/-- One field in the comparison of `orderResults`. -/
def orderCells (a b : Cell) : Ordering :=
  if a = b then .eq
  else if a.isNullish then .gt
  else if b.isNullish then .lt
  else match a, b with
    | .scalar (.num q), .scalar (.num r) => compare q r
    | _, _ => compareText (a.text rt) (b.text rt)

/-- Rows in the order of a comparison of their values, field by field. -/
def compareRows (compare : Cell → Cell → Ordering) :
    List OrderDescriptor → CellRow → CellRow → Ordering
  | [], _, _ => .eq
  | item :: rest, a, b =>
    (directed item.direction (compare (a item.field) (b item.field))).then
      (compareRows compare rest a b)

/-- `orderResults`; without descriptors the comparison leaves the rows as they are. -/
def orderRows (rows : List CellRow) (order : List Text) : List CellRow :=
  rows.mergeSort fun a b => compareRows (orderCells rt) (order.filterMap parseOrderClause) a b != .gt

theorem orderCells_scalar (a b : Scalar) :
    orderCells rt (.scalar a) (.scalar b) = orderValues rt a b := by
  unfold orderCells orderValues
  by_cases h : a = b
  · rw [if_pos (congrArg Cell.scalar h), if_pos h]
  · rw [if_neg fun heq => h (Cell.scalar.inj heq), if_neg h]
    cases a <;> cases b <;> rfl

end Order

/-! ## The natural order -/

/-- The type of a column. -/
inductive ColumnType where
  | number
  | string
  | boolean
  | date
  | bigint

/-- The values of a column, `null` and `undefined` among them. -/
inductive HasType : ColumnType → Cell → Prop where
  | undefined (type : ColumnType) : HasType type (.scalar .undefined)
  | null (type : ColumnType) : HasType type (.scalar .null)
  | number (q : Rat) : HasType .number (.scalar (.num q))
  | string (s : Text) : HasType .string (.scalar (.str s))
  | boolean (b : Bool) : HasType .boolean (.scalar (.bool b))
  | date (ms : Int) : HasType .date (.scalar (.date ms))
  | bigint (i : Int) : HasType .bigint (.bigint i)

/-- Values of one type in their natural order, no value after all values. -/
def naturalOrder : Cell → Cell → Ordering
  | .scalar (.num q), .scalar (.num r) => compare q r
  | .scalar (.str s), .scalar (.str t) => compareText s t
  | .scalar (.bool b), .scalar (.bool c) => compare b c
  | .scalar (.date s), .scalar (.date t) => compare s t
  | .bigint i, .bigint j => compare i j
  | a, b =>
    if a.isNullish then (if b.isNullish then .eq else .gt) else if b.isNullish then .lt else .eq

section Places

variable {β : Type} [LinearOrder β]

theorem compare_coe (x y : β) : compare (x : WithTop β) y = compare x y := by
  cases h : compare x y with
  | lt =>
    rw [compare_lt_iff_lt] at h ⊢
    exact WithTop.coe_lt_coe.mpr h
  | eq =>
    rw [compare_eq_iff_eq] at h ⊢
    exact congrArg _ h
  | gt =>
    rw [compare_gt_iff_gt] at h ⊢
    exact WithTop.coe_lt_coe.mpr h

theorem naturalOrder_nullish {a b : Cell} (h : a.isNullish = true ∨ b.isNullish = true) :
    naturalOrder a b = if a.isNullish then (if b.isNullish then .eq else .gt)
      else if b.isNullish then .lt else .eq := by
  unfold naturalOrder
  split <;> simp_all [Cell.isNullish, Scalar.isNullish]

/-- Where the values of a type have a place in a linear order, no value is at its end. -/
theorem preorderOn_naturalOrder {γ : Type} {type : ColumnType} (make : γ → Cell) (rank : γ → β)
    (hinj : Function.Injective make) (hvalue : ∀ x, (make x).isNullish = false)
    (hmade : ∀ a, HasType type a → a.isNullish = true ∨ ∃ x, a = make x)
    (horder : ∀ x y, naturalOrder (make x) (make y) = compare (rank x) (rank y)) :
    PreorderOn (HasType type) naturalOrder := by
  classical
  let place (a : Cell) : WithTop β := if h : ∃ x, a = make x then rank h.choose else ⊤
  have hplace (x : γ) : place (make x) = rank x := by
    have h : ∃ y, make x = make y := ⟨x, rfl⟩
    have hchoose : h.choose = x := hinj h.choose_spec.symm
    simp only [place, dif_pos h, hchoose]
  have hend {a : Cell} (ha : a.isNullish = true) : place a = ⊤ := by
    have h : ¬ ∃ x, a = make x := by
      rintro ⟨x, rfl⟩
      rw [hvalue] at ha
      cases ha
    simp only [place, dif_neg h]
  refine PreorderOn.of_key place fun a b ha hb => ?_
  rcases hmade a ha with hnull | ⟨x, rfl⟩
  · rw [naturalOrder_nullish (.inl hnull), if_pos hnull, hend hnull]
    rcases hmade b hb with hnull' | ⟨y, rfl⟩
    · rw [if_pos hnull', hend hnull']
      exact (compare_eq_iff_eq.mpr rfl).symm
    · rw [hvalue, hplace]
      exact (compare_gt_iff_gt.mpr (WithTop.coe_lt_top _)).symm
  · rcases hmade b hb with hnull' | ⟨y, rfl⟩
    · rw [naturalOrder_nullish (.inr hnull'), hvalue, if_neg (by decide), if_pos hnull', hplace,
        hend hnull', eq_comm, compare_lt_iff_lt]
      exact WithTop.coe_lt_top _
    · rw [horder, hplace, hplace, compare_coe]

end Places

theorem compareText_eq (s t : Text) : compareText s t =
    @compare (List Nat) LinearOrder.toOrd (s.flatMap utf16) (t.flatMap utf16) := by
  rw [LinearOrder.compare_eq_compareOfLessAndEq]
  unfold compareText compareOfLessAndEq
  congr

/-- The natural order of each type is a total preorder, no value at its end. -/
theorem naturalOrder_preorderOn (type : ColumnType) : PreorderOn (HasType type) naturalOrder := by
  cases type with
  | number =>
    refine preorderOn_naturalOrder (fun q => .scalar (.num q)) id ?_ (fun _ => rfl) ?_
      fun _ _ => rfl
    · exact fun q r h => Scalar.num.inj (Cell.scalar.inj h)
    · rintro a (_ | _ | q)
      · exact .inl rfl
      · exact .inl rfl
      · exact .inr ⟨q, rfl⟩
  | string =>
    refine preorderOn_naturalOrder (fun s => .scalar (.str s)) (fun s => s.flatMap utf16) ?_
      (fun _ => rfl) ?_ compareText_eq
    · exact fun s t h => Scalar.str.inj (Cell.scalar.inj h)
    · rintro a (_ | _ | s)
      · exact .inl rfl
      · exact .inl rfl
      · exact .inr ⟨_, rfl⟩
  | boolean =>
    refine preorderOn_naturalOrder (fun b => .scalar (.bool b)) id ?_ (fun _ => rfl) ?_ ?_
    · exact fun b c h => Scalar.bool.inj (Cell.scalar.inj h)
    · rintro a (_ | _ | b)
      · exact .inl rfl
      · exact .inl rfl
      · exact .inr ⟨_, rfl⟩
    · decide
  | date =>
    refine preorderOn_naturalOrder (fun ms => .scalar (.date ms)) id ?_ (fun _ => rfl) ?_
      fun _ _ => rfl
    · exact fun s t h => Scalar.date.inj (Cell.scalar.inj h)
    · rintro a (_ | _ | ms)
      · exact .inl rfl
      · exact .inl rfl
      · exact .inr ⟨_, rfl⟩
  | bigint =>
    refine preorderOn_naturalOrder (fun i => .bigint i) id ?_ (fun _ => rfl) ?_ fun _ _ => rfl
    · exact fun i j h => Cell.bigint.inj h
    · rintro a (_ | _ | i)
      · exact .inl rfl
      · exact .inl rfl
      · exact .inr ⟨_, rfl⟩

/-! ## Sorting -/

/-- The rows have values of one type in a column. -/
def IsColumn (rows : List CellRow) (field : Text) : Prop :=
  ∃ type, ∀ row ∈ rows, HasType type (row field)

/-- The values of a column that the comparison tells apart as the natural order does: not both
`null` and `undefined` among them, dates whose texts are in the order of their times, and bigints whose
digits are in the order of their numbers. -/
structure ComparesColumn (rt : TokenRuntime) (values : List Cell) : Prop where
  nullish : ¬ (.scalar .null ∈ values ∧ .scalar .undefined ∈ values)
  date : ∀ s t : Int, .scalar (.date s) ∈ values → .scalar (.date t) ∈ values →
    compareText (rt.dateText s) (rt.dateText t) = compare s t
  bigint : ∀ i j : Int, .bigint i ∈ values → .bigint j ∈ values →
    compareText (toString i).toList (toString j).toList = compare i j

/-- The comparison of `orderResults` is the natural order of the items in their priority, which is a
total preorder of the rows, and the result is sorted by it. -/
structure SortsNaturally (rt : TokenRuntime) (rows : List CellRow)
    (items : List OrderDescriptor) : Prop where
  natural : ∀ a ∈ rows, ∀ b ∈ rows,
    compareRows (orderCells rt) items a b = compareRows naturalOrder items a b
  preorder : PreorderOn (· ∈ rows) (compareRows (orderCells rt) items)
  sorted : SortedBy (compareRows naturalOrder items) rows
    (orderRows rt rows (items.map orderClause))

theorem compareText_self (s : Text) : compareText s s = .eq := by
  rw [compareText_eq]
  exact compare_eq_iff_eq.mpr rfl

theorem orderCells_self (rt : TokenRuntime) (a : Cell) : orderCells rt a a = .eq := by
  unfold orderCells
  rw [if_pos rfl]

/-- Values of one type compare as in the natural order but for those named. -/
theorem orderCells_eq_natural {rt : TokenRuntime} {type : ColumnType} {a b : Cell}
    (ha : HasType type a) (hb : HasType type b)
    (hnullish : ¬ (a = .scalar .null ∧ b = .scalar .undefined) ∧
      ¬ (a = .scalar .undefined ∧ b = .scalar .null))
    (hdate : ∀ s t : Int, a = .scalar (.date s) → b = .scalar (.date t) →
      compareText (rt.dateText s) (rt.dateText t) = compare s t)
    (hbigint : ∀ i j : Int, a = .bigint i → b = .bigint j →
      compareText (toString i).toList (toString j).toList = compare i j) :
    orderCells rt a b = naturalOrder a b := by
  by_cases heq : a = b
  · subst heq
    rw [orderCells_self, (naturalOrder_preorderOn type).self ha]
  · unfold orderCells
    rw [if_neg heq]
    cases ha with
    | undefined =>
      cases hb with
      | undefined => exact absurd rfl heq
      | null => exact absurd ⟨rfl, rfl⟩ hnullish.2
      | _ => rfl
    | null =>
      cases hb with
      | undefined => exact absurd ⟨rfl, rfl⟩ hnullish.1
      | null => exact absurd rfl heq
      | _ => rfl
    | number q => cases hb <;> rfl
    | string s => cases hb <;> rfl
    | boolean b =>
      cases hb with
      | boolean c =>
        cases b with
        | false =>
          cases c with
          | false => exact absurd rfl heq
          | true =>
            change compareText "false".toList "true".toList = .lt
            decide
        | true =>
          cases c with
          | false =>
            change compareText "true".toList "false".toList = .gt
            decide
          | true => exact absurd rfl heq
      | _ => rfl
    | date s =>
      cases hb with
      | date t => exact hdate s t rfl rfl
      | _ => rfl
    | bigint i =>
      cases hb with
      | bigint j => exact hbigint i j rfl rfl
      | _ => rfl

/-! ## Clauses -/

/-- The name of a column in an item of `orderby`: what was split off at spaces. -/
def IsFieldName (field : Text) : Prop := field ≠ [] ∧ ∀ c ∈ field, isSpace c = false

theorem parseOrderClause_orderClause {item : OrderDescriptor} (h : IsFieldName item.field) :
    parseOrderClause (orderClause item) = some item := by
  have hdirection : ∀ direction : Direction, direction.text ≠ [] ∧
      ∀ c ∈ direction.text, isSpace c = false := by
    rintro (_ | _)
    · decide
    · decide
  obtain ⟨hne, hspace⟩ := hdirection item.direction
  have hwords : splitSpaces (orderClause item) = [item.field, item.direction.text] := by
    rw [splitSpaces, orderClause, List.splitOnP_append_cons _ _ (by decide),
      List.splitOnP_eq_singleton h.2, List.splitOnP_eq_singleton hspace]
    simp [h.1, hne]
  unfold parseOrderClause
  simp only [hwords, List.head?_cons]
  obtain ⟨field, direction⟩ := item
  cases direction with
  | asc => rfl
  | desc => rfl

theorem filterMap_orderClause {items : List OrderDescriptor}
    (h : ∀ item ∈ items, IsFieldName item.field) :
    (items.map orderClause).filterMap parseOrderClause = items := by
  induction items with
  | nil => rfl
  | cons item items ih =>
    rw [List.map_cons,
      List.filterMap_cons_some (parseOrderClause_orderClause (h item List.mem_cons_self)),
      ih fun item hitem => h item (List.mem_cons_of_mem _ hitem)]

/-! ## Comparing rows -/

theorem directed_inj {direction : Direction} {o o' : Ordering}
    (h : directed direction o = directed direction o') : o = o' := by
  cases direction with
  | asc => exact h
  | desc => exact Ordering.swap_inj.mp h

theorem compareRows_preorderOn {cmp : Cell → Cell → Ordering} {P : CellRow → Prop}
    {items : List OrderDescriptor}
    (h : ∀ item ∈ items, PreorderOn P fun a b => cmp (a item.field) (b item.field)) :
    PreorderOn P (compareRows cmp items) := by
  induction items with
  | nil => exact ⟨fun _ _ => rfl, fun _ _ _ hab _ => hab⟩
  | cons item items ih =>
    have hrest := ih fun item hitem => h item (List.mem_cons_of_mem _ hitem)
    have hitem := h item List.mem_cons_self
    have hfirst : PreorderOn P fun a b =>
        directed item.direction (cmp (a item.field) (b item.field)) := by
      cases item.direction with
      | asc => exact hitem
      | desc => exact hitem.opposite
    exact hfirst.lex hrest

theorem compareRows_congr {cmp cmp' : Cell → Cell → Ordering} {items : List OrderDescriptor}
    {a b : CellRow} (h : ∀ item ∈ items, cmp (a item.field) (b item.field) =
      cmp' (a item.field) (b item.field)) :
    compareRows cmp items a b = compareRows cmp' items a b := by
  induction items with
  | nil => rfl
  | cons item items ih =>
    rw [compareRows, compareRows, h item List.mem_cons_self,
      ih fun item hitem => h item (List.mem_cons_of_mem _ hitem)]

theorem mergeSort_congr {α : Type} {le le' : α → α → Bool} {l : List α}
    (h : ∀ a ∈ l, ∀ b ∈ l, le a b = le' a b) : l.mergeSort le = l.mergeSort le' := by
  have hmap := List.map_mergeSort (f := id) h
  rwa [List.map_id, List.map_id] at hmap

/-- The natural order of the rows of columns. -/
theorem preorderOn_rows {rows : List CellRow} {items : List OrderDescriptor}
    (h : ∀ item ∈ items, IsColumn rows item.field) :
    PreorderOn (· ∈ rows) (compareRows naturalOrder items) := by
  refine compareRows_preorderOn fun item hitem => ?_
  obtain ⟨type, htype⟩ := h item hitem
  have hcolumn := (naturalOrder_preorderOn type).comap fun row : CellRow => row item.field
  exact ⟨fun ha hb => hcolumn.swap (htype _ ha) (htype _ hb),
    fun ha hb hc => hcolumn.trans (htype _ ha) (htype _ hb) (htype _ hc)⟩

theorem orderCells_of_comparesColumn {rt : TokenRuntime} {rows : List CellRow} {field : Text}
    (hcolumn : IsColumn rows field) (h : ComparesColumn rt (rows.map (· field))) {a b : CellRow}
    (ha : a ∈ rows) (hb : b ∈ rows) :
    orderCells rt (a field) (b field) = naturalOrder (a field) (b field) := by
  obtain ⟨type, htype⟩ := hcolumn
  have hmem {row : CellRow} (hrow : row ∈ rows) {cell : Cell} (hcell : row field = cell) :
      cell ∈ rows.map (· field) := List.mem_map.mpr ⟨row, hrow, hcell⟩
  refine orderCells_eq_natural (htype a ha) (htype b hb) ⟨?_, ?_⟩ ?_ ?_
  · rintro ⟨hnull, hundefined⟩
    exact h.nullish ⟨hmem ha hnull, hmem hb hundefined⟩
  · rintro ⟨hundefined, hnull⟩
    exact h.nullish ⟨hmem hb hnull, hmem ha hundefined⟩
  · exact fun s t hs ht => h.date s t (hmem ha hs) (hmem hb ht)
  · exact fun i j hi hj => h.bigint i j (hmem ha hi) (hmem hb hj)

/-- One item compares the values of its column. -/
theorem compareRows_single (cmp : Cell → Cell → Ordering) (field : Text) (a b : CellRow) :
    compareRows cmp [⟨field, .asc⟩] a b = cmp (a field) (b field) :=
  Ordering.then_eq

theorem comparesColumn_of_natural {rt : TokenRuntime} {rows : List CellRow} {field : Text}
    (h : ∀ a ∈ rows, ∀ b ∈ rows,
      orderCells rt (a field) (b field) = naturalOrder (a field) (b field)) :
    ComparesColumn rt (rows.map (· field)) := by
  have hvalues : ∀ v ∈ rows.map (· field), ∀ w ∈ rows.map (· field),
      orderCells rt v w = naturalOrder v w := by
    intro v hv w hw
    obtain ⟨a, ha, rfl⟩ := List.mem_map.mp hv
    obtain ⟨b, hb, rfl⟩ := List.mem_map.mp hw
    exact h a ha b hb
  constructor
  · rintro ⟨hnull, hundefined⟩
    have horder : Ordering.gt = .eq := hvalues _ hnull _ hundefined
    cases horder
  · intro s t hs ht
    by_cases heq : s = t
    · subst heq
      rw [compareText_self]
      exact (compare_eq_iff_eq.mpr rfl).symm
    · have horder := hvalues _ hs _ ht
      unfold orderCells at horder
      rw [if_neg (by simpa using heq)] at horder
      exact horder
  · intro i j hi hj
    by_cases heq : i = j
    · subst heq
      rw [compareText_self]
      exact (compare_eq_iff_eq.mpr rfl).symm
    · have horder := hvalues _ hi _ hj
      unfold orderCells at horder
      rw [if_neg (by simpa using heq)] at horder
      exact horder

/-- The rows are sorted naturally by every list of items over their columns just when the values of
each column are told apart as the natural order does. -/
theorem orderResults_sorts_iff (rt : TokenRuntime) {rows : List CellRow} {fields : List Text}
    (hnames : ∀ field ∈ fields, IsFieldName field) (hcolumns : ∀ field ∈ fields, IsColumn rows field) :
    (∀ items : List OrderDescriptor, (∀ item ∈ items, item.field ∈ fields) →
      SortsNaturally rt rows items) ↔
    ∀ field ∈ fields, ComparesColumn rt (rows.map (· field)) := by
  constructor
  · intro h field hfield
    refine comparesColumn_of_natural fun a ha b hb => ?_
    have hsorts := h [⟨field, .asc⟩] fun item hitem => by
      rw [List.mem_singleton.mp hitem]
      exact hfield
    have hnatural := hsorts.natural a ha b hb
    rwa [compareRows_single, compareRows_single] at hnatural
  · intro h items hitems
    have hpreorder := preorderOn_rows fun item hitem => hcolumns _ (hitems item hitem)
    have hnatural : ∀ a ∈ rows, ∀ b ∈ rows,
        compareRows (orderCells rt) items a b = compareRows naturalOrder items a b :=
      fun a ha b hb => compareRows_congr fun item hitem =>
        orderCells_of_comparesColumn (hcolumns _ (hitems item hitem)) (h _ (hitems item hitem)) ha hb
    refine ⟨hnatural, hpreorder.congr fun a b ha hb => hnatural a ha b hb, ?_⟩
    rw [orderRows, filterMap_orderClause fun item hitem => hnames _ (hitems item hitem)]
    rw [@mergeSort_congr _ _ (fun a b => compareRows naturalOrder items a b != .gt) _
      fun a ha b hb => by rw [hnatural a ha b hb]]
    exact hpreorder.sortedBy_mergeSort fun a ha => ha

/-- A row with one column. -/
def rowOf (field : Text) (cell : Cell) : CellRow := fun name =>
  if name = field then cell else .scalar .undefined

/-- A server that runs in a time zone where no date is asked for. -/
def integerRuntime : TokenRuntime where
  toRuntime := Runtime.ascii
  numberOf text := (readDecimal text).map DecimalText.value
  dateOf _ := none
  dateText _ := "Invalid Date".toList

theorem orderResults_sorts_iff_numbers :
    let rows := [rowOf ['n'] (.scalar (.num 2)), rowOf ['n'] (.scalar .null),
      rowOf ['n'] (.scalar (.num 1))]
    (∀ field ∈ [['n']], IsFieldName field) ∧ (∀ field ∈ [['n']], IsColumn rows field) ∧
    ((∀ items : List OrderDescriptor, (∀ item ∈ items, item.field ∈ [['n']]) →
      SortsNaturally integerRuntime rows items) ↔
    ∀ field ∈ [['n']], ComparesColumn integerRuntime (rows.map (· field))) := by
  have hnames : ∀ field ∈ [['n']], IsFieldName field := by
    intro field hfield
    rw [List.mem_singleton.mp hfield]
    exact ⟨by decide, by decide⟩
  have hcolumns : ∀ field ∈ [['n']], IsColumn [rowOf ['n'] (.scalar (.num 2)),
      rowOf ['n'] (.scalar .null), rowOf ['n'] (.scalar (.num 1))] field := by
    intro field hfield
    rw [List.mem_singleton.mp hfield]
    refine ⟨.number, fun row hrow => ?_⟩
    simp only [List.mem_cons, List.not_mem_nil, or_false] at hrow
    rcases hrow with rfl | rfl | rfl
    · exact .number 2
    · exact .null _
    · exact .number 1
  exact ⟨hnames, hcolumns, orderResults_sorts_iff integerRuntime hnames hcolumns⟩

/-- The bigint 10 is put before 9. -/
theorem not_sortsNaturally_bigints :
    ¬ ∀ (rt : TokenRuntime) (rows : List CellRow) (fields : List Text),
      (∀ field ∈ fields, IsFieldName field) → (∀ field ∈ fields, IsColumn rows field) →
      ∀ items : List OrderDescriptor, (∀ item ∈ items, item.field ∈ fields) →
        SortsNaturally rt rows items := by
  intro h
  have hsorts := h integerRuntime [rowOf ['n'] (.bigint 9), rowOf ['n'] (.bigint 10)] [['n']]
    (by
      intro field hfield
      rw [List.mem_singleton.mp hfield]
      exact ⟨by decide, by decide⟩)
    (by
      intro field hfield
      rw [List.mem_singleton.mp hfield]
      refine ⟨.bigint, fun row hrow => ?_⟩
      simp only [List.mem_cons, List.not_mem_nil, or_false] at hrow
      rcases hrow with rfl | rfl
      · exact .bigint 9
      · exact .bigint 10)
    [⟨['n'], .asc⟩] (by decide)
  have hnatural := hsorts.natural _ List.mem_cons_self _ (List.mem_cons_of_mem _ List.mem_cons_self)
  rw [compareRows_single, compareRows_single] at hnatural
  exact absurd hnatural (by decide)

/-! ## Rows without bigints -/

/-- Such rows are sorted as the paging of `$apply` sorts them. -/
theorem orderRows_scalar (rt : TokenRuntime) (rows : List Row) {items : List OrderDescriptor}
    (h : ∀ item ∈ items, IsFieldName item.field) :
    orderRows rt (rows.map fun row field => .scalar (row field)) (items.map orderClause) =
      (orderResults rt rows items).map fun row field => .scalar (row field) := by
  have hcompare (a b : Row) : compareRows (orderCells rt) items (fun field => .scalar (a field))
      (fun field => .scalar (b field)) = orderBy (orderValues rt) items a b := by
    induction items with
    | nil => rfl
    | cons item items ih =>
      rw [compareRows, orderBy, orderCells_scalar,
        ih fun item hitem => h item (List.mem_cons_of_mem _ hitem)]
  rw [orderRows, filterMap_orderClause h, orderResults, sortBy]
  exact (List.map_mergeSort fun a _ b _ => by rw [hcompare]).symm

end Apply

end LoopbackOData
