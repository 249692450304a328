import LoopbackOData.Apply.Aggregation

/-!
# Accumulators

What the operators of an aggregation give for the operands of a group, and the operands for which
the accumulators give that. Null counts as zero, a sum of nothing is zero, and the least of dates
or of strings is the least of the numbers they are read as.
-/

namespace LoopbackOData

namespace Aggregation

set_option autoImplicit false

/-! ## Values -/

mutual

/-- The value without the identity of its objects. A missing value is null. -/
def Cell.plain : Cell → Cell
  | .undefined => .null
  | .null => .null
  | .bool b => .bool b
  | .number q => .number q
  | .string s => .string s
  | .date ms _ => .date ms 0
  | .array items _ => .array (plainItems items) 0
  | .record fields _ => .record (plainFields fields) 0

def plainItems : List Cell → List Cell
  | [] => []
  | item :: items => item.plain :: plainItems items

def plainFields : List (Text × Cell) → List (Text × Cell)
  | [] => []
  | (name, value) :: fields =>
    if value = .undefined then plainFields fields else (name, value.plain) :: plainFields fields

end

/-- The natural order of numbers, of dates and of strings. -/
def Cell.AtMost : Cell → Cell → Prop
  | .number q, .number r => q ≤ r
  | .date ms _, .date ms' _ => ms ≤ ms'
  | .string s, .string t => s ≤ t
  | _, _ => False

def nonNull (operands : List Cell) : List Cell := operands.filter fun operand => !operand.isNullish

/-! ## Reference -/

/-- What an operator gives for the operands of a group. Nothing is said of a sum of other values
than numbers and of the least of values without an order. -/
def IsAggregate (operator : AggregationOperator) (operands : List Cell) (result : Cell) : Prop :=
  match operator with
  | .sum =>
    (nonNull operands = [] ∧ result = .null) ∨
      ∃ numbers : List Rat, numbers ≠ [] ∧ nonNull operands = numbers.map .number ∧
        result = .number numbers.sum
  | .average =>
    (nonNull operands = [] ∧ result = .null) ∨
      ∃ numbers : List Rat, numbers ≠ [] ∧ nonNull operands = numbers.map .number ∧
        result = .number (numbers.sum / numbers.length)
  | .min =>
    (nonNull operands = [] ∧ result = .null) ∨
      result ∈ nonNull operands ∧ ∀ operand ∈ nonNull operands, result.AtMost operand
  | .max =>
    (nonNull operands = [] ∧ result = .null) ∨
      result ∈ nonNull operands ∧ ∀ operand ∈ nonNull operands, operand.AtMost result
  | .count => result = .number operands.length
  | .countdistinct =>
    result = .number ((nonNull operands).map Cell.plain).toFinset.card

/-- The operands of a group that an operator deals with as it should. -/
def Suits (operator : AggregationOperator) (operands : List Cell) : Prop :=
  match operator with
  | .sum => nonNull operands ≠ []
  | .average =>
    .null ∉ operands ∨
      ∃ numbers : List Rat, numbers ≠ [] ∧ nonNull operands = numbers.map .number ∧
        numbers.sum = 0
  | .min =>
    (∀ operand ∈ nonNull operands, ∃ q, operand = .number q) ∧
      (.null ∉ operands ∨ ∃ q, q ≤ 0 ∧ .number q ∈ operands)
  | .max =>
    (∀ operand ∈ nonNull operands, ∃ q, operand = .number q) ∧
      (.null ∉ operands ∨ ∃ q, 0 ≤ q ∧ .number q ∈ operands)
  | .count => True
  | .countdistinct =>
    nonNull operands = operands ∧
      ∀ operand ∈ operands, ∀ operand' ∈ operands, operand.plain = operand'.plain →
        operand = operand'

/-! ## Accumulators -/

section Accumulators

/-- What an operator is computed to from the operands of a group. -/
def accumulated (operator : AggregationOperator) (operands : List Cell) : Cell :=
  finalizeAccumulatorState
    (operands.foldl updateAccumulatorState (createAccumulatorState operator))

theorem mem_nonNull {operands : List Cell} {c : Cell} :
    c ∈ nonNull operands ↔ c ∈ operands ∧ c.isNullish = false := by
  rw [nonNull, List.mem_filter, Bool.not_eq_true']

/-- The operands that cannot be read as numbers are left out. -/
theorem foldl_toNumber {state : AccumulatorState} {f : AccumulatorState → Rat → AccumulatorState}
    {P : AccumulatorState → Prop} (operands : List Cell) (hstate : P state)
    (hkeep : ∀ state num, P state → P (f state num))
    (h : ∀ state c, P state → updateAccumulatorState state c = (toNumber c).elim state (f state)) :
    operands.foldl updateAccumulatorState state = (operands.filterMap toNumber).foldl f state := by
  induction operands generalizing state with
  | nil => rfl
  | cons c operands ih =>
    rw [List.foldl_cons, h state c hstate]
    cases hc : toNumber c with
    | none =>
      rw [List.filterMap_cons_none hc]
      exact ih hstate
    | some num =>
      rw [List.filterMap_cons_some hc, List.foldl_cons]
      exact ih (hkeep state num hstate)

theorem foldl_sum (numbers : List Rat) (state : AccumulatorState) {s : Rat}
    (hs : state.sum = some s) :
    numbers.foldl (fun state num => { state with sum := some (state.sum.getD 0 + num) }) state =
      { state with sum := some (s + numbers.sum) } := by
  induction numbers generalizing state s with
  | nil =>
    rw [List.foldl_nil, List.sum_nil, add_zero, ← hs]
  | cons num numbers ih =>
    rw [List.foldl_cons, ih _ rfl, hs, Option.getD_some, List.sum_cons, ← add_assoc]

theorem accumulated_sum (operands : List Cell) :
    accumulated .sum operands = .number (operands.filterMap toNumber).sum := by
  have hfold := @foldl_toNumber (createAccumulatorState .sum)
    (fun state num => { state with sum := some (state.sum.getD 0 + num) })
    (fun state => state.operator = .sum) operands rfl (fun _ _ h => h) fun state c h => by
      unfold updateAccumulatorState
      rw [h]
      cases toNumber c <;> rfl
  rw [accumulated, hfold, foldl_sum _ _ (s := 0) rfl, zero_add]
  rfl

theorem foldl_average (numbers : List Rat) (state : AccumulatorState) {s : Rat} {n : Nat}
    (hs : state.sum = some s) (hn : state.count = some n) :
    numbers.foldl (fun state num => { state with
        sum := some (state.sum.getD 0 + num), count := some (state.count.getD 0 + 1) }) state =
      { state with sum := some (s + numbers.sum), count := some (n + numbers.length) } := by
  induction numbers generalizing state s n with
  | nil =>
    rw [List.foldl_nil, List.sum_nil, add_zero, List.length_nil, Nat.add_zero, ← hs, ← hn]
  | cons num numbers ih =>
    rw [List.foldl_cons, ih _ rfl rfl, hs, hn, Option.getD_some, Option.getD_some, List.sum_cons,
      ← add_assoc, List.length_cons, Nat.add_assoc n, Nat.add_comm 1]

theorem accumulated_average (operands : List Cell) :
    accumulated .average operands =
      if (operands.filterMap toNumber).length = 0 then .null
      else .number ((operands.filterMap toNumber).sum / (operands.filterMap toNumber).length) := by
  have hfold := @foldl_toNumber (createAccumulatorState .average)
    (fun state num => { state with
      sum := some (state.sum.getD 0 + num), count := some (state.count.getD 0 + 1) })
    (fun state => state.operator = .average) operands rfl (fun _ _ h => h) fun state c h => by
      unfold updateAccumulatorState
      rw [h]
      cases toNumber c <;> rfl
  rw [accumulated, hfold, foldl_average _ _ (s := 0) (n := 0) rfl rfl, zero_add, Nat.zero_add]
  rfl

/-- The first of numbers, by the choice of one of two. -/
theorem foldl_elim (choose : Rat → Rat → Rat) (numbers : List Rat) (first : Rat) :
    numbers.foldl (fun chosen num => some (Option.elim chosen num fun q => choose q num))
      (some first) = some (numbers.foldl choose first) := by
  induction numbers generalizing first with
  | nil => rfl
  | cons num numbers ih =>
    rw [List.foldl_cons, List.foldl_cons]
    exact ih _

theorem foldl_min (numbers : List Rat) (state : AccumulatorState) :
    numbers.foldl (fun state num => { state with
        min := some (state.min.elim num fun least => Min.min least num) }) state =
      { state with min := (numbers.foldl
          (fun least num => some (Option.elim least num fun q => Min.min q num)) state.min) } := by
  induction numbers generalizing state with
  | nil => rfl
  | cons num numbers ih => rw [List.foldl_cons, ih, List.foldl_cons]

theorem foldl_max (numbers : List Rat) (state : AccumulatorState) :
    numbers.foldl (fun state num => { state with
        max := some (state.max.elim num fun most => Max.max most num) }) state =
      { state with max := (numbers.foldl
          (fun most num => some (Option.elim most num fun q => Max.max q num)) state.max) } := by
  induction numbers generalizing state with
  | nil => rfl
  | cons num numbers ih => rw [List.foldl_cons, ih, List.foldl_cons]

theorem accumulated_min (operands : List Cell) :
    accumulated .min operands = (operands.filterMap toNumber).min?.elim .null .number := by
  have hfold := @foldl_toNumber (createAccumulatorState .min)
    (fun state num => { state with
      min := some (state.min.elim num fun least => Min.min least num) })
    (fun state => state.operator = .min) operands rfl (fun _ _ h => h) fun state c h => by
      unfold updateAccumulatorState
      rw [h]
      cases toNumber c <;> rfl
  rw [accumulated, hfold, foldl_min]
  cases operands.filterMap toNumber with
  | nil => rfl
  | cons num numbers =>
    rw [List.foldl_cons, foldl_elim]
    rfl

theorem accumulated_max (operands : List Cell) :
    accumulated .max operands = (operands.filterMap toNumber).max?.elim .null .number := by
  have hfold := @foldl_toNumber (createAccumulatorState .max)
    (fun state num => { state with
      max := some (state.max.elim num fun most => Max.max most num) })
    (fun state => state.operator = .max) operands rfl (fun _ _ h => h) fun state c h => by
      unfold updateAccumulatorState
      rw [h]
      cases toNumber c <;> rfl
  rw [accumulated, hfold, foldl_max]
  cases operands.filterMap toNumber with
  | nil => rfl
  | cons num numbers =>
    rw [List.foldl_cons, foldl_elim]
    rfl

theorem foldl_count (operands : List Cell) (state : AccumulatorState)
    (h : state.operator = .count) {n : Nat} (hn : state.count = some n) :
    operands.foldl updateAccumulatorState state =
      { state with count := some (n + operands.length) } := by
  induction operands generalizing state n with
  | nil => rw [List.foldl_nil, List.length_nil, Nat.add_zero, ← hn]
  | cons c operands ih =>
    have hstep : updateAccumulatorState state c = { state with count := some (n + 1) } := by
      unfold updateAccumulatorState
      simp only [h, hn, Option.getD_some]
    rw [List.foldl_cons, hstep, ih { state with count := some (n + 1) } h rfl, List.length_cons,
      Nat.add_assoc, Nat.add_comm 1]

theorem accumulated_count (operands : List Cell) :
    accumulated .count operands = .number operands.length := by
  rw [accumulated, foldl_count operands _ rfl (n := 0) rfl, Nat.zero_add]
  rfl

theorem addToSet_spec {set : List Cell} (hnodup : set.Nodup) (c : Cell) :
    (addToSet set c).Nodup ∧ (addToSet set c).toFinset = insert c set.toFinset := by
  rw [addToSet]
  split
  · next hmem => exact ⟨hnodup, (Finset.insert_eq_of_mem (List.mem_toFinset.mpr hmem)).symm⟩
  · next hnot =>
    refine ⟨List.nodup_append_comm.mp (List.nodup_cons.mpr ⟨hnot, hnodup⟩), ?_⟩
    rw [List.toFinset_append, List.toFinset_cons, List.toFinset_nil, Finset.union_comm]
    rfl

theorem foldl_countdistinct (operands : List Cell) (state : AccumulatorState)
    (h : state.operator = .countdistinct) {set : List Cell} (hset : state.distinct = some set)
    (hnodup : set.Nodup) :
    ∃ set', operands.foldl updateAccumulatorState state = { state with distinct := some set' } ∧
      set'.Nodup ∧ set'.toFinset = set.toFinset ∪ operands.toFinset := by
  induction operands generalizing state set with
  | nil => exact ⟨set, by rw [List.foldl_nil, ← hset], hnodup, by simp⟩
  | cons c operands ih =>
    obtain ⟨hadded, hinsert⟩ := addToSet_spec hnodup c
    have hstep : updateAccumulatorState state c =
        { state with distinct := some (addToSet set c) } := by
      unfold updateAccumulatorState
      simp only [h, hset, Option.getD_some]
    obtain ⟨set', hfold, hnodup', hunion⟩ :=
      ih { state with distinct := some (addToSet set c) } h rfl hadded
    refine ⟨set', by rw [List.foldl_cons, hstep, hfold], hnodup', ?_⟩
    rw [hunion, hinsert, List.toFinset_cons, Finset.insert_union, Finset.union_insert]

theorem accumulated_countdistinct (operands : List Cell) :
    accumulated .countdistinct operands = .number operands.toFinset.card := by
  obtain ⟨set, hfold, hnodup, hunion⟩ :=
    foldl_countdistinct operands (createAccumulatorState .countdistinct) rfl rfl List.nodup_nil
  rw [List.toFinset_nil, Finset.empty_union] at hunion
  rw [accumulated, hfold, ← hunion, List.toFinset_card_of_nodup hnodup]
  rfl


/-- The numbers that operands are read as, where those that are not null are numbers. -/
theorem filterMap_toNumber {operands : List Cell} {numbers : List Rat}
    (h : nonNull operands = numbers.map .number) :
    (operands.filterMap toNumber).sum = numbers.sum ∧
      (operands.filterMap toNumber).length = numbers.length + operands.count .null := by
  induction operands generalizing numbers with
  | nil =>
    obtain rfl := List.map_eq_nil_iff.mp h.symm
    exact ⟨rfl, rfl⟩
  | cons c operands ih =>
    cases hnullish : c.isNullish with
    | true =>
      rw [nonNull, List.filter_cons_of_neg (by simp [hnullish]), ← nonNull] at h
      obtain ⟨hsum, hlength⟩ := ih h
      by_cases hnull : c = .null
      · subst hnull
        rw [List.filterMap_cons_some (show toNumber .null = some 0 from rfl), List.sum_cons,
          List.length_cons, List.count_cons_self]
        exact ⟨by rw [hsum, zero_add], by omega⟩
      · have hnone : toNumber c = none := by
          cases c with
          | undefined => rfl
          | null => exact absurd rfl hnull
          | _ => cases hnullish
        rw [List.filterMap_cons_none hnone, List.count_cons_of_ne hnull]
        exact ⟨hsum, hlength⟩
    | false =>
      rw [nonNull, List.filter_cons_of_pos (by simp [hnullish]), ← nonNull] at h
      cases numbers with
      | nil => cases h
      | cons q numbers =>
        obtain ⟨rfl, hrest⟩ := List.cons.inj h
        obtain ⟨hsum, hlength⟩ := ih hrest
        rw [List.filterMap_cons_some (show toNumber (.number q) = some q from rfl), List.sum_cons,
          List.length_cons, List.count_cons_of_ne (by simp), List.sum_cons, List.length_cons]
        exact ⟨by rw [hsum], by omega⟩

theorem eq_null_or_number {operands : List Cell} (h : ∀ c ∈ nonNull operands, ∃ q, c = .number q)
    {c : Cell} (hmem : c ∈ operands) : c = .undefined ∨ c = .null ∨ ∃ q, c = .number q := by
  cases c with
  | undefined => exact .inl rfl
  | null => exact .inr (.inl rfl)
  | _ => exact .inr (.inr (h _ (mem_nonNull.mpr ⟨hmem, rfl⟩)))

theorem mem_filterMap_toNumber {operands : List Cell}
    (h : ∀ c ∈ nonNull operands, ∃ q, c = .number q) {q : Rat} :
    q ∈ operands.filterMap toNumber ↔
      .number q ∈ operands ∨ q = 0 ∧ Cell.null ∈ operands := by
  rw [List.mem_filterMap]
  constructor
  · rintro ⟨c, hmem, hc⟩
    rcases eq_null_or_number h hmem with rfl | rfl | ⟨r, rfl⟩
    · cases hc
    · exact .inr ⟨(Option.some.inj hc).symm, hmem⟩
    · obtain rfl := Option.some.inj hc
      exact .inl hmem
  · rintro (hmem | ⟨rfl, hmem⟩)
    · exact ⟨.number q, hmem, rfl⟩
    · exact ⟨.null, hmem, rfl⟩

/-- No operand but null is read as a number where all are null. -/
theorem filterMap_toNumber_eq_nil {operands : List Cell} (h : nonNull operands = []) :
    operands.filterMap toNumber = [] ↔ Cell.null ∉ operands := by
  have hnumbers := @filterMap_toNumber operands [] h
  rw [← List.length_eq_zero_iff, hnumbers.2, List.length_nil, Nat.zero_add, List.count_eq_zero]

end Accumulators

/-! ## Operators -/

section Operators

variable {operands : List Cell}

theorem isAggregate_sum_iff (h : ∃ result, IsAggregate .sum operands result) :
    IsAggregate .sum operands (accumulated .sum operands) ↔ Suits .sum operands := by
  rw [accumulated_sum]
  obtain ⟨result, ⟨hnil, -⟩ | ⟨numbers, hne, hnumbers, -⟩⟩ := h
  · refine iff_of_false ?_ fun hsuits => hsuits hnil
    rintro (⟨-, hresult⟩ | ⟨numbers, hne, hnumbers, -⟩)
    · cases hresult
    · rw [hnil] at hnumbers
      exact hne (List.map_eq_nil_iff.mp hnumbers.symm)
  · refine iff_of_true (.inr ⟨numbers, hne, hnumbers, ?_⟩) fun hnil => ?_
    · rw [(filterMap_toNumber hnumbers).1]
    · rw [hnil] at hnumbers
      exact hne (List.map_eq_nil_iff.mp hnumbers.symm)

theorem numbers_unique {numbers numbers' : List Rat} (h : nonNull operands = numbers.map .number)
    (h' : nonNull operands = numbers'.map .number) : numbers = numbers' := by
  rw [h] at h'
  exact List.map_injective_iff.mpr (fun _ _ heq => Cell.number.inj heq) h'

theorem isAggregate_average_iff (h : ∃ result, IsAggregate .average operands result) :
    IsAggregate .average operands (accumulated .average operands) ↔ Suits .average operands := by
  rw [accumulated_average]
  obtain ⟨result, ⟨hnil, -⟩ | ⟨numbers, hne, hnumbers, -⟩⟩ := h
  · have hnot {numbers : List Rat} (hne : numbers ≠ []) :
        nonNull operands ≠ numbers.map .number := by
      rw [hnil]
      exact fun heq => hne (List.map_eq_nil_iff.mp heq.symm)
    have hlength := filterMap_toNumber_eq_nil hnil
    rw [← List.length_eq_zero_iff] at hlength
    rw [Suits, or_iff_left fun ⟨numbers, hne, hnumbers, _⟩ => hnot hne hnumbers, ← hlength]
    by_cases hzero : (operands.filterMap toNumber).length = 0
    · rw [if_pos hzero]
      exact iff_of_true (.inl ⟨hnil, rfl⟩) hzero
    · rw [if_neg hzero]
      refine iff_of_false ?_ hzero
      rintro (⟨-, hresult⟩ | ⟨numbers, hne, hnumbers, -⟩)
      · cases hresult
      · exact hnot hne hnumbers
  · obtain ⟨hsum, hlength⟩ := filterMap_toNumber hnumbers
    have hpos : 0 < numbers.length := List.length_pos_iff.mpr hne
    have hunique {P : List Rat → Prop} :
        (∃ numbers, numbers ≠ [] ∧ nonNull operands = numbers.map .number ∧ P numbers) ↔
          P numbers := by
      constructor
      · rintro ⟨numbers', -, hnumbers', hP⟩
        rwa [numbers_unique hnumbers hnumbers']
      · exact fun hP => ⟨numbers, hne, hnumbers, hP⟩
    have hnotnil : nonNull operands ≠ [] := by
      rw [hnumbers]
      exact fun heq => hne (List.map_eq_nil_iff.mp heq)
    rw [hsum, hlength, if_neg (by omega), IsAggregate, hunique, or_iff_right fun h => hnotnil h.1,
      Suits, hunique, Cell.number.injEq, ← List.count_eq_zero]
    have hpos' : (0 : Rat) < numbers.length := Nat.cast_pos.mpr hpos
    push_cast
    rw [div_eq_div_iff (by positivity) (by positivity), mul_add, left_eq_add, mul_eq_zero,
      Nat.cast_eq_zero, or_comm]

/-- The least number of the operands, or the greatest, by the order of numbers. Null is read as
zero. -/
theorem extreme_iff {le : Rat → Rat → Prop} {below : Cell → Cell → Prop} {extreme : Option Rat}
    (hnumber : ∀ q r, below (.number q) (.number r) ↔ le q r)
    (hkind : ∀ c c', below c c' → ((∃ q, c = .number q) ↔ ∃ q, c' = .number q))
    (hanti : ∀ q r, le q r → le r q → q = r)
    (hnone : extreme = none ↔ operands.filterMap toNumber = [])
    (hsome : ∀ q, extreme = some q ↔ q ∈ operands.filterMap toNumber ∧
      ∀ r ∈ operands.filterMap toNumber, le q r)
    (h : nonNull operands = [] ∨
      ∃ c ∈ nonNull operands, ∀ operand ∈ nonNull operands, below c operand) :
    (nonNull operands = [] ∧ extreme.elim .null .number = Cell.null ∨
      extreme.elim .null .number ∈ nonNull operands ∧
        ∀ operand ∈ nonNull operands, below (extreme.elim .null .number) operand) ↔
    (∀ operand ∈ nonNull operands, ∃ q, operand = .number q) ∧
      (.null ∉ operands ∨ ∃ q, le q 0 ∧ .number q ∈ operands) := by
  have hmember {q : Rat} : .number q ∈ nonNull operands ↔ .number q ∈ operands :=
    mem_nonNull.trans (and_iff_left rfl)
  rcases h with hnil | ⟨c, hmem, hbelow⟩
  · have hnumbers : ¬ ∃ q, le q 0 ∧ .number q ∈ operands := fun ⟨q, _, hq⟩ => by
      rw [← hmember, hnil] at hq
      cases hq
    rw [or_iff_left hnumbers, ← filterMap_toNumber_eq_nil hnil, ← hnone, hnil]
    cases extreme with
    | none => simp
    | some q => simp
  · by_cases hnumbers : ∃ q, c = .number q
    · have hall : ∀ operand ∈ nonNull operands, ∃ q, operand = .number q :=
        fun operand hoperand => (hkind c operand (hbelow operand hoperand)).mp hnumbers
      have hmemNumber {q : Rat} := @mem_filterMap_toNumber operands hall q
      have hne : nonNull operands ≠ [] := List.ne_nil_of_mem hmem
      cases hextreme : extreme with
      | none =>
        obtain ⟨q, rfl⟩ := hnumbers
        have hq := hmemNumber.mpr (.inl (hmember.mp hmem))
        rw [hnone.mp hextreme] at hq
        cases hq
      | some q =>
        obtain ⟨hq, hleast⟩ := (hsome q).mp hextreme
        rw [Option.elim_some, or_iff_right fun h => hne h.1, and_iff_right hall, hmember]
        constructor
        · rintro ⟨hoperand, -⟩
          by_cases hnull : .null ∈ operands
          · exact .inr ⟨q, hleast 0 (hmemNumber.mpr (.inr ⟨rfl, hnull⟩)), hoperand⟩
          · exact .inl hnull
        · intro hsuits
          refine ⟨?_, fun operand hoperand => ?_⟩
          · rcases hmemNumber.mp hq with hoperand | ⟨rfl, hnull⟩
            · exact hoperand
            · obtain ⟨r, hr, hoperand⟩ := hsuits.resolve_left fun hnot => hnot hnull
              obtain rfl := hanti _ _ hr (hleast r (hmemNumber.mpr (.inl hoperand)))
              exact hoperand
          · obtain ⟨r, rfl⟩ := hall operand hoperand
            exact (hnumber q r).mpr (hleast r (hmemNumber.mpr (.inl (hmember.mp hoperand))))
    · refine iff_of_false ?_ fun ⟨hall, _⟩ => hnumbers (hall c hmem)
      rintro (⟨hnil, -⟩ | ⟨hextreme, hleast⟩)
      · exact List.ne_nil_of_mem hmem hnil
      · have hkinds := hkind _ c (hleast c hmem)
        cases extreme with
        | none => cases (mem_nonNull.mp hextreme).2
        | some q => exact hnumbers (hkinds.mp ⟨q, rfl⟩)

theorem AtMost.number_iff {c c' : Cell} (h : c.AtMost c') :
    (∃ q, c = .number q) ↔ ∃ q, c' = .number q := by
  cases c <;> cases c' <;> simp_all [Cell.AtMost]

theorem isAggregate_min_iff (h : ∃ result, IsAggregate .min operands result) :
    IsAggregate .min operands (accumulated .min operands) ↔ Suits .min operands := by
  rw [accumulated_min]
  refine @extreme_iff operands (· ≤ ·) Cell.AtMost _ (fun _ _ => Iff.rfl)
    (fun _ _ => AtMost.number_iff) (fun _ _ => le_antisymm) List.min?_eq_none_iff (fun q => ?_) ?_
  · exact List.min?_eq_some_iff
  · obtain ⟨result, ⟨hnil, -⟩ | hresult⟩ := h
    · exact .inl hnil
    · exact .inr ⟨result, hresult⟩

theorem isAggregate_max_iff (h : ∃ result, IsAggregate .max operands result) :
    IsAggregate .max operands (accumulated .max operands) ↔ Suits .max operands := by
  rw [accumulated_max]
  refine @extreme_iff operands (· ≥ ·) (fun c c' => c'.AtMost c) _ (fun _ _ => Iff.rfl)
    (fun _ _ hbelow => (AtMost.number_iff hbelow).symm)
    (fun _ _ hle hge => le_antisymm hge hle) List.max?_eq_none_iff (fun q => ?_) ?_
  · exact List.max?_eq_some_iff
  · obtain ⟨result, ⟨hnil, -⟩ | hresult⟩ := h
    · exact .inl hnil
    · exact .inr ⟨result, hresult⟩

theorem isAggregate_countdistinct_iff :
    IsAggregate .countdistinct operands (accumulated .countdistinct operands) ↔
      Suits .countdistinct operands := by
  rw [accumulated_countdistinct, IsAggregate, Cell.number.injEq, Nat.cast_inj, Suits]
  have hsub : (nonNull operands).toFinset ⊆ operands.toFinset := fun c hc =>
    List.mem_toFinset.mpr (mem_nonNull.mp (List.mem_toFinset.mp hc)).1
  have hcard : ((nonNull operands).map Cell.plain).toFinset =
      (nonNull operands).toFinset.image Cell.plain := by
    ext c
    simp
  rw [hcard]
  constructor
  · intro h
    have himage := Finset.card_image_le (s := (nonNull operands).toFinset) (f := Cell.plain)
    have heq := Finset.eq_of_subset_of_card_le hsub (by omega)
    have hinjective : Set.InjOn Cell.plain (nonNull operands).toFinset :=
      Finset.card_image_iff.mp (by rw [← h, heq])
    refine ⟨List.filter_eq_self.mpr fun c hc => ?_, fun c hc c' hc' hplain => ?_⟩
    · rw [← List.mem_toFinset, ← heq, List.mem_toFinset] at hc
      rw [(mem_nonNull.mp hc).2, Bool.not_false]
    · rw [← List.mem_toFinset, ← heq] at hc hc'
      exact hinjective hc hc' hplain
  · rintro ⟨hnonNull, hinjective⟩
    rw [hnonNull, Finset.card_image_iff.mpr]
    intro c hc c' hc' hplain
    exact hinjective c (List.mem_toFinset.mp hc) c' (List.mem_toFinset.mp hc') hplain

/-- An operator does as it should exactly with the operands that suit it. -/
theorem isAggregate_iff {operator : AggregationOperator}
    (h : ∃ result, IsAggregate operator operands result) :
    IsAggregate operator operands (accumulated operator operands) ↔ Suits operator operands := by
  cases operator with
  | sum => exact isAggregate_sum_iff h
  | average => exact isAggregate_average_iff h
  | min => exact isAggregate_min_iff h
  | max => exact isAggregate_max_iff h
  | count => exact iff_of_true (accumulated_count operands) trivial
  | countdistinct => exact isAggregate_countdistinct_iff

end Operators

end Aggregation

end LoopbackOData
