import LoopbackOData.Filter.WhereMeaning
import LoopbackOData.Library.Outcome

/-!
# Complementary clauses

When the inverse of a leaf is accepted and has the opposite truth value, and De Morgan's laws over
such inverses.
-/

namespace LoopbackOData

open ThreeValued Outcome

set_option autoImplicit false

/-! ## Opposite truth values -/

/-- Both clauses have a truth value, and one is true where the other is false. -/
def Opposite (a b : Option Truth) : Prop := ∃ t, t.Known ∧ a = some t ∧ b = some t.not

theorem Opposite.symm {a b : Option Truth} (h : Opposite a b) : Opposite b a := by
  obtain ⟨t, hknown, rfl, rfl⟩ := h
  exact ⟨t.not, (Truth.known_not t).mpr hknown, rfl, by rw [Truth.not_not]⟩

theorem not_opposite_none (b : Option Truth) : ¬ Opposite none b := nofun

theorem opposite_not {a : Option Truth} {t : Truth} (ha : a = some t) (hknown : t.Known) :
    Opposite a (a.map .not) := ⟨t, hknown, ha, by rw [ha]; rfl⟩

namespace Database

variable (db : Database) {field : Text} {stored literal : Scalar}

theorem comparison_of_present (test : Ordering → Bool) (hs : stored.isNullish = false)
    (hl : literal.isNullish = false) :
    db.comparison test field stored literal = .ofBool (test (db.compare field stored literal)) := by
  simp [comparison, hs, hl]

theorem known_comparison (test : Ordering → Bool) (hs : stored.isNullish = false)
    (hl : literal.isNullish = false) : (db.comparison test field stored literal).Known := by
  rw [comparison_of_present db test hs hl]
  exact Truth.known_ofBool _

theorem known_equals (hs : stored.isNullish = false) (hl : literal ≠ .undefined) :
    (db.equals field stored literal).Known := by
  rw [equals]
  split
  · exact Truth.known_ofBool _
  · next hnull =>
    refine known_comparison db _ hs ?_
    cases literal <;> simp_all [Scalar.isNullish]

theorem known_inList {values : List Scalar} (hs : stored.isNullish = false)
    (hvalues : ∀ v ∈ values, v.isNullish = false) : (db.inList field stored values).Known := by
  refine Truth.known_any fun t ht => ?_
  obtain ⟨v, hv, rfl⟩ := List.mem_map.mp ht
  exact known_comparison db _ hs (hvalues v hv)

theorem known_matching (negated : Bool) (pattern : Text) (insensitive : Bool)
    (hs : stored.isNullish = false) : (db.matching negated pattern insensitive stored).Known := by
  simp [matching, hs]

theorem matching_not (negated : Bool) (pattern : Text) (insensitive : Bool) :
    db.matching (!negated) pattern insensitive stored =
      (db.matching negated pattern insensitive stored).not := by
  unfold matching
  split
  · rfl
  · rw [Truth.not_ofBool]
    cases db.matchesPattern insensitive pattern stored <;> cases negated <;> rfl

/-- Complementary tests make complementary comparisons. -/
theorem comparison_not {test test' : Ordering → Bool} (h : ∀ o, test' o = !test o) :
    db.comparison test' field stored literal = (db.comparison test field stored literal).not := by
  unfold comparison
  split
  · rfl
  · rw [Truth.not_ofBool, h]

end Database

/-! ## The condition -/

/-- The operand is one that the comparator can be written with. -/
def hasOperandFor : Comparator → Literal → Bool
  | .inq, _ => true
  | .nin, _ => true
  | .eq, .single value => value ≠ .undefined
  | .neq, .single value => value ≠ .undefined
  | _, .single _ => true
  | _, .list _ => false

/-- Everything but what the inversion of a leaf misses: `indexof(..) gt -1`, whose inverse is
rejected; `ceiling(..) eq`, which uses an operator that does not exist; and properties whose name
is a key of the `where` language. -/
def Leaf.invertible : Leaf → Bool
  | .comparison field comparator value => !Database.isReservedKey field &&
      hasOperandFor comparator value
  | .fncmp name field comparator _ =>
    !Database.isReservedKey field && !(name = .ceiling && comparator = .eq)
  | .indexofcmp field comparator value _ =>
    !Database.isReservedKey field && !(comparator = .gt && value = -1)
  | .function _ field _ _ _ _ => !Database.isReservedKey field
  | .substrcmp field _ _ _ _ => !Database.isReservedKey field
  | .lengthcmp field _ _ => !Database.isReservedKey field
  | .transformcmp .. => true
  | .stringfncmp .. => true
  | .datepart .. => true

/-- No comparison with a missing value other than equality. -/
def Leaf.definite : Leaf → Bool
  | .comparison _ .eq _ => true
  | .comparison _ .neq _ => true
  | .comparison _ _ (.single value) => !value.isNullish
  | .comparison _ _ (.list values) => .undefined ∉ values
  | _ => true

mutual

/-- The leaves are invertible and there is no `not`: the inverse of a negation is none of the
cases of `buildWhere`. -/
def invertible : ParsedExpression → Bool
  | .leaf leaf => leaf.invertible
  | .logical _ expressions => !expressions.isEmpty && allInvertible expressions
  | .not _ => false
  | .lambda .. => false

def allInvertible : List ParsedExpression → Bool
  | [] => true
  | expr :: rest => invertible expr && allInvertible rest

end

mutual

def leaves : ParsedExpression → List Leaf
  | .leaf leaf => [leaf]
  | .logical _ expressions => allLeaves expressions
  | .not expr => leaves expr
  | .lambda _ _ _ predicate => leaves predicate

def allLeaves : List ParsedExpression → List Leaf
  | [] => []
  | expr :: rest => leaves expr ++ allLeaves rest

end

/-- Every present row of the expression gives the two clauses opposite truth values. -/
def Complements (fields : List Text) (clause clause' : Where) : Prop :=
  ∀ (db : Database) (row : Row), (∀ field ∈ fields, (row field).isNullish = false) →
    Opposite (db.eval row clause) (db.eval row clause')

theorem Complements.symm {fields : List Text} {clause clause' : Where}
    (h : Complements fields clause clause') : Complements fields clause' clause :=
  fun db row hrow => (h db row hrow).symm

theorem complements_property {field : Text} {condition condition' : Condition}
    (hfield : Database.isReservedKey field = false)
    (h : ∀ (db : Database) (stored : Scalar), stored.isNullish = false →
      Opposite (db.condition field stored condition) (db.condition field stored condition')) :
    Complements [field] (.property field condition) (.property field condition') := by
  intro db row hrow
  rw [db.eval_property hfield, db.eval_property hfield]
  exact h db (row field) (hrow field (List.mem_singleton.mpr rfl))

/-- `LIKE` against `NOT LIKE`. -/
theorem complements_like {field : Text} (hfield : Database.isReservedKey field = false)
    (negated : Bool) (pattern : Text) (insensitive : Bool) :
    Complements [field] (.property field (.like negated pattern insensitive))
      (.property field (.like (!negated) pattern insensitive)) := by
  refine complements_property hfield fun db stored hs => ?_
  exact ⟨_, db.known_matching negated pattern insensitive hs, rfl, by
    rw [Database.condition, db.matching_not]⟩

/-- Equality against its negation. -/
theorem complements_equals {field : Text} (hfield : Database.isReservedKey field = false)
    (value : Scalar) (hvalue : value ≠ .undefined) :
    Complements [field] (.property field (.equals value))
      (.property field (.operator .neq (.single value))) := by
  refine complements_property hfield fun db stored hs => ?_
  refine ⟨_, db.known_equals hs hvalue, ?_, rfl⟩
  cases value <;> first | rfl | exact absurd rfl hvalue

/-- Two comparisons that are each other's complement. -/
theorem complements_comparison {field : Text} (hfield : Database.isReservedKey field = false)
    {value : Scalar} (hvalue : value.isNullish = false) {op op' : WhereOperator}
    (test test' : Ordering → Bool) (htest : ∀ o, test' o = !test o)
    (hop : ∀ db stored, Database.operator db field stored op (.single value) =
      some (db.comparison test field stored value))
    (hop' : ∀ db stored, Database.operator db field stored op' (.single value) =
      some (db.comparison test' field stored value)) :
    Complements [field] (.property field (.operator op (.single value)))
      (.property field (.operator op' (.single value))) := by
  refine complements_property hfield fun db stored hs => ?_
  refine ⟨_, db.known_comparison test hs hvalue, hop db stored, ?_⟩
  rw [← db.comparison_not htest]
  exact hop' db stored

/-- `IN` against `NOT IN`. -/
theorem complements_inList {field : Text} (hfield : Database.isReservedKey field = false)
    {values : List Scalar} (hvalues : ∀ v ∈ values, v.isNullish = false) :
    Complements [field] (.property field (.operator .inq (.list values)))
      (.property field (.operator .nin (.list values))) := by
  refine complements_property hfield fun db stored hs => ?_
  exact ⟨_, db.known_inList hs hvalues, rfl, rfl⟩

/-- The truth values of complementary clauses, one by one. -/
theorem exists_truths {fields : List Text} {ws ws' : List Where}
    (h : List.Forall₂ (Complements fields) ws ws') (db : Database) {row : Row}
    (hrow : ∀ field ∈ fields, (row field).isNullish = false) :
    ∃ ts : List Truth, ts.length = ws.length ∧ (∀ t ∈ ts, t.Known) ∧ db.evalAll row ws = some ts ∧
      db.evalAll row ws' = some (ts.map .not) := by
  induction h with
  | nil => exact ⟨[], rfl, nofun, rfl, rfl⟩
  | cons hhead _ ih =>
    obtain ⟨t, hknown, hw, hw'⟩ := hhead db row hrow
    obtain ⟨ts, hlen, hall, hws, hws'⟩ := ih
    refine ⟨t :: ts, congrArg (· + 1) hlen, List.forall_mem_cons.mpr ⟨hknown, hall⟩, ?_, ?_⟩
    · simp [Database.evalAll, hw, hws]
    · simp [Database.evalAll, hw', hws']

/-- De Morgan: complementary members make complementary connectives. -/
theorem complements_logical {fields : List Text} {ws ws' : List Where} (type : LogicalType)
    (hne : ws ≠ []) (h : List.Forall₂ (Complements fields) ws ws') :
    Complements fields (logicalWhere type ws) (logicalWhere type.dual ws') := by
  intro db row hrow
  obtain ⟨ts, hlen, hall, hws, hws'⟩ := exists_truths h db hrow
  obtain ⟨t, ts, rfl⟩ : ∃ t ts', ts = t :: ts' := by
    cases ts with
    | nil => exact absurd (List.length_eq_zero_iff.mp hlen.symm) hne
    | cons t ts => exact ⟨t, ts, rfl⟩
  rw [List.map_cons] at hws'
  cases type with
  | and =>
    refine ⟨_, Truth.known_all hall, by simp [logicalWhere, Database.eval, hws,
      Database.connective], ?_⟩
    rw [Truth.not_all]
    simp [logicalWhere, LogicalType.dual, Database.eval, hws', Database.connective]
  | or =>
    refine ⟨_, Truth.known_any hall, by simp [logicalWhere, Database.eval, hws,
      Database.connective], ?_⟩
    rw [Truth.not_any]
    simp [logicalWhere, LogicalType.dual, Database.eval, hws', Database.connective]

/-! ## Leaves -/

section Leaves

variable {options : ParseOptions} {field : Text} {w : Where}

theorem nonNull_present {values : List Scalar} (h : Scalar.undefined ∉ values) :
    ∀ v ∈ values.filter (· ≠ .null), v.isNullish = false := by
  intro v hv
  obtain ⟨hmem, hnull⟩ := List.mem_filter.mp hv
  cases v <;> simp_all [Scalar.isNullish]

theorem complements_inq {values : List Scalar} (hfield : Database.isReservedKey field = false)
    (hvalues : Scalar.undefined ∉ values) :
    Complements [field] (inqWhere field values) (ninWhere field values) := by
  have hlist := complements_inList hfield (nonNull_present hvalues)
  have hnull := complements_equals hfield .null nofun
  simp only [inqWhere, ninWhere]
  split
  · split
    · exact hnull
    · exact complements_logical .or (by simp) (.cons hnull (.cons hlist .nil))
  · exact hlist

theorem complements_buildComparison {comparator : Comparator} {value : Literal}
    (hfield : Database.isReservedKey field = false) (hoperand : hasOperandFor comparator value)
    (hdefinite : (Leaf.comparison field comparator value).definite)
    (h : buildComparison options field comparator value = .ok w) :
    ∃ w', buildComparison options field (inverseComparator comparator) value = .ok w' ∧
      Complements [field] w w' := by
  unfold buildComparison at h ⊢
  obtain ⟨_, hsafe, h⟩ := bind_eq_ok.mp h
  simp only [hsafe, bind, Except.bind]
  cases comparator with
  | inq =>
    cases value with
    | single value => cases h
    | list values =>
      obtain ⟨_, hitems, h⟩ := bind_eq_ok.mp h
      cases h
      simp only [inverseComparator, hitems]
      exact ⟨_, rfl, complements_inq hfield (by simpa [Leaf.definite] using hdefinite)⟩
  | nin =>
    cases value with
    | single value => cases h
    | list values =>
      obtain ⟨_, hitems, h⟩ := bind_eq_ok.mp h
      cases h
      simp only [inverseComparator, hitems]
      exact ⟨_, rfl, (complements_inq hfield (by simpa [Leaf.definite] using hdefinite)).symm⟩
  | eq =>
    cases value with
    | list values => cases hoperand
    | single value =>
      cases h
      exact ⟨_, rfl, complements_equals hfield _ (by simpa [hasOperandFor] using hoperand)⟩
  | neq =>
    cases value with
    | list values => cases hoperand
    | single value =>
      cases h
      exact ⟨_, rfl, (complements_equals hfield _ (by simpa [hasOperandFor] using hoperand)).symm⟩
  | gt =>
    cases value with
    | list values => cases hoperand
    | single value =>
      cases h
      exact ⟨_, rfl, complements_comparison hfield (by simpa [Leaf.definite] using hdefinite)
        (· == .gt) (· != .gt) (fun _ => rfl) (fun _ _ => rfl) fun _ _ => rfl⟩
  | gte =>
    cases value with
    | list values => cases hoperand
    | single value =>
      cases h
      exact ⟨_, rfl, complements_comparison hfield (by simpa [Leaf.definite] using hdefinite)
        (· != .lt) (· == .lt) (by decide) (fun _ _ => rfl) fun _ _ => rfl⟩
  | lt =>
    cases value with
    | list values => cases hoperand
    | single value =>
      cases h
      exact ⟨_, rfl, complements_comparison hfield (by simpa [Leaf.definite] using hdefinite)
        (· == .lt) (· != .lt) (fun _ => rfl) (fun _ _ => rfl) fun _ _ => rfl⟩
  | lte =>
    cases value with
    | list values => cases hoperand
    | single value =>
      cases h
      exact ⟨_, rfl, complements_comparison hfield (by simpa [Leaf.definite] using hdefinite)
        (· != .gt) (· == .gt) (by decide) (fun _ _ => rfl) fun _ _ => rfl⟩

theorem complements_buildFunction {name : StringPredicate} {arg : Scalar}
    {caseInsensitive negated : Bool} (hfield : Database.isReservedKey field = false)
    (h : buildFunction options name field arg caseInsensitive negated = .ok w) :
    ∃ w', buildFunction options name field arg caseInsensitive (!negated) = .ok w' ∧
      Complements [field] w w' := by
  unfold buildFunction at h ⊢
  obtain ⟨_, hsafe, h⟩ := bind_eq_ok.mp h
  simp only [hsafe, bind, Except.bind]
  cases arg with
  | str value =>
    cases h
    exact ⟨_, rfl, complements_like hfield _ _ _⟩
  | _ => cases h

theorem complements_buildIndexOf {comparator : Comparator} {value : Rat} {needle : Text}
    (hfield : Database.isReservedKey field = false)
    (hinvertible : !(comparator = .gt && value = -1))
    (h : buildIndexOf options field comparator value needle = .ok w) :
    ∃ comparator' value', negateIndexOfExpression comparator value = .ok (comparator', value') ∧
      ∃ w', buildIndexOf options field comparator' value' needle = .ok w' ∧
        Complements [field] w w' := by
  have hlike := complements_like hfield false ('%' :: escapeLikeLiteral needle ++ ['%']) true
  unfold buildIndexOf at h
  obtain ⟨_, hsafe, h⟩ := bind_eq_ok.mp h
  have hbuild (comparator : Comparator) (value : Rat) :
      buildIndexOf options field comparator value needle =
        if (comparator = .gte ∧ 0 ≤ value) ∨ (comparator = .gt ∧ -1 ≤ value) then
          .ok (.property field (.like false ('%' :: escapeLikeLiteral needle ++ ['%']) true))
        else if comparator = .eq ∧ value = -1 then
          .ok (.property field (.like true ('%' :: escapeLikeLiteral needle ++ ['%']) true))
        else .error (.error "Unsupported indexof comparison. Supported: ge 0, gt -1, eq -1.") := by
    unfold buildIndexOf
    simp only [hsafe, bind, Except.bind, pure, Except.pure]
  split at h
  · next hcase =>
    cases h
    refine ⟨.eq, -1, ?_, _, by rw [hbuild]; simp, hlike⟩
    rcases hcase with ⟨rfl, hvalue⟩ | ⟨rfl, hvalue⟩
    · simp [negateIndexOfExpression, hvalue]
    · have : -1 < value := lt_of_le_of_ne hvalue fun heq => by simp [← heq] at hinvertible
      simp [negateIndexOfExpression, this]
  · split at h
    · next hcase =>
      cases h
      obtain ⟨rfl, rfl⟩ := hcase
      exact ⟨.gte, 0, by simp [negateIndexOfExpression], _, by rw [hbuild]; simp, hlike.symm⟩
    · cases h

theorem complements_buildSubstring {start : Rat} {length : Option Rat} {comparator : Equality}
    {literal : Text} (hfield : Database.isReservedKey field = false)
    (h : buildSubstring options field start length comparator literal = .ok w) :
    ∃ w', buildSubstring options field start length (inverseEquality comparator) literal =
      .ok w' ∧ Complements [field] w w' := by
  unfold buildSubstring at h ⊢
  obtain ⟨_, hsafe, h⟩ := bind_eq_ok.mp h
  simp only [hsafe, bind, Except.bind]
  obtain ⟨_, hstart, h⟩ := bind_eq_ok.mp h
  obtain ⟨_, hlength, h⟩ := bind_eq_ok.mp h
  cases h
  simp only [hstart, hlength]
  refine ⟨_, rfl, ?_⟩
  cases comparator
  · exact complements_like hfield false _ _
  · exact complements_like hfield true _ _

/-- The pattern of a length comparison is built the same way on both sides. -/
theorem complements_map_underscorePattern {value : Rat} {clause clause' : Text → Where}
    (hclause : ∀ pattern, Complements [field] (clause pattern) (clause' pattern))
    (h : (underscorePattern options value).map clause = .ok w) :
    ∃ w', (underscorePattern options value).map clause' = .ok w' ∧ Complements [field] w w' := by
  cases hpattern : underscorePattern options value with
  | error err =>
    rw [hpattern] at h
    cases h
  | ok pattern =>
    rw [hpattern] at h
    cases h
    exact ⟨_, rfl, hclause pattern⟩

theorem underscorePattern_zero : underscorePattern options 0 = .ok [] := by
  have hlimit : ¬ (0 : Rat) > options.patternLength := not_lt.mpr (Nat.cast_nonneg _)
  simp [underscorePattern, isInteger, hlimit]

theorem complements_lengthWhere {comparator : Comparator} {value : Rat} (hvalue : 0 ≤ value)
    (hfield : Database.isReservedKey field = false)
    (h : lengthWhere options field comparator value = .ok w) :
    ∃ comparator', negateLengthExpression comparator = .ok comparator' ∧
      ∃ w', lengthWhere options field comparator' value = .ok w' ∧ Complements [field] w w' := by
  have hempty := complements_equals hfield (.str []) nofun
  have hlike (pattern : Text) : Complements [field] (like field pattern) (nlike field pattern) :=
    complements_like hfield false pattern false
  cases comparator with
  | inq => cases h
  | nin => cases h
  | eq =>
    refine ⟨.neq, rfl, ?_⟩
    simp only [lengthWhere] at h ⊢
    split at h
    · next hzero =>
      cases h
      exact ⟨_, if_pos hzero, hempty⟩
    · next hzero =>
      rw [if_neg hzero]
      exact complements_map_underscorePattern hlike h
  | neq =>
    refine ⟨.eq, rfl, ?_⟩
    simp only [lengthWhere] at h ⊢
    split at h
    · next hzero =>
      cases h
      exact ⟨_, if_pos hzero, hempty.symm⟩
    · next hzero =>
      rw [if_neg hzero]
      exact complements_map_underscorePattern (fun pattern => (hlike pattern).symm) h
  | gt =>
    refine ⟨.lte, rfl, ?_⟩
    simp only [lengthWhere] at h ⊢
    split at h
    · next hzero =>
      cases h
      exact ⟨_, if_pos hzero, hempty.symm⟩
    · next hzero =>
      rw [if_neg hzero]
      exact complements_map_underscorePattern (fun pattern => hlike _) h
  | lte =>
    refine ⟨.gt, rfl, ?_⟩
    simp only [lengthWhere] at h ⊢
    split at h
    · next hzero =>
      cases h
      exact ⟨_, if_pos hzero, hempty⟩
    · next hzero =>
      rw [if_neg hzero]
      exact complements_map_underscorePattern (fun pattern => (hlike _).symm) h
  | gte =>
    refine ⟨.lt, rfl, ?_⟩
    simp only [lengthWhere] at h ⊢
    split at h
    · next hle =>
      cases h
      obtain rfl := le_antisymm hle hvalue
      rw [underscorePattern_zero]
      exact ⟨_, rfl, hlike _⟩
    · exact complements_map_underscorePattern (fun pattern => hlike _) h
  | lt =>
    refine ⟨.gte, rfl, ?_⟩
    simp only [lengthWhere] at h ⊢
    split
    · next hle =>
      obtain rfl := le_antisymm hle hvalue
      rw [underscorePattern_zero] at h
      cases h
      exact ⟨_, rfl, (hlike _).symm⟩
    · exact complements_map_underscorePattern (fun pattern => (hlike _).symm) h

theorem nonneg_of_checkLength {value : Rat} {u : Unit} (h : checkLength value = .ok u) :
    0 ≤ value := by
  by_contra hneg
  simp [checkLength, not_le.mp hneg] at h

theorem complements_translateLengthComparison {comparator : Comparator} {value : Rat}
    (hfield : Database.isReservedKey field = false)
    (h : translateLengthComparison options field comparator value = .ok w) :
    ∃ comparator', negateLengthExpression comparator = .ok comparator' ∧
      ∃ w', translateLengthComparison options field comparator' value = .ok w' ∧
        Complements [field] w w' := by
  unfold translateLengthComparison at h
  obtain ⟨_, hsafe, h⟩ := bind_eq_ok.mp h
  obtain ⟨_, hcheck, h⟩ := bind_eq_ok.mp h
  obtain ⟨comparator', hnegate, w', hw', hcomplements⟩ :=
    complements_lengthWhere (nonneg_of_checkLength hcheck) hfield h
  refine ⟨comparator', hnegate, w', ?_, hcomplements⟩
  simpa only [translateLengthComparison, hsafe, hcheck, bind, Except.bind] using hw'

/-- A clause that is known on present rows is the opposite of its `not`. -/
theorem complements_not_of_opposite {fields : List Text} {clause clause' : Where}
    (h : Complements fields clause clause') : Complements fields clause (.not clause) := by
  intro db row hrow
  obtain ⟨t, hknown, ht, _⟩ := h db row hrow
  rw [db.eval_not]
  exact opposite_not ht hknown

/-- A bound of an interval against its `not`. -/
theorem complements_bound (hfield : Database.isReservedKey field = false) {op : WhereOperator}
    {bound : Scalar} (hop : op ∈ [WhereOperator.gt, .gte, .lt, .lte])
    (hbound : bound.isNullish = false) :
    Complements [field] (.property field (.operator op (.single bound)))
      (.not (.property field (.operator op (.single bound)))) := by
  intro db row hrow
  have hrow := hrow field (List.mem_singleton.mpr rfl)
  rw [db.eval_not, db.eval_property hfield]
  simp only [List.mem_cons, List.not_mem_nil, or_false] at hop
  rcases hop with rfl | rfl | rfl | rfl <;>
    exact opposite_not rfl (db.known_comparison _ hrow hbound)

theorem complements_intervalWhere {comparator : Comparator} {unsupported : String}
    {eq : List (WhereOperator × Scalar)} {gte gt lte lt : WhereOperator × Scalar}
    (hfield : Database.isReservedKey field = false) (hne : eq ≠ [])
    (heq : comparator = .eq → ∀ c ∈ eq,
      c.1 ∈ [WhereOperator.gt, .gte, .lt, .lte] ∧ c.2.isNullish = false)
    (hbounds : ∀ c ∈ [gte, gt, lte, lt],
      c.1 ∈ [WhereOperator.gt, .gte, .lt, .lte] ∧ c.2.isNullish = false)
    (h : intervalWhere field comparator unsupported eq gte gt lte lt = .ok w) :
    Complements [field] w (.not w) := by
  have hbound (c : WhereOperator × Scalar) (hc : c ∈ [gte, gt, lte, lt]) :=
    complements_bound hfield (hbounds c hc).1 (hbounds c hc).2
  cases comparator with
  | eq =>
    cases h
    have hmembers : List.Forall₂ (Complements [field])
        (eq.map fun c => .property field (.operator c.1 (.single c.2)))
        (eq.map fun c => .not (.property field (.operator c.1 (.single c.2)))) := by
      rw [List.forall₂_map_left_iff, List.forall₂_map_right_iff, List.forall₂_same]
      exact fun c hc => complements_bound hfield (heq rfl c hc).1 (heq rfl c hc).2
    exact complements_not_of_opposite
      (complements_logical .and (by simpa using hne) hmembers)
  | gte =>
    cases h
    exact hbound gte (by simp)
  | gt =>
    cases h
    exact hbound gt (by simp)
  | lte =>
    cases h
    exact hbound lte (by simp)
  | lt =>
    cases h
    exact hbound lt (by simp)
  | neq => cases h
  | inq => cases h
  | nin => cases h

theorem startOfYear_present (year : Rat) : (startOfYear year).isNullish = false := by
  have hdate (p : Prop) [Decidable p] (ms : Int) :
      (if p then Scalar.date ms else .invalidDate).isNullish = false := by
    split <;> rfl
  exact hdate _ _

theorem complements_buildFieldFunction {name : FieldFunction} {comparator : Comparator}
    {value : Rat} (hfield : Database.isReservedKey field = false)
    (hinvertible : !(name = .ceiling && comparator = .eq))
    (h : buildFieldFunction options name field comparator value = .ok w) :
    Complements [field] w (.not w) := by
  unfold buildFieldFunction at h
  obtain ⟨_, _, h⟩ := bind_eq_ok.mp h
  have hstart := startOfYear_present
  have hnum (q : Rat) : (Scalar.num q).isNullish = false := rfl
  cases name with
  | year => exact complements_intervalWhere hfield (by simp) (by simp [hstart]) (by simp [hstart]) h
  | floor => exact complements_intervalWhere hfield (by simp) (by simp [hnum]) (by simp [hnum]) h
  | round => exact complements_intervalWhere hfield (by simp) (by simp [hnum]) (by simp [hnum]) h
  | ceiling =>
    exact complements_intervalWhere hfield (by simp) (fun heq => by simp [heq] at hinvertible)
      (by simp [hnum]) h

/-- An invertible leaf has an inverse of the opposite truth value. -/
theorem complements_buildLeaf {leaf : Leaf} (hinvertible : leaf.invertible)
    (hdefinite : leaf.definite) (h : buildLeaf options leaf = .ok w) :
    ∃ w', buildNegatedLeaf options leaf = .ok w' ∧ Complements leaf.fields w w' := by
  cases leaf with
  | comparison field comparator value =>
    simp only [Leaf.invertible, Bool.and_eq_true, Bool.not_eq_true'] at hinvertible
    exact complements_buildComparison hinvertible.1 hinvertible.2 hdefinite h
  | function name field arg caseInsensitive transform negated =>
    simp only [Leaf.invertible, Bool.not_eq_true'] at hinvertible
    exact complements_buildFunction hinvertible h
  | fncmp name field comparator value =>
    simp only [Leaf.invertible, Bool.and_eq_true, Bool.not_eq_true'] at hinvertible
    refine ⟨.not w, ?_, complements_buildFieldFunction hinvertible.1
      (by simpa only [Bool.not_eq_true'] using hinvertible.2) h⟩
    rw [buildNegatedLeaf, show buildFieldFunction options name field comparator value = .ok w from h]
    rfl
  | indexofcmp field comparator value needle =>
    simp only [Leaf.invertible, Bool.and_eq_true, Bool.not_eq_true'] at hinvertible
    obtain ⟨comparator', value', hnegate, w', hw', hcomplements⟩ :=
      complements_buildIndexOf hinvertible.1 (by simpa only [Bool.not_eq_true'] using hinvertible.2) h
    refine ⟨w', ?_, hcomplements⟩
    simpa only [buildNegatedLeaf, hnegate, bind, Except.bind] using hw'
  | substrcmp field start length comparator literal =>
    simp only [Leaf.invertible, Bool.not_eq_true'] at hinvertible
    exact complements_buildSubstring hinvertible h
  | lengthcmp field comparator value =>
    simp only [Leaf.invertible, Bool.not_eq_true'] at hinvertible
    obtain ⟨comparator', hnegate, w', hw', hcomplements⟩ :=
      complements_translateLengthComparison hinvertible h
    refine ⟨w', ?_, hcomplements⟩
    simpa only [buildNegatedLeaf, hnegate, bind, Except.bind] using hw'
  | transformcmp transform field comparator value => cases h
  | stringfncmp name args comparator value => cases h
  | datepart part field comparator value => cases h

/-- A clause on a property whose name is a key of the language has no truth value. -/
theorem reserved_false {condition : Condition} {db : Database} {row : Row} {t : Truth}
    (h : db.eval row (.property field condition) = some t) :
    Database.isReservedKey field = false := by
  by_contra hreserved
  rw [db.eval_property_reserved (by simpa using hreserved)] at h
  cases h

/-- The members of a connective that has a truth value have one. -/
theorem eval_logical_eq_some (type : LogicalType) {ws : List Where} {db : Database} {row : Row}
    {t : Truth} (h : db.eval row (logicalWhere type ws) = some t) :
    ws ≠ [] ∧ ∀ w ∈ ws, ∃ t, db.eval row w = some t := by
  have hsome : ∃ t ts, db.evalAll row ws = some (t :: ts) := by
    cases type <;> simp only [logicalWhere, Database.eval] at h <;>
      rcases hall : db.evalAll row ws with _ | _ | ⟨t, ts⟩ <;>
      simp [hall, Database.connective] at h ⊢
  obtain ⟨t, ts, hall⟩ := hsome
  have hmembers := db.evalAll_eq_some.mp hall
  refine ⟨?_, fun w hw => ?_⟩
  · rintro rfl
    cases hmembers
  · obtain ⟨i, hi, rfl⟩ := List.getElem_of_mem hw
    exact ⟨_, hmembers.get hi (hmembers.length_eq ▸ hi)⟩

theorem reserved_false_of_inqWhere {values : List Scalar} {db : Database} {row : Row} {t : Truth}
    (h : db.eval row (inqWhere field values) = some t) :
    Database.isReservedKey field = false := by
  simp only [inqWhere] at h
  split at h
  · split at h
    · exact reserved_false h
    · obtain ⟨t, ht⟩ := (eval_logical_eq_some .or h).2 _ List.mem_cons_self
      exact reserved_false ht
  · exact reserved_false h

theorem reserved_false_of_ninWhere {values : List Scalar} {db : Database} {row : Row} {t : Truth}
    (h : db.eval row (ninWhere field values) = some t) :
    Database.isReservedKey field = false := by
  simp only [ninWhere] at h
  split at h
  · split at h
    · exact reserved_false h
    · obtain ⟨t, ht⟩ := (eval_logical_eq_some .and h).2 _ List.mem_cons_self
      exact reserved_false ht
  · exact reserved_false h

theorem ne_undefined_of_equals {db : Database} {stored value : Scalar} {t : Truth}
    (h : db.condition field stored (.equals value) = some t) : value ≠ .undefined := by
  rintro rfl
  cases h

section Exact

variable {db : Database} {row : Row} {t t' : Truth} {w' : Where}

theorem invertible_of_buildComparison {comparator : Comparator} {value : Literal}
    (h : buildComparison options field comparator value = .ok w)
    (h' : buildComparison options field (inverseComparator comparator) value = .ok w')
    (ht : db.eval row w = some t) (ht' : db.eval row w' = some t') :
    Database.isReservedKey field = false ∧ hasOperandFor comparator value := by
  unfold buildComparison at h h'
  obtain ⟨_, hsafe, h⟩ := bind_eq_ok.mp h
  simp only [hsafe, bind, Except.bind] at h'
  cases comparator with
  | inq =>
    cases value with
    | single value => cases h
    | list values =>
      obtain ⟨_, _, h⟩ := bind_eq_ok.mp h
      cases h
      exact ⟨reserved_false_of_inqWhere ht, rfl⟩
  | nin =>
    cases value with
    | single value => cases h
    | list values =>
      obtain ⟨_, _, h⟩ := bind_eq_ok.mp h
      cases h
      exact ⟨reserved_false_of_ninWhere ht, rfl⟩
  | eq =>
    cases value <;> cases h
    all_goals
      have hfield := reserved_false ht
      rw [db.eval_property hfield] at ht
    · exact ⟨hfield, by simpa [hasOperandFor] using ne_undefined_of_equals ht⟩
    · cases ht
  | neq =>
    cases value <;> cases h <;> cases h'
    all_goals
      have hfield := reserved_false ht
      rw [db.eval_property hfield] at ht ht'
    · exact ⟨hfield, by simpa [hasOperandFor] using ne_undefined_of_equals ht'⟩
    · cases ht
  | _ =>
    cases value <;> cases h
    all_goals
      have hfield := reserved_false ht
      rw [db.eval_property hfield] at ht
    · exact ⟨hfield, rfl⟩
    · cases ht

theorem reserved_false_of_lengthWhere {comparator : Comparator} {value : Rat}
    (h : lengthWhere options field comparator value = .ok w) (ht : db.eval row w = some t) :
    Database.isReservedKey field = false := by
  have hmap {length : Rat} {clause : Text → Condition}
      (h : (underscorePattern options length).map (fun p => Where.property field (clause p)) =
        .ok w) : Database.isReservedKey field = false := by
    cases hpattern : underscorePattern options length <;> rw [hpattern] at h <;> cases h
    exact reserved_false ht
  cases comparator with
  | inq => cases h
  | nin => cases h
  | lt => exact hmap h
  | _ =>
    simp only [lengthWhere] at h
    split at h
    · cases h
      exact reserved_false ht
    · exact hmap h

theorem invertible_of_intervalWhere {comparator : Comparator} {unsupported : String}
    {first second gte gt lte lt : WhereOperator × Scalar}
    (h : intervalWhere field comparator unsupported [first, second] gte gt lte lt = .ok w)
    (ht : db.eval row w = some t) :
    Database.isReservedKey field = false ∧ (comparator = .eq → second.1 ≠ .le) := by
  cases comparator <;> cases h
  case eq =>
    have hmembers := (eval_logical_eq_some .and ht).2
    obtain ⟨t₁, ht₁⟩ := hmembers _ List.mem_cons_self
    obtain ⟨t₂, ht₂⟩ := hmembers _ (List.mem_cons_of_mem _ List.mem_cons_self)
    have hfield := reserved_false ht₁
    refine ⟨hfield, fun _ hle => ?_⟩
    rw [db.eval_property hfield, hle] at ht₂
    cases ht₂
  all_goals exact ⟨reserved_false ht, nofun⟩

theorem invertible_of_buildFieldFunction {name : FieldFunction} {comparator : Comparator}
    {value : Rat} (h : buildFieldFunction options name field comparator value = .ok w)
    (ht : db.eval row w = some t) :
    Database.isReservedKey field = false ∧ !(name = .ceiling && comparator = .eq) := by
  unfold buildFieldFunction at h
  obtain ⟨_, _, h⟩ := bind_eq_ok.mp h
  cases name with
  | ceiling =>
    obtain ⟨hfield, hne⟩ := invertible_of_intervalWhere h ht
    exact ⟨hfield, by simpa using hne⟩
  | year => exact ⟨(invertible_of_intervalWhere h ht).1, by simp⟩
  | floor => exact ⟨(invertible_of_intervalWhere h ht).1, by simp⟩
  | round => exact ⟨(invertible_of_intervalWhere h ht).1, by simp⟩

/-- A leaf whose clause and inverse have truth values is invertible. -/
theorem invertible_of_buildLeaf {leaf : Leaf} (h : buildLeaf options leaf = .ok w)
    (h' : buildNegatedLeaf options leaf = .ok w') (ht : db.eval row w = some t)
    (ht' : db.eval row w' = some t') : leaf.invertible := by
  cases leaf with
  | comparison field comparator value =>
    obtain ⟨hfield, hoperand⟩ := invertible_of_buildComparison h h' ht ht'
    simp [Leaf.invertible, hfield, hoperand]
  | fncmp name field comparator value =>
    obtain ⟨hfield, hne⟩ := invertible_of_buildFieldFunction h ht
    simp only [Leaf.invertible, hfield, hne, Bool.not_false, Bool.and_self]
  | function name field arg caseInsensitive transform negated =>
    obtain ⟨_, _, h⟩ := bind_eq_ok.mp h
    cases arg <;> cases h
    simp [Leaf.invertible, reserved_false ht]
  | indexofcmp field comparator value needle =>
    obtain ⟨_, hnegate, _⟩ := bind_eq_ok.mp h'
    obtain ⟨_, _, h⟩ := bind_eq_ok.mp h
    have hfield : Database.isReservedKey field = false := by
      split at h
      · cases h
        exact reserved_false ht
      · split at h <;> cases h
        exact reserved_false ht
    have hne : !(comparator = .gt && value = -1) := by
      by_contra hcase
      simp only [Bool.not_eq_true', Bool.not_eq_false, Bool.and_eq_true, decide_eq_true_eq]
        at hcase
      obtain ⟨rfl, rfl⟩ := hcase
      simp [negateIndexOfExpression] at hnegate
    simp only [Leaf.invertible, hfield, hne, Bool.not_false, Bool.and_self]
  | substrcmp field start length comparator literal =>
    obtain ⟨_, _, h⟩ := bind_eq_ok.mp h
    obtain ⟨_, _, h⟩ := bind_eq_ok.mp h
    obtain ⟨_, _, h⟩ := bind_eq_ok.mp h
    cases h
    simp [Leaf.invertible, reserved_false ht]
  | lengthcmp field comparator value =>
    obtain ⟨_, _, h⟩ := bind_eq_ok.mp h
    obtain ⟨_, _, h⟩ := bind_eq_ok.mp h
    simp [Leaf.invertible, reserved_false_of_lengthWhere h ht]
  | transformcmp transform field comparator value => rfl
  | stringfncmp name args comparator value => rfl
  | datepart part field comparator value => rfl

end Exact

end Leaves

end LoopbackOData
