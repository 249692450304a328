import LoopbackOData.Filter.Complement
import LoopbackOData.Library.ListRelations

/-!
# Negated filters

When `buildWhere` translates `not e` to the complement of `e`.
-/

namespace LoopbackOData

open ThreeValued Outcome ListRelations

set_option autoImplicit false

/-! ## Errors -/

section Errors

variable (options : ParseOptions) (field : Text)

/-- A filter rejected for its functions names at least one of them. -/
def NamesFunctions (err : FilterError) : Prop := err ≠ .unsupportedFilter []

theorem names_assertSafeFilterFieldName :
    Ends NamesFunctions (fun _ => True) (assertSafeFilterFieldName options field) := by
  fun_cases assertSafeFilterFieldName options field <;> first | trivial | exact nofun

theorem names_underscorePattern (length : Rat) :
    Ends NamesFunctions (fun _ => True) (underscorePattern options length) := by
  fun_cases underscorePattern options length <;> first | trivial | exact nofun

theorem names_checkItems (values : List Scalar) :
    Ends NamesFunctions (fun _ => True) (buildComparison.checkItems options values) := by
  fun_cases buildComparison.checkItems options values <;> first | trivial | exact nofun

theorem names_buildComparison (comparator : Comparator) (value : Literal) :
    Ends NamesFunctions (fun _ => True) (buildComparison options field comparator value) := by
  refine (names_assertSafeFilterFieldName options field).bind fun _ _ => ?_
  cases comparator <;> cases value <;>
    first | trivial | exact (names_checkItems options _).bind fun _ _ => trivial | exact nofun

theorem names_buildFunction (name : StringPredicate) (arg : Scalar)
    (caseInsensitive negated : Bool) : Ends NamesFunctions (fun _ => True)
      (buildFunction options name field arg caseInsensitive negated) := by
  refine (names_assertSafeFilterFieldName options field).bind fun _ _ => ?_
  cases arg <;> first | trivial | exact nofun

theorem names_buildIndexOf (comparator : Comparator) (value : Rat) (needle : Text) :
    Ends NamesFunctions (fun _ => True) (buildIndexOf options field comparator value needle) := by
  refine (names_assertSafeFilterFieldName options field).bind fun _ _ => ?_
  dsimp only
  split
  · trivial
  · split
    · trivial
    · exact nofun

theorem names_checkSubstringStart (start : Rat) :
    Ends NamesFunctions (fun _ => True) (checkSubstringStart options start) := by
  fun_cases checkSubstringStart options start <;> first | trivial | exact nofun

theorem names_checkSubstringLength (length : Option Rat) :
    Ends NamesFunctions (fun _ => True) (checkSubstringLength options length) := by
  fun_cases checkSubstringLength options length <;> first | trivial | exact nofun

theorem names_buildSubstring (start : Rat) (length : Option Rat) (comparator : Equality)
    (literal : Text) : Ends NamesFunctions (fun _ => True)
      (buildSubstring options field start length comparator literal) := by
  refine (names_assertSafeFilterFieldName options field).bind fun _ _ => ?_
  refine (names_checkSubstringStart options start).bind fun _ _ => ?_
  exact (names_checkSubstringLength options length).bind fun _ _ => trivial

theorem names_checkLength (value : Rat) :
    Ends NamesFunctions (fun _ => True) (checkLength value) := by
  fun_cases checkLength value <;> first | trivial | exact nofun

theorem names_map_underscorePattern (length : Rat) (clause : Text → Where) :
    Ends NamesFunctions (fun _ => True) ((underscorePattern options length).map clause) :=
  (names_underscorePattern options length).bind (f := fun p => .ok (clause p)) fun _ _ => trivial

theorem names_lengthWhere (comparator : Comparator) (value : Rat) :
    Ends NamesFunctions (fun _ => True) (lengthWhere options field comparator value) := by
  fun_cases lengthWhere options field comparator value <;>
    first | trivial | exact names_map_underscorePattern options _ _ | exact nofun

theorem names_translateLengthComparison (comparator : Comparator) (value : Rat) :
    Ends NamesFunctions (fun _ => True)
      (translateLengthComparison options field comparator value) := by
  refine (names_assertSafeFilterFieldName options field).bind fun _ _ => ?_
  exact (names_checkLength value).bind fun _ _ => names_lengthWhere options field comparator value

theorem names_buildFieldFunction (name : FieldFunction) (comparator : Comparator) (value : Rat) :
    Ends NamesFunctions (fun _ => True)
      (buildFieldFunction options name field comparator value) := by
  refine (names_assertSafeFilterFieldName options field).bind fun _ _ => ?_
  cases name <;> cases comparator <;> first | trivial | exact nofun

theorem names_negateIndexOfExpression (comparator : Comparator) (value : Rat) :
    Ends NamesFunctions (fun _ => True) (negateIndexOfExpression comparator value) := by
  fun_cases negateIndexOfExpression comparator value <;> first | trivial | exact nofun

theorem names_negateLengthExpression (comparator : Comparator) :
    Ends NamesFunctions (fun _ => True) (negateLengthExpression comparator) := by
  cases comparator <;> first | trivial | exact nofun

theorem names_buildLeaf (leaf : Leaf) :
    Ends NamesFunctions (fun _ => True) (buildLeaf options leaf) := by
  cases leaf with
  | comparison => exact names_buildComparison ..
  | function => exact names_buildFunction ..
  | transformcmp => exact nofun
  | fncmp => exact names_buildFieldFunction ..
  | stringfncmp => exact nofun
  | datepart => exact nofun
  | indexofcmp => exact names_buildIndexOf ..
  | substrcmp => exact names_buildSubstring ..
  | lengthcmp => exact names_translateLengthComparison ..

theorem names_buildNegatedLeaf (leaf : Leaf) :
    Ends NamesFunctions (fun _ => True) (buildNegatedLeaf options leaf) := by
  cases leaf with
  | comparison => exact names_buildComparison ..
  | function => exact names_buildFunction ..
  | transformcmp => exact nofun
  | fncmp => exact (names_buildFieldFunction ..).bind fun _ _ => trivial
  | stringfncmp => exact nofun
  | datepart => exact nofun
  | indexofcmp =>
    exact (names_negateIndexOfExpression ..).bind fun _ _ => names_buildIndexOf ..
  | substrcmp => exact names_buildSubstring ..
  | lengthcmp =>
    exact (names_negateLengthExpression _).bind fun _ _ => names_translateLengthComparison ..

theorem names_buildNegated (e : ParsedExpression) :
    Ends NamesFunctions (fun _ => True) (buildNegated options e) := by
  induction e with
  | leaf leaf => exact names_buildNegatedLeaf options leaf
  | not e ih => exact nofun
  | lambda type path aliasName e ih => exact nofun
  | logical type es ih =>
    have hall : Ends NamesFunctions (fun _ => True) (buildNegatedAll options es) := by
      induction es with
      | nil => trivial
      | cons e es ihes =>
        refine (ih e List.mem_cons_self).bind fun _ _ => ?_
        exact (ihes fun e he => ih e (List.mem_cons_of_mem _ he)).bind fun _ _ => trivial
    exact hall.bind fun _ _ => trivial

theorem names_finishClauses (type : LogicalType) (clauses : List Where)
    (unsupported : List String) :
    Ends NamesFunctions (fun _ => True) (finishClauses type (clauses, unsupported)) := by
  cases unsupported with
  | nil => trivial
  | cons f fs => exact fun heq => by simp [List.eraseDups_cons] at heq

/-- Every unsupported filter names a function, which the loop over a conjunction relies on. -/
theorem names_buildWhere (e : ParsedExpression) :
    Ends NamesFunctions (fun _ => True) (buildWhere options e) := by
  induction e with
  | leaf leaf => exact names_buildLeaf options leaf
  | not e ih => exact names_buildNegated options e
  | lambda type path aliasName e ih => exact nofun
  | logical type es ih =>
    have hall : Ends NamesFunctions (fun _ => True) (buildClauses options es) := by
      induction es with
      | nil => trivial
      | cons e es ihes =>
        have hhead := ih e List.mem_cons_self
        have htail := ihes fun e he => ih e (List.mem_cons_of_mem _ he)
        rw [buildClauses]
        split
        · exact htail.bind fun _ _ => trivial
        · exact htail.bind fun _ _ => trivial
        · next heq => rwa [heq] at hhead
    exact hall.bind fun (clauses, unsupported) _ => names_finishClauses type clauses unsupported

end Errors

/-! ## Connectives -/

section Connectives

variable {options : ParseOptions}

theorem buildClauses_eq_ok {es : List ParsedExpression} {ws : List Where}
    (h : buildClauses options es = .ok (ws, [])) :
    List.Forall₂ (fun e w => buildWhere options e = .ok w) es ws := by
  induction es generalizing ws with
  | nil =>
    cases h
    exact .nil
  | cons e es ih =>
    rw [buildClauses] at h
    split at h
    · next w hw =>
      obtain ⟨⟨clauses, unsupported⟩, hrest, h⟩ := bind_eq_ok.mp h
      cases h
      exact .cons hw (ih hrest)
    · next functions hfunctions =>
      obtain ⟨⟨clauses, unsupported⟩, hrest, h⟩ := bind_eq_ok.mp h
      have hnames := names_buildWhere options e
      rw [hfunctions] at hnames
      simp only [pure, Except.pure, Except.ok.injEq, Prod.mk.injEq, List.append_eq_nil_iff] at h
      exact absurd (by rw [h.2.1]) hnames
    · cases h

/-- A translated connective is the connective of the translated members. -/
theorem buildWhere_logical_eq_ok {type : LogicalType} {es : List ParsedExpression} {w : Where}
    (h : buildWhere options (.logical type es) = .ok w) :
    ∃ ws, w = logicalWhere type ws ∧
      List.Forall₂ (fun e w => buildWhere options e = .ok w) es ws := by
  rw [buildWhere] at h
  obtain ⟨⟨ws, unsupported⟩, hclauses, h⟩ := bind_eq_ok.mp h
  cases unsupported with
  | nil =>
    cases h
    exact ⟨ws, rfl, buildClauses_eq_ok hclauses⟩
  | cons f fs => cases h

theorem buildNegatedAll_eq_ok {es : List ParsedExpression} {ws : List Where} :
    buildNegatedAll options es = .ok ws ↔
      List.Forall₂ (fun e w => buildNegated options e = .ok w) es ws := by
  induction es generalizing ws with
  | nil => cases ws <;> simp [buildNegatedAll]
  | cons e es ih =>
    rw [buildNegatedAll, bind_eq_ok]
    constructor
    · rintro ⟨w, hw, h⟩
      obtain ⟨ws', hws', h⟩ := bind_eq_ok.mp h
      cases h
      exact .cons hw (ih.mp hws')
    · rintro (_ | ⟨hw, hws⟩)
      exact ⟨_, hw, bind_eq_ok.mpr ⟨_, ih.mpr hws, rfl⟩⟩

theorem buildNegated_logical_eq_ok {type : LogicalType} {es : List ParsedExpression} {w : Where} :
    buildNegated options (.logical type es) = .ok w ↔
      ∃ ws, w = logicalWhere type.dual ws ∧
        List.Forall₂ (fun e w => buildNegated options e = .ok w) es ws := by
  rw [buildNegated, bind_eq_ok]
  constructor
  · rintro ⟨ws, hws, h⟩
    cases h
    exact ⟨ws, rfl, buildNegatedAll_eq_ok.mp hws⟩
  · rintro ⟨ws, rfl, hws⟩
    exact ⟨ws, buildNegatedAll_eq_ok.mpr hws, rfl⟩

theorem mem_allLeaves {es : List ParsedExpression} {leaf : Leaf} :
    leaf ∈ allLeaves es ↔ ∃ e ∈ es, leaf ∈ leaves e := by
  induction es with
  | nil => simp [allLeaves]
  | cons e es ih => simp [allLeaves, ih]

theorem allInvertible_iff {es : List ParsedExpression} :
    allInvertible es ↔ ∀ e ∈ es, invertible e := by
  induction es with
  | nil => simp [allInvertible]
  | cons e es ih => simp [allInvertible, ih]

/-- The properties that a filter reads. -/
def filterFields (e : ParsedExpression) : List Text := (leaves e).flatMap Leaf.fields

theorem filterFields_subset (type : LogicalType) {es : List ParsedExpression}
    {e : ParsedExpression} (he : e ∈ es) :
    ∀ field ∈ filterFields e, field ∈ filterFields (.logical type es) := by
  intro field hfield
  obtain ⟨leaf, hleaf, hmem⟩ := List.mem_flatMap.mp hfield
  exact List.mem_flatMap.mpr ⟨leaf, mem_allLeaves.mpr ⟨e, he, hleaf⟩, hmem⟩

theorem Complements.mono {fields fields' : List Text} {w w' : Where}
    (h : Complements fields w w') (hsub : ∀ field ∈ fields, field ∈ fields') :
    Complements fields' w w' :=
  fun db row hrow => h db row fun field hfield => hrow field (hsub field hfield)

/-- An invertible, definite filter: the inverse is accepted and has the opposite truth value. -/
theorem complements_buildNegated {e : ParsedExpression} {w : Where} (hinvertible : invertible e)
    (hdefinite : ∀ leaf ∈ leaves e, leaf.definite) (h : buildWhere options e = .ok w) :
    ∃ w', buildNegated options e = .ok w' ∧ Complements (filterFields e) w w' := by
  induction e generalizing w with
  | not e ih => cases hinvertible
  | lambda type path aliasName e ih => cases hinvertible
  | leaf leaf =>
    have hfields : filterFields (.leaf leaf) = leaf.fields := by
      simp [filterFields, leaves]
    rw [hfields]
    exact complements_buildLeaf hinvertible (hdefinite leaf (by simp [leaves])) h
  | logical type es ih =>
    obtain ⟨ws, rfl, hws⟩ := buildWhere_logical_eq_ok h
    simp only [invertible, Bool.and_eq_true, Bool.not_eq_true', List.isEmpty_eq_false_iff]
      at hinvertible
    obtain ⟨ws', hnegated, hcomplements⟩ := exists_forall₂_of_forall₂ hws fun e he w hw => by
      obtain ⟨w', hw', hcomplements⟩ := ih e he (allInvertible_iff.mp hinvertible.2 e he)
        (fun leaf hleaf => hdefinite leaf (mem_allLeaves.mpr ⟨e, he, hleaf⟩)) hw
      exact ⟨w', hw', hcomplements.mono (filterFields_subset type he)⟩
    have hne : ws ≠ [] := by
      rintro rfl
      cases hws
      exact hinvertible.1 rfl
    exact ⟨_, buildNegated_logical_eq_ok.mpr ⟨ws', rfl, hnegated⟩,
      complements_logical type hne hcomplements⟩

/-- A filter that has a truth value, as has its inverse, is invertible. -/
theorem invertible_of_buildNegated {e : ParsedExpression} {w w' : Where} {db : Database} {row : Row}
    {t t' : Truth} (h : buildWhere options e = .ok w) (h' : buildNegated options e = .ok w')
    (ht : db.eval row w = some t) (ht' : db.eval row w' = some t') : invertible e := by
  induction e generalizing w w' t t' with
  | not e ih => cases h'
  | lambda type path aliasName e ih => cases h
  | leaf leaf => exact invertible_of_buildLeaf h h' ht ht'
  | logical type es ih =>
    obtain ⟨ws, rfl, hws⟩ := buildWhere_logical_eq_ok h
    obtain ⟨ws', rfl, hws'⟩ := buildNegated_logical_eq_ok.mp h'
    obtain ⟨hne, hsome⟩ := eval_logical_eq_some type ht
    obtain ⟨_, hsome'⟩ := eval_logical_eq_some type.dual ht'
    have hnonempty : es.isEmpty = false := by
      cases hws
      · exact absurd rfl hne
      · rfl
    rw [invertible, hnonempty, Bool.not_false, Bool.true_and, allInvertible_iff]
    intro e he
    obtain ⟨w, hw, hbuild⟩ := exists_mem_of_forall₂ hws he
    obtain ⟨w', hw', hbuild'⟩ := exists_mem_of_forall₂ hws' he
    obtain ⟨t, ht⟩ := hsome w hw
    obtain ⟨t', ht'⟩ := hsome' w' hw'
    exact ih e he hbuild hbuild' ht ht'

end Connectives

/-! ## The negation of a filter -/

/-- The filter itself or, where it is a conjunction or disjunction, something it combines. -/
inductive Member (s : ParsedExpression) : ParsedExpression → Prop where
  | self : Member s s
  | logical {type : LogicalType} {es : List ParsedExpression} {e : ParsedExpression} :
    e ∈ es → Member s e → Member s (.logical type es)

theorem Member.trans {a b c : ParsedExpression} (hab : Member a b) (hbc : Member b c) :
    Member a c := by
  induction hbc with
  | self => exact hab
  | logical he _ ih => exact .logical he ih

/-- If the filter is translated then so is its negation, and on every row whose referenced
properties have values of the declared types the two clauses have opposite truth values. -/
def NegatesProperly (options : ParseOptions) (e : ParsedExpression) : Prop :=
  ∀ w, buildWhereFromParsedExpression e options = .ok w →
    ∃ w', buildWhereFromParsedExpression (.not e) options = .ok w' ∧
      ∀ (db : Database) (schema : Schema) (row : Row),
        (∀ field ∈ filterFields e, (schema field).Holds (row field)) →
          Opposite (db.eval row w) (db.eval row w')

theorem complements_typed {fields : List Text} {w w' : Where} (h : Complements fields w w')
    (db : Database) (schema : Schema) (row : Row)
    (hrow : ∀ field ∈ fields, (schema field).Holds (row field)) :
    Opposite (db.eval row w) (db.eval row w') :=
  h db row fun field hfield => (hrow field hfield).not_nullish

section Negation

variable {options : ParseOptions} {e : ParsedExpression} {w : Where}

theorem negatesProperly_of_invertible (hinvertible : invertible e)
    (hdefinite : ∀ leaf ∈ leaves e, leaf.definite) : NegatesProperly options e := by
  intro w h
  obtain ⟨w', hw', hcomplements⟩ := complements_buildNegated hinvertible hdefinite h
  exact ⟨w', hw', complements_typed hcomplements⟩

/-- The truth values on one row of texts, where nothing is smaller than a literal. -/
theorem NegatesProperly.opposite (hproper : NegatesProperly options e)
    (h : buildWhereFromParsedExpression e options = .ok w) :
    ∃ w', buildNegated options e = .ok w' ∧
      Opposite (Database.eval ⟨fun _ _ _ => .gt, fun _ _ _ => false⟩ (fun _ => .str []) w)
        (Database.eval ⟨fun _ _ _ => .gt, fun _ _ _ => false⟩ (fun _ => .str []) w') := by
  obtain ⟨w', hw', hopposite⟩ := hproper w h
  exact ⟨w', hw', hopposite _ (fun _ => .string) _ fun _ _ => trivial⟩

theorem NegatesProperly.invertible (hproper : NegatesProperly options e)
    (h : buildWhereFromParsedExpression e options = .ok w) : invertible e := by
  obtain ⟨w', hw', t, _, ht, ht'⟩ := hproper.opposite h
  exact invertible_of_buildNegated h hw' ht ht'

/-- `in` over a list with an undefined item is unknown where nothing else is found. -/
theorem not_known_inList {db : Database} {field : Text} {stored : Scalar} {values : List Scalar}
    (hne : ∀ v, db.compare field stored v ≠ .eq) (hmem : Scalar.undefined ∈ values) :
    ¬ (db.inList field stored values).Known := by
  have hunknown : db.comparison (· == .eq) field stored .undefined = .unknown := by
    simp [Database.comparison, Scalar.isNullish]
  rw [Truth.known_iff, Database.inList, Truth.any_eq_true, Truth.any_eq_false]
  rintro (htrue | hfalse)
  · obtain ⟨v, _, hv⟩ := List.mem_map.mp htrue
    unfold Database.comparison at hv
    split at hv
    · cases hv
    · rw [Truth.ofBool_eq_true, beq_iff_eq] at hv
      exact hne v hv
  · have := hfalse _ (List.mem_map_of_mem hmem)
    rw [hunknown] at this
    cases this

/-- A translated `in` or `not in` that is known has no undefined item. -/
theorem undefined_not_mem {db : Database} {field : Text} {stored : Scalar} {values : List Scalar}
    (hne : ∀ v, db.compare field stored v ≠ .eq)
    (h : (db.inList field stored (values.filter (· ≠ .null))).Known) :
    Scalar.undefined ∉ values := fun hmem =>
  not_known_inList hne (List.mem_filter.mpr ⟨hmem, by simp⟩) h

theorem known_of_inqWhere {db : Database} {row : Row} {field : Text} {values : List Scalar}
    {t : Truth} (hstored : (row field).isNullish = false)
    (ht : db.eval row (inqWhere field values) = some t) (hknown : t.Known)
    (hmem : Scalar.undefined ∈ values) :
    (db.inList field (row field) (values.filter (· ≠ .null))).Known := by
  have hfield := reserved_false_of_inqWhere ht
  have hnonNull : values.filter (· ≠ .null) ≠ [] :=
    List.ne_nil_of_mem (List.mem_filter.mpr ⟨hmem, by simp⟩)
  simp only [inqWhere, if_neg hnonNull] at ht
  split at ht
  · simp only [Database.eval, Database.evalAll, hfield, Database.condition, Database.equals,
      Database.operator, Database.isNull, hstored] at ht
    cases hlist : db.inList field (row field) (values.filter (· ≠ .null)) with
    | unknown =>
      rw [hlist] at ht
      cases ht
      exact absurd rfl hknown
    | true =>
      intro h
      cases h
    | false =>
      intro h
      cases h
  · rw [db.eval_property hfield] at ht
    cases ht
    exact hknown

theorem known_of_ninWhere {db : Database} {row : Row} {field : Text} {values : List Scalar}
    {t : Truth} (hstored : (row field).isNullish = false)
    (ht : db.eval row (ninWhere field values) = some t) (hknown : t.Known)
    (hmem : Scalar.undefined ∈ values) :
    (db.inList field (row field) (values.filter (· ≠ .null))).Known := by
  have hfield := reserved_false_of_ninWhere ht
  have hnonNull : values.filter (· ≠ .null) ≠ [] :=
    List.ne_nil_of_mem (List.mem_filter.mpr ⟨hmem, by simp⟩)
  simp only [ninWhere, if_neg hnonNull] at ht
  split at ht
  · simp only [Database.eval, Database.evalAll, hfield, Database.condition, Database.equals,
      Database.operator, Database.isNull, hstored] at ht
    cases hlist : db.inList field (row field) (values.filter (· ≠ .null)) with
    | unknown =>
      rw [hlist] at ht
      cases ht
      exact absurd rfl hknown
    | true =>
      intro h
      cases h
    | false =>
      intro h
      cases h
  · rw [db.eval_property hfield] at ht
    cases ht
    exact (Truth.known_not _).mp hknown

/-- An ordered comparison that is known has a present operand. -/
theorem present_of_known {db : Database} {test : Ordering → Bool} {field : Text}
    {stored literal : Scalar} (h : (db.comparison test field stored literal).Known) :
    literal.isNullish = false := by
  by_contra hnull
  simp [Database.comparison, hnull, Truth.Known] at h

/-- A leaf that negates properly is definite. -/
theorem NegatesProperly.definite {leaf : Leaf} (hproper : NegatesProperly options (.leaf leaf))
    (h : buildWhereFromParsedExpression (.leaf leaf) options = .ok w) : leaf.definite := by
  obtain ⟨w', _, t, hknown, ht, _⟩ := hproper.opposite h
  cases leaf with
  | comparison field comparator value =>
    have hbuild : buildComparison options field comparator value = .ok w := h
    unfold buildComparison at hbuild
    obtain ⟨_, _, hbuild⟩ := bind_eq_ok.mp hbuild
    cases comparator with
    | eq => rfl
    | neq => rfl
    | inq =>
      cases value with
      | single value => cases hbuild
      | list values =>
        obtain ⟨_, _, hbuild⟩ := bind_eq_ok.mp hbuild
        cases hbuild
        have hnot : Scalar.undefined ∉ values := fun hmem =>
          undefined_not_mem (by simp) (known_of_inqWhere rfl ht hknown hmem) hmem
        simpa [Leaf.definite] using hnot
    | nin =>
      cases value with
      | single value => cases hbuild
      | list values =>
        obtain ⟨_, _, hbuild⟩ := bind_eq_ok.mp hbuild
        cases hbuild
        have hnot : Scalar.undefined ∉ values := fun hmem =>
          undefined_not_mem (by simp) (known_of_ninWhere rfl ht hknown hmem) hmem
        simpa [Leaf.definite] using hnot
    | _ =>
      cases value with
      | list values =>
        cases hbuild
        have hfield := reserved_false ht
        rw [Database.eval_property _ hfield] at ht
        cases ht
      | single value =>
        cases hbuild
        have hfield := reserved_false ht
        rw [Database.eval_property _ hfield] at ht
        cases ht
        simpa [Leaf.definite] using present_of_known hknown
  | _ => rfl

theorem exists_buildWhere_of_member {s : ParsedExpression} (hmember : Member s e)
    (h : buildWhere options e = .ok w) : ∃ w, buildWhere options s = .ok w := by
  induction hmember generalizing w with
  | self => exact ⟨w, h⟩
  | logical he _ ih =>
    obtain ⟨ws, _, hws⟩ := buildWhere_logical_eq_ok h
    obtain ⟨w, _, hw⟩ := exists_mem_of_forall₂ hws he
    exact ih hw

theorem member_of_mem_leaves {leaf : Leaf} (hinvertible : LoopbackOData.invertible e)
    (hleaf : leaf ∈ leaves e) : Member (.leaf leaf) e := by
  induction e with
  | leaf l =>
    obtain rfl : leaf = l := by simpa [leaves] using hleaf
    exact .self
  | not e ih => cases hinvertible
  | lambda type path aliasName e ih => cases hinvertible
  | logical type es ih =>
    obtain ⟨e, he, hleaf⟩ := mem_allLeaves.mp hleaf
    rw [LoopbackOData.invertible, Bool.and_eq_true] at hinvertible
    exact .logical he (ih e he (allInvertible_iff.mp hinvertible.2 e he) hleaf)

theorem invertible_of_member {s : ParsedExpression} (hmember : Member s e)
    (hinvertible : LoopbackOData.invertible e) : LoopbackOData.invertible s := by
  induction hmember with
  | self => exact hinvertible
  | logical he _ ih =>
    rw [LoopbackOData.invertible, Bool.and_eq_true] at hinvertible
    exact ih (allInvertible_iff.mp hinvertible.2 _ he)

theorem mem_leaves_of_member {s : ParsedExpression} (hmember : Member s e) :
    ∀ leaf ∈ leaves s, leaf ∈ leaves e := by
  induction hmember with
  | self => exact fun _ h => h
  | logical he _ ih => exact fun leaf hleaf => mem_allLeaves.mpr ⟨_, he, ih leaf hleaf⟩

/-- For a filter that is translated: without ordered comparisons with a missing value its negation
is proper exactly when it is invertible, and in general the negations of the filter and of all its
members are proper exactly when it is invertible and definite. -/
theorem negatesProperly_iff_invertible
    (h : buildWhereFromParsedExpression e options = .ok w) :
    ((∀ leaf ∈ leaves e, leaf.definite) → (NegatesProperly options e ↔ invertible e)) ∧
    ((∀ s, Member s e → NegatesProperly options s) ↔
      invertible e ∧ ∀ leaf ∈ leaves e, leaf.definite) := by
  refine ⟨fun hdefinite => ⟨fun hproper => hproper.invertible h,
    fun hinvertible => negatesProperly_of_invertible hinvertible hdefinite⟩, ?_, ?_⟩
  · intro hproper
    have hinvertible := (hproper e .self).invertible h
    refine ⟨hinvertible, fun leaf hleaf => ?_⟩
    have hmember := member_of_mem_leaves hinvertible hleaf
    obtain ⟨w', hw'⟩ := exists_buildWhere_of_member hmember h
    exact (hproper _ hmember).definite hw'
  · rintro ⟨hinvertible, hdefinite⟩ s hmember
    exact negatesProperly_of_invertible (invertible_of_member hmember hinvertible)
      fun leaf hleaf => hdefinite leaf (mem_leaves_of_member hmember leaf hleaf)

end Negation

/-- `name eq 'x' and length(code) lt 3` is translated, and all of its members negate properly. -/
theorem negatesProperly_iff_invertible_conjunction :
    buildWhereFromParsedExpression (.logical .and [
        .leaf (.comparison "name".toList .eq (.single (.str ['x']))),
        .leaf (.lengthcmp "code".toList .lt 3)]) {} =
      .ok (.and [.property "name".toList (.equals (.str ['x'])),
        .property "code".toList (.like true ['_', '_', '_', '%'] false)]) ∧
    ∀ s, Member s (.logical .and [
        .leaf (.comparison "name".toList .eq (.single (.str ['x']))),
        .leaf (.lengthcmp "code".toList .lt 3)]) → NegatesProperly {} s := by
  refine ⟨by decide +kernel, ?_⟩
  exact (negatesProperly_iff_invertible
    (w := .and [.property "name".toList (.equals (.str ['x'])),
      .property "code".toList (.like true ['_', '_', '_', '%'] false)])
    (by decide +kernel)).2.mpr (by decide +kernel)

/-- `not (name eq 'x')` is translated, and its negation `not (not (name eq 'x'))` is not. -/
theorem not_negatesProperly_negation :
    ¬ NegatesProperly {} (.not (.leaf (.comparison "name".toList .eq (.single (.str ['x']))))) := by
  intro h
  obtain ⟨w', hw', _⟩ := h (.property "name".toList (.operator .neq (.single (.str ['x']))))
    (by decide +kernel)
  cases hw'

end LoopbackOData
