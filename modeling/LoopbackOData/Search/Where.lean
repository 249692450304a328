import LoopbackOData.Filter.Combining
import LoopbackOData.Filter.Patterns
import LoopbackOData.Search.Parser

/-!
# The `where` clause of a `$search`

`buildSearchWhere`: each term becomes a pattern for every searchable field, negations are pushed to
the terms. A row meets the clause exactly where the expression is true of it.
-/

namespace LoopbackOData

namespace Search

open ThreeValued

set_option autoImplicit false

def connectorSupportsIlike (connectorName : Option Text) : Bool :=
  match connectorName with
  | none => false
  | some name =>
    "postgres".toList <:+: asciiLower name || "cockroach".toList <:+: asciiLower name ||
      "memory".toList <:+: asciiLower name

/-- `ilike` and `nilike`, or `like` and `nlike`. -/
structure SearchComparisonStrategy where
  insensitive : Bool
  deriving DecidableEq, Repr

def getSearchComparisonStrategy (connectorName : Option Text) : SearchComparisonStrategy :=
  ⟨connectorSupportsIlike connectorName⟩

/-- A condition with the field that it is under. -/
abbrev FieldClause := Clause (Text × Condition)

/-- `%` before and after the escaped term. -/
def searchPattern (term : Text) : Text := '%' :: escapeLikeLiteral term ++ ['%']

variable (strategy : SearchComparisonStrategy)

def buildTermClause (term : Text) (fields : List Text) : Option FieldClause :=
  let clauses := fields.map fun field =>
    Clause.condition (field, Condition.like false (searchPattern term) strategy.insensitive)
  match clauses with
  | [] => none
  | [clause] => some clause
  | first :: _ => some ((combineWithOr (clauses.map some)).getD first)

/-- A field without a value does not contain the term either. -/
def buildNegatedTermClause (term : Text) (fields : List Text) : Option FieldClause :=
  let clauses := fields.map fun field =>
    Clause.disjunction [
      Clause.condition (field, Condition.like true (searchPattern term) strategy.insensitive),
      Clause.condition (field, Condition.equals .null)]
  match clauses with
  | [] => none
  | [clause] => some clause
  | first :: _ => some ((combineWithAnd (clauses.map some)).getD first)

def orInvalid (message : String) : Option FieldClause → Except SearchError FieldClause
  | none => .error (invalid message)
  | some clause => .ok clause

mutual

def buildSearchWhere (fields : List Text) : Bool → SearchAst → Except SearchError FieldClause
  | negate, .term value =>
    orInvalid "empty term." (if negate then buildNegatedTermClause strategy value fields
      else buildTermClause strategy value fields)
  | negate, .not node => buildSearchWhere fields (!negate) node
  | negate, .and nodes => do
    let children ← buildSearchWheres fields negate nodes
    orInvalid "empty conjunction." (if negate then combineWithOr (children.map some)
      else combineWithAnd (children.map some))
  | negate, .or nodes => do
    let children ← buildSearchWheres fields negate nodes
    orInvalid "empty disjunction." (if negate then combineWithAnd (children.map some)
      else combineWithOr (children.map some))

def buildSearchWheres (fields : List Text) :
    Bool → List SearchAst → Except SearchError (List FieldClause)
  | _, [] => .ok []
  | negate, node :: nodes => do
    return (← buildSearchWhere fields negate node) :: (← buildSearchWheres fields negate nodes)

end

/-! ## What the clause says of a row -/

/-- The truth of a condition on a row. -/
def rowTruth (db : Database) (row : Row) (clause : Text × Condition) : Truth :=
  (db.condition clause.1 (row clause.1) clause.2).getD .unknown

/-- The stored text contains the term, character by character after a folding. -/
def storedContains (fold : Char → Char) (term : Text) : Scalar → Bool
  | .str s => term.map fold <:+: s.map fold
  | _ => false

/-- The row contains the term in a field. -/
def contains (fold : Char → Char) (fields : List Text) (row : Row) (term : Text) : Bool :=
  fields.any fun field => storedContains fold term (row field)

/-- The folding that the patterns are matched after. -/
def SearchComparisonStrategy.folding (fold : Char → Char) : Char → Char :=
  if strategy.insensitive then fold else id

/-- The fields hold texts or nothing. -/
def HasTexts (row : Row) (fields : List Text) : Prop :=
  ∀ field ∈ fields, row field = .null ∨ ∃ s, row field = .str s

section Meaning

variable {strategy} {db : Database} {fold : Char → Char} {row : Row} {fields : List Text}
  {field term s : Text}

theorem matching_text (hreads : db.ReadsTexts fold) (negated : Bool) :
    db.matching negated (searchPattern term) strategy.insensitive (.str s) =
      .ofBool (storedContains (strategy.folding fold) term (.str s) != negated) := by
  have hpattern : db.matchesPattern strategy.insensitive (searchPattern term) (.str s) =
      storedContains (strategy.folding fold) term (.str s) := by
    rw [Bool.eq_iff_iff, storedContains, decide_eq_true_iff, searchPattern, escapeLikeLiteral_eq,
      SearchComparisonStrategy.folding]
    cases strategy.insensitive with
    | true =>
      rw [hreads.ilike, if_pos rfl]
      exact Like.matchesText_infix
    | false =>
      rw [hreads.like, if_neg Bool.false_ne_true]
      exact Like.matchesText_infix
  rw [Database.matching, hpattern]
  exact if_neg Bool.false_ne_true

theorem holds_pattern (hreads : db.ReadsTexts fold)
    (hfield : row field = .null ∨ ∃ s, row field = .str s) :
    (Clause.condition (field, Condition.like false (searchPattern term)
      strategy.insensitive)).Holds (rowTruth db row) ↔
    storedContains (strategy.folding fold) term (row field) = true := by
  rw [Clause.Holds, Clause.eval_condition, rowTruth]
  dsimp only
  rcases hfield with hnull | ⟨s, hs⟩
  · rw [hnull]
    simp [Database.condition, Database.matching, Scalar.isNullish, storedContains]
  · rw [hs, Database.condition, Option.getD_some, matching_text hreads, Truth.ofBool_eq_true,
      Bool.bne_false]

theorem holds_negatedPattern (hreads : db.ReadsTexts fold)
    (hfield : row field = .null ∨ ∃ s, row field = .str s) :
    (Clause.disjunction [
      Clause.condition (field, Condition.like true (searchPattern term) strategy.insensitive),
      Clause.condition (field, Condition.equals .null)]).Holds (rowTruth db row) ↔
    storedContains (strategy.folding fold) term (row field) = false := by
  rw [Clause.holds_disjunction]
  simp only [List.mem_cons, List.not_mem_nil, or_false, exists_eq_or_imp, exists_eq_left,
    Clause.Holds, Clause.eval_condition, rowTruth]
  rcases hfield with hnull | ⟨s, hs⟩
  · rw [hnull]
    simp [Database.condition, Database.equals, Database.isNull, Scalar.isNullish, storedContains]
  · have hpresent : db.condition field (.str s) (.equals .null) = some .false := rfl
    rw [hs, hpresent, Database.condition, Option.getD_some, matching_text hreads,
      Truth.ofBool_eq_true, Bool.bne_true, Bool.not_eq_true']
    simp

/-- One clause for each field. -/
theorem combineWithOr_fields {pattern : Text → FieldClause} (truth : Text × Condition → Truth)
    (hfields : fields ≠ []) (hsingle : ∀ field, (pattern field).SingleKey) :
    ∃ clause, combineWithOr ((fields.map pattern).map some) = some clause ∧ clause.SingleKey ∧
      (clause.Holds truth ↔ ∃ field ∈ fields, (pattern field).Holds truth) := by
  have hne : fields.map pattern ≠ [] := by simpa using hfields
  obtain ⟨clause, hclause, hsingle, hholds⟩ := combineWithOr_map_some truth hne fun clause h => by
    obtain ⟨field, _, rfl⟩ := List.mem_map.mp h
    exact hsingle field
  refine ⟨clause, hclause, hsingle, hholds.trans ?_⟩
  simp only [List.mem_map, exists_exists_and_eq_and]

theorem combineWithAnd_fields {pattern : Text → FieldClause} (truth : Text × Condition → Truth)
    (hfields : fields ≠ []) (hsingle : ∀ field, (pattern field).SingleKey) :
    ∃ clause, combineWithAnd ((fields.map pattern).map some) = some clause ∧ clause.SingleKey ∧
      (clause.Holds truth ↔ ∀ field ∈ fields, (pattern field).Holds truth) := by
  have hne : fields.map pattern ≠ [] := by simpa using hfields
  obtain ⟨clause, hclause, hsingle, hholds⟩ := combineWithAnd_map_some truth hne fun clause h => by
    obtain ⟨field, _, rfl⟩ := List.mem_map.mp h
    exact hsingle field
  exact ⟨clause, hclause, hsingle, hholds.trans List.forall_mem_map⟩

theorem buildTermClause_holds (hreads : db.ReadsTexts fold) (hfields : fields ≠ [])
    (hrow : HasTexts row fields) (term : Text) :
    ∃ clause, buildTermClause strategy term fields = some clause ∧ clause.SingleKey ∧
      (clause.Holds (rowTruth db row) ↔
        contains (strategy.folding fold) fields row term = true) := by
  match fields, hfields with
  | [field], _ =>
    refine ⟨_, rfl, .condition _, (holds_pattern hreads (hrow field List.mem_cons_self)).trans ?_⟩
    simp [contains]
  | field :: next :: rest, hfields =>
    obtain ⟨clause, hclause, hsingle, hholds⟩ :=
      combineWithOr_fields (rowTruth db row) hfields fun field => .condition
        (field, Condition.like false (searchPattern term) strategy.insensitive)
    refine ⟨clause, congrArg some (by rw [hclause]; rfl), hsingle, hholds.trans ?_⟩
    rw [contains, List.any_eq_true]
    exact exists_congr fun field => and_congr_right fun hfield =>
      holds_pattern hreads (hrow field hfield)

theorem buildNegatedTermClause_holds (hreads : db.ReadsTexts fold) (hfields : fields ≠ [])
    (hrow : HasTexts row fields) (term : Text) :
    ∃ clause, buildNegatedTermClause strategy term fields = some clause ∧ clause.SingleKey ∧
      (clause.Holds (rowTruth db row) ↔
        contains (strategy.folding fold) fields row term = false) := by
  match fields, hfields with
  | [field], _ =>
    refine ⟨_, rfl, .disjunction _,
      (holds_negatedPattern hreads (hrow field List.mem_cons_self)).trans ?_⟩
    simp [contains]
  | field :: next :: rest, hfields =>
    obtain ⟨clause, hclause, hsingle, hholds⟩ :=
      combineWithAnd_fields (rowTruth db row) hfields fun field => .disjunction [
        Clause.condition (field, Condition.like true (searchPattern term) strategy.insensitive),
        Clause.condition (field, Condition.equals .null)]
    refine ⟨clause, congrArg some (by rw [hclause]; rfl), hsingle, hholds.trans ?_⟩
    rw [contains, List.any_eq_false]
    refine forall_congr' fun field => imp_congr_right fun hfield => ?_
    rw [holds_negatedPattern hreads (hrow field hfield), Bool.not_eq_true]

theorem buildSearchWheres_eq {negate : Bool} {nodes : List SearchAst}
    {meets : SearchAst → FieldClause → Prop}
    (h : ∀ node ∈ nodes, ∃ clause, buildSearchWhere strategy fields negate node = .ok clause ∧
      meets node clause) :
    ∃ clauses, buildSearchWheres strategy fields negate nodes = .ok clauses ∧
      List.Forall₂ meets nodes clauses := by
  induction nodes with
  | nil => exact ⟨[], by rw [buildSearchWheres], .nil⟩
  | cons node nodes ih =>
    obtain ⟨clause, hclause, hmeets⟩ := h node List.mem_cons_self
    obtain ⟨clauses, hclauses, hall⟩ := ih fun node hnode => h node (List.mem_cons_of_mem _ hnode)
    refine ⟨clause :: clauses, ?_, .cons hmeets hall⟩
    rw [buildSearchWheres, hclause, hclauses]
    rfl

/-- The clause of a node, negated or not: it has a single key and says what the node says. -/
def Renders (strategy : SearchComparisonStrategy) (db : Database) (fold : Char → Char) (row : Row)
    (fields : List Text) (negate : Bool) (node : SearchAst) (clause : FieldClause) : Prop :=
  clause.SingleKey ∧ (clause.Holds (rowTruth db row) ↔
    node.holds (contains (strategy.folding fold) fields row) = !negate)

theorem renders_all {negate : Bool} {nodes : List SearchAst} {clauses : List FieldClause}
    (h : List.Forall₂ (Renders strategy db fold row fields negate) nodes clauses) :
    (∀ clause ∈ clauses, clause.SingleKey) ∧
    ((∀ clause ∈ clauses, clause.Holds (rowTruth db row)) ↔
      ∀ node ∈ nodes, node.holds (contains (strategy.folding fold) fields row) = !negate) := by
  induction h with
  | nil => simp
  | cons hrenders _ ih =>
    refine ⟨List.forall_mem_cons.mpr ⟨hrenders.1, ih.1⟩, ?_⟩
    rw [List.forall_mem_cons, List.forall_mem_cons, hrenders.2, ih.2]

theorem renders_any {negate : Bool} {nodes : List SearchAst} {clauses : List FieldClause}
    (h : List.Forall₂ (Renders strategy db fold row fields negate) nodes clauses) :
    (∃ clause ∈ clauses, clause.Holds (rowTruth db row)) ↔
      ∃ node ∈ nodes, node.holds (contains (strategy.folding fold) fields row) = !negate := by
  induction h with
  | nil => simp
  | cons hrenders _ ih =>
    simp only [List.mem_cons, exists_eq_or_imp]
    rw [hrenders.2, ih]

/-- The conjunction of the clauses of some nodes, and their disjunction. -/
theorem combineWithAnd_renders {negate : Bool} {nodes : List SearchAst}
    {clauses : List FieldClause} (hne : nodes ≠ [])
    (h : List.Forall₂ (Renders strategy db fold row fields negate) nodes clauses) :
    ∃ clause, combineWithAnd (clauses.map some) = some clause ∧ clause.SingleKey ∧
      (clause.Holds (rowTruth db row) ↔
        ∀ node ∈ nodes, node.holds (contains (strategy.folding fold) fields row) = !negate) := by
  have hclauses : clauses ≠ [] := by
    rintro rfl
    exact hne (List.forall₂_nil_right_iff.mp h)
  obtain ⟨clause, hclause, hsingle, hholds⟩ :=
    combineWithAnd_map_some (rowTruth db row) hclauses (renders_all h).1
  exact ⟨clause, hclause, hsingle, hholds.trans (renders_all h).2⟩

theorem combineWithOr_renders {negate : Bool} {nodes : List SearchAst}
    {clauses : List FieldClause} (hne : nodes ≠ [])
    (h : List.Forall₂ (Renders strategy db fold row fields negate) nodes clauses) :
    ∃ clause, combineWithOr (clauses.map some) = some clause ∧ clause.SingleKey ∧
      (clause.Holds (rowTruth db row) ↔
        ∃ node ∈ nodes, node.holds (contains (strategy.folding fold) fields row) = !negate) := by
  have hclauses : clauses ≠ [] := by
    rintro rfl
    exact hne (List.forall₂_nil_right_iff.mp h)
  obtain ⟨clause, hclause, hsingle, hholds⟩ :=
    combineWithOr_map_some (rowTruth db row) hclauses (renders_all h).1
  exact ⟨clause, hclause, hsingle, hholds.trans (renders_any h)⟩

variable (strategy fields row) in
/-- Each node has a clause, and the negations of the node and of the clause agree. -/
theorem buildSearchWhere_renders (hreads : db.ReadsTexts fold) (hfields : fields ≠ [])
    (hrow : HasTexts row fields) {node : SearchAst} (hformed : node.Formed) :
    ∀ negate, ∃ clause, buildSearchWhere strategy fields negate node = .ok clause ∧
      Renders strategy db fold row fields negate node clause := by
  induction hformed with
  | term value =>
    intro negate
    cases negate with
    | true =>
      obtain ⟨clause, hclause, hsingle, hholds⟩ :=
        buildNegatedTermClause_holds hreads hfields hrow value
      refine ⟨clause, ?_, hsingle, ?_⟩
      · rw [buildSearchWhere, if_pos rfl, hclause]
        rfl
      · rw [hholds, SearchAst.holds, Bool.not_true]
    | false =>
      obtain ⟨clause, hclause, hsingle, hholds⟩ :=
        buildTermClause_holds hreads hfields hrow value
      refine ⟨clause, ?_, hsingle, ?_⟩
      · rw [buildSearchWhere, if_neg Bool.false_ne_true, hclause]
        rfl
      · rw [hholds, SearchAst.holds, Bool.not_false]
  | @not node _ ih =>
    intro negate
    obtain ⟨clause, hclause, hsingle, hholds⟩ := ih (!negate)
    refine ⟨clause, by rw [buildSearchWhere, hclause], hsingle, hholds.trans ?_⟩
    rw [SearchAst.holds, Bool.not_eq_eq_eq_not]
  | @and nodes hne _ ih =>
    intro negate
    obtain ⟨clauses, hclauses, hall⟩ := buildSearchWheres_eq fun node hnode => ih node hnode negate
    rw [buildSearchWhere, hclauses]
    cases negate with
    | true =>
      -- the negation of a conjunction is the disjunction of the negated members
      obtain ⟨clause, hclause, hsingle, hholds⟩ := combineWithOr_renders hne hall
      refine ⟨clause, by simp only [Bind.bind, Except.bind, if_true, hclause, orInvalid], hsingle,
        hholds.trans ?_⟩
      rw [SearchAst.holds, holdsAll_eq, Bool.not_true, List.all_eq_false]
      simp only [Bool.not_eq_true]
    | false =>
      obtain ⟨clause, hclause, hsingle, hholds⟩ := combineWithAnd_renders hne hall
      refine ⟨clause, by simp [Bind.bind, Except.bind, hclause, orInvalid], hsingle,
        hholds.trans ?_⟩
      rw [SearchAst.holds, holdsAll_eq, Bool.not_false, List.all_eq_true]
  | @or nodes hne _ ih =>
    intro negate
    obtain ⟨clauses, hclauses, hall⟩ := buildSearchWheres_eq fun node hnode => ih node hnode negate
    rw [buildSearchWhere, hclauses]
    cases negate with
    | true =>
      obtain ⟨clause, hclause, hsingle, hholds⟩ := combineWithAnd_renders hne hall
      refine ⟨clause, by simp only [Bind.bind, Except.bind, if_true, hclause, orInvalid], hsingle,
        hholds.trans ?_⟩
      rw [SearchAst.holds, holdsAny_eq, Bool.not_true, List.any_eq_false]
      simp only [Bool.not_eq_true]
    | false =>
      obtain ⟨clause, hclause, hsingle, hholds⟩ := combineWithOr_renders hne hall
      refine ⟨clause, by simp [Bind.bind, Except.bind, hclause, orInvalid], hsingle,
        hholds.trans ?_⟩
      rw [SearchAst.holds, holdsAny_eq, Bool.not_false, List.any_eq_true]

variable (fields row) in
/-- A row with texts meets the clause of a `$search` text exactly where the expression of the text
is true, a term being one that a searchable field contains literally: up to the case of letters
where the connector has `ilike`. -/
theorem buildSearchWhere_holds (connectorName : Option Text) (hreads : db.ReadsTexts fold)
    {text : Text} {e : SearchExpression} (hwrites : WritesText text e) (hfields : fields ≠ [])
    (hrow : HasTexts row fields) :
    ∃ result clause, parseSearchExpression text = .ok (some result) ∧
      buildSearchWhere (getSearchComparisonStrategy connectorName) fields false result.node =
        .ok clause ∧
      (clause.eval (rowTruth db row) = .true ↔
        e.holds (contains (if connectorSupportsIlike connectorName then fold else id) fields row) =
          true) := by
  obtain ⟨result, hresult, hmeans⟩ := parseSearchExpression_writes hwrites
  obtain ⟨clause, hclause, -, hholds⟩ :=
    buildSearchWhere_renders (getSearchComparisonStrategy connectorName) row fields hreads hfields
      hrow hmeans.formed false
  refine ⟨result, clause, hresult, hclause, hholds.trans ?_⟩
  rw [hmeans.holds]
  rfl

end Meaning

/-- `50% NOT "x y"`. -/
def sampleSearch : Text := "50% NOT \"x y\"".toList

def sampleExpression : SearchExpression :=
  .and (.term "50%".toList) (.not (.term "x y".toList))

theorem isWord_of_letters {value : Text} (hne : value ≠ []) (h : ∀ c ∈ value, isSpace c = false) :
    IsWord value where
  nonempty := hne
  head := fun c hc => h c (List.mem_of_mem_head? hc)
  last := fun c hc => h c (List.mem_of_mem_getLast? hc)

/-- A word without escapes. -/
theorem spellsWord_self (value : Text) (h : ∀ c ∈ value, breaksWord c = false ∧ c ≠ '\\') :
    SpellsWord value value := by
  induction value with
  | nil => exact .nil
  | cons c value ih =>
    obtain ⟨hbreaks, hescape⟩ := h c List.mem_cons_self
    exact .plain hbreaks hescape (ih fun c hc => h c (List.mem_cons_of_mem _ hc))

theorem writesText_sampleSearch : WritesText sampleSearch sampleExpression := by
  have hphrase : SpellsTokens "\"x y\"".toList [.term "x y".toList] :=
    .phrase (.inl rfl) (.plain (by decide) (by decide) (.plain (by decide) (by decide)
      (.plain (by decide) (by decide) .nil))) (by decide) .nil
  have hnot : SpellsTokens "NOT \"x y\"".toList [.not, .term "x y".toList] :=
    .word (spellsWord_self "NOT".toList (by decide))
      (isWord_of_letters (by decide) (by decide)) (by decide) (.space (by decide) hphrase)
  have hall : SpellsTokens sampleSearch [.term "50%".toList, .not, .term "x y".toList] :=
    .word (spellsWord_self "50%".toList (by decide))
      (isWord_of_letters (by decide) (by decide)) (by decide) (.space (by decide) hnot)
  exact ⟨_, hall, .conjunction (.implied (.unary (.term _)) (.unary (.not (.term _))))⟩

def sampleRow : Row := fun field =>
  if field = "title".toList then .str "save 50% now".toList else .null

theorem buildSearchWhere_holds_sampleSearch :
    ∃ result clause, parseSearchExpression sampleSearch = .ok (some result) ∧
      buildSearchWhere (getSearchComparisonStrategy (some "mysql".toList))
        ["title".toList, "note".toList] false result.node = .ok clause ∧
      clause.eval (rowTruth (textDatabase Char.toLower) sampleRow) = .true := by
  obtain ⟨result, clause, hresult, hclause, hiff⟩ :=
    buildSearchWhere_holds sampleRow ["title".toList, "note".toList] (some "mysql".toList)
      (readsTexts_textDatabase Char.toLower) writesText_sampleSearch (by decide) (by
        intro field hfield
        rcases List.mem_cons.mp hfield with rfl | hfield
        · exact .inr ⟨_, rfl⟩
        · rw [List.mem_singleton.mp hfield]
          exact .inl rfl)
  exact ⟨result, clause, hresult, hclause, hiff.mpr (by decide)⟩

/-- The connector of the memory database has `ilike`: `abc` finds `ABC`. -/
theorem not_buildSearchWhere_literal :
    ¬ ∀ (connectorName : Option Text) (db : Database) (fold : Char → Char), db.ReadsTexts fold →
      ∀ (text : Text) (e : SearchExpression), WritesText text e → ∀ fields, fields ≠ [] →
      ∀ row, HasTexts row fields →
      ∃ result clause, parseSearchExpression text = .ok (some result) ∧
        buildSearchWhere (getSearchComparisonStrategy connectorName) fields false result.node =
          .ok clause ∧
        (clause.eval (rowTruth db row) = .true ↔ e.holds (contains id fields row) = true) := by
  intro h
  let row : Row := fun _ => .str "ABC".toList
  have hwrites : WritesText "abc".toList (.term "abc".toList) :=
    ⟨[.term "abc".toList], .word (spellsWord_self "abc".toList (by decide))
      (isWord_of_letters (by decide) (by decide)) (by decide) .nil,
      .conjunction (.unary (.term _))⟩
  obtain ⟨result, clause, hresult, hclause, hiff⟩ := h (some "memory".toList)
    (textDatabase Char.toLower) Char.toLower (readsTexts_textDatabase Char.toLower) _ _ hwrites
    ["name".toList] (by decide) row fun _ _ => .inr ⟨_, rfl⟩
  obtain ⟨result', hresult', hmeans⟩ := parseSearchExpression_writes hwrites
  obtain ⟨clause', hclause', -, hholds⟩ := buildSearchWhere_renders
    (getSearchComparisonStrategy (some "memory".toList)) row ["name".toList]
    (readsTexts_textDatabase Char.toLower) (by decide) (fun _ _ => .inr ⟨_, rfl⟩)
    hmeans.formed false
  rw [hresult] at hresult'
  obtain rfl := Option.some.inj (Except.ok.inj hresult')
  rw [hclause] at hclause'
  obtain rfl := Except.ok.inj hclause'
  have hfound : clause.eval (rowTruth (textDatabase Char.toLower) row) = .true := by
    refine hholds.mpr ?_
    rw [hmeans.holds]
    decide
  exact absurd (hiff.mp hfound) (by decide)

end Search

end LoopbackOData
