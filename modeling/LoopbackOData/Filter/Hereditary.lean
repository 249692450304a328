import LoopbackOData.Filter.Splitting

/-!
# Properties that the parts of a filter inherit

A property of expressions that a connective has with its members, a negation with what it negates
and a lambda of either kind with its predicate is inherited by everything that the filter is
decomposed into. A property that the parser's constructors keep holds of what is parsed.
-/

namespace LoopbackOData

set_option autoImplicit false

open Outcome

/-- Rewriting and splitting a filter keeps the property. -/
structure Hereditary (P : ParsedExpression → Prop) : Prop where
  logical : ∀ type expressions, P (.logical type expressions) ↔ ∀ expr ∈ expressions, P expr
  not : ∀ expr, P (.not expr) ↔ P expr
  dual : ∀ type type' path aliasName predicate,
    P (.lambda type path aliasName predicate) → P (.lambda type' path aliasName (.not predicate))

theorem Hereditary.and {P Q : ParsedExpression → Prop} (hP : Hereditary P) (hQ : Hereditary Q) :
    Hereditary fun expr => P expr ∧ Q expr where
  logical type expressions := by
    rw [hP.logical, hQ.logical]
    constructor
    · exact fun h expr hexpr => ⟨h.1 expr hexpr, h.2 expr hexpr⟩
    · exact fun h => ⟨fun expr hexpr => (h expr hexpr).1, fun expr hexpr => (h expr hexpr).2⟩
  not expr := by rw [hP.not, hQ.not]
  dual type type' path aliasName predicate h :=
    ⟨hP.dual _ _ _ _ _ h.1, hQ.dual _ _ _ _ _ h.2⟩

/-! ## Decomposing -/

/-- A lambda at the top, as the expression that it was. -/
def LambdaExpression.toExpression (lambda : LambdaExpression) : ParsedExpression :=
  .lambda lambda.type lambda.path lambda.aliasName lambda.predicate

/-- All the parts of a filter have the property. -/
structure Inherit (P : ParsedExpression → Prop) (filter : ParsedODataQuery) : Prop where
  whereExpression : ∀ expr ∈ filter.whereExpression, P expr
  postFilter : ∀ expr ∈ filter.postFilter, P expr
  lambdas : ∀ lambda ∈ filter.lambdas, P lambda.toExpression
  lambdaExpression : ∀ expr ∈ filter.lambdaExpression, P expr

structure InheritSplit (P : ParsedExpression → Prop) (split : SplitFilter) : Prop where
  lambdas : ∀ lambda ∈ split.lambdas, P lambda.toExpression
  predicate : ∀ expr ∈ split.predicate, P expr
  lambdaExpression : ∀ expr ∈ split.lambdaExpression, P expr

section Decomposing

variable {P : ParsedExpression → Prop} (hP : Hereditary P)

include hP

theorem Hereditary.rewriteNegatedLambdas {expr : ParsedExpression} (h : P expr) :
    P (rewriteNegatedLambdas expr) := by
  induction hsize : sizeOf expr using Nat.strong_induction_on generalizing expr with
  | _ n ih =>
    subst hsize
    cases expr with
    | leaf leaf => rwa [rewriteNegatedLambdas_leaf]
    | lambda type path aliasName predicate => rwa [rewriteNegatedLambdas_lambda]
    | logical type expressions =>
      rw [hP.logical] at h
      rw [rewriteNegatedLambdas_logical, hP.logical, List.forall_mem_map]
      exact fun member hmember => ih _ (sizeOf_member_lt hmember) (h member hmember) rfl
    | not inner =>
      rw [hP.not] at h
      have hinner := ih (sizeOf inner) (by simp) h rfl
      have hle : sizeOf (LoopbackOData.rewriteNegatedLambdas inner) ≤ sizeOf inner :=
        (rewriteSized inner).2
      rw [rewriteNegatedLambdas_not]
      split
      · next again heq =>
        rw [heq, hP.not] at hinner
        rw [heq, ParsedExpression.not.sizeOf_spec] at hle
        exact ih _ (by simp; omega) hinner rfl
      · next heq =>
        rw [heq] at hinner
        exact hP.dual _ _ _ _ _ hinner
      · rwa [hP.not]

theorem Hereditary.collectAndTerms {expr : ParsedExpression} (h : P expr) :
    ∀ term ∈ collectAndTerms expr, P term := by
  induction expr with
  | leaf leaf => simpa [LoopbackOData.collectAndTerms] using h
  | not expr _ => simpa [LoopbackOData.collectAndTerms] using h
  | lambda type path aliasName predicate _ => simpa [LoopbackOData.collectAndTerms] using h
  | logical type expressions ih =>
    cases type with
    | or => simpa [LoopbackOData.collectAndTerms] using h
    | and =>
      rw [hP.logical] at h
      rw [LoopbackOData.collectAndTerms]
      induction expressions with
      | nil => simp [collectAllAndTerms]
      | cons first rest ihrest =>
        rw [collectAllAndTerms, List.forall_mem_append]
        rw [List.forall_mem_cons] at h
        exact ⟨ih first List.mem_cons_self h.1,
          ihrest (fun expr hexpr => ih expr (List.mem_cons_of_mem _ hexpr)) h.2⟩

theorem Hereditary.joinTerms {terms : List ParsedExpression} (h : ∀ term ∈ terms, P term) :
    ∀ expr ∈ joinTerms terms, P expr := by
  unfold LoopbackOData.joinTerms
  split
  · simp
  · simpa using h
  · intro expr hexpr
    obtain rfl := Option.some.inj hexpr
    rwa [hP.logical]

theorem Hereditary.splitTerms {expr : ParsedExpression} (hexpr : P expr)
    {terms : List ParsedExpression} {lambdas : List LambdaExpression}
    {others : List ParsedExpression} {split : SplitFilter} (hterms : ∀ term ∈ terms, P term)
    (hlambdas : ∀ lambda ∈ lambdas, P lambda.toExpression) (hothers : ∀ term ∈ others, P term)
    (h : splitTerms expr terms lambdas others = .ok split) : InheritSplit P split := by
  induction terms generalizing lambdas others with
  | nil =>
    obtain rfl := Except.ok.inj h
    exact ⟨hlambdas, hP.joinTerms hothers, by simp⟩
  | cons term terms ih =>
    obtain ⟨hterm, hrest⟩ := List.forall_mem_cons.mp hterms
    -- a term without lambdas joins the others
    have hkept (h : LoopbackOData.splitTerms expr terms lambdas (others ++ [term]) = .ok split) :
        InheritSplit P split := by
      refine ih hrest hlambdas ?_ h
      rw [List.forall_mem_append, List.forall_mem_singleton]
      exact ⟨hothers, hterm⟩
    cases term with
    | lambda type path aliasName predicate =>
      refine ih hrest ?_ hothers h
      rw [List.forall_mem_append, List.forall_mem_singleton]
      exact ⟨hlambdas, hterm⟩
    | not inner =>
      rw [LoopbackOData.splitTerms] at h
      split at h
      · cases h
      · exact hkept h
    | leaf leaf => exact hkept h
    | logical type expressions =>
      rw [LoopbackOData.splitTerms] at h
      · split at h
        · obtain rfl := Except.ok.inj h
          exact ⟨by simp, by simp, by simpa using hexpr⟩
        · exact hkept h
      · simp
      · simp

theorem Hereditary.splitLambdaExpressions {expr : ParsedExpression} {split : SplitFilter}
    (hexpr : P expr) (h : splitLambdaExpressions expr = .ok split) : InheritSplit P split := by
  have hpredicate : InheritSplit P { predicate := some expr } :=
    ⟨by simp, by simpa using hexpr, by simp⟩
  have hwhole : InheritSplit P { lambdaExpression := some expr } :=
    ⟨by simp, by simp, by simpa using hexpr⟩
  unfold LoopbackOData.splitLambdaExpressions at h
  split at h
  · obtain rfl := Except.ok.inj h
    exact ⟨List.forall_mem_singleton.mpr hexpr, by simp, by simp⟩
  · split at h
    · obtain rfl := Except.ok.inj h
      exact hwhole
    · obtain rfl := Except.ok.inj h
      exact hpredicate
  · exact hP.splitTerms hexpr (hP.collectAndTerms hexpr) (by simp) (by simp) h
  · split at h
    · cases h
    · obtain rfl := Except.ok.inj h
      exact hpredicate
  · obtain rfl := Except.ok.inj h
    exact hpredicate

/-- The parts of a decomposed filter inherit what the rewritten filter has. -/
theorem Hereditary.decomposeRewritten {options : ParseOptions} {expr : ParsedExpression}
    {filter : ParsedODataQuery} (hexpr : P (LoopbackOData.rewriteNegatedLambdas expr))
    (h : decomposeFilter options expr = .ok filter) : Inherit P filter := by
  unfold LoopbackOData.decomposeFilter at h
  obtain ⟨_, -, h⟩ := bind_eq_ok.mp h
  obtain ⟨split, hsplit, h⟩ := bind_eq_ok.mp h
  have hinherit := hP.splitLambdaExpressions hexpr hsplit
  dsimp only at h
  split at h
  next predicate hpredicate =>
    have hpart : P predicate := hinherit.predicate predicate hpredicate
    unfold translatePredicate at h
    split at h
    · obtain rfl := Except.ok.inj h
      exact ⟨by simpa using hpart, by simp, hinherit.lambdas, hinherit.lambdaExpression⟩
    · obtain rfl := Except.ok.inj h
      exact ⟨by simpa using hpart, by simpa using hpart, hinherit.lambdas,
        hinherit.lambdaExpression⟩
    · cases h
  · obtain rfl := Except.ok.inj h
    exact ⟨by simp, by simp, hinherit.lambdas, hinherit.lambdaExpression⟩

theorem Hereditary.decomposeFilter {options : ParseOptions} {expr : ParsedExpression}
    {filter : ParsedODataQuery} (hexpr : P expr) (h : decomposeFilter options expr = .ok filter) :
    Inherit P filter :=
  hP.decomposeRewritten (hP.rewriteNegatedLambdas hexpr) h

/-! ## Splitting between repository and memory -/

theorem Hereditary.combine {type : LogicalType} {expressions : List ParsedExpression}
    (h : ∀ expr ∈ expressions, P expr) :
    ∀ expr ∈ combineParsedExpressions type expressions, P expr := by
  unfold combineParsedExpressions
  split
  · simp
  · simpa using h
  · intro expr hexpr
    obtain rfl := Option.some.inj hexpr
    rwa [hP.logical]

theorem Hereditary.splitParsedExpression {structured : Text → Bool} {expr : ParsedExpression}
    (hexpr : P expr) :
    (∀ part ∈ (splitParsedExpression structured expr).repoExpr, P part) ∧
      ∀ part ∈ (splitParsedExpression structured expr).structuredExpr, P part := by
  induction expr with
  | leaf leaf =>
    rw [LoopbackOData.splitParsedExpression]
    unfold splitLeaf
    split
    · simpa using hexpr
    · split <;> simpa using hexpr
  | logical type expressions ih =>
    have hmembers := (hP.logical _ _).mp hexpr
    have hrepo : ∀ part ∈ (splitParsedExpressions structured expressions).filterMap (·.repoExpr),
        P part := by
      intro part hpart
      rw [splitParsedExpressions_eq, List.mem_filterMap] at hpart
      obtain ⟨split, hsplit, hpart⟩ := hpart
      obtain ⟨child, hchild, rfl⟩ := List.mem_map.mp hsplit
      exact (ih child hchild (hmembers child hchild)).1 part hpart
    have hstructured :
        ∀ part ∈ (splitParsedExpressions structured expressions).filterMap (·.structuredExpr),
          P part := by
      intro part hpart
      rw [splitParsedExpressions_eq, List.mem_filterMap] at hpart
      obtain ⟨split, hsplit, hpart⟩ := hpart
      obtain ⟨child, hchild, rfl⟩ := List.mem_map.mp hsplit
      exact (ih child hchild (hmembers child hchild)).2 part hpart
    cases type with
    | and =>
      rw [LoopbackOData.splitParsedExpression]
      exact ⟨hP.combine hrepo, hP.combine hstructured⟩
    | or =>
      rw [LoopbackOData.splitParsedExpression]
      split
      · exact ⟨hP.combine hrepo, by simp⟩
      · exact ⟨by simp, by simpa using hexpr⟩
  | not expr ih =>
    have hinner := ih ((hP.not _).mp hexpr)
    rw [LoopbackOData.splitParsedExpression]
    split
    next child hsplit =>
      rw [hsplit] at hinner
      refine ⟨?_, by simp⟩
      intro part hpart
      obtain rfl := Option.some.inj hpart
      exact (hP.not _).mpr (hinner.1 child rfl)
    · exact ⟨by simp, by simpa using hexpr⟩
  | lambda type path aliasName predicate _ =>
    rw [LoopbackOData.splitParsedExpression]
    exact ⟨by simpa using hexpr, by simp⟩

end Decomposing

/-! ## Parsing -/

/-- What the functions of the descent return with this much fuel. -/
structure DescendsTo (P : ParsedExpression → Prop) (rt : Runtime) (ctx : ParseContext)
    (fuel : Nat) : Prop where
  expression : ∀ tokens, Ends (fun _ => True) (fun parsed => P parsed.1)
    (parseExpression rt ctx fuel tokens)
  or : ∀ tokens, Ends (fun _ => True) (fun parsed => P parsed.1) (parseOr rt ctx fuel tokens)
  orRest : ∀ left tokens, P left → Ends (fun _ => True) (fun parsed => P parsed.1)
    (parseOrRest rt ctx fuel left tokens)
  and : ∀ tokens, Ends (fun _ => True) (fun parsed => P parsed.1) (parseAnd rt ctx fuel tokens)
  andRest : ∀ left tokens, P left → Ends (fun _ => True) (fun parsed => P parsed.1)
    (parseAndRest rt ctx fuel left tokens)
  unary : ∀ tokens, Ends (fun _ => True) (fun parsed => P parsed.1) (parseUnary rt ctx fuel tokens)
  primary : ∀ tokens, Ends (fun _ => True) (fun parsed => P parsed.1)
    (parsePrimary rt ctx fuel tokens)
  comparison : ∀ tokens, Ends (fun _ => True) (fun parsed => P parsed.1)
    (parseComparison rt ctx fuel tokens)
  lambda : ∀ path lambdaType tokens, Ends (fun _ => True) (fun parsed => P parsed.1)
    (parseLambda rt ctx fuel path lambdaType tokens)

section Parsing

variable {P : ParsedExpression → Prop} {rt : Runtime} {ctx : ParseContext} {fuel : Nat}
  (hP : Hereditary P) (hleaf : ∀ leaf, P (.leaf leaf))
  (hlambda : ∀ type path aliasName predicate, path ≠ [] → [] ∉ path → P predicate →
    P (.lambda type path aliasName predicate))

theorem nil_not_mem_pathSegments (path : Text) : [] ∉ pathSegments path := by
  intro h
  have := (List.mem_filter.mp h).2
  simp at this

include hP hleaf hlambda

theorem DescendsTo.succ (ih : DescendsTo P rt ctx fuel) : DescendsTo P rt ctx (fuel + 1) := by
  have hpair : ∀ {type left right}, P left → P right → P (.logical type [left, right]) := by
    intro type left right hleft hright
    rw [hP.logical, List.forall_mem_cons, List.forall_mem_singleton]
    exact ⟨hleft, hright⟩
  constructor
  case expression => exact fun tokens => ih.or tokens
  case or =>
    refine fun tokens => (ih.and tokens).bind ?_
    rintro ⟨left, rest⟩ hleft
    exact ih.orRest left rest hleft
  case orRest =>
    intro left tokens hleft
    rw [parseOrRest.eq_def]
    dsimp only
    split
    · next token rest =>
      split
      · refine (ih.and rest).bind ?_
        rintro ⟨right, rest'⟩ hright
        exact ih.orRest _ rest' (hpair hleft hright)
      · exact hleft
    · exact hleft
  case and =>
    refine fun tokens => (ih.unary tokens).bind ?_
    rintro ⟨left, rest⟩ hleft
    exact ih.andRest left rest hleft
  case andRest =>
    intro left tokens hleft
    rw [parseAndRest.eq_def]
    dsimp only
    split
    · next token rest =>
      split
      · refine (ih.unary rest).bind ?_
        rintro ⟨right, rest'⟩ hright
        exact ih.andRest _ rest' (hpair hleft hright)
      · exact hleft
    · exact hleft
  case unary =>
    intro tokens
    rw [parseUnary.eq_def]
    dsimp only
    split
    · next token rest =>
      split
      · exact (ih.unary rest).bind fun _ hexpr => (hP.not _).mpr hexpr
      · exact ih.primary _
    · exact ih.primary []
  case primary =>
    intro tokens
    rw [parsePrimary.eq_def]
    dsimp only
    split
    · next rest =>
      refine (ih.expression rest).bind ?_
      rintro ⟨expr, closing⟩ hexpr
      exact (ends_any (expectClosing _ closing)).bind fun _ _ => hexpr
    · exact ih.comparison tokens
  case comparison =>
    intro tokens
    rw [parseComparison.eq_def]
    dsimp only
    split
    · next token rest =>
      split
      · exact ih.lambda _ _ rest
      · exact (ends_any (parseLeaf rt ctx _)).bind fun parsed _ => hleaf parsed.1
    · exact (ends_any (parseLeaf rt ctx _)).bind fun parsed _ => hleaf parsed.1
  case lambda =>
    intro path lambdaType tokens
    rw [parseLambda.eq_def]
    dsimp only
    split
    · next rest =>
      refine (ends_any (collectInner 1 rest)).bind ?_
      rintro ⟨inner, left⟩ -
      refine (ends_any (readAlias inner)).bind ?_
      rintro ⟨aliasName, predicate⟩ -
      refine (ih.expression predicate).bind ?_
      rintro ⟨expr, unread⟩ hexpr
      dsimp only
      split
      · trivial
      split
      · trivial
      next hsegments => exact hlambda _ _ _ _ hsegments (nil_not_mem_pathSegments path) hexpr
    · trivial

/-- What is parsed has the property. -/
theorem Hereditary.parseFilterText {options : ParseOptions} {text : Text} {expr : ParsedExpression}
    (h : parseFilterText rt options text = .ok (some expr)) : P expr := by
  have hdescends (fuel : Nat) : DescendsTo P rt ⟨options.strict⟩ fuel := by
    induction fuel with
    | zero => constructor <;> (intros; trivial)
    | succ fuel ih => exact DescendsTo.succ hP hleaf hlambda ih
  unfold LoopbackOData.parseFilterText at h
  obtain ⟨tokens, -, h⟩ := bind_eq_ok.mp h
  split at h
  · cases h
  · obtain ⟨parsed, hparsed, h⟩ := bind_eq_ok.mp h
    obtain rfl := Option.some.inj (Except.ok.inj h)
    unfold parseFilter at hparsed
    split at hparsed
    · cases hparsed
    · obtain ⟨⟨result, rest⟩, hresult, hparsed⟩ := bind_eq_ok.mp hparsed
      have hproperty := ((hdescends _).expression _).of_ok hresult
      dsimp only at hparsed
      split at hparsed
      · obtain rfl := Except.ok.inj hparsed
        exact hproperty
      · cases hparsed

end Parsing

end LoopbackOData
