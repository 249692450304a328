import LoopbackOData.Filter.Decompose
import LoopbackOData.Library.Outcome

/-!
# The connectives of a parsed filter have members

The parser builds a conjunction or disjunction of two expressions, and what is made of the filter
later leaves no connective empty.
-/

namespace LoopbackOData

set_option autoImplicit false

open Outcome

/-- Each connective has members. -/
inductive Populated : ParsedExpression → Prop where
  | leaf (leaf : Leaf) : Populated (.leaf leaf)
  | logical {type : LogicalType} {expressions : List ParsedExpression} (hne : expressions ≠ [])
      (h : ∀ expr ∈ expressions, Populated expr) : Populated (.logical type expressions)
  | not {expr : ParsedExpression} (h : Populated expr) : Populated (.not expr)
  | lambda {lambdaType : LambdaType} {path : List Text} {aliasName : Text}
      {predicate : ParsedExpression} (h : Populated predicate) :
      Populated (.lambda lambdaType path aliasName predicate)

/-! ## Parsing -/

def Populates : Except FilterError (Parsed ParsedExpression) → Prop :=
  Ends (fun _ => True) fun parsed => Populated parsed.1

theorem Populated.pair {type : LogicalType} {left right : ParsedExpression} (hleft : Populated left)
    (hright : Populated right) : Populated (.logical type [left, right]) := by
  refine .logical (List.cons_ne_nil _ _) fun expr hexpr => ?_
  rcases List.mem_cons.mp hexpr with rfl | hexpr
  · exact hleft
  · exact List.mem_singleton.mp hexpr ▸ hright

/-- What the functions of the descent return with this much fuel. -/
structure Descent (rt : Runtime) (ctx : ParseContext) (fuel : Nat) : Prop where
  expression : ∀ tokens, Populates (parseExpression rt ctx fuel tokens)
  or : ∀ tokens, Populates (parseOr rt ctx fuel tokens)
  orRest : ∀ left tokens, Populated left → Populates (parseOrRest rt ctx fuel left tokens)
  and : ∀ tokens, Populates (parseAnd rt ctx fuel tokens)
  andRest : ∀ left tokens, Populated left → Populates (parseAndRest rt ctx fuel left tokens)
  unary : ∀ tokens, Populates (parseUnary rt ctx fuel tokens)
  primary : ∀ tokens, Populates (parsePrimary rt ctx fuel tokens)
  comparison : ∀ tokens, Populates (parseComparison rt ctx fuel tokens)
  lambda : ∀ path lambdaType tokens, Populates (parseLambda rt ctx fuel path lambdaType tokens)

section Parsing

variable {rt : Runtime} {ctx : ParseContext} {fuel : Nat}

/-- A step before the expression returns anything. -/
theorem ends_any {ε α : Type} (r : Except ε α) : Ends (fun _ => True) (fun _ => True) r := by
  cases r with
  | ok a => trivial
  | error e => trivial

theorem populates_leaf (tokens : List Text) :
    Populates (do
      let (leaf, rest) ← parseLeaf rt ctx tokens
      return (ParsedExpression.leaf leaf, rest)) :=
  (ends_any (parseLeaf rt ctx tokens)).bind fun parsed _ => Populated.leaf parsed.1

theorem Descent.succ (ih : Descent rt ctx fuel) : Descent rt ctx (fuel + 1) where
  expression tokens := ih.or tokens
  or tokens := (ih.and tokens).bind fun (left, rest) hleft => ih.orRest left rest hleft
  orRest left tokens hleft := by
    rw [parseOrRest.eq_def]
    dsimp only
    split
    · next token rest =>
      split
      · exact (ih.and rest).bind fun (right, rest') hright => ih.orRest _ rest' (hleft.pair hright)
      · exact hleft
    · exact hleft
  and tokens := (ih.unary tokens).bind fun (left, rest) hleft => ih.andRest left rest hleft
  andRest left tokens hleft := by
    rw [parseAndRest.eq_def]
    dsimp only
    split
    · next token rest =>
      split
      · exact (ih.unary rest).bind fun (right, rest') hright =>
          ih.andRest _ rest' (hleft.pair hright)
      · exact hleft
    · exact hleft
  unary tokens := by
    rw [parseUnary.eq_def]
    dsimp only
    split
    · next token rest =>
      split
      · exact (ih.unary rest).bind fun _ hexpr => Populated.not hexpr
      · exact ih.primary _
    · exact ih.primary []
  primary tokens := by
    rw [parsePrimary.eq_def]
    dsimp only
    split
    · next rest =>
      refine (ih.expression rest).bind fun (expr, closing) hexpr => ?_
      exact (ends_any (expectClosing _ closing)).bind fun _ _ => hexpr
    · exact ih.comparison tokens
  comparison tokens := by
    rw [parseComparison.eq_def]
    dsimp only
    split
    · next token rest =>
      split
      · exact ih.lambda _ _ rest
      · exact populates_leaf _
    · exact populates_leaf _
  lambda path lambdaType tokens := by
    rw [parseLambda.eq_def]
    dsimp only
    split
    · next rest =>
      refine (ends_any (collectInner 1 rest)).bind fun (inner, left) _ => ?_
      refine (ends_any (readAlias inner)).bind fun (aliasName, predicate) _ => ?_
      refine (ih.expression predicate).bind fun (expr, unread) hexpr => ?_
      dsimp only
      split
      · trivial
      split
      · trivial
      · exact Populated.lambda hexpr
    · trivial

theorem descends (fuel : Nat) : Descent rt ctx fuel := by
  induction fuel with
  | zero => constructor <;> (intros; trivial)
  | succ fuel ih => exact ih.succ

theorem populated_of_parseFilter {tokens : List Text} {expr : ParsedExpression}
    (h : parseFilter rt ctx tokens = .ok expr) : Populated expr := by
  unfold parseFilter at h
  split at h
  · cases h
  next =>
    obtain ⟨⟨parsed, rest⟩, hparsed, h⟩ := bind_eq_ok.mp h
    have hpopulated := ((descends _).expression _).of_ok hparsed
    dsimp only at h
    split at h
    · obtain rfl := Except.ok.inj h
      exact hpopulated
    · cases h

end Parsing

/-! ## What is made of the filter -/

theorem populated_rewriteNegatedLambdas {expr : ParsedExpression} (h : Populated expr) :
    Populated (rewriteNegatedLambdas expr) := by
  induction hsize : sizeOf expr using Nat.strong_induction_on generalizing expr with
  | _ n ih =>
    subst hsize
    cases h with
    | leaf leaf =>
      rw [rewriteNegatedLambdas_leaf]
      exact .leaf leaf
    | lambda h =>
      rw [rewriteNegatedLambdas_lambda]
      exact .lambda h
    | logical hne h =>
      rw [rewriteNegatedLambdas_logical]
      refine .logical (by simpa using hne) ?_
      rw [List.forall_mem_map]
      intro member hmember
      exact ih _ (sizeOf_member_lt hmember) (h member hmember) rfl
    | @not inner h =>
      have hinner := ih (sizeOf inner) (by simp) h rfl
      have hle : sizeOf (rewriteNegatedLambdas inner) ≤ sizeOf inner := (rewriteSized inner).2
      rw [rewriteNegatedLambdas_not]
      split
      · next again heq =>
        rw [heq] at hinner hle
        rw [ParsedExpression.not.sizeOf_spec] at hle
        cases hinner with
        | not hagain => exact ih _ (by simp; omega) hagain rfl
      · next heq =>
        rw [heq] at hinner
        cases hinner with
        | lambda hpredicate => exact .lambda (.not hpredicate)
      · exact .not hinner

theorem populated_collectAndTerms {expr : ParsedExpression} (h : Populated expr) :
    ∀ term ∈ collectAndTerms expr, Populated term := by
  induction h with
  | leaf leaf => simpa [collectAndTerms] using Populated.leaf leaf
  | not h _ => simpa [collectAndTerms] using Populated.not h
  | lambda h _ => simpa [collectAndTerms] using Populated.lambda h
  | @logical type expressions hne h ih =>
    cases type with
    | or => simpa [collectAndTerms] using Populated.logical hne h
    | and =>
      rw [collectAndTerms]
      clear hne
      induction expressions with
      | nil => simp [collectAllAndTerms]
      | cons first rest ihrest =>
        rw [collectAllAndTerms, List.forall_mem_append]
        exact ⟨ih first List.mem_cons_self,
          ihrest (fun e he => h e (List.mem_cons_of_mem _ he))
            fun e he => ih e (List.mem_cons_of_mem _ he)⟩

/-- An expression for the where clause: populated, and without lambdas. -/
def WhereExpression (expr : ParsedExpression) : Prop :=
  Populated expr ∧ containsLambda expr = false

theorem anyContainsLambda_eq_false {expressions : List ParsedExpression}
    (h : ∀ expr ∈ expressions, containsLambda expr = false) :
    anyContainsLambda expressions = false := by
  induction expressions with
  | nil => rfl
  | cons first rest ih =>
    rw [anyContainsLambda, h first List.mem_cons_self,
      ih fun e he => h e (List.mem_cons_of_mem _ he)]
    rfl

theorem whereExpression_of_joinTerms {terms : List ParsedExpression} {expr : ParsedExpression}
    (hterms : ∀ term ∈ terms, WhereExpression term) (h : joinTerms terms = some expr) :
    WhereExpression expr := by
  unfold joinTerms at h
  split at h
  · cases h
  · obtain rfl := Option.some.inj h
    exact hterms _ List.mem_cons_self
  next hne _ =>
    obtain rfl := Option.some.inj h
    refine ⟨.logical ?_ fun term hterm => (hterms term hterm).1, ?_⟩
    · rintro rfl
      exact hne rfl
    · rw [containsLambda]
      exact anyContainsLambda_eq_false fun term hterm => (hterms term hterm).2

theorem whereExpression_of_splitTerms {expr predicate : ParsedExpression} {split : SplitFilter}
    {terms : List ParsedExpression} {lambdas : List LambdaExpression}
    {others : List ParsedExpression} (hothers : ∀ term ∈ others, WhereExpression term)
    (hterms : ∀ term ∈ terms, Populated term)
    (h : splitTerms expr terms lambdas others = .ok split)
    (hpredicate : split.predicate = some predicate) : WhereExpression predicate := by
  induction terms generalizing lambdas others with
  | nil =>
    obtain rfl := Except.ok.inj h
    exact whereExpression_of_joinTerms hothers hpredicate
  | cons term terms ih =>
    have hterm := hterms term List.mem_cons_self
    have hrest : ∀ term ∈ terms, Populated term := fun e he =>
      hterms e (List.mem_cons_of_mem _ he)
    -- a term without lambdas joins the others
    have hkept (hfree : containsLambda term = false)
        (h : splitTerms expr terms lambdas (others ++ [term]) = .ok split) :
        WhereExpression predicate := by
      refine ih ?_ hrest h
      rw [List.forall_mem_append, List.forall_mem_singleton]
      exact ⟨hothers, hterm, hfree⟩
    cases term with
    | lambda type path aliasName predicate => exact ih hothers hrest h
    | not inner =>
      rw [splitTerms] at h
      split at h
      · cases h
      next hfree => exact hkept (by rw [containsLambda]; simpa using hfree) h
    | leaf leaf => exact hkept rfl h
    | logical type es =>
      rw [splitTerms] at h
      · split at h
        · obtain rfl := Except.ok.inj h
          cases hpredicate
        next hfree => exact hkept (by simpa using hfree) h
      · simp
      · simp

theorem whereExpression_of_splitLambdaExpressions {expr predicate : ParsedExpression}
    {split : SplitFilter} (hexpr : Populated expr) (h : splitLambdaExpressions expr = .ok split)
    (hpredicate : split.predicate = some predicate) : WhereExpression predicate := by
  unfold splitLambdaExpressions at h
  split at h
  · obtain rfl := Except.ok.inj h
    cases hpredicate
  · split at h
    · obtain rfl := Except.ok.inj h
      cases hpredicate
    next hfree =>
      obtain rfl := Except.ok.inj h
      obtain rfl := Option.some.inj hpredicate
      exact ⟨hexpr, by simpa using hfree⟩
  · exact whereExpression_of_splitTerms (fun _ h => absurd h List.not_mem_nil)
      (populated_collectAndTerms hexpr) h hpredicate
  · split at h
    · cases h
    next hfree =>
      obtain rfl := Except.ok.inj h
      obtain rfl := Option.some.inj hpredicate
      exact ⟨hexpr, by rw [containsLambda]; simpa using hfree⟩
  · obtain rfl := Except.ok.inj h
    obtain rfl := Option.some.inj hpredicate
    exact ⟨hexpr, rfl⟩

theorem whereExpression_of_decomposeFilter {options : ParseOptions} {expr : ParsedExpression}
    {filter : ParsedODataQuery} {predicate : ParsedExpression} (hexpr : Populated expr)
    (h : decomposeFilter options expr = .ok filter)
    (hpredicate : filter.whereExpression = some predicate) : WhereExpression predicate := by
  unfold decomposeFilter at h
  obtain ⟨_, -, h⟩ := bind_eq_ok.mp h
  obtain ⟨split, hsplit, h⟩ := bind_eq_ok.mp h
  dsimp only at h
  split at h
  next part hpart =>
    have hwhere := whereExpression_of_splitLambdaExpressions
      (populated_rewriteNegatedLambdas hexpr) hsplit hpart
    have hpart' : filter.whereExpression = some part := by
      unfold translatePredicate at h
      split at h
      · obtain rfl := Except.ok.inj h
        rfl
      · obtain rfl := Except.ok.inj h
        rfl
      · cases h
    obtain rfl := Option.some.inj (hpart'.symm.trans hpredicate)
    exact hwhere
  · obtain rfl := Except.ok.inj h
    cases hpredicate

/-- Every where expression that comes out of the query parser. -/
theorem whereExpression_of_parseODataQuery {rt : Runtime} {options : ParseOptions}
    {filterExpr : Option Text} {filter : ParsedODataQuery} {predicate : ParsedExpression}
    (h : parseODataQuery rt options filterExpr = .ok filter)
    (hpredicate : filter.whereExpression = some predicate) : WhereExpression predicate := by
  unfold parseODataQuery at h
  split at h
  · obtain rfl := Except.ok.inj h
    cases hpredicate
  next text =>
    obtain ⟨parsed, hparsed, h⟩ := bind_eq_ok.mp h
    cases parsed with
    | none =>
      obtain rfl := Except.ok.inj h
      cases hpredicate
    | some expr =>
      refine whereExpression_of_decomposeFilter ?_ h hpredicate
      unfold parseFilterText at hparsed
      obtain ⟨tokens, -, hparsed⟩ := bind_eq_ok.mp hparsed
      split at hparsed
      · cases hparsed
      · obtain ⟨expr', hfilter, hparsed⟩ := bind_eq_ok.mp hparsed
        obtain rfl := Option.some.inj (Except.ok.inj hparsed)
        exact populated_of_parseFilter hfilter

end LoopbackOData
