import LoopbackOData.Filter.Parser
import LoopbackOData.Library.Outcome

/-!
# The parser ends

The fuel that `parseFilter` starts with is never used up: every function leaves at most the tokens
it was given, and a nested expression starts at least one token later.
-/

namespace LoopbackOData

open Outcome

set_option autoImplicit false

/-- The computation does not run out of fuel, and leaves at most `n` tokens. -/
def Leaves {α : Type} (n : Nat) : Except FilterError (Parsed α) → Prop :=
  Ends (· ≠ .outOfFuel) fun result => result.2.length ≤ n

/-- The computation does not run out of fuel, and returns at most `n` tokens. -/
def LeavesTokens (n : Nat) : Except FilterError (List Text) → Prop :=
  Ends (· ≠ .outOfFuel) fun tokens => tokens.length ≤ n

theorem leaves_fail {α : Type} (n : Nat) (message : String) :
    Leaves n (fail message : Except FilterError (Parsed α)) := nofun

theorem leaves_ok {α : Type} {n : Nat} {value : α} {rest : List Text} (h : rest.length ≤ n) :
    Leaves n (.ok (value, rest)) := h

theorem Leaves.mono {α : Type} {m n : Nat} {r : Except FilterError (Parsed α)} (h : Leaves m r)
    (hmn : m ≤ n) : Leaves n r :=
  Ends.mono h fun _ hrest => hrest.trans hmn

/-! ## Expected tokens -/

theorem leaves_expectClosing (message : String) (tokens : List Text) :
    LeavesTokens tokens.length (expectClosing message tokens) := by
  fun_cases expectClosing message tokens
  · exact Nat.le_succ _
  · exact nofun

theorem leaves_expectOpening (name : Text) (tokens : List Text) :
    LeavesTokens tokens.length (expectOpening name tokens) := by
  fun_cases expectOpening name tokens
  · exact Nat.le_succ _
  · exact nofun

theorem leaves_expectComma (message : String) (tokens : List Text) :
    LeavesTokens tokens.length (expectComma message tokens) := by
  fun_cases expectComma message tokens
  · exact Nat.le_succ _
  · exact nofun

theorem leaves_expectComparison (message : String) (tokens : List Text) :
    Ends (· ≠ .outOfFuel) (fun result : Text × Text × List Text => result.2.2.length ≤ tokens.length)
      (expectComparison message tokens) := by
  fun_cases expectComparison message tokens
  · exact (Nat.le_succ _).trans (Nat.le_succ _)
  · exact nofun

/-! ## Comparisons -/

theorem leaves_parseOperand (rt : Runtime) (tokens : List Text) :
    Leaves tokens.length (parseOperand rt tokens) := by
  fun_induction parseOperand rt tokens with
  | case1 => exact leaves_fail _ _
  | case2 rest ih =>
    refine ih.bind fun (inner, left) hleft => ?_
    refine (leaves_expectClosing _ left).bind fun left' hleft' => ?_
    exact (hleft'.trans hleft).trans (Nat.le_succ _)
  | case3 token rest _ transform _ ih =>
    refine ih.bind fun (inner, left) hleft => ?_
    refine (leaves_expectClosing _ left).bind fun left' hleft' => ?_
    exact (hleft'.trans hleft).trans ((Nat.le_succ _).trans (Nat.le_succ _))
  | case4 => exact Nat.le_succ _
  | case5 => exact Nat.le_succ _

theorem leaves_parseFieldArgument (rt : Runtime) (message : String) (tokens : List Text) :
    Leaves tokens.length (parseFieldArgument rt message tokens) := by
  refine (leaves_parseOperand rt tokens).bind fun (operand, left) hleft => ?_
  cases operand with
  | field name transform => exact hleft
  | literal value transform => exact leaves_fail _ _

theorem leaves_parseFunction (rt : Runtime) (predicate : StringPredicate) (name : Text)
    (tokens : List Text) : Leaves tokens.length (parseFunction rt predicate name tokens) := by
  refine (leaves_expectOpening name tokens).bind fun opened hopened => ?_
  refine (leaves_parseFieldArgument rt _ opened).bind fun ((field, transform), comma) hcomma => ?_
  refine (leaves_expectComma _ comma).bind fun second hsecond => ?_
  refine (leaves_parseOperand rt second).bind fun (operand, closing) hclosing => ?_
  cases operand with
  | field name transform => exact leaves_fail _ _
  | literal value valueTransform =>
    refine (leaves_expectClosing _ closing).bind fun rest hrest => ?_
    exact hrest.trans (hclosing.trans (hsecond.trans (hcomma.trans hopened)))

theorem leaves_parseArguments (rt : Runtime) (fuel : Nat) (tokens : List Text) :
    Leaves tokens.length (parseArguments rt fuel tokens) := by
  fun_induction parseArguments rt fuel tokens with
  | case1 tokens => exact leaves_ok le_rfl
  | case2 => exact leaves_ok le_rfl
  | case3 fuel tokens _ ih =>
    refine (leaves_parseOperand rt tokens).bind fun (operand, left) hleft => ?_
    dsimp only at hleft ⊢
    split
    · next rest =>
      refine (ih rest).bind fun (args, left') hleft' => ?_
      exact hleft'.trans ((Nat.le_succ _).trans hleft)
    · exact hleft

theorem leaves_parseStringFunctionComparison (rt : Runtime) (function : StringFunction)
    (name : Text) (tokens : List Text) :
    Leaves tokens.length (parseStringFunctionComparison rt function name tokens) := by
  refine (leaves_expectOpening name tokens).bind fun opened hopened => ?_
  refine (leaves_parseArguments rt _ opened).bind fun (args, closing) hclosing => ?_
  refine (leaves_expectClosing _ closing).bind fun closed hclosed => ?_
  dsimp only at hclosing ⊢
  split
  · exact leaves_fail _ _
  split
  · exact leaves_fail _ _
  refine (leaves_expectComparison _ closed).bind fun (comparator, value, rest) hrest => ?_
  dsimp only at hrest ⊢
  split
  · exact leaves_fail _ _
  split
  · exact hrest.trans (hclosed.trans (hclosing.trans hopened))
  · exact leaves_fail _ _

theorem leaves_parseNumericComparison (rt : Runtime) (build : Text → Comparator → Rat → Leaf)
    (name : Text) (invalid notNumeric : String) (tokens : List Text) :
    Leaves tokens.length (parseNumericComparison rt build name invalid notNumeric tokens) := by
  refine (leaves_expectOpening name tokens).bind fun opened hopened => ?_
  refine (leaves_parseFieldArgument rt _ opened).bind fun ((field, _), closing) hclosing => ?_
  refine (leaves_expectClosing _ closing).bind fun closed hclosed => ?_
  refine (leaves_expectComparison _ closed).bind fun (comparator, value, rest) hrest => ?_
  dsimp only at hrest ⊢
  split
  · exact leaves_fail _ _
  split
  · exact leaves_fail _ _
  · exact hrest.trans (hclosed.trans (hclosing.trans hopened))

theorem leaves_parseIndexOfComparison (rt : Runtime) (tokens : List Text) :
    Leaves tokens.length (parseIndexOfComparison rt tokens) := by
  refine (leaves_expectOpening _ tokens).bind fun opened hopened => ?_
  refine (leaves_parseFieldArgument rt _ opened).bind fun ((field, _), comma) hcomma => ?_
  refine (leaves_expectComma _ comma).bind fun second hsecond => ?_
  refine (leaves_parseOperand rt second).bind fun (operand, closing) hclosing => ?_
  dsimp only at hclosing ⊢
  split
  · next heq =>
    cases heq
    refine (leaves_expectClosing _ closing).bind fun closed hclosed => ?_
    refine (leaves_expectComparison _ closed).bind fun (comparator, value, rest) hrest => ?_
    dsimp only at hrest ⊢
    split
    · exact leaves_fail _ _
    split
    · exact leaves_fail _ _
    · exact hrest.trans (hclosed.trans (hclosing.trans (hsecond.trans (hcomma.trans hopened))))
  · exact leaves_fail _ _

theorem leaves_parseSubstringLength (rt : Runtime) (tokens : List Text) :
    Leaves tokens.length (parseSubstringLength rt tokens) := by
  fun_cases parseSubstringLength rt tokens with
  | case1 tokens =>
    refine (leaves_parseOperand rt tokens).bind fun (operand, left) hleft => ?_
    dsimp only at hleft ⊢
    split
    · next heq =>
      cases heq
      exact hleft.trans (Nat.le_succ _)
    · exact leaves_fail _ _
  | case2 => exact leaves_ok le_rfl

theorem leaves_parseSubstringComparison (rt : Runtime) (tokens : List Text) :
    Leaves tokens.length (parseSubstringComparison rt tokens) := by
  refine (leaves_expectOpening _ tokens).bind fun opened hopened => ?_
  refine (leaves_parseFieldArgument rt _ opened).bind fun ((field, _), comma) hcomma => ?_
  refine (leaves_expectComma _ comma).bind fun second hsecond => ?_
  refine (leaves_parseOperand rt second).bind fun (operand, third) hthird => ?_
  dsimp only at hthird ⊢
  split
  · next heq =>
    cases heq
    refine (leaves_parseSubstringLength rt third).bind fun (length, closing) hclosing => ?_
    refine (leaves_expectClosing _ closing).bind fun closed hclosed => ?_
    refine (leaves_expectComparison _ closed).bind fun (comparator, value, rest) hrest => ?_
    dsimp only at hrest ⊢
    split
    · exact leaves_fail _ _
    split
    · exact hrest.trans (hclosed.trans (hclosing.trans
        (hthird.trans (hsecond.trans (hcomma.trans hopened)))))
    · exact leaves_fail _ _
  · exact leaves_fail _ _

theorem leaves_parseInItems (ctx : ParseContext) (tokens : List Text) (expectValue : Bool)
    (values : List Scalar) : Leaves tokens.length (parseInItems ctx tokens expectValue values) := by
  fun_induction parseInItems ctx tokens expectValue values with
  | case1 => exact leaves_fail _ _
  | case2 => exact leaves_fail _ _
  | case3 => exact nofun
  | case4 => exact Nat.le_succ _
  | case5 => exact leaves_fail _ _
  | case6 => exact nofun
  | case7 _ _ _ _ _ _ ih => exact ih.mono (Nat.le_succ _)
  | case8 => exact leaves_fail _ _
  | case9 _ _ _ _ _ ih => exact ih.mono (Nat.le_succ _)

theorem leaves_parseFieldComparison (ctx : ParseContext) (tokens : List Text) :
    Leaves tokens.length (parseFieldComparison ctx tokens) := by
  fun_cases parseFieldComparison ctx tokens with
  | case1 field comparator _ rest =>
    refine (leaves_parseInItems ctx rest true []).bind fun (values, left) hleft => ?_
    exact hleft.trans (by simp only [List.length_cons]; omega)
  | case2 => exact leaves_fail _ _
  | case3 => exact leaves_fail _ _
  | case4 => exact leaves_fail _ _
  | case5 => exact leaves_ok (by simp only [List.length_cons]; omega)
  | case6 => exact leaves_fail _ _

theorem leaves_parseTransformComparison (transform : OperandTransform) (name : Text)
    (tokens : List Text) :
    Leaves tokens.length (parseTransformComparison transform name tokens) := by
  fun_cases parseTransformComparison transform name tokens with
  | case5 => exact leaves_ok (by simp only [List.length_cons]; omega)
  | case6 => exact leaves_ok (by simp only [List.length_cons]; omega)
  | _ => exact leaves_fail _ _

theorem leaves_parseLeaf (rt : Runtime) (ctx : ParseContext) (tokens : List Text) :
    Leaves tokens.length (parseLeaf rt ctx tokens) := by
  fun_cases parseLeaf rt ctx tokens with
  | case1 => exact leaves_fail _ _
  | case2 => exact (leaves_parseTransformComparison _ _ _).mono ((Nat.le_succ _).trans (Nat.le_succ _))
  | case3 => exact (leaves_parseStringFunctionComparison _ _ _ _).mono (Nat.le_succ _)
  | case4 => exact (leaves_parseNumericComparison _ _ _ _ _ _).mono (Nat.le_succ _)
  | case5 => exact (leaves_parseFunction _ _ _ _).mono (Nat.le_succ _)
  | case6 => exact (leaves_parseIndexOfComparison _ _).mono (Nat.le_succ _)
  | case7 => exact (leaves_parseSubstringComparison _ _).mono (Nat.le_succ _)
  | case8 => exact (leaves_parseNumericComparison _ _ _ _ _ _).mono (Nat.le_succ _)
  | case9 => exact (leaves_parseNumericComparison _ _ _ _ _ _).mono (Nat.le_succ _)
  | case10 => exact leaves_parseFieldComparison _ _

/-! ## Lambdas -/

theorem ends_collectInner (depth : Nat) (tokens : List Text) :
    Ends (· ≠ .outOfFuel) (fun result : List Text × List Text =>
      result.1.length + result.2.length < tokens.length) (collectInner depth tokens) := by
  fun_induction collectInner depth tokens with
  | case1 => exact nofun
  | case2 depth rest ih =>
    refine ih.bind fun (inner, left) hleft => ?_
    simp only [Ends, pure, Except.pure, List.length_cons] at hleft ⊢
    omega
  | case3 => exact by simp [Ends]
  | case4 depth rest _ ih =>
    refine ih.bind fun (inner, left) hleft => ?_
    simp only [Ends, pure, Except.pure, List.length_cons] at hleft ⊢
    omega
  | case5 depth token rest _ _ ih =>
    refine ih.bind fun (inner, left) hleft => ?_
    simp only [Ends, pure, Except.pure, List.length_cons] at hleft ⊢
    omega

theorem ends_nonEmpty (aliasName : Text) (inner : List Text) :
    Ends (· ≠ .outOfFuel) (fun result : Text × List Text => result.2.length ≤ inner.length)
      (readAlias.nonEmpty aliasName inner) := by
  fun_cases readAlias.nonEmpty aliasName inner
  · exact nofun
  · exact nofun
  · exact le_refl inner.length

theorem ends_readAlias (tokens : List Text) :
    Ends (· ≠ .outOfFuel) (fun result : Text × List Text => result.2.length ≤ tokens.length)
      (readAlias tokens) := by
  fun_cases readAlias tokens with
  | case1 => exact nofun
  | case2 aliasToken inner =>
    exact (ends_nonEmpty _ inner).mono fun _ h => h.trans (Nat.le_succ _)
  | case3 aliasToken _ inner =>
    exact (ends_nonEmpty _ inner).mono fun _ h => h.trans ((Nat.le_succ _).trans (Nat.le_succ _))
  | case4 => exact nofun
  | case5 aliasToken inner =>
    refine (ends_nonEmpty _ _).mono fun _ h => h.trans ?_
    split
    · exact Nat.le_succ _
    · exact le_rfl
  | case6 => exact nofun

/-! ## Expressions -/

/-- With this much fuel the functions of the descent end, for all tokens that the fuel suffices
for. -/
structure Terminates (rt : Runtime) (ctx : ParseContext) (fuel : Nat) : Prop where
  expression : ∀ tokens, 6 * tokens.length + 6 ≤ fuel →
    Leaves tokens.length (parseExpression rt ctx fuel tokens)
  or : ∀ tokens, 6 * tokens.length + 5 ≤ fuel →
    Leaves tokens.length (parseOr rt ctx fuel tokens)
  orRest : ∀ left tokens, 6 * tokens.length + 1 ≤ fuel →
    Leaves tokens.length (parseOrRest rt ctx fuel left tokens)
  and : ∀ tokens, 6 * tokens.length + 4 ≤ fuel →
    Leaves tokens.length (parseAnd rt ctx fuel tokens)
  andRest : ∀ left tokens, 6 * tokens.length + 1 ≤ fuel →
    Leaves tokens.length (parseAndRest rt ctx fuel left tokens)
  unary : ∀ tokens, 6 * tokens.length + 3 ≤ fuel →
    Leaves tokens.length (parseUnary rt ctx fuel tokens)
  primary : ∀ tokens, 6 * tokens.length + 2 ≤ fuel →
    Leaves tokens.length (parsePrimary rt ctx fuel tokens)
  comparison : ∀ tokens, 6 * tokens.length + 1 ≤ fuel →
    Leaves tokens.length (parseComparison rt ctx fuel tokens)
  lambda : ∀ path lambdaType tokens, 6 * tokens.length + 6 ≤ fuel →
    Leaves tokens.length (parseLambda rt ctx fuel path lambdaType tokens)

theorem leaves_leaf {rt : Runtime} {ctx : ParseContext} (tokens : List Text) :
    Leaves tokens.length (do
      let (leaf, rest) ← parseLeaf rt ctx tokens
      return (ParsedExpression.leaf leaf, rest)) :=
  (leaves_parseLeaf rt ctx tokens).bind fun _ h => h

/-- One more unit of fuel: each function calls the next one, or starts again on fewer tokens. -/
theorem Terminates.succ {rt : Runtime} {ctx : ParseContext} {fuel : Nat}
    (ih : Terminates rt ctx fuel) : Terminates rt ctx (fuel + 1) where
  expression tokens hfuel := ih.or tokens (by omega)
  or tokens hfuel := by
    refine (ih.and tokens (by omega)).bind fun (left, rest) hrest => ?_
    exact (ih.orRest left rest (by dsimp only at hrest; omega)).mono hrest
  orRest left tokens hfuel := by
    rw [parseOrRest.eq_def]
    dsimp only
    split
    · next token rest =>
      rw [List.length_cons] at hfuel
      split
      · refine (ih.and rest (by omega)).bind fun (right, rest') hrest => ?_
        dsimp only at hrest
        exact (ih.orRest _ rest' (by omega)).mono (by rw [List.length_cons]; omega)
      · exact leaves_ok le_rfl
    · exact leaves_ok le_rfl
  and tokens hfuel := by
    refine (ih.unary tokens (by omega)).bind fun (left, rest) hrest => ?_
    exact (ih.andRest left rest (by dsimp only at hrest; omega)).mono hrest
  andRest left tokens hfuel := by
    rw [parseAndRest.eq_def]
    dsimp only
    split
    · next token rest =>
      rw [List.length_cons] at hfuel
      split
      · refine (ih.unary rest (by omega)).bind fun (right, rest') hrest => ?_
        dsimp only at hrest
        exact (ih.andRest _ rest' (by omega)).mono (by rw [List.length_cons]; omega)
      · exact leaves_ok le_rfl
    · exact leaves_ok le_rfl
  unary tokens hfuel := by
    rw [parseUnary.eq_def]
    dsimp only
    split
    · next token rest =>
      rw [List.length_cons] at hfuel
      split
      · exact (ih.unary rest (by omega)).bind fun _ hrest => hrest.trans (Nat.le_succ _)
      · exact ih.primary _ (by rw [List.length_cons]; omega)
    · exact ih.primary [] (by omega)
  primary tokens hfuel := by
    rw [parsePrimary.eq_def]
    dsimp only
    split
    · next rest =>
      rw [List.length_cons] at hfuel
      refine (ih.expression rest (by omega)).bind fun (expr, closing) hclosing => ?_
      refine (leaves_expectClosing _ closing).bind fun rest' hrest => ?_
      exact (hrest.trans hclosing).trans (Nat.le_succ _)
    · exact ih.comparison tokens (by omega)
  comparison tokens hfuel := by
    rw [parseComparison.eq_def]
    dsimp only
    split
    · next token rest =>
      rw [List.length_cons] at hfuel
      split
      · exact (ih.lambda _ _ rest (by omega)).mono (Nat.le_succ _)
      · exact leaves_leaf _
    · exact leaves_leaf _
  lambda path lambdaType tokens hfuel := by
    rw [parseLambda.eq_def]
    dsimp only
    split
    · next rest =>
      rw [List.length_cons] at hfuel
      refine (ends_collectInner 1 rest).bind fun (inner, left) hinner => ?_
      refine (ends_readAlias inner).bind fun (aliasName, predicate) hpredicate => ?_
      dsimp only at hinner hpredicate
      refine (ih.expression predicate (by omega)).bind fun (expr, unread) _ => ?_
      dsimp only
      split
      · exact leaves_fail _ _
      split
      · exact leaves_fail _ _
      · exact leaves_ok (by rw [List.length_cons]; omega)
    · exact leaves_fail _ _

theorem terminates (rt : Runtime) (ctx : ParseContext) (fuel : Nat) : Terminates rt ctx fuel := by
  induction fuel with
  | zero => constructor <;> (intros; omega)
  | succ fuel ih => exact ih.succ

/-- `parseFilter` gives a result or an error of the source, whatever the tokens. -/
theorem parseFilter_ne_outOfFuel (rt : Runtime) (ctx : ParseContext) (tokens : List Text) :
    parseFilter rt ctx tokens ≠ .error .outOfFuel := by
  have hends : Ends (· ≠ FilterError.outOfFuel) (fun _ => True) (parseFilter rt ctx tokens) := by
    fun_cases parseFilter rt ctx tokens with
    | case1 => exact nofun
    | case2 tokens _ =>
      refine ((terminates rt ctx _).expression tokens le_rfl).bind fun (expr, rest) _ => ?_
      cases rest with
      | nil => trivial
      | cons token rest => exact nofun
  exact hends.ne_error (not_not_intro rfl)

end LoopbackOData
