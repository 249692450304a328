import LoopbackOData.Filter.Decompose
import LoopbackOData.Filter.Grammar

/-!
# Parsing inverts printing

The token sequences that a filter may be printed as (parentheses where precedence asks for them,
and anywhere else), and that the parser reads each of them back, however it is spaced.
-/

namespace LoopbackOData

open Outcome

set_option autoImplicit false

/-! ## The grammar -/

/-- A letter, digit or underscore of a collection path. -/
def isPathChar (c : Char) : Bool := isAsciiLetter c || isDigit c || c = '_'

/-- The path of a lambda: identifiers of ASCII letters, digits and underscores. -/
structure IsPath (path : List Text) : Prop where
  start : (joinPath path).head?.any (fun c => isAsciiLetter c || c = '_') = true
  segments : ∀ segment ∈ path, segment ≠ [] ∧ segment.all isPathChar
  nonempty : path ≠ []

def lambdaToken (path : List Text) (type : LambdaType) : Text :=
  joinPath path ++ '/' :: (lambdaName type).toList

/-- The alias of a lambda and its colon before the tokens of the predicate. -/
inductive PrintsAlias (aliasName : Text) : List Text → List Text → Prop where
  | joined (tokens : List Text) : PrintsAlias aliasName ((aliasName ++ [':']) :: tokens) tokens
  | apart (tokens : List Text) : PrintsAlias aliasName (aliasName :: [':'] :: tokens) tokens
  | adjacent {t : Text} (tokens : List Text) : t ≠ [] → ':' ∉ t →
    (∀ d, isDelimiter d → t ≠ [d]) →
    PrintsAlias aliasName ((aliasName ++ ':' :: t) :: tokens) (t :: tokens)

/-- The precedence levels. -/
inductive Level where
  | or | and | unary
  deriving DecidableEq

/-- The token sequences of an expression at a precedence level: `not` binds tighter than `and`,
which binds tighter than `or`; both connectives associate to the left. -/
inductive Prints (rt : Runtime) : Level → List Text → ParsedExpression → Prop where
  | leaf {tokens : List Text} {leaf : Leaf} : PrintsLeaf rt tokens leaf →
    Prints rt .unary tokens (.leaf leaf)
  | lambda {path : List Text} {aliasName : Text} {inner tokens : List Text}
    {predicate : ParsedExpression} (type : LambdaType) : IsPath path → IsName aliasName →
    Prints rt .or tokens predicate → PrintsAlias aliasName inner tokens →
    Prints rt .unary (lambdaToken path type :: ['('] :: (inner ++ [[')']]))
      (.lambda type path aliasName predicate)
  | parens {tokens : List Text} {e : ParsedExpression} : Prints rt .or tokens e →
    Prints rt .unary (['('] :: (tokens ++ [[')']])) e
  | not {tokens : List Text} {e : ParsedExpression} : Prints rt .unary tokens e →
    Prints rt .unary ("not".toList :: tokens) (.not e)
  | unary {tokens : List Text} {e : ParsedExpression} : Prints rt .unary tokens e →
    Prints rt .and tokens e
  | and {left right : List Text} {a b : ParsedExpression} : Prints rt .and left a →
    Prints rt .unary right b → Prints rt .and (left ++ "and".toList :: right) (.logical .and [a, b])
  | andLevel {tokens : List Text} {e : ParsedExpression} : Prints rt .and tokens e →
    Prints rt .or tokens e
  | or {left right : List Text} {a b : ParsedExpression} : Prints rt .or left a →
    Prints rt .and right b → Prints rt .or (left ++ "or".toList :: right) (.logical .or [a, b])

/-- The texts of a filter: its tokens, spaced in any way. -/
def PrintsText (rt : Runtime) (text : Text) (e : ParsedExpression) : Prop :=
  ∃ tokens, Prints rt .or tokens e ∧ Spaced tokens text

/-! ## Parentheses balance -/

/-- A lambda collects these tokens as a whole. -/
def Balanced (tokens : List Text) : Prop :=
  ∀ (depth : Nat) (rest : List Text), 1 ≤ depth →
    collectInner depth (tokens ++ rest) =
      (collectInner depth rest).map fun r => (tokens ++ r.1, r.2)

namespace Balanced

theorem nil : Balanced [] := by
  intro depth rest _
  cases h : collectInner depth rest <;> simp [h, Except.map]

theorem append {left right : List Text} (hleft : Balanced left) (hright : Balanced right) :
    Balanced (left ++ right) := by
  intro depth rest hdepth
  rw [List.append_assoc, hleft depth _ hdepth, hright depth _ hdepth]
  cases collectInner depth rest <;> simp [Except.map]

theorem token {t : Text} (hopening : t ≠ ['(']) (hclosing : t ≠ [')']) : Balanced [t] := by
  intro depth rest _
  rw [List.singleton_append, collectInner]
  · cases h : collectInner depth rest <;>
      simp [Except.map, bind, Except.bind, pure, Except.pure]
  · exact hopening
  · exact hclosing

theorem parens {tokens : List Text} (h : Balanced tokens) :
    Balanced (['('] :: (tokens ++ [[')']])) := by
  intro depth rest hdepth
  rw [List.cons_append, List.append_assoc, List.singleton_append, collectInner,
    h (depth + 1) _ (by omega), collectInner, if_neg (by omega), Nat.add_sub_cancel]
  cases collectInner depth rest <;>
    simp [Except.map, bind, Except.bind, pure, Except.pure]

theorem of_cons {t : Text} {tokens : List Text} (hopening : t ≠ ['(']) (hclosing : t ≠ [')'])
    (h : Balanced (t :: tokens)) : Balanced tokens := by
  intro depth rest hdepth
  have hcons := h depth rest hdepth
  rw [List.cons_append, ← List.singleton_append, token hopening hclosing depth _ hdepth] at hcons
  cases hall : collectInner depth (tokens ++ rest) <;> cases hrest : collectInner depth rest <;>
    simp_all [Except.map]
  exact Prod.ext hcons.1 hcons.2

/-- The parenthesis that closes a lambda is the first one that its tokens leave open. -/
theorem collectInner_closing {tokens : List Text} (h : Balanced tokens) (rest : List Text) :
    collectInner 1 (tokens ++ [')'] :: rest) = .ok (tokens, rest) := by
  rw [h 1 _ (Nat.le_refl 1), collectInner, if_pos (Nat.le_refl 1)]
  simp [Except.map]

end Balanced

/-- Tokens whose parentheses match, without a colon before the first of them. -/
structure SelfContained (tokens : List Text) : Prop where
  balanced : Balanced tokens
  colon : [':'] ∉ tokens.takeWhile (· ≠ ['('])

/-- A token that is neither a parenthesis nor a colon. -/
structure IsPlain (t : Text) : Prop where
  opening : t ≠ ['(']
  closing : t ≠ [')']
  colon : t ≠ [':']

namespace SelfContained

theorem nil : SelfContained [] := ⟨.nil, List.not_mem_nil⟩

theorem append {left right : List Text} (hleft : SelfContained left)
    (hright : SelfContained right) : SelfContained (left ++ right) where
  balanced := hleft.balanced.append hright.balanced
  colon := by
    rw [List.takeWhile_append]
    split
    · next hlength =>
      have hself : left.takeWhile (· ≠ ['(']) = left :=
        (List.takeWhile_prefix _).eq_of_length hlength
      have hcolon := hleft.colon
      rw [hself] at hcolon
      rw [List.mem_append]
      exact fun hmem => hmem.elim hcolon hright.colon
    · exact hleft.colon

theorem token {t : Text} (h : IsPlain t) : SelfContained [t] where
  balanced := .token h.opening h.closing
  colon := by
    intro hmem
    have hmem := (List.takeWhile_prefix _).subset hmem
    exact h.colon (List.mem_singleton.mp hmem).symm

theorem cons {t : Text} {tokens : List Text} (h : IsPlain t) (htokens : SelfContained tokens) :
    SelfContained (t :: tokens) :=
  (token h).append htokens

theorem parens {tokens : List Text} (h : SelfContained tokens) :
    SelfContained (['('] :: (tokens ++ [[')']])) where
  balanced := h.balanced.parens
  colon := by simp

theorem commaJoin {items : List (List Text)} (h : ∀ item ∈ items, SelfContained item) :
    SelfContained (LoopbackOData.commaJoin items) := by
  induction items with
  | nil => exact nil
  | cons item items ih =>
    have hitem := h item List.mem_cons_self
    cases items with
    | nil => exact hitem
    | cons next items =>
      rw [commaJoin_cons _ (by simp)]
      apply hitem.append
      apply cons ⟨by simp, by simp, by simp⟩
      exact ih fun item hmem => h item (List.mem_cons_of_mem _ hmem)

end SelfContained

/-! ## The tokens of a comparison -/

theorem IsName.plain {name : Text} (h : IsName name) : IsPlain name where
  opening := h.ne_delimiter (by decide)
  closing := h.ne_delimiter (by decide)
  colon := by
    rintro rfl
    exact h.colon List.mem_cons_self

theorem SpellsLiteral.plain {t : Text} {v : Scalar} (h : SpellsLiteral t v) : IsPlain t where
  opening := h.ne_delimiter (by decide)
  closing := h.ne_delimiter (by decide)
  colon := by
    cases h with
    | null => simp
    | true => simp
    | false => simp
    | number hdecimal _ =>
      rintro rfl
      exact absurd (hdecimal.all_numberChar ':' List.mem_cons_self) (by decide)
    | string s => exact quote_ne_singleton s ':'
    | @typed kind s _ =>
      intro h
      have := congrArg List.length h
      simp [quote] at this
      omega
    | date hdate =>
      rintro rfl
      revert hdate
      decide

theorem SpellsDecimal.plain {t : Text} {d : DecimalText} (h : SpellsDecimal t d) : IsPlain t := by
  have hnot {c : Char} (hc : isNumberChar c = false) : t ≠ [c] := by
    rintro rfl
    have := h.all_numberChar c List.mem_cons_self
    rw [hc] at this
    cases this
  exact ⟨hnot (by decide), hnot (by decide), hnot (by decide)⟩

theorem comparatorTokens_plain {op : Text} {comparator : Comparator}
    (h : (op, comparator) ∈ comparatorTokens) : IsPlain op := by
  have hall : ∀ p ∈ comparatorTokens, p.1 ≠ ['('] ∧ p.1 ≠ [')'] ∧ p.1 ≠ [':'] := by decide
  obtain ⟨h1, h2, h3⟩ := hall _ h
  exact ⟨h1, h2, h3⟩

theorem equalityTokens_plain {op : Text} {comparator : Equality}
    (h : (op, comparator) ∈ equalityTokens) : IsPlain op := by
  have hall : ∀ p ∈ equalityTokens, p.1 ≠ ['('] ∧ p.1 ≠ [')'] ∧ p.1 ≠ [':'] := by decide
  obtain ⟨h1, h2, h3⟩ := hall _ h
  exact ⟨h1, h2, h3⟩

/-- A token that starts a comparison: no parenthesis, no negation and no lambda. -/
structure StartsLeaf (t : Text) : Prop extends IsPlain t where
  negation : asciiLower t ≠ "not".toList
  lambda : matchLambda t = none
  last : ':' ∉ t

/-- The names of the functions that calls start with. -/
def callNames : List Text := functionNames ++ transformTokens.map Prod.fst

theorem startsLeaf_call {name : Text} (h : name ∈ callNames) : StartsLeaf name := by
  have hall : ∀ name ∈ callNames, (name ≠ ['('] ∧ name ≠ [')'] ∧ name ≠ [':']) ∧
      asciiLower name ≠ "not".toList ∧ matchLambda name = none ∧ ':' ∉ name := by
    decide
  obtain ⟨⟨h1, h2, h3⟩, h4, h5, h6⟩ := hall name h
  exact ⟨⟨h1, h2, h3⟩, h4, h5, h6⟩

theorem IsProperty.startsLeaf {name : Text} (h : IsProperty name) : StartsLeaf name :=
  ⟨h.toIsName.plain, h.not_negation, h.not_lambda, h.colon⟩

theorem PrintsField.selfContained {tokens : List Text} {name : Text}
    {transform : Option OperandTransform} (h : PrintsField tokens name transform) :
    SelfContained tokens := by
  cases h with
  | plain hname => exact .token hname.toIsName.plain
  | transformed hname htoken =>
    have hall : ∀ p ∈ transformTokens, p.1 ∈ callNames := by decide
    exact .cons (startsLeaf_call (hall _ htoken)).toIsPlain (.parens (.token hname.toIsName.plain))

theorem PrintsArgument.selfContained {tokens : List Text} {arg : FunctionArg}
    (h : PrintsArgument tokens arg) : SelfContained tokens := by
  cases h with
  | field hfield => exact hfield.selfContained
  | literal hliteral => exact .token hliteral.spellsLiteral.plain

theorem PrintsLength.selfContained {tokens : List Text} {length : Option Rat}
    (h : PrintsLength tokens length) : SelfContained tokens := by
  cases h with
  | none => exact .nil
  | some ht => exact .cons ⟨by simp, by simp, by simp⟩ (.token ht.spellsLiteral.plain)

/-- A call: a name, arguments in parentheses and a comparison. -/
theorem SelfContained.call (name : Text) {args rest : List Text} (hname : name ∈ callNames)
    (hargs : SelfContained args) (hrest : SelfContained rest) :
    SelfContained (name :: ['('] :: (args ++ [')'] :: rest)) := by
  have hcall := (SelfContained.cons (startsLeaf_call hname).toIsPlain hargs.parens).append hrest
  simpa using hcall

/-- The tokens of a comparison are self-contained and start like one. -/
theorem PrintsLeaf.tokens {rt : Runtime} {tokens : List Text} {leaf : Leaf}
    (h : PrintsLeaf rt tokens leaf) :
    SelfContained tokens ∧ ∃ t rest, tokens = t :: rest ∧ StartsLeaf t := by
  have hcomma : IsPlain [','] := ⟨by simp, by simp, by simp⟩
  cases h with
  | comparison hfield hop ht =>
    exact ⟨.cons hfield.toIsName.plain (.cons (comparatorTokens_plain hop) (.token ht.plain)),
      _, _, rfl, hfield.startsLeaf⟩
  | @inList field ts vs hfield _ h =>
    refine ⟨?_, _, _, rfl, hfield.startsLeaf⟩
    have hitems : SelfContained (commaJoin (ts.map fun t => [t])) := by
      apply SelfContained.commaJoin
      intro item hitem
      obtain ⟨t, ht, rfl⟩ := List.mem_map.mp hitem
      obtain ⟨v, _, hv⟩ := ListRelations.exists_mem_of_forall₂ h ht
      exact .token hv.plain
    exact .cons hfield.toIsName.plain (.cons ⟨by simp, by simp, by simp⟩ hitems.parens)
  | function hname hfield ht _ =>
    have hall : ∀ p ∈ predicateTokens, p.1 ∈ callNames := by decide
    refine ⟨?_, _, _, rfl, startsLeaf_call (hall _ hname)⟩
    simpa using SelfContained.call _ (hall _ hname)
      (hfield.selfContained.append (.cons hcomma (.token ht.spellsLiteral.plain))) .nil
  | transformcmp s hname hfield hop =>
    have hall : ∀ p ∈ transformTokens, p.1 ∈ callNames := by decide
    exact ⟨.call _ (hall _ hname) (.token hfield.toIsName.plain)
      (.cons (equalityTokens_plain hop) (.token (SpellsLiteral.string s).plain)), _, _, rfl,
      startsLeaf_call (hall _ hname)⟩
  | transformcmpNull hname hfield hop =>
    have hall : ∀ p ∈ transformTokens, p.1 ∈ callNames := by decide
    exact ⟨.call _ (hall _ hname) (.token hfield.toIsName.plain)
      (.cons (equalityTokens_plain hop) (.token SpellsLiteral.null.plain)), _, _, rfl,
      startsLeaf_call (hall _ hname)⟩
  | @numeric name field op t build comparator d hname hfield hop ht _ =>
    have hnames : name ∈ numericTokens.map Prod.fst := List.mem_map.mpr ⟨_, hname, rfl⟩
    have hall : ∀ name ∈ numericTokens.map Prod.fst, name ∈ callNames := by decide
    exact ⟨.call _ (hall _ hnames) (.token hfield.toIsName.plain)
      (.cons (comparatorTokens_plain hop) (.token ht.plain)), _, _, rfl,
      startsLeaf_call (hall _ hnames)⟩
  | trim harg hop ht =>
    refine ⟨?_, _, _, rfl, startsLeaf_call (by decide)⟩
    simpa using SelfContained.call "trim".toList (by decide) harg.selfContained
      (.cons (equalityTokens_plain hop) (.token ht.plain))
  | concat hargs _ hop ht =>
    refine ⟨?_, _, _, rfl, startsLeaf_call (by decide)⟩
    have hitems := SelfContained.commaJoin fun item hitem => by
      obtain ⟨arg, _, harg⟩ := ListRelations.exists_mem_of_forall₂ hargs hitem
      exact harg.selfContained
    simpa using SelfContained.call "concat".toList (by decide) hitems
      (.cons (equalityTokens_plain hop) (.token ht.plain))
  | indexofcmp needle hfield hop ht _ =>
    refine ⟨?_, _, _, rfl, startsLeaf_call (by decide)⟩
    have hargs := SelfContained.cons hfield.toIsName.plain
      (.cons hcomma (.token (SpellsLiteral.string needle).plain))
    exact .call "indexof".toList (by decide) hargs
      (.cons (comparatorTokens_plain hop) (.token ht.plain))
  | substrcmp hfield hstart hlength hop ht =>
    refine ⟨?_, _, _, rfl, startsLeaf_call (by decide)⟩
    simpa using SelfContained.call "substring".toList (by decide)
      ((SelfContained.cons hfield.toIsName.plain
        (.cons hcomma (.token hstart.spellsLiteral.plain))).append hlength.selfContained)
      (.cons (equalityTokens_plain hop) (.token ht.plain))

/-! ## Lambdas -/

theorem isPathChar_ne_slash {c : Char} (h : isPathChar c) : c ≠ '/' := by
  rintro rfl
  exact absurd h (by decide)

theorem mem_joinPath {path : List Text} {c : Char} (h : c ∈ joinPath path) :
    c = '/' ∨ ∃ segment ∈ path, c ∈ segment := by
  rw [joinPath] at h
  induction path with
  | nil => cases h
  | cons segment path ih =>
    cases path with
    | nil =>
      rw [List.intercalate_singleton] at h
      exact .inr ⟨segment, List.mem_cons_self, h⟩
    | cons next path =>
      rw [List.intercalate_cons_cons, List.mem_append, List.mem_append] at h
      rcases h with (h | h) | h
      · exact .inr ⟨segment, List.mem_cons_self, h⟩
      · exact .inl (List.mem_singleton.mp h)
      · rcases ih h with hslash | ⟨s, hs, hmem⟩
        · exact .inl hslash
        · exact .inr ⟨s, List.mem_cons_of_mem _ hs, hmem⟩

theorem pathSegments_joinPath {path : List Text} (h : IsPath path) :
    pathSegments (joinPath path) = path := by
  have hslash : ∀ segment ∈ path, '/' ∉ segment := by
    intro segment hsegment hmem
    exact isPathChar_ne_slash
      (List.all_eq_true.mp (h.segments segment hsegment).2 '/' hmem) rfl
  rw [pathSegments, joinPath, List.splitOn_intercalate _ hslash h.nonempty, List.filter_eq_self]
  intro segment hsegment
  simpa using (h.segments segment hsegment).1

theorem matchLambda_lambdaToken {path : List Text} (h : IsPath path) (type : LambdaType) :
    matchLambda (lambdaToken path type) = some (joinPath path, type) := by
  have hchars : (joinPath path).all
      (fun c => isAsciiLetter c || isDigit c || c = '_' || c = '/') = true := by
    rw [List.all_eq_true]
    intro c hc
    rcases mem_joinPath hc with rfl | ⟨segment, hsegment, hmem⟩
    · decide
    · have := List.all_eq_true.mp (h.segments segment hsegment).2 c hmem
      simp only [isPathChar, Bool.or_eq_true, decide_eq_true_eq] at this ⊢
      exact .inl this
  have hlength : (lambdaToken path type).length - 4 = (joinPath path).length := by
    cases type <;> simp [lambdaToken, lambdaName]
  rw [matchLambda]
  simp only [hlength]
  have htake : (lambdaToken path type).take (joinPath path).length = joinPath path :=
    List.take_left ..
  have hdrop : (lambdaToken path type).drop (joinPath path).length =
      '/' :: (lambdaName type).toList := List.drop_left ..
  rw [htake, hdrop, h.start, hchars]
  cases type <;> rfl

theorem plain_lambdaToken (path : List Text) (type : LambdaType) :
    IsPlain (lambdaToken path type) := by
  have hne (d : Char) : lambdaToken path type ≠ [d] := by
    intro heq
    have := congrArg List.length heq
    cases type <;> simp [lambdaToken, lambdaName] at this
  exact ⟨hne _, hne _, hne _⟩

/-- The colon ends the alias, wherever the spaces are. -/
theorem readAlias_printsAlias {aliasName : Text} {inner tokens : List Text}
    (hname : IsName aliasName) (htokens : tokens ≠ [])
    (hcolon : [':'] ∉ tokens.takeWhile (· ≠ ['('])) (h : PrintsAlias aliasName inner tokens) :
    readAlias inner = .ok (aliasName, tokens) := by
  have hne : aliasName ≠ [] := by
    obtain ⟨c, rest, rfl, _⟩ := hname.shape
    exact List.cons_ne_nil c rest
  have hresult : readAlias.nonEmpty aliasName tokens = .ok (aliasName, tokens) := by
    rw [readAlias.nonEmpty, if_neg hne, if_neg htokens]
  have hends {t : Text} (h : ':' ∉ t) : endsWith t [':'] = false := by
    by_contra hends
    rw [Bool.not_eq_false, endsWith, List.isSuffixOf_iff_suffix] at hends
    exact h (hends.subset List.mem_cons_self)
  cases h with
  | joined =>
    rw [readAlias.eq_def]
    dsimp only
    rw [if_pos (endsWith_append aliasName [':']), List.dropLast_concat, hresult]
  | apart =>
    rw [readAlias, if_neg (by simp [hends hname.colon])]
    exact hresult
  | @adjacent t tokens ht hcolon' hdelimiter =>
    have hends' : endsWith (aliasName ++ ':' :: t) [':'] = false := by
      by_contra hends'
      rw [Bool.not_eq_false, endsWith, List.isSuffixOf_iff_suffix] at hends'
      obtain ⟨pre, hpre⟩ := hends'
      have hlast := congrArg List.getLast? hpre
      rw [List.getLast?_concat, List.getLast?_append_of_ne_nil _ (by simp),
        List.getLast?_cons_of_ne_nil ht] at hlast
      exact hcolon' (List.mem_of_getLast? hlast.symm)
    have hhead : ∀ rest, tokens ≠ [':'] :: rest := by
      rintro rest rfl
      have ht : t ≠ ['('] := hdelimiter '(' (by decide)
      exact hcolon (by simp [ht])
    have hbefore : ∀ c ∈ aliasName, (decide (c ≠ ':')) = true := by
      intro c hc
      rw [decide_eq_true_eq]
      rintro rfl
      exact hname.colon hc
    have htake : (aliasName ++ ':' :: t).takeWhile (· ≠ ':') = aliasName := by
      rw [List.takeWhile_append_of_pos hbefore]
      simp
    have hdrop : ((aliasName ++ ':' :: t).dropWhile (· ≠ ':')).drop 1 = t := by
      rw [List.dropWhile_append_of_pos hbefore]
      simp
    have hcontains : (aliasName ++ ':' :: t).contains ':' = true := by simp
    rw [readAlias.eq_def]
    dsimp only
    rw [if_neg (by simp [hends'])]
    split
    · next heq => exact absurd rfl (hhead _)
    · rw [if_pos hcontains, htake, hdrop, if_neg hne, if_neg ht, hresult]

namespace PrintsAlias

variable {aliasName : Text} {inner tokens : List Text}

theorem balanced (h : PrintsAlias aliasName inner tokens) (hname : IsName aliasName)
    (htokens : Balanced tokens) : Balanced inner := by
  obtain ⟨c, name, rfl, _⟩ := hname.shape
  cases h with
  | joined => exact .append (.token (by simp) (by simp)) htokens
  | apart =>
    have htoken : Balanced [c :: name] := .token hname.plain.opening hname.plain.closing
    exact htoken.append (.append (.token (by simp) (by simp)) htokens)
  | adjacent tokens ht _ hdelimiter =>
    apply Balanced.append (.token (by simp) (by simp))
    exact htokens.of_cons (hdelimiter '(' (by decide)) (hdelimiter ')' (by decide))

theorem length_le (h : PrintsAlias aliasName inner tokens) : tokens.length ≤ inner.length := by
  cases h with
  | joined | adjacent => simp
  | apart =>
    simp only [List.length_cons]
    omega

end PrintsAlias

theorem Prints.ne_nil {rt : Runtime} {level : Level} {tokens : List Text} {e : ParsedExpression}
    (h : Prints rt level tokens e) : tokens ≠ [] := by
  induction h with
  | leaf hleaf =>
    obtain ⟨_, t, rest, rfl, _⟩ := hleaf.tokens
    exact List.cons_ne_nil t rest
  | unary _ ih => exact ih
  | andLevel _ ih => exact ih
  | lambda | parens | not | and | or => simp

theorem Prints.selfContained {rt : Runtime} {level : Level} {tokens : List Text}
    {e : ParsedExpression} (h : Prints rt level tokens e) : SelfContained tokens := by
  have hkeyword : IsPlain "not".toList ∧ IsPlain "and".toList ∧ IsPlain "or".toList := by
    refine ⟨⟨?_, ?_, ?_⟩, ⟨?_, ?_, ?_⟩, ⟨?_, ?_, ?_⟩⟩ <;> decide
  obtain ⟨hnot, hand, hor⟩ := hkeyword
  induction h with
  | leaf hleaf => exact hleaf.tokens.1
  | @lambda path aliasName inner tokens predicate type hpath hname _ halias ih =>
    have htoken := plain_lambdaToken path type
    have hinner := (halias.balanced hname ih.balanced).parens
    refine ⟨.append (.token htoken.opening htoken.closing) hinner, ?_⟩
    simp [htoken.opening, htoken.colon.symm]
  | parens _ ih => exact ih.parens
  | not _ ih => exact .cons hnot ih
  | unary _ ih => exact ih
  | and _ _ ihleft ihright => exact ihleft.append (.cons hand ihright)
  | andLevel _ ih => exact ih
  | or _ _ ihleft ihright => exact ihleft.append (.cons hor ihright)

/-! ## Parsing -/

section Parsing

variable (rt : Runtime) (ctx : ParseContext)

/-- The connective `keyword` does not go on after these tokens. -/
def StopsAt (keyword : String) (tokens : List Text) : Prop :=
  ∀ t ∈ tokens.head?, isKeyword t keyword = false

/-- Each precedence level reads an expression off the front of the tokens, with enough fuel left
for the loop of the level to go on. -/
def Reads : Level → List Text → ParsedExpression → Prop
  | .unary, tokens, e => ∀ fuel rest, 6 * (tokens ++ rest).length + 3 ≤ fuel →
      parseUnary rt ctx fuel (tokens ++ rest) = .ok (e, rest)
  | .and, tokens, e => ∀ fuel rest, 6 * (tokens ++ rest).length + 4 ≤ fuel →
      ∃ fuel', 6 * rest.length + 1 ≤ fuel' ∧
        parseAnd rt ctx fuel (tokens ++ rest) = parseAndRest rt ctx fuel' e rest
  | .or, tokens, e => ∀ fuel rest, 6 * (tokens ++ rest).length + 5 ≤ fuel →
      StopsAt "and" rest →
      ∃ fuel', 6 * rest.length + 1 ≤ fuel' ∧
        parseOr rt ctx fuel (tokens ++ rest) = parseOrRest rt ctx fuel' e rest

variable {rt ctx}

theorem parseAndRest_stops {fuel : Nat} {e : ParsedExpression} {rest : List Text}
    (hfuel : 1 ≤ fuel) (h : StopsAt "and" rest) :
    parseAndRest rt ctx fuel e rest = .ok (e, rest) := by
  obtain ⟨fuel, rfl⟩ := Nat.exists_eq_add_of_le' hfuel
  rw [parseAndRest.eq_def]
  cases rest with
  | nil => rfl
  | cons t rest => simp [h t rfl]

theorem parseOrRest_stops {fuel : Nat} {e : ParsedExpression} {rest : List Text}
    (hfuel : 1 ≤ fuel) (h : StopsAt "or" rest) :
    parseOrRest rt ctx fuel e rest = .ok (e, rest) := by
  obtain ⟨fuel, rfl⟩ := Nat.exists_eq_add_of_le' hfuel
  rw [parseOrRest.eq_def]
  cases rest with
  | nil => rfl
  | cons t rest => simp [h t rfl]

/-- A whole expression, up to the end of the tokens or a closing parenthesis. -/
theorem Reads.parseExpression {tokens rest : List Text} {e : ParsedExpression} {fuel : Nat}
    (h : Reads rt ctx .or tokens e) (hfuel : 6 * (tokens ++ rest).length + 6 ≤ fuel)
    (hand : StopsAt "and" rest) (hor : StopsAt "or" rest) :
    parseExpression rt ctx fuel (tokens ++ rest) = .ok (e, rest) := by
  obtain ⟨fuel, rfl⟩ := Nat.exists_eq_add_of_le' (Nat.le_trans (Nat.le_add_left 1 _) hfuel)
  obtain ⟨fuel', hfuel', hparse⟩ := h fuel rest (by omega) hand
  rw [LoopbackOData.parseExpression, hparse]
  exact parseOrRest_stops (by omega) hor

theorem stopsAt_nil (keyword : String) : StopsAt keyword [] := by
  intro t ht
  cases ht

theorem stopsAt_cons {keyword : String} {t : Text} (h : isKeyword t keyword = false)
    (rest : List Text) : StopsAt keyword (t :: rest) := by
  intro t' ht'
  cases ht'
  exact h

theorem Reads.parseExpression_all {tokens : List Text} {e : ParsedExpression} {fuel : Nat}
    (h : Reads rt ctx .or tokens e) (hfuel : 6 * tokens.length + 6 ≤ fuel) :
    LoopbackOData.parseExpression rt ctx fuel tokens = .ok (e, []) := by
  have hread : LoopbackOData.parseExpression rt ctx fuel (tokens ++ []) = .ok (e, []) := by
    apply h.parseExpression _ (stopsAt_nil "and") (stopsAt_nil "or")
    rwa [List.append_nil]
  rwa [List.append_nil] at hread

/-- `parseUnary` leaves a token that is no negation to `parsePrimary`. -/
theorem parseUnary_primary {fuel : Nat} {t : Text} {rest : List Text}
    (h : isKeyword t "not" = false) :
    parseUnary rt ctx (fuel + 1) (t :: rest) = parsePrimary rt ctx fuel (t :: rest) := by
  rw [parseUnary]
  simp [h]

/-- `parsePrimary` leaves a token that opens no group to `parseComparison`. -/
theorem parsePrimary_comparison {fuel : Nat} {t : Text} {rest : List Text} (h : t ≠ ['(']) :
    parsePrimary rt ctx (fuel + 1) (t :: rest) = parseComparison rt ctx fuel (t :: rest) := by
  rw [parsePrimary]
  rintro rest' heq
  exact h (List.cons.inj heq).1

theorem reads_leaf {tokens : List Text} {leaf : Leaf} (h : PrintsLeaf rt tokens leaf) :
    Reads rt ctx .unary tokens (.leaf leaf) := by
  intro fuel rest hfuel
  have hparse := parseLeaf_printsLeaf rt ctx rest h
  obtain ⟨_, t, tokens, rfl, hstart⟩ := h.tokens
  obtain ⟨fuel, rfl⟩ := Nat.exists_eq_add_of_le' (Nat.le_trans (by omega : 3 ≤ _) hfuel)
  rw [List.cons_append] at hparse ⊢
  rw [parseUnary_primary (decide_eq_false hstart.negation),
    parsePrimary_comparison hstart.opening, parseComparison]
  dsimp only
  rw [hstart.lambda]
  exact bind_eq_ok.mpr ⟨_, hparse, rfl⟩

theorem reads_parens {tokens : List Text} {e : ParsedExpression} (h : Reads rt ctx .or tokens e) :
    Reads rt ctx .unary (['('] :: (tokens ++ [[')']])) e := by
  intro fuel rest hfuel
  simp only [List.cons_append, List.append_assoc, List.length_cons, List.length_append,
    List.length_nil] at hfuel ⊢
  obtain ⟨fuel, rfl⟩ := Nat.exists_eq_add_of_le' (Nat.le_trans (by omega : 2 ≤ _) hfuel)
  rw [parseUnary_primary (by decide), parsePrimary]
  have hread : parseExpression rt ctx fuel (tokens ++ [')'] :: rest) = .ok (e, [')'] :: rest) := by
    apply h.parseExpression
    · simp only [List.length_append, List.length_cons]
      omega
    · exact stopsAt_cons (by decide) rest
    · exact stopsAt_cons (by decide) rest
  refine bind_eq_ok.mpr ⟨_, hread, ?_⟩
  rfl

theorem reads_lambda {path : List Text} {aliasName : Text} {inner tokens : List Text}
    {predicate : ParsedExpression} (type : LambdaType) (hpath : IsPath path)
    (hname : IsName aliasName) (hprints : Prints rt .or tokens predicate)
    (halias : PrintsAlias aliasName inner tokens) (h : Reads rt ctx .or tokens predicate) :
    Reads rt ctx .unary (lambdaToken path type :: ['('] :: (inner ++ [[')']]))
      (.lambda type path aliasName predicate) := by
  intro fuel rest hfuel
  have hlength := halias.length_le
  simp only [List.cons_append, List.append_assoc, List.length_cons, List.length_append,
    List.length_nil] at hfuel ⊢
  obtain ⟨fuel, rfl⟩ := Nat.exists_eq_add_of_le' (Nat.le_trans (by omega : 4 ≤ _) hfuel)
  have hnot : isKeyword (lambdaToken path type) "not" = false := by
    apply decide_eq_false
    intro heq
    have := congrArg List.length heq
    cases type <;> simp [asciiLower, lambdaToken, lambdaName] at this
  rw [parseUnary_primary hnot, parsePrimary_comparison (plain_lambdaToken path type).opening,
    parseComparison]
  dsimp only
  rw [matchLambda_lambdaToken hpath]
  dsimp only
  rw [parseLambda]
  have hcollect := (halias.balanced hname hprints.selfContained.balanced).collectInner_closing rest
  have hread : parseExpression rt ctx fuel tokens = .ok (predicate, []) :=
    h.parseExpression_all (by omega)
  have hsegments : pathSegments (joinPath path) ≠ [] := by
    rw [pathSegments_joinPath hpath]
    exact hpath.nonempty
  refine bind_eq_ok.mpr ⟨_, hcollect, ?_⟩
  refine bind_eq_ok.mpr ⟨_, readAlias_printsAlias hname hprints.ne_nil
    hprints.selfContained.colon halias, ?_⟩
  refine bind_eq_ok.mpr ⟨_, hread, ?_⟩
  dsimp only
  rw [if_neg (by simp), if_neg hsegments, pathSegments_joinPath hpath]
  rfl

/-- Every printed expression is read back at its precedence level. -/
theorem reads_prints {level : Level} {tokens : List Text} {e : ParsedExpression}
    (h : Prints rt level tokens e) : Reads rt ctx level tokens e := by
  induction h with
  | leaf hleaf => exact reads_leaf hleaf
  | lambda type hpath hname hprints halias ih =>
    exact reads_lambda type hpath hname hprints halias ih
  | parens _ ih => exact reads_parens ih
  | not _ ih =>
    intro fuel rest hfuel
    rw [List.cons_append, List.length_cons] at hfuel
    obtain ⟨fuel, rfl⟩ := Nat.exists_eq_add_of_le' (Nat.le_trans (by omega : 1 ≤ _) hfuel)
    have hkeyword : isKeyword "not".toList "not" = true := by decide
    rw [List.cons_append, parseUnary]
    dsimp only
    rw [if_pos hkeyword, ih fuel rest (by omega)]
    rfl
  | unary _ ih =>
    intro fuel rest hfuel
    obtain ⟨fuel, rfl⟩ := Nat.exists_eq_add_of_le' (Nat.le_trans (by omega : 1 ≤ _) hfuel)
    refine ⟨fuel, ?_, ?_⟩
    · rw [List.length_append] at hfuel
      omega
    · rw [parseAnd, ih fuel rest (by omega)]
      rfl
  | @and left right a b _ _ ihleft ihright =>
    intro fuel rest hfuel
    rw [List.append_assoc] at hfuel ⊢
    obtain ⟨fuel', hfuel', hparse⟩ := ihleft fuel _ hfuel
    rw [List.cons_append, List.length_cons] at hfuel'
    obtain ⟨fuel', rfl⟩ := Nat.exists_eq_add_of_le' (Nat.le_trans (by omega : 1 ≤ _) hfuel')
    have hkeyword : isKeyword "and".toList "and" = true := by decide
    refine ⟨fuel', ?_, ?_⟩
    · rw [List.length_append] at hfuel'
      omega
    · rw [hparse, List.cons_append, parseAndRest]
      dsimp only
      rw [if_pos hkeyword, ihright fuel' rest (by omega)]
      rfl
  | andLevel _ ih =>
    intro fuel rest hfuel hstops
    obtain ⟨fuel, rfl⟩ := Nat.exists_eq_add_of_le' (Nat.le_trans (by omega : 1 ≤ _) hfuel)
    obtain ⟨fuel', hfuel', hparse⟩ := ih fuel rest (by omega)
    refine ⟨fuel, ?_, ?_⟩
    · rw [List.length_append] at hfuel
      omega
    · rw [parseOr, hparse, parseAndRest_stops (by omega) hstops]
      rfl
  | @or left right a b _ _ ihleft ihright =>
    intro fuel rest hfuel hstops
    rw [List.append_assoc] at hfuel ⊢
    obtain ⟨fuel', hfuel', hparse⟩ := ihleft fuel _ hfuel (stopsAt_cons (by decide) _)
    rw [List.cons_append, List.length_cons] at hfuel'
    obtain ⟨fuel', rfl⟩ := Nat.exists_eq_add_of_le' (Nat.le_trans (by omega : 1 ≤ _) hfuel')
    obtain ⟨fuel'', hfuel'', hright⟩ := ihright fuel' rest (by omega)
    have hkeyword : isKeyword "or".toList "or" = true := by decide
    refine ⟨fuel', ?_, ?_⟩
    · rw [List.length_append] at hfuel'
      omega
    · rw [hparse, List.cons_append, parseOrRest]
      dsimp only
      rw [if_pos hkeyword, hright, parseAndRest_stops (by omega) hstops]
      rfl

theorem parseFilter_prints {tokens : List Text} {e : ParsedExpression}
    (h : Prints rt .or tokens e) : parseFilter rt ctx tokens = .ok e := by
  have hread : parseExpression rt ctx (6 * tokens.length + 6) tokens = .ok (e, []) :=
    (reads_prints h).parseExpression_all (Nat.le_refl _)
  rw [parseFilter.eq_def]
  split
  · exact absurd rfl h.ne_nil
  · exact bind_eq_ok.mpr ⟨_, hread, rfl⟩

end Parsing

/-- Parsing inverts printing, however the text is spaced and parenthesised. -/
theorem parseFilterText_of_printsText {rt : Runtime} {text : Text} {e : ParsedExpression}
    (options : ParseOptions) (h : PrintsText rt text e) :
    parseFilterText rt options text = .ok (some e) := by
  obtain ⟨tokens, hprints, hspaced⟩ := h
  rw [parseFilterText, tokenize_spaced hspaced]
  refine bind_eq_ok.mpr ⟨_, rfl, ?_⟩
  rw [if_neg hprints.ne_nil]
  exact bind_eq_ok.mpr ⟨_, parseFilter_prints hprints, rfl⟩

/-- A negated group with a quote in a literal, spaced unevenly. -/
theorem parseFilterText_of_printsText_negatedGroup :
    parseFilterText Runtime.ascii {} "not(  a eq 'it''s')".toList =
      .ok (some (.not (.leaf (.comparison ['a'] .eq (.single (.str "it's".toList)))))) := by
  have ha : IsProperty ['a'] := by
    refine ⟨⟨?_, ?_, ?_⟩, ?_, ?_, ?_⟩ <;> decide
  have hleaf : PrintsLeaf Runtime.ascii [['a'], "eq".toList, "'it''s'".toList]
      (.comparison ['a'] .eq (.single (.str "it's".toList))) :=
    .comparison ha (by decide : ("eq".toList, Comparator.eq) ∈ comparatorTokens)
      (.string "it's".toList)
  have htext : "not(  a eq 'it''s')".toList = "not".toList ++ '(' :: ' ' :: ' ' ::
      (['a'] ++ ' ' :: ("eq".toList ++ ' ' :: ("'it''s'".toList ++ [')']))) := by decide
  apply parseFilterText_of_printsText
  refine ⟨_, .andLevel (.unary (.not (.parens (.andLevel (.unary (.leaf hleaf)))))), ?_⟩
  rw [htext]
  have hword (w : Text) {s : Text} {ts : List Text} (h : w ≠ [] ∧ scansAsWord false w = true)
      (hs : Spaced ts s) (hbreak : s.head?.all fun c => isSpace c || isDelimiter c) :
      Spaced (w :: ts) (w ++ s) := by
    refine .word h ?_ hs
    intro c hc
    rw [hc] at hbreak
    simpa using hbreak
  have hspace : isSpace ' ' = true := by decide
  apply hword "not".toList (by decide) _ (by decide)
  refine .delimiter (by decide) (.space hspace (.space hspace ?_))
  apply hword ['a'] (by decide) (.space hspace _) (by decide)
  apply hword "eq".toList (by decide) (.space hspace _) (by decide)
  apply hword "'it''s'".toList (by decide) _ (by decide)
  exact .delimiter (by decide) .nil

/-- A number of more than 15 digits is kept as a text. -/
theorem not_parseFilterText_long :
    parseFilterText Runtime.ascii {} "a eq 1234567890123456".toList ≠
      .ok (some (.leaf (.comparison "a".toList .eq (.single (.num 1234567890123456))))) := by
  decide +kernel

/-! ## Minimal parentheses -/

/-- The expressions whose comparisons print as `leafTokens` and whose connectives are binary. -/
inductive Printable (rt : Runtime) (leafTokens : Leaf → List Text) : ParsedExpression → Prop where
  | leaf {leaf : Leaf} : PrintsLeaf rt (leafTokens leaf) leaf →
    Printable rt leafTokens (.leaf leaf)
  | lambda {path : List Text} {aliasName : Text} {predicate : ParsedExpression}
    (type : LambdaType) : IsPath path → IsName aliasName → Printable rt leafTokens predicate →
    Printable rt leafTokens (.lambda type path aliasName predicate)
  | not {e : ParsedExpression} : Printable rt leafTokens e → Printable rt leafTokens (.not e)
  | logical (op : LogicalType) {a b : ParsedExpression} : Printable rt leafTokens a →
    Printable rt leafTokens b → Printable rt leafTokens (.logical op [a, b])

def parenthesize (needed : Bool) (tokens : List Text) : List Text :=
  if needed then ['('] :: (tokens ++ [[')']]) else tokens

/-- The tokens of an expression with the parentheses that its precedence level needs. -/
def minimalTokens (leafTokens : Leaf → List Text) : Level → ParsedExpression → List Text
  | _, .leaf leaf => leafTokens leaf
  | _, .lambda type path aliasName predicate =>
    lambdaToken path type :: ['('] ::
      (((aliasName ++ [':']) :: minimalTokens leafTokens .or predicate) ++ [[')']])
  | _, .not e => "not".toList :: minimalTokens leafTokens .unary e
  | level, .logical .and [a, b] =>
    parenthesize (level = .unary)
      (minimalTokens leafTokens .and a ++ "and".toList :: minimalTokens leafTokens .unary b)
  | level, .logical .or [a, b] =>
    parenthesize (level ≠ .or)
      (minimalTokens leafTokens .or a ++ "or".toList :: minimalTokens leafTokens .and b)
  | _, _ => []

theorem Prints.of_unary {rt : Runtime} {tokens : List Text} {e : ParsedExpression}
    (h : Prints rt .unary tokens e) (level : Level) : Prints rt level tokens e := by
  cases level with
  | unary => exact h
  | and => exact .unary h
  | or => exact .andLevel (.unary h)

/-- Printing with minimal parentheses is one of the ways to print an expression. -/
theorem prints_minimalTokens {rt : Runtime} {leafTokens : Leaf → List Text}
    {e : ParsedExpression} (h : Printable rt leafTokens e) (level : Level) :
    Prints rt level (minimalTokens leafTokens level e) e := by
  induction h generalizing level with
  | leaf hleaf =>
    rw [minimalTokens]
    exact Prints.of_unary (.leaf hleaf) level
  | lambda type hpath hname _ ih =>
    rw [minimalTokens]
    exact Prints.of_unary (.lambda type hpath hname (ih .or) (.joined _)) level
  | not _ ih =>
    rw [minimalTokens]
    exact Prints.of_unary (.not (ih .unary)) level
  | logical op _ _ iha ihb =>
    cases op with
    | and =>
      rw [minimalTokens]
      have hand := Prints.and (iha .and) (ihb .unary)
      cases level with
      | unary => exact .parens (.andLevel hand)
      | and => exact hand
      | or => exact .andLevel hand
    | or =>
      rw [minimalTokens]
      have hor := Prints.or (iha .or) (ihb .and)
      cases level with
      | unary => exact .parens hor
      | and => exact .unary (.parens hor)
      | or => exact hor

end LoopbackOData
