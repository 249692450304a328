import LoopbackOData.Filter.Spelling
import LoopbackOData.Library.ListRelations
import LoopbackOData.Library.Outcome

/-!
# Printed comparisons

The token sequences that a comparison may be printed as, and that `parseLeaf` reads each of them
back.
-/

namespace LoopbackOData

open Outcome ListRelations

set_option autoImplicit false

/-! ## Names -/

/-- An identifier: no literal starts like it, and it is no alias with its colon. -/
structure IsName (name : Text) : Prop where
  start : name.head?.any (fun c => !isDigit c && c ≠ '-' && !isDelimiter c) = true
  quote : '\'' ∉ name
  colon : ':' ∉ name

def keywordLiterals : List Text := ["null".toList, "true".toList, "false".toList]

/-- The functions that `parseComparison` takes for a call whether or not a parenthesis follows. -/
def functionNames : List Text :=
  ["trim".toList, "concat".toList, "month".toList, "day".toList, "hour".toList, "minute".toList,
    "second".toList, "contains".toList, "startswith".toList, "endswith".toList,
    "indexof".toList, "substring".toList, "length".toList, "round".toList, "floor".toList,
    "ceiling".toList, "year".toList]

/-- A property that can stand on the left of a comparison. -/
structure IsProperty (name : Text) : Prop extends IsName name where
  not_function : asciiLower name ∉ functionNames
  not_negation : asciiLower name ≠ "not".toList
  not_lambda : matchLambda name = none

/-- A property that can stand as the argument of a function. -/
structure IsArgument (name : Text) : Prop extends IsName name where
  not_literal : name ∉ keywordLiterals

/-- A property that can stand under `tolower` and `toupper` in a comparison. -/
structure IsTransformed (name : Text) : Prop extends IsName name where
  not_literal : asciiLower name ∉ keywordLiterals

theorem IsName.shape {name : Text} (h : IsName name) :
    ∃ c rest, name = c :: rest ∧ isDigit c = false ∧ c ≠ '-' ∧ isDelimiter c = false := by
  obtain ⟨hstart, _, _⟩ := h
  cases name with
  | nil => cases hstart
  | cons c rest =>
    simp only [List.head?_cons, Option.any_some, Bool.and_eq_true, Bool.not_eq_true',
      decide_eq_true_eq] at hstart
    exact ⟨c, rest, rfl, hstart.1.1, hstart.1.2, hstart.2⟩

theorem IsName.ne_delimiter {name : Text} (h : IsName name) {d : Char} (hd : isDelimiter d) :
    name ≠ [d] := by
  obtain ⟨c, rest, rfl, _, _, hc⟩ := h.shape
  intro heq
  rw [List.cons.injEq] at heq
  rw [heq.1, hd] at hc
  cases hc

theorem readDecimal_name {name : Text} (h : IsName name) : readDecimal name = none := by
  obtain ⟨c, rest, rfl, hdigit, hminus, _⟩ := h.shape
  have hsign : startsWith (c :: rest) ['-'] = false := by
    simp [startsWith, List.isPrefixOf, hminus.symm]
  simp [readDecimal, hsign, hdigit]

theorem literalOperand_name {name : Text} (h : IsArgument name) :
    literalOperand name = .field name none := by
  obtain ⟨hquoted, _⟩ := no_quotes h.quote
  have hne : ∀ keyword ∈ keywordLiterals, name ≠ keyword := by
    rintro keyword hkeyword rfl
    exact h.not_literal hkeyword
  rw [literalOperand, if_neg (by simp [hquoted]), if_neg (hne _ (by decide)),
    if_neg (hne _ (by decide)), if_neg (hne _ (by decide)), tryParseNumericToken,
    readDecimal_name h.toIsName]

theorem toLower_eq_quote {c : Char} (h : c.toLower = '\'') : c = '\'' := by
  unfold Char.toLower at h
  split at h
  · next hupper =>
    have hval := congrArg (fun c => c.val.toNat) h
    have hlow : 65 ≤ c.val.toNat := hupper.1
    have hhigh : c.val.toNat ≤ 90 := hupper.2
    have hshift : ('a'.val - 'A'.val).toNat = 32 := rfl
    have hquote : ('\''.val).toNat = 39 := rfl
    simp only [UInt32.toNat_add, hshift, hquote] at hval
    omega
  · exact h

theorem isTransformField_name {name : Text} (h : IsTransformed name) :
    isTransformField name = true := by
  have hkeyword : ∀ keyword ∈ keywordLiterals, asciiLower name ≠ keyword := by
    intro keyword hkeyword heq
    exact h.not_literal (heq ▸ hkeyword)
  have hends : endsWith name ['\''] = false := by
    by_contra hends
    exact h.quote (quote_mem_of_endsWith (by simpa using hends))
  have htyped : typedLiteralKinds.any
      (fun kind => startsWith (asciiLower name) (kind ++ ['\''])) = false := by
    rw [List.any_eq_false]
    intro kind _ hstart
    rw [startsWith, List.isPrefixOf_iff_prefix] at hstart
    have hmem : '\'' ∈ asciiLower name := hstart.subset (by simp)
    obtain ⟨c, hc, hlower⟩ := List.mem_map.mp hmem
    rw [toLower_eq_quote hlower] at hc
    exact h.quote hc
  obtain ⟨c, rest, rfl, hdigit, hminus, hdelimiter⟩ := h.shape
  have hquote : startsWith (c :: rest) ['\''] = false := by
    have hc : '\'' ≠ c := by
      rintro rfl
      exact h.quote List.mem_cons_self
    simp [startsWith, List.isPrefixOf, hc]
  have hsign : startsWith (c :: rest) ['-'] = false := by
    simp [startsWith, List.isPrefixOf, hminus.symm]
  have hne {d : Char} (hd : isDelimiter d) : c :: rest ≠ [d] := h.toIsName.ne_delimiter hd
  simp only [isTransformField, hquote, hends, htyped, hsign, List.head?_cons, Option.any_some,
    hdigit, decide_eq_false (hne (d := '(') (by decide)),
    decide_eq_false (hne (d := ')') (by decide)), decide_eq_false (hne (d := ',') (by decide)),
    decide_eq_false (hkeyword "null".toList (by decide)),
    decide_eq_false (hkeyword "true".toList (by decide)),
    decide_eq_false (hkeyword "false".toList (by decide))]
  rfl

/-! ## The grammar -/

def comparatorTokens : List (Text × Comparator) :=
  [("eq".toList, .eq), ("ne".toList, .neq), ("gt".toList, .gt), ("ge".toList, .gte),
    ("lt".toList, .lt), ("le".toList, .lte)]

def equalityTokens : List (Text × Equality) := [("eq".toList, .eq), ("ne".toList, .neq)]

def transformTokens : List (Text × OperandTransform) :=
  [("tolower".toList, .tolower), ("toupper".toList, .toupper)]

def predicateTokens : List (Text × StringPredicate) :=
  [("contains".toList, .contains), ("startswith".toList, .startswith),
    ("endswith".toList, .endswith)]

/-- The functions that are compared with a number. -/
def numericTokens : List (Text × (Text → Comparator → Rat → Leaf)) :=
  [("month".toList, .datepart .month), ("day".toList, .datepart .day),
    ("hour".toList, .datepart .hour), ("minute".toList, .datepart .minute),
    ("second".toList, .datepart .second), ("round".toList, .fncmp .round),
    ("floor".toList, .fncmp .floor), ("ceiling".toList, .fncmp .ceiling),
    ("year".toList, .fncmp .year), ("length".toList, .lengthcmp)]

/-- A list of items separated by commas. -/
def commaJoin : List (List Text) → List Text
  | [] => []
  | [item] => item
  | item :: rest => item ++ [','] :: commaJoin rest

/-- A property as the argument of a function, under a case conversion or not. -/
inductive PrintsField : List Text → Text → Option OperandTransform → Prop where
  | plain {name : Text} : IsArgument name → PrintsField [name] name none
  | transformed {name token : Text} {transform : OperandTransform} : IsArgument name →
    (token, transform) ∈ transformTokens →
    PrintsField [token, ['('], name, [')']] name (some transform)

inductive PrintsArgument : List Text → FunctionArg → Prop where
  | field {tokens : List Text} {name : Text} {transform : Option OperandTransform} :
    PrintsField tokens name transform → PrintsArgument tokens (.field name transform)
  | literal {t : Text} {v : Scalar} : SpellsOperand t v → PrintsArgument [t] (.literal v)

/-- The third argument of `substring`. -/
inductive PrintsLength : List Text → Option Rat → Prop where
  | none : PrintsLength [] none
  | some {t : Text} {length : Rat} : SpellsOperand t (.num length) →
    PrintsLength [[','], t] (some length)

inductive PrintsLeaf (rt : Runtime) : List Text → Leaf → Prop where
  | comparison {field op t : Text} {comparator : Comparator} {v : Scalar} : IsProperty field →
    (op, comparator) ∈ comparatorTokens → SpellsLiteral t v →
    PrintsLeaf rt [field, op, t] (.comparison field comparator (.single v))
  | inList {field : Text} {ts : List Text} {vs : List Scalar} : IsProperty field → ts ≠ [] →
    List.Forall₂ SpellsLiteral ts vs →
    PrintsLeaf rt ([field, "in".toList, ['(']] ++ (commaJoin (ts.map fun t => [t]) ++ [[')']]))
      (.comparison field .inq (.list vs))
  | function {name field t : Text} {predicate : StringPredicate} {tokens : List Text}
    {transform : Option OperandTransform} {v : Scalar} : (name, predicate) ∈ predicateTokens →
    PrintsField tokens field transform → SpellsOperand t v →
    convertArgument rt transform none v = v →
    PrintsLeaf rt ([name, ['(']] ++ (tokens ++ [[','], t, [')']]))
      (.function predicate field v true transform false)
  | transformcmp {name field op : Text} {transform : OperandTransform} {comparator : Equality}
    (s : Text) : (name, transform) ∈ transformTokens → IsTransformed field →
    (op, comparator) ∈ equalityTokens →
    PrintsLeaf rt [name, ['('], field, [')'], op, quote s]
      (.transformcmp transform field comparator (some s))
  | transformcmpNull {name field op : Text} {transform : OperandTransform}
    {comparator : Equality} : (name, transform) ∈ transformTokens → IsTransformed field →
    (op, comparator) ∈ equalityTokens →
    PrintsLeaf rt [name, ['('], field, [')'], op, "null".toList]
      (.transformcmp transform field comparator none)
  | numeric {name field op t : Text} {build : Text → Comparator → Rat → Leaf}
    {comparator : Comparator} {d : DecimalText} : (name, build) ∈ numericTokens →
    IsArgument field → (op, comparator) ∈ comparatorTokens → SpellsDecimal t d →
    isFiniteNumber d.value →
    PrintsLeaf rt [name, ['('], field, [')'], op, t] (build field comparator d.value)
  | trim {tokens : List Text} {op t s : Text} {arg : FunctionArg} {comparator : Equality} :
    PrintsArgument tokens arg → (op, comparator) ∈ equalityTokens → SpellsLiteral t (.str s) →
    PrintsLeaf rt (["trim".toList, ['(']] ++ (tokens ++ [[')'], op, t]))
      (.stringfncmp .trim [arg] comparator s)
  | concat {items : List (List Text)} {op t s : Text} {args : List FunctionArg}
    {comparator : Equality} : List.Forall₂ PrintsArgument items args → 2 ≤ args.length →
    (op, comparator) ∈ equalityTokens → SpellsLiteral t (.str s) →
    PrintsLeaf rt (["concat".toList, ['(']] ++ (commaJoin items ++ [[')'], op, t]))
      (.stringfncmp .concat args comparator s)
  | indexofcmp {field op t : Text} (needle : Text) {comparator : Comparator} {d : DecimalText} :
    IsArgument field → (op, comparator) ∈ comparatorTokens → SpellsDecimal t d →
    isFiniteNumber d.value →
    PrintsLeaf rt ["indexof".toList, ['('], field, [','], quote needle, [')'], op, t]
      (.indexofcmp field comparator d.value needle)
  | substrcmp {field op t t' s : Text} {tokens : List Text} {start : Rat} {length : Option Rat}
    {comparator : Equality} : IsArgument field → SpellsOperand t (.num start) →
    PrintsLength tokens length → (op, comparator) ∈ equalityTokens →
    SpellsLiteral t' (.str s) →
    PrintsLeaf rt (["substring".toList, ['('], field, [','], t] ++ (tokens ++ [[')'], op, t']))
      (.substrcmp field start length comparator s)

/-! ## Reading arguments -/

theorem SpellsOperand.spellsLiteral {t : Text} {v : Scalar} (h : SpellsOperand t v) :
    SpellsLiteral t v := by
  cases h with
  | null => exact .null
  | true => exact .true
  | false => exact .false
  | number hdecimal hprecision => exact .number hdecimal hprecision
  | string s => exact .string s

theorem quote_ne_singleton (s : Text) (c : Char) : quote s ≠ [c] := by
  intro h
  have := congrArg List.length h
  simp [quote] at this

theorem SpellsLiteral.ne_delimiter {t : Text} {v : Scalar} (h : SpellsLiteral t v) {d : Char}
    (hd : isDelimiter d) : t ≠ [d] := by
  cases h with
  | null => simp
  | true => simp
  | false => simp
  | number hdecimal _ =>
    rintro rfl
    have hnot : ∀ c ∈ "0123456789-+.eE".toList, ¬ isDelimiter c := by decide
    exact hnot d (mem_numberChars (hdecimal.all_numberChar d List.mem_cons_self)) hd
  | string s => exact quote_ne_singleton s d
  | @typed kind s _ =>
    intro h
    have := congrArg List.length h
    simp [quote] at this
    omega
  | date hdate =>
    rintro rfl
    obtain ⟨_, _, rest, hafter, _⟩ := isDateText_shape hdate
    simp [afterDate] at hafter

section Read

variable (rt : Runtime) {rest : List Text}

theorem parseOperand_token {token : Text} (htoken : token ≠ ['(']) (hrest : rest.head? ≠ some ['(']) :
    parseOperand rt (token :: rest) = .ok (literalOperand token, rest) := by
  rw [parseOperand.eq_def]
  split
  · next heq => cases heq
  · next heq => exact absurd (List.cons.inj heq).1 htoken
  · next heq =>
    rw [(List.cons.inj heq).2] at hrest
    exact absurd rfl hrest
  · next heq =>
    cases heq
    rfl

theorem parseOperand_literal {t : Text} {v : Scalar} (h : SpellsOperand t v)
    (hrest : rest.head? ≠ some ['(']) :
    parseOperand rt (t :: rest) = .ok (.literal v none, rest) := by
  rw [parseOperand_token rt (h.spellsLiteral.ne_delimiter (by decide)) hrest,
    literalOperand_of_spells h]

theorem parseOperand_argument {name : Text} (h : IsArgument name)
    (hrest : rest.head? ≠ some ['(']) :
    parseOperand rt (name :: rest) = .ok (.field name none, rest) := by
  rw [parseOperand_token rt (h.toIsName.ne_delimiter (by decide)) hrest, literalOperand_name h]

theorem parseOperand_field {tokens : List Text} {name : Text}
    {transform : Option OperandTransform} (h : PrintsField tokens name transform)
    (hrest : rest.head? ≠ some ['(']) :
    parseOperand rt (tokens ++ rest) = .ok (.field name transform, rest) := by
  cases h with
  | plain hname => exact parseOperand_argument rt hname hrest
  | @transformed _ token transform hname htoken =>
    have hinner : parseOperand rt (name :: [')'] :: rest) = .ok (.field name none, [')'] :: rest) :=
      parseOperand_argument rt hname (by simp)
    simp only [transformTokens, List.mem_cons, List.not_mem_nil, or_false, Prod.mk.injEq] at htoken
    rcases htoken with ⟨rfl, rfl⟩ | ⟨rfl, rfl⟩
    · have hstep : parseOperand rt ("tolower".toList :: ['('] :: name :: [')'] :: rest) = do
          let parsed ← parseOperand rt (name :: [')'] :: rest)
          let rest ← expectClosing
            ("Malformed " ++ String.ofList "tolower".toList ++
              " invocation. Expected closing parenthesis.") parsed.2
          return (applyTransform rt parsed.1 .tolower, rest) := rfl
      exact hstep.trans (by rw [hinner]; rfl)
    · have hstep : parseOperand rt ("toupper".toList :: ['('] :: name :: [')'] :: rest) = do
          let parsed ← parseOperand rt (name :: [')'] :: rest)
          let rest ← expectClosing
            ("Malformed " ++ String.ofList "toupper".toList ++
              " invocation. Expected closing parenthesis.") parsed.2
          return (applyTransform rt parsed.1 .toupper, rest) := rfl
      exact hstep.trans (by rw [hinner]; rfl)

theorem parseFieldArgument_argument {name : Text} (message : String) (h : IsArgument name)
    (hrest : rest.head? ≠ some ['(']) :
    parseFieldArgument rt message (name :: rest) = .ok ((name, none), rest) := by
  rw [parseFieldArgument, parseOperand_argument rt h hrest]
  rfl

theorem parseFieldArgument_field {tokens : List Text} {name : Text}
    {transform : Option OperandTransform} (message : String) (h : PrintsField tokens name transform)
    (hrest : rest.head? ≠ some ['(']) :
    parseFieldArgument rt message (tokens ++ rest) = .ok ((name, transform), rest) := by
  rw [parseFieldArgument, parseOperand_field rt h hrest]
  rfl

/-- An argument of `trim` or `concat` is read back, whatever the operand was recorded as. -/
theorem parseOperand_printsArgument (rest : List Text) {tokens : List Text} {arg : FunctionArg}
    (h : PrintsArgument tokens arg) (hrest : rest.head? ≠ some ['(']) :
    ∃ operand, parseOperand rt (tokens ++ rest) = .ok (operand, rest) ∧
      operandToFunctionArg operand = arg := by
  cases h with
  | field hfield => exact ⟨_, parseOperand_field rt hfield hrest, rfl⟩
  | literal hliteral => exact ⟨_, parseOperand_literal rt hliteral hrest, rfl⟩

theorem PrintsArgument.ne_nil {tokens : List Text} {arg : FunctionArg}
    (h : PrintsArgument tokens arg) : tokens ≠ [] := by
  cases h with
  | field hfield => cases hfield <;> simp
  | literal _ => simp

theorem commaJoin_cons (item : List Text) {items : List (List Text)} (hne : items ≠ []) :
    commaJoin (item :: items) = item ++ [','] :: commaJoin items := by
  cases items with
  | nil => exact absurd rfl hne
  | cons next items => rfl

theorem parseArguments_printsArgument {items : List (List Text)} {args : List FunctionArg}
    (hne : items ≠ []) (h : List.Forall₂ PrintsArgument items args) {fuel : Nat}
    (hfuel : items.length ≤ fuel) :
    parseArguments rt fuel (commaJoin items ++ [')'] :: rest) = .ok (args, [')'] :: rest) := by
  induction h generalizing fuel with
  | nil => exact absurd rfl hne
  | @cons item arg items args hitem hitems ih =>
    obtain ⟨fuel, rfl⟩ : ∃ n, fuel = n + 1 := ⟨fuel - 1, by simp at hfuel; omega⟩
    have hfuel' : items.length ≤ fuel := by simpa using hfuel
    cases items with
    | nil =>
      cases hitems
      obtain ⟨operand, hoperand, harg⟩ :=
        parseOperand_printsArgument rt ([')'] :: rest) hitem (by simp)
      have hitem_ne := hitem.ne_nil
      rw [commaJoin, parseArguments, hoperand]
      · simp [harg, bind, Except.bind, pure, Except.pure]
      · simp
    | cons next items =>
      obtain ⟨operand, hoperand, harg⟩ := parseOperand_printsArgument rt
        ([','] :: (commaJoin (next :: items) ++ [')'] :: rest)) hitem (by simp)
      rw [commaJoin_cons item (by simp), List.append_assoc, List.cons_append, parseArguments,
        hoperand]
      · simp [harg, ih (by simp) hfuel', bind, Except.bind, pure, Except.pure]
      · simp

theorem parseInItems_item (ctx : ParseContext) {t : Text} {v : Scalar} (h : SpellsLiteral t v)
    (acc : List Scalar) :
    parseInItems ctx (t :: rest) true acc = parseInItems ctx rest false (acc ++ [v]) := by
  rw [parseInItems, if_neg (h.ne_delimiter (by decide)),
    if_neg (by simp [isInListLiteralToken_of_spells h]), parseLiteral_of_spells h]
  exact fun heq => h.ne_delimiter (d := ')') (by decide) heq

theorem parseInItems_spellsLiteral (ctx : ParseContext) {ts : List Text} {vs acc : List Scalar}
    (hne : ts ≠ []) (h : List.Forall₂ SpellsLiteral ts vs) :
    parseInItems ctx (commaJoin (ts.map fun t => [t]) ++ [')'] :: rest) true acc =
      .ok (acc ++ vs, rest) := by
  induction h generalizing acc with
  | nil => exact absurd rfl hne
  | @cons t v ts vs ht hts ih =>
    cases ts with
    | nil =>
      cases hts
      rw [List.map_singleton, commaJoin, List.singleton_append, parseInItems_item ctx ht]
      simp [parseInItems]
    | cons next ts =>
      rw [List.map_cons, commaJoin_cons _ (by simp), List.append_assoc, List.singleton_append,
        List.cons_append, parseInItems_item ctx ht, parseInItems]
      · rw [if_neg (by simp), ih (by simp), List.append_assoc]
        rfl
      · simp

end Read

/-! ## Reading comparisons -/

theorem comparatorTokens_spec : ∀ p ∈ comparatorTokens,
    comparisonOperator (asciiLower p.1) = some p.2 ∧ asciiLower p.1 ≠ "in".toList ∧
      p.1 ≠ ['('] := by
  decide

theorem equalityTokens_spec : ∀ p ∈ equalityTokens, equality (asciiLower p.1) = some p.2 := by
  decide

section Leaves

variable (rt : Runtime) (ctx : ParseContext) (rest : List Text)

/-- A token that is no function name starts a comparison of a property. -/
theorem parseLeaf_property {field next : Text} (h : IsProperty field) (hnext : next ≠ ['(']) :
    parseLeaf rt ctx (field :: next :: rest) = parseFieldComparison ctx (field :: next :: rest) := by
  have hnot := h.not_function
  simp only [functionNames, List.mem_cons, List.not_mem_nil, or_false, not_or] at hnot
  obtain ⟨htrim, hconcat, hmonth, hday, hhour, hminute, hsecond, hcontains, hstartswith, hendswith,
    hindexof, hsubstring, hlength, hround, hfloor, hceiling, hyear⟩ := hnot
  have hstring : stringFunction (asciiLower field) = none := by
    rw [stringFunction, if_neg htrim, if_neg hconcat]
  have hpart : datePart (asciiLower field) = none := by
    rw [datePart, if_neg hmonth, if_neg hday, if_neg hhour, if_neg hminute, if_neg hsecond]
  have hpredicate : stringPredicate (asciiLower field) = none := by
    rw [stringPredicate, if_neg hcontains, if_neg hstartswith, if_neg hendswith]
  have hfunction : fieldFunction (asciiLower field) = none := by
    rw [fieldFunction, if_neg hround, if_neg hfloor, if_neg hceiling, if_neg hyear]
  rw [parseLeaf]
  · rw [hstring]
    dsimp only
    rw [hpart]
    dsimp only
    rw [hpredicate]
    dsimp only
    rw [if_neg hindexof, if_neg hsubstring, if_neg hlength, hfunction]
  · intro _ _ _ heq
    exact hnext (List.cons.inj heq).1

theorem parseLeaf_comparison {field op t : Text} {comparator : Comparator} {v : Scalar}
    (hfield : IsProperty field) (hop : (op, comparator) ∈ comparatorTokens)
    (ht : SpellsLiteral t v) :
    parseLeaf rt ctx (field :: op :: t :: rest) =
      .ok (.comparison field comparator (.single v), rest) := by
  obtain ⟨hcomparator, hin, hparen⟩ := comparatorTokens_spec _ hop
  rw [parseLeaf_property rt ctx _ hfield hparen, parseFieldComparison, if_neg hin]
  · dsimp only
    rw [hcomparator, parseLiteral_of_spells ht]
  · exact fun _ heq => ht.ne_delimiter (d := '(') (by decide) (List.cons.inj heq).1

theorem parseLeaf_inList {field : Text} {ts : List Text} {vs : List Scalar}
    (hfield : IsProperty field) (hne : ts ≠ []) (h : List.Forall₂ SpellsLiteral ts vs) :
    parseLeaf rt ctx (field :: "in".toList :: ['('] ::
        (commaJoin (ts.map fun t => [t]) ++ [')'] :: rest)) =
      .ok (.comparison field .inq (.list vs), rest) := by
  rw [parseLeaf_property rt ctx _ hfield (by simp), parseFieldComparison, if_pos (by decide)]
  dsimp only
  rw [parseInItems_spellsLiteral ctx hne h]
  rfl

theorem parseLeaf_function {name field t : Text} {predicate : StringPredicate}
    {tokens : List Text} {transform : Option OperandTransform} {v : Scalar}
    (hname : (name, predicate) ∈ predicateTokens) (hfield : PrintsField tokens field transform)
    (ht : SpellsOperand t v) (hv : convertArgument rt transform none v = v) :
    parseLeaf rt ctx (name :: ['('] :: (tokens ++ [','] :: t :: [')'] :: rest)) =
      .ok (.function predicate field v true transform false, rest) := by
  have hcall : parseFunction rt predicate name (['('] :: (tokens ++ [','] :: t :: [')'] :: rest)) =
      .ok (.function predicate field v true transform false, rest) := by
    refine bind_eq_ok.mpr ⟨_, rfl, ?_⟩
    refine bind_eq_ok.mpr ⟨_, parseFieldArgument_field rt _ hfield (by simp), ?_⟩
    refine bind_eq_ok.mpr ⟨_, rfl, ?_⟩
    refine bind_eq_ok.mpr ⟨_, parseOperand_literal rt ht (by simp), ?_⟩
    refine bind_eq_ok.mpr ⟨_, rfl, ?_⟩
    rw [hv]
    rfl
  rw [← hcall]
  simp only [predicateTokens, List.mem_cons, List.not_mem_nil, or_false, Prod.mk.injEq] at hname
  rcases hname with ⟨rfl, rfl⟩ | ⟨rfl, rfl⟩ | ⟨rfl, rfl⟩ <;> rfl

theorem parseLeaf_transform {name field op t : Text} {transform : OperandTransform}
    {comparator : Equality} (hname : (name, transform) ∈ transformTokens)
    (hfield : IsTransformed field) (hop : (op, comparator) ∈ equalityTokens)
    (value : Option Text) (ht : t = match value with
      | some s => quote s
      | none => "null".toList) :
    parseLeaf rt ctx (name :: ['('] :: field :: [')'] :: op :: t :: rest) =
      .ok (.transformcmp transform field comparator value, rest) := by
  have hcall : parseTransformComparison transform (asciiLower name)
      (field :: [')'] :: op :: t :: rest) =
        .ok (.transformcmp transform field comparator value, rest) := by
    rw [parseTransformComparison, if_neg (by simp [isTransformField_name hfield])]
    dsimp only
    rw [equalityTokens_spec _ hop]
    cases value with
    | none =>
      rw [ht]
      rfl
    | some s =>
      have hlower : asciiLower (quote s) ≠ "null".toList := by
        intro heq
        exact absurd (List.cons.inj heq).1 (by decide)
      rw [ht]
      dsimp only
      rw [if_neg hlower, if_pos (isQuoted_quote s), parseLiteral_quote]
  rw [← hcall]
  simp only [transformTokens, List.mem_cons, List.not_mem_nil, or_false, Prod.mk.injEq] at hname
  rcases hname with ⟨rfl, rfl⟩ | ⟨rfl, rfl⟩ <;> rfl

theorem parseLeaf_numeric {name field op t : Text} {build : Text → Comparator → Rat → Leaf}
    {comparator : Comparator} {d : DecimalText} (hname : (name, build) ∈ numericTokens)
    (hfield : IsArgument field) (hop : (op, comparator) ∈ comparatorTokens)
    (ht : SpellsDecimal t d) (hfinite : isFiniteNumber d.value) :
    parseLeaf rt ctx (name :: ['('] :: field :: [')'] :: op :: t :: rest) =
      .ok (build field comparator d.value, rest) := by
  have hcall (invalid notNumeric : String) : parseNumericComparison rt build name invalid notNumeric
      (['('] :: field :: [')'] :: op :: t :: rest) = .ok (build field comparator d.value, rest) := by
    refine bind_eq_ok.mpr ⟨_, rfl, ?_⟩
    refine bind_eq_ok.mpr ⟨_, parseFieldArgument_argument rt _ hfield (by simp), ?_⟩
    refine bind_eq_ok.mpr ⟨_, rfl, ?_⟩
    refine bind_eq_ok.mpr ⟨_, rfl, ?_⟩
    dsimp only
    rw [(comparatorTokens_spec _ hop).1]
    dsimp only
    rw [finiteNumber_of_spells ht hfinite]
    rfl
  simp only [numericTokens, List.mem_cons, List.not_mem_nil, or_false, Prod.mk.injEq] at hname
  rcases hname with ⟨rfl, rfl⟩ | ⟨rfl, rfl⟩ | ⟨rfl, rfl⟩ | ⟨rfl, rfl⟩ | ⟨rfl, rfl⟩ | ⟨rfl, rfl⟩ |
    ⟨rfl, rfl⟩ | ⟨rfl, rfl⟩ | ⟨rfl, rfl⟩ | ⟨rfl, rfl⟩ <;> exact hcall _ _

theorem parseArguments_call {items : List (List Text)} {args : List FunctionArg}
    (hne : items ≠ []) (h : List.Forall₂ PrintsArgument items args) :
    parseArguments rt (commaJoin items ++ [')'] :: rest).length (commaJoin items ++ [')'] :: rest) =
      .ok (args, [')'] :: rest) := by
  apply parseArguments_printsArgument rt hne h
  have hlength (items : List (List Text)) : (∀ item ∈ items, item ≠ []) →
      items.length ≤ (commaJoin items).length := by
    intro hitems
    induction items with
    | nil => exact le_rfl
    | cons item items ih =>
      have hitem := List.length_pos_iff.mpr (hitems item List.mem_cons_self)
      have htail := ih fun item hitem => hitems item (List.mem_cons_of_mem _ hitem)
      cases items with
      | nil => exact hitem
      | cons next items =>
        rw [commaJoin_cons _ (by simp)]
        simp only [List.length_append, List.length_cons] at htail ⊢
        omega
  have hitems : ∀ item ∈ items, item ≠ [] := by
    intro item hitem
    obtain ⟨arg, _, harg⟩ := exists_mem_of_forall₂ h hitem
    exact harg.ne_nil
  rw [List.length_append]
  exact (hlength items hitems).trans (Nat.le_add_right _ _)

theorem parseLeaf_stringFunction {name op t s : Text} {function : StringFunction}
    {items : List (List Text)} {args : List FunctionArg} {comparator : Equality}
    (hname : (name, function) ∈ [("trim".toList, StringFunction.trim), ("concat".toList, .concat)])
    (hne : items ≠ []) (h : List.Forall₂ PrintsArgument items args)
    (htrim : function = .trim → args.length = 1) (hconcat : function = .concat → 2 ≤ args.length)
    (hop : (op, comparator) ∈ equalityTokens) (ht : SpellsLiteral t (.str s)) :
    parseLeaf rt ctx (name :: ['('] :: (commaJoin items ++ [')'] :: op :: t :: rest)) =
      .ok (.stringfncmp function args comparator s, rest) := by
  have hcall : parseStringFunctionComparison rt function name
      (['('] :: (commaJoin items ++ [')'] :: op :: t :: rest)) =
        .ok (.stringfncmp function args comparator s, rest) := by
    refine bind_eq_ok.mpr ⟨_, rfl, ?_⟩
    refine bind_eq_ok.mpr ⟨_, parseArguments_call rt (op :: t :: rest) hne h, ?_⟩
    refine bind_eq_ok.mpr ⟨_, rfl, ?_⟩
    dsimp only
    rw [if_neg fun hcase => hcase.2 (htrim hcase.1),
      if_neg fun hcase => absurd hcase.2 (Nat.not_lt.mpr (hconcat hcase.1))]
    refine bind_eq_ok.mpr ⟨_, rfl, ?_⟩
    dsimp only
    rw [equalityTokens_spec _ hop]
    dsimp only
    rw [parseLiteral_of_spells ht]
    rfl
  rw [← hcall]
  simp only [List.mem_cons, List.not_mem_nil, or_false, Prod.mk.injEq] at hname
  rcases hname with ⟨rfl, rfl⟩ | ⟨rfl, rfl⟩ <;> rfl

theorem parseLeaf_indexof {field op t : Text} (needle : Text) {comparator : Comparator}
    {d : DecimalText} (hfield : IsArgument field) (hop : (op, comparator) ∈ comparatorTokens)
    (ht : SpellsDecimal t d) (hfinite : isFiniteNumber d.value) :
    parseLeaf rt ctx ("indexof".toList :: ['('] :: field :: [','] :: quote needle :: [')'] :: op ::
      t :: rest) = .ok (.indexofcmp field comparator d.value needle, rest) := by
  have hcall : parseIndexOfComparison rt (['('] :: field :: [','] :: quote needle :: [')'] :: op ::
      t :: rest) = .ok (.indexofcmp field comparator d.value needle, rest) := by
    refine bind_eq_ok.mpr ⟨_, rfl, ?_⟩
    refine bind_eq_ok.mpr ⟨_, parseFieldArgument_argument rt _ hfield (by simp), ?_⟩
    refine bind_eq_ok.mpr ⟨_, rfl, ?_⟩
    refine bind_eq_ok.mpr ⟨_, parseOperand_literal rt (.string needle) (by simp), ?_⟩
    refine bind_eq_ok.mpr ⟨_, rfl, ?_⟩
    refine bind_eq_ok.mpr ⟨_, rfl, ?_⟩
    dsimp only
    rw [(comparatorTokens_spec _ hop).1]
    dsimp only
    rw [finiteNumber_of_spells ht hfinite]
    rfl
  exact hcall

theorem parseSubstringLength_prints {tokens : List Text} {length : Option Rat}
    (h : PrintsLength tokens length) :
    parseSubstringLength rt (tokens ++ [')'] :: rest) = .ok (length, [')'] :: rest) := by
  cases h with
  | none => rfl
  | some ht => exact bind_eq_ok.mpr ⟨_, parseOperand_literal rt ht (by simp), rfl⟩

theorem parseLeaf_substring {field op t t' s : Text} {tokens : List Text} {start : Rat}
    {length : Option Rat} {comparator : Equality} (hfield : IsArgument field)
    (hstart : SpellsOperand t (.num start)) (hlength : PrintsLength tokens length)
    (hop : (op, comparator) ∈ equalityTokens) (ht : SpellsLiteral t' (.str s)) :
    parseLeaf rt ctx ("substring".toList :: ['('] :: field :: [','] :: t ::
      (tokens ++ [')'] :: op :: t' :: rest)) =
        .ok (.substrcmp field start length comparator s, rest) := by
  have hcall : parseSubstringComparison rt (['('] :: field :: [','] :: t ::
      (tokens ++ [')'] :: op :: t' :: rest)) =
        .ok (.substrcmp field start length comparator s, rest) := by
    have hnext : (tokens ++ [')'] :: op :: t' :: rest).head? ≠ some ['('] := by
      cases hlength <;> simp
    refine bind_eq_ok.mpr ⟨_, rfl, ?_⟩
    refine bind_eq_ok.mpr ⟨_, parseFieldArgument_argument rt _ hfield (by simp), ?_⟩
    refine bind_eq_ok.mpr ⟨_, rfl, ?_⟩
    refine bind_eq_ok.mpr ⟨_, parseOperand_literal rt hstart hnext, ?_⟩
    refine bind_eq_ok.mpr ⟨_, parseSubstringLength_prints rt (op :: t' :: rest) hlength, ?_⟩
    refine bind_eq_ok.mpr ⟨_, rfl, ?_⟩
    refine bind_eq_ok.mpr ⟨_, rfl, ?_⟩
    dsimp only
    rw [equalityTokens_spec _ hop]
    dsimp only
    rw [parseLiteral_of_spells ht]
    rfl
  exact hcall

/-- Every printed comparison is read back, whatever follows it. -/
theorem parseLeaf_printsLeaf {tokens : List Text} {leaf : Leaf} (h : PrintsLeaf rt tokens leaf) :
    parseLeaf rt ctx (tokens ++ rest) = .ok (leaf, rest) := by
  cases h with
  | comparison hfield hop ht => exact parseLeaf_comparison rt ctx rest hfield hop ht
  | inList hfield hne h =>
    simpa using parseLeaf_inList rt ctx rest hfield hne h
  | function hname hfield ht hv =>
    simpa using parseLeaf_function rt ctx rest hname hfield ht hv
  | transformcmp s hname hfield hop =>
    exact parseLeaf_transform rt ctx rest hname hfield hop (some s) rfl
  | transformcmpNull hname hfield hop =>
    exact parseLeaf_transform rt ctx rest hname hfield hop none rfl
  | numeric hname hfield hop ht hfinite =>
    exact parseLeaf_numeric rt ctx rest hname hfield hop ht hfinite
  | @trim tokens op t s arg comparator harg hop ht =>
    simpa [commaJoin] using parseLeaf_stringFunction rt ctx rest (List.mem_cons_self ..)
      (List.cons_ne_nil tokens []) (.cons harg .nil) (by simp) (by simp) hop ht
  | @concat items op t s args comparator hargs hlength hop ht =>
    have hne : items ≠ [] := by
      rintro rfl
      cases hargs
      cases hlength
    simpa using parseLeaf_stringFunction rt ctx rest (List.mem_cons_of_mem _ List.mem_cons_self)
      hne hargs (by simp) (by simpa using hlength) hop ht
  | indexofcmp needle hfield hop ht hfinite =>
    exact parseLeaf_indexof rt ctx rest needle hfield hop ht hfinite
  | substrcmp hfield hstart hlength hop ht =>
    simpa using parseLeaf_substring rt ctx rest hfield hstart hlength hop ht

end Leaves

end LoopbackOData
