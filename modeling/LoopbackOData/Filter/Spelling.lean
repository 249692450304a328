import LoopbackOData.Filter.Parser

/-!
# Spelling filters

How the tokens of a filter may be spaced, and how its literals are spelled. The lemmas read the
spellings back with `tokenize`, `parseLiteral`, `finiteNumber` and the literal rules.
-/

namespace LoopbackOData

set_option autoImplicit false

/-! ## Spacing -/

/-- No delimiter and no space outside string literals, none of which is left open. -/
def scansAsWord : Bool → Text → Bool
  | inString, [] => !inString
  | true, '\'' :: '\'' :: rest => scansAsWord true rest
  | inString, c :: rest =>
    if c = '\'' then scansAsWord (!inString) rest
    else if inString then scansAsWord true rest
    else !isDelimiter c && !isSpace c && scansAsWord false rest

def IsWord (token : Text) : Prop := token ≠ [] ∧ scansAsWord false token = true

/-- A token ends before this text. -/
def Breaks (s : Text) : Prop := ∀ c ∈ s.head?, isSpace c ∨ isDelimiter c

/-- The text is the tokens with any whitespace around them. Two words are kept apart; delimiters
need no space. -/
inductive Spaced : List Text → Text → Prop where
  | nil : Spaced [] []
  | space {c : Char} {tokens : List Text} {s : Text} :
    isSpace c → Spaced tokens s → Spaced tokens (c :: s)
  | delimiter {c : Char} {tokens : List Text} {s : Text} :
    isDelimiter c → Spaced tokens s → Spaced ([c] :: tokens) (c :: s)
  | word {token : Text} {tokens : List Text} {s : Text} :
    IsWord token → Breaks s → Spaced tokens s → Spaced (token :: tokens) (token ++ s)

theorem quote_not_breaks {s : Text} : ¬ Breaks ('\'' :: s) := by
  intro h
  rcases h '\'' rfl with h | h
  · exact absurd h (by decide)
  · exact absurd h (by decide)

theorem tokenizeFrom_cons {c : Char} {rest : Text} {inString : Bool} (current : Text)
    (h : ∀ rest', inString = true → c = '\'' → rest = '\'' :: rest' → False) :
    tokenizeFrom (c :: rest) current inString =
      if c = '\'' then tokenizeFrom rest (current ++ ['\'']) (!inString)
      else if inString then tokenizeFrom rest (current ++ [c]) true
      else if isDelimiter c then
        return pushCurrent current ([c] :: (← tokenizeFrom rest [] false))
      else if isSpace c then return pushCurrent current (← tokenizeFrom rest [] false)
      else tokenizeFrom rest (current ++ [c]) false := by
  rw [tokenizeFrom]
  exact h

theorem tokenizeFrom_cons_outside (c : Char) (rest current : Text) :
    tokenizeFrom (c :: rest) current false =
      if c = '\'' then tokenizeFrom rest (current ++ ['\'']) true
      else if isDelimiter c then
        return pushCurrent current ([c] :: (← tokenizeFrom rest [] false))
      else if isSpace c then return pushCurrent current (← tokenizeFrom rest [] false)
      else tokenizeFrom rest (current ++ [c]) false := by
  rw [tokenizeFrom_cons]
  · rfl
  · exact fun _ h => Bool.noConfusion h

/-- Reading a word adds it to the current token. -/
theorem tokenizeFrom_word {inString : Bool} {w s : Text} (hw : scansAsWord inString w)
    (hs : Breaks s) (current : Text) :
    tokenizeFrom (w ++ s) current inString = tokenizeFrom s (current ++ w) false := by
  fun_induction scansAsWord inString w generalizing current with
  | case1 inString =>
    obtain rfl : inString = false := by simpa using hw
    simp
  | case2 rest ih =>
    rw [List.cons_append, List.cons_append, tokenizeFrom, ih hw, List.append_assoc]
    rfl
  | case3 inString rest hopen ih =>
    have hnotDoubled : ∀ rest', inString = true → '\'' = '\'' → rest ++ s = '\'' :: rest' →
        False := by
      intro rest' htrue _ heq
      cases rest with
      | nil =>
        rw [List.nil_append] at heq
        rw [heq] at hs
        exact quote_not_breaks hs
      | cons c rest =>
        rw [List.cons_append, List.cons.injEq] at heq
        exact hopen rest htrue rfl (by rw [heq.1])
    rw [List.cons_append, tokenizeFrom_cons current hnotDoubled, if_pos rfl, ih hw,
      List.append_assoc]
    rfl
  | case4 c rest hc _ ih =>
    rw [List.cons_append, tokenizeFrom_cons current fun _ _ h => absurd h hc, if_neg hc,
      if_pos rfl, ih hw, List.append_assoc]
    rfl
  | case5 inString c rest _ hc hin ih =>
    simp only [Bool.and_eq_true, Bool.not_eq_true'] at hw
    obtain ⟨⟨hdelimiter, hspace⟩, hrest⟩ := hw
    obtain rfl : inString = false := by simpa using hin
    rw [List.cons_append, tokenizeFrom_cons_outside, if_neg hc, if_neg (by simp [hdelimiter]),
      if_neg (by simp [hspace]), ih hrest, List.append_assoc]
    rfl

theorem isSpace_ne {c : Char} (h : isSpace c) : c ≠ '\'' ∧ isDelimiter c = false := by
  constructor
  · rintro rfl
    exact absurd h (by decide)
  · by_contra hdelimiter
    simp only [isDelimiter, Bool.not_eq_false, Bool.or_eq_true, decide_eq_true_eq] at hdelimiter
    rcases hdelimiter with (rfl | rfl) | rfl <;> exact absurd h (by decide)

theorem isDelimiter_ne {c : Char} (h : isDelimiter c) : c ≠ '\'' := by
  rintro rfl
  exact absurd h (by decide)

/-- A token that is being read ends where the text breaks. -/
theorem tokenizeFrom_breaks {s current : Text} (hs : Breaks s) :
    tokenizeFrom s current false = (pushCurrent current ·) <$> tokenizeFrom s [] false := by
  cases s with
  | nil => simp [tokenizeFrom, pushCurrent]
  | cons c rest =>
    rw [tokenizeFrom_cons_outside, tokenizeFrom_cons_outside]
    rcases hs c rfl with hspace | hdelimiter
    · obtain ⟨hquote, hnot⟩ := isSpace_ne hspace
      simp [hquote, hnot, hspace, pushCurrent]
    · have hquote := isDelimiter_ne hdelimiter
      simp [hquote, hdelimiter, pushCurrent]

/-- Spacing does not matter to the tokenizer. -/
theorem tokenize_spaced {tokens : List Text} {s : Text} (h : Spaced tokens s) :
    tokenize s = .ok tokens := by
  unfold tokenize
  induction h with
  | nil => rfl
  | space hspace _ ih =>
    obtain ⟨hquote, hnot⟩ := isSpace_ne hspace
    rw [tokenizeFrom_cons_outside, ih]
    simp [hquote, hnot, hspace, pushCurrent, pure, Except.pure, bind, Except.bind]
  | delimiter hdelimiter _ ih =>
    have hquote := isDelimiter_ne hdelimiter
    rw [tokenizeFrom_cons_outside, ih]
    simp [hquote, hdelimiter, pushCurrent, pure, Except.pure, bind, Except.bind]
  | word hword hbreaks _ ih =>
    rw [tokenizeFrom_word hword.2 hbreaks, tokenizeFrom_breaks hbreaks, ih]
    simp [pushCurrent, hword.1]

/-! ## String literals -/

def doubleQuotes (s : Text) : Text := s.flatMap fun c => if c = '\'' then ['\'', '\''] else [c]

/-- A string literal. -/
def quote (s : Text) : Text := '\'' :: (doubleQuotes s ++ ['\''])

theorem undoubleQuotes_doubleQuotes (s : Text) : undoubleQuotes (doubleQuotes s) = s := by
  induction s with
  | nil => rfl
  | cons c s ih =>
    rw [doubleQuotes, List.flatMap_cons, ← doubleQuotes]
    split
    · next h =>
      rw [List.cons_append, List.cons_append, List.nil_append, undoubleQuotes, ih, h]
    · next h =>
      rw [List.cons_append, List.nil_append, undoubleQuotes, ih]
      exact fun _ hc _ => h hc

theorem endsWith_append (s suff : Text) : endsWith (s ++ suff) suff = true := by
  rw [endsWith, List.isSuffixOf_iff_suffix]
  exact List.suffix_append s suff

theorem startsWith_append (pre s : Text) : startsWith (pre ++ s) pre = true := by
  rw [startsWith, List.isPrefixOf_iff_prefix]
  exact List.prefix_append pre s

theorem isQuoted_quote (s : Text) : isQuoted (quote s) = true := by
  rw [isQuoted, Bool.and_eq_true]
  exact ⟨startsWith_append ['\''] _, endsWith_append ('\'' :: doubleQuotes s) ['\'']⟩

theorem unquote_quote (s : Text) : unquote (quote s) = s := by
  rw [unquote, quote, List.drop_succ_cons, List.drop_zero, List.dropLast_concat,
    undoubleQuotes_doubleQuotes]

theorem unwrap_quote (s : Text) :
    typedLiteralKinds.findSome? (unwrapODataTypedLiteral (quote s)) = none := by
  have hstart : ∀ kind ∈ typedLiteralKinds,
      startsWith (asciiLower (quote s)) (kind ++ ['\'']) = false := by
    intro kind hkind
    simp only [typedLiteralKinds, List.mem_cons, List.not_mem_nil, or_false] at hkind
    rcases hkind with rfl | rfl | rfl | rfl | rfl <;> rfl
  rw [List.findSome?_eq_none_iff]
  intro kind hkind
  simp [unwrapODataTypedLiteral, hstart kind hkind]

theorem parseLiteral_quote (s : Text) : parseLiteral (quote s) = .str s := by
  simp only [parseLiteral, unwrap_quote, isQuoted_quote, unquote_quote, if_true]

theorem findSome?_eq_of_unique {α β : Type} {f : α → Option β} {a : α} {b : β} (ha : f a = some b) :
    ∀ {l : List α}, a ∈ l → (∀ x ∈ l, x ≠ a → f x = none) → l.findSome? f = some b := by
  intro l hmem hother
  induction l with
  | nil => cases hmem
  | cons x l ih =>
    by_cases hx : x = a
    · rw [hx, List.findSome?_cons, ha]
    · rw [List.findSome?_cons, hother x List.mem_cons_self hx]
      apply ih
      · exact (List.mem_cons.mp hmem).resolve_left fun h => hx h.symm
      · exact fun y hy => hother y (List.mem_cons_of_mem _ hy)

theorem startsWith_typed (s : Text) : ∀ kind ∈ typedLiteralKinds, ∀ kind' ∈ typedLiteralKinds,
    kind' ≠ kind → startsWith (asciiLower (kind ++ quote s)) (kind' ++ ['\'']) = false := by
  intro kind hkind kind' hkind' hne
  simp only [typedLiteralKinds, List.mem_cons, List.not_mem_nil, or_false] at hkind hkind'
  rcases hkind with rfl | rfl | rfl | rfl | rfl <;>
    rcases hkind' with rfl | rfl | rfl | rfl | rfl <;> first | rfl | exact absurd rfl hne

theorem asciiLower_kind : ∀ kind ∈ typedLiteralKinds, asciiLower kind = kind := by decide

theorem unwrap_typed {kind : Text} (hkind : kind ∈ typedLiteralKinds) (s : Text) :
    typedLiteralKinds.findSome? (unwrapODataTypedLiteral (kind ++ quote s)) = some s := by
  have hends : endsWith (kind ++ quote s) ['\''] = true := by
    rw [quote, ← List.cons_append, ← List.append_assoc]
    exact endsWith_append _ _
  have hstarts : startsWith (asciiLower (kind ++ quote s)) (kind ++ ['\'']) = true := by
    have hlower : asciiLower (kind ++ quote s) =
        kind ++ ['\''] ++ asciiLower (doubleQuotes s ++ ['\'']) := by
      rw [asciiLower, List.map_append, ← asciiLower, asciiLower_kind kind hkind, quote,
        List.map_cons, List.append_assoc]
      rfl
    rw [hlower]
    exact startsWith_append _ _
  have hinner : undoubleQuotes ((kind ++ quote s).drop (kind.length + 1)).dropLast = s := by
    rw [← List.drop_drop, List.drop_left, quote, List.drop_succ_cons, List.drop_zero,
      List.dropLast_concat, undoubleQuotes_doubleQuotes]
  apply findSome?_eq_of_unique (a := kind) ?_ hkind
  · intro kind' hkind' hne
    simp [unwrapODataTypedLiteral, startsWith_typed s kind hkind kind' hkind' hne]
  · rw [unwrapODataTypedLiteral, hends, hstarts, hinner]
    rfl

theorem parseLiteral_typed {kind : Text} (hkind : kind ∈ typedLiteralKinds) (s : Text) :
    parseLiteral (kind ++ quote s) = .str s := by
  simp only [parseLiteral, unwrap_typed hkind]

/-! ## Numbers -/

/-- The exponent of a decimal number, which may be left out. -/
inductive SpellsExponent : Text → Int → Prop where
  | none : SpellsExponent [] 0
  | plain {e : Char} {digits : Text} : e = 'e' ∨ e = 'E' → digits ≠ [] → digits.all isDigit →
    SpellsExponent (e :: digits) (digitsValue digits)
  | plus {e : Char} {digits : Text} : e = 'e' ∨ e = 'E' → digits ≠ [] → digits.all isDigit →
    SpellsExponent (e :: '+' :: digits) (digitsValue digits)
  | minus {e : Char} {digits : Text} : e = 'e' ∨ e = 'E' → digits ≠ [] → digits.all isDigit →
    SpellsExponent (e :: '-' :: digits) (-digitsValue digits)

/-- A decimal number: sign, digits, fraction and exponent. -/
inductive SpellsDecimal : Text → DecimalText → Prop where
  | intro {negative : Bool} {whole fraction exponentText : Text} {exponent : Int} :
    whole ≠ [] → whole.all isDigit → fraction.all isDigit →
    SpellsExponent exponentText exponent →
    SpellsDecimal ((if negative then ['-'] else []) ++ (whole ++
      ((if fraction = [] then [] else '.' :: fraction) ++ exponentText)))
      ⟨negative, whole, fraction, exponent⟩

theorem readDigits_of_digits {digits : Text} (hne : digits ≠ []) (hall : digits.all isDigit) :
    readExponent.readDigits digits = some (digitsValue digits : Int) := by
  simp [readExponent.readDigits, hne, hall]

theorem readExponent_of_spells {x : Text} {exponent : Int} (h : SpellsExponent x exponent) :
    readExponent x = some exponent := by
  cases h with
  | none => rfl
  | plain he hne hall =>
    rw [readExponent, if_pos (by simpa using he)]
    · exact readDigits_of_digits hne hall
    · intro d hd
      simp [hd, isDigit] at hall
    · intro d hd
      simp [hd, isDigit] at hall
  | plus he hne hall =>
    rw [readExponent, if_pos (by simpa using he)]
    exact readDigits_of_digits hne hall
  | minus he hne hall =>
    rw [readExponent, if_pos (by simpa using he)]
    simp only [readDigits_of_digits hne hall, Option.map_some]

/-- An exponent does not start like a digit or a fraction. -/
theorem SpellsExponent.head {x : Text} {exponent : Int} (h : SpellsExponent x exponent) :
    ∀ c ∈ x.head?, isDigit c = false ∧ c ≠ '.' := by
  intro c hc
  cases h with
  | none => cases hc
  | plain he _ _ =>
    cases hc
    rcases he with rfl | rfl <;> decide
  | plus he _ _ =>
    cases hc
    rcases he with rfl | rfl <;> decide
  | minus he _ _ =>
    cases hc
    rcases he with rfl | rfl <;> decide

theorem takeWhile_of_head {p : Char → Bool} {x : Text} (h : ∀ c ∈ x.head?, p c = false) :
    x.takeWhile p = [] ∧ x.dropWhile p = x := by
  cases x with
  | nil => exact ⟨rfl, rfl⟩
  | cons c x =>
    have hc : ¬ p c = true := by simp [h c rfl]
    exact ⟨List.takeWhile_cons_of_neg hc, List.dropWhile_cons_of_neg hc⟩

/-- Digits are read up to the first other character. -/
theorem digits_append {digits x : Text} (hall : digits.all isDigit)
    (hx : ∀ c ∈ x.head?, isDigit c = false) :
    (digits ++ x).takeWhile isDigit = digits ∧ (digits ++ x).dropWhile isDigit = x := by
  have hall := List.all_eq_true.mp hall
  obtain ⟨htake, hdrop⟩ := takeWhile_of_head hx
  rw [List.takeWhile_append_of_pos hall, List.dropWhile_append_of_pos hall, htake, hdrop,
    List.append_nil]
  exact ⟨rfl, rfl⟩

/-- What follows the digits of a decimal number is not a digit. -/
theorem fraction_head {fraction exponentText : Text} {exponent : Int}
    (h : SpellsExponent exponentText exponent) :
    ∀ c ∈ ((if fraction = [] then [] else '.' :: fraction) ++ exponentText).head?,
      isDigit c = false := by
  intro c hc
  split at hc
  · exact (h.head c hc).1
  · cases hc
    decide

/-- The parts of a decimal number after its sign. -/
theorem split_decimal {whole : Text} (fraction : Text) {exponentText : Text} {exponent : Int}
    (hwhole : whole.all isDigit) (h : SpellsExponent exponentText exponent) :
    let unsigned := whole ++ ((if fraction = [] then [] else '.' :: fraction) ++ exponentText)
    unsigned.takeWhile isDigit = whole ∧
      unsigned.dropWhile isDigit =
        (if fraction = [] then [] else '.' :: fraction) ++ exponentText :=
  digits_append hwhole (fraction_head h)

theorem startsWith_digits {whole : Text} (rest : Text) (hne : whole ≠ [])
    (hwhole : whole.all isDigit) (sign : Char) (hsign : isDigit sign = false) :
    startsWith (whole ++ rest) [sign] = false := by
  cases whole with
  | nil => exact absurd rfl hne
  | cons c whole =>
    have hc : sign ≠ c := by
      rintro rfl
      have := List.all_eq_true.mp hwhole sign List.mem_cons_self
      rw [hsign] at this
      cases this
    simp [startsWith, List.isPrefixOf, hc]

/-- The sign of a decimal number is read off its first character. -/
theorem sign_decimal {whole : Text} (rest : Text) (hne : whole ≠ []) (hwhole : whole.all isDigit)
    (negative : Bool) :
    let t := (if negative then ['-'] else []) ++ (whole ++ rest)
    startsWith t ['-'] = negative ∧ startsWith t ['+'] = false ∧
      (if negative then t.drop 1 else t) = whole ++ rest := by
  cases negative with
  | true => exact ⟨rfl, rfl, rfl⟩
  | false =>
    exact ⟨startsWith_digits rest hne hwhole '-' (by decide),
      startsWith_digits rest hne hwhole '+' (by decide), rfl⟩

theorem readDecimal_of_spells {t : Text} {d : DecimalText} (h : SpellsDecimal t d) :
    readDecimal t = some d := by
  cases h with
  | @intro negative whole fraction exponentText exponent hne hwhole hfraction hexponent =>
    obtain ⟨hsign, hplus, hunsigned⟩ := sign_decimal ((if fraction = [] then [] else
      '.' :: fraction) ++ exponentText) hne hwhole negative
    obtain ⟨htake, hdrop⟩ := split_decimal fraction hwhole hexponent
    have hexponent' := readExponent_of_spells hexponent
    simp only [readDecimal, hsign, hunsigned, htake, hdrop, if_neg hne]
    by_cases hnil : fraction = []
    · subst hnil
      rw [if_pos rfl, List.nil_append]
      split
      · next rest heq => exact absurd rfl (hexponent.head '.' rfl).2
      · rw [hexponent']
        rfl
    · rw [if_neg hnil, List.cons_append]
      obtain ⟨htake', hdrop'⟩ := digits_append hfraction fun c hc => (hexponent.head c hc).1
      simp only [htake', hdrop', if_neg hnil, hexponent', Option.map_some]

theorem mem_digits {c : Char} (h : isDigit c) : c ∈ "0123456789".toList := by
  simp only [isDigit, Bool.and_eq_true, decide_eq_true_eq, Char.le_def, UInt32.le_iff_toNat_le] at h
  have hc := Char.ofNat_toNat c
  have hlow : 48 ≤ c.toNat := h.1
  have hhigh : c.toNat ≤ 57 := h.2
  generalize c.toNat = n at hc hlow hhigh
  subst hc
  interval_cases n <;> decide

/-- The characters of decimal numbers. -/
def isNumberChar (c : Char) : Bool :=
  isDigit c || c = '-' || c = '+' || c = '.' || c = 'e' || c = 'E'

theorem mem_numberChars {c : Char} (h : isNumberChar c) : c ∈ "0123456789-+.eE".toList := by
  simp only [isNumberChar, Bool.or_eq_true, decide_eq_true_eq] at h
  rcases h with ((((h | rfl) | rfl) | rfl) | rfl) | rfl
  · have hsub : ∀ c ∈ "0123456789".toList, c ∈ "0123456789-+.eE".toList := by decide
    exact hsub c (mem_digits h)
  all_goals decide

theorem isSpace_false_of_isNumberChar {c : Char} (h : isNumberChar c) : isSpace c = false := by
  have hall : ∀ c ∈ "0123456789-+.eE".toList, isSpace c = false := by decide
  exact hall c (mem_numberChars h)

theorem isNumberChar_of_isDigit {c : Char} (h : isDigit c) : isNumberChar c := by
  simp [isNumberChar, h]

theorem SpellsExponent.all_numberChar {x : Text} {exponent : Int}
    (h : SpellsExponent x exponent) : ∀ c ∈ x, isNumberChar c := by
  have hdigits {digits : Text} (hall : digits.all isDigit) : ∀ c ∈ digits, isNumberChar c :=
    fun c hc => isNumberChar_of_isDigit (List.all_eq_true.mp hall c hc)
  have he {e : Char} (h : e = 'e' ∨ e = 'E') : isNumberChar e := by
    rcases h with rfl | rfl <;> decide
  cases h with
  | none => simp
  | plain hchar _ hall => exact List.forall_mem_cons.mpr ⟨he hchar, hdigits hall⟩
  | plus hchar _ hall =>
    exact List.forall_mem_cons.mpr
      ⟨he hchar, List.forall_mem_cons.mpr ⟨by decide, hdigits hall⟩⟩
  | minus hchar _ hall =>
    exact List.forall_mem_cons.mpr
      ⟨he hchar, List.forall_mem_cons.mpr ⟨by decide, hdigits hall⟩⟩

theorem SpellsDecimal.all_numberChar {t : Text} {d : DecimalText} (h : SpellsDecimal t d) :
    ∀ c ∈ t, isNumberChar c := by
  cases h with
  | intro _ hwhole hfraction hexponent =>
    intro c hc
    simp only [List.mem_append] at hc
    rcases hc with hc | hc | hc | hc
    · split at hc
      · obtain rfl := List.mem_singleton.mp hc
        decide
      · cases hc
    · exact isNumberChar_of_isDigit (List.all_eq_true.mp hwhole c hc)
    · split at hc
      · cases hc
      · rcases List.mem_cons.mp hc with rfl | hc
        · decide
        · exact isNumberChar_of_isDigit (List.all_eq_true.mp hfraction c hc)
    · exact hexponent.all_numberChar c hc

theorem SpellsDecimal.ne_nil {t : Text} {d : DecimalText} (h : SpellsDecimal t d) : t ≠ [] := by
  cases h with
  | intro hne _ _ _ => simp [hne]

/-- A number that the parser does not keep as a text: at most 15 digits, and 15 significant ones
where it has a fraction or an exponent. -/
def KeepsPrecision (t : Text) (d : DecimalText) : Prop :=
  if t.all fun c => isDigit c || c = '-' then d.whole.length ≤ 15
  else d.fraction.length ≤ 15 ∧
    ((d.whole ++ d.fraction).dropWhile (· = '0')).length ≤ 15 ∧ isFiniteNumber d.value

theorem tryParseNumericToken_of_spells {t : Text} {d : DecimalText} (h : SpellsDecimal t d)
    (hprecision : KeepsPrecision t d) : tryParseNumericToken t = some d.value := by
  rw [KeepsPrecision] at hprecision
  rw [tryParseNumericToken, readDecimal_of_spells h]
  dsimp only
  split at hprecision
  · next hinteger => rw [if_pos hinteger, if_neg (Nat.not_lt.mpr hprecision)]
  · next hinteger =>
    obtain ⟨hfraction, hsignificant, hfinite⟩ := hprecision
    rw [if_neg hinteger, if_neg (Nat.not_lt.mpr hfraction), if_neg (Nat.not_lt.mpr hsignificant),
      if_pos hfinite]

/-- A text without spaces is trimmed to itself. -/
theorem trimText_eq {t : Text} (h : ∀ c ∈ t, isSpace c = false) : trimText t = t := by
  have hdrop (t : Text) (h : ∀ c ∈ t, isSpace c = false) : t.dropWhile isSpace = t :=
    (takeWhile_of_head fun c hc => h c (List.mem_of_mem_head? hc)).2
  rw [trimText, hdrop t h, hdrop t.reverse fun c hc => h c (List.mem_reverse.mp hc),
    List.reverse_reverse]

theorem finiteNumber_of_spells {t : Text} {d : DecimalText} (h : SpellsDecimal t d)
    (hfinite : isFiniteNumber d.value) : finiteNumber t = some d.value := by
  have hchars := h.all_numberChar
  have hradix {c x : Char} {digits : Text} (hc : isNumberChar x = false)
      (ht : t = c :: x :: digits) : False := by
    have hx := hchars x (by simp [ht])
    rw [hc] at hx
    cases hx
  rw [finiteNumber, trimText_eq fun c hc => isSpace_false_of_isNumberChar (hchars c hc)]
  split
  · exact absurd rfl h.ne_nil
  · exact (hradix (by decide) rfl).elim
  · exact (hradix (by decide) rfl).elim
  · exact (hradix (by decide) rfl).elim
  · exact (hradix (by decide) rfl).elim
  · exact (hradix (by decide) rfl).elim
  · exact (hradix (by decide) rfl).elim
  · cases h with
    | @intro negative whole fraction exponentText exponent hne hwhole hfraction hexponent =>
      obtain ⟨hsign, hplus, hunsigned⟩ := sign_decimal ((if fraction = [] then [] else
        '.' :: fraction) ++ exponentText) hne hwhole negative
      obtain ⟨htake, hdrop⟩ := split_decimal fraction hwhole hexponent
      have hexponent' := readExponent_of_spells hexponent
      simp only [hsign, hplus, Bool.or_false, hunsigned, htake, hdrop]
      by_cases hnil : fraction = []
      · subst hnil
        rw [if_pos rfl, List.nil_append]
        have hdot : ∀ rest, exponentText ≠ '.' :: rest := by
          rintro rest rfl
          exact (hexponent.head '.' rfl).2 rfl
        split
        · exact absurd rfl (hdot _)
        · simp [hne, hexponent', hfinite]
      · rw [if_neg hnil, List.cons_append]
        obtain ⟨htake', hdrop'⟩ := digits_append hfraction fun c hc => (hexponent.head c hc).1
        simp [htake', hdrop', hne, hexponent', hfinite]

/-! ## Literals -/

/-- A date, with or without a time, written without quotes. -/
def isDateText (t : Text) : Bool :=
  t.all (fun c => !isSpace c && c ≠ '\'') &&
    match afterDate t with
    | some rest => rest = [] || isTimeText rest
    | none => false

/-- The spellings of a literal in a comparison or an `in` list. -/
inductive SpellsLiteral : Text → Scalar → Prop where
  | null : SpellsLiteral "null".toList .null
  | true : SpellsLiteral "true".toList (.bool .true)
  | false : SpellsLiteral "false".toList (.bool .false)
  | number {t : Text} {d : DecimalText} : SpellsDecimal t d → KeepsPrecision t d →
    SpellsLiteral t (.num d.value)
  | string (s : Text) : SpellsLiteral (quote s) (.str s)
  | typed {kind : Text} (s : Text) : kind ∈ typedLiteralKinds →
    SpellsLiteral (kind ++ quote s) (.str s)
  | date {t : Text} : isDateText t → SpellsLiteral t (.str t)

/-- The spellings of a literal argument of a function. -/
inductive SpellsOperand : Text → Scalar → Prop where
  | null : SpellsOperand "null".toList .null
  | true : SpellsOperand "true".toList (.bool .true)
  | false : SpellsOperand "false".toList (.bool .false)
  | number {t : Text} {d : DecimalText} : SpellsDecimal t d → KeepsPrecision t d →
    SpellsOperand t (.num d.value)
  | string (s : Text) : SpellsOperand (quote s) (.str s)

theorem quote_mem_of_endsWith {t : Text} (h : endsWith t ['\''] = true) : '\'' ∈ t := by
  rw [endsWith, List.isSuffixOf_iff_suffix] at h
  exact h.subset List.mem_cons_self

/-- A text without quotes is no string and no typed literal. -/
theorem no_quotes {t : Text} (h : '\'' ∉ t) :
    isQuoted t = false ∧ typedLiteralKinds.findSome? (unwrapODataTypedLiteral t) = none := by
  have hends : endsWith t ['\''] = false := by
    by_contra hends
    exact h (quote_mem_of_endsWith (by simpa using hends))
  refine ⟨by rw [isQuoted, hends, Bool.and_false], ?_⟩
  rw [List.findSome?_eq_none_iff]
  intro kind _
  simp [unwrapODataTypedLiteral, hends]

theorem SpellsDecimal.no_quote {t : Text} {d : DecimalText} (h : SpellsDecimal t d) :
    '\'' ∉ t := fun hmem => absurd (h.all_numberChar _ hmem) (by decide)

/-- A number is no keyword, whatever the case of its letters. -/
theorem SpellsDecimal.ne_keyword {t : Text} {d : DecimalText} (h : SpellsDecimal t d) :
    ∀ keyword ∈ ["true".toList, "false".toList, "null".toList], asciiLower t ≠ keyword := by
  have hletters : ∀ c ∈ "0123456789-+.eE".toList, c.toLower ∉ ['u', 'f'] := by decide
  have hnot {x : Char} (hx : x ∈ ['u', 'f']) : x ∉ asciiLower t := by
    intro hmem
    obtain ⟨c, hc, rfl⟩ := List.mem_map.mp hmem
    exact hletters c (mem_numberChars (h.all_numberChar c hc)) hx
  intro keyword hkeyword heq
  subst heq
  simp only [List.mem_cons, List.not_mem_nil, or_false] at hkeyword
  rcases hkeyword with heq | heq | heq
  · exact hnot (x := 'u') (by decide) (heq ▸ by decide)
  · exact hnot (x := 'f') (by decide) (heq ▸ by decide)
  · exact hnot (x := 'u') (by decide) (heq ▸ by decide)

/-- A date begins with the four digits of the year and a hyphen. -/
theorem afterDate_shape {t rest : Text} (h : afterDate t = some rest) :
    ∃ year rest', t = year ++ '-' :: rest' ∧ year.all isDigit ∧ year ≠ [] := by
  unfold afterDate at h
  split at h
  · next hshape =>
    simp only [Bool.and_eq_true, decide_eq_true_eq] at hshape
    obtain ⟨⟨⟨⟨⟨hyear, _⟩, _⟩, hlength⟩, hhyphen⟩, _⟩ := hshape
    refine ⟨t.take 4, t.drop 5, ?_, hyear, ?_⟩
    · have hget := (List.getElem?_eq_some_iff.mp hhyphen)
      obtain ⟨hlt, hget⟩ := hget
      rw [← hget, List.getElem_cons_drop, List.take_append_drop]
    · intro hnil
      rw [List.take_eq_nil_iff] at hnil
      rcases hnil with h | rfl
      · cases h
      · simp at hlength
  · cases h

theorem readDecimal_date {year rest : Text} (hyear : year.all isDigit) (hne : year ≠ []) :
    readDecimal (year ++ '-' :: rest) = none := by
  have hsign := startsWith_digits ('-' :: rest) hne hyear '-' (by decide)
  obtain ⟨htake, hdrop⟩ := digits_append (x := '-' :: rest) hyear (by
    intro c hc
    cases hc
    decide)
  simp only [readDecimal, hsign, Bool.false_eq_true, if_false, htake, hdrop, if_neg hne]
  rfl

theorem asciiLower_digit_head {c : Char} {rest : Text} (hc : isDigit c) :
    ∀ keyword ∈ ["true".toList, "false".toList, "null".toList],
      asciiLower (c :: rest) ≠ keyword := by
  have hdigits : ∀ c ∈ "0123456789".toList, c.toLower ∉ ['t', 'f', 'n'] := by decide
  have hnot := hdigits c (mem_digits hc)
  intro keyword hkeyword heq
  subst heq
  simp only [List.mem_cons, List.not_mem_nil, or_false, not_or] at hkeyword hnot
  rcases hkeyword with heq | heq | heq
  · exact hnot.1 (List.cons.inj heq).1
  · exact hnot.2.1 (List.cons.inj heq).1
  · exact hnot.2.2 (List.cons.inj heq).1

/-- What is no string, no keyword and no number is a bare text. -/
theorem parseLiteral_bare {t : Text} (hquote : '\'' ∉ t)
    (hkeyword : ∀ keyword ∈ ["true".toList, "false".toList, "null".toList],
      asciiLower t ≠ keyword) :
    parseLiteral t = match tryParseNumericToken t with
      | some numeric => .num numeric
      | none => .str t := by
  obtain ⟨hquoted, htyped⟩ := no_quotes hquote
  rw [parseLiteral, htyped]
  dsimp only
  rw [if_neg (by simp [hquoted]), if_neg (hkeyword _ (by simp)), if_neg (hkeyword _ (by simp))]
  exact if_neg (hkeyword _ (by simp))

theorem isDateText_shape {t : Text} (h : isDateText t) :
    (∀ c ∈ t, isSpace c = false) ∧ '\'' ∉ t ∧ ∃ rest, afterDate t = some rest ∧
      (rest = [] || isTimeText rest) = true := by
  rw [isDateText, Bool.and_eq_true] at h
  obtain ⟨hchars, hdate⟩ := h
  have hchar : ∀ c ∈ t, isSpace c = false ∧ c ≠ '\'' := by
    simpa using hchars
  refine ⟨fun c hc => (hchar c hc).1, fun hmem => (hchar _ hmem).2 rfl, ?_⟩
  split at hdate
  · next rest hrest => exact ⟨rest, hrest, hdate⟩
  · cases hdate

theorem parseLiteral_date {t : Text} (h : isDateText t) : parseLiteral t = .str t := by
  obtain ⟨_, hquote, rest, hafter, _⟩ := isDateText_shape h
  obtain ⟨year, rest', rfl, hyear, hne⟩ := afterDate_shape hafter
  have hkeyword : ∀ keyword ∈ ["true".toList, "false".toList, "null".toList],
      asciiLower (year ++ '-' :: rest') ≠ keyword := by
    cases year with
    | nil => exact absurd rfl hne
    | cons c year =>
      exact asciiLower_digit_head (List.all_eq_true.mp hyear c List.mem_cons_self)
  rw [parseLiteral_bare hquote hkeyword, tryParseNumericToken, readDecimal_date hyear hne]

theorem parseLiteral_of_spells {t : Text} {v : Scalar} (h : SpellsLiteral t v) :
    parseLiteral t = v := by
  cases h with
  | null => decide
  | true => decide
  | false => decide
  | number hdecimal hprecision =>
    rw [parseLiteral_bare hdecimal.no_quote hdecimal.ne_keyword,
      tryParseNumericToken_of_spells hdecimal hprecision]
  | string s => exact parseLiteral_quote s
  | typed s hkind => exact parseLiteral_typed hkind s
  | date hdate => exact parseLiteral_date hdate

theorem literalOperand_of_spells {t : Text} {v : Scalar} (h : SpellsOperand t v) :
    literalOperand t = .literal v none := by
  cases h with
  | null => rfl
  | true => rfl
  | false => rfl
  | string s => rw [literalOperand, if_pos (isQuoted_quote s), unquote_quote]
  | number hdecimal hprecision =>
    obtain ⟨hquoted, _⟩ := no_quotes hdecimal.no_quote
    have hkeyword (keyword : Text) (hmem : keyword ∈ ["true".toList, "false".toList, "null".toList])
        (hlower : asciiLower keyword = keyword) : t ≠ keyword := by
      rintro rfl
      exact hdecimal.ne_keyword _ hmem hlower
    rw [literalOperand, if_neg (by simp [hquoted]), if_neg (hkeyword _ (by simp) (by decide)),
      if_neg (hkeyword _ (by simp) (by decide)), if_neg (hkeyword _ (by simp) (by decide)),
      tryParseNumericToken_of_spells hdecimal hprecision]

/-- A text that neither starts nor ends with a space is trimmed to itself. -/
theorem isInListLiteralToken_of_spells {t : Text} {v : Scalar} (h : SpellsLiteral t v) :
    isInListLiteralToken t = true := by
  cases h with
  | null => decide
  | true => decide
  | false => decide
  | number hdecimal _ =>
    have htrim := trimText_eq fun c hc =>
      isSpace_false_of_isNumberChar (hdecimal.all_numberChar c hc)
    simp [isInListLiteralToken, htrim, hdecimal.ne_nil, readDecimal_of_spells hdecimal]
  | string s =>
    have htrim : trimText (quote s) = quote s := by
      apply trimText_of_ends
      · intro c hc
        cases hc
        decide
      · intro c hc
        rw [quote, ← List.cons_append, List.getLast?_concat] at hc
        cases hc
        decide
    have hne : quote s ≠ [] := List.cons_ne_nil _ _
    simp [isInListLiteralToken, htrim, isQuoted_quote, hne]
  | @typed kind s hkind =>
    have htrim : trimText (kind ++ quote s) = kind ++ quote s := by
      have hkinds : ∀ kind ∈ typedLiteralKinds,
          kind ≠ [] ∧ ∀ c ∈ kind.head?, isSpace c = false := by decide
      obtain ⟨hne, hhead⟩ := hkinds kind hkind
      obtain ⟨first, letters, rfl⟩ := List.exists_cons_of_ne_nil hne
      apply trimText_of_ends
      · exact hhead
      · intro c hc
        rw [quote, ← List.cons_append, ← List.append_assoc, List.getLast?_concat] at hc
        cases hc
        decide
    have hne : kind ++ quote s ≠ [] := by simp [quote]
    simp [isInListLiteralToken, htrim, unwrap_typed hkind, hne]
  | date hdate =>
    obtain ⟨hspace, _, rest, hafter, htime⟩ := isDateText_shape hdate
    obtain ⟨year, rest', rfl, _, hne⟩ := afterDate_shape hafter
    have hnil : year ++ '-' :: rest' ≠ [] := by simp
    simp [isInListLiteralToken, trimText_eq hspace, hafter, htime, hnil]

end LoopbackOData
