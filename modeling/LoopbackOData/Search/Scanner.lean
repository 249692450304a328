import LoopbackOData.Filter.Literals

/-!
# The tokens of a `$search` text

`scanSearchTokens`, and the texts that a list of tokens can be written as: words and quoted phrases
with backslash escapes, keywords in any case, parentheses, spaces.
-/

namespace LoopbackOData

namespace Search

set_option autoImplicit false

inductive SearchToken where
  | term (value : Text)
  | and
  | or
  | not
  | lparen
  | rparen
  deriving DecidableEq, Repr

/-- A `BadRequest`, or the fuel of a model function is used up. -/
inductive SearchError where
  | badRequest (message : Text)
  | outOfFuel
  deriving DecidableEq, Repr

def invalid (message : String) : SearchError :=
  .badRequest ("Invalid $search expression: ".toList ++ message.toList)

/-- What ends a word. -/
def breaksWord (c : Char) : Bool := c = '(' || c = ')' || isSpace c || c = '"' || c = '\''

/-- The value of a quoted phrase and the text after it, `none` where the quote is not closed. -/
def phraseBody (quote : Char) : Text → Option (Text × Text)
  | [] => none
  | ['\\'] => none
  | '\\' :: c :: text => (phraseBody quote text).map fun r => (c :: r.1, r.2)
  | c :: text =>
    if c = quote then some ([], text) else (phraseBody quote text).map fun r => (c :: r.1, r.2)

/-- The value of a word and the text after it; a backslash at the end stands for itself. -/
def wordBody : Text → Text × Text
  | [] => ([], [])
  | '\\' :: c :: text => (c :: (wordBody text).1, (wordBody text).2)
  | c :: text =>
    if breaksWord c then ([], c :: text) else (c :: (wordBody text).1, (wordBody text).2)

/-- Keywords are compared after `toUpperCase`, which makes their letters of no others than ASCII
ones. -/
def wordToken (value : Text) : SearchToken :=
  if asciiUpper value = "AND".toList then .and
  else if asciiUpper value = "OR".toList then .or
  else if asciiUpper value = "NOT".toList then .not
  else .term value

theorem length_phraseBody {quote : Char} {text value rest : Text}
    (h : phraseBody quote text = some (value, rest)) : rest.length < text.length := by
  fun_induction phraseBody quote text generalizing value with
  | case1 => cases h
  | case2 => cases h
  | case3 c text ih =>
    obtain ⟨r, hr, heq⟩ := Option.map_eq_some_iff.mp h
    obtain ⟨-, rfl⟩ := Prod.mk.inj heq
    have hlt := ih hr
    simp only [List.length_cons]
    omega
  | case4 c text => simp_all
  | case5 c text _ _ _ ih =>
    obtain ⟨r, hr, heq⟩ := Option.map_eq_some_iff.mp h
    obtain ⟨-, rfl⟩ := Prod.mk.inj heq
    have hlt := ih hr
    simp only [List.length_cons]
    omega

theorem length_wordBody (text : Text) : (wordBody text).2.length ≤ text.length := by
  fun_induction wordBody text with
  | case1 => exact le_rfl
  | case2 c text ih => exact ih.trans (Nat.le_add_right _ 2)
  | case3 => exact le_rfl
  | case4 c text _ _ ih => exact ih.trans (Nat.le_succ _)

theorem length_wordBody_cons {c : Char} (h : breaksWord c = false) (text : Text) :
    (wordBody (c :: text)).2.length < (c :: text).length := by
  rw [wordBody.eq_def]
  split
  · next heq => cases heq
  · next heq =>
    obtain ⟨-, rfl⟩ := List.cons.inj heq
    exact (length_wordBody _).trans_lt (by simp)
  · next heq =>
    obtain ⟨rfl, rfl⟩ := List.cons.inj heq
    rw [if_neg (by simp [h])]
    exact (length_wordBody _).trans_lt (by simp)

/-- One turn of the scanner's loop, at a character `c`: the token that it pushes, if any, and the
text that it goes on with. -/
def scanToken (c : Char) (text : Text) : Except SearchError (Option SearchToken × Text) :=
  if isSpace c then .ok (none, text)
  else if c = '(' then .ok (some .lparen, text)
  else if c = ')' then .ok (some .rparen, text)
  else if c = '"' || c = '\'' then
    match phraseBody c text with
    | none => .error (invalid "unterminated quoted phrase.")
    | some (value, rest) =>
      if value = [] then .error (invalid "quoted phrase cannot be empty.")
      else .ok (some (.term value), rest)
  else
    let value := trimText (wordBody (c :: text)).1
    .ok (if value = [] then none else some (wordToken value), (wordBody (c :: text)).2)

theorem length_scanToken {c : Char} {text rest : Text} {token : Option SearchToken}
    (h : scanToken c text = .ok (token, rest)) : rest.length < (c :: text).length := by
  have hshort : text.length < (c :: text).length := by simp
  unfold scanToken at h
  split at h
  · obtain ⟨-, rfl⟩ := Prod.mk.inj (Except.ok.inj h)
    exact hshort
  · split at h
    · obtain ⟨-, rfl⟩ := Prod.mk.inj (Except.ok.inj h)
      exact hshort
    · split at h
      · obtain ⟨-, rfl⟩ := Prod.mk.inj (Except.ok.inj h)
        exact hshort
      · split at h
        · split at h
          · cases h
          · next hphrase =>
            split at h
            · cases h
            · obtain ⟨-, rfl⟩ := Prod.mk.inj (Except.ok.inj h)
              exact (length_phraseBody hphrase).trans hshort
        · obtain ⟨-, rfl⟩ := Prod.mk.inj (Except.ok.inj h)
          apply length_wordBody_cons
          simp_all [breaksWord]

def scanFrom : Nat → Text → Except SearchError (List SearchToken)
  | _, [] => .ok []
  | 0, _ :: _ => .error .outOfFuel
  | fuel + 1, c :: text => do
    let (token, rest) ← scanToken c text
    return token.toList ++ (← scanFrom fuel rest)

/-- Each turn of the loop takes a character at least. -/
def scanSearchTokens (text : Text) : Except SearchError (List SearchToken) :=
  scanFrom text.length text

theorem scanToken_ne_outOfFuel (c : Char) (text : Text) : scanToken c text ≠ .error .outOfFuel := by
  unfold scanToken
  split_ifs
  · nofun
  · nofun
  · nofun
  · split
    · nofun
    · split_ifs <;> nofun
  · nofun

theorem scanFrom_ne_outOfFuel {fuel : Nat} {text : Text} (h : text.length ≤ fuel) :
    scanFrom fuel text ≠ .error .outOfFuel := by
  induction fuel generalizing text with
  | zero =>
    obtain rfl := List.length_eq_zero_iff.mp (Nat.le_zero.mp h)
    rw [scanFrom]
    nofun
  | succ fuel ih =>
    cases text with
    | nil =>
      rw [scanFrom]
      nofun
    | cons c text =>
      rw [scanFrom]
      cases htoken : scanToken c text with
      | error error =>
        have hne := scanToken_ne_outOfFuel c text
        rw [htoken] at hne
        intro heq
        have herror : error = .outOfFuel := Except.error.inj heq
        exact hne (by rw [herror])
      | ok result =>
        obtain ⟨token, rest⟩ := result
        have hlt := length_scanToken htoken
        have hrest : scanFrom fuel rest ≠ .error .outOfFuel := by
          apply ih
          rw [List.length_cons] at h hlt
          omega
        change (do return token.toList ++ (← scanFrom fuel rest)) ≠ .error .outOfFuel
        cases hscan : scanFrom fuel rest with
        | error error =>
          rw [hscan] at hrest
          exact hrest
        | ok tokens => nofun

theorem scanSearchTokens_ne_outOfFuel (text : Text) :
    scanSearchTokens text ≠ .error .outOfFuel := scanFrom_ne_outOfFuel le_rfl

/-! ## Texts of tokens -/

/-- A word and its value: other than spaces, quotes and parentheses, or escaped. -/
inductive SpellsWord : Text → Text → Prop where
  | nil : SpellsWord [] []
  | plain {c : Char} {text value : Text} (hbreaks : breaksWord c = false) (hescape : c ≠ '\\')
    (h : SpellsWord text value) : SpellsWord (c :: text) (c :: value)
  | escaped (c : Char) {text value : Text} (h : SpellsWord text value) :
    SpellsWord ('\\' :: c :: text) (c :: value)

/-- The inside of a quoted phrase and its value. -/
inductive SpellsPhrase (quote : Char) : Text → Text → Prop where
  | nil : SpellsPhrase quote [] []
  | plain {c : Char} {text value : Text} (hquote : c ≠ quote) (hescape : c ≠ '\\')
    (h : SpellsPhrase quote text value) : SpellsPhrase quote (c :: text) (c :: value)
  | escaped (c : Char) {text value : Text} (h : SpellsPhrase quote text value) :
    SpellsPhrase quote ('\\' :: c :: text) (c :: value)

/-- The words that are one token: terms that no space begins or ends, and the keywords. -/
structure IsWord (value : Text) : Prop where
  nonempty : value ≠ []
  head : ∀ c ∈ value.head?, isSpace c = false
  last : ∀ c ∈ value.getLast?, isSpace c = false

/-- The texts of a list of tokens. Only a word needs something that ends it. -/
inductive SpellsTokens : Text → List SearchToken → Prop where
  | nil : SpellsTokens [] []
  | space {c : Char} {text : Text} {tokens : List SearchToken} (hspace : isSpace c = true)
    (h : SpellsTokens text tokens) : SpellsTokens (c :: text) tokens
  | lparen {text : Text} {tokens : List SearchToken} (h : SpellsTokens text tokens) :
    SpellsTokens ('(' :: text) (.lparen :: tokens)
  | rparen {text : Text} {tokens : List SearchToken} (h : SpellsTokens text tokens) :
    SpellsTokens (')' :: text) (.rparen :: tokens)
  | phrase {quote : Char} {body value text : Text} {tokens : List SearchToken}
    (hquote : quote = '"' ∨ quote = '\'') (hbody : SpellsPhrase quote body value)
    (hvalue : value ≠ []) (h : SpellsTokens text tokens) :
    SpellsTokens (quote :: (body ++ quote :: text)) (.term value :: tokens)
  | word {spelling value text : Text} {tokens : List SearchToken}
    (hword : SpellsWord spelling value) (hvalue : IsWord value)
    (hends : ∀ c ∈ text.head?, breaksWord c = true) (h : SpellsTokens text tokens) :
    SpellsTokens (spelling ++ text) (wordToken value :: tokens)

theorem phraseBody_spells {quote : Char} (hquote : quote ≠ '\\') {body value : Text}
    (h : SpellsPhrase quote body value) (text : Text) :
    phraseBody quote (body ++ quote :: text) = some (value, text) := by
  induction h with
  | nil =>
    rw [List.nil_append, phraseBody.eq_def]
    split
    · next heq => cases heq
    · next heq => exact absurd (List.cons.inj heq).1 hquote
    · next heq => exact absurd (List.cons.inj heq).1 hquote
    · next heq =>
      obtain ⟨rfl, rfl⟩ := List.cons.inj heq
      rw [if_pos rfl]
  | @plain c body value hc hescape _ ih =>
    rw [List.cons_append, phraseBody.eq_def]
    split
    · next heq => cases heq
    · next heq => exact absurd (List.cons.inj heq).1 hescape
    · next heq => exact absurd (List.cons.inj heq).1 hescape
    · next heq =>
      obtain ⟨rfl, rfl⟩ := List.cons.inj heq
      rw [if_neg hc, ih]
      rfl
  | escaped c _ ih =>
    rw [List.cons_append, List.cons_append, phraseBody, ih]
    rfl

theorem wordBody_ends {text : Text} (h : ∀ c ∈ text.head?, breaksWord c = true) :
    wordBody text = ([], text) := by
  cases text with
  | nil => rfl
  | cons c text =>
    have hbreaks := h c rfl
    rw [wordBody.eq_def]
    split
    · next heq => cases heq
    · next heq =>
      obtain ⟨rfl, -⟩ := List.cons.inj heq
      exact absurd hbreaks (by decide)
    · next heq =>
      obtain ⟨rfl, rfl⟩ := List.cons.inj heq
      rw [if_pos hbreaks]

theorem wordBody_spells {spelling value text : Text} (h : SpellsWord spelling value)
    (hends : ∀ c ∈ text.head?, breaksWord c = true) :
    wordBody (spelling ++ text) = (value, text) := by
  induction h with
  | nil => exact wordBody_ends hends
  | plain hbreaks hescape _ ih =>
    rw [List.cons_append, wordBody.eq_def]
    split
    · next heq => cases heq
    · next heq => exact absurd (List.cons.inj heq).1 hescape
    · next heq =>
      obtain ⟨rfl, rfl⟩ := List.cons.inj heq
      rw [if_neg (by simp [hbreaks]), ih]
  | escaped c _ ih => rw [List.cons_append, List.cons_append, wordBody, ih]

theorem SpellsWord.head {spelling value : Text} (h : SpellsWord spelling value)
    (hvalue : value ≠ []) : ∃ c rest, spelling = c :: rest ∧ breaksWord c = false := by
  cases h with
  | nil => exact absurd rfl hvalue
  | plain hbreaks _ _ => exact ⟨_, _, rfl, hbreaks⟩
  | escaped => exact ⟨_, _, rfl, by decide⟩

/-- What one turn of the loop reads of a text of tokens. -/
theorem scanFrom_cons {fuel : Nat} {c : Char} {text rest : Text} {token : Option SearchToken}
    {tokens : List SearchToken} (htoken : scanToken c text = .ok (token, rest))
    (hrest : ∀ fuel, rest.length ≤ fuel → scanFrom fuel rest = .ok tokens)
    (hfuel : (c :: text).length ≤ fuel) :
    scanFrom fuel (c :: text) = .ok (token.toList ++ tokens) := by
  have hlt := length_scanToken htoken
  obtain ⟨fuel, rfl⟩ := Nat.exists_eq_add_of_le' (Nat.le_trans (Nat.le_add_left 1 _) hfuel)
  rw [scanFrom, htoken]
  change (do return token.toList ++ (← scanFrom fuel rest)) = _
  rw [hrest fuel (by omega)]
  rfl

theorem scanFrom_spells {text : Text} {tokens : List SearchToken} (h : SpellsTokens text tokens) :
    ∀ fuel, text.length ≤ fuel → scanFrom fuel text = .ok tokens := by
  induction h with
  | nil =>
    intro fuel _
    cases fuel <;> rfl
  | @space c text tokens hspace _ ih =>
    intro fuel hfuel
    have hstep : scanToken c text = .ok (none, text) := if_pos hspace
    exact scanFrom_cons hstep ih hfuel
  | lparen _ ih =>
    intro fuel hfuel
    exact scanFrom_cons rfl ih hfuel
  | rparen _ ih =>
    intro fuel hfuel
    exact scanFrom_cons rfl ih hfuel
  | @phrase quote body value text tokens hquote hbody hvalue _ ih =>
    intro fuel hfuel
    have hquotes : isSpace quote = false ∧ quote ≠ '(' ∧ quote ≠ ')' ∧ quote ≠ '\\' := by
      rcases hquote with rfl | rfl <;> decide
    have hstep : scanToken quote (body ++ quote :: text) = .ok (some (.term value), text) := by
      unfold scanToken
      rw [if_neg (by simp [hquotes.1]), if_neg hquotes.2.1, if_neg hquotes.2.2.1,
        if_pos (by simpa using hquote), phraseBody_spells hquotes.2.2.2 hbody text]
      exact if_neg hvalue
    exact scanFrom_cons hstep ih hfuel
  | @word spelling value text tokens hword hvalue hends _ ih =>
    intro fuel hfuel
    have hbody := wordBody_spells hword hends
    obtain ⟨c, rest, rfl, hbreaks⟩ := hword.head hvalue.nonempty
    have hc : isSpace c = false ∧ c ≠ '(' ∧ c ≠ ')' ∧ c ≠ '"' ∧ c ≠ '\'' := by
      simp only [breaksWord, Bool.or_eq_false_iff, decide_eq_false_iff_not] at hbreaks
      tauto
    obtain ⟨hspace, hopen, hclose, hdouble, hsingle⟩ := hc
    rw [List.cons_append] at hbody hfuel ⊢
    have hstep : scanToken c (rest ++ text) = .ok (some (wordToken value), text) := by
      unfold scanToken
      rw [if_neg (by simp [hspace]), if_neg hopen, if_neg hclose,
        if_neg (by simp [hdouble, hsingle]), hbody]
      dsimp only
      rw [trimText_of_ends hvalue.head hvalue.last, if_neg hvalue.nonempty]
    exact scanFrom_cons hstep ih hfuel

/-- The tokens of a text are the ones that it was written from. -/
theorem scanSearchTokens_spells {text : Text} {tokens : List SearchToken}
    (h : SpellsTokens text tokens) : scanSearchTokens text = .ok tokens :=
  scanFrom_spells h text.length le_rfl

end Search

end LoopbackOData
