import LoopbackOData.Entities.KeyRoundTrip
import LoopbackOData.Routing.PathRewriter

/-!
# Key predicates

A request for `Set(key)` addresses the entity whose key it spells, whatever else of the literal is
percent-encoded, as long as the rewriter sees the quotes that enclose separators, and exactly if the
key expression is not too long.
-/

namespace LoopbackOData

namespace Routing

set_option autoImplicit false

/-! ## What the scanners see -/

/-- The characters outside strings, none if the text ends inside one. -/
def topLevel : Bool → Text → Option Text
  | false, [] => some []
  | true, [] => none
  | true, '\'' :: '\'' :: rest => topLevel true rest
  | inString, c :: rest =>
    if c = '\'' then topLevel (!inString) rest
    else if inString then topLevel true rest
    else (topLevel false rest).map (c :: ·)

/-- The separators of a text are between quotes, as the rewriter sees it. -/
def ShowsQuotes (text : Text) : Prop :=
  ∃ outside, topLevel false text = some outside ∧ ')' ∉ outside ∧ ',' ∉ outside ∧ '=' ∉ outside

theorem scanKey_pair (n : Nat) (rest : Text) :
    scanKey true n ('\'' :: '\'' :: rest) =
      (scanKey true (n + 2) rest).map fun found => ('\'' :: '\'' :: found.1, found.2) := rfl

theorem scanKey_cons {inString : Bool} {c : Char} {rest : Text} (n : Nat)
    (hpair : inString = true → c = '\'' → rest.head? ≠ some '\'') :
    scanKey inString n (c :: rest) =
      if inString = false ∧ c = ')' then
        if n > maxKeyExpressionLength then none else some ([], rest)
      else if (if c = '\'' then !inString else inString) = false ∧ n > maxKeyExpressionLength then
        none
      else (scanKey (if c = '\'' then !inString else inString) (n + 1) rest).map
        fun found => (c :: found.1, found.2) := by
  rw [scanKey]
  rintro rest' rfl rfl rfl
  exact absurd rfl (hpair rfl rfl)

theorem map_guarded {inString : Bool} {n : Nat} {c : Char} {rest after : Text}
    {found : Option (Text × Text)}
    (h : found =
      if n + 1 + rest.length ≤ maxKeyExpressionLength then some (rest, after) else none) :
    (if inString = false ∧ n > maxKeyExpressionLength then none
      else found.map fun found => (c :: found.1, found.2)) =
      if n + (c :: rest).length ≤ maxKeyExpressionLength then some (c :: rest, after)
      else none := by
  rw [h, List.length_cons]
  by_cases hle : n + 1 + rest.length ≤ maxKeyExpressionLength
  · rw [if_neg (by omega), if_pos hle, if_pos (by omega)]
    rfl
  · have hlong : ¬ n + (rest.length + 1) ≤ maxKeyExpressionLength := by omega
    rw [if_neg hle, if_neg hlong]
    split <;> rfl

/-- The key expression is found, if it is not too long. -/
theorem scanKey_of_topLevel {inString : Bool} {text outside : Text} (n : Nat) (after : Text)
    (h : topLevel inString text = some outside) (hparen : ')' ∉ outside) :
    scanKey inString n (text ++ ')' :: after) =
      if n + text.length ≤ maxKeyExpressionLength then some (text, after) else none := by
  fun_induction topLevel inString text generalizing n outside with
  | case1 =>
    rw [List.nil_append, scanKey_cons n (fun hin => absurd hin Bool.false_ne_true),
      if_pos ⟨rfl, rfl⟩, List.length_nil]
    by_cases hle : n ≤ maxKeyExpressionLength
    · rw [if_neg (by omega), if_pos (by omega)]
    · rw [if_pos (by omega), if_neg (by omega)]
  | case2 => cases h
  | case3 rest ih =>
    rw [List.cons_append, List.cons_append, scanKey_pair, ih (n + 2) h hparen, List.length_cons,
      List.length_cons]
    by_cases hle : n + 2 + rest.length ≤ maxKeyExpressionLength
    · rw [if_pos hle, if_pos (by omega)]
      rfl
    · rw [if_neg hle, if_neg (by omega)]
      rfl
  | case4 inString rest hpair ih =>
    have hhead : inString = true → '\'' = '\'' → (rest ++ ')' :: after).head? ≠ some '\'' := by
      intro hin _ hhead
      cases rest with
      | nil => cases hhead
      | cons d rest =>
        obtain rfl := Option.some.inj hhead
        exact hpair rest hin rfl rfl
    rw [List.cons_append, scanKey_cons n hhead, if_neg (by simp), if_pos rfl]
    exact map_guarded (ih (n + 1) h hparen)
  | case5 c rest hquote _ ih =>
    rw [List.cons_append, scanKey_cons n (fun _ hc => absurd hc hquote), if_neg (by simp),
      if_neg hquote]
    exact map_guarded (ih (n + 1) h hparen)
  | case6 inString c rest _ hquote hout ih =>
    rw [Bool.not_eq_true] at hout
    subst hout
    obtain ⟨outside', h', rfl⟩ := Option.map_eq_some_iff.mp h
    have hc : ¬ (false = false ∧ c = ')') := fun hc => hparen (hc.2 ▸ List.mem_cons_self)
    rw [List.cons_append, scanKey_cons n (fun hin => absurd hin Bool.false_ne_true), if_neg hc,
      if_neg hquote]
    exact map_guarded (ih (n + 1) h' fun hmem => hparen (List.mem_cons_of_mem c hmem))

/-- A text whose delimiters are all inside strings is one part. -/
theorem splitTopLevelFrom_of_topLevel {delimiter : Char} {inString : Bool} {text outside : Text}
    (current : Text) (h : topLevel inString text = some outside)
    (hdelimiter : delimiter ∉ outside) :
    splitTopLevelFrom delimiter inString current text =
      if current ++ text = [] then [] else [trimText (current ++ text)] := by
  fun_induction topLevel inString text generalizing current outside with
  | case1 => rw [List.append_nil, splitTopLevelFrom]
  | case2 => cases h
  | case3 rest ih =>
    rw [splitTopLevelFrom, ih _ h hdelimiter, List.append_assoc]
    rfl
  | case4 inString rest hpair ih =>
    rw [splitTopLevelFrom, if_pos rfl, ih _ h hdelimiter, List.append_assoc]
    · rfl
    · exact fun rest' hin hc => hpair rest' hin hc
  | case5 c rest hquote hpair ih =>
    rw [splitTopLevelFrom, if_neg hquote, if_neg (by simp), ih _ h hdelimiter, List.append_assoc]
    · rfl
    · exact hpair
  | case6 inString c rest hpair hquote hout ih =>
    rw [Bool.not_eq_true] at hout
    subst hout
    obtain ⟨outside', h', rfl⟩ := Option.map_eq_some_iff.mp h
    have hc : ¬ (false = false ∧ c = delimiter) := fun hc => hdelimiter (hc.2 ▸ List.mem_cons_self)
    rw [splitTopLevelFrom, if_neg hquote, if_neg hc,
      ih _ h' fun hmem => hdelimiter (List.mem_cons_of_mem c hmem), List.append_assoc]
    · rfl
    · exact hpair

theorem findTopLevelEqualsFrom_of_topLevel {inString : Bool} {text outside : Text}
    (h : topLevel inString text = some outside) (hequals : '=' ∉ outside) :
    findTopLevelEqualsFrom inString text = none := by
  fun_induction topLevel inString text generalizing outside with
  | case1 => rfl
  | case2 => cases h
  | case3 rest ih =>
    rw [findTopLevelEqualsFrom, ih h hequals]
    rfl
  | case4 inString rest hpair ih =>
    rw [findTopLevelEqualsFrom, if_pos rfl, ih h hequals]
    · rfl
    · exact fun rest' hin hc => hpair rest' hin hc
  | case5 c rest hquote hpair ih =>
    rw [findTopLevelEqualsFrom, if_neg hquote, if_neg (by simp), ih h hequals]
    · rfl
    · exact hpair
  | case6 inString c rest hpair hquote hout ih =>
    rw [Bool.not_eq_true] at hout
    subst hout
    obtain ⟨outside', h', rfl⟩ := Option.map_eq_some_iff.mp h
    have hc : ¬ (false = false ∧ c = '=') := fun hc => hequals (hc.2 ▸ List.mem_cons_self)
    rw [findTopLevelEqualsFrom, if_neg hquote, if_neg hc,
      ih h' fun hmem => hequals (List.mem_cons_of_mem c hmem)]
    · rfl
    · exact hpair

/-! ## Literals -/

/-- The characters of a path segment, with the percent sign of what is encoded. -/
def isUrlChar (c : Char) : Bool := isPlainChar c || c ∈ "!$&'()*+,;=:@%".toList

/-- A way to percent-encode a literal. -/
structure Encodes (text literal : Text) : Prop where
  chars : ∀ c ∈ text, isUrlChar c = true
  decoded : decodeURIComponent text = some literal

section Literals

variable {text literal : Text}

theorem toNat_of_isUrlChar {c : Char} (hc : isUrlChar c = true) : c.toNat < 128 := by
  rw [isUrlChar, Bool.or_eq_true] at hc
  rcases hc with hc | hc
  · exact toNat_of_isPlainChar hc
  · rw [decide_eq_true_eq] at hc
    have hall : ∀ c ∈ "!$&'()*+,;=:@%".toList, c.toNat < 128 := by decide
    exact hall c hc

theorem isSpace_of_isUrlChar {c : Char} (hc : isUrlChar c = true) : isSpace c = false := by
  have h := forall_ascii (fun c => !isUrlChar c || !isSpace c) (by decide +kernel)
    (toNat_of_isUrlChar hc)
  simpa [hc] using h

theorem trimText_of_encodes (h : Encodes text literal) : trimText text = text :=
  trimText_eq fun c hc => isSpace_of_isUrlChar (h.chars c hc)

theorem ne_nil_of_encodes (h : Encodes text literal) (hne : literal ≠ []) : text ≠ [] := by
  rintro rfl
  have hdecoded := h.decoded
  rw [decodeURIComponent_of_no_percent List.not_mem_nil] at hdecoded
  exact hne (Option.some.inj hdecoded).symm

theorem afterKeyPrefix_of_head {literal : Text} (h : literal.head?.any isNameStart = false) :
    afterKeyPrefix literal = none := by
  rw [afterKeyPrefix, h]
  rfl

theorem afterKeyPrefix_of_no_quote {literal : Text} (h : '\'' ∉ literal) :
    afterKeyPrefix literal = none := by
  unfold afterKeyPrefix
  split
  · split
    · next rest heq =>
      have hmem : '\'' ∈ literal.dropWhile isNameChar := heq ▸ List.mem_cons_self
      exact absurd ((List.dropWhile_sublist isNameChar).subset hmem) h
    · rfl
  · rfl

theorem undoubleQuotes_of_no_quote {s : Text} (h : '\'' ∉ s) : undoubleQuotes s = s := by
  have hsame := undoubleQuotes_doubleQuotes s
  rw [doubleQuotes_of_no_quote h] at hsame
  exact hsame

/-- The key that a literal with quotes spells. -/
theorem normalizeLiteral_quote {s : Text} (h : Encodes text (quote s)) :
    normalizeLiteral text = s := by
  have htrim : trimText (quote s) = quote s := by
    have hquoted := @trimText_quoted [] (by simp) s
    rw [List.nil_append] at hquoted
    exact hquoted
  have hlength : 2 ≤ (quote s).length := by
    rw [quote, List.length_cons, List.length_append]
    simp
  unfold normalizeLiteral
  rw [trimText_of_encodes h, decodeComponent, h.decoded, Option.getD_some, htrim]
  dsimp only
  rw [afterKeyPrefix_of_head rfl, Option.getD_none, if_pos ⟨isQuoted_quote s, hlength⟩]
  exact unquote_quote s

/-- The key that a literal without quotes is. -/
theorem normalizeLiteral_of_no_quote (h : Encodes text literal) (hquote : '\'' ∉ literal)
    (hspace : ∀ c ∈ literal, isSpace c = false) : normalizeLiteral text = literal := by
  have hquoted : isQuoted literal = false := by
    rw [← Bool.not_eq_true]
    intro hquoted
    rw [isQuoted, Bool.and_eq_true, startsWith, List.isPrefixOf_iff_prefix] at hquoted
    exact hquote (hquoted.1.subset List.mem_cons_self)
  unfold normalizeLiteral
  rw [trimText_of_encodes h, decodeComponent, h.decoded, Option.getD_some, trimText_eq hspace]
  dsimp only
  rw [afterKeyPrefix_of_no_quote hquote, Option.getD_none, hquoted, if_neg (by simp),
    if_neg (by simp)]
  exact undoubleQuotes_of_no_quote hquote

end Literals

/-! ## Segments -/

theorem encodeLiteral_eq (value : Text) :
    encodeLiteral value = (utf8Bytes value).flatMap fun b =>
      (encodeByte b).flatMap fun c => if c = '\'' then "%27".toList else [c] := by
  rw [encodeLiteral, encodeURIComponent, List.flatMap_assoc]

theorem percentBytes_encodeLiteral (value : Text) :
    percentBytes (encodeLiteral value) = some (utf8Bytes value) := by
  have hcode (b : UInt8) : (b = 0x27 ∧
      ((encodeByte b).flatMap fun c => if c = '\'' then "%27".toList else [c]) = "%27".toList) ∨
      ((encodeByte b).flatMap fun c => if c = '\'' then "%27".toList else [c]) = encodeByte b := by
    apply forall_byte _ b
    decide +kernel
  rw [encodeLiteral_eq]
  induction utf8Bytes value with
  | nil => rfl
  | cons b bytes ih =>
    rw [List.flatMap_cons]
    rcases hcode b with ⟨rfl, heq⟩ | heq
    · have hquote (s : Text) : percentBytes ("%27".toList ++ s) =
          (percentBytes s).map (0x27 :: ·) := by
        change percentBytes ('%' :: '2' :: '7' :: s) = _
        rw [percentBytes]
        cases percentBytes s <;> rfl
      rw [heq, hquote, ih]
      rfl
    · rw [heq, percentBytes_encodeByte, ih]
      rfl

theorem decodeURIComponent_encodeLiteral (value : Text) :
    decodeURIComponent (encodeLiteral value) = some value := by
  rw [decodeURIComponent, percentBytes_encodeLiteral, Option.bind_some, utf8Text_utf8Bytes]

theorem separators_encodeLiteral (value : Text) :
    ∀ c ∈ encodeLiteral value, c ≠ '/' ∧ c ≠ '?' ∧ c ≠ '#' := by
  have hcode (b : UInt8) :
      ∀ c ∈ (encodeByte b).flatMap fun c => if c = '\'' then "%27".toList else [c],
        c ≠ '/' ∧ c ≠ '?' ∧ c ≠ '#' := by
    apply forall_byte _ b
    decide +kernel
  rw [encodeLiteral_eq]
  intro c hc
  obtain ⟨b, -, hc⟩ := List.mem_flatMap.mp hc
  exact hcode b c hc

theorem encodeLiteral_ne_nil {value : Text} (h : value ≠ []) : encodeLiteral value ≠ [] := by
  intro hnil
  have hdecoded := decodeURIComponent_encodeLiteral value
  rw [hnil, decodeURIComponent_of_no_percent List.not_mem_nil] at hdecoded
  exact h (Option.some.inj hdecoded).symm

/-! ## Requests -/

/-- The text before a key predicate. -/
structure IsSetPath (setPath : Text) : Prop where
  chars : ∀ c ∈ setPath, c ≠ '(' ∧ c ≠ '?' ∧ c ≠ '#'
  last : ∃ c, setPath.getLast? = some c ∧ isSegmentChar c = true

def keyRequest (setPath text : Text) : Text := setPath ++ '(' :: (text ++ [')'])

/-- The parameter of the route `setPath/{id}`, which the router decodes. -/
def routedKey (setPath url : Text) : Option Text :=
  let path := (splitUrl url).path
  let segment := path.drop (setPath.length + 1)
  if startsWith path (setPath ++ ['/']) ∧ segment ≠ [] ∧ '/' ∉ segment then
    decodeURIComponent segment
  else none

/-- The key that a request addresses, none where its path is not that of an entity. -/
def addressedKey (env : Environment) (options : RewriteOptions) (parent : ModelDefinition)
    (setPath url : Text) : Option (Except HttpError JsValue) :=
  (routedKey setPath (rewriteODataUrl options url)).map fun raw =>
    coerceParentId env parent (.str raw)

section Requests

variable {options : RewriteOptions} {setPath text literal value : Text}

/-- The rewriter sees one value, without a name. -/
theorem parts_of_showsQuotes (h : Encodes text literal) (hne : literal ≠ [])
    (hshows : ShowsQuotes text) :
    splitTopLevel (trimText text) ',' = [text] ∧ findTopLevelEquals text = none := by
  obtain ⟨outside, htop, -, hcomma, hequals⟩ := hshows
  have htext := ne_nil_of_encodes h hne
  refine ⟨?_, findTopLevelEqualsFrom_of_topLevel htop hequals⟩
  rw [trimText_of_encodes h, splitTopLevel, splitTopLevelFrom_of_topLevel [] htop hcomma,
    List.nil_append, if_neg htext, trimText_of_encodes h]
  exact List.filter_cons_of_pos (decide_eq_true htext)

theorem normalizeKeyExpression_eq (h : Encodes text literal) (hne : literal ≠ [])
    (hshows : ShowsQuotes text) : normalizeKeyExpression text = some (normalizeLiteral text) := by
  obtain ⟨hparts, hequals⟩ := parts_of_showsQuotes h hne hshows
  unfold normalizeKeyExpression
  dsimp only
  have hnone : ([text].any fun part => (findTopLevelEquals part).isSome) = false := by
    rw [List.any_cons, hequals]
    rfl
  rw [hparts, hnone, if_neg Bool.false_ne_true, List.map_singleton, joinCommas]
  simp

theorem canonicalParametersToQuery_eq_none (h : Encodes text literal) (hne : literal ≠ [])
    (hshows : ShowsQuotes text) : canonicalParametersToQuery text = none := by
  obtain ⟨hparts, hequals⟩ := parts_of_showsQuotes h hne hshows
  have hparameter : canonicalParameter text = none := by
    rw [canonicalParameter, hequals]
    rfl
  rw [canonicalParametersToQuery, hparts, List.mapM_cons, hparameter]
  rfl

theorem rewriteKey_eq (h : Encodes text literal) (hne : literal ≠ []) (hshows : ShowsQuotes text) :
    rewriteKey options [] setPath text =
      (setPath ++ '/' :: encodeLiteral (normalizeLiteral text), none) := by
  unfold rewriteKey
  dsimp only
  rw [canonicalParametersToQuery_eq_none h hne hshows, if_neg (by simp), if_neg (by simp),
    normalizeKeyExpression_eq h hne hshows]

theorem span_setPath (hpath : IsSetPath setPath) (rest : Text) :
    (setPath ++ '(' :: rest).takeWhile (· ≠ '(') = setPath ∧
      (setPath ++ '(' :: rest).dropWhile (· ≠ '(') = '(' :: rest := by
  have hall : ∀ c ∈ setPath, decide (c ≠ '(') = true := fun c hc =>
    decide_eq_true (hpath.chars c hc).1
  constructor
  · rw [List.takeWhile_append_of_pos hall]
    simp
  · rw [List.dropWhile_append_of_pos hall]
    simp

theorem extractKeySegment_eq (hpath : IsSetPath setPath) (hshows : ShowsQuotes text) :
    extractKeySegment setPath (text ++ [')']) =
      if text.length ≤ maxKeyExpressionLength then some (text, []) else none := by
  obtain ⟨outside, htop, hparen, -⟩ := hshows
  obtain ⟨c, hlast, hc⟩ := hpath.last
  have hscan := scanKey_of_topLevel 0 [] htop hparen
  rw [Nat.zero_add] at hscan
  rw [extractKeySegment, hlast]
  dsimp only
  rw [if_pos (Or.inr (Or.inr hc)), hscan]

theorem exists_count (setPath text : Text) :
    ∃ n, (keyRequest setPath text).count '(' = n + 1 := by
  refine ⟨setPath.count '(' + (text ++ [')']).count '(', ?_⟩
  rw [keyRequest, List.count_append, List.count_cons_self]
  rfl

variable (options) in
/-- A path whose parenthesis is kept. -/
theorem rewritePath_of_long (hpath : IsSetPath setPath) (hshows : ShowsQuotes text)
    (hlong : maxKeyExpressionLength < text.length) :
    ∃ rest, (rewritePath options (keyRequest setPath text)).1 = setPath ++ '(' :: rest := by
  obtain ⟨n, hn⟩ := exists_count setPath text
  obtain ⟨hplain, hdrop⟩ := span_setPath hpath (text ++ [')'])
  have hnone : extractKeySegment setPath (text ++ [')']) = none := by
    rw [extractKeySegment_eq hpath hshows, if_neg (Nat.not_le.mpr hlong)]
  unfold rewritePath
  dsimp only
  rw [hn, rewriteFrom, keyRequest, hdrop]
  dsimp only
  rw [hplain, List.nil_append, hnone]
  exact ⟨_, rfl⟩

theorem rewriteFrom_nil (n : Nat) (before : Text) : rewriteFrom options n before [] = ([], []) := by
  cases n <;> rfl

theorem rewritePath_of_short (hpath : IsSetPath setPath) (h : Encodes text literal)
    (hne : literal ≠ []) (hshows : ShowsQuotes text)
    (hshort : text.length ≤ maxKeyExpressionLength) :
    rewritePath options (keyRequest setPath text) =
      (setPath ++ '/' :: encodeLiteral (normalizeLiteral text), []) := by
  obtain ⟨n, hn⟩ := exists_count setPath text
  obtain ⟨hplain, hdrop⟩ := span_setPath hpath (text ++ [')'])
  have hsome : extractKeySegment setPath (text ++ [')']) = some (text, []) := by
    rw [extractKeySegment_eq hpath hshows, if_pos hshort]
  unfold rewritePath
  dsimp only
  rw [hn, rewriteFrom, keyRequest, hdrop]
  dsimp only
  rw [hplain, List.nil_append, hsome]
  dsimp only
  rw [rewriteKey_eq h hne hshows, rewriteFrom_nil, List.append_nil]
  rfl

theorem splitUrl_of_path {path : Text} (hchars : ∀ c ∈ path, c ≠ '?' ∧ c ≠ '#') :
    splitUrl path = ⟨path, [], []⟩ := by
  have hhash : ∀ c ∈ path, decide (c ≠ '#') = true := fun c hc => decide_eq_true (hchars c hc).2
  have hquery : ∀ c ∈ path, decide (c ≠ '?') = true := fun c hc => decide_eq_true (hchars c hc).1
  unfold splitUrl
  dsimp only
  rw [List.takeWhile_eq_self_iff.mpr hhash, List.takeWhile_eq_self_iff.mpr hquery,
    List.dropWhile_eq_nil_iff.mpr hhash, List.dropWhile_eq_nil_iff.mpr hquery]
  rfl

theorem chars_keyRequest (hpath : IsSetPath setPath) (h : Encodes text literal) :
    ∀ c ∈ keyRequest setPath text, c ≠ '?' ∧ c ≠ '#' := by
  intro c hc
  rcases List.mem_append.mp hc with hc | hc
  · exact (hpath.chars c hc).2
  · rcases List.mem_cons.mp hc with rfl | hc
    · decide
    · rcases List.mem_append.mp hc with hc | hc
      · have hurl := h.chars c hc
        constructor <;> rintro rfl <;> revert hurl <;> decide
      · rw [List.mem_singleton.mp hc]
        decide

/-- The segment of the path after rewriting is the key. -/
theorem routedKey_of_short (hpath : IsSetPath setPath) (h : Encodes text literal)
    (hne : literal ≠ []) (hshows : ShowsQuotes text) (hkey : normalizeLiteral text ≠ [])
    (hshort : text.length ≤ maxKeyExpressionLength) :
    routedKey setPath (rewriteODataUrl options (keyRequest setPath text)) =
      some (normalizeLiteral text) := by
  have hseparators := separators_encodeLiteral (normalizeLiteral text)
  have hchars :
      ∀ c ∈ setPath ++ '/' :: encodeLiteral (normalizeLiteral text), c ≠ '?' ∧ c ≠ '#' := by
    intro c hc
    rcases List.mem_append.mp hc with hc | hc
    · exact (hpath.chars c hc).2
    · rcases List.mem_cons.mp hc with rfl | hc
      · decide
      · exact (hseparators c hc).2
  have hurl : rewriteODataUrl options (keyRequest setPath text) =
      setPath ++ '/' :: encodeLiteral (normalizeLiteral text) := by
    unfold rewriteODataUrl
    rw [splitUrl_of_path (chars_keyRequest hpath h)]
    dsimp only
    rw [rewritePath_of_short hpath h hne hshows hshort]
    exact List.append_nil _
  have hdrop : (setPath ++ '/' :: encodeLiteral (normalizeLiteral text)).drop
      (setPath.length + 1) = encodeLiteral (normalizeLiteral text) := by
    rw [List.drop_append]
    simp
  have hstarts : startsWith (setPath ++ '/' :: encodeLiteral (normalizeLiteral text))
      (setPath ++ ['/']) = true := by
    have happend := startsWith_append (setPath ++ ['/']) (encodeLiteral (normalizeLiteral text))
    rw [List.append_assoc] at happend
    exact happend
  unfold routedKey
  rw [hurl, splitUrl_of_path hchars]
  dsimp only
  rw [hdrop,
    if_pos ⟨hstarts, encodeLiteral_ne_nil hkey, fun hslash => (hseparators _ hslash).1 rfl⟩]
  exact decodeURIComponent_encodeLiteral _

/-- The path of a key that is too long leads nowhere. -/
theorem routedKey_of_long (hpath : IsSetPath setPath) (h : Encodes text literal)
    (hshows : ShowsQuotes text) (hlong : maxKeyExpressionLength < text.length) :
    routedKey setPath (rewriteODataUrl options (keyRequest setPath text)) = none := by
  have hbegins (p : Char → Bool) (hset : ∀ c ∈ setPath, p c = true) (hparen : p '(' = true)
      (rest : Text) :
      (setPath ++ '(' :: rest).takeWhile p = setPath ++ '(' :: rest.takeWhile p := by
    rw [List.takeWhile_append_of_pos hset, List.takeWhile_cons_of_pos hparen]
  have hstarts (rest : Text) : startsWith (setPath ++ '(' :: rest) (setPath ++ ['/']) = false := by
    rw [← Bool.not_eq_true, startsWith, List.isPrefixOf_iff_prefix, List.prefix_append_right_inj,
      List.cons_prefix_cons]
    exact fun hslash => absurd hslash.1 (by decide)
  obtain ⟨rest, hrest⟩ := rewritePath_of_long options hpath hshows hlong
  unfold rewriteODataUrl
  rw [splitUrl_of_path (chars_keyRequest hpath h)]
  dsimp only
  rw [hrest, List.append_assoc, List.cons_append]
  unfold routedKey splitUrl
  dsimp only
  rw [hbegins _ (fun c hc => decide_eq_true (hpath.chars c hc).2.2) rfl,
    hbegins _ (fun c hc => decide_eq_true (hpath.chars c hc).2.1) rfl]
  exact if_neg fun hroute => by
    rw [hstarts] at hroute
    exact Bool.false_ne_true hroute.1

end Requests

/-! ## Keys -/

def int64Value (literal : Text) : Int :=
  if startsWith literal ['-'] then -digitsValue (literal.drop 1) else digitsValue literal

/-- `BigInt` reads decimal digits with a sign. -/
def ReadsIntegers (env : Environment) : Prop :=
  ∀ literal, isInt64Text literal = true → env.parseBigInt literal = some (int64Value literal)

/-- The literals of a key of one of the types string, number and `Edm.Int64`. -/
def IsKeyLiteral (keyType : KeyType) (value : Atom) (literal : Text) : Prop :=
  match keyType, value with
  | .string, .str s => s ≠ [] ∧ literal = quote s
  | .number, .num q | .int64Number, .num q =>
    isFiniteNumber q = true ∧ ∃ d, SpellsDecimal literal d ∧ d.value = q
  | .bigint, .bigint i => isInt64Text literal = true ∧ int64Value literal = i
  | .int64Text, .str s => isInt64Text s = true ∧ literal = s
  | _, _ => False

/-- What a literal comes to, however it is encoded. -/
theorem normalizeLiteral_of_keyLiteral {env : Environment} (hreads : ReadsIntegers env)
    {parent : ModelDefinition} {keyType : KeyType}
    (hdeclares : keyType.Declares parent.idDefinition)
    {value : Atom} {text literal : Text} (hliteral : IsKeyLiteral keyType value literal)
    (h : Encodes text literal) :
    literal ≠ [] ∧ normalizeLiteral text ≠ [] ∧
      coerceParentId env parent (.str (normalizeLiteral text)) = .ok (.atom value) := by
  have hnumber {literal : Text} (h : Encodes text literal)
      (hchars : ∀ c ∈ literal, isNumberChar c = true) : normalizeLiteral text = literal := by
    apply normalizeLiteral_of_no_quote h
    · intro hmem
      exact absurd (hchars _ hmem) (by decide)
    · exact fun c hc => isSpace_false_of_isNumberChar (hchars c hc)
  have hinteger {literal : Text} {keepsText : Bool}
      (hcoercion : detectPrimitivePropertyType parent.idDefinition.toItemDefinition =
        some .bigint)
      (hint : isInt64Text literal = true)
      (hkeeps : propertyDeclaresString parent.idDefinition.toItemDefinition = keepsText) :
      coerceParentId env parent (.str literal) =
        .ok (.atom (if keepsText then .str literal else .bigint (int64Value literal))) := by
    rw [coerceParentId, coerceIdentifierLiteral, hcoercion]
    dsimp only
    rw [hreads literal hint, hkeeps]
  have hcoercion := hdeclares.coercion
  cases keyType with
  | string =>
    cases value with
    | str s =>
      obtain ⟨hne, rfl⟩ := hliteral
      rw [normalizeLiteral_quote h]
      exact ⟨List.cons_ne_nil _ _, hne, coerceTargetId_of_text hcoercion s⟩
    | _ => exact hliteral.elim
  | number =>
    cases value with
    | num q =>
      obtain ⟨hfinite, d, hspells, hvalue⟩ := hliteral
      rw [hnumber h hspells.all_numberChar]
      exact ⟨hspells.ne_nil, hspells.ne_nil,
        coerceTargetId_of_number hcoercion hspells hvalue hfinite⟩
    | _ => exact hliteral.elim
  | int64Number =>
    cases value with
    | num q =>
      obtain ⟨hfinite, d, hspells, hvalue⟩ := hliteral
      rw [hnumber h hspells.all_numberChar]
      exact ⟨hspells.ne_nil, hspells.ne_nil,
        coerceTargetId_of_number hcoercion hspells hvalue hfinite⟩
    | _ => exact hliteral.elim
  | bigint =>
    cases value with
    | bigint i =>
      obtain ⟨hint, rfl⟩ := hliteral
      obtain ⟨hne, hchars⟩ := isInt64Text_chars hint
      have hkeeps : propertyDeclaresString parent.idDefinition.toItemDefinition = false :=
        hdeclares.keepsText rfl
      rw [hnumber h hchars]
      exact ⟨hne, hne, hinteger hcoercion hint hkeeps⟩
    | _ => exact hliteral.elim
  | int64Text =>
    cases value with
    | str s =>
      obtain ⟨hint, rfl⟩ := hliteral
      obtain ⟨hne, hchars⟩ := isInt64Text_chars hint
      have hkeeps : propertyDeclaresString parent.idDefinition.toItemDefinition = true :=
        hdeclares.keepsText rfl
      rw [hnumber h hchars]
      exact ⟨hne, hne, hinteger hcoercion hint hkeeps⟩
    | _ => exact hliteral.elim
  | _ => exact hliteral.elim

/-- A text in the parentheses of a request for a key. -/
def SpellsKey (keyType : KeyType) (value : Atom) (text : Text) : Prop :=
  ∃ literal, IsKeyLiteral keyType value literal ∧ Encodes text literal ∧ ShowsQuotes text

/-- A request addresses the key that it spells exactly if the key expression is not too long, and
two keys are never addressed as one. -/
theorem addressedKey_keyRequest {env : Environment} (hreads : ReadsIntegers env)
    (options : RewriteOptions) {parent : ModelDefinition} {keyType : KeyType}
    (hdeclares : keyType.Declares parent.idDefinition) {setPath : Text}
    (hpath : IsSetPath setPath) :
    (∀ value text, SpellsKey keyType value text →
      (addressedKey env options parent setPath (keyRequest setPath text) =
          some (.ok (.atom value)) ↔ text.length ≤ maxKeyExpressionLength)) ∧
    ∀ value value' text text', SpellsKey keyType value text → SpellsKey keyType value' text' →
      text.length ≤ maxKeyExpressionLength → text'.length ≤ maxKeyExpressionLength →
      addressedKey env options parent setPath (keyRequest setPath text) =
        addressedKey env options parent setPath (keyRequest setPath text') → value = value' := by
  have hshort {value : Atom} {text : Text} (hspells : SpellsKey keyType value text)
      (hle : text.length ≤ maxKeyExpressionLength) :
      addressedKey env options parent setPath (keyRequest setPath text) =
        some (.ok (.atom value)) := by
    obtain ⟨literal, hliteral, hencodes, hshows⟩ := hspells
    obtain ⟨hne, hkey, hcoerce⟩ := normalizeLiteral_of_keyLiteral hreads hdeclares hliteral hencodes
    rw [addressedKey, routedKey_of_short hpath hencodes hne hshows hkey hle, Option.map_some,
      hcoerce]
  constructor
  · intro value text hspells
    refine ⟨fun haddressed => ?_, hshort hspells⟩
    obtain ⟨literal, -, hencodes, hshows⟩ := hspells
    by_contra hlong
    rw [addressedKey, routedKey_of_long hpath hencodes hshows (Nat.lt_of_not_le hlong)]
      at haddressed
    cases haddressed
  · intro value value' text text' hspells hspells' hle hle' heq
    rw [hshort hspells hle, hshort hspells' hle'] at heq
    injection heq with heq
    injection heq with heq
    injection heq

/-! ## Every key can be spelled -/

theorem topLevel_append {pre : Text} (hquote : '\'' ∉ pre) (rest : Text) :
    topLevel true (pre ++ rest) = topLevel true rest := by
  induction pre with
  | nil => rfl
  | cons c pre ih =>
    rw [List.mem_cons, not_or] at hquote
    obtain ⟨hc, hpre⟩ := hquote
    rw [List.cons_append, topLevel, if_neg (Ne.symm hc), if_pos rfl, ih hpre]
    exact fun _ _ heq => absurd heq.symm hc

theorem encodeURIComponent_append (s t : Text) :
    encodeURIComponent (s ++ t) = encodeURIComponent s ++ encodeURIComponent t := by
  rw [encodeURIComponent, utf8Bytes, List.flatMap_append, List.flatMap_append]
  rfl

theorem quote_not_mem_encodeURIComponent {c : Char} (hc : c ≠ '\'') :
    '\'' ∉ encodeURIComponent [c] := by
  have hcode (b : UInt8) : b = 0x27 ∨ '\'' ∉ encodeByte b := by
    apply forall_byte _ b
    decide +kernel
  intro hmem
  rw [encodeURIComponent, utf8Bytes_singleton] at hmem
  obtain ⟨b, hb, hmem⟩ := List.mem_flatMap.mp hmem
  rcases hcode b with rfl | hnot
  · exact quote_not_mem_utf8EncodeChar hc hb
  · exact hnot hmem

theorem topLevel_encodeURIComponent (s : Text) :
    topLevel true (encodeURIComponent (doubleQuotes s ++ ['\''])) = some [] := by
  induction s with
  | nil => rfl
  | cons c s ih =>
    rw [doubleQuotes, List.flatMap_cons, ← doubleQuotes, List.append_assoc,
      encodeURIComponent_append]
    by_cases hc : c = '\''
    · rw [if_pos hc]
      exact ih
    · rw [if_neg hc, topLevel_append (quote_not_mem_encodeURIComponent hc), ih]

theorem encodes_encodeURIComponent (literal : Text) :
    Encodes (encodeURIComponent literal) literal := by
  have hcode (b : UInt8) : ∀ c ∈ encodeByte b, isUrlChar c = true := by
    apply forall_byte _ b
    decide +kernel
  refine ⟨fun c hc => ?_, decodeURIComponent_encodeURIComponent literal⟩
  obtain ⟨b, -, hc⟩ := List.mem_flatMap.mp hc
  exact hcode b c hc

theorem spellsKey_string {s : Text} (h : s ≠ []) :
    SpellsKey .string (.str s) (encodeURIComponent (quote s)) := by
  have htop : topLevel false (encodeURIComponent (quote s)) = some [] :=
    topLevel_encodeURIComponent s
  exact ⟨quote s, ⟨h, rfl⟩, encodes_encodeURIComponent _, [], htop, List.not_mem_nil,
    List.not_mem_nil, List.not_mem_nil⟩

/-! ## Examples -/

def Environment.withIntegers : Environment :=
  { Environment.ascii with
    parseBigInt := fun text => if isInt64Text text then some (int64Value text) else none }

theorem readsIntegers_withIntegers : ReadsIntegers Environment.withIntegers :=
  fun _ h => if_pos h

def countryModel : ModelDefinition where
  setName := "Countries".toList
  idName := "code".toList
  properties := [("code".toList, stringKey)]
  names_nodup := by decide

def sampleOptions : RewriteOptions where
  namespaceName := some "Default".toList
  namespaceAlias := none
  operationNames := none

theorem isSetPath_countries : IsSetPath "/odata/Countries".toList :=
  ⟨by decide, 's', by decide, by decide⟩

theorem addressedKey_ivory :
    addressedKey Environment.withIntegers sampleOptions countryModel "/odata/Countries".toList
      (keyRequest "/odata/Countries".toList
        (encodeURIComponent (quote "Côte d'Ivoire (a=1, 50%/b)".toList))) =
      some (.ok (.atom (.str "Côte d'Ivoire (a=1, 50%/b)".toList))) :=
  ((@addressedKey_keyRequest _ readsIntegers_withIntegers sampleOptions countryModel _
    declares_stringKey _ isSetPath_countries).1 _ _ (spellsKey_string (by decide))).mpr
      (by decide +kernel)

/-- A key of more than 4096 characters is not rewritten. -/
theorem not_addressedKey_long :
    ¬ ∀ (env : Environment) (options : RewriteOptions) (parent : ModelDefinition)
      (keyType : KeyType) (setPath : Text) (value : Atom) (text literal : Text),
      ReadsIntegers env → keyType.Declares parent.idDefinition → IsSetPath setPath →
      IsKeyLiteral keyType value literal → Encodes text literal →
      addressedKey env options parent setPath (keyRequest setPath text) =
        some (.ok (.atom value)) := by
  intro h
  have hquote : '\'' ∉ List.replicate 4096 'a' := by
    rw [List.mem_replicate]
    exact fun hmem => absurd hmem.2 (by decide)
  have hquoted : quote (List.replicate 4096 'a') = '\'' :: (List.replicate 4096 'a' ++ ['\'']) := by
    rw [quote, doubleQuotes_of_no_quote hquote]
  have hchars : ∀ c ∈ quote (List.replicate 4096 'a'), isUrlChar c = true := by
    intro c hc
    rcases mem_quote hc with rfl | hc
    · decide
    · rw [(List.mem_replicate.mp hc).2]
      decide
  have hpercent : '%' ∉ quote (List.replicate 4096 'a') := by
    intro hmem
    rcases mem_quote hmem with hc | hc
    · cases hc
    · exact absurd (List.mem_replicate.mp hc).2 (by decide)
  have hshows : ShowsQuotes (quote (List.replicate 4096 'a')) := by
    have htop : topLevel false (quote (List.replicate 4096 'a')) = some [] := by
      rw [hquoted, topLevel, if_pos rfl, Bool.not_false, topLevel_append hquote]
      · rfl
      · exact fun _ hin => absurd hin Bool.false_ne_true
    exact ⟨[], htop, List.not_mem_nil, List.not_mem_nil, List.not_mem_nil⟩
  have hencodes : Encodes (quote (List.replicate 4096 'a')) (quote (List.replicate 4096 'a')) :=
    ⟨hchars, decodeURIComponent_of_no_percent hpercent⟩
  have hlong : maxKeyExpressionLength < (quote (List.replicate 4096 'a')).length := by
    rw [hquoted, List.length_cons, List.length_append, List.length_replicate]
    decide
  have hne : List.replicate 4096 'a' ≠ [] := by
    rw [ne_eq, List.replicate_eq_nil_iff]
    decide
  have haddressed := h Environment.withIntegers sampleOptions countryModel .string
    "/odata/Countries".toList (.str (List.replicate 4096 'a')) _ _ readsIntegers_withIntegers
    declares_stringKey isSetPath_countries ⟨hne, rfl⟩ hencodes
  rw [addressedKey, routedKey_of_long isSetPath_countries hencodes hshows hlong] at haddressed
  cases haddressed

end Routing

end LoopbackOData
