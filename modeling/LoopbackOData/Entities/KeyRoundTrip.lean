import LoopbackOData.Entities.KeyPaths
import LoopbackOData.Entities.Decimals

/-!
# Reading back the URL of an entity

For each type of keys, the key that a `$ref` request finds in the URL that was written for it.
-/

namespace LoopbackOData

set_option autoImplicit false

/-! ## The key of a reference -/

/-- Only the opening parenthesis behind the name of the set can be the one before the key. -/
theorem sublist_of_paren {before front key rest : Text} (hbefore : '(' ∉ before)
    (h : (front ++ '(' :: key).Sublist (before ++ '(' :: rest)) : key.Sublist rest := by
  have hkey : ('(' :: key).Sublist (before ++ '(' :: rest) :=
    (List.sublist_append_right front _).trans h
  clear h
  induction before with
  | nil => exact List.cons_sublist_cons.mp hkey
  | cons c before ih =>
    rw [List.mem_cons, not_or] at hbefore
    cases hkey with
    | cons _ hsub => exact ih hbefore.2 hsub
    | cons_cons => exact absurd rfl hbefore.1

section References

variable {env : Environment} {urls : UrlParser} {service : Service} {segments : List Text}
variable {definition : PropertyDefinition} (hlower : env.LowersAscii)
variable (hservice : service.IsPlain urls) (hrooted : service.IsRootedAt segments)
include hlower hservice hrooted

theorem referencedKey_of_closeKey {literal : Text}
    (hbreaks : ∀ c ∈ literal, service.breaks c = false)
    (hclose : closeKey false (literal ++ [')']) = .ok (literal, [])) :
    referencedKey env urls service definition
        (service.located segments (service.entitySegment literal)) =
      (parseKeyLiteral literal).bind (coerceTargetId env definition) := by
  have hparen : '(' ∉ service.setName := fun h =>
    ne_of_isPlainChar (hservice.setName _ h) (by decide) rfl
  have hdollar : service.setName.head? ≠ some '$' := fun h =>
    ne_of_isPlainChar (hservice.setName _ (List.mem_of_mem_head? h)) (by decide) rfl
  obtain ⟨entitySet, hsegment⟩ := @parseReferenceSegment_of_closeKey service
    (service.located segments (service.entitySegment literal)) _ _ hparen hservice.setName_ne
    hdollar hclose
  have hslash : '/' ∉ service.encode (service.entitySegment literal) := by
    have hentity : '/' ∉ service.entitySegment literal := by
      intro h
      have := not_breaks_entitySegment hservice.setName hbreaks _ h
      simp [Service.breaks, Service.separates] at this
    unfold Service.encode
    split
    · exact not_mem_encodePath (Or.inl rfl) fun _ => hentity
    · exact hentity
  have hparts : pathParts (withLeadingSlash
      ('/' :: service.encode (service.entitySegment literal))) =
        [service.encode (service.entitySegment literal)] := by
    have hne : service.encode (service.entitySegment literal) ≠ [] := by
      rw [ne_eq, encode_eq_nil]
      simp [Service.entitySegment]
    rw [pathParts_withLeadingSlash, pathParts_cons_slash, pathParts, List.splitOn,
      List.splitOnP_eq_singleton, List.filter_cons_of_pos (by simpa using hne), List.filter_nil]
    intro c hc
    rw [beq_eq_false_iff_ne]
    rintro rfl
    exact hslash hc
  have hreference : parseODataIdReference env urls service
      (service.located segments (service.entitySegment literal)) =
        .ok ⟨entitySet, service.encode literal⟩ := by
    unfold parseODataIdReference
    rw [normalizeReferencePath_of_not_breaks hlower hservice hrooted hbreaks]
    simp only [bind, Except.bind, hparts]
    exact hsegment
  unfold referencedKey
  rw [hreference]
  simp only [bind, Except.bind]
  rw [parseKeyLiteral_encode]

/-- The key that is read is made of what is left of the one that was written. -/
theorem referencedKey_eq_ok {literal : Text} {value : JsValue}
    (h : referencedKey env urls service definition
      (service.located segments (service.entitySegment literal)) = .ok value) :
    ∃ key read, key.Sublist (literal.filter fun c => !service.breaks c) ∧
      parseKeyLiteral key = .ok read ∧ coerceTargetId env definition read = .ok value := by
  have hparen : '(' ∉ service.setName := fun h =>
    ne_of_isPlainChar (hservice.setName _ h) (by decide) rfl
  unfold referencedKey at h
  cases hparsed : parseODataIdReference env urls service
      (service.located segments (service.entitySegment literal)) with
  | error e =>
    rw [hparsed] at h
    cases h
  | ok parsed =>
    rw [hparsed] at h
    simp only [bind, Except.bind] at h
    unfold parseODataIdReference at hparsed
    cases hpath : normalizeReferencePath env urls service
        (service.located segments (service.entitySegment literal)) with
    | error e =>
      rw [hpath] at hparsed
      cases hparsed
    | ok path =>
      rw [hpath] at hparsed
      simp only [bind, Except.bind] at hparsed
      split at hparsed
      · next segment hparts =>
        have hmem : segment ∈ pathParts path := by
          rw [← pathParts_withLeadingSlash, hparts]
          exact List.mem_singleton_self segment
        rcases parts_of_normalizeReferencePath hlower hservice hrooted hpath segment hmem with
          hplain | ⟨piece, hpiece, rfl⟩
        · exfalso
          have hencode : segment = service.encode segment := by
            unfold Service.encode
            split
            · rw [encodePath_of_plain hplain.chars]
            · rfl
          rw [hencode] at hparsed
          obtain ⟨front, key, _, heq, _⟩ := parseReferenceSegment_eq_ok hparsed
          refine ne_of_isPlainChar (hplain.chars '(' ?_) (by decide) rfl
          simp [heq]
        · obtain ⟨front, key, _, rfl, hkey⟩ := parseReferenceSegment_eq_ok hparsed
          have hsub := piece_sublist hpiece
          have hbreaks : service.breaks '(' = false ∧ service.breaks ')' = false := by
            simp [Service.breaks, Service.removes, endsPath, Service.separates]
          rw [Service.entitySegment, List.filter_append,
            List.filter_cons_of_pos (by simp [hbreaks]), List.filter_append,
            List.filter_cons_of_pos (by simp [hbreaks]), List.filter_nil] at hsub
          have hset : '(' ∉ service.setName.filter fun c => !service.breaks c :=
            fun hmem => hparen (List.mem_of_mem_filter hmem)
          have hkeySub := sublist_of_paren hset hsub
          rw [List.append_sublist_append_right] at hkeySub
          rw [hkey, parseKeyLiteral_encode] at h
          cases hread : parseKeyLiteral key with
          | error e =>
            rw [hread] at h
            cases h
          | ok read =>
            rw [hread] at h
            exact ⟨key, read, hkeySub, hread, h⟩
      · cases hparsed

end References

/-! ## Reading literals -/

theorem decodeURIComponent_of_no_percent {s : Text} (h : '%' ∉ s) :
    decodeURIComponent s = some s := by
  have hbytes : percentBytes s = some (utf8Bytes s) := by
    induction s with
    | nil => rfl
    | cons c s ih =>
      rw [List.mem_cons, not_or] at h
      rw [percentBytes_cons (Ne.symm h.1), ih h.2]
      rfl
  rw [decodeURIComponent, hbytes, Option.bind_some, utf8Text_utf8Bytes]

/-- The characters of numbers, dates and durations. -/
def isLiteralChar (c : Char) : Bool := isPlainChar c || c = '+' || c = ':'

theorem ne_of_isLiteralChar {c d : Char} (hc : isLiteralChar c = true)
    (hd : isLiteralChar d = false) : c ≠ d := by
  rintro rfl
  rw [hc] at hd
  cases hd

theorem isLiteralChar_of_isNumberChar {c : Char} (hc : isNumberChar c = true) :
    isLiteralChar c = true := by
  have hall : ∀ c ∈ "0123456789-+.eE".toList, isLiteralChar c = true := by decide
  exact hall c (mem_numberChars hc)

theorem breaks_of_isLiteralChar {service : Service} {c : Char} (hc : isLiteralChar c = true) :
    service.breaks c = false := by
  have hne (d : Char) (hd : isLiteralChar d = false) : c ≠ d := ne_of_isLiteralChar hc hd
  have h1 := hne '\t' (by decide)
  have h2 := hne '\n' (by decide)
  have h3 := hne '\r' (by decide)
  have h4 := hne '?' (by decide)
  have h5 := hne '#' (by decide)
  have h6 := hne '/' (by decide)
  have h7 := hne '\\' (by decide)
  simp [Service.breaks, Service.removes, endsPath, Service.separates, h1, h2, h3, h4, h5, h6, h7]

theorem toNat_of_isLiteralChar {c : Char} (hc : isLiteralChar c = true) : c.toNat < 128 := by
  simp only [isLiteralChar, Bool.or_eq_true, decide_eq_true_eq] at hc
  rcases hc with (hc | rfl) | rfl
  · exact toNat_of_isPlainChar hc
  · decide
  · decide

theorem isSpace_of_isLiteralChar {c : Char} (hc : isLiteralChar c = true) : isSpace c = false := by
  have h := forall_ascii (fun c => !isLiteralChar c || !isSpace c) (by decide +kernel)
    (toNat_of_isLiteralChar hc)
  simpa [hc] using h

theorem toLower_ne_quote {c : Char} (hc : isLiteralChar c = true) : c.toLower ≠ '\'' := by
  have h := forall_ascii (fun c => !isLiteralChar c || c.toLower != '\'') (by decide +kernel)
    (toNat_of_isLiteralChar hc)
  simpa [hc] using h

section Literals

variable {literal : Text} (hchars : ∀ c ∈ literal, isLiteralChar c = true)
include hchars

theorem plain_of_literal : '\'' ∉ literal ∧ ')' ∉ literal ∧ '%' ∉ literal ∧
    isQuoted literal = false ∧ startsWithGuid literal = false := by
  have hnot (d : Char) (hd : isLiteralChar d = false) : d ∉ literal :=
    fun h => ne_of_isLiteralChar (hchars d h) hd rfl
  refine ⟨hnot _ (by decide), hnot _ (by decide), hnot _ (by decide), ?_, ?_⟩
  · rw [Bool.eq_false_iff]
    intro h
    rw [isQuoted, Bool.and_eq_true, startsWith, List.isPrefixOf_iff_prefix] at h
    exact hnot '\'' (by decide) (h.1.subset List.mem_cons_self)
  · rw [Bool.eq_false_iff]
    intro h
    rw [startsWithGuid, startsWith, List.isPrefixOf_iff_prefix] at h
    have hmem : '\'' ∈ asciiLower literal := h.subset (by decide)
    rw [asciiLower, List.mem_map] at hmem
    obtain ⟨c, hc, hlower⟩ := hmem
    exact toLower_ne_quote (hchars c hc) hlower

theorem closeKey_of_literal : closeKey false (literal ++ [')']) = .ok (literal, []) := by
  obtain ⟨hquote, hparen, _⟩ := plain_of_literal hchars
  rw [closeKey_append hquote hparen]
  simp [closeKey, Except.map]

theorem parseKeyLiteral_of_literal : parseKeyLiteral literal = .ok literal := by
  obtain ⟨_, _, hpercent, hquoted, hguid⟩ := plain_of_literal hchars
  have htrim : trimText literal = literal :=
    trimText_eq fun c hc => isSpace_of_isLiteralChar (hchars c hc)
  have hstrip : stripGuid literal = literal := by
    rw [stripGuid, hguid]
    rfl
  rw [parseKeyLiteral, decodeURIComponent_of_no_percent hpercent]
  dsimp only
  rw [htrim, hstrip, hquoted]
  rfl

theorem parseKeyLiteral_guid :
    parseKeyLiteral ("guid'".toList ++ literal ++ ['\'']) = .ok literal := by
  obtain ⟨_, _, hpercent, hquoted, _⟩ := plain_of_literal hchars
  have hpercent' : '%' ∉ "guid'".toList ++ literal ++ ['\''] := by
    simp [hpercent]
  have htrim : trimText ("guid'".toList ++ literal ++ ['\'']) =
      "guid'".toList ++ literal ++ ['\''] := by
    apply trimText_of_ends
    · rintro c hc
      cases hc
      decide
    · rw [List.getLast?_concat]
      rintro c hc
      cases hc
      decide
  have hstrip : stripGuid ("guid'".toList ++ literal ++ ['\'']) = literal := by
    have hguid : startsWithGuid ("guid'".toList ++ literal ++ ['\'']) = true := by
      rw [startsWithGuid, asciiLower, List.append_assoc, List.map_append]
      exact startsWith_append _ _
    have hend : endsWith (literal ++ ['\'']) ['\''] = true := by
      simp [endsWith]
    have hdrop : ("guid'".toList ++ literal ++ ['\'']).drop 5 = literal ++ ['\''] := rfl
    rw [stripGuid, hguid, if_pos rfl, hdrop]
    dsimp only
    rw [hend, if_pos rfl, List.dropLast_concat]
  rw [parseKeyLiteral, decodeURIComponent_of_no_percent hpercent']
  dsimp only
  rw [htrim, hstrip, hquoted]
  rfl

end Literals

theorem closeKey_string (s rest : Text) :
    closeKey true (doubleQuotes s ++ '\'' :: ')' :: rest) =
      .ok (doubleQuotes s ++ ['\''], rest) := by
  induction s with
  | nil =>
    rw [doubleQuotes, List.flatMap_nil, List.nil_append, closeKey_quote (by simp), closeKey,
      if_pos rfl]
    rfl
  | cons c s ih =>
    rw [doubleQuotes, List.flatMap_cons, ← doubleQuotes]
    by_cases hc : c = '\''
    · rw [if_pos hc]
      simp only [List.cons_append, List.nil_append]
      rw [closeKey, ih]
      rfl
    · rw [if_neg hc, List.cons_append, List.nil_append, List.cons_append, closeKey]
      · simp only [ne_eq, hc, not_false_eq_true, decide_true]
        rw [ih]
        rfl
      · exact fun _ h _ => hc h

theorem closeKey_quoted (s : Text) : closeKey false (quote s ++ [')']) = .ok (quote s, []) := by
  have hstring := closeKey_string s []
  rw [quote, List.cons_append, List.append_assoc, closeKey, if_neg (by decide)]
  simp only [decide_true, List.cons_append, List.nil_append]
  rw [hstring]
  rfl

/-- The ends of a quoted text, behind the name of its type, are no spaces. -/
theorem trimText_quoted {kind : Text} (hkind : ∀ c ∈ kind, isLiteralChar c = true) (s : Text) :
    trimText (kind ++ quote s) = kind ++ quote s := by
  apply trimText_of_ends
  · intro c hc
    cases kind with
    | nil =>
      cases hc
      decide
    | cons d kind =>
      obtain rfl : d = c := by simpa using hc
      exact isSpace_of_isLiteralChar (hkind d List.mem_cons_self)
  · have hlast : kind ++ quote s = (kind ++ '\'' :: doubleQuotes s) ++ ['\''] := by
      simp [quote]
    rw [hlast, List.getLast?_concat]
    rintro c hc
    cases hc
    decide

theorem mem_doubleQuotes {c : Char} {s : Text} (h : c ∈ doubleQuotes s) : c ∈ s := by
  rw [doubleQuotes, List.mem_flatMap] at h
  obtain ⟨d, hd, hc⟩ := h
  split at hc
  · next heq =>
    have : c = '\'' := by simpa using hc
    rw [this, ← heq]
    exact hd
  · rw [List.mem_singleton] at hc
    rwa [hc]

theorem doubleQuotes_of_no_quote {s : Text} (h : '\'' ∉ s) : doubleQuotes s = s := by
  induction s with
  | nil => rfl
  | cons c s ih =>
    rw [List.mem_cons, not_or] at h
    rw [doubleQuotes, List.flatMap_cons, if_neg (Ne.symm h.1), ← doubleQuotes, ih h.2]
    rfl

theorem mem_quote {c : Char} {s : Text} (h : c ∈ quote s) : c = '\'' ∨ c ∈ s := by
  simp only [quote, List.mem_cons, List.mem_append, List.not_mem_nil, or_false] at h
  rcases h with h | h | h
  · exact Or.inl h
  · exact Or.inr (mem_doubleQuotes h)
  · exact Or.inl h

theorem parseKeyLiteral_quote {s : Text} (h : '%' ∉ s) : parseKeyLiteral (quote s) = .ok s := by
  have hpercent : '%' ∉ quote s := by
    intro hmem
    rcases mem_quote hmem with hc | hc
    · cases hc
    · exact h hc
  have htrim := @trimText_quoted [] (by simp) s
  rw [List.nil_append] at htrim
  have hstrip : stripGuid (quote s) = quote s := by
    have hguid : startsWithGuid (quote s) = false := rfl
    rw [stripGuid, hguid]
    rfl
  rw [parseKeyLiteral, decodeURIComponent_of_no_percent hpercent]
  dsimp only
  rw [htrim, hstrip, isQuoted_quote, if_pos rfl, unquote_quote]

/-- The names of the types that literals of dates and times have in front. -/
def temporalKinds : List Text :=
  ["datetimeoffset".toList, "date".toList, "timeofday".toList, "duration".toList]

theorem parseKeyLiteral_temporal {kind literal : Text} (hkind : kind ∈ temporalKinds)
    (hchars : ∀ c ∈ literal, isLiteralChar c = true) :
    parseKeyLiteral (kind ++ quote literal) = .ok (kind ++ quote literal) ∧
      closeKey false ((kind ++ quote literal) ++ [')']) = .ok (kind ++ quote literal, []) := by
  have hfacts : (∀ c ∈ kind, isLiteralChar c = true) ∧ '%' ∉ kind ∧ '\'' ∉ kind ∧ ')' ∉ kind ∧
      ∃ c rest, kind = c :: rest ∧ c ≠ '\'' ∧ c.toLower ≠ 'g' := by
    simp only [temporalKinds, List.mem_cons, List.not_mem_nil, or_false] at hkind
    rcases hkind with rfl | rfl | rfl | rfl
    all_goals exact ⟨by decide, by decide, by decide, by decide, _, _, rfl, by decide, by decide⟩
  obtain ⟨hkindChars, hpercent, hquote, hparen, c, rest, rfl, hc, hg⟩ := hfacts
  have hpercent' : '%' ∉ c :: rest ++ quote literal := by
    rw [List.mem_append, not_or]
    refine ⟨hpercent, fun hmem => ?_⟩
    rcases mem_quote hmem with h | h
    · cases h
    · exact (plain_of_literal hchars).2.2.1 h
  have hguid : startsWithGuid (c :: rest ++ quote literal) = false := by
    rw [startsWithGuid, asciiLower, List.cons_append, List.map_cons, startsWith]
    simp [List.isPrefixOf, Ne.symm hg]
  have hquoted : isQuoted (c :: rest ++ quote literal) = false := by
    rw [isQuoted, startsWith, List.cons_append]
    simp [List.isPrefixOf, Ne.symm hc]
  have hstrip : stripGuid (c :: rest ++ quote literal) = c :: rest ++ quote literal := by
    rw [stripGuid, hguid]
    rfl
  constructor
  · rw [parseKeyLiteral, decodeURIComponent_of_no_percent hpercent']
    dsimp only
    rw [trimText_quoted hkindChars, hstrip, hquoted]
    rfl
  · rw [List.append_assoc, closeKey_append hquote hparen, closeKey_quoted]
    rfl

/-! ## Types of keys -/

/-- The types of keys, with the ways to keep their values. -/
inductive KeyType where
  | string | number | boolean | bigint | int64Text | int64Number | decimalText | decimalNumber
  | guid | date | dateTime | time | duration
  deriving DecidableEq, Repr

def KeyType.kind : KeyType → Option PropertyKind
  | .bigint | .int64Text | .int64Number => some .int64
  | .decimalText | .decimalNumber => some .decimal
  | .date => some .date
  | .dateTime => some .datetimeoffset
  | .time => some .timeOfDay
  | .duration => some .duration
  | _ => none

/-- What the literal of a key is coerced to. -/
def KeyType.coercion : KeyType → Option PrimitiveType
  | .number | .int64Number | .decimalNumber => some .number
  | .boolean => some .boolean
  | .bigint | .int64Text => some .bigint
  | _ => none

/-- What the controller sees in the definition of a key of this type. -/
structure KeyType.Declares (keyType : KeyType) (definition : PropertyDefinition) : Prop where
  kind : (classifyProperty definition).map PropertyNormalizationPlan.kind = keyType.kind
  coercion : detectPrimitivePropertyType definition.toItemDefinition = keyType.coercion
  guid : keyType.kind = none →
    isGuidProperty definition.toItemDefinition = decide (keyType = .guid)
  primitive : keyType.kind = none → keyType ≠ .guid →
    classifyPrimitiveProperty definition.toItemDefinition = keyType.coercion
  keepsText : keyType.coercion = some .bigint →
    propertyDeclaresString definition.toItemDefinition = decide (keyType = .int64Text)

section Values

variable (env : Environment)

/-- The runtime writes a finite number as one that can be read. -/
def SpellsNumber (q : Rat) : Prop :=
  isFiniteNumber q = true ∧ ∃ d, SpellsDecimal (env.rt.numberToString q) d ∧ d.value = q

/-- A value has a form with the characters of dates and times, which no quotes are taken from. -/
def HasTemporalForm (value : Atom) (normalized : JsValue) : Prop :=
  (∀ s, value = .str s → '\'' ∉ s) ∧
    ∃ literal, normalized = .atom (.str literal) ∧ literal ≠ [] ∧
      ∀ c ∈ literal, isLiteralChar c = true

/-- The values of a type, as far as the runtime has them. -/
def KeyType.Holds (keyType : KeyType) (value : Atom) : Prop :=
  match keyType, value with
  | .string, .str _ => True
  | .number, .num q => SpellsNumber env q
  | .boolean, .bool _ => True
  | .bigint, .bigint i => ReadsBack env.parseBigInt (env.bigintToString i) i ∧
      ∀ c ∈ env.bigintToString i, isNumberChar c = true
  | .int64Text, .str s => isInt64Text s = true ∧ (env.parseBigInt s).isSome
  | .int64Number, .num q => q.den = 1 ∧ SpellsNumber env q
  | .decimalText, .str s => (normalizeDecimalString env.maxDecimalExponentAbs s).isSome
  | .decimalNumber, .num q => SpellsNumber env q
  | .guid, .str s => s ≠ [] ∧ ∀ c ∈ s, c.isAlphanum ∨ c = '-'
  | .date, _ => HasTemporalForm value (normalizeDateValue env (.atom value))
  | .dateTime, _ => HasTemporalForm value (normalizeDateTimeOffsetValue env (.atom value))
  | .time, _ => HasTemporalForm value (normalizeTimeOfDayValue (.atom value))
  | .duration, _ => HasTemporalForm value (normalizeDurationValue (.atom value))
  | _, _ => False

/-- The keys that their URL leads back to. -/
def KeyType.KeepsKey (service : Service) (keyType : KeyType) (value : Atom) : Prop :=
  match keyType, value with
  | .string, .str s => ∀ c ∈ s, service.breaks c = false ∧ c ≠ '%'
  | .decimalText, .str s => IsNormalDecimal s
  | .guid, .str s => asciiLower s = s
  | .date, _ | .dateTime, _ | .time, _ | .duration, _ => False
  | _, _ => True

end Values

/-! ## Which keys come back -/

theorem textWeight_filter {p : Char → Bool} {c : Char} {s : Text} (hmem : c ∈ s)
    (hp : p c = false) (hc : c ≠ '\'') : textWeight (s.filter p) < textWeight s := by
  induction s with
  | nil => cases hmem
  | cons d s ih =>
    have hle : textWeight (s.filter p) ≤ textWeight s :=
      textWeight_le_of_sublist List.filter_sublist
    have hpos := charWeight_pos hc
    rcases List.mem_cons.mp hmem with rfl | hmem
    · rw [List.filter_cons_of_neg (by simp [hp]), textWeight_cons]
      omega
    · have hlt := ih hmem
      by_cases hd : p d = true
      · rw [List.filter_cons_of_pos hd, textWeight_cons, textWeight_cons]
        omega
      · rw [List.filter_cons_of_neg hd, textWeight_cons]
        omega

theorem textWeight_quote (s : Text) : textWeight (quote s) = textWeight s := by
  rw [quote, textWeight_cons, textWeight_append, textWeight_doubleQuotes]
  simp [charWeight]

section Keys

variable {env : Environment} {urls : UrlParser} {service : Service} {segments : List Text}
variable {definition : PropertyDefinition}

theorem isNumberChar_numberToString {q : Rat} (h : SpellsNumber env q) :
    env.rt.numberToString q ≠ [] ∧ ∀ c ∈ env.rt.numberToString q, isNumberChar c = true := by
  obtain ⟨_, d, hspells, _⟩ := h
  exact ⟨hspells.ne_nil, hspells.all_numberChar⟩

theorem numberOfText_of_spells {t : Text} {d : DecimalText} {q : Rat} (h : SpellsDecimal t d)
    (hvalue : d.value = q) (hfinite : isFiniteNumber q = true) :
    numberOfText t = some (.atom (.num q)) := by
  subst hvalue
  rw [numberOfText, finiteNumber_of_spells h hfinite]

variable (hlower : env.LowersAscii) (hservice : service.IsPlain urls)
variable (hrooted : service.IsRootedAt segments)

include hrooted in
theorem leadsBack_iff {value : Atom} {literal : Text}
    (hserialize : serializeKeyLiteralValue env value definition = some literal) :
    (∃ url, buildEntityLocationUrl env service value definition = some url ∧
        referencedKey env urls service definition url = .ok (.atom value)) ↔
      referencedKey env urls service definition
        (service.located segments (service.entitySegment literal)) = .ok (.atom value) := by
  rw [buildEntityLocationUrl_eq hrooted, hserialize]
  simp

include hlower hservice hrooted

theorem referencedKey_of_literal {literal : Text}
    (hchars : ∀ c ∈ literal, isLiteralChar c = true) :
    referencedKey env urls service definition
        (service.located segments (service.entitySegment literal)) =
      coerceTargetId env definition literal := by
  rw [referencedKey_of_closeKey hlower hservice hrooted
    (fun c hc => breaks_of_isLiteralChar (hchars c hc)) (closeKey_of_literal hchars),
    parseKeyLiteral_of_literal hchars]
  rfl

theorem referencedKey_string
    (hcoercion : detectPrimitivePropertyType definition.toItemDefinition = none) (s : Text) :
    referencedKey env urls service definition
        (service.located segments (service.entitySegment (quote s))) = .ok (.atom (.str s)) ↔
      KeyType.string.KeepsKey service (.str s) := by
  have hcoerce (t : Text) : coerceTargetId env definition t = .ok (.atom (.str t)) := by
    rw [coerceTargetId, coerceIdentifierLiteral, hcoercion]
  constructor
  · intro h
    obtain ⟨key, read, hsub, hread, hvalue⟩ := referencedKey_eq_ok hlower hservice hrooted h
    rw [hcoerce] at hvalue
    obtain rfl : read = s := by
      injection hvalue with hvalue
      injection hvalue with hvalue
      injection hvalue
    obtain ⟨hle, hlt⟩ := textWeight_parseKeyLiteral hread
    have hkey := textWeight_le_of_sublist hsub
    have hquote := textWeight_quote read
    have hfilter : textWeight ((quote read).filter fun c => !service.breaks c) ≤
        textWeight (quote read) := textWeight_le_of_sublist List.filter_sublist
    have hmem {c : Char} (hc : c ∈ read) : c ∈ quote read := by
      have hdouble : c ∈ doubleQuotes read := by
        rw [doubleQuotes, List.mem_flatMap]
        refine ⟨c, hc, ?_⟩
        split <;> simp [*]
      simp [quote, hdouble]
    intro c hc
    have hkeeps : service.breaks c = false := by
      by_contra hbreaks
      rw [Bool.not_eq_false] at hbreaks
      have hne : c ≠ '\'' := by
        rintro rfl
        simp [Service.breaks, Service.removes, endsPath, Service.separates] at hbreaks
      have := textWeight_filter (p := fun c => !service.breaks c) (hmem hc) (by simp [hbreaks]) hne
      omega
    refine ⟨hkeeps, ?_⟩
    rintro rfl
    by_cases hpercent : '%' ∈ key
    · have := hlt hpercent
      omega
    · have hrest := hsub.filter (· ≠ '%')
      rw [List.filter_eq_self.mpr fun c hc => by
        rw [decide_eq_true_eq]
        rintro rfl
        exact hpercent hc] at hrest
      have hmem' : '%' ∈ (quote read).filter fun c => !service.breaks c :=
        List.mem_filter.mpr ⟨hmem hc, by simp [hkeeps]⟩
      have := textWeight_filter (p := (· ≠ '%')) hmem' (by decide) (by decide)
      have := textWeight_le_of_sublist hrest
      omega
  · intro h
    have hbreaks : ∀ c ∈ quote s, service.breaks c = false := by
      intro c hc
      rcases mem_quote hc with rfl | hc
      · simp [Service.breaks, Service.removes, endsPath, Service.separates]
      · exact (h c hc).1
    rw [referencedKey_of_closeKey hlower hservice hrooted hbreaks (closeKey_quoted s),
      parseKeyLiteral_quote fun hmem => (h _ hmem).2 rfl]
    exact hcoerce s

theorem referencedKey_temporal
    (hcoercion : detectPrimitivePropertyType definition.toItemDefinition = none)
    {kind literal : Text} (hkind : kind ∈ temporalKinds)
    (hchars : ∀ c ∈ literal, isLiteralChar c = true) {value : Atom}
    (hvalue : ∀ s, value = .str s → '\'' ∉ s) :
    referencedKey env urls service definition
      (service.located segments (service.entitySegment (kind ++ quote literal))) ≠
        .ok (.atom value) := by
  obtain ⟨hparse, hclose⟩ := parseKeyLiteral_temporal hkind hchars
  have hkindChars : ∀ c ∈ kind, isLiteralChar c = true := by
    simp only [temporalKinds, List.mem_cons, List.not_mem_nil, or_false] at hkind
    rcases hkind with rfl | rfl | rfl | rfl <;> decide
  have hbreaks : ∀ c ∈ kind ++ quote literal, service.breaks c = false := by
    intro c hc
    rcases List.mem_append.mp hc with hc | hc
    · exact breaks_of_isLiteralChar (hkindChars c hc)
    · rcases mem_quote hc with rfl | hc
      · simp [Service.breaks, Service.removes, endsPath, Service.separates]
      · exact breaks_of_isLiteralChar (hchars c hc)
  rw [referencedKey_of_closeKey hlower hservice hrooted hbreaks hclose, hparse]
  have hcoerce : coerceTargetId env definition (kind ++ quote literal) =
      .ok (.atom (.str (kind ++ quote literal))) := by
    rw [coerceTargetId, coerceIdentifierLiteral, hcoercion]
  intro h
  rw [Except.bind, hcoerce] at h
  injection h with h
  injection h with h
  exact hvalue _ h.symm (by simp [quote])

theorem referencedKey_guid
    (hcoercion : detectPrimitivePropertyType definition.toItemDefinition = none) {s : Text}
    (hchars : ∀ c ∈ s, isLiteralChar c = true) :
    referencedKey env urls service definition (service.located segments
        (service.entitySegment ("guid'".toList ++ s ++ ['\'']))) = .ok (.atom (.str s)) := by
  obtain ⟨hquote, hparen, _⟩ := plain_of_literal hchars
  have hbreaks : ∀ c ∈ "guid'".toList ++ s ++ ['\''], service.breaks c = false := by
    intro c hc
    simp only [List.mem_append, List.mem_singleton] at hc
    rcases hc with (hc | hc) | rfl
    · simp only [String.reduceToList, List.mem_cons, List.not_mem_nil, or_false] at hc
      rcases hc with rfl | rfl | rfl | rfl | rfl <;>
        simp [Service.breaks, Service.removes, endsPath, Service.separates]
    · exact breaks_of_isLiteralChar (hchars c hc)
    · simp [Service.breaks, Service.removes, endsPath, Service.separates]
  have hclose : closeKey false (("guid'".toList ++ s ++ ['\'']) ++ [')']) =
      .ok ("guid'".toList ++ s ++ ['\''], []) := by
    have hplain : doubleQuotes s = s := doubleQuotes_of_no_quote hquote
    have hquoted := closeKey_quoted s
    rw [quote, hplain] at hquoted
    have hstarts : ("guid'".toList ++ s ++ ['\'']) ++ [')'] =
        "guid".toList ++ ('\'' :: (s ++ ['\'']) ++ [')']) := by simp
    rw [hstarts, closeKey_append (by decide) (by decide), hquoted]
    simp [Except.map]
  rw [referencedKey_of_closeKey hlower hservice hrooted hbreaks hclose,
    parseKeyLiteral_guid hchars]
  rw [Except.bind, coerceTargetId, coerceIdentifierLiteral, hcoercion]

end Keys

section Results

variable {env : Environment} {urls : UrlParser} {service : Service}
variable {definition : PropertyDefinition} {keyType : KeyType} {value : Atom}

theorem coerceTargetId_of_text (hcoercion :
    detectPrimitivePropertyType definition.toItemDefinition = none) (literal : Text) :
    coerceTargetId env definition literal = .ok (.atom (.str literal)) := by
  rw [coerceTargetId, coerceIdentifierLiteral, hcoercion]

theorem coerceTargetId_of_number {literal : Text} {d : DecimalText} {q : Rat}
    (hcoercion : detectPrimitivePropertyType definition.toItemDefinition = some .number)
    (hspells : SpellsDecimal literal d) (hvalue : d.value = q) (hfinite : isFiniteNumber q = true) :
    coerceTargetId env definition literal = .ok (.atom (.num q)) := by
  rw [coerceTargetId, coerceIdentifierLiteral, hcoercion]
  dsimp only
  rw [numberOfText_of_spells hspells hvalue hfinite]

/-- A literal of a primitive type is written as the type says. -/
theorem serializeKeyLiteralValue_of_kind_none (hdeclares : keyType.Declares definition)
    (hkind : keyType.kind = none) (hguid : keyType ≠ .guid) :
    serializeKeyLiteralValue env value definition =
      match keyType.coercion with
      | some .boolean => match value with
        | .bool b => some (if b then "true".toList else "false".toList)
        | .str s =>
          let normalized := asciiLower (trimText s)
          if normalized = "true".toList ∨ normalized = "false".toList then some normalized else none
        | _ => none
      | some .number => match value with
        | .num q => some (env.rt.numberToString q)
        | .bigint i => some (env.bigintToString i)
        | .str s => if trimText s = [] then none else some (trimText s)
        | _ => none
      | _ => some (quote (atomText env value)) := by
  unfold serializeKeyLiteralValue
  rw [hdeclares.kind, hkind]
  dsimp only
  rw [hdeclares.guid hkind, hdeclares.primitive hkind hguid, if_neg (by simpa using hguid)]
  rfl

theorem normalizeGuidLiteralValue_eq (hlower : env.LowersAscii) {s : Text} (hne : s ≠ [])
    (hchars : ∀ c ∈ s, c.isAlphanum ∨ c = '-') :
    normalizeGuidLiteralValue env (.str s) = some (asciiLower s) ∧
      ∀ c ∈ asciiLower s, isLiteralChar c = true := by
  have hliteral : ∀ c ∈ s, isLiteralChar c = true := by
    intro c hc
    rcases hchars c hc with hc | rfl
    · simp [isLiteralChar, isPlainChar, hc]
    · decide
  obtain ⟨_, _, _, _, hguid⟩ := plain_of_literal hliteral
  have htrim : trimText s = s := trimText_eq fun c hc => isSpace_of_isLiteralChar (hliteral c hc)
  have hstrip : stripGuid s = s := by
    rw [stripGuid, hguid]
    rfl
  have hbrace : startsWith s ['\x7b'] = false := by
    rw [Bool.eq_false_iff]
    intro h
    rw [startsWith, List.isPrefixOf_iff_prefix] at h
    exact ne_of_isLiteralChar (hliteral _ (h.subset List.mem_cons_self)) (by decide) rfl
  constructor
  · unfold normalizeGuidLiteralValue
    simp only [atomText, htrim, hstrip, hbrace, hne]
    simp [toLowerCase_of_ascii hlower fun c hc => toNat_of_isLiteralChar (hliteral c hc), hne]
  · intro c hc
    rw [asciiLower, List.mem_map] at hc
    obtain ⟨d, hd, rfl⟩ := hc
    have h := forall_ascii (fun c => !isLiteralChar c || isLiteralChar c.toLower)
      (by decide +kernel) (toNat_of_isLiteralChar (hliteral d hd))
    simpa [hliteral d hd] using h

theorem isInt64Text_chars {s : Text} (h : isInt64Text s = true) :
    s ≠ [] ∧ ∀ c ∈ s, isNumberChar c = true := by
  unfold isInt64Text at h
  dsimp only at h
  rw [Bool.and_eq_true, decide_eq_true_eq, List.all_eq_true] at h
  refine ⟨?_, fun c hc => ?_⟩
  · rintro rfl
    exact h.1 rfl
  · split at h
    · next hsign =>
      rw [startsWith, List.isPrefixOf_iff_prefix] at hsign
      obtain ⟨rest, rfl⟩ := hsign
      rcases List.mem_cons.mp hc with rfl | hc
      · decide
      · exact isNumberChar_of_isDigit (h.2 c hc)
    · exact isNumberChar_of_isDigit (h.2 c hc)

theorem typedLiteral_eq {kind literal : Text} (hne : literal ≠ [])
    (hchars : ∀ c ∈ literal, isLiteralChar c = true) :
    typedLiteral kind (.atom (.str literal)) = some (kind ++ quote literal) ∧
      nonemptyTypedLiteral kind (.atom (.str literal)) = some (kind ++ quote literal) := by
  have hquote : kind ++ '\'' :: (literal ++ ['\'']) = kind ++ quote literal := by
    rw [quote, doubleQuotes_of_no_quote (plain_of_literal hchars).1]
  constructor
  · rw [typedLiteral, hquote]
  · rw [nonemptyTypedLiteral, typedLiteral, hquote]
    rintro ⟨⟩
    exact hne rfl

variable (hlower : env.LowersAscii) (hservice : service.IsPlain urls)
include hlower hservice

/-- A key with a plain literal comes back when the literal is coerced to it. -/
theorem leadsBack_of_literal {literal : Text} {read : Atom}
    (hserialize : serializeKeyLiteralValue env value definition = some literal)
    (hchars : ∀ c ∈ literal, isLiteralChar c = true)
    (hcoerce : coerceTargetId env definition literal = .ok (.atom read)) :
    (∃ url, buildEntityLocationUrl env service value definition = some url ∧
        referencedKey env urls service definition url = .ok (.atom value)) ↔ read = value := by
  obtain ⟨segments, hrooted⟩ := hservice.rooted
  rw [leadsBack_iff hrooted hserialize, referencedKey_of_literal hlower hservice hrooted hchars,
    hcoerce]
  simp

theorem not_leadsBack_of_temporal {name literal : Text}
    (hcoercion : detectPrimitivePropertyType definition.toItemDefinition = none)
    (hname : name ∈ temporalKinds) (hchars : ∀ c ∈ literal, isLiteralChar c = true)
    (hquote : ∀ s, value = .str s → '\'' ∉ s)
    (hserialize : serializeKeyLiteralValue env value definition = some (name ++ quote literal)) :
    ¬ ∃ url, buildEntityLocationUrl env service value definition = some url ∧
        referencedKey env urls service definition url = .ok (.atom value) := by
  obtain ⟨segments, hrooted⟩ := hservice.rooted
  rw [leadsBack_iff hrooted hserialize]
  exact referencedKey_temporal hlower hservice hrooted hcoercion hname hchars hquote

end Results

/-! ## A service -/

/-- Reads the URLs of one host. -/
def UrlParser.ofHost (host : Text) : UrlParser where
  parse text _ := [Scheme.https, Scheme.http].findSome? fun scheme =>
    let origin := scheme.text ++ "://".toList ++ host
    if startsWith text (origin ++ ['/']) then
      some ⟨origin, urlPathname (text.drop origin.length)⟩
    else none
  keepsHost _ name := name = host
  parse_absolute := by
    intro scheme name path base hname hpath _
    obtain rfl : name = host := by simpa using hname
    obtain ⟨rest, rfl⟩ : ∃ rest, path = '/' :: rest := by
      cases path with
      | nil => cases hpath
      | cons c rest =>
        cases hpath
        exact ⟨rest, rfl⟩
    have hstart : startsWith (scheme.text ++ "://".toList ++ name ++ '/' :: rest)
        (scheme.text ++ "://".toList ++ name ++ ['/']) = true := by
      have := startsWith_append (scheme.text ++ "://".toList ++ name ++ ['/']) rest
      rwa [List.append_assoc, List.singleton_append] at this
    cases scheme with
    | http =>
      have hother : startsWith (Scheme.http.text ++ "://".toList ++ name ++ '/' :: rest)
          (Scheme.https.text ++ "://".toList ++ name ++ ['/']) = false := by
        simp [startsWith, Scheme.text, List.isPrefixOf]
      simp only [List.findSome?_cons, hother, hstart]
      rw [List.drop_left]
      rfl
    | https =>
      simp only [List.findSome?_cons, hstart]
      rw [List.drop_left]
      rfl

def Environment.ascii : Environment where
  rt := Runtime.ascii
  parseDate _ := none
  bigintToString i := (toString i).toList
  parseBigInt _ := none
  localDate _ := (1970, 1, 1)
  dateText _ := "Thu Jan 01 1970 00:00:00 GMT+0000 (Coordinated Universal Time)".toList
  maxDecimalExponentAbs := 1000

theorem lowersAscii_ascii : Environment.ascii.LowersAscii := fun _ _ => rfl

def sampleService : Service where
  basePath := some "/odata".toList
  namespaces := ["Default".toList]
  setName := "Notes".toList
  host := some "localhost:3000".toList
  protocol := some .http

def sampleUrls : UrlParser := UrlParser.ofHost "localhost:3000".toList

theorem isPlain_sampleService : sampleService.IsPlain sampleUrls where
  host := by
    rintro host hhost
    cases hhost
    rfl
  setName_ne := by decide
  setName := by decide
  rooted := by
    refine ⟨["odata".toList], ⟨?_, by decide⟩⟩
    intro segment hsegment
    obtain rfl := List.mem_singleton.mp hsegment
    exact ⟨by decide, by decide, by decide, by decide⟩

def stringKey : PropertyDefinition := { type := "string".toList }

theorem declares_stringKey : KeyType.string.Declares stringKey :=
  ⟨rfl, rfl, fun _ => rfl, fun _ _ => rfl, fun h => by cases h⟩

/-! ## The result -/

/-- The URL of an entity leads back to its key except for keys with the characters that separate
parts of URLs, decimal numbers and GUIDs in other than their normal forms, and all dates, times and
durations. -/
theorem referencedKey_buildEntityLocationUrl_iff {env : Environment} {urls : UrlParser}
    {service : Service} {definition : PropertyDefinition} {keyType : KeyType} {value : Atom}
    (hlower : env.LowersAscii) (hservice : service.IsPlain urls)
    (hdeclares : keyType.Declares definition) (hholds : keyType.Holds env value) :
    (∃ url, buildEntityLocationUrl env service value definition = some url ∧
        referencedKey env urls service definition url = .ok (.atom value)) ↔
      keyType.KeepsKey service value := by
  obtain ⟨segments, hrooted⟩ := hservice.rooted
  have hkind := hdeclares.kind
  have hcoercion := hdeclares.coercion
  cases keyType with
  | string =>
    cases value with
    | str s =>
      have hserialize : serializeKeyLiteralValue env (.str s) definition = some (quote s) :=
        serializeKeyLiteralValue_of_kind_none hdeclares rfl (by decide)
      rw [leadsBack_iff hrooted hserialize]
      exact referencedKey_string hlower hservice hrooted hcoercion s
    | _ => exact hholds.elim
  | number =>
    cases value with
    | num q =>
      obtain ⟨hfinite, d, hspells, hvalue⟩ := hholds
      have hserialize : serializeKeyLiteralValue env (.num q) definition =
          some (env.rt.numberToString q) :=
        serializeKeyLiteralValue_of_kind_none hdeclares rfl (by decide)
      have hchars := fun c hc => isLiteralChar_of_isNumberChar (hspells.all_numberChar c hc)
      rw [leadsBack_of_literal hlower hservice hserialize hchars
        (coerceTargetId_of_number hcoercion hspells hvalue hfinite)]
      simp [KeyType.KeepsKey]
    | _ => exact hholds.elim
  | boolean =>
    cases value with
    | bool b =>
      have hserialize : serializeKeyLiteralValue env (.bool b) definition =
          some (if b then "true".toList else "false".toList) :=
        serializeKeyLiteralValue_of_kind_none hdeclares rfl (by decide)
      have hchars : ∀ c ∈ (if b then "true".toList else "false".toList),
          isLiteralChar c = true := by
        cases b <;> decide
      have hcoerce : coerceTargetId env definition (if b then "true".toList else "false".toList) =
          .ok (.atom (.bool b)) := by
        rw [coerceTargetId, coerceIdentifierLiteral, hcoercion]
        cases b <;> rfl
      rw [leadsBack_of_literal hlower hservice hserialize hchars hcoerce]
      simp [KeyType.KeepsKey]
    | _ => exact hholds.elim
  | bigint =>
    cases value with
    | bigint i =>
      obtain ⟨⟨hne, hparse⟩, hnumber⟩ := hholds
      have hserialize : serializeKeyLiteralValue env (.bigint i) definition =
          some (env.bigintToString i) := by
        unfold serializeKeyLiteralValue
        rw [hkind]
        simp [KeyType.kind, int64Text, hne]
      have hcoerce : coerceTargetId env definition (env.bigintToString i) =
          .ok (.atom (.bigint i)) := by
        rw [coerceTargetId, coerceIdentifierLiteral, hcoercion]
        simp only [KeyType.coercion]
        rw [hparse, hdeclares.keepsText rfl]
        rfl
      rw [leadsBack_of_literal hlower hservice hserialize
        (fun c hc => isLiteralChar_of_isNumberChar (hnumber c hc)) hcoerce]
      simp [KeyType.KeepsKey]
    | _ => exact hholds.elim
  | int64Text =>
    cases value with
    | str s =>
      obtain ⟨hint, hparse⟩ := hholds
      obtain ⟨i, hparse⟩ := Option.isSome_iff_exists.mp hparse
      obtain ⟨hne, hnumber⟩ := isInt64Text_chars hint
      have htrim : trimText s = s :=
        trimText_eq fun c hc => isSpace_false_of_isNumberChar (hnumber c hc)
      have hserialize : serializeKeyLiteralValue env (.str s) definition = some s := by
        unfold serializeKeyLiteralValue
        rw [hkind]
        simp [KeyType.kind, int64Text, htrim, hint, hne]
      have hcoerce : coerceTargetId env definition s = .ok (.atom (.str s)) := by
        rw [coerceTargetId, coerceIdentifierLiteral, hcoercion]
        simp only [KeyType.coercion]
        rw [hparse, hdeclares.keepsText rfl]
        rfl
      rw [leadsBack_of_literal hlower hservice hserialize
        (fun c hc => isLiteralChar_of_isNumberChar (hnumber c hc)) hcoerce]
      simp [KeyType.KeepsKey]
    | _ => exact hholds.elim
  | int64Number =>
    cases value with
    | num q =>
      obtain ⟨hinteger, hfinite, d, hspells, hvalue⟩ := hholds
      have hserialize : serializeKeyLiteralValue env (.num q) definition =
          some (env.rt.numberToString q) := by
        unfold serializeKeyLiteralValue
        rw [hkind]
        simp [KeyType.kind, int64Text, hinteger, hspells.ne_nil]
      have hchars := fun c hc => isLiteralChar_of_isNumberChar (hspells.all_numberChar c hc)
      rw [leadsBack_of_literal hlower hservice hserialize hchars
        (coerceTargetId_of_number hcoercion hspells hvalue hfinite)]
      simp [KeyType.KeepsKey]
    | _ => exact hholds.elim
  | decimalText =>
    cases value with
    | str s =>
      obtain ⟨normalized, hnormalized⟩ := Option.isSome_iff_exists.mp hholds
      obtain ⟨hne, hnumber⟩ := normalizeDecimalString_chars hnormalized
      have hserialize : serializeKeyLiteralValue env (.str s) definition = some normalized := by
        unfold serializeKeyLiteralValue
        rw [hkind]
        simp [KeyType.kind, decimalText, hnormalized, hne]
      rw [leadsBack_of_literal hlower hservice hserialize
        (fun c hc => isLiteralChar_of_isNumberChar (hnumber c hc))
        (coerceTargetId_of_text hcoercion normalized)]
      simp only [KeyType.KeepsKey, Atom.str.injEq]
      rw [← @normalizeDecimalString_eq_self_iff env.maxDecimalExponentAbs, hnormalized,
        Option.some.injEq]
    | _ => exact hholds.elim
  | decimalNumber =>
    cases value with
    | num q =>
      obtain ⟨hfinite, d, hspells, hvalue⟩ := hholds
      obtain ⟨plain, hplain, hplainValue⟩ := spells_toPlainDecimalString hspells
      have hserialize : serializeKeyLiteralValue env (.num q) definition =
          some (toPlainDecimalString (env.rt.numberToString q)) := by
        unfold serializeKeyLiteralValue
        rw [hkind]
        simp [KeyType.kind, decimalText, hplain.ne_nil]
      have hchars := fun c hc => isLiteralChar_of_isNumberChar (hplain.all_numberChar c hc)
      rw [leadsBack_of_literal hlower hservice hserialize hchars
        (coerceTargetId_of_number hcoercion hplain (hplainValue.trans hvalue) hfinite)]
      simp [KeyType.KeepsKey]
    | _ => exact hholds.elim
  | guid =>
    cases value with
    | str s =>
      obtain ⟨hnormalized, hchars⟩ := normalizeGuidLiteralValue_eq hlower hholds.1 hholds.2
      have hserialize : serializeKeyLiteralValue env (.str s) definition =
          some ("guid'".toList ++ asciiLower s ++ ['\'']) := by
        unfold serializeKeyLiteralValue
        rw [hkind]
        simp only [KeyType.kind]
        rw [hdeclares.guid rfl, decide_eq_true rfl, if_pos rfl, hnormalized]
        rfl
      rw [leadsBack_iff hrooted hserialize,
        referencedKey_guid hlower hservice hrooted hcoercion hchars]
      simp [KeyType.KeepsKey]
    | _ => exact hholds.elim
  | date =>
    obtain ⟨hquote, literal, hnormalized, hne, hchars⟩ := hholds
    have hserialize : serializeKeyLiteralValue env value definition =
        some ("date".toList ++ quote literal) := by
      unfold serializeKeyLiteralValue
      rw [hkind]
      simp only [KeyType.kind]
      rw [hnormalized, (typedLiteral_eq hne hchars).2]
    exact iff_of_false (not_leadsBack_of_temporal hlower hservice hcoercion (by decide) hchars
      hquote hserialize) not_false
  | dateTime =>
    obtain ⟨hquote, literal, hnormalized, hne, hchars⟩ := hholds
    have hserialize : serializeKeyLiteralValue env value definition =
        some ("datetimeoffset".toList ++ quote literal) := by
      unfold serializeKeyLiteralValue
      rw [hkind]
      simp only [KeyType.kind]
      rw [hnormalized, (typedLiteral_eq hne hchars).2]
    exact iff_of_false (not_leadsBack_of_temporal hlower hservice hcoercion (by decide) hchars
      hquote hserialize) not_false
  | time =>
    obtain ⟨hquote, literal, hnormalized, hne, hchars⟩ := hholds
    have hserialize : serializeKeyLiteralValue env value definition =
        some ("timeofday".toList ++ quote literal) := by
      unfold serializeKeyLiteralValue
      rw [hkind]
      simp only [KeyType.kind]
      rw [hnormalized, (typedLiteral_eq hne hchars).1]
    exact iff_of_false (not_leadsBack_of_temporal hlower hservice hcoercion (by decide) hchars
      hquote hserialize) not_false
  | duration =>
    obtain ⟨hquote, literal, hnormalized, hne, hchars⟩ := hholds
    have hserialize : serializeKeyLiteralValue env value definition =
        some ("duration".toList ++ quote literal) := by
      unfold serializeKeyLiteralValue
      rw [hkind]
      simp only [KeyType.kind]
      rw [hnormalized, (typedLiteral_eq hne hchars).1]
    exact iff_of_false (not_leadsBack_of_temporal hlower hservice hcoercion (by decide) hchars
      hquote hserialize) not_false

theorem leadsBack_quoted_key :
    ∃ url, buildEntityLocationUrl Environment.ascii sampleService (.str "O'Neil (1)".toList)
        stringKey = some url ∧
      referencedKey Environment.ascii sampleUrls sampleService stringKey url =
        .ok (.atom (.str "O'Neil (1)".toList)) := by
  have hholds : KeyType.string.Holds Environment.ascii (.str "O'Neil (1)".toList) := trivial
  have hkeeps : KeyType.string.KeepsKey sampleService (.str "O'Neil (1)".toList) := by
    have hchars : ∀ c ∈ "O'Neil (1)".toList, sampleService.breaks c = false ∧ c ≠ '%' := by decide
    exact hchars
  exact (referencedKey_buildEntityLocationUrl_iff lowersAscii_ascii isPlain_sampleService
    declares_stringKey hholds).mpr hkeeps

/-- A slash in a key makes two parts of a path. -/
theorem not_leadsBack_slash :
    ¬ ∀ (env : Environment) (urls : UrlParser) (service : Service)
      (definition : PropertyDefinition) (keyType : KeyType) (value : Atom),
      env.LowersAscii → service.IsPlain urls → keyType.Declares definition →
      keyType.Holds env value →
        ∃ url, buildEntityLocationUrl env service value definition = some url ∧
          referencedKey env urls service definition url = .ok (.atom value) := by
  intro h
  obtain ⟨url, hurl, hread⟩ := h Environment.ascii sampleUrls sampleService stringKey .string
    (.str "a/b".toList) lowersAscii_ascii isPlain_sampleService declares_stringKey trivial
  have hbuilt : buildEntityLocationUrl Environment.ascii sampleService (.str "a/b".toList)
      stringKey = some "http://localhost:3000/odata/Notes('a/b')".toList := by decide
  obtain rfl := Option.some.inj (hbuilt.symm.trans hurl)
  have hok : (referencedKey Environment.ascii sampleUrls sampleService stringKey
      "http://localhost:3000/odata/Notes('a/b')".toList).isOk = false := by decide
  rw [hread] at hok
  cases hok

end LoopbackOData
