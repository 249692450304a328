import LoopbackOData.Etag.Tokens

/-!
# Preconditions of writes

When the comparison of tags in `replace` and the conditional writes of `update` and `delete` take
the same headers for an entity's tag.
-/

namespace LoopbackOData

set_option autoImplicit false

/-! ## Tags read back -/

theorem head_escapeEtagValue (s : Text) : (escapeEtagValue s).head? ≠ some '"' := by
  cases s with
  | nil => simp [escapeEtagValue, replaceChar]
  | cons c s =>
    by_cases hslash : c = '\\'
    · simp [escapeEtagValue, replaceChar, hslash]
    · by_cases hquote : c = '"'
      · simp [escapeEtagValue, replaceChar, hquote]
      · simp [escapeEtagValue, replaceChar, hslash, hquote]

theorem escapeEtagValue_cons (c : Char) (s : Text) :
    escapeEtagValue (c :: s) =
      (if c = '\\' then ['\\', '\\'] else if c = '"' then ['\\', '"'] else [c]) ++
        escapeEtagValue s := by
  unfold escapeEtagValue replaceChar
  by_cases hslash : c = '\\'
  · simp [hslash]
  · by_cases hquote : c = '"'
    · simp [hquote]
    · simp [hslash, hquote]

theorem replacePair_cons {a b r c : Char} {s : Text} (h : c = a → s.head? ≠ some b) :
    replacePair a b r (c :: s) = c :: replacePair a b r s := by
  cases s with
  | nil => rfl
  | cons d s =>
    rw [replacePair, if_neg]
    rintro ⟨rfl, rfl⟩
    exact h rfl rfl

theorem unescapeEtagValue_escapeEtagValue (s : Text) :
    unescapeEtagValue (escapeEtagValue s) = s := by
  have hquotes : replacePair '\\' '"' '"' (escapeEtagValue s) =
      replaceChar '\\' ['\\', '\\'] s := by
    induction s with
    | nil => rfl
    | cons c s ih =>
      have hcons : replaceChar '\\' ['\\', '\\'] (c :: s) =
          (if c = '\\' then ['\\', '\\'] else [c]) ++ replaceChar '\\' ['\\', '\\'] s := rfl
      rw [escapeEtagValue_cons, hcons, ← ih]
      by_cases hslash : c = '\\'
      · rw [if_pos hslash, if_pos hslash]
        simp only [List.cons_append, List.nil_append]
        rw [replacePair_cons (by simp), replacePair_cons fun _ => head_escapeEtagValue s]
      · rw [if_neg hslash, if_neg hslash]
        by_cases hquote : c = '"'
        · rw [if_pos hquote, hquote]
          simp [replacePair]
        · rw [if_neg hquote]
          simp only [List.cons_append, List.nil_append]
          rw [replacePair_cons fun h => absurd h hslash]
  rw [unescapeEtagValue, hquotes]
  clear hquotes
  induction s with
  | nil => rfl
  | cons c s ih =>
    have hcons : replaceChar '\\' ['\\', '\\'] (c :: s) =
        (if c = '\\' then ['\\', '\\'] else [c]) ++ replaceChar '\\' ['\\', '\\'] s := rfl
    rw [hcons]
    by_cases hslash : c = '\\'
    · rw [if_pos hslash, hslash]
      simp [replacePair, ih]
    · rw [if_neg hslash]
      simp only [List.cons_append, List.nil_append]
      rw [replacePair_cons fun h => absurd h hslash, ih]

theorem normalizeHeaderValue_weakWrap (content : Text) :
    normalizeHeaderValue (weakWrap content) = '"' :: (content ++ ['"']) := by
  have hquote : isSpace '"' = false ∧ isSpace 'W' = false := by decide
  have houter : trimText (weakWrap content) = weakWrap content := by
    apply trimText_of_ends
    · simp [weakWrap, hquote]
    · simp [weakWrap, List.getLast?_cons, hquote]
  have hinner : trimText ('"' :: (content ++ ['"'])) = '"' :: (content ++ ['"']) := by
    apply trimText_of_ends
    · simp [hquote]
    · simp [List.getLast?_cons, hquote]
  rw [normalizeHeaderValue, houter]
  exact hinner

theorem isQuotedTag_quotes (content : Text) : isQuotedTag ('"' :: (content ++ ['"'])) = true := by
  simp [isQuotedTag, List.getLast?_cons]

theorem normaliseTagForComparison_weakWrap (content : Text) :
    normaliseTagForComparison (weakWrap content) = unescapeEtagValue content := by
  rw [normaliseTagForComparison, normalizeHeaderValue_weakWrap, if_pos (isQuotedTag_quotes content)]
  simp [tagContent]

/-- Without backslashes nothing is unescaped. -/
theorem replacePair_of_not_mem {a b r : Char} {s : Text} (h : a ∉ s) : replacePair a b r s = s := by
  induction s with
  | nil => rfl
  | cons c s ih =>
    rw [List.mem_cons, not_or] at h
    rw [replacePair_cons fun heq => absurd heq.symm h.1, ih h.2]

theorem unescapeEtagValue_of_not_mem {s : Text} (h : '\\' ∉ s) : unescapeEtagValue s = s := by
  rw [unescapeEtagValue, replacePair_of_not_mem h, replacePair_of_not_mem h]

/-- A backslash leaves a trace, at least of what it escaped. -/
theorem mem_replacePair {b : Char} {s : Text} (h : '\\' ∈ s) :
    '\\' ∈ replacePair '\\' b b s ∨ b ∈ replacePair '\\' b b s := by
  fun_induction replacePair '\\' b b s with
  | case1 s ih => exact Or.inr List.mem_cons_self
  | case2 c d s hpair ih =>
    rcases List.mem_cons.mp h with rfl | h
    · exact Or.inl List.mem_cons_self
    · exact (ih h).imp (List.mem_cons_of_mem _) (List.mem_cons_of_mem _)
  | case3 s hshort => exact Or.inl h

theorem eq_of_unescapeEtagValue {s t : Text} (hslash : '\\' ∉ t) (hquote : '"' ∉ t)
    (h : unescapeEtagValue s = t) : s = t := by
  by_cases hs : '\\' ∈ s
  · exfalso
    rw [unescapeEtagValue] at h
    by_cases hrest : '\\' ∈ replacePair '\\' '"' '"' s
    · rcases mem_replacePair (b := '\\') hrest with hmem | hmem
      · exact hslash (h ▸ hmem)
      · exact hslash (h ▸ hmem)
    · rw [replacePair_of_not_mem hrest] at h
      rcases mem_replacePair (b := '"') hs with hmem | hmem
      · exact hslash (h ▸ hmem)
      · exact hquote (h ▸ hmem)
  · rw [← h, unescapeEtagValue_of_not_mem hs]

/-! ## The text in an entity's tag -/

section Tags

variable (conv : Conversions) {config : EtagConfig} {state : EtagState}

/-- What stands in the quotes of an entity's tag, before it is escaped. -/
def tagText (config : EtagConfig) (state : EtagState) : Option Text :=
  match config.properties with
  | [] => none
  | [(name, _)] => serializeAtomicValue conv (state name)
  | properties => (etagSegments conv state properties).map ['&'].intercalate

variable {conv}

theorem etagSegment_plain (name text : Text) :
    '\\' ∉ etagSegment name text ∧ '"' ∉ etagSegment name text ∧ '&' ∉ etagSegment name text := by
  have hbyte (b : UInt8) : '\\' ∉ encodeByte b ∧ '"' ∉ encodeByte b := by
    apply forall_byte _ b
    decide +kernel
  have hcomponent (s : Text) : '\\' ∉ encodeURIComponent s ∧ '"' ∉ encodeURIComponent s := by
    simp only [encodeURIComponent, List.mem_flatMap, not_exists, not_and]
    exact ⟨fun b _ => (hbyte b).1, fun b _ => (hbyte b).2⟩
  have hseparators := encodeURIComponent_separators
  simp [etagSegment, hcomponent, hseparators]

theorem etagSegments_cons {p : Text × EtagType} {properties : List (Text × EtagType)}
    {segments : List Text} (h : etagSegments conv state (p :: properties) = some segments) :
    ∃ text rest, serializeAtomicValue conv (state p.1) = some text ∧
      etagSegments conv state properties = some rest ∧
      segments = etagSegment p.1 text :: rest := by
  rw [etagSegments, Option.bind_eq_bind, Option.bind_eq_some_iff] at h
  obtain ⟨text, htext, h⟩ := h
  rw [Option.bind_eq_bind, Option.bind_eq_some_iff] at h
  obtain ⟨rest, hrest, h⟩ := h
  cases h
  exact ⟨text, rest, htext, hrest, rfl⟩

theorem mem_etagSegments {properties : List (Text × EtagType)} {segments : List Text}
    (h : etagSegments conv state properties = some segments) {segment : Text}
    (hmem : segment ∈ segments) : ∃ name text, segment = etagSegment name text := by
  induction properties generalizing segments with
  | nil =>
    cases h
    cases hmem
  | cons p properties ih =>
    obtain ⟨text, rest, _, hrest, rfl⟩ := etagSegments_cons h
    rcases List.mem_cons.mp hmem with rfl | hmem
    · exact ⟨p.1, text, rfl⟩
    · exact ih hrest hmem

theorem not_mem_intercalate {c : Char} {segments : List Text} (hc : c ≠ '&')
    (h : ∀ segment ∈ segments, c ∉ segment) : c ∉ ['&'].intercalate segments := by
  induction segments with
  | nil => simp
  | cons segment segments ih =>
    have hhead := h segment List.mem_cons_self
    have htail := ih fun s hs => h s (List.mem_cons_of_mem _ hs)
    cases segments with
    | nil => simpa using hhead
    | cons next segments =>
      rw [List.intercalate_cons_cons]
      simp [hhead, htail, hc]

/-- The tags of entities are compared by the texts in them. -/
theorem matchesEtag_iff {tags : List Text} :
    matchesEtag (encodeEtagToken conv config state) tags = true ↔
      ∃ text, tagText conv config state = some text ∧
        text ∈ tags.map normaliseTagForComparison := by
  have hmatches (content : Text) : matchesEtag (some (weakWrap content)) tags = true ↔
      unescapeEtagValue content ∈ tags.map normaliseTagForComparison := by
    rw [matchesEtag, normaliseTagForComparison_weakWrap, List.any_eq_true, List.mem_map]
    simp only [decide_eq_true_eq]
  match hproperties : config.properties with
  | [] => simp [encodeEtagToken, tagText, hproperties, matchesEtag]
  | [(name, type)] =>
    simp only [encodeEtagToken, tagText, hproperties]
    cases serializeAtomicValue conv (state name) with
    | none => simp [matchesEtag]
    | some text =>
      rw [Option.map_some, Function.comp_apply, hmatches, unescapeEtagValue_escapeEtagValue]
      simp
  | p :: p' :: properties =>
    simp only [encodeEtagToken, tagText, hproperties]
    cases hsegments : etagSegments conv state (p :: p' :: properties) with
    | none => simp [matchesEtag]
    | some segments =>
      have hplain : '\\' ∉ ['&'].intercalate segments := by
        apply not_mem_intercalate (by decide)
        intro segment hmem
        obtain ⟨name, text, rfl⟩ := mem_etagSegments hsegments hmem
        exact (etagSegment_plain name text).1
      rw [Option.map_some, Function.comp_apply, hmatches, unescapeEtagValue_of_not_mem hplain]
      simp

/-! ## What a tag reads as -/

variable (conv config)

/-- The entity is in the range of the types, with texts that read back. -/
def WellTyped (state : EtagState) : Prop :=
  ∀ p ∈ config.properties, state p.1 = .missing ∨ p.2.Holds conv (state p.1)

/-- A tag of all the properties of a composite; a tag of a single property is always one. -/
def IsComplete (tag : Text) : Prop :=
  1 < config.properties.length → ∃ values, decodeEtagToken conv config tag =
    some (.composite values) ∧ ∀ p ∈ config.properties, (DecodedEtag.value values p.1).isSome

/-- The tag stands for the values of the entity. -/
def ReadsAs (tag : Text) (state : EtagState) : Prop :=
  ∃ decoded, decodeEtagToken conv config tag = some decoded ∧ selectsDecoded config state decoded

/-- A tag with the text of the entity's own is in the list. -/
def ListsTagOf (tags : List Text) (state : EtagState) : Prop :=
  ∃ text, tagText conv config state = some text ∧ text ∈ tags.map normaliseTagForComparison

variable {conv config}

theorem decodeIfMatchValues_select (hconfig : config.properties ≠ []) (tags : List Text) :
    ((decodeIfMatchValues conv config tags).2 = false ↔ ∀ tag ∈ tags, IsComplete conv config tag) ∧
      ((∀ tag ∈ tags, IsComplete conv config tag) →
        ((decodeIfMatchValues conv config tags).1.any (selectsDecoded config state) = true ↔
          ∃ tag ∈ tags, ReadsAs conv config tag state)) := by
  induction tags with
  | nil => simp [decodeIfMatchValues]
  | cons tag tags ih =>
    obtain ⟨ihinvalid, ihselect⟩ := ih
    have hreads : (∃ t ∈ tag :: tags, ReadsAs conv config t state) ↔
        ReadsAs conv config tag state ∨ ∃ t ∈ tags, ReadsAs conv config t state := by
      simp
    rw [List.forall_mem_cons, hreads, decodeIfMatchValues]
    rcases hproperties : config.properties with _ | ⟨p, _ | ⟨p', properties⟩⟩
    · exact absurd hproperties hconfig
    · have hcomplete (t : Text) : IsComplete conv config t := by
        intro hlength
        rw [hproperties] at hlength
        simp at hlength
      have hselect := ihselect fun t _ => hcomplete t
      have hvalid := ihinvalid.mpr fun t _ => hcomplete t
      cases hdecode : decodeEtagToken conv config tag with
      | none =>
        have hnot : ¬ ReadsAs conv config tag state := by
          rintro ⟨decoded, h, _⟩
          rw [hdecode] at h
          cases h
        simp [hcomplete, hvalid, hselect, hnot]
      | some decoded =>
        have htag : ReadsAs conv config tag state ↔ selectsDecoded config state decoded := by
          simp [ReadsAs, hdecode]
        rw [htag, List.any_cons, Bool.or_eq_true, hselect]
        simp [hcomplete, hvalid]
    · have hlength : 1 < config.properties.length := by simp [hproperties]
      by_cases hcomplete : IsComplete conv config tag
      · obtain ⟨values, hdecode, hvalues⟩ := hcomplete hlength
        have htag : ReadsAs conv config tag state ↔
            selectsDecoded config state (.composite values) := by
          simp [ReadsAs, hdecode]
        have hall : ((p :: p' :: properties).all fun p =>
            (DecodedEtag.value values p.1).isSome) = true := by
          rw [List.all_eq_true, ← hproperties]
          exact hvalues
        simp only [hdecode, hall, if_true, htag, List.any_cons, Bool.or_eq_true]
        rw [ihinvalid]
        refine ⟨(and_iff_right hcomplete).symm, fun h => ?_⟩
        rw [ihselect h.2]
      · refine ⟨iff_of_false ?_ fun h => hcomplete h.1, fun h => absurd h.1 hcomplete⟩
        rw [Bool.not_eq_false]
        dsimp only
        split
        · next values hdecode =>
          rw [if_neg]
          intro hall
          rw [List.all_eq_true, ← hproperties] at hall
          exact hcomplete fun _ => ⟨values, hdecode, hall⟩
        · rfl

theorem isStoredAs_coerce {type : EtagType} {v : EtagValue} {text : Text}
    (hholds : type.Holds conv v) (htype : type ≠ .object)
    (htext : serializeAtomicValue conv v = some text) :
    v.isStoredAs (coerceToPropertyType conv text type) = true := by
  cases type with
  | object => exact absurd rfl htype
  | string =>
    cases v with
    | str s =>
      cases htext
      simp [coerceToPropertyType, EtagValue.isStoredAs]
    | _ => cases hholds
  | number =>
    cases v with
    | num q =>
      cases htext
      have hread : finiteNumber (conv.rt.numberToString q) = some q := hholds.2
      simp [coerceToPropertyType, hread, EtagValue.isStoredAs]
    | _ => cases hholds
  | boolean =>
    cases v with
    | bool b =>
      cases htext
      cases b <;> rfl
    | _ => cases hholds
  | bigint =>
    cases v with
    | bigint i =>
      cases htext
      have hread : conv.parseBigInt (conv.bigintToString i) = some i := hholds.2
      simp [coerceToPropertyType, hread, EtagValue.isStoredAs]
    | _ => cases hholds
  | date =>
    cases v with
    | date ms =>
      cases htext
      have hread : conv.parseDate (conv.rt.dateToString ms) = some ms := hholds.2
      simp [coerceToPropertyType, hread, EtagValue.isStoredAs]
    | _ => cases hholds

/-- No tag reads as a structured value: its JSON text is taken for a text. -/
theorem not_isStoredAs_object {v : EtagValue} {text : Text}
    (hholds : v = .missing ∨ EtagType.object.Holds conv v) :
    v.isStoredAs (coerceToPropertyType conv text .object) = false := by
  rcases hholds with rfl | hholds
  · rfl
  · cases v with
    | object v => rfl
    | _ => cases hholds

theorem splitOn_etagSegment (name text : Text) :
    (etagSegment name text).splitOn '=' = [encodeURIComponent name, encodeURIComponent text] := by
  have hpieces : ∀ piece ∈ [encodeURIComponent name, encodeURIComponent text], '=' ∉ piece := by
    simp [encodeURIComponent_separators]
  have h := List.splitOn_intercalate '=' hpieces (List.cons_ne_nil _ _)
  simpa [etagSegment, List.intercalate_cons_cons] using h

theorem etagSegment_ne_nil (name text : Text) : etagSegment name text ≠ [] := by
  simp [etagSegment]

theorem decodeSegments_etagSegments {properties : List (Text × EtagType)} {segments : List Text}
    (hsub : ∀ p ∈ properties, p ∈ config.properties)
    (h : etagSegments conv state properties = some segments) :
    ∃ values, decodeSegments conv config segments = some values ∧
      values.map Prod.fst = properties.map Prod.fst ∧
      ∀ value ∈ values, ∃ type text, (value.1, type) ∈ config.properties ∧
        serializeAtomicValue conv (state value.1) = some text ∧
        value.2 = coerceToPropertyType conv text type := by
  induction properties generalizing segments with
  | nil =>
    cases h
    exact ⟨[], rfl, rfl, by simp⟩
  | cons p properties ih =>
    obtain ⟨name, type⟩ := p
    obtain ⟨text, rest, htext, hrest, rfl⟩ := etagSegments_cons h
    obtain ⟨values, hvalues, hnames, hmem⟩ :=
      ih (fun p hp => hsub p (List.mem_cons_of_mem _ hp)) hrest
    have hproperty := hsub _ List.mem_cons_self
    have hlookup : config.properties.lookup name = some type :=
      (lookup_eq_some_iff config.distinct).mpr hproperty
    refine ⟨(name, coerceToPropertyType conv text type) :: values, ?_, ?_, ?_⟩
    · rw [decodeSegments, splitOn_etagSegment]
      · simp [decodeURIComponent_encodeURIComponent, config.named _ hproperty, hlookup, hvalues]
      · exact etagSegment_ne_nil name text
    · simp [hnames]
    · intro value hvalue
      rcases List.mem_cons.mp hvalue with rfl | hvalue
      · exact ⟨type, text, hproperty, htext, rfl⟩
      · exact hmem value hvalue

/-- A tag with the text of an entity's own reads as the entity. -/
theorem readsAs_of_text {tag text : Text} (hstate : WellTyped conv config state)
    (htypes : ∀ p ∈ config.properties, p.2 ≠ .object) (htext : tagText conv config state = some text)
    (htag : normaliseTagForComparison tag = text) (hblank : normalizeHeaderValue tag ≠ []) :
    ReadsAs conv config tag state := by
  have hvalue {name : Text} {type : EtagType} {t : Text} (hmem : (name, type) ∈ config.properties)
      (ht : serializeAtomicValue conv (state name) = some t) :
      (state name).isStoredAs (coerceToPropertyType conv t type) = true := by
    rcases hstate _ hmem with hmissing | hholds
    · rw [hmissing] at ht
      cases ht
    · exact isStoredAs_coerce hholds (htypes _ hmem) ht
  match hproperties : config.properties with
  | [] => simp [tagText, hproperties] at htext
  | [(name, type)] =>
    simp only [tagText, hproperties] at htext
    refine ⟨.single (coerceToPropertyType conv text type), ?_, ?_⟩
    · simp [decodeEtagToken, hblank, hproperties, htag]
    · rw [selectsDecoded]
      simp only [hproperties]
      exact hvalue (by simp [hproperties]) htext
  | p :: p' :: properties =>
    simp only [tagText, hproperties, Option.map_eq_some_iff] at htext
    obtain ⟨segments, hsegments, rfl⟩ := htext
    have hplain {c : Char} (hc : c ≠ '&') (h : ∀ name t, c ∉ etagSegment name t) :
        c ∉ ['&'].intercalate segments := by
      apply not_mem_intercalate hc
      intro segment hmem
      obtain ⟨name, t, rfl⟩ := mem_etagSegments hsegments hmem
      exact h name t
    have hinner : (if isQuotedTag (normalizeHeaderValue tag) then
        tagContent (normalizeHeaderValue tag) else normalizeHeaderValue tag) =
          ['&'].intercalate segments := by
      rw [normaliseTagForComparison] at htag
      split at htag
      · next hquoted =>
        rw [if_pos hquoted]
        exact eq_of_unescapeEtagValue (hplain (by decide) fun n t => (etagSegment_plain n t).1)
          (hplain (by decide) fun n t => (etagSegment_plain n t).2.1) htag
      · next hquoted => rw [if_neg hquoted, htag]
    have hsplit : (['&'].intercalate segments).splitOn '&' = segments := by
      apply List.splitOn_intercalate
      · intro segment hmem
        obtain ⟨name, t, rfl⟩ := mem_etagSegments hsegments hmem
        exact (etagSegment_plain name t).2.2
      · obtain ⟨_, _, _, _, rfl⟩ := etagSegments_cons hsegments
        exact List.cons_ne_nil _ _
    obtain ⟨values, hvalues, hnames, hmem⟩ := decodeSegments_etagSegments
      (fun q hq => by rw [hproperties]; exact hq) hsegments
    have hne : values ≠ [] := by
      rintro rfl
      simp at hnames
    refine ⟨.composite values, ?_, ?_⟩
    · rw [decodeEtagToken]
      simp only [hblank, if_false, hproperties, hinner, hsplit, hvalues]
    · rw [selectsDecoded, List.all_eq_true]
      intro q hq
      have hkey : q.1 ∈ values.map Prod.fst := by
        rw [hnames, ← hproperties]
        exact List.mem_map_of_mem hq
      obtain ⟨value, hvalue', hname⟩ := List.mem_map.mp hkey
      have hsome : (values.reverse.lookup q.1).isSome := by
        rw [List.lookup_isSome_iff]
        exact ⟨value, List.mem_reverse.mpr hvalue', by simp [hname]⟩
      obtain ⟨v, hv⟩ := Option.isSome_iff_exists.mp hsome
      obtain ⟨l, l', hsplit', _⟩ := List.lookup_eq_some_iff.mp hv
      have hpair : (q.1, v) ∈ values := by
        rw [← List.mem_reverse, hsplit']
        simp
      obtain ⟨type, t, hmem', ht, hcoerce⟩ := hmem _ hpair
      rw [DecodedEtag.value, hv, Option.any_some]
      dsimp only at hcoerce ht hmem'
      rw [hcoerce]
      exact hvalue hmem' ht

/-- Only a text has an empty text. -/
theorem serializeAtomicValue_ne_nil {type : EtagType} {v : EtagValue}
    (hholds : v = .missing ∨ type.Holds conv v) (hstring : type ≠ .string)
    (hobject : type ≠ .object) : serializeAtomicValue conv v ≠ some [] := by
  rcases hholds with rfl | hholds
  · nofun
  · cases type with
    | string => exact absurd rfl hstring
    | object => exact absurd rfl hobject
    | boolean =>
      cases v with
      | bool b => cases b <;> simp [serializeAtomicValue]
      | _ => cases hholds
    | number =>
      cases v with
      | num q => simpa [serializeAtomicValue] using hholds.1
      | _ => cases hholds
    | bigint =>
      cases v with
      | bigint i => simpa [serializeAtomicValue] using hholds.1
      | _ => cases hholds
    | date =>
      cases v with
      | date ms => simpa [serializeAtomicValue] using hholds.1
      | _ => cases hholds

theorem mem_decodeSegments {segments : List Text} {values : List (Text × EtagValue)}
    (h : decodeSegments conv config segments = some values) {value : Text × EtagValue}
    (hmem : value ∈ values) : ∃ type text, (value.1, type) ∈ config.properties ∧
      value.2 = coerceToPropertyType conv text type := by
  induction segments generalizing values with
  | nil =>
    cases h
    cases hmem
  | cons segment segments ih =>
    cases segment with
    | nil =>
      rw [decodeSegments] at h
      exact ih h hmem
    | cons c segment =>
      rw [decodeSegments] at h
      · simp only [Option.bind_eq_bind, Option.bind_eq_some_iff] at h
        obtain ⟨key, _, h⟩ := h
        split at h
        · cases h
        · split at h
          · exact ih h hmem
          · next type htype =>
            rw [Option.bind_eq_some_iff] at h
            obtain ⟨text, _, h⟩ := h
            rw [Option.bind_eq_some_iff] at h
            obtain ⟨rest, hrest, h⟩ := h
            cases h
            rcases List.mem_cons.mp hmem with rfl | hmem
            · exact ⟨type, text, (lookup_eq_some_iff config.distinct).mp htype, rfl⟩
            · exact ih hrest hmem
      · exact List.cons_ne_nil c segment

theorem not_readsAs_of_object {tag : Text} {p : Text × EtagType}
    (hstate : WellTyped conv config state) (hp : p ∈ config.properties) (htype : p.2 = .object) :
    ¬ ReadsAs conv config tag state := by
  obtain ⟨name, type⟩ := p
  dsimp only at htype
  subst htype
  rintro ⟨decoded, hdecode, hselects⟩
  have hstored (text : Text) :
      (state name).isStoredAs (coerceToPropertyType conv text .object) = false :=
    not_isStoredAs_object (hstate _ hp)
  rw [decodeEtagToken] at hdecode
  split at hdecode
  · cases hdecode
  · match hproperties : config.properties with
    | [] =>
      rw [hproperties] at hp
      cases hp
    | [q] =>
      rw [hproperties, List.mem_singleton] at hp
      subst hp
      simp only [hproperties] at hdecode
      cases hdecode
      simp [selectsDecoded, hproperties, hstored] at hselects
    | q :: q' :: properties =>
      simp only [hproperties] at hdecode
      split at hdecode
      · cases hdecode
      · cases hdecode
      · next values _ hvalues =>
        cases hdecode
        rw [selectsDecoded, List.all_eq_true] at hselects
        have hselect := hselects _ hp
        rw [Option.any_eq_true] at hselect
        obtain ⟨v, hv, hstored'⟩ := hselect
        obtain ⟨l, l', hsplit, _⟩ := List.lookup_eq_some_iff.mp hv
        have hpair : (name, v) ∈ values := by
          rw [← List.mem_reverse, hsplit]
          simp
        obtain ⟨type, text, hmem, hcoerce⟩ := mem_decodeSegments hvalues hpair
        have htype : type = .object := by
          have h := (lookup_eq_some_iff config.distinct).mpr hmem
          rw [(lookup_eq_some_iff config.distinct).mpr hp] at h
          exact (Option.some.inj h).symm
        dsimp only at hcoerce
        rw [hcoerce, htype, hstored] at hstored'
        cases hstored'

/-- The headers that say the same about every entity, whether its tag is compared or decoded. Tags
are on. A tag of the list that reads as the values of an entity comes with the entity's own tag,
where all tags of the list are complete. Where the own tag of some entity is listed, all tags are
complete and no tag property is structured. The empty text is not listed outside of quotes only. -/
structure TagsAgree (conv : Conversions) (config : EtagConfig) (tags : List Text) : Prop where
  enabled : config.properties ≠ []
  read : (∀ tag ∈ tags, IsComplete conv config tag) → ∀ tag ∈ tags, ∀ state,
    WellTyped conv config state → ReadsAs conv config tag state →
      ListsTagOf conv config tags state
  complete : ∀ state, WellTyped conv config state → ListsTagOf conv config tags state →
    ∀ tag ∈ tags, IsComplete conv config tag
  unstructured : ∀ state, WellTyped conv config state → ListsTagOf conv config tags state →
    ∀ p ∈ config.properties, p.2 ≠ .object
  quoted : ∀ name, config.properties = [(name, .string)] →
    [] ∈ tags.map normaliseTagForComparison →
      ∃ tag ∈ tags, normalizeHeaderValue tag ≠ [] ∧ normaliseTagForComparison tag = []

/-- Where an entity's own tag is listed, some tag of the list reads as the entity. -/
theorem exists_readsAs {tags : List Text} (h : TagsAgree conv config tags)
    (hstate : WellTyped conv config state) (hlists : ListsTagOf conv config tags state) :
    ∃ tag ∈ tags, ReadsAs conv config tag state := by
  have htypes := h.unstructured state hstate hlists
  obtain ⟨text, htext, hmem⟩ := hlists
  obtain ⟨tag, htag, hcontent⟩ := List.mem_map.mp hmem
  by_cases hblank : normalizeHeaderValue tag = []
  · have hempty : text = [] := by
      rw [← hcontent, normaliseTagForComparison, hblank]
      rfl
    subst hempty
    match hproperties : config.properties with
    | [] => exact absurd hproperties h.enabled
    | [(name, type)] =>
      have hp : (name, type) ∈ config.properties := by simp [hproperties]
      simp only [tagText, hproperties] at htext
      by_cases hstring : type = .string
      · subst hstring
        obtain ⟨tag', htag', hblank', hcontent'⟩ := h.quoted name hproperties hmem
        refine ⟨tag', htag', readsAs_of_text hstate htypes ?_ hcontent' hblank'⟩
        simp only [tagText, hproperties]
        exact htext
      · exact absurd htext (serializeAtomicValue_ne_nil (hstate _ hp) hstring (htypes _ hp))
    | p :: p' :: properties =>
      simp only [tagText, hproperties, Option.map_eq_some_iff] at htext
      obtain ⟨segments, hsegments, hnil⟩ := htext
      obtain ⟨_, _, _, hrest, rfl⟩ := etagSegments_cons hsegments
      obtain ⟨_, _, _, _, rfl⟩ := etagSegments_cons hrest
      rw [List.intercalate_cons_cons] at hnil
      simp at hnil
  · exact ⟨tag, htag, readsAs_of_text hstate htypes htext hcontent hblank⟩

theorem conditionalWhereSelects_iff {header : Option Text} {tags : List Text}
    (hheader : parseIfMatch header = some (.values tags)) (hconfig : config.properties ≠ []) :
    conditionalWhereSelects conv config state header = true ↔
      (∀ tag ∈ tags, IsComplete conv config tag) ∧
        ∃ tag ∈ tags, ReadsAs conv config tag state := by
  obtain ⟨hvalid, hselect⟩ := @decodeIfMatchValues_select conv config state hconfig tags
  rw [← hvalid] at hselect ⊢
  simp only [conditionalWhereSelects, hheader]
  cases hdecoded : decodeIfMatchValues conv config tags with
  | mk decoded invalidComposite =>
    rw [hdecoded] at hselect
    cases invalidComposite with
    | true => simp
    | false =>
      simp only [true_and]
      exact hselect rfl

theorem replacePrecondition_iff {header : Option Text} {tags : List Text}
    (hheader : parseIfMatch header = some (.values tags)) (hconfig : config.properties ≠ []) :
    replacePrecondition conv config state header = true ↔ ListsTagOf conv config tags state := by
  simp only [replacePrecondition, hheader]
  rw [ListsTagOf, ← matchesEtag_iff]
  simp [hconfig]

end Tags

/-! ## Two headers -/

def sampleConversions : Conversions where
  rt := .ascii
  parseDate _ := none
  bigintToString i := (toString i).toList
  parseBigInt _ := none

/-- Tags of one property. -/
def singleConfig (name : Text) (type : EtagType) (h : name ≠ []) : EtagConfig where
  properties := [(name, type)]
  distinct := by simp
  named := by simpa using h

def revisionConfig : EtagConfig := singleConfig "rev".toList .string (by decide)

def revisionHeader : Text := "W/\"r1\", W/\"r2\"".toList

/-- Tags of two properties. -/
def pairConfig : EtagConfig where
  properties := [("a".toList, .number), ("b".toList, .number)]
  distinct := by decide
  named := by decide

def pairState : EtagState := fun name => if name = "a".toList then .num 1 else .num 2

def versionConfig : EtagConfig := singleConfig "v".toList .number (by decide)

end LoopbackOData
