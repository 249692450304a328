import LoopbackOData.Etag.Concurrency
import LoopbackOData.Library.Separated

/-!
# Echoed tags

Which tags are found again in a header that a client sends them back in. A header is split at every
comma, so a tag with a comma in it comes apart.
-/

namespace LoopbackOData

set_option autoImplicit false

def parseIfNoneMatch (header : Option Text) : Option IfMatch :=
  match header with
  | none => none
  | some header =>
    match parseIfMatch (some header) with
    | none => none
    | some .any => some .any
    | some parsed => some parsed

theorem parseIfNoneMatch_eq (header : Option Text) :
    parseIfNoneMatch header = parseIfMatch header := by
  cases header with
  | none => rfl
  | some header =>
    rw [parseIfNoneMatch]
    cases parseIfMatch (some header) with
    | none => rfl
    | some parsed => cases parsed <;> rfl

/-! ## Headers -/

/-- Quoted text, perhaps behind the mark of a weak tag. -/
def IsEntityTag (tag : Text) : Prop :=
  ∃ content, tag = weakWrap content ∨ tag = '"' :: (content ++ ['"'])

/-- The tag with spaces around it. -/
def Pads (tag padded : Text) : Prop :=
  ∃ left right, left.all isSpace ∧ right.all isSpace ∧ padded = left ++ tag ++ right

/-- The header is a list of these tags. -/
def ListsTags (header : Text) (tags : List Text) : Prop :=
  (∀ tag ∈ tags, IsEntityTag tag) ∧
    ∃ padded, List.Forall₂ Pads tags padded ∧ header = [','].intercalate padded

/-- The header is accepted for an entity with this tag. -/
def HeaderMatches (parse : Option Text → Option IfMatch) (tag header : Text) : Prop :=
  ∃ values, parse (some header) = some (.values values) ∧ matchesEtag (some tag) values = true

/-! ## Pieces of a header -/

/-- What the commas of a header separate. -/
def headerPieces (header : Text) : List Text := (header.splitOn ',').map trimText

section Pieces

variable {c : Char} {s t : Text}

theorem trimText_cons_space (hc : isSpace c = true) (s : Text) :
    trimText (c :: s) = trimText s := by
  rw [trimText, trimText, List.dropWhile_cons_of_pos hc]

theorem trimText_append_space (hc : isSpace c = true) (s : Text) :
    trimText (s ++ [c]) = trimText s := by
  rw [trimText, trimText, List.dropWhile_append]
  split
  · next hempty =>
    rw [List.isEmpty_iff.mp hempty, List.dropWhile_cons_of_pos hc]
    rfl
  · rw [List.reverse_append, List.reverse_singleton, List.singleton_append,
      List.dropWhile_cons_of_pos hc]

theorem headerPieces_cons_space (hc : isSpace c = true) (s : Text) :
    headerPieces (c :: s) = headerPieces s := by
  have hcomma : (c == ',') = false := by
    rw [beq_eq_false_iff_ne]
    rintro rfl
    exact absurd hc (by decide)
  rw [headerPieces, headerPieces, List.splitOn_cons_eq_if_modifyHead, hcomma,
    if_neg Bool.false_ne_true]
  cases s.splitOn ',' with
  | nil => rfl
  | cons piece pieces =>
    rw [List.modifyHead_cons, List.map_cons, List.map_cons, trimText_cons_space hc]

theorem headerPieces_append (s t : Text) :
    headerPieces (s ++ ',' :: t) = headerPieces s ++ headerPieces t := by
  rw [headerPieces, List.splitOn_append_cons_self, List.map_append]
  rfl

theorem headerPieces_of_not_mem (h : ',' ∉ s) : headerPieces s = [trimText s] := by
  have hpieces : ∀ piece ∈ [s], ',' ∉ piece := by simpa using h
  have hsplit := List.splitOn_intercalate ',' hpieces (List.cons_ne_nil _ _)
  rw [List.intercalate_singleton] at hsplit
  rw [headerPieces, hsplit, List.map_singleton]

theorem headerPieces_append_space (hc : isSpace c = true) (s : Text) :
    headerPieces (s ++ [c]) = headerPieces s := by
  have hcomma : c ≠ ',' := by
    rintro rfl
    exact absurd hc (by decide)
  by_cases hs : ',' ∈ s
  · -- what stands behind the last comma is one piece
    obtain ⟨after, before, heq, hafter⟩ := List.eq_append_cons_of_mem (List.mem_reverse.mpr hs)
    have hs' : s = before.reverse ++ ',' :: after.reverse := by
      rw [← List.reverse_reverse s, heq]
      simp
    have hlast : ',' ∉ after.reverse := by simpa using hafter
    have hlast' : ',' ∉ after.reverse ++ [c] := by simpa [hcomma.symm] using hafter
    rw [hs', List.append_assoc, List.cons_append, headerPieces_append, headerPieces_append,
      headerPieces_of_not_mem hlast, headerPieces_of_not_mem hlast', trimText_append_space hc]
  · have hs' : ',' ∉ s ++ [c] := by simpa [hcomma.symm] using hs
    rw [headerPieces_of_not_mem hs, headerPieces_of_not_mem hs', trimText_append_space hc]

theorem headerPieces_dropWhile (s : Text) :
    headerPieces (s.dropWhile isSpace) = headerPieces s := by
  induction s with
  | nil => rfl
  | cons c s ih =>
    by_cases hc : isSpace c = true
    · rw [List.dropWhile_cons_of_pos hc, ih, headerPieces_cons_space hc]
    · rw [List.dropWhile_cons_of_neg hc]

theorem headerPieces_trimText (s : Text) : headerPieces (trimText s) = headerPieces s := by
  have hend : ∀ s : Text, headerPieces (s.dropWhile isSpace).reverse = headerPieces s.reverse := by
    intro s
    induction s with
    | nil => rfl
    | cons c s ih =>
      by_cases hc : isSpace c = true
      · rw [List.dropWhile_cons_of_pos hc, ih, List.reverse_cons, headerPieces_append_space hc]
      · rw [List.dropWhile_cons_of_neg hc]
  rw [trimText, hend, List.reverse_reverse, headerPieces_dropWhile]

theorem headerPieces_of_pads (h : Pads s t) : headerPieces t = headerPieces s := by
  obtain ⟨left, right, hleft, hright, rfl⟩ := h
  have hend : headerPieces (left ++ s ++ right) = headerPieces (left ++ s) := by
    induction right using List.reverseRecOn with
    | nil => rw [List.append_nil]
    | append_singleton right c ih =>
      rw [List.all_append, Bool.and_eq_true] at hright
      rw [← List.append_assoc, headerPieces_append_space (by simpa using hright.2), ih hright.1]
  rw [hend]
  clear hend
  induction left with
  | nil => rfl
  | cons c left ih =>
    rw [List.all_cons, Bool.and_eq_true] at hleft
    rw [List.cons_append, headerPieces_cons_space hleft.1]
    exact ih hleft.2

theorem headerPieces_intercalate {padded : List Text} (hne : padded ≠ []) :
    headerPieces ([','].intercalate padded) = padded.flatMap headerPieces := by
  induction padded with
  | nil => exact absurd rfl hne
  | cons p padded ih =>
    cases padded with
    | nil => simp
    | cons q padded =>
      rw [List.intercalate_cons_cons, List.append_assoc, List.singleton_append,
        headerPieces_append, ih (List.cons_ne_nil _ _)]
      rfl

end Pieces

/-! ## Matches -/

section Matches

variable {header tag tag' : Text} {tags : List Text}
  {parse : Option Text → Option IfMatch}

/-- One of the pieces of a listed tag is taken for this tag. -/
def PieceMatches (tag listed : Text) : Prop :=
  ∃ piece ∈ headerPieces listed, piece ≠ [] ∧
    normaliseTagForComparison piece = normaliseTagForComparison tag

theorem quote_mem_of_isEntityTag (h : IsEntityTag tag) : '"' ∈ tag := by
  obtain ⟨content, rfl | rfl⟩ := h
  · simp [weakWrap]
  · simp

theorem mem_trimText {c : Char} {s : Text} (hc : isSpace c = false) (h : c ∈ s) :
    c ∈ trimText s := by
  have hdrop : ∀ s : Text, c ∈ s → c ∈ s.dropWhile isSpace := by
    intro s h
    rw [← List.takeWhile_append_dropWhile (p := isSpace) (l := s), List.mem_append] at h
    rcases h with h | h
    · rw [List.mem_takeWhile_imp h] at hc
      cases hc
    · exact h
  rw [trimText, List.mem_reverse]
  exact hdrop _ (List.mem_reverse.mpr (hdrop _ h))

theorem headerPieces_of_listsTags (h : ListsTags header tags) (hne : tags ≠ []) :
    headerPieces header = tags.flatMap headerPieces := by
  obtain ⟨-, padded, hpadded, rfl⟩ := h
  have hlength := hpadded.length_eq
  have hpadded' : padded ≠ [] := by
    rintro rfl
    exact hne (List.length_eq_zero_iff.mp hlength)
  rw [headerPieces_intercalate hpadded']
  clear hne hpadded' hlength
  induction hpadded with
  | nil => rfl
  | cons hpads _ ih => rw [List.flatMap_cons, List.flatMap_cons, headerPieces_of_pads hpads, ih]

theorem quote_mem_of_listsTags (h : ListsTags header tags) (hne : tags ≠ []) : '"' ∈ header := by
  obtain ⟨htags, padded, hpadded, rfl⟩ := h
  cases hpadded with
  | nil => exact absurd rfl hne
  | cons hpads hrest =>
    obtain ⟨left, right, -, -, rfl⟩ := hpads
    have hquote := quote_mem_of_isEntityTag (htags _ List.mem_cons_self)
    rename_i padded
    cases padded with
    | nil => simp [hquote]
    | cons q padded =>
      rw [List.intercalate_cons_cons]
      simp [hquote]

theorem parseIfMatch_of_listsTags (h : ListsTags header tags) (hne : tags ≠ []) :
    parseIfMatch (some header) =
      some (.values ((tags.flatMap headerPieces).filter (· ≠ []))) := by
  have hquote := mem_trimText (by decide) (quote_mem_of_listsTags h hne)
  have hnil : trimText header ≠ [] := List.ne_nil_of_mem hquote
  have hstar : trimText header ≠ ['*'] := by
    intro heq
    rw [heq] at hquote
    simp at hquote
  rw [← headerPieces_of_listsTags h hne, ← headerPieces_trimText]
  simp only [parseIfMatch, if_neg hnil, if_neg hstar]
  rfl

/-- A header is accepted if a piece of one of its tags is. -/
theorem headerMatches_iff (hparse : parse ∈ [parseIfMatch, parseIfNoneMatch])
    (h : ListsTags header tags) (hne : tags ≠ []) :
    HeaderMatches parse tag header ↔ ∃ listed ∈ tags, PieceMatches tag listed := by
  have hparse' : parse (some header) = parseIfMatch (some header) := by
    rcases List.mem_pair.mp hparse with rfl | rfl
    · rfl
    · exact parseIfNoneMatch_eq _
  rw [HeaderMatches, hparse', parseIfMatch_of_listsTags h hne]
  simp only [Option.some.injEq, IfMatch.values.injEq, exists_eq_left', matchesEtag,
    List.any_eq_true, List.mem_filter, List.mem_flatMap, decide_eq_true_eq, PieceMatches]
  constructor
  · rintro ⟨piece, ⟨⟨listed, hlisted, hpiece⟩, hnil⟩, heq⟩
    exact ⟨listed, hlisted, piece, hpiece, hnil, heq⟩
  · rintro ⟨listed, hlisted, piece, hpiece, hnil, heq⟩
    exact ⟨piece, ⟨⟨listed, hlisted, hpiece⟩, hnil⟩, heq⟩

theorem listsTags_singleton (h : IsEntityTag tag) : ListsTags tag [tag] := by
  refine ⟨by simpa using h, [tag], .cons ⟨[], [], rfl, rfl, ?_⟩ .nil, ?_⟩
  · simp
  · simp

end Matches

/-! ## Commas -/

section Commas

variable {c : Char} {s : Text}

theorem not_mem_replacePair {a b r : Char} (hr : c ≠ r) (h : c ∉ s) : c ∉ replacePair a b r s := by
  fun_induction replacePair a b r s with
  | case1 d e s hpair ih =>
    rw [List.mem_cons, List.mem_cons, not_or, not_or] at h
    rw [List.mem_cons, not_or]
    exact ⟨hr, ih h.2.2⟩
  | case2 d e s hpair ih =>
    rw [List.mem_cons, not_or] at h ⊢
    exact ⟨h.1, ih h.2⟩
  | case3 s hshort => exact h

theorem not_mem_normaliseTagForComparison (h : ',' ∉ s) : ',' ∉ normaliseTagForComparison s := by
  have htrim : ∀ t : Text, t.Sublist s → (trimText t).Sublist s := fun t ht =>
    (trimText_sublist t).trans ht
  have hnormalized : (normalizeHeaderValue s).Sublist s := by
    rw [normalizeHeaderValue]
    split
    · exact htrim _ ((List.drop_sublist _ _).trans (trimText_sublist s))
    · exact htrim _ (trimText_sublist s)
  have hnot : ',' ∉ normalizeHeaderValue s := fun hmem => h (hnormalized.subset hmem)
  rw [normaliseTagForComparison]
  split
  · have hcontent : ',' ∉ tagContent (normalizeHeaderValue s) := fun hmem =>
      hnot (((List.dropLast_sublist _).trans (List.drop_sublist _ _)).subset hmem)
    rw [unescapeEtagValue]
    exact not_mem_replacePair (by decide) (not_mem_replacePair (by decide) hcontent)
  · exact hnot

theorem not_mem_of_mem_headerPieces {piece : Text} (h : piece ∈ headerPieces s) : ',' ∉ piece := by
  obtain ⟨part, hpart, rfl⟩ := List.mem_map.mp h
  rw [List.splitOn_eq_splitOnP] at hpart
  intro hmem
  have hfilter := (Separated.mem_splitOnP hpart).subset ((trimText_sublist part).subset hmem)
  simp at hfilter

theorem mem_escapeEtagValue : ',' ∈ escapeEtagValue s ↔ ',' ∈ s := by
  induction s with
  | nil => rfl
  | cons d s ih =>
    rw [escapeEtagValue_cons, List.mem_append, ih, List.mem_cons]
    by_cases hslash : d = '\\'
    · simp [hslash]
    · by_cases hquote : d = '"'
      · simp [hquote]
      · simp [hslash, hquote]

end Commas

/-! ## Tags of entities -/

section Entities

variable {conv : Conversions} {config : EtagConfig} {state state' : EtagState}
  {tag tag' : Text}

variable (conv config) in
/-- No comma is in the value of a single tag property. -/
def CommaFree (state : EtagState) : Prop :=
  ∀ p, config.properties = [p] →
    ∀ text, serializeAtomicValue conv (state p.1) = some text → ',' ∉ text

variable (conv config) in
/-- The tag properties of the two entities are written the same. -/
def SameSerialized (state state' : EtagState) : Prop :=
  ∀ p ∈ config.properties,
    serializeAtomicValue conv (state p.1) = serializeAtomicValue conv (state' p.1)

theorem commaFree_composite (h : config.properties.length ≠ 1) : CommaFree conv config state := by
  intro p hp
  rw [hp] at h
  exact absurd rfl h

theorem not_comma_mem_etagSegment (name text : Text) : ',' ∉ etagSegment name text := by
  have hbyte (b : UInt8) : ',' ∉ encodeByte b := by
    apply forall_byte _ b
    decide +kernel
  have hcomponent (s : Text) : ',' ∉ encodeURIComponent s := by
    simp only [encodeURIComponent, List.mem_flatMap, not_exists, not_and]
    exact fun b _ => hbyte b
  simp [etagSegment, hcomponent]

/-- A tag carries a text, and has a comma exactly if that has one. -/
theorem text_of_tag (h : encodeEtagToken conv config state = some tag) :
    ∃ text content, tagText conv config state = some text ∧ tag = weakWrap content ∧
      normaliseTagForComparison tag = text ∧ (',' ∈ content ↔ ',' ∈ text) ∧
      (CommaFree conv config state ↔ ',' ∉ text) := by
  match hproperties : config.properties with
  | [] => simp [encodeEtagToken, hproperties] at h
  | [p] =>
    simp only [encodeEtagToken, hproperties, Option.map_eq_some_iff] at h
    obtain ⟨text, htext, rfl⟩ := h
    refine ⟨text, escapeEtagValue text, ?_, rfl, ?_, mem_escapeEtagValue, ?_⟩
    · simpa only [tagText, hproperties] using htext
    · rw [Function.comp_apply, normaliseTagForComparison_weakWrap,
        unescapeEtagValue_escapeEtagValue]
    · simp [CommaFree, hproperties, htext]
  | p :: p' :: properties =>
    simp only [encodeEtagToken, hproperties, Option.map_eq_some_iff] at h
    obtain ⟨segments, hsegments, rfl⟩ := h
    have hplain : '\\' ∉ ['&'].intercalate segments ∧ ',' ∉ ['&'].intercalate segments := by
      constructor <;> refine not_mem_intercalate (by decide) fun segment hmem => ?_
      · obtain ⟨name, text, rfl⟩ := mem_etagSegments hsegments hmem
        exact (etagSegment_plain name text).1
      · obtain ⟨name, text, rfl⟩ := mem_etagSegments hsegments hmem
        exact not_comma_mem_etagSegment name text
    refine ⟨['&'].intercalate segments, ['&'].intercalate segments, ?_, rfl, ?_, Iff.rfl, ?_⟩
    · simp only [tagText, hproperties, hsegments, Option.map_some]
    · rw [Function.comp_apply, normaliseTagForComparison_weakWrap,
        unescapeEtagValue_of_not_mem hplain.1]
    · exact iff_of_true (commaFree_composite (by simp [hproperties])) hplain.2

theorem serialize_of_segments {properties : List (Text × EtagType)} {segments : List Text}
    (h : etagSegments conv state properties = some segments)
    (h' : etagSegments conv state' properties = some segments) :
    ∀ p ∈ properties, serializeAtomicValue conv (state p.1) =
      serializeAtomicValue conv (state' p.1) := by
  induction properties generalizing segments with
  | nil => simp
  | cons p properties ih =>
    obtain ⟨text, rest, htext, hrest, rfl⟩ := etagSegments_cons h
    obtain ⟨text', rest', htext', hrest', heq⟩ := etagSegments_cons h'
    obtain ⟨hsegment, rfl⟩ := List.cons.inj heq
    have hencoded := (List.append_cancel_left hsegment)
    have hsame : text = text' := encodeURIComponent_injective (List.cons.inj hencoded).2
    rw [List.forall_mem_cons]
    exact ⟨by rw [htext, htext', hsame], ih hrest hrest'⟩

theorem sameSerialized_of_tagText {text : Text} (h : tagText conv config state = some text)
    (h' : tagText conv config state' = some text) : SameSerialized conv config state state' := by
  unfold SameSerialized
  match hproperties : config.properties with
  | [] => simp [tagText, hproperties] at h
  | [p] =>
    simp only [tagText, hproperties] at h h'
    simp [h, h']
  | p :: p' :: properties =>
    simp only [tagText, hproperties, Option.map_eq_some_iff] at h h'
    obtain ⟨segments, hsegments, rfl⟩ := h
    obtain ⟨segments', hsegments', heq⟩ := h'
    have hseparator : ∀ {state : EtagState} {segments : List Text},
        etagSegments conv state (p :: p' :: properties) = some segments →
        (∀ segment ∈ segments, '&' ∉ segment) ∧ ∀ segment ∈ segments, segment ≠ [] := by
      intro state segments hsegments
      constructor <;> intro segment hmem
      · obtain ⟨name, text, rfl⟩ := mem_etagSegments hsegments hmem
        exact (etagSegment_plain name text).2.2
      · obtain ⟨name, text, rfl⟩ := mem_etagSegments hsegments hmem
        exact etagSegment_ne_nil name text
    have hall := hseparator hsegments
    have hall' := hseparator hsegments'
    rw [Separated.intercalate_inj hall'.1 hall.1 hall'.2 hall.2 heq] at hsegments'
    exact serialize_of_segments hsegments hsegments'

theorem isEntityTag_weakWrap (content : Text) : IsEntityTag (weakWrap content) :=
  ⟨content, .inl rfl⟩

theorem trimText_weakWrap (content : Text) : trimText (weakWrap content) = weakWrap content := by
  have hspace : isSpace 'W' = false ∧ isSpace '"' = false := by decide
  apply trimText_of_ends
  · simp [weakWrap, hspace]
  · simp [weakWrap, List.getLast?_cons, hspace]

theorem headerPieces_weakWrap {content : Text} (h : ',' ∉ content) :
    headerPieces (weakWrap content) = [weakWrap content] := by
  have hcomma : ',' ∉ weakWrap content := by simpa [weakWrap] using h
  rw [headerPieces_of_not_mem hcomma, trimText_weakWrap]

/-- The piece before the first comma of a tag is not empty. -/
theorem exists_piece_weakWrap (content : Text) :
    ∃ piece ∈ headerPieces (weakWrap content), piece ≠ [] := by
  have hspace : isSpace '"' = false := by decide
  by_cases hcomma : ',' ∈ content
  · obtain ⟨before, after, rfl, hbefore⟩ := List.eq_append_cons_of_mem hcomma
    have hsplit : weakWrap (before ++ ',' :: after) =
        ('W' :: '/' :: '"' :: before) ++ ',' :: (after ++ ['"']) := by simp [weakWrap]
    have hfirst : ',' ∉ 'W' :: '/' :: '"' :: before := by simpa using hbefore
    rw [hsplit, headerPieces_append, headerPieces_of_not_mem hfirst]
    have hquote : '"' ∈ trimText ('W' :: '/' :: '"' :: before) := mem_trimText hspace (by simp)
    exact ⟨_, List.mem_append_left _ List.mem_cons_self, List.ne_nil_of_mem hquote⟩
  · rw [headerPieces_weakWrap hcomma]
    exact ⟨weakWrap content, by simp, by simp [weakWrap]⟩

/-- A tag is found again in every header that lists it, and is found for no entity of another tag
in a header, exactly if it has no comma. -/
theorem echoed_iff (htag : encodeEtagToken conv config state = some tag) :
    ((∀ parse ∈ [parseIfMatch, parseIfNoneMatch], ∀ header tags, ListsTags header tags →
        tag ∈ tags → HeaderMatches parse tag header) ↔ CommaFree conv config state) ∧
      ((∀ parse ∈ [parseIfMatch, parseIfNoneMatch], ∀ header tags state' tag',
        ListsTags header tags → tag ∈ tags → encodeEtagToken conv config state' = some tag' →
        ¬ SameSerialized conv config state state' →
        (∀ listed ∈ tags, listed ≠ tag → ¬ HeaderMatches parse tag' listed) →
        ¬ HeaderMatches parse tag' header) ↔ CommaFree conv config state) := by
  obtain ⟨text, content, htext, rfl, hneedle, hcontent, hfree⟩ := text_of_tag htag
  rw [hfree]
  have hsingle := listsTags_singleton (isEntityTag_weakWrap content)
  have hmem : parseIfMatch ∈ [parseIfMatch, parseIfNoneMatch] := by simp
  refine ⟨⟨fun hecho => ?_, fun hcomma => ?_⟩, ⟨fun hforeign => ?_, fun hcomma => ?_⟩⟩
  · obtain ⟨listed, -, piece, hpiece, -, heq⟩ :=
      (headerMatches_iff hmem hsingle (List.cons_ne_nil _ _)).mp
        (hecho _ hmem _ _ hsingle List.mem_cons_self)
    rw [hneedle] at heq
    rw [← heq]
    exact not_mem_normaliseTagForComparison (not_mem_of_mem_headerPieces hpiece)
  · intro parse hparse header tags hlists hlisted
    refine (headerMatches_iff hparse hlists (List.ne_nil_of_mem hlisted)).mpr
      ⟨_, hlisted, weakWrap content, ?_, by simp [weakWrap], rfl⟩
    rw [headerPieces_weakWrap fun h => hcomma (hcontent.mp h)]
    exact List.mem_cons_self
  · intro hcomma
    have hlength : config.properties.length = 1 := by
      by_contra hlength
      exact hfree.mp (commaFree_composite hlength) hcomma
    obtain ⟨p, hproperties⟩ := List.length_eq_one_iff.mp hlength
    obtain ⟨piece, hpiece, hne⟩ := exists_piece_weakWrap content
    -- an entity whose value is what the first piece reads as
    have hstate : encodeEtagToken conv config (fun _ => .str (normaliseTagForComparison piece)) =
        some (weakWrap (escapeEtagValue (normaliseTagForComparison piece))) := by
      simp [encodeEtagToken, hproperties, serializeAtomicValue]
    refine hforeign _ hmem _ _ _ _ hsingle List.mem_cons_self hstate ?_ ?_ ?_
    · intro hsame
      have hvalue := hsame p (by simp [hproperties])
      simp only [tagText, hproperties] at htext
      rw [htext, serializeAtomicValue, Option.some.injEq] at hvalue
      rw [hvalue] at hcomma
      exact not_mem_normaliseTagForComparison (not_mem_of_mem_headerPieces hpiece) hcomma
    · intro listed hlisted hother
      exact absurd (List.mem_singleton.mp hlisted) hother
    · refine (headerMatches_iff hmem hsingle (List.cons_ne_nil _ _)).mpr
        ⟨_, List.mem_cons_self, piece, hpiece, hne, ?_⟩
      rw [normaliseTagForComparison_weakWrap, unescapeEtagValue_escapeEtagValue]
  · intro parse hparse header tags state' tag' hlists hlisted htag' hdiffer hothers hmatches
    obtain ⟨text', content', htext', rfl, hneedle', -, -⟩ := text_of_tag htag'
    obtain ⟨listed, hmemlisted, hpieces⟩ :=
      (headerMatches_iff hparse hlists (List.ne_nil_of_mem hlisted)).mp hmatches
    by_cases hsame : listed = weakWrap content
    · obtain ⟨piece, hpiece, -, heq⟩ := hpieces
      rw [hsame, headerPieces_weakWrap fun h => hcomma (hcontent.mp h),
        List.mem_singleton] at hpiece
      rw [hpiece, hneedle, hneedle'] at heq
      rw [← heq] at htext'
      exact hdiffer (sameSerialized_of_tagText htext htext')
    · refine hothers listed hmemlisted hsame ?_
      exact (headerMatches_iff hparse (listsTags_singleton (hlists.1 listed hmemlisted))
        (List.cons_ne_nil _ _)).mpr ⟨listed, List.mem_cons_self, hpieces⟩

/-- An entity of this revision. -/
def revisionState (text : Text) : EtagState := fun _ => .str text

theorem echoed_revision :
    HeaderMatches parseIfNoneMatch "W/\"r1\"".toList "\"x,y\" ,  W/\"r1\"".toList := by
  have hfree : CommaFree sampleConversions revisionConfig (revisionState "r1".toList) := by
    rintro p - text ⟨⟩
    decide
  have hlists : ListsTags "\"x,y\" ,  W/\"r1\"".toList
      ["\"x,y\"".toList, "W/\"r1\"".toList] := by
    refine ⟨?_, ["\"x,y\" ".toList, "  W/\"r1\"".toList], ?_, by decide⟩
    · intro tag htag
      rcases List.mem_pair.mp htag with rfl | rfl
      · exact ⟨"x,y".toList, .inr rfl⟩
      · exact isEntityTag_weakWrap "r1".toList
    · refine .cons ⟨[], [' '], rfl, by decide, rfl⟩ (.cons ?_ .nil)
      exact ⟨"  ".toList, [], by decide, rfl, rfl⟩
  have htag : encodeEtagToken sampleConversions revisionConfig (revisionState "r1".toList) =
      some "W/\"r1\"".toList := rfl
  exact (echoed_iff htag).1.mpr hfree parseIfNoneMatch (by simp) _ _ hlists (by simp)

/-- A tag with a comma is not found in a header that it makes up alone. -/
theorem not_echoed_comma :
    ¬ ∀ state tag header tags, encodeEtagToken sampleConversions revisionConfig state = some tag →
      ListsTags header tags → tag ∈ tags → HeaderMatches parseIfMatch tag header := by
  intro h
  have hlists := listsTags_singleton (isEntityTag_weakWrap "a,b".toList)
  obtain ⟨listed, -, piece, hpiece, -, heq⟩ :=
    (headerMatches_iff (by simp) hlists (List.cons_ne_nil _ _)).mp
      (h (revisionState "a,b".toList) _ _ _ rfl hlists List.mem_cons_self)
  have hnot := not_mem_normaliseTagForComparison (not_mem_of_mem_headerPieces hpiece)
  rw [heq] at hnot
  exact absurd hnot (by decide)

end Entities

end LoopbackOData
