import LoopbackOData.Entities.KeySegments

/-!
# The segments of a reference

What is left of the URL of an entity when it is read as a reference.
-/

namespace LoopbackOData

open Separated

set_option autoImplicit false

/-! ## Plain services -/

/-- The characters that names in paths consist of. -/
def isPlainChar (c : Char) : Bool := c.isAlphanum || c ∈ "-._~".toList

/-- A segment of the service's own path. -/
structure IsPlainSegment (segment : Text) : Prop where
  ne_nil : segment ≠ []
  chars : ∀ c ∈ segment, isPlainChar c = true
  singleDot : isSingleDot segment = false
  doubleDot : isDoubleDot segment = false

/-- The segments behind a slash each. -/
def rootPath (segments : List Text) : Text := segments.flatMap ('/' :: ·)

/-- The path of the service consists of these segments. -/
structure Service.IsRootedAt (service : Service) (segments : List Text) : Prop where
  plain : ∀ segment ∈ segments, IsPlainSegment segment
  basePath : service.normalizedBasePath = if segments = [] then ['/'] else rootPath segments

/-- A service that a URL can name as it is. -/
structure Service.IsPlain (urls : UrlParser) (service : Service) : Prop where
  host : ∀ host ∈ service.host, urls.keepsHost (service.protocol.getD .http) host = true
  setName_ne : service.setName ≠ []
  setName : ∀ c ∈ service.setName, isPlainChar c = true
  rooted : ∃ segments, service.IsRootedAt segments

/-- The case mapping of the runtime is the known one on ASCII characters. -/
def Environment.LowersAscii (env : Environment) : Prop :=
  ∀ c : Char, c.toNat < 128 → env.rt.lowerChar c = [c.toLower]

theorem toNat_of_isPlainChar {c : Char} (hc : isPlainChar c = true) : c.toNat < 128 := by
  rw [isPlainChar, Bool.or_eq_true] at hc
  rcases hc with hc | hc
  · simp only [Char.isAlphanum, Char.isAlpha, Char.isUpper, Char.isLower, Char.isDigit,
      Bool.or_eq_true, Bool.and_eq_true, decide_eq_true_eq, ge_iff_le, UInt32.le_iff_toNat_le] at hc
    have h1 : (('Z' : Char).val).toNat = 90 := rfl
    have h2 : (('z' : Char).val).toNat = 122 := rfl
    have h3 : (('9' : Char).val).toNat = 57 := rfl
    have h4 : c.toNat = c.val.toNat := rfl
    rcases hc with (hc | hc) | hc <;> omega
  · simp only [String.reduceToList, decide_eq_true_eq, List.mem_cons, List.not_mem_nil,
      or_false] at hc
    rcases hc with rfl | rfl | rfl | rfl <;> decide

theorem forall_ascii (p : Char → Bool) (h : ∀ n : Fin 128, p (Char.ofNat n) = true) {c : Char}
    (hc : c.toNat < 128) : p c = true := by
  have := h ⟨c.toNat, hc⟩
  rwa [Char.ofNat_toNat] at this

theorem ne_of_isPlainChar {c d : Char} (hc : isPlainChar c = true) (hd : isPlainChar d = false) :
    c ≠ d := by
  rintro rfl
  rw [hc] at hd
  cases hd

theorem isPathEncoded_of_isPlainChar {c : Char} (hc : isPlainChar c = true) :
    isPathEncoded c = false := by
  have h := forall_ascii (fun c => !isPlainChar c || !isPathEncoded c) (by decide +kernel)
    (toNat_of_isPlainChar hc)
  simpa [hc] using h

theorem encodePath_of_plain {s : Text} (h : ∀ c ∈ s, isPlainChar c = true) : encodePath s = s := by
  induction s with
  | nil => rfl
  | cons c s ih =>
    rw [List.forall_mem_cons] at h
    rw [encodePath_cons_of_false (isPathEncoded_of_isPlainChar h.1), ih h.2]

theorem toNat_of_mem_encodePath {c : Char} {s : Text} (h : c ∈ encodePath s) : c.toNat < 128 := by
  have hbyte (b : UInt8) : ∀ c ∈ percentByte b, c.toNat < 128 := by
    apply forall_byte _ b
    decide +kernel
  rw [encodePath, List.mem_flatMap] at h
  obtain ⟨d, _, hc⟩ := h
  split at hc
  · rw [List.mem_flatMap] at hc
    obtain ⟨b, _, hc⟩ := hc
    exact hbyte b c hc
  · next hd =>
    rw [List.mem_singleton] at hc
    subst hc
    simp only [isPathEncoded, Bool.or_eq_true, decide_eq_true_eq, not_or] at hd
    omega

theorem not_mem_encodePath {c : Char} (hc : c = '/' ∨ c = '?' ∨ c = '#') {s : Text}
    (h : c = '/' → '/' ∉ s) : c ∉ encodePath s := by
  rw [encodePath, List.mem_flatMap]
  rintro ⟨d, hd, hmem⟩
  split at hmem
  · rw [List.mem_flatMap] at hmem
    obtain ⟨b, _, hmem⟩ := hmem
    have := percentByte_plain b
    rcases hc with rfl | rfl | rfl
    · exact this.2.2.2.1 hmem
    · exact this.2.2.2.2.1 hmem
    · exact this.2.2.2.2.2 hmem
  · next hnot =>
    rw [List.mem_singleton] at hmem
    subst hmem
    rcases hc with rfl | rfl | rfl
    · exact h rfl hd
    · exact hnot (by decide)
    · exact hnot (by decide)

section Roots

variable {segments : List Text} (hplain : ∀ segment ∈ segments, IsPlainSegment segment)
include hplain

theorem mem_rootPath {c : Char} (hc : c ∈ rootPath segments) : c = '/' ∨ isPlainChar c = true := by
  rw [rootPath, List.mem_flatMap] at hc
  obtain ⟨segment, hsegment, hc⟩ := hc
  rcases List.mem_cons.mp hc with rfl | hc
  · exact Or.inl rfl
  · exact Or.inr ((hplain segment hsegment).chars c hc)

theorem not_mem_rootPath {c : Char} (hslash : c ≠ '/') (hc : isPlainChar c = false) :
    c ∉ rootPath segments := by
  intro h
  rcases mem_rootPath hplain h with h | h
  · exact hslash h
  · rw [h] at hc
    cases hc

theorem toNat_of_mem_rootPath {c : Char} (hc : c ∈ rootPath segments) : c.toNat < 128 := by
  rcases mem_rootPath hplain hc with rfl | hc
  · decide
  · exact toNat_of_isPlainChar hc

/-- The path has one slash in front. -/
theorem dropWhile_rootPath {tail : Text} (htail : tail.head? ≠ some '/') :
    (rootPath segments ++ '/' :: tail).dropWhile (· = '/') =
      (rootPath segments ++ '/' :: tail).drop 1 := by
  cases segments with
  | nil =>
    cases tail with
    | nil => rfl
    | cons c tail =>
      have hc : c ≠ '/' := fun h => htail (by rw [h]; rfl)
      simp [rootPath, hc]
  | cons segment segments =>
    obtain ⟨c, rest, rfl⟩ := List.exists_cons_of_ne_nil (hplain segment List.mem_cons_self).ne_nil
    have hc : c ≠ '/' := ne_of_isPlainChar
      ((hplain _ List.mem_cons_self).chars c List.mem_cons_self) (by decide)
    simp [rootPath, hc]

theorem rootPath_append_eq (tail : Text) :
    '/' :: (rootPath segments ++ '/' :: tail).drop 1 = rootPath segments ++ '/' :: tail := by
  cases segments <;> rfl

theorem cutReferencePath_rootPath {tail : Text} (htail : tail.head? ≠ some '/') :
    cutReferencePath (rootPath segments ++ '/' :: tail) =
      rootPath segments ++ '/' :: tail.takeWhile fun c => c ≠ '?' ∧ c ≠ '#' := by
  have hstart : startsWith (rootPath segments ++ '/' :: tail) ['/'] = true := by
    rw [← rootPath_append_eq hplain]
    rfl
  have hroot : ∀ c ∈ rootPath segments, decide (c ≠ '?' ∧ c ≠ '#') = true := by
    intro c hc
    rw [decide_eq_true_eq]
    constructor <;> rintro rfl
    · exact not_mem_rootPath hplain (by decide) (by decide) hc
    · exact not_mem_rootPath hplain (by decide) (by decide) hc
  have htake : (tail.takeWhile fun c => c ≠ '?' ∧ c ≠ '#').head? ≠ some '/' := by
    intro h
    cases tail with
    | nil => cases h
    | cons c tail =>
      rw [List.takeWhile_cons] at h
      split at h
      · exact htail h
      · cases h
  rw [cutReferencePath, withLeadingSlash, if_pos hstart, List.takeWhile_append_of_pos hroot,
    List.takeWhile_cons_of_pos (by decide), dropWhile_rootPath hplain htake,
    rootPath_append_eq hplain]

end Roots

/-! ## Parts of paths -/

theorem pathParts_cons_slash (s : Text) : pathParts ('/' :: s) = pathParts s := by
  simp only [pathParts, List.splitOn, List.splitOnP_cons_eq_if_modifyHead]
  rfl

theorem pathParts_withLeadingSlash (s : Text) : pathParts (withLeadingSlash s) = pathParts s := by
  unfold withLeadingSlash
  split
  · rfl
  · exact pathParts_cons_slash s

theorem pathParts_append_slash (s t : Text) :
    pathParts (s ++ '/' :: t) = pathParts s ++ pathParts t := by
  rw [pathParts, List.splitOn, List.splitOnP_append_cons _ _ (by simp), List.filter_append]
  rfl

theorem pathParts_rootPath {pieces : List Text} (h : ∀ piece ∈ pieces, '/' ∉ piece) :
    pathParts (rootPath pieces) = pieces.filter (· ≠ []) := by
  rw [pathParts, List.splitOn, rootPath, splitOnP_join (by simp)]
  · rfl
  · intro piece hpiece c hc
    rw [beq_eq_false_iff_ne]
    rintro rfl
    exact h piece hpiece hc

/-! ## The root of the service -/

section Service

variable {env : Environment} {service : Service} {segments : List Text} {reference : Text}

theorem toLowerCase_append (s t : Text) :
    env.rt.toLowerCase (s ++ t) = env.rt.toLowerCase s ++ env.rt.toLowerCase t :=
  List.flatMap_append

theorem toLowerCase_cons_slash (hlower : env.LowersAscii) (s : Text) :
    env.rt.toLowerCase ('/' :: s) = '/' :: env.rt.toLowerCase s := by
  rw [Runtime.toLowerCase, List.flatMap_cons, hlower '/' (by decide)]
  rfl

theorem toLowerCase_of_ascii (hlower : env.LowersAscii) {s : Text}
    (h : ∀ c ∈ s, c.toNat < 128) : env.rt.toLowerCase s = asciiLower s := by
  induction s with
  | nil => rfl
  | cons c s ih =>
    rw [List.forall_mem_cons] at h
    have hs := ih h.2
    rw [Runtime.toLowerCase, List.flatMap_cons, hlower c h.1]
    rw [Runtime.toLowerCase] at hs
    rw [hs]
    rfl

theorem rootPath_ne (hplain : ∀ segment ∈ segments, IsPlainSegment segment)
    (hne : segments ≠ []) : rootPath segments ≠ [] ∧ rootPath segments ≠ ['/'] := by
  obtain ⟨segment, rest, rfl⟩ := List.exists_cons_of_ne_nil hne
  have := (hplain segment List.mem_cons_self).ne_nil
  simp [rootPath, this]

theorem stripServiceRoot_rootPath (hlower : env.LowersAscii) (hrooted : service.IsRootedAt segments)
    (tail : Text) :
    stripServiceRoot env service reference (rootPath segments ++ '/' :: tail) =
      .ok ('/' :: tail) := by
  obtain ⟨hplain, hbase⟩ := hrooted
  have hstart : startsWith (rootPath segments ++ '/' :: tail) ['/'] = true := by
    rw [← rootPath_append_eq hplain]
    rfl
  unfold stripServiceRoot
  by_cases hsegments : segments = []
  · subst hsegments
    rw [hbase, if_pos rfl]
    rfl
  · obtain ⟨hne, hslash⟩ := rootPath_ne hplain hsegments
    have hpre : startsWith (env.rt.toLowerCase (rootPath segments ++ '/' :: tail))
        (env.rt.toLowerCase (rootPath segments) ++ ['/']) = true := by
      rw [toLowerCase_append, toLowerCase_cons_slash hlower, ← List.singleton_append,
        ← List.append_assoc]
      exact startsWith_append _ _
    have hlong : env.rt.toLowerCase (rootPath segments ++ '/' :: tail) ≠
        env.rt.toLowerCase (rootPath segments) := by
      rw [toLowerCase_append, toLowerCase_cons_slash hlower]
      simp
    rw [hbase, if_neg hsegments]
    simp only [matchesServiceRootPrefix, stripBasePath, hstart, hne, hslash, hpre, hlong]
    simp [withLeadingSlash, startsWith]

/-- Taking away the root leaves parts of the path. -/
theorem pathParts_stripServiceRoot (hlower : env.LowersAscii)
    (hrooted : service.IsRootedAt segments) {path stripped : Text}
    (hascii : ∀ c ∈ path, c.toNat < 128)
    (h : stripServiceRoot env service reference path = .ok stripped) :
    ∀ part ∈ pathParts stripped, part ∈ pathParts path := by
  obtain ⟨hplain, hbase⟩ := hrooted
  have hbaseAscii : ∀ c ∈ service.normalizedBasePath, c.toNat < 128 := by
    intro c hc
    rw [hbase] at hc
    split at hc
    · rw [List.mem_singleton] at hc
      subst hc
      decide
    · exact toNat_of_mem_rootPath hplain hc
  unfold stripServiceRoot at h
  dsimp only at h
  split at h
  · cases h
    rw [pathParts_withLeadingSlash]
    unfold stripBasePath
    dsimp only
    split
    · exact fun part hpart => hpart
    · split
      · intro part hpart
        cases hpart
      · split
        · next hpre =>
          rw [toLowerCase_of_ascii hlower hascii, toLowerCase_of_ascii hlower hbaseAscii,
            startsWith, List.isPrefixOf_iff_prefix] at hpre
          obtain ⟨rest, hrest⟩ := hpre
          rw [List.append_assoc, asciiLower, asciiLower, eq_comm] at hrest
          obtain ⟨front, back, rfl, hfront, hback⟩ := List.map_eq_append_iff.mp hrest
          obtain ⟨c, back, rfl, hc, hrest⟩ := List.map_eq_cons_iff.mp hback
          have hslash : c = '/' := by
            have := forall_ascii (fun c => c.toLower != '/' || c == '/') (by decide +kernel)
              (hascii c (by simp))
            simpa [hc] using this
          have hlength : service.normalizedBasePath.length = front.length := by
            simpa using (congrArg List.length hfront).symm
          rw [hlength, List.drop_left, hslash, pathParts_cons_slash, pathParts_append_slash]
          exact fun part hpart => List.mem_append_right _ hpart
        · exact fun part hpart => hpart
  · cases h

end Service

theorem pathParts_dropWhile (s : Text) : pathParts (s.dropWhile (· = '/')) = pathParts s := by
  induction s with
  | nil => rfl
  | cons c s ih =>
    by_cases hc : c = '/'
    · rw [List.dropWhile_cons_of_pos (by simpa using hc), ih, hc, pathParts_cons_slash]
    · rw [List.dropWhile_cons_of_neg (by simpa using hc)]

theorem pathParts_cutReferencePath {s : Text} (h : ∀ c ∈ s, c ≠ '?' ∧ c ≠ '#') :
    pathParts (cutReferencePath s) = pathParts s := by
  have hall : ∀ c ∈ withLeadingSlash s, decide (c ≠ '?' ∧ c ≠ '#') = true := by
    intro c hc
    rw [decide_eq_true_eq]
    unfold withLeadingSlash at hc
    split at hc
    · exact h c hc
    · rcases List.mem_cons.mp hc with rfl | hc
      · decide
      · exact h c hc
  rw [cutReferencePath, List.takeWhile_eq_self_iff.mpr hall, pathParts_cons_slash,
    pathParts_dropWhile, pathParts_withLeadingSlash]

/-! ## The path of a URL -/

section Pieces

variable {service : Service} {segments : List Text}

/-- The characters that a URL drops. -/
def Service.removes (service : Service) (c : Char) : Bool :=
  service.host.isSome && (c = '\t' || c = '\n' || c = '\r')

def endsPath (c : Char) : Bool := c = '?' || c = '#'

def Service.separates (service : Service) (c : Char) : Bool :=
  c = '/' || (service.host.isSome && c = '\\')

/-- The characters that a reference to the service cannot have in a key. -/
def Service.breaks (service : Service) (c : Char) : Bool :=
  service.removes c || endsPath c || service.separates c

/-- What reading a reference makes of a text at the end of its path. -/
def Service.pieces (service : Service) (s : Text) : List Text :=
  ((s.filter fun c => !service.removes c).takeWhile fun c => !endsPath c).splitOnP
    service.separates

theorem piece_sublist {s piece : Text} (h : piece ∈ service.pieces s) :
    piece.Sublist (s.filter fun c => !service.breaks c) := by
  have hsub := mem_splitOnP h
  have htake := (List.takeWhile_sublist (fun c => !endsPath c)
    (l := s.filter fun c => !service.removes c)).filter fun c => !service.separates c
  have hends : ∀ c ∈ piece, endsPath c = false := by
    intro c hc
    have hmem := List.mem_of_mem_filter (hsub.subset hc)
    simpa using List.mem_takeWhile_imp hmem
  have hall := (hsub.trans htake).filter fun c => !endsPath c
  have heq : (fun c => (!endsPath c && !service.separates c) && !service.removes c) =
      fun c => !service.breaks c := by
    funext c
    simp only [Service.breaks]
    cases endsPath c <;> cases service.separates c <;> cases service.removes c <;> rfl
  rw [List.filter_eq_self.mpr fun c hc => by simp [hends c hc], List.filter_filter,
    List.filter_filter, heq] at hall
  exact hall

theorem pieces_of_not_breaks {s : Text} (h : ∀ c ∈ s, service.breaks c = false) :
    service.pieces s = [s] := by
  have hparts (c : Char) (hc : c ∈ s) : service.removes c = false ∧ endsPath c = false ∧
      service.separates c = false := by
    have := h c hc
    simpa [Service.breaks, and_assoc] using this
  unfold Service.pieces
  rw [List.filter_eq_self.mpr fun c hc => by simp [hparts c hc],
    List.takeWhile_eq_self_iff.mpr fun c hc => by simp [hparts c hc],
    List.splitOnP_eq_singleton fun c hc => (hparts c hc).2.2]

theorem breaks_of_isPlainChar {c : Char} (hc : isPlainChar c = true) :
    service.removes c = false ∧ endsPath c = false ∧ service.separates c = false := by
  have hne (d : Char) (hd : isPlainChar d = false) : c ≠ d := ne_of_isPlainChar hc hd
  have h1 := hne '\t' (by decide)
  have h2 := hne '\n' (by decide)
  have h3 := hne '\r' (by decide)
  have h4 := hne '?' (by decide)
  have h5 := hne '#' (by decide)
  have h6 := hne '/' (by decide)
  have h7 := hne '\\' (by decide)
  simp [Service.removes, endsPath, Service.separates, h1, h2, h3, h4, h5, h6, h7]

theorem resolveSegments_of_plain {before plain rest : List Text}
    (h : ∀ segment ∈ plain, IsPlainSegment segment) :
    resolveSegments before (plain ++ rest) = resolveSegments (plain.reverse ++ before) rest := by
  induction plain generalizing before with
  | nil => rfl
  | cons segment plain ih =>
    rw [List.forall_mem_cons] at h
    rw [List.cons_append, resolveSegments, if_neg (by simp [h.1.doubleDot]),
      if_neg (by simp [h.1.singleDot]), encodePath_of_plain h.1.chars, ih h.2,
      List.reverse_cons, List.append_assoc]
    rfl

/-- Resolving dots drops segments and does not make new ones. -/
theorem mem_resolveSegments {before rest : List Text} {segment : Text}
    (h : segment ∈ resolveSegments before rest) :
    segment ∈ before ∨ segment = [] ∨ ∃ s ∈ rest, segment = encodePath s := by
  fun_induction resolveSegments before rest with
  | case1 before => exact Or.inl (List.mem_reverse.mp h)
  | case2 before s rest atEnd hdot ih =>
    rcases ih h with hmem | hnil | ⟨t, ht, heq⟩
    · have hsplit : segment = [] ∨ segment ∈ before.drop 1 := by
        simp only [atEnd] at hmem
        split at hmem
        · exact List.mem_cons.mp hmem
        · exact Or.inr hmem
      rcases hsplit with hnil | hdrop
      · exact Or.inr (Or.inl hnil)
      · exact Or.inl (List.mem_of_mem_drop hdrop)
    · exact Or.inr (Or.inl hnil)
    · exact Or.inr (Or.inr ⟨t, List.mem_cons_of_mem _ ht, heq⟩)
  | case3 before s rest atEnd hdouble hdot ih =>
    rcases ih h with hmem | hnil | ⟨t, ht, heq⟩
    · have hsplit : segment = [] ∨ segment ∈ before := by
        simp only [atEnd] at hmem
        split at hmem
        · exact List.mem_cons.mp hmem
        · exact Or.inr hmem
      rcases hsplit with hnil | hbefore
      · exact Or.inr (Or.inl hnil)
      · exact Or.inl hbefore
    · exact Or.inr (Or.inl hnil)
    · exact Or.inr (Or.inr ⟨t, List.mem_cons_of_mem _ ht, heq⟩)
  | case4 before s rest hdouble hdot ih =>
    rcases ih h with hmem | hnil | ⟨t, ht, heq⟩
    · rcases List.mem_cons.mp hmem with heq | hbefore
      · exact Or.inr (Or.inr ⟨s, List.mem_cons_self, heq⟩)
      · exact Or.inl hbefore
    · exact Or.inr (Or.inl hnil)
    · exact Or.inr (Or.inr ⟨t, List.mem_cons_of_mem _ ht, heq⟩)

theorem urlPathname_rootPath (hhost : service.host.isSome = true)
    (hplain : ∀ segment ∈ segments, IsPlainSegment segment) (tail : Text) :
    urlPathname (rootPath segments ++ '/' :: tail) =
      rootPath (resolveSegments [] (segments ++ service.pieces tail)) := by
  have hslash : service.removes '/' = false ∧ endsPath '/' = false ∧
      service.separates '/' = true := by
    simp [Service.removes, endsPath, Service.separates]
  have hroot (c : Char) (hc : c ∈ rootPath segments) :
      service.removes c = false ∧ endsPath c = false := by
    rcases mem_rootPath hplain hc with rfl | hc
    · exact ⟨hslash.1, hslash.2.1⟩
    · have h := @breaks_of_isPlainChar service _ hc
      exact ⟨h.1, h.2.1⟩
  have hremoves : (fun c : Char => decide (c ≠ '\t' ∧ c ≠ '\n' ∧ c ≠ '\r')) =
      fun c => !service.removes c := by
    funext c
    rw [Bool.eq_iff_iff]
    simp [Service.removes, hhost, and_assoc]
  have hends : (fun c : Char => decide (c ≠ '?' ∧ c ≠ '#')) = fun c => !endsPath c := by
    funext c
    rw [Bool.eq_iff_iff]
    simp [endsPath]
  have hseparates : (fun c : Char => decide (c = '/') || decide (c = '\\')) =
      service.separates := by
    funext c
    simp [Service.separates, hhost]
  have hclean : (((rootPath segments ++ '/' :: tail).filter fun c => !service.removes c).takeWhile
      fun c => !endsPath c) = rootPath segments ++ '/' ::
        ((tail.filter fun c => !service.removes c).takeWhile fun c => !endsPath c) := by
    rw [List.filter_append, List.filter_eq_self.mpr fun c hc => by simp [hroot c hc],
      List.filter_cons_of_pos (by simp [hslash]),
      List.takeWhile_append_of_pos fun c hc => by simp [hroot c hc],
      List.takeWhile_cons_of_pos (by simp [hslash])]
  have hsplit : splitPath ((rootPath segments ++ '/' ::
      ((tail.filter fun c => !service.removes c).takeWhile fun c => !endsPath c)).drop 1) =
        segments ++ service.pieces tail := by
    have hjoin := @splitOnP_join_append _ _ _ hslash.2.2 segments
      (fun segment hsegment c hc =>
        (breaks_of_isPlainChar ((hplain segment hsegment).chars c hc)).2.2)
      ((tail.filter fun c => !service.removes c).takeWhile fun c => !endsPath c)
    rw [← rootPath, ← rootPath_append_eq hplain, List.splitOnP_cons_eq_if_modifyHead,
      if_pos hslash.2.2, List.cons_append, List.cons_inj_right] at hjoin
    rw [splitPath, hseparates, hjoin]
    rfl
  unfold urlPathname
  dsimp only
  rw [hremoves, hends, hclean, hsplit]
  rfl

end Pieces

/-! ## The URL of an entity as a reference -/

section Located

variable {env : Environment} {urls : UrlParser} {service : Service} {segments : List Text}

/-- A text under the root of the service. -/
def Service.located (service : Service) (segments : List Text) (tail : Text) : Text :=
  service.requestOrigin.getD [] ++ (rootPath segments ++ '/' :: tail)

/-- The segment that names an entity by its key. -/
def Service.entitySegment (service : Service) (literal : Text) : Text :=
  service.setName ++ '(' :: (literal ++ [')'])

theorem buildEntityLocationUrl_eq (hrooted : service.IsRootedAt segments) (id : Atom)
    (definition : PropertyDefinition) : buildEntityLocationUrl env service id definition =
      (serializeKeyLiteralValue env id definition).map fun literal =>
        service.located segments (service.entitySegment literal) := by
  obtain ⟨hplain, hbase⟩ := hrooted
  have hpre : (if normalizeBasePath service.basePath = ['/'] then []
      else normalizeBasePath service.basePath) = rootPath segments := by
    rw [Service.normalizedBasePath] at hbase
    by_cases hsegments : segments = []
    · subst hsegments
      rw [hbase, if_pos rfl, if_pos rfl]
      rfl
    · rw [hbase, if_neg hsegments, if_neg (rootPath_ne hplain hsegments).2]
  rw [buildEntityLocationUrl, buildEntityKeyLiteral, Option.map_map]
  congr 1
  funext literal
  simp only [Function.comp_apply, hpre, Service.located, Service.entitySegment]
  cases service.requestOrigin <;> rfl

theorem getLast?_located (literal : Text) :
    (service.located segments (service.entitySegment literal)).getLast? = some ')' := by
  have h : service.located segments (service.entitySegment literal) =
      (service.requestOrigin.getD [] ++ rootPath segments ++ '/' :: service.setName ++
        '(' :: literal) ++ [')'] := by
    simp [Service.located, Service.entitySegment]
  rw [h, List.getLast?_concat]

theorem head_entitySegment (hset : service.setName ≠ [])
    (hchars : ∀ c ∈ service.setName, isPlainChar c = true) (literal : Text) :
    (service.entitySegment literal).head? ≠ some '/' := by
  obtain ⟨c, rest, hname⟩ := List.exists_cons_of_ne_nil hset
  rw [Service.entitySegment, hname]
  rw [hname] at hchars
  have hc := ne_of_isPlainChar (hchars c List.mem_cons_self) (d := '/') (by decide)
  simpa using hc

theorem normalizeReferencePath_relative (hlower : env.LowersAscii)
    (hrooted : service.IsRootedAt segments) (hset : service.setName ≠ [])
    (hchars : ∀ c ∈ service.setName, isPlainChar c = true) (hhost : service.host = none)
    (literal : Text) :
    normalizeReferencePath env urls service
        (service.located segments (service.entitySegment literal)) =
      .ok ('/' :: (service.entitySegment literal).takeWhile fun c => c ≠ '?' ∧ c ≠ '#') := by
  have hlast := @getLast?_located service segments literal
  have hhead := head_entitySegment hset hchars literal
  have hlocated : service.located segments (service.entitySegment literal) =
      rootPath segments ++ '/' :: service.entitySegment literal := by
    simp [Service.located, Service.requestOrigin, hhost]
  obtain ⟨rest, hrest⟩ : ∃ rest, rootPath segments ++ '/' :: service.entitySegment literal =
      '/' :: rest := ⟨_, (rootPath_append_eq hrooted.plain _).symm⟩
  have hdouble : startsWith ('/' :: rest) "//".toList = false := by
    have hdrop := dropWhile_rootPath hrooted.plain hhead
    rw [hrest] at hdrop
    rw [Bool.eq_false_iff]
    intro hstarts
    rw [startsWith, List.isPrefixOf_iff_prefix] at hstarts
    obtain ⟨after, hafter⟩ := hstarts
    rw [← hafter] at hdrop
    have hlength := congrArg List.length hdrop
    have hle := (List.dropWhile_sublist (· = '/') (l := after)).length_le
    simp only [String.reduceToList, List.cons_append, List.nil_append, decide_true,
      List.dropWhile_cons_of_pos, List.drop_one, List.tail_cons, List.length_cons] at hlength
    omega
  have htrim : trimText ('/' :: rest) = '/' :: rest := by
    rw [hlocated, hrest] at hlast
    apply trimText_of_ends
    · rintro c hc
      cases hc
      decide
    · rw [hlast]
      rintro c hc
      cases hc
      decide
  have habsolute : isAbsoluteReference ('/' :: rest) = false := by
    simp [isAbsoluteReference, Char.isAlpha, Char.isUpper, Char.isLower]
  have hstart : startsWith ('/' :: rest) ['/'] = true := rfl
  rw [hlocated, hrest]
  unfold normalizeReferencePath
  simp only [htrim, habsolute, hdouble, hstart]
  rw [← hrest, cutReferencePath_rootPath hrooted.plain hhead, if_neg (by decide),
    if_neg (by simp)]
  exact stripServiceRoot_rootPath hlower hrooted _

theorem normalizeReferencePath_absolute {host : Text} (hhost : service.host = some host)
    (hkeeps : urls.keepsHost (service.protocol.getD .http) host = true)
    (hplain : ∀ segment ∈ segments, IsPlainSegment segment) (literal : Text) :
    normalizeReferencePath env urls service
        (service.located segments (service.entitySegment literal)) =
      let reference := service.located segments (service.entitySegment literal)
      let path := urlPathname (rootPath segments ++ '/' :: service.entitySegment literal)
      if matchesServiceRootPrefix env path service.normalizedBasePath then
        stripServiceRoot env service reference (cutReferencePath path)
      else invalidReference reference := by
  have hlast := @getLast?_located service segments literal
  have horigin : service.requestOrigin =
      some ((service.protocol.getD .http).text ++ "://".toList ++ host) := by
    rw [Service.requestOrigin, hhost]
    rfl
  have hlocated : service.located segments (service.entitySegment literal) =
      (service.protocol.getD .http).text ++ "://".toList ++ host ++
        (rootPath segments ++ '/' :: service.entitySegment literal) := by
    rw [Service.located, horigin]
    rfl
  have htrim : trimText (service.located segments (service.entitySegment literal)) =
      service.located segments (service.entitySegment literal) := by
    apply trimText_of_ends
    · rw [hlocated]
      cases service.protocol.getD .http <;> (rintro c hc; cases hc; decide)
    · rw [hlast]
      rintro c hc
      cases hc
      decide
  have habsolute : isAbsoluteReference
      (service.located segments (service.entitySegment literal)) = true := by
    rw [hlocated]
    cases service.protocol.getD .http <;>
      simp [isAbsoluteReference, Scheme.text, Char.isAlpha, Char.isUpper, Char.isLower,
        Char.isAlphanum, Char.isDigit]
  have hpath : (rootPath segments ++ '/' :: service.entitySegment literal).head? = some '/' := by
    rw [← rootPath_append_eq hplain]
    rfl
  have hend : ∀ c ∈ (rootPath segments ++ '/' :: service.entitySegment literal).getLast?,
      0x20 < c.toNat := by
    rw [hlocated, List.getLast?_append_of_ne_nil _ (by simp)] at hlast
    rw [hlast]
    rintro c hc
    cases hc
    decide
  unfold normalizeReferencePath
  dsimp only
  rw [htrim, habsolute, Bool.true_or, if_pos rfl]
  unfold absoluteReferencePath
  rw [horigin]
  dsimp only
  rw [hlocated, urls.parse_absolute _ _ _ _ hkeeps hpath hend]
  dsimp only
  by_cases hmatches : matchesServiceRootPrefix env
      (urlPathname (rootPath segments ++ '/' :: service.entitySegment literal))
      service.normalizedBasePath = true
  · rw [if_pos hmatches, if_neg (by simp [hmatches])]
    rfl
  · rw [if_neg hmatches, if_pos (Or.inr hmatches)]
    rfl

theorem not_breaks_entitySegment (hchars : ∀ c ∈ service.setName, isPlainChar c = true)
    {literal : Text} (h : ∀ c ∈ literal, service.breaks c = false) :
    ∀ c ∈ service.entitySegment literal, service.breaks c = false := by
  have hparen : service.breaks '(' = false ∧ service.breaks ')' = false := by
    simp [Service.breaks, Service.removes, endsPath, Service.separates]
  intro c hc
  simp only [Service.entitySegment, List.mem_append, List.mem_cons, List.not_mem_nil,
    or_false] at hc
  rcases hc with hc | rfl | hc | rfl
  · have hplain := @breaks_of_isPlainChar service c (hchars c hc)
    simp [Service.breaks, hplain]
  · exact hparen.1
  · exact h c hc
  · exact hparen.2

theorem not_dot_entitySegment (literal : Text) :
    isSingleDot (service.entitySegment literal) = false ∧
      isDoubleDot (service.entitySegment literal) = false := by
  have hmem : '(' ∈ asciiLower (service.entitySegment literal) := by
    rw [asciiLower, List.mem_map]
    exact ⟨'(', by simp [Service.entitySegment], by decide⟩
  constructor
  · simp only [isSingleDot, decide_eq_false_iff_not, List.map_cons, List.map_nil, List.mem_cons,
      List.not_mem_nil, or_false]
    rintro (h | h) <;> (rw [h] at hmem; revert hmem; decide)
  · simp only [isDoubleDot, decide_eq_false_iff_not, List.map_cons, List.map_nil, List.mem_cons,
      List.not_mem_nil, or_false]
    rintro (h | h | h | h) <;> (rw [h] at hmem; revert hmem; decide)

theorem matchesServiceRootPrefix_of_stripServiceRoot {reference path stripped : Text}
    (h : stripServiceRoot env service reference path = .ok stripped) :
    matchesServiceRootPrefix env path service.normalizedBasePath = true := by
  by_contra hmatches
  unfold stripServiceRoot at h
  dsimp only at h
  rw [if_neg hmatches] at h
  cases h

variable (hlower : env.LowersAscii) (hservice : service.IsPlain urls)
  (hrooted : service.IsRootedAt segments)
include hlower hservice hrooted

theorem normalizeReferencePath_of_not_breaks {literal : Text}
    (h : ∀ c ∈ literal, service.breaks c = false) :
    normalizeReferencePath env urls service
        (service.located segments (service.entitySegment literal)) =
      .ok ('/' :: service.encode (service.entitySegment literal)) := by
  have hbreaks := not_breaks_entitySegment hservice.setName h
  have hhead := head_entitySegment hservice.setName_ne hservice.setName literal
  cases hhost : service.host with
  | none =>
    have htake : ((service.entitySegment literal).takeWhile fun c => c ≠ '?' ∧ c ≠ '#') =
        service.entitySegment literal := by
      rw [List.takeWhile_eq_self_iff]
      intro c hc
      have := hbreaks c hc
      simp only [Service.breaks, endsPath, Bool.or_eq_false_iff, decide_eq_false_iff_not] at this
      rw [decide_eq_true_eq]
      exact this.1.2
    rw [normalizeReferencePath_relative hlower hrooted hservice.setName_ne hservice.setName hhost,
      htake, Service.encode, hhost]
    rfl
  | some host =>
    have hsome : service.host.isSome = true := by rw [hhost]; rfl
    have hpath : urlPathname (rootPath segments ++ '/' :: service.entitySegment literal) =
        rootPath segments ++ '/' :: encodePath (service.entitySegment literal) := by
      obtain ⟨hsingle, hdouble⟩ := @not_dot_entitySegment service literal
      rw [urlPathname_rootPath hsome hrooted.plain, pieces_of_not_breaks hbreaks,
        resolveSegments_of_plain hrooted.plain, resolveSegments, if_neg (by simp [hdouble]),
        if_neg (by simp [hsingle]), resolveSegments, List.append_nil, List.reverse_cons,
        List.reverse_reverse, rootPath, List.flatMap_append]
      simp [rootPath]
    have hencode : (encodePath (service.entitySegment literal)).head? ≠ some '/' :=
      fun hslash => hhead (head_encodePath (by decide) hslash)
    have htake : ((encodePath (service.entitySegment literal)).takeWhile
        fun c => c ≠ '?' ∧ c ≠ '#') = encodePath (service.entitySegment literal) := by
      rw [List.takeWhile_eq_self_iff]
      intro c hc
      rw [decide_eq_true_eq]
      constructor
      · rintro rfl
        exact not_mem_encodePath (Or.inr (Or.inl rfl)) (fun h => absurd h (by decide)) hc
      · rintro rfl
        exact not_mem_encodePath (Or.inr (Or.inr rfl)) (fun h => absurd h (by decide)) hc
    have hstrip := @stripServiceRoot_rootPath env service segments
      (service.located segments (service.entitySegment literal)) hlower hrooted
      (encodePath (service.entitySegment literal))
    rw [normalizeReferencePath_absolute hhost (hservice.host host hhost) hrooted.plain]
    dsimp only
    rw [hpath, if_pos (matchesServiceRootPrefix_of_stripServiceRoot hstrip),
      cutReferencePath_rootPath hrooted.plain hencode, htake, hstrip, Service.encode, if_pos hsome]

theorem parts_of_normalizeReferencePath {literal path : Text}
    (h : normalizeReferencePath env urls service
      (service.located segments (service.entitySegment literal)) = .ok path) :
    ∀ part ∈ pathParts path, IsPlainSegment part ∨
      ∃ piece ∈ service.pieces (service.entitySegment literal), part = service.encode piece := by
  intro part hpart
  cases hhost : service.host with
  | none =>
    rw [normalizeReferencePath_relative hlower hrooted hservice.setName_ne hservice.setName
      hhost] at h
    cases h
    rw [pathParts_cons_slash, pathParts, List.mem_filter] at hpart
    have hpieces : service.pieces (service.entitySegment literal) =
        ((service.entitySegment literal).takeWhile fun c => c ≠ '?' ∧ c ≠ '#').splitOn '/' := by
      have hremoves : (fun c => !service.removes c) = fun _ => true := by
        funext c
        simp [Service.removes, hhost]
      have hends : (fun c : Char => decide (c ≠ '?' ∧ c ≠ '#')) = fun c => !endsPath c := by
        funext c
        rw [Bool.eq_iff_iff]
        simp [endsPath]
      have hseparates : service.separates = (· == '/') := by
        funext c
        rw [Bool.eq_iff_iff]
        simp [Service.separates, hhost]
      rw [Service.pieces, hremoves, hends, hseparates, List.filter_true]
      rfl
    refine Or.inr ⟨part, hpieces ▸ hpart.1, ?_⟩
    rw [Service.encode, hhost]
    rfl
  | some host =>
    have hsome : service.host.isSome = true := by rw [hhost]; rfl
    rw [normalizeReferencePath_absolute hhost (hservice.host host hhost) hrooted.plain] at h
    dsimp only at h
    split at h
    · rw [urlPathname_rootPath hsome hrooted.plain] at h
      generalize hresolved : resolveSegments []
        (segments ++ service.pieces (service.entitySegment literal)) = resolved at h
      have hsegments : ∀ segment ∈ resolved, segment = [] ∨ ∃ s, segment = encodePath s ∧
          '/' ∉ s ∧ (s ∈ segments ∨ s ∈ service.pieces (service.entitySegment literal)) := by
        intro segment hsegment
        rw [← hresolved] at hsegment
        rcases mem_resolveSegments hsegment with hbefore | hnil | ⟨s, hs, heq⟩
        · cases hbefore
        · exact Or.inl hnil
        · refine Or.inr ⟨s, heq, ?_, List.mem_append.mp hs⟩
          rcases List.mem_append.mp hs with hs | hs
          · intro hslash
            exact ne_of_isPlainChar ((hrooted.plain s hs).chars _ hslash) (by decide) rfl
          · intro hslash
            have hmem := List.of_mem_filter ((piece_sublist hs).subset hslash)
            simp [Service.breaks, Service.separates] at hmem
      have hchars : ∀ c ∈ rootPath resolved, c = '/' ∨ ∃ s, c ∈ encodePath s := by
        intro c hc
        rw [rootPath, List.mem_flatMap] at hc
        obtain ⟨segment, hsegment, hc⟩ := hc
        rcases List.mem_cons.mp hc with rfl | hc
        · exact Or.inl rfl
        · rcases hsegments segment hsegment with rfl | ⟨s, rfl, _⟩
          · cases hc
          · exact Or.inr ⟨s, hc⟩
      have hclean : ∀ c ∈ rootPath resolved, c ≠ '?' ∧ c ≠ '#' := by
        intro c hc
        rcases hchars c hc with rfl | ⟨s, hs⟩
        · decide
        · constructor
          · rintro rfl
            exact not_mem_encodePath (Or.inr (Or.inl rfl)) (fun h => absurd h (by decide)) hs
          · rintro rfl
            exact not_mem_encodePath (Or.inr (Or.inr rfl)) (fun h => absurd h (by decide)) hs
      have hascii : ∀ c ∈ cutReferencePath (rootPath resolved), c.toNat < 128 := by
        intro c hc
        rw [cutReferencePath] at hc
        rcases List.mem_cons.mp hc with rfl | hc
        · decide
        · have hmem := (List.takeWhile_sublist _).subset ((List.dropWhile_sublist _).subset hc)
          have hroot : c = '/' ∨ c ∈ rootPath resolved := by
            unfold withLeadingSlash at hmem
            split at hmem
            · exact Or.inr hmem
            · exact List.mem_cons.mp hmem
          rcases hroot with rfl | hroot
          · decide
          · rcases hchars c hroot with rfl | ⟨s, hs⟩
            · decide
            · exact toNat_of_mem_encodePath hs
      have hnoslash : ∀ segment ∈ resolved, '/' ∉ segment := by
        intro segment hsegment
        rcases hsegments segment hsegment with rfl | ⟨s, rfl, hslash, _⟩
        · simp
        · exact not_mem_encodePath (Or.inl rfl) (fun _ => hslash)
      have hmem := pathParts_stripServiceRoot hlower hrooted hascii h part hpart
      rw [pathParts_cutReferencePath hclean, pathParts_rootPath hnoslash, List.mem_filter,
        decide_eq_true_eq] at hmem
      rcases hsegments part hmem.1 with hnil | ⟨s, rfl, _, hs | hs⟩
      · exact absurd hnil hmem.2
      · left
        rw [encodePath_of_plain (hrooted.plain s hs).chars]
        exact hrooted.plain s hs
      · refine Or.inr ⟨s, hs, ?_⟩
        rw [Service.encode, if_pos hsome]
    · cases h

end Located

end LoopbackOData
