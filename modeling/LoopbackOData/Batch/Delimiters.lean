import LoopbackOData.Batch.QueueRefinement

/-!
# Delimiters in a plain payload

What each step of the parser looks for, on a plain list of bytes: the end of the opening boundary,
the blank line after the headers of a part, and the boundary after its body. What is found stays
found when more bytes follow, and what is not found in a beginning ends behind it.
-/

set_option autoImplicit false

namespace LoopbackOData

open ByteQueue Occurrence

def dashes : Bytes := [45, 45]

def lineBreak : Bytes := [13, 10]

theorem boundaryPrefix_eq (boundary : Text) :
    boundaryPrefix boundary = dashes ++ utf8Bytes boundary := rfl

theorem boundaryMarker_eq (boundary : Text) :
    boundaryMarker boundary = lineBreak ++ boundaryPrefix boundary := rfl

theorem closingMarker_eq (boundary : Text) :
    closingMarker boundary = boundaryMarker boundary ++ dashes := by
  simp [closingMarker, boundaryMarker, utf8Bytes, dashes, String.utf8EncodeChar]

/-! ## Reading a list -/

section Reading

variable (bytes : Bytes)

theorem nextTwo_list (a b : UInt8) :
    nextTwo bytes a b = ([a, b].isPrefixOf bytes, bytes) := by
  unfold nextTwo
  match bytes with
  | [] => rfl
  | [_] => simp [List.isPrefixOf]
  | c :: d :: rest =>
    simp only [length_list, byteAt_list, List.length_cons]
    rw [if_neg (by omega)]
    by_cases hc : c = a
    · simp [List.isPrefixOf, hc, eq_comm]
    · simp [List.isPrefixOf, hc, Ne.symm hc]

theorem nextTwo_lineBreak : nextTwo bytes 13 10 = (lineBreak.isPrefixOf bytes, bytes) :=
  nextTwo_list bytes 13 10

theorem nextTwo_dashes : nextTwo bytes 45 45 = (dashes.isPrefixOf bytes, bytes) :=
  nextTwo_list bytes 45 45

theorem consumeBytes_list {n : Nat} (h : n ≤ bytes.length) :
    consumeBytes bytes n = .ok (bytes.drop n) := by
  unfold consumeBytes
  rw [consume_list, if_pos h]

theorem sliceBytes_list {n : Nat} (h : n ≤ bytes.length) :
    sliceBytes bytes 0 n = .ok (bytes.take n) := by
  unfold sliceBytes
  rw [slice_list, if_pos ⟨Nat.zero_le n, h⟩, List.drop_zero, Nat.sub_zero]

/-- The length of the line break at the beginning. -/
def lineBreakLength : Nat := if lineBreak.isPrefixOf bytes then 2 else 0

def afterLineBreak : Bytes := bytes.drop (lineBreakLength bytes)

theorem lineBreakLength_le : lineBreakLength bytes ≤ bytes.length := by
  unfold lineBreakLength
  split
  · next h => exact (List.isPrefixOf_iff_prefix.mp h).length_le
  · exact Nat.zero_le _

theorem skipLineBreak_list : skipLineBreak bytes = .ok (afterLineBreak bytes) := by
  unfold skipLineBreak afterLineBreak lineBreakLength
  rw [nextTwo_lineBreak]
  dsimp only
  split
  · next h => exact consumeBytes_list bytes (List.isPrefixOf_iff_prefix.mp h).length_le
  · rfl

end Reading

/-- The bytes at a place where a list occurs. -/
theorem getElem?_of_prefix {needle s : Bytes} {i k : Nat} (h : needle <+: s.drop i)
    (hk : k < needle.length) : s[i + k]? = needle[k]? := by
  obtain ⟨t, ht⟩ := h
  rw [← List.getElem?_drop, ← ht, List.getElem?_append_left hk]

/-- A list that begins with one of two texts that differ at once does not begin with the other. -/
theorem isPrefixOf_append {needle s t : Bytes} (h : needle.length ≤ s.length) :
    needle.isPrefixOf (s ++ t) = needle.isPrefixOf s := by
  rw [Bool.eq_iff_iff, List.isPrefixOf_iff_prefix, List.isPrefixOf_iff_prefix]
  exact ⟨fun hprefix => prefix_of_append hprefix h,
    fun hprefix => hprefix.trans (List.prefix_append s t)⟩

/-! ## The blank line after headers -/

/-- The index of the blank line that ends header lines, and its length. -/
def separator (bytes : Bytes) : Option (Nat × Nat) := (findHeaderSeparatorInQueue bytes).1

theorem findHeaderSeparatorInQueue_list (bytes : Bytes) :
    findHeaderSeparatorInQueue bytes = (separator bytes, bytes) := by
  have hsnd : (findHeaderSeparatorInQueue bytes).2 = bytes := by
    unfold findHeaderSeparatorInQueue
    dsimp only
    split <;> rfl
  exact Prod.ext rfl hsnd

/-- A blank line at an index, of the one or the other kind. -/
def IsSeparator (bytes : Bytes) (index length : Nat) : Prop :=
  (length = 4 ∧ crlfCrlf <+: bytes.drop index) ∨ (length = 2 ∧ lfLf <+: bytes.drop index)

theorem not_isSeparator_both {bytes : Bytes} {i : Nat} (h : crlfCrlf <+: bytes.drop i)
    (h' : lfLf <+: bytes.drop i) : False := by
  have hcr := getElem?_of_prefix (k := 0) h (by decide)
  have hlf := getElem?_of_prefix (k := 0) h' (by decide)
  rw [hcr] at hlf
  exact absurd hlf (by decide)

theorem separator_eq (bytes : Bytes) :
    separator bytes = match first crlfCrlf bytes, first lfLf bytes with
      | none, none => none
      | none, some lfIdx => some (lfIdx, 2)
      | some crlfIdx, none => some (crlfIdx, 4)
      | some crlfIdx, some lfIdx =>
        if crlfIdx ≤ lfIdx then some (crlfIdx, 4) else some (lfIdx, 2) := by
  unfold separator findHeaderSeparatorInQueue
  simp only [indexOf_list]
  cases first crlfCrlf bytes <;> cases first lfLf bytes <;> rfl

/-- The first blank line of either kind. -/
structure IsFirstSeparator (bytes : Bytes) (index length : Nat) : Prop where
  inside : index + length ≤ bytes.length
  here : IsSeparator bytes index length
  first : ∀ j < index, ∀ length', ¬ IsSeparator bytes j length'

theorem isFirstSeparator_of_separator {bytes : Bytes} {index length : Nat}
    (h : separator bytes = some (index, length)) : IsFirstSeparator bytes index length := by
  rw [separator_eq] at h
  cases hcrlf : first crlfCrlf bytes with
  | none =>
    have hnone := first_eq_none_iff.mp hcrlf
    cases hlf : first lfLf bytes with
    | none =>
      rw [hcrlf, hlf] at h
      cases h
    | some i =>
      rw [hcrlf, hlf] at h
      obtain ⟨rfl, rfl⟩ := Prod.mk.inj (Option.some.inj h)
      obtain ⟨_, hhere, hbefore⟩ := first_eq_some_iff.mp hlf
      refine ⟨first_add_length_le hlf, .inr ⟨rfl, hhere⟩, ?_⟩
      rintro j hj length' (⟨_, hsep⟩ | ⟨_, hsep⟩)
      · exact hnone j hsep
      · exact hbefore j hj hsep
  | some i =>
    obtain ⟨_, hhere, hbefore⟩ := first_eq_some_iff.mp hcrlf
    cases hlf : first lfLf bytes with
    | none =>
      have hnone := first_eq_none_iff.mp hlf
      rw [hcrlf, hlf] at h
      obtain ⟨rfl, rfl⟩ := Prod.mk.inj (Option.some.inj h)
      refine ⟨first_add_length_le hcrlf, .inl ⟨rfl, hhere⟩, ?_⟩
      rintro j hj length' (⟨_, hsep⟩ | ⟨_, hsep⟩)
      · exact hbefore j hj hsep
      · exact hnone j hsep
    | some i' =>
      obtain ⟨_, hhere', hbefore'⟩ := first_eq_some_iff.mp hlf
      rw [hcrlf, hlf] at h
      dsimp only at h
      by_cases hle : i ≤ i'
      · rw [if_pos hle] at h
        obtain ⟨rfl, rfl⟩ := Prod.mk.inj (Option.some.inj h)
        refine ⟨first_add_length_le hcrlf, .inl ⟨rfl, hhere⟩, ?_⟩
        rintro j hj length' (⟨_, hsep⟩ | ⟨_, hsep⟩)
        · exact hbefore j hj hsep
        · exact hbefore' j (by omega) hsep
      · rw [if_neg hle] at h
        obtain ⟨rfl, rfl⟩ := Prod.mk.inj (Option.some.inj h)
        refine ⟨first_add_length_le hlf, .inr ⟨rfl, hhere'⟩, ?_⟩
        rintro j hj length' (⟨_, hsep⟩ | ⟨_, hsep⟩)
        · exact hbefore j (by omega) hsep
        · exact hbefore' j hj hsep

theorem separator_ne_none {bytes : Bytes} {index length : Nat}
    (h : IsSeparator bytes index length) : separator bytes ≠ none := by
  rw [separator_eq]
  cases hcrlf : first crlfCrlf bytes with
  | none =>
    cases hlf : first lfLf bytes with
    | none =>
      rcases h with ⟨_, hsep⟩ | ⟨_, hsep⟩
      · exact absurd hsep (first_eq_none_iff.mp hcrlf index)
      · exact absurd hsep (first_eq_none_iff.mp hlf index)
    | some i => exact Option.some_ne_none _
  | some i =>
    cases first lfLf bytes with
    | none => exact Option.some_ne_none _
    | some i' =>
      dsimp only
      split <;> exact Option.some_ne_none _

theorem separator_eq_some_iff {bytes : Bytes} {index length : Nat} :
    separator bytes = some (index, length) ↔ IsFirstSeparator bytes index length := by
  refine ⟨isFirstSeparator_of_separator, fun h => ?_⟩
  obtain ⟨⟨i, l⟩, hsome⟩ := Option.ne_none_iff_exists'.mp (separator_ne_none h.here)
  have h' := isFirstSeparator_of_separator hsome
  have hi : i = index := by
    by_contra hne
    rcases Nat.lt_or_gt_of_ne hne with hlt | hlt
    · exact h.first i hlt l h'.here
    · exact h'.first index hlt length h.here
  subst hi
  rw [hsome]
  rcases h.here with ⟨rfl, hsep⟩ | ⟨rfl, hsep⟩ <;> rcases h'.here with ⟨rfl, hsep'⟩ | ⟨rfl, hsep'⟩
  · rfl
  · exact absurd hsep' fun hsep' => not_isSeparator_both hsep hsep'
  · exact absurd hsep fun hsep => not_isSeparator_both hsep' hsep
  · rfl

section Separator

variable {bytes more : Bytes} {index length : Nat}

theorem IsSeparator.length_eq (h : IsSeparator bytes index length) : length = 4 ∨ length = 2 := by
  rcases h with ⟨h, _⟩ | ⟨h, _⟩
  · exact .inl h
  · exact .inr h

theorem IsSeparator.append (h : IsSeparator bytes index length) (hle : index ≤ bytes.length)
    (more : Bytes) : IsSeparator (bytes ++ more) index length := by
  rw [IsSeparator, List.drop_append_of_le_length hle]
  rcases h with ⟨rfl, h⟩ | ⟨rfl, h⟩
  · exact .inl ⟨rfl, h.trans (List.prefix_append _ _)⟩
  · exact .inr ⟨rfl, h.trans (List.prefix_append _ _)⟩

theorem IsSeparator.of_append (h : IsSeparator (bytes ++ more) index length)
    (hle : index + length ≤ bytes.length) : IsSeparator bytes index length := by
  rw [IsSeparator, List.drop_append_of_le_length (by omega)] at h
  rcases h with ⟨rfl, h⟩ | ⟨rfl, h⟩
  · exact .inl ⟨rfl, prefix_of_append h (by rw [List.length_drop]; exact Nat.le_sub_of_add_le' hle)⟩
  · exact .inr ⟨rfl, prefix_of_append h (by rw [List.length_drop]; exact Nat.le_sub_of_add_le' hle)⟩

/-- No blank line that begins earlier ends later. -/
theorem IsSeparator.ends_before {j length' : Nat} (h : IsSeparator bytes index length)
    (h' : IsSeparator bytes j length') (hj : j < index) : j + length' ≤ index + length := by
  rcases h with ⟨rfl, h⟩ | ⟨rfl, h⟩ <;> rcases h' with ⟨rfl, h'⟩ | ⟨rfl, h'⟩
  · omega
  · omega
  · -- a carriage return would be where the line feeds are
    by_contra hgt
    have hj : index = j + 1 := by omega
    subst hj
    have hlf := getElem?_of_prefix (k := 1) h (by decide)
    have hcr := getElem?_of_prefix (k := 2) h' (by decide)
    rw [show j + 1 + 1 = j + 2 from rfl, hcr] at hlf
    exact absurd hlf (by decide)
  · omega

theorem separator_append (h : separator bytes = some (index, length)) (more : Bytes) :
    separator (bytes ++ more) = some (index, length) := by
  have hfirst := isFirstSeparator_of_separator h
  have hle : index ≤ bytes.length := by have := hfirst.inside; omega
  have hhere := hfirst.here.append hle more
  refine separator_eq_some_iff.mpr ⟨?_, hhere, ?_⟩
  · rw [List.length_append]
    exact Nat.le_add_right_of_le hfirst.inside
  · intro j hj length' hsep
    have hend := hhere.ends_before hsep hj
    exact hfirst.first j hj length' (hsep.of_append (by have := hfirst.inside; omega))

theorem separator_of_append (h : separator (bytes ++ more) = some (index, length))
    (hend : index + length ≤ bytes.length) : separator bytes = some (index, length) := by
  have hfirst := isFirstSeparator_of_separator h
  refine separator_eq_some_iff.mpr ⟨hend, hfirst.here.of_append hend, ?_⟩
  intro j hj length' hsep
  exact hfirst.first j hj length' (hsep.append (by omega) more)

end Separator

/-! ## The opening boundary -/

section Opening

variable (boundary : Text)

/-- Where the boundary at the beginning of a payload ends. -/
def openingEnd (payload : Bytes) : Option Nat :=
  if (boundaryPrefix boundary).isPrefixOf payload then some (boundaryPrefix boundary).length
  else if (lineBreak ++ boundaryPrefix boundary).isPrefixOf payload then
    some (2 + (boundaryPrefix boundary).length)
  else none

variable {boundary} {bytes more : Bytes} {n : Nat}

theorem two_le_length_boundaryPrefix : 2 ≤ (boundaryPrefix boundary).length := by
  rw [boundaryPrefix_eq, List.length_append]
  exact Nat.le_add_right 2 _

/-- A payload begins with the boundary or with a line break and the boundary. -/
theorem openingEnd_eq_some_iff :
    openingEnd boundary bytes = some n ↔
      (n = (boundaryPrefix boundary).length ∧ boundaryPrefix boundary <+: bytes) ∨
      (n = 2 + (boundaryPrefix boundary).length ∧ lineBreak ++ boundaryPrefix boundary <+: bytes) := by
  have hboth (h : boundaryPrefix boundary <+: bytes)
      (h' : lineBreak ++ boundaryPrefix boundary <+: bytes) : False := by
    obtain ⟨t, rfl⟩ := h
    obtain ⟨t', ht'⟩ := h'
    have hhead : some (13 : UInt8) = some 45 := congrArg List.head? ht'
    exact absurd hhead (by decide)
  unfold openingEnd
  split
  · next h =>
    rw [List.isPrefixOf_iff_prefix] at h
    rw [Option.some.injEq, eq_comm]
    exact ⟨fun hn => .inl ⟨hn, h⟩, fun hn => hn.elim (·.1) fun hn => (hboth h hn.2).elim⟩
  · next h =>
    rw [List.isPrefixOf_iff_prefix] at h
    split
    · next h' =>
      rw [List.isPrefixOf_iff_prefix] at h'
      rw [Option.some.injEq, eq_comm]
      exact ⟨fun hn => .inr ⟨hn, h'⟩, fun hn => hn.elim (fun hn => absurd hn.2 h) (·.1)⟩
    · next h' =>
      rw [List.isPrefixOf_iff_prefix] at h'
      refine ⟨nofun, ?_⟩
      rintro (⟨_, hn⟩ | ⟨_, hn⟩)
      · exact absurd hn h
      · exact absurd hn h'

theorem openingEnd_le (h : openingEnd boundary bytes = some n) : 2 ≤ n ∧ n ≤ bytes.length := by
  have htwo : 2 ≤ (boundaryPrefix boundary).length := two_le_length_boundaryPrefix
  rcases openingEnd_eq_some_iff.mp h with ⟨rfl, hprefix⟩ | ⟨rfl, hprefix⟩
  · exact ⟨htwo, hprefix.length_le⟩
  · have hlength := hprefix.length_le
    rw [List.length_append] at hlength
    exact ⟨Nat.le_add_right_of_le (le_refl 2), hlength⟩

theorem openingEnd_append (h : openingEnd boundary bytes = some n) (more : Bytes) :
    openingEnd boundary (bytes ++ more) = some n := by
  rw [openingEnd_eq_some_iff] at h ⊢
  rcases h with ⟨hn, hprefix⟩ | ⟨hn, hprefix⟩
  · exact .inl ⟨hn, hprefix.trans (List.prefix_append _ _)⟩
  · exact .inr ⟨hn, hprefix.trans (List.prefix_append _ _)⟩

theorem openingEnd_of_append (h : openingEnd boundary (bytes ++ more) = some n)
    (hend : n ≤ bytes.length) : openingEnd boundary bytes = some n := by
  rw [openingEnd_eq_some_iff] at h ⊢
  rcases h with ⟨rfl, hprefix⟩ | ⟨rfl, hprefix⟩
  · exact .inl ⟨rfl, prefix_of_append hprefix hend⟩
  · exact .inr ⟨rfl, prefix_of_append hprefix (by rw [List.length_append]; exact hend)⟩

theorem startsWith_opening (offset : Nat) :
    (ByteQueue.startsWith bytes (boundaryPrefix boundary) offset).1 =
      (boundaryPrefix boundary).isPrefixOf (bytes.drop offset) := by
  rw [startsWith_list]
  dsimp only
  cases hprefix : (boundaryPrefix boundary).isPrefixOf (bytes.drop offset) with
  | false => rw [Bool.and_false]
  | true =>
    have hlength := (List.isPrefixOf_iff_prefix.mp hprefix).length_le
    rw [List.length_drop] at hlength
    have htwo : 2 ≤ (boundaryPrefix boundary).length := two_le_length_boundaryPrefix
    rw [Bool.and_true, decide_eq_true_eq]
    omega

theorem lineBreak_append_isPrefixOf (needle : Bytes) :
    (lineBreak ++ needle).isPrefixOf bytes =
      (lineBreak.isPrefixOf bytes && needle.isPrefixOf (bytes.drop 2)) := by
  match bytes with
  | [] => rfl
  | [a] => simp [lineBreak, List.isPrefixOf]
  | a :: b :: rest => simp [lineBreak, List.isPrefixOf, Bool.and_assoc]

theorem consumeAnchoredFirstBoundary_of_some {finalPass : Bool}
    (h : openingEnd boundary bytes = some n) :
    consumeAnchoredFirstBoundary boundary finalPass bytes = .ok (some n, bytes.drop n) := by
  obtain ⟨hlow, hle⟩ := openingEnd_le h
  unfold consumeAnchoredFirstBoundary
  dsimp only
  rw [startsWith_opening, List.drop_zero]
  unfold openingEnd at h
  by_cases hanchored : (boundaryPrefix boundary).isPrefixOf bytes = true
  · rw [if_pos hanchored] at h ⊢
    rw [← Option.some.inj h] at hle ⊢
    rw [startsWith_list, consumeBytes_list bytes hle]
    rfl
  · rw [if_neg hanchored] at h ⊢
    rw [lineBreak_append_isPrefixOf] at h
    by_cases hbroken : (lineBreak.isPrefixOf bytes &&
        (boundaryPrefix boundary).isPrefixOf (bytes.drop 2)) = true
    · rw [if_pos hbroken] at h
      rw [Bool.and_eq_true] at hbroken
      rw [← Option.some.inj h] at hle ⊢
      rw [length_list, if_neg (by omega), startsWith_list, nextTwo_lineBreak]
      dsimp only
      rw [if_pos hbroken.1, if_neg (by omega), startsWith_opening, if_pos hbroken.2,
        startsWith_list, consumeBytes_list bytes hle]
      rfl
    · rw [if_neg hbroken] at h
      cases h

theorem rejectFirstBoundary_final (bytes : Bytes) :
    ∃ e, rejectFirstBoundary boundary true bytes = .error e := by
  unfold rejectFirstBoundary
  rw [length_list, byteAt_list]
  dsimp only
  split
  · exact ⟨_, rfl⟩
  · rw [if_neg (by simp)]
    exact ⟨_, rfl⟩

/-- What is rejected is long enough to be no boundary, or begins differently. -/
theorem rejectFirstBoundary_waits (bytes : Bytes) :
    rejectFirstBoundary boundary false bytes = .ok (none, bytes) ∨
      (∃ e, rejectFirstBoundary boundary false bytes = .error e) ∧
        ((boundaryPrefix boundary).length ≤ bytes.length ∨
          ∃ b rest, bytes = b :: rest ∧ b ≠ 45 ∧ b ≠ 13) := by
  unfold rejectFirstBoundary
  rw [length_list, byteAt_list]
  dsimp only
  cases bytes with
  | nil => exact .inl rfl
  | cons b rest =>
    rw [if_neg (by simp)]
    by_cases hwait : (b :: rest).length < (boundaryPrefix boundary).length ∧
        ((b :: rest)[0]? = some 45 ∨ (b :: rest)[0]? = some 13) ∧ (!false) = true
    · rw [if_pos hwait]
      exact .inl rfl
    · rw [if_neg hwait]
      refine .inr ⟨⟨_, rfl⟩, ?_⟩
      by_cases hlong : (boundaryPrefix boundary).length ≤ (b :: rest).length
      · exact .inl hlong
      · refine .inr ⟨b, rest, rfl, ?_, ?_⟩
        · rintro rfl
          exact hwait ⟨by omega, .inl rfl, rfl⟩
        · rintro rfl
          exact hwait ⟨by omega, .inr rfl, rfl⟩

/-- Without a boundary the parser waits, or rejects what cannot become one. -/
theorem consumeAnchoredFirstBoundary_of_none (h : openingEnd boundary bytes = none) :
    consumeAnchoredFirstBoundary boundary false bytes = .ok (none, bytes) ∨
      (∃ e, consumeAnchoredFirstBoundary boundary false bytes = .error e) ∧
        ∀ more, openingEnd boundary (bytes ++ more) = none := by
  unfold openingEnd at h
  have hanchored : ¬ (boundaryPrefix boundary).isPrefixOf bytes = true := by
    intro hprefix
    rw [if_pos hprefix] at h
    cases h
  rw [if_neg hanchored, lineBreak_append_isPrefixOf] at h
  unfold consumeAnchoredFirstBoundary
  dsimp only
  rw [startsWith_opening, List.drop_zero, if_neg hanchored, length_list, startsWith_list,
    nextTwo_lineBreak]
  dsimp only
  by_cases hshort : bytes.length < 2
  · rw [if_pos hshort]
    exact .inl rfl
  · rw [if_neg hshort]
    -- a longer payload with a boundary would have it within these bytes
    have hmore (hlong : (boundaryPrefix boundary).length ≤ bytes.length ∨
          ∃ b rest, bytes = b :: rest ∧ b ≠ 45 ∧ b ≠ 13)
        (hbroken : ¬ lineBreak.isPrefixOf bytes = true ∨
          2 + (boundaryPrefix boundary).length ≤ bytes.length) (more : Bytes) :
        openingEnd boundary (bytes ++ more) = none := by
      rw [Option.eq_none_iff_forall_ne_some]
      intro n hn
      rcases openingEnd_eq_some_iff.mp hn with ⟨_, hprefix⟩ | ⟨_, hprefix⟩
      · rcases hlong with hlong | ⟨b, rest, hbytes, hdash, _⟩
        · exact hanchored (List.isPrefixOf_iff_prefix.mpr (prefix_of_append hprefix hlong))
        · obtain ⟨t, ht⟩ := hprefix
          rw [hbytes] at ht
          exact hdash (Option.some.inj (congrArg List.head? ht)).symm
      · rcases hbroken with hbroken | hlong
        · apply hbroken
          rw [List.isPrefixOf_iff_prefix]
          exact prefix_of_append ((List.prefix_append _ _).trans hprefix) (Nat.le_of_not_lt hshort)
        · have hthere := prefix_of_append hprefix (by rw [List.length_append]; exact hlong)
          rw [← List.isPrefixOf_iff_prefix, lineBreak_append_isPrefixOf] at hthere
          rw [if_pos hthere] at h
          cases h
    by_cases hbroken : lineBreak.isPrefixOf bytes = true
    · rw [if_pos hbroken]
      by_cases hlong : bytes.length < 2 + (boundaryPrefix boundary).length
      · rw [if_pos hlong]
        exact .inl rfl
      · rw [if_neg hlong, startsWith_opening]
        rw [hbroken, Bool.true_and] at h
        have hnot : ¬ (boundaryPrefix boundary).isPrefixOf (bytes.drop 2) = true := by
          intro hprefix
          rw [if_pos hprefix] at h
          cases h
        rw [if_neg hnot, startsWith_list]
        dsimp only
        refine (rejectFirstBoundary_waits bytes).imp_right fun hreject => ⟨hreject.1, ?_⟩
        exact hmore hreject.2 (.inr (Nat.le_of_not_lt hlong))
    · rw [if_neg hbroken]
      refine (rejectFirstBoundary_waits bytes).imp_right fun hreject => ⟨hreject.1, ?_⟩
      exact hmore hreject.2 (.inl hbroken)

theorem consumeAnchoredFirstBoundary_final (h : openingEnd boundary bytes = none) :
    ∃ e, consumeAnchoredFirstBoundary boundary true bytes = .error e := by
  unfold openingEnd at h
  have hanchored : ¬ (boundaryPrefix boundary).isPrefixOf bytes = true := by
    intro hprefix
    rw [if_pos hprefix] at h
    cases h
  rw [if_neg hanchored, lineBreak_append_isPrefixOf] at h
  unfold consumeAnchoredFirstBoundary
  dsimp only
  rw [startsWith_opening, List.drop_zero, if_neg hanchored, length_list, startsWith_list,
    nextTwo_lineBreak]
  dsimp only
  split
  · exact rejectFirstBoundary_final bytes
  · split
    · next hbroken =>
      split
      · exact rejectFirstBoundary_final bytes
      · rw [hbroken, Bool.true_and] at h
        have hnot : ¬ (boundaryPrefix boundary).isPrefixOf (bytes.drop 2) = true := by
          intro hprefix
          rw [if_pos hprefix] at h
          cases h
        rw [startsWith_opening, if_neg hnot, startsWith_list]
        exact rejectFirstBoundary_final bytes
    · exact rejectFirstBoundary_final bytes

end Opening

/-! ## The boundary after a body -/

section NextBoundary

variable {boundary : Text} {bytes : Bytes}

theorem closingMarker_prefix_iff {i : Nat} :
    closingMarker boundary <+: bytes.drop i ↔
      boundaryMarker boundary <+: bytes.drop i ∧
        dashes <+: bytes.drop (i + (boundaryMarker boundary).length) := by
  rw [closingMarker_eq, ← List.drop_drop]
  constructor
  · rintro ⟨t, ht⟩
    rw [← ht, List.append_assoc, List.drop_left]
    exact ⟨List.prefix_append _ _, List.prefix_append _ _⟩
  · rintro ⟨⟨t, ht⟩, hdashes⟩
    rw [← ht, List.drop_left] at hdashes
    rw [← ht]
    exact List.prefix_append_right_inj _ |>.mpr hdashes

/-- The boundary that is found is the first one, and it closes the payload when dashes follow. -/
theorem findNextBoundary_list :
    findNextBoundary boundary bytes =
      ((first (boundaryMarker boundary) bytes).map fun index =>
        (index, dashes.isPrefixOf (bytes.drop (index + (boundaryMarker boundary).length))),
      bytes) := by
  unfold findNextBoundary
  simp only [indexOf_list]
  cases hmarker : first (boundaryMarker boundary) bytes with
  | none =>
    have hnone := first_eq_none_iff.mp hmarker
    have hclosing : first (closingMarker boundary) bytes = none :=
      first_eq_none_iff.mpr fun i hi => hnone i (closingMarker_prefix_iff.mp hi).1
    rw [hclosing]
    rfl
  | some i =>
    obtain ⟨hle, hhere, hbefore⟩ := first_eq_some_iff.mp hmarker
    have hclosingBefore : ∀ j < i, ¬ closingMarker boundary <+: bytes.drop j :=
      fun j hj h => hbefore j hj (closingMarker_prefix_iff.mp h).1
    cases hdashes : dashes.isPrefixOf (bytes.drop (i + (boundaryMarker boundary).length)) with
    | true =>
      have hclosing : first (closingMarker boundary) bytes = some i :=
        first_eq_some_iff.mpr ⟨hle, closingMarker_prefix_iff.mpr
          ⟨hhere, List.isPrefixOf_iff_prefix.mp hdashes⟩, hclosingBefore⟩
      rw [hclosing, Option.map_some, hdashes]
      dsimp only
      rw [if_pos (le_refl i)]
    | false =>
      rw [Option.map_some, hdashes]
      cases hclosing : first (closingMarker boundary) bytes with
      | none => rfl
      | some j =>
        obtain ⟨_, hthere, _⟩ := first_eq_some_iff.mp hclosing
        have hne : ¬ j ≤ i := by
          intro hji
          rcases Nat.lt_or_eq_of_le hji with hlt | rfl
          · exact hclosingBefore j hlt hthere
          · have hprefix := List.isPrefixOf_iff_prefix.mpr (closingMarker_prefix_iff.mp hthere).2
            rw [hdashes] at hprefix
            cases hprefix
        dsimp only
        rw [if_neg hne]

end NextBoundary

end LoopbackOData
