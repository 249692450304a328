import LoopbackOData.Entities.KeyLiterals
import LoopbackOData.Filter.Spelling

/-!
# Keys in the segment of a reference

What percent-encoding, the scan for the end of a key and the decoding of the key make of the texts
between them.
-/

namespace LoopbackOData

set_option autoImplicit false

/-! ## Escapes -/

theorem percentBytes_cons {c : Char} (hc : c ≠ '%') (s : Text) :
    percentBytes (c :: s) = (percentBytes s).map (String.utf8EncodeChar c ++ ·) := by
  rw [percentBytes]
  · exact fun _ _ _ h _ => hc h
  · exact fun h => hc h

theorem percentBytes_percentByte (b : UInt8) (s : Text) :
    percentBytes (percentByte b ++ s) = (percentBytes s).map (b :: ·) := by
  have hcode : ∃ high low, hexValue (hexDigit (b.toNat / 16)) = some high ∧
      hexValue (hexDigit (b.toNat % 16)) = some low ∧ UInt8.ofNat (16 * high + low) = b := by
    refine ⟨b.toNat / 16, b.toNat % 16, ?_⟩
    apply forall_byte _ b
    decide +kernel
  obtain ⟨high, low, hhigh, hlow, hb⟩ := hcode
  rw [percentByte, List.cons_append, List.cons_append, List.cons_append, List.nil_append,
    percentBytes, hhigh, hlow]
  cases percentBytes s with
  | none => rfl
  | some bytes =>
    rw [← hb]
    rfl

theorem percentBytes_percentBytes (bytes : List UInt8) (s : Text) :
    percentBytes (bytes.flatMap percentByte ++ s) = (percentBytes s).map (bytes ++ ·) := by
  induction bytes with
  | nil => simp
  | cons b bytes ih =>
    rw [List.flatMap_cons, List.append_assoc, percentBytes_percentByte, ih, Option.map_map]
    rfl

theorem hexValue_of_isPathEncoded {c : Char} (hc : isPathEncoded c = true) : hexValue c = none := by
  have hrange : c.toNat ≤ 0x1f ∨ 0x7e < c.toNat ∨ c ∈ " \"#<>?^`\x7b\x7d".toList := by
    simpa [isPathEncoded, or_assoc] using hc
  have hle (d : Char) : d ≤ c ↔ d.toNat ≤ c.toNat := Iff.rfl
  have hge (d : Char) : c ≤ d ↔ c.toNat ≤ d.toNat := Iff.rfl
  have hout (h : c.toNat ≤ 0x1f ∨ 0x7e < c.toNat) (low high : Char)
      (hbounds : 0x1f < low.toNat ∧ high.toNat ≤ 0x7e) : ¬ (low ≤ c && c ≤ high) = true := by
    intro hc
    rw [Bool.and_eq_true, decide_eq_true_eq, decide_eq_true_eq, hle, hge] at hc
    omega
  rcases or_assoc.mpr hrange with hrange | hmem
  · rw [hexValue, if_neg (hout hrange _ _ (by decide)), if_neg (hout hrange _ _ (by decide)),
      if_neg (hout hrange _ _ (by decide))]
  · simp only [String.reduceToList, List.mem_cons, List.not_mem_nil, or_false] at hmem
    rcases hmem with rfl | rfl | rfl | rfl | rfl | rfl | rfl | rfl | rfl | rfl <;> rfl

theorem encodePath_cons_of_true {c : Char} (hc : isPathEncoded c = true) (s : Text) :
    encodePath (c :: s) = (utf8Bytes [c]).flatMap percentByte ++ encodePath s := by
  rw [encodePath, List.flatMap_cons, if_pos hc]
  rfl

theorem encodePath_cons_of_false {c : Char} (hc : isPathEncoded c = false) (s : Text) :
    encodePath (c :: s) = c :: encodePath s := by
  rw [encodePath, List.flatMap_cons, if_neg (by simp [hc])]
  rfl

theorem utf8Bytes_singleton (c : Char) : utf8Bytes [c] = String.utf8EncodeChar c := by
  simp [utf8Bytes]

theorem head_encodePath_cons {c : Char} (hc : isPathEncoded c = true) (s : Text) :
    ∃ rest, encodePath (c :: s) = '%' :: rest := by
  rw [encodePath_cons_of_true hc]
  cases hbytes : utf8Bytes [c] with
  | nil =>
    have h : utf8Bytes [c] = utf8Bytes [] := hbytes
    exact absurd (utf8Bytes_injective h) (List.cons_ne_nil _ _)
  | cons b bytes => exact ⟨_, rfl⟩

theorem percentBytes_percent_percent (s : Text) : percentBytes ('%' :: '%' :: s) = none := by
  cases s <;> rfl

theorem percentBytes_percent_hex_percent (c : Char) (s : Text) :
    percentBytes ('%' :: c :: '%' :: s) = none := by
  rw [percentBytes]
  cases hexValue c <;> rfl

/-- The path of a URL stands for the same text as before. -/
theorem percentBytes_encodePath (s : Text) : percentBytes (encodePath s) = percentBytes s := by
  have hpercent : isPathEncoded '%' = false := by decide
  fun_induction percentBytes s with
  | case1 => rfl
  | case2 high low s ih =>
    rw [encodePath_cons_of_false hpercent]
    by_cases hhigh : isPathEncoded high = true
    · obtain ⟨rest, hrest⟩ := head_encodePath_cons hhigh (low :: s)
      rw [hrest, percentBytes_percent_percent, hexValue_of_isPathEncoded hhigh]
      rfl
    · rw [Bool.not_eq_true] at hhigh
      rw [encodePath_cons_of_false hhigh]
      by_cases hlow : isPathEncoded low = true
      · obtain ⟨rest, hrest⟩ := head_encodePath_cons hlow s
        rw [hrest, percentBytes_percent_hex_percent, hexValue_of_isPathEncoded hlow]
        cases hexValue high <;> rfl
      · rw [Bool.not_eq_true] at hlow
        rw [encodePath_cons_of_false hlow, percentBytes, ih]
  | case3 s h =>
    rw [encodePath_cons_of_false hpercent]
    rcases s with _ | ⟨c, _ | ⟨low, rest⟩⟩
    · rfl
    · by_cases hc : isPathEncoded c = true
      · obtain ⟨rest, hrest⟩ := head_encodePath_cons hc []
        rw [hrest, percentBytes_percent_percent]
      · rw [Bool.not_eq_true] at hc
        rw [encodePath_cons_of_false hc]
        rfl
    · exact absurd rfl (h c low rest)
  | case4 c s h h' ih =>
    by_cases hc : isPathEncoded c = true
    · rw [encodePath_cons_of_true hc, percentBytes_percentBytes, ih, utf8Bytes_singleton]
    · rw [Bool.not_eq_true] at hc
      rw [encodePath_cons_of_false hc, percentBytes_cons (by rintro rfl; exact h' rfl), ih]

theorem decodeURIComponent_encodePath (s : Text) :
    decodeURIComponent (encodePath s) = decodeURIComponent s := by
  rw [decodeURIComponent, percentBytes_encodePath, decodeURIComponent]

/-! ## What decoding loses

A text is weighed by the bytes of its characters, quotes apart: those are doubled and undoubled. -/

def charWeight (c : Char) : Nat := if c = '\'' then 0 else (String.utf8EncodeChar c).length

def textWeight (s : Text) : Nat := (s.map charWeight).sum

def byteWeight (bytes : List UInt8) : Nat := bytes.countP (· ≠ 0x27)

@[simp] theorem textWeight_nil : textWeight [] = 0 := rfl

@[simp] theorem textWeight_cons (c : Char) (s : Text) :
    textWeight (c :: s) = charWeight c + textWeight s := rfl

@[simp] theorem textWeight_append (s t : Text) :
    textWeight (s ++ t) = textWeight s + textWeight t := by
  simp [textWeight]

theorem textWeight_le_of_sublist {s t : Text} (h : s.Sublist t) : textWeight s ≤ textWeight t := by
  induction h with
  | slnil => exact Nat.le_refl _
  | cons c _ ih =>
    rw [textWeight_cons]
    omega
  | cons_cons c _ ih =>
    rw [textWeight_cons, textWeight_cons]
    omega

theorem charWeight_pos {c : Char} (hc : c ≠ '\'') : 0 < charWeight c := by
  rw [charWeight, if_neg hc, String.length_utf8EncodeChar]
  exact Char.utf8Size_pos c

/-- Only the quote has the byte of the quote in it. -/
theorem quote_not_mem_utf8EncodeChar {c : Char} (hc : c ≠ '\'') :
    0x27 ∉ String.utf8EncodeChar c := by
  have hv : c.val.toNat ≠ 0x27 := fun h => hc (Char.ext (UInt32.toNat_inj.mp h))
  have hne (n : Nat) (h : n % 256 ≠ 0x27) : (0x27 : UInt8) ≠ UInt8.ofNat n := by
    intro heq
    have := congrArg UInt8.toNat heq
    rw [UInt8.toNat_ofNat'] at this
    exact h this.symm
  unfold String.utf8EncodeChar
  dsimp only
  split
  · simp only [List.mem_singleton]
    exact hne _ (by omega)
  · split
    · simp only [List.mem_cons, List.not_mem_nil, or_false, not_or]
      exact ⟨hne _ (by omega), hne _ (by omega)⟩
    · split
      · simp only [List.mem_cons, List.not_mem_nil, or_false, not_or]
        exact ⟨hne _ (by omega), hne _ (by omega), hne _ (by omega)⟩
      · simp only [List.mem_cons, List.not_mem_nil, or_false, not_or]
        exact ⟨hne _ (by omega), hne _ (by omega), hne _ (by omega), hne _ (by omega)⟩

theorem byteWeight_utf8EncodeChar (c : Char) :
    byteWeight (String.utf8EncodeChar c) = charWeight c := by
  by_cases hc : c = '\''
  · subst hc
    rfl
  · rw [byteWeight, charWeight, if_neg hc, List.countP_eq_length]
    intro b hb
    rw [decide_eq_true_eq]
    rintro rfl
    exact quote_not_mem_utf8EncodeChar hc hb

theorem byteWeight_utf8Bytes (s : Text) : byteWeight (utf8Bytes s) = textWeight s := by
  induction s with
  | nil => rfl
  | cons c s ih =>
    have h : utf8Bytes (c :: s) = String.utf8EncodeChar c ++ utf8Bytes s := rfl
    rw [h, byteWeight, List.countP_append, ← byteWeight, ← byteWeight, ih,
      byteWeight_utf8EncodeChar, textWeight_cons]

theorem utf8Bytes_of_utf8Text {bytes : List UInt8} {s : Text} (h : utf8Text bytes = some s) :
    utf8Bytes s = bytes := by
  rw [utf8Text, Option.map_eq_some_iff] at h
  obtain ⟨chars, hchars, rfl⟩ := h
  have hencode : (bytes.toByteArray.utf8Decode?.get (by simp [hchars])).toList.utf8Encode =
      bytes.toByteArray := ByteArray.utf8Encode_get_utf8Decode?
  simp only [hchars, Option.get_some] at hencode
  exact List.toByteArray_inj.mp hencode

theorem byteWeight_percentBytes {s : Text} {bytes : List UInt8}
    (h : percentBytes s = some bytes) :
    byteWeight bytes ≤ textWeight s ∧ ('%' ∈ s → byteWeight bytes < textWeight s) := by
  fun_induction percentBytes s generalizing bytes with
  | case1 =>
    cases h
    exact ⟨Nat.le_refl _, by simp⟩
  | case2 high low s ih =>
    simp only [Option.bind_eq_bind, Option.bind_eq_some_iff] at h
    obtain ⟨h1, hhigh, h2, hlow, rest, hrest, h⟩ := h
    cases h
    obtain ⟨hle, _⟩ := ih hrest
    have hbyte : byteWeight (UInt8.ofNat (16 * h1 + h2) :: rest) ≤ 1 + byteWeight rest := by
      rw [byteWeight, List.countP_cons, ← byteWeight]
      split <;> omega
    have hpercent : charWeight '%' = 1 := by decide
    have hnot (c : Char) (v : Nat) (hv : hexValue c = some v) : 0 < charWeight c := by
      apply charWeight_pos
      rintro rfl
      cases hv
    have := hnot high h1 hhigh
    rw [textWeight_cons, textWeight_cons, textWeight_cons]
    omega
  | case3 => cases h
  | case4 c s h1 h2 ih =>
    rw [Option.map_eq_some_iff] at h
    obtain ⟨rest, hrest, rfl⟩ := h
    obtain ⟨hle, hlt⟩ := ih hrest
    rw [byteWeight, List.countP_append, ← byteWeight, ← byteWeight, byteWeight_utf8EncodeChar,
      textWeight_cons]
    refine ⟨by omega, fun hmem => ?_⟩
    rcases List.mem_cons.mp hmem with rfl | hmem
    · exact absurd rfl (h2 ·)
    · have := hlt hmem
      omega

theorem textWeight_decodeURIComponent {s t : Text} (h : decodeURIComponent s = some t) :
    textWeight t ≤ textWeight s ∧ ('%' ∈ s → textWeight t < textWeight s) := by
  rw [decodeURIComponent, Option.bind_eq_some_iff] at h
  obtain ⟨bytes, hbytes, htext⟩ := h
  rw [← byteWeight_utf8Bytes t, utf8Bytes_of_utf8Text htext]
  exact byteWeight_percentBytes hbytes

theorem textWeight_undoubleQuotes (s : Text) : textWeight (undoubleQuotes s) = textWeight s := by
  fun_induction undoubleQuotes s with
  | case1 rest ih => simp [ih, charWeight]
  | case2 c rest h ih => simp [ih]
  | case3 => rfl

theorem textWeight_doubleQuotes (s : Text) : textWeight (doubleQuotes s) = textWeight s := by
  rw [← undoubleQuotes_doubleQuotes s, textWeight_undoubleQuotes, undoubleQuotes_doubleQuotes]

theorem stripGuid_sublist (s : Text) : (stripGuid s).Sublist s := by
  unfold stripGuid
  split
  · dsimp only
    split
    · exact (List.dropLast_sublist _).trans (List.drop_sublist _ _)
    · exact List.drop_sublist _ _
  · exact List.Sublist.refl _

theorem textWeight_parseKeyLiteral {raw literal : Text} (h : parseKeyLiteral raw = .ok literal) :
    textWeight literal ≤ textWeight raw ∧ ('%' ∈ raw → textWeight literal < textWeight raw) := by
  unfold parseKeyLiteral at h
  split at h
  · cases h
  · next decoded hdecoded =>
    dsimp only at h
    have hstrip : textWeight literal ≤ textWeight decoded := by
      have hsub := (stripGuid_sublist (trimText decoded)).trans (trimText_sublist decoded)
      split at h
      · cases h
        rw [unquote, textWeight_undoubleQuotes]
        apply textWeight_le_of_sublist
        exact ((List.dropLast_sublist _).trans (List.drop_sublist _ _)).trans hsub
      · cases h
        exact textWeight_le_of_sublist hsub
    obtain ⟨hle, hlt⟩ := textWeight_decodeURIComponent hdecoded
    exact ⟨hstrip.trans hle, fun hmem => hstrip.trans_lt (hlt hmem)⟩

/-! ## The key in a segment -/

theorem closeKey_eq_ok {inString : Bool} {s key rest : Text}
    (h : closeKey inString s = .ok (key, rest)) : s = key ++ ')' :: rest := by
  have hmap {pre : Text} {outcome : Except Bool (Text × Text)} {s : Text}
      (ih : ∀ key rest, outcome = .ok (key, rest) → s = key ++ ')' :: rest) {key rest : Text}
      (h : (outcome.map fun r => (pre ++ r.1, r.2)) = .ok (key, rest)) :
      pre ++ s = key ++ ')' :: rest := by
    cases outcome with
    | error b => cases h
    | ok r =>
      cases h
      rw [ih r.1 r.2 rfl, List.append_assoc]
  fun_induction closeKey inString s generalizing key rest with
  | case1 => cases h
  | case2 s ih => exact @hmap ['\'', '\''] _ _ (fun _ _ => ih) _ _ h
  | case3 c s hquotes ih => exact @hmap [c] _ _ (fun _ _ => ih) _ _ h
  | case4 s =>
    cases h
    rfl
  | case5 c s hc ih => exact @hmap [c] _ _ (fun _ _ => ih) _ _ h

theorem closeKey_cons {inString : Bool} {c : Char} (hquote : c ≠ '\'') (hparen : c ≠ ')')
    (s : Text) : closeKey inString (c :: s) =
      (closeKey inString s).map fun r => (c :: r.1, r.2) := by
  cases inString with
  | true =>
    rw [closeKey]
    · simp only [hquote, ne_eq, not_false_eq_true, decide_true]
      rfl
    · exact fun _ h _ => hquote h
  | false =>
    rw [closeKey, if_neg hparen]
    simp only [hquote, decide_false]
    rfl

theorem closeKey_append {inString : Bool} {p : Text} (hquote : '\'' ∉ p) (hparen : ')' ∉ p)
    (s : Text) : closeKey inString (p ++ s) =
      (closeKey inString s).map fun r => (p ++ r.1, r.2) := by
  induction p with
  | nil =>
    rw [List.nil_append]
    cases closeKey inString s <;> rfl
  | cons c p ih =>
    rw [List.mem_cons, not_or] at hquote hparen
    rw [List.cons_append, closeKey_cons (Ne.symm hquote.1) (Ne.symm hparen.1),
      ih hquote.2 hparen.2]
    cases closeKey inString s with
    | error b => rfl
    | ok r => rfl

/-- The characters that a key expression is scanned for are no escapes and not in escapes. -/
theorem percentByte_plain (b : UInt8) :
    '\'' ∉ percentByte b ∧ ')' ∉ percentByte b ∧ '(' ∉ percentByte b ∧ '/' ∉ percentByte b ∧
      '?' ∉ percentByte b ∧ '#' ∉ percentByte b := by
  apply forall_byte _ b
  decide +kernel

theorem percentBytes_plain (bytes : List UInt8) :
    '\'' ∉ bytes.flatMap percentByte ∧ ')' ∉ bytes.flatMap percentByte ∧
      '(' ∉ bytes.flatMap percentByte := by
  simp only [List.mem_flatMap, not_exists, not_and]
  exact ⟨fun b _ => (percentByte_plain b).1, fun b _ => (percentByte_plain b).2.1,
    fun b _ => (percentByte_plain b).2.2.1⟩

theorem closeKey_quote {s : Text} (h : s.head? ≠ some '\'') :
    closeKey true ('\'' :: s) = (closeKey false s).map fun r => ('\'' :: r.1, r.2) := by
  rw [closeKey]
  · rfl
  · rintro rest _ rfl
    exact h rfl

theorem head_encodePath {s : Text} {d : Char} (hd : d ≠ '%')
    (h : (encodePath s).head? = some d) : s.head? = some d := by
  cases s with
  | nil => cases h
  | cons c s =>
    by_cases hc : isPathEncoded c = true
    · obtain ⟨rest, hrest⟩ := head_encodePath_cons hc s
      rw [hrest] at h
      cases h
      exact absurd rfl hd
    · rw [Bool.not_eq_true] at hc
      rw [encodePath_cons_of_false hc] at h
      exact h

theorem closeKey_encodePath (inString : Bool) (s : Text) :
    closeKey inString (encodePath s) =
      (closeKey inString s).map fun r => (encodePath r.1, encodePath r.2) := by
  have hquote : isPathEncoded '\'' = false := by decide
  have hparen : isPathEncoded ')' = false := by decide
  have hstep (inString : Bool) (c : Char) (s : Text) (hc : c ≠ '\'') (hc' : c ≠ ')')
      (ih : closeKey inString (encodePath s) =
        (closeKey inString s).map fun r => (encodePath r.1, encodePath r.2)) :
      closeKey inString (encodePath (c :: s)) =
        ((closeKey inString s).map fun r => (c :: r.1, r.2)).map
          fun r => (encodePath r.1, encodePath r.2) := by
    by_cases henc : isPathEncoded c = true
    · obtain ⟨hq, hp, _⟩ := percentBytes_plain (utf8Bytes [c])
      rw [encodePath_cons_of_true henc, closeKey_append hq hp, ih]
      cases closeKey inString s with
      | error b => rfl
      | ok r =>
        simp only [Except.map]
        rw [encodePath_cons_of_true henc]
    · rw [Bool.not_eq_true] at henc
      rw [encodePath_cons_of_false henc, closeKey_cons hc hc', ih]
      cases closeKey inString s with
      | error b => rfl
      | ok r =>
        simp only [Except.map]
        rw [encodePath_cons_of_false henc]
  have hopen (inString : Bool) (s : Text)
      (ih : closeKey inString (encodePath s) =
        (closeKey inString s).map fun r => (encodePath r.1, encodePath r.2)) :
      ((closeKey inString (encodePath s)).map fun r => ('\'' :: r.1, r.2)) =
        ((closeKey inString s).map fun r => ('\'' :: r.1, r.2)).map
          fun r => (encodePath r.1, encodePath r.2) := by
    rw [ih]
    cases closeKey inString s with
    | error b => rfl
    | ok r =>
      simp only [Except.map]
      rw [encodePath_cons_of_false hquote]
  fun_induction closeKey inString s with
  | case1 => rfl
  | case2 s ih =>
    rw [encodePath_cons_of_false hquote, encodePath_cons_of_false hquote, closeKey, ih]
    cases closeKey true s with
    | error b => rfl
    | ok r =>
      simp only [Except.map, bind, Except.bind, pure, Except.pure]
      rw [encodePath_cons_of_false hquote, encodePath_cons_of_false hquote]
  | case3 c s hquotes ih =>
    by_cases hc : c = '\''
    · subst hc
      have hhead : (encodePath s).head? ≠ some '\'' := by
        intro h
        have hs := head_encodePath (by decide) h
        cases s with
        | nil => cases hs
        | cons d s =>
          cases hs
          exact hquotes s rfl rfl
      rw [encodePath_cons_of_false hquote, closeKey_quote hhead]
      simp only [ne_eq, not_true_eq_false, decide_false] at ih ⊢
      exact hopen false s ih
    · by_cases hp : c = ')'
      · subst hp
        simp only [ne_eq, hc, not_false_eq_true, decide_true] at ih ⊢
        rw [encodePath_cons_of_false hparen, closeKey]
        · simp only [ne_eq, hc, not_false_eq_true, decide_true]
          rw [ih]
          cases closeKey true s with
          | error b => rfl
          | ok r =>
            simp only [Except.map, bind, Except.bind, pure, Except.pure]
            rw [encodePath_cons_of_false hparen]
        · exact fun _ h _ => hc h
      · simp only [ne_eq, hc, not_false_eq_true, decide_true] at ih ⊢
        exact hstep true c s hc hp ih
  | case4 s =>
    rw [encodePath_cons_of_false hparen, closeKey, if_pos rfl]
    rfl
  | case5 c s hp ih =>
    by_cases hc : c = '\''
    · subst hc
      rw [encodePath_cons_of_false hquote, closeKey, if_neg hp]
      simp only [decide_true] at ih ⊢
      exact hopen true s ih
    · simp only [hc, decide_false] at ih ⊢
      exact hstep false c s hc hp ih

/-- A text as the reference has it: an absolute one has passed through a URL. -/
def Service.encode (service : Service) (s : Text) : Text :=
  if service.host.isSome then encodePath s else s

section Segments

variable {service : Service}

theorem closeKey_encode (inString : Bool) (s : Text) :
    closeKey inString (service.encode s) =
      (closeKey inString s).map fun r => (service.encode r.1, service.encode r.2) := by
  unfold Service.encode
  split
  · exact closeKey_encodePath inString s
  · cases closeKey inString s <;> rfl

theorem percentBytes_encode (s : Text) : percentBytes (service.encode s) = percentBytes s := by
  unfold Service.encode
  split
  · exact percentBytes_encodePath s
  · rfl

theorem parseKeyLiteral_encode (s : Text) :
    parseKeyLiteral (service.encode s) = parseKeyLiteral s := by
  rw [parseKeyLiteral, decodeURIComponent, percentBytes_encode]
  rfl

theorem encodePath_append (s t : Text) : encodePath (s ++ t) = encodePath s ++ encodePath t :=
  List.flatMap_append

theorem encode_append (s t : Text) :
    service.encode (s ++ t) = service.encode s ++ service.encode t := by
  unfold Service.encode
  split
  · exact encodePath_append s t
  · rfl

theorem encode_singleton {c : Char} (hc : isPathEncoded c = false) :
    service.encode [c] = [c] := by
  unfold Service.encode
  split
  · exact encodePath_cons_of_false hc []
  · rfl

theorem encode_cons {c : Char} (hc : isPathEncoded c = false) (s : Text) :
    service.encode (c :: s) = c :: service.encode s := by
  rw [← List.singleton_append, encode_append, encode_singleton hc]
  rfl

/-- No escape has the opening parenthesis of a key in it. -/
theorem paren_not_mem_encode {s : Text} (h : '(' ∉ s) : '(' ∉ service.encode s := by
  unfold Service.encode
  split
  · rw [encodePath, List.mem_flatMap]
    rintro ⟨c, hc, hmem⟩
    split at hmem
    · exact (percentBytes_plain _).2.2 hmem
    · rw [List.mem_singleton] at hmem
      exact h (hmem ▸ hc)
  · exact h

theorem encode_eq_nil {s : Text} : service.encode s = [] ↔ s = [] := by
  constructor
  · intro h
    cases s with
    | nil => rfl
    | cons c s =>
      unfold Service.encode at h
      split at h
      · by_cases hc : isPathEncoded c = true
        · obtain ⟨rest, hrest⟩ := head_encodePath_cons hc s
          rw [hrest] at h
          cases h
        · rw [Bool.not_eq_true] at hc
          rw [encodePath_cons_of_false hc] at h
          cases h
      · exact h
  · rintro rfl
    unfold Service.encode
    split <;> rfl

theorem span_paren {z d : Text} (hz : '(' ∉ z) :
    (z ++ '(' :: d).takeWhile (· ≠ '(') = z ∧ (z ++ '(' :: d).dropWhile (· ≠ '(') = '(' :: d := by
  have hall : ∀ c ∈ z, (decide (c ≠ '(')) = true := by
    intro c hc
    rw [decide_eq_true_eq]
    rintro rfl
    exact hz hc
  constructor
  · rw [List.takeWhile_append_of_pos hall, List.takeWhile_cons_of_neg (by simp), List.append_nil]
  · rw [List.dropWhile_append_of_pos hall, List.dropWhile_cons_of_neg (by simp)]

variable {reference : Text}

theorem parseReferenceSegment_of_closeKey {z key : Text} (hz : '(' ∉ z) (hne : z ≠ [])
    (hstart : z.head? ≠ some '$') (hclose : closeKey false (key ++ [')']) = .ok (key, [])) :
    ∃ entitySet, parseReferenceSegment service reference
      (service.encode (z ++ '(' :: (key ++ [')']))) = .ok ⟨entitySet, service.encode key⟩ := by
  have hparen : isPathEncoded '(' = false := by decide
  have hdollar : startsWith (service.encode z ++ '(' :: service.encode (key ++ [')'])) ['$'] =
      false := by
    obtain ⟨c, z, rfl⟩ := List.exists_cons_of_ne_nil hne
    rw [Bool.eq_false_iff]
    intro hstarts
    rw [startsWith, List.isPrefixOf_iff_prefix] at hstarts
    obtain ⟨rest, hrest⟩ := hstarts
    have hencode : service.encode (c :: z) ≠ [] := by simp [encode_eq_nil]
    have hhead : (service.encode (c :: z)).head? = some '$' := by
      rw [← List.head?_append_of_ne_nil _ hencode, ← hrest]
      rfl
    unfold Service.encode at hhead
    split at hhead
    · exact hstart (head_encodePath (by decide) hhead)
    · exact hstart hhead
  obtain ⟨htake, hdrop⟩ := span_paren (d := service.encode (key ++ [')']))
    (@paren_not_mem_encode service _ hz)
  refine ⟨stripNamespacePrefix service (service.encode z), ?_⟩
  rw [encode_append, encode_cons hparen]
  have hnil : service.encode [] = [] := encode_eq_nil.mpr rfl
  unfold parseReferenceSegment
  simp only [htake, hdrop, hdollar, closeKey_encode, hclose, encode_eq_nil, hne, hnil, Except.map]
  rw [if_neg (by simp)]

theorem parseReferenceSegment_eq_ok {y : Text} {parsed : EntityReference}
    (h : parseReferenceSegment service reference (service.encode y) = .ok parsed) :
    ∃ z key, '(' ∉ z ∧ y = z ++ '(' :: (key ++ [')']) ∧
      parsed.keyExpression = service.encode key := by
  have hparen : isPathEncoded '(' = false := by decide
  by_cases hy : '(' ∈ y
  · have hz : '(' ∉ y.takeWhile (· ≠ '(') := by
      intro hmem
      simpa using List.mem_takeWhile_imp hmem
    obtain ⟨d, hd⟩ : ∃ d, y.dropWhile (· ≠ '(') = '(' :: d := by
      cases hdrop : y.dropWhile (· ≠ '(') with
      | nil =>
        rw [List.dropWhile_eq_nil_iff] at hdrop
        simpa using hdrop _ hy
      | cons c d =>
        have hc := List.head?_dropWhile_not (· ≠ '(') y
        rw [hdrop] at hc
        have hc' : c = '(' := by simpa using hc
        exact ⟨d, by rw [hc']⟩
    have hsplit : y = y.takeWhile (· ≠ '(') ++ '(' :: d := by
      rw [← hd, List.takeWhile_append_dropWhile]
    generalize y.takeWhile (· ≠ '(') = z at hz hsplit
    subst hsplit
    obtain ⟨htake, hdrop⟩ := span_paren (d := service.encode d)
      (@paren_not_mem_encode service _ hz)
    rw [encode_append, encode_cons hparen] at h
    unfold parseReferenceSegment at h
    simp only [htake, hdrop, closeKey_encode] at h
    split at h
    · cases h
    · cases hclose : closeKey false d with
      | error b =>
        rw [hclose] at h
        cases b <;> cases h
      | ok r =>
        obtain ⟨key, rest⟩ := r
        rw [hclose] at h
        simp only [Except.map] at h
        split at h
        · cases h
        · cases h
        · cases h
        · next heq =>
          simp only [Except.ok.injEq, Prod.mk.injEq, encode_eq_nil] at heq
          obtain ⟨rfl, rfl⟩ := heq
          cases h
          exact ⟨z, key, hz, by rw [closeKey_eq_ok hclose], rfl⟩
  · exfalso
    have hdrop : (service.encode y).dropWhile (· ≠ '(') = [] := by
      rw [List.dropWhile_eq_nil_iff]
      intro c hc
      rw [decide_eq_true_eq]
      rintro rfl
      exact paren_not_mem_encode hy hc
    unfold parseReferenceSegment at h
    simp only [hdrop] at h
    cases h

end Segments

end LoopbackOData
