import LoopbackOData.Entities.Properties
import LoopbackOData.Filter.Spelling
import LoopbackOData.Paging.TokenSigning

/-!
# Texts of decimal numbers

The plain text of a number denotes the same number, and the normal form of a decimal text consists
of the characters of numbers.
-/

namespace LoopbackOData

set_option autoImplicit false

theorem digitsValue_replicate (n : Nat) : digitsValue (List.replicate n '0') = 0 := by
  induction n with
  | zero => rfl
  | succ n ih =>
    rw [List.replicate_succ', digitsValue_append, ih]
    rfl

/-- Zeros at the end count as powers of ten. -/
theorem digitsValue_append_zeros (s : Text) (n : Nat) :
    digitsValue (s ++ List.replicate n '0') = digitsValue s * 10 ^ n := by
  rw [digitsValue_append, digitsValue_replicate, List.length_replicate, Nat.add_zero]

theorem digitsValue_zeros_append (n : Nat) (s : Text) :
    digitsValue (List.replicate n '0' ++ s) = digitsValue s := by
  rw [digitsValue_append, digitsValue_replicate, Nat.zero_mul, Nat.zero_add]

theorem dropTrailingZeros_append (s : Text) :
    ∃ n, s = dropTrailingZeros s ++ List.replicate n '0' := by
  have hzeros : s.reverse.takeWhile (· = '0') =
      List.replicate (s.reverse.takeWhile (· = '0')).length '0' := by
    rw [List.eq_replicate_iff]
    refine ⟨rfl, fun c hc => ?_⟩
    simpa using List.mem_takeWhile_imp hc
  refine ⟨(s.reverse.takeWhile (· = '0')).length, ?_⟩
  have hsplit := congrArg List.reverse (List.takeWhile_append_dropWhile (p := (· = '0'))
    (l := s.reverse))
  rw [List.reverse_append, List.reverse_reverse, hzeros, List.reverse_replicate] at hsplit
  exact hsplit.symm

theorem all_isDigit_replicate (n : Nat) : (List.replicate n '0').all isDigit = true := by
  simp [isDigit]

theorem splitDecimal_of_spells {whole fraction exponentText : Text} {exponent : Int}
    (hne : whole ≠ []) (hwhole : whole.all isDigit) (hfraction : fraction.all isDigit)
    (hexponent : SpellsExponent exponentText exponent) :
    splitDecimal (whole ++ ((if fraction = [] then [] else '.' :: fraction) ++ exponentText)) =
      some (whole, fraction, if exponentText = [] then none else some exponent) := by
  obtain ⟨htake, hdrop⟩ := split_decimal fraction hwhole hexponent
  have hexponent' := readExponent_of_spells hexponent
  unfold splitDecimal
  simp only [htake, hdrop]
  by_cases hnil : fraction = []
  · subst hnil
    rw [if_pos rfl, List.nil_append]
    have hdot : ∀ rest, exponentText ≠ '.' :: rest := by
      rintro rest rfl
      exact (hexponent.head '.' rfl).2 rfl
    split
    · exact absurd rfl (hdot _)
    · cases exponentText with
      | nil => simp [hne]
      | cons e digits => simp [hne, hexponent']
  · rw [if_neg hnil, List.cons_append]
    obtain ⟨htake', hdrop'⟩ := digits_append hfraction fun c hc => (hexponent.head c hc).1
    cases exponentText with
    | nil =>
      rw [List.append_nil] at htake' hdrop' ⊢
      simp [htake', hdrop', hne]
    | cons e digits => simp [htake', hdrop', hne, hexponent']

/-- A number without an exponent. -/
theorem spells_plain {whole : Text} (negative : Bool) (fraction : Text) (hne : whole ≠ [])
    (hwhole : whole.all isDigit) (hfraction : fraction.all isDigit) :
    SpellsDecimal ((if negative then ['-'] else []) ++ (whole ++
      (if fraction = [] then [] else '.' :: fraction))) ⟨negative, whole, fraction, 0⟩ := by
  have h := @SpellsDecimal.intro negative _ _ _ _ hne hwhole hfraction SpellsExponent.none
  rwa [List.append_nil] at h

theorem value_congr {d e : DecimalText} (hsign : d.negative = e.negative)
    (h : (digitsValue (d.whole ++ d.fraction) : Rat) * 10 ^ (d.exponent - d.fraction.length) =
      digitsValue (e.whole ++ e.fraction) * 10 ^ (e.exponent - e.fraction.length)) :
    d.value = e.value := by
  rw [DecimalText.value, DecimalText.value, hsign, h]

theorem all_isDigit_append {s t : Text} (hs : s.all isDigit) (ht : t.all isDigit) :
    (s ++ t).all isDigit = true := by
  rw [List.all_append, Bool.and_eq_true]
  exact ⟨hs, ht⟩

/-- The digits with the point at an index and no exponent. -/
def plainDigits (digits : Text) (targetIndex : Int) : Text :=
  if targetIndex ≤ 0 then '0' :: '.' :: (List.replicate targetIndex.natAbs '0' ++ digits)
  else if digits.length ≤ targetIndex then
    digits ++ List.replicate (targetIndex.toNat - digits.length) '0'
  else
    let fractionalPart := dropTrailingZeros (digits.drop targetIndex.toNat)
    digits.take targetIndex.toNat ++
      (if fractionalPart ≠ [] then '.' :: fractionalPart else [])

theorem spells_plainDigits (negative : Bool) {whole fraction : Text} (exponent : Int)
    (hne : whole ≠ []) (hwhole : whole.all isDigit) (hfraction : fraction.all isDigit) :
    ∃ plain, SpellsDecimal ((if negative then ['-'] else []) ++
        plainDigits (whole ++ fraction) (whole.length + exponent)) plain ∧
      plain.value = DecimalText.value ⟨negative, whole, fraction, exponent⟩ := by
  have hdigits := all_isDigit_append hwhole hfraction
  have hlength : (whole ++ fraction).length = whole.length + fraction.length :=
    List.length_append
  have hdigitsNe : whole ++ fraction ≠ [] := by simp [hne]
  unfold plainDigits
  by_cases hindex : (whole.length : Int) + exponent ≤ 0
  · rw [if_pos hindex]
    have hzeros := all_isDigit_append
      (all_isDigit_replicate (whole.length + exponent).natAbs) hdigits
    refine ⟨⟨negative, ['0'], List.replicate (whole.length + exponent).natAbs '0' ++
      (whole ++ fraction), 0⟩, ?_, ?_⟩
    · have h := spells_plain negative _ (List.cons_ne_nil '0' []) (by decide) hzeros
      have hfill : ¬ List.replicate (whole.length + exponent).natAbs '0' ++
          (whole ++ fraction) = [] := by simp [hne]
      rwa [if_neg hfill] at h
    · refine value_congr (by rfl) ?_
      have hvalue : digitsValue (['0'] ++ (List.replicate (whole.length + exponent).natAbs '0' ++
          (whole ++ fraction))) = digitsValue (whole ++ fraction) := by
        rw [digitsValue_append, digitsValue_zeros_append]
        simp [digitsValue]
      have hexponent : (0 : Int) - (List.replicate (whole.length + exponent).natAbs '0' ++
          (whole ++ fraction)).length = exponent - fraction.length := by
        rw [List.length_append, List.length_replicate, hlength]
        omega
      rw [hvalue, hexponent]
  · rw [if_neg hindex]
    by_cases hlong : ((whole ++ fraction).length : Int) ≤ whole.length + exponent
    · rw [if_pos hlong]
      generalize hn : (whole.length + exponent : Int).toNat - (whole ++ fraction).length = n
      refine ⟨⟨negative, whole ++ fraction ++ List.replicate n '0', [], 0⟩, ?_, ?_⟩
      · have h := @spells_plain (whole ++ fraction ++ List.replicate n '0') negative [] (by simp [hne])
          (all_isDigit_append hdigits (all_isDigit_replicate n)) rfl
        rwa [if_pos rfl, List.append_nil] at h
      · refine value_congr (by rfl) ?_
        have hexponent : exponent - fraction.length = (n : Int) := by
          rw [← hn, hlength]
          rw [hlength] at hlong
          omega
        dsimp only
        rw [hexponent, List.append_nil, digitsValue_append_zeros, zpow_natCast]
        simp
    · rw [if_neg hlong]
      dsimp only
      generalize hn : (whole.length + exponent : Int).toNat = n
      generalize hdigits' : whole ++ fraction = digits at *
      obtain ⟨m, hm⟩ := dropTrailingZeros_append (digits.drop n)
      generalize dropTrailingZeros (digits.drop n) = kept at hm
      have htake : digits.take n ≠ [] := by
        rw [ne_eq, List.take_eq_nil_iff]
        rintro (h | h)
        · omega
        · exact hdigitsNe h
      have hjoin : digits = digits.take n ++ kept ++ List.replicate m '0' := by
        rw [List.append_assoc, ← hm, List.take_append_drop]
      have hall := hdigits
      rw [hjoin, List.all_append, List.all_append, Bool.and_eq_true, Bool.and_eq_true] at hall
      refine ⟨⟨negative, digits.take n, kept, 0⟩, ?_, ?_⟩
      · have h := spells_plain negative kept htake hall.1.1 hall.1.2
        have hpoint : (if kept ≠ [] then '.' :: kept else []) =
            if kept = [] then [] else '.' :: kept := ite_not _ _ _
        rwa [hpoint]
      · refine value_congr (by rfl) ?_
        have hcount : kept.length + m = digits.length - n := by
          have := congrArg List.length hm
          rw [List.length_drop, List.length_append, List.length_replicate] at this
          omega
        have hexponent : (m : Int) + (exponent - fraction.length) = 0 - kept.length := by
          omega
        dsimp only
        rw [hdigits', ← hexponent, zpow_add₀ (by norm_num), zpow_natCast]
        conv_rhs => rw [hjoin, digitsValue_append_zeros]
        push_cast
        ring

/-- Moving the point instead of writing an exponent does not change the number. -/
theorem spells_toPlainDecimalString {t : Text} {d : DecimalText} (h : SpellsDecimal t d) :
    ∃ plain, SpellsDecimal (toPlainDecimalString t) plain ∧ plain.value = d.value := by
  have hspells := h
  cases h with
  | @intro negative whole fraction exponentText exponent hne hwhole hfraction hexponent =>
    obtain ⟨hsign, _, hunsigned⟩ := sign_decimal ((if fraction = [] then [] else
      '.' :: fraction) ++ exponentText) hne hwhole negative
    have hsplit := splitDecimal_of_spells hne hwhole hfraction hexponent
    by_cases hnil : exponentText = []
    · rw [if_pos hnil] at hsplit
      unfold toPlainDecimalString
      simp only [hsign, hunsigned, hsplit]
      exact ⟨_, hspells, rfl⟩
    · rw [if_neg hnil] at hsplit
      have hplain := spells_plainDigits negative exponent hne hwhole hfraction
      unfold toPlainDecimalString
      simp only [hsign, hunsigned, hsplit]
      unfold plainDigits at hplain
      split
      · next hindex => rwa [if_pos hindex] at hplain
      · next hindex =>
        rw [if_neg hindex] at hplain
        split
        · next hlong =>
          rw [if_pos hlong] at hplain
          rwa [List.append_assoc]
        · next hshort =>
          rw [if_neg hshort] at hplain
          rwa [List.append_assoc]

/-! ## Normal forms -/

theorem all_isDigit_of_subset {s t : Text} (h : ∀ c ∈ s, c ∈ t) (ht : t.all isDigit) :
    s.all isDigit = true := by
  rw [List.all_eq_true] at ht ⊢
  exact fun c hc => ht c (h c hc)

theorem all_isDigit_takeWhile (s : Text) : (s.takeWhile isDigit).all isDigit = true := by
  rw [List.all_eq_true]
  exact fun c hc => List.mem_takeWhile_imp hc

theorem all_isDigit_of_splitDecimal {unsigned whole decimals : Text} {exponent : Option Int}
    (h : splitDecimal unsigned = some (whole, decimals, exponent)) :
    whole.all isDigit = true ∧ decimals.all isDigit = true := by
  have hmap {w d : Text} {found : Option Int}
      (h : (found.map fun exponent => (w, d, some exponent)) = some (whole, decimals, exponent)) :
      whole = w ∧ decimals = d := by
    rw [Option.map_eq_some_iff] at h
    obtain ⟨e, _, h⟩ := h
    cases h
    exact ⟨rfl, rfl⟩
  have hparts : whole = unsigned.takeWhile isDigit ∧
      (decimals = [] ∨ ∃ rest : Text, decimals = rest.takeWhile isDigit) := by
    unfold splitDecimal at h
    dsimp only at h
    split at h
    · next rest _ =>
      split at h
      · cases h
      · split at h
        · cases h
          exact ⟨rfl, Or.inr ⟨rest, rfl⟩⟩
        · obtain ⟨hwhole, hdecimals⟩ := hmap h
          exact ⟨hwhole, Or.inr ⟨rest, hdecimals⟩⟩
    · split at h
      · cases h
      · split at h
        · cases h
          exact ⟨rfl, Or.inl rfl⟩
        · obtain ⟨hwhole, hdecimals⟩ := hmap h
          exact ⟨hwhole, Or.inl hdecimals⟩
  obtain ⟨rfl, hdecimals⟩ := hparts
  refine ⟨all_isDigit_takeWhile _, ?_⟩
  rcases hdecimals with rfl | ⟨rest, rfl⟩
  · rfl
  · exact all_isDigit_takeWhile _

theorem all_isDigit_placePoint {digits : Text} (index : Int) (h : digits.all isDigit) :
    (placePoint digits index).1.all isDigit = true ∧
      (placePoint digits index).2.all isDigit = true := by
  unfold placePoint
  split
  · exact ⟨rfl, all_isDigit_append (all_isDigit_replicate _) h⟩
  · split
    · exact ⟨all_isDigit_append h (all_isDigit_replicate _), rfl⟩
    · exact ⟨all_isDigit_of_subset (fun c hc => List.mem_of_mem_take hc) h,
        all_isDigit_of_subset (fun c hc => List.mem_of_mem_drop hc) h⟩

/-- A decimal text without anything that could be left out. -/
inductive IsNormalDecimal : Text → Prop where
  | intro {whole fraction : Text} (negative : Bool) : whole ≠ [] → whole.all isDigit →
    (whole = ['0'] ∨ whole.head? ≠ some '0') → fraction.all isDigit →
    fraction.getLast? ≠ some '0' →
    IsNormalDecimal ((if negative then ['-'] else []) ++ (whole ++
      (if fraction = [] then [] else '.' :: fraction)))

theorem dropWhile_zeros {whole : Text} (h : whole.head? ≠ some '0') :
    whole.dropWhile (· = '0') = whole := by
  apply dropWhile_of_head
  intro c hc
  rw [decide_eq_false_iff_not]
  rintro rfl
  exact h hc

theorem dropTrailingZeros_of_getLast {fraction : Text} (h : fraction.getLast? ≠ some '0') :
    dropTrailingZeros fraction = fraction := by
  rw [dropTrailingZeros, dropWhile_zeros, List.reverse_reverse]
  rwa [List.head?_reverse]

theorem head_dropWhile_zeros (s : Text) : (s.dropWhile (· = '0')).head? ≠ some '0' := by
  intro h
  have hnot := List.head?_dropWhile_not (· = '0') s
  rw [h] at hnot
  simp at hnot

theorem getLast_dropTrailingZeros (s : Text) : (dropTrailingZeros s).getLast? ≠ some '0' := by
  rw [dropTrailingZeros, List.getLast?_reverse]
  exact head_dropWhile_zeros _

theorem combineDecimalParts_normal {integer fraction : Text} (negative : Bool)
    (hinteger : integer.all isDigit) (hfraction : fraction.all isDigit) :
    IsNormalDecimal (combineDecimalParts (if negative then ['-'] else []) integer fraction) := by
  have hsignificant : (integer.dropWhile (· = '0')).all isDigit = true :=
    all_isDigit_of_subset (fun c hc => (List.dropWhile_sublist _).subset hc) hinteger
  have hkept : (dropTrailingZeros fraction).all isDigit = true := by
    refine all_isDigit_of_subset (fun c hc => ?_) hfraction
    exact List.mem_reverse.mp ((List.dropWhile_sublist _).subset (List.mem_reverse.mp hc))
  have hform {whole : Text} (hne : whole ≠ []) (hall : whole.all isDigit)
      (hhead : whole = ['0'] ∨ whole.head? ≠ some '0') : IsNormalDecimal
        (if dropTrailingZeros fraction ≠ [] then
          (if negative then ['-'] else []) ++ whole ++ '.' :: dropTrailingZeros fraction
        else (if negative then ['-'] else []) ++ whole) := by
    have h := IsNormalDecimal.intro negative hne hall hhead hkept (getLast_dropTrailingZeros _)
    by_cases hnil : dropTrailingZeros fraction = []
    · rw [if_pos hnil, List.append_nil] at h
      rwa [if_neg (not_not_intro hnil)]
    · rw [if_neg hnil] at h
      rwa [if_pos hnil, List.append_assoc]
  unfold combineDecimalParts
  dsimp only
  by_cases hnil : integer.dropWhile (· = '0') = []
  · rw [if_pos hnil]
    exact hform (List.cons_ne_nil _ _) rfl (Or.inl rfl)
  · rw [if_neg hnil]
    exact hform hnil hsignificant (Or.inr (head_dropWhile_zeros _))

theorem IsNormalDecimal.of_normalized {maxExponentAbs : Nat} {input normalized : Text}
    (h : normalizeDecimalString maxExponentAbs input = some normalized) :
    IsNormalDecimal normalized := by
  unfold normalizeDecimalString at h
  dsimp only at h
  generalize startsWith (trimText input) ['-'] = negative at h
  split at h
  · cases h
  · next whole decimals hsplit =>
    cases h
    obtain ⟨hwhole, hdecimals⟩ := all_isDigit_of_splitDecimal hsplit
    refine combineDecimalParts_normal negative ?_ hdecimals
    split
    · rfl
    · exact hwhole
  · next whole decimals exponent hsplit =>
    obtain ⟨hwhole, hdecimals⟩ := all_isDigit_of_splitDecimal hsplit
    split at h
    · cases h
    · cases h
      obtain ⟨hinteger, hfraction⟩ := all_isDigit_placePoint (whole.length + exponent)
        (all_isDigit_append hwhole hdecimals)
      exact combineDecimalParts_normal negative hinteger hfraction

/-- The normal form of a decimal text is written with the characters of numbers. -/
theorem normalizeDecimalString_chars {maxExponentAbs : Nat} {input normalized : Text}
    (h : normalizeDecimalString maxExponentAbs input = some normalized) :
    normalized ≠ [] ∧ ∀ c ∈ normalized, isNumberChar c := by
  cases IsNormalDecimal.of_normalized h with
  | intro negative hne hwhole _ hfraction _ =>
    have hspells := spells_plain negative _ hne hwhole hfraction
    exact ⟨hspells.ne_nil, hspells.all_numberChar⟩

/-- Exactly the texts in normal form are left as they are. -/
theorem normalizeDecimalString_eq_self_iff {maxExponentAbs : Nat} {s : Text} :
    normalizeDecimalString maxExponentAbs s = some s ↔ IsNormalDecimal s := by
  constructor
  · exact IsNormalDecimal.of_normalized
  · intro h
    cases h with
    | @intro whole fraction negative hne hwhole hhead hfraction hlast =>
      have hspells := spells_plain negative fraction hne hwhole hfraction
      have htrim := trimText_eq fun c hc => isSpace_false_of_isNumberChar
        (hspells.all_numberChar c hc)
      obtain ⟨hsign, hplus, hunsigned⟩ := sign_decimal
        (if fraction = [] then [] else '.' :: fraction) hne hwhole negative
      have hsplit := splitDecimal_of_spells hne hwhole hfraction SpellsExponent.none
      rw [List.append_nil, if_pos rfl] at hsplit
      have hzeros : (if whole.dropWhile (· = '0') = [] then ['0']
          else whole.dropWhile (· = '0')) = whole := by
        rcases hhead with rfl | hhead
        · rfl
        · rw [dropWhile_zeros hhead, if_neg hne]
      unfold normalizeDecimalString
      simp only [htrim, hsign, hplus, Bool.or_false, hunsigned, hsplit, if_neg hne]
      unfold combineDecimalParts
      dsimp only
      rw [hzeros, dropTrailingZeros_of_getLast hlast]
      by_cases hnil : fraction = []
      · rw [if_neg (not_not_intro hnil), if_pos hnil, List.append_nil]
      · rw [if_pos hnil, if_neg hnil, List.append_assoc]

end LoopbackOData
