import LoopbackOData.Entities.Decimals
import LoopbackOData.Paging.Binding

/-!
# Normal forms of decimal numbers

The normal form of a decimal text denotes the same number and is the only normal text that does, but
for the sign of zero.
-/

namespace LoopbackOData

set_option autoImplicit false

/-! ## Numeric texts -/

/-- A number in plain or scientific notation: a sign, a whole part and a fraction of which one may be
missing, and an exponent. -/
inductive WritesNumber : Text → DecimalText → Prop where
  | intro {sign whole point fraction exponentText : Text} {negative : Bool} {exponent : Int} :
    (sign = ['-'] ∧ negative = true) ∨ ((sign = [] ∨ sign = ['+']) ∧ negative = false) →
    whole.all isDigit → fraction.all isDigit → ¬ (whole = [] ∧ fraction = []) →
    (point = '.' :: fraction ∨ (point = [] ∧ fraction = [])) →
    SpellsExponent exponentText exponent →
    WritesNumber (sign ++ (whole ++ (point ++ exponentText)))
      ⟨negative, whole, fraction, exponent⟩

/-- What follows the sign, as the parts that are found in it. -/
theorem splitDecimal_of_writes {whole point fraction exponentText : Text} {exponent : Int}
    (hwhole : whole.all isDigit) (hfraction : fraction.all isDigit)
    (hne : ¬ (whole = [] ∧ fraction = []))
    (hpoint : point = '.' :: fraction ∨ (point = [] ∧ fraction = []))
    (hexponent : SpellsExponent exponentText exponent) :
    splitDecimal (whole ++ (point ++ exponentText)) =
      some (whole, fraction, if exponentText = [] then none else some exponent) := by
  have hread := readExponent_of_spells hexponent
  have hhead : ∀ c ∈ exponentText.head?, isDigit c = false := fun c hc =>
    (hexponent.head c hc).1
  rcases hpoint with rfl | ⟨rfl, rfl⟩
  · obtain ⟨htake, hdrop⟩ := digits_append (x := '.' :: fraction ++ exponentText) hwhole (by
      rintro c ⟨⟩
      decide)
    obtain ⟨htake', hdrop'⟩ := digits_append hfraction hhead
    rw [List.cons_append] at htake hdrop
    unfold splitDecimal
    simp only [List.cons_append, htake, hdrop, htake', hdrop', if_neg hne]
    cases exponentText with
    | nil => rfl
    | cons e digits => simp [hread]
  · obtain ⟨htake, hdrop⟩ := digits_append hwhole hhead
    have hwholeNe : whole ≠ [] := fun h => hne ⟨h, rfl⟩
    rw [List.nil_append]
    unfold splitDecimal
    simp only [htake, hdrop]
    split
    · next rest _ => exact absurd rfl (hexponent.head '.' rfl).2
    · cases exponentText with
      | nil => simp [hwholeNe]
      | cons e digits => simp [hread, hwholeNe]

theorem spellsExponent_of_readExponent {text : Text} {exponent : Int}
    (h : readExponent text = some exponent) : SpellsExponent text exponent := by
  have hdigits {digits : Text} {n : Int} (h : readExponent.readDigits digits = some n) :
      digits ≠ [] ∧ digits.all isDigit = true ∧ n = digitsValue digits := by
    unfold readExponent.readDigits at h
    split at h
    · next hall =>
      rw [Bool.and_eq_true, decide_eq_true_eq] at hall
      exact ⟨hall.1, hall.2, (Option.some.inj h).symm⟩
    · cases h
  cases text with
  | nil =>
    cases h
    exact SpellsExponent.none
  | cons e rest =>
    unfold readExponent at h
    dsimp only at h
    split at h
    · next he =>
      have he : e = 'e' ∨ e = 'E' := by simpa using he
      split at h
      · obtain ⟨hne, hall, rfl⟩ := hdigits h
        exact SpellsExponent.plus he hne hall
      · next digits =>
        obtain ⟨n, hread, rfl⟩ := Option.map_eq_some_iff.mp h
        obtain ⟨hne, hall, rfl⟩ := hdigits hread
        exact SpellsExponent.minus he hne hall
      · obtain ⟨hne, hall, rfl⟩ := hdigits h
        exact SpellsExponent.plain he hne hall
    · cases h

/-- Only the parts of a number are found in a text. -/
theorem parts_of_splitDecimal {unsigned whole fraction : Text} {found : Option Int}
    (h : splitDecimal unsigned = some (whole, fraction, found)) :
    ∃ point exponentText exponent, unsigned = whole ++ (point ++ exponentText) ∧
      ¬ (whole = [] ∧ fraction = []) ∧
      (point = '.' :: fraction ∨ (point = [] ∧ fraction = [])) ∧
      SpellsExponent exponentText exponent ∧
      found = if exponentText = [] then none else some exponent := by
  have hread {w d : Text} {rest : Text} (hrest : rest ≠ [])
      (h : ((readExponent rest).map fun exponent => (w, d, some exponent)) =
        some (whole, fraction, found)) :
      w = whole ∧ d = fraction ∧ ∃ exponent, SpellsExponent rest exponent ∧
        found = if rest = [] then none else some exponent := by
    obtain ⟨exponent, hread, h⟩ := Option.map_eq_some_iff.mp h
    cases h
    exact ⟨rfl, rfl, exponent, spellsExponent_of_readExponent hread, by rw [if_neg hrest]⟩
  have hsplit := List.takeWhile_append_dropWhile (p := isDigit) (l := unsigned)
  unfold splitDecimal at h
  dsimp only at h
  split at h
  · next rest hdrop =>
    have hsplit' := List.takeWhile_append_dropWhile (p := isDigit) (l := rest)
    rw [hdrop] at hsplit
    split at h
    · cases h
    · next hne =>
      split at h
      · next hnil =>
        cases h
        have hnil : rest.dropWhile isDigit = [] := hnil
        rw [hnil, List.append_nil] at hsplit'
        refine ⟨'.' :: rest.takeWhile isDigit, [], 0, ?_, hne, .inl rfl, SpellsExponent.none, rfl⟩
        rw [List.append_nil, hsplit', hsplit]
      · next hrest =>
        obtain ⟨rfl, rfl, exponent, hspells, hfound⟩ := hread hrest h
        refine ⟨'.' :: rest.takeWhile isDigit, _, exponent, ?_, hne, .inl rfl, hspells, hfound⟩
        rw [List.cons_append, hsplit', hsplit]
  · next rest hdot =>
    split at h
    · cases h
    · next hne =>
      split at h
      · next hnil =>
        cases h
        have hnil : unsigned.dropWhile isDigit = [] := hnil
        rw [hnil] at hsplit
        exact ⟨[], [], 0, hsplit.symm, hne, .inr ⟨rfl, rfl⟩, SpellsExponent.none, rfl⟩
      · next hrest =>
        obtain ⟨rfl, rfl, exponent, hspells, hfound⟩ := hread hrest h
        exact ⟨[], _, exponent, hsplit.symm, hne, .inr ⟨rfl, rfl⟩, hspells, hfound⟩

/-! ## The parts of the normal form -/

/-- Moving the point to an index keeps the number. -/
theorem value_placePoint (negative : Bool) (digits : Text) (index : Int) :
    DecimalText.value ⟨negative, (placePoint digits index).1, (placePoint digits index).2, 0⟩ =
      DecimalText.value ⟨negative, [], digits, index⟩ := by
  refine value_congr (by rfl) ?_
  unfold placePoint
  dsimp only
  rw [List.nil_append]
  split
  · next hindex =>
    have hvalue : digitsValue (['0'] ++ (List.replicate index.natAbs '0' ++ digits)) =
        digitsValue digits := by
      rw [digitsValue_append, digitsValue_zeros_append]
      simp [digitsValue]
    have hexponent : (0 : Int) - (List.replicate index.natAbs '0' ++ digits).length =
        index - digits.length := by
      rw [List.length_append, List.length_replicate]
      omega
    rw [hvalue, hexponent]
  · next hindex =>
    split
    · next hlong =>
      generalize hn : index.toNat - digits.length = n
      have hexponent : index - digits.length = (n : Int) := by omega
      rw [hexponent, List.append_nil, digitsValue_append_zeros, zpow_natCast]
      simp
    · next hshort =>
      have hexponent : (0 : Int) - (digits.drop index.toNat).length = index - digits.length := by
        rw [List.length_drop]
        omega
      rw [hexponent, List.take_append_drop]

theorem leading_zeros (s : Text) : ∃ n, s = List.replicate n '0' ++ s.dropWhile (· = '0') := by
  refine ⟨(s.takeWhile (· = '0')).length, ?_⟩
  have hzeros : s.takeWhile (· = '0') = List.replicate (s.takeWhile (· = '0')).length '0' := by
    rw [List.eq_replicate_iff]
    exact ⟨rfl, fun c hc => by simpa using List.mem_takeWhile_imp hc⟩
  rw [← hzeros, List.takeWhile_append_dropWhile]

/-- Leaving out zeros at both ends keeps the number. -/
theorem spells_combineDecimalParts {integer fraction : Text} (negative : Bool)
    (hinteger : integer.all isDigit) (hfraction : fraction.all isDigit) :
    ∃ plain, SpellsDecimal
        (combineDecimalParts (if negative then ['-'] else []) integer fraction) plain ∧
      plain.negative = negative ∧
      plain.value = DecimalText.value ⟨negative, integer, fraction, 0⟩ := by
  obtain ⟨n, hn⟩ := leading_zeros integer
  obtain ⟨m, hm⟩ := dropTrailingZeros_append fraction
  have hsignificant : (integer.dropWhile (· = '0')).all isDigit = true :=
    all_isDigit_of_subset (fun c hc => (List.dropWhile_sublist _).subset hc) hinteger
  have hkept : (dropTrailingZeros fraction).all isDigit = true :=
    all_isDigit_of_subset (fun c hc => by rw [hm]; exact List.mem_append_left _ hc) hfraction
  unfold combineDecimalParts
  dsimp only
  generalize integer.dropWhile (· = '0') = significant at *
  generalize dropTrailingZeros fraction = kept at *
  obtain ⟨whole, hwhole⟩ : ∃ whole, whole = if significant = [] then ['0'] else significant :=
    ⟨_, rfl⟩
  have hne : whole ≠ [] := by
    rw [hwhole]
    split <;> simp_all
  have hall : whole.all isDigit = true := by
    rw [hwhole]
    split
    · rfl
    · exact hsignificant
  rw [← hwhole]
  refine ⟨⟨negative, whole, kept, 0⟩, ?_, rfl, value_congr (by rfl) ?_⟩
  · have h := spells_plain negative kept hne hall hkept
    by_cases hnil : kept = []
    · rw [if_pos hnil, List.append_nil] at h
      rwa [if_neg (not_not_intro hnil)]
    · rw [if_neg hnil] at h
      rwa [if_pos hnil, List.append_assoc]
  · have hvalue : digitsValue (whole ++ kept) = digitsValue (significant ++ kept) := by
      rw [hwhole]
      split
      · next hnil =>
        rw [hnil, digitsValue_append, List.nil_append]
        simp [digitsValue]
      · rfl
    have hexponent : (m : Int) + (0 - fraction.length) = 0 - kept.length := by
      rw [hm, List.length_append, List.length_replicate]
      omega
    have hjoin : integer ++ fraction =
        List.replicate n '0' ++ (significant ++ kept ++ List.replicate m '0') := by
      rw [hn, hm]
      simp only [List.append_assoc]
    dsimp only
    rw [hvalue, hjoin, digitsValue_zeros_append, digitsValue_append_zeros, ← hexponent,
      zpow_add₀ (by norm_num), zpow_natCast]
    push_cast
    ring

/-! ## Numbers in normal form -/

theorem digitsValue_lt {s : Text} (hall : s.all isDigit) : digitsValue s < 10 ^ s.length := by
  induction s using List.reverseRecOn with
  | nil => decide
  | append_singleton s c ih =>
    rw [List.all_append, Bool.and_eq_true, List.all_cons, List.all_nil, Bool.and_true] at hall
    have hprefix := ih hall.1
    have hlt : digitsValue [c] < 10 := by
      have hdigits : ∀ c ∈ "0123456789".toList, digitsValue [c] < 10 := by decide
      exact hdigits c (mem_digits hall.2)
    rw [digitsValue_append, List.length_append, List.length_singleton, pow_one, pow_succ]
    omega

/-- Texts of equally many digits tell numbers apart. -/
theorem eq_of_digitsValue {s t : Text} (hs : s.all isDigit) (ht : t.all isDigit)
    (hlength : s.length = t.length) (hvalue : digitsValue s = digitsValue t) : s = t := by
  -- with a digit in front there are no leading zeros
  have hdigits {u : Text} (hu : u.all isDigit) :
      Json.digits (digitsValue (['1'] ++ u)) = '1' :: u := by
    refine digits_digitsValue (List.cons_ne_nil _ _) ?_ (.inr (by simp))
    rw [List.singleton_append, List.all_cons, hu]
    rfl
  have heq : digitsValue (['1'] ++ s) = digitsValue (['1'] ++ t) := by
    rw [digitsValue_append, digitsValue_append, hlength, hvalue]
  have h := hdigits hs
  rw [heq, hdigits ht] at h
  exact (List.cons.inj h).2.symm

/-- A fraction that does not end in a zero is not longer than needed. -/
theorem fraction_length_le {whole fraction whole' fraction' : Text} (hfraction : fraction.all isDigit)
    (hlast : fraction.getLast? ≠ some '0')
    (h : digitsValue (whole ++ fraction) * 10 ^ fraction'.length =
      digitsValue (whole' ++ fraction') * 10 ^ fraction.length) :
    fraction.length ≤ fraction'.length := by
  by_contra hlonger
  obtain ⟨k, hk⟩ : ∃ k, fraction.length = fraction'.length + (k + 1) :=
    ⟨fraction.length - fraction'.length - 1, by omega⟩
  rw [hk, pow_add, mul_comm (10 ^ fraction'.length), ← mul_assoc] at h
  have h := Nat.eq_of_mul_eq_mul_right (Nat.pow_pos (by decide)) h
  cases fraction using List.reverseRecOn with
  | nil => simp at hk
  | append_singleton digits c =>
    rw [List.all_append, Bool.and_eq_true, List.all_cons, List.all_nil, Bool.and_true] at hfraction
    rw [List.getLast?_append, List.getLast?_singleton, Option.some_or, ne_eq,
      Option.some.injEq] at hlast
    have hdigit : digitsValue [c] % 10 ≠ 0 := by
      have hdigits : ∀ c ∈ "0123456789".toList, c ≠ '0' → digitsValue [c] % 10 ≠ 0 := by decide
      exact hdigits c (mem_digits hfraction.2) hlast
    rw [← List.append_assoc, digitsValue_append, List.length_singleton, pow_one, pow_succ,
      ← mul_assoc] at h
    omega

/-- A number has only one normal form. -/
theorem eq_of_normal {whole fraction whole' fraction' : Text}
    (hne : whole ≠ []) (hwhole : whole.all isDigit)
    (hhead : whole = ['0'] ∨ whole.head? ≠ some '0')
    (hfraction : fraction.all isDigit) (hlast : fraction.getLast? ≠ some '0')
    (hne' : whole' ≠ []) (hwhole' : whole'.all isDigit)
    (hhead' : whole' = ['0'] ∨ whole'.head? ≠ some '0')
    (hfraction' : fraction'.all isDigit) (hlast' : fraction'.getLast? ≠ some '0')
    (h : digitsValue (whole ++ fraction) * 10 ^ fraction'.length =
      digitsValue (whole' ++ fraction') * 10 ^ fraction.length) :
    whole = whole' ∧ fraction = fraction' := by
  have hlength : fraction.length = fraction'.length :=
    Nat.le_antisymm (fraction_length_le hfraction hlast h)
      (fraction_length_le hfraction' hlast' h.symm)
  rw [hlength] at h
  have h := Nat.eq_of_mul_eq_mul_right (Nat.pow_pos (by decide)) h
  rw [digitsValue_append, digitsValue_append, hlength] at h
  have hlt := digitsValue_lt hfraction
  have hlt' := digitsValue_lt hfraction'
  rw [hlength] at hlt
  generalize 10 ^ fraction'.length = base at h hlt hlt'
  have hwholeValue : digitsValue whole = digitsValue whole' := by
    have hdiv := congrArg (· / base) h
    have hpos : 0 < base := by omega
    rwa [Nat.add_comm, Nat.add_mul_div_right _ _ hpos, Nat.div_eq_of_lt hlt, Nat.zero_add,
      Nat.add_comm, Nat.add_mul_div_right _ _ hpos, Nat.div_eq_of_lt hlt', Nat.zero_add] at hdiv
  have hfractionValue : digitsValue fraction = digitsValue fraction' := by
    rw [hwholeValue] at h
    omega
  have hsingle {w : Text} (hhead : w = ['0'] ∨ w.head? ≠ some '0') :
      w.length = 1 ∨ w.head? ≠ some '0' := hhead.imp_left (congrArg List.length)
  refine ⟨?_, eq_of_digitsValue hfraction hfraction' hlength hfractionValue⟩
  rw [← digits_digitsValue hne hwhole (hsingle hhead), hwholeValue,
    digits_digitsValue hne' hwhole' (hsingle hhead')]

theorem value_nonneg_part (d : DecimalText) :
    0 ≤ (digitsValue (d.whole ++ d.fraction) : Rat) * 10 ^ (d.exponent - d.fraction.length) := by
  positivity

theorem signed_eq {negative negative' : Bool} {x y : Rat} (hx : 0 ≤ x) (hy : 0 ≤ y)
    (h : (if negative then -x else x) = if negative' then -y else y)
    (hzero : (if negative then -x else x) = 0 → negative = negative') :
    negative = negative' ∧ x = y := by
  cases negative with
  | false =>
    cases negative' with
    | false => exact ⟨rfl, h⟩
    | true =>
      have h : x = -y := h
      exact absurd (hzero (show x = 0 by linarith)) (by decide)
  | true =>
    cases negative' with
    | false =>
      have h : -x = y := h
      exact absurd (hzero (show -x = 0 by linarith)) (by decide)
    | true => exact ⟨rfl, neg_injective h⟩

/-- Normal texts of one number are the same, but for the sign of zero. -/
theorem IsNormalDecimal.eq_of_value {s t : Text} {d e : DecimalText} (hs : IsNormalDecimal s)
    (ht : IsNormalDecimal t) (hsd : SpellsDecimal s d) (hte : SpellsDecimal t e)
    (hvalue : d.value = e.value) (hzero : d.value = 0 → d.negative = e.negative) : s = t := by
  cases hs with
  | @intro whole fraction negative hne hwhole hhead hfraction hlast =>
    cases ht with
    | @intro whole' fraction' negative' hne' hwhole' hhead' hfraction' hlast' =>
      have hd := readDecimal_of_spells (spells_plain negative fraction hne hwhole hfraction)
      have he := readDecimal_of_spells (spells_plain negative' fraction' hne' hwhole' hfraction')
      rw [readDecimal_of_spells hsd, Option.some.injEq] at hd
      rw [readDecimal_of_spells hte, Option.some.injEq] at he
      subst hd he
      have hpos := value_nonneg_part ⟨negative, whole, fraction, 0⟩
      have hpos' := value_nonneg_part ⟨negative', whole', fraction', 0⟩
      unfold DecimalText.value at hvalue hzero
      dsimp only at hvalue hzero hpos hpos'
      generalize hx : (digitsValue (whole ++ fraction) : Rat) * 10 ^ (0 - (fraction.length : Int)) =
        x at *
      generalize hy : (digitsValue (whole' ++ fraction') : Rat) *
        10 ^ (0 - (fraction'.length : Int)) = y at *
      obtain ⟨rfl, hxy⟩ := signed_eq hpos hpos' hvalue hzero
      have hnat : digitsValue (whole ++ fraction) * 10 ^ fraction'.length =
          digitsValue (whole' ++ fraction') * 10 ^ fraction.length := by
        rw [← hx, ← hy, zero_sub, zero_sub, zpow_neg, zpow_neg, zpow_natCast, zpow_natCast,
          mul_inv_eq_iff_eq_mul₀ (by positivity), mul_right_comm,
          eq_mul_inv_iff_mul_eq₀ (by positivity)] at hxy
        exact_mod_cast hxy
      obtain ⟨rfl, rfl⟩ := eq_of_normal hne hwhole hhead hfraction hlast hne' hwhole' hhead'
        hfraction' hlast' hnat
      rfl

/-! ## The normal form of a numeric text -/

/-- The point where the exponent puts it, and no superfluous zeros. -/
def normalForm (d : DecimalText) : Text :=
  let placed := placePoint (d.whole ++ d.fraction) (d.whole.length + d.exponent)
  combineDecimalParts (if d.negative then ['-'] else []) placed.1 placed.2

theorem spells_normalForm {text : Text} {d : DecimalText} (h : WritesNumber text d) :
    IsNormalDecimal (normalForm d) ∧ ∃ plain, SpellsDecimal (normalForm d) plain ∧
      plain.negative = d.negative ∧ plain.value = d.value := by
  cases h with
  | @intro sign whole point fraction exponentText negative exponent hsign hwhole hfraction =>
    obtain ⟨hinteger, hplaced⟩ := all_isDigit_placePoint (whole.length + exponent)
      (all_isDigit_append hwhole hfraction)
    obtain ⟨plain, hspells, hnegative, hvalue⟩ :=
      spells_combineDecimalParts negative hinteger hplaced
    refine ⟨combineDecimalParts_normal negative hinteger hplaced, plain, hspells, hnegative, ?_⟩
    rw [hvalue, value_placePoint]
    refine value_congr (by rfl) ?_
    have hexponent : (whole.length + exponent : Int) - (whole ++ fraction).length =
        exponent - fraction.length := by
      rw [List.length_append]
      omega
    dsimp only
    rw [hexponent, List.nil_append]

/-- The sign is read off the first character. -/
theorem sign_of_writes {sign whole point fraction exponentText : Text} {negative : Bool}
    (hsign : (sign = ['-'] ∧ negative = true) ∨ ((sign = [] ∨ sign = ['+']) ∧ negative = false))
    (hwhole : whole.all isDigit) (hne : ¬ (whole = [] ∧ fraction = []))
    (hpoint : point = '.' :: fraction ∨ (point = [] ∧ fraction = [])) :
    let text := sign ++ (whole ++ (point ++ exponentText))
    startsWith text ['-'] = negative ∧
      (if negative || startsWith text ['+'] then text.drop 1 else text) =
        whole ++ (point ++ exponentText) := by
  have hfirst : ∀ c : Char, isDigit c = false → c ≠ '.' →
      startsWith (whole ++ (point ++ exponentText)) [c] = false := by
    intro c hc hdot
    cases whole with
    | cons d whole =>
      exact startsWith_digits _ (List.cons_ne_nil _ _) hwhole c hc
    | nil =>
      rcases hpoint with rfl | ⟨_, rfl⟩
      · simp [startsWith, List.isPrefixOf, hdot]
      · exact absurd ⟨rfl, rfl⟩ hne
  rcases hsign with ⟨rfl, rfl⟩ | ⟨rfl | rfl, rfl⟩
  · exact ⟨rfl, rfl⟩
  · simp only [List.nil_append, hfirst '-' (by decide) (by decide),
      hfirst '+' (by decide) (by decide), Bool.or_self]
    exact ⟨trivial, rfl⟩
  · exact ⟨rfl, rfl⟩

theorem placePoint_length (whole fraction : Text) :
    placePoint (whole ++ fraction) (whole.length + 0) =
      (if whole = [] then ['0'] else whole, fraction) := by
  unfold placePoint
  rw [Int.add_zero]
  cases whole with
  | nil => rfl
  | cons c whole =>
    rw [if_neg (by simp), if_neg (List.cons_ne_nil _ _), Int.toNat_natCast]
    split
    · next hlong =>
      have hnil : fraction = [] := by
        rw [List.length_append] at hlong
        exact List.length_eq_zero_iff.mp (by omega)
      subst hnil
      simp
    · rw [List.take_left, List.drop_left]

theorem normalizeDecimalString_of_writes {maxExponentAbs : Nat} {input : Text} {d : DecimalText}
    (h : WritesNumber (trimText input) d) (hlimit : d.exponent.natAbs ≤ maxExponentAbs) :
    normalizeDecimalString maxExponentAbs input = some (normalForm d) := by
  unfold normalizeDecimalString
  generalize trimText input = text at h
  cases h with
  | @intro sign whole point fraction exponentText negative exponent hsign hwhole hfraction hne
      hpoint hexponent =>
    obtain ⟨hnegative, hunsigned⟩ :=
      @sign_of_writes _ _ _ _ exponentText _ hsign hwhole hne hpoint
    have hsplit := splitDecimal_of_writes hwhole hfraction hne hpoint hexponent
    simp only [hnegative, hunsigned, hsplit]
    by_cases hnil : exponentText = []
    · subst hnil
      cases hexponent
      simp only [if_true, normalForm, placePoint_length]
    · have hwithin : ¬ (0 < maxExponentAbs ∧ maxExponentAbs < exponent.natAbs) := by
        rintro ⟨_, hlt⟩
        exact absurd hlimit (Nat.not_le.mpr hlt)
      simp only [if_neg hnil, if_neg hwithin, normalForm]

theorem signed_text (text : Text) : ∃ sign unsigned negative, text = sign ++ unsigned ∧
    ((sign = ['-'] ∧ negative = true) ∨ ((sign = [] ∨ sign = ['+']) ∧ negative = false)) ∧
    (if startsWith text ['-'] || startsWith text ['+'] then text.drop 1 else text) = unsigned := by
  cases text with
  | nil => exact ⟨[], [], false, rfl, .inr ⟨.inl rfl, rfl⟩, rfl⟩
  | cons c rest =>
    by_cases hminus : c = '-'
    · subst hminus
      exact ⟨['-'], rest, true, rfl, .inl ⟨rfl, rfl⟩, rfl⟩
    · by_cases hplus : c = '+'
      · subst hplus
        exact ⟨['+'], rest, false, rfl, .inr ⟨.inr rfl, rfl⟩, rfl⟩
      · refine ⟨[], c :: rest, false, rfl, .inr ⟨.inl rfl, rfl⟩, ?_⟩
        have hfirst : ∀ sign : Char, c ≠ sign → startsWith (c :: rest) [sign] = false := by
          intro sign hne
          simp [startsWith, List.isPrefixOf, hne.symm]
        rw [hfirst '-' hminus, hfirst '+' hplus]
        rfl

/-- Nothing but numbers is accepted, with an exponent within the limit. -/
theorem writes_of_normalizeDecimalString {maxExponentAbs : Nat} {input normalized : Text}
    (h : normalizeDecimalString maxExponentAbs input = some normalized) :
    ∃ d, WritesNumber (trimText input) d ∧
      (0 < maxExponentAbs → d.exponent.natAbs ≤ maxExponentAbs) := by
  obtain ⟨sign, unsigned, negative, htext, hsign, hunsigned⟩ := signed_text (trimText input)
  unfold normalizeDecimalString at h
  simp only [hunsigned] at h
  rw [htext]
  split at h
  · cases h
  · next whole fraction hsplit =>
    obtain ⟨hwhole, hfraction⟩ := all_isDigit_of_splitDecimal hsplit
    obtain ⟨point, exponentText, exponent, rfl, hne, hpoint, hexponent, hfound⟩ :=
      parts_of_splitDecimal hsplit
    by_cases hnil : exponentText = []
    · subst hnil
      refine ⟨_, WritesNumber.intro hsign hwhole hfraction hne hpoint hexponent, fun _ => ?_⟩
      cases hexponent
      exact Nat.zero_le _
    · rw [if_neg hnil] at hfound
      cases hfound
  · next whole fraction exponent hsplit =>
    obtain ⟨hwhole, hfraction⟩ := all_isDigit_of_splitDecimal hsplit
    obtain ⟨point, exponentText, exponent', rfl, hne, hpoint, hexponent, hfound⟩ :=
      parts_of_splitDecimal hsplit
    split at h
    · cases h
    · next hwithin =>
      refine ⟨_, WritesNumber.intro hsign hwhole hfraction hne hpoint hexponent, fun hpos => ?_⟩
      split at hfound
      · cases hfound
      · cases hfound
        exact Nat.not_lt.mp fun hlt => hwithin ⟨hpos, hlt⟩

/-- A numeric text with an exponent within the limit has one normal form: a plain text of the same
number which is its own normal form. Two such texts have the same one just when they denote the same
number and do not differ in the sign of zero. The text of a number keeps denoting it when it is
written without an exponent. -/
theorem normalizeDecimalString_canonical (maxExponentAbs : Nat) :
    (∀ input d, WritesNumber (trimText input) d → d.exponent.natAbs ≤ maxExponentAbs →
      ∃ normalized plain, normalizeDecimalString maxExponentAbs input = some normalized ∧
        IsNormalDecimal normalized ∧ SpellsDecimal normalized plain ∧ plain.value = d.value ∧
        normalizeDecimalString maxExponentAbs normalized = some normalized) ∧
    (∀ input normalized, normalizeDecimalString maxExponentAbs input = some normalized →
      ∃ d, WritesNumber (trimText input) d ∧
        (0 < maxExponentAbs → d.exponent.natAbs ≤ maxExponentAbs)) ∧
    (∀ s t d e, WritesNumber (trimText s) d → WritesNumber (trimText t) e →
      d.exponent.natAbs ≤ maxExponentAbs → e.exponent.natAbs ≤ maxExponentAbs →
      (normalizeDecimalString maxExponentAbs s = normalizeDecimalString maxExponentAbs t ↔
        d.value = e.value ∧ (d.value = 0 → d.negative = e.negative))) ∧
    ∀ text d, SpellsDecimal text d →
      ∃ plain, SpellsDecimal (toPlainDecimalString text) plain ∧ plain.value = d.value := by
  refine ⟨?_, fun _ _ => writes_of_normalizeDecimalString, ?_, fun _ _ =>
    spells_toPlainDecimalString⟩
  · intro input d h hlimit
    obtain ⟨hnormal, plain, hspells, _, hvalue⟩ := spells_normalForm h
    exact ⟨_, plain, normalizeDecimalString_of_writes h hlimit, hnormal, hspells, hvalue,
      normalizeDecimalString_eq_self_iff.mpr hnormal⟩
  · intro s t d e hs ht hslimit htlimit
    obtain ⟨hnormal, plain, hspells, hnegative, hvalue⟩ := spells_normalForm hs
    obtain ⟨hnormal', plain', hspells', hnegative', hvalue'⟩ := spells_normalForm ht
    rw [normalizeDecimalString_of_writes hs hslimit, normalizeDecimalString_of_writes ht htlimit,
      Option.some.injEq]
    constructor
    · intro heq
      have hplain : plain = plain' := by
        have hread := readDecimal_of_spells hspells
        rw [heq, readDecimal_of_spells hspells', Option.some.injEq] at hread
        exact hread.symm
      rw [← hvalue, ← hvalue', ← hnegative, ← hnegative', hplain]
      exact ⟨rfl, fun _ => rfl⟩
    · rintro ⟨heq, hzero⟩
      refine hnormal.eq_of_value hnormal' hspells hspells' ?_ ?_
      · rw [hvalue, hvalue', heq]
      · rw [hvalue, hnegative, hnegative']
        exact hzero

theorem normalizeDecimalString_canonical_scientific :
    ∃ normalized plain, normalizeDecimalString 1000 ['-', '.', '5', '0', 'E', '2'] =
        some normalized ∧
      IsNormalDecimal normalized ∧ SpellsDecimal normalized plain ∧
      plain.value = DecimalText.value ⟨true, [], ['5', '0'], 2⟩ ∧
      normalizeDecimalString 1000 normalized = some normalized := by
  refine (normalizeDecimalString_canonical 1000).1 _ _ ?_ (by decide)
  exact @WritesNumber.intro ['-'] [] ['.', '5', '0'] ['5', '0'] ['E', '2'] true 2
    (.inl ⟨rfl, rfl⟩) rfl rfl (by simp) (.inl rfl)
    (SpellsExponent.plain (.inr rfl) (List.cons_ne_nil _ _) rfl)

/-- Zero has two normal forms. -/
theorem normalizeDecimalString_negative_zero :
    ¬ ∀ (maxExponentAbs : Nat) (s t : Text) (d e : DecimalText),
      WritesNumber (trimText s) d → WritesNumber (trimText t) e →
      d.exponent.natAbs ≤ maxExponentAbs → e.exponent.natAbs ≤ maxExponentAbs →
      (normalizeDecimalString maxExponentAbs s = normalizeDecimalString maxExponentAbs t ↔
        d.value = e.value) := by
  intro h
  have hzero := h 1000 ['0'] ['-', '0'] ⟨false, ['0'], [], 0⟩ ⟨true, ['0'], [], 0⟩
    (@WritesNumber.intro [] ['0'] [] [] [] false 0 (.inr ⟨.inl rfl, rfl⟩) rfl rfl (by simp)
      (.inr ⟨rfl, rfl⟩) SpellsExponent.none)
    (@WritesNumber.intro ['-'] ['0'] [] [] [] true 0 (.inl ⟨rfl, rfl⟩) rfl rfl (by simp)
      (.inr ⟨rfl, rfl⟩) SpellsExponent.none)
    (by decide) (by decide)
  have hvalue : DecimalText.value ⟨false, ['0'], [], 0⟩ =
      DecimalText.value ⟨true, ['0'], [], 0⟩ := by
    simp [DecimalText.value, digitsValue]
  exact absurd (hzero.mpr hvalue) (by decide)

end LoopbackOData
