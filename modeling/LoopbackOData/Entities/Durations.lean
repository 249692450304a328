import LoopbackOData.Entities.CanonicalDecimals

/-!
# Durations

What the texts of durations denote, and which durations are normalized to such texts.
-/

namespace LoopbackOData

set_option autoImplicit false

/-! ## Literals -/

/-- A number with its unit, which may be left out. -/
inductive SpellsUnit (unit : Char) : Text → Nat → Prop where
  | omitted : SpellsUnit unit [] 0
  | written {digits : Text} : digits ≠ [] → digits.all isDigit →
    SpellsUnit unit (digits ++ [unit]) (digitsValue digits)

/-- The seconds of a duration, with a fraction. -/
inductive SpellsSeconds : Text → Rat → Prop where
  | omitted : SpellsSeconds [] 0
  | written {digits fraction : Text} : digits ≠ [] → digits.all isDigit → fraction.all isDigit →
    SpellsSeconds (digits ++ ((if fraction = [] then [] else '.' :: fraction) ++ ['S']))
      (DecimalText.value ⟨false, digits, fraction, 0⟩)

/-- What follows the days: a `T` is followed by some component. -/
inductive SpellsTime : Text → Rat → Prop where
  | omitted : SpellsTime [] 0
  | written {hourText minuteText secondText : Text} {hours minutes : Nat} {seconds : Rat} :
    SpellsUnit 'H' hourText hours → SpellsUnit 'M' minuteText minutes →
    SpellsSeconds secondText seconds → hourText ++ (minuteText ++ secondText) ≠ [] →
    SpellsTime ('T' :: (hourText ++ (minuteText ++ secondText)))
      (3600 * hours + 60 * minutes + seconds)

/-- A literal of `Edm.Duration` and the seconds it denotes. -/
inductive DurationLiteral : Text → Rat → Prop where
  | intro {dayText timeText : Text} {days : Nat} {seconds : Rat} (negative : Bool) :
    SpellsUnit 'D' dayText days → SpellsTime timeText seconds → dayText ++ timeText ≠ [] →
    DurationLiteral ((if negative then ['-'] else []) ++ 'P' :: (dayText ++ timeText))
      (if negative then -(86400 * days + seconds) else 86400 * days + seconds)

/-- Hours, minutes and seconds with colons, and the seconds they denote. -/
inductive SpellsClock : Text → Rat → Prop where
  | intro {hours minutes seconds fraction : Text} (negative : Bool) :
    hours.length = 1 ∨ hours.length = 2 → hours.all isDigit →
    minutes.length = 2 → minutes.all isDigit → digitsValue minutes < 60 →
    seconds.length = 2 → seconds.all isDigit → digitsValue seconds < 60 →
    fraction.all isDigit →
    SpellsClock ((if negative then ['-'] else []) ++ (hours ++ ':' :: (minutes ++ ':' :: (seconds ++
        (if fraction = [] then [] else '.' :: fraction)))))
      (if negative then
        -(3600 * digitsValue hours + 60 * digitsValue minutes +
          DecimalText.value ⟨false, seconds, fraction, 0⟩)
      else 3600 * digitsValue hours + 60 * digitsValue minutes +
        DecimalText.value ⟨false, seconds, fraction, 0⟩)

/-! ## Texts of numbers -/

theorem toList_toString (n : Nat) : (toString n).toList = Json.digits n := by
  have h : (toString n).toList = Nat.toDigits 10 n := by
    rw [Nat.toString_eq_ofList_toDigits, String.toList_ofList]
  rw [h]
  induction n using Json.digits.induct with
  | case1 n hn => rw [Json.digits, if_pos hn, Nat.toDigits_of_lt_base hn]
  | case2 n hn ih =>
    rw [Json.digits, if_neg hn, Nat.toDigits_eq_if (by decide), if_neg hn]
    rw [ih]
    rw [Nat.toString_eq_ofList_toDigits, String.toList_ofList]

theorem padNumber_natCast (n width : Nat) : padNumber n width =
    List.replicate (width - (Json.digits n).length) '0' ++ Json.digits n := by
  unfold padNumber
  rw [if_neg (by omega), Int.natAbs_natCast, toList_toString]
  rfl

theorem all_isDigit_padNumber (n width : Nat) : (padNumber n width).all isDigit = true := by
  rw [padNumber_natCast]
  exact all_isDigit_append (all_isDigit_replicate _) (Json.all_isDigit_digits n)

theorem digitsValue_padNumber (n width : Nat) : digitsValue (padNumber n width) = n := by
  rw [padNumber_natCast, digitsValue_zeros_append, digitsValue_digits]

theorem length_digits_le {n width : Nat} (hpos : 0 < width) (h : n < 10 ^ width) :
    (Json.digits n).length ≤ width := by
  rw [← toList_toString, Nat.toString_eq_ofList_toDigits, String.toList_ofList]
  exact (Nat.length_toDigits_le_iff (by decide) hpos).mpr h

theorem length_padNumber {n width : Nat} (hpos : 0 < width) (h : n < 10 ^ width) :
    (padNumber n width).length = width := by
  have hle := length_digits_le hpos h
  rw [padNumber_natCast, List.length_append, List.length_replicate]
  omega

/-- The digits of milliseconds after the point. -/
theorem fraction_of_millis {millis : Nat} (hne : millis ≠ 0) (hlt : millis < 1000) :
    let fraction := dropTrailingZeros (padNumber millis 3)
    fraction ≠ [] ∧ fraction.all isDigit = true ∧ fraction.length ≤ 3 ∧
      (digitsValue fraction : Rat) * 10 ^ (0 - (fraction.length : Int)) = millis / 1000 := by
  obtain ⟨m, hm⟩ := dropTrailingZeros_append (padNumber millis 3)
  have hlength : (padNumber millis 3).length = 3 := length_padNumber (by decide) (by omega)
  have hvalue := digitsValue_padNumber millis 3
  have hall := all_isDigit_padNumber millis 3
  rw [hm] at hlength hvalue hall
  rw [digitsValue_append_zeros] at hvalue
  rw [List.length_append, List.length_replicate] at hlength
  dsimp only
  generalize dropTrailingZeros (padNumber millis 3) = fraction at hlength hvalue hall
  rw [List.all_append, Bool.and_eq_true] at hall
  refine ⟨?_, hall.1, by omega, ?_⟩
  · rintro rfl
    rw [show digitsValue [] = 0 from rfl, Nat.zero_mul] at hvalue
    exact hne hvalue.symm
  · have hexponent : (0 : Int) - fraction.length = (m : Int) - 3 := by omega
    rw [hexponent, zpow_sub₀ (by norm_num), zpow_natCast, ← hvalue]
    push_cast
    ring

theorem spellsUnit_of_number (unit : Char) (n : Nat) :
    SpellsUnit unit (if n ≠ 0 then (toString n).toList ++ [unit] else []) n := by
  by_cases hn : n = 0
  · subst hn
    exact SpellsUnit.omitted
  · rw [if_pos hn, toList_toString]
    have h : SpellsUnit unit (Json.digits n ++ [unit]) (digitsValue (Json.digits n)) :=
      .written (Json.digits_ne_nil n) (Json.all_isDigit_digits n)
    rwa [digitsValue_digits] at h

theorem value_seconds {digits fraction : Text} {seconds : Nat} {rest : Rat}
    (hdigits : digitsValue digits = seconds)
    (hfraction : (digitsValue fraction : Rat) * 10 ^ (0 - (fraction.length : Int)) = rest) :
    DecimalText.value ⟨false, digits, fraction, 0⟩ = seconds + rest := by
  unfold DecimalText.value
  dsimp only
  rw [← hfraction, ← hdigits, digitsValue_append, zero_sub, zpow_neg, zpow_natCast]
  push_cast
  field_simp

/-- The seconds of a duration as they are written, with or without a fraction. -/
theorem spellsSeconds_of_number {seconds : Nat} {fraction : Text} {rest : Rat}
    (hall : fraction.all isDigit)
    (hfraction : (digitsValue fraction : Rat) * 10 ^ (0 - (fraction.length : Int)) = rest) :
    SpellsSeconds (if seconds ≠ 0 ∨ fraction ≠ [] then (toString seconds).toList ++
      ((if fraction = [] then [] else '.' :: fraction) ++ ['S']) else []) (seconds + rest) := by
  by_cases h : seconds ≠ 0 ∨ fraction ≠ []
  · rw [if_pos h, toList_toString, ← value_seconds (digitsValue_digits seconds) hfraction]
    exact SpellsSeconds.written (Json.digits_ne_nil _) (Json.all_isDigit_digits _) hall
  · rw [if_neg h]
    rw [not_or, not_not, not_not] at h
    obtain ⟨rfl, rfl⟩ := h
    rw [← hfraction]
    simpa [digitsValue] using SpellsSeconds.omitted

theorem truncate_intCast (n : Int) : truncate n = n := by
  unfold truncate
  split
  · exact Rat.ceil_intCast n
  · exact Rat.floor_intCast n

theorem SpellsUnit.eq_zero {unit : Char} {text : Text} {n : Nat} (h : SpellsUnit unit text n)
    (hnil : text = []) : n = 0 := by
  cases h with
  | omitted => rfl
  | written hne => simp at hnil

theorem SpellsSeconds.eq_zero {text : Text} {seconds : Rat} (h : SpellsSeconds text seconds)
    (hnil : text = []) : seconds = 0 := by
  cases h with
  | omitted => rfl
  | written hne => simp at hnil

/-- The components of a duration, not all left out. -/
theorem durationLiteral_of_parts {dayText hourText minuteText secondText : Text}
    {days hours minutes : Nat} {seconds : Rat} (negative : Bool)
    (hdays : SpellsUnit 'D' dayText days) (hhours : SpellsUnit 'H' hourText hours)
    (hminutes : SpellsUnit 'M' minuteText minutes) (hseconds : SpellsSeconds secondText seconds)
    (hne : ¬ (hourText ++ (minuteText ++ secondText) = [] ∧ dayText = [])) :
    DurationLiteral ((if negative then ['-'] else []) ++ 'P' :: (dayText ++
        (if hourText ++ (minuteText ++ secondText) ≠ [] then
          'T' :: (hourText ++ (minuteText ++ secondText)) else [])))
      (if negative then -(86400 * days + (3600 * hours + 60 * minutes + seconds))
        else 86400 * days + (3600 * hours + 60 * minutes + seconds)) := by
  by_cases htime : hourText ++ (minuteText ++ secondText) = []
  · obtain ⟨hhour, hrest⟩ := List.append_eq_nil_iff.mp htime
    obtain ⟨hminute, hsecond⟩ := List.append_eq_nil_iff.mp hrest
    have hday : dayText ≠ [] := fun h => hne ⟨htime, h⟩
    rw [if_neg (not_not_intro htime), hhours.eq_zero hhour, hminutes.eq_zero hminute,
      hseconds.eq_zero hsecond]
    simpa using DurationLiteral.intro negative hdays SpellsTime.omitted (by simpa using hday)
  · rw [if_pos htime]
    exact DurationLiteral.intro negative hdays
      (SpellsTime.written hhours hminutes hseconds htime) (by simp)

/-- A number of milliseconds is written as a literal of the same duration. -/
theorem durationLiteral_of_millis (n : Int) :
    DurationLiteral (formatDurationFromMilliseconds n) (n / 1000) := by
  obtain ⟨total, htotal⟩ : ∃ total, total = n.natAbs := ⟨_, rfl⟩
  obtain ⟨fraction, hfraction⟩ : ∃ fraction, fraction = if total % 1000 ≠ 0 then
      dropTrailingZeros (padNumber (total % 1000 : Nat) 3) else [] := ⟨_, rfl⟩
  have hdigits : fraction.all isDigit = true ∧
      (digitsValue fraction : Rat) * 10 ^ (0 - (fraction.length : Int)) =
        (total % 1000 : Nat) / 1000 := by
    by_cases hmillis : total % 1000 = 0
    · rw [hfraction, if_neg (not_not_intro hmillis), hmillis]
      exact ⟨rfl, by simp [digitsValue]⟩
    · obtain ⟨_, hall, _, hvalue⟩ := fraction_of_millis hmillis (Nat.mod_lt _ (by decide))
      rw [hfraction, if_pos hmillis]
      exact ⟨hall, hvalue⟩
  have hdays := spellsUnit_of_number 'D' (total / 86400000)
  have hhours := spellsUnit_of_number 'H' (total / 3600000 % 24)
  have hminutes := spellsUnit_of_number 'M' (total / 60000 % 60)
  have hseconds := @spellsSeconds_of_number (total / 1000 % 60) _ _ hdigits.1 hdigits.2
  have hvalue : (86400 * (total / 86400000 : Nat) + (3600 * (total / 3600000 % 24 : Nat) +
      60 * (total / 60000 % 60 : Nat) +
        ((total / 1000 % 60 : Nat) + (total % 1000 : Nat) / 1000)) : Rat) = total / 1000 := by
    have hnat : 86400000 * (total / 86400000) + (3600000 * (total / 3600000 % 24) +
        60000 * (total / 60000 % 60) + (1000 * (total / 1000 % 60) + total % 1000)) = total := by
      omega
    have hrat := congrArg (Nat.cast (R := Rat)) hnat
    push_cast at hrat ⊢
    linarith
  have hpoint : (if fraction ≠ [] then '.' :: fraction else []) =
      if fraction = [] then [] else '.' :: fraction := ite_not _ _ _
  have hparts := fun hne => durationLiteral_of_parts (decide (n < 0)) hdays hhours hminutes hseconds
    hne
  have hsign : (if decide (n < 0) = true then ['-'] else []) =
      if (n : Rat) < 0 then ['-'] else [] := by simp
  have hdenotes : (if decide (n < 0) = true then -((total : Rat) / 1000) else total / 1000) =
      n / 1000 := by
    have hcast : (total : Rat) = |(n : Rat)| := by
      rw [htotal, Nat.cast_natAbs, Int.cast_abs]
    by_cases hn : n < 0
    · have hn' : (n : Rat) < 0 := by exact_mod_cast hn
      rw [if_pos (by simpa using hn), hcast, abs_of_neg hn']
      ring
    · have hn' : 0 ≤ (n : Rat) := by exact_mod_cast Int.not_lt.mp hn
      rw [if_neg (by simpa using hn), hcast, abs_of_nonneg hn']
  rw [hvalue, hsign, hdenotes] at hparts
  unfold formatDurationFromMilliseconds
  simp only [truncate_intCast, ← htotal, ← hfraction, hpoint, List.append_assoc,
    List.cons_append]
  generalize (if total / 3600000 % 24 ≠ 0 then (toString (total / 3600000 % 24)).toList ++ ['H']
    else []) = hourText at hhours hparts ⊢
  generalize (if total / 60000 % 60 ≠ 0 then (toString (total / 60000 % 60)).toList ++ ['M']
    else []) = minuteText at hminutes hparts ⊢
  generalize (if total / 1000 % 60 ≠ 0 ∨ fraction ≠ [] then (toString (total / 1000 % 60)).toList ++
    ((if fraction = [] then [] else '.' :: fraction) ++ ['S']) else []) = secondText
    at hseconds hparts ⊢
  by_cases hzero : hourText ++ (minuteText ++ secondText) = [] ∧ total / 86400000 = 0
  · obtain ⟨hhour, hrest⟩ := List.append_eq_nil_iff.mp hzero.1
    obtain ⟨hminute, hsecond⟩ := List.append_eq_nil_iff.mp hrest
    rw [hzero.2, hhours.eq_zero hhour, hminutes.eq_zero hminute, hseconds.eq_zero hsecond] at hvalue
    have hn : n = 0 := by
      have : (total : Rat) = 0 := by linarith
      have : total = 0 := by exact_mod_cast this
      omega
    have hliteral := DurationLiteral.intro false SpellsUnit.omitted (SpellsTime.written
      SpellsUnit.omitted SpellsUnit.omitted (@SpellsSeconds.written ['0'] []
        (List.cons_ne_nil _ _) rfl rfl) (by simp)) (by simp)
    rw [if_pos hzero, hn]
    simpa [DecimalText.value, digitsValue] using hliteral
  · rw [if_neg hzero]
    refine hparts ?_
    rintro ⟨htime, hday⟩
    refine hzero ⟨htime, ?_⟩
    rw [hday] at hdays
    exact hdays.eq_zero rfl

/-! ## Reading texts -/

theorem hasShape_two_iff {s : Text} :
    hasShape ['d', 'd'] s = true ↔ s.length = 2 ∧ s.all isDigit = true := by
  cases s with
  | nil => simp [hasShape]
  | cons a s =>
    cases s with
    | nil => simp [hasShape]
    | cons b s =>
      cases s with
      | nil => simp [hasShape]
      | cons c s => simp [hasShape]

theorem splitFraction_parts (s : Text) : ∃ digits : Text, digits.all isDigit = true ∧
    (splitFraction s).1 = (if digits = [] then [] else '.' :: digits) ∧
    s = (splitFraction s).1 ++ (splitFraction s).2 := by
  unfold splitFraction
  split
  · next rest =>
    dsimp only
    split
    · exact ⟨[], rfl, rfl, rfl⟩
    · next hne =>
      refine ⟨rest.takeWhile isDigit, all_isDigit_takeWhile _, by rw [if_neg hne], ?_⟩
      rw [List.cons_append, List.takeWhile_append_dropWhile]
  · exact ⟨[], rfl, rfl, rfl⟩

theorem splitHours_parts {t rest : Text} {h m : Nat} (hsplit : splitHours t = some (h, m, rest)) :
    ∃ hours minutes : Text, t = hours ++ ':' :: (minutes ++ rest) ∧
      (hours.length = 1 ∨ hours.length = 2) ∧ hours.all isDigit = true ∧
      minutes.length = 2 ∧ minutes.all isDigit = true ∧
      h = digitsValue hours ∧ m = digitsValue minutes := by
  have hjoin := List.takeWhile_append_dropWhile (p := isDigit) (l := t)
  unfold splitHours at hsplit
  dsimp only at hsplit
  split at hsplit
  · next tail hdrop =>
    split at hsplit
    · next hshape =>
      cases hsplit
      obtain ⟨hlength, hall⟩ := hasShape_two_iff.mp hshape.2
      refine ⟨t.takeWhile isDigit, tail.take 2, ?_, hshape.1, all_isDigit_takeWhile _, hlength,
        hall, rfl, rfl⟩
      rw [List.take_append_drop, ← hdrop, hjoin]
    · cases hsplit
  · cases hsplit

theorem splitSeconds_parts {t fraction : Text} {n : Nat}
    (hsplit : splitSeconds t = some (n, fraction)) :
    ∃ seconds digits : Text, t = ':' :: (seconds ++ fraction) ∧
      seconds.length = 2 ∧ seconds.all isDigit = true ∧ n = digitsValue seconds ∧
      digits.all isDigit = true ∧ fraction = if digits = [] then [] else '.' :: digits := by
  unfold splitSeconds at hsplit
  split at hsplit
  · next rest =>
    obtain ⟨digits, hdigits, hfraction, hjoin⟩ := splitFraction_parts (rest.drop 2)
    dsimp only at hsplit
    split at hsplit
    · next hshape =>
      cases hsplit
      obtain ⟨hlength, hall⟩ := hasShape_two_iff.mp hshape.1
      rw [hshape.2, List.append_nil] at hjoin
      refine ⟨rest.take 2, digits, ?_, hlength, hall, rfl, hdigits, hfraction⟩
      rw [← hjoin, List.take_append_drop]
    · cases hsplit
  · cases hsplit

theorem part_nil (n : Nat) (unit : Char) : normalizeDurationValue.part n [] unit =
    if n ≠ 0 then (toString n).toList ++ [unit] else [] := by
  simp [normalizeDurationValue.part]

/-- A clock that does not stand at zero is written as a literal of the same duration. -/
theorem durationLiteral_of_clock {hours minutes : Nat} {seconds digits fraction : Text}
    (negative : Bool) (hdigits : digits.all isDigit)
    (hfraction : fraction = if digits = [] then [] else '.' :: digits)
    (hne : ¬ (hours = 0 ∧ minutes = 0 ∧ digitsValue seconds = 0 ∧ digits = [])) :
    DurationLiteral ((if negative then ['-'] else []) ++ ['P', 'T'] ++
        normalizeDurationValue.part hours [] 'H' ++ normalizeDurationValue.part minutes [] 'M' ++
        normalizeDurationValue.part (digitsValue seconds) fraction 'S')
      (if negative then
        -(3600 * hours + 60 * minutes + DecimalText.value ⟨false, seconds, digits, 0⟩)
      else 3600 * hours + 60 * minutes + DecimalText.value ⟨false, seconds, digits, 0⟩) := by
  have hseconds := @spellsSeconds_of_number (digitsValue seconds) _ _ hdigits rfl
  have hvalue := @value_seconds seconds digits _ _ rfl rfl
  rw [← hvalue] at hseconds
  have hpart : normalizeDurationValue.part (digitsValue seconds) fraction 'S' =
      if digitsValue seconds ≠ 0 ∨ digits ≠ [] then (toString (digitsValue seconds)).toList ++
        ((if digits = [] then [] else '.' :: digits) ++ ['S']) else [] := by
    unfold normalizeDurationValue.part
    rw [hfraction]
    by_cases hnil : digits = []
    · simp [hnil]
    · simp [hnil]
  have hhours := spellsUnit_of_number 'H' hours
  have hminutes := spellsUnit_of_number 'M' minutes
  rw [← hpart] at hseconds
  rw [← part_nil] at hhours hminutes
  have htime : normalizeDurationValue.part hours [] 'H' ++
      (normalizeDurationValue.part minutes [] 'M' ++
        normalizeDurationValue.part (digitsValue seconds) fraction 'S') ≠ [] := by
    intro h
    obtain ⟨hhour, hrest⟩ := List.append_eq_nil_iff.mp h
    obtain ⟨hminute, hsecond⟩ := List.append_eq_nil_iff.mp hrest
    refine hne ⟨?_, ?_, ?_⟩
    · rw [hhour] at hhours
      exact hhours.eq_zero rfl
    · rw [hminute] at hminutes
      exact hminutes.eq_zero rfl
    · rw [hpart] at hsecond
      by_contra h
      rw [if_pos (by tauto)] at hsecond
      simp at hsecond
  have h := durationLiteral_of_parts negative SpellsUnit.omitted hhours hminutes hseconds
    fun h => htime h.1
  rw [if_pos htime] at h
  simpa using h

theorem toUpper_of_isDigit {c : Char} (h : isDigit c) : c.toUpper = c := by
  have hdigits : ∀ c ∈ "0123456789".toList, c.toUpper = c := by decide
  exact hdigits c (mem_digits h)

theorem asciiUpper_eq_self {s : Text} (h : ∀ c ∈ s, c.toUpper = c) : asciiUpper s = s := by
  rw [asciiUpper, List.map_congr_left h, List.map_id']

theorem asciiUpper_of_digits {s : Text} (h : s.all isDigit) : asciiUpper s = s :=
  asciiUpper_eq_self fun c hc => toUpper_of_isDigit (List.all_eq_true.mp h c hc)

theorem asciiUpper_append (s t : Text) : asciiUpper (s ++ t) = asciiUpper s ++ asciiUpper t :=
  List.map_append

/-- A component that is dropped is one in capitals. -/
theorem dropUnit_parts (unit : Char) (s : Text) : ∃ text n, s = text ++ dropUnit unit s ∧
    SpellsUnit unit (asciiUpper text) n := by
  have hjoin := List.takeWhile_append_dropWhile (p := isDigit) (l := s)
  unfold dropUnit
  split
  · next d digits c rest htake hdrop =>
    split
    · next hunit =>
      have hall := all_isDigit_takeWhile s
      rw [htake] at hall
      refine ⟨d :: digits ++ [c], digitsValue (d :: digits), ?_, ?_⟩
      · rw [← hjoin, htake, hdrop, List.append_assoc, List.singleton_append]
      · have hupper : asciiUpper (d :: digits ++ [c]) = d :: digits ++ [unit] := by
          rw [asciiUpper_append, asciiUpper_of_digits hall, ← hunit]
          rfl
        rw [hupper]
        exact SpellsUnit.written (List.cons_ne_nil _ _) hall
    · exact ⟨[], 0, rfl, SpellsUnit.omitted⟩
  · exact ⟨[], 0, rfl, SpellsUnit.omitted⟩

theorem dropSeconds_parts (s : Text) : ∃ text seconds, s = text ++ dropSeconds s ∧
    SpellsSeconds (asciiUpper text) seconds := by
  have hjoin := List.takeWhile_append_dropWhile (p := isDigit) (l := s)
  obtain ⟨fraction, hall, hfraction, hjoin'⟩ := splitFraction_parts (s.dropWhile isDigit)
  unfold dropSeconds
  split
  · next d digits c rest htake htail =>
    split
    · next hunit =>
      have hdigits := all_isDigit_takeWhile s
      rw [htake] at hdigits
      rw [htail, hfraction] at hjoin'
      refine ⟨d :: digits ++ ((if fraction = [] then [] else '.' :: fraction) ++ [c]),
        DecimalText.value ⟨false, d :: digits, fraction, 0⟩, ?_, ?_⟩
      · rw [← hjoin, htake, hjoin']
        simp only [List.append_assoc, List.singleton_append]
      · have hpoint : asciiUpper (if fraction = [] then [] else '.' :: fraction) =
            if fraction = [] then [] else '.' :: fraction := by
          split
          · rfl
          · rw [asciiUpper, List.map_cons, ← asciiUpper, asciiUpper_of_digits hall]
            rfl
        have hupper : asciiUpper [c] = ['S'] := by rw [← hunit]; rfl
        rw [asciiUpper_append, asciiUpper_append, asciiUpper_of_digits hdigits, hpoint, hupper]
        exact SpellsSeconds.written (List.cons_ne_nil _ _) hdigits hall
    · exact ⟨[], 0, rfl, SpellsSeconds.omitted⟩
  · exact ⟨[], 0, rfl, SpellsSeconds.omitted⟩

/-- Whether a `P` or a `T` in a duration has no component after it: both are followed by all the
components there are, so it is the last character. -/
def lacksComponent (t : Text) : Bool :=
  (asciiUpper t).getLast? = some 'P' || (asciiUpper t).getLast? = some 'T'

theorem minus_text (t : Text) : ∃ negative rest, t = (if negative then ['-'] else []) ++ rest ∧
    startsWith t ['-'] = negative ∧ (if startsWith t ['-'] then t.drop 1 else t) = rest := by
  cases t with
  | nil => exact ⟨false, [], rfl, rfl, rfl⟩
  | cons c rest =>
    by_cases hminus : c = '-'
    · subst hminus
      exact ⟨true, rest, rfl, rfl, rfl⟩
    · have hstarts : startsWith (c :: rest) ['-'] = false := by
        simp [startsWith, List.isPrefixOf, Ne.symm hminus]
      refine ⟨false, c :: rest, rfl, hstarts, ?_⟩
      rw [hstarts]
      rfl

/-- In capitals, a duration in which no component is lacking is a literal. -/
theorem durationLiteral_of_canonical {t : Text} (h : isCanonicalDuration t = true)
    (hlast : lacksComponent t = false) : ∃ seconds, DurationLiteral (asciiUpper t) seconds := by
  obtain ⟨negative, unsigned, htext, _, hunsigned⟩ := minus_text t
  unfold isCanonicalDuration at h
  simp only [hunsigned] at h
  have hsign : asciiUpper (if negative then ['-'] else []) = if negative then ['-'] else [] := by
    cases negative <;> rfl
  split at h
  · cases h
  · next p rest =>
    rw [Bool.and_eq_true, decide_eq_true_eq] at h
    obtain ⟨hp, h⟩ := h
    obtain ⟨dayText, days, hrest, hdays⟩ := dropUnit_parts 'D' rest
    have hupper : ∀ text : Text, asciiUpper (p :: text) = 'P' :: asciiUpper text := by
      intro text
      rw [← hp]
      rfl
    rw [lacksComponent, Bool.or_eq_false_iff, decide_eq_false_iff_not, decide_eq_false_iff_not,
      htext, asciiUpper_append, hsign, hupper] at hlast
    rw [htext, asciiUpper_append, hsign, hupper]
    split at h
    · next hnil =>
      rw [hnil, List.append_nil] at hrest
      have hne : asciiUpper dayText ++ [] ≠ [] := by
        intro hempty
        rw [List.append_nil, ← hrest] at hempty
        rw [hempty, List.getLast?_append] at hlast
        exact hlast.1 rfl
      have hliteral := DurationLiteral.intro negative hdays SpellsTime.omitted hne
      rw [List.append_nil, ← hrest] at hliteral
      exact ⟨_, hliteral⟩
    · next t' time htime =>
      rw [Bool.and_eq_true, decide_eq_true_eq, decide_eq_true_eq] at h
      obtain ⟨ht, htimeParts⟩ := h
      obtain ⟨hourText, hours, hhourText, hhours⟩ := dropUnit_parts 'H' time
      obtain ⟨minuteText, minutes, hminuteText, hminutes⟩ :=
        dropUnit_parts 'M' (dropUnit 'H' time)
      obtain ⟨secondText, seconds, hsecondText, hseconds⟩ :=
        dropSeconds_parts (dropUnit 'M' (dropUnit 'H' time))
      rw [htimeParts, List.append_nil] at hsecondText
      rw [hsecondText] at hminuteText
      rw [hminuteText] at hhourText
      have hupperTime : asciiUpper (t' :: time) = 'T' :: (asciiUpper hourText ++
          (asciiUpper minuteText ++ asciiUpper secondText)) := by
        rw [hhourText, ← asciiUpper_append, ← asciiUpper_append, ← ht]
        rfl
      have hjoin : asciiUpper rest = asciiUpper dayText ++ 'T' :: (asciiUpper hourText ++
          (asciiUpper minuteText ++ asciiUpper secondText)) := by
        rw [hrest, htime, asciiUpper_append, hupperTime]
      have hne : asciiUpper hourText ++ (asciiUpper minuteText ++ asciiUpper secondText) ≠ [] := by
        intro hempty
        rw [hjoin, hempty, List.getLast?_append, List.getLast?_cons, List.getLast?_append] at hlast
        exact hlast.2 (by simp)
      rw [hjoin]
      exact ⟨_, DurationLiteral.intro negative hdays
        (SpellsTime.written hhours hminutes hseconds hne) (by simp)⟩

/-! ## Literals are left as they are -/

/-- The characters of literals. -/
def isDurationChar (c : Char) : Bool := isDigit c || c ∈ ['-', 'P', 'T', 'D', 'H', 'M', 'S', '.']

theorem isDurationChar_of_digits {digits : Text} (h : digits.all isDigit) :
    ∀ c ∈ digits, isDurationChar c = true := by
  intro c hc
  rw [isDurationChar, List.all_eq_true.mp h c hc, Bool.true_or]

theorem SpellsUnit.chars {unit : Char} {text : Text} {n : Nat} (h : SpellsUnit unit text n)
    (hunit : isDurationChar unit = true) : ∀ c ∈ text, isDurationChar c = true := by
  cases h with
  | omitted => exact fun c hc => absurd hc List.not_mem_nil
  | written _ hall =>
    intro c hc
    rcases List.mem_append.mp hc with hc | hc
    · exact isDurationChar_of_digits hall c hc
    · rwa [List.mem_singleton.mp hc]

theorem SpellsSeconds.chars {text : Text} {seconds : Rat} (h : SpellsSeconds text seconds) :
    ∀ c ∈ text, isDurationChar c = true := by
  cases h with
  | omitted => exact fun c hc => absurd hc List.not_mem_nil
  | written _ hall hfraction =>
    intro c hc
    simp only [List.mem_append, List.mem_singleton] at hc
    rcases hc with hc | hc | rfl
    · exact isDurationChar_of_digits hall c hc
    · split at hc
      · cases hc
      · rcases List.mem_cons.mp hc with rfl | hc
        · decide
        · exact isDurationChar_of_digits hfraction c hc
    · decide

theorem SpellsTime.chars {text : Text} {seconds : Rat} (h : SpellsTime text seconds) :
    ∀ c ∈ text, isDurationChar c = true := by
  cases h with
  | omitted => exact fun c hc => absurd hc List.not_mem_nil
  | written hhours hminutes hseconds =>
    intro c hc
    simp only [List.mem_cons, List.mem_append] at hc
    rcases hc with rfl | hc | hc | hc
    · decide
    · exact hhours.chars (by decide) c hc
    · exact hminutes.chars (by decide) c hc
    · exact hseconds.chars c hc

theorem DurationLiteral.chars {text : Text} {seconds : Rat} (h : DurationLiteral text seconds) :
    ∀ c ∈ text, isDurationChar c = true := by
  cases h with
  | intro negative hdays htime =>
    intro c hc
    simp only [List.mem_append, List.mem_cons] at hc
    rcases hc with hc | rfl | hc | hc
    · cases negative with
      | true => rw [List.mem_singleton.mp hc]; decide
      | false => cases hc
    · decide
    · exact hdays.chars (by decide) c hc
    · exact htime.chars c hc

theorem isDurationChar_facts {c : Char} (h : isDurationChar c = true) :
    c.toUpper = c ∧ isSpace c = false ∧ c ≠ ':' := by
  have hall : ∀ c ∈ "0123456789-PTDHMS.".toList, c.toUpper = c ∧ isSpace c = false ∧ c ≠ ':' := by
    decide
  refine hall c ?_
  rw [isDurationChar, Bool.or_eq_true, decide_eq_true_eq] at h
  rcases h with h | h
  · have hsub : ∀ c ∈ "0123456789".toList, c ∈ "0123456789-PTDHMS.".toList := by decide
    exact hsub c (mem_digits h)
  · have hsub : ∀ c ∈ ['-', 'P', 'T', 'D', 'H', 'M', 'S', '.'],
        c ∈ "0123456789-PTDHMS.".toList := by decide
    exact hsub c h

theorem SpellsUnit.getLast {unit : Char} {text : Text} {n : Nat} (h : SpellsUnit unit text n)
    (hne : text ≠ []) : text.getLast? = some unit := by
  cases h with
  | omitted => exact absurd rfl hne
  | written => exact List.getLast?_concat

theorem SpellsSeconds.getLast {text : Text} {seconds : Rat} (h : SpellsSeconds text seconds)
    (hne : text ≠ []) : text.getLast? = some 'S' := by
  cases h with
  | omitted => exact absurd rfl hne
  | written =>
    rw [← List.append_assoc]
    exact List.getLast?_concat

/-- A literal ends in a unit. -/
theorem lacksComponent_literal {text : Text} {seconds : Rat} (h : DurationLiteral text seconds) :
    lacksComponent text = false := by
  have hupper := asciiUpper_eq_self fun c hc => (isDurationChar_facts (h.chars c hc)).1
  rw [lacksComponent, hupper]
  have hmem : ∃ unit ∈ ['D', 'H', 'M', 'S'], text.getLast? = some unit := by
    cases h with
    | @intro dayText timeText _ _ negative hdays htime hne =>
      cases htime with
      | omitted =>
        rw [List.append_nil] at hne
        refine ⟨'D', by decide, ?_⟩
        rw [List.append_nil, List.getLast?_append, List.getLast?_cons, hdays.getLast hne]
        rfl
      | @written hourText minuteText secondText _ _ _ hhours hminutes hseconds htimeNe =>
        have hlast : ∃ unit ∈ ['D', 'H', 'M', 'S'],
            (hourText ++ (minuteText ++ secondText)).getLast? = some unit := by
          by_cases hsecond : secondText = []
          · by_cases hminute : minuteText = []
            · rw [hsecond, hminute, List.append_nil, List.append_nil] at htimeNe ⊢
              exact ⟨'H', by decide, hhours.getLast htimeNe⟩
            · rw [hsecond, List.append_nil, List.getLast?_append, hminutes.getLast hminute]
              exact ⟨'M', by decide, rfl⟩
          · rw [List.getLast?_append, List.getLast?_append, hseconds.getLast hsecond]
            exact ⟨'S', by decide, rfl⟩
        obtain ⟨unit, hunit, hlast⟩ := hlast
        refine ⟨unit, hunit, ?_⟩
        rw [List.getLast?_append, List.getLast?_cons, List.getLast?_append, List.getLast?_cons,
          hlast]
        rfl
  obtain ⟨unit, hunit, hlast⟩ := hmem
  have hunits : ∀ unit ∈ ['D', 'H', 'M', 'S'],
      (decide (some unit = some 'P') || decide (some unit = some 'T')) = false := by decide
  rw [hlast]
  exact hunits unit hunit

/-- A literal is normalized already. -/
theorem normalizeDurationValue_literal {text : Text} {seconds : Rat}
    (h : DurationLiteral text seconds) :
    normalizeDurationValue (.atom (.str text)) = .atom (.str text) := by
  have hchars := h.chars
  have htrim := trimText_eq fun c hc => (isDurationChar_facts (hchars c hc)).2.1
  have hupper := asciiUpper_eq_self fun c hc => (isDurationChar_facts (hchars c hc)).1
  unfold normalizeDurationValue
  simp only [htrim, hupper]
  split
  · rfl
  · split
    · rfl
    · split
      · next hours minutes rest hsplit =>
        obtain ⟨_, _, hjoin, _⟩ := splitHours_parts hsplit
        have hcolon : ':' ∈ text := by
          have hmem : ':' ∈ (if startsWith text ['-'] then text.drop 1 else text) := by
            rw [hjoin]
            simp
          split at hmem
          · exact List.mem_of_mem_drop hmem
          · exact hmem
        exact absurd rfl (isDurationChar_facts (hchars _ hcolon)).2.2
      · rfl

/-! ## Normalized durations -/

/-- The seconds that a value of a duration stands for: a number of milliseconds, a literal in small
or capital letters, or a clock. -/
inductive DenotesDuration : JsValue → Rat → Prop where
  | num (n : Int) : DenotesDuration (.atom (.num n)) (n / 1000)
  | bigint (n : Int) : DenotesDuration (.atom (.bigint n)) (n / 1000)
  | literal {s : Text} {seconds : Rat} : DurationLiteral (asciiUpper (trimText s)) seconds →
    DenotesDuration (.atom (.str s)) seconds
  | clock {s : Text} {seconds : Rat} : SpellsClock (trimText s) seconds →
    DenotesDuration (.atom (.str s)) seconds

/-- The normal form of a value is the value itself or a literal of the same meaning, and it is its
own normal form. -/
def KeepsMeaning (normalize : JsValue → JsValue) (Literal : Text → Rat → Prop)
    (Denotes : JsValue → Rat → Prop) (value : JsValue) : Prop :=
  (normalize value = value ∨
    ∃ text seconds, normalize value = .atom (.str text) ∧ Literal text seconds ∧
      Denotes value seconds) ∧
  normalize (normalize value) = normalize value

theorem KeepsMeaning.of_unchanged {normalize : JsValue → JsValue} {Literal : Text → Rat → Prop}
    {Denotes : JsValue → Rat → Prop} {value : JsValue} (h : normalize value = value) :
    KeepsMeaning normalize Literal Denotes value := ⟨.inl h, by rw [h, h]⟩

abbrev KeepsDuration : JsValue → Prop :=
  KeepsMeaning normalizeDurationValue DurationLiteral DenotesDuration

theorem keepsDuration_of_literal {value : JsValue} {text : Text} {seconds : Rat}
    (h : normalizeDurationValue value = .atom (.str text)) (hliteral : DurationLiteral text seconds)
    (hdenotes : DenotesDuration value seconds) : KeepsDuration value := by
  refine ⟨.inr ⟨text, seconds, h, hliteral, hdenotes⟩, ?_⟩
  rw [h, normalizeDurationValue_literal hliteral]

theorem keepsDuration_num (n : Int) : KeepsDuration (.atom (.num n)) :=
  keepsDuration_of_literal rfl (durationLiteral_of_millis n) (.num n)

theorem keepsDuration_bigint (n : Int) : KeepsDuration (.atom (.bigint n)) := by
  by_cases hfinite : isFiniteNumber n
  · refine keepsDuration_of_literal ?_ (durationLiteral_of_millis n) (.bigint n)
    unfold normalizeDurationValue
    simp only [hfinite, if_true]
  · apply KeepsMeaning.of_unchanged
    unfold normalizeDurationValue
    simp only [if_neg hfinite]

def isClockAtZero (unsigned : Text) : Bool :=
  unsigned = "0:00:00".toList || unsigned = "00:00:00".toList

/-- A text whose normal form lacks its components: no component after a `P` or a `T`, in a spelling
that is changed, or a clock at zero. -/
def lacksDuration (s : Text) : Bool :=
  let trimmed := trimText s
  isCanonicalDuration trimmed && lacksComponent trimmed && asciiUpper trimmed ≠ s ||
    isClockAtZero (if startsWith trimmed ['-'] then trimmed.drop 1 else trimmed)

theorem zeros_of_digitsValue {digits : Text} (hall : digits.all isDigit)
    (hzero : digitsValue digits = 0) : digits = List.replicate digits.length '0' := by
  refine eq_of_digitsValue hall (all_isDigit_replicate _) ?_ ?_
  · rw [List.length_replicate]
  · rw [hzero, digitsValue_replicate]

/-- The parts of a clock are all zero just when it stands at zero. -/
theorem isClockAtZero_iff {unsigned rest fraction : Text} {hours minutes seconds : Nat}
    (hsplit : splitHours unsigned = some (hours, minutes, rest))
    (hrest : splitSeconds rest = some (seconds, fraction)) :
    isClockAtZero unsigned = true ↔
      hours = 0 ∧ minutes = 0 ∧ seconds = 0 ∧ fraction = [] := by
  constructor
  · intro h
    rw [isClockAtZero, Bool.or_eq_true, decide_eq_true_eq, decide_eq_true_eq] at h
    have hparts : splitHours unsigned = some (0, 0, [':', '0', '0']) := by
      rcases h with rfl | rfl
      · decide
      · decide
    rw [hsplit, Option.some.injEq, Prod.mk.injEq, Prod.mk.injEq] at hparts
    obtain ⟨rfl, rfl, rfl⟩ := hparts
    have hparts : splitSeconds [':', '0', '0'] = some (0, []) := by decide
    rw [hrest, Option.some.injEq, Prod.mk.injEq] at hparts
    exact ⟨rfl, rfl, hparts⟩
  · rintro ⟨rfl, rfl, rfl, rfl⟩
    obtain ⟨hourText, minuteText, rfl, hlength, hhours, hminuteLength, hminutes, hhour, hminute⟩ :=
      splitHours_parts hsplit
    obtain ⟨secondText, _, rfl, hsecondLength, hseconds, hsecond, _⟩ := splitSeconds_parts hrest
    rw [zeros_of_digitsValue hhours hhour.symm, zeros_of_digitsValue hminutes hminute.symm,
      zeros_of_digitsValue hseconds hsecond.symm, hminuteLength, hsecondLength]
    rcases hlength with hlength | hlength
    · rw [hlength]
      decide
    · rw [hlength]
      decide

theorem isClockAtZero_splits {unsigned : Text} (h : isClockAtZero unsigned = true) :
    splitHours unsigned = some (0, 0, [':', '0', '0']) ∧
      splitSeconds [':', '0', '0'] = some (0, []) := by
  rw [isClockAtZero, Bool.or_eq_true, decide_eq_true_eq, decide_eq_true_eq] at h
  rcases h with rfl | rfl
  · decide
  · decide

/-- A duration is no clock. -/
theorem isClockAtZero_of_canonical {t : Text} (h : isCanonicalDuration t = true) :
    isClockAtZero (if startsWith t ['-'] then t.drop 1 else t) = false := by
  unfold isCanonicalDuration at h
  dsimp only at h
  generalize (if startsWith t ['-'] then t.drop 1 else t) = unsigned at h ⊢
  rw [Bool.eq_false_iff]
  intro hzero
  rw [isClockAtZero, Bool.or_eq_true, decide_eq_true_eq, decide_eq_true_eq] at hzero
  rcases hzero with rfl | rfl
  · exact absurd h (by decide)
  · exact absurd h (by decide)

/-- A literal with the value's characters in capitals is a literal that lacks no component. -/
theorem not_keepsDuration {s text : Text}
    (h : normalizeDurationValue (.atom (.str s)) = .atom (.str text)) (hne : text ≠ s)
    (hlast : text.getLast? = some 'P' ∨ text.getLast? = some 'T') :
    ¬ KeepsDuration (.atom (.str s)) := by
  rintro ⟨hkept | ⟨text', seconds, heq, hliteral, _⟩, _⟩
  · rw [h, JsValue.atom.injEq, Atom.str.injEq] at hkept
    exact hne hkept
  · rw [h, JsValue.atom.injEq, Atom.str.injEq] at heq
    subst heq
    have hupper := asciiUpper_eq_self fun c hc => (isDurationChar_facts (hliteral.chars c hc)).1
    have hlacks := lacksComponent_literal hliteral
    rw [lacksComponent, hupper, Bool.or_eq_false_iff, decide_eq_false_iff_not,
      decide_eq_false_iff_not] at hlacks
    exact hlast.elim hlacks.1 hlacks.2

theorem keepsDuration_canonical_iff {s : Text} (hne : trimText s ≠ [])
    (h : isCanonicalDuration (trimText s) = true) :
    KeepsDuration (.atom (.str s)) ↔ lacksDuration s = false := by
  have hresult : normalizeDurationValue (.atom (.str s)) =
      .atom (.str (asciiUpper (trimText s))) := by
    unfold normalizeDurationValue
    simp only [if_neg hne, h, if_true]
  have hlacks : lacksDuration s = (lacksComponent (trimText s) && asciiUpper (trimText s) ≠ s) := by
    rw [lacksDuration, h, isClockAtZero_of_canonical h, Bool.true_and, Bool.or_false]
  rw [hlacks]
  by_cases hlast : lacksComponent (trimText s) = true
  · rw [hlast, Bool.true_and, decide_eq_false_iff_not, not_not]
    constructor
    · intro hkeeps
      by_contra hupper
      rw [lacksComponent, Bool.or_eq_true, decide_eq_true_eq, decide_eq_true_eq] at hlast
      exact not_keepsDuration hresult hupper hlast hkeeps
    · intro hupper
      apply KeepsMeaning.of_unchanged
      rw [hresult, hupper]
  · rw [Bool.not_eq_true] at hlast
    obtain ⟨seconds, hliteral⟩ := durationLiteral_of_canonical h hlast
    rw [hlast, Bool.false_and]
    exact iff_of_true (keepsDuration_of_literal hresult hliteral (.literal hliteral)) rfl

/-- The parts of a clock in range. -/
theorem spellsClock_of_splits {t unsigned rest fraction : Text} {negative : Bool}
    {hours minutes seconds : Nat} (ht : t = (if negative then ['-'] else []) ++ unsigned)
    (hsplit : splitHours unsigned = some (hours, minutes, rest))
    (hrest : splitSeconds rest = some (seconds, fraction))
    (hrange : minutes < 60 ∧ seconds < 60) :
    ∃ secondText digits : Text, seconds = digitsValue secondText ∧ digits.all isDigit = true ∧
      fraction = (if digits = [] then [] else '.' :: digits) ∧
      SpellsClock t (if negative then
        -(3600 * hours + 60 * minutes + DecimalText.value ⟨false, secondText, digits, 0⟩)
      else 3600 * hours + 60 * minutes + DecimalText.value ⟨false, secondText, digits, 0⟩) := by
  obtain ⟨hourText, minuteText, rfl, hlength, hhours, hminuteLength, hminutes, rfl, rfl⟩ :=
    splitHours_parts hsplit
  obtain ⟨secondText, digits, rfl, hsecondLength, hseconds, rfl, hdigits, rfl⟩ :=
    splitSeconds_parts hrest
  rw [ht]
  exact ⟨secondText, digits, rfl, hdigits, rfl, SpellsClock.intro negative hlength hhours
    hminuteLength hminutes hrange.1 hsecondLength hseconds hrange.2 hdigits⟩

theorem keepsDuration_text_iff (s : Text) :
    KeepsDuration (.atom (.str s)) ↔ lacksDuration s = false := by
  by_cases hnil : trimText s = []
  · have hresult : normalizeDurationValue (.atom (.str s)) = .atom (.str s) := by
      unfold normalizeDurationValue
      simp only [if_pos hnil]
    refine iff_of_true (.of_unchanged hresult) ?_
    rw [lacksDuration, hnil]
    rfl
  · by_cases hcanonical : isCanonicalDuration (trimText s) = true
    · exact keepsDuration_canonical_iff hnil hcanonical
    · obtain ⟨negative, unsigned, htext, hnegative, hunsigned⟩ := minus_text (trimText s)
      have hlacks : lacksDuration s = isClockAtZero unsigned := by
        rw [Bool.not_eq_true] at hcanonical
        rw [lacksDuration, hcanonical, hunsigned, Bool.false_and, Bool.false_and, Bool.false_or]
      have hunchanged (h : normalizeDurationValue (.atom (.str s)) = .atom (.str s))
          (hzero : isClockAtZero unsigned ≠ true) :
          KeepsDuration (.atom (.str s)) ↔ lacksDuration s = false := by
        rw [hlacks, ← Bool.not_eq_true]
        exact iff_of_true (.of_unchanged h) hzero
      cases hsplit : splitHours unsigned with
      | none =>
        refine hunchanged ?_ fun hzero => ?_
        · unfold normalizeDurationValue
          simp only [if_neg hnil, hcanonical, hunsigned, hsplit]
          rfl
        · rw [(isClockAtZero_splits hzero).1] at hsplit
          cases hsplit
      | some parts =>
        obtain ⟨hours, minutes, rest⟩ := parts
        cases hrest : splitSeconds rest with
        | none =>
          refine hunchanged ?_ fun hzero => ?_
          · unfold normalizeDurationValue
            simp only [if_neg hnil, hcanonical, hunsigned, hsplit, hrest]
            rfl
          · obtain ⟨hzeroSplit, hzeroRest⟩ := isClockAtZero_splits hzero
            rw [hzeroSplit, Option.some.injEq, Prod.mk.injEq, Prod.mk.injEq] at hsplit
            rw [← hsplit.2.2, hzeroRest] at hrest
            cases hrest
        | some parts =>
          obtain ⟨seconds, fraction⟩ := parts
          have hzero := isClockAtZero_iff hsplit hrest
          by_cases hrange : minutes < 60 ∧ seconds < 60
          · obtain ⟨secondText, digits, rfl, hdigits, hfraction, hclock⟩ :=
              spellsClock_of_splits htext hsplit hrest hrange
            have hresult : normalizeDurationValue (.atom (.str s)) =
                .atom (.str ((if negative then ['-'] else []) ++ ['P', 'T'] ++
                  normalizeDurationValue.part hours [] 'H' ++
                  normalizeDurationValue.part minutes [] 'M' ++
                  normalizeDurationValue.part (digitsValue secondText) fraction 'S')) := by
              rw [hnegative] at hunsigned
              unfold normalizeDurationValue
              simp only [if_neg hnil, hcanonical, hnegative, hunsigned, hsplit, hrest,
                if_pos hrange]
              rfl
            rw [hlacks]
            by_cases hstands : isClockAtZero unsigned = true
            · obtain ⟨rfl, rfl, hsecond, rfl⟩ := hzero.mp hstands
              rw [hstands]
              refine iff_of_false ?_ (by decide)
              rw [hsecond] at hresult
              have hpt : normalizeDurationValue (.atom (.str s)) =
                  .atom (.str ((if negative then ['-'] else []) ++ ['P', 'T'])) := by
                rw [hresult]
                simp [normalizeDurationValue.part]
              refine not_keepsDuration hpt ?_ (.inr (by simp))
              rintro rfl
              apply hcanonical
              cases negative
              · decide
              · decide
            · rw [← Bool.not_eq_true]
              refine iff_of_true (keepsDuration_of_literal hresult ?_ (.clock hclock)) hstands
              refine durationLiteral_of_clock negative hdigits hfraction ?_
              rintro ⟨rfl, rfl, hsecond, rfl⟩
              exact hstands (hzero.mpr ⟨rfl, rfl, hsecond, hfraction⟩)
          · refine hunchanged ?_ fun h => ?_
            · unfold normalizeDurationValue
              simp only [if_neg hnil, hcanonical, hunsigned, hsplit, hrest, if_neg hrange]
              rfl
            · obtain ⟨_, rfl, rfl, _⟩ := hzero.mp h
              exact hrange ⟨by decide, by decide⟩

end LoopbackOData
