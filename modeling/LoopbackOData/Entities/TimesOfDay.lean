import LoopbackOData.Entities.Durations

/-!
# Times of day

What the texts of times denote, and which values of temporal properties are normalized to literals of
the same meaning.
-/

namespace LoopbackOData

set_option autoImplicit false

/-! ## Literals -/

/-- A literal of `Edm.TimeOfDay` and the seconds since midnight it denotes. -/
inductive TimeLiteral : Text → Rat → Prop where
  | intro {hours minutes seconds fraction : Text} :
    hours.length = 2 → hours.all isDigit → digitsValue hours < 24 →
    minutes.length = 2 → minutes.all isDigit → digitsValue minutes < 60 →
    seconds.length = 2 → seconds.all isDigit → digitsValue seconds < 60 →
    fraction.length ≤ 12 → fraction.all isDigit →
    TimeLiteral (hours ++ ':' :: (minutes ++ ':' :: (seconds ++
        (if fraction = [] then [] else '.' :: fraction))))
      (3600 * digitsValue hours + 60 * digitsValue minutes +
        DecimalText.value ⟨false, seconds, fraction, 0⟩)

/-- The seconds since midnight that a value of a time stands for: a number of milliseconds counted
around the clock, a date, or a text whose hour may have one digit and whose seconds may be left
out. -/
inductive DenotesTime : JsValue → Rat → Prop where
  | num (n : Int) : DenotesTime (.atom (.num n)) ((n % 86400000 : Int) / 1000)
  | date (ms : Int) : DenotesTime (.atom (.date ms)) ((ms % 86400000 : Int) / 1000)
  | minutes {s hours minutes : Text} : trimText s = hours ++ ':' :: minutes →
    hours.length = 1 ∨ hours.length = 2 → hours.all isDigit →
    minutes.length = 2 → minutes.all isDigit →
    DenotesTime (.atom (.str s)) (3600 * digitsValue hours + 60 * digitsValue minutes)
  | seconds {s hours minutes seconds fraction : Text} :
    trimText s = hours ++ ':' :: (minutes ++ ':' :: (seconds ++
      (if fraction = [] then [] else '.' :: fraction))) →
    hours.length = 1 ∨ hours.length = 2 → hours.all isDigit →
    minutes.length = 2 → minutes.all isDigit → seconds.length = 2 → seconds.all isDigit →
    fraction.all isDigit →
    DenotesTime (.atom (.str s)) (3600 * digitsValue hours + 60 * digitsValue minutes +
      DecimalText.value ⟨false, seconds, fraction, 0⟩)

/-! ## Numbers and dates -/

/-- Parts of a time in range are written as a literal. -/
theorem timeLiteral_of_parts {hours minutes seconds millis : Nat} (hhours : hours < 24)
    (hminutes : minutes < 60) (hseconds : seconds < 60) (hmillis : millis < 1000) :
    TimeLiteral (formatTimeOfDay hours minutes seconds millis)
      (3600 * hours + 60 * minutes + (seconds + millis / 1000)) := by
  obtain ⟨fraction, hfraction⟩ : ∃ fraction, fraction = if (millis : Int) ≠ 0 then
      dropTrailingZeros (padNumber millis 3) else [] := ⟨_, rfl⟩
  have hdigits : fraction.all isDigit = true ∧ fraction.length ≤ 12 ∧
      (digitsValue fraction : Rat) * 10 ^ (0 - (fraction.length : Int)) = (millis : Rat) / 1000 := by
    by_cases hzero : millis = 0
    · rw [hfraction, if_neg (by omega), hzero]
      exact ⟨rfl, by decide, by simp [digitsValue]⟩
    · obtain ⟨_, hall, hlength, hvalue⟩ := fraction_of_millis hzero hmillis
      rw [hfraction, if_pos (by omega)]
      exact ⟨hall, by omega, hvalue⟩
  have hlength {n : Nat} (h : n < 60) : (padNumber n 2).length = 2 :=
    length_padNumber (by decide) (by omega)
  have hall (n : Nat) := all_isDigit_padNumber n 2
  have hvalue (n : Nat) := digitsValue_padNumber n 2
  have h := TimeLiteral.intro (hlength (by omega)) (hall hours) (by rwa [hvalue])
    (hlength hminutes) (hall minutes) (by rwa [hvalue]) (hlength hseconds) (hall seconds)
    (by rwa [hvalue]) hdigits.2.1 hdigits.1
  rw [value_seconds (hvalue seconds) hdigits.2.2, hvalue, hvalue] at h
  unfold formatTimeOfDay
  simp only [← hfraction, ite_not, List.append_assoc, List.cons_append]
  exact h

/-- A number of milliseconds in parts. -/
theorem parts_of_millis (n : Int) :
    n % 86400000 = 3600000 * (n / 3600000 % 24) + 60000 * (n / 60000 % 60) +
      (1000 * (n / 1000 % 60) + n % 1000) := by
  omega

theorem exists_remainder (n : Int) {k : Int} (hk : k ≠ 0) : ∃ m : Nat, n % k = m :=
  Int.eq_ofNat_of_zero_le (Int.emod_nonneg n hk)

theorem timeLiteral_of_millis (n : Int) :
    TimeLiteral (formatTimeOfDay (n / 3600000 % 24) (n / 60000 % 60) (n / 1000 % 60) (n % 1000))
      ((n % 86400000 : Int) / 1000) := by
  obtain ⟨hours, hhours⟩ := exists_remainder (n / 3600000) (k := 24) (by decide)
  obtain ⟨minutes, hminutes⟩ := exists_remainder (n / 60000) (k := 60) (by decide)
  obtain ⟨seconds, hseconds⟩ := exists_remainder (n / 1000) (k := 60) (by decide)
  obtain ⟨millis, hmillis⟩ := exists_remainder n (k := 1000) (by decide)
  have h := @timeLiteral_of_parts hours minutes seconds millis (by omega) (by omega) (by omega)
    (by omega)
  have hvalue : (3600 * hours + 60 * minutes + (seconds + millis / 1000) : Rat) =
      ((n % 86400000 : Int) : Rat) / 1000 := by
    rw [parts_of_millis, hhours, hminutes, hseconds, hmillis]
    push_cast
    ring
  rw [hhours, hminutes, hseconds, hmillis, ← hvalue]
  exact h

/-! ## Literals are left as they are -/

theorem splitFraction_point {fraction : Text} (hall : fraction.all isDigit) :
    splitFraction (if fraction = [] then [] else '.' :: fraction) =
      (if fraction = [] then [] else '.' :: fraction, []) := by
  by_cases hnil : fraction = []
  · rw [if_pos hnil]
    rfl
  · obtain ⟨htake, hdrop⟩ := digits_append (x := []) hall (by simp)
    rw [List.append_nil] at htake hdrop
    rw [if_neg hnil, splitFraction]
    simp only [htake, hdrop, if_neg hnil]

theorem splitHours_of_parts {hours minutes rest : Text}
    (hlength : hours.length = 1 ∨ hours.length = 2) (hhours : hours.all isDigit)
    (hminuteLength : minutes.length = 2) (hminutes : minutes.all isDigit) :
    splitHours (hours ++ ':' :: (minutes ++ rest)) =
      some (digitsValue hours, digitsValue minutes, rest) := by
  obtain ⟨htake, hdrop⟩ := digits_append (x := ':' :: (minutes ++ rest)) hhours (by
    rintro c ⟨⟩
    decide)
  have htwo : (minutes ++ rest).take 2 = minutes ∧ (minutes ++ rest).drop 2 = rest := by
    rw [← hminuteLength]
    exact ⟨List.take_left, List.drop_left⟩
  have hshape : hasShape "dd".toList minutes = true :=
    hasShape_two_iff.mpr ⟨hminuteLength, hminutes⟩
  unfold splitHours
  simp only [htake, hdrop, htwo]
  rw [if_pos ⟨hlength, hshape⟩]

theorem splitSeconds_of_parts {seconds fraction : Text} (hlength : seconds.length = 2)
    (hseconds : seconds.all isDigit) (hfraction : fraction.all isDigit) :
    splitSeconds (':' :: (seconds ++ (if fraction = [] then [] else '.' :: fraction))) =
      some (digitsValue seconds, if fraction = [] then [] else '.' :: fraction) := by
  have htwo (rest : Text) : (seconds ++ rest).take 2 = seconds ∧
      (seconds ++ rest).drop 2 = rest := by
    rw [← hlength]
    exact ⟨List.take_left, List.drop_left⟩
  have hshape : hasShape "dd".toList seconds = true :=
    hasShape_two_iff.mpr ⟨hlength, hseconds⟩
  unfold splitSeconds
  simp only [htwo, splitFraction_point hfraction]
  rw [if_pos ⟨hshape, trivial⟩]

/-- The form that is taken as it is: two digits each, with a fraction of at most seven. -/
def isClockText (t : Text) : Bool :=
  hasShape "dd:dd:dd".toList (t.take 8) && (splitFraction (t.drop 8)).2 = [] &&
    (splitFraction (t.drop 8)).1.length ≤ 8

/-- Hours, minutes and seconds of such a text are in range. -/
def isInRange (t : Text) : Bool :=
  digitsValue (t.take 2) < 24 && digitsValue ((t.drop 3).take 2) < 60 &&
    digitsValue ((t.drop 6).take 2) < 60

theorem hasShape_append_iff {p q t : Text} : hasShape (p ++ q) t = true ↔
    ∃ s s' : Text, t = s ++ s' ∧ hasShape p s = true ∧ hasShape q s' = true := by
  induction p generalizing t with
  | nil =>
    constructor
    · intro h
      exact ⟨[], t, rfl, rfl, h⟩
    · rintro ⟨s, s', rfl, hs, hs'⟩
      cases s with
      | nil => exact hs'
      | cons c s => cases hs
  | cons a p ih =>
    -- the first character of the shape has the same say on both sides
    have hcons (p : Text) (c : Char) (t : Text) : hasShape (a :: p) (c :: t) =
        ((if a = 'd' then isDigit c else decide (a = c)) && hasShape p t) := by
      by_cases ha : a = 'd'
      · subst ha
        rfl
      · simp [hasShape, ha]
    have hnil (p : Text) : hasShape (a :: p) [] = false := by
      unfold hasShape
      split <;> simp_all
    cases t with
    | nil =>
      rw [List.cons_append, hnil]
      constructor
      · exact fun h => absurd h (by decide)
      · rintro ⟨s, s', heq, hs, _⟩
        obtain ⟨rfl, rfl⟩ := List.append_eq_nil_iff.mp heq.symm
        rw [hnil] at hs
        exact hs
    | cons c t =>
      rw [List.cons_append, hcons, Bool.and_eq_true, ih]
      constructor
      · rintro ⟨hc, s, s', rfl, hs, hs'⟩
        refine ⟨c :: s, s', rfl, ?_, hs'⟩
        rw [hcons, hc, hs]
        rfl
      · rintro ⟨s, s', heq, hs, hs'⟩
        cases s with
        | nil =>
          rw [hnil] at hs
          cases hs
        | cons d s =>
          obtain ⟨rfl, rfl⟩ := List.cons.inj heq
          rw [hcons, Bool.and_eq_true] at hs
          exact ⟨hs.1, s, s', rfl, hs.2, hs'⟩

theorem hasShape_clock_iff {t : Text} : hasShape "dd:dd:dd".toList t = true ↔
    ∃ hours minutes seconds : Text, t = hours ++ ':' :: (minutes ++ ':' :: seconds) ∧
      hours.length = 2 ∧ hours.all isDigit = true ∧ minutes.length = 2 ∧
      minutes.all isDigit = true ∧ seconds.length = 2 ∧ seconds.all isDigit = true := by
  have hcolon {t : Text} : hasShape [':'] t = true ↔ t = [':'] := by
    cases t with
    | nil => simp [hasShape]
    | cons c t =>
      cases t with
      | nil => simp [hasShape, eq_comm]
      | cons d t => simp [hasShape]
  have hshape : "dd:dd:dd".toList = ['d', 'd'] ++ ([':'] ++ (['d', 'd'] ++ ([':'] ++ ['d', 'd']))) :=
    rfl
  rw [hshape]
  simp only [hasShape_append_iff, hcolon, hasShape_two_iff]
  constructor
  · rintro ⟨hours, _, rfl, hhours, _, _, rfl, rfl, minutes, _, rfl, hminutes, _, seconds, rfl, rfl,
      hseconds⟩
    exact ⟨hours, minutes, seconds, rfl, hhours.1, hhours.2, hminutes.1, hminutes.2, hseconds.1,
      hseconds.2⟩
  · rintro ⟨hours, minutes, seconds, rfl, h1, h2, h3, h4, h5, h6⟩
    exact ⟨hours, _, rfl, ⟨h1, h2⟩, [':'], _, rfl, rfl, minutes, _, rfl, ⟨h3, h4⟩, [':'], seconds, rfl,
      rfl, h5, h6⟩

theorem isClockText_iff {t : Text} : isClockText t = true ↔
    hasShape "dd:dd:dd".toList (t.take 8) = true ∧ (splitFraction (t.drop 8)).2 = [] ∧
      (splitFraction (t.drop 8)).1.length ≤ 8 := by
  rw [isClockText, Bool.and_eq_true, Bool.and_eq_true, decide_eq_true_eq, decide_eq_true_eq,
    and_assoc]

/-- The places of the parts of a clock. -/
theorem clock_places {hours minutes seconds : Text} (rest : Text) (hhours : hours.length = 2)
    (hminutes : minutes.length = 2) (hseconds : seconds.length = 2) :
    let t := hours ++ ':' :: (minutes ++ ':' :: (seconds ++ rest))
    t.take 8 = hours ++ ':' :: (minutes ++ ':' :: seconds) ∧ t.drop 8 = rest ∧
      isInRange t = (digitsValue hours < 24 && digitsValue minutes < 60 &&
        digitsValue seconds < 60) := by
  obtain ⟨a, b, rfl⟩ := List.length_eq_two.mp hhours
  obtain ⟨c, d, rfl⟩ := List.length_eq_two.mp hminutes
  obtain ⟨e, f, rfl⟩ := List.length_eq_two.mp hseconds
  exact ⟨rfl, rfl, rfl⟩

theorem clock_parts {t : Text} (h : isClockText t = true) :
    ∃ hours minutes seconds fraction : Text,
      t = hours ++ ':' :: (minutes ++ ':' :: (seconds ++
        (if fraction = [] then [] else '.' :: fraction))) ∧
      hours.length = 2 ∧ hours.all isDigit = true ∧ minutes.length = 2 ∧
      minutes.all isDigit = true ∧ seconds.length = 2 ∧ seconds.all isDigit = true ∧
      fraction.length ≤ 12 ∧ fraction.all isDigit = true := by
  obtain ⟨hshape, hrest, hlength⟩ := isClockText_iff.mp h
  obtain ⟨hours, minutes, seconds, htake, h1, h2, h3, h4, h5, h6⟩ := hasShape_clock_iff.mp hshape
  obtain ⟨fraction, hfraction, hpoint, hjoin⟩ := splitFraction_parts (t.drop 8)
  rw [hrest, List.append_nil, hpoint] at hjoin
  refine ⟨hours, minutes, seconds, fraction, ?_, h1, h2, h3, h4, h5, h6, ?_, hfraction⟩
  · rw [← hjoin]
    have ht := List.take_append_drop 8 t
    rw [htake] at ht
    simpa only [List.append_assoc, List.cons_append] using ht.symm
  · rw [hpoint] at hlength
    split at hlength
    · next hnil =>
      rw [hnil]
      decide
    · rw [List.length_cons] at hlength
      omega

theorem TimeLiteral.isInRange {t : Text} {seconds : Rat} (h : TimeLiteral t seconds) :
    isInRange t = true := by
  cases h with
  | intro hhours _ hhour hminutes _ hminute hseconds _ hsecond =>
    rw [(clock_places _ hhours hminutes hseconds).2.2]
    simp [hhour, hminute, hsecond]

theorem timeLiteral_of_clock {t : Text} (h : isClockText t = true) (hrange : isInRange t = true) :
    ∃ seconds, TimeLiteral t seconds ∧
      ∀ s, trimText s = t → DenotesTime (.atom (.str s)) seconds := by
  obtain ⟨hours, minutes, seconds, fraction, rfl, h1, h2, h3, h4, h5, h6, h7, h8⟩ := clock_parts h
  rw [(clock_places _ h1 h3 h5).2.2, Bool.and_eq_true, Bool.and_eq_true, decide_eq_true_eq,
    decide_eq_true_eq, decide_eq_true_eq] at hrange
  obtain ⟨⟨hhour, hminute⟩, hsecond⟩ := hrange
  exact ⟨_, .intro h1 h2 hhour h3 h4 hminute h5 h6 hsecond h7 h8, fun s hs =>
    .seconds hs (.inr h1) h2 h3 h4 h5 h6 h8⟩

theorem TimeLiteral.chars {t : Text} {seconds : Rat} (h : TimeLiteral t seconds) :
    ∀ c ∈ t, isSpace c = false ∧ c ≠ '-' := by
  have hdigits {digits : Text} (hall : digits.all isDigit) :
      ∀ c ∈ digits, isSpace c = false ∧ c ≠ '-' := by
    intro c hc
    have hdigit := List.all_eq_true.mp hall c hc
    refine ⟨isSpace_false_of_isNumberChar (isNumberChar_of_isDigit hdigit), ?_⟩
    rintro rfl
    exact absurd hdigit (by decide)
  cases h with
  | intro _ hhours _ _ hminutes _ _ hseconds _ _ hfraction =>
    intro c hc
    simp only [List.mem_append, List.mem_cons] at hc
    rcases hc with hc | rfl | hc | rfl | hc | hc
    · exact hdigits hhours c hc
    · decide
    · exact hdigits hminutes c hc
    · decide
    · exact hdigits hseconds c hc
    · split at hc
      · cases hc
      · rcases List.mem_cons.mp hc with rfl | hc
        · decide
        · exact hdigits hfraction c hc

theorem normalizeTimeOfDayValue_clock {s : Text} (h : isClockText (trimText s) = true) :
    normalizeTimeOfDayValue (.atom (.str s)) = .atom (.str (trimText s)) := by
  have hne : trimText s ≠ [] := by
    intro hnil
    rw [hnil] at h
    exact absurd h (by decide)
  unfold normalizeTimeOfDayValue
  simp only [if_neg hne, if_pos (isClockText_iff.mp h)]

/-- A literal is normalized already. -/
theorem normalizeTimeOfDayValue_literal {t : Text} {seconds : Rat} (h : TimeLiteral t seconds) :
    normalizeTimeOfDayValue (.atom (.str t)) = .atom (.str t) := by
  have htrim := trimText_eq fun c hc => (h.chars c hc).1
  by_cases hclock : isClockText t = true
  · have hresult := normalizeTimeOfDayValue_clock (s := t) (by rwa [htrim])
    rwa [htrim] at hresult
  · cases h with
    | @intro hours minutes second fraction h1 h2 _ h3 h4 _ h5 h6 _ _ h8 =>
      -- only a longer fraction is not taken as it is
      have hlong : ¬ (if fraction = [] then [] else '.' :: fraction).length ≤ 8 := by
        intro hle
        obtain ⟨htake, hdrop, _⟩ :=
          clock_places (if fraction = [] then [] else '.' :: fraction) h1 h3 h5
        apply hclock
        rw [isClockText_iff, htake, hdrop, splitFraction_point h8]
        exact ⟨hasShape_clock_iff.mpr ⟨hours, minutes, second, rfl, h1, h2, h3, h4, h5, h6⟩, rfl,
          hle⟩
      have hhours := @splitHours_of_parts _ _ (':' :: (second ++
        (if fraction = [] then [] else '.' :: fraction))) (.inr h1) h2 h3 h4
      unfold normalizeTimeOfDayValue
      simp only [htrim, if_neg (mt isClockText_iff.mpr hclock), hhours,
        splitSeconds_of_parts h5 h6 h8, if_neg hlong, ite_self]

/-! ## Normalized times -/

abbrev KeepsTime : JsValue → Prop :=
  KeepsMeaning normalizeTimeOfDayValue TimeLiteral DenotesTime

theorem keepsTime_of_literal {value : JsValue} {text : Text} {seconds : Rat}
    (h : normalizeTimeOfDayValue value = .atom (.str text)) (hliteral : TimeLiteral text seconds)
    (hdenotes : DenotesTime value seconds) : KeepsTime value := by
  refine ⟨.inr ⟨text, seconds, h, hliteral, hdenotes⟩, ?_⟩
  rw [h, normalizeTimeOfDayValue_literal hliteral]

theorem keepsTime_date (ms : Int) : KeepsTime (.atom (.date ms)) := by
  have h := timeLiteral_of_millis (ms % 86400000)
  rw [Int.emod_emod] at h
  have hhours : ms % 86400000 / 3600000 % 24 = ms % 86400000 / 3600000 := by omega
  rw [hhours] at h
  exact keepsTime_of_literal rfl h (.date ms)

/-- An hour before midnight is written with a sign. -/
theorem keepsTime_num_iff (n : Int) :
    KeepsTime (.atom (.num n)) ↔ 0 ≤ n ∨ n / 3600000 % 24 = 0 := by
  have hresult : normalizeTimeOfDayValue (.atom (.num n)) =
      .atom (.str (formatTimeOfDay ((n / 3600000).tmod 24) (n / 60000 % 60) (n / 1000 % 60)
        (n % 1000))) := by
    unfold normalizeTimeOfDayValue
    simp only [truncate_intCast]
  by_cases h : 0 ≤ n ∨ n / 3600000 % 24 = 0
  · refine iff_of_true ?_ h
    have hhours : (n / 3600000).tmod 24 = n / 3600000 % 24 := by
      rw [Int.tmod_eq_emod]
      split
      · exact Int.sub_zero _
      · omega
    rw [hhours] at hresult
    exact keepsTime_of_literal hresult (timeLiteral_of_millis n) (.num n)
  · refine iff_of_false ?_ h
    have hhours : (n / 3600000).tmod 24 < 0 := by
      rw [Int.tmod_eq_emod, if_neg (by omega)]
      omega
    rintro ⟨hkept | ⟨text, seconds, heq, hliteral, _⟩, _⟩
    · rw [hresult] at hkept
      cases hkept
    · rw [hresult, JsValue.atom.injEq, Atom.str.injEq] at heq
      have hminus : '-' ∈ text := by
        rw [← heq, formatTimeOfDay, padNumber, if_pos hhours]
        simp
      exact (hliteral.chars _ hminus).2 rfl

/-- A text that is taken as it is, out of range and with space around it. -/
def lacksTime (s : Text) : Bool :=
  isClockText (trimText s) && !isInRange (trimText s) && trimText s ≠ s

theorem inRange_cases (s : Text) (hours minutes seconds : Nat) (fraction : Text) :
    (normalizeTimeOfDayValue.inRange s hours minutes seconds fraction = .atom (.str s)) ∨
    (hours < 24 ∧ minutes < 60 ∧ seconds < 60 ∧
      normalizeTimeOfDayValue.inRange s hours minutes seconds fraction =
        .atom (.str (padNumber hours 2 ++ ':' :: (padNumber minutes 2 ++ ':' ::
          (padNumber seconds 2 ++ fraction))))) := by
  unfold normalizeTimeOfDayValue.inRange
  split
  · next h =>
    refine .inr ⟨h.1, h.2.1, h.2.2, ?_⟩
    simp only [List.append_assoc, List.cons_append]
  · exact .inl rfl

theorem timeLiteral_of_padded {hours minutes seconds : Nat} {secondText fraction : Text}
    (hhours : hours < 24) (hminutes : minutes < 60) (hseconds : seconds < 60)
    (hsecond : digitsValue secondText = seconds) (hlength : fraction.length ≤ 12)
    (hfraction : fraction.all isDigit) :
    TimeLiteral (padNumber hours 2 ++ ':' :: (padNumber minutes 2 ++ ':' :: (padNumber seconds 2 ++
        (if fraction = [] then [] else '.' :: fraction))))
      (3600 * hours + 60 * minutes + DecimalText.value ⟨false, secondText, fraction, 0⟩) := by
  have hlength2 {n : Nat} (h : n < 60) : (padNumber n 2).length = 2 :=
    length_padNumber (by decide) (by omega)
  have h := TimeLiteral.intro (hlength2 (by omega)) (all_isDigit_padNumber hours 2)
    (by rwa [digitsValue_padNumber]) (hlength2 hminutes) (all_isDigit_padNumber minutes 2)
    (by rwa [digitsValue_padNumber]) (hlength2 hseconds) (all_isDigit_padNumber seconds 2)
    (by rwa [digitsValue_padNumber]) hlength hfraction
  rw [digitsValue_padNumber, digitsValue_padNumber,
    value_seconds (digitsValue_padNumber seconds 2) rfl] at h
  rwa [value_seconds hsecond rfl]

theorem keepsTime_text_iff (s : Text) : KeepsTime (.atom (.str s)) ↔ lacksTime s = false := by
  by_cases hclock : isClockText (trimText s) = true
  · have hresult := normalizeTimeOfDayValue_clock hclock
    rw [lacksTime, hclock, Bool.true_and]
    by_cases hrange : isInRange (trimText s) = true
    · obtain ⟨seconds, hliteral, hdenotes⟩ := timeLiteral_of_clock hclock hrange
      rw [hrange, Bool.not_true, Bool.false_and]
      exact iff_of_true (keepsTime_of_literal hresult hliteral (hdenotes s rfl)) rfl
    · rw [Bool.eq_false_of_not_eq_true hrange, Bool.not_false, Bool.true_and,
        decide_eq_false_iff_not, not_not]
      constructor
      · rintro ⟨hkept | ⟨text, seconds, heq, hliteral, _⟩, _⟩
        · rw [hresult, JsValue.atom.injEq, Atom.str.injEq] at hkept
          exact hkept
        · rw [hresult, JsValue.atom.injEq, Atom.str.injEq] at heq
          rw [heq] at hrange
          exact absurd hliteral.isInRange hrange
      · intro htrim
        apply KeepsMeaning.of_unchanged
        rw [hresult, htrim]
  · rw [Bool.not_eq_true] at hclock
    rw [lacksTime, hclock, Bool.false_and, Bool.false_and]
    refine iff_of_true ?_ rfl
    have hnot : ¬ (hasShape "dd:dd:dd".toList ((trimText s).take 8) = true ∧
        (splitFraction ((trimText s).drop 8)).2 = [] ∧
        (splitFraction ((trimText s).drop 8)).1.length ≤ 8) := by
      rw [← isClockText_iff, hclock]
      decide
    by_cases hnil : trimText s = []
    · apply KeepsMeaning.of_unchanged
      unfold normalizeTimeOfDayValue
      simp only [if_pos hnil]
    · cases hsplit : splitHours (trimText s) with
      | none =>
        apply KeepsMeaning.of_unchanged
        unfold normalizeTimeOfDayValue
        simp only [if_neg hnil, if_neg hnot, hsplit]
      | some parts =>
        obtain ⟨hours, minutes, rest⟩ := parts
        obtain ⟨hourText, minuteText, htext, h1, h2, h3, h4, rfl, rfl⟩ := splitHours_parts hsplit
        cases rest with
        | nil =>
          have hresult : normalizeTimeOfDayValue (.atom (.str s)) =
              normalizeTimeOfDayValue.inRange s (digitsValue hourText) (digitsValue minuteText)
                0 [] := by
            rw [normalizeTimeOfDayValue]
            simp only [if_neg hnil, if_neg hnot, hsplit]
          rw [List.append_nil] at htext
          rcases inRange_cases s (digitsValue hourText) (digitsValue minuteText) 0 [] with
            hsame | ⟨hhours, hminutes, hseconds, hpadded⟩
          · exact KeepsMeaning.of_unchanged (hresult.trans hsame)
          · have hliteral := @timeLiteral_of_padded _ _ _ [] [] hhours hminutes hseconds rfl
              (by decide) rfl
            have hzero : DecimalText.value ⟨false, [], [], 0⟩ = 0 := by
              simp [DecimalText.value, digitsValue]
            rw [hzero, add_zero] at hliteral
            exact keepsTime_of_literal (hresult.trans hpadded) hliteral (.minutes htext h1 h2 h3 h4)
        | cons c rest =>
          cases hrest : splitSeconds (c :: rest) with
          | none =>
            apply KeepsMeaning.of_unchanged
            unfold normalizeTimeOfDayValue
            simp only [if_neg hnil, if_neg hnot, hsplit, hrest]
          | some parts =>
            obtain ⟨seconds, fraction⟩ := parts
            obtain ⟨secondText, digits, heq, h5, h6, rfl, h8, rfl⟩ := splitSeconds_parts hrest
            by_cases hlength : (if digits = [] then [] else '.' :: digits).length ≤ 8
            · have hresult : normalizeTimeOfDayValue (.atom (.str s)) =
                  normalizeTimeOfDayValue.inRange s (digitsValue hourText) (digitsValue minuteText)
                    (digitsValue secondText) (if digits = [] then [] else '.' :: digits) := by
                rw [normalizeTimeOfDayValue]
                simp only [if_neg hnil, if_neg hnot, hsplit, hrest, if_pos hlength]
              rcases inRange_cases s (digitsValue hourText) (digitsValue minuteText)
                (digitsValue secondText) (if digits = [] then [] else '.' :: digits) with
                hsame | ⟨hhours, hminutes, hseconds, hpadded⟩
              · exact KeepsMeaning.of_unchanged (hresult.trans hsame)
              · have hdigits : digits.length ≤ 12 := by
                  split at hlength
                  · next hnil =>
                    rw [hnil]
                    decide
                  · rw [List.length_cons] at hlength
                    omega
                rw [heq] at htext
                exact keepsTime_of_literal (hresult.trans hpadded)
                  (timeLiteral_of_padded hhours hminutes hseconds rfl hdigits h8)
                  (.seconds htext h1 h2 h3 h4 h5 h6 h8)
            · apply KeepsMeaning.of_unchanged
              unfold normalizeTimeOfDayValue
              simp only [if_neg hnil, if_neg hnot, hsplit, hrest, if_neg hlength]

/-! ## Temporal values -/

/-- A value of a temporal property; an invalid `Date` is a value of its own. -/
inductive TemporalValue where
  | value (v : JsValue)
  | invalidDate

/-- The parts of an invalid date are all `NaN`, which is shorter than no padding. -/
def normalizeTimeOfDay : TemporalValue → TemporalValue
  | .value v => .value (normalizeTimeOfDayValue v)
  | .invalidDate => .value (.atom (.str "NaN:NaN:NaN".toList))

def normalizeDuration : TemporalValue → TemporalValue
  | .value v => .value (normalizeDurationValue v)
  | .invalidDate => .invalidDate

/-- The numbers that count every integer up to them. -/
def maxSafeInteger : Int := 9007199254740991

/-- Integer milliseconds in the safe range, dates and texts. -/
inductive IsTemporal : TemporalValue → Prop where
  | num {n : Int} : |n| ≤ maxSafeInteger → IsTemporal (.value (.atom (.num n)))
  | bigint {n : Int} : |n| ≤ maxSafeInteger → IsTemporal (.value (.atom (.bigint n)))
  | date (ms : Int) : IsTemporal (.value (.atom (.date ms)))
  | invalidDate : IsTemporal .invalidDate
  | text (s : Text) : IsTemporal (.value (.atom (.str s)))

/-- The value is left as it is or becomes a literal of the same meaning, which is left as it is. -/
def KeepsTemporal (normalize : TemporalValue → TemporalValue) (Literal : Text → Rat → Prop)
    (Denotes : JsValue → Rat → Prop) (value : TemporalValue) : Prop :=
  (normalize value = value ∨ ∃ v text seconds, value = .value v ∧
    normalize value = .value (.atom (.str text)) ∧ Literal text seconds ∧ Denotes v seconds) ∧
  normalize (normalize value) = normalize value

theorem keepsTemporal_value_iff {normalize : TemporalValue → TemporalValue}
    {normalizeValue : JsValue → JsValue} {Literal : Text → Rat → Prop}
    {Denotes : JsValue → Rat → Prop}
    (h : ∀ v, normalize (.value v) = .value (normalizeValue v)) (v : JsValue) :
    KeepsTemporal normalize Literal Denotes (.value v) ↔
      KeepsMeaning normalizeValue Literal Denotes v := by
  simp only [KeepsTemporal, KeepsMeaning, h, TemporalValue.value.injEq]
  constructor
  · rintro ⟨hkept | ⟨_, text, seconds, rfl, hresult⟩, hagain⟩
    · exact ⟨.inl hkept, hagain⟩
    · exact ⟨.inr ⟨text, seconds, hresult⟩, hagain⟩
  · rintro ⟨hkept | ⟨text, seconds, hresult⟩, hagain⟩
    · exact ⟨.inl hkept, hagain⟩
    · exact ⟨.inr ⟨v, text, seconds, rfl, hresult⟩, hagain⟩

/-- Whether the duration of a value gets a literal: a text of it has a component to write. -/
def hasDuration : TemporalValue → Bool
  | .value (.atom (.str s)) => !lacksDuration s
  | _ => true

/-- Whether the time of a value gets a literal: a number is at or after midnight or in the hour from
midnight, a date is valid, and a text in range or left as it is. -/
def hasTime : TemporalValue → Bool
  | .value (.atom (.num q)) => 0 ≤ q || truncate q / 3600000 % 24 = 0
  | .value (.atom (.str s)) => !lacksTime s
  | .value _ => true
  | .invalidDate => false

/-- Which durations and which times become valid literals of the same meaning or stay as they are. -/
theorem normalizeTemporal_iff {value : TemporalValue} (h : IsTemporal value) :
    (KeepsTemporal normalizeDuration DurationLiteral DenotesDuration value ↔
      hasDuration value = true) ∧
    (KeepsTemporal normalizeTimeOfDay TimeLiteral DenotesTime value ↔ hasTime value = true) := by
  have hduration := @keepsTemporal_value_iff normalizeDuration _ DurationLiteral DenotesDuration
    fun _ => rfl
  have htime := @keepsTemporal_value_iff normalizeTimeOfDay _ TimeLiteral DenotesTime fun _ => rfl
  cases h with
  | @num n hn =>
    rw [hduration]
    refine ⟨iff_of_true (keepsDuration_num n) rfl, ((htime _).trans (keepsTime_num_iff n)).trans ?_⟩
    simp [hasTime, truncate_intCast]
  | @bigint n hn =>
    rw [hduration, htime]
    exact ⟨iff_of_true (keepsDuration_bigint n) rfl,
      iff_of_true (.of_unchanged rfl) rfl⟩
  | date ms =>
    rw [hduration, htime]
    exact ⟨iff_of_true (.of_unchanged rfl) rfl, iff_of_true (keepsTime_date ms) rfl⟩
  | invalidDate =>
    refine ⟨iff_of_true ⟨.inl rfl, rfl⟩ rfl, iff_of_false ?_ (by decide)⟩
    rintro ⟨hkept | ⟨_, _, _, heq, _⟩, _⟩
    · cases hkept
    · cases heq
  | text s =>
    rw [hasDuration, hasTime, Bool.not_eq_true', Bool.not_eq_true']
    exact ⟨(hduration _).trans (keepsDuration_text_iff s), (htime _).trans (keepsTime_text_iff s)⟩

theorem normalizeTemporal_iff_midnight :
    IsTemporal (.value (.atom (.num (-1 : Int)))) ∧
    ((KeepsTemporal normalizeDuration DurationLiteral DenotesDuration
        (.value (.atom (.num (-1 : Int)))) ↔
      hasDuration (.value (.atom (.num (-1 : Int)))) = true) ∧
    (KeepsTemporal normalizeTimeOfDay TimeLiteral DenotesTime (.value (.atom (.num (-1 : Int)))) ↔
      hasTime (.value (.atom (.num (-1 : Int)))) = true)) :=
  ⟨.num (by decide), normalizeTemporal_iff (.num (by decide))⟩

/-- A clock at zero becomes `PT`, and the millisecond before midnight `-01:59:59.999`. -/
theorem normalizeTemporal_lacks :
    ¬ (∀ value, IsTemporal value →
      KeepsTemporal normalizeDuration DurationLiteral DenotesDuration value) ∧
    ¬ (∀ value, IsTemporal value →
      KeepsTemporal normalizeTimeOfDay TimeLiteral DenotesTime value) := by
  constructor
  · intro h
    have hkept := (keepsTemporal_value_iff (fun _ => rfl) _).mp (h _ (.text "00:00:00".toList))
    exact absurd ((keepsDuration_text_iff _).mp hkept) (by decide)
  · intro h
    have hkept := (keepsTemporal_value_iff (fun _ => rfl) _).mp (h _ (.num (n := -1) (by decide)))
    exact absurd ((keepsTime_num_iff (-1)).mp hkept) (by decide)

end LoopbackOData
