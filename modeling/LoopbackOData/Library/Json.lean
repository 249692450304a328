import Mathlib

/-!
# JSON

JSON values, the compact text `JSON.stringify` writes, and a parser of the whole grammar. A number
is kept as its literal text. `parse_print` shows that the parser reads every printed value back.
Characters are scalar values, so an escaped surrogate without its partner is not accepted.
-/

set_option autoImplicit false

namespace Json

/-! ## Numbers -/

def isDigit (c : Char) : Bool := '0' ≤ c && c ≤ '9'

def isNumberChar (c : Char) : Bool :=
  isDigit c || c = '-' || c = '+' || c = '.' || c = 'e' || c = 'E'

def isExponent : List Char → Bool
  | [] => true
  | e :: rest =>
    let digits := if rest.head? = some '+' ∨ rest.head? = some '-' then rest.drop 1 else rest
    (e = 'e' || e = 'E') && digits ≠ [] && digits.all isDigit

def isFraction : List Char → Bool
  | '.' :: rest => rest.takeWhile isDigit ≠ [] && isExponent (rest.dropWhile isDigit)
  | rest => isExponent rest

/-- `-?(0|[1-9]\d*)(\.\d+)?([eE][+-]?\d+)?`. -/
def isNumber (text : List Char) : Bool :=
  let unsigned := if text.head? = some '-' then text.drop 1 else text
  let whole := unsigned.takeWhile isDigit
  text.all isNumberChar && whole ≠ [] && (whole = ['0'] || whole.head? ≠ some '0') &&
    isFraction (unsigned.dropWhile isDigit)

/-- A number literal. -/
structure Number where
  text : List Char
  valid : isNumber text = true
  deriving DecidableEq

theorem Number.all_numberChar (n : Number) : ∀ c ∈ n.text, isNumberChar c := by
  have h := n.valid
  simp only [isNumber, Bool.and_eq_true] at h
  exact List.all_eq_true.mp h.1.1.1

theorem Number.head (n : Number) :
    ∃ c rest, n.text = c :: rest ∧ (isDigit c ∨ c = '-') := by
  have h := n.valid
  simp only [isNumber, Bool.and_eq_true, decide_eq_true_eq] at h
  have hwhole := h.1.1.2
  cases htext : n.text with
  | nil =>
    rw [htext] at hwhole
    simp at hwhole
  | cons c rest =>
    refine ⟨c, rest, rfl, ?_⟩
    rw [htext, List.head?_cons] at hwhole
    by_cases hc : c = '-'
    · exact .inr hc
    · rw [if_neg (by simpa using hc)] at hwhole
      by_contra hdigit
      rw [not_or, Bool.not_eq_true] at hdigit
      rw [List.takeWhile_cons_of_neg (by simp [hdigit.1])] at hwhole
      exact hwhole rfl

/-- The decimal digits of a natural number. -/
def digits (n : Nat) : List Char :=
  if n < 10 then [Nat.digitChar n] else digits (n / 10) ++ [Nat.digitChar (n % 10)]

theorem isDigit_digitChar {n : Nat} (h : n < 10) : isDigit (Nat.digitChar n) = true := by
  revert h n
  decide

theorem all_isDigit_digits (n : Nat) : (digits n).all isDigit = true := by
  induction n using digits.induct with
  | case1 n hn =>
    rw [digits, if_pos hn]
    simp [isDigit_digitChar hn]
  | case2 n hn ih =>
    rw [digits, if_neg hn, List.all_append, ih]
    simp [isDigit_digitChar (Nat.mod_lt n (by omega : 0 < 10))]

theorem digits_ne_nil (n : Nat) : digits n ≠ [] := by
  rw [digits]
  split <;> simp

/-- No leading zero but in zero itself. -/
theorem head_digits (n : Nat) (h : n ≠ 0) : (digits n).head? ≠ some '0' := by
  induction n using digits.induct with
  | case1 n hn =>
    rw [digits, if_pos hn]
    revert h hn n
    decide
  | case2 n hn ih =>
    rw [digits, if_neg hn, List.head?_append_of_ne_nil _ (digits_ne_nil _)]
    exact ih (by omega)

theorem isNumber_int (negative : Bool) (n : Nat) :
    isNumber ((if negative then ['-'] else []) ++ digits n) = true := by
  have hall := all_isDigit_digits n
  have hne := digits_ne_nil n
  have htake : (digits n).takeWhile isDigit = digits n :=
    List.takeWhile_eq_self_iff.mpr (List.all_eq_true.mp hall)
  have hdrop : (digits n).dropWhile isDigit = [] :=
    List.dropWhile_eq_nil_iff.mpr (List.all_eq_true.mp hall)
  have hminus : (digits n).head? ≠ some '-' := by
    obtain ⟨c, rest, heq⟩ := List.exists_cons_of_ne_nil hne
    rw [heq, List.all_cons, Bool.and_eq_true] at hall
    rw [heq, List.head?_cons]
    rintro ⟨⟩
    exact absurd hall.1 (by decide)
  have hunsigned : (if ((if negative then ['-'] else []) ++ digits n).head? = some '-' then
      ((if negative then ['-'] else []) ++ digits n).drop 1
      else (if negative then ['-'] else []) ++ digits n) = digits n := by
    cases negative with
    | true => simp
    | false => simp [hminus]
  have hchars : ((if negative then ['-'] else []) ++ digits n).all isNumberChar = true := by
    rw [List.all_append, Bool.and_eq_true]
    refine ⟨by cases negative <;> decide, ?_⟩
    rw [List.all_eq_true] at hall ⊢
    intro c hc
    simp [isNumberChar, hall c hc]
  have hzero : digits n = ['0'] ∨ (digits n).head? ≠ some '0' := by
    by_cases hn : n = 0
    · subst hn
      rw [digits, if_pos (by decide)]
      exact .inl rfl
    · exact .inr (head_digits n hn)
  simp only [isNumber, hunsigned, htake, hdrop, hchars, isFraction, isExponent, Bool.and_true,
    Bool.true_and, Bool.and_eq_true, Bool.or_eq_true, decide_eq_true_eq]
  exact ⟨hne, hzero⟩

/-- The literal of an integer. -/
def Number.ofInt (i : Int) : Number :=
  ⟨(if decide (i < 0) then ['-'] else []) ++ digits i.natAbs, isNumber_int _ _⟩

/-! ## Strings -/

def hexValue (c : Char) : Option Nat :=
  if isDigit c then some (c.toNat - '0'.toNat)
  else if 'a' ≤ c ∧ c ≤ 'f' then some (c.toNat - 'a'.toNat + 10)
  else if 'A' ≤ c ∧ c ≤ 'F' then some (c.toNat - 'A'.toNat + 10)
  else none

/-- The code unit that four hexadecimal digits stand for. -/
def codeUnit (a b c d : Char) : Option Nat := do
  return ((← hexValue a) * 16 + (← hexValue b)) * 256 + ((← hexValue c) * 16 + (← hexValue d))

/-- The character of a pair of surrogates. -/
def surrogatePair (high : Nat) (low : Option Nat) : Option Char :=
  match low with
  | none => none
  | some low =>
    if 0xdc00 ≤ low ∧ low < 0xe000 then
      some (Char.ofNat (0x10000 + (high - 0xd800) * 0x400 + (low - 0xdc00)))
    else none

/-- The characters that have an escape of their own. -/
def shortEscapes : List (Char × Char) :=
  [('"', '"'), ('\\', '\\'), ('b', '\x08'), ('f', '\x0c'), ('n', '\n'), ('r', '\r'), ('t', '\t')]

def escape (c : Char) : List Char :=
  match shortEscapes.find? (·.2 = c) with
  | some (name, _) => ['\\', name]
  | none =>
    if c.toNat < 32 then
      ['\\', 'u', '0', '0', Nat.digitChar (c.toNat / 16), Nat.digitChar (c.toNat % 16)]
    else [c]

def quote (s : List Char) : List Char := '"' :: (s.flatMap escape ++ ['"'])

/-- A string after its opening quote, and what follows it. -/
def parseString : List Char → Option (List Char × List Char)
  | [] => none
  | '"' :: rest => some ([], rest)
  | '\\' :: 'u' :: a :: b :: c :: d :: rest =>
    match codeUnit a b c d with
    | none => none
    | some unit =>
      if 0xd800 ≤ unit ∧ unit < 0xdc00 then
        match rest with
        | '\\' :: 'u' :: a' :: b' :: c' :: d' :: rest =>
          match surrogatePair unit (codeUnit a' b' c' d') with
          | some char => (parseString rest).map fun p => (char :: p.1, p.2)
          | none => none
        | _ => none
      else if 0xdc00 ≤ unit ∧ unit < 0xe000 then none
      else (parseString rest).map fun p => (Char.ofNat unit :: p.1, p.2)
  | '\\' :: '/' :: rest => (parseString rest).map fun p => ('/' :: p.1, p.2)
  | '\\' :: name :: rest =>
    match shortEscapes.lookup name with
    | some char => (parseString rest).map fun p => (char :: p.1, p.2)
    | none => none
  | c :: rest =>
    if c.toNat < 32 ∨ c = '\\' then none else (parseString rest).map fun p => (c :: p.1, p.2)

theorem codeUnit_control {n : Nat} (h : n < 32) :
    codeUnit '0' '0' (Nat.digitChar (n / 16)) (Nat.digitChar (n % 16)) = some n := by
  revert h n
  decide

theorem parseString_escape (c : Char) (rest : List Char) :
    parseString (escape c ++ rest) = (parseString rest).map fun p => (c :: p.1, p.2) := by
  rw [escape]
  split
  · next name char hfind =>
    have hc : char = c := by simpa using List.find?_some hfind
    have hmem := List.mem_of_find?_eq_some hfind
    have hall : ∀ p ∈ shortEscapes, p.1 ≠ 'u' ∧ p.1 ≠ '/' ∧
        shortEscapes.lookup p.1 = some p.2 := by decide
    obtain ⟨hu, hslash, hlookup⟩ := hall _ hmem
    rw [List.cons_append, List.cons_append, List.nil_append, parseString]
    · rw [hlookup, hc]
    · exact fun _ _ _ _ _ h => absurd h hu
    · exact hslash
  · next hfind =>
    split
    · next hcontrol =>
      simp only [List.cons_append, List.nil_append]
      rw [parseString, codeUnit_control hcontrol]
      dsimp only
      rw [if_neg (by omega), if_neg (by omega), Char.ofNat_toNat]
    · next hcontrol =>
      have hplain : c ≠ '"' ∧ c ≠ '\\' := by
        rw [List.find?_eq_none] at hfind
        constructor
        · rintro rfl
          exact hfind ('"', '"') (by decide) (by decide)
        · rintro rfl
          exact hfind ('\\', '\\') (by decide) (by decide)
      rw [List.singleton_append, parseString]
      · rw [if_neg (not_or.mpr ⟨hcontrol, hplain.2⟩)]
      · exact hplain.1
      · exact fun _ _ _ _ _ h => absurd h hplain.2
      · exact fun _ h => absurd h hplain.2
      · exact fun _ _ h => absurd h hplain.2

/-- A quoted string is read back. -/
theorem parseString_quote (s rest : List Char) :
    parseString (s.flatMap escape ++ '"' :: rest) = some (s, rest) := by
  induction s with
  | nil => simp [parseString]
  | cons c s ih =>
    rw [List.flatMap_cons, List.append_assoc, parseString_escape, ih]
    rfl

/-! ## Values -/

inductive Value where
  | null
  | bool (b : Bool)
  | num (n : Number)
  | str (s : List Char)
  | arr (items : List Value)
  | obj (fields : List (List Char × Value))

mutual

/-- `JSON.stringify`. -/
def print : Value → List Char
  | .null => ['n', 'u', 'l', 'l']
  | .bool true => ['t', 'r', 'u', 'e']
  | .bool false => ['f', 'a', 'l', 's', 'e']
  | .num n => n.text
  | .str s => quote s
  | .arr [] => ['[', ']']
  | .arr (item :: items) => '[' :: (print item ++ printItems items)
  | .obj [] => ['{', '}']
  | .obj ((key, value) :: fields) =>
    '{' :: (quote key ++ ':' :: (print value ++ printFields fields))

/-- The items after the first one, and the closing bracket. -/
def printItems : List Value → List Char
  | [] => [']']
  | item :: items => ',' :: (print item ++ printItems items)

/-- The fields after the first one, and the closing brace. -/
def printFields : List (List Char × Value) → List Char
  | [] => ['}']
  | (key, value) :: fields =>
    ',' :: (quote key ++ ':' :: (print value ++ printFields fields))

end

def isSpace (c : Char) : Bool := c = ' ' || c = '\t' || c = '\n' || c = '\r'

def skipSpaces (s : List Char) : List Char := s.dropWhile isSpace

def parseNumber (s : List Char) : Option (Value × List Char) :=
  if h : isNumber (s.takeWhile isNumberChar) then
    some (.num ⟨s.takeWhile isNumberChar, h⟩, s.dropWhile isNumberChar)
  else none

mutual

/-- A value at the start of the text, and what follows it. The first argument bounds the depth of
the recursion. -/
def parseValue : Nat → List Char → Option (Value × List Char)
  | 0, _ => none
  | fuel + 1, s =>
    match skipSpaces s with
    | 'n' :: 'u' :: 'l' :: 'l' :: rest => some (.null, rest)
    | 't' :: 'r' :: 'u' :: 'e' :: rest => some (.bool true, rest)
    | 'f' :: 'a' :: 'l' :: 's' :: 'e' :: rest => some (.bool false, rest)
    | '"' :: rest => (parseString rest).map fun p => (.str p.1, p.2)
    | '[' :: rest =>
      match skipSpaces rest with
      | ']' :: rest => some (.arr [], rest)
      | rest => (parseItems fuel rest).map fun p => (.arr p.1, p.2)
    | '{' :: rest =>
      match skipSpaces rest with
      | '}' :: rest => some (.obj [], rest)
      | rest => (parseFields fuel rest).map fun p => (.obj p.1, p.2)
    | s => parseNumber s

/-- The items of an array, at least one. -/
def parseItems : Nat → List Char → Option (List Value × List Char)
  | 0, _ => none
  | fuel + 1, s =>
    match parseValue fuel s with
    | none => none
    | some (item, rest) =>
      match skipSpaces rest with
      | ']' :: rest => some ([item], rest)
      | ',' :: rest => (parseItems fuel rest).map fun p => (item :: p.1, p.2)
      | _ => none

/-- The fields of an object, at least one. -/
def parseFields : Nat → List Char → Option (List (List Char × Value) × List Char)
  | 0, _ => none
  | fuel + 1, s =>
    match skipSpaces s with
    | '"' :: rest =>
      match parseString rest with
      | none => none
      | some (key, rest) =>
        match skipSpaces rest with
        | ':' :: rest =>
          match parseValue fuel rest with
          | none => none
          | some (value, rest) =>
            match skipSpaces rest with
            | '}' :: rest => some ([(key, value)], rest)
            | ',' :: rest => (parseFields fuel rest).map fun p => ((key, value) :: p.1, p.2)
            | _ => none
        | _ => none
    | _ => none

end

/-- `JSON.parse`. -/
def parse (s : List Char) : Option Value :=
  match parseValue (2 * s.length + 1) s with
  | some (value, rest) => if skipSpaces rest = [] then some value else none
  | none => none

/-! ## Round trip -/

/-- What follows a value does not continue a number. -/
def EndsNumber (rest : List Char) : Prop := ∀ c ∈ rest.head?, isNumberChar c = false

theorem endsNumber_cons {c : Char} (h : isNumberChar c = false) (rest : List Char) :
    EndsNumber (c :: rest) := by
  rintro c' ⟨⟩
  exact h

theorem skipSpaces_cons {c : Char} (h : isSpace c = false) (rest : List Char) :
    skipSpaces (c :: rest) = c :: rest := by
  rw [skipSpaces, List.dropWhile_cons_of_neg (by simp [h])]

theorem parseNumber_number (n : Number) {rest : List Char} (hrest : EndsNumber rest) :
    parseNumber (n.text ++ rest) = some (.num n, rest) := by
  have hall := n.all_numberChar
  have hhead : rest.takeWhile isNumberChar = [] ∧ rest.dropWhile isNumberChar = rest := by
    cases rest with
    | nil => exact ⟨rfl, rfl⟩
    | cons c rest => simp [hrest c rfl]
  have htake : (n.text ++ rest).takeWhile isNumberChar = n.text := by
    rw [List.takeWhile_append_of_pos hall, hhead.1, List.append_nil]
  have hdrop : (n.text ++ rest).dropWhile isNumberChar = rest := by
    rw [List.dropWhile_append_of_pos hall, hhead.2]
  simp only [parseNumber, htake, hdrop, n.valid, dif_pos]

/-- A printed value does not start like the end of an array, nor with a space. -/
theorem print_head (value : Value) :
    ∃ c s, print value = c :: s ∧ isSpace c = false ∧ c ≠ ']' := by
  cases value with
  | null => exact ⟨_, _, rfl, by decide, by decide⟩
  | bool b => cases b <;> exact ⟨_, _, rfl, by decide, by decide⟩
  | num n =>
    obtain ⟨c, s, htext, hc⟩ := n.head
    refine ⟨c, s, by rw [print, htext], ?_, ?_⟩
    · rcases hc with hc | rfl
      · by_contra hspace
        rw [Bool.not_eq_false] at hspace
        simp only [isSpace, Bool.or_eq_true, decide_eq_true_eq] at hspace
        rcases hspace with ((rfl | rfl) | rfl) | rfl <;> exact absurd hc (by decide)
      · decide
    · rintro rfl
      rcases hc with hc | hc
      · exact absurd hc (by decide)
      · exact absurd hc (by decide)
  | str s => exact ⟨_, _, rfl, by decide, by decide⟩
  | arr items => cases items <;> exact ⟨_, _, rfl, by decide, by decide⟩
  | obj fields =>
    cases fields with
    | nil => exact ⟨_, _, rfl, by decide, by decide⟩
    | cons field fields => exact ⟨_, _, rfl, by decide, by decide⟩

theorem parseValue_number (n : Number) {fuel : Nat} {rest : List Char} (hrest : EndsNumber rest) :
    parseValue (fuel + 1) (n.text ++ rest) = some (.num n, rest) := by
  obtain ⟨c, s, hprint, hspace, _⟩ := print_head (.num n)
  rw [print] at hprint
  have hnumber := parseNumber_number n hrest
  obtain ⟨c', s', htext, hc⟩ := n.head
  rw [htext] at hprint
  cases hprint
  rw [htext, List.cons_append] at hnumber ⊢
  have hne : ∀ d ∈ ['n', 't', 'f', '"', '[', '{'], c ≠ d := by
    have hnot : ∀ d ∈ ['n', 't', 'f', '"', '[', '{'], isDigit d = false ∧ d ≠ '-' := by
      intro d hd
      fin_cases hd <;> decide
    rintro d hd rfl
    obtain ⟨hdigit, hminus⟩ := hnot c hd
    rcases hc with hc | hc
    · rw [hdigit] at hc
      cases hc
    · exact hminus hc
  rw [parseValue.eq_def]
  dsimp only
  rw [skipSpaces_cons hspace]
  split <;> simp_all

mutual

theorem parseValue_print (value : Value) (fuel : Nat) (rest : List Char)
    (hfuel : 2 * (print value).length + 1 ≤ fuel) (hrest : EndsNumber rest) :
    parseValue fuel (print value ++ rest) = some (value, rest) := by
  obtain ⟨fuel, rfl⟩ := Nat.exists_eq_add_of_le' (Nat.le_trans (Nat.le_add_left 1 _) hfuel)
  match value with
  | .null => simp [print, parseValue, skipSpaces_cons (show isSpace 'n' = false by decide)]
  | .bool true => simp [print, parseValue, skipSpaces_cons (show isSpace 't' = false by decide)]
  | .bool false => simp [print, parseValue, skipSpaces_cons (show isSpace 'f' = false by decide)]
  | .num n =>
    rw [print]
    exact parseValue_number n hrest
  | .str s =>
    simp [print, quote, parseValue, skipSpaces_cons (show isSpace '"' = false by decide),
      parseString_quote]
  | .arr [] =>
    simp [print, parseValue, skipSpaces_cons (show isSpace '[' = false by decide),
      skipSpaces_cons (show isSpace ']' = false by decide)]
  | .arr (item :: items) =>
    have hitems := parseItems_print item items fuel rest (by simp [print] at hfuel ⊢; omega)
    obtain ⟨c, s, hitem, hspace, hclosing⟩ := print_head item
    rw [hitem] at hitems
    simp only [List.cons_append, List.append_assoc] at hitems
    rw [print, hitem]
    simp only [List.cons_append, List.append_assoc]
    rw [parseValue, skipSpaces_cons (by decide)]
    simp only []
    rw [skipSpaces_cons hspace]
    split
    · next h => exact absurd (List.cons.inj h).1 hclosing
    · rw [hitems]
      rfl
  | .obj [] =>
    simp [print, parseValue, skipSpaces_cons (show isSpace '{' = false by decide),
      skipSpaces_cons (show isSpace '}' = false by decide)]
  | .obj ((key, value) :: fields) =>
    have hfields := parseFields_print key value fields fuel rest (by simp [print] at hfuel ⊢; omega)
    simp only [quote, List.cons_append, List.append_assoc] at hfields
    rw [print, quote]
    simp only [List.cons_append, List.append_assoc]
    rw [parseValue, skipSpaces_cons (by decide)]
    simp only []
    rw [skipSpaces_cons (by decide)]
    split
    · next h => exact absurd (List.cons.inj h).1 (by decide)
    · rw [hfields]
      rfl
termination_by fuel

theorem parseItems_print (item : Value) (items : List Value) (fuel : Nat) (rest : List Char)
    (hfuel : 2 * (print item ++ printItems items).length + 2 ≤ fuel) :
    parseItems fuel (print item ++ printItems items ++ rest) = some (item :: items, rest) := by
  obtain ⟨fuel, rfl⟩ := Nat.exists_eq_add_of_le' (Nat.le_trans (Nat.le_add_left 1 _) hfuel)
  rw [List.append_assoc]
  have hends : EndsNumber (printItems items ++ rest) := by
    cases items <;> exact endsNumber_cons (by decide) _
  have hitem := parseValue_print item fuel (printItems items ++ rest)
    (by simp at hfuel; omega) hends
  rw [parseItems, hitem]
  dsimp only
  match items with
  | [] =>
    rw [printItems, List.singleton_append, skipSpaces_cons (by decide)]
    rfl
  | next :: items =>
    have hitems := parseItems_print next items fuel rest
      (by simp [printItems] at hfuel ⊢; omega)
    rw [printItems, List.cons_append, skipSpaces_cons (by decide)]
    simp only []
    rw [hitems]
    rfl
termination_by fuel

theorem parseFields_print (key : List Char) (value : Value) (fields : List (List Char × Value))
    (fuel : Nat) (rest : List Char)
    (hfuel : 2 * (quote key ++ ':' :: (print value ++ printFields fields)).length + 2 ≤ fuel) :
    parseFields fuel (quote key ++ ':' :: (print value ++ printFields fields) ++ rest) =
      some ((key, value) :: fields, rest) := by
  obtain ⟨fuel, rfl⟩ := Nat.exists_eq_add_of_le' (Nat.le_trans (Nat.le_add_left 1 _) hfuel)
  have hends : EndsNumber (printFields fields ++ rest) := by
    cases fields <;> exact endsNumber_cons (by decide) _
  have hvalue := parseValue_print value fuel (printFields fields ++ rest)
    (by simp at hfuel; omega) hends
  rw [quote, parseFields]
  simp only [List.cons_append, List.append_assoc, List.nil_append]
  rw [skipSpaces_cons (by decide)]
  simp only []
  rw [parseString_quote]
  simp only []
  rw [skipSpaces_cons (by decide)]
  simp only []
  rw [hvalue]
  simp only []
  match fields with
  | [] =>
    rw [printFields, List.singleton_append, skipSpaces_cons (by decide)]
    rfl
  | (key', value') :: fields =>
    have hfields := parseFields_print key' value' fields fuel rest
      (by simp [printFields] at hfuel ⊢; omega)
    rw [printFields, List.cons_append, skipSpaces_cons (by decide)]
    simp only []
    rw [hfields]
    rfl
termination_by fuel

end

/-- Parsing undoes printing. -/
theorem parse_print (value : Value) : parse (print value) = some value := by
  have h := parseValue_print value (2 * (print value).length + 1) [] (Nat.le_refl _) (by simp [EndsNumber])
  rw [List.append_nil] at h
  rw [parse, h]
  simp [skipSpaces]

theorem print_injective {value value' : Value} (h : print value = print value') :
    value = value' := by
  have hparse := congrArg parse h
  rw [parse_print, parse_print] at hparse
  exact Option.some.inj hparse

end Json
