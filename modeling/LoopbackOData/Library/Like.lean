import Mathlib

/-!
# `LIKE` patterns

Patterns of literal characters, of wildcards for one character and of wildcards for any text, and
the texts that they match. Characters are compared after a folding, which is the identity where
case counts.
-/

namespace Like

set_option autoImplicit false

inductive Token where
  | exactly (c : Char)
  | one
  | many
  deriving DecidableEq, Repr

/-- The tokens of a pattern, a backslash taking away the meaning of what follows it. -/
def read : List Char → List Token
  | [] => []
  | ['\\'] => [.exactly '\\']
  | '\\' :: c :: pattern => .exactly c :: read pattern
  | '%' :: pattern => .many :: read pattern
  | '_' :: pattern => .one :: read pattern
  | c :: pattern => .exactly c :: read pattern

variable {α : Type} [DecidableEq α] (fold : Char → α)

def accepts : List Token → List Char → Bool
  | [], s => s.isEmpty
  | .exactly c :: tokens, d :: s => fold d = fold c && accepts tokens s
  | .one :: tokens, _ :: s => accepts tokens s
  | .many :: tokens, s => s.tails.any (accepts tokens)
  | _ :: _, [] => false

/-- `text LIKE pattern`. -/
def matchesText (pattern text : List Char) : Bool := accepts fold (read pattern) text

/-! ## What each part of a pattern matches -/

variable {fold}

theorem accepts_nil {s : List Char} : accepts fold [] s ↔ s = [] := by
  simp [accepts]

theorem accepts_many {tokens : List Token} {s : List Char} :
    accepts fold (.many :: tokens) s ↔ ∃ t, t <:+ s ∧ accepts fold tokens t := by
  cases s with
  | nil => simp [accepts]
  | cons d s =>
    rw [accepts, List.any_eq_true]
    simp only [List.mem_tails]

theorem accepts_many_nil (s : List Char) : accepts fold [.many] s := by
  rw [accepts_many]
  exact ⟨[], List.nil_suffix, accepts_nil.mpr rfl⟩

theorem accepts_exactly {lit : List Char} {tokens : List Token} {s : List Char} :
    accepts fold (lit.map .exactly ++ tokens) s ↔
      lit.map fold = (s.take lit.length).map fold ∧ accepts fold tokens (s.drop lit.length) := by
  induction lit generalizing s with
  | nil => simp
  | cons c lit ih =>
    cases s with
    | nil => simp [accepts]
    | cons d s =>
      have hstep : accepts fold ((c :: lit).map .exactly ++ tokens) (d :: s) ↔
          fold d = fold c ∧ accepts fold (lit.map .exactly ++ tokens) s := by
        simp [accepts]
      rw [hstep, ih]
      simp only [List.map_cons, List.length_cons, List.take_succ_cons, List.drop_succ_cons,
        List.cons.injEq, eq_comm (a := fold d), and_assoc]

theorem accepts_ones {n : Nat} {tokens : List Token} {s : List Char} :
    accepts fold (List.replicate n .one ++ tokens) s ↔
      n ≤ s.length ∧ accepts fold tokens (s.drop n) := by
  induction n generalizing s with
  | zero => simp
  | succ n ih =>
    cases s with
    | nil => simp [accepts, List.replicate_succ]
    | cons d s =>
      have hstep : accepts fold (List.replicate (n + 1) .one ++ tokens) (d :: s) ↔
          accepts fold (List.replicate n .one ++ tokens) s := by
        simp [accepts, List.replicate_succ]
      rw [hstep, ih, List.length_cons, List.drop_succ_cons, Nat.add_le_add_iff_right]

/-! ## Escaped literals -/

/-- A literal as a pattern that only it matches. -/
def escape (lit : List Char) : List Char :=
  lit.flatMap fun c => if c = '\\' || c = '%' || c = '_' then ['\\', c] else [c]

theorem read_escape (lit pattern : List Char) :
    read (escape lit ++ pattern) = lit.map .exactly ++ read pattern := by
  induction lit with
  | nil => rfl
  | cons c lit ih =>
    have hcons : escape (c :: lit) ++ pattern =
        (if c = '\\' || c = '%' || c = '_' then ['\\', c] else [c]) ++
          (escape lit ++ pattern) := by
      simp [escape]
    rw [hcons, List.map_cons, List.cons_append, ← ih]
    split
    · rfl
    · next h =>
      simp only [Bool.or_eq_true, decide_eq_true_eq, not_or] at h
      rw [List.singleton_append, read]
      · exact fun h' _ => h.1.1 h'
      · exact fun _ _ h' _ => h.1.1 h'
      · exact h.1.2
      · exact h.2

theorem read_replicate (n : Nat) (pattern : List Char) :
    read (List.replicate n '_' ++ pattern) = List.replicate n .one ++ read pattern := by
  induction n with
  | zero => rfl
  | succ n ih =>
    rw [List.replicate_succ, List.replicate_succ, List.cons_append, List.cons_append, ← ih]
    rfl

/-! ## The patterns of text search -/

theorem matchesText_prefix {lit s : List Char} :
    matchesText fold (escape lit ++ ['%']) s ↔ lit.map fold <+: s.map fold := by
  rw [matchesText, read_escape, accepts_exactly]
  simp only [read, accepts_many_nil, and_true]
  rw [List.prefix_iff_eq_take, List.length_map, List.map_take]

theorem matchesText_suffix {lit s : List Char} :
    matchesText fold ('%' :: escape lit) s ↔ lit.map fold <:+ s.map fold := by
  have hread : read ('%' :: escape lit) = .many :: (lit.map .exactly ++ []) := by
    rw [read, ← List.append_nil (escape lit), read_escape]
    rfl
  rw [matchesText, hread, accepts_many, List.suffix_map_iff]
  constructor
  · rintro ⟨t, ht, h⟩
    obtain ⟨heq, hnil⟩ := accepts_exactly.mp h
    rw [accepts_nil, List.drop_eq_nil_iff] at hnil
    rw [List.take_of_length_le hnil] at heq
    exact ⟨t, ht, heq⟩
  · rintro ⟨t, ht, heq⟩
    have hlength : lit.length = t.length := by simpa using congrArg List.length heq
    refine ⟨t, ht, accepts_exactly.mpr ?_⟩
    rw [hlength, List.take_length, List.drop_length, accepts_nil]
    exact ⟨heq, rfl⟩

theorem matchesText_infix {lit s : List Char} :
    matchesText fold ('%' :: escape lit ++ ['%']) s ↔ lit.map fold <:+: s.map fold := by
  have hread : read ('%' :: escape lit ++ ['%']) = .many :: (lit.map .exactly ++ [.many]) := by
    rw [List.cons_append, read, read_escape]
    rfl
  rw [matchesText, hread, accepts_many]
  constructor
  · rintro ⟨t, ht, h⟩
    have heq := (accepts_exactly.mp h).1
    rw [List.infix_map_iff]
    exact ⟨_, (List.take_prefix _ _).isInfix.trans ht.isInfix, heq⟩
  · intro h
    rw [List.infix_map_iff] at h
    obtain ⟨t, ⟨u, v, rfl⟩, heq⟩ := h
    have hlength : lit.length = t.length := by simpa using congrArg List.length heq
    refine ⟨t ++ v, ⟨u, by rw [List.append_assoc]⟩, accepts_exactly.mpr ?_⟩
    rw [hlength, List.take_left]
    exact ⟨heq, accepts_many_nil _⟩

/-- A literal at a fixed place, with nothing after it. -/
theorem matchesText_skip {n : Nat} {lit s : List Char} :
    matchesText fold (List.replicate n '_' ++ escape lit) s ↔
      s.length = n + lit.length ∧ lit.map fold = (s.drop n).map fold := by
  rw [matchesText, read_replicate, accepts_ones, ← List.append_nil (escape lit), read_escape,
    accepts_exactly, read, accepts_nil, List.drop_eq_nil_iff, List.length_drop]
  constructor
  · rintro ⟨hn, heq, hle⟩
    rw [List.take_of_length_le (by rw [List.length_drop]; exact hle)] at heq
    have hlength : lit.length = s.length - n := by simpa using congrArg List.length heq
    exact ⟨by omega, heq⟩
  · rintro ⟨hlength, heq⟩
    refine ⟨by omega, ?_, by omega⟩
    rw [List.take_of_length_le (by rw [List.length_drop]; omega)]
    exact heq

/-- A literal at a fixed place, with anything after it. -/
theorem matchesText_skip_append {n : Nat} {lit s : List Char} :
    matchesText fold (List.replicate n '_' ++ escape lit ++ ['%']) s ↔
      n ≤ s.length ∧ lit.map fold <+: (s.drop n).map fold := by
  rw [matchesText, List.append_assoc, read_replicate, accepts_ones]
  exact and_congr_right fun _ => matchesText_prefix

theorem matchesText_replicate {n : Nat} {s : List Char} :
    matchesText fold (List.replicate n '_') s ↔ s.length = n := by
  have h := @matchesText_skip _ _ fold n [] s
  simp only [escape, List.flatMap_nil, List.append_nil, List.length_nil, Nat.add_zero] at h
  rw [h, and_iff_left_iff_imp]
  rintro rfl
  simp

theorem matchesText_replicate_prefix {n : Nat} {s : List Char} :
    matchesText fold (List.replicate n '_' ++ ['%']) s ↔ n ≤ s.length := by
  have h := @matchesText_skip_append _ _ fold n [] s
  simpa [escape] using h

end Like
