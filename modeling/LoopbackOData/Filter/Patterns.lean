import LoopbackOData.Filter.WhereMeaning
import LoopbackOData.Library.Like
import LoopbackOData.Library.Outcome

/-!
# Text comparisons as patterns

What the comparisons of texts mean, and when the pattern that `buildWhere` makes of one is true of
the same texts.
-/

namespace LoopbackOData

set_option autoImplicit false

/-! ## The comparisons -/

/-- The case of characters: `fold` takes the variants of a character to one image, `convert` is
what `tolower` and `toupper` do. -/
structure Casing where
  fold : Char → Char
  convert : OperandTransform → Char → Char

/-- The folding that texts are compared after. -/
def Casing.folding (casing : Casing) (insensitive : Bool) : Char → Char :=
  if insensitive then casing.fold else id

def Casing.operand (casing : Casing) : Option OperandTransform → Char → Char
  | none => id
  | some transform => casing.convert transform

def StringPredicate.holds (name : StringPredicate) (arg s : Text) : Bool :=
  match name with
  | .contains => arg <:+: s
  | .startswith => arg <+: s
  | .endswith => arg <:+ s

/-- The position of the first occurrence, `-1` where there is none. -/
def indexOf (needle s : Text) : Int :=
  match s.tails.findIdx? (needle.isPrefixOf ·) with
  | some i => i
  | none => -1

def substring (s : Text) (start : Nat) : Option Nat → Text
  | none => s.drop start
  | some length => (s.drop start).take length

def Comparator.test (comparator : Comparator) (a b : Rat) : Bool :=
  match comparator with
  | .eq => a = b
  | .neq => a ≠ b
  | .gt => b < a
  | .gte => b ≤ a
  | .lt => a < b
  | .lte => a ≤ b
  | .inq => false
  | .nin => false

/-- The comparisons that become patterns, each with its truth on a text. -/
def Leaf.textComparison (casing : Casing) : Leaf → Option (Text → Bool)
  | .function name _ (.str arg) insensitive transform negated => some fun s =>
    let fold := casing.folding insensitive
    name.holds (arg.map fold) (s.map fun c => fold (casing.operand transform c)) != negated
  | .indexofcmp _ comparator value needle => some fun s =>
    comparator.test (indexOf (needle.map casing.fold) (s.map casing.fold)) value
  | .substrcmp _ start length comparator literal => some fun s =>
    (substring s start.num.toNat (length.map (·.num.toNat)) = literal) != (comparator = .neq)
  | .lengthcmp _ comparator value => some fun s => comparator.test s.length value
  | _ => none

/-- A database that compares texts by their characters and takes the patterns of `LIKE`, with a
backslash to escape. -/
structure Database.ReadsTexts (db : Database) (fold : Char → Char) : Prop where
  equal : ∀ field s t, db.compare field (.str s) (.str t) = .eq ↔ s = t
  like : ∀ pattern s, db.matchesPattern false pattern (.str s) = Like.matchesText id pattern s
  ilike : ∀ pattern s, db.matchesPattern true pattern (.str s) = Like.matchesText fold pattern s

/-! ## Texts under a folding -/

section Search

variable {α : Type} {f g : Char → α} {lit : Text}

theorem map_eq_iff_of_agree (h : ∀ c ∈ lit, ∀ d, f d = f c ↔ g d = f c) (t : Text) :
    lit.map f = t.map f ↔ lit.map f = t.map g := by
  induction lit generalizing t with
  | nil =>
    cases t with
    | nil => simp
    | cons d t => simp
  | cons c lit ih =>
    cases t with
    | nil => simp
    | cons d t =>
      have hhead := h c List.mem_cons_self d
      have htail := ih (fun c hc => h c (List.mem_cons_of_mem _ hc)) t
      rw [List.map_cons, List.map_cons, List.map_cons, List.cons.injEq, List.cons.injEq, htail,
        eq_comm, hhead, eq_comm]

/-- Where the texts that a search finds agree, so do the foldings on every character of the
literal: a text of the literal's length tells them apart. -/
theorem agree_of_map_eq_iff (h : ∀ t : Text, t.length = lit.length →
      (lit.map f = t.map f ↔ lit.map f = t.map g)) :
    ∀ c ∈ lit, ∀ d, f d = f c ↔ g d = f c := by
  have hself : lit.map f = lit.map g := (h lit rfl).mp rfl
  have hgf : ∀ c ∈ lit, g c = f c := by
    intro c hc
    exact (List.map_inj_left.mp hself c hc).symm
  intro c hc d
  obtain ⟨u, v, rfl⟩ := List.append_of_mem hc
  have ht := h (u ++ d :: v) (by simp)
  have hu : u.map g = u.map f :=
    List.map_congr_left fun c hc => hgf c (List.mem_append_left _ hc)
  have hv : v.map g = v.map f :=
    List.map_congr_left fun c hc => hgf c (List.mem_append_right _ (List.mem_cons_of_mem _ hc))
  simp only [List.map_append, List.map_cons, hu, hv, List.append_cancel_left_eq,
    List.cons.injEq, and_true] at ht
  rw [eq_comm, ht, eq_comm]

end Search

/-- Where a predicate finds a literal. -/
def StringPredicate.Part : StringPredicate → Text → Text → Prop
  | .contains, t, s => t <:+: s
  | .startswith, t, s => t <+: s
  | .endswith, t, s => t <:+ s

theorem StringPredicate.holds_map_iff {name : StringPredicate} {arg s : Text} {g : Char → Char} :
    name.holds arg (s.map g) ↔ ∃ t, name.Part t s ∧ arg = t.map g := by
  cases name with
  | contains => simp [holds, Part, List.infix_map_iff]
  | startswith => simp [holds, Part, List.prefix_map_iff]
  | endswith => simp [holds, Part, List.suffix_map_iff]

theorem StringPredicate.holds_of_length {name : StringPredicate} {arg s : Text}
    (h : arg.length = s.length) : name.holds arg s ↔ arg = s := by
  cases name with
  | contains =>
    simp only [holds, decide_eq_true_eq]
    exact ⟨fun hin => hin.eq_of_length h, fun heq => heq ▸ List.infix_refl _⟩
  | startswith =>
    simp only [holds, decide_eq_true_eq]
    exact ⟨fun hin => hin.eq_of_length h, fun heq => heq ▸ List.prefix_refl _⟩
  | endswith =>
    simp only [holds, decide_eq_true_eq]
    exact ⟨fun hin => hin.eq_of_length h, fun heq => heq ▸ List.suffix_refl _⟩

/-- Two foldings of the searched texts find a literal in the same texts exactly if they agree on
what becomes a character of it. -/
theorem StringPredicate.holds_agree_iff {name : StringPredicate} {lit : Text} {f g : Char → Char} :
    (∀ s : Text, name.holds (lit.map f) (s.map f) ↔ name.holds (lit.map f) (s.map g)) ↔
      ∀ c ∈ lit, ∀ d, f d = f c ↔ g d = f c := by
  constructor
  · intro h
    apply agree_of_map_eq_iff
    intro t ht
    have hf : (lit.map f).length = (t.map f).length := by simp [ht]
    have hg : (lit.map f).length = (t.map g).length := by simp [ht]
    rw [← holds_of_length hf, ← holds_of_length hg]
    exact h t
  · intro h s
    rw [holds_map_iff, holds_map_iff]
    simp only [map_eq_iff_of_agree h]

theorem indexOf_nonneg_iff {needle s : Text} : 0 ≤ indexOf needle s ↔ needle <:+: s := by
  rw [indexOf, List.infix_iff_prefix_suffix]
  cases h : s.tails.findIdx? (needle.isPrefixOf ·) with
  | none =>
    simp only [Int.reduceNeg, Int.reduceLE, false_iff]
    rintro ⟨t, hstarts, hsuffix⟩
    rw [List.findIdx?_eq_none_iff] at h
    have := h t ((List.mem_tails _ _).mpr hsuffix)
    rw [List.isPrefixOf_iff_prefix.mpr hstarts] at this
    cases this
  | some i =>
    have hle : (0 : Int) ≤ i := Int.natCast_nonneg i
    simp only [hle, true_iff]
    obtain ⟨hi, hstarts, _⟩ := List.findIdx?_eq_some_iff_getElem.mp h
    exact ⟨_, List.isPrefixOf_iff_prefix.mp hstarts, (List.mem_tails _ _).mp (List.getElem_mem hi)⟩

theorem indexOf_self (s : Text) : indexOf s s = 0 := by
  cases s with
  | nil => rfl
  | cons c s => simp [indexOf, List.tails, List.findIdx?_cons]

theorem neg_one_le_indexOf (needle s : Text) : -1 ≤ indexOf needle s := by
  rw [indexOf]
  split <;> omega

/-! ## The patterns -/

/-- The comparisons whose pattern means what they mean. A search under a case conversion has to
find the characters that the folding finds; a position can only be asked for by its sign; what a
substring is compared with has the length of the substring, and is empty only at the start. -/
def Leaf.KeepsMeaning (casing : Casing) : Leaf → Prop
  | .function _ _ (.str arg) insensitive transform _ => ∀ c ∈ arg, ∀ d,
    casing.folding insensitive d = casing.folding insensitive c ↔
      casing.folding insensitive (casing.operand transform d) = casing.folding insensitive c
  | .indexofcmp _ comparator value _ =>
    (comparator = .gte → value = 0) ∧ (comparator = .gt → value < 0)
  | .substrcmp _ start length _ literal =>
    (literal ≠ [] ∨ start = 0) ∧ ∀ n ∈ length, n = literal.length
  | _ => True

theorem of_assertSafe {options : ParseOptions} {field : Text} {α : Type}
    {rest : Except FilterError α} {a : α}
    (h : (do assertSafeFilterFieldName options field; rest) = .ok a) : rest = .ok a := by
  obtain ⟨_, _, h⟩ := Outcome.bind_eq_ok.mp h
  exact h

theorem isInteger_eq {q : Rat} (h : ¬ (q < 0 || !isInteger q) = true) :
    ∃ n : Nat, q = n ∧ q.num.toNat = n := by
  simp only [isInteger, Bool.or_eq_true, decide_eq_true_eq, Bool.not_eq_true', decide_eq_false_iff_not,
    not_or, not_lt, not_not] at h
  obtain ⟨n, hn⟩ := Int.eq_ofNat_of_zero_le (Rat.num_nonneg.mpr h.1)
  refine ⟨n, ?_, by rw [hn]; rfl⟩
  rw [← Rat.num_div_den q, h.2, hn]
  simp

theorem bne_iff_bne {a b : Bool} (negated : Bool) :
    ((a != negated) = true ↔ (b != negated) = true) ↔ (a = true ↔ b = true) := by
  cases a <;> cases b <;> cases negated <;> simp

theorem escapeLikeLiteral_eq (s : Text) : escapeLikeLiteral s = Like.escape s := rfl

theorem checkSubstringStart_ok {options : ParseOptions} {start : Rat}
    (h : checkSubstringStart options start = .ok ()) :
    ∃ n : Nat, start = n ∧ start.num.toNat = n := by
  rw [checkSubstringStart] at h
  split at h
  · cases h
  · next hint => exact isInteger_eq hint

theorem checkSubstringLength_ok {options : ParseOptions} {length : Rat}
    (h : checkSubstringLength options (some length) = .ok ()) :
    ∃ n : Nat, length = n ∧ length.num.toNat = n := by
  rw [checkSubstringLength] at h
  split at h
  · cases h
  · next hint => exact isInteger_eq hint

theorem checkLength_ok {value : Rat} (h : checkLength value = .ok ()) :
    ∃ n : Nat, value = n ∧ value.num.toNat = n := by
  rw [checkLength] at h
  split at h
  · cases h
  · next hneg =>
    split at h
    · cases h
    · next hint => exact isInteger_eq (by simpa [hneg] using hint)

theorem underscorePattern_ok {options : ParseOptions} {n : Nat} {pattern : Text}
    (h : underscorePattern options n = .ok pattern) : pattern = List.replicate n '_' := by
  rw [underscorePattern] at h
  split at h
  · cases h
  · split at h
    · cases h
    · cases h
      rfl

/-- Skipping characters and comparing the rest. -/
theorem matchesText_substring_iff {n : Nat} {literal : Text} :
    (∀ s, Like.matchesText id (List.replicate n '_' ++ Like.escape literal) s ↔
      substring s n none = literal) ↔ literal ≠ [] ∨ n = 0 := by
  simp only [Like.matchesText_skip, List.map_id, substring]
  constructor
  · intro h
    by_contra hnot
    rw [not_or, not_not] at hnot
    have hempty := (h []).mpr (by rw [hnot.1, List.drop_nil])
    rw [hnot.1] at hempty
    exact hnot.2 (by simpa using hempty.1.symm)
  · intro h s
    constructor
    · rintro ⟨_, heq⟩
      exact heq.symm
    · rintro rfl
      rcases h with hne | rfl
      · have hlt : n < s.length := by
          by_contra hnot
          exact hne (List.drop_eq_nil_of_le (not_lt.mp hnot))
        rw [List.length_drop]
        exact ⟨by omega, rfl⟩
      · simp

theorem matchesText_substring_prefix_iff {n m : Nat} {literal : Text} :
    (∀ s, Like.matchesText id (List.replicate n '_' ++ Like.escape literal ++ ['%']) s ↔
      substring s n (some m) = literal) ↔ (literal ≠ [] ∨ n = 0) ∧ m = literal.length := by
  simp only [Like.matchesText_skip_append, List.map_id, substring]
  constructor
  · intro h
    constructor
    · by_contra hnot
      rw [not_or, not_not] at hnot
      have hempty := (h []).mpr (by rw [hnot.1, List.drop_nil, List.take_nil])
      exact hnot.2 (by simpa using hempty.1)
    · have hlonger := (h (List.replicate n 'x' ++ (literal ++ ['x']))).mp (by
        rw [List.drop_left' List.length_replicate]
        exact ⟨by simp, List.prefix_append _ _⟩)
      rw [List.drop_left' List.length_replicate] at hlonger
      have hlength := congrArg List.length hlonger
      simp only [List.length_take, List.length_append, List.length_singleton] at hlength
      omega
  · rintro ⟨h, rfl⟩ s
    rw [List.prefix_iff_eq_take, eq_comm (a := literal)]
    constructor
    · exact And.right
    · intro heq
      refine ⟨?_, heq⟩
      rcases h with hne | rfl
      · by_contra hnot
        rw [List.drop_eq_nil_of_le (by omega), List.take_nil] at heq
        exact hne heq.symm
      · exact Nat.zero_le _

namespace Database

variable {db : Database} {casing : Casing} (hdb : db.ReadsTexts casing.fold)
include hdb

theorem condition_like {negated insensitive : Bool} {pattern s : Text} {field : Text} :
    db.condition field (.str s) (.like negated pattern insensitive) = some .true ↔
      (Like.matchesText (casing.folding insensitive) pattern s != negated) = true := by
  have hmatch : db.matchesPattern insensitive pattern (.str s) =
      Like.matchesText (casing.folding insensitive) pattern s := by
    cases insensitive with
    | false => exact hdb.like pattern s
    | true => exact hdb.ilike pattern s
  rw [condition, matching, hmatch]
  simp only [Scalar.isNullish, Bool.false_eq_true, if_false, Option.some.injEq]
  cases Like.matchesText (casing.folding insensitive) pattern s != negated <;>
    simp [ThreeValued.Truth.ofBool]

theorem condition_equals {s t : Text} {field : Text} :
    db.condition field (.str s) (.equals (.str t)) = some .true ↔ s = t := by
  rw [condition, equals, if_neg (by simp), comparison]
  · simp only [Scalar.isNullish, Bool.or_self, Bool.false_eq_true, if_false, Option.some.injEq]
    rw [← hdb.equal field]
    cases db.compare field (.str s) (.str t) <;> simp [ThreeValued.Truth.ofBool]
  · simp

theorem condition_neq {s t : Text} {field : Text} :
    db.condition field (.str s) (.operator .neq (.single (.str t))) = some .true ↔ s ≠ t := by
  rw [condition, operator, equals, if_neg (by simp), comparison, Ne, ← hdb.equal field]
  simp only [Scalar.isNullish, Bool.or_self, Bool.false_eq_true, if_false, Option.some.injEq]
  cases db.compare field (.str s) (.str t) <;>
    simp [ThreeValued.Truth.ofBool, ThreeValued.Truth.not]

/-- The conditions of a predicate and of its translation hold of the same texts. -/
def SameTexts (db : Database) (field : Text) (condition : Condition) (holds : Text → Bool) : Prop :=
  ∀ s, db.condition field (.str s) condition = some .true ↔ holds s = true

theorem sameTexts_function {name : StringPredicate} {field arg : Text} {insensitive negated : Bool}
    {transform : Option OperandTransform} :
    db.SameTexts field (.like negated (likePattern name (escapeLikeLiteral arg)) insensitive)
        (fun s => name.holds (arg.map (casing.folding insensitive))
          (s.map fun c => casing.folding insensitive (casing.operand transform c)) != negated) ↔
      ∀ c ∈ arg, ∀ d, casing.folding insensitive d = casing.folding insensitive c ↔
        casing.folding insensitive (casing.operand transform d) =
          casing.folding insensitive c := by
  have hlike (s : Text) :
      Like.matchesText (casing.folding insensitive) (likePattern name (escapeLikeLiteral arg)) s ↔
        name.holds (arg.map (casing.folding insensitive)) (s.map (casing.folding insensitive)) := by
    cases name with
    | contains =>
      rw [StringPredicate.holds, decide_eq_true_eq]
      exact Like.matchesText_infix
    | startswith =>
      rw [StringPredicate.holds, decide_eq_true_eq]
      exact Like.matchesText_prefix
    | endswith =>
      rw [StringPredicate.holds, decide_eq_true_eq]
      exact Like.matchesText_suffix
  rw [← @StringPredicate.holds_agree_iff name, SameTexts]
  apply forall_congr'
  intro s
  rw [condition_like hdb, bne_iff_bne, hlike]

theorem sameTexts_indexOf {options : ParseOptions} {field needle : Text} {comparator : Comparator}
    {value : Rat} {w : Where} (h : buildIndexOf options field comparator value needle = .ok w) :
    ∃ condition, w = .property field condition ∧
      (db.SameTexts field condition (fun s =>
          comparator.test (indexOf (needle.map casing.fold) (s.map casing.fold)) value) ↔
        (comparator = .gte → value = 0) ∧ (comparator = .gt → value < 0)) := by
  replace h := of_assertSafe h
  dsimp only at h
  have hlike (s : Text) :
      Like.matchesText (casing.folding true) ('%' :: escapeLikeLiteral needle ++ ['%']) s ↔
        0 ≤ indexOf (needle.map casing.fold) (s.map casing.fold) := by
    rw [indexOf_nonneg_iff]
    exact Like.matchesText_infix
  split at h
  · next hcomparator =>
    cases h
    refine ⟨_, rfl, ?_⟩
    simp only [SameTexts, condition_like hdb, Bool.bne_false, hlike]
    constructor
    · intro hsame
      have hself := hsame needle
      rw [indexOf_self] at hself
      rcases hcomparator with ⟨rfl, hvalue⟩ | ⟨rfl, hvalue⟩
      · have := hself.mp (le_refl 0)
        simp only [Comparator.test, Int.cast_zero, decide_eq_true_eq] at this
        refine ⟨fun _ => le_antisymm this hvalue, fun h => ?_⟩
        cases h
      · have := hself.mp (le_refl 0)
        simp only [Comparator.test, Int.cast_zero, decide_eq_true_eq] at this
        refine ⟨fun h => ?_, fun _ => this⟩
        cases h
    · rintro ⟨hgte, hgt⟩ s
      rcases hcomparator with ⟨rfl, hvalue⟩ | ⟨rfl, hvalue⟩
      · rw [hgte rfl]
        rw [Comparator.test, decide_eq_true_eq]
        exact_mod_cast Iff.rfl
      · have hneg := hgt rfl
        simp only [Comparator.test, decide_eq_true_eq]
        constructor
        · intro hindex
          exact lt_of_lt_of_le hneg (by exact_mod_cast hindex)
        · intro hindex
          by_contra hnot
          have hle : indexOf (needle.map casing.fold) (s.map casing.fold) ≤ -1 := by omega
          have : ((indexOf (needle.map casing.fold) (s.map casing.fold) : Int) : Rat) ≤ -1 := by
            exact_mod_cast hle
          exact lt_irrefl _ (lt_of_lt_of_le hindex (le_trans this hvalue))
  · split at h
    · next hcomparator =>
      obtain ⟨rfl, rfl⟩ := hcomparator
      cases h
      refine ⟨_, rfl, ?_⟩
      simp only [reduceCtorEq, false_implies, and_self, iff_true, SameTexts, condition_like hdb,
        Bool.bne_true, Bool.not_eq_true', ← Bool.not_eq_true, hlike, Comparator.test,
        decide_eq_true_eq]
      intro s
      have hge := neg_one_le_indexOf (needle.map casing.fold) (s.map casing.fold)
      constructor
      · intro hnot
        have heq : indexOf (needle.map casing.fold) (s.map casing.fold) = -1 := by omega
        rw [heq]
        rfl
      · intro heq
        have heq : indexOf (needle.map casing.fold) (s.map casing.fold) = -1 := by
          exact_mod_cast heq
        omega
    · cases h

theorem sameTexts_substring {options : ParseOptions} {field literal : Text} {start : Rat}
    {length : Option Rat} {comparator : Equality} {w : Where}
    (h : buildSubstring options field start length comparator literal = .ok w) :
    ∃ condition, w = .property field condition ∧
      (db.SameTexts field condition (fun s =>
          (substring s start.num.toNat (length.map (·.num.toNat)) = literal) !=
            (comparator = .neq)) ↔
        (literal ≠ [] ∨ start = 0) ∧ ∀ n ∈ length, n = literal.length) := by
  replace h := of_assertSafe h
  obtain ⟨_, hstart, h⟩ := Outcome.bind_eq_ok.mp h
  obtain ⟨_, hlength, h⟩ := Outcome.bind_eq_ok.mp h
  cases h
  refine ⟨_, rfl, ?_⟩
  obtain ⟨n, rfl, hn⟩ := checkSubstringStart_ok hstart
  have hzero : ((n : Rat) = 0) ↔ n = 0 := by exact_mod_cast Iff.rfl
  simp only [SameTexts, condition_like hdb, bne_iff_bne, decide_eq_true_eq, hn, hzero]
  cases length with
  | none =>
    have h := @matchesText_substring_iff n literal
    simpa [Casing.folding, escapeLikeLiteral_eq] using h
  | some length =>
    obtain ⟨m, rfl, hm⟩ := checkSubstringLength_ok hlength
    have h := @matchesText_substring_prefix_iff n m literal
    simpa [Casing.folding, escapeLikeLiteral_eq, hm] using h

/-- The conditions on the length of a text. -/
theorem sameTexts_length {options : ParseOptions} {field : Text} {comparator : Comparator}
    {value : Rat} {w : Where}
    (h : translateLengthComparison options field comparator value = .ok w) :
    ∃ condition, w = .property field condition ∧
      db.SameTexts field condition (fun s => comparator.test s.length value) := by
  replace h := of_assertSafe h
  obtain ⟨_, hcheck, hlength⟩ := Outcome.bind_eq_ok.mp h
  obtain ⟨n, rfl, _⟩ := checkLength_ok hcheck
  clear h
  have hzero : ((n : Rat) = 0) ↔ n = 0 := by exact_mod_cast Iff.rfl
  have hsucc : (n : Rat) + 1 = (n + 1 : Nat) := by push_cast; rfl
  have hempty {test : Text → Bool} (htest : ∀ s, test s = true ↔ s = []) :
      ∃ condition, Where.property field (.equals (.str [])) = .property field condition ∧
        db.SameTexts field condition test :=
    ⟨_, rfl, fun s => (condition_equals hdb).trans (htest s).symm⟩
  have hnonempty {test : Text → Bool} (htest : ∀ s, test s = true ↔ s ≠ []) :
      ∃ condition, Where.property field (.operator .neq (.single (.str []))) =
          .property field condition ∧ db.SameTexts field condition test :=
    ⟨_, rfl, fun s => (condition_neq hdb).trans (htest s).symm⟩
  have hpattern {k : Nat} {negated : Bool} {shape : Text → Text} {test : Text → Bool}
      (h : (underscorePattern options k).map (fun pattern =>
        Where.property field (.like negated (shape pattern) false)) = .ok w)
      (htest : ∀ s, (Like.matchesText id (shape (List.replicate k '_')) s != negated) = true ↔
        test s = true) :
      ∃ condition, w = .property field condition ∧ db.SameTexts field condition test := by
    cases hunderscores : underscorePattern options k with
    | error e =>
      rw [hunderscores] at h
      cases h
    | ok pattern =>
      rw [hunderscores] at h
      cases h
      refine ⟨_, rfl, fun s => ?_⟩
      rw [condition_like hdb, underscorePattern_ok hunderscores, ← htest]
      rfl
  unfold lengthWhere at hlength
  cases comparator with
  | eq =>
    dsimp only at hlength
    split at hlength
    · next hvalue =>
      cases hlength
      exact hempty fun s => by simp [Comparator.test, hvalue]
    · refine hpattern hlength fun s => ?_
      simp [Like.matchesText_replicate, Comparator.test]
  | neq =>
    dsimp only at hlength
    split at hlength
    · next hvalue =>
      cases hlength
      exact hnonempty fun s => by simp [Comparator.test, hvalue]
    · refine hpattern hlength fun s => ?_
      simp [← Bool.not_eq_true, Like.matchesText_replicate, Comparator.test]
  | gt =>
    dsimp only at hlength
    split at hlength
    · next hvalue =>
      cases hlength
      exact hnonempty fun s => by simp [Comparator.test, hvalue, List.length_pos_iff]
    · rw [hsucc] at hlength
      refine hpattern hlength fun s => ?_
      simp [Like.matchesText_replicate_prefix, Comparator.test]
  | gte =>
    dsimp only at hlength
    split at hlength
    · next hvalue =>
      cases hlength
      refine ⟨_, rfl, fun s => ?_⟩
      have hn : n = 0 := by exact_mod_cast le_antisymm hvalue (Nat.cast_nonneg n)
      rw [condition_like hdb]
      simp [hn, Comparator.test, Like.matchesText, Like.read, Like.accepts_many_nil]
    · refine hpattern hlength fun s => ?_
      simp [Like.matchesText_replicate_prefix, Comparator.test]
  | lt =>
    refine hpattern hlength fun s => ?_
    simp [← Bool.not_eq_true, Like.matchesText_replicate_prefix, Comparator.test]
  | lte =>
    dsimp only at hlength
    split at hlength
    · next hvalue =>
      cases hlength
      exact hempty fun s => by simp [Comparator.test, hvalue]
    · rw [hsucc] at hlength
      refine hpattern hlength fun s => ?_
      simp [← Bool.not_eq_true, Like.matchesText_replicate_prefix, Comparator.test]
  | inq => cases hlength
  | nin => cases hlength

end Database

/-- Case on ASCII letters. -/
def asciiCasing : Casing where
  fold := Char.toLower
  convert
    | .tolower => Char.toLower
    | .toupper => Char.toUpper

/-- A database of texts, with the patterns of `LIKE`. -/
def textDatabase (fold : Char → Char) : Database where
  compare _ stored literal := if stored = literal then .eq else .lt
  matchesPattern insensitive pattern
    | .str s => if insensitive then Like.matchesText fold pattern s
      else Like.matchesText id pattern s
    | _ => false

theorem readsTexts_textDatabase (fold : Char → Char) : (textDatabase fold).ReadsTexts fold where
  equal _ _ _ := by simp [textDatabase]
  like _ _ := rfl
  ilike _ _ := rfl

/-- `contains(name,'50%_a\b')`: wildcards and backslashes of the literal are none of the pattern. -/
def sampleContains : Leaf :=
  .function .contains "name".toList (.str "50%_a\\b".toList) true none false

/-- `substring(code,0,3) eq 'ab'` becomes `code LIKE 'ab%'`, which is true of `abc`. -/
def sampleSubstring : Leaf := .substrcmp "code".toList 0 (some 3) .eq "ab".toList

end LoopbackOData
