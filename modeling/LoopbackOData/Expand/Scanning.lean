import LoopbackOData.Expand.Parser

/-!
# Quotes and parentheses

The scanners of the `$expand` parser find again the pieces that were joined, if quotes and
parentheses are closed in each piece.
-/

namespace LoopbackOData

namespace Expand

set_option autoImplicit false

/-! ## Closed texts -/

/-- One character; the state is whether it is in a string and how many parentheses are open. It has
no next state at the delimiter outside strings and parentheses, or where no parenthesis is open to
be closed. -/
def scanStep (delimiter : Option Char) (state : Bool × Nat) (c : Char) : Option (Bool × Nat) :=
  if c = '\'' then some (!state.1, state.2)
  else if state.1 then some state
  else if c = '(' then some (false, state.2 + 1)
  else if c = ')' then if state.2 = 0 then none else some (false, state.2 - 1)
  else if some c = delimiter ∧ state.2 = 0 then none
  else some (false, state.2)

def scan (delimiter : Option Char) (state : Bool × Nat) (text : Text) : Option (Bool × Nat) :=
  text.foldlM (scanStep delimiter) state

/-- Quotes and parentheses are closed, and the delimiter is only inside them. -/
def Closed (delimiter : Option Char) (text : Text) : Prop :=
  scan delimiter (false, 0) text = some (false, 0)

/-- A character that no scanner stops at. -/
def isPlain (delimiter : Option Char) (c : Char) : Bool :=
  c ≠ '\'' && c ≠ '(' && c ≠ ')' && some c ≠ delimiter

section Scans

variable {delimiter delimiter' : Option Char} {state state' : Bool × Nat} {text text' : Text}

theorem scan_cons (c : Char) :
    scan delimiter state (c :: text) =
      (scanStep delimiter state c).bind fun next => scan delimiter next text :=
  List.foldlM_cons

theorem scan_append :
    scan delimiter state (text ++ text') =
      (scan delimiter state text).bind fun next => scan delimiter next text' :=
  List.foldlM_append

/-- What a scanner passes it passes inside further parentheses, whatever the delimiter. -/
theorem scanStep_deeper {c : Char} {more : Nat} (hmore : 0 < more)
    (h : scanStep delimiter state c = some state') :
    scanStep delimiter' (state.1, state.2 + more) c = some (state'.1, state'.2 + more) := by
  unfold scanStep at h ⊢
  by_cases hquote : c = '\''
  · rw [if_pos hquote] at h ⊢
    obtain rfl := Option.some.inj h
    rfl
  rw [if_neg hquote] at h ⊢
  by_cases hin : state.1 = true
  · rw [if_pos hin] at h ⊢
    obtain rfl := Option.some.inj h
    rfl
  rw [if_neg hin] at h ⊢
  by_cases hopen : c = '('
  · rw [if_pos hopen] at h ⊢
    obtain rfl := Option.some.inj h
    rw [Nat.add_right_comm]
  rw [if_neg hopen] at h ⊢
  by_cases hclose : c = ')'
  · rw [if_pos hclose] at h ⊢
    by_cases hzero : state.2 = 0
    · rw [if_pos hzero] at h
      cases h
    · rw [if_neg hzero] at h
      obtain rfl := Option.some.inj h
      have hpositive : ¬ state.2 + more = 0 := by omega
      rw [if_neg hpositive]
      have hsub : state.2 + more - 1 = state.2 - 1 + more := by omega
      rw [hsub]
  rw [if_neg hclose] at h ⊢
  have hnot : ¬ (some c = delimiter' ∧ state.2 + more = 0) := by omega
  rw [if_neg hnot]
  split at h
  · cases h
  · obtain rfl := Option.some.inj h
    rfl

theorem scan_deeper {more : Nat} (hmore : 0 < more)
    (h : scan delimiter state text = some state') :
    scan delimiter' (state.1, state.2 + more) text = some (state'.1, state'.2 + more) := by
  induction text generalizing state with
  | nil =>
    obtain rfl := Option.some.inj h
    rfl
  | cons c text ih =>
    rw [scan_cons] at h ⊢
    obtain ⟨next, hnext, h⟩ := Option.bind_eq_some_iff.mp h
    rw [scanStep_deeper hmore hnext]
    exact ih h

/-- A text in parentheses is closed for every delimiter. -/
theorem closed_group (h : Closed delimiter text) : Closed delimiter' ('(' :: text ++ [')']) := by
  have hinside : scan delimiter' (false, 1) text = some (false, 1) :=
    scan_deeper Nat.one_pos h
  rw [Closed, List.cons_append, scan_cons]
  change scan delimiter' (false, 1) (text ++ [')']) = _
  rw [scan_append, hinside]
  rfl

theorem scanStep_of_isPlain {c : Char} {depth : Nat} (h : isPlain delimiter c = true) :
    scanStep delimiter (false, depth) c = some (false, depth) := by
  simp only [isPlain, Bool.and_eq_true, decide_eq_true_eq] at h
  obtain ⟨⟨⟨hquote, hopen⟩, hclose⟩, hdelimiter⟩ := h
  rw [scanStep, if_neg hquote, if_neg Bool.false_ne_true, if_neg hopen, if_neg hclose,
    if_neg fun hboth => hdelimiter hboth.1]

theorem closed_of_isPlain (h : ∀ c ∈ text, isPlain delimiter c = true) : Closed delimiter text := by
  induction text with
  | nil => rfl
  | cons c text ih =>
    rw [Closed, scan_cons, scanStep_of_isPlain (h c List.mem_cons_self)]
    exact ih fun d hd => h d (List.mem_cons_of_mem c hd)

theorem Closed.append (h : Closed delimiter text) (h' : Closed delimiter text') :
    Closed delimiter (text ++ text') := by
  rw [Closed, scan_append, h]
  exact h'

theorem closed_intercalate {sep : Char} {pieces : List Text} (hsep : isPlain delimiter sep = true)
    (h : ∀ piece ∈ pieces, Closed delimiter piece) :
    Closed delimiter ([sep].intercalate pieces) := by
  induction pieces with
  | nil => rfl
  | cons piece pieces ih =>
    have hrest := ih fun q hq => h q (List.mem_cons_of_mem piece hq)
    cases pieces with
    | nil =>
      rw [List.intercalate_singleton]
      exact h piece List.mem_cons_self
    | cons next pieces =>
      rw [List.intercalate_cons_cons]
      refine ((h piece List.mem_cons_self).append (closed_of_isPlain ?_)).append hrest
      intro c hc
      rw [List.mem_singleton.mp hc]
      exact hsep

theorem scanStep_none {c : Char} (h : scanStep delimiter state c = some state') :
    scanStep none state c = some state' := by
  unfold scanStep at h ⊢
  by_cases hquote : c = '\''
  · rwa [if_pos hquote] at h ⊢
  rw [if_neg hquote] at h ⊢
  by_cases hin : state.1 = true
  · rwa [if_pos hin] at h ⊢
  rw [if_neg hin] at h ⊢
  by_cases hopen : c = '('
  · rwa [if_pos hopen] at h ⊢
  rw [if_neg hopen] at h ⊢
  by_cases hclose : c = ')'
  · rwa [if_pos hclose] at h ⊢
  rw [if_neg hclose] at h ⊢
  split at h
  · cases h
  · rwa [if_neg (by simp)]

theorem scan_none (h : scan delimiter state text = some state') :
    scan none state text = some state' := by
  induction text generalizing state with
  | nil => exact h
  | cons c text ih =>
    rw [scan_cons] at h ⊢
    obtain ⟨next, hnext, h⟩ := Option.bind_eq_some_iff.mp h
    rw [scanStep_none hnext]
    exact ih h

theorem Closed.none (h : Closed delimiter text) : Closed Option.none text := scan_none h

end Scans

/-! ## Cutting -/

section Cutting

variable {delimiter : Char} {inString : Bool} {depth : Nat} {current rest : Text}

theorem splitTopLevelFrom_quote :
    splitTopLevelFrom delimiter inString depth current ('\'' :: rest) =
      splitTopLevelFrom delimiter (!inString) depth (current ++ ['\'']) rest := by
  have hopening (current rest : Text) :
      splitTopLevelFrom delimiter false depth current ('\'' :: rest) =
        splitTopLevelFrom delimiter true depth (current ++ ['\'']) rest := by
    cases rest with
    | nil => rfl
    | cons c rest =>
      by_cases hc : c = '\''
      · rw [hc, splitTopLevelFrom, if_neg Bool.false_ne_true]
      · rw [splitTopLevelFrom, if_pos rfl]
        · rfl
        · exact fun rest' _ heq => hc (List.cons.inj heq).1
  cases inString with
  | false => exact hopening current rest
  | true =>
    cases rest with
    | nil => rfl
    | cons c rest =>
      by_cases hc : c = '\''
      · rw [hc, splitTopLevelFrom, if_pos rfl, Bool.not_true, hopening, List.append_assoc]
        rfl
      · rw [splitTopLevelFrom, if_pos rfl]
        exact fun rest' _ heq => hc (List.cons.inj heq).1

theorem splitTopLevelFrom_cons {c : Char} (hquote : c ≠ '\'') :
    splitTopLevelFrom delimiter inString depth current (c :: rest) =
      if inString then splitTopLevelFrom delimiter true depth (current ++ [c]) rest
      else if c = '(' then splitTopLevelFrom delimiter false (depth + 1) (current ++ [c]) rest
      else if c = ')' then
        if depth = 0 then fail "Malformed expand expression: unmatched closing parenthesis."
        else splitTopLevelFrom delimiter false (depth - 1) (current ++ [c]) rest
      else if c = delimiter ∧ depth = 0 then do
        return pushTrimmed current (← splitTopLevelFrom delimiter false 0 [] rest)
      else splitTopLevelFrom delimiter false depth (current ++ [c]) rest := by
  rw [splitTopLevelFrom, if_neg hquote]
  exact fun rest' heq _ => hquote heq

/-- What the scanner passes becomes part of the current piece. -/
theorem splitTopLevelFrom_step {c : Char} {state : Bool × Nat}
    (h : scanStep (some delimiter) (inString, depth) c = some state) :
    splitTopLevelFrom delimiter inString depth current (c :: rest) =
      splitTopLevelFrom delimiter state.1 state.2 (current ++ [c]) rest := by
  unfold scanStep at h
  by_cases hquote : c = '\''
  · rw [if_pos hquote] at h
    obtain rfl := Option.some.inj h
    rw [hquote, splitTopLevelFrom_quote]
  rw [splitTopLevelFrom_cons hquote]
  rw [if_neg hquote] at h
  by_cases hin : inString = true
  · rw [if_pos hin] at h ⊢
    obtain rfl := Option.some.inj h
    rw [hin]
  rw [if_neg hin] at h ⊢
  by_cases hopen : c = '('
  · rw [if_pos hopen] at h ⊢
    obtain rfl := Option.some.inj h
    rfl
  rw [if_neg hopen] at h ⊢
  by_cases hclose : c = ')'
  · rw [if_pos hclose] at h ⊢
    split at h
    · cases h
    · next hpositive =>
      obtain rfl := Option.some.inj h
      rw [if_neg hpositive]
  rw [if_neg hclose] at h ⊢
  split at h
  · cases h
  · next hnot =>
    obtain rfl := Option.some.inj h
    have hnot' : ¬ (c = delimiter ∧ depth = 0) := fun hboth => hnot ⟨congrArg some hboth.1, hboth.2⟩
    rw [if_neg hnot']

theorem splitTopLevelFrom_scan {text : Text} {state : Bool × Nat}
    (h : scan (some delimiter) (inString, depth) text = some state) :
    splitTopLevelFrom delimiter inString depth current (text ++ rest) =
      splitTopLevelFrom delimiter state.1 state.2 (current ++ text) rest := by
  induction text generalizing inString depth current with
  | nil =>
    obtain rfl := Option.some.inj h
    rw [List.append_nil]
    rfl
  | cons c text ih =>
    rw [scan_cons] at h
    obtain ⟨next, hnext, h⟩ := Option.bind_eq_some_iff.mp h
    rw [List.cons_append, splitTopLevelFrom_step hnext, ih h, List.append_assoc]
    rfl

/-- A text that no piece is lost of. -/
structure IsPiece (delimiter : Char) (text : Text) : Prop where
  closed : Closed (some delimiter) text
  trimmed : trimText text = text
  ne_nil : text ≠ []

theorem pushTrimmed_of_isPiece {text : Text} (h : IsPiece delimiter text) (results : List Text) :
    pushTrimmed text results = text :: results := by
  rw [pushTrimmed, h.trimmed, if_neg h.ne_nil]

theorem splitTopLevel_intercalate (hplain : isPlain none delimiter = true) {pieces : List Text}
    (h : ∀ piece ∈ pieces, IsPiece delimiter piece) :
    splitTopLevel ([delimiter].intercalate pieces) delimiter = .ok pieces := by
  rw [splitTopLevel]
  induction pieces with
  | nil => rfl
  | cons piece pieces ih =>
    have hpiece := h piece List.mem_cons_self
    have hrest := ih fun q hq => h q (List.mem_cons_of_mem piece hq)
    cases pieces with
    | nil =>
      have hscan : splitTopLevelFrom delimiter false 0 [] (piece ++ []) =
          splitTopLevelFrom delimiter false 0 ([] ++ piece) [] :=
        splitTopLevelFrom_scan hpiece.closed
      rw [List.intercalate_singleton, ← List.append_nil piece, hscan, List.nil_append,
        splitTopLevelFrom, if_neg Bool.false_ne_true, if_neg (by simp),
        pushTrimmed_of_isPiece hpiece, List.append_nil]
    | cons next pieces =>
      simp only [isPlain, Bool.and_eq_true, decide_eq_true_eq] at hplain
      rw [List.intercalate_cons_cons, List.append_assoc, List.singleton_append,
        splitTopLevelFrom_scan hpiece.closed, List.nil_append,
        splitTopLevelFrom_cons hplain.1.1.1, if_neg Bool.false_ne_true, if_neg hplain.1.1.2,
        if_neg hplain.1.2, if_pos ⟨rfl, rfl⟩, hrest]
      exact congrArg Except.ok (pushTrimmed_of_isPiece hpiece _)

theorem findOpening_of_isPlain {path : Text} (hpath : ∀ c ∈ path, isPlain none c = true) :
    findOpening false current (path ++ rest) = findOpening false (current ++ path) rest := by
  induction path generalizing current with
  | nil => rw [List.nil_append, List.append_nil]
  | cons c path ih =>
    have hc := hpath c List.mem_cons_self
    simp only [isPlain, Bool.and_eq_true, decide_eq_true_eq] at hc
    obtain ⟨⟨⟨hquote, hopen⟩, hclose⟩, _⟩ := hc
    rw [List.cons_append, findOpening, if_neg hquote, if_neg Bool.false_ne_true, if_neg hopen,
      if_neg hclose, ih fun d hd => hpath d (List.mem_cons_of_mem c hd), List.append_assoc]
    · rfl
    · exact fun rest' heq _ => hquote heq

theorem findClosing_quote :
    findClosing inString depth current ('\'' :: rest) =
      findClosing (!inString) depth (current ++ ['\'']) rest := by
  have hopening (current rest : Text) :
      findClosing false depth current ('\'' :: rest) =
        findClosing true depth (current ++ ['\'']) rest := by
    cases rest with
    | nil => rfl
    | cons c rest =>
      by_cases hc : c = '\''
      · rw [hc, findClosing, if_neg Bool.false_ne_true]
      · rw [findClosing, if_pos rfl]
        · rfl
        · exact fun rest' _ heq => hc (List.cons.inj heq).1
  cases inString with
  | false => exact hopening current rest
  | true =>
    cases rest with
    | nil => rfl
    | cons c rest =>
      by_cases hc : c = '\''
      · rw [hc, findClosing, if_pos rfl, Bool.not_true, hopening, List.append_assoc]
        rfl
      · rw [findClosing, if_pos rfl]
        exact fun rest' _ heq => hc (List.cons.inj heq).1

theorem findClosing_step {c : Char} {state : Bool × Nat}
    (h : scanStep none (inString, depth) c = some state) :
    findClosing inString depth current (c :: rest) =
      findClosing state.1 state.2 (current ++ [c]) rest := by
  unfold scanStep at h
  by_cases hquote : c = '\''
  · rw [if_pos hquote] at h
    obtain rfl := Option.some.inj h
    rw [hquote, findClosing_quote]
  rw [findClosing]
  rw [if_neg hquote] at h ⊢
  by_cases hin : inString = true
  · rw [if_pos hin] at h ⊢
    obtain rfl := Option.some.inj h
    rw [hin]
  rw [if_neg hin] at h ⊢
  by_cases hopen : c = '('
  · rw [if_pos hopen] at h ⊢
    obtain rfl := Option.some.inj h
    rfl
  rw [if_neg hopen] at h ⊢
  by_cases hclose : c = ')'
  · rw [if_pos hclose] at h ⊢
    split at h
    · cases h
    · next hpositive =>
      obtain rfl := Option.some.inj h
      rw [if_neg hpositive]
  · rw [if_neg hclose] at h ⊢
    split at h
    · cases h
    · obtain rfl := Option.some.inj h
      rfl
  · exact fun rest' heq _ => hquote heq

theorem findClosing_scan {text : Text} {state : Bool × Nat}
    (h : scan none (inString, depth) text = some state) :
    findClosing inString depth current (text ++ rest) =
      findClosing state.1 state.2 (current ++ text) rest := by
  induction text generalizing inString depth current with
  | nil =>
    obtain rfl := Option.some.inj h
    rw [List.append_nil]
    rfl
  | cons c text ih =>
    rw [scan_cons] at h
    obtain ⟨next, hnext, h⟩ := Option.bind_eq_some_iff.mp h
    rw [List.cons_append, findClosing_step hnext, ih h, List.append_assoc]
    rfl

/-- A path and its options are told apart. -/
theorem extractPathAndOptions_group {path text : Text} (hpath : ∀ c ∈ path, isPlain none c = true)
    (htext : Closed none text) (htrim : trimText path = path) (htrim' : trimText text = text)
    (hgroup : trimText (path ++ '(' :: text ++ [')']) = path ++ '(' :: text ++ [')']) :
    extractPathAndOptions (path ++ '(' :: text ++ [')']) = .ok (path, text) := by
  have hopening : findOpening false [] (path ++ '(' :: text ++ [')']) =
      .ok (path, some (text ++ [')'])) := by
    rw [List.append_assoc, findOpening_of_isPlain hpath, List.nil_append, List.cons_append,
      findOpening]
    · rfl
    · exact nofun
  have hclosing : findClosing false 0 [] (text ++ [')']) = .ok (text, []) := by
    rw [findClosing_scan htext]
    rfl
  rw [extractPathAndOptions, hgroup, hopening]
  change (findClosing false 0 [] (text ++ [')']) >>= _) = _
  rw [hclosing]
  change (if trimText [] ≠ [] then
      fail "Malformed expand segment: trailing characters after options."
    else Except.ok (trimText path, trimText text)) = _
  rw [if_neg (by decide), htrim, htrim']

theorem extractPathAndOptions_path {path : Text} (hpath : ∀ c ∈ path, isPlain none c = true)
    (htrim : trimText path = path) : extractPathAndOptions path = .ok (path, []) := by
  have hopening : findOpening false [] path = .ok (path, none) := by
    have h : findOpening false [] (path ++ []) = findOpening false ([] ++ path) [] :=
      findOpening_of_isPlain hpath
    rwa [List.append_nil, List.nil_append] at h
  rw [extractPathAndOptions, htrim, hopening]
  change Except.ok (trimText path, []) = _
  rw [htrim]

end Cutting

end Expand

end LoopbackOData
