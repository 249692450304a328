import Mathlib

/-!
# The first occurrence of a list in another

`first` is the place where a search from the left finds a list. What it finds stays found when
more follows, which is what a search in data that arrive piece by piece rests on.
-/

set_option autoImplicit false

namespace Occurrence

variable {α : Type} [DecidableEq α] {needle s t : List α} {i j : Nat}

def first (needle : List α) : List α → Option Nat
  | [] => if needle = [] then some 0 else none
  | a :: s => if needle.isPrefixOf (a :: s) then some 0 else (first needle s).map (· + 1)

omit [DecidableEq α] in
theorem prefix_of_append (h : needle <+: s ++ t) (hlength : needle.length ≤ s.length) :
    needle <+: s :=
  List.prefix_of_prefix_length_le h (List.prefix_append s t) hlength

theorem first_eq_some_iff :
    first needle s = some i ↔
      i ≤ s.length ∧ needle <+: s.drop i ∧ ∀ j < i, ¬ needle <+: s.drop j := by
  induction s generalizing i with
  | nil =>
    rw [first]
    by_cases hnil : needle = []
    · rw [if_pos hnil, Option.some.injEq]
      constructor
      · rintro rfl
        exact ⟨le_refl 0, by simp [hnil], by simp⟩
      · rintro ⟨hle, _, _⟩
        exact (Nat.le_zero.mp hle).symm
    · rw [if_neg hnil]
      constructor
      · intro h
        cases h
      · rintro ⟨_, hprefix, _⟩
        rw [List.drop_nil] at hprefix
        exact absurd (List.prefix_nil.mp hprefix) hnil
  | cons a s ih =>
    rw [first]
    by_cases hhere : needle.isPrefixOf (a :: s)
    · rw [if_pos hhere, Option.some.injEq]
      have hhere' := List.isPrefixOf_iff_prefix.mp hhere
      constructor
      · rintro rfl
        exact ⟨Nat.zero_le _, hhere', by simp⟩
      · rintro ⟨_, _, hnot⟩
        by_contra hne
        exact hnot 0 (by omega) hhere'
    · rw [if_neg hhere, Option.map_eq_some_iff]
      rw [List.isPrefixOf_iff_prefix] at hhere
      constructor
      · rintro ⟨k, hk, rfl⟩
        obtain ⟨hle, hprefix, hnot⟩ := ih.mp hk
        refine ⟨by rw [List.length_cons]; omega, hprefix, ?_⟩
        intro j hj
        cases j with
        | zero => exact hhere
        | succ j => exact hnot j (by omega)
      · rintro ⟨hle, hprefix, hnot⟩
        cases i with
        | zero => exact absurd hprefix hhere
        | succ k =>
          refine ⟨k, ih.mpr ⟨?_, hprefix, ?_⟩, rfl⟩
          · rw [List.length_cons] at hle
            omega
          · intro j hj
            exact hnot (j + 1) (by omega)

theorem first_eq_none_iff : first needle s = none ↔ ∀ i, ¬ needle <+: s.drop i := by
  constructor
  · intro h i hprefix
    -- the least place of an occurrence would have been found
    have hex : ∃ i, needle <+: s.drop i := ⟨i, hprefix⟩
    by_cases hle : Nat.find hex ≤ s.length
    · have hfound := first_eq_some_iff.mpr
        ⟨hle, Nat.find_spec hex, fun j hj => Nat.find_min hex hj⟩
      rw [h] at hfound
      cases hfound
    · have hspec := Nat.find_spec hex
      rw [List.drop_eq_nil_of_le (by omega)] at hspec
      apply Nat.find_min hex (m := s.length) (by omega)
      rw [List.drop_length]
      exact hspec
  · intro h
    cases hfirst : first needle s with
    | none => rfl
    | some i => exact absurd (first_eq_some_iff.mp hfirst).2.1 (h i)

theorem first_add_length_le (h : first needle s = some i) : i + needle.length ≤ s.length := by
  obtain ⟨hle, hprefix, _⟩ := first_eq_some_iff.mp h
  have hlength := hprefix.length_le
  rw [List.length_drop] at hlength
  omega

/-- What is found stays found when more follows. -/
theorem first_append (h : first needle s = some i) (t : List α) :
    first needle (s ++ t) = some i := by
  have hroom := first_add_length_le h
  obtain ⟨hle, hprefix, hnot⟩ := first_eq_some_iff.mp h
  refine first_eq_some_iff.mpr ⟨by rw [List.length_append]; omega, ?_, ?_⟩
  · rw [List.drop_append_of_le_length hle]
    exact hprefix.trans (List.prefix_append _ _)
  · intro j hj hearlier
    rw [List.drop_append_of_le_length (by omega)] at hearlier
    exact hnot j hj (prefix_of_append hearlier (by rw [List.length_drop]; omega))

/-- An occurrence in the longer data that ends in the first piece is one of the first piece. -/
theorem first_of_append (h : first needle (s ++ t) = some i) (hend : i + needle.length ≤ s.length) :
    first needle s = some i := by
  obtain ⟨_, hprefix, hnot⟩ := first_eq_some_iff.mp h
  refine first_eq_some_iff.mpr ⟨by omega, ?_, ?_⟩
  · rw [List.drop_append_of_le_length (by omega)] at hprefix
    exact prefix_of_append hprefix (by rw [List.length_drop]; omega)
  · intro j hj hearlier
    apply hnot j hj
    rw [List.drop_append_of_le_length (by omega)]
    exact hearlier.trans (List.prefix_append _ _)

theorem first_ne_none_of_append (h : first needle s ≠ none) (t : List α) :
    first needle (s ++ t) = first needle s := by
  obtain ⟨i, hi⟩ := Option.ne_none_iff_exists'.mp h
  rw [hi, first_append hi]

end Occurrence
