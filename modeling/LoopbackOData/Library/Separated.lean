import Mathlib

/-!
# Texts joined by separators

A separator that none of the pieces contains can be found again, so joining is injective.
-/

namespace Separated

set_option autoImplicit false

universe u
variable {α : Type u} {sep : α}

/-- The first separator ends the first piece. -/
theorem append_cons_inj {a a' b b' : List α} (ha : sep ∉ a) (ha' : sep ∉ a')
    (h : a ++ sep :: b = a' ++ sep :: b') : a = a' ∧ b = b' := by
  induction a generalizing a' with
  | nil =>
    cases a' with
    | nil => exact ⟨rfl, (List.cons.inj h).2⟩
    | cons c a' => exact absurd ((List.cons.inj h).1 ▸ List.mem_cons_self) ha'
  | cons c a ih =>
    cases a' with
    | nil => exact absurd ((List.cons.inj h).1 ▸ List.mem_cons_self) ha
    | cons c' a' =>
      obtain ⟨hhead, htail⟩ := List.cons.inj h
      obtain ⟨heq, hb⟩ := ih (fun hmem => ha (List.mem_cons_of_mem _ hmem))
        (fun hmem => ha' (List.mem_cons_of_mem _ hmem)) htail
      exact ⟨by rw [hhead, heq], hb⟩

/-- Pieces without the separator are determined by the text that joins them, unless that is the
join of no pieces or of an empty one. -/
theorem intercalate_inj {pieces pieces' : List (List α)} (h : ∀ p ∈ pieces, sep ∉ p)
    (h' : ∀ p ∈ pieces', sep ∉ p) (hne : ∀ p ∈ pieces, p ≠ []) (hne' : ∀ p ∈ pieces', p ≠ [])
    (heq : [sep].intercalate pieces = [sep].intercalate pieces') : pieces = pieces' := by
  have hnil {p : List α} {ps : List (List α)} (hp : p ≠ []) :
      [sep].intercalate (p :: ps) ≠ [] := by
    cases ps with
    | nil => simpa using hp
    | cons q ps => simp [List.intercalate_cons_cons, hp]
  induction pieces generalizing pieces' with
  | nil =>
    cases pieces' with
    | nil => rfl
    | cons p ps => exact absurd heq.symm (hnil (hne' p List.mem_cons_self))
  | cons p ps ih =>
    cases pieces' with
    | nil => exact absurd heq (hnil (hne p List.mem_cons_self))
    | cons p' ps' =>
      have hp := h p List.mem_cons_self
      have hp' := h' p' List.mem_cons_self
      have hps := fun q hq => h q (List.mem_cons_of_mem p hq)
      have hps' := fun q hq => h' q (List.mem_cons_of_mem p' hq)
      cases ps with
      | nil =>
        cases ps' with
        | nil => simpa using heq
        | cons q' ps' =>
          rw [List.intercalate_singleton, List.intercalate_cons_cons] at heq
          exact absurd (heq ▸ by simp) hp
      | cons q ps =>
        cases ps' with
        | nil =>
          rw [List.intercalate_singleton, List.intercalate_cons_cons] at heq
          exact absurd (heq ▸ by simp) hp'
        | cons q' ps' =>
          rw [List.intercalate_cons_cons, List.intercalate_cons_cons, List.append_assoc,
            List.append_assoc] at heq
          obtain ⟨hhead, htail⟩ := append_cons_inj hp hp' heq
          rw [hhead, ih hps hps' (fun q hq => hne q (List.mem_cons_of_mem p hq))
            (fun q hq => hne' q (List.mem_cons_of_mem p' hq)) htail]

/-! ## Pieces behind separators -/

variable {p : α → Bool}

theorem splitOnP_join (hsep : p sep = true) {pieces : List (List α)}
    (h : ∀ piece ∈ pieces, ∀ a ∈ piece, p a = false) :
    (pieces.flatMap (sep :: ·)).splitOnP p = [] :: pieces := by
  induction pieces with
  | nil => rfl
  | cons piece pieces ih =>
    have hpieces := ih fun q hq => h q (List.mem_cons_of_mem _ hq)
    have hpiece := h piece List.mem_cons_self
    rw [List.flatMap_cons, List.cons_append, List.splitOnP_cons_eq_if_modifyHead, if_pos hsep]
    cases pieces with
    | nil => rw [List.flatMap_nil, List.append_nil, List.splitOnP_eq_singleton hpiece]
    | cons next pieces =>
      rw [List.flatMap_cons, List.cons_append, List.splitOnP_cons_eq_if_modifyHead, if_pos hsep,
        List.cons_inj_right] at hpieces
      rw [List.flatMap_cons, List.cons_append,
        List.splitOnP_append_cons_of_forall_mem hpiece _ hsep, hpieces]

theorem splitOnP_join_append (hsep : p sep = true) {pieces : List (List α)}
    (h : ∀ piece ∈ pieces, ∀ a ∈ piece, p a = false) (rest : List α) :
    (pieces.flatMap (sep :: ·) ++ sep :: rest).splitOnP p = [] :: pieces ++ rest.splitOnP p := by
  rw [List.splitOnP_append_cons _ _ hsep, splitOnP_join hsep h]

/-- A piece is part of the whole, and has no separators. -/
theorem mem_splitOnP {piece whole : List α} (h : piece ∈ whole.splitOnP p) :
    piece.Sublist (whole.filter fun a => !p a) := by
  induction whole generalizing piece with
  | nil =>
    rw [List.splitOnP_nil, List.mem_singleton] at h
    rw [h]
    exact List.nil_sublist _
  | cons a whole ih =>
    rw [List.splitOnP_cons_eq_if_modifyHead] at h
    split at h
    · next ha =>
      rw [List.filter_cons_of_neg (by simp [ha])]
      rcases List.mem_cons.mp h with rfl | h
      · exact List.nil_sublist _
      · exact ih h
    · next ha =>
      rw [List.filter_cons_of_pos (by simpa using ha)]
      cases hsplit : whole.splitOnP p with
      | nil => exact absurd hsplit (List.splitOnP_ne_nil p whole)
      | cons first pieces =>
        rw [hsplit, List.modifyHead_cons] at h
        rw [hsplit] at ih
        rcases List.mem_cons.mp h with rfl | h
        · exact (ih List.mem_cons_self).cons_cons a
        · exact (ih (List.mem_cons_of_mem _ h)).cons a

end Separated
