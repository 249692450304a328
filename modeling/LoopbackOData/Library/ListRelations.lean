import Mathlib

/-!
# Lists related member by member

Choosing answers for related lists, finding the partner of a member, and sorting by a comparison
that orders the members of the list.
-/

namespace ListRelations

set_option autoImplicit false

/-- What each member has an answer to, the list has answers to. -/
theorem exists_forall₂_of_forall₂ {α β γ : Type} {R : α → β → Prop} {S : α → γ → Prop}
    {T : β → γ → Prop} {as : List α} {bs : List β} (h : List.Forall₂ R as bs)
    (hstep : ∀ a ∈ as, ∀ b, R a b → ∃ c, S a c ∧ T b c) :
    ∃ cs, List.Forall₂ S as cs ∧ List.Forall₂ T bs cs := by
  induction h with
  | nil => exact ⟨[], .nil, .nil⟩
  | cons hab _ ih =>
    obtain ⟨c, hs, ht⟩ := hstep _ List.mem_cons_self _ hab
    obtain ⟨cs, hss, hts⟩ := ih fun a ha => hstep a (List.mem_cons_of_mem _ ha)
    exact ⟨c :: cs, .cons hs hss, .cons ht hts⟩

theorem exists_mem_of_forall₂ {α β : Type} {R : α → β → Prop} {as : List α} {bs : List β}
    (h : List.Forall₂ R as bs) {a : α} (ha : a ∈ as) : ∃ b ∈ bs, R a b := by
  induction h with
  | nil => cases ha
  | cons hab _ ih =>
    rcases List.mem_cons.mp ha with rfl | ha
    · exact ⟨_, List.mem_cons_self, hab⟩
    · obtain ⟨b, hb, hr⟩ := ih ha
      exact ⟨b, List.mem_cons_of_mem _ hb, hr⟩

/-! ## Sorting -/

/-- The comparison is an order, up to ties, of the members of a list. -/
structure OrdersOn {α : Type} (le : α → α → Bool) (l : List α) : Prop where
  total : ∀ a ∈ l, ∀ b ∈ l, le a b ∨ le b a
  trans : ∀ a ∈ l, ∀ b ∈ l, ∀ c ∈ l, le a b → le b c → le a c

theorem OrdersOn.of_mem {α : Type} {le : α → α → Bool} {l m : List α} (h : OrdersOn le l)
    (hmem : ∀ a ∈ m, a ∈ l) : OrdersOn le m where
  total a ha b hb := h.total a (hmem a ha) b (hmem b hb)
  trans a ha b hb c hc := h.trans a (hmem a ha) b (hmem b hb) c (hmem c hc)

/-- By an order of everything that puts the members of the list first. -/
theorem OrdersOn.pairwise_mergeSort {α : Type} {le : α → α → Bool} {l : List α}
    (h : OrdersOn le l) : (l.mergeSort le).Pairwise fun a b => le a b = true := by
  classical
  let wide (a b : α) : Bool := if b ∈ l then if a ∈ l then le a b else false else true
  have hwide (a b : α) (ha : a ∈ l) (hb : b ∈ l) : wide a b = le a b := by
    simp only [wide, ha, hb, if_true]
  have hsort : l.mergeSort le = l.mergeSort wide := by
    have hmap : (l.mergeSort le).map id = (l.map id).mergeSort wide :=
      List.map_mergeSort fun a ha b hb => (hwide a b ha hb).symm
    rwa [List.map_id, List.map_id] at hmap
  have htrans (a b c : α) (hab : wide a b = true) (hbc : wide b c = true) : wide a c = true := by
    by_cases hc : c ∈ l
    · have hb : b ∈ l := by
        by_contra hb
        simp [wide, hb, hc] at hbc
      have ha : a ∈ l := by
        by_contra ha
        simp [wide, ha, hb] at hab
      rw [hwide _ _ ha hb] at hab
      rw [hwide _ _ hb hc] at hbc
      rw [hwide _ _ ha hc]
      exact h.trans a ha b hb c hc hab hbc
    · simp [wide, hc]
  have htotal (a b : α) : (wide a b || wide b a) = true := by
    rw [Bool.or_eq_true]
    by_cases ha : a ∈ l
    · by_cases hb : b ∈ l
      · rw [hwide _ _ ha hb, hwide _ _ hb ha]
        exact h.total a ha b hb
      · exact Or.inl (by simp [wide, hb])
    · exact Or.inr (by simp [wide, ha])
  have hpairwise : (l.mergeSort wide).Pairwise fun a b => wide a b = true :=
    List.pairwise_mergeSort htrans htotal l
  rw [hsort]
  refine hpairwise.imp_of_mem fun {a b} ha hb hab => ?_
  rw [← hwide a b ((List.mergeSort_perm l wide).mem_iff.mp ha)
    ((List.mergeSort_perm l wide).mem_iff.mp hb)]
  exact hab

/-! ## Strict arrangements -/

section Strict

variable {α : Type} {cmp : α → α → Ordering} {l m : List α}

/-- A sorted arrangement of a list whose members are pairwise apart is strictly sorted. -/
theorem pairwise_lt_of_perm (horiented : ∀ a ∈ l, ∀ b ∈ l, cmp b a = (cmp a b).swap)
    (hapart : l.Pairwise fun a b => cmp a b ≠ .eq) (hperm : m.Perm l)
    (hsorted : m.Pairwise fun a b => cmp a b ≠ .gt) : m.Pairwise fun a b => cmp a b = .lt := by
  have hboth : m.Pairwise fun a b => cmp a b ≠ .eq ∧ cmp b a ≠ .eq := by
    refine (hperm.pairwise_iff fun {a b} h => h.symm).mpr ?_
    refine hapart.imp_of_mem fun {a b} ha hb hab => ⟨hab, ?_⟩
    rw [horiented a ha b hb]
    intro hswap
    exact hab (Ordering.swap_eq_eq.mp hswap)
  refine (hsorted.and hboth).imp fun {a b} h => ?_
  cases hab : cmp a b with
  | lt => rfl
  | eq => exact absurd hab h.2.1
  | gt => exact absurd hab h.1

/-- There is one strictly sorted arrangement. -/
theorem eq_of_pairwise_lt (horiented : ∀ a ∈ l, ∀ b ∈ l, cmp b a = (cmp a b).swap)
    (hl : l.Pairwise fun a b => cmp a b = .lt) (hm : m.Pairwise fun a b => cmp a b = .lt)
    (hperm : l.Perm m) : l = m := by
  refine List.Perm.eq_of_pairwise ?_ hl hm hperm
  intro a b ha hb hab hba
  rw [horiented a ha b (hperm.mem_iff.mpr hb), hab] at hba
  cases hba

/-- What follows a member of a strictly sorted list in the order follows it in the list. -/
theorem filter_gt_of_pairwise_lt {before rest : List α} {last : α}
    (horiented : ∀ a ∈ before ++ last :: rest, ∀ b ∈ before ++ last :: rest,
      cmp b a = (cmp a b).swap)
    (h : (before ++ last :: rest).Pairwise fun a b => cmp a b = .lt) :
    (before ++ last :: rest).filter (fun a => cmp a last = .gt) = rest := by
  obtain ⟨-, hlast, hbefore⟩ := List.pairwise_append.mp h
  have hmem : last ∈ before ++ last :: rest := by simp
  have hself : cmp last last ≠ .gt := by
    intro hgt
    have hswap := horiented last hmem last hmem
    rw [hgt] at hswap
    cases hswap
  rw [List.filter_append, List.filter_cons_of_neg (by simpa using hself)]
  have hdrop : before.filter (fun a => cmp a last = .gt) = [] := by
    rw [List.filter_eq_nil_iff]
    intro a ha hgt
    rw [decide_eq_true_eq, hbefore a ha last List.mem_cons_self] at hgt
    cases hgt
  have hkeep : rest.filter (fun a => cmp a last = .gt) = rest := by
    rw [List.filter_eq_self]
    intro a ha
    have hlt := (List.pairwise_cons.mp hlast).1 a ha
    rw [decide_eq_true_eq, horiented last hmem a (by simp [ha]), hlt]
    rfl
  rw [hdrop, hkeep, List.nil_append]

end Strict

end ListRelations
