import LoopbackOData.Library.ListRelations

/-!
# Comparisons that are total preorders

The laws of a comparison, on the values of a kind, and what sorting by it gives.
-/

namespace Preorders

open ListRelations

set_option autoImplicit false

/-! ## Laws -/

/-- The comparison orders the values of a kind, up to ties. -/
structure PreorderOn {α : Type} (P : α → Prop) (cmp : α → α → Ordering) : Prop where
  swap : ∀ {a b}, P a → P b → cmp b a = (cmp a b).swap
  trans : ∀ {a b c}, P a → P b → P c → cmp a b ≠ .gt → cmp b c ≠ .gt → cmp a c ≠ .gt

section Laws

variable {α : Type} {P : α → Prop} {cmp : α → α → Ordering}

theorem PreorderOn.self (h : PreorderOn P cmp) {a : α} (ha : P a) : cmp a a = .eq := by
  have hswap := h.swap ha ha
  cases hself : cmp a a with
  | eq => rfl
  | lt =>
    rw [hself] at hswap
    cases hswap
  | gt =>
    rw [hself] at hswap
    cases hswap

theorem PreorderOn.ne_gt_of_eq (h : PreorderOn P cmp) {a b : α} (ha : P a) (hb : P b)
    (heq : cmp a b = .eq) : cmp b a ≠ .gt := by
  rw [h.swap ha hb, heq]
  decide

/-- Tied values compare alike. -/
theorem PreorderOn.congr_left (h : PreorderOn P cmp) {a b c : α} (ha : P a) (hb : P b) (hc : P c)
    (heq : cmp a b = .eq) : cmp a c = cmp b c := by
  have hab : cmp a b ≠ .gt := by
    rw [heq]
    decide
  have hba := h.ne_gt_of_eq ha hb heq
  have hforth : cmp b c ≠ .gt → cmp a c ≠ .gt := h.trans ha hb hc hab
  have hback : cmp a c ≠ .gt → cmp b c ≠ .gt := h.trans hb ha hc hba
  have hforth' : cmp c a ≠ .gt → cmp c b ≠ .gt := fun hca => h.trans hc ha hb hca hab
  have hback' : cmp c b ≠ .gt → cmp c a ≠ .gt := fun hcb => h.trans hc hb ha hcb hba
  rw [h.swap ha hc, h.swap hb hc] at hforth' hback'
  revert hforth hback hforth' hback'
  cases cmp a c <;> cases cmp b c <;> decide

theorem PreorderOn.congr (h : PreorderOn P cmp) {cmp' : α → α → Ordering}
    (heq : ∀ a b, P a → P b → cmp' a b = cmp a b) : PreorderOn P cmp' where
  swap ha hb := by rw [heq _ _ hb ha, heq _ _ ha hb, h.swap ha hb]
  trans ha hb hc := by
    rw [heq _ _ ha hb, heq _ _ hb hc, heq _ _ ha hc]
    exact h.trans ha hb hc

/-- Values that have a place in a linear order. -/
theorem PreorderOn.of_key {β : Type} [LinearOrder β] (key : α → β)
    (h : ∀ a b, P a → P b → cmp a b = compare (key a) (key b)) : PreorderOn P cmp where
  swap {a b} ha hb := by
    rw [h _ _ hb ha, h _ _ ha hb]
    exact @Std.OrientedCmp.eq_swap β compare inferInstance (key b) (key a)
  trans {a b c} ha hb hc hab hbc := by
    rw [h _ _ ha hb, ne_eq, compare_gt_iff_gt, not_lt] at hab
    rw [h _ _ hb hc, ne_eq, compare_gt_iff_gt, not_lt] at hbc
    rw [h _ _ ha hc, ne_eq, compare_gt_iff_gt, not_lt]
    exact hab.trans hbc

theorem PreorderOn.opposite (h : PreorderOn P cmp) : PreorderOn P fun a b => (cmp a b).swap where
  swap ha hb := by rw [h.swap ha hb]
  trans {a b c} ha hb hc hab hbc := by
    rw [← h.swap ha hb] at hab
    rw [← h.swap hb hc] at hbc
    rw [← h.swap ha hc]
    exact h.trans hc hb ha hbc hab

theorem PreorderOn.comap {β : Type} (h : PreorderOn P cmp) (f : β → α) :
    PreorderOn (fun b => P (f b)) fun a b => cmp (f a) (f b) where
  swap ha hb := h.swap ha hb
  trans ha hb hc := h.trans ha hb hc

/-- The second comparison decides between the ties of the first. -/
theorem PreorderOn.lex {cmp' : α → α → Ordering} (h : PreorderOn P cmp) (h' : PreorderOn P cmp') :
    PreorderOn P fun a b => (cmp a b).then (cmp' a b) where
  swap ha hb := by rw [h.swap ha hb, h'.swap ha hb, Ordering.swap_then]
  trans {a b c} ha hb hc hab hbc := by
    have htrans := h.trans ha hb hc
    have htrans' := h'.trans ha hb hc
    have hleft := h.congr_left ha hb hc
    have hright : cmp b c = .eq → cmp a b = cmp a c := by
      intro heq
      have hcongr := h.congr_left hb hc ha heq
      rw [h.swap ha hb, h.swap ha hc] at hcongr
      exact Ordering.swap_inj.mp hcongr
    have hends : cmp a c = .eq → cmp a b = (cmp b c).swap := by
      intro heq
      rw [h.congr_left ha hc hb heq, h.swap hb hc]
    revert hab hbc htrans htrans' hleft hright hends
    cases cmp a b <;> cases cmp b c <;> cases cmp a c <;> simp [Ordering.then]
    tauto

theorem PreorderOn.orders (h : PreorderOn P cmp) {l : List α} (hl : ∀ a ∈ l, P a) :
    OrdersOn (fun a b => cmp a b != .gt) l where
  total a ha b hb := by
    have hswap := h.swap (hl a ha) (hl b hb)
    cases hab : cmp a b with
    | gt =>
      rw [hab] at hswap
      exact .inr (by rw [hswap]; rfl)
    | _ => exact .inl rfl
  trans a ha b hb c hc hab hbc := by
    rw [bne_iff_ne] at hab hbc ⊢
    exact h.trans (hl a ha) (hl b hb) (hl c hc) hab hbc

end Laws

/-! ## Sorting -/

/-- A list in the order of a comparison, tied members in their original order. -/
structure SortedBy {α : Type} (cmp : α → α → Ordering) (l sorted : List α) : Prop where
  perm : sorted.Perm l
  pairwise : sorted.Pairwise fun a b => cmp a b ≠ .gt
  stable : ∀ a ∈ l, sorted.filter (fun b => cmp a b = .eq) = l.filter (fun b => cmp a b = .eq)

/-- What is in order already stays in this order. -/
theorem sublist_mergeSort {α : Type} {le : α → α → Bool} {l part : List α} (h : OrdersOn le l)
    (hpart : part.Sublist l) (hpairwise : part.Pairwise fun a b => le a b = true) :
    part.Sublist (l.mergeSort le) := by
  let le' (a b : { a // a ∈ l }) : Bool := le a.val b.val
  have hsort : l.mergeSort le = (l.attach.mergeSort le').map Subtype.val := by
    have hmap := List.map_mergeSort (r := le') (s := le) (f := Subtype.val) (l := l.attach)
      fun _ _ _ _ => rfl
    rw [hmap, List.attach_map_subtype_val]
  rw [← List.attach_map_subtype_val (l := l)] at hpart
  obtain ⟨part', hsub, rfl⟩ := List.sublist_map_iff.mp hpart
  rw [List.pairwise_map] at hpairwise
  rw [hsort]
  refine (List.sublist_mergeSort ?_ ?_ hpairwise hsub).map _
  · exact fun a b c => h.trans a a.property b b.property c c.property
  · intro a b
    rw [Bool.or_eq_true]
    exact h.total a a.property b b.property

theorem PreorderOn.sortedBy_mergeSort {α : Type} {P : α → Prop} {cmp : α → α → Ordering}
    (h : PreorderOn P cmp) {l : List α} (hl : ∀ a ∈ l, P a) :
    SortedBy cmp l (l.mergeSort fun a b => cmp a b != .gt) where
  perm := List.mergeSort_perm _ _
  pairwise := by
    refine (h.orders hl).pairwise_mergeSort.imp ?_
    intro a b hab
    rwa [bne_iff_ne] at hab
  stable a ha := by
    have hperm := List.mergeSort_perm l fun a b => cmp a b != .gt
    have hties : (l.filter fun b => cmp a b = .eq).Pairwise fun b c => (cmp b c != .gt) = true := by
      rw [List.pairwise_iff_forall_sublist]
      intro b c hsub
      have hmem := hsub.subset
      obtain ⟨hb, hab⟩ := List.mem_filter.mp (hmem List.mem_cons_self)
      obtain ⟨hc, hac⟩ := List.mem_filter.mp (hmem (List.mem_cons_of_mem _ List.mem_cons_self))
      rw [decide_eq_true_eq] at hab hac
      rw [← h.congr_left (hl a ha) (hl b hb) (hl c hc) hab, hac]
      rfl
    have hsub := sublist_mergeSort (h.orders hl) List.filter_sublist hties
    have hfilter := hsub.filter fun b => cmp a b = .eq
    rw [List.filter_filter] at hfilter
    simp only [Bool.and_self] at hfilter
    exact (hfilter.eq_of_length (hperm.filter _).length_eq.symm).symm

end Preorders
