import Mathlib

/-!
# The unfolding of a graph

From a node, down a number of levels, each path to a node counts on its own. Where all chains are
shorter than that, the unfolding has the nodes that can be reached, each once exactly when there is
one path to it.
-/

set_option autoImplicit false

universe u

namespace Unfolding

variable {α : Type u} (children : α → List α)

def preorder : Nat → α → List α
  | 0, _ => []
  | k + 1, a => a :: (children a).flatMap (preorder k)

def postorder : Nat → α → List α
  | 0, _ => []
  | k + 1, a => (children a).flatMap (postorder k) ++ [a]

def Child (a b : α) : Prop := b ∈ children a

/-- A path of so many steps. -/
inductive Chain : Nat → α → α → Prop where
  | refl (a : α) : Chain 0 a a
  | cons {k : Nat} {a b c : α} (hab : b ∈ children a) (hbc : Chain k b c) : Chain (k + 1) a c

/-- All paths from a node are shorter. -/
def Shallow (k : Nat) (a : α) : Prop := ∀ j b, Chain children j a b → j < k

variable {children} {k : Nat} {a b c : α}

variable (children) in
theorem postorder_perm_preorder (k : Nat) (a : α) :
    (postorder children k a).Perm (preorder children k a) := by
  induction k generalizing a with
  | zero => exact .refl _
  | succ k ih =>
    rw [postorder, preorder]
    refine List.perm_append_singleton .. |>.trans (.cons a ?_)
    exact List.Perm.flatMap_left _ fun b _ => ih b

theorem reachable_iff_chain :
    Relation.ReflTransGen (Child children) a b ↔ ∃ k, Chain children k a b := by
  constructor
  · intro h
    induction h using Relation.ReflTransGen.head_induction_on with
    | refl => exact ⟨0, .refl b⟩
    | head hab _ ih =>
      obtain ⟨k, hchain⟩ := ih
      exact ⟨k + 1, .cons hab hchain⟩
  · rintro ⟨k, h⟩
    induction h with
    | refl => exact .refl
    | cons hab _ ih => exact .head hab ih

theorem mem_preorder_iff : b ∈ preorder children k a ↔ ∃ j < k, Chain children j a b := by
  induction k generalizing a with
  | zero => simp [preorder]
  | succ k ih =>
    rw [preorder, List.mem_cons, List.mem_flatMap]
    constructor
    · rintro (rfl | ⟨c, hc, hb⟩)
      · exact ⟨0, by omega, .refl b⟩
      · obtain ⟨j, hj, hchain⟩ := ih.mp hb
        exact ⟨j + 1, by omega, .cons hc hchain⟩
    · rintro ⟨j, hj, hchain⟩
      cases hchain with
      | refl => exact .inl rfl
      | cons hac hcb => exact .inr ⟨_, hac, ih.mpr ⟨_, by omega, hcb⟩⟩

theorem shallow_succ : Shallow children (k + 1) a ↔ ∀ b ∈ children a, Shallow children k b := by
  constructor
  · intro h b hb j c hchain
    have hj := h (j + 1) c (.cons hb hchain)
    omega
  · intro h j c hchain
    cases hchain with
    | refl => omega
    | cons hb hrest =>
      have hj := h _ hb _ _ hrest
      omega

theorem Shallow.mem_iff (h : Shallow children k a) :
    b ∈ preorder children k a ↔ Relation.ReflTransGen (Child children) a b := by
  rw [mem_preorder_iff, reachable_iff_chain]
  constructor
  · rintro ⟨j, -, hchain⟩
    exact ⟨j, hchain⟩
  · rintro ⟨j, hchain⟩
    exact ⟨j, h j b hchain, hchain⟩

/-- A node on a cycle is above paths of any length. -/
theorem not_shallow_of_cycle (h : Relation.TransGen (Child children) a a) :
    ¬ Shallow children k a := by
  induction k generalizing a with
  | zero =>
    intro hshallow
    exact absurd (hshallow 0 a (.refl a)) (Nat.lt_irrefl 0)
  | succ k ih =>
    intro hshallow
    obtain ⟨b, hab, hba⟩ := Relation.TransGen.head'_iff.mp h
    exact ih (Relation.TransGen.tail' hba hab) (shallow_succ.mp hshallow b hab)

section Card

variable [DecidableEq α]

theorem Shallow.ncard_reachable (h : Shallow children k a) :
    {b | Relation.ReflTransGen (Child children) a b}.ncard =
      (preorder children k a).toFinset.card := by
  rw [← Set.ncard_coe_finset]
  congr 1
  ext b
  rw [Finset.mem_coe, List.mem_toFinset, h.mem_iff]
  rfl

theorem Shallow.ncard_le (h : Shallow children k a) :
    {b | Relation.ReflTransGen (Child children) a b}.ncard ≤ (preorder children k a).length := by
  rw [h.ncard_reachable]
  exact List.toFinset_card_le _

theorem Shallow.ncard_eq (h : Shallow children k a) (hnodup : (preorder children k a).Nodup) :
    {b | Relation.ReflTransGen (Child children) a b}.ncard = (preorder children k a).length := by
  rw [h.ncard_reachable]
  exact List.toFinset_card_of_nodup hnodup

end Card

/-- A split of a concatenation splits one of its parts. -/
theorem flatMap_split {β : Type u} {f : β → List α} {xs : List β} {before after : List α}
    (h : xs.flatMap f = before ++ b :: after) :
    ∃ x ∈ xs, ∃ before' after', f x = before' ++ b :: after' ∧ before' ⊆ before := by
  induction xs generalizing before with
  | nil => exact absurd h.symm (by simp)
  | cons x xs ih =>
    rw [List.flatMap_cons] at h
    rcases List.append_eq_append_iff.mp h with ⟨more, hbefore, hrest⟩ | ⟨more, hfirst, hafter⟩
    · obtain ⟨y, hy, before', after', hsplit, hsub⟩ := ih hrest
      refine ⟨y, List.mem_cons_of_mem x hy, before', after', hsplit, ?_⟩
      rw [hbefore]
      exact List.Subset.trans hsub (List.subset_append_right _ _)
    · cases more with
      | nil =>
        obtain ⟨y, hy, before', after', hsplit, hsub⟩ := ih (hafter.symm.trans (List.nil_append _).symm)
        exact ⟨y, List.mem_cons_of_mem x hy, before', after', hsplit, fun c hc => by cases hsub hc⟩
      | cons d more =>
        obtain ⟨rfl, -⟩ := List.cons.inj hafter
        exact ⟨x, List.mem_cons_self, before, more, hfirst, List.Subset.refl _⟩

/-- The children of a node come before it. -/
theorem children_before_of_postorder (hshallow : Shallow children k a) {before after : List α}
    (hsplit : postorder children k a = before ++ b :: after) : children b ⊆ before := by
  induction k generalizing a before after with
  | zero => exact absurd hsplit.symm (by simp [postorder])
  | succ k ih =>
    have hbelow := shallow_succ.mp hshallow
    rw [postorder] at hsplit
    rcases List.eq_nil_or_concat after with rfl | ⟨after', last, rfl⟩
    · obtain ⟨rfl, hlast⟩ := List.append_inj' hsplit rfl
      obtain rfl := (List.cons.inj hlast).1
      intro c hc
      refine List.mem_flatMap.mpr ⟨c, hc, ?_⟩
      rw [(postorder_perm_preorder children k c).mem_iff, mem_preorder_iff]
      exact ⟨0, hbelow c hc 0 c (.refl c), .refl c⟩
    · rw [List.concat_eq_append, ← List.cons_append, ← List.append_assoc] at hsplit
      obtain ⟨hbefore, -⟩ := List.append_inj' hsplit rfl
      obtain ⟨c, hc, before', after'', hpart, hsub⟩ := flatMap_split hbefore
      exact List.Subset.trans (ih (hbelow c hc) hpart) hsub

end Unfolding
