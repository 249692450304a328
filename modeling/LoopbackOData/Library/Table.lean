import Mathlib

/-!
# Tables with keys

A table is a list of rows with a key each, no key twice. Changing a row in its place and adding a
row with a new key keep that.
-/

set_option autoImplicit false

universe u v

structure Table (α : Type u) (κ : Type v) (key : α → κ) where
  rows : List α
  nodup : (rows.map key).Nodup

namespace Table

variable {α : Type u} {κ : Type v} {key : α → κ}

theorem eq_of_key {t : Table α κ key} {a b : α} (ha : a ∈ t.rows) (hb : b ∈ t.rows)
    (h : key a = key b) : a = b :=
  List.inj_on_of_nodup_map t.nodup ha hb h

section Find

variable [DecidableEq κ]

def find (t : Table α κ key) (k : κ) : Option α := t.rows.find? fun a => key a = k

theorem find_eq_some_iff {t : Table α κ key} {k : κ} {a : α} :
    t.find k = some a ↔ a ∈ t.rows ∧ key a = k := by
  constructor
  · intro h
    exact ⟨List.mem_of_find?_eq_some h, by simpa using List.find?_some h⟩
  · rintro ⟨hmem, rfl⟩
    cases hfind : t.find (key a) with
    | none =>
      have := List.find?_eq_none.mp hfind a hmem
      simp at this
    | some b =>
      have hb := List.find?_some hfind
      rw [eq_of_key (List.mem_of_find?_eq_some hfind) hmem (by simpa using hb)]

theorem find_eq_none_iff {t : Table α κ key} {k : κ} :
    t.find k = none ↔ ∀ a ∈ t.rows, key a ≠ k := by
  rw [find, List.find?_eq_none]
  simp

theorem key_of_find {t : Table α κ key} {k : κ} {a : α} (h : t.find k = some a) : key a = k :=
  (find_eq_some_iff.mp h).2

theorem find_of_mem {t : Table α κ key} {a : α} (h : a ∈ t.rows) : t.find (key a) = some a :=
  find_eq_some_iff.mpr ⟨h, rfl⟩

/-! ## Changing a row -/

/-- The row with a key is changed, by a function that leaves keys as they are. -/
def modify (t : Table α κ key) (k : κ) (f : α → α) (hf : ∀ a, key (f a) = key a) :
    Table α κ key where
  rows := t.rows.map fun a => if key a = k then f a else a
  nodup := by
    have h : (t.rows.map fun a => if key a = k then f a else a).map key = t.rows.map key := by
      rw [List.map_map]
      apply List.map_congr_left
      intro a _
      rw [Function.comp_apply]
      split
      · exact hf a
      · rfl
    rw [h]
    exact t.nodup

variable {t : Table α κ key} {k : κ} {f : α → α} {hf : ∀ a, key (f a) = key a}

theorem find_modify (k' : κ) :
    (t.modify k f hf).find k' = (t.find k').map fun a => if key a = k then f a else a := by
  rw [find, modify, List.find?_map, find]
  congr 1
  apply congrArg (fun p => t.rows.find? p)
  funext a
  rw [Function.comp_apply]
  split
  · rw [hf]
  · rfl

theorem find_modify_self : (t.modify k f hf).find k = (t.find k).map f := by
  rw [find_modify]
  cases h : t.find k with
  | none => rfl
  | some a => simp [key_of_find h]

theorem find_modify_of_ne {k' : κ} (h : k' ≠ k) : (t.modify k f hf).find k' = t.find k' := by
  rw [find_modify]
  cases hfind : t.find k' with
  | none => rfl
  | some a => simp [key_of_find hfind, h]

theorem mem_modify {b : α} :
    b ∈ (t.modify k f hf).rows ↔ ∃ a ∈ t.rows, (if key a = k then f a else a) = b := by
  rw [modify, List.mem_map]

/-! ## Changing many rows -/

/-- Every row is changed, by a function that leaves keys as they are. -/
def map (t : Table α κ key) (f : α → α) (hf : ∀ a, key (f a) = key a) : Table α κ key where
  rows := t.rows.map f
  nodup := by
    have h : (t.rows.map f).map key = t.rows.map key := by
      rw [List.map_map]
      exact List.map_congr_left fun a _ => hf a
    rw [h]
    exact t.nodup

theorem find_map (k : κ) : (t.map f hf).find k = (t.find k).map f := by
  rw [find, map, List.find?_map, find]
  congr 1
  apply congrArg (fun p => t.rows.find? p)
  funext a
  rw [Function.comp_apply, hf]

omit [DecidableEq κ] in
theorem mem_map {b : α} : b ∈ (t.map f hf).rows ↔ ∃ a ∈ t.rows, f a = b := by
  rw [map, List.mem_map]

/-! ## Adding a row -/

/-- A row with a new key comes last. -/
def insert (t : Table α κ key) (a : α) (h : t.find (key a) = none) : Table α κ key where
  rows := t.rows ++ [a]
  nodup := by
    rw [List.map_append, List.map_cons, List.map_nil, List.nodup_append]
    refine ⟨t.nodup, List.nodup_singleton _, ?_⟩
    intro k hk b hb
    rw [List.mem_map] at hk
    obtain ⟨c, hc, rfl⟩ := hk
    rw [List.mem_singleton] at hb
    rw [hb]
    exact find_eq_none_iff.mp h c hc

theorem find_insert_self {a : α} {h : t.find (key a) = none} :
    (t.insert a h).find (key a) = some a :=
  find_of_mem (List.mem_append_right _ List.mem_cons_self)

theorem find_insert_of_ne {a : α} {h : t.find (key a) = none} (hne : k ≠ key a) :
    (t.insert a h).find k = t.find k := by
  rw [find, insert, List.find?_append, find]
  cases t.rows.find? fun b => key b = k with
  | some b => rfl
  | none => simp [Ne.symm hne]

end Find

end Table
