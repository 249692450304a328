import LoopbackOData.Library.Dictionary

/-!
# Grouping

Items are put into a dictionary one by one, each under its key, and what is there is updated with
it. What is left under a key is what the items of that key alone give, and the keys are in the
order in which they occurred first.
-/

set_option autoImplicit false

universe u v w

namespace Dictionary

variable {κ : Type u} {ν : Type v} {ι : Type w} [DecidableEq κ]

/-- The keys one after the other. -/
theorem distinctKeys_append (keys : List κ) (k : κ) :
    distinctKeys (keys ++ [k]) =
      if k ∈ keys then distinctKeys keys else distinctKeys keys ++ [k] := by
  rw [distinctKeys, List.foldl_append, ← distinctKeys, List.foldl_cons, List.foldl_nil]
  simp only [mem_distinctKeys]

theorem nodup_distinctKeys (keys : List κ) : (distinctKeys keys).Nodup := by
  induction keys using List.reverseRecOn with
  | nil => exact List.nodup_nil
  | append_singleton keys k ih =>
    rw [distinctKeys_append]
    split
    · exact ih
    · next hnot =>
      refine List.nodup_append.mpr ⟨ih, List.nodup_singleton k, ?_⟩
      rintro k' hmem _ hsingle rfl
      rw [List.mem_singleton.mp hsingle] at hmem
      exact hnot (mem_distinctKeys.mp hmem)

/-- Keys that a function tells apart stay apart. -/
theorem distinctKeys_map {κ' : Type*} [DecidableEq κ'] {f : κ → κ'} {keys : List κ}
    (hf : ∀ k ∈ keys, ∀ k' ∈ keys, f k = f k' → k = k') :
    distinctKeys (keys.map f) = (distinctKeys keys).map f := by
  induction keys using List.reverseRecOn with
  | nil => rfl
  | append_singleton keys k ih =>
    have hmem : f k ∈ keys.map f ↔ k ∈ keys := by
      constructor
      · intro h
        obtain ⟨k', hk', heq⟩ := List.mem_map.mp h
        rw [← hf k' (List.mem_append_left _ hk') k (by simp) heq]
        exact hk'
      · exact List.mem_map_of_mem
    rw [List.map_append, List.map_cons, List.map_nil, distinctKeys_append, distinctKeys_append,
      ih fun k hk k' hk' => hf k (List.mem_append_left _ hk) k' (List.mem_append_left _ hk')]
    simp only [hmem]
    split
    · rfl
    · rw [List.map_append]
      rfl

/-- What the items leave, one after the other. -/
def collect (add : Option ν → ι → ν) (items : List ι) : Option ν :=
  items.foldl (fun value item => some (add value item)) none

theorem collect_append (add : Option ν → ι → ν) (items : List ι) (item : ι) :
    collect add (items ++ [item]) = some (add (collect add items) item) := by
  rw [collect, List.foldl_append]
  rfl

theorem collect_eq_none_iff {add : Option ν → ι → ν} {items : List ι} :
    collect add items = none ↔ items = [] := by
  cases items using List.reverseRecOn with
  | nil => exact iff_of_true rfl rfl
  | append_singleton items item =>
    rw [collect_append]
    exact iff_of_false (Option.some_ne_none _) (by simp)

/-- The items under their keys. -/
def groupItems (key : ι → κ) (add : Option ν → ι → ν) (items : List ι) : Dictionary κ ν :=
  items.foldl (fun d item => d.set (key item) (add (d.get (key item)) item)) empty

variable (key : ι → κ) (add : Option ν → ι → ν) (items : List ι)

theorem groupItems_append (item : ι) :
    groupItems key add (items ++ [item]) =
      (groupItems key add items).set (key item)
        (add ((groupItems key add items).get (key item)) item) := by
  rw [groupItems, List.foldl_append]
  rfl

theorem get_groupItems (k : κ) :
    (groupItems key add items).get k = collect add (items.filter fun item => key item = k) := by
  induction items using List.reverseRecOn generalizing k with
  | nil => rfl
  | append_singleton items item ih =>
    rw [groupItems_append, get_set, ih, List.filter_append, List.filter_singleton]
    by_cases hk : key item = k
    · subst hk
      rw [if_pos rfl, decide_eq_true rfl, cond_true, collect_append]
    · rw [if_neg hk, decide_eq_false hk, cond_false, List.append_nil, ih]

theorem keys_groupItems :
    (groupItems key add items).map Prod.fst = distinctKeys (items.map key) := by
  induction items using List.reverseRecOn with
  | nil => rfl
  | append_singleton items item ih =>
    rw [groupItems_append, keys_set, ih, List.map_append, List.map_cons, List.map_nil,
      distinctKeys_append]
    simp only [mem_distinctKeys]

theorem distinct_groupItems : (groupItems key add items).Distinct := by
  rw [Distinct, keys_groupItems]
  exact nodup_distinctKeys _

/-- The values, where every group of items is known to give the value of its key. -/
theorem map_groupItems {β : Type*} (f : κ → β) (g : κ × ν → β)
    (h : ∀ pair, collect add (items.filter fun item => key item = pair.1) = some pair.2 →
      g pair = f pair.1) :
    (groupItems key add items).map g = (distinctKeys (items.map key)).map f := by
  rw [← keys_groupItems key add items, List.map_map]
  refine List.map_congr_left fun pair hmem => h pair ?_
  rw [← get_groupItems]
  exact (distinct_groupItems key add items).mem_iff.mp hmem

end Dictionary
