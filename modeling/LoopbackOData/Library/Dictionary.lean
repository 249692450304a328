import Mathlib

/-!
# Dictionaries

A dictionary is the list of its pairs in the order in which the keys were first set. Setting a key
again changes its pair in place.
-/

set_option autoImplicit false

universe u v

abbrev Dictionary (κ : Type u) (ν : Type v) := List (κ × ν)

namespace Dictionary

variable {κ : Type u} {ν : Type v} [DecidableEq κ]

omit [DecidableEq κ] in
def empty : Dictionary κ ν := []

def get (d : Dictionary κ ν) (k : κ) : Option ν := (d.find? fun pair => pair.1 = k).map (·.2)

def has (d : Dictionary κ ν) (k : κ) : Bool := d.any fun pair => pair.1 = k

def set : Dictionary κ ν → κ → ν → Dictionary κ ν
  | [], k, v => [(k, v)]
  | pair :: d, k, v => if pair.1 = k then (k, v) :: d else pair :: set d k v

/-- The pairs are set one after the other. -/
def setAll (d : Dictionary κ ν) (pairs : List (κ × ν)) : Dictionary κ ν :=
  pairs.foldl (fun d pair => d.set pair.1 pair.2) d

/-- The pairs whose keys are not there yet are added. -/
def setMissing (d : Dictionary κ ν) : Dictionary κ ν → Dictionary κ ν
  | [] => d
  | pair :: more => setMissing (if d.has pair.1 then d else d.set pair.1 pair.2) more

variable {d : Dictionary κ ν} {k k' : κ} {v : ν}

@[simp] theorem get_empty : (empty : Dictionary κ ν).get k = none := rfl

theorem get_cons (pair : κ × ν) (d : Dictionary κ ν) :
    get (pair :: d) k = if pair.1 = k then some pair.2 else get d k := by
  unfold get
  rw [List.find?_cons]
  by_cases h : pair.1 = k
  · simp [h]
  · simp [h]

theorem get_set : (d.set k v).get k' = if k = k' then some v else d.get k' := by
  induction d with
  | nil =>
    rw [set, get_cons]
  | cons pair d ih =>
    rw [set]
    by_cases hk : pair.1 = k
    · rw [if_pos hk, get_cons, get_cons, hk]
      split <;> rfl
    · rw [if_neg hk, get_cons, get_cons, ih]
      by_cases hk' : pair.1 = k'
      · rw [if_pos hk', if_pos hk', if_neg]
        rintro rfl
        exact hk hk'
      · rw [if_neg hk', if_neg hk']

@[simp] theorem get_set_self : (d.set k v).get k = some v := by rw [get_set, if_pos rfl]

theorem get_set_of_ne (h : k ≠ k') : (d.set k v).get k' = d.get k' := by rw [get_set, if_neg h]

theorem has_iff : d.has k = true ↔ ∃ v, d.get k = some v := by
  induction d with
  | nil => simp [has, get]
  | cons pair d ih =>
    have hcons : has (pair :: d) k = (decide (pair.1 = k) || has d k) := rfl
    rw [hcons, get_cons, Bool.or_eq_true, decide_eq_true_eq]
    by_cases hk : pair.1 = k
    · simp [hk]
    · rw [if_neg hk, ← ih]
      simp [hk]

theorem has_eq_false_iff : d.has k = false ↔ d.get k = none := by
  rw [← Bool.not_eq_true, has_iff, Option.eq_none_iff_forall_ne_some, not_exists]

theorem setAll_cons (pair : κ × ν) (pairs : List (κ × ν)) :
    d.setAll (pair :: pairs) = (d.set pair.1 pair.2).setAll pairs := rfl

theorem get_append (d' : Dictionary κ ν) : get (d ++ d') k = (get d k).or (get d' k) := by
  unfold get
  rw [List.find?_append]
  cases List.find? (fun pair => decide (pair.1 = k)) d <;> rfl

/-- The last pair set under a key counts. -/
theorem get_setAll (pairs : List (κ × ν)) :
    (d.setAll pairs).get k = (get pairs.reverse k).or (d.get k) := by
  induction pairs generalizing d with
  | nil => rfl
  | cons pair pairs ih =>
    rw [setAll_cons, ih, get_set, List.reverse_cons, get_append, get_cons, Option.or_assoc]
    congr 1
    split <;> rfl

theorem get_eq_some_iff :
    d.get k = some v ↔ ∃ before after, d = before ++ (k, v) :: after ∧ ∀ p ∈ before, p.1 ≠ k := by
  induction d with
  | nil => simp [get]
  | cons pair d ih =>
    rw [get_cons]
    by_cases hk : pair.1 = k
    · rw [if_pos hk]
      constructor
      · intro h
        refine ⟨[], d, ?_, by simp⟩
        rw [← hk, ← Option.some.inj h]
        rfl
      · rintro ⟨before, after, heq, hbefore⟩
        cases before with
        | nil => rw [(List.cons.inj heq).1]
        | cons first before =>
          rw [← (List.cons.inj heq).1] at hbefore
          exact absurd hk (hbefore pair List.mem_cons_self)
    · rw [if_neg hk, ih]
      constructor
      · rintro ⟨before, after, rfl, hbefore⟩
        exact ⟨pair :: before, after, rfl, List.forall_mem_cons.mpr ⟨hk, hbefore⟩⟩
      · rintro ⟨before, after, heq, hbefore⟩
        cases before with
        | nil =>
          rw [(List.cons.inj heq).1] at hk
          exact absurd rfl hk
        | cons first before =>
          obtain ⟨rfl, rfl⟩ := List.cons.inj heq
          exact ⟨before, after, rfl, (List.forall_mem_cons.mp hbefore).2⟩

theorem get_eq_none_of_not_mem (h : k ∉ d.map Prod.fst) : d.get k = none := by
  rw [Option.eq_none_iff_forall_ne_some]
  intro v hget
  obtain ⟨before, after, rfl, _⟩ := get_eq_some_iff.mp hget
  exact h (by simp)

/-! ## Distinct keys -/

/-- Every key has one pair. -/
def Distinct (d : Dictionary κ ν) : Prop := (d.map Prod.fst).Nodup

omit [DecidableEq κ] in
theorem distinct_empty : Distinct (empty : Dictionary κ ν) := List.nodup_nil

omit [DecidableEq κ] in
theorem distinct_cons {pair : κ × ν} :
    Distinct (pair :: d) ↔ pair.1 ∉ d.map Prod.fst ∧ Distinct d := List.nodup_cons

theorem mem_keys_set : k' ∈ (d.set k v).map Prod.fst ↔ k' = k ∨ k' ∈ d.map Prod.fst := by
  induction d with
  | nil => simp [set]
  | cons pair d ih =>
    rw [set]
    by_cases hk : pair.1 = k
    · rw [if_pos hk, ← hk]
      simp
    · rw [if_neg hk, List.map_cons, List.mem_cons, ih, List.map_cons, List.mem_cons]
      exact or_left_comm

theorem Distinct.set (h : d.Distinct) : (d.set k v).Distinct := by
  induction d with
  | nil => simp [Dictionary.set, Distinct]
  | cons pair d ih =>
    obtain ⟨hnot, hrest⟩ := distinct_cons.mp h
    rw [Dictionary.set]
    by_cases hk : pair.1 = k
    · rw [if_pos hk]
      exact distinct_cons.mpr ⟨hk ▸ hnot, hrest⟩
    · rw [if_neg hk]
      refine distinct_cons.mpr ⟨fun hmem => ?_, ih hrest⟩
      rcases mem_keys_set.mp hmem with heq | hmem
      · exact hk heq
      · exact hnot hmem

theorem Distinct.setAll (h : d.Distinct) (pairs : List (κ × ν)) : (d.setAll pairs).Distinct := by
  induction pairs generalizing d with
  | nil => exact h
  | cons pair pairs ih => exact ih h.set

/-- Where keys are distinct, every pair is the one found under its key. -/
theorem Distinct.mem_iff (h : d.Distinct) : (k, v) ∈ d ↔ d.get k = some v := by
  rw [get_eq_some_iff]
  constructor
  · intro hmem
    obtain ⟨before, after, rfl⟩ := List.append_of_mem hmem
    refine ⟨before, after, rfl, fun p hp heq => ?_⟩
    rw [Distinct, List.map_append, List.nodup_append] at h
    exact h.2.2 p.1 (List.mem_map_of_mem hp) k (by simp) heq
  · rintro ⟨before, after, rfl, _⟩
    simp

theorem Distinct.get_reverse (h : d.Distinct) : get d.reverse k = d.get k := by
  have hreverse : Distinct (List.reverse d) := by
    rw [Distinct, List.map_reverse, List.nodup_reverse]
    exact h
  refine Option.ext fun v => ?_
  rw [← hreverse.mem_iff, List.mem_reverse, h.mem_iff]

/-- What is left of pairs set one after the other is the last pair of every key. -/
theorem mem_setAll_empty {pairs : List (κ × ν)} :
    (k, v) ∈ (empty : Dictionary κ ν).setAll pairs ↔
      ∃ before after, pairs = before ++ (k, v) :: after ∧ ∀ p ∈ after, p.1 ≠ k := by
  rw [(distinct_empty.setAll pairs).mem_iff, get_setAll, get_empty, Option.or_none,
    get_eq_some_iff]
  constructor
  · rintro ⟨before, after, heq, hbefore⟩
    refine ⟨after.reverse, before.reverse, ?_, fun p hp => hbefore p (List.mem_reverse.mp hp)⟩
    rw [← List.reverse_reverse pairs, heq]
    simp
  · rintro ⟨before, after, rfl, hafter⟩
    exact ⟨after.reverse, before.reverse, by simp, fun p hp => hafter p (List.mem_reverse.mp hp)⟩

/-! ## Dictionaries over keys -/

/-- The dictionary that gives each of the keys its value under a function. -/
def ofKeys (keys : List κ) (f : κ → ν) : Dictionary κ ν :=
  (empty : Dictionary κ ν).setAll (keys.map fun k => (k, f k))

/-- The keys in the order in which they occur first. -/
def distinctKeys (keys : List κ) : List κ :=
  keys.foldl (fun names k => if k ∈ names then names else names ++ [k]) []

theorem set_map_of_mem {names : List κ} {f : κ → ν} (h : k ∈ names) :
    set (names.map fun name => (name, f name)) k (f k) = names.map fun name => (name, f name) := by
  induction names with
  | nil => cases h
  | cons name names ih =>
    rw [List.map_cons, set]
    by_cases hk : name = k
    · rw [if_pos hk, hk]
    · rw [if_neg hk, ih ((List.mem_cons.mp h).resolve_left (Ne.symm hk))]

theorem set_map_of_not_mem {names : List κ} {f : κ → ν} (h : k ∉ names) :
    set (names.map fun name => (name, f name)) k (f k) =
      (names ++ [k]).map fun name => (name, f name) := by
  induction names with
  | nil => rfl
  | cons name names ih =>
    obtain ⟨hne, hnot⟩ := not_or.mp (List.mem_cons.not.mp h)
    rw [List.map_cons, set, if_neg (Ne.symm hne), ih hnot]
    rfl

/-- The keys of such a dictionary do not depend on the function. -/
theorem ofKeys_eq (keys : List κ) (f : κ → ν) :
    ofKeys keys f = (distinctKeys keys).map fun k => (k, f k) := by
  have hfold (names : List κ) :
      setAll (names.map fun k => (k, f k)) (keys.map fun k => (k, f k)) =
        (keys.foldl (fun names k => if k ∈ names then names else names ++ [k]) names).map
          fun k => (k, f k) := by
    induction keys generalizing names with
    | nil => rfl
    | cons k keys ih =>
      rw [List.map_cons, setAll_cons, List.foldl_cons]
      by_cases hk : k ∈ names
      · rw [set_map_of_mem hk, if_pos hk, ih]
      · rw [set_map_of_not_mem hk, if_neg hk, ih]
  exact hfold []

theorem distinct_ofKeys (keys : List κ) (f : κ → ν) : (ofKeys keys f).Distinct :=
  distinct_empty.setAll _

theorem get_map_keys {names : List κ} {f : κ → ν} :
    get (names.map fun k => (k, f k)) k = if k ∈ names then some (f k) else none := by
  induction names with
  | nil => rfl
  | cons name names ih =>
    rw [List.map_cons, get_cons, ih]
    by_cases hname : name = k
    · rw [if_pos hname, if_pos (hname ▸ List.mem_cons_self), hname]
    · rw [if_neg hname]
      simp [Ne.symm hname]

theorem get_ofKeys {keys : List κ} {f : κ → ν} :
    (ofKeys keys f).get k = if k ∈ keys then some (f k) else none := by
  rw [ofKeys, get_setAll, get_empty, Option.or_none, ← List.map_reverse, get_map_keys]
  simp only [List.mem_reverse]

theorem mem_distinctKeys {keys : List κ} : k ∈ distinctKeys keys ↔ k ∈ keys := by
  have hget := @get_ofKeys κ Unit _ k keys fun _ => ()
  have hmem : k ∈ distinctKeys keys ↔ (k, ()) ∈ ofKeys keys fun _ => () := by
    rw [ofKeys_eq]
    simp
  rw [hmem, (distinct_ofKeys keys _).mem_iff, hget]
  split <;> simp [*]

theorem keys_set (d : Dictionary κ ν) (k : κ) (v : ν) :
    (d.set k v).map Prod.fst =
      if k ∈ d.map Prod.fst then d.map Prod.fst else d.map Prod.fst ++ [k] := by
  induction d with
  | nil => rfl
  | cons pair d ih =>
    rw [Dictionary.set]
    by_cases hk : pair.1 = k
    · rw [if_pos hk, if_pos (by simp [hk]), List.map_cons, List.map_cons, hk]
    · rw [if_neg hk, List.map_cons, ih, List.map_cons]
      have hmem : k ∈ pair.1 :: d.map Prod.fst ↔ k ∈ d.map Prod.fst := by
        rw [List.mem_cons]
        exact or_iff_right (Ne.symm hk)
      simp only [hmem]
      split <;> rfl

theorem has_eq_isSome (d : Dictionary κ ν) (k : κ) :
    d.has k = (d.get k).isSome := by
  cases hget : d.get k with
  | none => exact has_eq_false_iff.mpr hget
  | some v => exact has_iff.mpr ⟨v, hget⟩

theorem isEmpty_iff_get (d : Dictionary κ ν) :
    d.isEmpty = true ↔ ∀ k, d.get k = none := by
  cases d with
  | nil => simp [Dictionary.get]
  | cons pair d =>
    constructor
    · intro h
      cases h
    · intro h
      have hpair := h pair.1
      rw [get_cons, if_pos rfl] at hpair
      cases hpair

theorem get_filter_ne (d : Dictionary κ ν) (k k' : κ) :
    Dictionary.get (d.filter fun pair => pair.1 ≠ k) k' =
      if k = k' then none else d.get k' := by
  induction d with
  | nil => simp [Dictionary.get]
  | cons pair d ih =>
    rw [List.filter_cons, get_cons]
    by_cases hk : pair.1 = k
    · rw [if_neg (by simp [hk]), ih, hk]
      by_cases hk' : k = k'
      · rw [if_pos hk', if_pos hk']
      · rw [if_neg hk', if_neg hk', if_neg hk']
    · rw [if_pos (by simp [hk]), get_cons, ih]
      by_cases hk' : pair.1 = k'
      · rw [if_pos hk', if_pos hk', if_neg (fun h => hk (hk'.trans h.symm))]
      · rw [if_neg hk', if_neg hk']

theorem mem_set {entry : κ × ν} (h : entry ∈ d.set k v) : entry = (k, v) ∨ entry ∈ d := by
  induction d with
  | nil => exact Or.inl (List.mem_singleton.mp h)
  | cons pair d ih =>
    rw [Dictionary.set] at h
    split at h
    · rcases List.mem_cons.mp h with h | h
      · exact Or.inl h
      · exact Or.inr (List.mem_cons_of_mem _ h)
    · rcases List.mem_cons.mp h with h | h
      · exact Or.inr (h ▸ List.mem_cons_self)
      · rcases ih h with h | h
        · exact Or.inl h
        · exact Or.inr (List.mem_cons_of_mem _ h)

/-- Setting a key in its place changes nothing that the two values agree on. -/
theorem map_set_of_get {β : Type*} {f : ν → β} {v' : ν} (hget : d.get k = some v')
    (hf : f v = f v') : (d.set k v).map (fun pair => f pair.2) = d.map fun pair => f pair.2 := by
  induction d with
  | nil => cases hget
  | cons pair d ih =>
    rw [get_cons] at hget
    rw [Dictionary.set]
    split at hget
    · next hpair =>
      obtain rfl := Option.some.inj hget
      rw [if_pos hpair, List.map_cons, List.map_cons, hf]
    · next hpair => rw [if_neg hpair, List.map_cons, List.map_cons, ih hget]

/-! ## Combining values -/

/-- The value is combined with the one at the key, or with `start` if there is none. -/
def combineAt (f : ν → ν → ν) (start : ν) (d : Dictionary κ ν) (pair : κ × ν) : Dictionary κ ν :=
  d.set pair.1 (f ((d.get pair.1).getD start) pair.2)

theorem get_combineAt (f : ν → ν → ν) (start : ν) (d : Dictionary κ ν) (pair : κ × ν) (k : κ) :
    (d.combineAt f start pair).get k =
      if pair.1 = k then some (f ((d.get k).getD start) pair.2) else d.get k := by
  rw [combineAt, get_set]
  by_cases h : pair.1 = k
  · rw [if_pos h, if_pos h, h]
  · rw [if_neg h, if_neg h]

theorem Distinct.foldl_combineAt (f : ν → ν → ν) (start : ν) (h : d.Distinct)
    (pairs : List (κ × ν)) : Distinct (pairs.foldl (combineAt f start) d) := by
  induction pairs generalizing d with
  | nil => exact h
  | cons pair pairs ih => exact ih h.set

/-- Of pairs with distinct keys, only the one at a key bears on it. -/
theorem get_foldl_combineAt (f : ν → ν → ν) (start : ν) {pairs : Dictionary κ ν}
    (h : pairs.Distinct) (d : Dictionary κ ν) (k : κ) :
    get (pairs.foldl (combineAt f start) d) k =
      (pairs.get k).elim (d.get k) fun v => some (f ((d.get k).getD start) v) := by
  induction pairs generalizing d with
  | nil => rfl
  | cons pair pairs ih =>
    obtain ⟨hnew, hrest⟩ := distinct_cons.mp h
    rw [List.foldl_cons, ih hrest, get_combineAt, get_cons]
    by_cases hk : pair.1 = k
    · rw [if_pos hk, if_pos hk, get_eq_none_of_not_mem (hk ▸ hnew)]
      rfl
    · rw [if_neg hk, if_neg hk]

theorem keys_combineAt (f : ν → ν → ν) (start : ν) (d : Dictionary κ ν) (pair : κ × ν) (k : κ) :
    k ∈ (d.combineAt f start pair).map Prod.fst ↔ k = pair.1 ∨ k ∈ d.map Prod.fst :=
  mem_keys_set

theorem keys_foldl_combineAt (f : ν → ν → ν) (start : ν) (d : Dictionary κ ν)
    (pairs : List (κ × ν)) (k : κ) :
    k ∈ (pairs.foldl (combineAt f start) d).map Prod.fst ↔
      k ∈ pairs.map Prod.fst ∨ k ∈ d.map Prod.fst := by
  induction pairs generalizing d with
  | nil => simp
  | cons pair pairs ih =>
    rw [List.foldl_cons, ih, keys_combineAt, List.map_cons, List.mem_cons]
    tauto

end Dictionary
