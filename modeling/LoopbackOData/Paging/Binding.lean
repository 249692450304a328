import LoopbackOData.Library.ListRelations
import LoopbackOData.Paging.TokenSigning

/-!
# What a signature binds

The text that is signed tells JSON values apart, up to the order of properties, except where they
differ in nothing but properties named `__proto__` and numbers out of range: the former are lost in
the normalization, the latter are written as `null`.
-/

namespace LoopbackOData

open Outcome

set_option autoImplicit false

/-! ## The order of the keys -/

theorem utf16_append_inj {c d : Char} {s t : List Nat} (h : utf16 c ++ s = utf16 d ++ t) :
    c = d ∧ s = t := by
  have hvalid : ∀ c : Char, c.toNat < 0xd800 ∨ 0xdfff < c.toNat ∧ c.toNat < 0x110000 := fun c =>
    c.valid
  have hc := hvalid c
  have hd := hvalid d
  have heq : ∀ {c d : Char}, c.toNat = d.toNat → c = d := fun h => Char.toNat_inj.mp h
  unfold utf16 at h
  split at h
  · split at h
    · obtain ⟨hhead, htail⟩ := List.cons.inj h
      exact ⟨heq hhead, htail⟩
    · obtain ⟨hhead, -⟩ := List.cons.inj h
      omega
  · split at h
    · obtain ⟨hhead, -⟩ := List.cons.inj h
      omega
    · obtain ⟨hhead, htail⟩ := List.cons.inj h
      obtain ⟨hnext, htail⟩ := List.cons.inj htail
      exact ⟨heq (by omega), htail⟩

theorem utf16_injective {s t : Text} (h : s.flatMap utf16 = t.flatMap utf16) : s = t := by
  have hne : ∀ c, utf16 c ≠ [] := by
    intro c
    unfold utf16
    split <;> exact List.cons_ne_nil _ _
  induction s generalizing t with
  | nil =>
    cases t with
    | nil => rfl
    | cons d t =>
      rw [List.flatMap_nil, List.flatMap_cons, eq_comm, List.append_eq_nil_iff] at h
      exact absurd h.1 (hne d)
  | cons c s ih =>
    cases t with
    | nil =>
      rw [List.flatMap_nil, List.flatMap_cons, List.append_eq_nil_iff] at h
      exact absurd h.1 (hne c)
    | cons d t =>
      rw [List.flatMap_cons, List.flatMap_cons] at h
      obtain ⟨rfl, htail⟩ := utf16_append_inj h
      rw [ih htail]

/-- The digits of a number without leading zeros are those that are printed for it. -/
theorem digits_digitsValue {s : Text} (hne : s ≠ []) (hall : s.all isDigit)
    (hzero : s.length = 1 ∨ s.head? ≠ some '0') : Json.digits (digitsValue s) = s := by
  have hdigit : ∀ c, isDigit c = true →
      c.toNat - '0'.toNat < 10 ∧ Nat.digitChar (c.toNat - '0'.toNat) = c := by
    intro c hc
    have hrange : 48 ≤ c.toNat ∧ c.toNat ≤ 57 := by
      simpa [isDigit, Char.le_def, UInt32.le_iff_toNat_le] using hc
    refine ⟨by change c.toNat - 48 < 10; omega, ?_⟩
    obtain ⟨n, hn⟩ : ∃ n, n = c.toNat - 48 := ⟨_, rfl⟩
    have hlt : n < 10 := by omega
    apply Char.toNat_inj.mp
    have htoNat : ∀ m < 10, (Nat.digitChar m).toNat = m + 48 := by decide
    change (Nat.digitChar (c.toNat - 48)).toNat = c.toNat
    rw [← hn, htoNat n hlt]
    omega
  induction s using List.reverseRecOn with
  | nil => exact absurd rfl hne
  | append_singleton s c ih =>
    rw [List.all_append, Bool.and_eq_true, List.all_cons, List.all_nil, Bool.and_true] at hall
    obtain ⟨hlt, hchar⟩ := hdigit c hall.2
    have hvalue : digitsValue (s ++ [c]) = digitsValue s * 10 + (c.toNat - '0'.toNat) := by
      rw [digitsValue_append]
      simp [digitsValue]
    by_cases hs : s = []
    · subst hs
      have hsingle : digitsValue [] * 10 + (c.toNat - '0'.toNat) = c.toNat - '0'.toNat := by
        simp [digitsValue]
      rw [hvalue, hsingle, Json.digits, if_pos hlt, hchar]
      rfl
    · have hhead : s.head? ≠ some '0' := by
        rcases hzero with hlength | hhead
        · rw [List.length_append, List.length_singleton] at hlength
          exact absurd (List.length_eq_zero_iff.mp (by omega)) hs
        · rwa [List.head?_append_of_ne_nil _ hs] at hhead
      have hprefix := ih hs hall.1 (.inr hhead)
      have hpos : digitsValue s ≠ 0 := by
        intro hzero
        rw [hzero] at hprefix
        rw [← hprefix] at hhead
        exact hhead (by rw [Json.digits]; rfl)
      rw [hvalue, Json.digits, if_neg (by omega)]
      have hdiv : (digitsValue s * 10 + (c.toNat - '0'.toNat)) / 10 = digitsValue s := by omega
      have hmod : (digitsValue s * 10 + (c.toNat - '0'.toNat)) % 10 = c.toNat - '0'.toNat := by
        omega
      rw [hdiv, hmod, hprefix, hchar]

theorem arrayIndex_inj {key key' : Text} {index : Nat} (h : arrayIndex key = some index)
    (h' : arrayIndex key' = some index) : key = key' := by
  have hdigits : ∀ key : Text, arrayIndex key = some index → Json.digits index = key := by
    intro key h
    unfold arrayIndex at h
    split at h
    · next hkey =>
      obtain ⟨hne, hall, hzero⟩ := hkey
      dsimp only at h
      split at h
      · rw [← Option.some.inj h]
        exact digits_digitsValue hne hall hzero
      · cases h
    · cases h
  rw [← hdigits key h, hdigits key' h']

theorem compareText_ne_gt_iff {s t : Text} :
    (compareText s t != .gt) = true ↔ s.flatMap utf16 ≤ t.flatMap utf16 := by
  have hle : (compareText s t).isLE = true ↔ s.flatMap utf16 ≤ t.flatMap utf16 :=
    isLE_compareOfLessAndEq (fun {_ _} => le_antisymm) (fun {_ _} => not_le) le_total
  rw [← hle]
  cases compareText s t <;> decide

theorem beforeKey_total (a b : Text) : (beforeKey a b || beforeKey b a) = true := by
  unfold beforeKey
  cases arrayIndex a with
  | some i =>
    cases arrayIndex b with
    | some j => simpa using Nat.le_total i j
    | none => rfl
  | none =>
    cases arrayIndex b with
    | some j => rfl
    | none =>
      rw [Bool.or_eq_true, compareText_ne_gt_iff, compareText_ne_gt_iff]
      exact le_total _ _

theorem beforeKey_trans (a b c : Text) (h : beforeKey a b = true) (h' : beforeKey b c = true) :
    beforeKey a c = true := by
  unfold beforeKey at h h' ⊢
  cases ha : arrayIndex a with
  | some i =>
    cases hb : arrayIndex b with
    | some j =>
      cases hc : arrayIndex c with
      | some k =>
        simp only [ha, hb, hc, decide_eq_true_eq] at h h' ⊢
        omega
      | none => rfl
    | none =>
      cases hc : arrayIndex c with
      | some k => simp [hb, hc] at h'
      | none => rfl
  | none =>
    cases hb : arrayIndex b with
    | some j => simp [ha, hb] at h
    | none =>
      cases hc : arrayIndex c with
      | some k => simp [hb, hc] at h'
      | none =>
        simp only [ha, hb, hc, compareText_ne_gt_iff] at h h' ⊢
        exact h.trans h'

theorem beforeKey_antisymm {a b : Text} (h : beforeKey a b = true) (h' : beforeKey b a = true) :
    a = b := by
  unfold beforeKey at h h'
  cases ha : arrayIndex a with
  | some i =>
    cases hb : arrayIndex b with
    | some j =>
      simp only [ha, hb, decide_eq_true_eq] at h h'
      obtain rfl : i = j := by omega
      exact arrayIndex_inj ha hb
    | none => simp [ha, hb] at h'
  | none =>
    cases hb : arrayIndex b with
    | some j => simp [ha, hb] at h
    | none =>
      simp only [ha, hb, compareText_ne_gt_iff] at h h'
      exact utf16_injective (le_antisymm h h')

/-! ## The fields of an object -/

/-- The value of a property: the last one that the text gives it. -/
def lastField {α : Type} (fields : List (Text × α)) (key : Text) : Option α :=
  fields.reverse.lookup key

section Fields

variable {α : Type} {fields fields' : List (Text × α)} {key : Text} {value : α}

theorem lastField_cons (field : Text × α) (fields : List (Text × α)) (key : Text) :
    lastField (field :: fields) key =
      (lastField fields key).or (if key = field.1 then some field.2 else none) := by
  obtain ⟨key', value⟩ := field
  unfold lastField
  rw [List.reverse_cons, List.lookup_append]
  by_cases h : key = key'
  · simp [h]
  · have hne : (key == key') = false := by simpa using h
    rw [if_neg h, List.lookup_cons, hne]
    rfl

theorem lastField_eq_none : lastField fields key = none ↔ key ∉ fields.map Prod.fst := by
  induction fields with
  | nil => simp [lastField]
  | cons field fields ih =>
    rw [lastField_cons, Option.or_eq_none_iff, ih, List.map_cons, List.mem_cons, not_or, and_comm]
    simp

theorem mem_lastFields : (key, value) ∈ lastFields fields ↔ lastField fields key = some value := by
  induction fields with
  | nil => simp [lastFields, lastField]
  | cons field fields ih =>
    rw [lastFields, lastField_cons]
    split
    · next hmem =>
      rw [ih]
      by_cases h : key = field.1
      · subst h
        have hsome : lastField fields field.1 ≠ none := fun hnone => lastField_eq_none.mp hnone hmem
        obtain ⟨last, hlast⟩ := Option.ne_none_iff_exists'.mp hsome
        rw [hlast]
        rfl
      · rw [if_neg h, Option.or_none]
    · next hmem =>
      rw [List.mem_cons, ih]
      by_cases h : key = field.1
      · subst h
        have hnone : lastField fields field.1 = none := lastField_eq_none.mpr hmem
        rw [hnone, if_pos rfl]
        obtain ⟨key', value'⟩ := field
        simp [eq_comm]
      · rw [if_neg h, Option.or_none, or_iff_right]
        rintro rfl
        exact h rfl

theorem nodup_lastFields : ((lastFields fields).map Prod.fst).Nodup := by
  induction fields with
  | nil => exact List.nodup_nil
  | cons field fields ih =>
    rw [lastFields]
    split
    · exact ih
    · next hmem =>
      rw [List.map_cons, List.nodup_cons]
      refine ⟨fun hin => ?_, ih⟩
      obtain ⟨⟨key, value⟩, hlast, rfl⟩ := List.mem_map.mp hin
      rw [mem_lastFields] at hlast
      exact hmem (not_not.mp fun hout => by rw [lastField_eq_none.mpr hout] at hlast; cases hlast)

/-- The fields in the order of their keys are the same exactly if each property has the same
value. -/
theorem sorted_lastFields_eq_iff :
    ((lastFields fields).mergeSort fun a b => beforeKey a.1 b.1) =
        ((lastFields fields').mergeSort fun a b => beforeKey a.1 b.1) ↔
      ∀ key, lastField fields key = lastField fields' key := by
  have hperm : ∀ fields : List (Text × α),
      ((lastFields fields).mergeSort fun a b => beforeKey a.1 b.1).Perm (lastFields fields) :=
    fun fields => List.mergeSort_perm _ _
  constructor
  · intro h key
    have hmem : ∀ field, field ∈ lastFields fields ↔ field ∈ lastFields fields' := by
      intro field
      rw [← (hperm fields).mem_iff, h, (hperm fields').mem_iff]
    refine Option.ext fun value => ?_
    rw [← mem_lastFields, ← mem_lastFields]
    exact hmem (key, value)
  · intro h
    have hsame : (lastFields fields).Perm (lastFields fields') := by
      refine (List.perm_ext_iff_of_nodup nodup_lastFields.of_map nodup_lastFields.of_map).mpr ?_
      rintro ⟨key, value⟩
      rw [mem_lastFields, mem_lastFields, h key]
    have hsorted : ∀ fields : List (Text × α),
        ((lastFields fields).mergeSort fun a b => beforeKey a.1 b.1).Pairwise
          fun a b => beforeKey a.1 b.1 = true := fun fields =>
      List.pairwise_mergeSort (fun a b c => beforeKey_trans a.1 b.1 c.1)
        (fun a b => beforeKey_total a.1 b.1) _
    refine List.Perm.eq_of_pairwise ?_ (hsorted fields) (hsorted fields')
      ((hperm fields).trans (hsame.trans (hperm fields').symm))
    rintro ⟨key, value⟩ ⟨key', value'⟩ hmem hmem' hle hle'
    obtain rfl : key = key' := beforeKey_antisymm hle hle'
    rw [(hperm fields).mem_iff, mem_lastFields, h] at hmem
    rw [(hperm fields').mem_iff, mem_lastFields, hmem] at hmem'
    rw [Option.some.inj hmem']

theorem lastField_map {β : Type} (f : α → β) :
    lastField (fields.map fun field => (field.1, f field.2)) key = (lastField fields key).map f := by
  induction fields with
  | nil => rfl
  | cons field fields ih =>
    rw [List.map_cons, lastField_cons, lastField_cons, ih]
    by_cases h : key = field.1
    · cases hlast : lastField fields key <;> simp [h]
    · cases hlast : lastField fields key <;> simp [h]

theorem lastField_filter (p : Text → Bool) :
    lastField (fields.filter fun field => p field.1) key =
      if p key then lastField fields key else none := by
  induction fields with
  | nil => simp [lastField]
  | cons field fields ih =>
    rw [List.filter_cons, lastField_cons]
    by_cases hfield : p field.1 = true
    · rw [if_pos hfield, lastField_cons, ih]
      by_cases hkey : p key = true
      · simp [hkey]
      · have hne : key ≠ field.1 := fun heq => hkey (heq ▸ hfield)
        simp [hkey, hne]
    · rw [if_neg hfield, ih]
      by_cases hkey : p key = true
      · have hne : key ≠ field.1 := fun heq => hfield (heq ▸ hkey)
        simp [hkey, hne]
      · simp [hkey]

end Fields

/-! ## Equal values -/

/-- Values, each read with its numbers, that are equal up to the order of properties; `0` and `-0`
are one number. -/
inductive SameValue (read read' : NumberReading) : Json.Value → Json.Value → Prop where
  | null : SameValue read read' .null .null
  | bool (b : Bool) : SameValue read read' (.bool b) (.bool b)
  | num {n n' : Json.Number} (h : read n = read' n') : SameValue read read' (.num n) (.num n')
  | str (s : Text) : SameValue read read' (.str s) (.str s)
  | arr {items items' : List Json.Value} (h : List.Forall₂ (SameValue read read') items items') :
    SameValue read read' (.arr items) (.arr items')
  | obj {fields fields' : List (Text × Json.Value)}
    (h : ∀ key, Option.Rel (SameValue read read') (lastField fields key) (lastField fields' key)) :
    SameValue read read' (.obj fields) (.obj fields')

mutual

/-- What is left of a value without its properties named `__proto__`, and with `null` for the
numbers out of range. -/
def shown (read : NumberReading) : Json.Value → Json.Value
  | .null => .null
  | .bool b => .bool b
  | .num n => (read n).print
  | .str s => .str s
  | .arr items => .arr (shownItems read items)
  | .obj fields => .obj (shownFields read fields)

def shownItems (read : NumberReading) : List Json.Value → List Json.Value
  | [] => []
  | item :: items => shown read item :: shownItems read items

def shownFields (read : NumberReading) : List (Text × Json.Value) → List (Text × Json.Value)
  | [] => []
  | (key, value) :: fields =>
    if key = prototypeKey then shownFields read fields
    else (key, shown read value) :: shownFields read fields

end

section Normalize

variable {read read' : NumberReading}

theorem normalizeItems_eq (items : List Json.Value) :
    normalizeItems read items = items.map (normalizeValue read) := by
  induction items with
  | nil => rw [normalizeItems, List.map_nil]
  | cons item items ih => rw [normalizeItems, ih, List.map_cons]

theorem shownItems_eq (items : List Json.Value) :
    shownItems read items = items.map (shown read) := by
  induction items with
  | nil => rw [shownItems, List.map_nil]
  | cons item items ih => rw [shownItems, ih, List.map_cons]

theorem normalizeFields_eq (fields : List (Text × Json.Value)) :
    normalizeFields read fields =
      (fields.filter fun field => decide (field.1 ≠ prototypeKey)).map
        fun field => (field.1, normalizeValue read field.2) := by
  induction fields with
  | nil => rw [normalizeFields, List.filter_nil, List.map_nil]
  | cons field fields ih =>
    obtain ⟨key, value⟩ := field
    rw [normalizeFields, ih]
    by_cases h : key = prototypeKey
    · rw [if_pos h, List.filter_cons_of_neg (by simpa using h)]
    · rw [if_neg h, List.filter_cons_of_pos (by simpa using h), List.map_cons]

theorem shownFields_eq (fields : List (Text × Json.Value)) :
    shownFields read fields =
      (fields.filter fun field => decide (field.1 ≠ prototypeKey)).map
        fun field => (field.1, shown read field.2) := by
  induction fields with
  | nil => rw [shownFields, List.filter_nil, List.map_nil]
  | cons field fields ih =>
    obtain ⟨key, value⟩ := field
    rw [shownFields, ih]
    by_cases h : key = prototypeKey
    · rw [if_pos h, List.filter_cons_of_neg (by simpa using h)]
    · rw [if_neg h, List.filter_cons_of_pos (by simpa using h), List.map_cons]

theorem lastField_normalizeFields (fields : List (Text × Json.Value)) (key : Text) :
    lastField (normalizeFields read fields) key =
      if key = prototypeKey then none
      else (lastField fields key).map (normalizeValue read) := by
  rw [normalizeFields_eq, lastField_map,
    lastField_filter fun key => decide (key ≠ prototypeKey)]
  by_cases h : key = prototypeKey
  · simp [h]
  · simp [h]

theorem lastField_shownFields (fields : List (Text × Json.Value)) (key : Text) :
    lastField (shownFields read fields) key =
      if key = prototypeKey then none else (lastField fields key).map (shown read) := by
  rw [shownFields_eq, lastField_map,
    lastField_filter fun key => decide (key ≠ prototypeKey)]
  by_cases h : key = prototypeKey
  · simp [h]
  · simp [h]

theorem sizeOf_lastField {fields : List (Text × Json.Value)} {key : Text} {value : Json.Value}
    (h : lastField fields key = some value) : sizeOf value < sizeOf fields := by
  induction fields with
  | nil => cases h
  | cons field fields ih =>
    obtain ⟨key', value'⟩ := field
    rw [lastField_cons] at h
    cases hlast : lastField fields key with
    | some last =>
      rw [hlast, Option.some_or] at h
      have hlt := ih (hlast.trans h)
      simp only [List.cons.sizeOf_spec]
      omega
    | none =>
      rw [hlast, Option.none_or] at h
      split at h
      · obtain rfl := Option.some.inj h
        simp only [List.cons.sizeOf_spec, Prod.mk.sizeOf_spec]
        omega
      · cases h

theorem forall₂_imp_of_mem {α β : Type} {R S : α → β → Prop} {as : List α} {bs : List β}
    (hR : List.Forall₂ R as bs) (h : ∀ a ∈ as, ∀ b ∈ bs, R a b → S a b) :
    List.Forall₂ S as bs := by
  induction hR with
  | nil => exact .nil
  | cons hab _ ih =>
    exact .cons (h _ List.mem_cons_self _ List.mem_cons_self hab)
      (ih fun a ha b hb => h a (List.mem_cons_of_mem _ ha) b (List.mem_cons_of_mem _ hb))

theorem forall₂_congr_of_mem {α β : Type} {R S : α → β → Prop} {as : List α} {bs : List β}
    (h : ∀ a ∈ as, ∀ b, R a b ↔ S a b) : List.Forall₂ R as bs ↔ List.Forall₂ S as bs :=
  ⟨fun hR => forall₂_imp_of_mem hR fun a ha b _ => (h a ha b).mp,
    fun hS => forall₂_imp_of_mem hS fun a ha b _ => (h a ha b).mpr⟩

theorem rel_map_iff {α β γ δ : Type} {R : γ → δ → Prop} {f : α → γ} {g : β → δ} {a : Option α}
    {b : Option β} :
    Option.Rel R (a.map f) (b.map g) ↔ Option.Rel (fun a b => R (f a) (g b)) a b := by
  cases a <;> cases b <;> simp

theorem rel_eq_iff {α : Type} {a b : Option α} : Option.Rel Eq a b ↔ a = b := by
  cases a <;> cases b <;> simp

theorem rel_imp {α β : Type} {R S : α → β → Prop} {a : Option α} {b : Option β}
    (hR : Option.Rel R a b) (h : ∀ x, a = some x → ∀ y, b = some y → R x y → S x y) :
    Option.Rel S a b := by
  cases hR with
  | some hxy => exact .some (h _ rfl _ rfl hxy)
  | none => exact .none

theorem rel_congr {α β : Type} {R S : α → β → Prop} {a : Option α} {b : Option β}
    (h : ∀ x, a = some x → ∀ y, R x y ↔ S x y) : Option.Rel R a b ↔ Option.Rel S a b :=
  ⟨fun hR => rel_imp hR fun x hx y _ => (h x hx y).mp,
    fun hS => rel_imp hS fun x hx y _ => (h x hx y).mpr⟩

/-- Neither an array nor an object. -/
def IsAtom : Json.Value → Prop
  | .arr _ => False
  | .obj _ => False
  | _ => True

theorem isAtom_print (n : JsonNumber) : IsAtom n.print := by
  cases n <;> trivial

theorem sameValue_atom {value value' : Json.Value} (h : IsAtom value) :
    SameValue .finite .finite value value' ↔ value = value' := by
  constructor
  · intro hsame
    cases hsame with
    | num heq => rw [JsonNumber.finite.inj heq]
    | arr => exact h.elim
    | obj => exact h.elim
    | null | bool | str => rfl
  · rintro rfl
    cases value with
    | null => exact .null
    | bool b => exact .bool b
    | num n => exact .num rfl
    | str s => exact .str s
    | arr => exact h.elim
    | obj => exact h.elim

/-- Values that are normalized as they are shown: those that are no arrays and no objects. -/
theorem normalizeValue_atom (read : NumberReading) {value : Json.Value} (h : IsAtom value) :
    normalizeValue read value = shown read value ∧ IsAtom (shown read value) := by
  cases value with
  | num n =>
    rw [normalizeValue, shown]
    exact ⟨rfl, isAtom_print _⟩
  | arr => exact h.elim
  | obj => exact h.elim
  | null | bool | str =>
    rw [normalizeValue, shown]
    exact ⟨rfl, trivial⟩

theorem sameValue_arr {items items' : List Json.Value} :
    SameValue read read' (.arr items) (.arr items') ↔
      List.Forall₂ (SameValue read read') items items' := by
  constructor
  · rintro ⟨⟩
    assumption
  · exact .arr

theorem sameValue_obj {fields fields' : List (Text × Json.Value)} :
    SameValue read read' (.obj fields) (.obj fields') ↔
      ∀ key, Option.Rel (SameValue read read') (lastField fields key) (lastField fields' key) := by
  constructor
  · rintro ⟨⟩
    assumption
  · exact .obj

/-- The normal forms of two values are the same exactly if what is shown of them is. -/
theorem normalizeValue_eq_iff (value value' : Json.Value) :
    normalizeValue read value = normalizeValue read' value' ↔
      SameValue .finite .finite (shown read value) (shown read' value') := by
  induction hsize : sizeOf value using Nat.strong_induction_on generalizing value value' with
  | h size ih =>
    subst hsize
    by_cases hatom : IsAtom value
    · obtain ⟨heq, hshown⟩ := normalizeValue_atom read hatom
      rw [heq, sameValue_atom hshown]
      by_cases hatom' : IsAtom value'
      · rw [(normalizeValue_atom read' hatom').1]
      · -- an atom is neither an array nor an object
        cases value' with
        | arr items =>
          rw [normalizeValue, shown]
          exact iff_of_false (fun h => by rw [h] at hshown; exact hshown)
            (fun h => by rw [h] at hshown; exact hshown)
        | obj fields =>
          rw [normalizeValue, shown]
          exact iff_of_false (fun h => by rw [h] at hshown; exact hshown)
            (fun h => by rw [h] at hshown; exact hshown)
        | null | bool | num | str => exact absurd trivial hatom'
    · cases value with
      | null | bool | num | str => exact absurd trivial hatom
      | arr items =>
        cases value' with
        | arr items' =>
          rw [normalizeValue, normalizeValue, shown, shown, sameValue_arr, Json.Value.arr.injEq,
            normalizeItems_eq, normalizeItems_eq, shownItems_eq, shownItems_eq,
            List.forall₂_map_left_iff, List.forall₂_map_right_iff, ← List.forall₂_eq_eq_eq,
            List.forall₂_map_left_iff, List.forall₂_map_right_iff]
          refine forall₂_congr_of_mem fun item hitem item' => ih _ ?_ item item' rfl
          have hlt := List.sizeOf_lt_of_mem hitem
          simp only [Json.Value.arr.sizeOf_spec]
          omega
        | obj fields' =>
          rw [normalizeValue, normalizeValue, shown, shown]
          exact iff_of_false nofun nofun
        | num n =>
          rw [normalizeValue, normalizeValue, shown, shown]
          cases read' n <;> exact iff_of_false nofun nofun
        | null | bool | str =>
          rw [normalizeValue, normalizeValue, shown, shown]
          exact iff_of_false nofun nofun
      | obj fields =>
        cases value' with
        | obj fields' =>
          rw [normalizeValue, normalizeValue, shown, shown, sameValue_obj, Json.Value.obj.injEq,
            sorted_lastFields_eq_iff]
          refine forall_congr' fun key => ?_
          rw [lastField_normalizeFields, lastField_normalizeFields, lastField_shownFields,
            lastField_shownFields]
          by_cases hkey : key = prototypeKey
          · simp [hkey]
          · rw [if_neg hkey, if_neg hkey, if_neg hkey, if_neg hkey, ← rel_eq_iff, rel_map_iff,
              rel_map_iff]
            refine rel_congr fun field hfield field' => ih _ ?_ field field' rfl
            have hlt := sizeOf_lastField hfield
            simp only [Json.Value.obj.sizeOf_spec]
            omega
        | arr items' =>
          rw [normalizeValue, normalizeValue, shown, shown]
          exact iff_of_false nofun nofun
        | num n =>
          rw [normalizeValue, normalizeValue, shown, shown]
          cases read' n <;> exact iff_of_false nofun nofun
        | null | bool | str =>
          rw [normalizeValue, normalizeValue, shown, shown]
          exact iff_of_false nofun nofun

theorem stableStringifyOf_eq_iff (value value' : Json.Value) :
    stableStringifyOf read value = stableStringifyOf read' value' ↔
      SameValue .finite .finite (shown read value) (shown read' value') := by
  rw [← normalizeValue_eq_iff]
  exact ⟨Json.print_injective, congrArg Json.print⟩

end Normalize

/-! ## What the signature of a token binds -/

/-- Values that are not told apart only if they are the same: they may not differ in nothing but
properties named `__proto__` and numbers that are written as `null`. -/
def Binds (read read' : NumberReading) (value value' : Json.Value) : Prop :=
  SameValue .finite .finite (shown read value) (shown read' value') →
    SameValue read read' value value'

/-- Values of which nothing is lost. -/
inductive Written (read : NumberReading) : Json.Value → Prop where
  | null : Written read .null
  | bool (b : Bool) : Written read (.bool b)
  | num {n : Json.Number} (printed : Json.Number) (h : read n = .finite printed) :
    Written read (.num n)
  | str (s : Text) : Written read (.str s)
  | arr {items : List Json.Value} (h : ∀ item ∈ items, Written read item) :
    Written read (.arr items)
  | obj {fields : List (Text × Json.Value)} (hprototype : lastField fields prototypeKey = none)
    (h : ∀ key value, lastField fields key = some value → Written read value) :
    Written read (.obj fields)

theorem binds_of_written {read read' : NumberReading} {value value' : Json.Value}
    (h : Written read value) (h' : Written read' value') : Binds read read' value value' := by
  unfold Binds
  induction h generalizing value' with
  | null =>
    cases h' with
    | null => exact fun _ => .null
    | num printed hread =>
      rw [shown, shown, hread]
      exact nofun
    | bool | str | arr | obj =>
      rw [shown, shown]
      exact nofun
  | bool b =>
    cases h' with
    | bool b' =>
      rw [shown, shown]
      rintro ⟨⟩
      exact .bool b
    | num printed hread =>
      rw [shown, shown, hread]
      exact nofun
    | null | str | arr | obj =>
      rw [shown, shown]
      exact nofun
  | str s =>
    cases h' with
    | str s' =>
      rw [shown, shown]
      rintro ⟨⟩
      exact .str s
    | num printed hread =>
      rw [shown, shown, hread]
      exact nofun
    | null | bool | arr | obj =>
      rw [shown, shown]
      exact nofun
  | num printed hread =>
    cases h' with
    | num printed' hread' =>
      rw [shown, shown, hread, hread']
      rintro (_ | _ | heq)
      exact .num (hread.trans (heq.trans hread'.symm))
    | null | bool | str | arr | obj =>
      rw [shown, shown, hread]
      exact nofun
  | arr hitems ih =>
    cases h' with
    | arr hitems' =>
      rw [shown, shown, sameValue_arr, sameValue_arr, shownItems_eq, shownItems_eq,
        List.forall₂_map_left_iff, List.forall₂_map_right_iff]
      exact fun hsame => forall₂_imp_of_mem hsame fun item hitem item' hitem' =>
        ih item hitem (hitems' item' hitem')
    | num printed hread =>
      rw [shown, shown, hread]
      exact nofun
    | null | bool | str | obj =>
      rw [shown, shown]
      exact nofun
  | obj hprototype hfields ih =>
    cases h' with
    | obj hprototype' hfields' =>
      rw [shown, shown, sameValue_obj, sameValue_obj]
      intro hsame key
      by_cases hkey : key = prototypeKey
      · rw [hkey, hprototype, hprototype']
        exact .none
      · have hrel := hsame key
        rw [lastField_shownFields, lastField_shownFields, if_neg hkey, if_neg hkey, rel_map_iff]
          at hrel
        exact rel_imp hrel fun value hvalue value' hvalue' =>
          ih key value hvalue (hfields' key value' hvalue')
    | num printed hread =>
      rw [shown, shown, hread]
      exact nofun
    | null | bool | str | arr =>
      rw [shown, shown]
      exact nofun

/-- The members of an envelope that are signed. -/
def signedMembers : List String := ["v", "type", "iat", "exp", "nonce", "data"]

section Envelopes

variable {read : NumberReading} {hmac : Text → Text → Text} {token type : Text}
  {options : TokenSecurityOptions} {now : Int} {accepted : Option Json.Value}

theorem accepted_cases (h : verifyTokenOf read hmac token type options now = .ok accepted) :
    ∃ envelope, decodeEnvelope token = .ok envelope ∧ accepted = envelope.get "data" ∧
      envelope.text "sig" = some (computeSignatureOf read hmac envelope options.secret) := by
  unfold verifyTokenOf at h
  split at h
  · cases h
  · obtain ⟨envelope, hdecode, h⟩ := bind_eq_ok.mp h
    refine ⟨envelope, hdecode, ?_⟩
    split at h
    · cases h
    · split at h
      · cases h
      · split at h
        · next sig hsig =>
          split at h
          · cases h
          · next heq =>
            rw [ne_eq, not_not] at heq
            exact ⟨(Except.ok.inj h).symm, by rw [hsig, heq]⟩
        · cases h

theorem get_unsigned {envelope : TokenEnvelope} {name : String} (h : name ∈ signedMembers) :
    lastField (shownFields read envelope.unsigned) name.toList =
      (envelope.get name).map (shown read) := by
  have hnames : ∀ name ∈ signedMembers,
      name.toList ≠ prototypeKey ∧ name.toList ≠ "sig".toList := by decide
  obtain ⟨hprototype, hsig⟩ := hnames name h
  rw [lastField_shownFields, if_neg hprototype, TokenEnvelope.unsigned,
    lastField_filter fun key => decide (key ≠ "sig".toList), if_pos (by simpa using hsig)]
  rfl

/-- Envelopes of the same signature show the same members. -/
theorem rel_shown_of_signature {read' : NumberReading} {envelope envelope' : TokenEnvelope}
    {secret : Text} (hinjective : ∀ secret s t, hmac secret s = hmac secret t → s = t)
    (h : computeSignatureOf read hmac envelope secret =
      computeSignatureOf read' hmac envelope' secret)
    {name : String} (hname : name ∈ signedMembers) :
    Option.Rel (fun value value' =>
        SameValue .finite .finite (shown read value) (shown read' value'))
      (envelope.get name) (envelope'.get name) := by
  have hsame := (stableStringifyOf_eq_iff _ _).mp (hinjective _ _ _ h)
  rw [shown, shown, sameValue_obj] at hsame
  have hmember := hsame name.toList
  rw [get_unsigned hname, get_unsigned hname] at hmember
  exact rel_map_iff.mp hmember

/-- The members of an envelope in the order of their keys, as the signature takes them. -/
def sortedUnsigned : TokenEnvelope :=
  [("data".toList, .bool true), ("iat".toList, .num (.ofInt 0)), ("nonce".toList, .str ['n']),
    ("type".toList, .str ['t']), ("v".toList, .str tokenVersion)]

def bindingOptions : TokenSecurityOptions where
  secret := ['s']
  ttlSeconds := none

/-- An envelope that is not written as `signToken` does, with the signature that it makes. -/
def reorderedEnvelope : TokenEnvelope :=
  sortedUnsigned ++ [("sig".toList, .str (Json.print (.obj sortedUnsigned)))]

theorem signature_reordered :
    computeSignatureOf .finite (fun _ s => s) reorderedEnvelope bindingOptions.secret =
      Json.print (.obj sortedUnsigned) := by
  have hunsigned : reorderedEnvelope.unsigned = sortedUnsigned := rfl
  rw [computeSignatureOf, hunsigned, stableStringifyOf, normalizeValue]
  refine congrArg (fun fields => Json.print (.obj fields)) ?_
  have hfields : lastFields (normalizeFields .finite sortedUnsigned) = sortedUnsigned := by
    rw [normalizeFields_eq]
    rfl
  rw [hfields]
  exact List.mergeSort_of_pairwise (by decide)

theorem signature_signed :
    (signedEnvelope (fun _ s => s) ['t'] (.bool true) bindingOptions 0 ['n']).text "sig" =
      reorderedEnvelope.text "sig" := by
  have hreordered : reorderedEnvelope.text "sig" = some (Json.print (.obj sortedUnsigned)) := rfl
  rw [sig_signedEnvelope, computeSignature, hreordered, ← signature_reordered,
    computeSignatureOf, computeSignatureOf, Option.some.injEq, stableStringifyOf_eq_iff,
    ← normalizeValue_eq_iff, normalizeValue, normalizeValue, Json.Value.obj.injEq,
    sorted_lastFields_eq_iff]
  refine fun key => Option.ext fun value => ?_
  rw [lastField_normalizeFields, lastField_normalizeFields]
  split
  · rfl
  · refine Iff.of_eq (congrArg (fun field : Option Json.Value => value ∈ field.map _) ?_)
    refine Option.ext fun value => ?_
    rw [← mem_lastFields, ← mem_lastFields]
    have hlast : lastFields (TokenEnvelope.unsigned (signedEnvelope (fun _ s => s) ['t']
        (.bool true) bindingOptions 0 ['n'])) =
      [("v".toList, .str tokenVersion), ("type".toList, .str ['t']),
        ("iat".toList, .num (.ofInt 0)), ("nonce".toList, .str ['n']),
        ("data".toList, .bool true)] := rfl
    have hlast' : lastFields reorderedEnvelope.unsigned = sortedUnsigned := rfl
    rw [hlast, hlast', sortedUnsigned]
    simp only [List.mem_cons, List.not_mem_nil, or_false]
    tauto

theorem decode_reordered :
    decodeEnvelope (encodeEnvelope reorderedEnvelope) = .ok reorderedEnvelope := by
  have hsize : ¬ (envelopeBytes reorderedEnvelope).length > maxTokenEnvelopeBytes := by
    have hzero : Json.Number.ofInt 0 = ⟨['0'], by decide⟩ := by
      rw [Json.Number.ofInt, Json.Number.mk.injEq]
      simp [Json.digits]
    rw [reorderedEnvelope, sortedUnsigned, hzero]
    decide +kernel
  rw [decodeEnvelope_encodeEnvelope rfl rfl, if_neg hsize]

theorem accepted_reordered :
    verifyTokenOf .finite (fun _ s => s) (encodeEnvelope reorderedEnvelope) ['t'] bindingOptions 0 =
      .ok (some (.bool true)) := by
  rw [verifyTokenOf, if_neg (by decide), decode_reordered]
  refine bind_eq_ok.mpr ⟨_, rfl, ?_⟩
  have hsig : reorderedEnvelope.text "sig" = some (Json.print (.obj sortedUnsigned)) := rfl
  rw [if_neg (by decide), if_neg (by decide), hsig]
  dsimp only
  rw [signature_reordered, if_neg (not_not_intro rfl)]
  rfl

end Envelopes

end LoopbackOData
