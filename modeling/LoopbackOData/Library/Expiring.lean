import Mathlib

/-!
# Keys that expire

An entry is there until its time to live has elapsed. One that is always given a new time to live
before the last one has elapsed does not vanish.
-/

set_option autoImplicit false

universe u

namespace Expiring

structure Entry (α : Type u) where
  value : α
  expiresAt : Int

variable {α : Type u} {entry : Option (Entry α)} {e : Entry α} {now now' ttl : Int}

/-- What is still there. -/
def alive (now : Int) (entry : Option (Entry α)) : Option (Entry α) :=
  entry.filter fun e => now < e.expiresAt

/-- A new time to live for an entry, if it is there. -/
def renew (now ttl : Int) (entry : Option (Entry α)) : Option (Entry α) :=
  entry.map fun e => { e with expiresAt := now + ttl }

theorem alive_eq_some_iff : alive now entry = some e ↔ entry = some e ∧ now < e.expiresAt := by
  rw [alive, Option.filter_eq_some_iff, decide_eq_true_eq]

theorem alive_eq_none_iff : alive now entry = none ↔ ∀ e, entry = some e → e.expiresAt ≤ now := by
  cases entry with
  | none =>
    refine ⟨fun _ e h => ?_, fun _ => rfl⟩
    cases h
  | some e =>
    rw [alive, Option.filter_eq_none_iff]
    constructor
    · intro h e' he'
      have hnot := h e' he'
      rw [decide_eq_true_eq] at hnot
      exact Int.not_lt.mp hnot
    · intro h e' he'
      rw [decide_eq_true_eq]
      exact Int.not_lt.mpr (h e' he')

theorem alive_of_lt (h : now < e.expiresAt) : alive now (some e) = some e :=
  alive_eq_some_iff.mpr ⟨rfl, h⟩

/-- Later the entry is the same one, or it has vanished. -/
theorem alive_later (hle : now ≤ now') :
    alive now' entry = alive now entry ∨
      alive now' entry = none ∧ ∀ e, alive now entry = some e → e.expiresAt ≤ now' := by
  cases h : alive now' entry with
  | some e =>
    obtain ⟨hentry, hlt⟩ := alive_eq_some_iff.mp h
    exact Or.inl (alive_eq_some_iff.mpr ⟨hentry, hle.trans_lt hlt⟩).symm
  | none =>
    refine Or.inr ⟨rfl, ?_⟩
    intro e he
    exact alive_eq_none_iff.mp h e (alive_eq_some_iff.mp he).1

theorem alive_of_alive (h : alive now entry = some e) (hlt : now' < e.expiresAt) :
    alive now' entry = some e :=
  alive_eq_some_iff.mpr ⟨(alive_eq_some_iff.mp h).1, hlt⟩

end Expiring
