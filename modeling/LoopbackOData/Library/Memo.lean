import Mathlib

/-!
# Memoized results

A result is stored under the key that it was computed for, and is taken again while the key is the
same. It is right as long as what is stored is what would be computed now, wherever the keys agree.
-/

set_option autoImplicit false

universe u v w

namespace Memo

variable {σ : Type u} {κ : Type v} {β : Type w} [DecidableEq κ]

/-- The stored result where its key is the present one, else the one computed now. -/
def lookup (key : σ → κ) (compute : σ → β) (stored : Option (κ × β)) (s : σ) : β :=
  match stored with
  | none => compute s
  | some entry => if entry.1 = key s then entry.2 else compute s

def Valid (key : σ → κ) (compute : σ → β) (stored : Option (κ × β)) (s : σ) : Prop :=
  ∀ entry, stored = some entry → entry.1 = key s → entry.2 = compute s

variable {key : σ → κ} {compute : σ → β} {stored : Option (κ × β)} {s s' : σ}

omit [DecidableEq κ] in
theorem valid_none (s : σ) : Valid key compute none s := by
  intro entry h
  cases h

omit [DecidableEq κ] in
theorem valid_store (s : σ) : Valid key compute (some (key s, compute s)) s := by
  intro entry h _
  obtain rfl := Option.some.inj h
  rfl

theorem lookup_eq_iff : lookup key compute stored s = compute s ↔ Valid key compute stored s := by
  cases stored with
  | none => exact ⟨fun _ => valid_none s, fun _ => rfl⟩
  | some entry =>
    rw [lookup]
    by_cases hkey : entry.1 = key s
    · rw [if_pos hkey]
      constructor
      · intro h entry' hentry _
        obtain rfl := Option.some.inj hentry
        exact h
      · intro h
        exact h entry rfl hkey
    · rw [if_neg hkey]
      refine ⟨fun _ entry' hentry hkey' => ?_, fun _ => rfl⟩
      obtain rfl := Option.some.inj hentry
      exact absurd hkey' hkey

omit [DecidableEq κ] in
/-- A step that leads to the same result keeps what is stored right, and so does one to a key that
nothing is stored under. -/
theorem Valid.step (h : Valid key compute stored s)
    (hstep : ∀ entry, stored = some entry → entry.1 = key s' →
      entry.1 = key s ∧ compute s = compute s') : Valid key compute stored s' := by
  intro entry hentry hkey
  obtain ⟨hkey, hcompute⟩ := hstep entry hentry hkey
  rw [h entry hentry hkey, hcompute]

end Memo
