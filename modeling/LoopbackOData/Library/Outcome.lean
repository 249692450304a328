import Mathlib

/-!
# Postconditions of fallible computations

`Ends allowed post r`: the computation `r` returns a value with `post`, or fails with an error that
is `allowed`. `Agree R r r'`: two computations fail with the same error, or both return and what
they return is in the relation `R`. `Refuses e r r'`: the computation `r` is `r'` or stops with `e`.
-/

namespace Outcome

set_option autoImplicit false

universe u v w
variable {ε : Type u} {α : Type v} {β : Type v}

def Ends (allowed : ε → Prop) (post : α → Prop) : Except ε α → Prop
  | .ok a => post a
  | .error e => allowed e

namespace Ends

variable {allowed : ε → Prop} {post : α → Prop} {r : Except ε α}

theorem mono {post' : α → Prop} (h : Ends allowed post r) (himp : ∀ a, post a → post' a) :
    Ends allowed post' r := by
  cases r with
  | ok a => exact himp a h
  | error e => exact h

theorem bind {post' : β → Prop} {f : α → Except ε β} (h : Ends allowed post r)
    (hf : ∀ a, post a → Ends allowed post' (f a)) : Ends allowed post' (r >>= f) := by
  cases r with
  | ok a => exact hf a h
  | error e => exact h

theorem of_ok {a : α} (h : Ends allowed post r) (hr : r = .ok a) : post a := by
  rwa [hr] at h

theorem ne_error {e : ε} (h : Ends allowed post r) (he : ¬ allowed e) : r ≠ .error e := by
  rintro rfl
  exact he h

end Ends

/-- A sequence returns a value exactly when both of its steps do. -/
theorem bind_eq_ok {r : Except ε α} {f : α → Except ε β} {b : β} :
    r >>= f = .ok b ↔ ∃ a, r = .ok a ∧ f a = .ok b := by
  cases r with
  | ok a => simp [Bind.bind, Except.bind]
  | error e => simp [Bind.bind, Except.bind]

/-! ## Two computations side by side -/

variable {γ δ : Type v}

inductive Agree (R : α → β → Prop) : Except ε α → Except ε β → Prop where
  | ok {a : α} {b : β} (h : R a b) : Agree R (.ok a) (.ok b)
  | error (e : ε) : Agree R (.error e) (.error e)

namespace Agree

variable {R : α → β → Prop} {r : Except ε α} {r' : Except ε β}

theorem bind {S : γ → δ → Prop} {f : α → Except ε γ} {g : β → Except ε δ} (h : Agree R r r')
    (hf : ∀ a b, R a b → Agree S (f a) (g b)) : Agree S (r >>= f) (r' >>= g) := by
  cases h with
  | ok hab => exact hf _ _ hab
  | error e => exact .error e

theorem refl {s : Except ε α} : Agree Eq s s := by
  cases s with
  | ok a => exact .ok rfl
  | error e => exact .error e

theorem eq {s t : Except ε α} (h : Agree Eq s t) : s = t := by
  cases h with
  | ok hab => rw [hab]
  | error e => rfl

end Agree

/-! ## A computation that may refuse -/

/-- The first computation is the second, unless it stops with the error `e`. -/
def Refuses (e : ε) (r r' : Except ε α) : Prop := r = .error e ∨ r = r'

namespace Refuses

variable {e : ε} {r r' : Except ε α}

theorem refl : Refuses e r r := Or.inr rfl

theorem bind {f f' : α → Except ε β} (h : Refuses e r r') (hf : ∀ a, Refuses e (f a) (f' a)) :
    Refuses e (r >>= f) (r' >>= f') := by
  rcases h with rfl | rfl
  · exact Or.inl rfl
  · cases r with
    | error e' => exact Or.inr rfl
    | ok a => exact hf a

theorem eq_of_ok {a : α} (h : Refuses e r r') (hr : r = .ok a) : r' = .ok a := by
  rcases h with rfl | rfl
  · cases hr
  · exact hr

end Refuses

end Outcome
