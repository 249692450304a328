import Mathlib

/-!
# Programs that change a state and can fail

A program that fails keeps what it did to the state before. A transaction takes that back.
-/

set_option autoImplicit false

universe u

def Effect (ε σ α : Type u) : Type u := σ → Except ε α × σ

namespace Effect

variable {ε σ α β : Type u}

def fail (e : ε) : Effect ε σ α := fun s => (.error e, s)

def get : Effect ε σ σ := fun s => (.ok s, s)

def modify (f : σ → σ) : Effect ε σ PUnit := fun s => (.ok ⟨⟩, f s)

/-- The state after a step that can fail. -/
def advance (f : σ → Except ε σ) : Effect ε σ PUnit := fun s =>
  match f s with
  | .ok s' => (.ok ⟨⟩, s')
  | .error e => (.error e, s)

def ofExcept (result : Except ε α) : Effect ε σ α := fun s => (result, s)

/-- `try`: the outcome as a value. -/
def attempt (m : Effect ε σ α) : Effect ε σ (Except ε α) := fun s => (.ok (m s).1, (m s).2)

/-- `try .. finally`: the state is cleaned up in either case. -/
def ensuring (m : Effect ε σ α) (f : σ → σ) : Effect ε σ α := fun s => ((m s).1, f (m s).2)

instance : Monad (Effect ε σ) where
  pure a := fun s => (.ok a, s)
  bind m f := fun s => match m s with
    | (.ok a, s') => f a s'
    | (.error e, s') => (.error e, s')

/-- `if (c) ..` without an `else`. -/
def when (c : Prop) [Decidable c] (m : Effect ε σ PUnit) : Effect ε σ PUnit :=
  if c then m else pure ⟨⟩

/-- `for (const x of xs) ..`. -/
def each (f : α → Effect ε σ PUnit) : List α → Effect ε σ PUnit
  | [] => pure ⟨⟩
  | x :: xs => do
    f x
    each f xs

/-- With a transaction, a failure leaves the state as it was before. -/
def transaction (enabled : Bool) (m : Effect ε σ α) : Effect ε σ α := fun s =>
  match m s with
  | (.ok a, s') => (.ok a, s')
  | (.error e, s') => (.error e, if enabled then s else s')

/-! ## Success -/

variable {s s' : σ} {a b : α}

theorem ok_pure_iff : (pure a : Effect ε σ α) s = (.ok b, s') ↔ a = b ∧ s = s' := by
  constructor
  · intro h
    obtain ⟨h1, h2⟩ := Prod.mk.inj h
    exact ⟨Except.ok.inj h1, h2⟩
  · rintro ⟨rfl, rfl⟩
    rfl

theorem bind_apply (m : Effect ε σ α) (f : α → Effect ε σ β) (s : σ) :
    (m >>= f) s = match m s with
      | (.ok a, s') => f a s'
      | (.error e, s') => (.error e, s') := rfl

theorem bind_ofExcept_ok (a : α) (f : α → Effect ε σ β) :
    (ofExcept (.ok a) >>= f : Effect ε σ β) s = f a s := rfl

theorem bind_ofExcept_error (e : ε) (f : α → Effect ε σ β) :
    (ofExcept (.error e) >>= f : Effect ε σ β) s = (.error e, s) := rfl

theorem bind_get (f : σ → Effect ε σ β) : (get >>= f : Effect ε σ β) s = f s s := rfl

theorem ok_bind_iff {m : Effect ε σ α} {f : α → Effect ε σ β} {b : β} :
    (m >>= f) s = (.ok b, s') ↔ ∃ a between, m s = (.ok a, between) ∧ f a between = (.ok b, s') := by
  rw [bind_apply]
  constructor
  · intro h
    split at h
    · next a between hm => exact ⟨a, between, hm, h⟩
    · cases (Prod.mk.inj h).1
  · rintro ⟨a, between, hm, hf⟩
    rw [hm]
    exact hf

theorem not_ok_fail {e : ε} : (fail e : Effect ε σ α) s ≠ (.ok a, s') := by
  intro h
  cases (Prod.mk.inj h).1

theorem ok_ofExcept_iff {result : Except ε α} :
    (ofExcept result : Effect ε σ α) s = (.ok a, s') ↔ result = .ok a ∧ s = s' := by
  constructor
  · exact Prod.mk.inj
  · rintro ⟨rfl, rfl⟩
    rfl

theorem ok_transaction_iff {enabled : Bool} {m : Effect ε σ α} :
    transaction enabled m s = (.ok a, s') ↔ m s = (.ok a, s') := by
  unfold transaction
  constructor
  · intro h
    split at h
    · next hm => rw [hm, h]
    · cases (Prod.mk.inj h).1
  · intro h
    rw [h]

/-- A transaction that does not succeed changes nothing. -/
theorem transaction_of_not_ok {m : Effect ε σ α} (h : ∀ a s', m s ≠ (.ok a, s')) :
    ∃ e, transaction true m s = (.error e, s) := by
  unfold transaction
  split
  · next a s' hm => exact absurd hm (h a s')
  · next e s' hm => exact ⟨e, rfl⟩

/-! ## Loops -/

theorem ok_each_nil_iff {f : α → Effect ε σ PUnit} :
    each f [] s = (.ok ⟨⟩, s') ↔ s = s' := by
  rw [each, ok_pure_iff]
  simp

theorem ok_each_cons_iff {f : α → Effect ε σ PUnit} {x : α} {xs : List α} :
    each f (x :: xs) s = (.ok ⟨⟩, s') ↔
      ∃ between, f x s = (.ok ⟨⟩, between) ∧ each f xs between = (.ok ⟨⟩, s') := by
  rw [each, ok_bind_iff]
  constructor
  · rintro ⟨⟨⟩, between, hx, hxs⟩
    exact ⟨between, hx, hxs⟩
  · rintro ⟨between, hx, hxs⟩
    exact ⟨⟨⟩, between, hx, hxs⟩

/-! ## Relations along a program -/

/-- From a state with `P`, the state that the program ends in is related to it, also when it fails,
and success gives `Q`. -/
def Triple (R : σ → σ → Prop) (P : σ → Prop) (m : Effect ε σ α) (Q : α → σ → Prop) : Prop :=
  ∀ s, P s → R s (m s).2 ∧ ∀ a s', m s = (.ok a, s') → Q a s'

section Triple

variable {R : σ → σ → Prop} {P : σ → Prop} {Q : α → σ → Prop}

section Refl

variable (hrefl : ∀ s, R s s)

include hrefl

theorem triple_pure {a : α} (h : ∀ s, P s → Q a s) : Triple R P (pure a : Effect ε σ α) Q := by
  intro s hP
  refine ⟨hrefl s, ?_⟩
  intro b s' hok
  rw [ok_pure_iff] at hok
  obtain ⟨rfl, rfl⟩ := hok
  exact h s hP

theorem triple_fail {e : ε} : Triple R P (fail e : Effect ε σ α) Q :=
  fun s _ => ⟨hrefl s, fun _ _ hok => absurd hok not_ok_fail⟩

theorem triple_ofExcept {result : Except ε α} (h : ∀ a s, result = .ok a → P s → Q a s) :
    Triple R P (ofExcept result : Effect ε σ α) Q := by
  intro s hP
  refine ⟨hrefl s, ?_⟩
  intro a s' hok
  rw [ok_ofExcept_iff] at hok
  obtain ⟨hresult, rfl⟩ := hok
  exact h a s hresult hP

theorem triple_get {Q : σ → σ → Prop} (h : ∀ s, P s → Q s s) :
    Triple R P (get : Effect ε σ σ) Q := by
  intro s hP
  refine ⟨hrefl s, ?_⟩
  intro a s' hok
  obtain ⟨ha, rfl⟩ := Prod.mk.inj hok
  obtain rfl := Except.ok.inj ha
  exact h s hP

end Refl

theorem triple_advance (hrefl : ∀ s, R s s) {f : σ → Except ε σ} {Q : PUnit → σ → Prop}
    (h : ∀ s s', P s → f s = .ok s' → R s s' ∧ Q ⟨⟩ s') :
    Triple R P (advance f : Effect ε σ PUnit) Q := by
  intro s hP
  unfold advance
  cases hf : f s with
  | error e => exact ⟨hrefl s, fun _ _ hok => by cases (Prod.mk.inj hok).1⟩
  | ok s' =>
    obtain ⟨hR, hQ⟩ := h s s' hP hf
    refine ⟨hR, ?_⟩
    intro a s'' hok
    obtain ⟨-, rfl⟩ := Prod.mk.inj hok
    exact hQ

theorem triple_modify {f : σ → σ} {Q : PUnit → σ → Prop}
    (h : ∀ s, P s → R s (f s) ∧ Q ⟨⟩ (f s)) : Triple R P (modify f : Effect ε σ PUnit) Q := by
  intro s hP
  refine ⟨(h s hP).1, ?_⟩
  intro a s' hok
  obtain ⟨-, rfl⟩ := Prod.mk.inj hok
  exact (h s hP).2

theorem triple_mono {P' : σ → Prop} {Q' : α → σ → Prop} {m : Effect ε σ α} (h : Triple R P m Q)
    (hP : ∀ s, P' s → P s) (hQ : ∀ a s, Q a s → Q' a s) : Triple R P' m Q' := by
  intro s hs
  obtain ⟨hR, hok⟩ := h s (hP s hs)
  exact ⟨hR, fun a s' h => hQ a s' (hok a s' h)⟩

theorem triple_relation {R' : σ → σ → Prop} {m : Effect ε σ α} (h : Triple R P m Q)
    (hR : ∀ s s', R s s' → R' s s') : Triple R' P m Q := by
  intro s hs
  obtain ⟨hrelated, hok⟩ := h s hs
  exact ⟨hR s _ hrelated, hok⟩

section Trans

variable (hrefl : ∀ s, R s s) (htrans : ∀ s t u, R s t → R t u → R s u)

include htrans

theorem triple_bind {m : Effect ε σ α} {f : α → Effect ε σ β} {Q' : β → σ → Prop}
    (hm : Triple R P m Q) (hf : ∀ a, Triple R (Q a) (f a) Q') : Triple R P (m >>= f) Q' := by
  intro s hP
  obtain ⟨hR, hok⟩ := hm s hP
  rw [bind_apply]
  cases hrun : m s with
  | mk result s' =>
    rw [hrun] at hR
    cases result with
    | ok a =>
      obtain ⟨hR', hok'⟩ := hf a s' (hok a s' hrun)
      exact ⟨htrans _ _ _ hR hR', hok'⟩
    | error e =>
      refine ⟨hR, ?_⟩
      intro b u h
      cases (Prod.mk.inj h).1

include hrefl

/-- A property that each turn of a loop keeps. -/
theorem triple_each {f : α → Effect ε σ PUnit} {xs : List α}
    (h : ∀ x ∈ xs, Triple R P (f x) fun _ => P) : Triple R P (each f xs) fun _ => P := by
  induction xs with
  | nil => exact triple_pure hrefl fun _ hP => hP
  | cons x xs ih =>
    exact triple_bind htrans (h x List.mem_cons_self) fun _ =>
      ih fun y hy => h y (List.mem_cons_of_mem x hy)

/-- A loop of checks. -/
theorem triple_each_ofExcept {f : α → Except ε PUnit} {xs : List α} :
    Triple R P (each (fun x => ofExcept (f x)) xs : Effect ε σ PUnit) fun _ s =>
      P s ∧ ∀ x ∈ xs, f x = .ok ⟨⟩ := by
  induction xs with
  | nil => exact triple_pure hrefl fun _ hP => ⟨hP, fun _ h => absurd h List.not_mem_nil⟩
  | cons x xs ih =>
    have hfirst : Triple R P (ofExcept (f x) : Effect ε σ PUnit) fun _ s => f x = .ok ⟨⟩ ∧ P s :=
      triple_ofExcept hrefl fun _ _ hok hP => ⟨hok, hP⟩
    refine triple_bind htrans hfirst ?_
    rintro _ s ⟨hok, hP⟩
    obtain ⟨hR, hrest⟩ := ih s hP
    refine ⟨hR, ?_⟩
    intro a s' hrun
    obtain ⟨hP', hxs⟩ := hrest a s' hrun
    refine ⟨hP', ?_⟩
    intro y hy
    rcases List.mem_cons.mp hy with rfl | hy
    · exact hok
    · exact hxs y hy

end Trans

/-- The outcome of a program as a value: what holds of all related states holds after it. -/
theorem triple_attempt {m : Effect ε σ α} (hstable : ∀ s s', R s s' → P s → P s')
    (h : Triple R P m Q) : Triple R P (attempt m) fun _ => P := by
  intro s hP
  obtain ⟨hR, _⟩ := h s hP
  refine ⟨hR, ?_⟩
  intro a s' hrun
  obtain ⟨_, rfl⟩ := Prod.mk.inj hrun
  exact hstable s _ hR hP

/-- The outcome of a program as a value, with what holds after success. -/
theorem triple_attempt_ok {m : Effect ε σ α} (h : Triple R P m Q) :
    Triple R P (attempt m) fun result s => ∀ a, result = .ok a → Q a s := by
  intro s hP
  obtain ⟨hR, hok⟩ := h s hP
  refine ⟨hR, ?_⟩
  intro result s' hrun a hresult
  obtain ⟨hfirst, rfl⟩ := Prod.mk.inj hrun
  exact hok a _ (Prod.ext ((Except.ok.inj hfirst).trans hresult) rfl)

theorem triple_when (hrefl : ∀ s, R s s) {c : Prop} [Decidable c] {m : Effect ε σ PUnit}
    (h : Triple R P m fun _ => P) : Triple R P (when c m) fun _ => P := by
  unfold when
  split
  · exact h
  · exact triple_pure hrefl fun _ hP => hP

/-- What holds of related states holds after the program when it held before. -/
theorem triple_keep {P' : σ → Prop} {m : Effect ε σ α} (hstable : ∀ s s', R s s' → P' s → P' s')
    (h : Triple R P m Q) : Triple R (fun s => P s ∧ P' s) m fun a s => Q a s ∧ P' s := by
  intro s hs
  obtain ⟨hR, hok⟩ := h s hs.1
  refine ⟨hR, ?_⟩
  intro a s' hrun
  refine ⟨hok a s' hrun, hstable s s' ?_ hs.2⟩
  rw [hrun] at hR
  exact hR

theorem triple_transaction (hrefl : ∀ s, R s s) {enabled : Bool} {m : Effect ε σ α}
    (h : Triple R P m Q) : Triple R P (transaction enabled m) Q := by
  intro s hP
  obtain ⟨hR, hok⟩ := h s hP
  refine ⟨?_, fun a s' hrun => hok a s' (ok_transaction_iff.mp hrun)⟩
  unfold transaction
  cases hrun : m s with
  | mk result s' =>
    rw [hrun] at hR
    cases result with
    | ok a => exact hR
    | error e =>
      cases enabled with
      | true => exact hrefl s
      | false => exact hR

end Triple

/-! ## What a program returns -/

/-- Whatever the state, a value that is returned has a property. -/
def Returns (m : Effect ε σ α) (Q : α → Prop) : Prop := ∀ s a s', m s = (.ok a, s') → Q a

section Returns

variable {Q : α → Prop} {m : Effect ε σ α}

theorem returns_pure (h : Q a) : Returns (pure a : Effect ε σ α) Q := by
  intro s b s' hok
  rw [ok_pure_iff] at hok
  rw [← hok.1]
  exact h

theorem returns_fail {e : ε} : Returns (fail e : Effect ε σ α) Q :=
  fun _ _ _ hok => absurd hok not_ok_fail

theorem returns_ofExcept {result : Except ε α} (h : ∀ a, result = .ok a → Q a) :
    Returns (ofExcept result : Effect ε σ α) Q :=
  fun _ a _ hok => h a (ok_ofExcept_iff.mp hok).1

theorem returns_any (m : Effect ε σ α) : Returns m fun _ => True := fun _ _ _ _ => trivial

theorem returns_mono {Q' : α → Prop} (h : Returns m Q) (himp : ∀ a, Q a → Q' a) : Returns m Q' :=
  fun s a s' hok => himp a (h s a s' hok)

theorem returns_bind {f : α → Effect ε σ β} {Q' : β → Prop} (hm : Returns m Q)
    (hf : ∀ a, Q a → Returns (f a) Q') : Returns (m >>= f) Q' := by
  intro s b s' hok
  obtain ⟨a, between, ha, hb⟩ := ok_bind_iff.mp hok
  exact hf a (hm s a between ha) between b s' hb

theorem returns_attempt (h : Returns m Q) :
    Returns (attempt m) fun result => ∀ a, result = .ok a → Q a := by
  intro s result s' hok a hresult
  obtain ⟨hfirst, _⟩ := Prod.mk.inj hok
  exact h s a (m s).2 (Prod.ext ((Except.ok.inj hfirst).trans hresult) rfl)

end Returns

end Effect
