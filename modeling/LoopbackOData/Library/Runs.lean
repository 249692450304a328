import Mathlib

/-!
# Runs of a machine

A machine takes an event in a state, or does not take it there. A guarded run takes an event only
where the guard admits it.
-/

set_option autoImplicit false

universe u v

namespace Machine

variable {σ : Type u} {ε : Type v}

def run (step : σ → ε → Option σ) (s : σ) : List ε → Option σ
  | [] => some s
  | e :: es => (step s e).bind fun s' => run step s' es

inductive Reaches (step : σ → ε → Option σ) (guard : σ → ε → Prop) (start : σ) : σ → Prop where
  | start : Reaches step guard start start
  | next {s s' : σ} (e : ε) (before : Reaches step guard start s) (hguard : guard s e)
    (hstep : step s e = some s') : Reaches step guard start s'

variable {step : σ → ε → Option σ} {guard : σ → ε → Prop} {start s s' : σ}

/-- What holds at the start and is kept by every admitted step holds wherever the run gets. -/
theorem Reaches.invariant {I : σ → Prop} (hstart : I start)
    (hnext : ∀ s e s', I s → guard s e → step s e = some s' → I s')
    (h : Reaches step guard start s) : I s := by
  induction h with
  | start => exact hstart
  | next e _ hguard hstep ih => exact hnext _ e _ ih hguard hstep

theorem Reaches.mono {guard' : σ → ε → Prop} (hmono : ∀ s e, guard s e → guard' s e)
    (h : Reaches step guard start s) : Reaches step guard' start s := by
  induction h with
  | start => exact .start
  | next e _ hguard hstep ih => exact .next e ih (hmono _ e hguard) hstep

theorem Reaches.of_run {events : List ε} (hguard : ∀ s e, guard s e)
    (h : Reaches step guard start s) (hrun : run step s events = some s') :
    Reaches step guard start s' := by
  induction events generalizing s with
  | nil =>
    obtain rfl := Option.some.inj hrun
    exact h
  | cons e events ih =>
    obtain ⟨next, hstep, hrun⟩ := Option.bind_eq_some_iff.mp hrun
    exact ih (.next e h (hguard s e) hstep) hrun

end Machine
