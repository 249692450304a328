import LoopbackOData.Js

/-!
# The in-memory throttle store

The store of `services/tenant-throttle-store.ts`. Its map of tenants is a function, and a state
that the code holds a reference to and that `prune` has deleted is changed without effect.
-/

namespace LoopbackOData

set_option autoImplicit false

structure TenantState where
  windowStart : Int
  windowMs : Int
  hits : Nat
  concurrent : Nat
  deriving DecidableEq, Repr

structure InMemoryTenantThrottleStore where
  states : Text → Option TenantState := fun _ => none
  lastCleanup : Int := 0
  defaultWindowMs : Int := 60000

structure TenantThrottleRateResult where
  limited : Bool
  hits : Nat
  windowStart : Int
  windowResetMs : Int
  deriving DecidableEq, Repr

structure TenantThrottleConcurrentResult where
  limited : Bool
  concurrent : Nat
  deriving DecidableEq, Repr

/-- `limit && limit > 0`, and what a limit is tested with before a check. -/
def isLimit (limit : Option Nat) : Bool := limit.any fun n => decide (0 < n)

namespace InMemoryTenantThrottleStore

variable (store : InMemoryTenantThrottleStore) (tenant : Text)

/-- The slots that the store counts as taken. -/
def concurrent : Nat := (store.states tenant).elim 0 fun state => state.concurrent

/-- `prune` deletes such a state. -/
def expired (now : Int) (state : TenantState) : Bool :=
  decide (state.concurrent = 0) && decide (now - state.windowStart ≥ state.windowMs)

/-- A state that is still in the map is changed. -/
def update (f : TenantState → TenantState) : InMemoryTenantThrottleStore :=
  { store with states := Function.update store.states tenant ((store.states tenant).map f) }

def ensureState (now windowMs : Int) : TenantState × InMemoryTenantThrottleStore :=
  match store.states tenant with
  | some existing => (existing, store)
  | none =>
    let created : TenantState :=
      { windowStart := now, windowMs := windowMs, hits := 0, concurrent := 0 }
    (created, { store with states := Function.update store.states tenant (some created) })

/-- The map is never empty where `prune` is called. -/
def prune (now windowMs : Int) : InMemoryTenantThrottleStore :=
  if now - store.lastCleanup < windowMs then store
  else
    { store with
      lastCleanup := now
      states := fun tenant => (store.states tenant).filter fun state => !expired now state }

def incrementRate (windowMs : Int) (limit : Option Nat) (now : Int) :
    TenantThrottleRateResult × InMemoryTenantThrottleStore :=
  let ensured := store.ensureState tenant now windowMs
  let pruned := ensured.2.prune now windowMs
  let state :=
    if now - ensured.1.windowStart ≥ windowMs then
      { ensured.1 with windowStart := now, hits := 0 }
    else ensured.1
  let nextHits := state.hits + 1
  let windowResetMs := max 0 (state.windowStart + windowMs - now)
  if isLimit limit && decide (nextHits > limit.getD 0) then
    ({ limited := true, hits := state.hits, windowStart := state.windowStart, windowResetMs },
      pruned.update tenant fun _ => state)
  else
    ({ limited := false, hits := nextHits, windowStart := state.windowStart, windowResetMs },
      pruned.update tenant fun _ => { state with hits := nextHits, windowMs := windowMs })

def acquireConcurrent (limit : Option Nat) (now : Int) :
    TenantThrottleConcurrentResult × InMemoryTenantThrottleStore :=
  let ensured := store.ensureState tenant now store.defaultWindowMs
  let pruned := ensured.2.prune now ensured.1.windowMs
  if isLimit limit && decide (ensured.1.concurrent ≥ limit.getD 0) then
    ({ limited := true, concurrent := ensured.1.concurrent }, pruned)
  else
    ({ limited := false, concurrent := ensured.1.concurrent + 1 },
      pruned.update tenant fun state => { state with concurrent := state.concurrent + 1 })

def releaseConcurrent (now : Int) : Nat × InMemoryTenantThrottleStore :=
  match store.states tenant with
  | none => (0, store)
  | some state =>
    let released : TenantState := { state with concurrent := state.concurrent - 1 }
    let pruned := (store.update tenant fun _ => released).prune now state.windowMs
    if expired now released then
      (0, { pruned with states := Function.update pruned.states tenant none })
    else (released.concurrent, pruned)

/-- The state that an acquisition is about to change is one that it prunes first. -/
def stale (now : Int) : Bool :=
  let state := (store.ensureState tenant now store.defaultWindowMs).1
  !decide (now - store.lastCleanup < state.windowMs) && expired now state

/-! ## What the operations do to the slots -/

variable {store} {tenant} {tenant' : Text} {now windowMs : Int} {limit : Option Nat}

theorem concurrent_update (f : TenantState → TenantState) :
    (store.update tenant f).concurrent tenant' =
      if tenant' = tenant then (store.states tenant).elim 0 fun state => (f state).concurrent
      else store.concurrent tenant' := by
  unfold concurrent update
  dsimp only
  by_cases h : tenant' = tenant
  · rw [if_pos h, h, Function.update_self]
    cases store.states tenant <;> rfl
  · rw [if_neg h, Function.update_of_ne h]

theorem ensureState_concurrent :
    (store.ensureState tenant now windowMs).1.concurrent = store.concurrent tenant := by
  unfold ensureState concurrent
  cases store.states tenant <;> rfl

variable (store tenant now windowMs) in
theorem ensureState_states :
    (store.ensureState tenant now windowMs).2.states tenant =
      some (store.ensureState tenant now windowMs).1 := by
  unfold ensureState
  cases h : store.states tenant with
  | none => exact Function.update_self ..
  | some state => exact h

@[simp] theorem concurrent_ensureState :
    (store.ensureState tenant now windowMs).2.concurrent tenant' = store.concurrent tenant' := by
  unfold ensureState
  cases h : store.states tenant with
  | some state => rfl
  | none =>
    unfold concurrent
    dsimp only
    by_cases heq : tenant' = tenant
    · rw [heq, Function.update_self, h]
      rfl
    · rw [Function.update_of_ne heq]

theorem ensureState_lastCleanup :
    (store.ensureState tenant now windowMs).2.lastCleanup = store.lastCleanup := by
  unfold ensureState
  split <;> rfl

variable (now windowMs) in
theorem prune_states_of_not_expired {state : TenantState} (hstate : store.states tenant = some state)
    (h : now - store.lastCleanup < windowMs ∨ expired now state = false) :
    (store.prune now windowMs).states tenant = some state := by
  unfold prune
  split
  · exact hstate
  · next hdue =>
    rcases h with h | h
    · exact absurd h hdue
    · dsimp only
      rw [hstate, Option.filter_some, h]
      rfl

/-- Only states without slots are deleted. -/
@[simp] theorem concurrent_prune : (store.prune now windowMs).concurrent tenant = store.concurrent tenant := by
  unfold prune
  split
  · rfl
  · unfold concurrent
    dsimp only
    cases store.states tenant with
    | none => rfl
    | some state =>
      rw [Option.filter_some]
      by_cases h : expired now state = true
      · have hzero : state.concurrent = 0 := of_decide_eq_true (Bool.and_elim_left h)
        simp [h, hzero]
      · simp [h]

variable (now windowMs) in
/-- What `prune` leaves of the state that an operation has fetched. -/
theorem prune_states {state : TenantState} (hstate : store.states tenant = some state) :
    (store.prune now windowMs).states tenant = some state ∨
      (store.prune now windowMs).states tenant = none ∧ state.concurrent = 0 := by
  by_cases h : now - store.lastCleanup < windowMs ∨ expired now state = false
  · exact .inl (prune_states_of_not_expired now windowMs hstate h)
  · obtain ⟨hdue, hexpired⟩ := not_or.mp h
    rw [Bool.not_eq_false] at hexpired
    refine .inr ⟨?_, of_decide_eq_true (Bool.and_elim_left hexpired)⟩
    unfold prune
    rw [if_neg hdue]
    dsimp only
    rw [hstate, Option.filter_some, hexpired]
    rfl

/-- A change of the state that an operation has fetched, when it does not take slots. -/
theorem concurrent_update_pruned {state state' : TenantState}
    (hstate : store.states tenant = some state) (hsame : state'.concurrent = state.concurrent) :
    ((store.prune now windowMs).update tenant fun _ => state').concurrent tenant' =
      store.concurrent tenant' := by
  rw [concurrent_update, concurrent_prune]
  split
  · next heq =>
    have hcounter : store.concurrent tenant' = state.concurrent := by
      rw [heq, concurrent, hstate]
      rfl
    rw [hcounter]
    rcases prune_states now windowMs hstate with hkept | ⟨hpruned, hzero⟩
    · rw [hkept]
      exact hsame
    · rw [hpruned, hzero]
      rfl
  · rfl

theorem incrementRate_concurrent :
    (store.incrementRate tenant windowMs limit now).2.concurrent tenant' =
      store.concurrent tenant' := by
  unfold incrementRate
  dsimp only
  split
  all_goals
    split
    all_goals
      rw [concurrent_update_pruned (ensureState_states ..) (by rfl), concurrent_ensureState]

variable (store tenant limit now) in
theorem acquireConcurrent_limited :
    (store.acquireConcurrent tenant limit now).1.limited =
      (isLimit limit && decide (store.concurrent tenant ≥ limit.getD 0)) := by
  unfold acquireConcurrent
  dsimp only
  rw [ensureState_concurrent]
  split
  · next h => rw [h]
  · next h => rw [Bool.eq_false_iff.mpr h]

variable (tenant') in
theorem acquireConcurrent_of_limited (h : (store.acquireConcurrent tenant limit now).1.limited) :
    (store.acquireConcurrent tenant limit now).2.concurrent tenant' = store.concurrent tenant' := by
  unfold acquireConcurrent at h ⊢
  dsimp only at h ⊢
  split at h
  · next hlimit =>
    rw [if_pos hlimit, concurrent_prune, concurrent_ensureState]
  · cases h

theorem acquireConcurrent_other (h : tenant' ≠ tenant) :
    (store.acquireConcurrent tenant limit now).2.concurrent tenant' = store.concurrent tenant' := by
  unfold acquireConcurrent
  dsimp only
  split
  · rw [concurrent_prune, concurrent_ensureState]
  · rw [concurrent_update, if_neg h, concurrent_prune, concurrent_ensureState]

/-- A slot is taken, unless the state it is counted in has been deleted. -/
theorem acquireConcurrent_of_not_limited
    (h : (store.acquireConcurrent tenant limit now).1.limited = false)
    (hstale : store.stale tenant now = false) :
    (store.acquireConcurrent tenant limit now).2.concurrent tenant = store.concurrent tenant + 1 := by
  have hkept := prune_states_of_not_expired now
    (store.ensureState tenant now store.defaultWindowMs).1.windowMs
    (ensureState_states store tenant now store.defaultWindowMs) (by
      rw [ensureState_lastCleanup]
      unfold stale at hstale
      rcases Bool.and_eq_false_iff.mp hstale with hdue | hexpired
      · exact .inl (by simpa using hdue)
      · exact .inr hexpired)
  unfold acquireConcurrent at h ⊢
  dsimp only at h ⊢
  split at h
  · cases h
  · next hlimit =>
    rw [if_neg hlimit, concurrent_update, if_pos rfl, hkept, ← ensureState_concurrent]
    rfl

theorem releaseConcurrent_concurrent :
    (store.releaseConcurrent tenant now).2.concurrent tenant' =
      if tenant' = tenant then store.concurrent tenant - 1 else store.concurrent tenant' := by
  unfold releaseConcurrent
  cases hstate : store.states tenant with
  | none =>
    have hzero : store.concurrent tenant = 0 := by rw [concurrent, hstate]; rfl
    dsimp only
    split
    · next heq => rw [heq, hzero]
    · rfl
  | some state =>
    have hcounter : store.concurrent tenant = state.concurrent := by rw [concurrent, hstate]; rfl
    have hpruned : (((store.update tenant fun _ =>
        { state with concurrent := state.concurrent - 1 }).prune now state.windowMs).concurrent
          tenant') = if tenant' = tenant then store.concurrent tenant - 1
            else store.concurrent tenant' := by
      rw [concurrent_prune, concurrent_update, hstate, hcounter]
      rfl
    dsimp only
    split
    · next hexpired =>
      have hzero : state.concurrent - 1 = 0 := of_decide_eq_true (Bool.and_elim_left hexpired)
      by_cases heq : tenant' = tenant
      · rw [if_pos heq, hcounter, hzero, heq]
        unfold concurrent
        dsimp only
        rw [Function.update_self]
        rfl
      · rw [if_neg heq] at hpruned ⊢
        rw [← hpruned]
        unfold concurrent
        dsimp only
        rw [Function.update_of_ne heq]
    · exact hpruned

end InMemoryTenantThrottleStore

end LoopbackOData
