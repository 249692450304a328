import LoopbackOData.Library.Runs
import LoopbackOData.Throttle.Store

/-!
# Runs of the in-memory throttle store

Any calls on any tenants, one after the other. The limits of a tenant are kept in every run in which
no call changes a state that its own cleanup has deleted.
-/

namespace LoopbackOData

set_option autoImplicit false

open Machine

inductive StoreOperation where
  | incrementRate (windowMs : Int)
  | acquireConcurrent
  | releaseConcurrent
  deriving DecidableEq, Repr

structure StoreCall where
  tenant : Text
  operation : StoreOperation
  now : Int
  deriving DecidableEq, Repr

/-- What a call has returned. -/
inductive StoreOutcome where
  | rate (windowMs : Int) (result : TenantThrottleRateResult)
  | acquired (result : TenantThrottleConcurrentResult)
  | released
  deriving DecidableEq, Repr

structure StoreRecord where
  tenant : Text
  now : Int
  outcome : StoreOutcome
  deriving DecidableEq, Repr

/-- The positive limits of each tenant. -/
structure StoreLimits where
  rate : Text → Nat
  concurrent : Text → Nat
  rate_pos : ∀ tenant, 0 < rate tenant
  concurrent_pos : ∀ tenant, 0 < concurrent tenant

/-- The store, the time of the last call and the calls so far, the last one first. -/
structure StoreRun where
  store : InMemoryTenantThrottleStore
  now : Int
  log : List StoreRecord

namespace StoreRun

def start (defaultWindowMs now : Int) : StoreRun :=
  ⟨{ defaultWindowMs := defaultWindowMs }, now, []⟩

def perform (limits : StoreLimits) (run : StoreRun) (call : StoreCall) : StoreRun :=
  match call.operation with
  | .incrementRate windowMs =>
    let (result, store) := run.store.incrementRate call.tenant windowMs
      (some (limits.rate call.tenant)) call.now
    ⟨store, call.now, ⟨call.tenant, call.now, .rate windowMs result⟩ :: run.log⟩
  | .acquireConcurrent =>
    let (result, store) := run.store.acquireConcurrent call.tenant
      (some (limits.concurrent call.tenant)) call.now
    ⟨store, call.now, ⟨call.tenant, call.now, .acquired result⟩ :: run.log⟩
  | .releaseConcurrent =>
    let (_, store) := run.store.releaseConcurrent call.tenant call.now
    ⟨store, call.now, ⟨call.tenant, call.now, .released⟩ :: run.log⟩

/-- The clock does not go back. -/
def step (limits : StoreLimits) (run : StoreRun) (call : StoreCall) : Option StoreRun :=
  if call.now < run.now then none else some (run.perform limits call)

/-- The granted acquisitions of a tenant. -/
def granted (tenant : Text) (log : List StoreRecord) : Nat :=
  log.countP fun record => record.tenant = tenant &&
    match record.outcome with
    | .acquired result => !result.limited
    | _ => false

def released (tenant : Text) (log : List StoreRecord) : Nat :=
  log.countP fun record => record.tenant = tenant && record.outcome = .released

/-- The times of the rate calls of a tenant that were granted. -/
def hits (tenant : Text) (log : List StoreRecord) : List Int :=
  log.filterMap fun record =>
    match record.outcome with
    | .rate _ result => if record.tenant = tenant && !result.limited then some record.now else none
    | _ => none

/-- The rate windows that the calls of a tenant have reported, as start and length. -/
def windows (tenant : Text) (log : List StoreRecord) : List (Int × Int) :=
  log.filterMap fun record =>
    match record.outcome with
    | .rate windowMs result =>
      if record.tenant = tenant then some (result.windowStart, windowMs) else none
    | _ => none

/-- How many of the times are in a window. -/
def countIn (times : List Int) (start windowMs : Int) : Nat :=
  times.countP fun time => start ≤ time && time < start + windowMs

/-- The limits of a tenant in one state: the acquisitions without a release, and the grants in each
window. -/
structure WithinLimits (limits : StoreLimits) (tenant : Text) (run : StoreRun) : Prop where
  concurrent : granted tenant run.log ≤ released tenant run.log + limits.concurrent tenant
  rate : ∀ window ∈ windows tenant run.log,
    countIn (hits tenant run.log) window.1 window.2 ≤ limits.rate tenant

end StoreRun

/-- The state that a rate call is about to change is one that it prunes first. -/
def InMemoryTenantThrottleStore.staleRate (store : InMemoryTenantThrottleStore) (tenant : Text)
    (windowMs now : Int) : Bool :=
  !decide (now - store.lastCleanup < windowMs) &&
    expired now (store.ensureState tenant now windowMs).1

/-- A call of the tenant changes a state that stays in the map, and its rate calls have one
length of windows. -/
def StoreCall.Counted (tenant : Text) (windowMs : Int) (run : StoreRun) (call : StoreCall) : Prop :=
  call.tenant = tenant →
    match call.operation with
    | .incrementRate length =>
      length = windowMs ∧ run.store.staleRate tenant windowMs call.now = false
    | .acquireConcurrent => run.store.stale tenant call.now = false
    | .releaseConcurrent => True

namespace InMemoryTenantThrottleStore

/-! ## What the operations do to a rate window -/

/-- What a call that grants no hit to the tenant makes of its state: the window and the hits stay,
or a new state has none, or the state is gone and its time is over. -/
inductive Drifts (now : Int) : Option TenantState → Option TenantState → Prop where
  | same {state state' : TenantState} (hstart : state'.windowStart = state.windowStart)
    (hlength : state'.windowMs = state.windowMs) (hhits : state'.hits = state.hits) :
    Drifts now (some state) (some state')
  | created {state : TenantState} (hstart : state.windowStart = now) (hhits : state.hits = 0) :
    Drifts now none (some state)
  | gone {before : Option TenantState}
    (h : ∀ state, before = some state → state.windowStart + state.windowMs ≤ now) :
    Drifts now before none

variable {store : InMemoryTenantThrottleStore} {tenant tenant' : Text} {now windowMs : Int}
  {limit : Option Nat}

theorem Drifts.refl (state : Option TenantState) : Drifts now state state := by
  cases state with
  | none => exact .gone nofun
  | some state => exact .same rfl rfl rfl

theorem Drifts.trans {before after : Option TenantState} {state : TenantState}
    (h : Drifts now before (some state)) (h' : Drifts now (some state) after) :
    Drifts now before after := by
  cases h' with
  | same hstart hlength hhits =>
    cases h with
    | same hstart' hlength' hhits' =>
      exact .same (hstart.trans hstart') (hlength.trans hlength') (hhits.trans hhits')
    | created hstart' hhits' => exact .created (hstart.trans hstart') (hhits.trans hhits')
  | gone hgone =>
    cases h with
    | same hstart' hlength' _ =>
      refine .gone fun before hbefore => ?_
      obtain rfl := Option.some.inj hbefore
      rw [← hstart', ← hlength']
      exact hgone _ rfl
    | created => exact .gone nofun

variable (store tenant tenant' now windowMs) in
theorem drifts_ensureState :
    Drifts now (store.states tenant')
      ((store.ensureState tenant now windowMs).2.states tenant') := by
  unfold ensureState
  cases h : store.states tenant with
  | some state => exact .refl _
  | none =>
    by_cases heq : tenant' = tenant
    · rw [heq, h]
      dsimp only
      rw [Function.update_self]
      exact .created rfl rfl
    · dsimp only
      rw [Function.update_of_ne heq]
      exact .refl _

variable (store tenant now windowMs) in
theorem drifts_prune :
    Drifts now (store.states tenant) ((store.prune now windowMs).states tenant) := by
  unfold prune
  split
  · exact .refl _
  · dsimp only
    cases h : store.states tenant with
    | none => exact .gone nofun
    | some state =>
      rw [Option.filter_some]
      cases hexpired : expired now state with
      | false => exact .refl _
      | true =>
        refine .gone fun before hbefore => ?_
        obtain rfl := Option.some.inj hbefore
        have helapsed := of_decide_eq_true (Bool.and_elim_right hexpired)
        omega

/-- A change of the slots. -/
theorem drifts_update {f : TenantState → TenantState}
    (hf : ∀ state, (f state).windowStart = state.windowStart ∧
      (f state).windowMs = state.windowMs ∧ (f state).hits = state.hits) :
    Drifts now (store.states tenant') ((store.update tenant f).states tenant') := by
  unfold update
  dsimp only
  by_cases heq : tenant' = tenant
  · rw [heq, Function.update_self]
    cases store.states tenant with
    | none => exact .refl none
    | some state => exact .same (hf state).1 (hf state).2.1 (hf state).2.2
  · rw [Function.update_of_ne heq]
    exact .refl _

theorem Drifts.bind {before middle after : Option TenantState} (h : Drifts now before middle)
    (hnone : middle = none → after = none) (h' : Drifts now middle after) :
    Drifts now before after := by
  cases middle with
  | none =>
    rw [hnone rfl]
    exact h
  | some state => exact h.trans h'

theorem prune_of_none (h : store.states tenant = none) :
    (store.prune now windowMs).states tenant = none := by
  unfold prune
  split
  · exact h
  · dsimp only
    rw [h]
    rfl

theorem update_of_none {f : TenantState → TenantState} (h : store.states tenant' = none) :
    (store.update tenant f).states tenant' = none := by
  unfold update
  dsimp only
  by_cases heq : tenant' = tenant
  · rw [heq, Function.update_self, ← heq, h]
    rfl
  · rw [Function.update_of_ne heq, h]

theorem drifts_acquireConcurrent :
    Drifts now (store.states tenant')
      ((store.acquireConcurrent tenant limit now).2.states tenant') := by
  have hpruned : ∀ windowMs, Drifts now (store.states tenant')
      (((store.ensureState tenant now store.defaultWindowMs).2.prune now windowMs).states
        tenant') := fun windowMs =>
    (drifts_ensureState store tenant tenant' now store.defaultWindowMs).bind prune_of_none
      (drifts_prune _ _ _ _)
  unfold acquireConcurrent
  dsimp only
  split
  · exact hpruned _
  · exact (hpruned _).bind update_of_none (drifts_update fun state => ⟨rfl, rfl, rfl⟩)

theorem drifts_releaseConcurrent :
    Drifts now (store.states tenant') ((store.releaseConcurrent tenant now).2.states tenant') := by
  unfold releaseConcurrent
  cases hstate : store.states tenant with
  | none => exact .refl _
  | some state =>
    have hpruned : Drifts now (store.states tenant') (((store.update tenant fun _ =>
        { state with concurrent := state.concurrent - 1 }).prune now state.windowMs).states
          tenant') := by
      refine Drifts.bind ?_ prune_of_none (drifts_prune _ _ _ _)
      unfold update
      dsimp only
      by_cases heq : tenant' = tenant
      · rw [heq, Function.update_self, hstate]
        exact .same rfl rfl rfl
      · rw [Function.update_of_ne heq]
        exact .refl _
    dsimp only
    split
    · next hexpired =>
      by_cases heq : tenant' = tenant
      · dsimp only
        rw [heq, Function.update_self, hstate]
        refine .gone fun before hbefore => ?_
        obtain rfl := Option.some.inj hbefore
        have helapsed := of_decide_eq_true (Bool.and_elim_right hexpired)
        dsimp only at helapsed
        omega
      · dsimp only
        rw [Function.update_of_ne heq]
        exact hpruned
    · exact hpruned

theorem drifts_incrementRate (h : tenant' ≠ tenant) :
    Drifts now (store.states tenant')
      ((store.incrementRate tenant windowMs limit now).2.states tenant') := by
  have hpruned : Drifts now (store.states tenant')
      (((store.ensureState tenant now windowMs).2.prune now windowMs).states tenant') :=
    (drifts_ensureState store tenant tenant' now windowMs).bind prune_of_none (drifts_prune _ _ _ _)
  have hupdated : ∀ state, Drifts now (store.states tenant')
      ((((store.ensureState tenant now windowMs).2.prune now windowMs).update tenant
        fun _ => state).states tenant') := fun state => by
    unfold update
    dsimp only
    rw [Function.update_of_ne h]
    exact hpruned
  unfold incrementRate
  dsimp only
  split
  · split
    · exact hupdated _
    · exact hupdated _
  · split
    · exact hupdated _
    · exact hupdated _

/-- The state of the window that a rate call at this time is in. -/
def windowAt (now windowMs : Int) (state : TenantState) : TenantState :=
  if now - state.windowStart ≥ windowMs then { state with windowStart := now, hits := 0 } else state

/-- A rate call that changes a state that stays in the map. -/
theorem incrementRate_states (h : store.staleRate tenant windowMs now = false) {n : Nat}
    (hpos : 0 < n) :
    let state := windowAt now windowMs (store.ensureState tenant now windowMs).1
    let called := store.incrementRate tenant windowMs (some n) now
    called.1.windowStart = state.windowStart ∧
      called.1.limited = decide (n < state.hits + 1) ∧
      called.2.states tenant = some (if n < state.hits + 1 then state
        else { state with hits := state.hits + 1, windowMs := windowMs }) := by
  have hkept := prune_states_of_not_expired now windowMs
    (ensureState_states store tenant now windowMs) (by
      rw [ensureState_lastCleanup]
      unfold staleRate at h
      rcases Bool.and_eq_false_iff.mp h with hdue | hexpired
      · exact .inl (by simpa using hdue)
      · exact .inr hexpired)
  have hlimit : isLimit (some n) = true := by simpa [isLimit] using hpos
  have hupdated : ∀ state, (((store.ensureState tenant now windowMs).2.prune now windowMs).update
      tenant fun _ => state).states tenant = some state := fun state => by
    unfold update
    dsimp only
    rw [Function.update_self, hkept]
    rfl
  unfold incrementRate windowAt
  dsimp only
  rw [hlimit, Bool.true_and, Option.getD_some]
  by_cases hlimited :
      n < (if now - (store.ensureState tenant now windowMs).1.windowStart ≥ windowMs then
        { (store.ensureState tenant now windowMs).1 with windowStart := now, hits := 0 }
      else (store.ensureState tenant now windowMs).1).hits + 1
  · rw [if_pos (decide_eq_true hlimited), if_pos hlimited, decide_eq_true hlimited]
    exact ⟨rfl, rfl, hupdated _⟩
  · rw [if_neg (by simpa using hlimited), if_neg hlimited, decide_eq_false hlimited]
    exact ⟨rfl, rfl, hupdated _⟩

end InMemoryTenantThrottleStore

open InMemoryTenantThrottleStore

namespace StoreRun

/-! ## The invariant of the rate windows -/

/-- No window has more grants than the limit, and the state of the tenant counts those of the window
that is open. -/
structure RateKept (windowMs : Int) (limit : Nat) (now : Int) (state : Option TenantState)
    (starts times : List Int) : Prop where
  counted : ∀ start ∈ starts, countIn times start windowMs ≤ limit
  opened : ∀ start ∈ starts, start + windowMs ≤ now ∨
    ∃ current, state = some current ∧ current.windowStart = start ∧ 0 < current.hits
  inside : ∀ time ∈ times, ∃ start ∈ starts, start ≤ time ∧ time < start + windowMs
  started : ∀ current, state = some current → current.windowStart ≤ now
  atMost : ∀ current, state = some current → current.hits ≤ limit
  length : ∀ current, state = some current → 0 < current.hits → current.windowMs = windowMs
  hits : ∀ current, state = some current →
    countIn times current.windowStart windowMs ≤ current.hits

section RateKept

variable {windowMs now now' : Int} {limit : Nat} {state state' : Option TenantState}
  {current : TenantState} {starts times : List Int}

theorem countIn_cons_of_le {start : Int} (h : start + windowMs ≤ now) :
    countIn (now :: times) start windowMs = countIn times start windowMs := by
  have hout : (decide (start ≤ now) && decide (now < start + windowMs)) = false := by
    rw [Bool.and_eq_false_iff]
    exact .inr (decide_eq_false (by omega))
  exact List.countP_cons_of_neg (by rw [hout]; exact Bool.false_ne_true)

theorem countIn_cons_le (start : Int) :
    countIn (now :: times) start windowMs ≤ countIn times start windowMs + 1 := by
  unfold countIn
  rw [List.countP_cons]
  split
  · exact le_rfl
  · exact Nat.le_succ _

theorem countIn_of_lt (h : ∀ time ∈ times, time < now) : countIn times now windowMs = 0 := by
  refine List.countP_eq_zero.mpr fun time htime => ?_
  have hlt := h time htime
  simp only [Bool.and_eq_true, decide_eq_true_eq, not_and]
  omega

/-- Once the window of the state is over, all grants are in the past. -/
theorem RateKept.time_lt (h : RateKept windowMs limit now state starts times) (hle : now ≤ now')
    (hover : ∀ current, state = some current → 0 < current.hits →
      current.windowStart + windowMs ≤ now') : ∀ time ∈ times, time < now' := by
  intro time htime
  obtain ⟨start, hstart, -, hlt⟩ := h.inside time htime
  rcases h.opened start hstart with hended | ⟨current, hcurrent, rfl, hhits⟩
  · omega
  · have hended := hover current hcurrent hhits
    omega

theorem RateKept.drift (h : RateKept windowMs limit now state starts times) (hle : now ≤ now')
    (hdrifts : Drifts now' state state') :
    RateKept windowMs limit now' state' starts times := by
  cases hdrifts with
  | @same before after hstart hlength hhits =>
    refine ⟨h.counted, ?_, h.inside, ?_, ?_, ?_, ?_⟩
    · intro start hmem
      rcases h.opened start hmem with hended | ⟨current, hcurrent, hsame, hpos⟩
      · exact .inl (by omega)
      · obtain rfl := Option.some.inj hcurrent
        exact .inr ⟨after, rfl, hstart.trans hsame, by rw [hhits]; exact hpos⟩
    all_goals
      intro current hcurrent
      obtain rfl := Option.some.inj hcurrent
    · rw [hstart]
      exact (h.started before rfl).trans hle
    · rw [hhits]
      exact h.atMost before rfl
    · rw [hhits, hlength]
      exact h.length before rfl
    · rw [hhits, hstart]
      exact h.hits before rfl
  | @created after hstart hhits =>
    have hpast : ∀ time ∈ times, time < now' := h.time_lt hle nofun
    refine ⟨h.counted, ?_, h.inside, ?_, ?_, ?_, ?_⟩
    · intro start hmem
      rcases h.opened start hmem with hended | ⟨current, hcurrent, -⟩
      · exact .inl (by omega)
      · cases hcurrent
    all_goals
      intro current hcurrent
      obtain rfl := Option.some.inj hcurrent
    · exact hstart.le
    · rw [hhits]
      exact Nat.zero_le limit
    · rw [hhits]
      exact fun hpos => absurd hpos (Nat.lt_irrefl 0)
    · rw [hstart, countIn_of_lt hpast]
      exact Nat.zero_le _
  | gone hgone =>
    refine ⟨h.counted, ?_, h.inside, nofun, nofun, nofun, nofun⟩
    intro start hmem
    rcases h.opened start hmem with hended | ⟨current, hcurrent, rfl, hpos⟩
    · exact .inl (by omega)
    · have hover := hgone current hcurrent
      rw [h.length current hcurrent hpos] at hover
      exact .inl hover

/-- The window that a rate call is in. -/
theorem RateKept.windowAt (h : RateKept windowMs limit now (some current) starts times)
    (hpos : 0 < windowMs) :
    RateKept windowMs limit now (some (windowAt now windowMs current)) starts times ∧
      now < (InMemoryTenantThrottleStore.windowAt now windowMs current).windowStart + windowMs := by
  unfold InMemoryTenantThrottleStore.windowAt
  split
  · next hover =>
    have hpast : ∀ time ∈ times, time < now := h.time_lt le_rfl fun before hbefore _ => by
      obtain rfl := Option.some.inj hbefore
      omega
    refine ⟨⟨h.counted, ?_, h.inside, ?_, ?_, ?_, ?_⟩, by dsimp only; omega⟩
    · intro start hmem
      rcases h.opened start hmem with hended | ⟨before, hbefore, hsame, -⟩
      · exact .inl hended
      · obtain rfl := Option.some.inj hbefore
        exact .inl (by omega)
    all_goals
      intro after hafter
      obtain rfl := Option.some.inj hafter
    · exact le_rfl
    · exact Nat.zero_le limit
    · exact fun hpos => absurd hpos (Nat.lt_irrefl 0)
    · dsimp only
      rw [countIn_of_lt hpast]
  · next hopen => exact ⟨h, by omega⟩

theorem RateKept.limited (h : RateKept windowMs limit now (some current) starts times)
    (hpos : 0 < current.hits) :
    RateKept windowMs limit now (some current) (current.windowStart :: starts) times := by
  refine ⟨?_, ?_, ?_, h.started, h.atMost, h.length, h.hits⟩
  · rintro start (_ | ⟨_, hmem⟩)
    · exact (h.hits current rfl).trans (h.atMost current rfl)
    · exact h.counted start hmem
  · rintro start (_ | ⟨_, hmem⟩)
    · exact .inr ⟨current, rfl, rfl, hpos⟩
    · exact h.opened start hmem
  · intro time htime
    obtain ⟨start, hmem, hin⟩ := h.inside time htime
    exact ⟨start, List.mem_cons_of_mem _ hmem, hin⟩

theorem RateKept.hit (h : RateKept windowMs limit now (some current) starts times)
    (hopen : now < current.windowStart + windowMs) (hlt : current.hits + 1 ≤ limit) :
    RateKept windowMs limit now
      (some { current with hits := current.hits + 1, windowMs := windowMs })
      (current.windowStart :: starts) (now :: times) := by
  have hcount : countIn (now :: times) current.windowStart windowMs ≤ current.hits + 1 :=
    (countIn_cons_le current.windowStart).trans (Nat.add_le_add_right (h.hits current rfl) 1)
  refine ⟨?_, ?_, ?_, ?_, ?_, ?_, ?_⟩
  · rintro start (_ | ⟨_, hmem⟩)
    · exact hcount.trans hlt
    · rcases h.opened start hmem with hended | ⟨before, hbefore, rfl, -⟩
      · rw [countIn_cons_of_le hended]
        exact h.counted start hmem
      · obtain rfl := Option.some.inj hbefore
        exact hcount.trans hlt
  · rintro start (_ | ⟨_, hmem⟩)
    · exact .inr ⟨_, rfl, rfl, Nat.succ_pos _⟩
    · rcases h.opened start hmem with hended | ⟨before, hbefore, rfl, -⟩
      · exact .inl hended
      · obtain rfl := Option.some.inj hbefore
        exact .inr ⟨_, rfl, rfl, Nat.succ_pos _⟩
  · rintro time (_ | ⟨_, htime⟩)
    · exact ⟨current.windowStart, List.mem_cons_self, h.started current rfl, hopen⟩
    · obtain ⟨start, hmem, hin⟩ := h.inside time htime
      exact ⟨start, List.mem_cons_of_mem _ hmem, hin⟩
  all_goals
    intro after hafter
    obtain rfl := Option.some.inj hafter
  · exact h.started current rfl
  · exact hlt
  · exact fun _ => rfl
  · exact hcount

end RateKept

/-! ## Runs -/

/-- What holds in a run whose calls of the tenant are counted. -/
structure Kept (limits : StoreLimits) (tenant : Text) (windowMs : Int) (run : StoreRun) :
    Prop where
  slots : granted tenant run.log ≤ released tenant run.log + run.store.concurrent tenant
  atMost : run.store.concurrent tenant ≤ limits.concurrent tenant
  lengths : ∀ window ∈ windows tenant run.log, window.2 = windowMs
  rate : 0 < windowMs → RateKept windowMs (limits.rate tenant) run.now (run.store.states tenant)
    ((windows tenant run.log).map Prod.fst) (hits tenant run.log)

section Runs

variable {limits : StoreLimits} {tenant : Text} {windowMs : Int} {run run' : StoreRun}
  {call : StoreCall}

theorem kept_start (defaultWindowMs now : Int) :
    Kept limits tenant windowMs (start defaultWindowMs now) where
  slots := Nat.zero_le _
  atMost := Nat.zero_le _
  lengths := nofun
  rate := fun _ => ⟨nofun, nofun, nofun, nofun, nofun, nofun, nofun⟩

/-- A call that grants the tenant nothing. -/
theorem Kept.drift (h : Kept limits tenant windowMs run) (hle : run.now ≤ run'.now)
    (hdrifts : Drifts run'.now (run.store.states tenant) (run'.store.states tenant))
    (hgranted : granted tenant run'.log = granted tenant run.log)
    (hslots : released tenant run.log + run.store.concurrent tenant ≤
      released tenant run'.log + run'.store.concurrent tenant)
    (hatMost : run'.store.concurrent tenant ≤ run.store.concurrent tenant)
    (hwindows : windows tenant run'.log = windows tenant run.log)
    (hhits : hits tenant run'.log = hits tenant run.log) :
    Kept limits tenant windowMs run' where
  slots := hgranted ▸ h.slots.trans hslots
  atMost := hatMost.trans h.atMost
  lengths := hwindows ▸ h.lengths
  rate := fun hpos => by
    rw [hwindows, hhits]
    exact (h.rate hpos).drift hle hdrifts

theorem Kept.releaseConcurrent (h : Kept limits tenant windowMs run) (hle : run.now ≤ call.now)
    (hoperation : call.operation = .releaseConcurrent) :
    Kept limits tenant windowMs (run.perform limits call) := by
  obtain ⟨caller, operation, time⟩ := call
  dsimp only at hoperation hle
  subst hoperation
  have hconcurrent : (run.store.releaseConcurrent caller time).2.concurrent tenant =
      if tenant = caller then run.store.concurrent caller - 1 else run.store.concurrent tenant :=
    releaseConcurrent_concurrent
  refine h.drift hle drifts_releaseConcurrent ?_ ?_ ?_ rfl rfl
  · simp [perform, granted]
  · simp only [perform, released, List.countP_cons, hconcurrent]
    by_cases heq : tenant = caller
    · simp [heq]
      omega
    · simp [Ne.symm heq, heq]
  · simp only [perform, hconcurrent]
    split
    · next heq => rw [heq]; exact Nat.sub_le _ _
    · exact le_rfl

theorem Kept.acquireConcurrent (h : Kept limits tenant windowMs run) (hle : run.now ≤ call.now)
    (hcounted : call.Counted tenant windowMs run)
    (hoperation : call.operation = .acquireConcurrent) :
    Kept limits tenant windowMs (run.perform limits call) := by
  obtain ⟨caller, operation, time⟩ := call
  dsimp only at hoperation hle
  subst hoperation
  cases hlimited : (run.store.acquireConcurrent caller (some (limits.concurrent caller))
      time).1.limited with
  | true =>
    have hsame := acquireConcurrent_of_limited tenant hlimited
    refine h.drift hle drifts_acquireConcurrent ?_ ?_ ?_ rfl rfl
    · simp [perform, granted, hlimited]
    · simp [perform, released, hsame]
    · exact hsame.le
  | false =>
    by_cases heq : tenant = caller
    · subst heq
      have htaken := acquireConcurrent_of_not_limited hlimited (hcounted rfl)
      have hroom : run.store.concurrent tenant < limits.concurrent tenant := by
        rw [acquireConcurrent_limited] at hlimited
        simpa [isLimit, limits.concurrent_pos] using hlimited
      refine ⟨?_, ?_, h.lengths, fun hpos => (h.rate hpos).drift hle drifts_acquireConcurrent⟩
      · have hslots := h.slots
        simp only [perform, granted, released, List.countP_cons, hlimited, htaken] at hslots ⊢
        simp
        omega
      · exact htaken.trans_le hroom
    · have hsame : (run.store.acquireConcurrent caller (some (limits.concurrent caller))
          time).2.concurrent tenant = run.store.concurrent tenant := acquireConcurrent_other heq
      refine h.drift hle drifts_acquireConcurrent ?_ ?_ ?_ rfl rfl
      · simp [perform, granted, Ne.symm heq]
      · simp [perform, released, hsame]
      · exact hsame.le

theorem Kept.incrementRate (h : Kept limits tenant windowMs run) (hle : run.now ≤ call.now)
    (hcounted : call.Counted tenant windowMs run) {length : Int}
    (hoperation : call.operation = .incrementRate length) :
    Kept limits tenant windowMs (run.perform limits call) := by
  obtain ⟨caller, operation, time⟩ := call
  dsimp only at hoperation hle
  subst hoperation
  have hsame : (run.store.incrementRate caller length (some (limits.rate caller)) time).2.concurrent
      tenant = run.store.concurrent tenant := incrementRate_concurrent
  by_cases heq : tenant = caller
  · subst heq
    obtain ⟨rfl, hstale⟩ := hcounted rfl
    obtain ⟨hstart, hlimited, hstates⟩ :=
      incrementRate_states hstale (limits.rate_pos tenant)
    refine ⟨?_, hsame.trans_le h.atMost, ?_, ?_⟩
    · simpa [perform, granted, released, hsame] using h.slots
    · intro window hwindow
      simp only [perform, windows, List.filterMap_cons, if_true] at hwindow
      rcases List.mem_cons.mp hwindow with rfl | hwindow
      · rfl
      · exact h.lengths window hwindow
    · intro hpos
      have hensured := (h.rate hpos).drift hle
        (drifts_ensureState run.store tenant tenant time length)
      rw [ensureState_states] at hensured
      obtain ⟨hwindow, hopen⟩ := hensured.windowAt hpos
      have hatMost := hwindow.atMost _ rfl
      simp only [perform, windows, StoreRun.hits, List.filterMap_cons, decide_true, if_true,
        hstart, hlimited, hstates, List.map_cons, Bool.true_and]
      by_cases hfull : limits.rate tenant <
          (InMemoryTenantThrottleStore.windowAt time length
            (run.store.ensureState tenant time length).1).hits + 1
      · rw [if_pos hfull, decide_eq_true hfull]
        have hlimit := limits.rate_pos tenant
        exact hwindow.limited (by omega)
      · rw [if_neg hfull, decide_eq_false hfull]
        exact hwindow.hit hopen (Nat.not_lt.mp hfull)
  · refine h.drift hle (drifts_incrementRate heq) ?_ ?_ hsame.le ?_ ?_
    · simp [perform, granted]
    · simp [perform, released, hsame]
    · simp [perform, windows, Ne.symm heq]
    · simp [perform, hits, Ne.symm heq]

theorem Kept.step (h : Kept limits tenant windowMs run)
    (hcounted : call.Counted tenant windowMs run) (hstep : run.step limits call = some run') : Kept limits tenant windowMs run' := by
  unfold StoreRun.step at hstep
  split at hstep
  · cases hstep
  · next hlt =>
    obtain rfl := Option.some.inj hstep
    have hle : run.now ≤ call.now := Int.not_lt.mp hlt
    cases hoperation : call.operation with
    | incrementRate length => exact h.incrementRate hle hcounted hoperation
    | acquireConcurrent => exact h.acquireConcurrent hle hcounted hoperation
    | releaseConcurrent => exact h.releaseConcurrent hle hoperation

theorem countIn_eq_zero {times : List Int} {start : Int} (h : windowMs ≤ 0) :
    countIn times start windowMs = 0 := by
  refine List.countP_eq_zero.mpr fun time _ => ?_
  simp only [Bool.and_eq_true, decide_eq_true_eq, not_and]
  omega

theorem Kept.withinLimits (h : Kept limits tenant windowMs run) :
    WithinLimits limits tenant run where
  concurrent := h.slots.trans (Nat.add_le_add_left h.atMost _)
  rate := fun window hwindow => by
    rw [h.lengths window hwindow]
    by_cases hpos : 0 < windowMs
    · exact (h.rate hpos).counted window.1 (List.mem_map_of_mem hwindow)
    · rw [countIn_eq_zero (Int.not_lt.mp hpos)]
      exact Nat.zero_le _

/-- The limits of a tenant are kept in every run in which each of its calls is counted. -/
theorem reaches_withinLimits (limits : StoreLimits) (tenant : Text)
    (defaultWindowMs windowMs now : Int) (run : StoreRun)
    (h : Reaches (step limits) (fun run call => call.Counted tenant windowMs run)
      (start defaultWindowMs now) run) : WithinLimits limits tenant run :=
  (h.invariant (kept_start defaultWindowMs now)
    fun _ _ _ hkept hcounted hstep => hkept.step hcounted hstep).withinLimits

/-- The positive limit 1 for every tenant. -/
def onePerTenant : StoreLimits where
  rate _ := 1
  concurrent _ := 1
  rate_pos _ := Nat.one_pos
  concurrent_pos _ := Nat.one_pos

theorem reaches_withinLimits_two :
    ∃ run, WithinLimits onePerTenant [] run ∧ granted [] run.log = 1 ∧
      (hits [] run.log).length = 1 := by
  refine ⟨_, reaches_withinLimits onePerTenant [] 60000 60000 100000 _
    (.next ⟨[], .acquireConcurrent, 100001⟩
      (.next ⟨[], .incrementRate 60000, 100000⟩ .start (fun _ => ⟨rfl, rfl⟩) rfl)
      (fun _ => rfl) rfl), ?_, ?_⟩
  · rfl
  · rfl

/-- The cleanup of a call prunes the state of the tenant that the call then changes: its slot is
not counted. -/
theorem not_withinLimits_pruned :
    ¬ ∀ (limits : StoreLimits) (defaultWindowMs now : Int) (calls : List StoreCall)
      (run : StoreRun), Machine.run (step limits) (start defaultWindowMs now) calls = some run →
      ∀ tenant, WithinLimits limits tenant run := by
  intro h
  have hrun := h onePerTenant 60000 100000
    [⟨[], .acquireConcurrent, 100000⟩, ⟨[], .releaseConcurrent, 100000⟩,
      ⟨[], .acquireConcurrent, 200000⟩, ⟨[], .acquireConcurrent, 200000⟩] _ rfl []
  exact absurd hrun.concurrent (by decide)

end Runs

end StoreRun

end LoopbackOData
