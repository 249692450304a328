import LoopbackOData.Throttle.Lifecycle

/-!
# Lease timers

The provider keeps a timer for every tenant with granted checks, which refreshes the lease of the
tenant in the store. Calls of `check` and `release` stop at each `await`; the store does what a call
awaits at some time, and the call goes on at some time after that.
-/

namespace LoopbackOData

namespace LeaseTimers

set_option autoImplicit false

/-! ## Stores -/

/-- A store with leases to refresh. Its counter of a tenant goes up with a slot that it grants and
down with a release, whatever the time is. -/
structure LeaseStore (σ : Type) where
  start : σ
  incrementRate : σ → Text → Option Nat → Int → Bool × σ
  acquireConcurrent : σ → Text → Option Nat → Int → Bool × σ
  releaseConcurrent : σ → Text → Int → σ
  refreshConcurrentLease : σ → Text → Int → σ
  concurrent : σ → Text → Nat
  concurrent_start (tenant : Text) : concurrent start tenant = 0
  concurrent_rate (s : σ) (tenant : Text) (limit : Option Nat) (now : Int) (other : Text) :
    concurrent (incrementRate s tenant limit now).2 other = concurrent s other
  concurrent_acquire (s : σ) (tenant : Text) (limit : Option Nat) (now : Int) (other : Text) :
    concurrent (acquireConcurrent s tenant limit now).2 other =
      concurrent s other +
        if tenant = other ∧ (acquireConcurrent s tenant limit now).1 = false then 1 else 0
  concurrent_release (s : σ) (tenant : Text) (now : Int) (other : Text) :
    concurrent (releaseConcurrent s tenant now) other =
      concurrent s other - if tenant = other then 1 else 0
  concurrent_refresh (s : σ) (tenant : Text) (now : Int) (other : Text) :
    concurrent (refreshConcurrentLease s tenant now) other = concurrent s other

/-- The store that only counts. -/
def countingStore : LeaseStore (Text → Nat) where
  start _ := 0
  incrementRate s _ _ _ := (false, s)
  acquireConcurrent s tenant limit _ :=
    if isLimit limit = true ∧ limit.getD 0 ≤ s tenant then (true, s)
    else (false, Function.update s tenant (s tenant + 1))
  releaseConcurrent s tenant _ := Function.update s tenant (s tenant - 1)
  refreshConcurrentLease s _ _ := s
  concurrent s tenant := s tenant
  concurrent_start _ := rfl
  concurrent_rate _ _ _ _ _ := rfl
  concurrent_acquire s tenant limit _ other := by
    by_cases hlimited : isLimit limit = true ∧ limit.getD 0 ≤ s tenant
    · simp [hlimited]
    · by_cases heq : tenant = other
      · subst heq
        simp [hlimited]
      · simp [hlimited, heq, Ne.symm heq]
  concurrent_release s tenant _ other := by
    by_cases heq : tenant = other
    · subst heq
      simp
    · simp [heq, Ne.symm heq]
  concurrent_refresh _ _ _ _ := rfl

/-! ## The provider -/

structure LeaseConfig where
  tenantQuotas : Option ODataTenantQuotaConfig
  maxLeaseRefreshers : Option Nat

def resolveLeaseTimerLimit (config : LeaseConfig) : Nat :=
  if isLimit config.maxLeaseRefreshers then config.maxLeaseRefreshers.getD 0 else 1000

structure ActiveTenantEntry where
  count : Nat
  timer : Option Nat

/-- A timer that was set and not cleared. -/
structure LeaseTimer where
  id : Nat
  tenant : Text
  deriving DecidableEq

/-- Where a check stands, and the release of a granted one. -/
inductive ThrottlePhase where
  /-- `incrementRate` is awaited, and the store has not done it. -/
  | rating
  | rated (limited : Bool)
  | acquiring
  | acquired (limited : Bool)
  | granted
  /-- `releaseConcurrent` is awaited because no timer could be set. -/
  | undoing
  | undone
  | rejected
  | releasing
  | unleased
  | released
  deriving DecidableEq, Repr

structure ThrottleCall where
  tenant : Text
  phase : ThrottlePhase

structure TenantThrottler (σ : Type) where
  store : σ
  activeTenants : Dictionary Text ActiveTenantEntry
  activeLeaseTimerCount : Nat
  timers : List LeaseTimer
  nextTimer : Nat
  calls : List ThrottleCall

variable {σ : Type}

namespace TenantThrottler

def start (store : LeaseStore σ) : TenantThrottler σ := ⟨store.start, Dictionary.empty, 0, [], 0, []⟩

def ensureLeaseTimerCapacity (limit : Nat) (p : TenantThrottler σ) : Bool :=
  limit = 0 || p.activeLeaseTimerCount < limit

def startLeaseTimer (p : TenantThrottler σ) (tenant : Text) : Nat × TenantThrottler σ :=
  (p.nextTimer,
    { p with timers := p.timers ++ [⟨p.nextTimer, tenant⟩], nextTimer := p.nextTimer + 1 })

def clearInterval (p : TenantThrottler σ) (timer : Nat) : TenantThrottler σ :=
  { p with timers := p.timers.filter fun live => live.id ≠ timer }

/-- Nothing where no timer can be set. -/
def incrementActiveTenant (limit : Nat) (p : TenantThrottler σ) (tenant : Text) :
    Option (TenantThrottler σ) :=
  match p.activeTenants.get tenant with
  | some entry =>
    some { p with
      activeTenants := p.activeTenants.set tenant { entry with count := entry.count + 1 } }
  | none =>
    if p.ensureLeaseTimerCapacity limit then
      let started := p.startLeaseTimer tenant
      some { started.2 with
        activeTenants := p.activeTenants.set tenant ⟨1, some started.1⟩
        activeLeaseTimerCount := p.activeLeaseTimerCount + 1 }
    else none

def decrementActiveTenant (p : TenantThrottler σ) (tenant : Text) : TenantThrottler σ :=
  match p.activeTenants.get tenant with
  | none => p
  | some entry =>
    if entry.count - 1 = 0 then
      let cleared := match entry.timer with
        | some timer =>
          { p.clearInterval timer with activeLeaseTimerCount := p.activeLeaseTimerCount - 1 }
        | none => p
      { cleared with
        activeTenants := p.activeTenants.filter fun active => active.1 ≠ tenant }
    else
      { p with
        activeTenants := p.activeTenants.set tenant { entry with count := entry.count - 1 } }

/-! ## Calls -/

def setPhase (p : TenantThrottler σ) (i : Nat) (call : ThrottleCall) (phase : ThrottlePhase) :
    TenantThrottler σ :=
  { p with calls := p.calls.set i { call with phase := phase } }

/-- A check up to its first `await`; without limits of the tenant it has returned. -/
def check (config : LeaseConfig) (p : TenantThrottler σ) (tenant : Text) : TenantThrottler σ :=
  let limits := getLimits config.tenantQuotas tenant
  if !limits.limited then p
  else if isLimit limits.maxRequestsPerMinute then
    { p with calls := p.calls ++ [⟨tenant, .rating⟩] }
  else { p with calls := p.calls ++ [⟨tenant, .acquiring⟩] }

/-- The store does what a call awaits. -/
def execute (store : LeaseStore σ) (config : LeaseConfig) (p : TenantThrottler σ) (i : Nat)
    (call : ThrottleCall) (now : Int) : TenantThrottler σ :=
  let limits := getLimits config.tenantQuotas call.tenant
  match call.phase with
  | .rating =>
    let rate := store.incrementRate p.store call.tenant limits.maxRequestsPerMinute now
    { p.setPhase i call (.rated rate.1) with store := rate.2 }
  | .acquiring =>
    let concurrent := store.acquireConcurrent p.store call.tenant limits.maxConcurrentRequests now
    { p.setPhase i call (.acquired concurrent.1) with store := concurrent.2 }
  | .undoing =>
    { p.setPhase i call .undone with store := store.releaseConcurrent p.store call.tenant now }
  | .releasing =>
    { p.setPhase i call .unleased with store := store.releaseConcurrent p.store call.tenant now }
  | _ => p

/-- A call goes on after its `await`. -/
def resume (config : LeaseConfig) (p : TenantThrottler σ) (i : Nat) (call : ThrottleCall) :
    TenantThrottler σ :=
  match call.phase with
  | .rated true => p.setPhase i call .rejected
  | .rated false => p.setPhase i call .acquiring
  | .acquired true => p.setPhase i call .rejected
  | .acquired false =>
    match p.incrementActiveTenant (resolveLeaseTimerLimit config) call.tenant with
    | some active => active.setPhase i call .granted
    | none => p.setPhase i call .undoing
  | .undone => p.setPhase i call .rejected
  | .unleased => (p.decrementActiveTenant call.tenant).setPhase i call .released
  | _ => p

/-- `releaseTenant` up to its `await`, for a granted check that was not released. -/
def release (p : TenantThrottler σ) (i : Nat) (call : ThrottleCall) : TenantThrottler σ :=
  if call.phase = .granted then p.setPhase i call .releasing else p

end TenantThrottler

inductive LeaseEvent where
  | check (tenant : Text)
  | execute (i : Nat) (now : Int)
  | resume (i : Nat)
  | release (i : Nat)
  | refresh (i : Nat) (now : Int)

namespace TenantThrottler

/-- An event of a call or of a timer that there is not does nothing. -/
def step (store : LeaseStore σ) (config : LeaseConfig) (p : TenantThrottler σ) :
    LeaseEvent → TenantThrottler σ
  | .check tenant => p.check config tenant
  | .execute i now => p.calls[i]?.elim p fun call => p.execute store config i call now
  | .resume i => p.calls[i]?.elim p fun call => p.resume config i call
  | .release i => p.calls[i]?.elim p fun call => p.release i call
  | .refresh i now => p.timers[i]?.elim p fun timer =>
    { p with store := store.refreshConcurrentLease p.store timer.tenant now }

def run (store : LeaseStore σ) (config : LeaseConfig) (events : List LeaseEvent) :
    TenantThrottler σ :=
  events.foldl (step store config) (start store)

end TenantThrottler

/-! ## Counting calls -/

/-- Granted, and its release has not completed. -/
def ThrottlePhase.isHeld : ThrottlePhase → Bool
  | .granted => true
  | .releasing => true
  | .unleased => true
  | _ => false

/-- The store counts it. -/
def ThrottlePhase.hasSlot : ThrottlePhase → Bool
  | .acquired limited => !limited
  | .granted => true
  | .undoing => true
  | .releasing => true
  | _ => false

def ThrottlePhase.isGranted (phase : ThrottlePhase) : Bool := phase.isHeld || phase = .released

/-- Neither the check nor its release is running. -/
def ThrottlePhase.isSettled : ThrottlePhase → Bool
  | .granted => true
  | .rejected => true
  | .released => true
  | _ => false

namespace TenantThrottler

def countCalls (p : TenantThrottler σ) (inPhase : ThrottlePhase → Bool) (tenant : Text) : Nat :=
  p.calls.countP fun call => decide (call.tenant = tenant) && inPhase call.phase

def entryCount (p : TenantThrottler σ) (tenant : Text) : Nat :=
  (p.activeTenants.get tenant).elim 0 ActiveTenantEntry.count

section Counting

variable {p : TenantThrottler σ} {i : Nat} {call : ThrottleCall} (inPhase : ThrottlePhase → Bool)
  (tenant : Text)

theorem countCalls_setPhase (hget : p.calls[i]? = some call) (phase : ThrottlePhase) :
    (p.setPhase i call phase).countCalls inPhase tenant +
        (if call.tenant = tenant ∧ inPhase call.phase = true then 1 else 0) =
      p.countCalls inPhase tenant +
        if call.tenant = tenant ∧ inPhase phase = true then 1 else 0 := by
  obtain ⟨hi, hcall⟩ := List.getElem?_eq_some_iff.mp hget
  have hset := List.countP_set
    (p := fun call : ThrottleCall => decide (call.tenant = tenant) && inPhase call.phase)
    (a := { call with phase := phase }) hi
  have hle := List.boole_getElem_le_countP
    (p := fun call : ThrottleCall => decide (call.tenant = tenant) && inPhase call.phase) hi
  rw [hcall] at hset hle
  simp only [Bool.and_eq_true, decide_eq_true_eq] at hset hle
  rw [countCalls, setPhase]
  dsimp only
  rw [hset, countCalls]
  omega

/-- Phases that count alike. -/
theorem countCalls_setPhase_of_eq (hget : p.calls[i]? = some call) {phase : ThrottlePhase}
    (heq : inPhase phase = inPhase call.phase) :
    (p.setPhase i call phase).countCalls inPhase tenant = p.countCalls inPhase tenant := by
  have h := countCalls_setPhase inPhase tenant hget phase
  rw [heq] at h
  exact Nat.add_right_cancel h

theorem countCalls_append (p : TenantThrottler σ) {call : ThrottleCall}
    (h : inPhase call.phase = false) :
    ({ p with calls := p.calls ++ [call] } : TenantThrottler σ).countCalls inPhase tenant =
      p.countCalls inPhase tenant := by
  rw [countCalls, List.countP_append, List.countP_singleton, h, Bool.and_false]
  rfl

end Counting

/-! ## What is kept -/

/-- The timers are those of the entries, of which each has one, and they are counted. -/
structure Timed (limit : Nat) (p : TenantThrottler σ) : Prop where
  timer_iff : ∀ tenant id, (⟨id, tenant⟩ : LeaseTimer) ∈ p.timers ↔
    ∃ entry, p.activeTenants.get tenant = some entry ∧ entry.timer = some id
  entry : ∀ tenant entry, p.activeTenants.get tenant = some entry →
    (∃ id, entry.timer = some id) ∧ 0 < entry.count
  nodup : (p.timers.map LeaseTimer.id).Nodup
  fresh : ∀ timer ∈ p.timers, timer.id < p.nextTimer
  counted : p.activeLeaseTimerCount = p.timers.length
  atMost : p.activeLeaseTimerCount ≤ limit

structure Accounted (store : LeaseStore σ) (limit : Nat) (p : TenantThrottler σ) : Prop where
  timed : p.Timed limit
  held : ∀ tenant, p.entryCount tenant = p.countCalls ThrottlePhase.isHeld tenant
  slots : ∀ tenant, store.concurrent p.store tenant = p.countCalls ThrottlePhase.hasSlot tenant

/-! ## Timers -/

section Timers

variable {limit : Nat} {p p' : TenantThrottler σ} {tenant : Text}

/-- What bears on the timers. -/
theorem Timed.congr (h : p.Timed limit) (hactive : p'.activeTenants = p.activeTenants)
    (hcount : p'.activeLeaseTimerCount = p.activeLeaseTimerCount) (htimers : p'.timers = p.timers)
    (hnext : p'.nextTimer = p.nextTimer) : p'.Timed limit := by
  obtain ⟨htimer, hentry, hnodup, hfresh, hcounted, hatMost⟩ := h
  constructor
  · rw [hactive, htimers]
    exact htimer
  · rw [hactive]
    exact hentry
  · rw [htimers]
    exact hnodup
  · rw [htimers, hnext]
    exact hfresh
  · rw [hcount, htimers]
    exact hcounted
  · rw [hcount]
    exact hatMost

/-- Another count of an entry changes no timer. -/
theorem Timed.recount (h : p.Timed limit) {entry : ActiveTenantEntry}
    (hget : p.activeTenants.get tenant = some entry) {count : Nat} (hpos : 0 < count) :
    ({ p with activeTenants := p.activeTenants.set tenant { entry with count := count } } :
      TenantThrottler σ).Timed limit := by
  obtain ⟨htimer, hentry, hnodup, hfresh, hcounted, hatMost⟩ := h
  refine ⟨fun other id => ?_, fun other entry' hother => ?_, hnodup, hfresh, hcounted, hatMost⟩
  · rw [htimer, Dictionary.get_set]
    by_cases heq : tenant = other
    · subst heq
      rw [if_pos rfl, hget]
      constructor
      · rintro ⟨_, ⟨⟩, hid⟩
        exact ⟨_, rfl, hid⟩
      · rintro ⟨_, ⟨⟩, hid⟩
        exact ⟨_, rfl, hid⟩
    · rw [if_neg heq]
  · rw [Dictionary.get_set] at hother
    by_cases heq : tenant = other
    · rw [if_pos heq] at hother
      obtain rfl := Option.some.inj hother
      exact ⟨(hentry tenant entry hget).1, hpos⟩
    · rw [if_neg heq] at hother
      exact hentry other entry' hother

theorem entryCount_recount {entry : ActiveTenantEntry} (count : Nat) (other : Text) :
    ({ p with activeTenants := p.activeTenants.set tenant { entry with count := count } } :
      TenantThrottler σ).entryCount other = if tenant = other then count else
        p.entryCount other := by
  rw [entryCount, Dictionary.get_set]
  split
  · rfl
  · rfl

theorem Timed.incrementActiveTenant (h : p.Timed limit) (hlimit : 0 < limit)
    (hsome : p.incrementActiveTenant limit tenant = some p') :
    p'.Timed limit ∧ p'.store = p.store ∧ p'.calls = p.calls ∧
      ∀ other, p'.entryCount other = p.entryCount other + if tenant = other then 1 else 0 := by
  unfold TenantThrottler.incrementActiveTenant at hsome
  cases hget : p.activeTenants.get tenant with
  | some entry =>
    rw [hget] at hsome
    obtain rfl := Option.some.inj hsome
    refine ⟨h.recount hget (Nat.succ_pos _), rfl, rfl, fun other => ?_⟩
    rw [entryCount_recount]
    by_cases heq : tenant = other
    · subst heq
      rw [if_pos rfl, if_pos rfl, entryCount, hget]
      rfl
    · rw [if_neg heq, if_neg heq, Nat.add_zero]
  | none =>
    rw [hget] at hsome
    dsimp only at hsome
    by_cases hcapacity : p.ensureLeaseTimerCapacity limit = true
    · rw [if_pos hcapacity] at hsome
      obtain rfl := Option.some.inj hsome
      obtain ⟨htimer, hentry, hnodup, hfresh, hcounted, hatMost⟩ := h
      have hroom : p.activeLeaseTimerCount < limit := by
        rw [ensureLeaseTimerCapacity, Bool.or_eq_true, decide_eq_true_eq, decide_eq_true_eq]
          at hcapacity
        omega
      refine ⟨⟨fun other id => ?_, fun other entry hother => ?_, ?_, ?_, ?_, hroom⟩, rfl, rfl,
        fun other => ?_⟩
      · simp only [startLeaseTimer, List.mem_append, List.mem_singleton, LeaseTimer.mk.injEq]
        rw [htimer, Dictionary.get_set]
        by_cases heq : tenant = other
        · subst heq
          rw [if_pos rfl, hget]
          constructor
          · rintro (⟨_, ⟨⟩, _⟩ | ⟨rfl, _⟩)
            exact ⟨_, rfl, rfl⟩
          · rintro ⟨_, ⟨⟩, ⟨⟩⟩
            exact .inr ⟨rfl, rfl⟩
        · rw [if_neg heq]
          exact or_iff_left fun hnew => heq hnew.2.symm
      · rw [Dictionary.get_set] at hother
        by_cases heq : tenant = other
        · rw [if_pos heq] at hother
          obtain rfl := Option.some.inj hother
          exact ⟨⟨p.nextTimer, rfl⟩, Nat.one_pos⟩
        · rw [if_neg heq] at hother
          exact hentry other entry hother
      · rw [startLeaseTimer, List.map_append, List.nodup_append]
        refine ⟨hnodup, List.nodup_singleton _, fun id hid _ hnew => ?_⟩
        obtain ⟨timer, hmem, rfl⟩ := List.mem_map.mp hid
        rw [List.mem_singleton.mp hnew]
        exact Nat.ne_of_lt (hfresh timer hmem)
      · intro timer hmem
        rw [startLeaseTimer] at hmem
        obtain hmem | hmem := List.mem_append.mp hmem
        · exact Nat.lt_succ_of_lt (hfresh timer hmem)
        · rw [List.mem_singleton.mp hmem]
          exact Nat.lt_succ_self _
      · rw [startLeaseTimer]
        dsimp only
        rw [List.length_append, ← hcounted]
        rfl
      · rw [entryCount]
        dsimp only
        rw [Dictionary.get_set, entryCount]
        by_cases heq : tenant = other
        · subst heq
          rw [if_pos rfl, if_pos rfl, hget]
          rfl
        · rw [if_neg heq, if_neg heq]
          rfl
    · rw [if_neg hcapacity] at hsome
      cases hsome

/-- Clearing a timer takes it away, and no other. -/
theorem length_clearInterval (h : p.Timed limit) {id : Nat}
    (hmem : (⟨id, tenant⟩ : LeaseTimer) ∈ p.timers) :
    (p.clearInterval id).timers.length + 1 = p.timers.length := by
  have hnodup : p.timers.Nodup := h.nodup.of_map
  have hfilter : (p.clearInterval id).timers = p.timers.erase ⟨id, tenant⟩ := by
    rw [clearInterval, hnodup.erase_eq_filter]
    refine List.filter_congr fun timer htimer => ?_
    by_cases heq : timer = ⟨id, tenant⟩
    · simp [heq]
    · have hne : timer.id ≠ id := fun hid => heq
        (List.inj_on_of_nodup_map h.nodup htimer hmem hid)
      simp [heq, hne]
  rw [hfilter, List.length_erase_of_mem hmem]
  have hpos := List.length_pos_of_mem hmem
  omega

theorem Timed.decrementActiveTenant (h : p.Timed limit) (hheld : 0 < p.entryCount tenant) :
    (p.decrementActiveTenant tenant).Timed limit ∧
      (p.decrementActiveTenant tenant).store = p.store ∧
      (p.decrementActiveTenant tenant).calls = p.calls ∧
      ∀ other, (p.decrementActiveTenant tenant).entryCount other =
        p.entryCount other - if tenant = other then 1 else 0 := by
  rw [entryCount] at hheld
  unfold TenantThrottler.decrementActiveTenant
  cases hget : p.activeTenants.get tenant with
  | none =>
    rw [hget] at hheld
    cases hheld
  | some entry =>
    dsimp only
    obtain ⟨⟨id, hid⟩, hpos⟩ := h.entry tenant entry hget
    by_cases hlast : entry.count - 1 = 0
    · have hmem : (⟨id, tenant⟩ : LeaseTimer) ∈ p.timers :=
        (h.timer_iff tenant id).mpr ⟨entry, hget, hid⟩
      have hlength := length_clearInterval h hmem
      rw [if_pos hlast, hid]
      refine ⟨⟨fun other id' => ?_, fun other entry' hother => ?_, ?_, ?_, ?_, ?_⟩, rfl, rfl,
        fun other => ?_⟩
      · rw [Dictionary.get_filter_ne]
        simp only [clearInterval, List.mem_filter, decide_eq_true_eq]
        rw [h.timer_iff]
        by_cases heq : tenant = other
        · subst heq
          rw [if_pos rfl, hget]
          constructor
          · rintro ⟨⟨_, ⟨⟩, hid'⟩, hne⟩
            exact absurd (Option.some.inj (hid'.symm.trans hid)) hne
          · rintro ⟨_, ⟨⟩, _⟩
        · rw [if_neg heq]
          refine and_iff_left_of_imp fun hother hsame => heq ?_
          have hmem' := (h.timer_iff other id').mpr hother
          have hequal := List.inj_on_of_nodup_map h.nodup hmem' hmem hsame
          exact (congrArg LeaseTimer.tenant hequal).symm
      · rw [Dictionary.get_filter_ne] at hother
        by_cases heq : tenant = other
        · rw [if_pos heq] at hother
          cases hother
        · rw [if_neg heq] at hother
          exact h.entry other entry' hother
      · exact h.nodup.sublist (List.filter_sublist.map _)
      · exact fun timer htimer => h.fresh timer (List.mem_of_mem_filter htimer)
      · dsimp only
        rw [h.counted]
        omega
      · have hatMost := h.atMost
        dsimp only
        omega
      · rw [entryCount]
        dsimp only
        rw [Dictionary.get_filter_ne, entryCount]
        by_cases heq : tenant = other
        · subst heq
          rw [if_pos rfl, if_pos rfl, hget]
          exact hlast.symm
        · rw [if_neg heq, if_neg heq]
          rfl
    · rw [if_neg hlast]
      refine ⟨h.recount hget (Nat.pos_of_ne_zero hlast), rfl, rfl, fun other => ?_⟩
      rw [entryCount_recount]
      by_cases heq : tenant = other
      · subst heq
        rw [if_pos rfl, if_pos rfl, entryCount, hget]
        rfl
      · rw [if_neg heq, if_neg heq, Nat.sub_zero]

end Timers

/-! ## Steps -/

section Steps

variable {store : LeaseStore σ} {config : LeaseConfig} {limit : Nat} {p : TenantThrottler σ}
  {i : Nat} {call : ThrottleCall} {phase : ThrottlePhase}

theorem Timed.setPhase (h : p.Timed limit) : (p.setPhase i call phase).Timed limit :=
  h.congr rfl rfl rfl rfl

/-- A call moves on without a slot or a timer being taken or given back. -/
theorem Accounted.setPhase (h : p.Accounted store limit) (hget : p.calls[i]? = some call)
    (hheld : phase.isHeld = call.phase.isHeld) (hslot : phase.hasSlot = call.phase.hasSlot) :
    (p.setPhase i call phase).Accounted store limit := by
  refine ⟨h.timed.setPhase, fun tenant => ?_, fun tenant => ?_⟩
  · rw [countCalls_setPhase_of_eq _ tenant hget hheld, ← h.held]
    rfl
  · rw [countCalls_setPhase_of_eq _ tenant hget hslot, ← h.slots]
    rfl

/-- The store does what a call awaits, and its counter goes with the slot of the call. -/
theorem Accounted.store_setPhase (h : p.Accounted store limit) (hget : p.calls[i]? = some call)
    (hheld : phase.isHeld = call.phase.isHeld) {s : σ}
    (hstore : ∀ tenant,
      store.concurrent s tenant +
          (if call.tenant = tenant ∧ call.phase.hasSlot = true then 1 else 0) =
        store.concurrent p.store tenant +
          if call.tenant = tenant ∧ phase.hasSlot = true then 1 else 0) :
    ({ p.setPhase i call phase with store := s } : TenantThrottler σ).Accounted store limit := by
  refine ⟨h.timed.congr rfl rfl rfl rfl, fun tenant => ?_, fun tenant => ?_⟩
  · exact (h.held tenant).trans (countCalls_setPhase_of_eq _ tenant hget hheld).symm
  · have hcount := countCalls_setPhase ThrottlePhase.hasSlot tenant hget phase
    have hslots := h.slots tenant
    have hmoves := hstore tenant
    show store.concurrent s tenant = (p.setPhase i call phase).countCalls _ tenant
    omega

/-- A call with a slot is counted by the store. -/
theorem Accounted.slot_pos (h : p.Accounted store limit) (hget : p.calls[i]? = some call)
    (hslot : call.phase.hasSlot = true) : 0 < store.concurrent p.store call.tenant := by
  rw [h.slots, countCalls, List.countP_pos_iff]
  exact ⟨call, List.mem_of_getElem? hget, by simp [hslot]⟩

theorem Accounted.held_pos (h : p.Accounted store limit) (hget : p.calls[i]? = some call)
    (hheld : call.phase.isHeld = true) : 0 < p.entryCount call.tenant := by
  rw [h.held, countCalls, List.countP_pos_iff]
  exact ⟨call, List.mem_of_getElem? hget, by simp [hheld]⟩

theorem Accounted.check (h : p.Accounted store limit) (tenant : Text) :
    (p.check config tenant).Accounted store limit := by
  have happend {phase : ThrottlePhase} (hheld : phase.isHeld = false)
      (hslot : phase.hasSlot = false) :
      ({ p with calls := p.calls ++ [⟨tenant, phase⟩] } : TenantThrottler σ).Accounted
        store limit := by
    refine ⟨h.timed.congr rfl rfl rfl rfl, fun other => ?_, fun other => ?_⟩
    · rw [countCalls_append _ other p hheld, ← h.held]
      rfl
    · rw [countCalls_append _ other p hslot, ← h.slots]
  unfold TenantThrottler.check
  dsimp only
  split
  · exact h
  · split
    · exact happend rfl rfl
    · exact happend rfl rfl

theorem Accounted.execute (h : p.Accounted store limit) (hget : p.calls[i]? = some call)
    (now : Int) : (p.execute store config i call now).Accounted store limit := by
  have hrelease (hslot : call.phase.hasSlot = true) (phase : ThrottlePhase)
      (hnone : phase.hasSlot = false) (tenant : Text) :
      store.concurrent (store.releaseConcurrent p.store call.tenant now) tenant +
          (if call.tenant = tenant ∧ call.phase.hasSlot = true then 1 else 0) =
        store.concurrent p.store tenant +
          if call.tenant = tenant ∧ phase.hasSlot = true then 1 else 0 := by
    have hpos := h.slot_pos hget hslot
    rw [store.concurrent_release, hslot, hnone]
    by_cases heq : call.tenant = tenant
    · subst heq
      simp only [true_and, if_true, Bool.false_eq_true, if_false]
      omega
    · simp [heq]
  unfold TenantThrottler.execute
  dsimp only
  cases hphase : call.phase with
  | rating =>
    refine h.store_setPhase hget (by rw [hphase]; rfl) fun tenant => ?_
    rw [store.concurrent_rate, hphase]
    rfl
  | acquiring =>
    refine h.store_setPhase hget (by rw [hphase]; rfl) fun tenant => ?_
    rw [store.concurrent_acquire, hphase]
    simp [ThrottlePhase.hasSlot]
  | undoing =>
    exact h.store_setPhase hget (by rw [hphase]; rfl) (hrelease (by rw [hphase]; rfl) .undone rfl)
  | releasing =>
    exact h.store_setPhase hget (by rw [hphase]; rfl)
      (hrelease (by rw [hphase]; rfl) .unleased rfl)
  | rated limited => exact h
  | acquired limited => exact h
  | granted => exact h
  | undone => exact h
  | rejected => exact h
  | unleased => exact h
  | released => exact h

/-- The entries move with the call. -/
theorem Accounted.of_moved (h : p.Accounted store limit) (hget : p.calls[i]? = some call)
    {p' : TenantThrottler σ} (htimed : p'.Timed limit) (hstore : p'.store = p.store)
    (hcalls : p'.calls = p.calls) (hslot : phase.hasSlot = call.phase.hasSlot)
    (hcount : ∀ tenant,
      p'.entryCount tenant + (if call.tenant = tenant ∧ call.phase.isHeld = true then 1 else 0) =
        p.entryCount tenant + if call.tenant = tenant ∧ phase.isHeld = true then 1 else 0) :
    (p'.setPhase i call phase).Accounted store limit := by
  have hget' : p'.calls[i]? = some call := by rw [hcalls, hget]
  have hsame (inPhase : ThrottlePhase → Bool) (tenant : Text) :
      p'.countCalls inPhase tenant = p.countCalls inPhase tenant := by
    rw [countCalls, hcalls, countCalls]
  refine ⟨htimed.setPhase, fun tenant => ?_, fun tenant => ?_⟩
  · have hset := countCalls_setPhase ThrottlePhase.isHeld tenant hget' phase
    have hheld := h.held tenant
    have hmoves := hcount tenant
    rw [hsame] at hset
    show p'.entryCount tenant = _
    omega
  · rw [countCalls_setPhase_of_eq _ tenant hget' hslot, hsame, ← h.slots, ← hstore]
    rfl

theorem Accounted.resume (h : p.Accounted store (resolveLeaseTimerLimit config))
    (hlimit : 0 < resolveLeaseTimerLimit config) (hget : p.calls[i]? = some call) :
    (p.resume config i call).Accounted store (resolveLeaseTimerLimit config) := by
  unfold TenantThrottler.resume
  cases hphase : call.phase with
  | rated limited =>
    cases limited with
    | true => exact h.setPhase hget (by rw [hphase]; rfl) (by rw [hphase]; rfl)
    | false => exact h.setPhase hget (by rw [hphase]; rfl) (by rw [hphase]; rfl)
  | acquired limited =>
    cases limited with
    | true => exact h.setPhase hget (by rw [hphase]; rfl) (by rw [hphase]; rfl)
    | false =>
      dsimp only
      cases hactive : p.incrementActiveTenant (resolveLeaseTimerLimit config) call.tenant with
      | none => exact h.setPhase hget (by rw [hphase]; rfl) (by rw [hphase]; rfl)
      | some active =>
        obtain ⟨htimed, hstore, hcalls, hcount⟩ := h.timed.incrementActiveTenant hlimit hactive
        refine h.of_moved hget htimed hstore hcalls (by rw [hphase]; rfl) fun tenant => ?_
        rw [hcount, hphase]
        simp [ThrottlePhase.isHeld]
  | undone => exact h.setPhase hget (by rw [hphase]; rfl) (by rw [hphase]; rfl)
  | unleased =>
    have hpos := h.held_pos hget (by rw [hphase]; rfl)
    obtain ⟨htimed, hstore, hcalls, hcount⟩ := h.timed.decrementActiveTenant hpos
    refine h.of_moved hget htimed hstore hcalls (by rw [hphase]; rfl) fun tenant => ?_
    rw [hcount, hphase]
    by_cases heq : call.tenant = tenant
    · subst heq
      simp only [ThrottlePhase.isHeld, true_and, if_true, Bool.false_eq_true, if_false]
      omega
    · simp [heq]
  | rating => exact h
  | acquiring => exact h
  | granted => exact h
  | undoing => exact h
  | rejected => exact h
  | releasing => exact h
  | released => exact h

theorem Accounted.release (h : p.Accounted store limit) (hget : p.calls[i]? = some call) :
    (p.release i call).Accounted store limit := by
  unfold TenantThrottler.release
  split
  · next hphase => exact h.setPhase hget (by rw [hphase]; rfl) (by rw [hphase]; rfl)
  · exact h

theorem resolveLeaseTimerLimit_pos (config : LeaseConfig) : 0 < resolveLeaseTimerLimit config := by
  unfold resolveLeaseTimerLimit
  split
  · next hlimit =>
    rw [isLimit, Option.any_eq_true] at hlimit
    obtain ⟨n, hn, hpos⟩ := hlimit
    rw [hn]
    exact of_decide_eq_true hpos
  · decide

theorem Accounted.step (h : p.Accounted store (resolveLeaseTimerLimit config))
    (event : LeaseEvent) :
    (p.step store config event).Accounted store (resolveLeaseTimerLimit config) := by
  cases event with
  | check tenant => exact h.check tenant
  | execute i now =>
    unfold TenantThrottler.step
    dsimp only
    cases hget : p.calls[i]? with
    | none => exact h
    | some call => exact h.execute hget now
  | resume i =>
    unfold TenantThrottler.step
    dsimp only
    cases hget : p.calls[i]? with
    | none => exact h
    | some call => exact h.resume (resolveLeaseTimerLimit_pos config) hget
  | release i =>
    unfold TenantThrottler.step
    dsimp only
    cases hget : p.calls[i]? with
    | none => exact h
    | some call => exact h.release hget
  | refresh i now =>
    unfold TenantThrottler.step
    dsimp only
    cases p.timers[i]? with
    | none => exact h
    | some timer =>
      refine ⟨h.timed.congr rfl rfl rfl rfl, h.held, fun tenant => ?_⟩
      exact (store.concurrent_refresh _ _ _ _).trans (h.slots tenant)

theorem accounted_run (store : LeaseStore σ) (config : LeaseConfig) (events : List LeaseEvent) :
    (run store config events).Accounted store (resolveLeaseTimerLimit config) := by
  induction events using List.reverseRecOn with
  | nil =>
    refine ⟨⟨fun tenant id => ?_, fun tenant entry hget => ?_, List.nodup_nil,
      fun timer hmem => absurd hmem List.not_mem_nil, rfl, Nat.zero_le _⟩, fun _ => rfl, ?_⟩
    · refine iff_of_false List.not_mem_nil ?_
      rintro ⟨entry, hget, _⟩
      cases hget
    · cases hget
    · exact fun tenant => store.concurrent_start tenant
  | append_singleton events event ih =>
    rw [run, List.foldl_append, ← run]
    exact ih.step event

end Steps

/-! ## Every moment of a run -/

/-- No check and no release is running. -/
def IsQuiet (p : TenantThrottler σ) : Prop := ∀ call ∈ p.calls, call.phase.isSettled = true

def grantedChecks (p : TenantThrottler σ) (tenant : Text) : Nat :=
  p.countCalls ThrottlePhase.isGranted tenant

def releases (p : TenantThrottler σ) (tenant : Text) : Nat :=
  p.countCalls (fun phase => phase = .released) tenant

/-- A tenant has an entry exactly while a granted check of it is not released. -/
theorem Accounted.timer_iff {store : LeaseStore σ} {limit : Nat} {p : TenantThrottler σ}
    (h : p.Accounted store limit) (tenant : Text) :
    (∃ timer ∈ p.timers, timer.tenant = tenant) ↔
      ∃ call ∈ p.calls, call.tenant = tenant ∧ call.phase.isHeld = true := by
  have hcalls : 0 < p.entryCount tenant ↔
      ∃ call ∈ p.calls, call.tenant = tenant ∧ call.phase.isHeld = true := by
    rw [h.held, countCalls, List.countP_pos_iff]
    simp only [Bool.and_eq_true, decide_eq_true_eq]
  rw [← hcalls, entryCount]
  constructor
  · rintro ⟨⟨id, _⟩, hmem, rfl⟩
    obtain ⟨entry, hget, _⟩ := (h.timed.timer_iff _ id).mp hmem
    rw [hget]
    exact (h.timed.entry _ entry hget).2
  · intro hpos
    cases hget : p.activeTenants.get tenant with
    | none =>
      rw [hget] at hpos
      cases hpos
    | some entry =>
      obtain ⟨⟨id, hid⟩, _⟩ := h.timed.entry tenant entry hget
      exact ⟨⟨id, tenant⟩, (h.timed.timer_iff tenant id).mpr ⟨entry, hget, hid⟩, rfl⟩

/-- Where nothing is running, the calls with a slot are those granted and not released. -/
theorem Accounted.concurrent_of_isQuiet {store : LeaseStore σ} {limit : Nat}
    {p : TenantThrottler σ} (h : p.Accounted store limit) (hquiet : p.IsQuiet) (tenant : Text) :
    store.concurrent p.store tenant = p.grantedChecks tenant - p.releases tenant := by
  have hsplit (calls : List ThrottleCall) (hcalls : ∀ call ∈ calls, call.phase.isSettled = true) :
      (calls.countP fun call => decide (call.tenant = tenant) && call.phase.isGranted) =
        (calls.countP fun call => decide (call.tenant = tenant) && call.phase.hasSlot) +
          calls.countP fun call => decide (call.tenant = tenant) &&
            decide (call.phase = .released) := by
    induction calls with
    | nil => rfl
    | cons call calls ih =>
      have hcall := hcalls call List.mem_cons_self
      rw [List.countP_cons, List.countP_cons, List.countP_cons,
        ih fun other hmem => hcalls other (List.mem_cons_of_mem _ hmem)]
      have hphase : (if (decide (call.tenant = tenant) && call.phase.isGranted) = true
            then 1 else 0) =
          (if (decide (call.tenant = tenant) && call.phase.hasSlot) = true then 1 else 0) +
            if (decide (call.tenant = tenant) && decide (call.phase = .released)) = true
              then 1 else 0 := by
        cases hphase : call.phase with
        | granted => simp [ThrottlePhase.isGranted, ThrottlePhase.isHeld, ThrottlePhase.hasSlot]
        | rejected => simp [ThrottlePhase.isGranted, ThrottlePhase.isHeld, ThrottlePhase.hasSlot]
        | released => simp [ThrottlePhase.isGranted, ThrottlePhase.isHeld, ThrottlePhase.hasSlot]
        | rating => rw [hphase] at hcall; cases hcall
        | rated limited => rw [hphase] at hcall; cases hcall
        | acquiring => rw [hphase] at hcall; cases hcall
        | acquired limited => rw [hphase] at hcall; cases hcall
        | undoing => rw [hphase] at hcall; cases hcall
        | undone => rw [hphase] at hcall; cases hcall
        | releasing => rw [hphase] at hcall; cases hcall
        | unleased => rw [hphase] at hcall; cases hcall
      omega
  have hcount := hsplit p.calls hquiet
  rw [h.slots, grantedChecks, releases, countCalls, countCalls, countCalls]
  omega

end TenantThrottler

end LeaseTimers

end LoopbackOData
