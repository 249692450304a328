import LoopbackOData.Throttle.Lifecycle

/-!
# The concurrency quota

In a run of orderly turns the counter of a tenant is the number of its requests that hold a slot.
A rejection is not orderly while the tenant has slots out: the code then gives back a slot that the
rejected request never had.
-/

namespace LoopbackOData

set_option autoImplicit false

open Machine

/-- The admitted requests of a tenant that are unfinished. -/
def ThrottleSystem.admittedOpen (tenant : Text) (system : ThrottleSystem) : Nat :=
  system.requests.countP fun request =>
    request.tenant = tenant && request.check = .allowed && !request.ended

/-- What the quota of `n` concurrent requests promises a tenant. -/
structure QuotaKept (tenant : Text) (n : Nat) (system : ThrottleSystem) : Prop where
  atMost : system.admittedOpen tenant ≤ n
  admitted : ∀ request ∈ system.requests, request.tenant = tenant → request.check = .allowed →
    request.givenBack = if request.ended then 1 else 0
  rejected : ∀ request ∈ system.requests, request.tenant = tenant → request.check = .rejected →
    request.givenBack = 0
  allEnded : (∀ request ∈ system.requests, request.tenant = tenant →
    request.settled ∧ request.ended) → system.store.concurrent tenant = 0

/-- A turn that neither takes a slot for a response that has closed, or in a state that is pruned,
nor gives back a slot while it holds none and the tenant has some. -/
def ThrottledRequest.Orderly (request : ThrottledRequest) (n : Nat) (now : Int)
    (store : InMemoryTenantThrottleStore) : RequestAction → Prop
  | .resume =>
    match request.check with
    | .rated false => store.concurrent request.tenant < n →
        request.released = false ∧ store.stale request.tenant now = false
    | .rated true | .acquired true => request.released = true ∨ store.concurrent request.tenant = 0
    | _ => True
  | .finish | .close =>
    request.tookSlot ∨ request.released = true ∨ store.concurrent request.tenant = 0

def ThrottleSystem.Orderly (quotas : Option ODataTenantQuotaConfig) (tenant : Text) (n : Nat)
    (system : ThrottleSystem) : ThrottleEvent → Prop
  | .arrive arriving now => arriving = tenant →
      isLimit (getLimits quotas tenant).maxRequestsPerMinute = false →
        system.store.stale tenant now = false
  | .turn i action now => ∀ request ∈ system.requests[i]?, request.tenant = tenant →
      request.Orderly n now system.store action

/-! ## The invariant -/

/-- The record of one request. -/
structure ThrottledRequest.Tidy (request : ThrottledRequest) : Prop where
  throttled : request.check ≠ .skipped ∧ request.check ≠ .unlimited
  released : request.released = (request.ended || request.check = .rejected)
  givenBack : request.givenBack = if request.tookSlot && request.released then 1 else 0

structure ThrottleSystem.Balanced (tenant : Text) (n : Nat) (system : ThrottleSystem) : Prop where
  tidy : ∀ request ∈ system.requests, request.tenant = tenant → request.Tidy
  counter : system.store.concurrent tenant =
    system.requests.countP fun request => request.tenant = tenant && request.holds
  le : system.store.concurrent tenant ≤ n

namespace ThrottledRequest

variable {request request' : ThrottledRequest} {store store' : InMemoryTenantThrottleStore}
  {tenant : Text} {n : Nat} {now : Int} {limits : TenantLimits} {action : RequestAction}

/-- The slots that a request counts for. -/
def slots (request : ThrottledRequest) : Nat := if request.holds then 1 else 0

/-- What a turn does to a request of the tenant and to its counter. -/
structure Moves (n : Nat) (request request' : ThrottledRequest)
    (store store' : InMemoryTenantThrottleStore) : Prop where
  tenant : request'.tenant = request.tenant
  tidy : request'.Tidy
  counter : store'.concurrent request.tenant + request.slots =
    store.concurrent request.tenant + request'.slots
  le : store.concurrent request.tenant ≤ n → store'.concurrent request.tenant ≤ n

theorem release_tenant : (request.release now store).1.tenant = request.tenant := by
  unfold release
  split <;> rfl

theorem release_other (h : tenant ≠ request.tenant) :
    (request.release now store).2.concurrent tenant = store.concurrent tenant := by
  unfold release
  split
  · rfl
  · exact InMemoryTenantThrottleStore.releaseConcurrent_concurrent.trans (if_neg h)

theorem release_released (h : request.released = true) :
    request.release now store = (request, store) := if_pos h

variable (now) in
/-- A release before the first one, by a request that holds a slot or with no slots out. -/
theorem release_first (h : request.released = false)
    (hslots : request.slots ≤ store.concurrent request.tenant)
    (hharmless : request.tookSlot ∨ store.concurrent request.tenant = 0) :
    (request.release now store).1 =
        { request with released := true, givenBack := request.givenBack + request.slots } ∧
      (request.release now store).2.concurrent request.tenant + request.slots =
        store.concurrent request.tenant := by
  have hafter : (store.releaseConcurrent request.tenant now).2.concurrent request.tenant =
      store.concurrent request.tenant - 1 :=
    InMemoryTenantThrottleStore.releaseConcurrent_concurrent.trans (if_pos rfl)
  have hgiven : store.concurrent request.tenant - (store.concurrent request.tenant - 1) =
      request.slots := by
    unfold slots holds at hslots ⊢
    rw [h] at hslots ⊢
    rcases hharmless with htook | hzero
    · rw [htook] at hslots ⊢
      simp at hslots ⊢
      omega
    · rw [hzero] at hslots ⊢
      simp at hslots ⊢
      exact hslots
  unfold release
  rw [if_neg (Bool.eq_false_iff.mp h)]
  dsimp only
  rw [hafter, hgiven]
  exact ⟨rfl, by omega⟩

/-- A release for a response that has ended or a check that has failed. -/
theorem moves_release (htidy : request.Tidy) (htenant : request'.tenant = request.tenant)
    (hthrottled : request'.check ≠ .skipped ∧ request'.check ≠ .unlimited)
    (htook : request'.tookSlot = request.tookSlot) (hreleased : request'.released = request.released)
    (hgiven : request'.givenBack = request.givenBack)
    (hover : (request'.ended || request'.check = .rejected) = true)
    (hslots : request.slots ≤ store.concurrent request.tenant)
    (hharmless : request.tookSlot ∨ request.released = true ∨
      store.concurrent request.tenant = 0) :
    Moves n request (request'.release now store).1 store (request'.release now store).2 := by
  have hsame : request'.slots = request.slots := by rw [slots, slots, holds, holds, htook, hreleased]
  cases hrel : request.released with
  | true =>
    rw [release_released (hreleased.trans hrel)]
    refine ⟨htenant, ⟨hthrottled, ?_, ?_⟩, ?_, id⟩
    · rw [hover, hreleased, hrel]
    · rw [hgiven, htidy.givenBack, htook, hreleased]
    · rw [hsame]
  | false =>
    have hgave : request.givenBack = 0 := by
      rw [htidy.givenBack, hrel, Bool.and_false]
      rfl
    have hharmless' : request'.tookSlot ∨ store.concurrent request'.tenant = 0 := by
      rw [htook, htenant]
      rw [hrel] at hharmless
      exact hharmless.imp_right fun h => h.resolve_left Bool.false_ne_true
    obtain ⟨hrequest, hcounter⟩ := release_first now (hreleased.trans hrel)
      (by rw [hsame, htenant]; exact hslots) hharmless'
    rw [hsame, htenant] at hcounter
    rw [hsame, hgiven, hgave, Nat.zero_add] at hrequest
    refine ⟨release_tenant.trans htenant, ⟨?_, ?_, ?_⟩, ?_, fun h => by omega⟩
    · rw [hrequest]
      exact hthrottled
    · rw [hrequest]
      exact hover.symm
    · rw [hrequest]
      show request.slots = if request'.tookSlot && true then 1 else 0
      rw [htook, slots, holds, hrel]
      rfl
    · have hnone : slots { request' with released := true, givenBack := request.slots } = 0 := by
        unfold slots holds
        rw [Bool.not_true, Bool.and_false]
        rfl
      rw [hcounter, hrequest, hnone, Nat.add_zero]

/-- The call of `acquireConcurrent`, in an orderly turn. -/
theorem moves_acquire (hlimit : limits.maxConcurrentRequests = some n) (hpos : 0 < n)
    (htook : request.tookSlot = false) (hreleased : request.released = request.ended)
    (hgiven : request.givenBack = 0)
    (horderly : store.concurrent request.tenant < n →
      request.released = false ∧ store.stale request.tenant now = false) :
    Moves n request (request.acquire limits now store).1 store
      (request.acquire limits now store).2 := by
  have hnone : request.slots = 0 := by
    rw [slots, holds, htook]
    rfl
  have hlimited := InMemoryTenantThrottleStore.acquireConcurrent_limited store
    request.tenant now limits.maxConcurrentRequests
  have hisLimit : isLimit limits.maxConcurrentRequests = true := by
    rw [hlimit]
    exact decide_eq_true hpos
  rw [hisLimit, Bool.true_and, hlimit, Option.getD_some, ← hlimit] at hlimited
  unfold acquire
  dsimp only
  by_cases hfree : store.concurrent request.tenant < n
  · obtain ⟨hopen, hkept⟩ := horderly hfree
    have hadmitted : (store.acquireConcurrent request.tenant limits.maxConcurrentRequests
        now).1.limited = false := hlimited.trans (decide_eq_false (by omega))
    rw [hadmitted]
    have hcounter := InMemoryTenantThrottleStore.acquireConcurrent_of_not_limited hadmitted hkept
    have hone : slots { request with check := .acquired false } = 1 := by
      rw [slots, holds, hopen]
      rfl
    refine ⟨rfl, ⟨⟨nofun, nofun⟩, ?_, ?_⟩, ?_, fun _ => ?_⟩
    · exact hreleased.trans (Bool.or_false _).symm
    · rw [hgiven, hopen, Bool.and_false]
      rfl
    · rw [hcounter, hnone, hone]
    · rw [hcounter]
      exact hfree
  · have hrejected : (store.acquireConcurrent request.tenant limits.maxConcurrentRequests
        now).1.limited = true := hlimited.trans (decide_eq_true (by omega))
    rw [hrejected]
    have hcounter := InMemoryTenantThrottleStore.acquireConcurrent_of_limited
      request.tenant hrejected
    have hstill : slots { request with check := .acquired true } = 0 := rfl
    refine ⟨rfl, ⟨⟨nofun, nofun⟩, ?_, ?_⟩, ?_, fun h => ?_⟩
    · exact hreleased.trans (Bool.or_false _).symm
    · exact hgiven
    · rw [hcounter, hnone, hstill]
    · rw [hcounter]
      exact h

theorem moves_turn (hlimit : limits.maxConcurrentRequests = some n) (hpos : 0 < n)
    (htidy : request.Tidy) (hslots : request.slots ≤ store.concurrent request.tenant)
    (horderly : request.Orderly n now store action)
    (h : request.turn limits now store action = some (request', store')) :
    Moves n request request' store store' := by
  cases action with
  | resume =>
    unfold turn resume at h
    unfold Orderly at horderly
    cases hcheck : request.check with
    | skipped => exact absurd hcheck htidy.throttled.1
    | unlimited => exact absurd hcheck htidy.throttled.2
    | allowed => rw [hcheck] at h; cases h
    | rejected => rw [hcheck] at h; cases h
    | rated limited =>
      have htook : request.tookSlot = false := by rw [tookSlot, hcheck]; rfl
      cases limited with
      | true =>
        rw [hcheck] at h horderly
        obtain ⟨rfl, rfl⟩ := Prod.mk.inj (Option.some.inj h)
        exact moves_release htidy rfl ⟨nofun, nofun⟩ htook.symm rfl rfl (by simp) hslots (.inr horderly)
      | false =>
        rw [hcheck] at h horderly
        obtain ⟨rfl, rfl⟩ := Prod.mk.inj (Option.some.inj h)
        refine moves_acquire hlimit hpos htook ?_ ?_ horderly
        · rw [htidy.released, hcheck]
          exact Bool.or_false _
        · rw [htidy.givenBack, htook]
          rfl
    | acquired limited =>
      cases limited with
      | true =>
        have htook : request.tookSlot = false := by rw [tookSlot, hcheck]; rfl
        rw [hcheck] at h horderly
        obtain ⟨rfl, rfl⟩ := Prod.mk.inj (Option.some.inj h)
        exact moves_release htidy rfl ⟨nofun, nofun⟩ htook.symm rfl rfl (by simp) hslots (.inr horderly)
      | false =>
        have htook : request.tookSlot = true := by rw [tookSlot, hcheck]; rfl
        rw [hcheck] at h
        obtain ⟨rfl, rfl⟩ := Prod.mk.inj (Option.some.inj h)
        refine ⟨rfl, ⟨⟨nofun, nofun⟩, ?_, ?_⟩, ?_, id⟩
        · rw [htidy.released, hcheck]
          rfl
        · rw [htidy.givenBack, htook]
          rfl
        · rw [slots, slots, holds, holds, htook]
          rfl
  | finish =>
    unfold turn at h
    dsimp only at h
    rw [if_neg htidy.throttled.1] at h
    split at h
    · cases h
    · obtain ⟨rfl, rfl⟩ := Prod.mk.inj (Option.some.inj h)
      exact moves_release htidy rfl htidy.throttled rfl rfl rfl (by simp [ended]) hslots horderly
  | close =>
    unfold turn at h
    dsimp only at h
    rw [if_neg htidy.throttled.1] at h
    split at h
    · cases h
    · obtain ⟨rfl, rfl⟩ := Prod.mk.inj (Option.some.inj h)
      exact moves_release htidy rfl htidy.throttled rfl rfl rfl (by simp [ended]) hslots horderly

/-- A turn of a request of another tenant. -/
theorem turn_other (h : request.turn limits now store action = some (request', store'))
    (hother : tenant ≠ request.tenant) :
    request'.tenant = request.tenant ∧ store'.concurrent tenant = store.concurrent tenant := by
  have hrelease (pre : ThrottledRequest) (hpre : pre.tenant = request.tenant)
      (h : some (pre.release now store) = some (request', store')) :
      request'.tenant = request.tenant ∧ store'.concurrent tenant = store.concurrent tenant := by
    obtain ⟨rfl, rfl⟩ := Prod.mk.inj (Option.some.inj h)
    exact ⟨release_tenant.trans hpre, release_other (hpre ▸ hother)⟩
  have hsame (after : ThrottledRequest) (hafter : after.tenant = request.tenant)
      (h : some (after, store) = some (request', store')) :
      request'.tenant = request.tenant ∧ store'.concurrent tenant = store.concurrent tenant := by
    obtain ⟨rfl, rfl⟩ := Prod.mk.inj (Option.some.inj h)
    exact ⟨hafter, rfl⟩
  cases action with
  | resume =>
    unfold turn resume at h
    cases hcheck : request.check with
    | skipped | allowed | rejected =>
      rw [hcheck] at h
      cases h
    | unlimited =>
      rw [hcheck] at h
      exact hsame { request with check := .allowed } rfl h
    | rated limited =>
      rw [hcheck] at h
      cases limited with
      | true => exact hrelease { request with check := .rejected } rfl h
      | false =>
        obtain ⟨rfl, rfl⟩ := Prod.mk.inj (Option.some.inj h)
        exact ⟨rfl, InMemoryTenantThrottleStore.acquireConcurrent_other hother⟩
    | acquired limited =>
      rw [hcheck] at h
      cases limited with
      | true => exact hrelease { request with check := .rejected } rfl h
      | false => exact hsame { request with check := .allowed } rfl h
  | finish =>
    unfold turn at h
    dsimp only at h
    split at h
    · cases h
    · split at h
      · exact hsame { request with finished := true } rfl h
      · exact hrelease { request with finished := true } rfl h
  | close =>
    unfold turn at h
    dsimp only at h
    split at h
    · cases h
    · split at h
      · exact hsame { request with closed := true } rfl h
      · exact hrelease { request with closed := true } rfl h

end ThrottledRequest

section Run

variable {quotas : Option ODataTenantQuotaConfig} {tenant : Text} {n : Nat}

theorem limited_of_limit (hlimit : (getLimits quotas tenant).maxConcurrentRequests = some n)
    (hpos : 0 < n) : (getLimits quotas tenant).limited = true := by
  rw [TenantLimits.limited, hlimit, Bool.or_eq_true]
  exact .inl (decide_eq_true hpos)

theorem tenantQuotasEnabled_of_limit
    (hlimit : (getLimits quotas tenant).maxConcurrentRequests = some n) (hpos : 0 < n) :
    tenantQuotasEnabled quotas = true := by
  have hlimited : isLimit (some n) = true := decide_eq_true hpos
  cases quotas with
  | none => cases hlimit
  | some quotas =>
    rw [tenantQuotasEnabled, Option.any_some, Bool.or_eq_true]
    rcases Option.or_eq_some_iff.mp hlimit with hoverride | ⟨-, hown⟩
    · refine .inr (List.any_eq_true.mpr ?_)
      cases hget : quotas.overrides.get tenant with
      | none =>
        rw [hget] at hoverride
        cases hoverride
      | some override =>
        obtain ⟨pair, hfind, rfl⟩ := Option.map_eq_some_iff.mp hget
        refine ⟨pair, List.mem_of_find?_eq_some hfind, ?_⟩
        rw [hget] at hoverride
        have hown : pair.2.maxConcurrentRequests = some n := hoverride
        rw [TenantLimits.limited, hown, hlimited, Bool.true_or]
    · refine .inl ?_
      rw [TenantLimits.limited, hown, hlimited, Bool.true_or]

variable {system system' : ThrottleSystem} {event : ThrottleEvent}

/-- An arriving request of the tenant. -/
theorem moves_arrive {now : Int}
    (hlimit : (getLimits quotas tenant).maxConcurrentRequests = some n) (hpos : 0 < n)
    (horderly : system.Orderly quotas tenant n (.arrive tenant now)) :
    ThrottledRequest.Moves n { tenant, check := .unlimited }
      (ThrottledRequest.enforceTenantLimit quotas tenant now system.store).1 system.store
      (ThrottledRequest.enforceTenantLimit quotas tenant now system.store).2 := by
  have hrate := horderly rfl
  unfold ThrottledRequest.enforceTenantLimit
  dsimp only
  rw [tenantQuotasEnabled_of_limit hlimit hpos, limited_of_limit hlimit hpos, Bool.not_true,
    if_neg Bool.false_ne_true, if_neg Bool.false_ne_true]
  split
  · refine ⟨rfl, ⟨⟨nofun, nofun⟩, rfl, rfl⟩, ?_, ?_⟩
    · rw [InMemoryTenantThrottleStore.incrementRate_concurrent]
      rfl
    · rw [InMemoryTenantThrottleStore.incrementRate_concurrent]
      exact id
  · next hrated =>
    exact ThrottledRequest.moves_acquire hlimit hpos rfl rfl rfl fun _ =>
      ⟨rfl, hrate (Bool.eq_false_iff.mpr hrated)⟩

variable (quotas) in
theorem enforceTenantLimit_other {arriving : Text} (now : Int) (store : InMemoryTenantThrottleStore)
    (hother : tenant ≠ arriving) :
    (ThrottledRequest.enforceTenantLimit quotas arriving now store).1.tenant = arriving ∧
      (ThrottledRequest.enforceTenantLimit quotas arriving now store).2.concurrent tenant =
        store.concurrent tenant := by
  unfold ThrottledRequest.enforceTenantLimit
  dsimp only
  split
  · exact ⟨rfl, rfl⟩
  · split
    · exact ⟨rfl, rfl⟩
    · split
      · exact ⟨rfl, InMemoryTenantThrottleStore.incrementRate_concurrent⟩
      · exact ⟨rfl, InMemoryTenantThrottleStore.acquireConcurrent_other hother⟩

theorem balanced_step (hlimit : (getLimits quotas tenant).maxConcurrentRequests = some n)
    (hpos : 0 < n) (hbalanced : system.Balanced tenant n)
    (horderly : system.Orderly quotas tenant n event)
    (hstep : system.step quotas event = some system') : system'.Balanced tenant n := by
  cases event with
  | arrive arriving now =>
    obtain rfl := Option.some.inj hstep
    by_cases hmine : arriving = tenant
    · subst hmine
      have hmoves := moves_arrive hlimit hpos horderly
      refine ⟨?_, ?_, hmoves.le hbalanced.le⟩
      · intro request hmem htenant
        rcases List.mem_append.mp hmem with hmem | hmem
        · exact hbalanced.tidy request hmem htenant
        · rw [List.mem_singleton.mp hmem]
          exact hmoves.tidy
      · have hcounter := hmoves.counter
        rw [List.countP_append, List.countP_singleton, hmoves.tenant, ← hbalanced.counter]
        simpa [ThrottledRequest.slots, ThrottledRequest.holds, ThrottledRequest.tookSlot]
          using hcounter
    · obtain ⟨htenant, hcounter⟩ := enforceTenantLimit_other quotas now system.store
        (Ne.symm hmine)
      refine ⟨?_, ?_, ?_⟩
      · intro request hmem hrequest
        rcases List.mem_append.mp hmem with hmem | hmem
        · exact hbalanced.tidy request hmem hrequest
        · rw [List.mem_singleton.mp hmem, htenant] at hrequest
          exact absurd hrequest hmine
      · rw [List.countP_append, List.countP_singleton, htenant, hcounter, hbalanced.counter]
        simp [hmine]
      · rw [hcounter]
        exact hbalanced.le
  | turn i action now =>
    obtain ⟨request, hget, hstep⟩ := Option.bind_eq_some_iff.mp hstep
    obtain ⟨⟨request', store'⟩, hturn, hstep⟩ := Option.bind_eq_some_iff.mp hstep
    obtain rfl := Option.some.inj hstep
    obtain ⟨hi, hrequest⟩ := List.getElem?_eq_some_iff.mp hget
    have hmem : request ∈ system.requests := hrequest ▸ List.getElem_mem hi
    have hset := List.countP_set (p := fun request : ThrottledRequest =>
      decide (request.tenant = tenant) && request.holds) (a := request') hi
    have hle := List.boole_getElem_le_countP (p := fun request : ThrottledRequest =>
      decide (request.tenant = tenant) && request.holds) hi
    rw [hrequest] at hset hle
    by_cases hmine : request.tenant = tenant
    · rw [← hbalanced.counter] at hset hle
      have hslots : request.slots ≤ system.store.concurrent request.tenant := by
        rw [hmine]
        simpa [ThrottledRequest.slots, hmine] using hle
      have hmoves := ThrottledRequest.moves_turn (hmine ▸ hlimit) hpos
        (hbalanced.tidy request hmem hmine) hslots (horderly request hget hmine) hturn
      refine ⟨?_, ?_, ?_⟩
      · intro other hother htenant
        rcases List.mem_or_eq_of_mem_set hother with hother | rfl
        · exact hbalanced.tidy other hother htenant
        · exact hmoves.tidy
      · have hcounter := hmoves.counter
        rw [hset]
        simp only [hmoves.tenant, hmine, decide_true, Bool.true_and, ThrottledRequest.slots]
          at hcounter hslots ⊢
        omega
      · rw [← hmine] at hbalanced ⊢
        exact hmoves.le hbalanced.le
    · obtain ⟨htenant, hcounter⟩ := ThrottledRequest.turn_other hturn (Ne.symm hmine)
      refine ⟨?_, ?_, ?_⟩
      · intro other hother hothers
        rcases List.mem_or_eq_of_mem_set hother with hother | rfl
        · exact hbalanced.tidy other hother hothers
        · exact absurd (htenant.symm.trans hothers) hmine
      · rw [hset, htenant, decide_eq_false hmine, hcounter, hbalanced.counter]
        simp
      · rw [hcounter]
        exact hbalanced.le

theorem quotaKept_of_balanced (hbalanced : system.Balanced tenant n) :
    QuotaKept tenant n system := by
  refine ⟨?_, ?_, ?_, ?_⟩
  · refine le_trans (List.countP_mono_left fun request hmem hopen => ?_)
      (hbalanced.counter ▸ hbalanced.le)
    obtain ⟨hleft, hopen⟩ := Bool.and_eq_true_iff.mp hopen
    obtain ⟨htenant, hallowed⟩ := Bool.and_eq_true_iff.mp hleft
    have hcheck : request.check = .allowed := of_decide_eq_true hallowed
    have htidy := hbalanced.tidy request hmem (of_decide_eq_true htenant)
    rw [htenant, ThrottledRequest.holds, htidy.released, ThrottledRequest.tookSlot, hcheck]
    simpa using hopen
  · intro request hmem htenant hallowed
    have htidy := hbalanced.tidy request hmem htenant
    rw [htidy.givenBack, htidy.released, ThrottledRequest.tookSlot, hallowed]
    simp
  · intro request hmem htenant hrejected
    rw [(hbalanced.tidy request hmem htenant).givenBack, ThrottledRequest.tookSlot, hrejected]
    rfl
  · intro hall
    rw [hbalanced.counter, List.countP_eq_zero]
    intro request hmem hholds
    obtain ⟨htenant, hholds⟩ := Bool.and_eq_true_iff.mp hholds
    have htenant := of_decide_eq_true htenant
    have hended := (hall request hmem htenant).2
    rw [ThrottledRequest.holds, (hbalanced.tidy request hmem htenant).released, hended] at hholds
    simp at hholds

end Run

/-- In a run of orderly turns a tenant has at most as many admitted requests at a time as its limit
says, each gives back one slot when it ends, and in the end none is taken. -/
theorem quotaKept_of_orderly (quotas : Option ODataTenantQuotaConfig) (tenant : Text) (n : Nat)
    (hlimit : (getLimits quotas tenant).maxConcurrentRequests = some n) (hpos : 0 < n)
    (system : ThrottleSystem)
    (hrun : Reaches (ThrottleSystem.step quotas) (ThrottleSystem.Orderly quotas tenant n) {}
      system) : QuotaKept tenant n system := by
  refine quotaKept_of_balanced (hrun.invariant ?_ fun _ _ _ hbalanced horderly hstep =>
    balanced_step hlimit hpos hbalanced horderly hstep)
  exact ⟨nofun, rfl, Nat.zero_le n⟩

/-- One concurrent request for every tenant. -/
def oneAtATime : Option ODataTenantQuotaConfig := some { maxConcurrentRequests := some 1 }

def defaultTenant : Text := "default".toList

def finishedOne : ThrottleSystem :=
  (run (ThrottleSystem.step oneAtATime) {} [.arrive defaultTenant 5, .turn 0 .resume 6,
    .turn 0 .finish 7]).getD {}

theorem quotaKept_of_orderly_one :
    (getLimits oneAtATime defaultTenant).maxConcurrentRequests = some 1 ∧ 0 < 1 ∧
      finishedOne.requests.map (·.finished) = [true] ∧
      Reaches (ThrottleSystem.step oneAtATime)
        (ThrottleSystem.Orderly oneAtATime defaultTenant 1) {} finishedOne ∧
      QuotaKept defaultTenant 1 finishedOne := by
  have harrived : Reaches (ThrottleSystem.step oneAtATime)
      (ThrottleSystem.Orderly oneAtATime defaultTenant 1) {} _ :=
    .next (.arrive defaultTenant 5) .start (fun _ _ => by decide) rfl
  have hadmitted := Reaches.next (.turn 0 .resume 6) harrived (by
    intro request hrequest _
    cases Option.some.inj hrequest
    trivial) rfl
  have hfinished : Reaches (ThrottleSystem.step oneAtATime)
      (ThrottleSystem.Orderly oneAtATime defaultTenant 1) {} finishedOne :=
    .next (.turn 0 .finish 7) hadmitted (by
      intro request hrequest _
      cases Option.some.inj hrequest
      exact .inl rfl) rfl
  exact ⟨rfl, Nat.one_pos, rfl, hfinished,
    quotaKept_of_orderly oneAtATime defaultTenant 1 rfl Nat.one_pos _ hfinished⟩

/-- The second of three requests is rejected while the first one runs. -/
def rejectionFrees : List ThrottleEvent :=
  [.arrive defaultTenant 1, .turn 0 .resume 2, .arrive defaultTenant 3, .turn 1 .resume 4,
    .arrive defaultTenant 5, .turn 2 .resume 6]

theorem quota_exceeded_after_rejection :
    ¬ ∀ (quotas : Option ODataTenantQuotaConfig) (tenant : Text) (n : Nat) (system : ThrottleSystem),
      (getLimits quotas tenant).maxConcurrentRequests = some n → 0 < n →
        Reaches (ThrottleSystem.step quotas) (fun _ _ => True) {} system →
          QuotaKept tenant n system := by
  intro hclaim
  have hrun : (run (ThrottleSystem.step oneAtATime) {} rejectionFrees).map
      (ThrottleSystem.admittedOpen defaultTenant) = some 2 := by decide
  obtain ⟨system, hsystem, htwo⟩ := Option.map_eq_some_iff.mp hrun
  have hkept := hclaim oneAtATime defaultTenant 1 system rfl Nat.one_pos
    (Reaches.start.of_run (fun _ _ => trivial) hsystem)
  have hone := hkept.atMost
  omega

end LoopbackOData
