import LoopbackOData.Throttle.Turns

/-!
# Limits in Redis

The store in Redis keeps the limits of a tenant in every run exactly if the time to live that it
gives a hash is longer than the least interval of the timer and, for a tenant with a limit of
requests per minute, no shorter than the window of the rate.
-/

namespace LoopbackOData

namespace Redis

open Expiring StoreOptions Throttling

set_option autoImplicit false

/-! ## Runs that lose a hash -/

section Losing

variable {options : StoreOptions} {quotas : Option ODataTenantQuotaConfig} {tenant : Text}
  {system : Throttling} {time : Int}

theorem counterOf_alive_of_eq_zero {now : Int} {key : Key} (h : counterOf key = 0) :
    counterOf (alive now key) = 0 := by
  cases halive : alive now key with
  | none => rfl
  | some e =>
    rw [(alive_eq_some_iff.mp halive).1] at h
    exact h

theorem alive_of_le {now : Int} {e : Entry ThrottleHash} (h : e.expiresAt ≤ now) :
    alive now (some e) = none := by
  rw [alive_eq_none_iff]
  intro e' he'
  obtain rfl := Option.some.inj he'
  exact h

theorem step_of_perform {action : TenantAction} {system' : Throttling} (hle : system.now ≤ time)
    (hdue : ¬ system.overdue options time)
    (h : Throttling.perform options quotas { system with now := time } action = some system') :
    Throttling.step options quotas system ⟨time, action⟩ = some system' := by
  have hnot : ¬ (time < system.now ∨ system.overdue options time) := by
    rw [not_or]
    exact ⟨Int.not_lt.mpr hle, hdue⟩
  exact (if_neg hnot).trans h

variable (options system) in
/-- A request of a tenant with no limit of its rate, or with one and a granted hit. -/
theorem arrive_eq (hlimits : (getLimits quotas tenant).limited = true)
    (hrate : isLimit (getLimits quotas tenant).maxRequestsPerMinute = true →
      (rateScript system.now windowMs
        (limitValue (getLimits quotas tenant).maxRequestsPerMinute) (options.rateTtl windowMs)
        (alive system.now (system.db (options.key tenant)))).1.limited = false) :
    ∃ system', system.arrive options quotas tenant = some system' ∧ system'.now = system.now ∧
      system'.requests = system.requests ++ [⟨tenant, .rated⟩] ∧
      system'.leaseAt = system.leaseAt ∧
      (isLimit (getLimits quotas tenant).maxRequestsPerMinute = true →
        system'.db (options.key tenant) = (rateScript system.now windowMs
          (limitValue (getLimits quotas tenant).maxRequestsPerMinute) (options.rateTtl windowMs)
          (alive system.now (system.db (options.key tenant)))).2 ∧
        system'.windows tenant = countWindows system.now true
          (alive system.now (system.db (options.key tenant)))
          (system'.db (options.key tenant)) (system.windows tenant)) ∧
      (isLimit (getLimits quotas tenant).maxRequestsPerMinute = false →
        system'.db = system.db) := by
  have hnot : ¬ (!(getLimits quotas tenant).limited) = true := by
    rw [hlimits]
    exact Bool.false_ne_true
  unfold Throttling.arrive
  dsimp only
  rw [if_neg hnot]
  cases hisLimit : isLimit (getLimits quotas tenant).maxRequestsPerMinute with
  | false =>
    rw [if_neg Bool.false_ne_true]
    refine ⟨_, rfl, rfl, rfl, rfl, ?_, fun _ => rfl⟩
    intro hfalse
    cases hfalse
  | true =>
    have hgranted : (options.incrementRate system.db tenant windowMs
        (getLimits quotas tenant).maxRequestsPerMinute system.now).1.limited = false :=
      hrate hisLimit
    obtain ⟨hkey, hwindows⟩ := ran_self options tenant system
      (rateScript system.now windowMs (limitValue (getLimits quotas tenant).maxRequestsPerMinute)
        (options.rateTtl windowMs)) true
    rw [if_pos rfl, hgranted]
    refine ⟨_, rfl, rfl, rfl, rfl, fun _ => ⟨hkey, ?_⟩, ?_⟩
    · exact hwindows.trans (by rw [← hkey]; rfl)
    · intro hfalse
      cases hfalse

theorem perform_acquire {i : Nat} {request : TenantRequest}
    (h : system.requests[i]? = some request) :
    system.perform options quotas (.acquire i) = system.acquire options quotas i request := by
  rw [perform, h]
  rfl

theorem perform_release {i : Nat} {request : TenantRequest}
    (h : system.requests[i]? = some request) :
    system.perform options quotas (.release i) = system.release options i request := by
  rw [perform, h]
  rfl

theorem not_limited_of_zero {key : Key} {now ttl : Int} {limit : Nat} (h : counterOf key = 0) :
    (concurrencyScript limit ttl now key).1.limited = false := by
  rw [← Bool.not_eq_true, limited_concurrencyScript, h]
  omega

variable (system quotas) in
theorem acquire_eq (i : Nat) (hcounter :
    counterOf (alive system.now (system.db (options.key tenant))) = 0) :
    ∃ system', system.acquire options quotas i ⟨tenant, .rated⟩ = some system' ∧
      system'.now = system.now ∧
      system'.requests = system.requests.set i ⟨tenant, .admitted⟩ ∧
      (system.admittedOpen tenant = 0 → system'.leaseAt tenant = system.now) ∧
      system'.db (options.key tenant) = (concurrencyScript
        (limitValue (getLimits quotas tenant).maxConcurrentRequests) options.concurrencyTtl
        system.now (alive system.now (system.db (options.key tenant)))).2 ∧
      system'.windows tenant = countWindows system.now false
        (alive system.now (system.db (options.key tenant))) (system'.db (options.key tenant))
        (system.windows tenant) := by
  have hfree : (options.acquireConcurrent system.db tenant
      (getLimits quotas tenant).maxConcurrentRequests system.now).1.limited = false :=
    not_limited_of_zero hcounter
  obtain ⟨hkey, hwindows⟩ := ran_self options tenant system
    (concurrencyScript (limitValue (getLimits quotas tenant).maxConcurrentRequests)
      options.concurrencyTtl system.now) false
  unfold Throttling.acquire
  rw [if_neg (not_not.mpr rfl)]
  dsimp only
  rw [hfree, if_neg Bool.false_ne_true]
  refine ⟨_, rfl, rfl, rfl, ?_, hkey, ?_⟩
  · intro hzero
    dsimp only
    rw [if_pos hzero]
    exact Function.update_self ..
  · exact hwindows.trans (by rw [← hkey]; rfl)

variable (options tenant system) in
theorem release_eq (i : Nat) :
    ∃ system', system.release options i ⟨tenant, .admitted⟩ = some system' ∧
      system'.now = system.now ∧
      system'.requests = system.requests.set i ⟨tenant, .finished⟩ ∧
      system'.db (options.key tenant) = (releaseScript options.concurrencyTtl
        system.now (alive system.now (system.db (options.key tenant)))).2 ∧
      system'.windows tenant = countWindows system.now false
        (alive system.now (system.db (options.key tenant))) (system'.db (options.key tenant))
        (system.windows tenant) := by
  obtain ⟨hkey, hwindows⟩ := ran_self options tenant system
    (releaseScript options.concurrencyTtl system.now) false
  unfold Throttling.release
  rw [if_neg (not_not.mpr rfl)]
  refine ⟨_, rfl, rfl, rfl, hkey, ?_⟩
  exact hwindows.trans (by rw [← hkey]; rfl)

theorem currentWindow_of_none {now : Int} :
    currentWindow now windowMs (fields none) = (now, 0) := by
  refine currentWindow_of_elapsed (fun _ => rfl) ?_
  intro start hstart
  cases hstart

theorem rateScript_of_none (now ttl : Int) {limit : Nat} (hlimit : 0 < limit) :
    (rateScript now windowMs limit ttl none).1.limited = false ∧
      (rateScript now windowMs limit ttl none).2 =
        some ⟨⟨some now, some 1, some 0⟩, now + ttl⟩ := by
  have hgranted : (rateScript now windowMs limit ttl none).1.limited = false := by
    rw [← Bool.not_eq_true, limited_rateScript, currentWindow_of_none]
    omega
  refine ⟨hgranted, ?_⟩
  rw [rateScript_of_not_limited hgranted, currentWindow_of_none]
  rfl

theorem Reached.step {start : Int} {system' : Throttling}
    (h : Reached options quotas start system) (action : TenantAction) (hle : system.now ≤ time)
    (hdue : ¬ system.overdue options time)
    (hperform : Throttling.perform options quotas { system with now := time } action =
      some system') :
    Reached options quotas start system' :=
  .next ⟨time, action⟩ h trivial (step_of_perform hle hdue hperform)

theorem not_overdue_of_forall (h : ∀ request ∈ system.requests, request.phase ≠ .admitted) :
    ¬ system.overdue options time := by
  rintro ⟨request, hmem, hphase, -⟩
  exact h request hmem hphase

variable (options) in
theorem reached_rated (hlimits : (getLimits quotas tenant).limited = true) :
    ∃ system, Reached options quotas 1 system ∧ system.now = 1 ∧
      system.requests = [⟨tenant, .rated⟩] ∧
      counterOf (alive 1 (system.db (options.key tenant))) = 0 := by
  obtain ⟨first, hfirst, hnow₁, hrequests₁, -, hrated, hunrated⟩ :=
    arrive_eq options (Throttling.start 1) hlimits
      fun hlimit => (rateScript_of_none _ _ (limitValue_pos hlimit)).1
  have hreached₁ : Reached options quotas 1 first :=
    Reached.step .start (.arrive tenant) le_rfl
      (not_overdue_of_forall fun _ hmem => absurd hmem List.not_mem_nil) hfirst
  refine ⟨first, hreached₁, hnow₁, hrequests₁, counterOf_alive_of_eq_zero ?_⟩
  cases hlimit : isLimit (getLimits quotas tenant).maxRequestsPerMinute with
  | true =>
    rw [(hrated hlimit).1, counterOf_rateScript]
    rfl
  | false =>
    rw [hunrated hlimit]
    rfl

variable (options) in
theorem reached_admitted (hlimits : (getLimits quotas tenant).limited = true) :
    ∃ system, Reached options quotas 1 system ∧ system.now = 1 ∧
      system.requests = [⟨tenant, .admitted⟩] ∧ system.leaseAt tenant = 1 ∧
      ∃ e, system.db (options.key tenant) = some e ∧
        e.expiresAt = 1 + options.concurrencyTtl := by
  obtain ⟨first, hreached₁, hnow₁, hopen₁, hcounter₁⟩ := reached_rated options hlimits
  obtain ⟨second, hsecond, hnow₂, hrequests₂, hlease₂, hkey₂, -⟩ :=
    acquire_eq quotas { first with now := 1 } 0 hcounter₁
  have hreached₂ : Reached options quotas 1 second := by
    refine hreached₁.step (.acquire 0) hnow₁.le (not_overdue_of_forall ?_) ?_
    · rw [hopen₁]
      intro request hmem
      rw [List.mem_singleton.mp hmem]
      exact RequestPhase.noConfusion
    · exact (perform_acquire (by dsimp only; rw [hopen₁]; rfl)).trans hsecond
  have hopen₂ : second.requests = [⟨tenant, .admitted⟩] := by
    rw [hrequests₂]
    dsimp only
    rw [hopen₁]
    rfl
  have hat : second.leaseAt tenant = 1 := by
    apply hlease₂
    rw [admittedOpen]
    dsimp only
    rw [hopen₁, List.countP_singleton, isOpen_of_phase RequestPhase.noConfusion]
    rfl
  rw [concurrencyScript_of_not_limited (not_limited_of_zero hcounter₁)] at hkey₂
  exact ⟨second, hreached₂, hnow₂, hopen₂, hat, _, hkey₂, rfl⟩

/-- A hash with no longer life than the least interval of the timer vanishes under a request. -/
theorem reached_uncounted (hpos : 0 < options.concurrencyTtl)
    (hshort : options.concurrencyTtl ≤ 5000)
    (hlimits : (getLimits quotas tenant).limited = true) :
    ∃ system, Reached options quotas 1 system ∧
      system.counter options tenant < system.admittedOpen tenant := by
  obtain ⟨second, hreached₂, hnow₂, hopen₂, hat, e, hkey₂, hexpires⟩ :=
    reached_admitted options hlimits
  have hgone : alive (1 + options.concurrencyTtl) (second.db (options.key tenant)) = none := by
    rw [hkey₂]
    exact alive_of_le hexpires.le
  have hdue : ¬ second.overdue options (1 + options.concurrencyTtl) := by
    rintro ⟨request, hmem, -, hlate⟩
    rw [hopen₂] at hmem
    rw [List.mem_singleton.mp hmem, hat] at hlate
    have hleast := le_getLeaseRefreshInterval options
    omega
  obtain ⟨third, hthird, hnow₃, hrequests₃, -, hrated₃, hunrated₃⟩ :=
    arrive_eq options { second with now := 1 + options.concurrencyTtl } hlimits
      (by
        dsimp only
        rw [hgone]
        exact fun hlimit => (rateScript_of_none _ _ (limitValue_pos hlimit)).1)
  have hle : second.now ≤ 1 + options.concurrencyTtl := by
    rw [hnow₂]
    omega
  refine ⟨third, hreached₂.step (.arrive tenant) hle hdue hthird, ?_⟩
  have hone : third.admittedOpen tenant = 1 := by
    rw [admittedOpen, hrequests₃]
    dsimp only
    rw [hopen₂]
    simp [TenantRequest.isOpen]
  have hzero : third.counter options tenant = 0 := by
    cases hlimit : isLimit (getLimits quotas tenant).maxRequestsPerMinute with
    | true =>
      apply counterOf_alive_of_eq_zero
      rw [(hrated₃ hlimit).1, counterOf_rateScript]
      dsimp only
      rw [hgone]
      rfl
    | false =>
      have hsame : alive third.now (third.db (options.key tenant)) = none := by
        rw [hnow₃, hunrated₃ hlimit]
        exact hgone
      rw [counter, hsame]
      rfl
  rw [hone, hzero]
  exact Nat.one_pos

/-- The first requests of a tenant, all granted in one window. -/
structure Throttling.Filled (options : StoreOptions) (tenant : Text) (hits : Nat)
    (system : Throttling) : Prop where
  now : system.now = 1
  requests : system.requests = List.replicate hits ⟨tenant, .rated⟩
  key : system.db (options.key tenant) =
    some ⟨⟨some 1, some hits, some 0⟩, 1 + options.rateTtl windowMs⟩
  windows : system.windows tenant = [⟨1, hits⟩]

theorem countWindows_of_granted {now start : Int} {hits : Nat} {before after : Key}
    (hstart : (fields after).windowStart = (fields before).windowStart)
    (hopen : now < start + windowMs) :
    countWindows now true before after [⟨start, hits⟩] = [⟨start, hits + 1⟩] := by
  unfold countWindows
  rw [if_pos hstart, List.map_singleton, if_pos ⟨rfl, hopen⟩]

theorem mem_countWindows {now : Int} {granted : Bool} {before after : Key}
    {windows : List RateWindow} {window : RateWindow}
    (h : window ∈ windows.map fun window =>
      if granted ∧ now < window.start + windowMs then { window with granted := window.granted + 1 }
      else window) :
    window ∈ countWindows now granted before after windows := by
  unfold countWindows
  split
  · exact h
  · exact List.mem_append_left _ h

theorem Throttling.Filled.next {hits : Nat} (h : system.Filled options tenant hits)
    (hlimits : (getLimits quotas tenant).limited = true)
    (hlimit : isLimit (getLimits quotas tenant).maxRequestsPerMinute = true)
    (hlt : hits < limitValue (getLimits quotas tenant).maxRequestsPerMinute) :
    ∃ system', Throttling.step options quotas system ⟨1, .arrive tenant⟩ = some system' ∧
      system'.Filled options tenant (hits + 1) := by
  have hlong := windowMs_le_rateTtl options
  have halive : alive 1 (system.db (options.key tenant)) =
      some ⟨⟨some 1, some hits, some 0⟩, 1 + options.rateTtl windowMs⟩ := by
    rw [h.key]
    apply alive_of_lt
    unfold windowMs at hlong ⊢
    dsimp only
    omega
  have hwindow : currentWindow 1 windowMs (fields
      (some ⟨⟨some 1, some hits, some 0⟩, 1 + options.rateTtl windowMs⟩)) = (1, hits) :=
    currentWindow_of_open rfl (by decide)
  have hgranted : (rateScript 1 windowMs
      (limitValue (getLimits quotas tenant).maxRequestsPerMinute) (options.rateTtl windowMs)
      (some ⟨⟨some 1, some hits, some 0⟩, 1 + options.rateTtl windowMs⟩)).1.limited = false := by
    rw [← Bool.not_eq_true, limited_rateScript, hwindow]
    omega
  obtain ⟨system', harrive, hnow, hrequests, -, hrated, -⟩ :=
    arrive_eq options { system with now := 1 } hlimits
      (by
        dsimp only
        rw [halive]
        exact fun _ => hgranted)
  obtain ⟨hkey, hwindows⟩ := hrated hlimit
  have hafter : system'.db (options.key tenant) =
      some ⟨⟨some 1, some (hits + 1), some 0⟩, 1 + options.rateTtl windowMs⟩ := by
    rw [hkey]
    dsimp only
    rw [halive, rateScript_of_not_limited hgranted, hwindow]
    rfl
  have hdue : ¬ system.overdue options 1 := by
    apply not_overdue_of_forall
    rw [h.requests]
    intro request hmem
    rw [List.eq_of_mem_replicate hmem]
    exact RequestPhase.noConfusion
  refine ⟨system', step_of_perform h.now.le hdue harrive, hnow, ?_, hafter, ?_⟩
  · rw [hrequests]
    dsimp only
    rw [h.requests, List.replicate_succ']
  · rw [hwindows, hafter]
    dsimp only
    rw [halive, h.windows]
    exact countWindows_of_granted rfl (by decide)

variable (options) in
theorem reached_filled (hlimits : (getLimits quotas tenant).limited = true)
    (hlimit : isLimit (getLimits quotas tenant).maxRequestsPerMinute = true) (hits : Nat)
    (hle : hits + 1 ≤ limitValue (getLimits quotas tenant).maxRequestsPerMinute) :
    ∃ system, Reached options quotas 1 system ∧ system.Filled options tenant (hits + 1) := by
  induction hits with
  | zero =>
    obtain ⟨hgranted, hfirst⟩ :=
      rateScript_of_none 1 (options.rateTtl windowMs) (limitValue_pos hlimit)
    obtain ⟨system', harrive, hnow, hrequests, -, hrated, -⟩ :=
      arrive_eq options (Throttling.start 1) hlimits fun _ => hgranted
    obtain ⟨hkey, hwindows⟩ := hrated hlimit
    have hafter : system'.db (options.key tenant) =
        some ⟨⟨some 1, some 1, some 0⟩, 1 + options.rateTtl windowMs⟩ := hkey.trans hfirst
    refine ⟨system', Reached.step .start (.arrive tenant) le_rfl
      (not_overdue_of_forall fun _ hmem => absurd hmem List.not_mem_nil) harrive, hnow,
      hrequests, hafter, ?_⟩
    rw [hwindows, hafter]
    rfl
  | succ hits ih =>
    obtain ⟨system, hreached, hfilled⟩ := ih (Nat.le_of_succ_le hle)
    obtain ⟨system', hstep, hfilled'⟩ := hfilled.next hlimits hlimit hle
    exact ⟨system', .next _ hreached trivial hstep, hfilled'⟩

/-- The first requests of a tenant after one of them is finished. -/
structure Throttling.Shortened (options : StoreOptions) (tenant : Text) (hits : Nat)
    (system : Throttling) : Prop where
  now : system.now = 1
  closed : ∀ request ∈ system.requests, request.phase ≠ .admitted
  key : system.db (options.key tenant) =
    some ⟨⟨some 1, some hits, some 0⟩, 1 + options.concurrencyTtl⟩
  windows : system.windows tenant = [⟨1, hits⟩]

/-- A request that is admitted and finished shortens the life of the hash. -/
theorem Throttling.Filled.shortened {hits : Nat} (h : system.Filled options tenant (hits + 1))
    (hpos : 0 < options.concurrencyTtl) (hreached : Reached options quotas 1 system) :
    ∃ system', Reached options quotas 1 system' ∧ system'.Shortened options tenant (hits + 1) := by
  have hlong := windowMs_le_rateTtl options
  have halive : alive 1 (system.db (options.key tenant)) =
      some ⟨⟨some 1, some (hits + 1), some 0⟩, 1 + options.rateTtl windowMs⟩ := by
    rw [h.key]
    apply alive_of_lt
    unfold windowMs at hlong ⊢
    dsimp only
    omega
  have hcounter : counterOf (alive 1 (system.db (options.key tenant))) = 0 := by
    rw [halive]
    rfl
  obtain ⟨held, hacquire, hnow₁, hrequests₁, hlease₁, hkey₁, hwindows₁⟩ :=
    acquire_eq quotas { system with now := 1 } 0 hcounter
  have hrated : ({ system with now := 1 } : Throttling).requests[0]? = some ⟨tenant, .rated⟩ := by
    dsimp only
    rw [h.requests, List.replicate_succ]
    rfl
  have hwaiting : ∀ request ∈ system.requests, request = ⟨tenant, .rated⟩ := by
    rw [h.requests]
    exact fun request hmem => List.eq_of_mem_replicate hmem
  have hheld : Reached options quotas 1 held := by
    refine hreached.step (.acquire 0) h.now.le (not_overdue_of_forall ?_)
      ((perform_acquire hrated).trans hacquire)
    intro request hmem
    rw [hwaiting request hmem]
    exact RequestPhase.noConfusion
  have hat : held.leaseAt tenant = 1 := by
    apply hlease₁
    rw [admittedOpen, List.countP_eq_zero]
    intro request hmem
    rw [hwaiting request hmem, isOpen_of_phase RequestPhase.noConfusion]
    exact Bool.false_ne_true
  have hadmitted : held.requests = system.requests.set 0 ⟨tenant, .admitted⟩ := hrequests₁
  have hkey₁ : held.db (options.key tenant) =
      some ⟨⟨some 1, some (hits + 1), some 1⟩, 1 + options.concurrencyTtl⟩ := by
    have hfree : (concurrencyScript
        (limitValue (getLimits quotas tenant).maxConcurrentRequests) options.concurrencyTtl 1
        (some ⟨⟨some 1, some (hits + 1), some 0⟩, 1 + options.rateTtl windowMs⟩)).1.limited =
          false := not_limited_of_zero rfl
    rw [hkey₁]
    dsimp only
    rw [halive, concurrencyScript_of_not_limited hfree]
    rfl
  have hwindows₁ : held.windows tenant = [⟨1, hits + 1⟩] := by
    rw [hwindows₁, hkey₁]
    dsimp only
    rw [halive, h.windows]
    exact countWindows_of_not_granted _ rfl
  obtain ⟨hsize, hfirst⟩ := List.getElem?_eq_some_iff.mp hrated
  have hheldFirst : ({ held with now := 1 } : Throttling).requests[0]? =
      some ⟨tenant, .admitted⟩ := by
    dsimp only
    rw [hadmitted]
    exact List.getElem?_set_self hsize
  obtain ⟨free, hrelease, hnow₂, hrequests₂, hkey₂, hwindows₂⟩ :=
    release_eq options tenant { held with now := 1 } 0
  have hfree : Reached options quotas 1 free := by
    refine hheld.step (.release 0) hnow₁.le ?_ ((perform_release hheldFirst).trans hrelease)
    rintro ⟨request, hmem, hphase, hlate⟩
    have hleast := le_getLeaseRefreshInterval options
    rw [hadmitted] at hmem
    rcases List.mem_or_eq_of_mem_set hmem with hmem | rfl
    · rw [hwaiting request hmem] at hphase
      cases hphase
    · rw [hat] at hlate
      dsimp only at hlate
      omega
  have haliveHeld : alive 1 (held.db (options.key tenant)) =
      some ⟨⟨some 1, some (hits + 1), some 1⟩, 1 + options.concurrencyTtl⟩ := by
    rw [hkey₁]
    apply alive_of_lt
    dsimp only
    omega
  have hkey₂ : free.db (options.key tenant) =
      some ⟨⟨some 1, some (hits + 1), some 0⟩, 1 + options.concurrencyTtl⟩ := by
    rw [hkey₂]
    dsimp only
    rw [haliveHeld, releaseScript_snd]
    rfl
  have hwindows₂ : free.windows tenant = [⟨1, hits + 1⟩] := by
    rw [hwindows₂, hkey₂]
    dsimp only
    rw [haliveHeld, hwindows₁]
    exact countWindows_of_not_granted _ rfl
  refine ⟨free, hfree, hnow₂, ?_, hkey₂, hwindows₂⟩
  intro request hmem
  rw [hrequests₂] at hmem
  dsimp only at hmem
  rw [hadmitted, List.set_set] at hmem
  rcases List.mem_or_eq_of_mem_set hmem with hmem | rfl
  · rw [hwaiting request hmem]
    exact RequestPhase.noConfusion
  · exact RequestPhase.noConfusion

/-- The hash vanishes in its window, which gets one more grant. -/
theorem reached_exceeding (hpos : 0 < options.concurrencyTtl)
    (hshort : options.concurrencyTtl < windowMs)
    (hlimits : (getLimits quotas tenant).limited = true)
    (hlimit : isLimit (getLimits quotas tenant).maxRequestsPerMinute = true) :
    ∃ system, Reached options quotas 1 system ∧ ∃ window ∈ system.windows tenant,
      limitValue (getLimits quotas tenant).maxRequestsPerMinute < window.granted := by
  have hvalue := limitValue_pos hlimit
  obtain ⟨hits, hhits⟩ := Nat.exists_eq_add_one.mpr hvalue
  obtain ⟨full, hfull, hfilled⟩ := reached_filled options hlimits hlimit hits hhits.ge
  obtain ⟨free, hfree, hshortened⟩ := hfilled.shortened hpos hfull
  have hgone : alive (1 + options.concurrencyTtl) (free.db (options.key tenant)) = none := by
    rw [hshortened.key]
    exact alive_of_le le_rfl
  have hgranted := rateScript_of_none (1 + options.concurrencyTtl) (options.rateTtl windowMs) hvalue
  obtain ⟨last, hlast, -, -, -, hrates, -⟩ :=
    arrive_eq options { free with now := 1 + options.concurrencyTtl } hlimits
      (by
        dsimp only
        rw [hgone]
        exact fun _ => hgranted.1)
  obtain ⟨hkey, hwindows⟩ := hrates hlimit
  have hle : free.now ≤ 1 + options.concurrencyTtl := by
    rw [hshortened.now]
    omega
  refine ⟨last, hfree.step (.arrive tenant) hle (not_overdue_of_forall hshortened.closed) hlast,
    ⟨1, hits + 1 + 1⟩, ?_, ?_⟩
  · rw [hwindows, hkey]
    dsimp only
    rw [hgone, hgranted.2, hshortened.windows]
    have hopen : 1 + options.concurrencyTtl < 1 + windowMs := by omega
    have hcounted : (⟨1, hits + 1 + 1⟩ : RateWindow) ∈
        [(⟨1, hits + 1⟩ : RateWindow)].map fun window =>
          if true = true ∧ 1 + options.concurrencyTtl < window.start + windowMs then
            { window with granted := window.granted + 1 }
          else window := by
      rw [List.map_singleton, if_pos ⟨rfl, hopen⟩]
      exact List.mem_cons_self
    exact mem_countWindows hcounted
  · rw [hhits]
    exact Nat.lt_succ_self _

end Losing

/-! ## The limits -/

/-- The limits of a tenant in one state. -/
structure Throttling.LimitsKept (options : StoreOptions) (limits : TenantLimits) (tenant : Text)
    (system : Throttling) : Prop where
  admitted : isLimit limits.maxConcurrentRequests = true →
    system.admittedOpen tenant ≤ limits.maxConcurrentRequests.getD 0
  counted : system.admittedOpen tenant ≤ system.counter options tenant
  granted : isLimit limits.maxRequestsPerMinute = true →
    ∀ window ∈ system.windows tenant, window.granted ≤ limits.maxRequestsPerMinute.getD 0

/-- The limits of a tenant in every run. -/
def EnforcesLimits (options : StoreOptions) (quotas : Option ODataTenantQuotaConfig)
    (tenant : Text) : Prop :=
  ∀ start system, 0 < start → Reached options quotas start system →
    system.LimitsKept options (getLimits quotas tenant) tenant

theorem concurrencyTtl_of_some {options : StoreOptions} {ttl : Int}
    (h : options.minTtlMs = some ttl) : options.concurrencyTtl = ttl := by
  rw [concurrencyTtl, h]
  rfl

theorem concurrencyTtl_pos {options : StoreOptions}
    (h : ∀ ttl, options.minTtlMs = some ttl → 0 < ttl) : 0 < options.concurrencyTtl := by
  cases hmin : options.minTtlMs with
  | none =>
    rw [concurrencyTtl, hmin]
    decide
  | some ttl =>
    rw [concurrencyTtl_of_some hmin]
    exact h ttl hmin

theorem enforcesLimits_of_long {options : StoreOptions} {quotas : Option ODataTenantQuotaConfig}
    {tenant : Text} (hslots : 5000 < options.concurrencyTtl)
    (hrate : isLimit (getLimits quotas tenant).maxRequestsPerMinute = true →
      windowMs ≤ options.concurrencyTtl) :
    EnforcesLimits options quotas tenant := by
  intro start system hstart hreached
  have hslot : system.SlotsKept options (getLimits quotas tenant) tenant :=
    hreached.slotsKept (getLeaseRefreshInterval_lt hslots) (by omega)
  refine ⟨hslot.atMost, hslot.counter.ge, ?_⟩
  intro hlimit window hwindow
  have hwindows : system.WindowsKept options (getLimits quotas tenant) tenant :=
    hreached.windowsKept hstart (hrate hlimit) hlimit
  rw [← limitValue_eq hlimit]
  exact hwindows.2.counted window hwindow

/-- The limits of a tenant are enforced exactly if the hash outlives the least interval of the timer
and, where the rate is limited, the window. -/
theorem enforcesLimits_iff (options : StoreOptions) (quotas : Option ODataTenantQuotaConfig)
    (tenant : Text) (httl : ∀ ttl, options.minTtlMs = some ttl → 0 < ttl)
    (hlimits : (getLimits quotas tenant).limited = true) :
    EnforcesLimits options quotas tenant ↔ ∀ ttl, options.minTtlMs = some ttl → 5000 < ttl ∧
      (isLimit (getLimits quotas tenant).maxRequestsPerMinute = true → windowMs ≤ ttl) := by
  have hpos := concurrencyTtl_pos httl
  constructor
  · intro h ttl hmin
    rw [← concurrencyTtl_of_some hmin]
    constructor
    · by_contra hshort
      obtain ⟨system, hreached, hlt⟩ := reached_uncounted hpos (Int.not_lt.mp hshort) hlimits
      exact absurd (h 1 system Int.one_pos hreached).counted (Nat.not_le.mpr hlt)
    · intro hlimit
      by_contra hshort
      obtain ⟨system, hreached, window, hwindow, hlt⟩ :=
        reached_exceeding hpos (Int.not_le.mp hshort) hlimits hlimit
      rw [limitValue_eq hlimit] at hlt
      have hle := (h 1 system Int.one_pos hreached).granted hlimit window hwindow
      exact absurd hle (Nat.not_le.mpr hlt)
  · intro h
    cases hmin : options.minTtlMs with
    | none =>
      have httl : options.concurrencyTtl = 120000 := by
        rw [concurrencyTtl, hmin]
        rfl
      apply enforcesLimits_of_long
      · omega
      · intro _
        rw [httl]
        decide
    | some ttl =>
      have httl := concurrencyTtl_of_some hmin
      obtain ⟨hslots, hrate⟩ := h ttl hmin
      rw [← httl] at hslots hrate
      exact enforcesLimits_of_long hslots hrate

theorem enforcesLimits_hour :
    EnforcesLimits ⟨none, some 3600000⟩
      (some { maxRequestsPerMinute := some 60, maxConcurrentRequests := some 5 }) [] := by
  refine (enforcesLimits_iff ⟨none, some 3600000⟩
    (some { maxRequestsPerMinute := some 60, maxConcurrentRequests := some 5 }) [] ?_ rfl).mpr ?_
  · intro ttl h
    obtain rfl := Option.some.inj h
    decide
  · intro ttl h
    obtain rfl := Option.some.inj h
    decide

/-- A hash that lives for ten seconds forgets the hits of its window. -/
theorem not_enforcesLimits_tenSeconds :
    ¬ ∀ (options : StoreOptions) (quotas : Option ODataTenantQuotaConfig) (tenant : Text),
      (∀ ttl, options.minTtlMs = some ttl → 0 < ttl) →
      isLimit (getLimits quotas tenant).maxRequestsPerMinute = true →
      isLimit (getLimits quotas tenant).maxConcurrentRequests = true →
      EnforcesLimits options quotas tenant := by
  intro h
  have hpositive : ∀ ttl, some 10000 = some ttl → (0 : Int) < ttl := by
    rintro ttl hmin
    obtain rfl := Option.some.inj hmin
    decide
  have henforces := h ⟨none, some 10000⟩
    (some { maxRequestsPerMinute := some 1, maxConcurrentRequests := some 1 }) [] hpositive rfl rfl
  have hexceeding : ∃ system, Reached ⟨none, some 10000⟩
      (some { maxRequestsPerMinute := some 1, maxConcurrentRequests := some 1 }) 1 system ∧
      ∃ window ∈ system.windows [], 1 < window.granted :=
    reached_exceeding (by decide) (by decide) rfl rfl
  obtain ⟨system, hreached, window, hwindow, hlt⟩ := hexceeding
  exact absurd ((henforces 1 system Int.one_pos hreached).granted rfl window hwindow)
    (Nat.not_le.mpr hlt)

end Redis

end LoopbackOData
