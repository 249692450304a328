import LoopbackOData.Throttle.Leases

/-!
# Turns of a tenant

Each event is one script on the hash of a tenant, or none, and what the scripts keep is kept by the
runs.
-/

namespace LoopbackOData

namespace Redis

open Expiring StoreOptions Throttling

set_option autoImplicit false

/-! ## What an event does to a tenant -/

/-- What the limits of a tenant depend on. -/
structure TenantView where
  key : Key
  leaseAt : Int
  openCount : Nat
  windows : List RateWindow

def Throttling.view (options : StoreOptions) (tenant : Text) (system : Throttling) :
    TenantView where
  key := system.db (options.key tenant)
  leaseAt := system.leaseAt tenant
  openCount := system.admittedOpen tenant
  windows := system.windows tenant

/-- One script on the hash of a tenant, or none. -/
inductive Turn (options : StoreOptions) (limits : TenantLimits) (now : Int)
    (view : TenantView) : TenantView → Prop where
  | none : Turn options limits now view view
  | rate (hrate : isLimit limits.maxRequestsPerMinute = true) {limited : Bool} {after : Key}
    (hlimited : (rateScript now windowMs (limitValue limits.maxRequestsPerMinute)
      (options.rateTtl windowMs) (alive now view.key)).1.limited = limited)
    (hafter : (rateScript now windowMs (limitValue limits.maxRequestsPerMinute)
      (options.rateTtl windowMs) (alive now view.key)).2 = after) :
    Turn options limits now view ⟨after, view.leaseAt, view.openCount,
      countWindows now (!limited) (alive now view.key) after view.windows⟩
  | reject
    (hlimited : (concurrencyScript (limitValue limits.maxConcurrentRequests)
      options.concurrencyTtl now (alive now view.key)).1.limited = true) {after : Key}
    (hafter : (concurrencyScript (limitValue limits.maxConcurrentRequests)
      options.concurrencyTtl now (alive now view.key)).2 = after) :
    Turn options limits now view ⟨after, view.leaseAt, view.openCount,
      countWindows now false (alive now view.key) after view.windows⟩
  | acquire
    (hlimited : (concurrencyScript (limitValue limits.maxConcurrentRequests)
      options.concurrencyTtl now (alive now view.key)).1.limited = false) {after : Key}
    (hafter : (concurrencyScript (limitValue limits.maxConcurrentRequests)
      options.concurrencyTtl now (alive now view.key)).2 = after) :
    Turn options limits now view ⟨after, if view.openCount = 0 then now else view.leaseAt,
      view.openCount + 1, countWindows now false (alive now view.key) after view.windows⟩
  | release {openCount : Nat} (hopen : view.openCount = openCount + 1) {after : Key}
    (hafter : (releaseScript options.concurrencyTtl now (alive now view.key)).2 = after) :
    Turn options limits now view ⟨after, view.leaseAt, openCount,
      countWindows now false (alive now view.key) after view.windows⟩
  | refresh (hopen : 0 < view.openCount) {after : Key}
    (hafter : (refreshScript options.concurrencyTtl now (alive now view.key)).2 = after) :
    Turn options limits now view ⟨after, now, view.openCount,
      countWindows now false (alive now view.key) after view.windows⟩

section Perform

variable {options : StoreOptions} {quotas : Option ODataTenantQuotaConfig} {tenant : Text}
  {system system' : Throttling}

theorem key_injective {tenant' : Text} (h : options.key tenant' = options.key tenant) :
    tenant' = tenant := List.append_cancel_left h

theorem admittedOpen_append {request : TenantRequest}
    (hrequests : system'.requests = system.requests ++ [request])
    (hphase : request.phase ≠ .admitted) :
    system'.admittedOpen tenant = system.admittedOpen tenant := by
  have hnot : request.isOpen tenant = false := by
    rw [TenantRequest.isOpen, Bool.and_eq_false_iff]
    exact Or.inr (decide_eq_false hphase)
  rw [admittedOpen, hrequests, List.countP_append, List.countP_singleton, hnot]
  rfl

variable (tenant) in
theorem admittedOpen_set {i : Nat} {request request' : TenantRequest}
    (hget : system.requests[i]? = some request)
    (hrequests : system'.requests = system.requests.set i request') :
    system'.admittedOpen tenant + (if request.isOpen tenant then 1 else 0) =
      system.admittedOpen tenant + (if request'.isOpen tenant then 1 else 0) := by
  obtain ⟨hi, hrequest⟩ := List.getElem?_eq_some_iff.mp hget
  have hset := List.countP_set (p := fun request : TenantRequest => request.isOpen tenant)
    (a := request') hi
  have hle := List.boole_getElem_le_countP
    (p := fun request : TenantRequest => request.isOpen tenant) hi
  rw [hrequest] at hset hle
  rw [admittedOpen, hrequests, hset, admittedOpen]
  omega

theorem isOpen_of_phase {request : TenantRequest} (hphase : request.phase ≠ .admitted) :
    request.isOpen tenant = false := by
  rw [TenantRequest.isOpen, Bool.and_eq_false_iff]
  exact Or.inr (decide_eq_false hphase)

theorem isOpen_of_ne {request : TenantRequest} (hne : request.tenant ≠ tenant) :
    request.isOpen tenant = false := by
  rw [TenantRequest.isOpen, Bool.and_eq_false_iff]
  exact Or.inl (decide_eq_false hne)

variable (options tenant system) in
/-- A script on the hash of a tenant. -/
theorem ran_self {α : Type} (script : Key → α × Key) (granted : Bool) :
    (system.ran options tenant (execScript system.db (options.key tenant) system.now script).2
        granted).db (options.key tenant) =
      (script (alive system.now (system.db (options.key tenant)))).2 ∧
    (system.ran options tenant (execScript system.db (options.key tenant) system.now script).2
        granted).windows tenant =
      countWindows system.now granted (alive system.now (system.db (options.key tenant)))
        (script (alive system.now (system.db (options.key tenant)))).2
        (system.windows tenant) := by
  have hkey : (execScript system.db (options.key tenant) system.now script).2
      (options.key tenant) = (script (alive system.now (system.db (options.key tenant)))).2 :=
    Function.update_self ..
  refine ⟨hkey, ?_⟩
  rw [ran]
  dsimp only
  rw [Function.update_self, hkey]

variable (options system) in
/-- A script on the hash of another tenant. -/
theorem ran_of_ne {α : Type} {tenant' : Text} (hne : tenant ≠ tenant') (script : Key → α × Key)
    (granted : Bool) :
    (system.ran options tenant' (execScript system.db (options.key tenant') system.now script).2
        granted).db (options.key tenant) = system.db (options.key tenant) ∧
    (system.ran options tenant' (execScript system.db (options.key tenant') system.now script).2
        granted).windows tenant = system.windows tenant := by
  have hkey : options.key tenant ≠ options.key tenant' :=
    fun h => hne (List.append_cancel_left h)
  exact ⟨Function.update_of_ne hkey _ _, Function.update_of_ne hne _ _⟩

variable (options quotas tenant) in
/-- An event that leads from one state to another is a turn of each tenant. -/
def IsTurn (system system' : Throttling) : Prop :=
  system'.now = system.now ∧ Turn options (getLimits quotas tenant) system.now
    (system.view options tenant) (system'.view options tenant)

variable (options) in
/-- A script on the hash of a tenant, and what becomes of the rest of its view. -/
theorem view_of_ran {α : Type} (tenant tenant' : Text) {script : Key → α × Key} {granted : Bool}
    (hdb : system'.db = (execScript system.db (options.key tenant') system.now script).2)
    (hwindows : system'.windows = (system.ran options tenant' system'.db granted).windows) :
    (tenant = tenant' → system'.view options tenant =
      ⟨(script (alive system.now (system.db (options.key tenant)))).2, system'.leaseAt tenant,
        system'.admittedOpen tenant,
        countWindows system.now granted (alive system.now (system.db (options.key tenant)))
          (script (alive system.now (system.db (options.key tenant)))).2
          (system.windows tenant)⟩) ∧
    (tenant ≠ tenant' → system'.view options tenant =
      ⟨system.db (options.key tenant), system'.leaseAt tenant, system'.admittedOpen tenant,
        system.windows tenant⟩) := by
  rw [hdb] at hwindows
  refine ⟨?_, fun hne => ?_⟩
  · rintro rfl
    obtain ⟨hkey, hwindow⟩ := ran_self options tenant system script granted
    rw [view, hwindows, hdb, hwindow]
    exact congrArg (fun key => TenantView.mk key _ _ _) hkey
  · obtain ⟨hkey, hwindow⟩ := ran_of_ne options system hne script granted
    rw [view, hwindows, hdb, hwindow]
    exact congrArg (fun key => TenantView.mk key _ _ _) hkey

theorem isTurn_arrive {tenant' : Text} (h : system.arrive options quotas tenant' = some system') :
    IsTurn options quotas tenant system system' := by
  have hphase (limited : Bool) :
      (if limited then RequestPhase.rejected else .rated) ≠ .admitted := by
    cases limited <;> decide
  unfold Throttling.arrive at h
  dsimp only at h
  split at h
  · cases h
  · split at h
    · next hrate =>
      have hsystem := Option.some.inj h
      have hopen : system'.admittedOpen tenant = system.admittedOpen tenant :=
        admittedOpen_append (congrArg Throttling.requests hsystem).symm (hphase _)
      have hlease := congrArg Throttling.leaseAt hsystem
      have hview := view_of_ran options tenant tenant' (congrArg Throttling.db hsystem).symm
        (by rw [← hsystem]; rfl)
      rw [hopen, ← hlease] at hview
      refine ⟨(congrArg Throttling.now hsystem).symm, ?_⟩
      by_cases hmine : tenant = tenant'
      · rw [hview.1 hmine]
        subst hmine
        exact .rate hrate rfl rfl
      · rw [hview.2 hmine]
        exact .none
    · have hsystem := Option.some.inj h
      have hopen : system'.admittedOpen tenant = system.admittedOpen tenant :=
        admittedOpen_append (congrArg Throttling.requests hsystem).symm (hphase false)
      have hview : system'.view options tenant = system.view options tenant := by
        rw [view, view, hopen, ← hsystem]
      refine ⟨(congrArg Throttling.now hsystem).symm, ?_⟩
      rw [hview]
      exact .none

theorem isTurn_acquire {i : Nat} {request : TenantRequest}
    (hget : system.requests[i]? = some request)
    (h : system.acquire options quotas i request = some system') :
    IsTurn options quotas tenant system system' := by
  unfold Throttling.acquire at h
  split at h
  · cases h
  · next hrated =>
    rw [Decidable.not_not] at hrated
    have hnotOpen : request.isOpen tenant = false := isOpen_of_phase (by rw [hrated]; decide)
    dsimp only at h
    split at h
    · next hlimited =>
      have hsystem := Option.some.inj h
      have hrejected : ({ request with phase := .rejected } : TenantRequest).isOpen tenant =
          false := isOpen_of_phase RequestPhase.noConfusion
      have hopen := admittedOpen_set tenant hget (congrArg Throttling.requests hsystem).symm
      rw [hnotOpen, hrejected] at hopen
      have hlease := congrArg Throttling.leaseAt hsystem
      have hview := view_of_ran options tenant request.tenant
        (congrArg Throttling.db hsystem).symm (by rw [← hsystem]; rfl)
      rw [Nat.add_right_cancel hopen, ← hlease] at hview
      refine ⟨(congrArg Throttling.now hsystem).symm, ?_⟩
      by_cases hmine : tenant = request.tenant
      · rw [hview.1 hmine]
        rw [← hmine] at hlimited ⊢
        have hscript : (concurrencyScript
            (limitValue (getLimits quotas tenant).maxConcurrentRequests) options.concurrencyTtl
            system.now (alive system.now (system.view options tenant).key)).1.limited = true := hlimited
        exact .reject hscript rfl
      · rw [hview.2 hmine]
        exact .none
    · next hlimited =>
      have hsystem := Option.some.inj h
      have hopen := admittedOpen_set tenant hget (congrArg Throttling.requests hsystem).symm
      have hlease := congrArg Throttling.leaseAt hsystem
      have hview := view_of_ran options tenant request.tenant
        (congrArg Throttling.db hsystem).symm (by rw [← hsystem]; rfl)
      refine ⟨(congrArg Throttling.now hsystem).symm, ?_⟩
      rw [hnotOpen] at hopen
      rw [Bool.not_eq_true] at hlimited
      dsimp only at hlease
      by_cases hmine : tenant = request.tenant
      · have hadmitted : ({ request with phase := .admitted } : TenantRequest).isOpen tenant =
            true := by simp [TenantRequest.isOpen, hmine]
        have hcount : system'.admittedOpen tenant = system.admittedOpen tenant + 1 := by
          rw [hadmitted] at hopen
          exact hopen
        have hat : system'.leaseAt tenant =
            if system.admittedOpen tenant = 0 then system.now else system.leaseAt tenant := by
          rw [← hlease, ← hmine]
          split
          · exact Function.update_self ..
          · rfl
        rw [hview.1 hmine, hcount, hat]
        rw [← hmine] at hlimited ⊢
        have hscript : (concurrencyScript
            (limitValue (getLimits quotas tenant).maxConcurrentRequests) options.concurrencyTtl
            system.now (alive system.now (system.view options tenant).key)).1.limited = false := hlimited
        exact .acquire hscript rfl
      · have hother : ({ request with phase := .admitted } : TenantRequest).isOpen tenant =
            false := isOpen_of_ne (Ne.symm hmine)
        have hat : system'.leaseAt tenant = system.leaseAt tenant := by
          rw [← hlease]
          split
          · exact Function.update_of_ne hmine _ _
          · rfl
        rw [hother] at hopen
        rw [hview.2 hmine, Nat.add_right_cancel hopen, hat]
        exact .none

theorem isTurn_release {i : Nat} {request : TenantRequest}
    (hget : system.requests[i]? = some request)
    (h : system.release options i request = some system') :
    IsTurn options quotas tenant system system' := by
  unfold Throttling.release at h
  split at h
  · cases h
  · next hadmitted =>
    rw [Decidable.not_not] at hadmitted
    have hsystem := Option.some.inj h
    have hfinished : ({ request with phase := .finished } : TenantRequest).isOpen tenant =
        false := isOpen_of_phase RequestPhase.noConfusion
    have hopen := admittedOpen_set tenant hget (congrArg Throttling.requests hsystem).symm
    rw [hfinished] at hopen
    have hlease := congrArg Throttling.leaseAt hsystem
    have hview := view_of_ran options tenant request.tenant
      (congrArg Throttling.db hsystem).symm (by rw [← hsystem]; rfl)
    rw [← hlease] at hview
    refine ⟨(congrArg Throttling.now hsystem).symm, ?_⟩
    by_cases hmine : tenant = request.tenant
    · have hisOpen : request.isOpen tenant = true := by
        simp [TenantRequest.isOpen, hmine, hadmitted]
      rw [hisOpen] at hopen
      rw [hview.1 hmine]
      exact .release hopen.symm rfl
    · rw [isOpen_of_ne (Ne.symm hmine)] at hopen
      rw [hview.2 hmine, Nat.add_right_cancel hopen]
      exact .none

theorem isTurn_refresh {tenant' : Text} (h : system.refresh options tenant' = some system') :
    IsTurn options quotas tenant system system' := by
  unfold Throttling.refresh at h
  split at h
  · cases h
  · next hopen =>
    have hsystem := Option.some.inj h
    have hcount : system'.admittedOpen tenant = system.admittedOpen tenant := by
      rw [← hsystem]
      rfl
    have hlease := congrArg Throttling.leaseAt hsystem
    have hview := view_of_ran options tenant tenant' (congrArg Throttling.db hsystem).symm
      (by rw [← hsystem]; rfl)
    rw [hcount] at hview
    refine ⟨(congrArg Throttling.now hsystem).symm, ?_⟩
    by_cases hmine : tenant = tenant'
    · have hat : system'.leaseAt tenant = system.now := by
        rw [← hlease, hmine]
        exact Function.update_self ..
      rw [hview.1 hmine, hat]
      subst hmine
      exact .refresh (Nat.pos_of_ne_zero hopen) rfl
    · have hat : system'.leaseAt tenant = system.leaseAt tenant := by
        rw [← hlease]
        exact Function.update_of_ne hmine _ _
      rw [hview.2 hmine, hat]
      exact .none

theorem isTurn_perform {action : TenantAction}
    (h : system.perform options quotas action = some system') :
    IsTurn options quotas tenant system system' := by
  cases action with
  | arrive tenant' => exact isTurn_arrive h
  | acquire i =>
    obtain ⟨request, hget, h⟩ := Option.bind_eq_some_iff.mp h
    exact isTurn_acquire hget h
  | release i =>
    obtain ⟨request, hget, h⟩ := Option.bind_eq_some_iff.mp h
    exact isTurn_release hget h
  | refresh tenant' => exact isTurn_refresh h

end Perform

/-! ## Runs -/

theorem concurrencyTtl_le_rateTtl (options : StoreOptions) :
    options.concurrencyTtl ≤ options.rateTtl windowMs :=
  le_max_left _ _

theorem windowMs_le_rateTtl (options : StoreOptions) : windowMs ≤ options.rateTtl windowMs :=
  le_max_right _ _

theorem le_getLeaseRefreshInterval (options : StoreOptions) :
    5000 ≤ options.getLeaseRefreshInterval :=
  le_max_left _ _

theorem getLeaseRefreshInterval_lt {options : StoreOptions} (h : 5000 < options.concurrencyTtl) :
    options.getLeaseRefreshInterval < options.concurrencyTtl := by
  unfold getLeaseRefreshInterval getConcurrentLeaseDuration
  dsimp only
  split <;> omega

section Runs

variable {options : StoreOptions} {quotas : Option ODataTenantQuotaConfig} {tenant : Text}
  {system system' : Throttling} {event : TenantEvent} {limits : TenantLimits} {now : Int}
  {view view' : TenantView}

theorem Turn.leased (h : Turn options limits now view view')
    (hrefreshed : options.getLeaseRefreshInterval < options.concurrencyTtl)
    (hpos : 0 < options.concurrencyTtl)
    (hleased : Leased options.getLeaseRefreshInterval limits.maxConcurrentRequests now view.key
      view.leaseAt view.openCount) :
    Leased options.getLeaseRefreshInterval limits.maxConcurrentRequests now view'.key
      view'.leaseAt view'.openCount := by
  have hle := concurrencyTtl_le_rateTtl options
  cases h with
  | none => exact hleased
  | rate _ _ hafter =>
    rw [← hafter]
    exact hleased.rate (hrefreshed.trans_le hle) (hpos.trans_le hle)
  | reject hlimited hafter =>
    rw [← hafter, concurrencyScript_of_limited hlimited]
    exact hleased.keep
  | acquire hlimited hafter =>
    rw [← hafter]
    exact hleased.admitted hrefreshed hpos hlimited
  | release hopen hafter =>
    rw [← hafter]
    rw [hopen] at hleased
    exact hleased.released hrefreshed hpos
  | refresh hopen hafter =>
    rw [← hafter]
    exact hleased.refreshed hrefreshed hpos hopen

theorem Turn.windowed (h : Turn options limits now view view')
    (hlong : windowMs ≤ options.concurrencyTtl) (hnow : 0 < now)
    (hlimit : isLimit limits.maxRequestsPerMinute = true)
    (hwindowed : Windowed (limitValue limits.maxRequestsPerMinute) now view.key view.windows) :
    Windowed (limitValue limits.maxRequestsPerMinute) now view'.key view'.windows := by
  have hrateTtl := windowMs_le_rateTtl options
  cases h with
  | none => exact hwindowed
  | @rate _ limited _ hlimited hafter =>
    rw [← hafter]
    cases limited with
    | false => exact hwindowed.granted (limitValue_pos hlimit) hnow hrateTtl hlimited
    | true => exact hwindowed.rate_limited hrateTtl hlimited
  | reject _ hafter =>
    rw [← hafter]
    exact hwindowed.acquired hnow hlong
  | acquire _ hafter =>
    rw [← hafter]
    exact hwindowed.acquired hnow hlong
  | release _ hafter =>
    rw [← hafter]
    exact hwindowed.released hlong
  | refresh _ hafter =>
    rw [← hafter]
    exact hwindowed.refreshed hlong

/-- The slots and the timer of a tenant. -/
def Throttling.SlotsKept (options : StoreOptions) (limits : TenantLimits) (tenant : Text)
    (system : Throttling) : Prop :=
  Leased options.getLeaseRefreshInterval limits.maxConcurrentRequests system.now
    (system.view options tenant).key (system.view options tenant).leaseAt
    (system.view options tenant).openCount

def Throttling.WindowsKept (options : StoreOptions) (limits : TenantLimits) (tenant : Text)
    (system : Throttling) : Prop :=
  0 < system.now ∧ Windowed (limitValue limits.maxRequestsPerMinute) system.now
    (system.view options tenant).key (system.view options tenant).windows

theorem le_of_not_overdue {time : Int} (h : ¬ system.overdue options time)
    (hopen : 0 < system.admittedOpen tenant) :
    time ≤ system.leaseAt tenant + options.getLeaseRefreshInterval := by
  obtain ⟨request, hmem, hrequest⟩ := List.countP_pos_iff.mp hopen
  rw [TenantRequest.isOpen, Bool.and_eq_true, decide_eq_true_eq, decide_eq_true_eq] at hrequest
  obtain ⟨rfl, hphase⟩ := hrequest
  refine Int.not_lt.mp fun hlate => h ⟨request, hmem, hphase, hlate⟩

theorem step_eq_some (h : Throttling.step options quotas system event = some system') :
    system.now ≤ event.time ∧ ¬ system.overdue options event.time ∧
      ∀ tenant, IsTurn options quotas tenant { system with now := event.time } system' := by
  unfold Throttling.step at h
  split at h
  · cases h
  · next hin =>
    rw [not_or] at hin
    exact ⟨Int.not_lt.mp hin.1, hin.2, fun tenant => isTurn_perform h⟩

theorem SlotsKept.step (hrefreshed : options.getLeaseRefreshInterval < options.concurrencyTtl)
    (hpos : 0 < options.concurrencyTtl)
    (h : system.SlotsKept options (getLimits quotas tenant) tenant)
    (hstep : Throttling.step options quotas system event = some system') :
    system'.SlotsKept options (getLimits quotas tenant) tenant := by
  obtain ⟨hle, hdue, hturn⟩ := step_eq_some hstep
  obtain ⟨hnow, hturn⟩ := hturn tenant
  have hadvance := Leased.advance h hle fun hopen => le_of_not_overdue hdue hopen
  rw [SlotsKept, hnow]
  exact hturn.leased hrefreshed hpos hadvance

theorem WindowsKept.step (hlong : windowMs ≤ options.concurrencyTtl)
    (hlimit : isLimit (getLimits quotas tenant).maxRequestsPerMinute = true)
    (h : system.WindowsKept options (getLimits quotas tenant) tenant)
    (hstep : Throttling.step options quotas system event = some system') :
    system'.WindowsKept options (getLimits quotas tenant) tenant := by
  obtain ⟨hle, -, hturn⟩ := step_eq_some hstep
  obtain ⟨hnow, hturn⟩ := hturn tenant
  have hafter : 0 < event.time := h.1.trans_le hle
  rw [WindowsKept, hnow]
  exact ⟨hafter, hturn.windowed hlong hafter hlimit (h.2.advance hle)⟩

theorem slotsKept_start (start : Int) :
    (Throttling.start start).SlotsKept options limits tenant := by
  refine ⟨rfl, ?_, le_rfl, fun _ => Nat.zero_le _⟩
  intro hopen
  cases hopen

theorem windowsKept_start {start : Int} (hstart : 0 < start) :
    (Throttling.start start).WindowsKept options limits tenant := by
  refine ⟨hstart, ?_, ?_, ?_, fun _ => rfl⟩
  · intro window hwindow
    cases hwindow
  · intro window hwindow
    cases hwindow
  · intro begun hbegun
    cases hbegun

/-- Where the runs of a store get to. -/
def Reached (options : StoreOptions) (quotas : Option ODataTenantQuotaConfig)
    (start : Int) (system : Throttling) : Prop :=
  Machine.Reaches (Throttling.step options quotas) (fun _ _ => True) (Throttling.start start)
    system

theorem Reached.slotsKept {start : Int} (h : Reached options quotas start system)
    (hrefreshed : options.getLeaseRefreshInterval < options.concurrencyTtl)
    (hpos : 0 < options.concurrencyTtl) :
    system.SlotsKept options (getLimits quotas tenant) tenant := by
  refine h.invariant (slotsKept_start start) ?_
  intro s e s' hkept _ hstep
  exact SlotsKept.step hrefreshed hpos hkept hstep

theorem Reached.windowsKept {start : Int} (h : Reached options quotas start system)
    (hstart : 0 < start) (hlong : windowMs ≤ options.concurrencyTtl)
    (hlimit : isLimit (getLimits quotas tenant).maxRequestsPerMinute = true) :
    system.WindowsKept options (getLimits quotas tenant) tenant := by
  refine h.invariant (windowsKept_start hstart) ?_
  intro s e s' hkept _ hstep
  exact WindowsKept.step hlong hlimit hkept hstep

end Runs

end Redis

end LoopbackOData
