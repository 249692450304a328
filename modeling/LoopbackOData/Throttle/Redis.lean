import LoopbackOData.Library.Expiring
import LoopbackOData.Throttle.Lifecycle

/-!
# The throttle store in Redis

The four scripts of `services/redis-tenant-throttle.store.ts`, each run as one step on the hash of a
tenant, and the requests that call them. A hash vanishes when the time of its last `PEXPIRE` has
elapsed; a timer renews it while the tenant has admitted requests that are not finished.
-/

namespace LoopbackOData

namespace Redis

open Expiring

set_option autoImplicit false

/-! ## Scripts -/

/-- The fields of a tenant's hash, each of which can be missing. -/
structure ThrottleHash where
  windowStart : Option Int
  hits : Option Nat
  concurrent : Option Nat

abbrev Key := Option (Entry ThrottleHash)

/-- `HMGET`: a key that is not there has no fields. -/
def fields (key : Key) : ThrottleHash := (key.map Entry.value).getD ⟨none, none, none⟩

structure RateReply where
  hits : Nat
  windowStart : Int
  windowResetMs : Int
  concurrent : Nat
  limited : Bool

/-- `windowStart` and `hits`, of a new window where the last one has elapsed. -/
def currentWindow (now windowMs : Int) (current : ThrottleHash) : Int × Nat :=
  let windowStart := current.windowStart.getD now
  if now - windowStart ≥ windowMs then (now, 0) else (windowStart, current.hits.getD 0)

def rateScript (now windowMs : Int) (limit : Nat) (expireMs : Int) (key : Key) :
    RateReply × Key :=
  let current := fields key
  let (windowStart, hits) := currentWindow now windowMs current
  let concurrent := current.concurrent.getD 0
  let nextHits := hits + 1
  let windowResetMs := max 0 (windowStart + windowMs - now)
  if limit > 0 ∧ nextHits > limit then
    (⟨hits, windowStart, windowResetMs, concurrent, true⟩, renew now expireMs key)
  else
    (⟨nextHits, windowStart, windowResetMs, concurrent, false⟩,
      some ⟨⟨some windowStart, some nextHits, some concurrent⟩, now + expireMs⟩)

structure ConcurrencyReply where
  windowStart : Int
  hits : Nat
  concurrent : Nat
  limited : Bool

def concurrencyScript (limit : Nat) (expireMs now : Int) (key : Key) : ConcurrencyReply × Key :=
  let current := fields key
  let windowStart := current.windowStart.getD 0
  let hits := current.hits.getD 0
  let concurrent := current.concurrent.getD 0
  if limit > 0 ∧ concurrent ≥ limit then (⟨windowStart, hits, concurrent, true⟩, key)
  else
    let windowStart := if windowStart = 0 then now else windowStart
    (⟨windowStart, hits, concurrent + 1, false⟩,
      some ⟨⟨some windowStart, some hits, some (concurrent + 1)⟩, now + expireMs⟩)

def releaseScript (expireMs now : Int) (key : Key) : Nat × Key :=
  let current := fields key
  let concurrent := current.concurrent.getD 0
  if concurrent ≤ 0 then (0, some ⟨{ current with concurrent := some 0 }, now + expireMs⟩)
  else (concurrent - 1, some ⟨{ current with concurrent := some (concurrent - 1) }, now + expireMs⟩)

def refreshScript (expireMs now : Int) (key : Key) : Nat × Key :=
  let concurrent := (fields key).concurrent.getD 0
  (concurrent, if concurrent > 0 then renew now expireMs key else key)

/-! ## The store -/

structure StoreOptions where
  keyPrefix : Option Text
  minTtlMs : Option Int

abbrev Keyspace := Text → Key

/-- A script sees what is left of the key at its time. -/
def execScript {α : Type} (db : Keyspace) (key : Text) (now : Int) (script : Key → α × Key) :
    α × Keyspace :=
  let result := script (alive now (db key))
  (result.1, Function.update db key result.2)

namespace StoreOptions

variable (options : StoreOptions)

def key (tenant : Text) : Text := options.keyPrefix.getD "odata:tenant-throttle:".toList ++ tenant

def concurrencyTtl : Int := options.minTtlMs.getD 120000

def rateTtl (windowMs : Int) : Int := max (options.minTtlMs.getD (windowMs * 2)) windowMs

/-- `limit && limit > 0 ? limit : 0`. -/
def limitValue (limit : Option Nat) : Nat := if isLimit limit then limit.getD 0 else 0

def incrementRate (db : Keyspace) (tenant : Text) (windowMs : Int) (limit : Option Nat)
    (now : Int) : TenantThrottleRateResult × Keyspace :=
  let result := execScript db (options.key tenant) now
    (rateScript now windowMs (limitValue limit) (options.rateTtl windowMs))
  (⟨result.1.limited, result.1.hits, result.1.windowStart, result.1.windowResetMs⟩, result.2)

def acquireConcurrent (db : Keyspace) (tenant : Text) (limit : Option Nat) (now : Int) :
    TenantThrottleConcurrentResult × Keyspace :=
  let result := execScript db (options.key tenant) now
    (concurrencyScript (limitValue limit) options.concurrencyTtl now)
  (⟨result.1.limited, result.1.concurrent⟩, result.2)

def releaseConcurrent (db : Keyspace) (tenant : Text) (now : Int) : Nat × Keyspace :=
  execScript db (options.key tenant) now (releaseScript options.concurrencyTtl now)

def refreshConcurrentLease (db : Keyspace) (tenant : Text) (now : Int) : Keyspace :=
  (execScript db (options.key tenant) now (refreshScript options.concurrencyTtl now)).2

def getConcurrentLeaseDuration : Int := options.concurrencyTtl

/-- Of `TenantThrottlerProvider`: how often its timer renews the hash of a tenant. -/
def getLeaseRefreshInterval : Int :=
  let ttl := options.getConcurrentLeaseDuration
  let base := if ttl > 0 then ttl else 120000
  max 5000 (min (base / 2) (base - 1000))

end StoreOptions

/-! ## Requests -/

/-- The window of `TenantThrottlerProvider`. -/
def windowMs : Int := 60000

/-- A request whose rate has been checked acquires a slot next. -/
inductive RequestPhase where
  | rated
  | admitted
  | finished
  | rejected
  deriving DecidableEq

structure TenantRequest where
  tenant : Text
  phase : RequestPhase

def TenantRequest.isOpen (request : TenantRequest) (tenant : Text) : Bool :=
  request.tenant = tenant && request.phase = .admitted

/-- A rate window of a tenant, and how many requests were granted from its start to its end. -/
structure RateWindow where
  start : Int
  granted : Nat

/-- The time at which the timer of a tenant started or last ran, and its windows, are not in the
store. -/
structure Throttling where
  now : Int
  db : Keyspace
  requests : List TenantRequest
  leaseAt : Text → Int
  windows : Text → List RateWindow

def Throttling.start (now : Int) : Throttling where
  now := now
  db := fun _ => none
  requests := []
  leaseAt := fun _ => now
  windows := fun _ => []

inductive TenantAction where
  | arrive (tenant : Text)
  | acquire (request : Nat)
  | release (request : Nat)
  | refresh (tenant : Text)

structure TenantEvent where
  time : Int
  action : TenantAction

/-- A grant counts in the windows that have not ended, and a new start begins a window. -/
def countWindows (now : Int) (granted : Bool) (before after : Key) (windows : List RateWindow) :
    List RateWindow :=
  let counted := windows.map fun window =>
    if granted ∧ now < window.start + windowMs then { window with granted := window.granted + 1 }
    else window
  if (fields after).windowStart = (fields before).windowStart then counted
  else counted ++ (fields after).windowStart.toList.map fun start =>
    ⟨start, if granted then 1 else 0⟩

namespace Throttling

variable (options : StoreOptions) (quotas : Option ODataTenantQuotaConfig) (system : Throttling)

/-- The admitted requests of a tenant that are not finished. -/
def admittedOpen (tenant : Text) : Nat :=
  system.requests.countP fun request => request.isOpen tenant

def counter (tenant : Text) : Nat :=
  ((fields (alive system.now (system.db (options.key tenant)))).concurrent).getD 0

/-- The store after a script on the hash of a tenant, with the windows of the tenant. -/
def ran (tenant : Text) (db : Keyspace) (granted : Bool) : Throttling :=
  { system with
    db := db
    windows := Function.update system.windows tenant (countWindows system.now granted
      (alive system.now (system.db (options.key tenant))) (db (options.key tenant))
      (system.windows tenant)) }

/-- `check` up to its second call of the store. -/
def arrive (tenant : Text) : Option Throttling :=
  let limits := getLimits quotas tenant
  if !limits.limited then none
  else if isLimit limits.maxRequestsPerMinute then
    let rate := options.incrementRate system.db tenant windowMs limits.maxRequestsPerMinute
      system.now
    some { system.ran options tenant rate.2 (!rate.1.limited) with
      requests := system.requests ++ [⟨tenant, if rate.1.limited then .rejected else .rated⟩] }
  else some { system with requests := system.requests ++ [⟨tenant, .rated⟩] }

/-- The rest of `check`. The timer of a tenant starts with its first open request. -/
def acquire (i : Nat) (request : TenantRequest) : Option Throttling :=
  if request.phase ≠ .rated then none
  else
    let limits := getLimits quotas request.tenant
    let concurrent := options.acquireConcurrent system.db request.tenant
      limits.maxConcurrentRequests system.now
    let after := system.ran options request.tenant concurrent.2 false
    if concurrent.1.limited then
      some { after with requests := system.requests.set i { request with phase := .rejected } }
    else
      some { after with
        requests := system.requests.set i { request with phase := .admitted }
        leaseAt := if system.admittedOpen request.tenant = 0 then
          Function.update system.leaseAt request.tenant system.now else system.leaseAt }

def release (i : Nat) (request : TenantRequest) : Option Throttling :=
  if request.phase ≠ .admitted then none
  else
    let released := options.releaseConcurrent system.db request.tenant system.now
    some { system.ran options request.tenant released.2 false with
      requests := system.requests.set i { request with phase := .finished } }

def refresh (tenant : Text) : Option Throttling :=
  if system.admittedOpen tenant = 0 then none
  else
    some { system.ran options tenant
      (options.refreshConcurrentLease system.db tenant system.now) false with
        leaseAt := Function.update system.leaseAt tenant system.now }

def perform : TenantAction → Option Throttling
  | .arrive tenant => system.arrive options quotas tenant
  | .acquire i => system.requests[i]?.bind (system.acquire options quotas i)
  | .release i => system.requests[i]?.bind (system.release options i)
  | .refresh tenant => system.refresh options tenant

/-- The timer of a tenant with open requests is due. -/
def overdue (time : Int) : Prop :=
  ∃ request ∈ system.requests, request.phase = .admitted ∧
    system.leaseAt request.tenant + options.getLeaseRefreshInterval < time

instance (time : Int) : Decidable (system.overdue options time) :=
  inferInstanceAs (Decidable (∃ request ∈ system.requests, _))

/-- Times do not decrease, and no timer of a tenant with open requests is late. -/
def step (event : TenantEvent) : Option Throttling :=
  if event.time < system.now ∨ system.overdue options event.time then none
  else perform options quotas { system with now := event.time } event.action

end Throttling

end Redis

end LoopbackOData
