import LoopbackOData.Library.Dictionary
import LoopbackOData.Library.Runs
import LoopbackOData.Throttle.Store

/-!
# Throttled requests

Any number of requests against one store. Each has its call of `enforceTenantLimit` and the events
of its response, and a turn runs the code up to its next `await`. A handler calls
`enforceTenantLimit` once, so that `_throttleApplied` is not set there, and the store has no leases
to refresh, so that `incrementActiveTenant` and `decrementActiveTenant` do nothing.
-/

namespace LoopbackOData

set_option autoImplicit false

structure TenantLimits where
  maxRequestsPerMinute : Option Nat := none
  maxConcurrentRequests : Option Nat := none

structure ODataTenantQuotaConfig extends TenantLimits where
  overrides : Dictionary Text TenantLimits := []

def getLimits (quotas : Option ODataTenantQuotaConfig) (tenant : Text) : TenantLimits :=
  match quotas with
  | none => {}
  | some quotas =>
    let override := (quotas.overrides.get tenant).getD {}
    { maxRequestsPerMinute := override.maxRequestsPerMinute.or quotas.maxRequestsPerMinute
      maxConcurrentRequests := override.maxConcurrentRequests.or quotas.maxConcurrentRequests }

def TenantLimits.limited (limits : TenantLimits) : Bool :=
  isLimit limits.maxConcurrentRequests || isLimit limits.maxRequestsPerMinute

def tenantQuotasEnabled (quotas : Option ODataTenantQuotaConfig) : Bool :=
  quotas.any fun quotas => quotas.limited || quotas.overrides.any fun override => override.2.limited

/-- Where a request stands with its `check`. -/
inductive CheckPhase where
  /-- Quotas are off, and the response has no listeners. -/
  | skipped
  /-- The tenant has no limits, and `check` has returned. -/
  | unlimited
  /-- `incrementRate` has run. -/
  | rated (limited : Bool)
  /-- `acquireConcurrent` has run. -/
  | acquired (limited : Bool)
  | allowed
  | rejected
  deriving DecidableEq, Repr

/-- The slots that a request has given back are not in the code. -/
structure ThrottledRequest where
  tenant : Text
  check : CheckPhase
  released : Bool := false
  finished : Bool := false
  closed : Bool := false
  givenBack : Nat := 0

structure ThrottleSystem where
  store : InMemoryTenantThrottleStore := {}
  requests : List ThrottledRequest := []

inductive RequestAction where
  | resume
  | finish
  | close
  deriving DecidableEq, Repr

inductive ThrottleEvent where
  | arrive (tenant : Text) (now : Int)
  | turn (request : Nat) (action : RequestAction) (now : Int)

namespace ThrottledRequest

variable (request : ThrottledRequest)

def settled : Bool :=
  match request.check with
  | .skipped | .allowed | .rejected => true
  | .unlimited | .rated _ | .acquired _ => false

def ended : Bool := request.finished || request.closed

/-- `release`, registered for `finish` and for `close` and called for a rejection. -/
def release (now : Int) (store : InMemoryTenantThrottleStore) :
    ThrottledRequest × InMemoryTenantThrottleStore :=
  if request.released then (request, store)
  else
    let after := (store.releaseConcurrent request.tenant now).2
    let given := store.concurrent request.tenant - after.concurrent request.tenant
    ({ request with released := true, givenBack := request.givenBack + given }, after)

/-- The end of `check`, from its call of `acquireConcurrent`. -/
def acquire (limits : TenantLimits) (now : Int) (store : InMemoryTenantThrottleStore) :
    ThrottledRequest × InMemoryTenantThrottleStore :=
  let concurrent := store.acquireConcurrent request.tenant limits.maxConcurrentRequests now
  ({ request with check := .acquired concurrent.1.limited }, concurrent.2)

def resume (limits : TenantLimits) (now : Int) (store : InMemoryTenantThrottleStore) :
    Option (ThrottledRequest × InMemoryTenantThrottleStore) :=
  match request.check with
  | .rated false => some (request.acquire limits now store)
  | .rated true | .acquired true => some (release { request with check := .rejected } now store)
  | .unlimited | .acquired false => some ({ request with check := .allowed }, store)
  | .skipped | .allowed | .rejected => none

/-- A response finishes once, after its check, and closes once, at any time. -/
def turn (limits : TenantLimits) (now : Int) (store : InMemoryTenantThrottleStore) :
    RequestAction → Option (ThrottledRequest × InMemoryTenantThrottleStore)
  | .resume => request.resume limits now store
  | .finish =>
    if request.finished || !request.settled then none
    else
      let request := { request with finished := true }
      if request.check = .skipped then some (request, store) else some (request.release now store)
  | .close =>
    if request.closed then none
    else
      let request := { request with closed := true }
      if request.check = .skipped then some (request, store) else some (request.release now store)

/-- `enforceTenantLimit` up to its first `await`. -/
def enforceTenantLimit (quotas : Option ODataTenantQuotaConfig) (tenant : Text) (now : Int)
    (store : InMemoryTenantThrottleStore) : ThrottledRequest × InMemoryTenantThrottleStore :=
  let limits := getLimits quotas tenant
  let request : ThrottledRequest := { tenant, check := .unlimited }
  if !tenantQuotasEnabled quotas then ({ request with check := .skipped }, store)
  else if !limits.limited then (request, store)
  else if isLimit limits.maxRequestsPerMinute then
    let rate := store.incrementRate tenant 60000 limits.maxRequestsPerMinute now
    ({ request with check := .rated rate.1.limited }, rate.2)
  else request.acquire limits now store

/-- The check has taken a slot. -/
def tookSlot : Bool := request.check = .acquired false || request.check = .allowed

def holds : Bool := request.tookSlot && !request.released

end ThrottledRequest

def ThrottleSystem.step (quotas : Option ODataTenantQuotaConfig) (system : ThrottleSystem) :
    ThrottleEvent → Option ThrottleSystem
  | .arrive tenant now =>
    let arrived := ThrottledRequest.enforceTenantLimit quotas tenant now system.store
    some { store := arrived.2, requests := system.requests ++ [arrived.1] }
  | .turn i action now => do
    let request ← system.requests[i]?
    let turned ← request.turn (getLimits quotas request.tenant) now system.store action
    some { store := turned.2, requests := system.requests.set i turned.1 }

end LoopbackOData
