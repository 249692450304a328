import LoopbackOData.Throttle.Redis

/-!
# Leases and rate windows

What the scripts keep of a tenant: its counter with the life of its hash, and the hits of its
windows.
-/

namespace LoopbackOData

namespace Redis

open Expiring StoreOptions Throttling

set_option autoImplicit false

/-! ## What the scripts do -/

section Scripts

variable {key : Key} {now expireMs : Int} {limit : Nat} {e : Entry ThrottleHash}

def counterOf (key : Key) : Nat := (fields key).concurrent.getD 0

theorem fields_renew : fields (renew now expireMs key) = fields key := by
  cases key <;> rfl

theorem limited_rateScript :
    (rateScript now windowMs limit expireMs key).1.limited = true ↔
      limit > 0 ∧ (currentWindow now windowMs (fields key)).2 + 1 > limit := by
  unfold rateScript
  dsimp only
  split
  · next h => exact ⟨fun _ => h, fun _ => rfl⟩
  · next h =>
    constructor
    · intro hfalse
      cases hfalse
    · exact fun h' => absurd h' h

theorem rateScript_of_limited
    (h : (rateScript now windowMs limit expireMs key).1.limited = true) :
    (rateScript now windowMs limit expireMs key).2 = renew now expireMs key := by
  rw [limited_rateScript] at h
  exact congrArg Prod.snd (if_pos h)

theorem rateScript_of_not_limited
    (h : (rateScript now windowMs limit expireMs key).1.limited = false) :
    (rateScript now windowMs limit expireMs key).2 = some
      ⟨⟨some (currentWindow now windowMs (fields key)).1,
        some ((currentWindow now windowMs (fields key)).2 + 1), some (counterOf key)⟩,
        now + expireMs⟩ := by
  have hnot : ¬ (limit > 0 ∧ (currentWindow now windowMs (fields key)).2 + 1 > limit) := by
    intro hlimited
    rw [limited_rateScript.mpr hlimited] at h
    cases h
  exact congrArg Prod.snd (if_neg hnot)

theorem counterOf_rateScript :
    counterOf (rateScript now windowMs limit expireMs key).2 = counterOf key := by
  cases h : (rateScript now windowMs limit expireMs key).1.limited with
  | true =>
    rw [rateScript_of_limited h, counterOf, fields_renew]
    rfl
  | false =>
    rw [rateScript_of_not_limited h]
    rfl

theorem expiresAt_rateScript (h : (rateScript now windowMs limit expireMs key).2 = some e) :
    e.expiresAt = now + expireMs := by
  cases hlimited : (rateScript now windowMs limit expireMs key).1.limited with
  | true =>
    rw [rateScript_of_limited hlimited, renew, Option.map_eq_some_iff] at h
    obtain ⟨e', -, rfl⟩ := h
    rfl
  | false =>
    rw [rateScript_of_not_limited hlimited] at h
    obtain rfl := Option.some.inj h
    rfl

theorem limited_concurrencyScript :
    (concurrencyScript limit expireMs now key).1.limited = true ↔
      limit > 0 ∧ counterOf key ≥ limit := by
  unfold concurrencyScript
  dsimp only
  split
  · next h => exact ⟨fun _ => h, fun _ => rfl⟩
  · next h =>
    constructor
    · intro hfalse
      cases hfalse
    · exact fun h' => absurd h' h

theorem concurrencyScript_of_limited
    (h : (concurrencyScript limit expireMs now key).1.limited = true) :
    (concurrencyScript limit expireMs now key).2 = key := by
  rw [limited_concurrencyScript] at h
  exact congrArg Prod.snd (if_pos h)

theorem concurrencyScript_of_not_limited
    (h : (concurrencyScript limit expireMs now key).1.limited = false) :
    (concurrencyScript limit expireMs now key).2 = some
      ⟨⟨some (if (fields key).windowStart.getD 0 = 0 then now
          else (fields key).windowStart.getD 0),
        some ((fields key).hits.getD 0), some (counterOf key + 1)⟩, now + expireMs⟩ := by
  have hnot : ¬ (limit > 0 ∧ counterOf key ≥ limit) := by
    intro hlimited
    rw [limited_concurrencyScript.mpr hlimited] at h
    cases h
  exact congrArg Prod.snd (if_neg hnot)

theorem releaseScript_snd :
    (releaseScript expireMs now key).2 =
      some ⟨{ fields key with concurrent := some (counterOf key - 1) }, now + expireMs⟩ := by
  have hcounter : counterOf key = (fields key).concurrent.getD 0 := rfl
  unfold releaseScript
  dsimp only
  rw [← hcounter]
  split
  · next h =>
    rw [Nat.le_zero.mp h]
  · rfl

theorem refreshScript_snd :
    (refreshScript expireMs now key).2 =
      if counterOf key > 0 then renew now expireMs key else key := rfl

end Scripts

/-! ## Slots -/

/-- The counter of a tenant is the number of its open requests, and its hash outlives the next run
of its timer. -/
structure Leased (interval : Int) (limit : Option Nat) (now : Int) (key : Key) (leaseAt : Int)
    (openCount : Nat) : Prop where
  counter : counterOf (alive now key) = openCount
  lease : 0 < openCount → ∃ e, key = some e ∧ leaseAt + interval < e.expiresAt
  began : leaseAt ≤ now
  atMost : isLimit limit = true → openCount ≤ limit.getD 0

section Leased

variable {interval ttl : Int} {limit : Option Nat} {now time leaseAt : Int} {key : Key}
  {openCount : Nat}

/-- Time passes no further than the timer lets it. -/
theorem Leased.advance (h : Leased interval limit now key leaseAt openCount) (hle : now ≤ time)
    (hdue : 0 < openCount → time ≤ leaseAt + interval) :
    Leased interval limit time key leaseAt openCount := by
  refine ⟨?_, h.lease, h.began.trans hle, h.atMost⟩
  rcases Nat.eq_zero_or_pos openCount with hzero | hpos
  · rcases alive_later hle with hsame | ⟨hnone, -⟩
    · rw [hsame, h.counter]
    · rw [hnone, hzero]
      rfl
  · obtain ⟨e, rfl, hlt⟩ := h.lease hpos
    have htime := hdue hpos
    have hcounter := h.counter
    rw [alive_of_lt (by omega)] at hcounter ⊢
    exact hcounter

/-- A script that gives the hash a new time to live. -/
theorem Leased.write {after : Key} {leaseAt' : Int} {openCount' : Nat} {e : Entry ThrottleHash}
    (httl : interval < ttl) (hpos : 0 < ttl) (hafter : after = some e)
    (hexpires : now + ttl ≤ e.expiresAt) (hcounter : counterOf after = openCount')
    (hbegan : leaseAt' ≤ now) (hatMost : isLimit limit = true → openCount' ≤ limit.getD 0) :
    Leased interval limit now after leaseAt' openCount' := by
  subst hafter
  refine ⟨?_, fun _ => ⟨e, rfl, by omega⟩, hbegan, hatMost⟩
  rw [alive_of_lt (by omega)]
  exact hcounter

/-- The hash of a tenant with open requests is there. -/
theorem Leased.isSome (h : Leased interval limit now key leaseAt openCount)
    (hpos : 0 < openCount) : (alive now key).isSome = true := by
  cases halive : alive now key with
  | some e => rfl
  | none =>
    have hcounter := h.counter
    rw [halive] at hcounter
    rw [← hcounter] at hpos
    exact absurd hpos (Nat.lt_irrefl 0)

theorem Leased.rate {rateLimit : Nat} {rateTtl : Int}
    (h : Leased interval limit now key leaseAt openCount) (httl : interval < rateTtl)
    (hpos : 0 < rateTtl) :
    Leased interval limit now
      (rateScript now windowMs rateLimit rateTtl (alive now key)).2 leaseAt openCount := by
  have hcounter : counterOf (rateScript now windowMs rateLimit rateTtl (alive now key)).2 =
      openCount := by rw [counterOf_rateScript, h.counter]
  cases hafter : (rateScript now windowMs rateLimit rateTtl (alive now key)).2 with
  | some e =>
    rw [hafter] at hcounter
    exact Leased.write httl hpos rfl (expiresAt_rateScript hafter).ge hcounter h.began h.atMost
  | none =>
    rw [hafter] at hcounter
    have hzero : openCount = 0 := hcounter.symm
    refine ⟨hcounter, ?_, h.began, h.atMost⟩
    rw [hzero]
    exact fun hlt => absurd hlt (Nat.lt_irrefl 0)

theorem alive_alive {entry : Key} : alive now (alive now entry) = alive now entry := by
  rw [alive, alive, Option.filter_filter]
  simp only [Bool.and_self]

/-- A script that leaves the hash as it is. -/
theorem Leased.keep (h : Leased interval limit now key leaseAt openCount) :
    Leased interval limit now (alive now key) leaseAt openCount := by
  refine ⟨?_, ?_, h.began, h.atMost⟩
  · rw [alive_alive, h.counter]
  · intro hpos
    obtain ⟨e, rfl, hlt⟩ := h.lease hpos
    obtain ⟨e', he'⟩ := Option.isSome_iff_exists.mp (h.isSome hpos)
    obtain ⟨heq, -⟩ := alive_eq_some_iff.mp he'
    obtain rfl := Option.some.inj heq
    exact ⟨e, he', hlt⟩

theorem limitValue_eq (h : isLimit limit = true) : limitValue limit = limit.getD 0 := if_pos h

theorem limitValue_pos (h : isLimit limit = true) : 0 < limitValue limit := by
  rw [limitValue_eq h]
  cases limit with
  | none => cases h
  | some n => exact of_decide_eq_true h

theorem Leased.admitted (h : Leased interval limit now key leaseAt openCount)
    (httl : interval < ttl) (hpos : 0 < ttl)
    (hlimited : (concurrencyScript (limitValue limit) ttl now (alive now key)).1.limited = false) :
    Leased interval limit now (concurrencyScript (limitValue limit) ttl now (alive now key)).2
      (if openCount = 0 then now else leaseAt) (openCount + 1) := by
  have hbegan : (if openCount = 0 then now else leaseAt) ≤ now := by
    split
    · exact le_rfl
    · exact h.began
  refine Leased.write httl hpos (concurrencyScript_of_not_limited hlimited) le_rfl ?_ hbegan ?_
  · rw [concurrencyScript_of_not_limited hlimited, ← h.counter]
    rfl
  · intro hlimit
    have hnot : ¬ (limitValue limit > 0 ∧ counterOf (alive now key) ≥ limitValue limit) := by
      intro hfalse
      rw [limited_concurrencyScript.mpr hfalse] at hlimited
      cases hlimited
    have hlt : ¬ counterOf (alive now key) ≥ limitValue limit :=
      fun hge => hnot ⟨limitValue_pos hlimit, hge⟩
    rw [h.counter, limitValue_eq hlimit] at hlt
    omega

theorem Leased.released (h : Leased interval limit now key leaseAt (openCount + 1))
    (httl : interval < ttl) (hpos : 0 < ttl) :
    Leased interval limit now (releaseScript ttl now (alive now key)).2 leaseAt openCount := by
  refine Leased.write httl hpos releaseScript_snd le_rfl ?_ h.began ?_
  · rw [releaseScript_snd, counterOf]
    dsimp only [fields, Option.map_some, Option.getD_some]
    rw [h.counter]
    rfl
  · intro hlimit
    have hle := h.atMost hlimit
    omega

theorem Leased.refreshed (h : Leased interval limit now key leaseAt openCount)
    (httl : interval < ttl) (hpos : 0 < ttl) (hopen : 0 < openCount) :
    Leased interval limit now (refreshScript ttl now (alive now key)).2 now openCount := by
  obtain ⟨e, he⟩ := Option.isSome_iff_exists.mp (h.isSome hopen)
  have hcounter : counterOf (alive now key) > 0 := by
    rw [h.counter]
    exact hopen
  rw [refreshScript_snd, if_pos hcounter, he]
  refine Leased.write httl hpos rfl le_rfl ?_ le_rfl h.atMost
  rw [← h.counter, he]
  rfl

end Leased

/-! ## Rate windows -/

/-- No window has more grants than the limit, and the hash of a tenant counts those of its open
window and is there until the window ends. -/
structure Windowed (limit : Nat) (now : Int) (key : Key) (windows : List RateWindow) : Prop where
  counted : ∀ window ∈ windows, window.granted ≤ limit
  kept : ∀ window ∈ windows, now < window.start + windowMs → ∃ e, alive now key = some e ∧
    e.value.windowStart = some window.start ∧ e.value.hits = some window.granted ∧
      window.start + windowMs ≤ e.expiresAt
  recorded : ∀ start, (fields (alive now key)).windowStart = some start → 0 < start ∧
    start ≤ now ∧ ∃ window ∈ windows, window.start = start ∧
      (fields (alive now key)).hits = some window.granted
  blank : (fields (alive now key)).windowStart = none → (fields (alive now key)).hits = none

section Windowed

variable {limit : Nat} {now time ttl : Int} {key after : Key} {windows : List RateWindow}
  {e : Entry ThrottleHash}

theorem fields_some (e : Entry ThrottleHash) : fields (some e) = e.value := rfl

theorem Windowed.advance (h : Windowed limit now key windows) (hle : now ≤ time) :
    Windowed limit time key windows := by
  have hsame : alive time key = alive now key ∨ alive time key = none := by
    rcases alive_later hle with hsame | ⟨hnone, -⟩
    · exact Or.inl hsame
    · exact Or.inr hnone
  refine ⟨h.counted, ?_, ?_, ?_⟩
  · intro window hwindow hopen
    obtain ⟨e, he, hstart, hhits, hexpires⟩ := h.kept window hwindow (by omega)
    exact ⟨e, alive_of_alive he (by omega), hstart, hhits, hexpires⟩
  · intro start hstart
    rcases hsame with hsame | hnone
    · rw [hsame] at hstart ⊢
      obtain ⟨hpos, hnow, hwindow⟩ := h.recorded start hstart
      exact ⟨hpos, hnow.trans hle, hwindow⟩
    · rw [hnone] at hstart
      cases hstart
  · intro hstart
    rcases hsame with hsame | hnone
    · rw [hsame] at hstart ⊢
      exact h.blank hstart
    · rw [hnone]
      rfl

/-- An open window is the one that the hash counts. -/
theorem Windowed.start_of_open (h : Windowed limit now key windows) {window : RateWindow}
    (hwindow : window ∈ windows) (hopen : now < window.start + windowMs) :
    (fields (alive now key)).windowStart = some window.start ∧
      (fields (alive now key)).hits = some window.granted := by
  obtain ⟨e, he, hstart, hhits, -⟩ := h.kept window hwindow hopen
  rw [he, fields_some]
  exact ⟨hstart, hhits⟩

theorem countWindows_of_not_granted (before : Key)
    (hstart : (fields after).windowStart = (fields before).windowStart) :
    countWindows now false before after windows = windows := by
  unfold countWindows
  rw [if_pos hstart]
  simp

/-- A script that leaves the window of the hash as it is, and gives it a time to live that is long
enough. -/
theorem Windowed.keep (h : Windowed limit now key windows)
    (hstart : (fields after).windowStart = (fields (alive now key)).windowStart)
    (hhits : (fields after).hits = (fields (alive now key)).hits)
    (hsome : (alive now key).isSome = true → after.isSome = true)
    (hexpires : ∀ e, after = some e → now < e.expiresAt ∧
      (now + windowMs ≤ e.expiresAt ∨ alive now key = some e)) :
    Windowed limit now after (countWindows now false (alive now key) after windows) := by
  have halive : alive now after = after := by
    cases after with
    | none => rfl
    | some e => exact alive_of_lt (hexpires e rfl).1
  rw [countWindows_of_not_granted _ hstart]
  refine ⟨h.counted, ?_, ?_, ?_⟩
  · intro window hwindow hopen
    obtain ⟨e, he, hwindowStart, hgranted, hlong⟩ := h.kept window hwindow hopen
    obtain ⟨-, hnow, -⟩ := h.recorded window.start (h.start_of_open hwindow hopen).1
    have hafter := hsome (by rw [he]; rfl)
    obtain ⟨e', he'⟩ := Option.isSome_iff_exists.mp hafter
    rw [he', he, fields_some, fields_some] at hstart hhits
    rw [halive]
    refine ⟨e', he', hstart.trans hwindowStart, hhits.trans hgranted, ?_⟩
    rcases (hexpires e' he').2 with hlater | hsame
    · omega
    · rw [he] at hsame
      obtain rfl := Option.some.inj hsame
      exact hlong
  · intro start
    rw [halive, hstart, hhits]
    exact h.recorded start
  · rw [halive, hstart, hhits]
    exact h.blank

theorem currentWindow_of_open {start : Int} {current : ThrottleHash}
    (hstart : current.windowStart = some start) (hopen : now < start + windowMs) :
    currentWindow now windowMs current = (start, current.hits.getD 0) := by
  unfold currentWindow
  rw [hstart, Option.getD_some]
  exact if_neg (by omega)

theorem currentWindow_of_elapsed {current : ThrottleHash}
    (hblank : current.windowStart = none → current.hits = none)
    (helapsed : ∀ start, current.windowStart = some start → start + windowMs ≤ now) :
    currentWindow now windowMs current = (now, 0) := by
  unfold currentWindow
  cases hstart : current.windowStart with
  | none =>
    rw [Option.getD_none, hblank hstart]
    dsimp only
    split <;> rfl
  | some start =>
    have hle := helapsed start hstart
    exact if_pos (by rw [Option.getD_some]; omega)

theorem Windowed.granted_open (h : Windowed limit now key windows) {start : Int} {hits : Nat}
    (hstart : (fields (alive now key)).windowStart = some start)
    (hhits : (fields (alive now key)).hits = some hits) (hopen : now < start + windowMs)
    (hle : hits + 1 ≤ limit) (httl : windowMs ≤ ttl) {concurrent : Option Nat} :
    Windowed limit now (some ⟨⟨some start, some (hits + 1), concurrent⟩, now + ttl⟩)
      (countWindows now true (alive now key)
        (some ⟨⟨some start, some (hits + 1), concurrent⟩, now + ttl⟩) windows) := by
  have hlong : now < now + ttl := by
    unfold windowMs at httl
    omega
  have hmem (window : RateWindow) : window ∈ countWindows now true (alive now key)
        (some ⟨⟨some start, some (hits + 1), concurrent⟩, now + ttl⟩) windows ↔
      ∃ old ∈ windows, (if now < old.start + windowMs then
        { old with granted := old.granted + 1 } else old) = window := by
    unfold countWindows
    rw [if_pos (by rw [hstart]; rfl), List.mem_map]
    simp only [true_and]
  have hcount {old : RateWindow} (hold : old ∈ windows) (holdOpen : now < old.start + windowMs) :
      old.start = start ∧ old.granted = hits := by
    obtain ⟨hstart', hhits'⟩ := h.start_of_open hold holdOpen
    rw [hstart] at hstart'
    rw [hhits] at hhits'
    exact ⟨(Option.some.inj hstart').symm, (Option.some.inj hhits').symm⟩
  refine ⟨?_, ?_, ?_, ?_⟩
  · intro window hwindow
    obtain ⟨old, hold, rfl⟩ := (hmem window).mp hwindow
    split
    · next holdOpen =>
      rw [← (hcount hold holdOpen).2] at hle
      exact hle
    · exact h.counted old hold
  · intro window hwindow hwindowOpen
    obtain ⟨old, hold, rfl⟩ := (hmem window).mp hwindow
    have holdOpen : now < old.start + windowMs := by
      split at hwindowOpen <;> exact hwindowOpen
    obtain ⟨rfl, rfl⟩ := hcount hold holdOpen
    obtain ⟨-, hnow, -⟩ := h.recorded old.start hstart
    rw [if_pos holdOpen]
    refine ⟨_, alive_of_lt hlong, rfl, rfl, ?_⟩
    dsimp only
    omega
  · intro start' hstart'
    rw [alive_of_lt hlong, fields_some] at hstart' ⊢
    obtain rfl := Option.some.inj hstart'
    obtain ⟨hpos, hnow, old, hold, rfl, hgranted⟩ := h.recorded start hstart
    refine ⟨hpos, hnow, { old with granted := old.granted + 1 }, ?_, rfl, ?_⟩
    · exact (hmem _).mpr ⟨old, hold, if_pos hopen⟩
    · rw [hhits] at hgranted
      rw [Option.some.inj hgranted]
  · intro hnone
    rw [alive_of_lt hlong] at hnone
    cases hnone

/-- A script that begins a window, none being open. -/
theorem Windowed.begin (h : Windowed limit now key windows) (hnow : 0 < now)
    (helapsed : ∀ start, (fields (alive now key)).windowStart = some start →
      start + windowMs ≤ now) {granted : Bool} (hle : (if granted then 1 else 0) ≤ limit)
    (httl : windowMs ≤ ttl) {concurrent : Option Nat} :
    Windowed limit now
      (some ⟨⟨some now, some (if granted then 1 else 0), concurrent⟩, now + ttl⟩)
      (countWindows now granted (alive now key)
        (some ⟨⟨some now, some (if granted then 1 else 0), concurrent⟩, now + ttl⟩) windows) := by
  have hlong : now < now + ttl := by
    unfold windowMs at httl
    omega
  have hclosed {window : RateWindow} (hwindow : window ∈ windows) :
      ¬ now < window.start + windowMs := by
    intro hopen
    have hstart := helapsed window.start (h.start_of_open hwindow hopen).1
    omega
  have hwindows : countWindows now granted (alive now key)
      (some ⟨⟨some now, some (if granted then 1 else 0), concurrent⟩, now + ttl⟩) windows =
        windows ++ [⟨now, if granted then 1 else 0⟩] := by
    have hne : ¬ (some now = (fields (alive now key)).windowStart) := by
      intro heq
      have hstart := helapsed now heq.symm
      unfold windowMs at hstart
      omega
    have hmap : windows.map (fun window => if granted ∧ now < window.start + windowMs then
        { window with granted := window.granted + 1 } else window) = windows := by
      rw [List.map_congr_left (g := id)]
      · exact List.map_id windows
      · intro window hwindow
        exact if_neg fun hopen => hclosed hwindow hopen.2
    unfold countWindows
    rw [hmap, fields_some]
    dsimp only
    rw [if_neg hne]
    rfl
  rw [hwindows]
  refine ⟨?_, ?_, ?_, ?_⟩
  · intro window hwindow
    rcases List.mem_append.mp hwindow with hwindow | hwindow
    · exact h.counted window hwindow
    · rw [List.mem_singleton.mp hwindow]
      exact hle
  · intro window hwindow hopen
    rcases List.mem_append.mp hwindow with hwindow | hwindow
    · exact absurd hopen (hclosed hwindow)
    · rw [List.mem_singleton.mp hwindow]
      refine ⟨_, alive_of_lt hlong, rfl, rfl, ?_⟩
      dsimp only
      omega
  · intro start hstart
    rw [alive_of_lt hlong, fields_some] at hstart ⊢
    obtain rfl := Option.some.inj hstart
    exact ⟨hnow, le_rfl, _, List.mem_append_right _ List.mem_cons_self, rfl, rfl⟩
  · intro hnone
    rw [alive_of_lt hlong] at hnone
    cases hnone

/-- The hash has an open window, with its hits, or none. -/
theorem Windowed.open_or_elapsed (h : Windowed limit now key windows) :
    (∃ start hits, (fields (alive now key)).windowStart = some start ∧
      (fields (alive now key)).hits = some hits ∧ now < start + windowMs) ∨
    ∀ start, (fields (alive now key)).windowStart = some start → start + windowMs ≤ now := by
  cases hstart : (fields (alive now key)).windowStart with
  | none =>
    right
    intro start hfalse
    cases hfalse
  | some start =>
    obtain ⟨-, -, window, -, -, hhits⟩ := h.recorded start hstart
    rcases lt_or_ge now (start + windowMs) with hopen | helapsed
    · exact Or.inl ⟨start, window.granted, rfl, hhits, hopen⟩
    · right
      intro start' hstart'
      obtain rfl := Option.some.inj hstart'
      exact helapsed

/-- A grant counts in the window that is open, or begins one. -/
theorem Windowed.granted (h : Windowed limit now key windows) (hpos : 0 < limit)
    (hnow : 0 < now) (httl : windowMs ≤ ttl)
    (hlimited : (rateScript now windowMs limit ttl (alive now key)).1.limited = false) :
    Windowed limit now (rateScript now windowMs limit ttl (alive now key)).2
      (countWindows now true (alive now key)
        (rateScript now windowMs limit ttl (alive now key)).2 windows) := by
  rw [rateScript_of_not_limited hlimited]
  rcases h.open_or_elapsed with ⟨start, hits, hstart, hhits, hopen⟩ | helapsed
  · have hnot : ¬ (limit > 0 ∧
        (currentWindow now windowMs (fields (alive now key))).2 + 1 > limit) := by
      intro hfalse
      rw [limited_rateScript.mpr hfalse] at hlimited
      cases hlimited
    rw [currentWindow_of_open hstart hopen, hhits, Option.getD_some] at hnot ⊢
    exact h.granted_open hstart hhits hopen (by omega) httl
  · rw [currentWindow_of_elapsed h.blank helapsed]
    have hone : (if true = true then 1 else 0) ≤ limit := hpos
    exact h.begin hnow helapsed hone httl

theorem Windowed.rate_limited (h : Windowed limit now key windows) (httl : windowMs ≤ ttl)
    (hlimited : (rateScript now windowMs limit ttl (alive now key)).1.limited = true) :
    Windowed limit now (rateScript now windowMs limit ttl (alive now key)).2
      (countWindows now false (alive now key)
        (rateScript now windowMs limit ttl (alive now key)).2 windows) := by
  have hexpires {e : Entry ThrottleHash}
      (he : (rateScript now windowMs limit ttl (alive now key)).2 = some e) :
      now < e.expiresAt ∧ (now + windowMs ≤ e.expiresAt ∨ alive now key = some e) := by
    have heq := expiresAt_rateScript he
    unfold windowMs at httl ⊢
    exact ⟨by omega, Or.inl (by omega)⟩
  have hafter := rateScript_of_limited hlimited
  refine h.keep ?_ ?_ ?_ fun e => hexpires
  · rw [hafter, fields_renew]
  · rw [hafter, fields_renew]
  · intro hsome
    rw [hafter, renew, Option.isSome_map]
    exact hsome

theorem Windowed.acquired (h : Windowed limit now key windows) (hnow : 0 < now)
    (httl : windowMs ≤ ttl) {slots : Nat} :
    Windowed limit now (concurrencyScript slots ttl now (alive now key)).2
      (countWindows now false (alive now key)
        (concurrencyScript slots ttl now (alive now key)).2 windows) := by
  cases hlimited : (concurrencyScript slots ttl now (alive now key)).1.limited with
  | true =>
    rw [concurrencyScript_of_limited hlimited]
    exact h.keep rfl rfl id fun e he => ⟨(alive_eq_some_iff.mp he).2, Or.inr he⟩
  | false =>
    rw [concurrencyScript_of_not_limited hlimited]
    cases hstart : (fields (alive now key)).windowStart with
    | none =>
      have hhits := h.blank hstart
      rw [Option.getD_none, if_pos rfl, hhits, Option.getD_none]
      have helapsed (start : Int) (hfalse : (fields (alive now key)).windowStart = some start) :
          start + windowMs ≤ now := by
        rw [hstart] at hfalse
        cases hfalse
      have hnone : (if false = true then 1 else 0) ≤ limit := Nat.zero_le limit
      exact h.begin hnow helapsed hnone httl
    | some start =>
      obtain ⟨hpos, -, window, -, -, hhits⟩ := h.recorded start hstart
      rw [Option.getD_some, if_neg (by omega), hhits, Option.getD_some]
      refine h.keep ?_ ?_ (fun _ => rfl) ?_
      · rw [hstart]
        rfl
      · rw [hhits]
        rfl
      · intro e he
        obtain rfl := Option.some.inj he
        unfold windowMs at httl ⊢
        dsimp only
        exact ⟨by omega, Or.inl (by omega)⟩

theorem Windowed.released (h : Windowed limit now key windows) (httl : windowMs ≤ ttl) :
    Windowed limit now (releaseScript ttl now (alive now key)).2
      (countWindows now false (alive now key)
        (releaseScript ttl now (alive now key)).2 windows) := by
  rw [releaseScript_snd]
  refine h.keep rfl rfl (fun _ => rfl) ?_
  intro e he
  obtain rfl := Option.some.inj he
  unfold windowMs at httl ⊢
  dsimp only
  exact ⟨by omega, Or.inl (by omega)⟩

theorem Windowed.refreshed (h : Windowed limit now key windows) (httl : windowMs ≤ ttl) :
    Windowed limit now (refreshScript ttl now (alive now key)).2
      (countWindows now false (alive now key)
        (refreshScript ttl now (alive now key)).2 windows) := by
  rw [refreshScript_snd]
  split
  · refine h.keep ?_ ?_ ?_ ?_
    · rw [fields_renew]
    · rw [fields_renew]
    · intro hsome
      rw [renew, Option.isSome_map]
      exact hsome
    · intro e he
      rw [renew, Option.map_eq_some_iff] at he
      obtain ⟨e', -, rfl⟩ := he
      unfold windowMs at httl ⊢
      dsimp only
      exact ⟨by omega, Or.inl (by omega)⟩
  · exact h.keep rfl rfl id fun e he => ⟨(alive_eq_some_iff.mp he).2, Or.inr he⟩

end Windowed

end Redis

end LoopbackOData
