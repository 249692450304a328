import LoopbackOData.Batch.Failures

/-!
# Changesets that are not committed

The loop records the entry of a request as soon as this has run, and takes it back neither when a
later request of the group fails nor when the commit does.
-/

set_option autoImplicit false

namespace LoopbackOData

open Effect

section RolledBack

variable {σ : Type} {server : BatchServer σ}

/-! ## Clean ends -/

/-- A request depends on an earlier one of a group that is not committed. -/
def DependsOnLost (all : List IndexedRequest) (committed : List Text) (request : IndexedRequest) :
    Prop :=
  ∃ prior ∈ all, ∃ groupId id, groupOf prior.1 = some groupId ∧ prior.2 < request.2 ∧
    groupId ∉ committed ∧ prior.1.id = some id ∧ id ∈ request.1.dependsOn.getD []

/-- A group that is not committed fails with its first request, what is thrown for a group says no
status of a success, and a group with a request that depends on a group that is not committed is
neither rejected nor ended by an error. -/
structure EndsCleanly (server : BatchServer σ) (groupId : Text)
    (group requests : List IndexedRequest) (references : BatchReferences) (s : BatchState σ) :
    Prop where
  first : groupId ∉ (runGroup server groupId group requests references s).2.committed →
    ∀ transaction s', createAtomicGroupContext server groupId group requests s =
      (.ok transaction, s') → ∀ first ∈ group.head?,
        ¬ Succeeds server transaction references first s'
  status : ∀ e s', executeAtomicGroup server groupId group requests references s = (.error e, s') →
    400 ≤ resolveErrorStatus e 500
  dependants : (∃ request ∈ group, DependsOnLost requests s.committed request) →
    ∃ transaction s' result s'',
      createAtomicGroupContext server groupId group requests s = (.ok transaction, s') ∧
      executeInTransaction server groupId transaction group references s' = (.ok result, s'')

section Clean

variable {transaction : Option Text} {references : BatchReferences} {groupId : Text}
  {group requests : List IndexedRequest} {s s' : BatchState σ}
  {result : List BatchResponseEntry × BatchReferences}

theorem runGroup_clean (h : EndsCleanly server groupId group requests references s)
    (hne : group ≠ [])
    (hrun : runGroup server groupId group requests references s = (.ok result, s'))
    (hnot : groupId ∉ s'.committed) :
    KeepsFailed s s' ∧ ∀ entry ∈ result.1, 400 ≤ entry.status := by
  have hfirst := h.first (by rw [hrun]; exact hnot)
  obtain ⟨hkeeps, hpost⟩ := keepsFailed_executeAtomicGroup hne s hfirst
  unfold runGroup at hrun
  obtain ⟨outcome, between, hattempt, hrest⟩ := ok_bind_iff.mp hrun
  obtain ⟨houtcome, rfl⟩ := Prod.mk.inj hattempt
  have houtcome := Except.ok.inj houtcome
  cases outcome with
  | ok outcome =>
    obtain ⟨rfl, rfl⟩ := ok_pure_iff.mp hrest
    refine ⟨hkeeps, fun entry hmem => ?_⟩
    obtain ⟨entry', hmem', rfl⟩ := List.mem_map.mp hmem
    exact hpost outcome _ (Prod.ext houtcome rfl) entry' hmem'
  | error e =>
    dsimp only at hrest
    split at hrest
    · exact absurd hrest not_ok_fail
    · obtain ⟨rfl, rfl⟩ := ok_pure_iff.mp hrest
      refine ⟨hkeeps, fun entry hmem => ?_⟩
      obtain ⟨request, -, rfl⟩ := List.mem_map.mp hmem
      exact h.status e _ (Prod.ext houtcome rfl)

theorem isBatchValidationError_ensureAtomicityGroupContainsOnlyWrites {e : Thrown}
    (h : ensureAtomicityGroupContainsOnlyWrites server groupId group = .error e) :
    isBatchValidationError e = true := by
  induction group with
  | nil => cases h
  | cons request group ih =>
    unfold ensureAtomicityGroupContainsOnlyWrites at h
    dsimp only at h
    split at h
    · rw [← Except.error.inj h]
      rfl
    · exact ih h

/-- Where the changeset of a group comes to its entries, so does the group. -/
theorem runGroup_of_executeInTransaction {opened closed : BatchState σ}
    {inner : List BatchResponseEntry × BatchReferences}
    (hcreate : createAtomicGroupContext server groupId group requests s = (.ok transaction, opened))
    (hinner : executeInTransaction server groupId transaction group references opened =
      (.ok inner, closed))
    (hrun : runGroup server groupId group requests references s = (.ok result, s')) :
    s' = closed ∧ result.1 = inner.1.map fun entry =>
      { entry with atomicityGroup := some groupId } := by
  unfold runGroup at hrun
  obtain ⟨outcome, between, hattempt, hrest⟩ := ok_bind_iff.mp hrun
  obtain ⟨houtcome, rfl⟩ := Prod.mk.inj hattempt
  cases hwrites : ensureAtomicityGroupContainsOnlyWrites server groupId group with
  | error e =>
    have hatomic : executeAtomicGroup server groupId group requests references s =
        (.error e, s) := by
      rw [executeAtomicGroup, hwrites, bind_ofExcept_error]
    rw [hatomic] at houtcome
    obtain rfl := Except.ok.inj houtcome
    dsimp only at hrest
    rw [if_pos (isBatchValidationError_ensureAtomicityGroupContainsOnlyWrites hwrites)] at hrest
    exact absurd hrest not_ok_fail
  | ok _ =>
    have hatomic : executeAtomicGroup server groupId group requests references s =
        (.ok inner, closed) := by
      rw [executeAtomicGroup, hwrites, bind_ofExcept_ok, bind_apply]
      simp only [attempt, hcreate]
      rw [bind_apply]
      simp only [attempt, hinner]
      rfl
    rw [hatomic] at houtcome hrest
    obtain rfl := Except.ok.inj houtcome
    obtain ⟨rfl, rfl⟩ := ok_pure_iff.mp hrest
    exact ⟨rfl, rfl⟩

theorem runGroup_lost (h : EndsCleanly server groupId group requests references s)
    {lost : IndexedRequest} (hmem : lost ∈ group) (hlost : DependsOnLost requests s.committed lost)
    {id : Text} (hid : id ∈ lost.1.dependsOn.getD []) (hfailed : FailedAt s id)
    (hids : ∀ request ∈ group, request.1.id ≠ some id)
    (hindex : ∀ request ∈ group, request.2 = lost.2 → request = lost)
    (hrun : runGroup server groupId group requests references s = (.ok result, s')) :
    Touches (some groupId) group (group.filter fun request => request.2 ≠ lost.2) s s' ∧
      ∀ entry, (lost, entry) ∈ group.zip result.1 → entry.status = 424 := by
  obtain ⟨transaction, opened, inner, closed, hcreate, hinner⟩ :=
    h.dependants ⟨lost, hmem, hlost⟩
  obtain ⟨rfl, hresult⟩ := runGroup_of_executeInTransaction hcreate hinner hrun
  obtain ⟨hresults, hexecuted, hcommitted⟩ :=
    @createAtomicGroupContext_same σ server groupId group requests s
  rw [hcreate] at hresults hexecuted hcommitted
  obtain ⟨htouches, hstatus⟩ :=
    @lost_executeInTransaction σ server transaction references groupId group lost id hid hids hindex
      opened (KeepsFailed.of_eq hresults id hfailed)
  rw [hinner] at htouches
  refine ⟨(Touches.of_eq hresults hexecuted hcommitted).trans htouches, fun entry hzip => ?_⟩
  rw [hresult, List.zip_map_right] at hzip
  obtain ⟨⟨request, entry'⟩, hpair, heq⟩ := List.mem_map.mp hzip
  obtain ⟨rfl, rfl⟩ := Prod.mk.inj heq
  exact hstatus inner s' hinner entry' hpair

/-- Of a group that is not committed, only the first request is executed. -/
theorem runGroup_inner {first lost : IndexedRequest} {rest : List IndexedRequest}
    (h : EndsCleanly server groupId (first :: rest) requests references s)
    (hmem : lost ∈ first :: rest) (hlost : DependsOnLost requests s.committed lost)
    (hrun : runGroup server groupId (first :: rest) requests references s = (.ok result, s'))
    (hnot : groupId ∉ s'.committed) :
    Touches (some groupId) (first :: rest) [first] s s' ∧
      ∀ request entry, (request, entry) ∈ (first :: rest).zip result.1 → request ≠ first →
        entry.status = 424 := by
  obtain ⟨transaction, opened, inner, closed, hcreate, hinner⟩ :=
    h.dependants ⟨lost, hmem, hlost⟩
  have hfails := h.first (by rw [hrun]; exact hnot) transaction opened hcreate first rfl
  obtain ⟨rfl, hresult⟩ := runGroup_of_executeInTransaction hcreate hinner hrun
  obtain ⟨hresults, hexecuted, hcommitted⟩ :=
    @createAtomicGroupContext_same σ server groupId (first :: rest) requests s
  rw [hcreate] at hresults hexecuted hcommitted
  obtain ⟨htouches, hstatus⟩ :=
    @inner_executeInTransaction σ server transaction references groupId first rest opened hfails
  rw [hinner] at htouches
  refine ⟨(Touches.of_eq hresults hexecuted hcommitted).trans htouches,
    fun request entry hzip hne => ?_⟩
  have htail := hstatus inner s' hinner
  rw [hresult, List.zip_map_right] at hzip
  obtain ⟨⟨request', entry'⟩, hpair, heq⟩ := List.mem_map.mp hzip
  obtain ⟨rfl, rfl⟩ := Prod.mk.inj heq
  cases hentries : inner.1 with
  | nil =>
    rw [hentries] at hpair
    cases hpair
  | cons entry entries =>
    rw [hentries] at hpair htail
    rcases List.mem_cons.mp hpair with heq | hpair
    · exact absurd (Prod.mk.inj heq).1 hne
    · exact htail entry' (List.of_mem_zip hpair).2

end Clean

/-! ## The loop -/

section Loop

/-- The ids of requests are told apart. -/
def UniqueIds (all : List IndexedRequest) : Prop :=
  ∀ request ∈ all, ∀ request' ∈ all, ∀ id, request.1.id = some id → request'.1.id = some id →
    request = request'

/-- What holds of the requests that have been reached and of their entries, whether these have been
sent or wait for their place. -/
structure Clean (all : List IndexedRequest) (reached : IndexedRequest → Prop)
    (hasEntry : IndexedRequest → BatchResponseEntry → Prop) (s : BatchState σ) : Prop where
  sound : ∀ request entry, hasEntry request entry → request ∈ all ∧ reached request
  executed : ∀ index ∈ s.executed, ∃ request ∈ all, reached request ∧ request.2 = index
  entries : ∀ request entry, hasEntry request entry → ∀ groupId,
    groupOf request.1 = some groupId → groupId ∉ s.committed → 400 ≤ entry.status
  lost : UniqueIds all → ∀ request entry, hasEntry request entry →
    DependsOnLost all s.committed request → entry.status = 424 ∧ request.2 ∉ s.executed
  failed : UniqueIds all → ∀ request ∈ all, ∀ id, request.1.id = some id →
    (reached request → ∃ groupId, groupOf request.1 = some groupId ∧ groupId ∉ s.committed) →
    FailedAt s id

variable {all ran : List IndexedRequest} {reached reached' : IndexedRequest → Prop}
  {hasEntry hasEntry' added : IndexedRequest → BatchResponseEntry → Prop} {s s' : BatchState σ}

theorem Clean.congr (h : Clean all reached hasEntry s)
    (hreached : ∀ request ∈ all, reached' request ↔ reached request)
    (hentry : ∀ request entry, hasEntry' request entry → hasEntry request entry) :
    Clean all reached' hasEntry' s := by
  refine ⟨fun request entry hhas => ?_, fun index hmem => ?_,
    fun request entry hhas => h.entries request entry (hentry request entry hhas),
    fun hunique request entry hhas => h.lost hunique request entry (hentry request entry hhas),
    fun hunique request hmem id hid hlost => ?_⟩
  · obtain ⟨hmem, hold⟩ := h.sound request entry (hentry request entry hhas)
    exact ⟨hmem, (hreached request hmem).mpr hold⟩
  · obtain ⟨request, hrequest, hold, hindex⟩ := h.executed index hmem
    exact ⟨request, hrequest, (hreached request hrequest).mpr hold, hindex⟩
  · exact h.failed hunique request hmem id hid fun hold => hlost ((hreached request hmem).mpr hold)

theorem DependsOnLost.mono {committed committed' : List Text} {request : IndexedRequest}
    (h : DependsOnLost all committed' request)
    (hkept : ∀ groupId ∈ committed, groupId ∈ committed') :
    DependsOnLost all committed request := by
  obtain ⟨prior, hmem, groupId, id, hgroup, hbefore, hnot, hid, hdep⟩ := h
  exact ⟨prior, hmem, groupId, id, hgroup, hbefore, fun hc => hnot (hkept _ hc), hid, hdep⟩

/-- The result of a request of another group, which is not committed, is missing or failed. -/
theorem Clean.failedAt (h : Clean all reached hasEntry s) (hunique : UniqueIds all)
    (hsub : ∀ request ∈ ran, request ∈ all) {prior : IndexedRequest} (hmem : prior ∈ all)
    {groupId id : Text} (hprior : groupOf prior.1 = some groupId) (hnot : groupId ∉ s.committed)
    (hother : ∀ request ∈ ran, groupOf request.1 ≠ some groupId) (hid : prior.1.id = some id) :
    FailedAt s id ∧ ∀ request ∈ ran, request.1.id ≠ some id := by
  refine ⟨h.failed hunique prior hmem id hid fun _ => ⟨groupId, hprior, hnot⟩, ?_⟩
  intro request hran hsame
  obtain rfl := hunique request (hsub _ hran) prior hmem id hsame hid
  exact hother request hran hprior

/-- What one run of a request or of a group keeps. -/
theorem Clean.step (h : Clean all reached hasEntry s) (group : Option Text)
    (hindices : ∀ request ∈ all, ∀ request' ∈ all, request.2 = request'.2 → request = request')
    (hran : ∀ request ∈ ran, request ∈ all ∧ ¬ reached request ∧ groupOf request.1 = group)
    (hadded : ∀ request entry, added request entry → request ∈ ran)
    (htouches : Touches group ran ran s s')
    (hclean : ∀ groupId, group = some groupId → groupId ∉ s'.committed →
      KeepsFailed s s' ∧ ∀ request entry, added request entry → 400 ≤ entry.status)
    (hlost : UniqueIds all → ∀ request ∈ ran, DependsOnLost all s'.committed request →
      request.2 ∉ s'.executed ∧ ∀ entry, added request entry → entry.status = 424) :
    Clean all (fun request => reached request ∨ request ∈ ran)
      (fun request entry => hasEntry request entry ∨ added request entry) s' := by
  refine ⟨?_, ?_, ?_, ?_, ?_⟩
  · rintro request entry (hold | hnew)
    · obtain ⟨hmem, hreached⟩ := h.sound request entry hold
      exact ⟨hmem, .inl hreached⟩
    · exact ⟨(hran request (hadded request entry hnew)).1, .inr (hadded request entry hnew)⟩
  · intro index hmem
    rcases htouches.executed index hmem with hold | ⟨request, hrequest, hindex⟩
    · obtain ⟨request, hrequest, hreached, hindex⟩ := h.executed index hold
      exact ⟨request, hrequest, .inl hreached, hindex⟩
    · exact ⟨request, (hran request hrequest).1, .inr hrequest, hindex⟩
  · rintro request entry (hold | hnew) groupId hgroup hnot
    · exact h.entries request entry hold groupId hgroup fun hc => hnot (htouches.kept _ hc)
    · have hsame := (hran request (hadded request entry hnew)).2.2
      exact (hclean groupId (hsame.symm.trans hgroup) hnot).2 request entry hnew
  · rintro hunique request entry (hold | hnew) hdepends
    · obtain ⟨hstatus, hnot⟩ := h.lost hunique request entry hold (hdepends.mono htouches.kept)
      refine ⟨hstatus, fun hmem => ?_⟩
      rcases htouches.executed _ hmem with hbefore | ⟨request', hrequest', hindex⟩
      · exact hnot hbefore
      · obtain ⟨hall, hreached⟩ := h.sound request entry hold
        obtain ⟨hall', hfresh, -⟩ := hran request' hrequest'
        exact hfresh (hindices request' hall' request hall hindex ▸ hreached)
    · obtain ⟨hnot, hstatus⟩ :=
        hlost hunique request (hadded request entry hnew) hdepends
      exact ⟨hstatus entry hnew, hnot⟩
  · intro hunique request hmem id hid hreached
    by_cases hin : request ∈ ran
    · obtain ⟨-, hfresh, hsame⟩ := hran request hin
      obtain ⟨groupId, hgroup, hnot⟩ := hreached (.inr hin)
      refine (hclean groupId (hsame.symm.trans hgroup) hnot).1 id ?_
      exact h.failed hunique request hmem id hid fun hold => absurd hold hfresh
    · have hids : ∀ request' ∈ ran, request'.1.id ≠ some id := fun request' hrun hsame =>
        hin (hunique request' (hran request' hrun).1 request hmem id hsame hid ▸ hrun)
      refine (htouches.failedAt hids).mpr (h.failed hunique request hmem id hid fun hold => ?_)
      obtain ⟨groupId, hgroup, hnot⟩ := hreached (.inl hold)
      exact ⟨groupId, hgroup, fun hc => hnot (htouches.kept _ hc)⟩

/-! ### States of the loop -/

variable {done rest : List IndexedRequest} {request : IndexedRequest} {loop loop' : LoopState}

/-- A request has been answered, or its group has been executed. -/
def Reached (done : List IndexedRequest) (loop : LoopState) (request : IndexedRequest) : Prop :=
  request ∈ done ∨ ∃ groupId pending, groupOf request.1 = some groupId ∧
    loop.executedGroups.get groupId = some pending

/-- An entry has been given to a request, or waits for it. -/
def HasEntry (done rest : List IndexedRequest) (loop : LoopState) (request : IndexedRequest)
    (entry : BatchResponseEntry) : Prop :=
  (request, entry) ∈ done.zip loop.responses ∨
    ∃ groupId pending, loop.executedGroups.get groupId = some pending ∧
      (request, entry) ∈ (rest.filter (inGroup groupId)).zip pending

abbrev LoopClean (all done rest : List IndexedRequest) (loop : LoopState) (s : BatchState σ) :
    Prop :=
  Clean all (Reached done loop) (HasEntry done rest loop) s

theorem length_responses (h : Answered done rest loop) : done.length = loop.responses.length := by
  have hlength := congrArg List.length h.responses
  rw [entryIds, requestIds, List.length_map, List.length_map] at hlength
  exact hlength.symm

theorem filter_inGroup_of_ne {groupId : Text} (hne : groupOf request.1 ≠ some groupId) :
    (request :: rest).filter (inGroup groupId) = rest.filter (inGroup groupId) :=
  List.filter_cons_of_neg (by simp [inGroup, hne])

theorem filter_inGroup_of_eq {groupId : Text} (heq : groupOf request.1 = some groupId) :
    (request :: rest).filter (inGroup groupId) = request :: rest.filter (inGroup groupId) :=
  List.filter_cons_of_pos (by simp [inGroup, heq])

theorem not_mem_done (hindices : (all.map Prod.snd).Nodup) (hall : done ++ request :: rest = all) :
    request ∉ done := by
  intro hmem
  rw [← hall, List.map_append, List.nodup_append] at hindices
  exact hindices.2.2 request.2 (List.mem_map_of_mem hmem) request.2 (by simp) rfl

theorem increasing_rest {requests : List BatchRequest}
    (hall : done ++ request :: rest = requests.zipIdx) :
    ∀ later ∈ rest, request.2 < later.2 := by
  have hordered : requests.zipIdx.Pairwise fun a b => a.2 < b.2 := by
    have h := @List.pairwise_lt_range' 0 requests.length 1
    rw [← List.zipIdx_map_snd, List.pairwise_map] at h
    exact h
  rw [← hall] at hordered
  exact (List.pairwise_cons.mp (List.pairwise_append.mp hordered).2.1).1

theorem clean_handleSingle (hindices : (all.map Prod.snd).Nodup)
    (hall : done ++ request :: rest = all) (hanswered : Answered done (request :: rest) loop)
    (hgroup : groupOf request.1 = none) (h : LoopClean all done (request :: rest) loop s)
    (hrun : handleSingle server request loop s = (.ok loop', s')) :
    LoopClean all (done ++ [request]) rest loop' s' := by
  have hmem : request ∈ all := by
    rw [← hall]
    simp
  unfold handleSingle at hrun
  obtain ⟨⟨entries, references⟩, between, hexecute, hrest⟩ := ok_bind_iff.mp hrun
  obtain ⟨rfl, rfl⟩ := ok_pure_iff.mp hrest
  have hinjective : ∀ r ∈ all, ∀ r' ∈ all, r.2 = r'.2 → r = r' := fun r hr r' hr' heq =>
    List.inj_on_of_nodup_map hindices hr hr' heq
  suffices hstep : Clean all (fun r => Reached done loop r ∨ r ∈ [request])
      (fun r e => HasEntry done (request :: rest) loop r e ∨ (r, e) ∈ [request].zip entries)
      between by
    refine hstep.congr (fun r _ => ?_) fun r e hhas => ?_
    · rw [Reached, Reached, List.mem_append, or_right_comm]
    · dsimp only [HasEntry] at hhas
      rw [List.zip_append (length_responses hanswered)] at hhas
      rcases hhas with hhas | ⟨groupId, pending, hget, hhas⟩
      · exact (List.mem_append.mp hhas).imp_left .inl
      · refine .inl (.inr ⟨groupId, pending, hget, ?_⟩)
        rwa [filter_inGroup_of_ne (by simp [hgroup])]
  refine h.step none hinjective ?_ ?_ ?_ ?_ ?_
  · intro r hr
    rw [List.mem_singleton.mp hr]
    refine ⟨hmem, ?_, hgroup⟩
    rintro (hdone | ⟨groupId, pending, hsome, -⟩)
    · exact not_mem_done hindices hall hdone
    · rw [hgroup] at hsome
      cases hsome
  · exact fun r e hzip => (List.of_mem_zip hzip).1
  · have htouches := (@touches_executeGroup σ server none loop.references false [request] [request]
      (fun _ h => h) s trivial).1
    rwa [hexecute] at htouches
  · intro groupId hnone
    cases hnone
  · intro hunique r hr hdepends
    obtain rfl := List.mem_singleton.mp hr
    have htouches := (@touches_executeGroup σ server none loop.references false [r] [r]
      (fun _ h => h) s trivial).1
    rw [hexecute] at htouches
    obtain ⟨prior, hprior, groupId, id, hpriorGroup, -, hnot, hpriorId, hid⟩ := hdepends
    obtain ⟨hfailed, hids⟩ := h.failedAt hunique (fun r' hr' => List.mem_singleton.mp hr' ▸ hmem)
      hprior hpriorGroup (fun hc => hnot (htouches.kept _ hc))
      (fun r' hr' => by rw [List.mem_singleton.mp hr', hgroup]; exact (Option.some_ne_none _).symm)
      hpriorId
    obtain ⟨htouches, hstatus⟩ := @lost_executeGroup σ server none loop.references false r id hid
      [r] [r] (fun _ h => h) hids (fun r' hr' _ => List.mem_singleton.mp hr') s hfailed
    rw [hexecute] at htouches
    refine ⟨fun hexecuted => ?_, fun e => hstatus _ _ hexecute e⟩
    rcases htouches.executed _ hexecuted with hbefore | ⟨r', hr', -⟩
    · obtain ⟨r', hr'all, hreached, hindex⟩ := h.executed _ hbefore
      obtain rfl := hinjective r' hr'all r hmem hindex
      rcases hreached with hdone | ⟨groupId, pending, hsome, -⟩
      · exact not_mem_done hindices hall hdone
      · rw [hgroup] at hsome
        cases hsome
    · rw [List.filter_singleton, decide_eq_false (by simp), cond_false] at hr'
      cases hr'

/-- When the first of the entries of a group that wait is sent, the others still wait. -/
theorem hasEntry_pop {groupId : Text} {pending : List BatchResponseEntry}
    {references : BatchReferences} (hanswered : Answered done (request :: rest) loop)
    (hgroup : groupOf request.1 = some groupId) {r : IndexedRequest} {e : BatchResponseEntry}
    (h : HasEntry (done ++ [request]) rest ⟨loop.responses ++ pending.take 1,
      loop.executedGroups.set groupId pending.tail, references⟩ r e) :
    HasEntry done (request :: rest) loop r e ∨
      (r, e) ∈ ((request :: rest).filter (inGroup groupId)).zip pending := by
  have hzip : ((request :: rest).filter (inGroup groupId)).zip pending =
      [request].zip (pending.take 1) ++ (rest.filter (inGroup groupId)).zip pending.tail := by
    rw [filter_inGroup_of_eq hgroup]
    cases pending with
    | nil => simp
    | cons first pending => rfl
  rw [hzip]
  dsimp only [HasEntry] at h
  rw [List.zip_append (length_responses hanswered)] at h
  rcases h with h | ⟨other, waiting, hget, h⟩
  · exact (List.mem_append.mp h).imp .inl fun hfirst => List.mem_append_left _ hfirst
  · rw [Dictionary.get_set] at hget
    by_cases hother : groupId = other
    · rw [if_pos hother] at hget
      obtain rfl := Option.some.inj hget
      subst hother
      exact .inr (List.mem_append_right _ h)
    · rw [if_neg hother] at hget
      refine .inl (.inr ⟨other, waiting, hget, ?_⟩)
      rwa [filter_inGroup_of_ne (by simp [hgroup, hother])]

theorem reached_pop {groupId : Text} {pending : List BatchResponseEntry}
    {references : BatchReferences} (hgroup : groupOf request.1 = some groupId)
    (r : IndexedRequest) :
    Reached (done ++ [request]) ⟨loop.responses ++ pending.take 1,
      loop.executedGroups.set groupId pending.tail, references⟩ r ↔
    Reached done loop r ∨ groupOf r.1 = some groupId := by
  dsimp only [Reached]
  constructor
  · rintro (h | ⟨other, waiting, hother, hget⟩)
    · rcases List.mem_append.mp h with h | h
      · exact .inl (.inl h)
      · rw [List.mem_singleton.mp h]
        exact .inr hgroup
    · rw [Dictionary.get_set] at hget
      by_cases heq : groupId = other
      · exact .inr (heq ▸ hother)
      · rw [if_neg heq] at hget
        exact .inl (.inr ⟨other, waiting, hother, hget⟩)
  · rintro ((h | ⟨other, waiting, hother, hget⟩) | h)
    · exact .inl (List.mem_append_left _ h)
    · by_cases heq : groupId = other
      · exact .inr ⟨groupId, _, heq ▸ hother, Dictionary.get_set_self⟩
      · exact .inr ⟨other, waiting, hother, by rw [Dictionary.get_set_of_ne heq, hget]⟩
    · exact .inr ⟨groupId, _, h, Dictionary.get_set_self⟩

theorem clean_handleMember {requests : List BatchRequest} {groupId : Text}
    (hall : done ++ request :: rest = requests.zipIdx)
    (hindices : (requests.zipIdx.map Prod.snd).Nodup)
    (hanswered : Answered done (request :: rest) loop) (hgroup : groupOf request.1 = some groupId)
    (h : LoopClean requests.zipIdx done (request :: rest) loop s)
    (hclean : loop.executedGroups.get groupId = none → EndsCleanly server groupId
      (((collectAtomicityGroups requests).get groupId).getD []) requests.zipIdx loop.references s)
    (hrun : handleMember server groupId (((collectAtomicityGroups requests).get groupId).getD [])
      requests.zipIdx loop s = (.ok loop', s')) :
    LoopClean requests.zipIdx (done ++ [request]) rest loop' s' := by
  unfold handleMember at hrun
  have hwaiting := hanswered.waiting groupId
  cases hget : loop.executedGroups.get groupId with
  | some waiting =>
    rw [hget] at hrun
    obtain ⟨⟨pending, references⟩, between, hpending, hrest⟩ := ok_bind_iff.mp hrun
    obtain ⟨rfl, rfl⟩ := ok_pure_iff.mp hrest
    obtain ⟨heq, rfl⟩ := ok_pure_iff.mp hpending
    obtain ⟨rfl, rfl⟩ := Prod.mk.inj heq
    refine h.congr (fun r _ => ?_) fun r e hhas => ?_
    · rw [reached_pop hgroup, or_iff_left_of_imp]
      exact fun hr => .inr ⟨groupId, waiting, hr, hget⟩
    · refine (hasEntry_pop hanswered hgroup hhas).elim id fun hzip => ?_
      exact .inr ⟨groupId, waiting, hget, hzip⟩
  | none =>
    rw [hget] at hrun hwaiting
    obtain ⟨⟨pending, references⟩, between, hpending, hrest⟩ := ok_bind_iff.mp hrun
    obtain ⟨rfl, rfl⟩ := ok_pure_iff.mp hrest
    -- no request of the group has been answered, so all of them are still to come
    have hfilter : ((collectAtomicityGroups requests).get groupId).getD [] =
        (request :: rest).filter (inGroup groupId) := by
      rw [collectAtomicityGroups_get, ← hall, List.filter_append, hwaiting, List.nil_append]
    have hends := hclean hget
    rw [hfilter] at hpending hends
    have hmem {r : IndexedRequest} (hr : r ∈ (request :: rest).filter (inGroup groupId)) :
        r ∈ requests.zipIdx ∧ groupOf r.1 = some groupId := by
      rw [← hall]
      obtain ⟨hmem, hin⟩ := List.mem_filter.mp hr
      exact ⟨List.mem_append_right _ hmem, of_decide_eq_true hin⟩
    have hfresh {r : IndexedRequest} (hr : groupOf r.1 = some groupId) : ¬ Reached done loop r := by
      rintro (hdone | ⟨other, waiting, hother, hsome⟩)
      · have hnil : r ∈ done.filter (inGroup groupId) :=
          List.mem_filter.mpr ⟨hdone, decide_eq_true hr⟩
        rw [hwaiting] at hnil
        cases hnil
      · rw [hr] at hother
        rw [← Option.some.inj hother, hget] at hsome
        cases hsome
    have hinjective : ∀ r ∈ requests.zipIdx, ∀ r' ∈ requests.zipIdx, r.2 = r'.2 → r = r' :=
      fun r hr r' hr' heq => List.inj_on_of_nodup_map hindices hr hr' heq
    have hne : (request :: rest).filter (inGroup groupId) ≠ [] := by
      rw [filter_inGroup_of_eq hgroup]
      exact List.cons_ne_nil _ _
    suffices hstep : Clean requests.zipIdx
        (fun r => Reached done loop r ∨ r ∈ (request :: rest).filter (inGroup groupId))
        (fun r e => HasEntry done (request :: rest) loop r e ∨
          (r, e) ∈ ((request :: rest).filter (inGroup groupId)).zip pending) between by
      refine hstep.congr (fun r hr => ?_) fun r e hhas => hasEntry_pop hanswered hgroup hhas
      rw [reached_pop hgroup]
      refine or_congr_right ⟨fun hsome => ?_, fun hran => (hmem hran).2⟩
      have hin : r ∈ requests.zipIdx.filter (inGroup groupId) :=
        List.mem_filter.mpr ⟨hr, decide_eq_true hsome⟩
      rwa [← hall, List.filter_append, hwaiting, List.nil_append] at hin
    refine h.step (some groupId) hinjective ?_ ?_ ?_ ?_ ?_
    · exact fun r hr => ⟨(hmem hr).1, hfresh (hmem hr).2, (hmem hr).2⟩
    · exact fun r e hzip => (List.of_mem_zip hzip).1
    · have htouches := (@touches_runGroup σ server loop.references groupId
        ((request :: rest).filter (inGroup groupId)) requests.zipIdx s trivial).1
      rwa [hpending] at htouches
    · intro other hother hnot
      obtain rfl := Option.some.inj hother
      obtain ⟨hkeeps, hstatus⟩ := runGroup_clean hends hne hpending hnot
      exact ⟨hkeeps, fun r e hzip => hstatus e (List.of_mem_zip hzip).2⟩
    · intro hunique r hr hdepends
      obtain ⟨hrall, hrgroup⟩ := hmem hr
      have hkept := (@touches_runGroup σ server loop.references groupId
        ((request :: rest).filter (inGroup groupId)) requests.zipIdx s trivial).1.kept
      rw [hpending] at hkept
      have hnotBefore : r.2 ∉ s.executed := fun hbefore => by
        obtain ⟨r', hr'all, hreached, hindex⟩ := h.executed _ hbefore
        obtain rfl := hinjective r' hr'all r hrall hindex
        exact hfresh hrgroup hreached
      have hbeforeRun := hdepends.mono hkept
      obtain ⟨prior, hprior, other, id, hpriorGroup, hlater, hnot, hpriorId, hid⟩ := hdepends
      by_cases hsame : other = groupId
      · -- the request is of the same group, and not the first of it
        subst hsame
        rw [filter_inGroup_of_eq hgroup] at hends hpending hr ⊢
        have hfirst : request.2 ≤ prior.2 := by
          rcases List.mem_append.mp (hall ▸ hprior) with hdone | hprior
          · exact absurd (.inl hdone) (hfresh hpriorGroup)
          · rcases List.mem_cons.mp hprior with rfl | hprior
            · exact Nat.le_refl _
            · exact Nat.le_of_lt (increasing_rest hall prior hprior)
        have hne' : r ≠ request := by
          rintro rfl
          exact absurd (Nat.lt_of_lt_of_le hlater hfirst) (Nat.lt_irrefl _)
        obtain ⟨htouches, hstatus⟩ := runGroup_inner hends hr hbeforeRun hpending hnot
        refine ⟨fun hexecuted => ?_, fun e hzip => hstatus r e hzip hne'⟩
        rcases htouches.executed _ hexecuted with hbefore | ⟨r', hr', hindex⟩
        · exact hnotBefore hbefore
        · rw [List.mem_singleton.mp hr'] at hindex
          exact hne' (hinjective r hrall request (by rw [← hall]; simp) hindex.symm)
      · obtain ⟨hfailed, hids⟩ := h.failedAt hunique (fun r' hr' => (hmem hr').1) hprior hpriorGroup
          (fun hc => hnot (hkept _ hc))
          (fun r' hr' heq => hsame (Option.some.inj (heq.symm.trans (hmem hr').2))) hpriorId
        obtain ⟨htouches, hstatus⟩ := runGroup_lost hends hr hbeforeRun hid hfailed hids
          (fun r' hr' heq => hinjective r' (hmem hr').1 r hrall heq) hpending
        refine ⟨fun hexecuted => ?_, hstatus⟩
        rcases htouches.executed _ hexecuted with hbefore | ⟨r', hr', hindex⟩
        · exact hnotBefore hbefore
        · exact of_decide_eq_true (List.mem_filter.mp hr').2 hindex

/-- The request that the loop has come to. -/
def handleNext (server : BatchServer σ) (changeSets : Dictionary Text (List IndexedRequest))
    (requests : List IndexedRequest) (request : IndexedRequest) (loop : LoopState) :
    BatchM σ LoopState :=
  match groupOf request.1 with
  | some groupId =>
    handleMember server groupId ((changeSets.get groupId).getD []) requests loop
  | none => handleSingle server request loop

/-- Every group that the loop comes to ends cleanly. -/
def RunsCleanly (server : BatchServer σ) (changeSets : Dictionary Text (List IndexedRequest))
    (requests : List IndexedRequest) : List IndexedRequest → LoopState → BatchState σ → Prop
  | [], _, _ => True
  | request :: rest, loop, s =>
    (∀ groupId, groupOf request.1 = some groupId → loop.executedGroups.get groupId = none →
      EndsCleanly server groupId ((changeSets.get groupId).getD []) requests loop.references s) ∧
    ∀ loop' s', handleNext server changeSets requests request loop s = (.ok loop', s') →
      RunsCleanly server changeSets requests rest loop' s'

theorem handleEach_cons (changeSets : Dictionary Text (List IndexedRequest))
    (requests rest : List IndexedRequest) (request : IndexedRequest) (loop : LoopState) :
    handleEach server changeSets requests (request :: rest) loop =
      handleNext server changeSets requests request loop >>=
        handleEach server changeSets requests rest := by
  rw [handleEach, handleNext]
  cases groupOf request.1 <;> rfl

theorem clean_handleEach {requests : List BatchRequest}
    (hindices : (requests.zipIdx.map Prod.snd).Nodup) (hall : done ++ rest = requests.zipIdx)
    (hanswered : Answered done rest loop) (h : LoopClean requests.zipIdx done rest loop s)
    (hclean : RunsCleanly server (collectAtomicityGroups requests) requests.zipIdx rest loop s)
    (hrun : handleEach server (collectAtomicityGroups requests) requests.zipIdx rest loop s =
      (.ok loop', s')) : LoopClean requests.zipIdx requests.zipIdx [] loop' s' := by
  induction rest generalizing done loop s with
  | nil =>
    obtain ⟨rfl, rfl⟩ := ok_pure_iff.mp hrun
    rw [List.append_nil] at hall
    rwa [← hall] at h ⊢
  | cons request rest ih =>
    rw [handleEach_cons] at hrun
    obtain ⟨loop'', between, hnext, hrest⟩ := ok_bind_iff.mp hrun
    obtain ⟨hends, hruns⟩ := hclean
    have hruns' := hruns loop'' between hnext
    have hall' : done ++ [request] ++ rest = requests.zipIdx := by
      rw [List.append_assoc]
      exact hall
    unfold handleNext at hnext
    cases hgroup : groupOf request.1 with
    | none =>
      rw [hgroup] at hnext
      exact ih hall' (handleSingle_answered hanswered hgroup s loop'' between hnext)
        (clean_handleSingle hindices hall hanswered hgroup h hnext) hruns' hrest
    | some groupId =>
      rw [hgroup] at hnext
      exact ih hall' (handleMember_answered hall hanswered hgroup s loop'' between hnext)
        (clean_handleMember hall hindices hanswered hgroup h (hends groupId hgroup) hnext)
        hruns' hrest

end Loop

/-! ## Ids of admitted requests -/

theorem uniqueIds_of_idPositions {requests : List IndexedRequest}
    {positions positions' : Dictionary Text Nat}
    (h : idPositions requests positions = .ok positions') :
    (∀ request ∈ requests, ∀ id, request.1.id = some id → positions.get id = none) ∧
      UniqueIds requests := by
  induction requests generalizing positions with
  | nil => exact ⟨fun _ h => absurd h List.not_mem_nil, fun _ h => absurd h List.not_mem_nil⟩
  | cons first requests ih =>
    obtain ⟨request, index⟩ := first
    unfold idPositions at h
    cases hid : request.id with
    | none =>
      rw [hid] at h
      obtain ⟨hnone, hunique⟩ := ih h
      have hfirst {id : Text} : (request, index).1.id ≠ some id := by simp [hid]
      refine ⟨fun r hr id hsome => ?_, fun r hr r' hr' id hsome hsome' => ?_⟩
      · rcases List.mem_cons.mp hr with rfl | hr
        · exact absurd hsome hfirst
        · exact hnone r hr id hsome
      · rcases List.mem_cons.mp hr with rfl | hr
        · exact absurd hsome hfirst
        · rcases List.mem_cons.mp hr' with rfl | hr'
          · exact absurd hsome' hfirst
          · exact hunique r hr r' hr' id hsome hsome'
    | some own =>
      rw [hid] at h
      dsimp only at h
      split at h
      · cases h
      · next hhas =>
        obtain ⟨hnone, hunique⟩ := ih h
        have hown {id : Text} (hsome : (request, index).1.id = some id) : own = id :=
          Option.some.inj (hid.symm.trans hsome)
        have hrest {r : IndexedRequest} (hr : r ∈ requests) {id : Text} (hsome : r.1.id = some id) :
            own ≠ id ∧ positions.get id = none := by
          have hget := hnone r hr id hsome
          rw [Dictionary.get_set] at hget
          split at hget
          · cases hget
          · next hne => exact ⟨hne, hget⟩
        refine ⟨fun r hr id hsome => ?_, fun r hr r' hr' id hsome hsome' => ?_⟩
        · rcases List.mem_cons.mp hr with rfl | hr
          · rw [← hown hsome]
            exact Dictionary.has_eq_false_iff.mp (by simpa using hhas)
          · exact (hrest hr hsome).2
        · rcases List.mem_cons.mp hr with rfl | hr
          · rcases List.mem_cons.mp hr' with rfl | hr'
            · rfl
            · exact absurd (hown hsome) (hrest hr' hsome').1
          · rcases List.mem_cons.mp hr' with rfl | hr'
            · exact absurd (hown hsome') (hrest hr hsome).1
            · exact hunique r hr r' hr' id hsome hsome'

theorem sanitizeRequest_dependsOn {request sanitized : BatchRequest}
    (h : sanitizeRequest request = .ok sanitized) (hnone : request.dependsOn = none) :
    sanitized.dependsOn = none := by
  obtain ⟨id, _, h⟩ := Outcome.bind_eq_ok.mp h
  obtain ⟨group, _, h⟩ := Outcome.bind_eq_ok.mp h
  rw [hnone] at h
  rw [← Except.ok.inj h]

theorem sanitizeBatchRequestIdentifiers_dependsOn {requests sanitized : List BatchRequest}
    (h : sanitizeBatchRequestIdentifiers requests = .ok sanitized)
    (hnone : ∀ request ∈ requests, request.dependsOn = none) :
    ∀ request ∈ sanitized, request.dependsOn = none := by
  induction requests generalizing sanitized with
  | nil =>
    rw [← Except.ok.inj h]
    exact fun _ h => absurd h List.not_mem_nil
  | cons request requests ih =>
    obtain ⟨first, hfirst, h⟩ := Outcome.bind_eq_ok.mp h
    obtain ⟨rest, hrest, h⟩ := Outcome.bind_eq_ok.mp h
    rw [← Except.ok.inj h]
    intro request' hmem
    rcases List.mem_cons.mp hmem with rfl | hmem
    · exact sanitizeRequest_dependsOn hfirst (hnone request List.mem_cons_self)
    · exact ih hrest (fun r hr => hnone r (List.mem_cons_of_mem _ hr)) request' hmem

/-- The requests of a JSON batch have ids of their own; those of a multipart batch depend on
nothing. -/
theorem admitted_cases {payload : BatchPayload} {parsed admitted : List BatchRequest}
    (hread : readPayload server payload = .ok parsed)
    (hadmitted : admitPayload server payload parsed = .ok admitted) :
    UniqueIds admitted.zipIdx ∨ ∀ request ∈ admitted, request.dependsOn = none := by
  cases payload with
  | json payload =>
    obtain ⟨_, _, h⟩ := Outcome.bind_eq_ok.mp hadmitted
    obtain ⟨_, _, h⟩ := Outcome.bind_eq_ok.mp h
    obtain ⟨sanitized, hsanitized, h⟩ := Outcome.bind_eq_ok.mp h
    obtain ⟨_, hdependsOn, h⟩ := Outcome.bind_eq_ok.mp h
    obtain ⟨_, _, h⟩ := Outcome.bind_eq_ok.mp h
    obtain ⟨_, _, h⟩ := Outcome.bind_eq_ok.mp h
    obtain rfl := Except.ok.inj h
    obtain ⟨positions, hpositions, -⟩ := Outcome.bind_eq_ok.mp hdependsOn
    exact .inl (uniqueIds_of_idPositions hpositions).2
  | multipart boundary chunks =>
    refine .inr ?_
    obtain ⟨_, _, h⟩ := Outcome.bind_eq_ok.mp hadmitted
    refine sanitizeBatchRequestIdentifiers_dependsOn h fun request hmem => ?_
    cases boundary with
    | none => cases hread
    | some boundary =>
      unfold readPayload at hread
      dsimp only at hread
      split at hread
      · cases hread
      · split at hread
        · cases hread
        · split at hread
          · cases hread
          · rw [← Except.ok.inj hread] at hmem
            obtain ⟨parsedRequest, -, rfl⟩ := List.mem_map.mp hmem
            rfl

/-! ## Batches -/

/-- Every entry of a group says a failure, and no later request that depends on one of its requests
is executed. -/
structure LooksFailed (requests : List IndexedRequest) (responses : List BatchResponseEntry)
    (s : BatchState σ) (groupId : Text) : Prop where
  members : ∀ request entry, (request, entry) ∈ requests.zip responses →
    groupOf request.1 = some groupId → 400 ≤ entry.status
  dependants : ∀ request entry, (request, entry) ∈ requests.zip responses →
    (∃ prior ∈ requests, groupOf prior.1 = some groupId ∧ prior.2 < request.2 ∧
      ∃ id, prior.1.id = some id ∧ id ∈ request.1.dependsOn.getD []) →
    entry.status = 424 ∧ request.2 ∉ s.executed

theorem looksFailed_of_clean {requests : List IndexedRequest} {loop : LoopState} {s : BatchState σ}
    (h : LoopClean requests requests [] loop s)
    (hids : UniqueIds requests ∨ ∀ request ∈ requests, request.1.dependsOn = none) {groupId : Text}
    (hnot : groupId ∉ s.committed) : LooksFailed requests loop.responses s groupId := by
  refine ⟨fun request entry hzip hgroup => h.entries request entry (.inl hzip) groupId hgroup hnot,
    fun request entry hzip hdepends => ?_⟩
  obtain ⟨prior, hmem, hgroup, hbefore, id, hid, hdep⟩ := hdepends
  rcases hids with hunique | hnone
  · exact h.lost hunique request entry (.inl hzip)
      ⟨prior, hmem, groupId, id, hgroup, hbefore, hnot, hid, hdep⟩
  · rw [hnone request (List.of_mem_zip hzip).1] at hdep
    cases hdep

theorem clean_start (requests : List IndexedRequest) {s : BatchState σ}
    (hresults : s.dependencyResults = .empty) (hexecuted : s.executed = []) :
    LoopClean requests [] requests ⟨[], .empty, ⟨.empty, .empty⟩⟩ s := by
  refine ⟨?_, ?_, ?_, ?_, ?_⟩
  · rintro request entry (h | ⟨groupId, pending, hget, -⟩)
    · cases h
    · cases hget
  · intro index hmem
    rw [hexecuted] at hmem
    cases hmem
  · rintro request entry (h | ⟨groupId, pending, hget, -⟩)
    · cases h
    · cases hget
  · rintro - request entry (h | ⟨groupId, pending, hget, -⟩)
    · cases h
    · cases hget
  · intro _ request _ id _ _ entry hget
    rw [hresults] at hget
    cases hget

/-- Where every group ends cleanly, groups that are not committed look failed. -/
theorem handleBatch_looksFailed (server : BatchServer σ) (declared : Option Rat)
    (payload : BatchPayload) (random : Text) (randoms : List Text) (world : σ)
    (hclean : ∀ parsed admitted, readPayload server payload = .ok parsed →
      admitPayload server payload parsed = .ok admitted →
      RunsCleanly server (collectAtomicityGroups admitted) admitted.zipIdx admitted.zipIdx
        ⟨[], .empty, ⟨.empty, .empty⟩⟩ (initialState server payload world))
    {result : BatchResult} {final : BatchState σ}
    (hrun : handleBatch server declared payload random randoms (initialState server payload world) =
      (.ok result, final)) :
    ∃ parsed admitted responses, readPayload server payload = .ok parsed ∧
      admitPayload server payload parsed = .ok admitted ∧
      result = serializeResponses server payload.isMultipart random randoms responses ∧
      responses.length = admitted.length ∧
      ∀ groupId, groupId ∉ final.committed →
        LooksFailed admitted.zipIdx responses final groupId := by
  unfold handleBatch at hrun
  obtain ⟨_, s1, h1, hrun⟩ := ok_bind_iff.mp hrun
  obtain ⟨_, rfl⟩ := ok_ofExcept_iff.mp h1
  obtain ⟨_, s2, h2, hrun⟩ := ok_bind_iff.mp hrun
  obtain ⟨_, rfl⟩ := ok_ofExcept_iff.mp h2
  obtain ⟨parsed, s3, h3, hrun⟩ := ok_bind_iff.mp hrun
  obtain ⟨hread, rfl⟩ := ok_ofExcept_iff.mp h3
  obtain ⟨responses, s4, hparsed, hrun⟩ := ok_bind_iff.mp hrun
  obtain ⟨rfl, rfl⟩ := ok_pure_iff.mp hrun
  unfold handleParsed at hparsed
  obtain ⟨admitted, s5, h5, hrequests⟩ := ok_bind_iff.mp hparsed
  obtain ⟨hadmitted, rfl⟩ := ok_ofExcept_iff.mp h5
  have hlength := congrArg List.length (handleRequests_ids server admitted _ responses _ hrequests)
  rw [entryIds, List.length_map, List.length_map] at hlength
  refine ⟨parsed, admitted, responses, hread, hadmitted, rfl, hlength, ?_⟩
  unfold handleRequests at hrequests
  obtain ⟨_, s6, h6, hrequests⟩ := ok_bind_iff.mp hrequests
  obtain ⟨_, rfl⟩ := ok_ofExcept_iff.mp h6
  obtain ⟨_, s7, h7, hrequests⟩ := ok_bind_iff.mp hrequests
  obtain ⟨_, rfl⟩ := ok_ofExcept_iff.mp h7
  obtain ⟨loop, between, heach, hrequests⟩ := ok_bind_iff.mp hrequests
  obtain ⟨_, last, hadvance, hrequests⟩ := ok_bind_iff.mp hrequests
  obtain ⟨rfl, rfl⟩ := ok_pure_iff.mp hrequests
  have hindices : (admitted.zipIdx.map Prod.snd).Nodup := by
    rw [List.zipIdx_map_snd]
    exact List.nodup_range'
  have hloop := clean_handleEach hindices (List.nil_append _) ⟨rfl, fun _ => rfl⟩
    (clean_start admitted.zipIdx rfl rfl) (hclean parsed admitted hread hadmitted) heach
  have hsame : last.committed = between.committed ∧ last.executed = between.executed := by
    unfold advance at hadvance
    dsimp only at hadvance
    cases htracker : finalizeResponseSizeTracker between.tracker with
    | error e =>
      rw [htracker] at hadvance
      cases hadvance
    | ok tracker =>
      rw [htracker] at hadvance
      obtain ⟨-, rfl⟩ := Prod.mk.inj hadvance
      exact ⟨rfl, rfl⟩
  intro groupId hnot
  rw [hsame.1] at hnot
  have hlooks := looksFailed_of_clean hloop ((admitted_cases hread hadmitted).imp_right
    fun hnone request hmem => hnone request.1 (List.fst_mem_of_mem_zipIdx hmem)) hnot
  refine ⟨hlooks.members, fun request entry hzip hdepends => ?_⟩
  rw [hsame.2]
  exact hlooks.dependants request entry hzip hdepends

end RolledBack

/-! ## Orders and customers -/

def tradeService : BatchService where
  rt := { Runtime.ascii with statusText := fun _ => [] }
  basePath := some "/odata".toList
  rootRouteNames := []
  namespaces := []
  registry := [⟨"Orders".toList, ["id".toList], fun _ => none, []⟩,
    ⟨"Customers".toList, ["id".toList], fun _ => none, []⟩]
  parseUrl _ := none
  stringOf _ := []
  numberText _ := none

def unlimited : NormalizedBatchLimits where
  maxPayloadBytes := none
  maxOperations := none
  maxChangesetOperations := none
  maxDepth := none
  maxPartBodyBytes := none
  maxResponseBodyBytes := none
  maxResponsePayloadBytes := none

/-- Orders are created, customers are not. -/
def tradeServer : BatchServer Unit where
  service := tradeService
  handleRequest request _ :=
    if request.url = "/odata/Orders".toList then (.finished 201 [] [], ())
    else (.finished 400 [] [], ())
  openTransaction groupId _ _ := (.ok groupId, ())
  commit _ _ := (.ok (), ())
  rollback _ _ := (.ok (), ())
  limits := unlimited
  depth := 0
  parentHeaders := []
  allowedSubRequestHeaders := []
  correlation := none
  serverOrigin := []
  resolveUrl _ := none

theorem executeSingle_of_handler {σ : Type} {server : BatchServer σ} {transaction : Option Text}
    {request : IndexedRequest} {entry : BatchResponseEntry} {s s' : BatchState σ}
    (h : executeWithHandler server transaction request s = (.ok entry, s'))
    (hredirect : redirectTarget server request.1 entry = none) :
    executeSingle server transaction request s = (.ok entry, s') := by
  rw [executeSingle, executeWithRedirects, bind_apply, h]
  dsimp only
  rw [hredirect]
  rfl

def createRequest (id url : String) : BatchRequest where
  id := some id.toList
  atomicityGroup := some "g1".toList
  method := "POST".toList
  url := url.toList
  headers := none
  body := none
  rawBody := none
  dependsOn := none

def readRequest (id url dependency : String) : BatchRequest :=
  { createRequest id url with
    atomicityGroup := none, method := "GET".toList, dependsOn := some [dependency.toList] }

def requestValue (request : BatchRequest) : Json.Value :=
  .obj ([("id".toList, .str (request.id.getD [])), ("method".toList, .str request.method),
      ("url".toList, .str request.url)] ++
    (request.atomicityGroup.toList.map fun group => ("atomicityGroup".toList, .str group)) ++
    request.dependsOn.toList.map fun ids => ("dependsOn".toList, .arr (ids.map .str)))

def batchOf (requests : List BatchRequest) : BatchPayload :=
  .json (.obj [("requests".toList, .arr (requests.map requestValue))])

def sentStatuses (result : Except Thrown BatchResult) : Option (List (Option Text × Nat)) :=
  match result with
  | .ok (.json entries) => some (entries.map fun entry => (entry.atomicityGroup, entry.status))
  | _ => none

/-- The customer cannot be created. -/
def earlyFailure : List BatchRequest :=
  [createRequest "1" "/odata/Customers", createRequest "2" "/odata/Orders",
    readRequest "3" "/odata/Orders" "2"]

def lateFailure : List BatchRequest :=
  [createRequest "1" "/odata/Orders", createRequest "2" "/odata/Customers",
    readRequest "3" "/odata/Orders" "1"]

theorem runsCleanly_earlyFailure :
    RunsCleanly tradeServer (collectAtomicityGroups earlyFailure) earlyFailure.zipIdx
      earlyFailure.zipIdx ⟨[], .empty, ⟨.empty, .empty⟩⟩
      (initialState tradeServer (batchOf earlyFailure) ()) := by
  refine ⟨fun groupId hgroup _ => ?_, fun loop s hnext => ⟨fun groupId hgroup hnone => ?_,
    fun loop' s' _ => ⟨fun groupId hgroup => ?_, fun _ _ _ => trivial⟩⟩⟩
  · obtain rfl : "g1".toList = groupId := Option.some.inj hgroup
    refine ⟨fun _ transaction s' hcreate first hfirst => ?_, fun e s' hthrown => ?_, ?_⟩
    · obtain rfl : (createRequest "1" "/odata/Customers", 0) = first := Option.some.inj hfirst
      rintro ⟨-, prepared, entry, s'', hprepared, hsingle, hstatus⟩
      obtain rfl : createRequest "1" "/odata/Customers" = prepared := Except.ok.inj hprepared
      have hhandler := @executeSingle_of_handler Unit tradeServer transaction
        (createRequest "1" "/odata/Customers", 0)
        ⟨some "1".toList, none, 400, some [], .undefined⟩ s' _ rfl rfl
      have hentry := Except.ok.inj (Prod.mk.inj (hhandler.symm.trans hsingle)).1
      rw [← hentry] at hstatus
      exact absurd hstatus (by decide)
    · have hok : (executeAtomicGroup tradeServer "g1".toList
          (((collectAtomicityGroups earlyFailure).get "g1".toList).getD []) earlyFailure.zipIdx
          ⟨.empty, .empty⟩ (initialState tradeServer (batchOf earlyFailure) ())).1.isOk = true := by
        decide +kernel
      rw [hthrown] at hok
      cases hok
    · rintro ⟨request, hmem, _, _, _, id, -, -, -, -, hdep⟩
      have hnone : ∀ request ∈ ((collectAtomicityGroups earlyFailure).get "g1".toList).getD [],
          request.1.dependsOn = none := by decide
      rw [hnone request hmem] at hdep
      cases hdep
  · obtain rfl : "g1".toList = groupId := Option.some.inj hgroup
    have hsome : ((handleNext tradeServer (collectAtomicityGroups earlyFailure)
        earlyFailure.zipIdx (createRequest "1" "/odata/Customers", 0)
        ⟨[], .empty, ⟨.empty, .empty⟩⟩
        (initialState tradeServer (batchOf earlyFailure) ())).1.toOption.all fun loop =>
          (loop.executedGroups.get "g1".toList).isSome) = true := by decide +kernel
    have hloop : (loop.executedGroups.get "g1".toList).isSome = true := by
      rw [show handleNext tradeServer _ _ _ _ _ = _ from hnext] at hsome
      exact hsome
    rw [hnone] at hloop
    cases hloop
  · cases hgroup

theorem ok_of_sentStatuses {r : Except Thrown BatchResult × BatchState Unit}
    {statuses : List (Option Text × Nat)} (h : sentStatuses r.1 = some statuses) :
    ∃ entries, r = (.ok (.json entries), r.2) ∧
      entries.map (fun entry => (entry.atomicityGroup, entry.status)) = statuses := by
  obtain ⟨result, s⟩ := r
  cases result with
  | error e => cases h
  | ok result =>
    cases result with
    | json entries => exact ⟨entries, rfl, Option.some.inj h⟩
    | multipart boundary body => cases h

theorem handleBatch_looksFailed_early :
    ∃ entries final, handleBatch tradeServer none (batchOf earlyFailure) [] []
        (initialState tradeServer (batchOf earlyFailure) ()) = (.ok (.json entries), final) ∧
      ∃ responses : List BatchResponseEntry, responses.length = earlyFailure.length ∧
        LooksFailed earlyFailure.zipIdx responses final "g1".toList := by
  have hstatuses : sentStatuses (handleBatch tradeServer none (batchOf earlyFailure) [] []
      (initialState tradeServer (batchOf earlyFailure) ())).1 =
        some [(some "g1".toList, 400), (some "g1".toList, 424), (none, 424)] := by decide +kernel
  obtain ⟨entries, hrun, -⟩ := ok_of_sentStatuses hstatuses
  refine ⟨entries, _, hrun, ?_⟩
  have hread' : readPayload tradeServer (batchOf earlyFailure) = .ok earlyFailure := rfl
  have hadmitted' : admitPayload tradeServer (batchOf earlyFailure) earlyFailure =
    .ok earlyFailure := rfl
  obtain ⟨parsed, admitted, responses, hread, hadmitted, -, hlength, hall⟩ :=
    handleBatch_looksFailed tradeServer none (batchOf earlyFailure) [] [] ()
      (fun parsed admitted hread hadmitted => by
        obtain rfl := Except.ok.inj (hread'.symm.trans hread)
        obtain rfl := Except.ok.inj (hadmitted'.symm.trans hadmitted)
        exact runsCleanly_earlyFailure) hrun
  obtain rfl := Except.ok.inj (hread'.symm.trans hread)
  obtain rfl := Except.ok.inj (hadmitted'.symm.trans hadmitted)
  refine ⟨responses, hlength, hall "g1".toList ?_⟩
  decide +kernel

/-- The order that is created before the customer fails is sent as created, and the request that
depends on it is executed. -/
theorem not_handleBatch_looksFailed :
    ∃ entries final, handleBatch tradeServer none (batchOf lateFailure) [] []
        (initialState tradeServer (batchOf lateFailure) ()) = (.ok (.json entries), final) ∧
      "g1".toList ∉ final.committed ∧
      (∃ entry ∈ entries, entry.atomicityGroup = some "g1".toList ∧ entry.status < 400) ∧
      lateFailure.zipIdx[2]? = some (readRequest "3" "/odata/Orders" "1", 2) ∧
      2 ∈ final.executed := by
  have hstatuses : sentStatuses (handleBatch tradeServer none (batchOf lateFailure) [] []
      (initialState tradeServer (batchOf lateFailure) ())).1 =
        some [(some "g1".toList, 201), (some "g1".toList, 400), (none, 201)] := by decide +kernel
  obtain ⟨entries, hrun, hentries⟩ := ok_of_sentStatuses hstatuses
  refine ⟨entries, _, hrun, by decide +kernel, ?_, rfl, by decide +kernel⟩
  have hmem : (some "g1".toList, 201) ∈ entries.map fun entry =>
      (entry.atomicityGroup, entry.status) := by
    rw [hentries]
    exact List.mem_cons_self
  obtain ⟨entry, hentry, heq⟩ := List.mem_map.mp hmem
  obtain ⟨hgroup, hstatus⟩ := Prod.mk.inj heq
  exact ⟨entry, hentry, hgroup, by omega⟩
end LoopbackOData
