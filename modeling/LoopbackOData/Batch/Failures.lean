import LoopbackOData.Batch.Responses

/-!
# Requests that fail

What a request, a group of requests and a changeset leave of the state of the batch: which results
they record, which requests they execute and which group they commit.
-/

set_option autoImplicit false

namespace LoopbackOData

open Effect

section Failures

variable {σ : Type} {server : BatchServer σ}

/-! ## What a part of the loop changes -/

/-- No response below 400 is recorded under an id. -/
def FailedAt (s : BatchState σ) (id : Text) : Prop :=
  ∀ entry, s.dependencyResults.get id = some entry → 400 ≤ entry.status

/-- A request depends on one that has not succeeded. -/
def Lost (request : IndexedRequest) (s : BatchState σ) : Prop :=
  ∃ id ∈ request.1.dependsOn.getD [], FailedAt s id

/-- Results of requests that are `named` are recorded, requests that are `ran` are executed, and a
group may be committed. -/
structure Touches (group : Option Text) (named ran : List IndexedRequest)
    (s s' : BatchState σ) : Prop where
  committed : ∀ groupId ∈ s'.committed, groupId ∈ s.committed ∨ group = some groupId
  kept : ∀ groupId ∈ s.committed, groupId ∈ s'.committed
  executed : ∀ index ∈ s'.executed, index ∈ s.executed ∨ ∃ request ∈ ran, request.2 = index
  results : ∀ id, (∀ request ∈ named, request.1.id ≠ some id) →
    s'.dependencyResults.get id = s.dependencyResults.get id

/-- What has failed or is missing stays so. -/
def KeepsFailed (s s' : BatchState σ) : Prop := ∀ id, FailedAt s id → FailedAt s' id

section Touches

variable {group : Option Text} {named ran : List IndexedRequest} {s s' s'' : BatchState σ}

theorem Touches.refl (s : BatchState σ) : Touches group named ran s s :=
  ⟨fun _ h => .inl h, fun _ h => h, fun _ h => .inl h, fun _ _ => rfl⟩

theorem Touches.trans (h : Touches group named ran s s') (h' : Touches group named ran s' s'') :
    Touches group named ran s s'' := by
  refine ⟨fun groupId hmem => ?_, fun groupId hmem => h'.kept _ (h.kept _ hmem),
    fun index hmem => ?_, fun id hid => (h'.results id hid).trans (h.results id hid)⟩
  · exact (h'.committed _ hmem).elim (h.committed _) .inr
  · exact (h'.executed _ hmem).elim (h.executed _) .inr

theorem Touches.mono {group' : Option Text} {named' ran' : List IndexedRequest}
    (h : Touches group named ran s s') (hgroup : group = none ∨ group = group')
    (hnamed : ∀ request ∈ named, request ∈ named') (hran : ∀ request ∈ ran, request ∈ ran') :
    Touches group' named' ran' s s' := by
  refine ⟨fun groupId hmem => ?_, h.kept, fun index hmem => ?_, fun id hid => ?_⟩
  · refine (h.committed _ hmem).imp_right fun hsome => ?_
    rcases hgroup with rfl | rfl
    · cases hsome
    · exact hsome
  · exact (h.executed _ hmem).imp_right fun ⟨request, hrequest, hindex⟩ =>
      ⟨request, hran request hrequest, hindex⟩
  · exact h.results id fun request hrequest => hid request (hnamed request hrequest)

theorem Touches.of_index {request request' : IndexedRequest}
    (h : Touches group named [request] s s') (hindex : request.2 = request'.2) :
    Touches group named [request'] s s' := by
  refine ⟨h.committed, h.kept, fun index hmem => ?_, h.results⟩
  refine (h.executed index hmem).imp_right ?_
  rintro ⟨_, hrequest, rfl⟩
  rw [List.mem_singleton.mp hrequest]
  exact ⟨request', List.mem_singleton_self request', hindex.symm⟩

theorem Touches.failedAt (h : Touches group named ran s s') {id : Text}
    (hid : ∀ request ∈ named, request.1.id ≠ some id) : FailedAt s' id ↔ FailedAt s id := by
  rw [FailedAt, FailedAt, h.results id hid]

/-- A state that differs in the world, the sizes and the rollback only. -/
theorem Touches.of_eq (hresults : s'.dependencyResults = s.dependencyResults)
    (hexecuted : s'.executed = s.executed) (hcommitted : s'.committed = s.committed) :
    Touches group named ran s s' := by
  refine ⟨fun _ hmem => .inl (hcommitted ▸ hmem), fun _ hmem => hcommitted ▸ hmem,
    fun _ hmem => .inl (hexecuted ▸ hmem), fun _ _ => by rw [hresults]⟩

theorem KeepsFailed.of_eq (hresults : s'.dependencyResults = s.dependencyResults) :
    KeepsFailed s s' := by
  intro id h entry hget
  rw [hresults] at hget
  exact h entry hget

end Touches

/-! ## One request -/

/-- An entry may have been recorded for a request. -/
structure Records (request : BatchRequest) (entry : BatchResponseEntry) (s s' : BatchState σ) :
    Prop where
  committed : s'.committed = s.committed
  executed : s'.executed = s.executed
  others : ∀ id, request.id ≠ some id → s'.dependencyResults.get id = s.dependencyResults.get id
  own : ∀ id, request.id = some id → s'.dependencyResults.get id = s.dependencyResults.get id ∨
    s'.dependencyResults.get id = some entry

section Request

variable {request : IndexedRequest} {entry : BatchResponseEntry} {s s' s'' : BatchState σ}

theorem Records.refl {request : BatchRequest} (s : BatchState σ) : Records request entry s s :=
  ⟨rfl, rfl, fun _ _ => rfl, fun _ _ => .inl rfl⟩

theorem Records.trans {request : BatchRequest} (h : Records request entry s s')
    (h' : Records request entry s' s'') : Records request entry s s'' := by
  refine ⟨h'.committed.trans h.committed, h'.executed.trans h.executed,
    fun id hid => (h'.others id hid).trans (h.others id hid), fun id hid => ?_⟩
  rcases h'.own id hid with heq | heq
  · rw [heq]
    exact h.own id hid
  · exact .inr heq

theorem Records.touches {group : Option Text} {ran : List IndexedRequest}
    (h : Records request.1 entry s s') : Touches group [request] ran s s' := by
  refine ⟨fun _ hmem => .inl (h.committed ▸ hmem), fun _ hmem => h.committed ▸ hmem,
    fun _ hmem => .inl (h.executed ▸ hmem), fun id hid => h.others id ?_⟩
  exact hid request (List.mem_singleton_self request)

theorem Records.keepsFailed {request : BatchRequest} (h : Records request entry s s')
    (hstatus : 400 ≤ entry.status) : KeepsFailed s s' := by
  intro id hfailed entry' hget
  by_cases hid : request.id = some id
  · rcases h.own id hid with heq | heq
    · exact hfailed entry' (heq ▸ hget)
    · rw [heq] at hget
      rw [← Option.some.inj hget]
      exact hstatus
  · exact hfailed entry' ((h.others id hid) ▸ hget)

theorem triple_track : Triple (Records request.1 entry) (fun _ => True)
    (track server entry : BatchM σ PUnit) fun _ _ => True := by
  refine triple_advance Records.refl fun s s' _ hstep => ⟨?_, trivial⟩
  cases htrack : trackResponseSize server.service.rt s.tracker entry with
  | error e =>
    rw [htrack] at hstep
    cases hstep
  | ok tracker =>
    rw [htrack] at hstep
    rw [← Except.ok.inj hstep]
    exact ⟨rfl, rfl, fun _ _ => rfl, fun _ _ => .inl rfl⟩

theorem triple_recordDependency : Triple (Records request.1 entry) (fun _ => True)
    (recordDependency request.1 entry : BatchM σ PUnit) fun _ _ => True := by
  refine triple_modify fun s _ => ⟨?_, trivial⟩
  cases hid : request.1.id with
  | none => exact Records.refl s
  | some id =>
    dsimp only
    split
    · exact Records.refl s
    · refine ⟨rfl, rfl, fun id' hne => ?_, fun id' heq => ?_⟩
      · exact Dictionary.get_set_of_ne fun heq => hne (hid.trans (congrArg some heq))
      · rw [hid] at heq
        obtain rfl := Option.some.inj heq
        exact .inr Dictionary.get_set_self

/-- The entry of a request is recorded. -/
theorem record_run {α : Type} (server : BatchServer σ) (request : IndexedRequest)
    (entry : BatchResponseEntry) {k : PUnit → BatchM σ α} {Q : α → Prop}
    (hk : ∀ s, (k ⟨⟩ s).2 = s) (hreturns : Returns (k ⟨⟩) Q) (s : BatchState σ) :
    ∃ result s', (track server entry >>= fun _ => recordDependency request.1 entry >>= k) s =
        (result, s') ∧
      Records request.1 entry s s' ∧ ∀ r, result = .ok r → Q r := by
  have htrans : ∀ s s' s'' : BatchState σ, Records request.1 entry s s' →
      Records request.1 entry s' s'' → Records request.1 entry s s'' := fun _ _ _ => Records.trans
  have hlast : Triple (Records request.1 entry) (fun _ => True) (k ⟨⟩) fun r _ => Q r := by
    intro s _
    refine ⟨?_, fun r s' hok => hreturns s r s' hok⟩
    rw [hk]
    exact Records.refl s
  obtain ⟨hrecords, hresult⟩ := triple_bind htrans (@triple_track σ server _ _)
    (fun _ => triple_bind htrans triple_recordDependency fun _ => hlast) s trivial
  exact ⟨_, _, rfl, hrecords, fun r hr => hresult r _ (Prod.ext hr rfl)⟩

theorem touches_executeWithHandler {transaction : Option Text} :
    Triple (Touches none [] [request]) (fun _ => True)
      (executeWithHandler server transaction request) fun _ _ => True := by
  intro s _
  refine ⟨?_, fun _ _ _ => trivial⟩
  unfold executeWithHandler
  split
  · exact .refl s
  · dsimp only
    split
    · exact .refl s
    · split
      · exact .refl s
      · refine ⟨fun _ h => .inl h, fun _ h => h, fun index hmem => ?_, fun _ _ => rfl⟩
        refine (List.mem_append.mp hmem).imp_right fun hlast => ?_
        exact ⟨request, List.mem_singleton_self request, (List.mem_singleton.mp hlast).symm⟩

theorem touches_executeWithRedirects {transaction : Option Text} (remaining : Nat)
    (request : IndexedRequest) :
    Triple (Touches none [] [request]) (fun _ => True)
      (executeWithRedirects server transaction remaining request) fun _ _ => True := by
  have htrans : ∀ s s' s'' : BatchState σ, Touches none [] [request] s s' →
      Touches none [] [request] s' s'' → Touches none [] [request] s s'' :=
    fun _ _ _ => Touches.trans
  induction remaining generalizing request with
  | zero =>
    unfold executeWithRedirects
    refine triple_bind htrans touches_executeWithHandler fun entry => ?_
    split
    · exact triple_pure Touches.refl fun _ _ => trivial
    · exact triple_pure Touches.refl fun _ _ => trivial
  | succ remaining ih =>
    unfold executeWithRedirects
    refine triple_bind htrans touches_executeWithHandler fun entry => ?_
    split
    · exact triple_pure Touches.refl fun _ _ => trivial
    · next url _ =>
      intro s _
      obtain ⟨htouches, -⟩ := ih ({ request.1 with url := url }, request.2)
        (fun _ _ _ => Touches.trans) s trivial
      exact ⟨htouches.of_index rfl, fun _ _ _ => trivial⟩

/-- A request is handed to the application and answered below 400. -/
def Succeeds (server : BatchServer σ) (transaction : Option Text) (references : BatchReferences)
    (request : IndexedRequest) (s : BatchState σ) : Prop :=
  evaluateDependsOn request.1 s.dependencyResults = none ∧
    ∃ prepared entry s', applyContentIdReferences server.service.rt.toRuntime request.1
        references.contentIds = .ok prepared ∧
      executeSingle server transaction
        (ensureEtagPreconditions server.service prepared references.etags, request.2) s =
          (.ok entry, s') ∧ entry.status < 400

/-- What a request can come to. -/
theorem executeRequest_cases (server : BatchServer σ) (transaction : Option Text)
    (references : BatchReferences) (request : IndexedRequest) (s : BatchState σ) :
    (∃ e s', executeRequest server transaction references request s = (.error e, s') ∧
      (s' = s ∨ evaluateDependsOn request.1 s.dependencyResults = none ∧
        Touches none [] [request] s s')) ∨
    ∃ entry between result s',
      executeRequest server transaction references request s = (result, s') ∧
      Records request.1 entry between s' ∧ (∀ r, result = .ok r → r.1 = entry) ∧
      ((between = s ∧ evaluateDependsOn request.1 s.dependencyResults = some entry) ∨
        evaluateDependsOn request.1 s.dependencyResults = none ∧
          Touches none [] [request] s between ∧
          (entry.status < 400 → Succeeds server transaction references request s)) := by
  cases hassert : assertContentIdAvailability server.service.rt.toRuntime request.1
      references.contentIds with
  | error e => exact .inl ⟨e, s, by rw [executeRequest, hassert, bind_ofExcept_error], .inl rfl⟩
  | ok _ =>
    cases hdependsOn : evaluateDependsOn request.1 s.dependencyResults with
    | some failure =>
      have hrun : executeRequest server transaction references request s =
          (track server failure >>= fun _ => recordDependency request.1 failure >>= fun _ =>
            (pure (failure, references) : BatchM σ _)) s := by
        rw [executeRequest, hassert, bind_ofExcept_ok, bind_get, hdependsOn]
      obtain ⟨result, s', heq, hrecords, hresult⟩ := record_run server request failure
        (k := fun _ => (pure (failure, references) : BatchM σ _)) (Q := fun r => r.1 = failure)
        (fun _ => rfl) (returns_pure rfl) s
      exact .inr ⟨failure, s, result, s', hrun.trans heq, hrecords, hresult, .inl ⟨rfl, rfl⟩⟩
    | none =>
      cases hprepared : applyContentIdReferences server.service.rt.toRuntime request.1
          references.contentIds with
      | error e =>
        refine .inl ⟨e, s, ?_, .inl rfl⟩
        rw [executeRequest, hassert, bind_ofExcept_ok, bind_get, hdependsOn]
        dsimp only
        rw [hprepared, bind_ofExcept_error]
      | ok prepared =>
        have hrun : executeRequest server transaction references request s =
            (executeSingle server transaction (ensureEtagPreconditions server.service
              prepared references.etags, request.2) >>= fun entry =>
              track server entry >>= fun _ => recordDependency request.1 entry >>= fun _ =>
              ofExcept (recordContentIdResult server.service request (ensureEtagPreconditions
                server.service prepared references.etags) entry references) >>=
              fun references => (pure (entry, references) : BatchM σ _)) s := by
          rw [executeRequest, hassert, bind_ofExcept_ok, bind_get, hdependsOn]
          dsimp only
          rw [hprepared, bind_ofExcept_ok]
        have hindex := ((@touches_executeWithRedirects σ server transaction 3
          (ensureEtagPreconditions server.service prepared references.etags, request.2) s
          trivial).1).of_index (show _ = request.2 from rfl)
        rw [← executeSingle] at hindex
        cases hsingle : executeSingle server transaction
            (ensureEtagPreconditions server.service prepared references.etags, request.2) s with
        | mk outcome between =>
          rw [hsingle] at hindex
          cases outcome with
          | error e =>
            refine .inl ⟨e, between, ?_, .inr ⟨rfl, hindex⟩⟩
            rw [hrun, bind_apply, hsingle]
          | ok entry =>
            obtain ⟨result, s', heq, hrecords, hresult⟩ := record_run server request entry
              (k := fun _ => ofExcept (recordContentIdResult server.service request
                (ensureEtagPreconditions server.service prepared references.etags) entry
                references) >>= fun references => (pure (entry, references) : BatchM σ _))
              (Q := fun r => r.1 = entry) (fun s => by
                cases recordContentIdResult server.service request (ensureEtagPreconditions
                  server.service prepared references.etags) entry references <;> rfl)
              (returns_bind (returns_any _) fun _ _ => returns_pure rfl) between
            refine .inr ⟨entry, between, result, s', ?_, hrecords, hresult, .inr ⟨rfl, hindex, ?_⟩⟩
            · rw [hrun, bind_apply, hsingle]
              exact heq
            · intro hstatus
              exact ⟨hdependsOn, prepared, entry, between, hprepared, hsingle, hstatus⟩

theorem evaluateDependencies_status {request : BatchRequest} {failure : BatchResponseEntry}
    {results : Dictionary Text BatchResponseEntry} {deps : List Text}
    (h : evaluateDependencies request results deps = some failure) : failure.status = 424 := by
  induction deps with
  | nil => cases h
  | cons dependencyId deps ih =>
    rw [evaluateDependencies] at h
    split at h
    · rw [← Option.some.inj h]
      rfl
    · split at h
      · rw [← Option.some.inj h]
        rfl
      · exact ih h

theorem evaluateDependsOn_of_lost (h : Lost request s) :
    evaluateDependsOn request.1 s.dependencyResults ≠ none := by
  obtain ⟨id, hid, hfailed⟩ := h
  rw [evaluateDependsOn]
  generalize request.1.dependsOn.getD [] = deps at hid
  induction deps with
  | nil => cases hid
  | cons dependencyId deps ih =>
    rw [evaluateDependencies]
    cases hget : s.dependencyResults.get dependencyId with
    | none => simp
    | some prior =>
      dsimp only
      split
      · simp
      · next hstatus =>
        rcases List.mem_cons.mp hid with rfl | hid
        · exact absurd (hfailed prior hget) hstatus
        · exact ih hid

variable {transaction : Option Text} {references : BatchReferences}

theorem touches_executeRequest :
    Triple (Touches none [request] [request]) (fun _ => True)
      (executeRequest server transaction references request) fun _ _ => True := by
  intro s _
  refine ⟨?_, fun _ _ _ => trivial⟩
  rcases executeRequest_cases server transaction references request s with
    ⟨e, s', hrun, hstate⟩ | ⟨entry, between, result, s', hrun, hrecords, -, hcase⟩
  · rw [hrun]
    rcases hstate with rfl | ⟨-, htouches⟩
    · exact .refl s'
    · exact htouches.mono (.inl rfl) (fun _ h => absurd h List.not_mem_nil) fun _ h => h
  · rw [hrun]
    rcases hcase with ⟨rfl, -⟩ | ⟨-, htouches, -⟩
    · exact hrecords.touches
    · exact (htouches.mono (.inl rfl) (fun _ h => absurd h List.not_mem_nil) fun _ h => h).trans
        hrecords.touches

/-- A request that depends on one that has not succeeded is not executed. -/
theorem lost_executeRequest :
    Triple (Touches none [request] []) (Lost request)
      (executeRequest server transaction references request)
      fun result _ => result.1.status = 424 := by
  intro s hlost
  have hsome := evaluateDependsOn_of_lost hlost
  rcases executeRequest_cases server transaction references request s with
    ⟨e, s', hrun, hstate⟩ | ⟨entry, between, result, s', hrun, hrecords, hresult, hcase⟩
  · rw [hrun]
    rcases hstate with rfl | ⟨hnone, -⟩
    · exact ⟨.refl s', fun _ _ hok => by cases hok⟩
    · exact absurd hnone hsome
  · rw [hrun]
    rcases hcase with ⟨rfl, hfailure⟩ | ⟨hnone, -⟩
    · refine ⟨hrecords.touches, fun r _ hok => ?_⟩
      dsimp only
      rw [hresult r (Prod.mk.inj hok).1]
      exact evaluateDependencies_status hfailure
    · exact absurd hnone hsome

/-- A request that does not succeed lets nothing look successful. -/
theorem keepsFailed_executeRequest :
    Triple KeepsFailed (fun s => ¬ Succeeds server transaction references request s)
      (executeRequest server transaction references request)
      fun result _ => 400 ≤ result.1.status := by
  intro s hfails
  have htouched {s s' : BatchState σ} (h : Touches none [] [request] s s') : KeepsFailed s s' :=
    fun id hfailed => (h.failedAt fun _ hmem => absurd hmem List.not_mem_nil).mpr hfailed
  rcases executeRequest_cases server transaction references request s with
    ⟨e, s', hrun, hstate⟩ | ⟨entry, between, result, s', hrun, hrecords, hresult, hcase⟩
  · rw [hrun]
    refine ⟨?_, fun _ _ hok => by cases hok⟩
    rcases hstate with rfl | ⟨-, htouches⟩
    · exact fun _ h => h
    · exact htouched htouches
  · rw [hrun]
    have hboth : KeepsFailed s between ∧ 400 ≤ entry.status := by
      rcases hcase with ⟨rfl, hfailure⟩ | ⟨-, htouches, hsucceeds⟩
      · exact ⟨fun _ h => h, by rw [evaluateDependencies_status hfailure]; decide⟩
      · exact ⟨htouched htouches, Nat.le_of_not_lt fun hlt => hfails (hsucceeds hlt)⟩
    refine ⟨fun id h => hrecords.keepsFailed hboth.2 id (hboth.1 id h), fun r _ hok => ?_⟩
    dsimp only
    rw [hresult r (Prod.mk.inj hok).1]
    exact hboth.2

end Request

/-! ## Groups -/

section Groups

variable {transaction : Option Text} {references : BatchReferences}

theorem touches_trans (group : Option Text) (named ran : List IndexedRequest) :
    ∀ s s' s'' : BatchState σ, Touches group named ran s s' → Touches group named ran s' s'' →
      Touches group named ran s s'' := fun _ _ _ => Touches.trans

theorem keepsFailed_refl (s : BatchState σ) : KeepsFailed s s := fun _ h => h

theorem keepsFailed_trans (s s' s'' : BatchState σ) (h : KeepsFailed s s')
    (h' : KeepsFailed s' s'') : KeepsFailed s s'' := fun id hfailed => h' id (h id hfailed)

theorem touches_executeGroup {abort : Bool} {all requests : List IndexedRequest}
    (hsub : ∀ request ∈ requests, request ∈ all) :
    Triple (Touches none all all) (fun _ => True)
      (executeGroup server transaction abort requests references) fun _ _ => True := by
  induction requests generalizing references with
  | nil => exact triple_pure Touches.refl fun _ _ => trivial
  | cons request requests ih =>
    unfold executeGroup
    have hfirst : Triple (Touches none all all) (fun _ => True)
        (executeRequest server transaction references request) fun _ _ => True := by
      intro s _
      refine ⟨(touches_executeRequest s trivial).1.mono (.inl rfl) ?_ ?_, fun _ _ _ => trivial⟩
      all_goals
        intro request' hmem
        rw [List.mem_singleton.mp hmem]
        exact hsub request List.mem_cons_self
    refine triple_bind (touches_trans _ _ _) hfirst ?_
    rintro ⟨entry, references'⟩
    dsimp only
    split
    · exact triple_pure Touches.refl fun _ _ => trivial
    · refine triple_bind (touches_trans _ _ _)
        (ih fun request' hmem => hsub request' (List.mem_cons_of_mem _ hmem)) fun _ => ?_
      exact triple_pure Touches.refl fun _ _ => trivial

/-- Of a group, a request that depends on a request outside that has not succeeded is not
executed. -/
theorem lost_executeGroup {abort : Bool} {lost : IndexedRequest} {id : Text}
    (hid : id ∈ lost.1.dependsOn.getD []) {all requests : List IndexedRequest}
    (hsub : ∀ request ∈ requests, request ∈ all)
    (hids : ∀ request ∈ all, request.1.id ≠ some id)
    (hindex : ∀ request ∈ all, request.2 = lost.2 → request = lost) :
    Triple (Touches none all (all.filter fun request => request.2 ≠ lost.2))
      (fun s => FailedAt s id) (executeGroup server transaction abort requests references)
      fun result _ => ∀ entry, (lost, entry) ∈ requests.zip result.1 → entry.status = 424 := by
  have hstable (s s' : BatchState σ)
      (h : Touches none all (all.filter fun request => request.2 ≠ lost.2) s s')
      (hfailed : FailedAt s id) : FailedAt s' id := (h.failedAt hids).mpr hfailed
  induction requests generalizing references with
  | nil => exact triple_pure Touches.refl fun _ _ _ h => absurd h List.not_mem_nil
  | cons request requests ih =>
    have hmem := hsub request List.mem_cons_self
    unfold executeGroup
    have hfirst : Triple (Touches none all (all.filter fun request => request.2 ≠ lost.2))
        (fun s => FailedAt s id) (executeRequest server transaction references request)
        fun result s => FailedAt s id ∧ (request = lost → result.1.status = 424) := by
      have hnamed : ∀ request' ∈ [request], request' ∈ all := fun request' h => by
        rw [List.mem_singleton.mp h]
        exact hmem
      intro s hfailed
      by_cases hlost : request.2 = lost.2
      · have heq := hindex request hmem hlost
        obtain ⟨htouches, hstatus⟩ :=
          @lost_executeRequest σ server request transaction references s (heq ▸ ⟨id, hid, hfailed⟩)
        have htouches' : Touches none all (all.filter fun request => request.2 ≠ lost.2) s _ :=
          htouches.mono (.inl rfl) hnamed fun _ h => absurd h List.not_mem_nil
        refine ⟨htouches', fun result s' hrun => ⟨?_, fun _ => hstatus result s' hrun⟩⟩
        rw [hrun] at htouches'
        exact hstable s s' htouches' hfailed
      · obtain ⟨htouches, -⟩ :=
          @touches_executeRequest σ server request transaction references s trivial
        have htouches' : Touches none all (all.filter fun request => request.2 ≠ lost.2) s _ :=
          htouches.mono (.inl rfl) hnamed fun request' h => by
            rw [List.mem_singleton.mp h]
            exact List.mem_filter.mpr ⟨hmem, decide_eq_true hlost⟩
        refine ⟨htouches', fun result s' hrun => ⟨?_, fun heq => absurd (heq ▸ rfl) hlost⟩⟩
        rw [hrun] at htouches'
        exact hstable s s' htouches' hfailed
    refine triple_bind (touches_trans _ _ _) hfirst ?_
    rintro ⟨entry, references'⟩
    have hentry {entries : List BatchResponseEntry} (hstatus : request = lost → entry.status = 424)
        (hrest : ∀ entry', (lost, entry') ∈ requests.zip entries → entry'.status = 424) :
        ∀ entry', (lost, entry') ∈ (request :: requests).zip (entry :: entries) →
          entry'.status = 424 := by
      intro entry' hzip
      rw [List.zip_cons_cons] at hzip
      rcases List.mem_cons.mp hzip with heq | hzip
      · obtain ⟨hlost, rfl⟩ := Prod.mk.inj heq
        exact hstatus hlost.symm
      · exact hrest entry' hzip
    dsimp only
    split
    · exact triple_pure Touches.refl fun _ h => hentry h.2 fun _ hzip => by
        rw [List.zip_nil_right] at hzip
        cases hzip
    · intro s h
      have hrest := triple_keep (fun _ _ _ (h : request = lost → entry.status = 424) => h)
        (@ih references' fun request' hmem => hsub request' (List.mem_cons_of_mem _ hmem))
      exact triple_bind (touches_trans _ _ _) hrest (fun _ =>
        triple_pure Touches.refl fun _ hpost => hentry hpost.2 hpost.1) s h

/-- Nothing of a group looks successful whose first request does not succeed. -/
theorem keepsFailed_executeGroup {first : IndexedRequest} {rest : List IndexedRequest} :
    Triple KeepsFailed (fun s => ¬ Succeeds server transaction references first s)
      (executeGroup server transaction true (first :: rest) references)
      fun result _ => ∃ entry, result.1 = [entry] ∧ 400 ≤ entry.status := by
  unfold executeGroup
  refine triple_bind keepsFailed_trans keepsFailed_executeRequest ?_
  rintro ⟨entry, references'⟩ s hstatus
  dsimp only at hstatus ⊢
  rw [if_pos ⟨rfl, hstatus⟩]
  refine ⟨keepsFailed_refl s, fun result s' hok => ?_⟩
  obtain ⟨rfl, -⟩ := ok_pure_iff.mp hok
  exact ⟨entry, rfl, hstatus⟩

/-- Entries that are made up for requests. -/
theorem triple_answerAll {entryOf : BatchRequest → BatchResponseEntry}
    {all requests : List IndexedRequest} (hsub : ∀ request ∈ requests, request ∈ all) :
    Triple (Touches none all []) (fun _ => True) (answerAll server entryOf requests)
      fun entries _ => entries = requests.map fun request => entryOf request.1 := by
  induction requests with
  | nil => exact triple_pure Touches.refl fun _ _ => rfl
  | cons request requests ih =>
    have htouches : ∀ s s' : BatchState σ, Records request.1 (entryOf request.1) s s' →
        Touches none all [] s s' := fun s s' h =>
      h.touches.mono (.inl rfl) (fun request' hmem => by
        rw [List.mem_singleton.mp hmem]
        exact hsub request List.mem_cons_self) fun _ h => h
    unfold answerAll
    refine triple_bind (touches_trans _ _ _) (triple_relation triple_track htouches) fun _ => ?_
    refine triple_bind (touches_trans _ _ _) (triple_relation triple_recordDependency htouches)
      fun _ => ?_
    refine triple_bind (touches_trans _ _ _)
      (ih fun request' hmem => hsub request' (List.mem_cons_of_mem _ hmem)) fun entries => ?_
    exact triple_pure Touches.refl fun _ hentries => congrArg (List.cons _) hentries

/-- Entries of failures let nothing look successful. -/
theorem keepsFailed_answerAll {entryOf : BatchRequest → BatchResponseEntry}
    (hstatus : ∀ request, 400 ≤ (entryOf request).status) (requests : List IndexedRequest) :
    Triple KeepsFailed (fun _ => True) (answerAll server entryOf requests) fun entries _ =>
      ∀ entry ∈ entries, 400 ≤ entry.status := by
  induction requests with
  | nil => exact triple_pure keepsFailed_refl fun _ _ _ h => absurd h List.not_mem_nil
  | cons request requests ih =>
    have hkeeps : ∀ s s' : BatchState σ, Records request.1 (entryOf request.1) s s' →
        KeepsFailed s s' := fun s s' h => h.keepsFailed (hstatus _)
    unfold answerAll
    refine triple_bind keepsFailed_trans (triple_relation triple_track hkeeps) fun _ => ?_
    refine triple_bind keepsFailed_trans (triple_relation triple_recordDependency hkeeps)
      fun _ => ?_
    refine triple_bind keepsFailed_trans ih fun _ => triple_pure keepsFailed_refl ?_
    intro _ hentries entry hmem
    rcases List.mem_cons.mp hmem with rfl | hmem
    · exact hstatus request.1
    · exact hentries entry hmem

theorem rollbackTransaction_same (s : BatchState σ) :
    (rollbackTransaction server transaction s).2.dependencyResults = s.dependencyResults ∧
      (rollbackTransaction server transaction s).2.executed = s.executed ∧
      (rollbackTransaction server transaction s).2.committed = s.committed := by
  unfold rollbackTransaction
  split
  · exact ⟨rfl, rfl, rfl⟩
  · split
    · exact ⟨rfl, rfl, rfl⟩
    · split <;> exact ⟨rfl, rfl, rfl⟩

theorem touches_rollbackTransaction {group : Option Text} {named ran : List IndexedRequest} :
    Triple (Touches group named ran) (fun _ => True) (rollbackTransaction server transaction)
      fun _ _ => True := by
  intro s _
  obtain ⟨hresults, hexecuted, hcommitted⟩ := @rollbackTransaction_same σ server transaction s
  exact ⟨.of_eq hresults hexecuted hcommitted, fun _ _ _ => trivial⟩

theorem keepsFailed_rollbackTransaction :
    Triple KeepsFailed (fun _ => True) (rollbackTransaction server transaction)
      fun _ _ => True := by
  intro s _
  obtain ⟨hresults, -, -⟩ := @rollbackTransaction_same σ server transaction s
  exact ⟨.of_eq hresults, fun _ _ _ => trivial⟩

theorem touches_commitTransaction {groupId : Text} {named ran : List IndexedRequest} :
    Triple (Touches (some groupId) named ran) (fun _ => True)
      (commitTransaction server groupId transaction) fun _ _ => True := by
  intro s _
  refine ⟨?_, fun _ _ _ => trivial⟩
  have happend {s' : BatchState σ} (hresults : s'.dependencyResults = s.dependencyResults)
      (hexecuted : s'.executed = s.executed)
      (hcommitted : s'.committed = s.committed ++ [groupId]) :
      Touches (some groupId) named ran s s' := by
    refine ⟨fun other hmem => ?_, fun other hmem => ?_, fun _ hmem => .inl (hexecuted ▸ hmem),
      fun _ _ => by rw [hresults]⟩
    · rw [hcommitted] at hmem
      exact (List.mem_append.mp hmem).imp_right fun h => by rw [List.mem_singleton.mp h]
    · rw [hcommitted]
      exact List.mem_append_left _ hmem
  unfold commitTransaction
  split
  · exact happend rfl rfl rfl
  · split
    · exact happend rfl rfl rfl
    · exact .of_eq (rollbackTransaction_same _).1 (rollbackTransaction_same _).2.1
        (rollbackTransaction_same _).2.2

/-! ## Changesets -/

variable {groupId : Text} {group requests : List IndexedRequest}

theorem touches_executeInTransaction :
    Triple (Touches (some groupId) group group) (fun _ => True)
      (executeInTransaction server groupId transaction group references) fun _ _ => True := by
  unfold executeInTransaction
  refine triple_bind (touches_trans _ _ _)
    (triple_relation (touches_executeGroup fun _ h => h) fun _ _ h =>
      h.mono (.inl rfl) (fun _ h => h) fun _ h => h) ?_
  rintro ⟨entries, inner⟩
  dsimp only
  split
  · refine triple_bind (touches_trans _ _ _) touches_rollbackTransaction fun _ => ?_
    refine triple_bind (touches_trans _ _ _)
      (triple_relation (triple_answerAll fun _ h => List.mem_of_mem_drop h) fun _ _ h =>
        h.mono (.inl rfl) (fun _ h => h) fun _ h => absurd h List.not_mem_nil) fun _ => ?_
    exact triple_pure Touches.refl fun _ _ => trivial
  · refine triple_bind (touches_trans _ _ _) touches_commitTransaction fun _ => ?_
    exact triple_pure Touches.refl fun _ _ => trivial

/-- A changeset whose first request does not succeed has no entry that looks successful. -/
theorem keepsFailed_executeInTransaction {first : IndexedRequest} {rest : List IndexedRequest} :
    Triple KeepsFailed (fun s => ¬ Succeeds server transaction references first s)
      (executeInTransaction server groupId transaction (first :: rest) references)
      fun result _ => ∀ entry ∈ result.1, 400 ≤ entry.status := by
  unfold executeInTransaction
  refine triple_bind keepsFailed_trans keepsFailed_executeGroup ?_
  rintro ⟨entries, inner⟩
  intro s hentries
  obtain ⟨entry, rfl, hstatus⟩ := hentries
  dsimp only at hstatus ⊢
  rw [if_pos (by simpa using hstatus)]
  have hnot : ∀ request, 400 ≤ (notExecuted request).status := fun _ => by
    show 400 ≤ 424
    decide
  refine triple_bind keepsFailed_trans keepsFailed_rollbackTransaction (fun _ =>
    triple_bind keepsFailed_trans (keepsFailed_answerAll hnot rest) fun entries =>
      triple_pure keepsFailed_refl ?_) s trivial
  intro _ hentries entry' hmem
  rcases List.mem_cons.mp hmem with rfl | hmem
  · exact hstatus
  · exact hentries entry' hmem

/-- Of a changeset, a request that depends on a request outside that has not succeeded is not
executed and answered with 424. -/
theorem lost_executeInTransaction {lost : IndexedRequest} {id : Text}
    (hid : id ∈ lost.1.dependsOn.getD []) (hids : ∀ request ∈ group, request.1.id ≠ some id)
    (hindex : ∀ request ∈ group, request.2 = lost.2 → request = lost) :
    Triple (Touches (some groupId) group (group.filter fun request => request.2 ≠ lost.2))
      (fun s => FailedAt s id)
      (executeInTransaction server groupId transaction group references)
      fun result _ => ∀ entry, (lost, entry) ∈ group.zip result.1 → entry.status = 424 := by
  unfold executeInTransaction
  have hgroup := @lost_executeGroup σ server transaction references true lost id hid group group
    (fun _ h => h) hids hindex
  have hlength : Returns (executeGroup server transaction true group references) fun result =>
      result.1.length ≤ group.length := fun s r s' hok => by
    have hids := (executeGroup_ids server transaction true group references s r s' hok).1
    have hcount := congrArg List.length hids
    rw [entryIds, requestIds, List.length_map, List.length_map, List.length_take] at hcount
    omega
  have hfirst : Triple (Touches (some groupId) group
      (group.filter fun request => request.2 ≠ lost.2)) (fun s => FailedAt s id)
      (executeGroup server transaction true group references) fun result _ =>
        result.1.length ≤ group.length ∧
          ∀ entry, (lost, entry) ∈ group.zip result.1 → entry.status = 424 := by
    intro s hfailed
    obtain ⟨htouches, hpost⟩ := hgroup s hfailed
    exact ⟨htouches.mono (.inl rfl) (fun _ h => h) fun _ h => h,
      fun r s' hok => ⟨hlength s r s' hok, hpost r s' hok⟩⟩
  refine triple_bind (touches_trans _ _ _) hfirst ?_
  rintro ⟨entries, inner⟩
  intro s hpost
  obtain ⟨hle, hstatus⟩ := hpost
  dsimp only at hle hstatus ⊢
  split
  · refine triple_bind (touches_trans _ _ _) touches_rollbackTransaction (fun _ =>
      triple_bind (touches_trans _ _ _) (triple_relation (triple_answerAll fun _ h =>
        List.mem_of_mem_drop h) fun _ _ h => h.mono (.inl rfl) (fun _ h => h)
          fun _ h => absurd h List.not_mem_nil) fun rest =>
      triple_pure Touches.refl ?_) s trivial
    rintro _ rfl entry hzip
    have hcount : (group.take entries.length).length = entries.length := by
      rw [List.length_take]
      omega
    have hsplit (more : List BatchResponseEntry) : group.zip (entries ++ more) =
        (group.take entries.length).zip entries ++ (group.drop entries.length).zip more := by
      rw [← List.zip_append hcount, List.take_append_drop]
    rw [hsplit] at hzip
    rcases List.mem_append.mp hzip with hzip | hzip
    · refine hstatus entry ?_
      have hnil := hsplit []
      rw [List.append_nil, List.zip_nil_right, List.append_nil] at hnil
      rw [hnil]
      exact hzip
    · obtain ⟨request, -, rfl⟩ := List.mem_map.mp (List.of_mem_zip hzip).2
      rfl
  · exact triple_bind (touches_trans _ _ _) touches_commitTransaction (fun _ =>
      triple_pure Touches.refl fun _ _ => hstatus) s trivial

/-- Of a changeset whose first request does not succeed, no other request is executed. -/
theorem inner_executeInTransaction {first : IndexedRequest} {rest : List IndexedRequest} :
    Triple (Touches (some groupId) (first :: rest) [first])
      (fun s => ¬ Succeeds server transaction references first s)
      (executeInTransaction server groupId transaction (first :: rest) references)
      fun result _ => ∀ entry ∈ result.1.tail, entry.status = 424 := by
  have hfirst : Triple (Touches (some groupId) (first :: rest) [first])
      (fun s => ¬ Succeeds server transaction references first s)
      (executeRequest server transaction references first)
      fun result _ => 400 ≤ result.1.status := by
    intro s hfails
    refine ⟨(touches_executeRequest s trivial).1.mono (.inl rfl) ?_ fun _ h => h,
      (keepsFailed_executeRequest s hfails).2⟩
    intro request hmem
    rw [List.mem_singleton.mp hmem]
    exact List.mem_cons_self
  have hgroup : Triple (Touches (some groupId) (first :: rest) [first])
      (fun s => ¬ Succeeds server transaction references first s)
      (executeGroup server transaction true (first :: rest) references)
      fun result _ => ∃ entry, result.1 = [entry] ∧ 400 ≤ entry.status := by
    unfold executeGroup
    refine triple_bind (touches_trans _ _ _) hfirst ?_
    rintro ⟨entry, references'⟩ s hstatus
    dsimp only at hstatus ⊢
    rw [if_pos ⟨rfl, hstatus⟩]
    refine ⟨Touches.refl s, fun result s' hok => ?_⟩
    obtain ⟨rfl, -⟩ := ok_pure_iff.mp hok
    exact ⟨entry, rfl, hstatus⟩
  unfold executeInTransaction
  refine triple_bind (touches_trans _ _ _) hgroup ?_
  rintro ⟨entries, inner⟩
  intro s hentries
  obtain ⟨entry, rfl, hstatus⟩ := hentries
  dsimp only at hstatus ⊢
  rw [if_pos (by simpa using hstatus)]
  refine triple_bind (touches_trans _ _ _) touches_rollbackTransaction (fun _ =>
    triple_bind (touches_trans _ _ _) (triple_relation (triple_answerAll fun _ h =>
      List.mem_cons_of_mem first (List.mem_of_mem_drop h)) fun _ _ h =>
        h.mono (.inl rfl) (fun _ h => h) fun _ h => absurd h List.not_mem_nil) fun answers =>
    triple_pure Touches.refl ?_) s trivial
  rintro _ rfl entry' hmem
  obtain ⟨request, -, rfl⟩ := List.mem_map.mp hmem
  rfl

theorem createAtomicGroupContext_same (s : BatchState σ) :
    (createAtomicGroupContext server groupId group requests s).2.dependencyResults =
        s.dependencyResults ∧
      (createAtomicGroupContext server groupId group requests s).2.executed = s.executed ∧
      (createAtomicGroupContext server groupId group requests s).2.committed = s.committed := by
  unfold createAtomicGroupContext
  split
  · exact ⟨rfl, rfl, rfl⟩
  · exact ⟨rfl, rfl, rfl⟩
  · split <;> exact ⟨rfl, rfl, rfl⟩

theorem touches_executeAtomicGroup :
    Triple (Touches (some groupId) group group) (fun _ => True)
      (executeAtomicGroup server groupId group requests references) fun _ _ => True := by
  have hcreate : Triple (Touches (some groupId) group group) (fun _ => True)
      (createAtomicGroupContext server groupId group requests) fun _ _ => True := by
    intro s _
    obtain ⟨hresults, hexecuted, hcommitted⟩ :=
      @createAtomicGroupContext_same σ server groupId group requests s
    exact ⟨.of_eq hresults hexecuted hcommitted, fun _ _ _ => trivial⟩
  unfold executeAtomicGroup
  refine triple_bind (touches_trans _ _ _) (triple_ofExcept Touches.refl fun _ _ _ _ => trivial)
    fun _ => triple_bind (touches_trans _ _ _)
      (triple_attempt (fun _ _ _ _ => trivial) hcreate) fun result => ?_
  split
  · split
    · exact triple_fail Touches.refl
    · refine triple_bind (touches_trans _ _ _) (triple_relation (triple_answerAll fun _ h => h)
        fun _ _ h => h.mono (.inl rfl) (fun _ h => h) fun _ h => absurd h List.not_mem_nil) ?_
      exact fun _ => triple_pure Touches.refl fun _ _ => trivial
  · refine triple_bind (touches_trans _ _ _)
      (triple_attempt (fun _ _ _ _ => trivial) touches_executeInTransaction) fun result => ?_
    split
    · exact triple_pure Touches.refl fun _ _ => trivial
    · exact triple_bind (touches_trans _ _ _) touches_rollbackTransaction fun _ =>
        triple_fail Touches.refl

theorem touches_runGroup :
    Triple (Touches (some groupId) group group) (fun _ => True)
      (runGroup server groupId group requests references) fun _ _ => True := by
  unfold runGroup
  refine triple_bind (touches_trans _ _ _)
    (triple_attempt (fun _ _ _ _ => trivial) touches_executeAtomicGroup) fun result => ?_
  split
  · exact triple_pure Touches.refl fun _ _ => trivial
  · split
    · exact triple_fail Touches.refl
    · exact triple_pure Touches.refl fun _ _ => trivial

/-- Where the first request does not succeed. -/
theorem keepsFailed_executeAtomicGroup (hne : group ≠ []) :
    Triple KeepsFailed
      (fun s => ∀ transaction s', createAtomicGroupContext server groupId group requests s =
        (.ok transaction, s') → ∀ first ∈ group.head?,
          ¬ Succeeds server transaction references first s')
      (executeAtomicGroup server groupId group requests references)
      fun result _ => ∀ entry ∈ result.1, 400 ≤ entry.status := by
  have hcreate : Triple KeepsFailed
      (fun s => ∀ transaction s', createAtomicGroupContext server groupId group requests s =
        (.ok transaction, s') → ∀ first ∈ group.head?,
          ¬ Succeeds server transaction references first s')
      (createAtomicGroupContext server groupId group requests) fun transaction s =>
        ∀ first ∈ group.head?, ¬ Succeeds server transaction references first s := by
    intro s hfails
    obtain ⟨hresults, -, -⟩ := @createAtomicGroupContext_same σ server groupId group requests s
    exact ⟨.of_eq hresults, hfails⟩
  obtain ⟨first, rest, rfl⟩ := List.exists_cons_of_ne_nil hne
  have hrejected (rejection : BatchError) (request : BatchRequest) :
      400 ≤ (rejectedEntry rejection request).status := by
    show 400 ≤ 501
    decide
  unfold executeAtomicGroup
  refine triple_bind keepsFailed_trans
    (triple_ofExcept keepsFailed_refl fun _ _ _ hfails => hfails) fun _ =>
      triple_bind keepsFailed_trans (triple_attempt_ok hcreate) ?_
  intro result
  cases result with
  | error e =>
    dsimp only
    split
    · exact triple_fail keepsFailed_refl
    · next rejection _ =>
      exact triple_mono (triple_bind keepsFailed_trans
        (keepsFailed_answerAll (hrejected rejection) (first :: rest)) fun entries =>
          triple_pure keepsFailed_refl fun _ h => h) (fun _ _ => trivial) fun _ _ h => h
  | ok transaction =>
    dsimp only
    intro s hfails
    have hfails' := hfails transaction rfl first rfl
    refine triple_bind keepsFailed_trans (triple_attempt_ok keepsFailed_executeInTransaction)
      (fun result => ?_) s hfails'
    cases result with
    | ok result => exact triple_pure keepsFailed_refl fun _ h => h result rfl
    | error e =>
      exact triple_mono (triple_bind keepsFailed_trans keepsFailed_rollbackTransaction
        fun _ => triple_fail keepsFailed_refl) (fun _ _ => trivial) fun _ _ h => h

end Groups

end Failures

end LoopbackOData
