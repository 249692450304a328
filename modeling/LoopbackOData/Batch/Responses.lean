import LoopbackOData.Batch.HandleBatch

/-!
# One response for each request

The entries that a batch is answered with carry the ids of its requests, one each and in their
order. A group is answered as a whole when its first request is reached; the entries that wait for
the other requests of the group have their ids, which is the invariant of the loop.
-/

set_option autoImplicit false

namespace LoopbackOData

open Effect

section Responses

variable {σ : Type} (server : BatchServer σ)

/-! ## One request -/

theorem responseEntry_id (request : BatchRequest) (response : SubResponse) :
    (responseEntry server request response).id = request.id := by
  cases response with
  | finished status headers body =>
    unfold responseEntry
    dsimp only
    split <;> rfl
  | failed status message => rfl
  | timedOut => rfl

theorem executeWithHandler_id (transaction : Option Text) (request : IndexedRequest) :
    Returns (executeWithHandler server transaction request) fun entry =>
      entry.id = request.1.id := by
  intro s entry s' hok
  unfold executeWithHandler at hok
  split at hok
  · cases hok
    rfl
  · dsimp only at hok
    split at hok
    · cases hok
      rfl
    · split at hok
      · cases hok
      · cases hok
        exact responseEntry_id server request.1 _

theorem executeWithRedirects_id (transaction : Option Text) (remaining : Nat)
    (request : IndexedRequest) :
    Returns (executeWithRedirects server transaction remaining request) fun entry =>
      entry.id = request.1.id := by
  induction remaining generalizing request with
  | zero =>
    unfold executeWithRedirects
    refine returns_bind (executeWithHandler_id server transaction request) fun entry hentry => ?_
    split
    · exact returns_pure hentry
    · exact returns_pure rfl
  | succ remaining ih =>
    unfold executeWithRedirects
    refine returns_bind (executeWithHandler_id server transaction request) fun entry hentry => ?_
    split
    · exact returns_pure hentry
    · exact ih _

theorem applyContentIdReferences_id {rt : Runtime} {request prepared : BatchRequest}
    {contentIds : ContentIds}
    (h : applyContentIdReferences rt request contentIds = .ok prepared) :
    prepared.id = request.id := by
  obtain ⟨url, _, h⟩ := Outcome.bind_eq_ok.mp h
  obtain ⟨headers, _, h⟩ := Outcome.bind_eq_ok.mp h
  obtain ⟨body, _, h⟩ := Outcome.bind_eq_ok.mp h
  rw [← Except.ok.inj h]

theorem ensureEtagPreconditions_id (service : BatchService) (request : BatchRequest)
    (etags : ContentIds) : (ensureEtagPreconditions service request etags).id = request.id := by
  unfold ensureEtagPreconditions
  split
  · rfl
  · dsimp only
    split
    · rfl
    · split
      · rfl
      · split <;> rfl

theorem evaluateDependencies_id {request : BatchRequest} {failure : BatchResponseEntry}
    {results : Dictionary Text BatchResponseEntry} {deps : List Text}
    (h : evaluateDependencies request results deps = some failure) : failure.id = request.id := by
  induction deps with
  | nil => cases h
  | cons dependencyId deps ih =>
    rw [evaluateDependencies] at h
    split at h
    · rw [← Option.some.inj h]
      rfl
    · split at h
      · rw [← Option.some.inj h]
        rfl
      · exact ih h

theorem executeRequest_id (transaction : Option Text) (references : BatchReferences)
    (request : IndexedRequest) :
    Returns (executeRequest server transaction references request) fun result =>
      result.1.id = request.1.id := by
  unfold executeRequest
  refine returns_bind (returns_any _) fun _ _ => returns_bind (returns_any _) fun s _ => ?_
  split
  · next failure hfailure =>
    refine returns_bind (returns_any _) fun _ _ => returns_bind (returns_any _) fun _ _ => ?_
    exact returns_pure (evaluateDependencies_id hfailure)
  · refine returns_bind (returns_ofExcept fun prepared h => applyContentIdReferences_id h)
      fun prepared hprepared => ?_
    refine returns_bind (executeWithRedirects_id server transaction 3 _) fun entry hentry => ?_
    refine returns_bind (returns_any _) fun _ _ => returns_bind (returns_any _) fun _ _ => ?_
    refine returns_bind (returns_any _) fun _ _ => returns_pure ?_
    rw [hentry, ensureEtagPreconditions_id, hprepared]

/-! ## Groups -/

def requestIds (requests : List IndexedRequest) : List (Option Text) := requests.map (·.1.id)

def entryIds (entries : List BatchResponseEntry) : List (Option Text) := entries.map (·.id)

def EntriesFail (entries : List BatchResponseEntry) : Prop :=
  (entries.any fun entry => 400 ≤ entry.status) = true

/-- The requests up to one that fails have been answered, or all of them. -/
theorem executeGroup_ids (transaction : Option Text) (abort : Bool)
    (requests : List IndexedRequest) (references : BatchReferences) :
    Returns (executeGroup server transaction abort requests references) fun result =>
      entryIds result.1 = requestIds (requests.take result.1.length) ∧
        ((abort = false ∨ ¬ EntriesFail result.1) → result.1.length = requests.length) := by
  induction requests generalizing references with
  | nil => exact returns_pure ⟨rfl, fun _ => rfl⟩
  | cons request requests ih =>
    unfold executeGroup
    refine returns_bind (executeRequest_id server transaction references request) ?_
    rintro ⟨entry, references'⟩ hentry
    dsimp only at hentry ⊢
    split
    · next habort =>
      refine returns_pure ⟨?_, ?_⟩
      · simp [entryIds, requestIds, hentry]
      · rintro (hfalse | hnone)
        · rw [hfalse] at habort
          cases habort.1
        · exact absurd (by simp [EntriesFail, habort.2]) hnone
    · refine returns_bind (ih references') ?_
      rintro ⟨entries, references''⟩ ⟨hids, hlength⟩
      refine returns_pure ⟨?_, fun h => ?_⟩
      · rw [List.length_cons, List.take_succ_cons]
        exact congrArg₂ List.cons hentry hids
      · rw [List.length_cons, List.length_cons, hlength]
        refine h.imp_right fun hnone hfail => hnone ?_
        unfold EntriesFail at hfail ⊢
        rw [List.any_cons, hfail, Bool.or_true]

theorem answerAll_ids {entryOf : BatchRequest → BatchResponseEntry}
    (h : ∀ request, (entryOf request).id = request.id) (requests : List IndexedRequest) :
    Returns (answerAll server entryOf requests) fun entries =>
      entryIds entries = requestIds requests := by
  induction requests with
  | nil => exact returns_pure rfl
  | cons request requests ih =>
    unfold answerAll
    refine returns_bind (returns_any _) fun _ _ => returns_bind (returns_any _) fun _ _ => ?_
    refine returns_bind ih fun entries hentries => returns_pure ?_
    exact congrArg₂ List.cons (h request.1) hentries

theorem executeInTransaction_ids (groupId : Text) (transaction : Option Text)
    (group : List IndexedRequest) (references : BatchReferences) :
    Returns (executeInTransaction server groupId transaction group references) fun result =>
      entryIds result.1 = requestIds group := by
  unfold executeInTransaction
  refine returns_bind (executeGroup_ids server transaction true group references) ?_
  rintro ⟨entries, inner⟩ ⟨hids, hlength⟩
  dsimp only at hids hlength ⊢
  split
  · refine returns_bind (returns_any _) fun _ _ => ?_
    refine returns_bind (answerAll_ids server (fun _ => rfl) _) fun rest hrest => returns_pure ?_
    show (entries ++ rest).map _ = _
    rw [List.map_append, show entries.map (·.id) = _ from hids, show rest.map (·.id) = _ from hrest,
      requestIds, requestIds, ← List.map_append, List.take_append_drop]
    rfl
  · next hsucceed =>
    refine returns_bind (returns_any _) fun _ _ => returns_pure ?_
    rw [hids, hlength (.inr hsucceed), List.take_length]

theorem executeAtomicGroup_ids (groupId : Text) (group requests : List IndexedRequest)
    (references : BatchReferences) :
    Returns (executeAtomicGroup server groupId group requests references) fun result =>
      entryIds result.1 = requestIds group := by
  unfold executeAtomicGroup
  refine returns_bind (returns_any _) fun _ _ => returns_bind (returns_any _) fun result _ => ?_
  split
  · split
    · exact returns_fail
    · exact returns_bind (answerAll_ids server (fun _ => rfl) group) fun entries hentries =>
        returns_pure hentries
  · refine returns_bind (returns_attempt (executeInTransaction_ids server groupId _ group
      references)) fun result hresult => ?_
    split
    · exact returns_pure (hresult _ rfl)
    · exact returns_bind (returns_any _) fun _ _ => returns_fail

theorem runGroup_ids (groupId : Text) (group requests : List IndexedRequest)
    (references : BatchReferences) :
    Returns (runGroup server groupId group requests references) fun result =>
      entryIds result.1 = requestIds group := by
  unfold runGroup
  refine returns_bind (returns_attempt (executeAtomicGroup_ids server groupId group requests
    references)) fun result hresult => ?_
  split
  · next entries references' =>
    refine returns_pure ?_
    rw [← hresult _ rfl, entryIds, List.map_map]
    rfl
  · split
    · exact returns_fail
    · refine returns_pure ?_
      rw [entryIds, List.map_map]
      rfl

/-! ## The loop -/

def inGroup (groupId : Text) (request : IndexedRequest) : Bool := groupOf request.1 = some groupId

theorem collectFrom_get (groups : Dictionary Text (List IndexedRequest))
    (requests : List IndexedRequest) (groupId : Text) :
    ((collectFrom groups requests).get groupId).getD [] =
      (groups.get groupId).getD [] ++ requests.filter (inGroup groupId) := by
  induction requests generalizing groups with
  | nil => rw [collectFrom, List.filter_nil, List.append_nil]
  | cons request requests ih =>
    rw [collectFrom, List.filter_cons, inGroup]
    cases hgroup : groupOf request.1 with
    | none =>
      rw [ih, if_neg (by simp)]
    | some other =>
      dsimp only
      rw [ih, Dictionary.get_set]
      by_cases hother : other = groupId
      · rw [if_pos hother, if_pos (by simp [hother]), hother, Option.getD_some, List.append_assoc,
          List.singleton_append]
      · rw [if_neg hother, if_neg (by simp [hother])]

theorem collectAtomicityGroups_get (requests : List BatchRequest) (groupId : Text) :
    ((collectAtomicityGroups requests).get groupId).getD [] =
      requests.zipIdx.filter (inGroup groupId) := collectFrom_get .empty _ groupId

/-- What has been answered, and what waits for the requests to come. -/
structure Answered (done rest : List IndexedRequest) (loop : LoopState) : Prop where
  responses : entryIds loop.responses = requestIds done
  waiting : ∀ groupId, match loop.executedGroups.get groupId with
    | none => done.filter (inGroup groupId) = []
    | some pending => entryIds pending = requestIds (rest.filter (inGroup groupId))

section Loop

variable {server} {done rest : List IndexedRequest} {request : IndexedRequest} {loop : LoopState}

/-- The groups that the answered request is not of wait for the same requests as before. -/
theorem Answered.waiting_of_ne (h : Answered done (request :: rest) loop) {groupId : Text}
    (hne : groupOf request.1 ≠ some groupId) :
    match loop.executedGroups.get groupId with
    | none => (done ++ [request]).filter (inGroup groupId) = []
    | some pending => entryIds pending = requestIds (rest.filter (inGroup groupId)) := by
  have hnot : inGroup groupId request = false := by simp [inGroup, hne]
  have hwaiting := h.waiting groupId
  split at hwaiting
  · rw [List.filter_append, hwaiting, List.filter_singleton, hnot]
    rfl
  · rw [hwaiting, List.filter_cons, hnot]
    rfl

theorem handleSingle_answered (h : Answered done (request :: rest) loop)
    (hgroup : groupOf request.1 = none) :
    Returns (handleSingle server request loop) (Answered (done ++ [request]) rest) := by
  unfold handleSingle
  refine returns_bind (executeGroup_ids server none false [request] loop.references) ?_
  rintro ⟨entries, references⟩ ⟨hids, hlength⟩
  have hone : entries.length = 1 := hlength (.inl rfl)
  refine returns_pure ⟨?_, fun groupId => h.waiting_of_ne (by simp [hgroup])⟩
  dsimp only at hids ⊢
  rw [hone] at hids
  rw [entryIds, List.map_append, requestIds, List.map_append]
  exact congrArg₂ _ h.responses hids

/-- The first entry that waits is that of the request that has been reached. -/
theorem Answered.next {groupId : Text} {pending : List BatchResponseEntry}
    {references : BatchReferences} (h : Answered done (request :: rest) loop)
    (hgroup : groupOf request.1 = some groupId)
    (hids : entryIds pending = requestIds ((request :: rest).filter (inGroup groupId))) :
    Answered (done ++ [request]) rest ⟨loop.responses ++ pending.take 1,
      loop.executedGroups.set groupId pending.tail, references⟩ := by
  have hin : inGroup groupId request = true := by simp [inGroup, hgroup]
  rw [List.filter_cons, hin, if_pos rfl] at hids
  cases pending with
  | nil => cases hids
  | cons entry pending =>
    obtain ⟨hentry, hpending⟩ := List.cons.inj hids
    refine ⟨?_, fun other => ?_⟩
    · rw [entryIds, List.map_append, requestIds, List.map_append]
      exact congrArg₂ _ h.responses (congrArg (fun id => [id]) hentry)
    · dsimp only [List.tail_cons]
      rw [Dictionary.get_set]
      by_cases hother : groupId = other
      · rw [if_pos hother]
        dsimp only
        rw [← hother]
        exact hpending
      · rw [if_neg hother]
        exact h.waiting_of_ne (by simp [hgroup, hother])

theorem handleMember_answered {requests : List BatchRequest} {groupId : Text}
    (hall : done ++ request :: rest = requests.zipIdx) (h : Answered done (request :: rest) loop)
    (hgroup : groupOf request.1 = some groupId) :
    Returns (handleMember server groupId
        (((collectAtomicityGroups requests).get groupId).getD []) requests.zipIdx loop)
      (Answered (done ++ [request]) rest) := by
  unfold handleMember
  have hwaiting := h.waiting groupId
  cases hpending : loop.executedGroups.get groupId with
  | some pending =>
    rw [hpending] at hwaiting
    exact returns_bind (returns_pure hwaiting) fun result hids => returns_pure (h.next hgroup hids)
  | none =>
    rw [hpending] at hwaiting
    -- no request of the group has been answered, so all of them are still to come
    have hgroupIds : requestIds (((collectAtomicityGroups requests).get groupId).getD []) =
        requestIds ((request :: rest).filter (inGroup groupId)) := by
      rw [collectAtomicityGroups_get, ← hall, List.filter_append, hwaiting, List.nil_append]
    refine returns_bind (runGroup_ids server groupId _ _ _) fun result hids => ?_
    exact returns_pure (h.next hgroup (hids.trans hgroupIds))

theorem handleEach_answered {requests : List BatchRequest}
    (hall : done ++ rest = requests.zipIdx) (h : Answered done rest loop) :
    Returns (handleEach server (collectAtomicityGroups requests) requests.zipIdx rest loop)
      (Answered requests.zipIdx []) := by
  induction rest generalizing done loop with
  | nil =>
    rw [List.append_nil] at hall
    rw [← hall]
    exact returns_pure h
  | cons request rest ih =>
    unfold handleEach
    have hnext : done ++ [request] ++ rest = requests.zipIdx := by
      rw [List.append_assoc]
      exact hall
    cases hgroup : groupOf request.1 with
    | none => exact returns_bind (handleSingle_answered h hgroup) fun loop' h' => ih hnext h'
    | some groupId =>
      exact returns_bind (handleMember_answered hall h hgroup) fun loop' h' => ih hnext h'

end Loop

theorem handleRequests_ids (requests : List BatchRequest) :
    Returns (handleRequests server requests) fun responses =>
      entryIds responses = requests.map (·.id) := by
  unfold handleRequests
  refine returns_bind (returns_any _) fun _ _ => returns_bind (returns_any _) fun _ _ => ?_
  refine returns_bind (handleEach_answered (List.nil_append _) ⟨rfl, fun _ => rfl⟩) fun loop hloop => ?_
  refine returns_bind (returns_any _) fun _ _ => returns_pure ?_
  rw [hloop.responses, requestIds]
  show requests.zipIdx.map (BatchRequest.id ∘ Prod.fst) = _
  rw [← List.map_map, List.zipIdx_map_fst]

/-! ## Identifiers that have been read -/

theorem sanitizeBatchToken_eq {value token : Option Text} {field : String}
    (h : sanitizeBatchToken value field = .ok token) : token = value.map trimText := by
  cases value with
  | none => exact (Except.ok.inj h).symm
  | some value =>
    unfold sanitizeBatchToken at h
    dsimp only at h
    split at h
    · cases h
    · split at h
      · cases h
      · exact (Except.ok.inj h).symm

theorem sanitizeRequest_id {request sanitized : BatchRequest}
    (h : sanitizeRequest request = .ok sanitized) : sanitized.id = request.id.map trimText := by
  obtain ⟨id, hid, h⟩ := Outcome.bind_eq_ok.mp h
  obtain ⟨group, _, h⟩ := Outcome.bind_eq_ok.mp h
  rw [← sanitizeBatchToken_eq hid]
  split at h
  · rw [← Except.ok.inj h]
  · obtain ⟨deps, _, h⟩ := Outcome.bind_eq_ok.mp h
    rw [← Except.ok.inj h]

def sanitizedIds (requests : List BatchRequest) : List (Option Text) :=
  requests.map fun request => request.id.map trimText

theorem sanitizeBatchRequestIdentifiers_ids {requests sanitized : List BatchRequest}
    (h : sanitizeBatchRequestIdentifiers requests = .ok sanitized) :
    sanitized.map (·.id) = sanitizedIds requests := by
  induction requests generalizing sanitized with
  | nil =>
    rw [← Except.ok.inj h]
    rfl
  | cons request requests ih =>
    obtain ⟨first, hfirst, h⟩ := Outcome.bind_eq_ok.mp h
    obtain ⟨rest, hrest, h⟩ := Outcome.bind_eq_ok.mp h
    rw [← Except.ok.inj h]
    exact congrArg₂ List.cons (sanitizeRequest_id hfirst) (ih hrest)

theorem admit_ids {payload : BatchPayload} {requests admitted : List BatchRequest}
    (h : admitPayload server payload requests = .ok admitted) :
    admitted.map (·.id) = sanitizedIds requests := by
  cases payload with
  | json payload =>
    obtain ⟨_, _, h⟩ := Outcome.bind_eq_ok.mp h
    obtain ⟨_, _, h⟩ := Outcome.bind_eq_ok.mp h
    obtain ⟨sanitized, hsanitized, h⟩ := Outcome.bind_eq_ok.mp h
    obtain ⟨_, _, h⟩ := Outcome.bind_eq_ok.mp h
    obtain ⟨_, _, h⟩ := Outcome.bind_eq_ok.mp h
    obtain ⟨_, _, h⟩ := Outcome.bind_eq_ok.mp h
    rw [← Except.ok.inj h]
    exact sanitizeBatchRequestIdentifiers_ids hsanitized
  | multipart boundary chunks =>
    obtain ⟨_, _, h⟩ := Outcome.bind_eq_ok.mp h
    exact sanitizeBatchRequestIdentifiers_ids h

theorem handleParsed_ids (payload : BatchPayload) (requests : List BatchRequest) :
    Returns (handleParsed server payload requests) fun responses =>
      entryIds responses = sanitizedIds requests := by
  unfold handleParsed
  refine returns_bind (returns_ofExcept fun admitted h => admit_ids server h) fun admitted h => ?_
  exact returns_mono (handleRequests_ids server admitted) fun responses hids => hids.trans h

/-! ## Serializations -/

/-- The bytes are the parts of the entries in their order, between lines that open and close
changesets, up to a closing line. -/
inductive PartsInOrder (rt : ResponseRuntime) : List BatchResponseEntry → Bytes → Prop where
  | closing (boundary : Text) : PartsInOrder rt [] (utf8Bytes (closingLine boundary))
  | part (boundary : Text) (entry : BatchResponseEntry) {entries : List BatchResponseEntry}
    {bytes : Bytes} (h : PartsInOrder rt entries bytes) :
    PartsInOrder rt (entry :: entries) (renderPart rt boundary entry ++ bytes)
  | openingChangeset (boundary inner : Text) {entries : List BatchResponseEntry} {bytes : Bytes}
    (h : PartsInOrder rt entries bytes) :
    PartsInOrder rt entries (utf8Bytes ("--".toList ++ boundary ++
      "\r\nContent-Type: multipart/mixed; boundary=".toList ++ inner ++ crlf ++ crlf) ++ bytes)
  | closingChangeset (inner : Text) {entries : List BatchResponseEntry} {bytes : Bytes}
    (h : PartsInOrder rt entries bytes) :
    PartsInOrder rt entries (utf8Bytes (closingLine inner) ++ bytes)

theorem addToGroups_entries (groups : List ResponseGroup) (entry : BatchResponseEntry) :
    (addToGroups groups entry).flatMap (·.entries) = groups.flatMap (·.entries) ++ [entry] := by
  unfold addToGroups
  split
  · dsimp only
    split
    · next id members hlast =>
      split
      · have hgroups : groups = groups.dropLast ++ [.changeset id members] := by
          obtain ⟨hne, hget⟩ := List.getLast?_eq_some_iff.mp hlast
          rw [hget, List.dropLast_concat]
        conv_rhs => rw [hgroups]
        rw [List.flatMap_append, List.flatMap_append, List.append_assoc]
        simp [ResponseGroup.entries]
      · rw [List.flatMap_append]
        rfl
    · rw [List.flatMap_append]
      rfl
  · rw [List.flatMap_append]
    rfl

theorem groupResponses_entries (responses : List BatchResponseEntry) :
    (groupResponses responses).flatMap (·.entries) = responses := by
  have hfold (groups : List ResponseGroup) (responses : List BatchResponseEntry) :
      (responses.foldl addToGroups groups).flatMap (·.entries) =
        groups.flatMap (·.entries) ++ responses := by
    induction responses generalizing groups with
    | nil => rw [List.foldl_nil, List.append_nil]
    | cons entry responses ih =>
      rw [List.foldl_cons, ih, addToGroups_entries, List.append_assoc, List.singleton_append]
  exact hfold [] responses

section Serialization

variable {rt : ResponseRuntime}

theorem PartsInOrder.parts {entries more : List BatchResponseEntry} {bytes : Bytes}
    (boundary : Text) (h : PartsInOrder rt more bytes) :
    PartsInOrder rt (entries ++ more) (entries.flatMap (renderPart rt boundary) ++ bytes) := by
  induction entries with
  | nil => exact h
  | cons entry entries ih =>
    rw [List.flatMap_cons, List.append_assoc]
    exact .part boundary entry ih

theorem renderGroups_inOrder (boundary : Text) (groups : List ResponseGroup) (randoms : List Text)
    {entries : List BatchResponseEntry} {bytes : Bytes} (h : PartsInOrder rt entries bytes) :
    PartsInOrder rt (groups.flatMap (·.entries) ++ entries)
      (renderGroups rt boundary groups randoms ++ bytes) := by
  induction groups generalizing randoms with
  | nil => exact h
  | cons group groups ih =>
    cases group with
    | single entry =>
      rw [renderGroups, List.append_assoc]
      exact .part boundary entry (ih randoms)
    | changeset id members =>
      rw [renderGroups, renderChangesetPart, List.flatMap_cons, List.append_assoc, List.append_assoc,
        List.append_assoc, List.append_assoc]
      exact .openingChangeset boundary _ (.parts _ (.closingChangeset _ (ih randoms.tail)))

theorem serializeMultipartBatch_inOrder (random : Text) (randoms : List Text)
    (responses : List BatchResponseEntry) :
    PartsInOrder rt responses (serializeMultipartBatch rt random randoms responses) := by
  have hrendered : PartsInOrder rt _ _ :=
    renderGroups_inOrder (generateBoundary "batch".toList random) (groupResponses responses) randoms
      (.closing (generateBoundary "batch".toList random))
  rw [groupResponses_entries, List.append_nil] at hrendered
  exact hrendered

/-- A part begins with the id of its entry. -/
theorem renderPart_contentId (boundary : Text) {entry : BatchResponseEntry} {id : Text}
    (hid : entry.id = some id) (hne : id ≠ []) :
    utf8Bytes ("--".toList ++ boundary ++ "\r\nContent-ID: ".toList ++ id ++ crlf) <+:
      renderPart rt boundary entry := by
  have hheaders : buildPartHeaders entry = "Content-ID: ".toList ++ id ++ crlf ++
      "Content-Type: application/http\r\nContent-Transfer-Encoding: binary".toList := by
    unfold buildPartHeaders
    dsimp only
    rw [if_pos (by simp [hasText, hid, hne]), hid]
    simp [joinTexts, crlf]
  unfold renderPart
  rw [hheaders]
  refine ⟨utf8Bytes ("Content-Type: application/http\r\nContent-Transfer-Encoding: binary".toList ++
    crlf ++ crlf) ++ renderHttpResponse rt entry ++ utf8Bytes crlf, ?_⟩
  simp [utf8Bytes, crlf]

theorem normalizeJsonBatchResponses_ids (rt : Runtime) (responses : List BatchResponseEntry) :
    entryIds (normalizeJsonBatchResponses rt responses) = entryIds responses := by
  rw [entryIds, normalizeJsonBatchResponses, List.map_map, entryIds]
  refine List.map_congr_left fun entry _ => ?_
  show (normalizeJsonBatchResponse rt entry).id = entry.id
  unfold normalizeJsonBatchResponse
  split <;> rfl

end Serialization

/-- The response of a batch has an entry for each request, in order and with its id. -/
def Answers (server : BatchServer σ) (ids : List (Option Text)) : BatchResult → Prop
  | .json entries => entryIds entries = ids
  | .multipart _ body => ∃ entries, entryIds entries = ids ∧ PartsInOrder server.service.rt entries body

/-- Unless it is rejected as a whole, a batch is answered with one entry for each request, in order
and with its id. -/
theorem handleBatch_answers (declared : Option Rat) (payload : BatchPayload) (random : Text)
    (randoms : List Text) :
    Returns (handleBatch server declared payload random randoms) fun result =>
      ∃ requests, readPayload server payload = .ok requests ∧
        Answers server (sanitizedIds requests) result := by
  unfold handleBatch
  refine returns_bind (returns_any _) fun _ _ => returns_bind (returns_any _) fun _ _ => ?_
  refine returns_bind (returns_ofExcept fun requests h => h) fun requests hread => ?_
  refine returns_bind (handleParsed_ids server payload requests) fun responses hids => ?_
  refine returns_pure ⟨requests, hread, ?_⟩
  unfold serializeResponses
  split
  · exact ⟨responses, hids, serializeMultipartBatch_inOrder random randoms responses⟩
  · exact (normalizeJsonBatchResponses_ids _ responses).trans hids

end Responses

end LoopbackOData
