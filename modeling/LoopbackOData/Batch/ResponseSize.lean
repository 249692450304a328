import LoopbackOData.Batch.Responses

/-!
# Sizes of responses

What the tracker counts for a list of entries, and the bytes of the response that is sent. The
tracker counts the body of an entry twice, and the boundaries of a changeset with a fixed length.
-/

set_option autoImplicit false

namespace LoopbackOData

/-! ## Lengths of texts -/

theorem byteLength_append (s t : Text) :
    byteLength (s ++ t) = byteLength s + byteLength t := by
  unfold byteLength utf8Bytes
  rw [List.flatMap_append, List.length_append]

theorem byteLength_cons (c : Char) (s : Text) :
    byteLength (c :: s) = byteLength [c] + byteLength s := byteLength_append [c] s

/-- The number of line breaks that are written with their escapes. -/
def escapedLineBreaks : Text → Nat
  | '\\' :: 'r' :: '\\' :: 'n' :: rest => escapedLineBreaks rest + 1
  | _ :: rest => escapedLineBreaks rest
  | [] => 0

theorem byteLength_replaceEscapedLineBreaks (s : Text) :
    byteLength (replaceEscapedLineBreaks s) + 2 * escapedLineBreaks s = byteLength s := by
  fun_induction replaceEscapedLineBreaks s with
  | case1 rest ih =>
    have hescaped : byteLength ('\\' :: 'r' :: '\\' :: 'n' :: rest) = 4 + byteLength rest :=
      byteLength_append ['\\', 'r', '\\', 'n'] rest
    have hbreak (s : Text) : byteLength ('\r' :: '\n' :: s) = 2 + byteLength s :=
      byteLength_append ['\r', '\n'] s
    rw [hescaped, hbreak, escapedLineBreaks]
    omega
  | case2 c rest hno ih =>
    rw [byteLength_cons c (replaceEscapedLineBreaks rest), byteLength_cons c rest,
      escapedLineBreaks]
    · omega
    · exact hno
  | case3 => rfl

/-- No escape begins in the first text and ends in what follows, which begins with a line break. -/
theorem escapedLineBreaks_append (s t : Text) :
    escapedLineBreaks (s ++ '\r' :: t) = escapedLineBreaks s + escapedLineBreaks ('\r' :: t) := by
  fun_induction escapedLineBreaks s with
  | case1 rest ih =>
    rw [List.cons_append, List.cons_append, List.cons_append, List.cons_append, escapedLineBreaks,
      ih]
    omega
  | case2 c rest hno ih =>
    rw [List.cons_append, escapedLineBreaks]
    · exact ih
    · intro rest' hc hrest
      subst hc
      -- the escape ends in the first text, or else the line break is one of its characters
      rcases rest with _ | ⟨c₁, _ | ⟨c₂, _ | ⟨c₃, rest⟩⟩⟩
      · simp at hrest
      · simp at hrest
      · simp at hrest
      · obtain ⟨rfl, rfl, rfl, -⟩ : c₁ = 'r' ∧ c₂ = '\\' ∧ c₃ = 'n' ∧ _ := by simpa using hrest
        exact hno rest rfl rfl
  | case3 => rw [List.nil_append, Nat.zero_add]

theorem escapedLineBreaks_plain {s : Text} (h : '\\' ∉ s) (t : Text) :
    escapedLineBreaks (s ++ t) = escapedLineBreaks t := by
  induction s with
  | nil => rfl
  | cons c s ih =>
    rw [List.cons_append, escapedLineBreaks]
    · exact ih fun hmem => h (List.mem_cons_of_mem _ hmem)
    · rintro _ rfl
      exact absurd List.mem_cons_self h

/-! ## Parts -/

section Parts

variable (rt : ResponseRuntime)

theorem estimateSerializedBodyLength_eq (body : ResponseBody) (headers : Headers) :
    estimateSerializedBodyLength body headers =
      (((serializeEntryBody body headers).1.getD []).length,
        (serializeEntryBody body headers).2) := by
  cases body with
  | undefined => rfl
  | buffer bytes => rfl
  | value v => cases v <;> rfl

theorem length_renderHttpResponse (entry : BatchResponseEntry) :
    (renderHttpResponse rt entry).length = estimateHttpResponseLength rt entry := by
  unfold renderHttpResponse estimateHttpResponseLength
  rw [estimateSerializedBodyLength_eq]
  generalize serializeEntryBody entry.body _ = serialized
  obtain ⟨body, headers⟩ := serialized
  dsimp only
  have hempty : body.getD [] ≠ [] ↔ 0 < (body.getD []).length := List.length_pos_iff.symm
  simp only [hempty, List.length_append]
  rfl

/-- The bytes of a part whose boundary has this length. -/
def partBytes (boundary : Nat) (entry : BatchResponseEntry) : Nat :=
  boundary + byteLength (buildPartHeaders entry) + estimateHttpResponseLength rt entry + 10

theorem length_renderPart (boundary : Text) (entry : BatchResponseEntry) :
    (renderPart rt boundary entry).length = partBytes rt (byteLength boundary) entry := by
  have hcrlf : byteLength crlf = 2 := rfl
  have hdashes : byteLength "--".toList = 2 := rfl
  unfold renderPart partBytes
  rw [List.length_append, List.length_append, length_renderHttpResponse]
  show byteLength _ + _ + byteLength _ = _
  simp only [byteLength_append, hcrlf, hdashes]
  omega

/-- The escaped line breaks in the id of an entry. -/
def escapedInId (entry : BatchResponseEntry) : Nat := escapedLineBreaks (entry.id.getD [])

theorem escapedLineBreaks_plain' {s : Text} (h : '\\' ∉ s) : escapedLineBreaks s = 0 := by
  have hplain := escapedLineBreaks_plain h []
  rwa [List.append_nil] at hplain

/-- The estimate of a part takes the escaped line breaks of its id for line breaks. -/
theorem estimateEntryBytes_eq {boundary : Text} (hboundary : '\\' ∉ boundary)
    (entry : BatchResponseEntry) :
    estimateEntryBytes rt boundary entry + 2 * escapedInId entry =
      partBytes rt (byteLength boundary) entry := by
  have hcrlf : byteLength crlf = 2 := rfl
  have hdashes : byteLength "--".toList = 2 := rfl
  have hescaped : escapedLineBreaks ("--".toList ++ boundary ++ crlf ++ buildPartHeaders entry ++
      crlf ++ crlf) = escapedInId entry := by
    have hopening : '\\' ∉ "--".toList ++ boundary ++ crlf := by
      simp only [List.mem_append, not_or]
      exact ⟨⟨by decide, hboundary⟩, by decide⟩
    unfold buildPartHeaders escapedInId
    dsimp only
    by_cases hid : hasText entry.id = true
    · rw [if_pos hid]
      have hrest : '\\' ∉ crlf ++ "Content-Type: application/http".toList ++ crlf ++
          "Content-Transfer-Encoding: binary".toList ++ crlf ++ crlf := by decide
      have hlabel : '\\' ∉ "Content-ID: ".toList := by decide
      rw [show "--".toList ++ boundary ++ crlf ++ joinTexts crlf
          [("Content-ID: ".toList ++ entry.id.getD []), "Content-Type: application/http".toList,
            "Content-Transfer-Encoding: binary".toList] ++ crlf ++ crlf =
        ("--".toList ++ boundary ++ crlf) ++ ("Content-ID: ".toList ++ (entry.id.getD [] ++
          (crlf ++ "Content-Type: application/http".toList ++ crlf ++
            "Content-Transfer-Encoding: binary".toList ++ crlf ++ crlf))) by
        simp [joinTexts],
        escapedLineBreaks_plain hopening, escapedLineBreaks_plain hlabel]
      have happend := escapedLineBreaks_append (entry.id.getD []) (['\n'] ++
        "Content-Type: application/http".toList ++ crlf ++
          "Content-Transfer-Encoding: binary".toList ++ crlf ++ crlf)
      exact happend.trans (congrArg (_ + ·) (escapedLineBreaks_plain' hrest))
    · rw [if_neg hid]
      have hnone : entry.id.getD [] = [] := by simpa [hasText] using hid
      rw [hnone]
      refine escapedLineBreaks_plain' ?_
      simp only [List.mem_append, not_or]
      exact ⟨⟨⟨⟨⟨by decide, hboundary⟩, by decide⟩, by decide⟩, by decide⟩, by decide⟩
  have hlength := byteLength_replaceEscapedLineBreaks ("--".toList ++ boundary ++ crlf ++
    buildPartHeaders entry ++ crlf ++ crlf)
  rw [hescaped] at hlength
  unfold estimateEntryBytes partBytes
  simp only [byteLength_append, hcrlf, hdashes] at hlength ⊢
  omega

end Parts

/-! ## What the tracker counts -/

section Counting

variable (rt : ResponseRuntime)

def ResponseSizeTracker.total (tracker : ResponseSizeTracker) : Nat :=
  tracker.bufferedBytes + tracker.serializedBytes

def trackAll (tracker : ResponseSizeTracker) :
    List BatchResponseEntry → Except Thrown ResponseSizeTracker
  | [] => finalizeResponseSizeTracker tracker
  | entry :: entries => do
    let tracker ← trackResponseSize rt tracker entry
    trackAll tracker entries

/-- The tracker after an entry, whatever the limit. -/
def countEntry (tracker : ResponseSizeTracker) (entry : BatchResponseEntry) : ResponseSizeTracker :=
  let (increment, active) := if tracker.isMultipart then
      let (addition, active) := prepareMultipartTrackerState tracker.activeChangesetId entry
      (addition + (if hasText entry.atomicityGroup then estimateChangesetEntryBytes rt entry
        else estimateMultipartSingleEntryBytes rt entry), active)
    else (estimateJsonResponseBytes rt.toRuntime entry, tracker.activeChangesetId)
  { tracker with
    responsesCount := tracker.responsesCount + 1
    bufferedBytes := tracker.bufferedBytes + estimateBufferedResponseBytes entry
    serializedBytes := tracker.serializedBytes + increment
    activeChangesetId := active }

/-- The bytes that the end of the response adds. -/
def endBytes (tracker : ResponseSizeTracker) : Nat :=
  if tracker.isMultipart then
    (if hasText tracker.activeChangesetId then estimateChangesetClosingBytes else 0) +
      estimateBatchClosingBytes
  else estimateJsonEnvelopeBytes tracker.responsesCount

theorem enforceResponsePayloadLimit_iff {tracker : ResponseSizeTracker} {limit : Rat}
    (hlimit : tracker.limit = some limit) (hpos : 0 < limit) :
    (∃ t, enforceResponsePayloadLimit tracker = .ok t) ↔ (tracker.total : Rat) ≤ limit := by
  unfold enforceResponsePayloadLimit exceeds ResponseSizeTracker.limited
  rw [hlimit]
  have htrue : decide (0 < limit) = true := decide_eq_true hpos
  simp only [htrue, Bool.true_and, decide_eq_true_eq]
  split
  · next hlt =>
    refine ⟨fun hok => ?_, fun hle => absurd hle (not_le.mpr hlt)⟩
    obtain ⟨t, hok⟩ := hok
    cases hok
  · next hlt => exact ⟨fun _ => not_lt.mp hlt, fun _ => ⟨tracker, rfl⟩⟩

theorem enforceResponsePayloadLimit_eq {tracker t : ResponseSizeTracker}
    (h : enforceResponsePayloadLimit tracker = .ok t) : t = tracker := by
  unfold enforceResponsePayloadLimit at h
  split at h
  · cases h
  · exact (Except.ok.inj h).symm

variable {tracker : ResponseSizeTracker} {limit : Rat}

theorem limited_of_pos (hlimit : tracker.limit = some limit) (hpos : 0 < limit) :
    tracker.limited = true := by
  unfold ResponseSizeTracker.limited
  rw [hlimit]
  exact decide_eq_true hpos

theorem trackResponseSize_eq (hlimit : tracker.limit = some limit) (hpos : 0 < limit)
    (entry : BatchResponseEntry) :
    trackResponseSize rt tracker entry =
      enforceResponsePayloadLimit (countEntry rt tracker entry) := by
  unfold trackResponseSize
  have hlimited : ResponseSizeTracker.limited
      { tracker with responsesCount := tracker.responsesCount + 1 } = true :=
    limited_of_pos hlimit hpos
  dsimp only
  rw [if_neg (by rw [hlimited]; simp)]
  rfl

theorem finalizeResponseSizeTracker_iff (hlimit : tracker.limit = some limit) (hpos : 0 < limit) :
    (∃ t, finalizeResponseSizeTracker tracker = .ok t) ↔
      ((tracker.total + endBytes tracker : Nat) : Rat) ≤ limit := by
  unfold finalizeResponseSizeTracker endBytes
  rw [if_neg (by rw [limited_of_pos hlimit hpos]; simp)]
  have hiff (bytes : Nat) (active : Option Text) := enforceResponsePayloadLimit_iff
    (show ResponseSizeTracker.limit { tracker with
      serializedBytes := bytes, activeChangesetId := active } = some limit from hlimit) hpos
  simp only [ResponseSizeTracker.total, Nat.add_assoc] at hiff ⊢
  split
  · exact hiff _ _
  · exact hiff _ tracker.activeChangesetId

theorem countEntry_total (entry : BatchResponseEntry) :
    tracker.total ≤ (countEntry rt tracker entry).total := by
  unfold countEntry ResponseSizeTracker.total
  dsimp only
  split <;> omega

theorem total_le_foldl (entries : List BatchResponseEntry) :
    tracker.total ≤ (entries.foldl (countEntry rt) tracker).total := by
  induction entries generalizing tracker with
  | nil => exact Nat.le_refl _
  | cons entry entries ih => exact Nat.le_trans (countEntry_total rt entry) ih

/-- Entries are admitted when all that is counted to the end is within the limit. -/
theorem trackAll_iff (hlimit : tracker.limit = some limit) (hpos : 0 < limit)
    (entries : List BatchResponseEntry) :
    (∃ t, trackAll rt tracker entries = .ok t) ↔
      (((entries.foldl (countEntry rt) tracker).total +
        endBytes (entries.foldl (countEntry rt) tracker) : Nat) : Rat) ≤ limit := by
  induction entries generalizing tracker with
  | nil => exact finalizeResponseSizeTracker_iff hlimit hpos
  | cons entry entries ih =>
    have hcounted : (countEntry rt tracker entry).limit = some limit := hlimit
    rw [List.foldl_cons, ← ih hcounted, trackAll, trackResponseSize_eq rt hlimit hpos]
    constructor
    · rintro ⟨t, h⟩
      obtain ⟨between, hbetween, h⟩ := Outcome.bind_eq_ok.mp h
      rw [enforceResponsePayloadLimit_eq hbetween] at h
      exact ⟨t, h⟩
    · rintro ⟨t, h⟩
      have hall := (ih hcounted).mp ⟨t, h⟩
      have hle : ((countEntry rt tracker entry).total : Rat) ≤ limit := by
        refine le_trans (Nat.cast_le.mpr ?_) hall
        exact Nat.le_trans (total_le_foldl rt entries) (Nat.le_add_right _ _)
      obtain ⟨between, hbetween⟩ := (enforceResponsePayloadLimit_iff hcounted hpos).mpr hle
      refine ⟨t, Outcome.bind_eq_ok.mpr ⟨between, hbetween, ?_⟩⟩
      rw [enforceResponsePayloadLimit_eq hbetween]
      exact h

end Counting

/-! ## Groups -/

section Groups

variable (rt : ResponseRuntime)

/-- The changeset that the next entry may join. -/
def openChangeset (groups : List ResponseGroup) : Option Text :=
  match groups.getLast? with
  | some (.changeset id _) => some id
  | _ => none

theorem addToGroups_single {entry : BatchResponseEntry} (h : ¬ hasText entry.atomicityGroup = true)
    (groups : List ResponseGroup) : addToGroups groups entry = groups ++ [.single entry] := by
  unfold addToGroups
  rw [if_neg h]

theorem addToGroups_join {entry : BatchResponseEntry} {groups : List ResponseGroup} {id : Text}
    (h : hasText entry.atomicityGroup = true) (hid : entry.atomicityGroup = some id)
    (hopen : openChangeset groups = some id) :
    ∃ before members, groups = before ++ [.changeset id members] ∧
      addToGroups groups entry = before ++ [.changeset id (members ++ [entry])] := by
  unfold openChangeset at hopen
  split at hopen
  · next id' members hlast =>
    obtain rfl := Option.some.inj hopen
    obtain ⟨hne, hget⟩ := List.getLast?_eq_some_iff.mp hlast
    refine ⟨groups.dropLast, members, by rw [hget, List.dropLast_concat], ?_⟩
    unfold addToGroups
    rw [if_pos h, hlast, hid]
    dsimp only [Option.getD_some]
    rw [if_pos rfl]
  · cases hopen

theorem addToGroups_begin {entry : BatchResponseEntry} {groups : List ResponseGroup} {id : Text}
    (h : hasText entry.atomicityGroup = true) (hid : entry.atomicityGroup = some id)
    (hopen : openChangeset groups ≠ some id) :
    addToGroups groups entry = groups ++ [.changeset id [entry]] := by
  unfold addToGroups
  unfold openChangeset at hopen
  rw [if_pos h, hid]
  dsimp only [Option.getD_some]
  cases hlast : groups.getLast? with
  | none => rfl
  | some group =>
    cases group with
    | single entry => rfl
    | changeset id' members =>
      rw [hlast] at hopen
      dsimp only at hopen ⊢
      rw [if_neg fun heq => hopen (congrArg some heq)]

theorem openChangeset_concat (groups : List ResponseGroup) (group : ResponseGroup) :
    openChangeset (groups ++ [group]) = openChangeset [group] := by
  unfold openChangeset
  rw [List.getLast?_concat]
  rfl

/-- What the tracker counts for a group. -/
def estimateGroupBytes : ResponseGroup → Nat
  | .single entry => estimateMultipartSingleEntryBytes rt entry
  | .changeset _ entries =>
    estimateChangesetStartBytes + (entries.map (estimateChangesetEntryBytes rt)).sum +
      estimateChangesetClosingBytes

def closesBytes (active : Option Text) : Nat :=
  if hasText active then estimateChangesetClosingBytes else 0

/-- The tracker of a multipart response has counted the groups, but for the end of the last one. -/
structure CountsGroups (groups : List ResponseGroup) (tracker : ResponseSizeTracker) : Prop where
  multipart : tracker.isMultipart = true
  bytes : tracker.serializedBytes + closesBytes tracker.activeChangesetId =
    (groups.map (estimateGroupBytes rt)).sum
  active : tracker.activeChangesetId = openChangeset groups
  named : ∀ id, openChangeset groups = some id → id ≠ []

theorem countsGroups_step {groups : List ResponseGroup} {tracker : ResponseSizeTracker}
    (h : CountsGroups rt groups tracker) (entry : BatchResponseEntry) :
    CountsGroups rt (addToGroups groups entry) (countEntry rt tracker entry) := by
  obtain ⟨hmultipart, hbytes, hactive, hnamed⟩ := h
  by_cases htext : hasText entry.atomicityGroup = true
  · obtain ⟨id, hid⟩ : ∃ id, entry.atomicityGroup = some id := by
      cases hgroup : entry.atomicityGroup with
      | none =>
        rw [hgroup] at htext
        cases htext
      | some id => exact ⟨id, rfl⟩
    have hne : id ≠ [] := by
      rw [hid] at htext
      simpa [hasText] using htext
    by_cases hopen : openChangeset groups = some id
    · obtain ⟨before, members, rfl, hjoined⟩ := addToGroups_join htext hid hopen
      have hsame : tracker.activeChangesetId = entry.atomicityGroup := by rw [hactive, hopen, hid]
      have hstate : prepareMultipartTrackerState tracker.activeChangesetId entry =
          (0, entry.atomicityGroup) := by
        unfold prepareMultipartTrackerState
        rw [if_pos htext, hsame]
        simp
      rw [hjoined]
      refine ⟨hmultipart, ?_, ?_, ?_⟩
      · rw [List.map_append, List.sum_append, List.map_singleton, List.sum_singleton] at hbytes ⊢
        unfold countEntry
        rw [if_pos hmultipart, hstate]
        dsimp only
        rw [if_pos htext, ← hsame]
        simp only [estimateGroupBytes, List.map_append, List.sum_append, List.map_singleton,
          List.sum_singleton] at hbytes ⊢
        omega
      · rw [openChangeset_concat]
        unfold countEntry
        rw [if_pos hmultipart, hstate, hid]
        rfl
      · intro id' h'
        rw [openChangeset_concat] at h'
        rw [← Option.some.inj h']
        exact hne
    · rw [addToGroups_begin htext hid hopen]
      have hother : tracker.activeChangesetId ≠ entry.atomicityGroup := by
        rw [hactive, hid]
        exact hopen
      have hstate : prepareMultipartTrackerState tracker.activeChangesetId entry =
          (closesBytes tracker.activeChangesetId + estimateChangesetStartBytes,
            entry.atomicityGroup) := by
        unfold prepareMultipartTrackerState closesBytes
        rw [if_pos htext]
        dsimp only
        rw [if_pos hother]
        simp only [hother, ne_eq, not_false_eq_true, and_true]
      refine ⟨hmultipart, ?_, ?_, ?_⟩
      · rw [List.map_append, List.sum_append, List.map_singleton, List.sum_singleton]
        unfold countEntry
        rw [if_pos hmultipart, hstate]
        dsimp only
        have hcloses : closesBytes entry.atomicityGroup = estimateChangesetClosingBytes :=
          if_pos htext
        rw [if_pos htext, hcloses]
        simp only [estimateGroupBytes, List.map_singleton, List.sum_singleton]
        omega
      · rw [openChangeset_concat]
        unfold countEntry
        rw [if_pos hmultipart, hstate, hid]
        rfl
      · intro id' h'
        rw [openChangeset_concat] at h'
        rw [← Option.some.inj h']
        exact hne
  · rw [addToGroups_single htext]
    have hstate : prepareMultipartTrackerState tracker.activeChangesetId entry =
        (closesBytes tracker.activeChangesetId, none) := by
      unfold prepareMultipartTrackerState closesBytes
      rw [if_neg htext]
      split
      · rfl
      · next hclosed =>
        cases hopen : openChangeset groups with
        | none => rw [hactive, hopen]
        | some id =>
          rw [hactive, hopen] at hclosed
          exact absurd (by simpa [hasText] using hnamed id hopen) hclosed
    refine ⟨hmultipart, ?_, ?_, ?_⟩
    · rw [List.map_append, List.sum_append, List.map_singleton, List.sum_singleton]
      unfold countEntry
      rw [if_pos hmultipart, hstate]
      dsimp only
      rw [if_neg htext]
      simp only [estimateGroupBytes]
      rw [show closesBytes none = 0 from rfl]
      omega
    · rw [openChangeset_concat]
      unfold countEntry
      rw [if_pos hmultipart, hstate]
      rfl
    · intro id h'
      rw [openChangeset_concat] at h'
      cases h'

theorem countsGroups_foldl {groups : List ResponseGroup} {tracker : ResponseSizeTracker}
    (h : CountsGroups rt groups tracker) (entries : List BatchResponseEntry) :
    CountsGroups rt (entries.foldl addToGroups groups) (entries.foldl (countEntry rt) tracker) := by
  induction entries generalizing groups tracker with
  | nil => exact h
  | cons entry entries ih => exact ih (countsGroups_step rt h entry)

theorem bufferedBytes_foldl (tracker : ResponseSizeTracker) (entries : List BatchResponseEntry) :
    (entries.foldl (countEntry rt) tracker).bufferedBytes =
      tracker.bufferedBytes + (entries.map estimateBufferedResponseBytes).sum := by
  induction entries generalizing tracker with
  | nil => rfl
  | cons entry entries ih =>
    rw [List.foldl_cons, ih, List.map_cons, List.sum_cons, ← Nat.add_assoc]
    rfl

/-- The tracker of a JSON response counts one entry after the other. -/
theorem serializedBytes_foldl {tracker : ResponseSizeTracker} (h : tracker.isMultipart = false)
    (entries : List BatchResponseEntry) :
    (entries.foldl (countEntry rt) tracker).isMultipart = false ∧
      (entries.foldl (countEntry rt) tracker).serializedBytes = tracker.serializedBytes +
        (entries.map (estimateJsonResponseBytes rt.toRuntime)).sum ∧
      (entries.foldl (countEntry rt) tracker).responsesCount =
        tracker.responsesCount + entries.length := by
  induction entries generalizing tracker with
  | nil => exact ⟨h, rfl, rfl⟩
  | cons entry entries ih =>
    obtain ⟨hjson, hbytes, hcount⟩ := @ih (countEntry rt tracker entry) h
    have hfirst : (countEntry rt tracker entry).serializedBytes =
        tracker.serializedBytes + estimateJsonResponseBytes rt.toRuntime entry := by
      unfold countEntry
      rw [if_neg (by rw [h]; simp)]
    refine ⟨hjson, ?_, ?_⟩
    · rw [List.foldl_cons, hbytes, hfirst, List.map_cons, List.sum_cons, Nat.add_assoc]
    · rw [List.foldl_cons, hcount, List.length_cons]
      show tracker.responsesCount + 1 + _ = _
      omega

end Groups

/-! ## Bytes of a multipart response -/

section Multipart

variable (rt : ResponseRuntime)

/-- The bytes of a group, when the boundary around it is as long as that of the estimate. -/
def groupBytes (inner : Text → Nat) : ResponseGroup → Nat
  | .single entry => partBytes rt 14 entry
  | .changeset id entries => 68 + 2 * inner id + (entries.map (partBytes rt (inner id))).sum

/-- The bytes of the boundaries of a group, and of the lines that open and close a changeset. -/
def boundaryBytes (inner : Text → Nat) : ResponseGroup → Nat
  | .single _ => 14
  | .changeset id entries => 68 + inner id * (entries.length + 2)

theorem partBytes_eq (boundary : Nat) (entry : BatchResponseEntry) :
    partBytes rt boundary entry = boundary + partBytes rt 0 entry := by
  unfold partBytes
  omega

theorem sum_partBytes (boundary : Nat) (entries : List BatchResponseEntry) :
    (entries.map (partBytes rt boundary)).sum =
      boundary * entries.length + (entries.map (partBytes rt 0)).sum := by
  induction entries with
  | nil => rfl
  | cons entry entries ih =>
    rw [List.map_cons, List.sum_cons, ih, partBytes_eq, List.map_cons, List.sum_cons,
      List.length_cons, Nat.mul_succ]
    omega

theorem groupBytes_eq (inner : Text → Nat) (group : ResponseGroup) :
    groupBytes rt inner group =
      boundaryBytes inner group + (group.entries.map (partBytes rt 0)).sum := by
  cases group with
  | single entry => exact partBytes_eq rt 14 entry
  | changeset id entries =>
    have hsum := sum_partBytes rt (inner id) entries
    show 68 + 2 * inner id + (entries.map (partBytes rt (inner id))).sum =
      68 + inner id * (entries.length + 2) + (entries.map (partBytes rt 0)).sum
    rw [hsum, Nat.mul_add]
    omega

/-- The boundaries aside, the bytes of the groups are those of the entries. -/
theorem sum_groupBytes (inner : Text → Nat) (entries : List BatchResponseEntry) :
    ((groupResponses entries).map (groupBytes rt inner)).sum =
      ((groupResponses entries).map (boundaryBytes inner)).sum +
        (entries.map (partBytes rt 0)).sum := by
  have hgroups (groups : List ResponseGroup) : (groups.map (groupBytes rt inner)).sum =
      (groups.map (boundaryBytes inner)).sum +
        ((groups.flatMap (·.entries)).map (partBytes rt 0)).sum := by
    induction groups with
    | nil => rfl
    | cons group groups ih =>
      rw [List.map_cons, List.sum_cons, ih, groupBytes_eq, List.map_cons, List.sum_cons,
        List.flatMap_cons, List.map_append, List.sum_append]
      omega
  rw [hgroups, groupResponses_entries]

theorem byteLength_generateBoundary (label random : Text) :
    byteLength (generateBoundary label random) = byteLength label + 1 + byteLength random := by
  unfold generateBoundary
  rw [byteLength_append, byteLength_append]
  rfl

theorem byteLength_closingLine (boundary : Text) :
    byteLength (closingLine boundary) = byteLength boundary + 6 := by
  have hdashes : byteLength "--".toList = 2 := rfl
  have hend : byteLength "--\r\n".toList = 4 := rfl
  unfold closingLine
  rw [byteLength_append, byteLength_append, hdashes, hend]
  omega

theorem length_renderChangesetPart (boundary inner : Text) (entries : List BatchResponseEntry) :
    (renderChangesetPart rt boundary inner entries).length =
      byteLength boundary + 2 * byteLength inner + 54 +
        (entries.map (partBytes rt (byteLength inner))).sum := by
  have hcrlf : byteLength crlf = 2 := rfl
  have hdashes : byteLength "--".toList = 2 := rfl
  have htype : byteLength "\r\nContent-Type: multipart/mixed; boundary=".toList = 42 := rfl
  unfold renderChangesetPart
  rw [List.length_append, List.length_append, List.length_flatMap]
  have hparts : entries.map (fun entry => (renderPart rt inner entry).length) =
      entries.map (partBytes rt (byteLength inner)) :=
    List.map_congr_left fun entry _ => length_renderPart rt inner entry
  rw [hparts]
  show byteLength _ + _ + byteLength _ = _
  simp only [byteLength_append, byteLength_closingLine, hcrlf, hdashes, htype]
  omega

theorem groupBytes_mono {inner inner' : Text → Nat} (h : ∀ id, inner id ≤ inner' id)
    (group : ResponseGroup) : groupBytes rt inner group ≤ groupBytes rt inner' group := by
  rw [groupBytes_eq, groupBytes_eq]
  refine Nat.add_le_add_right ?_ _
  cases group with
  | single entry => exact Nat.le_refl _
  | changeset id entries => exact Nat.add_le_add_left (Nat.mul_le_mul_right _ (h id)) _

/-- The length of the boundary inside a changeset, at most. -/
def innerBoundaryBytes (id : Text) : Nat := byteLength id + 9

theorem length_renderGroups_le {boundary : Text} (hboundary : byteLength boundary ≤ 14)
    (groups : List ResponseGroup) {randoms : List Text}
    (hrandoms : ∀ random ∈ randoms, byteLength random ≤ 8) :
    (renderGroups rt boundary groups randoms).length ≤
      (groups.map (groupBytes rt innerBoundaryBytes)).sum := by
  induction groups generalizing randoms with
  | nil => exact Nat.le_refl _
  | cons group groups ih =>
    cases group with
    | single entry =>
      rw [renderGroups, List.length_append, List.map_cons, List.sum_cons, length_renderPart,
        partBytes_eq]
      have hrest := ih hrandoms
      have hpart : groupBytes rt innerBoundaryBytes (.single entry) = 14 + partBytes rt 0 entry :=
        partBytes_eq rt 14 entry
      omega
    | changeset id entries =>
      rw [renderGroups, List.length_append, List.map_cons, List.sum_cons,
        length_renderChangesetPart, sum_partBytes, byteLength_generateBoundary]
      have hrest := ih fun random hmem => hrandoms random (List.mem_of_mem_tail hmem)
      have hrandom : byteLength (randoms.headD []) ≤ 8 := by
        cases randoms with
        | nil => exact Nat.zero_le _
        | cons random randoms => exact hrandoms random List.mem_cons_self
      have hchangeset : groupBytes rt innerBoundaryBytes (.changeset id entries) =
          68 + 2 * (byteLength id + 9) + ((byteLength id + 9) * entries.length +
            (entries.map (partBytes rt 0)).sum) := by
        rw [← sum_partBytes]
        rfl
      have hinner := Nat.mul_le_mul_right entries.length
        (show byteLength id + 1 + byteLength (randoms.headD []) ≤ byteLength id + 9 by omega)
      omega

theorem length_renderGroups_eq {boundary random : Text} (hboundary : byteLength boundary = 14)
    (hrandom : byteLength random = 8) (groups : List ResponseGroup) {n : Nat}
    (hn : groups.length ≤ n) :
    (renderGroups rt boundary groups (List.replicate n random)).length =
      (groups.map (groupBytes rt innerBoundaryBytes)).sum := by
  induction groups generalizing n with
  | nil => rfl
  | cons group groups ih =>
    cases n with
    | zero => cases hn
    | succ n =>
      have hle := Nat.le_of_succ_le_succ hn
      cases group with
      | single entry =>
        rw [renderGroups, List.length_append, List.map_cons, List.sum_cons, length_renderPart,
          hboundary, ih (Nat.le_succ_of_le hle)]
        rfl
      | changeset id entries =>
        rw [List.replicate_succ, renderGroups, List.length_append, List.map_cons, List.sum_cons,
          length_renderChangesetPart, byteLength_generateBoundary]
        show _ + (renderGroups rt boundary groups (List.replicate n random)).length = _
        rw [ih hle]
        show _ + 2 * (byteLength id + 1 + byteLength random) + 54 + (entries.map (partBytes rt
          (byteLength id + 1 + byteLength random))).sum + _ = _
        have hchangeset : groupBytes rt innerBoundaryBytes (.changeset id entries) =
            68 + 2 * (byteLength id + 9) + (entries.map (partBytes rt (byteLength id + 9))).sum :=
          rfl
        rw [hboundary, hrandom, hchangeset, show byteLength id + 1 + 8 = byteLength id + 9 from rfl]
        omega

theorem sum_estimateEntryBytes {boundary : Text} (hboundary : '\\' ∉ boundary)
    (entries : List BatchResponseEntry) :
    (entries.map (estimateEntryBytes rt boundary)).sum + 2 * (entries.map escapedInId).sum =
      (entries.map (partBytes rt (byteLength boundary))).sum := by
  induction entries with
  | nil => rfl
  | cons entry entries ih =>
    have hentry := estimateEntryBytes_eq rt hboundary entry
    rw [List.map_cons, List.sum_cons, List.map_cons, List.sum_cons, List.map_cons, List.sum_cons]
    omega

/-- The estimate of a group has a boundary of 18 bytes inside a changeset. -/
theorem estimateGroupBytes_eq (group : ResponseGroup) :
    estimateGroupBytes rt group + 2 * (group.entries.map escapedInId).sum =
      groupBytes rt (fun _ => 18) group := by
  cases group with
  | single entry =>
    show estimateEntryBytes rt estimatedBatchBoundary entry + 2 * (escapedInId entry + 0) = _
    rw [Nat.add_zero, estimateEntryBytes_eq rt (by decide)]
    rfl
  | changeset id entries =>
    have hstart : estimateChangesetStartBytes = 80 := by decide
    have hclosing : estimateChangesetClosingBytes = 24 := by decide
    have hentries : (entries.map (estimateChangesetEntryBytes rt)).sum +
        2 * (entries.map escapedInId).sum = (entries.map (partBytes rt 18)).sum :=
      sum_estimateEntryBytes rt (by decide) entries
    show estimateChangesetStartBytes + (entries.map (estimateChangesetEntryBytes rt)).sum +
      estimateChangesetClosingBytes + 2 * (entries.map escapedInId).sum =
        68 + 2 * 18 + (entries.map (partBytes rt 18)).sum
    omega

theorem sum_estimateGroupBytes (entries : List BatchResponseEntry) :
    ((groupResponses entries).map (estimateGroupBytes rt)).sum +
        2 * (entries.map escapedInId).sum =
      ((groupResponses entries).map (groupBytes rt fun _ => 18)).sum := by
  have hgroups (groups : List ResponseGroup) : (groups.map (estimateGroupBytes rt)).sum +
      2 * ((groups.flatMap (·.entries)).map escapedInId).sum =
        (groups.map (groupBytes rt fun _ => 18)).sum := by
    induction groups with
    | nil => rfl
    | cons group groups ih =>
      have hgroup := estimateGroupBytes_eq rt group
      rw [List.map_cons, List.sum_cons, List.flatMap_cons, List.map_append, List.sum_append,
        List.map_cons, List.sum_cons]
      omega
  have h := hgroups (groupResponses entries)
  rwa [groupResponses_entries] at h

end Multipart

/-! ## Bytes of a JSON response -/

section JsonBytes

theorem byteLength_printItems (values : List Json.Value) :
    byteLength (Json.printItems values) =
      1 + values.length + (values.map fun value => byteLength (Json.print value)).sum := by
  induction values with
  | nil => rfl
  | cons value values ih =>
    have hcomma : byteLength [','] = 1 := rfl
    rw [Json.printItems, byteLength_cons, byteLength_append, ih, hcomma, List.map_cons,
      List.sum_cons, List.length_cons]
    omega

theorem byteLength_print_arr (values : List Json.Value) :
    byteLength (Json.print (.arr values)) =
      2 + (values.length - 1) + (values.map fun value => byteLength (Json.print value)).sum := by
  cases values with
  | nil => rfl
  | cons value values =>
    have hbracket : byteLength ['['] = 1 := rfl
    rw [Json.print, byteLength_cons, byteLength_append, byteLength_printItems, hbracket,
      List.map_cons, List.sum_cons, List.length_cons]
    omega

/-- The bytes of a field behind another one. -/
def fieldBytes (key : Text) (value : Json.Value) : Nat :=
  2 + byteLength (Json.quote key) + byteLength (Json.print value)

theorem byteLength_printFields (fields : List (Text × Json.Value)) :
    byteLength (Json.printFields fields) =
      1 + (fields.map fun field => fieldBytes field.1 field.2).sum := by
  induction fields with
  | nil => rfl
  | cons field fields ih =>
    obtain ⟨key, value⟩ := field
    have hcomma : byteLength [','] = 1 := rfl
    have hcolon : byteLength [':'] = 1 := rfl
    have hfield : fieldBytes key value =
        2 + byteLength (Json.quote key) + byteLength (Json.print value) := rfl
    rw [Json.printFields, byteLength_cons, byteLength_append, byteLength_cons ':',
      byteLength_append, ih, hcomma, hcolon, List.map_cons, List.sum_cons]
    dsimp only
    omega

theorem byteLength_print_obj (field : Text × Json.Value) (fields : List (Text × Json.Value)) :
    byteLength (Json.print (.obj (field :: fields))) =
      1 + ((field :: fields).map fun field => fieldBytes field.1 field.2).sum := by
  obtain ⟨key, value⟩ := field
  have hbrace : byteLength ['\x7b'] = 1 := rfl
  have hcolon : byteLength [':'] = 1 := rfl
  rw [Json.print, byteLength_cons, byteLength_append, byteLength_cons ':', byteLength_append,
    byteLength_printFields, hbrace, hcolon, List.map_cons, List.sum_cons]
  have hfield : fieldBytes key value =
      2 + byteLength (Json.quote key) + byteLength (Json.print value) := rfl
  dsimp only
  omega

/-- The bytes of the field with the group of an entry. -/
def groupFieldBytes (group : Option Text) : Nat :=
  match group with
  | none => 0
  | some group => 18 + byteLength (Json.quote group)

theorem byteLength_entryJson (entry : BatchResponseEntry) :
    byteLength (Json.print (entryJson entry)) =
      byteLength (Json.print (entryJson { entry with atomicityGroup := none })) +
        groupFieldBytes entry.atomicityGroup := by
  have happend (fields : List (Text × Json.Value)) (hne : fields ≠ [])
      (more : List (Text × Json.Value)) :
      byteLength (Json.print (.obj (fields ++ more))) = byteLength (Json.print (.obj fields)) +
        (more.map fun field => fieldBytes field.1 field.2).sum := by
    obtain ⟨field, fields, rfl⟩ := List.exists_cons_of_ne_nil hne
    rw [List.cons_append, byteLength_print_obj, byteLength_print_obj, ← List.cons_append,
      List.map_append, List.sum_append, Nat.add_assoc]
  unfold entryJson
  rw [happend _ (by simp), List.append_nil]
  congr 1
  cases entry.atomicityGroup with
  | none => rfl
  | some group =>
    have hkey : byteLength (Json.quote "atomicityGroup".toList) = 16 := by decide
    show 2 + byteLength (Json.quote "atomicityGroup".toList) + byteLength (Json.quote group) + 0 = _
    rw [hkey]
    rfl

theorem normalizeJsonBatchResponse_group (rt : Runtime) (entry : BatchResponseEntry)
    (group : Option Text) :
    normalizeJsonBatchResponse rt { entry with atomicityGroup := group } =
      { normalizeJsonBatchResponse rt entry with atomicityGroup := group } := by
  obtain ⟨id, own, status, headers, body⟩ := entry
  cases body <;> rfl

/-- The group aside, the estimate of an entry does not depend on its group. -/
theorem estimateJsonResponseBytes_eq (rt : Runtime) (entry : BatchResponseEntry) :
    estimateJsonResponseBytes rt entry =
      estimateJsonResponseBytes rt { entry with atomicityGroup := none } +
        groupFieldBytes entry.atomicityGroup := by
  unfold estimateJsonResponseBytes
  rw [byteLength_entryJson, normalizeJsonBatchResponse_group]
  congr 2
  obtain ⟨id, own, status, headers, body⟩ := entry
  cases body <;> rfl

theorem length_serializeJsonBatch (rt : Runtime) (entries : List BatchResponseEntry) :
    (serializeJsonBatch rt entries).length =
      (entries.map (estimateJsonResponseBytes rt)).sum +
        estimateJsonEnvelopeBytes entries.length := by
  have hkey : byteLength (Json.quote "responses".toList) = 11 := by decide
  have henvelope : byteLength "\x7b\"responses\":".toList + byteLength "\x7d".toList = 14 := by
    decide
  have hbrackets : byteLength "[".toList + byteLength "]".toList = 2 := by decide
  have hempty : byteLength "[]".toList = 2 := by decide
  unfold serializeJsonBatch estimateJsonEnvelopeBytes
  show byteLength (Json.print _) = _
  rw [byteLength_print_obj, List.map_singleton, List.sum_singleton, fieldBytes,
    byteLength_print_arr, hkey, henvelope, hbrackets, hempty]
  unfold normalizeJsonBatchResponses estimateJsonResponseBytes
  rw [List.map_map, List.map_map, List.length_map]
  have hsum : (entries.map ((fun value => byteLength (Json.print value)) ∘ entryJson ∘
      normalizeJsonBatchResponse rt)).sum = (entries.map fun entry =>
        byteLength (Json.print (entryJson (normalizeJsonBatchResponse rt entry)))).sum := rfl
  rw [hsum]
  split <;> omega

end JsonBytes

/-! ## The guard -/

section Guard

variable (rt : ResponseRuntime)

/-- An entry as it is tracked, and the group under which it is sent. The controller gives the
entries of a changeset their group after it has tracked them. -/
structure TrackedEntry where
  tracked : BatchResponseEntry
  group : Option Text

def TrackedEntry.sent (entry : TrackedEntry) : BatchResponseEntry :=
  { entry.tracked with atomicityGroup := entry.group }

/-- Before the first entry. -/
def startTracker (isMultipart : Bool) (limit : Rat) : ResponseSizeTracker :=
  ⟨some limit, isMultipart, 0, 0, 0, none⟩

/-- The entries of a response are admitted under a limit. -/
def Admitted (isMultipart : Bool) (limit : Rat) (entries : List BatchResponseEntry) : Prop :=
  ∃ tracker, trackAll rt (startTracker isMultipart limit) entries = .ok tracker

def responseBytes (isMultipart : Bool) (random : Text) (randoms : List Text)
    (entries : List BatchResponseEntry) : Nat :=
  if isMultipart then (serializeMultipartBatch rt random randoms entries).length
  else (serializeJsonBatch rt.toRuntime entries).length

/-- `Math.random().toString(36).slice(2, 10)`. -/
def IsRandom (random : Text) : Prop := byteLength random ≤ 8

/-- The bytes of a body. -/
def bodyBytes (entry : BatchResponseEntry) : Nat :=
  ((serializeEntryBody entry.body []).1.getD []).length

theorem estimateBufferedResponseBytes_eq (entry : BatchResponseEntry) :
    estimateBufferedResponseBytes entry = bodyBytes entry := by
  unfold estimateBufferedResponseBytes bodyBytes
  cases entry.body with
  | undefined => rfl
  | buffer bytes => rfl
  | value v => cases v <;> rfl

/-- What the groups add to a response, where a boundary inside a changeset has this length. -/
def groupingBytes (isMultipart : Bool) (inner : Text → Nat) (entries : List BatchResponseEntry) :
    Nat :=
  if isMultipart then ((groupResponses entries).map (boundaryBytes inner)).sum
  else (entries.map fun entry => groupFieldBytes entry.atomicityGroup).sum

/-- The bodies of the entries make up for what the tracker does not count: what the groups add
beyond those that are tracked and beyond boundaries of 18 bytes, and two bytes for each escaped line
break in a Content-ID. -/
def BodiesCover (isMultipart : Bool) (entries : List TrackedEntry) : Prop :=
  groupingBytes isMultipart innerBoundaryBytes (entries.map TrackedEntry.sent) +
      (if isMultipart then 2 * (entries.map fun entry => escapedInId entry.tracked).sum else 0) ≤
    groupingBytes isMultipart (fun _ => 18) (entries.map (·.tracked)) +
      (entries.map fun entry => bodyBytes entry.tracked).sum

/-- All that the tracker counts. -/
def trackedBytes (isMultipart : Bool) (entries : List BatchResponseEntry) : Nat :=
  (entries.map bodyBytes).sum +
    if isMultipart then ((groupResponses entries).map (estimateGroupBytes rt)).sum + 20
    else (entries.map (estimateJsonResponseBytes rt.toRuntime)).sum +
      estimateJsonEnvelopeBytes entries.length

theorem admitted_iff {limit : Rat} (hpos : 0 < limit) (isMultipart : Bool)
    (entries : List BatchResponseEntry) :
    Admitted rt isMultipart limit entries ↔
      (trackedBytes rt isMultipart entries : Rat) ≤ limit := by
  unfold Admitted
  rw [trackAll_iff rt (show (startTracker isMultipart limit).limit = some limit from rfl) hpos]
  have hbuffered := bufferedBytes_foldl rt (startTracker isMultipart limit) entries
  have hbodies : entries.map estimateBufferedResponseBytes = entries.map bodyBytes :=
    List.map_congr_left fun entry _ => estimateBufferedResponseBytes_eq entry
  rw [hbodies] at hbuffered
  have htotal : (entries.foldl (countEntry rt) (startTracker isMultipart limit)).total +
      endBytes (entries.foldl (countEntry rt) (startTracker isMultipart limit)) =
        trackedBytes rt isMultipart entries := by
    unfold ResponseSizeTracker.total trackedBytes endBytes
    rw [hbuffered]
    cases isMultipart with
    | false =>
      have hstart : (startTracker false limit).isMultipart = false := rfl
      obtain ⟨hjson, hbytes, hcount⟩ := serializedBytes_foldl rt hstart entries
      rw [hjson, hbytes, hcount]
      show 0 + _ + (0 + _) + estimateJsonEnvelopeBytes (0 + entries.length) = _
      simp only [Nat.zero_add, Bool.false_eq_true, if_false, Nat.add_assoc]
    | true =>
      have hstart : CountsGroups rt [] (startTracker true limit) :=
        ⟨rfl, rfl, rfl, fun id h => by cases h⟩
      have hcounts := countsGroups_foldl rt hstart entries
      have hclosing : estimateBatchClosingBytes = 20 := by decide
      have hbytes := hcounts.bytes
      unfold closesBytes at hbytes
      rw [if_pos hcounts.multipart, hclosing]
      show 0 + _ + _ + _ = _ + (((groupResponses entries).map _).sum + 20)
      unfold groupResponses
      omega
  rw [htotal]

theorem trackedBytes_pos (isMultipart : Bool) (entries : List BatchResponseEntry) :
    0 < trackedBytes rt isMultipart entries := by
  unfold trackedBytes
  cases isMultipart with
  | true => simp
  | false =>
    have henvelope : byteLength "\x7b\"responses\":".toList + byteLength "\x7d".toList = 14 := by
      decide
    unfold estimateJsonEnvelopeBytes
    rw [henvelope]
    simp only [Bool.false_eq_true, if_false]
    omega

/-- The longest response. -/
def longestBytes (isMultipart : Bool) (entries : List BatchResponseEntry) : Nat :=
  if isMultipart then ((groupResponses entries).map (groupBytes rt innerBoundaryBytes)).sum + 20
  else (serializeJsonBatch rt.toRuntime entries).length

theorem responseBytes_le_longestBytes (isMultipart : Bool) (entries : List BatchResponseEntry)
    {random : Text} (hrandom : IsRandom random) {randoms : List Text}
    (hrandoms : ∀ random ∈ randoms, IsRandom random) :
    responseBytes rt isMultipart random randoms entries ≤ longestBytes rt isMultipart entries := by
  cases isMultipart with
  | false => exact Nat.le_refl _
  | true =>
    have hlabel : byteLength "batch".toList = 5 := by decide
    have hboundary : byteLength (generateBoundary "batch".toList random) ≤ 14 := by
      rw [byteLength_generateBoundary, hlabel]
      unfold IsRandom at hrandom
      omega
    have hgroups := length_renderGroups_le rt hboundary (groupResponses entries) hrandoms
    show (renderGroups _ _ _ _ ++ utf8Bytes (closingLine _)).length ≤ _ + 20
    rw [List.length_append]
    have hclosing := byteLength_closingLine (generateBoundary "batch".toList random)
    unfold byteLength at hclosing hboundary
    omega

theorem exists_responseBytes_eq (isMultipart : Bool) (entries : List BatchResponseEntry) :
    ∃ random randoms, IsRandom random ∧ (∀ random ∈ randoms, IsRandom random) ∧
      responseBytes rt isMultipart random randoms entries =
        longestBytes rt isMultipart entries := by
  have height : byteLength "aaaaaaaa".toList = 8 := by decide
  refine ⟨"aaaaaaaa".toList, List.replicate (groupResponses entries).length "aaaaaaaa".toList,
    Nat.le_of_eq height, fun random hmem => ?_, ?_⟩
  · rw [List.eq_of_mem_replicate hmem]
    exact Nat.le_of_eq height
  · cases isMultipart with
    | false => rfl
    | true =>
      have hboundary : byteLength (generateBoundary "batch".toList "aaaaaaaa".toList) = 14 := by
        decide
      show (renderGroups _ _ _ _ ++ utf8Bytes (closingLine _)).length = _ + 20
      rw [List.length_append, length_renderGroups_eq rt hboundary height _ (Nat.le_refl _)]
      have hclosing := byteLength_closingLine (generateBoundary "batch".toList "aaaaaaaa".toList)
      unfold byteLength at hclosing hboundary
      omega

theorem groupingBytes_tracked (isMultipart : Bool) (entries : List TrackedEntry) :
    longestBytes rt isMultipart (entries.map TrackedEntry.sent) ≤
        trackedBytes rt isMultipart (entries.map (·.tracked)) ↔
      BodiesCover isMultipart entries := by
  unfold longestBytes trackedBytes BodiesCover groupingBytes
  rw [List.map_map (f := fun entry : TrackedEntry => entry.tracked) (g := bodyBytes)]
  cases isMultipart with
  | true =>
    have hestimate := sum_estimateGroupBytes rt (entries.map (·.tracked))
    rw [sum_groupBytes, List.map_map, List.map_map] at hestimate
    have hsent := sum_groupBytes rt innerBoundaryBytes (entries.map TrackedEntry.sent)
    rw [List.map_map (g := partBytes rt 0)] at hsent
    have hsame : entries.map (partBytes rt 0 ∘ TrackedEntry.sent) =
        entries.map (partBytes rt 0 ∘ fun entry => entry.tracked) := rfl
    rw [hsame] at hsent
    have hescaped : (entries.map (escapedInId ∘ fun entry => entry.tracked)).sum =
        (entries.map fun entry => escapedInId entry.tracked).sum := rfl
    have hbodies : (entries.map (bodyBytes ∘ fun entry => entry.tracked)).sum =
        (entries.map fun entry => bodyBytes entry.tracked).sum := rfl
    rw [hescaped] at hestimate
    rw [hbodies]
    simp only [if_true]
    omega
  | false =>
    have hsplit (entriesOf : TrackedEntry → BatchResponseEntry)
        (hgroup : ∀ entry, { entriesOf entry with atomicityGroup := none } =
          { entry.tracked with atomicityGroup := none }) :
        ((entries.map entriesOf).map (estimateJsonResponseBytes rt.toRuntime)).sum =
          (entries.map fun entry => estimateJsonResponseBytes rt.toRuntime
            { entry.tracked with atomicityGroup := none }).sum +
          ((entries.map entriesOf).map fun entry => groupFieldBytes entry.atomicityGroup).sum := by
      induction entries with
      | nil => rfl
      | cons entry entries ih =>
        simp only [List.map_cons, List.sum_cons] at ih ⊢
        rw [ih, estimateJsonResponseBytes_eq, hgroup]
        dsimp only
        omega
    have hsent := hsplit TrackedEntry.sent fun entry => rfl
    have htracked := hsplit (·.tracked) fun entry => rfl
    have hbodies : (entries.map (bodyBytes ∘ fun entry => entry.tracked)).sum =
        (entries.map fun entry => bodyBytes entry.tracked).sum := rfl
    rw [length_serializeJsonBatch, hsent, htracked, hbodies, List.length_map, List.length_map]
    simp only [Bool.false_eq_true, if_false]
    omega

/-- The guard is an upper bound of the response where the bodies cover what it does not count, and
only there. -/
theorem responseBytes_le_limit_iff (isMultipart : Bool) (entries : List TrackedEntry) :
    (∀ limit : Rat, 0 < limit → Admitted rt isMultipart limit (entries.map (·.tracked)) →
      ∀ random randoms, IsRandom random → (∀ random ∈ randoms, IsRandom random) →
        (responseBytes rt isMultipart random randoms (entries.map TrackedEntry.sent) : Rat) ≤
          limit) ↔
      BodiesCover isMultipart entries := by
  rw [← groupingBytes_tracked rt]
  constructor
  · intro hguard
    obtain ⟨random, randoms, hrandom, hrandoms, hbytes⟩ :=
      exists_responseBytes_eq rt isMultipart (entries.map TrackedEntry.sent)
    have hpos : (0 : Rat) < (trackedBytes rt isMultipart (entries.map (·.tracked)) : Nat) :=
      Nat.cast_pos.mpr (trackedBytes_pos rt isMultipart _)
    have hle := hguard _ hpos ((admitted_iff rt hpos isMultipart _).mpr (le_refl _)) random randoms
      hrandom hrandoms
    rw [hbytes] at hle
    exact Nat.cast_le.mp hle
  · intro hle limit hpos hadmitted random randoms hrandom hrandoms
    have htracked := (admitted_iff rt hpos isMultipart _).mp hadmitted
    have hbytes := responseBytes_le_longestBytes rt isMultipart (entries.map TrackedEntry.sent)
      hrandom hrandoms
    exact le_trans (Nat.cast_le.mpr (Nat.le_trans hbytes hle)) htracked

end Guard

/-- The answer to a delete in a changeset with a long name. -/
def reportEntry : BatchResponseEntry :=
  ⟨some "1".toList, some "quarterly-report".toList, 204, none, .undefined⟩

def reportRuntime : ResponseRuntime :=
  { Runtime.ascii with statusText := fun _ => "No Content".toList }

/-- A response that is longer than the limit under which its entry was admitted. -/
theorem not_responseBytes_le_limit :
    ∃ limit : Rat, 0 < limit ∧ Admitted reportRuntime true limit [reportEntry] ∧
      ∃ random randoms, IsRandom random ∧ (∀ random ∈ randoms, IsRandom random) ∧
        limit < responseBytes reportRuntime true random randoms [reportEntry] := by
  have htracked : trackedBytes reportRuntime true [reportEntry] = 259 := by decide +kernel
  have hbytes : responseBytes reportRuntime true "k3x8q2mz".toList ["p0d7v5ra".toList]
      [reportEntry] = 280 := by decide +kernel
  refine ⟨259, by norm_num, ?_, "k3x8q2mz".toList, ["p0d7v5ra".toList], ?_, ?_, ?_⟩
  · rw [admitted_iff reportRuntime (by norm_num), htracked]
    norm_num
  · show byteLength "k3x8q2mz".toList ≤ 8
    decide
  · intro random hmem
    rw [List.mem_singleton.mp hmem]
    show byteLength "p0d7v5ra".toList ≤ 8
    decide
  · rw [hbytes]
    norm_num

end LoopbackOData
