import LoopbackOData.Batch.Stages

/-!
# Payloads in chunks

Between two chunks the parser has to decide with the bytes that have arrived. It waits for a
delimiter, but it does not wait for the two bytes after a boundary, which tell the closing boundary
from others and a line break from the headers of a part. A payload reads the same in chunks and as
a whole exactly when no chunk ends there while these two bytes matter.
-/

set_option autoImplicit false

namespace LoopbackOData

open ByteQueue Occurrence

/-- A chunk ends at a place. -/
def CutAt (chunks : List Bytes) (place : Nat) : Prop :=
  ∃ before after, chunks = before ++ after ∧ before.flatten.length = place

/-- What follows a boundary closes the payload, or is a line break before an empty line. -/
def Misleads (rest : Bytes) : Prop :=
  dashes <+: rest ∨ lineBreak ++ [10] <+: rest ∨ lineBreak ++ lineBreak <+: rest

/-- A boundary that a chunk ends behind before what follows it has arrived. -/
def Harmful (chunks : List Bytes) (place : Nat) : Prop :=
  (CutAt chunks place ∨ CutAt chunks (place + 1)) ∧ Misleads (chunks.flatten.drop place)

/-- A boundary of a payload ends at a place: the opening one, or one after the body of a part. -/
inductive BoundaryAt (boundary : Text) : Stage → Bytes → Nat → Prop where
  | here {stage : Stage} {bytes : Bytes} {n : Nat} (hstage : stage ≠ .headers)
    (hend : delimiterEnd boundary stage bytes = some n) : BoundaryAt boundary stage bytes n
  | next {stage : Stage} {bytes : Bytes} {n m : Nat} (hstage : stage ≠ .headers)
    (hend : delimiterEnd boundary stage bytes = some n) (hopen : ¬ dashes <+: bytes.drop n)
    (hnext : BoundaryAt boundary .headers (afterLineBreak (bytes.drop n)) m) :
    BoundaryAt boundary stage bytes (n + lineBreakLength (bytes.drop n) + m)
  | body {bytes : Bytes} {n m : Nat} (hend : delimiterEnd boundary .headers bytes = some n)
    (hbody : BoundaryAt boundary .body (bytes.drop n) m) :
    BoundaryAt boundary .headers bytes (n + m)

/-- No boundary from a place on is harmful. -/
def Safe (boundary : Text) (chunks : List Bytes) (stage : Stage) (start : Nat) : Prop :=
  ∀ n, BoundaryAt boundary stage (chunks.flatten.drop start) n → ¬ Harmful chunks (start + n)

/-! ## Where chunks end -/

section Cuts

variable {done : List Bytes}

theorem cutAt_done (chunks : List Bytes) : CutAt (done ++ chunks) done.flatten.length :=
  ⟨done, chunks, rfl, rfl⟩

/-- No chunk ends within the next one. -/
theorem CutAt.outside {chunk : Bytes} {chunks : List Bytes} {place : Nat}
    (h : CutAt (done ++ chunk :: chunks) place) :
    place ≤ done.flatten.length ∨ (done ++ [chunk]).flatten.length ≤ place := by
  obtain ⟨before, after, heq, rfl⟩ := h
  have hbefore : before <+: done ++ chunk :: chunks := ⟨after, heq.symm⟩
  have hdone : done ++ [chunk] <+: done ++ chunk :: chunks := ⟨chunks, by simp⟩
  rcases List.prefix_or_prefix_of_prefix hbefore hdone with ⟨rest, hrest⟩ | ⟨rest, hrest⟩
  · cases rest.eq_nil_or_concat with
    | inl hnil =>
      rw [hnil, List.append_nil] at hrest
      rw [hrest]
      exact .inr (le_refl _)
    | inr hconcat =>
      obtain ⟨rest', last, rfl⟩ := hconcat
      rw [List.concat_eq_append, ← List.append_assoc] at hrest
      left
      rw [← (List.append_inj' hrest rfl).1, List.flatten_append, List.length_append]
      exact Nat.le_add_right _ _
  · right
    rw [← hrest]
    simp only [List.flatten_append, List.length_append]
    exact Nat.le_add_right _ _

end Cuts

/-! ## Boundaries ahead -/

section Ahead

variable {boundary : Text} {chunks : List Bytes} {start n : Nat}

theorem safe_headers_iff (h : delimiterEnd boundary .headers (chunks.flatten.drop start) = some n) :
    Safe boundary chunks .headers start ↔ Safe boundary chunks .body (start + n) := by
  unfold Safe
  rw [← List.drop_drop]
  constructor
  · intro hsafe m hm
    rw [Nat.add_assoc]
    exact hsafe (n + m) (.body h hm)
  · rintro hsafe _ (⟨hstage, _⟩ | ⟨hstage, _, _, _⟩ | ⟨hend, hbody⟩)
    · exact absurd rfl hstage
    · exact absurd rfl hstage
    · cases Option.some.inj (hend.symm.trans h)
      rw [← Nat.add_assoc]
      exact hsafe _ hbody

theorem safe_boundary_iff {stage : Stage} (hstage : stage ≠ .headers)
    (h : delimiterEnd boundary stage (chunks.flatten.drop start) = some n) :
    Safe boundary chunks stage start ↔
      ¬ Harmful chunks (start + n) ∧ (¬ dashes <+: chunks.flatten.drop (start + n) →
        Safe boundary chunks .headers
          (start + n + lineBreakLength (chunks.flatten.drop (start + n)))) := by
  have hrest : (chunks.flatten.drop start).drop n = chunks.flatten.drop (start + n) :=
    List.drop_drop
  have hafter : afterLineBreak (chunks.flatten.drop (start + n)) =
      chunks.flatten.drop (start + n + lineBreakLength (chunks.flatten.drop (start + n))) :=
    List.drop_drop
  unfold Safe
  rw [← hafter]
  constructor
  · intro hsafe
    refine ⟨hsafe n (.here hstage h), fun hopen m hm => ?_⟩
    rw [← hrest] at hopen hm ⊢
    rw [Nat.add_assoc, Nat.add_assoc, ← Nat.add_assoc n]
    exact hsafe _ (.next hstage h hopen hm)
  · rintro ⟨hhere, hlater⟩ m (⟨_, hend⟩ | ⟨_, hend, hopen, hnext⟩ | ⟨_, _⟩)
    · rw [← Option.some.inj (h.symm.trans hend)]
      exact hhere
    · rw [← Option.some.inj (h.symm.trans hend)] at hopen hnext ⊢
      rw [hrest] at hopen hnext ⊢
      rw [← Nat.add_assoc, ← Nat.add_assoc]
      exact hlater hopen _ hnext
    · exact absurd rfl hstage

theorem delimiterEnd_nil (stage : Stage) : delimiterEnd boundary stage [] = none := by
  rw [Option.eq_none_iff_forall_ne_some]
  intro n hn
  obtain ⟨htwo, hle⟩ := delimiterEnd_le hn
  exact absurd (htwo.trans hle) (by simp)

theorem BoundaryAt.two_le {stage : Stage} {bytes : Bytes} (h : BoundaryAt boundary stage bytes n) :
    2 ≤ n := by
  cases h with
  | here _ hend => exact (delimiterEnd_le hend).1
  | next _ hend _ _ =>
    rw [Nat.add_assoc]
    exact Nat.le_add_right_of_le (delimiterEnd_le hend).1
  | body hend _ => exact Nat.le_add_right_of_le (delimiterEnd_le hend).1

theorem Misleads.two_le {rest : Bytes} (h : Misleads rest) : 2 ≤ rest.length := by
  rcases h with h | h | h
  · exact h.length_le
  · exact Nat.le_of_succ_le h.length_le
  · exact (show 2 ≤ 4 by decide).trans h.length_le

theorem safe_single (payload : Bytes) : Safe boundary [payload] .opening 0 := by
  intro n hn
  have htwo := hn.two_le
  rintro ⟨hcut, hmisleads⟩
  have hroom := hmisleads.two_le
  rw [List.flatten_singleton, List.length_drop] at hroom
  have hends {place : Nat} (h : CutAt [payload] place) : place = 0 ∨ payload.length ≤ place := by
    have houtside : place ≤ ([] : List Bytes).flatten.length ∨
        ([] ++ [payload]).flatten.length ≤ place := CutAt.outside h
    rw [List.nil_append, List.flatten_singleton] at houtside
    exact houtside.imp_left Nat.le_zero.mp
  rcases hcut with hcut | hcut
  · have := hends hcut
    omega
  · have := hends hcut
    omega

/-! ## A line break before headers -/

/-- A line that is not empty after a line break. -/
structure Unbroken (rest : Bytes) : Prop where
  noLineFeed : ¬ [10] <+: rest
  noLineBreak : ¬ lineBreak <+: rest

theorem IsSeparator.lineBreak_iff {rest : Bytes} {index length : Nat} :
    IsSeparator (lineBreak ++ rest) (index + 2) length ↔ IsSeparator rest index length := by
  unfold IsSeparator
  rw [Nat.add_comm index 2, ← List.drop_drop]
  rfl

theorem separator_lineBreak {rest : Bytes} (h : Unbroken rest) :
    separator (lineBreak ++ rest) = (separator rest).map fun found => (found.1 + 2, found.2) := by
  have hearly : ∀ j < 2, ∀ length, ¬ IsSeparator (lineBreak ++ rest) j length := by
    rintro (_ | _ | j) hj length (⟨_, hsep⟩ | ⟨_, hsep⟩)
    · exact h.noLineBreak (List.prefix_append_right_inj lineBreak |>.mp hsep)
    · obtain ⟨t, ht⟩ := hsep
      have hhead : some (10 : UInt8) = some 13 := congrArg List.head? ht
      exact absurd hhead (by decide)
    · obtain ⟨t, ht⟩ := hsep
      have hhead : some (13 : UInt8) = some 10 := congrArg List.head? ht
      exact absurd hhead (by decide)
    · exact h.noLineFeed (List.prefix_append_right_inj [10] |>.mp hsep)
    · omega
    · omega
  cases hsep : separator rest with
  | none =>
    rw [Option.map_none, Option.eq_none_iff_forall_ne_some]
    rintro ⟨index, length⟩ hsome
    have hfirst := separator_eq_some_iff.mp hsome
    have hlow : 2 ≤ index := by
      by_contra hlt
      exact hearly index (by omega) length hfirst.here
    obtain ⟨j, rfl⟩ := Nat.exists_eq_add_of_le' hlow
    exact separator_ne_none (IsSeparator.lineBreak_iff.mp hfirst.here) hsep
  | some found =>
    obtain ⟨index, length⟩ := found
    have hfirst := separator_eq_some_iff.mp hsep
    refine separator_eq_some_iff.mpr ⟨?_, IsSeparator.lineBreak_iff.mpr hfirst.here, ?_⟩
    · have hinside := hfirst.inside
      rw [List.length_append]
      show index + 2 + length ≤ 2 + rest.length
      omega
    · intro j hj length' hthere
      by_cases hlow : j < 2
      · exact hearly j hlow length' hthere
      · obtain ⟨j, rfl⟩ := Nat.exists_eq_add_of_le' (Nat.le_of_not_lt hlow)
        exact hfirst.first j (by dsimp only at hj; omega) length' (IsSeparator.lineBreak_iff.mp hthere)

theorem decodeText_lineBreak (rest : Bytes) :
    decodeText (lineBreak ++ rest) = '\r' :: '\n' :: decodeText rest := by
  have hencode : lineBreak = ['\r', '\n'].flatMap String.utf8EncodeChar := rfl
  rw [decodeText, hencode, Utf8.decode_encode_append]
  rfl

/-- An empty line before the headers is passed over. -/
theorem parseHeaders_lineBreak (rt : Runtime) (rest : Bytes) :
    parseHeaders rt (decodeText (lineBreak ++ rest)) = parseHeaders rt (decodeText rest) := by
  rw [decodeText_lineBreak]
  rfl

section Headers

variable {limits : MultipartParserLimits} {handle : PartHandler} {rt : Runtime} {p : Reading}
  {rest : Bytes}

theorem whole_lineBreak (hstage : p.stage = .headers) (h : Unbroken rest) :
    whole boundary limits handle rt p (lineBreak ++ rest) =
      whole boundary limits handle rt p rest := by
  obtain ⟨stage, headers, checked, parts⟩ := p
  cases hstage
  rw [whole_eq, whole_eq]
  congr 1
  unfold parseStep
  dsimp only
  rw [separator_lineBreak h, Option.map_map]
  refine Option.map_congr fun found _ => ?_
  have htake : (lineBreak ++ rest).take (found.1 + 2) = lineBreak ++ rest.take found.1 := rfl
  have hdrop : (lineBreak ++ rest).drop (found.1 + 2 + found.2) =
      rest.drop (found.1 + found.2) := by
    rw [Nat.add_right_comm]
    rfl
  dsimp only [Function.comp_apply]
  rw [htake, hdrop, parseHeaders_lineBreak]

theorem safe_lineBreak (h : chunks.flatten.drop start = lineBreak ++ rest) (hrest : Unbroken rest) :
    Safe boundary chunks .headers start ↔ Safe boundary chunks .headers (start + 2) := by
  have hrest' : chunks.flatten.drop (start + 2) = rest := by
    rw [← List.drop_drop, h]
    rfl
  have hend : delimiterEnd boundary .headers (chunks.flatten.drop start) =
      (delimiterEnd boundary .headers (chunks.flatten.drop (start + 2))).map (· + 2) := by
    unfold delimiterEnd
    dsimp only
    rw [h, hrest', separator_lineBreak hrest, Option.map_map, Option.map_map]
    refine Option.map_congr fun found _ => ?_
    exact Nat.add_right_comm _ _ _
  cases hfound : delimiterEnd boundary .headers (chunks.flatten.drop (start + 2)) with
  | some n =>
    rw [hfound, Option.map_some] at hend
    rw [safe_headers_iff hend, safe_headers_iff hfound, Nat.add_right_comm start 2 n, Nat.add_assoc]
  | none =>
    rw [hfound, Option.map_none] at hend
    have hvacuous {start : Nat} (hnone : delimiterEnd boundary .headers
        (chunks.flatten.drop start) = none) : Safe boundary chunks .headers start := by
      rintro _ (⟨hstage, _⟩ | ⟨hstage, _, _, _⟩ | ⟨hsome, _⟩)
      · exact absurd rfl hstage
      · exact absurd rfl hstage
      · rw [hnone] at hsome
        cases hsome
    exact iff_of_true (hvacuous hend) (hvacuous hfound)

end Headers

end Ahead

/-! ## Parts -/

/-- A part that is taken adds a request, and one without headers is not taken. -/
structure AddsRequests (handle : PartHandler) : Prop where
  grows : ∀ {body : Bytes} {headers : Option Headers} {s s' : PartsState},
    handle body headers s = .ok s' → s.requests.length < s'.requests.length
  needsHeaders : ∀ (body : Bytes) (s : PartsState), ∃ e, handle body (some []) s = .error e

section Parts

variable {boundary : Text} {limits : MultipartParserLimits} {handle : PartHandler} {rt : Runtime}
  {p : Reading} {buffer : Bytes}

theorem takePart_grows (h : AddsRequests handle) {p' : Reading} {body : Bytes}
    (htake : takePart limits handle p body = some p') :
    p.parts.requests.length < p'.parts.requests.length := by
  unfold takePart at htake
  split at htake
  · cases htake
  · obtain ⟨parts, hparts, rfl⟩ := Option.map_eq_some_iff.mp htake
    cases hhandle : handle body p.headers p.parts with
    | error e =>
      rw [hhandle] at hparts
      cases hparts
    | ok parts' =>
      rw [hhandle] at hparts
      cases hparts
      exact h.grows hhandle

/-- A step from a part on loses no request, and the last one adds some. -/
def ParseStep.Adds (n : Nat) : ParseStep → Prop
  | .finished parts => n < parts.requests.length
  | .on p _ => p.stage ≠ .opening ∧ n ≤ p.parts.requests.length

theorem parseStep_adds (h : AddsRequests handle) {next : ParseStep} (hstage : p.stage ≠ .opening)
    (hstep : parseStep boundary limits handle rt p buffer = some next) :
    next.Adds p.parts.requests.length := by
  obtain ⟨stage, headers, checked, parts⟩ := p
  cases stage with
  | opening => exact absurd rfl hstage
  | headers =>
    obtain ⟨found, _, rfl⟩ := Option.map_eq_some_iff.mp hstep
    exact ⟨nofun, le_refl _⟩
  | body =>
    obtain ⟨index, _, hpart⟩ := Option.bind_eq_some_iff.mp hstep
    obtain ⟨p', htake, rfl⟩ := Option.map_eq_some_iff.mp hpart
    have hgrows := takePart_grows h htake
    unfold afterBoundary
    split
    · exact hgrows
    · exact ⟨nofun, hgrows.le⟩

theorem arrive_grows_of_wait (h : AddsRequests handle) {chunks : List Bytes} {parts : PartsState}
    (hwait : ∀ (p : Reading) (buffer : Bytes), p.stage ≠ .opening →
      wait boundary limits handle rt p buffer chunks = some parts →
        p.parts.requests.length < parts.requests.length)
    (hstage : p.stage ≠ .opening)
    (harrive : arrive boundary limits handle rt p buffer chunks = some parts) :
    p.parts.requests.length < parts.requests.length := by
  induction hlength : buffer.length using Nat.strong_induction_on generalizing p buffer with
  | _ length ih =>
    cases hfound : delimiterEnd boundary p.stage buffer with
    | none =>
      rcases arrive_of_none limits handle rt hfound chunks with
        ⟨checked, heq⟩ | ⟨hnone, _⟩
      · rw [heq] at harrive
        exact hwait { p with checked := checked } buffer hstage harrive
      · rw [hnone] at harrive
        cases harrive
    | some n =>
      rw [arrive_of_found hfound] at harrive
      obtain ⟨next, hstep, hresult⟩ := Option.bind_eq_some_iff.mp harrive
      have hadds := parseStep_adds h hstage hstep
      cases next with
      | finished parts' =>
        cases hresult
        exact hadds
      | on p' buffer' =>
        obtain ⟨hstage', hle⟩ := hadds
        have hlt := parseStep_on_length hstep
        exact lt_of_le_of_lt hle (ih _ (by omega) hstage' hresult rfl)

/-- Once the opening boundary is behind, a parse that succeeds has taken a part. -/
theorem arrive_grows (h : AddsRequests handle) {chunks : List Bytes} {parts : PartsState}
    (hstage : p.stage ≠ .opening)
    (harrive : arrive boundary limits handle rt p buffer chunks = some parts) :
    p.parts.requests.length < parts.requests.length := by
  induction chunks generalizing p buffer with
  | nil =>
    refine arrive_grows_of_wait h (fun p buffer hstage hwait => ?_) hstage harrive
    rw [wait_nil] at hwait
    induction hlength : buffer.length using Nat.strong_induction_on generalizing p buffer with
    | _ length ih =>
      rw [whole_eq] at hwait
      obtain ⟨next, hstep, hresult⟩ := Option.bind_eq_some_iff.mp hwait
      have hadds := parseStep_adds h hstage hstep
      cases next with
      | finished parts' =>
        cases hresult
        exact hadds
      | on p' buffer' =>
        obtain ⟨hstage', hle⟩ := hadds
        have hlt := parseStep_on_length hstep
        exact lt_of_le_of_lt hle (ih _ (by omega) p' buffer' hstage' hresult rfl)
  | cons chunk chunks ih =>
    refine arrive_grows_of_wait h (fun p buffer hstage hwait => ?_) hstage harrive
    exact ih hstage hwait

theorem whole_of_noHeaders (h : AddsRequests handle) (hstage : p.stage = .body)
    (hheaders : p.headers = some []) : whole boundary limits handle rt p buffer = none := by
  obtain ⟨stage, headers, checked, parts⟩ := p
  cases hstage
  cases hheaders
  rw [whole_eq, Option.bind_eq_none_iff]
  intro next hstep
  obtain ⟨index, _, hpart⟩ := Option.bind_eq_some_iff.mp hstep
  obtain ⟨p', htake, _⟩ := Option.map_eq_some_iff.mp hpart
  unfold takePart at htake
  obtain ⟨e, he⟩ := h.needsHeaders (buffer.take index) parts
  dsimp only at htake
  rw [he] at htake
  split at htake
  · cases htake
  · cases htake

/-- The blank line at the beginning, and the headers before it. -/
theorem separator_blank (rt : Runtime)
    (h : lineBreak ++ [10] <+: buffer ∨ lineBreak ++ lineBreak <+: buffer) :
    ∃ found, separator buffer = some found ∧
      parseHeaders rt (decodeText (buffer.take found.1)) = [] := by
  rcases h with ⟨rest, rfl⟩ | ⟨rest, rfl⟩
  · have hreturn : decodeText [13] = ['\r'] := Utf8.decode_encode ['\r']
    have hheaders : parseHeaders rt (decodeText [13]) = [] := by
      rw [hreturn]
      rfl
    refine ⟨(1, 2), separator_eq_some_iff.mpr ⟨?_, ?_, ?_⟩, hheaders⟩
    · simp [lineBreak]
    · exact .inr ⟨rfl, rest, rfl⟩
    · rintro j hj length' (⟨_, t, ht⟩ | ⟨_, t, ht⟩)
      · cases Nat.lt_one_iff.mp hj
        have hfourth : some (13 : UInt8) = some 10 := congrArg (·[2]?) ht
        exact absurd hfourth (by decide)
      · cases Nat.lt_one_iff.mp hj
        have hhead : some (10 : UInt8) = some 13 := congrArg List.head? ht
        exact absurd hhead (by decide)
  · refine ⟨(0, 4), separator_eq_some_iff.mpr ⟨?_, ?_, ?_⟩, rfl⟩
    · simp [lineBreak]
    · exact .inl ⟨rfl, rest, rfl⟩
    · intro j hj
      exact absurd hj (Nat.not_lt_zero j)

/-- An empty line where headers should begin leaves a part without headers. -/
theorem whole_of_blank (h : AddsRequests handle) (hstage : p.stage = .headers)
    (hblank : lineBreak ++ [10] <+: buffer ∨ lineBreak ++ lineBreak <+: buffer) :
    whole boundary limits handle rt p buffer = none := by
  obtain ⟨stage, headers, checked, parts⟩ := p
  cases hstage
  obtain ⟨found, hfound, hheaders⟩ := separator_blank rt hblank
  rw [whole_eq]
  unfold parseStep
  dsimp only
  rw [hfound, Option.map_some, Option.bind_some, hheaders]
  exact whole_of_noHeaders h rfl rfl

theorem takePart_checked (checked : Nat) (body : Bytes) :
    takePart limits handle { p with checked := checked } body = takePart limits handle p body := rfl

/-- How much of a body has been checked makes no difference to a parse that has all of it. -/
theorem whole_checked (checked : Nat) :
    whole boundary limits handle rt { p with checked := checked } buffer =
      whole boundary limits handle rt p buffer := by
  have hheaders (p : Reading) (buffer : Bytes) (hstage : p.stage = .headers) :
      whole boundary limits handle rt { p with checked := checked } buffer =
        whole boundary limits handle rt p buffer := by
    obtain ⟨stage, headers, _, parts⟩ := p
    cases hstage
    rw [whole_eq, whole_eq]
    rfl
  obtain ⟨stage, headers, _, parts⟩ := p
  cases stage with
  | opening =>
    rw [whole_eq, whole_eq]
    unfold parseStep
    dsimp only
    cases openingEnd boundary buffer with
    | none => rfl
    | some n =>
      rw [Option.map_some, Option.map_some, Option.bind_some, Option.bind_some]
      unfold afterBoundary
      split
      · rfl
      · exact hheaders ⟨.headers, headers, _, parts⟩ _ rfl
  | headers => exact hheaders _ _ rfl
  | body =>
    rw [whole_eq, whole_eq]
    rfl

end Parts


/-! ## The run over the chunks -/

def requestsOf (r : Option PartsState) : Option (List ParsedBatchRequest) := r.map (·.requests)

/-- What has arrived from a place on. -/
structure Arrived (done : List Bytes) (start : Nat) (buffer : Bytes) : Prop where
  le : start ≤ done.flatten.length
  eq : buffer = done.flatten.drop start

section Arrived

variable {done chunks : List Bytes} {start : Nat} {buffer : Bytes}

theorem Arrived.length (h : Arrived done start buffer) :
    start + buffer.length = done.flatten.length := by
  rw [h.eq, List.length_drop]
  exact Nat.add_sub_of_le h.le

theorem Arrived.rest (h : Arrived done start buffer) (chunks : List Bytes) :
    (done ++ chunks).flatten.drop start = buffer ++ chunks.flatten := by
  rw [List.flatten_append, List.drop_append_of_le_length h.le, h.eq]

theorem Arrived.drop (h : Arrived done start buffer) {n : Nat} (hn : n ≤ buffer.length) :
    Arrived done (start + n) (buffer.drop n) := by
  refine ⟨?_, ?_⟩
  · rw [← h.length]
    exact Nat.add_le_add_left hn start
  · rw [h.eq, List.drop_drop]

theorem Arrived.push (h : Arrived done start buffer) (chunk : Bytes) :
    Arrived (done ++ [chunk]) start (buffer ++ chunk) := by
  refine ⟨?_, ?_⟩
  · rw [List.flatten_append, List.length_append]
    exact Nat.le_add_right_of_le h.le
  · have hrest := h.rest [chunk]
    rw [hrest, List.flatten_singleton]

end Arrived

section Run

variable (boundary : Text) (limits : MultipartParserLimits) (handle : PartHandler) (rt : Runtime)

/-- The parse with the chunks to come gives what the parse of everything gives, unless that
succeeds and a boundary ahead is harmful. -/
def Agrees (done chunks : List Bytes) (p : Reading) (buffer : Bytes) (start : Nat) : Prop :=
  requestsOf (arrive boundary limits handle rt p buffer chunks) =
      requestsOf (whole boundary limits handle rt p (buffer ++ chunks.flatten)) ↔
    (whole boundary limits handle rt p (buffer ++ chunks.flatten) ≠ none →
      Safe boundary (done ++ chunks) p.stage start)

variable {boundary limits handle rt} {done chunks : List Bytes} {p : Reading} {buffer : Bytes}
  {start n : Nat}

variable (limits handle rt) in
/-- A boundary step does not depend on what follows the boundary, but for where it goes on. -/
theorem parseStep_boundary (hstage : p.stage ≠ .headers)
    (h : delimiterEnd boundary p.stage buffer = some n) :
    ∃ taken : Option Reading, ∀ more,
      parseStep boundary limits handle rt p (buffer ++ more) =
        taken.map fun p => afterBoundary p (buffer.drop n ++ more) := by
  have hle := (delimiterEnd_le h).2
  obtain ⟨stage, headers, checked, parts⟩ := p
  cases stage with
  | opening =>
    refine ⟨some ⟨.opening, headers, checked, parts⟩, fun more => ?_⟩
    unfold parseStep
    dsimp only
    rw [openingEnd_append h more, Option.map_some, Option.map_some,
      List.drop_append_of_le_length hle]
  | headers => exact absurd rfl hstage
  | body =>
    obtain ⟨index, hindex, rfl⟩ := Option.map_eq_some_iff.mp h
    refine ⟨takePart limits handle ⟨.body, headers, checked, parts⟩ (buffer.take index),
      fun more => ?_⟩
    unfold parseStep
    dsimp only
    rw [first_append hindex more, Option.bind_some,
      List.take_append_of_le_length (Nat.le_of_add_right_le hle),
      List.drop_append_of_le_length hle]

theorem dashes_isPrefixOf_eq_false {rest : Bytes} (h : ¬ dashes <+: rest) :
    dashes.isPrefixOf rest = false := by
  rw [← Bool.not_eq_true, List.isPrefixOf_iff_prefix]
  exact h

variable (limits rt p) in
/-- What follows a boundary matters only while fewer than two bytes of it have arrived. -/
theorem afterBoundary_agrees (hadds : AddsRequests handle) (harrived : Arrived done start buffer)
    (hcuts : ∀ place < done.flatten.length, CutAt (done ++ chunks) place → place < start)
    (ih : ∀ n ≤ buffer.length, Agrees boundary limits handle rt done chunks
      { p with stage := .headers } (buffer.drop n) (start + n)) :
    requestsOf ((afterBoundary p buffer).result fun p buffer =>
        arrive boundary limits handle rt p buffer chunks) =
      requestsOf ((afterBoundary p (buffer ++ chunks.flatten)).result
        (whole boundary limits handle rt)) ↔
    ((afterBoundary p (buffer ++ chunks.flatten)).result (whole boundary limits handle rt) ≠ none →
      ¬ Harmful (done ++ chunks) start ∧ (¬ dashes <+: buffer ++ chunks.flatten →
        Safe boundary (done ++ chunks) .headers
          (start + lineBreakLength (buffer ++ chunks.flatten)))) := by
  have hlength := harrived.length
  have hrest := harrived.rest chunks
  by_cases hlong : 2 ≤ buffer.length
  · have hharmless : ¬ Harmful (done ++ chunks) start := by
      rintro ⟨hcut | hcut, _⟩
      · exact absurd (hcuts _ (by omega) hcut) (Nat.lt_irrefl _)
      · exact absurd (hcuts _ (by omega) hcut) (Nat.not_succ_lt_self)
    have hdashes : dashes.isPrefixOf (buffer ++ chunks.flatten) = dashes.isPrefixOf buffer :=
      isPrefixOf_append hlong
    have hbreak : lineBreak.isPrefixOf (buffer ++ chunks.flatten) = lineBreak.isPrefixOf buffer :=
      isPrefixOf_append hlong
    have hlbl : lineBreakLength (buffer ++ chunks.flatten) = lineBreakLength buffer := by
      unfold lineBreakLength
      rw [hbreak]
    have hskip : afterLineBreak (buffer ++ chunks.flatten) =
        afterLineBreak buffer ++ chunks.flatten := by
      unfold afterLineBreak
      rw [hlbl, List.drop_append_of_le_length (lineBreakLength_le buffer)]
    unfold afterBoundary
    rw [hdashes]
    by_cases hclosed : dashes.isPrefixOf buffer = true
    · rw [if_pos hclosed, if_pos hclosed]
      refine iff_of_true rfl fun _ => ⟨hharmless, fun hopen => absurd ?_ hopen⟩
      rw [← List.isPrefixOf_iff_prefix, hdashes]
      exact hclosed
    · rw [if_neg hclosed, if_neg hclosed, hskip, hlbl]
      have hopen : ¬ dashes <+: buffer ++ chunks.flatten := by
        rw [← List.isPrefixOf_iff_prefix, hdashes]
        exact hclosed
      have hagrees := ih (lineBreakLength buffer) (lineBreakLength_le buffer)
      refine hagrees.trans (imp_congr_right fun _ => ?_)
      exact ⟨fun hsafe => ⟨hharmless, fun _ => hsafe⟩, fun hsafe => hsafe.2 hopen⟩
  · have hshort : afterBoundary p buffer = .on { p with stage := .headers } buffer := by
      have hno {needle : Bytes} (htwo : needle.length = 2) : ¬ needle.isPrefixOf buffer = true := by
        intro hprefix
        have hle := (List.isPrefixOf_iff_prefix.mp hprefix).length_le
        omega
      unfold afterBoundary afterLineBreak lineBreakLength
      rw [if_neg (hno rfl), if_neg (hno rfl), List.drop_zero]
    have hcut : CutAt (done ++ chunks) start ∨ CutAt (done ++ chunks) (start + 1) := by
      have hdone : CutAt (done ++ chunks) done.flatten.length := cutAt_done chunks
      rw [← hlength] at hdone
      have hcases : buffer.length = 0 ∨ buffer.length = 1 := by omega
      rcases hcases with hzero | hone
      · rw [hzero] at hdone
        exact .inl hdone
      · rw [hone] at hdone
        exact .inr hdone
    have hharmful : Harmful (done ++ chunks) start ↔ Misleads (buffer ++ chunks.flatten) := by
      unfold Harmful
      rw [hrest]
      exact and_iff_right hcut
    have hagrees := ih 0 (Nat.zero_le _)
    rw [List.drop_zero, Nat.add_zero] at hagrees
    rw [hshort, hharmful]
    by_cases hclosed : dashes <+: buffer ++ chunks.flatten
    · have hfinished : afterBoundary p (buffer ++ chunks.flatten) = .finished p.parts :=
        if_pos (List.isPrefixOf_iff_prefix.mpr hclosed)
      rw [hfinished]
      refine iff_of_false ?_ fun hsafe => (hsafe (Option.some_ne_none _)).1 (.inl hclosed)
      intro hsame
      obtain ⟨parts, hparts, hrequests⟩ := Option.map_eq_some_iff.mp hsame
      have hgrows := arrive_grows hadds (p := { p with stage := .headers }) nofun hparts
      rw [hrequests] at hgrows
      exact Nat.lt_irrefl _ hgrows
    · have hon : afterBoundary p (buffer ++ chunks.flatten) =
          .on { p with stage := .headers } (afterLineBreak (buffer ++ chunks.flatten)) :=
        if_neg (by rw [List.isPrefixOf_iff_prefix]; exact hclosed)
      rw [hon]
      show requestsOf (arrive boundary limits handle rt { p with stage := .headers } buffer chunks) =
        requestsOf (whole boundary limits handle rt { p with stage := .headers }
          (afterLineBreak (buffer ++ chunks.flatten))) ↔ _
      by_cases hbreak : lineBreak <+: buffer ++ chunks.flatten
      · obtain ⟨rest, hrest'⟩ := hbreak
        have hskip : afterLineBreak (buffer ++ chunks.flatten) = rest := by
          rw [← hrest']
          rfl
        have hlbl : lineBreakLength (buffer ++ chunks.flatten) = 2 := by
          rw [← hrest']
          rfl
        rw [hskip, hlbl]
        by_cases hblank : [10] <+: rest ∨ lineBreak <+: rest
        · -- the line break is taken for an empty line, and nothing can be made of that
          have hbegins : lineBreak ++ [10] <+: buffer ++ chunks.flatten ∨
              lineBreak ++ lineBreak <+: buffer ++ chunks.flatten := by
            rw [← hrest']
            exact hblank.imp (List.prefix_append_right_inj lineBreak).mpr
              (List.prefix_append_right_inj lineBreak).mpr
          have hnone : requestsOf
              (arrive boundary limits handle rt { p with stage := .headers } buffer chunks) =
                none := by
            rw [Agrees, whole_of_blank hadds rfl hbegins] at hagrees
            exact hagrees.mpr fun hsome => absurd rfl hsome
          rw [hnone]
          constructor
          · intro hsame hsome
            exact absurd (Option.map_eq_none_iff.mp hsame.symm) hsome
          · intro hsafe
            by_contra hsome
            have hwhole : whole boundary limits handle rt { p with stage := .headers } rest ≠
                none := by
              intro hwhole
              rw [hwhole] at hsome
              exact hsome rfl
            exact (hsafe hwhole).1 (.inr hbegins)
        · have hunbroken : Unbroken rest := ⟨fun h => hblank (.inl h), fun h => hblank (.inr h)⟩
          have hleads : ¬ Misleads (buffer ++ chunks.flatten) := by
            rw [← hrest']
            rintro (h | h | h)
            · exact hclosed (hrest' ▸ h)
            · exact hunbroken.noLineFeed (List.prefix_append_right_inj lineBreak |>.mp h)
            · exact hunbroken.noLineBreak (List.prefix_append_right_inj lineBreak |>.mp h)
          have hwhole : whole boundary limits handle rt { p with stage := .headers }
              (lineBreak ++ rest) = whole boundary limits handle rt { p with stage := .headers }
                rest := whole_lineBreak rfl hunbroken
          rw [Agrees, ← hrest', hwhole] at hagrees
          refine hagrees.trans (imp_congr_right fun _ => ?_)
          refine (safe_lineBreak (hrest.trans hrest'.symm) hunbroken).trans ?_
          exact ⟨fun hsafe => ⟨hleads, fun _ => hsafe⟩, fun hsafe => hsafe.2 hclosed⟩
      · have hlbl : lineBreakLength (buffer ++ chunks.flatten) = 0 :=
          if_neg (by rw [List.isPrefixOf_iff_prefix]; exact hbreak)
        have hskip : afterLineBreak (buffer ++ chunks.flatten) = buffer ++ chunks.flatten := by
          rw [afterLineBreak, hlbl, List.drop_zero]
        have hleads : ¬ Misleads (buffer ++ chunks.flatten) := by
          rintro (h | h | h)
          · exact hclosed h
          · exact hbreak ((List.prefix_append _ _).trans h)
          · exact hbreak ((List.prefix_append _ _).trans h)
        rw [hskip, hlbl, Nat.add_zero]
        refine hagrees.trans (imp_congr_right fun _ => ?_)
        exact ⟨fun hsafe => ⟨hleads, fun _ => hsafe⟩, fun hsafe => hsafe.2 hclosed⟩

/-- No chunk has ended where the delimiter ahead could have been found already. -/
def Unfound (boundary : Text) (done chunks : List Bytes) (stage : Stage) (buffer : Bytes)
    (start : Nat) : Prop :=
  ∀ place < done.flatten.length, CutAt (done ++ chunks) place →
    delimiterEnd boundary stage (buffer.take (place - start)) = none

theorem delimiterEnd_take_eq_none {stage : Stage}
    (h : delimiterEnd boundary stage buffer = none) (n : Nat) :
    delimiterEnd boundary stage (buffer.take n) = none := by
  rw [Option.eq_none_iff_forall_ne_some]
  intro m hm
  have hlonger := delimiterEnd_append hm (buffer.drop n)
  rw [List.take_append_drop, h] at hlonger
  cases hlonger

/-- The chunks that have ended are behind a delimiter that is only found now. -/
theorem Unfound.before {stage : Stage} (h : Unfound boundary done chunks stage buffer start)
    (hend : delimiterEnd boundary stage buffer = some n) :
    ∀ place < done.flatten.length, CutAt (done ++ chunks) place → place < start + n := by
  intro place hplace hcut
  by_contra hge
  have hnone := h place hplace hcut
  have hle := (delimiterEnd_le hend).2
  rw [← List.take_append_drop (place - start) buffer] at hend
  rw [delimiterEnd_of_append hend (by rw [List.length_take]; omega)] at hnone
  cases hnone

theorem unfound_of_before {stage : Stage}
    (h : ∀ place < done.flatten.length, CutAt (done ++ chunks) place → place < start) (n : Nat) :
    Unfound boundary done chunks stage buffer (start + n) := by
  intro place hplace hcut
  have hzero : place - (start + n) = 0 := by
    have := h place hplace hcut
    omega
  rw [hzero, List.take_zero]
  exact delimiterEnd_nil stage

theorem Unfound.push {stage : Stage} {chunk : Bytes} (harrived : Arrived done start buffer)
    (h : delimiterEnd boundary stage buffer = none) :
    Unfound boundary (done ++ [chunk]) chunks stage (buffer ++ chunk) start := by
  intro place hplace hcut
  have hlength := harrived.length
  rw [List.append_assoc] at hcut
  rcases hcut.outside with hbefore | hafter
  · rw [List.take_append_of_le_length (by omega)]
    exact delimiterEnd_take_eq_none h _
  · exact absurd hplace (Nat.not_lt.mpr hafter)

/-- One pass, when what holds after the next chunk is known. -/
theorem agrees_of_wait (hadds : AddsRequests handle)
    (hwait : ∀ (p : Reading) (buffer : Bytes) (start : Nat), Arrived done start buffer →
      delimiterEnd boundary p.stage buffer = none →
        (requestsOf (wait boundary limits handle rt p buffer chunks) =
            requestsOf (whole boundary limits handle rt p (buffer ++ chunks.flatten)) ↔
          (whole boundary limits handle rt p (buffer ++ chunks.flatten) ≠ none →
            Safe boundary (done ++ chunks) p.stage start)))
    (harrived : Arrived done start buffer)
    (hunfound : Unfound boundary done chunks p.stage buffer start) :
    Agrees boundary limits handle rt done chunks p buffer start := by
  induction hlength : buffer.length using Nat.strong_induction_on generalizing p buffer start with
  | _ length ih =>
    cases hfound : delimiterEnd boundary p.stage buffer with
    | none =>
      unfold Agrees
      rcases arrive_of_none limits handle rt hfound chunks with
        ⟨checked, heq⟩ | ⟨hnone, hwhole⟩
      · rw [heq, ← whole_checked checked]
        exact hwait { p with checked := checked } buffer start harrived hfound
      · rw [hnone, hwhole]
        exact iff_of_true rfl fun hsome => absurd rfl hsome
    | some n =>
      obtain ⟨htwo, hle⟩ := delimiterEnd_le hfound
      have hcuts := hunfound.before hfound
      have hrest := harrived.rest chunks
      have hfound' : delimiterEnd boundary p.stage ((done ++ chunks).flatten.drop start) =
          some n := by
        rw [hrest]
        exact delimiterEnd_append hfound _
      unfold Agrees
      rw [arrive_of_found hfound, whole_eq]
      by_cases hstage : p.stage = .headers
      · obtain ⟨stage, headers, checked, parts⟩ := p
        cases hstage
        rw [safe_headers_iff hfound']
        obtain ⟨found, hsep, rfl⟩ := Option.map_eq_some_iff.mp hfound
        have hindex : found.1 ≤ buffer.length := Nat.le_of_add_right_le hle
        unfold parseStep
        dsimp only
        rw [hsep, separator_append hsep, Option.map_some, Option.map_some,
          List.take_append_of_le_length hindex, List.drop_append_of_le_length hle]
        exact ih _ (by rw [← hlength, List.length_drop]; omega)
          (harrived.drop hle) (unfound_of_before hcuts 0) rfl
      · rw [safe_boundary_iff hstage hfound']
        obtain ⟨taken, hstep⟩ := parseStep_boundary limits handle rt hstage hfound
        have hnow := hstep []
        rw [List.append_nil, List.append_nil] at hnow
        rw [hnow, hstep]
        cases taken with
        | none => exact iff_of_true rfl fun hsome => absurd rfl hsome
        | some p' =>
          have hagrees := afterBoundary_agrees limits rt p' hadds (harrived.drop hle) hcuts
            fun m hm => ih _ ?_ ((harrived.drop hle).drop hm) (unfound_of_before hcuts m) rfl
          · rw [(harrived.drop hle).rest chunks]
            exact hagrees
          · rw [← hlength, List.length_drop, List.length_drop]
            omega

variable (limits rt) in
/-- The run over all chunks that are still to come. -/
theorem agrees (hadds : AddsRequests handle) (harrived : Arrived done start buffer)
    (hunfound : Unfound boundary done chunks p.stage buffer start) :
    Agrees boundary limits handle rt done chunks p buffer start := by
  induction chunks generalizing done p buffer start with
  | nil =>
    refine agrees_of_wait hadds (fun p buffer start _ hnone => ?_) harrived hunfound
    rw [List.flatten_nil, List.append_nil, wait_nil, whole_of_none hnone]
    exact iff_of_true rfl fun hsome => absurd rfl hsome
  | cons chunk chunks ih =>
    refine agrees_of_wait hadds (fun p buffer start harrived hnone => ?_) harrived hunfound
    have hagrees := ih (p := p) (harrived.push chunk) (.push harrived hnone)
    rw [Agrees, List.append_assoc, List.append_assoc] at hagrees
    exact hagrees

variable (boundary limits rt p) in
theorem wait_iff (hadds : AddsRequests handle) (hstage : p.stage = .opening)
    (chunks : List Bytes) :
    requestsOf (wait boundary limits handle rt p [] chunks) =
        requestsOf (whole boundary limits handle rt p chunks.flatten) ↔
      (whole boundary limits handle rt p chunks.flatten ≠ none →
        Safe boundary chunks .opening 0) := by
  cases chunks with
  | nil =>
    rw [List.flatten_nil, wait_nil, whole_of_none (delimiterEnd_nil _)]
    exact iff_of_true rfl fun hsome => absurd rfl hsome
  | cons chunk chunks =>
    have harrived : Arrived [chunk] 0 chunk := ⟨Nat.zero_le _, by simp⟩
    have hunfound : Unfound boundary [chunk] chunks p.stage chunk 0 := by
      have hnothing : Arrived [] 0 [] := ⟨Nat.zero_le _, rfl⟩
      exact .push hnothing (delimiterEnd_nil _)
    have hagrees := agrees limits rt hadds harrived hunfound
    rw [Agrees, hstage] at hagrees
    exact hagrees

end Run

/-! ## The parser of a batch -/

section Batch

variable (limits : MultipartParserLimits) (rt : Runtime)

theorem requests_nextChangesetOperation (changesetId : Option Text) (s : PartsState) :
    (nextChangesetOperation changesetId s).2.requests = s.requests := by
  unfold nextChangesetOperation
  split
  · rfl
  · rfl

theorem handlePartWithin_grows {Q : Type} [ByteQueue Q] {n depth : Nat} {changesetId : Option Text}
    {body : Bytes} {headers : Option Headers} {s s' : PartsState}
    (h : handlePartWithin Q limits rt n depth changesetId body headers s = .ok s') :
    s.requests.length < s'.requests.length := by
  cases n with
  | zero => cases h
  | succ n =>
    cases headers with
    | none => cases h
    | some headers =>
      unfold handlePartWithin at h
      dsimp only at h
      split at h
      · split at h
        · cases h
        · obtain ⟨_, _, h⟩ := Outcome.bind_eq_ok.mp h
          obtain ⟨nested, _, h⟩ := Outcome.bind_eq_ok.mp h
          split at h
          · cases h
          · next hsome =>
            cases h
            rw [List.length_append]
            exact Nat.lt_add_of_pos_right (List.length_pos_iff.mpr hsome)
      · split at h
        · obtain ⟨⟨request, context⟩, _, h⟩ := Outcome.bind_eq_ok.mp h
          obtain ⟨context', _, h⟩ := Outcome.bind_eq_ok.mp h
          cases h
          rw [List.length_append, requests_nextChangesetOperation]
          exact Nat.lt_succ_self _
        · cases h

theorem addsRequests_handlePart {Q : Type} [ByteQueue Q] (depth : Nat) (changesetId : Option Text) :
    AddsRequests (handlePart Q limits rt depth changesetId) where
  grows h := handlePartWithin_grows limits rt h
  needsHeaders _ _ := ⟨_, rfl⟩

variable (boundary : Text)

/-- The parser of the service runs over the queue of chunks. -/
theorem parse_toOption (chunks : List Bytes) :
    (parse ValidQueue limits rt boundary chunks).toOption =
      requestsOf (wait boundary limits (handlePart Bytes limits rt 0 none) rt
        ⟨.opening, none, 0, ⟨[], 0, ⟨0, 0⟩⟩⟩ [] chunks) := by
  rw [parse_congr ValidQueue Bytes]
  unfold parse wait requestsOf
  show (parseChunks boundary limits (handlePart Bytes limits rt 0 none) rt chunks
    (startParser (Q := Bytes) ⟨[], 0, ⟨0, 0⟩⟩) >>= _).toOption = Option.map _ (parseChunks boundary
      limits (handlePart Bytes limits rt 0 none) rt chunks
      (startParser (Q := Bytes) ⟨[], 0, ⟨0, 0⟩⟩)).toOption
  cases parseChunks boundary limits (handlePart Bytes limits rt 0 none) rt chunks
    (startParser (Q := Bytes) ⟨[], 0, ⟨0, 0⟩⟩) with
  | error e => rfl
  | ok s => rfl

/-- A payload that comes at once reads as a whole. -/
theorem parse_single (payload : Bytes) :
    (parse ValidQueue limits rt boundary [payload]).toOption =
      requestsOf (whole boundary limits (handlePart Bytes limits rt 0 none) rt
        ⟨.opening, none, 0, ⟨[], 0, ⟨0, 0⟩⟩⟩ payload) := by
  rw [parse_toOption]
  have hflatten : [payload].flatten = payload := List.flatten_singleton
  have hwait := wait_iff boundary limits rt ⟨.opening, none, 0, ⟨[], 0, ⟨0, 0⟩⟩⟩
    (addsRequests_handlePart (Q := Bytes) limits rt 0 none) rfl [payload]
  rw [hflatten] at hwait
  exact hwait.mpr fun _ => safe_single payload

/-- Chunks and the whole payload give the same requests, but for an accepted payload that is cut
behind a boundary whose next two bytes matter. -/
theorem parse_chunks_iff (chunks : List Bytes) :
    ((parse ValidQueue limits rt boundary [chunks.flatten]).toOption = none →
        (parse ValidQueue limits rt boundary chunks).toOption = none) ∧
      ∀ requests, (parse ValidQueue limits rt boundary [chunks.flatten]).toOption = some requests →
        ((parse ValidQueue limits rt boundary chunks).toOption = some requests ↔
          ∀ n, BoundaryAt boundary .opening chunks.flatten n → ¬ Harmful chunks n) := by
  have hwait := wait_iff boundary limits rt ⟨.opening, none, 0, ⟨[], 0, ⟨0, 0⟩⟩⟩
    (addsRequests_handlePart (Q := Bytes) limits rt 0 none) rfl chunks
  rw [← parse_toOption, ← parse_single] at hwait
  constructor
  · intro hnone
    rw [hnone] at hwait
    refine hwait.mpr fun hsome => absurd ?_ hsome
    rw [parse_single] at hnone
    exact Option.map_eq_none_iff.mp hnone
  · intro requests hsome
    rw [hsome] at hwait
    rw [hwait]
    have hwhole : whole boundary limits (handlePart Bytes limits rt 0 none) rt
        ⟨.opening, none, 0, ⟨[], 0, ⟨0, 0⟩⟩⟩ chunks.flatten ≠ none := by
      intro hnone
      rw [parse_single, hnone] at hsome
      cases hsome
    refine ⟨fun hsafe n hn => ?_, fun hsafe _ n hn => ?_⟩
    · have hharmless := hsafe hwhole n hn
      rwa [Nat.zero_add] at hharmless
    · rw [Nat.zero_add]
      exact hsafe n hn

/-- A batch of one request, but for the dashes that close it. -/
def unclosedBatch : Bytes :=
  utf8Bytes ("--b\r\nContent-Type: application/http\r\n\r\n".toList ++
    "GET /Products HTTP/1.1\r\n\r\n\r\n--b".toList)

def noLimits : MultipartParserLimits := ⟨none, none, none, none, none⟩

theorem parse_unclosedBatch_whole :
    (parse Bytes noLimits Runtime.ascii "b".toList [unclosedBatch ++ dashes]).toOption.isSome =
      true := by
  decide +kernel

theorem parse_unclosedBatch_cut :
    (parse Bytes noLimits Runtime.ascii "b".toList [unclosedBatch, dashes]).toOption.isSome =
      false := by
  decide +kernel

/-- The closing boundary comes in two chunks. -/
theorem parse_chunks_closing :
    ¬ ∀ (limits : MultipartParserLimits) (rt : Runtime) (boundary : Text) (chunks : List Bytes),
      (parse ValidQueue limits rt boundary chunks).toOption.isSome =
        (parse ValidQueue limits rt boundary [chunks.flatten]).toOption.isSome := by
  intro h
  have hsame := h noLimits Runtime.ascii "b".toList [unclosedBatch, dashes]
  rw [parse_congr ValidQueue Bytes, parse_congr ValidQueue Bytes, parse_unclosedBatch_cut] at hsame
  have hflatten : [unclosedBatch, dashes].flatten = unclosedBatch ++ dashes := by
    rw [List.flatten_cons, List.flatten_singleton]
  rw [hflatten, parse_unclosedBatch_whole] at hsame
  cases hsame

end Batch

end LoopbackOData
