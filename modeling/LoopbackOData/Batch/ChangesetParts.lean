import LoopbackOData.Batch.Chunking
import LoopbackOData.Batch.RolledBack

/-!
# Changeset parts

Where the requests of a multipart payload stand: which changeset part each of them is in. The parts
of a payload are found by the parser itself, with a handler that only keeps them.
-/

set_option autoImplicit false

namespace LoopbackOData

open ByteQueue

/-! ## Parts that are kept -/

/-- The headers and the body of a part. -/
abbrev RawPart := Headers × Bytes

def RawPart.kept (part : RawPart) : ParsedBatchRequest :=
  ⟨[], [], [], part.1, none, some part.2, none⟩

def keptPart (request : ParsedBatchRequest) : RawPart := (request.headers, request.rawBody.getD [])

/-- Keeps a part as it comes. -/
def keepPart : PartHandler := fun body headers s =>
  .ok { s with requests := s.requests ++ [RawPart.kept (headers.getD [], body)] }

theorem keptPart_kept (parts : List RawPart) : (parts.map RawPart.kept).map keptPart = parts := by
  rw [List.map_map]
  exact List.map_id' parts

/-- Handles one part after the other. -/
def handleAll (handle : PartHandler) : List RawPart → PartsState → Except BatchError PartsState
  | [], s => .ok s
  | (headers, body) :: parts, s => do
    let s ← handle body (some headers) s
    handleAll handle parts s

theorem handleAll_append {handle : PartHandler} {parts parts' : List RawPart}
    {s s' s'' : PartsState} (h : handleAll handle parts s = .ok s')
    (h' : handleAll handle parts' s' = .ok s'') :
    handleAll handle (parts ++ parts') s = .ok s'' := by
  induction parts generalizing s with
  | nil =>
    obtain rfl := Except.ok.inj h
    exact h'
  | cons part parts ih =>
    obtain ⟨between, hpart, hrest⟩ := Outcome.bind_eq_ok.mp h
    exact Outcome.bind_eq_ok.mpr ⟨between, hpart, ih hrest⟩

section Keeping

variable {Q : Type} [ByteQueue Q]

/-- The same parser with other parts behind it. -/
def StreamingBatchParser.withParts (s : StreamingBatchParser Q) (parts : PartsState) :
    StreamingBatchParser Q := { s with parts := parts }

def Turn.parser {σ : Type} : Turn σ → σ
  | .stop s => s
  | .again s => s

def Turn.withParts (parts : PartsState) :
    Turn (StreamingBatchParser Q) → Turn (StreamingBatchParser Q)
  | .stop s => .stop (s.withParts parts)
  | .again s => .again (s.withParts parts)

/-- What a parser has kept besides. -/
def PartsState.keep (p : PartsState) (parts : List RawPart) : PartsState :=
  { p with requests := p.requests ++ parts.map RawPart.kept }

theorem PartsState.keep_nil (p : PartsState) : p.keep [] = p := by
  unfold PartsState.keep
  rw [List.map_nil, List.append_nil]

theorem PartsState.keep_append (p : PartsState) (parts parts' : List RawPart) :
    p.keep (parts ++ parts') = (p.keep parts).keep parts' := by
  unfold PartsState.keep
  rw [List.map_append, List.append_assoc]

variable {boundary : Text} {limits : MultipartParserLimits} {handle : PartHandler} {rt : Runtime}
  {finalPass : Bool} {s s' : StreamingBatchParser Q}

theorem readFirstBoundary_withParts {t : Turn (StreamingBatchParser Q)}
    (h : readFirstBoundary boundary finalPass s = .ok t) (p : PartsState) :
    readFirstBoundary boundary finalPass (s.withParts p) = .ok (t.withParts p) ∧
      t.parser.parts = s.parts := by
  unfold readFirstBoundary at h ⊢
  obtain ⟨⟨consumed, q⟩, hconsumed, h⟩ := Outcome.bind_eq_ok.mp h
  have hconsumed' : consumeAnchoredFirstBoundary boundary finalPass (s.withParts p).buffer =
    .ok (consumed, q) := hconsumed
  rw [hconsumed']
  cases consumed with
  | none =>
    obtain rfl := Except.ok.inj h
    exact ⟨rfl, rfl⟩
  | some n =>
    dsimp only [bind, Except.bind] at h ⊢
    split at h
    · next hclosing =>
      rw [if_pos hclosing]
      obtain ⟨q', hq', h⟩ := Outcome.bind_eq_ok.mp h
      obtain rfl := Except.ok.inj h
      rw [hq']
      exact ⟨rfl, rfl⟩
    · next hclosing =>
      rw [if_neg hclosing]
      obtain ⟨q', hq', h⟩ := Outcome.bind_eq_ok.mp h
      obtain rfl := Except.ok.inj h
      rw [hq']
      exact ⟨rfl, rfl⟩

theorem readHeaders_withParts {t : Turn (StreamingBatchParser Q)}
    (h : readHeaders rt finalPass s = .ok t) (p : PartsState) :
    readHeaders rt finalPass (s.withParts p) = .ok (t.withParts p) ∧
      t.parser.parts = s.parts := by
  unfold readHeaders at h ⊢
  have hbuffer : (s.withParts p).buffer = s.buffer := rfl
  rw [hbuffer]
  dsimp only at h ⊢
  cases hfound : (findHeaderSeparatorInQueue s.buffer).1 with
  | none =>
    rw [hfound] at h
    dsimp only at h ⊢
    split at h
    · cases h
    · next hfinal =>
      rw [if_neg hfinal]
      obtain rfl := Except.ok.inj h
      exact ⟨rfl, rfl⟩
  | some found =>
    rw [hfound] at h
    dsimp only at h ⊢
    obtain ⟨headers, hheaders, h⟩ := Outcome.bind_eq_ok.mp h
    obtain ⟨q, hq, h⟩ := Outcome.bind_eq_ok.mp h
    obtain rfl := Except.ok.inj h
    rw [hheaders]
    show (consumeBytes _ _ >>= _) = _ ∧ _
    rw [hq]
    exact ⟨rfl, rfl⟩

theorem enforceStreamingPartLimit_withParts
    (h : enforceStreamingPartLimit boundary limits s = .ok s') (p : PartsState) :
    enforceStreamingPartLimit boundary limits (s.withParts p) = .ok (s'.withParts p) ∧
      s'.parts = s.parts := by
  unfold enforceStreamingPartLimit at h ⊢
  cases hmax : limits.maxPartBodyBytes with
  | none =>
    rw [hmax] at h
    obtain rfl := Except.ok.inj h
    exact ⟨rfl, rfl⟩
  | some max =>
    rw [hmax] at h
    dsimp only at h ⊢
    have hbuffer : (s.withParts p).buffer = s.buffer := rfl
    have hbytes : (s.withParts p).currentPartBytes = s.currentPartBytes := rfl
    rw [hbuffer, hbytes]
    split at h
    · next hzero =>
      rw [if_pos hzero]
      obtain rfl := Except.ok.inj h
      exact ⟨rfl, rfl⟩
    · next hzero =>
      rw [if_neg hzero]
      split at h
      · next hle =>
        rw [if_pos hle]
        obtain rfl := Except.ok.inj h
        exact ⟨rfl, rfl⟩
      · next hle =>
        rw [if_neg hle]
        obtain ⟨_, hsize, h⟩ := Outcome.bind_eq_ok.mp h
        obtain rfl := Except.ok.inj h
        rw [hsize]
        exact ⟨rfl, rfl⟩

/-- A body is handled when its part is kept. -/
theorem readBody_keeps {t : Turn (StreamingBatchParser Q)}
    (hneeds : ∀ body p p', handle body none p ≠ .ok p')
    (h : readBody boundary limits handle finalPass s = .ok t) (p : PartsState) :
    ∃ parts, readBody boundary limits keepPart finalPass (s.withParts p) =
        .ok (t.withParts (p.keep parts)) ∧
      handleAll handle parts s.parts = .ok t.parser.parts := by
  unfold readBody at h ⊢
  have hbuffer : (s.withParts p).buffer = s.buffer := rfl
  rw [hbuffer]
  dsimp only at h ⊢
  cases hfound : (findNextBoundary boundary s.buffer).1 with
  | none =>
    rw [hfound] at h
    dsimp only at h ⊢
    obtain ⟨between, hlimit, h⟩ := Outcome.bind_eq_ok.mp h
    obtain ⟨hlimit', hparts⟩ := enforceStreamingPartLimit_withParts hlimit p
    split at h
    · cases h
    · next hfinal =>
      obtain rfl := Except.ok.inj h
      refine ⟨[], ?_, congrArg Except.ok hparts.symm⟩
      rw [PartsState.keep_nil]
      exact Outcome.bind_eq_ok.mpr ⟨_, hlimit', if_neg hfinal⟩
  | some found =>
    obtain ⟨index, closing⟩ := found
    rw [hfound] at h
    dsimp only at h ⊢
    obtain ⟨body, hbody, h⟩ := Outcome.bind_eq_ok.mp h
    obtain ⟨_, hsize, h⟩ := Outcome.bind_eq_ok.mp h
    obtain ⟨handled, hhandled, h⟩ := Outcome.bind_eq_ok.mp h
    obtain ⟨q, hq, h⟩ := Outcome.bind_eq_ok.mp h
    obtain ⟨q', hq', h⟩ := Outcome.bind_eq_ok.mp h
    cases hheaders : s.currentHeaders with
    | none =>
      rw [hheaders] at hhandled
      exact absurd hhandled (hneeds _ _ _)
    | some headers =>
      rw [hheaders] at hhandled
      have hkept : keepPart body (s.withParts p).currentHeaders (s.withParts p).parts =
          .ok (p.keep [(headers, body)]) := by
        show keepPart body s.currentHeaders p = _
        rw [hheaders]
        rfl
      refine ⟨[(headers, body)], ?_, ?_⟩
      · refine Outcome.bind_eq_ok.mpr ⟨body, hbody, Outcome.bind_eq_ok.mpr ⟨_, hsize, ?_⟩⟩
        refine Outcome.bind_eq_ok.mpr ⟨_, hkept, Outcome.bind_eq_ok.mpr ⟨q, hq, ?_⟩⟩
        refine Outcome.bind_eq_ok.mpr ⟨q', hq', ?_⟩
        split at h
        · next hclosing =>
          rw [if_pos hclosing, ← Except.ok.inj h]
          rfl
        · next hclosing =>
          rw [if_neg hclosing, ← Except.ok.inj h]
          rfl
      · have hall : handleAll handle [(headers, body)] s.parts = .ok handled :=
          Outcome.bind_eq_ok.mpr ⟨handled, hhandled, rfl⟩
        rw [hall]
        split at h
        · rw [← Except.ok.inj h]
          rfl
        · rw [← Except.ok.inj h]
          rfl

theorem turn_keeps {t : Turn (StreamingBatchParser Q)}
    (hneeds : ∀ body p p', handle body none p ≠ .ok p')
    (h : turn boundary limits handle rt finalPass s = .ok t) (p : PartsState) :
    ∃ parts, turn boundary limits keepPart rt finalPass (s.withParts p) =
        .ok (t.withParts (p.keep parts)) ∧
      handleAll handle parts s.parts = .ok t.parser.parts := by
  unfold turn at h ⊢
  have hseen : (s.withParts p).firstBoundarySeen = s.firstBoundarySeen := rfl
  have hstate : (s.withParts p).state = s.state := rfl
  rw [hseen, hstate]
  split at h
  · next hunseen =>
    rw [if_pos hunseen]
    obtain ⟨hread, hparts⟩ := readFirstBoundary_withParts h p
    refine ⟨[], ?_, congrArg Except.ok hparts.symm⟩
    rw [PartsState.keep_nil]
    exact hread
  · next hunseen =>
    rw [if_neg hunseen]
    cases hs : s.state with
    | headers =>
      rw [hs] at h
      obtain ⟨hread, hparts⟩ := readHeaders_withParts h p
      refine ⟨[], ?_, congrArg Except.ok hparts.symm⟩
      rw [PartsState.keep_nil]
      exact hread
    | body =>
      rw [hs] at h
      exact readBody_keeps hneeds h p

theorem processTurns_keeps (hneeds : ∀ body p p', handle body none p ≠ .ok p') {n : Nat}
    (h : processTurns boundary limits handle rt finalPass n s = .ok s') (p : PartsState) :
    ∃ parts, processTurns boundary limits keepPart rt finalPass n (s.withParts p) =
        .ok (s'.withParts (p.keep parts)) ∧
      handleAll handle parts s.parts = .ok s'.parts := by
  induction n generalizing s p with
  | zero =>
    obtain rfl := Except.ok.inj h
    refine ⟨[], ?_, rfl⟩
    rw [PartsState.keep_nil]
    rfl
  | succ n ih =>
    obtain ⟨t, hturn, h⟩ := Outcome.bind_eq_ok.mp h
    obtain ⟨parts, hturn', hall⟩ := turn_keeps hneeds hturn p
    cases t with
    | stop between =>
      obtain rfl := Except.ok.inj h
      exact ⟨parts, Outcome.bind_eq_ok.mpr ⟨_, hturn', rfl⟩, hall⟩
    | again between =>
      obtain ⟨more, hmore, hrest⟩ := ih h (p.keep parts)
      refine ⟨parts ++ more, Outcome.bind_eq_ok.mpr ⟨_, hturn', ?_⟩, handleAll_append hall hrest⟩
      rw [PartsState.keep_append]
      exact hmore

theorem processBuffer_keeps (hneeds : ∀ body p p', handle body none p ≠ .ok p')
    (h : processBuffer boundary limits handle rt finalPass s = .ok s') (p : PartsState) :
    ∃ parts, processBuffer boundary limits keepPart rt finalPass (s.withParts p) =
        .ok (s'.withParts (p.keep parts)) ∧
      handleAll handle parts s.parts = .ok s'.parts := by
  unfold processBuffer at h ⊢
  have hended : (s.withParts p).ended = s.ended := rfl
  rw [hended]
  split at h
  · next hend =>
    obtain rfl := Except.ok.inj h
    refine ⟨[], ?_, rfl⟩
    rw [PartsState.keep_nil, if_pos hend]
  · next hend =>
    rw [if_neg hend]
    exact processTurns_keeps hneeds h p

theorem finishParse_keeps (hneeds : ∀ body p p', handle body none p ≠ .ok p') {final : PartsState}
    (h : finishParse boundary limits handle rt s = .ok final) (p : PartsState) :
    ∃ parts, finishParse boundary limits keepPart rt (s.withParts p) = .ok (p.keep parts) ∧
      handleAll handle parts s.parts = .ok final := by
  obtain ⟨s', hs', h⟩ := Outcome.bind_eq_ok.mp h
  obtain ⟨parts, hkeeps, hall⟩ := processBuffer_keeps hneeds hs' p
  split at h
  · next hended =>
    obtain rfl := Except.ok.inj h
    exact ⟨parts, Outcome.bind_eq_ok.mpr ⟨_, hkeeps, if_pos hended⟩, hall⟩
  · cases h

theorem parseLimited_keeps (hneeds : ∀ body p p', handle body none p ≠ .ok p') {total : Nat}
    {chunks : List Bytes} {final : PartsState}
    (h : parseLimited boundary limits handle rt total chunks s = .ok final) (p : PartsState) :
    ∃ parts, parseLimited boundary limits keepPart rt total chunks (s.withParts p) =
        .ok (p.keep parts) ∧
      handleAll handle parts s.parts = .ok final := by
  induction chunks generalizing s p total with
  | nil => exact finishParse_keeps hneeds h p
  | cons chunk chunks ih =>
    obtain ⟨_, htotal, h⟩ := Outcome.bind_eq_ok.mp h
    obtain ⟨between, hbetween, h⟩ := Outcome.bind_eq_ok.mp h
    obtain ⟨parts, hkeeps, hall⟩ := processBuffer_keeps hneeds hbetween p
    obtain ⟨more, hmore, hrest⟩ := ih h (p.keep parts)
    refine ⟨parts ++ more, ?_, handleAll_append hall hrest⟩
    rw [PartsState.keep_append]
    exact Outcome.bind_eq_ok.mpr ⟨_, htotal, Outcome.bind_eq_ok.mpr ⟨_, hkeeps, hmore⟩⟩

end Keeping

/-! ## Places of requests -/

/-- The changeset parts around a request, from the outermost in: each by its number among its
siblings and its name. -/
abbrev PartPath := List (Nat × Text)

/-- The name of the innermost changeset part. -/
def PartPath.name (path : PartPath) : Option Text := path.getLast?.map (·.2)

section Places

variable (Q : Type) [ByteQueue Q] (limits : MultipartParserLimits) (rt : Runtime)

/-- The type of a part in lower case. -/
def partContentType (headers : Headers) : Text :=
  ((headers.get "content-type").map rt.toLowerCase).getD []

def isChangesetPart (headers : Headers) : Bool :=
  startsWith (partContentType rt headers) "multipart/mixed".toList

/-- The Content-ID of a changeset part, or else the boundary inside it. -/
def changesetName (headers : Headers) : Text :=
  (headers.get "content-id").getD ((extractBoundary (partContentType rt headers)).getD [])

/-- The parts in the body of a changeset part. -/
def innerParts (headers : Headers) (body : Bytes) : Except BatchError (List RawPart) := do
  let s ← parseBuffer (Q := Q) ((extractBoundary (partContentType rt headers)).getD []) limits
    keepPart rt body (startParser ⟨[], 0, ⟨0, 0⟩⟩)
  .ok (s.requests.map keptPart)

/-- The places of the requests in parts that stand next to each other. -/
def placesOfAll (places : Nat → RawPart → Except BatchError (List PartPath)) :
    Nat → List RawPart → Except BatchError (List PartPath)
  | _, [] => .ok []
  | index, part :: parts => do
    let first ← places index part
    let rest ← placesOfAll places (index + 1) parts
    .ok (first ++ rest)

/-- The places of the requests in a part, which is the part with this number inside `path`. -/
def placesOfPart : Nat → PartPath → Nat → RawPart → Except BatchError (List PartPath)
  | 0, _, _, _ => .error rangeError
  | n + 1, path, index, (headers, body) =>
    if isChangesetPart rt headers then do
      let parts ← innerParts Q limits rt headers body
      placesOfAll (placesOfPart n (path ++ [(index, changesetName rt headers)])) 0 parts
    else .ok [path]

/-- The places of the requests of a payload. -/
def payloadPlaces (boundary : Text) (chunks : List Bytes) : Except BatchError (List PartPath) := do
  let s ← parseLimited boundary limits keepPart rt 0 chunks
    (startParser (Q := Q) ⟨[], 0, ⟨0, 0⟩⟩)
  placesOfAll (fun index part => placesOfPart Q limits rt (part.2.length + 1) [] index part) 0
    (s.requests.map keptPart)

variable {Q limits rt}

/-- The requests that have been added are those of the places. -/
def Placed (s s' : PartsState) (places : List PartPath) : Prop :=
  ∃ added, s'.requests = s.requests ++ added ∧
    added.map (·.atomicityGroup) = places.map PartPath.name

theorem placed_all {handle : PartHandler}
    (placesOf : Nat → RawPart → Except BatchError (List PartPath)) {parts : List RawPart}
    (hpart : ∀ part ∈ parts, ∀ index s s', handle part.2 (some part.1) s = .ok s' →
      ∃ places, placesOf index part = .ok places ∧ Placed s s' places)
    {s s' : PartsState} (h : handleAll handle parts s = .ok s') (index : Nat) :
    ∃ places, placesOfAll placesOf index parts = .ok places ∧ Placed s s' places := by
  induction parts generalizing s index with
  | nil =>
    obtain rfl := Except.ok.inj h
    exact ⟨[], rfl, [], (List.append_nil _).symm, rfl⟩
  | cons part parts ih =>
    obtain ⟨between, hfirst, hrest⟩ := Outcome.bind_eq_ok.mp h
    obtain ⟨first, hplaces, added, hadded, hnames⟩ :=
      hpart part List.mem_cons_self index s between hfirst
    obtain ⟨rest, hplaces', added', hadded', hnames'⟩ :=
      ih (fun part' hmem => hpart part' (List.mem_cons_of_mem _ hmem)) hrest (index + 1)
    refine ⟨first ++ rest, ?_, added ++ added', ?_, ?_⟩
    · exact Outcome.bind_eq_ok.mpr ⟨first, hplaces, Outcome.bind_eq_ok.mpr ⟨rest, hplaces', rfl⟩⟩
    · rw [hadded', hadded, List.append_assoc]
    · rw [List.map_append, List.map_append, hnames, hnames']

theorem handlePartWithin_needsHeaders {n depth : Nat} {changesetId : Option Text} (body : Bytes)
    (s s' : PartsState) :
    handlePartWithin Q limits rt n depth changesetId body none s ≠ .ok s' := by
  intro h
  cases n with
  | zero => cases h
  | succ n => cases h

/-- A request of a part carries the name of the changeset part that it is in. -/
theorem placed_part {n depth : Nat} {path : PartPath} {index : Nat} {headers : Headers}
    {body : Bytes} {s s' : PartsState}
    (h : handlePartWithin Q limits rt n depth path.name body (some headers) s = .ok s') :
    ∃ places, placesOfPart Q limits rt n path index (headers, body) = .ok places ∧
      Placed s s' places := by
  induction n generalizing depth path index headers body s s' with
  | zero => cases h
  | succ n ih =>
    unfold handlePartWithin at h
    unfold placesOfPart
    dsimp only at h
    split at h
    · next hmixed =>
      rw [if_pos (show isChangesetPart rt headers = true from hmixed)]
      split at h
      · cases h
      · obtain ⟨_, _, h⟩ := Outcome.bind_eq_ok.mp h
        obtain ⟨nested, hnested, h⟩ := Outcome.bind_eq_ok.mp h
        split at h
        · cases h
        · obtain rfl := Except.ok.inj h
          obtain ⟨parts, hparts, hall⟩ := finishParse_keeps
            (fun body p p' => handlePartWithin_needsHeaders body p p') hnested ⟨[], 0, ⟨0, 0⟩⟩
          have hinner : innerParts Q limits rt headers body = .ok parts := by
            refine Outcome.bind_eq_ok.mpr ⟨_, hparts, congrArg Except.ok ?_⟩
            show ([] ++ parts.map RawPart.kept).map keptPart = parts
            rw [List.nil_append, keptPart_kept]
          have hname : PartPath.name (path ++ [(index, changesetName rt headers)]) =
              some (changesetName rt headers) := by
            unfold PartPath.name
            rw [List.getLast?_concat]
            rfl
          obtain ⟨places, hplaces, added, hadded, hnames⟩ := placed_all
            (placesOfPart Q limits rt n (path ++ [(index, changesetName rt headers)]))
            (fun part _ index' s s' hpart => by
              have hpart' : handlePartWithin Q limits rt n (depth + 1)
                  (some (changesetName rt headers)) part.2 (some part.1) s = .ok s' := hpart
              rw [← hname] at hpart'
              exact ih hpart') hall 0
          refine ⟨places, Outcome.bind_eq_ok.mpr ⟨parts, hinner, hplaces⟩, added, ?_, hnames⟩
          exact congrArg (s.requests ++ ·) hadded
    · next hsingle =>
      rw [if_neg (show ¬ isChangesetPart rt headers = true from hsingle)]
      split at h
      · obtain ⟨⟨request, context⟩, hrequest, h⟩ := Outcome.bind_eq_ok.mp h
        obtain ⟨context', _, h⟩ := Outcome.bind_eq_ok.mp h
        obtain rfl := Except.ok.inj h
        refine ⟨[path], rfl, [request], ?_, ?_⟩
        · exact congrArg (· ++ [request]) (requests_nextChangesetOperation _ _)
        · unfold parseHttpPart at hrequest
          dsimp only at hrequest
          split at hrequest
          · cases hrequest
          · rw [← (Prod.mk.inj (Except.ok.inj hrequest)).1]
            rfl
      · cases h

/-- The groups that the parser gives to the requests of a payload. -/
theorem parseMultipartBatch_groups {boundary : Text} {chunks : List Bytes}
    {requests : List ParsedBatchRequest}
    (h : parseMultipartBatch Q limits rt boundary chunks = .ok requests) :
    ∃ places, payloadPlaces Q limits rt boundary chunks = .ok places ∧
      requests.map (·.atomicityGroup) = places.map PartPath.name := by
  obtain ⟨final, hfinal, h⟩ := Outcome.bind_eq_ok.mp h
  obtain rfl := Except.ok.inj h
  obtain ⟨parts, hparts, hall⟩ := parseLimited_keeps
    (fun body p p' => handlePartWithin_needsHeaders body p p') hfinal ⟨[], 0, ⟨0, 0⟩⟩
  obtain ⟨places, hplaces, added, hadded, hnames⟩ := placed_all
    (fun index part => placesOfPart Q limits rt (part.2.length + 1) [] index part)
    (fun part _ index s s' hpart => placed_part hpart) hall 0
  refine ⟨places, Outcome.bind_eq_ok.mpr ⟨_, hparts, ?_⟩, ?_⟩
  · show placesOfAll _ 0 (([] ++ parts.map RawPart.kept).map keptPart) = _
    rw [List.nil_append, keptPart_kept]
    exact hplaces
  · rw [hadded]
    exact hnames

end Places

/-! ## Groups of requests -/

theorem trimText_trimText (s : Text) : trimText (trimText s) = trimText s := by
  have hnot (t : Text) : ∀ c ∈ (t.dropWhile isSpace).head?, isSpace c = false := by
    intro c hc
    have h := List.head?_dropWhile_not isSpace t
    rw [Option.mem_def.mp hc] at h
    simpa using h
  refine trimText_of_ends (fun c hc => ?_) fun c hc => ?_
  · have hpre : trimText s <+: s.dropWhile isSpace := by
      have h := List.dropWhile_suffix (l := (s.dropWhile isSpace).reverse) isSpace
      rw [← List.reverse_prefix, List.reverse_reverse] at h
      exact h
    obtain ⟨rest, hrest⟩ := hpre
    refine hnot s c ?_
    rw [← hrest]
    cases htrimmed : trimText s with
    | nil =>
      rw [htrimmed] at hc
      cases hc
    | cons first more =>
      rw [htrimmed] at hc
      exact hc
  · rw [trimText, List.getLast?_reverse] at hc
    exact hnot _ c hc

/-- Two requests are handled in one group of the loop. -/
def SameGroup (requests : List BatchRequest) (i j : Nat) : Prop :=
  ∃ groupId, (∃ request ∈ ((collectAtomicityGroups requests).get groupId).getD [], request.2 = i) ∧
    ∃ request ∈ ((collectAtomicityGroups requests).get groupId).getD [], request.2 = j

/-- Two requests are in one changeset part. -/
def SamePart (places : List PartPath) (i j : Nat) : Prop :=
  ∃ path, path ≠ [] ∧ places[i]? = some path ∧ places[j]? = some path

/-- No two changeset parts in which requests are have one name, spaces around it aside. -/
def NamesApart (places : List PartPath) : Prop :=
  ∀ path ∈ places, ∀ path' ∈ places, path ≠ [] → path' ≠ [] →
    path.name.map trimText = path'.name.map trimText → path = path'

theorem mem_collectAtomicityGroups {requests : List BatchRequest} {groupId : Text} {i : Nat} :
    (∃ request ∈ ((collectAtomicityGroups requests).get groupId).getD [], request.2 = i) ↔
      requests[i]?.bind groupOf = some groupId := by
  rw [collectAtomicityGroups_get]
  constructor
  · rintro ⟨⟨request, index⟩, hmem, rfl⟩
    obtain ⟨hmem, hin⟩ := List.mem_filter.mp hmem
    rw [List.mk_mem_zipIdx_iff_getElem?.mp hmem]
    exact of_decide_eq_true hin
  · intro h
    obtain ⟨request, hget, hgroup⟩ := Option.bind_eq_some_iff.mp h
    refine ⟨(request, i), List.mem_filter.mpr ⟨?_, decide_eq_true hgroup⟩, rfl⟩
    exact List.mk_mem_zipIdx_iff_getElem?.mpr hget

theorem sameGroup_iff {requests : List BatchRequest} {i j : Nat} :
    SameGroup requests i j ↔ ∃ groupId, requests[i]?.bind groupOf = some groupId ∧
      requests[j]?.bind groupOf = some groupId := by
  unfold SameGroup
  simp only [mem_collectAtomicityGroups]

theorem sanitizeBatchToken_ne_nil {value : Text} {token : Option Text} {field : String}
    (h : sanitizeBatchToken (some value) field = .ok token) : trimText value ≠ [] := by
  intro hnil
  unfold sanitizeBatchToken at h
  dsimp only at h
  rw [if_pos hnil] at h
  cases h

theorem groupOf_sanitizeRequest {request sanitized : BatchRequest}
    (h : sanitizeRequest request = .ok sanitized) :
    groupOf sanitized = request.atomicityGroup.map trimText := by
  obtain ⟨id, hid, h⟩ := Outcome.bind_eq_ok.mp h
  obtain ⟨group, hgroup, h⟩ := Outcome.bind_eq_ok.mp h
  have hsanitized : sanitized.atomicityGroup = group := by
    split at h
    · rw [← Except.ok.inj h]
    · obtain ⟨deps, _, h⟩ := Outcome.bind_eq_ok.mp h
      rw [← Except.ok.inj h]
  rw [groupOf, hsanitized, sanitizeBatchToken_eq hgroup]
  cases hvalue : request.atomicityGroup with
  | none => rfl
  | some value =>
    rw [hvalue] at hgroup
    show (if trimText (trimText value) = [] then none else some (trimText (trimText value))) = _
    rw [trimText_trimText, if_neg (sanitizeBatchToken_ne_nil hgroup)]
    rfl

theorem groupOf_sanitizeBatchRequestIdentifiers {requests sanitized : List BatchRequest}
    (h : sanitizeBatchRequestIdentifiers requests = .ok sanitized) :
    sanitized.map groupOf = requests.map fun request => request.atomicityGroup.map trimText := by
  induction requests generalizing sanitized with
  | nil =>
    rw [← Except.ok.inj h]
    rfl
  | cons request requests ih =>
    obtain ⟨first, hfirst, h⟩ := Outcome.bind_eq_ok.mp h
    obtain ⟨rest, hrest, h⟩ := Outcome.bind_eq_ok.mp h
    rw [← Except.ok.inj h]
    exact congrArg₂ List.cons (groupOf_sanitizeRequest hfirst) (ih hrest)

theorem PartPath.name_eq_none {path : PartPath} : path.name = none ↔ path = [] := by
  unfold PartPath.name
  rw [Option.map_eq_none_iff, List.getLast?_eq_none_iff]

/-- Groups that come from the names of places are the changeset parts where the names are apart. -/
theorem sameGroup_iff_samePart_iff {requests : List BatchRequest} {places : List PartPath}
    (h : requests.map groupOf = places.map fun path => path.name.map trimText) :
    (∀ i j, SameGroup requests i j ↔ SamePart places i j) ↔ NamesApart places := by
  have hget (i : Nat) : requests[i]?.bind groupOf =
      places[i]?.bind fun path => path.name.map trimText := by
    have hmap := congrArg (fun groups => groups[i]?) h
    rw [List.getElem?_map, List.getElem?_map] at hmap
    cases hrequest : requests[i]? with
    | none =>
      rw [hrequest] at hmap
      rw [Option.map_eq_none_iff.mp hmap.symm]
      rfl
    | some request =>
      rw [hrequest] at hmap
      obtain ⟨path, hpath, hname⟩ := Option.map_eq_some_iff.mp hmap.symm
      rw [hpath]
      exact hname.symm
  constructor
  · intro hsame path hmem path' hmem' hne hne' hnames
    obtain ⟨i, hi⟩ := List.mem_iff_getElem?.mp hmem
    obtain ⟨j, hj⟩ := List.mem_iff_getElem?.mp hmem'
    obtain ⟨name, hname⟩ := Option.ne_none_iff_exists'.mp fun hnone =>
      hne (PartPath.name_eq_none.mp hnone)
    have hgroup : SameGroup requests i j := by
      refine sameGroup_iff.mpr ⟨trimText name, ?_, ?_⟩
      · rw [hget, hi]
        exact congrArg (Option.map trimText) hname
      · rw [hget, hj]
        exact hnames.symm.trans (congrArg (Option.map trimText) hname)
    obtain ⟨both, -, hboth, hboth'⟩ := (hsame i j).mp hgroup
    rw [Option.some.inj (hi.symm.trans hboth), Option.some.inj (hj.symm.trans hboth')]
  · intro hapart i j
    rw [sameGroup_iff, hget, hget]
    constructor
    · rintro ⟨groupId, hi, hj⟩
      obtain ⟨path, hpath, hname⟩ := Option.bind_eq_some_iff.mp hi
      obtain ⟨path', hpath', hname'⟩ := Option.bind_eq_some_iff.mp hj
      have hne {path : PartPath} (hsome : path.name.map trimText = some groupId) : path ≠ [] := by
        rintro rfl
        cases hsome
      obtain rfl := hapart path (List.mem_of_getElem? hpath) path' (List.mem_of_getElem? hpath')
        (hne hname) (hne hname') (hname.trans hname'.symm)
      exact ⟨path, hne hname, hpath, hpath'⟩
    · rintro ⟨path, hne, hi, hj⟩
      obtain ⟨name, hname⟩ := Option.ne_none_iff_exists'.mp fun hnone =>
        hne (PartPath.name_eq_none.mp hnone)
      refine ⟨trimText name, ?_, ?_⟩
      · rw [hi]
        exact congrArg (Option.map trimText) hname
      · rw [hj]
        exact congrArg (Option.map trimText) hname

/-- Requests of a multipart batch are in one group when they are in one changeset part, where the
names of the changeset parts are apart and only there. -/
theorem sameGroup_iff_samePart {σ : Type} (server : BatchServer σ) {boundary : Text}
    {chunks : List Bytes} {parsed admitted : List BatchRequest}
    (hread : readPayload server (.multipart (some boundary) chunks) = .ok parsed)
    (hadmitted : admitPayload server (.multipart (some boundary) chunks) parsed = .ok admitted) :
    ∃ places, payloadPlaces ValidQueue server.limits.toMultipartParserLimits
        server.service.rt.toRuntime boundary chunks = .ok places ∧
      places.length = admitted.length ∧
      ((∀ i j, SameGroup admitted i j ↔ SamePart places i j) ↔ NamesApart places) := by
  unfold readPayload at hread
  dsimp only at hread
  split at hread
  · cases hread
  · split at hread
    · cases hread
    · next requests hparse =>
      split at hread
      · cases hread
      · obtain rfl := Except.ok.inj hread
        obtain ⟨places, hplaces, hnames⟩ := parseMultipartBatch_groups hparse
        obtain ⟨_, _, hsanitized⟩ := Outcome.bind_eq_ok.mp hadmitted
        have hgroups := groupOf_sanitizeBatchRequestIdentifiers hsanitized
        rw [List.map_map] at hgroups
        have hall : admitted.map groupOf = places.map fun path => path.name.map trimText := by
          rw [hgroups]
          have hmapped := congrArg (List.map (Option.map trimText)) hnames
          rw [List.map_map, List.map_map] at hmapped
          exact hmapped
        refine ⟨places, hplaces, ?_, sameGroup_iff_samePart_iff hall⟩
        have hlength := congrArg List.length hall
        rw [List.length_map, List.length_map] at hlength
        exact hlength.symm

/-! ## Two changesets -/

def changesetText (boundary : String) : Text :=
  ("--b\r\nContent-Type:multipart/mixed;boundary=" ++ boundary ++ "\n\n").toList ++
    ("--" ++ boundary ++ "\nContent-Type:application/http\n\n").toList ++
    "POST Orders HTTP/1.1\n\n".toList ++ ("\r\n--" ++ boundary ++ "--\r\n").toList

/-- Two changesets next to each other, with these boundaries inside. -/
def twoChangesets (first second : String) : BatchPayload :=
  .multipart (some "b".toList)
    [utf8Bytes (changesetText first ++ changesetText second ++ "--b--".toList)]

/-- The groups of the requests that are admitted. -/
def admittedGroups (payload : BatchPayload) : Option (List (Option Text)) :=
  ((readPayload tradeServer payload).toOption.bind fun parsed =>
    (admitPayload tradeServer payload parsed).toOption).map fun admitted => admitted.map groupOf

theorem eq_ok_of_toOption {ε α : Type} {r : Except ε α} {a : α} (h : r.toOption = some a) :
    r = .ok a := by
  cases r with
  | error e => cases h
  | ok b => rw [Option.some.inj h]

theorem exists_of_admittedGroups {payload : BatchPayload} {groups : List (Option Text)}
    (h : admittedGroups payload = some groups) :
    ∃ parsed admitted, readPayload tradeServer payload = .ok parsed ∧
      admitPayload tradeServer payload parsed = .ok admitted ∧ admitted.map groupOf = groups := by
  obtain ⟨admitted, hadmitted, hgroups⟩ := Option.map_eq_some_iff.mp h
  obtain ⟨parsed, hparsed, hadmitted⟩ := Option.bind_eq_some_iff.mp hadmitted
  exact ⟨parsed, admitted, eq_ok_of_toOption hparsed,
    eq_ok_of_toOption hadmitted, hgroups⟩

/-- The boundaries inside are different. -/
theorem sameGroup_iff_samePart_twoChangesets :
    ∃ parsed admitted places, readPayload tradeServer (twoChangesets "c" "d") = .ok parsed ∧
      admitPayload tradeServer (twoChangesets "c" "d") parsed = .ok admitted ∧
      places.length = 2 ∧ ∀ i j, SameGroup admitted i j ↔ SamePart places i j := by
  have hgroups : admittedGroups (twoChangesets "c" "d") =
      some [some "c".toList, some "d".toList] := by decide +kernel
  have hplaces' : (payloadPlaces ValidQueue tradeServer.limits.toMultipartParserLimits
      tradeServer.service.rt.toRuntime "b".toList
      [utf8Bytes (changesetText "c" ++ changesetText "d" ++ "--b--".toList)]).toOption =
        some [[(0, "c".toList)], [(1, "d".toList)]] := by decide +kernel
  obtain ⟨parsed, admitted, hread, hadmitted, -⟩ := exists_of_admittedGroups hgroups
  obtain ⟨places, hplaces, -, hsame⟩ := sameGroup_iff_samePart tradeServer hread hadmitted
  rw [hplaces] at hplaces'
  obtain rfl := Option.some.inj hplaces'
  refine ⟨parsed, admitted, _, hread, hadmitted, rfl, hsame.mpr ?_⟩
  show ∀ path ∈ _, ∀ path' ∈ _, path ≠ [] → path' ≠ [] → _ → path = path'
  decide +kernel

/-- Two changesets with one boundary inside are handled in one group. -/
theorem not_sameGroup_iff_samePart :
    ∃ parsed admitted places, readPayload tradeServer (twoChangesets "c" "c") = .ok parsed ∧
      admitPayload tradeServer (twoChangesets "c" "c") parsed = .ok admitted ∧
      validateContiguousAtomicityGroups admitted = .ok () ∧
      payloadPlaces ValidQueue tradeServer.limits.toMultipartParserLimits
        tradeServer.service.rt.toRuntime "b".toList
        [utf8Bytes (changesetText "c" ++ changesetText "c" ++ "--b--".toList)] = .ok places ∧
      SameGroup admitted 0 1 ∧ ¬ SamePart places 0 1 := by
  have hgroups : admittedGroups (twoChangesets "c" "c") =
      some [some "c".toList, some "c".toList] := by decide +kernel
  have hplaces : (payloadPlaces ValidQueue tradeServer.limits.toMultipartParserLimits
      tradeServer.service.rt.toRuntime "b".toList
      [utf8Bytes (changesetText "c" ++ changesetText "c" ++ "--b--".toList)]).toOption =
        some [[(0, "c".toList)], [(1, "c".toList)]] := by decide +kernel
  obtain ⟨parsed, admitted, hread, hadmitted, hnames⟩ := exists_of_admittedGroups hgroups
  obtain ⟨first, rest, rfl, hfirst, hrest⟩ := List.map_eq_cons_iff.mp hnames
  obtain ⟨second, rest, rfl, hsecond, hrest⟩ := List.map_eq_cons_iff.mp hrest
  obtain rfl := List.map_eq_nil_iff.mp hrest
  refine ⟨parsed, _, _, hread, hadmitted, ?_, eq_ok_of_toOption hplaces, ?_, ?_⟩
  · unfold validateContiguousAtomicityGroups contiguousFrom
    rw [hfirst]
    unfold contiguousFrom
    rw [hsecond]
    rfl
  · exact sameGroup_iff.mpr ⟨"c".toList, hfirst, hsecond⟩
  · rintro ⟨path, -, hpath, hpath'⟩
    cases hpath
    cases hpath'

/-- A batch without requests is refused. -/
example : admittedGroups (.multipart (some "b".toList) [utf8Bytes "--b--".toList]) = none := by
  decide +kernel

end LoopbackOData
