import LoopbackOData.Batch.Delimiters

/-!
# The parser on a plain list, stage by stage

A pass of the parser looks for the delimiter of its stage, takes a step, and goes on with what is
left. `parseStep` is that step, `whole` the parse of a payload that is all there, and `arrive` the parse
of one whose remaining chunks are still to come.
-/

set_option autoImplicit false

namespace LoopbackOData

open ByteQueue Occurrence

/-- What the parser looks for. -/
inductive Stage where
  | opening
  | headers
  | body
  deriving DecidableEq

/-- A running parser, its buffer aside. -/
structure Reading where
  stage : Stage
  headers : Option Headers
  checked : Nat
  parts : PartsState

def Reading.parser (p : Reading) (buffer : Bytes) : StreamingBatchParser Bytes where
  buffer := buffer
  firstBoundarySeen := match p.stage with
    | .opening => false
    | .headers => true
    | .body => true
  state := match p.stage with
    | .opening => .headers
    | .headers => .headers
    | .body => .body
  currentHeaders := p.headers
  currentPartBytes := p.checked
  ended := false
  parts := p.parts

inductive ParseStep where
  | finished (parts : PartsState)
  | on (p : Reading) (buffer : Bytes)

/-- What comes of a step when `go` reads what is left. -/
def ParseStep.result (go : Reading → Bytes → Option PartsState) : ParseStep → Option PartsState
  | .finished parts => some parts
  | .on p buffer => go p buffer

section Stages

variable (boundary : Text) (limits : MultipartParserLimits) (handle : PartHandler) (rt : Runtime)

/-- Where the delimiter that the stage looks for ends. -/
def delimiterEnd (stage : Stage) (buffer : Bytes) : Option Nat :=
  match stage with
  | .opening => openingEnd boundary buffer
  | .headers => (separator buffer).map fun found => found.1 + found.2
  | .body => (first (boundaryMarker boundary) buffer).map (· + (boundaryMarker boundary).length)

/-- The payload ends at a boundary that dashes follow. -/
def afterBoundary (p : Reading) (rest : Bytes) : ParseStep :=
  if dashes.isPrefixOf rest then .finished p.parts
  else .on { p with stage := .headers } (afterLineBreak rest)

def takePart (p : Reading) (body : Bytes) : Option Reading :=
  match ensurePartSize limits body.length with
  | .error _ => none
  | .ok () =>
    (handle body p.headers p.parts).toOption.map fun parts => ⟨.headers, none, 0, parts⟩

def parseStep (p : Reading) (buffer : Bytes) : Option ParseStep :=
  match p.stage with
  | .opening => (openingEnd boundary buffer).map fun n => afterBoundary p (buffer.drop n)
  | .headers => (separator buffer).map fun found =>
    .on ⟨.body, some (parseHeaders rt (decodeText (buffer.take found.1))), 0, p.parts⟩
      (buffer.drop (found.1 + found.2))
  | .body => (first (boundaryMarker boundary) buffer).bind fun index =>
    (takePart limits handle p (buffer.take index)).map fun p =>
      afterBoundary p (buffer.drop (index + (boundaryMarker boundary).length))

/-- The parse of a payload that has arrived as a whole. -/
def whole (p : Reading) (buffer : Bytes) : Option PartsState :=
  (finishParse boundary limits handle rt (p.parser buffer)).toOption

/-- The parse after a chunk has arrived, with the chunks to come. -/
def arrive (p : Reading) (buffer : Bytes) (chunks : List Bytes) : Option PartsState :=
  (processBuffer boundary limits handle rt false (p.parser buffer) >>=
    parseChunks boundary limits handle rt chunks).toOption

/-- The parse between two chunks. -/
def wait (p : Reading) (buffer : Bytes) (chunks : List Bytes) : Option PartsState :=
  (parseChunks boundary limits handle rt chunks (p.parser buffer)).toOption

/-- What a turn of the parser makes of a step. -/
inductive Takes : Option ParseStep → Except BatchError (Turn (StreamingBatchParser Bytes)) → Prop where
  | rejects (e : BatchError) : Takes none (.error e)
  | finishes {s : StreamingBatchParser Bytes} {parts : PartsState} (hended : s.ended = true)
    (hparts : s.parts = parts) : Takes (some (.finished parts)) (.ok (.stop s))
  | goesOn (p : Reading) (buffer : Bytes) :
    Takes (some (.on p buffer)) (.ok (.again (p.parser buffer)))

variable {boundary limits handle rt} {p : Reading} {buffer : Bytes}

/-! ## Delimiters that are found -/

theorem delimiterEnd_le {stage : Stage} {n : Nat} (h : delimiterEnd boundary stage buffer = some n) :
    2 ≤ n ∧ n ≤ buffer.length := by
  cases stage with
  | opening => exact openingEnd_le h
  | headers =>
    obtain ⟨⟨index, length⟩, hfound, rfl⟩ := Option.map_eq_some_iff.mp h
    have hfirst := separator_eq_some_iff.mp hfound
    have hlength := hfirst.here.length_eq
    exact ⟨by dsimp only; omega, hfirst.inside⟩
  | body =>
    obtain ⟨index, hfound, rfl⟩ := Option.map_eq_some_iff.mp h
    refine ⟨?_, first_add_length_le hfound⟩
    rw [boundaryMarker_eq, List.length_append]
    exact Nat.le_add_left_of_le (Nat.le_add_right 2 _)

theorem delimiterEnd_append {stage : Stage} {n : Nat}
    (h : delimiterEnd boundary stage buffer = some n) (more : Bytes) :
    delimiterEnd boundary stage (buffer ++ more) = some n := by
  cases stage with
  | opening => exact openingEnd_append h more
  | headers =>
    obtain ⟨⟨index, length⟩, hfound, rfl⟩ := Option.map_eq_some_iff.mp h
    exact Option.map_eq_some_iff.mpr ⟨_, separator_append hfound more, rfl⟩
  | body =>
    obtain ⟨index, hfound, rfl⟩ := Option.map_eq_some_iff.mp h
    exact Option.map_eq_some_iff.mpr ⟨_, first_append hfound more, rfl⟩

theorem delimiterEnd_of_append {stage : Stage} {more : Bytes} {n : Nat}
    (h : delimiterEnd boundary stage (buffer ++ more) = some n) (hend : n ≤ buffer.length) :
    delimiterEnd boundary stage buffer = some n := by
  cases stage with
  | opening => exact openingEnd_of_append h hend
  | headers =>
    obtain ⟨⟨index, length⟩, hfound, rfl⟩ := Option.map_eq_some_iff.mp h
    exact Option.map_eq_some_iff.mpr ⟨_, separator_of_append hfound hend, rfl⟩
  | body =>
    obtain ⟨index, hfound, rfl⟩ := Option.map_eq_some_iff.mp h
    exact Option.map_eq_some_iff.mpr ⟨_, first_of_append hfound hend, rfl⟩

theorem parseStep_eq_none (h : delimiterEnd boundary p.stage buffer = none) :
    parseStep boundary limits handle rt p buffer = none := by
  obtain ⟨stage, headers, checked, parts⟩ := p
  cases stage with
  | opening => exact Option.map_eq_none_iff.mpr h
  | headers => exact Option.map_eq_none_iff.mpr (Option.map_eq_none_iff.mp h)
  | body =>
    have hnone := Option.map_eq_none_iff.mp h
    unfold parseStep
    dsimp only
    rw [hnone]
    rfl

theorem afterLineBreak_length_le : (afterLineBreak buffer).length ≤ buffer.length := by
  rw [afterLineBreak, List.length_drop]
  exact Nat.sub_le _ _

theorem afterBoundary_on {p' : Reading} {rest rest' : Bytes}
    (h : afterBoundary p rest = .on p' rest') :
    p' = { p with stage := .headers } ∧ rest' = afterLineBreak rest := by
  unfold afterBoundary at h
  split at h
  · cases h
  · cases h
    exact ⟨rfl, rfl⟩

theorem parseStep_on_length {p' : Reading} {buffer' : Bytes}
    (h : parseStep boundary limits handle rt p buffer = some (.on p' buffer')) :
    buffer'.length < buffer.length := by
  have hfound : delimiterEnd boundary p.stage buffer ≠ none := by
    intro hnone
    rw [parseStep_eq_none hnone] at h
    cases h
  obtain ⟨n, hn⟩ := Option.ne_none_iff_exists'.mp hfound
  obtain ⟨htwo, hle⟩ := delimiterEnd_le hn
  have hdrop : (buffer.drop n).length < buffer.length := by
    rw [List.length_drop]
    omega
  obtain ⟨stage, headers, checked, parts⟩ := p
  cases stage with
  | opening =>
    obtain ⟨m, hm, hafter⟩ := Option.map_eq_some_iff.mp h
    rw [show m = n from Option.some.inj (hm.symm.trans hn)] at hafter
    rw [(afterBoundary_on hafter).2]
    exact lt_of_le_of_lt afterLineBreak_length_le hdrop
  | headers =>
    obtain ⟨found, hfound, hon⟩ := Option.map_eq_some_iff.mp h
    cases hon
    obtain ⟨found', hfound', rfl⟩ := Option.map_eq_some_iff.mp hn
    rw [hfound] at hfound'
    rw [← Option.some.inj hfound'] at hdrop
    exact hdrop
  | body =>
    obtain ⟨index, hindex, hpart⟩ := Option.bind_eq_some_iff.mp h
    obtain ⟨q, _, hafter⟩ := Option.map_eq_some_iff.mp hpart
    obtain ⟨index', hindex', rfl⟩ := Option.map_eq_some_iff.mp hn
    rw [show index = index' from Option.some.inj (hindex.symm.trans hindex')] at hafter
    rw [(afterBoundary_on hafter).2]
    exact lt_of_le_of_lt afterLineBreak_length_le hdrop

/-! ## Turns -/

theorem readFirstBoundary_of_found {finalPass : Bool} {n : Nat}
    (h : openingEnd boundary buffer = some n) :
    Takes (some (afterBoundary p (buffer.drop n)))
      (readFirstBoundary boundary finalPass (p.parser buffer)) := by
  unfold readFirstBoundary Reading.parser
  dsimp only
  rw [consumeAnchoredFirstBoundary_of_some h]
  dsimp only [Bind.bind, Except.bind]
  rw [nextTwo_dashes]
  dsimp only
  unfold afterBoundary
  by_cases hdashes : dashes.isPrefixOf (buffer.drop n) = true
  · rw [if_pos hdashes, if_pos hdashes]
    have hlength : 2 ≤ (buffer.drop n).length :=
      (List.isPrefixOf_iff_prefix.mp hdashes).length_le
    rw [consumeBytes_list _ hlength]
    exact .finishes rfl rfl
  · rw [if_neg hdashes, if_neg hdashes, skipLineBreak_list]
    exact .goesOn { p with stage := .headers } _

theorem readHeaders_of_found {finalPass : Bool} {found : Nat × Nat}
    (h : separator buffer = some found) :
    Takes (some (.on ⟨.body, some (parseHeaders rt (decodeText (buffer.take found.1))), 0, p.parts⟩
        (buffer.drop (found.1 + found.2))))
      (readHeaders rt finalPass { p.parser buffer with firstBoundarySeen := true }) := by
  have hinside := (separator_eq_some_iff.mp h).inside
  unfold readHeaders Reading.parser
  dsimp only
  rw [findHeaderSeparatorInQueue_list, h]
  dsimp only
  rw [sliceBytes_list buffer (Nat.le_of_add_right_le hinside), consumeBytes_list buffer hinside]
  exact .goesOn _ _

theorem readBody_of_found {finalPass : Bool} {index : Nat}
    (h : first (boundaryMarker boundary) buffer = some index) :
    Takes ((takePart limits handle p (buffer.take index)).map fun p =>
        afterBoundary p (buffer.drop (index + (boundaryMarker boundary).length)))
      (readBody boundary limits handle finalPass
        { p.parser buffer with firstBoundarySeen := true, state := .body }) := by
  have hroom := first_add_length_le h
  unfold readBody Reading.parser
  dsimp only
  rw [findNextBoundary_list, h]
  dsimp only [Option.map_some]
  rw [sliceBytes_list buffer (Nat.le_of_add_right_le hroom)]
  dsimp only [Bind.bind, Except.bind]
  unfold takePart
  cases ensurePartSize limits (buffer.take index).length with
  | error e => exact .rejects e
  | ok =>
    dsimp only
    cases handle (buffer.take index) p.headers p.parts with
    | error e => exact .rejects e
    | ok parts =>
      dsimp only [Except.toOption, Option.map_some, Option.map_map]
      unfold afterBoundary
      cases hdashes : dashes.isPrefixOf
          (buffer.drop (index + (boundaryMarker boundary).length)) with
      | true =>
        have hlength := (List.isPrefixOf_iff_prefix.mp hdashes).length_le
        rw [List.length_drop] at hlength
        have hroom' : index + (closingMarker boundary).length ≤ buffer.length := by
          have htwo : dashes.length = 2 := rfl
          rw [closingMarker_eq, List.length_append]
          omega
        rw [if_pos rfl, if_pos rfl, consumeBytes_list buffer hroom']
        dsimp only
        rw [skipLineBreak_list]
        exact .finishes rfl rfl
      | false =>
        rw [if_neg Bool.false_ne_true, if_neg Bool.false_ne_true, consumeBytes_list buffer hroom]
        dsimp only
        rw [skipLineBreak_list]
        exact .goesOn ⟨.headers, none, 0, parts⟩ _

theorem ensurePartSize_mono {m n : Nat} (h : ensurePartSize limits n = .ok ()) (hle : m ≤ n) :
    ensurePartSize limits m = .ok () := by
  unfold ensurePartSize exceeds at h ⊢
  cases hmax : limits.maxPartBodyBytes with
  | none => rfl
  | some max =>
    rw [hmax] at h
    dsimp only at h ⊢
    split at h
    · cases h
    · next hexceeds =>
      refine if_neg fun hexceeds' => hexceeds ?_
      rw [Bool.and_eq_true, decide_eq_true_eq, decide_eq_true_eq] at hexceeds' ⊢
      exact ⟨hexceeds'.1, hexceeds'.2.trans_le (Nat.cast_le.mpr hle)⟩

variable (limits handle rt) in
/-- A turn that finds its delimiter takes the step. -/
theorem turn_of_found (finalPass : Bool) {n : Nat}
    (h : delimiterEnd boundary p.stage buffer = some n) :
    Takes (parseStep boundary limits handle rt p buffer)
      (turn boundary limits handle rt finalPass (p.parser buffer)) := by
  obtain ⟨stage, headers, checked, parts⟩ := p
  cases stage with
  | opening =>
    unfold parseStep
    dsimp only
    rw [show openingEnd boundary buffer = some n from h, Option.map_some]
    exact readFirstBoundary_of_found h
  | headers =>
    obtain ⟨found, hfound, _⟩ := Option.map_eq_some_iff.mp h
    unfold parseStep
    dsimp only
    rw [hfound, Option.map_some]
    exact readHeaders_of_found (p := ⟨.headers, headers, checked, parts⟩) hfound
  | body =>
    obtain ⟨index, hindex, _⟩ := Option.map_eq_some_iff.mp h
    unfold parseStep
    dsimp only
    rw [hindex, Option.bind_some]
    exact readBody_of_found (p := ⟨.body, headers, checked, parts⟩) hindex

variable (limits handle rt) in
/-- Without its delimiter the stage waits for more, or rejects what nothing that follows could
mend. -/
theorem turn_of_none (h : delimiterEnd boundary p.stage buffer = none) :
    (∃ checked, turn boundary limits handle rt false (p.parser buffer) =
        .ok (.stop ({ p with checked := checked }.parser buffer))) ∨
      (∃ e, turn boundary limits handle rt false (p.parser buffer) = .error e) ∧
        ∀ more, parseStep boundary limits handle rt p (buffer ++ more) = none := by
  obtain ⟨stage, headers, checked, parts⟩ := p
  cases stage with
  | opening =>
    have hturn : turn boundary limits handle rt false
        (Reading.parser ⟨.opening, headers, checked, parts⟩ buffer) =
          readFirstBoundary boundary false
            (Reading.parser ⟨.opening, headers, checked, parts⟩ buffer) := rfl
    rw [hturn]
    unfold readFirstBoundary Reading.parser
    dsimp only
    rcases consumeAnchoredFirstBoundary_of_none h with hwait | ⟨⟨e, he⟩, hmore⟩
    · rw [hwait]
      exact .inl ⟨checked, rfl⟩
    · rw [he]
      refine .inr ⟨⟨e, rfl⟩, fun more => ?_⟩
      exact parseStep_eq_none (hmore more)
  | headers =>
    have hnone : separator buffer = none := Option.map_eq_none_iff.mp h
    have hturn : turn boundary limits handle rt false
        (Reading.parser ⟨.headers, headers, checked, parts⟩ buffer) =
          readHeaders rt false (Reading.parser ⟨.headers, headers, checked, parts⟩ buffer) := rfl
    rw [hturn]
    unfold readHeaders Reading.parser
    dsimp only
    rw [findHeaderSeparatorInQueue_list, hnone]
    exact .inl ⟨checked, rfl⟩
  | body =>
    have hnone : first (boundaryMarker boundary) buffer = none := Option.map_eq_none_iff.mp h
    have hturn : turn boundary limits handle rt false
        (Reading.parser ⟨.body, headers, checked, parts⟩ buffer) =
          readBody boundary limits handle false
            (Reading.parser ⟨.body, headers, checked, parts⟩ buffer) := rfl
    rw [hturn]
    unfold readBody Reading.parser
    dsimp only
    rw [findNextBoundary_list, hnone]
    dsimp only [Option.map_none]
    unfold enforceStreamingPartLimit
    dsimp only
    cases hmax : limits.maxPartBodyBytes with
    | none => exact .inl ⟨checked, rfl⟩
    | some max =>
      dsimp only
      split
      · exact .inl ⟨checked, rfl⟩
      · split
        · exact .inl ⟨checked, rfl⟩
        · rw [length_list]
          cases hsize : ensurePartSize limits (buffer.length - boundaryHeadroom boundary) with
          | ok => exact .inl ⟨_, rfl⟩
          | error e =>
            -- a boundary that is still to come leaves a body that is too long as well
            refine .inr ⟨⟨e, rfl⟩, fun more => ?_⟩
            unfold parseStep
            dsimp only
            cases hfirst : first (boundaryMarker boundary) (buffer ++ more) with
            | none => rfl
            | some index =>
              have hlong : buffer.length - boundaryHeadroom boundary ≤ index := by
                by_contra hlt
                have hroom : index + (boundaryMarker boundary).length ≤ buffer.length := by
                  have hhead : (boundaryMarker boundary).length ≤ boundaryHeadroom boundary :=
                    (le_max_left _ _).trans (Nat.le_add_right _ 4)
                  omega
                rw [first_of_append hfirst hroom] at hnone
                cases hnone
              have hindex : ((buffer ++ more).take index).length = index := by
                have hroom := first_add_length_le hfirst
                rw [List.length_take]
                omega
              rw [Option.bind_some]
              unfold takePart
              rw [hindex]
              cases hsize' : ensurePartSize limits index with
              | error e => rfl
              | ok =>
                rw [ensurePartSize_mono hsize' hlong] at hsize
                cases hsize

variable (limits handle rt) in
/-- Nothing follows in the last pass. -/
theorem turn_final_of_none (h : delimiterEnd boundary p.stage buffer = none) :
    ∃ e, turn boundary limits handle rt true (p.parser buffer) = .error e := by
  obtain ⟨stage, headers, checked, parts⟩ := p
  cases stage with
  | opening =>
    have hturn : turn boundary limits handle rt true
        (Reading.parser ⟨.opening, headers, checked, parts⟩ buffer) =
          readFirstBoundary boundary true
            (Reading.parser ⟨.opening, headers, checked, parts⟩ buffer) := rfl
    rw [hturn]
    unfold readFirstBoundary Reading.parser
    dsimp only
    obtain ⟨e, he⟩ := consumeAnchoredFirstBoundary_final h
    rw [he]
    exact ⟨e, rfl⟩
  | headers =>
    have hnone : separator buffer = none := Option.map_eq_none_iff.mp h
    have hturn : turn boundary limits handle rt true
        (Reading.parser ⟨.headers, headers, checked, parts⟩ buffer) =
          readHeaders rt true (Reading.parser ⟨.headers, headers, checked, parts⟩ buffer) := rfl
    rw [hturn]
    unfold readHeaders Reading.parser
    dsimp only
    rw [findHeaderSeparatorInQueue_list, hnone]
    exact ⟨_, rfl⟩
  | body =>
    have hnone : first (boundaryMarker boundary) buffer = none := Option.map_eq_none_iff.mp h
    have hturn : turn boundary limits handle rt true
        (Reading.parser ⟨.body, headers, checked, parts⟩ buffer) =
          readBody boundary limits handle true
            (Reading.parser ⟨.body, headers, checked, parts⟩ buffer) := rfl
    rw [hturn]
    unfold readBody Reading.parser
    dsimp only
    rw [findNextBoundary_list, hnone]
    dsimp only [Option.map_none]
    cases enforceStreamingPartLimit (Q := Bytes) boundary limits _ with
    | error e => exact ⟨e, rfl⟩
    | ok s => exact ⟨_, rfl⟩

/-! ## Passes -/

theorem turn_again {finalPass : Bool} {s : StreamingBatchParser Bytes}
    (h : turn boundary limits handle rt finalPass (p.parser buffer) = .ok (.again s)) :
    ∃ p' buffer', s = Reading.parser p' buffer' ∧ buffer'.length < buffer.length := by
  cases hfound : delimiterEnd boundary p.stage buffer with
  | none =>
    cases finalPass with
    | true =>
      obtain ⟨e, he⟩ := turn_final_of_none limits handle rt hfound
      rw [he] at h
      cases h
    | false =>
      rcases turn_of_none limits handle rt hfound with
        ⟨checked, hstop⟩ | ⟨⟨e, he⟩, _⟩
      · rw [hstop] at h
        cases h
      · rw [he] at h
        cases h
  | some n =>
    have htakes := turn_of_found limits handle rt finalPass hfound
    rw [h] at htakes
    cases hstep : parseStep boundary limits handle rt p buffer with
    | none =>
      rw [hstep] at htakes
      cases htakes
    | some next =>
      rw [hstep] at htakes
      cases htakes with
      | goesOn p' buffer' => exact ⟨p', buffer', rfl, parseStep_on_length hstep⟩

/-- More fuel than bytes makes no difference. -/
theorem processTurns_fuel {finalPass : Bool} {n m : Nat} (hn : buffer.length < n)
    (hm : buffer.length < m) :
    processTurns boundary limits handle rt finalPass n (p.parser buffer) =
      processTurns boundary limits handle rt finalPass m (p.parser buffer) := by
  induction n generalizing m p buffer with
  | zero => cases hn
  | succ n ih =>
    cases m with
    | zero => cases hm
    | succ m =>
      unfold processTurns
      cases hturn : turn boundary limits handle rt finalPass (p.parser buffer) with
      | error e => rfl
      | ok next =>
        cases next with
        | stop s => rfl
        | again s =>
          obtain ⟨p', buffer', rfl, hlt⟩ := turn_again hturn
          exact ih (by omega) (by omega)

theorem processBuffer_of_again {finalPass : Bool} {p' : Reading} {buffer' : Bytes}
    (h : turn boundary limits handle rt finalPass (p.parser buffer) =
      .ok (.again (p'.parser buffer'))) (hlt : buffer'.length < buffer.length) :
    processBuffer boundary limits handle rt finalPass (p.parser buffer) =
      processBuffer boundary limits handle rt finalPass (p'.parser buffer') := by
  have hleft : processBuffer boundary limits handle rt finalPass (p.parser buffer) =
      processTurns boundary limits handle rt finalPass buffer.length (p'.parser buffer') := by
    show processTurns boundary limits handle rt finalPass (buffer.length + 1) (p.parser buffer) = _
    rw [processTurns, h]
    rfl
  rw [hleft]
  exact processTurns_fuel hlt (Nat.lt_succ_self _)

theorem processBuffer_of_stop {finalPass : Bool} {s : StreamingBatchParser Bytes}
    (h : turn boundary limits handle rt finalPass (p.parser buffer) = .ok (.stop s)) :
    processBuffer boundary limits handle rt finalPass (p.parser buffer) = .ok s := by
  show processTurns boundary limits handle rt finalPass (buffer.length + 1) (p.parser buffer) = _
  rw [processTurns, h]
  rfl

theorem processBuffer_of_error {finalPass : Bool} {e : BatchError}
    (h : turn boundary limits handle rt finalPass (p.parser buffer) = .error e) :
    processBuffer boundary limits handle rt finalPass (p.parser buffer) = .error e := by
  show processTurns boundary limits handle rt finalPass (buffer.length + 1) (p.parser buffer) = _
  rw [processTurns, h]
  rfl

section Ended

variable {s : StreamingBatchParser Bytes} (hended : s.ended = true)

include hended

theorem processBuffer_of_ended (finalPass : Bool) :
    processBuffer boundary limits handle rt finalPass s = .ok s := if_pos hended

theorem finishParse_of_ended : finishParse boundary limits handle rt s = .ok s.parts := by
  unfold finishParse
  rw [processBuffer_of_ended hended]
  exact if_pos hended

/-- What arrives after the closing boundary is not read. -/
theorem parseChunks_of_ended (chunks : List Bytes) :
    parseChunks boundary limits handle rt chunks s = .ok s.parts := by
  induction chunks generalizing s with
  | nil => exact finishParse_of_ended hended
  | cons chunk chunks ih =>
    have hpushed : (pushChunk s chunk).ended = true := hended
    show (processBuffer boundary limits handle rt false (pushChunk s chunk) >>=
      parseChunks boundary limits handle rt chunks) = _
    rw [processBuffer_of_ended hpushed]
    exact ih hpushed

end Ended

theorem whole_eq :
    whole boundary limits handle rt p buffer = (parseStep boundary limits handle rt p buffer).bind
      (ParseStep.result (whole boundary limits handle rt)) := by
  unfold whole finishParse
  cases hfound : delimiterEnd boundary p.stage buffer with
  | none =>
    obtain ⟨e, he⟩ := turn_final_of_none limits handle rt hfound
    rw [processBuffer_of_error he, parseStep_eq_none hfound]
    rfl
  | some n =>
    have htakes := turn_of_found limits handle rt true hfound
    cases hstep : parseStep boundary limits handle rt p buffer with
    | none =>
      rw [hstep] at htakes
      generalize hturn : turn boundary limits handle rt true (p.parser buffer) = t at htakes
      cases htakes with
      | rejects e =>
        rw [processBuffer_of_error hturn]
        rfl
    | some next =>
      rw [hstep] at htakes
      generalize hturn : turn boundary limits handle rt true (p.parser buffer) = t at htakes
      cases htakes with
      | finishes hended hparts =>
        rw [processBuffer_of_stop hturn]
        dsimp only [Bind.bind, Except.bind]
        rw [if_pos hended, hparts]
        rfl
      | goesOn p' buffer' =>
        rw [processBuffer_of_again hturn (parseStep_on_length hstep)]
        rfl

theorem whole_of_none (h : delimiterEnd boundary p.stage buffer = none) :
    whole boundary limits handle rt p buffer = none := by
  rw [whole_eq, parseStep_eq_none h]
  rfl

theorem arrive_of_found {n : Nat} (h : delimiterEnd boundary p.stage buffer = some n)
    (chunks : List Bytes) :
    arrive boundary limits handle rt p buffer chunks =
      (parseStep boundary limits handle rt p buffer).bind
        (ParseStep.result fun p buffer => arrive boundary limits handle rt p buffer chunks) := by
  unfold arrive
  have htakes := turn_of_found limits handle rt false h
  generalize hturn : turn boundary limits handle rt false (p.parser buffer) = t at htakes
  cases hstep : parseStep boundary limits handle rt p buffer with
  | none =>
    rw [hstep] at htakes
    cases htakes with
    | rejects e =>
      rw [processBuffer_of_error hturn]
      rfl
  | some next =>
    rw [hstep] at htakes
    cases htakes with
    | finishes hended hparts =>
      rw [processBuffer_of_stop hturn]
      dsimp only [Bind.bind, Except.bind]
      rw [parseChunks_of_ended hended, hparts]
      rfl
    | goesOn p' buffer' =>
      rw [processBuffer_of_again hturn (parseStep_on_length hstep)]
      rfl

variable (limits handle rt) in
theorem arrive_of_none (h : delimiterEnd boundary p.stage buffer = none) (chunks : List Bytes) :
    (∃ checked, arrive boundary limits handle rt p buffer chunks =
        wait boundary limits handle rt { p with checked := checked } buffer chunks) ∨
      arrive boundary limits handle rt p buffer chunks = none ∧
        ∀ more, whole boundary limits handle rt p (buffer ++ more) = none := by
  unfold arrive
  rcases turn_of_none limits handle rt h with
    ⟨checked, hstop⟩ | ⟨⟨e, he⟩, hmore⟩
  · refine .inl ⟨checked, ?_⟩
    rw [processBuffer_of_stop hstop]
    rfl
  · refine .inr ⟨?_, fun more => ?_⟩
    · rw [processBuffer_of_error he]
      rfl
    · rw [whole_eq, hmore]
      rfl

theorem wait_nil :
    wait boundary limits handle rt p buffer [] = whole boundary limits handle rt p buffer := rfl

theorem wait_cons (chunk : Bytes) (chunks : List Bytes) :
    wait boundary limits handle rt p buffer (chunk :: chunks) =
      arrive boundary limits handle rt p (buffer ++ chunk) chunks := rfl

end Stages

end LoopbackOData
