import LoopbackOData.Batch.MultipartParser

/-!
# The parser does not depend on the queue

On two queues of the same bytes every step of the parser does the same. So the parser on the buffer
queue is the parser on plain lists of bytes, and what is shown of one holds of the other.
-/

set_option autoImplicit false

namespace LoopbackOData

open ByteQueue Outcome

variable {Q Q' : Type} [ByteQueue Q] [ByteQueue Q'] {q : Q} {q' : Q'}

/-- Two queues hold the same bytes. -/
def SameBytes (q : Q) (q' : Q') : Prop := bytes q = bytes q'

/-- Two parsers that differ in their queues at most. -/
structure SameParser (s : StreamingBatchParser Q) (s' : StreamingBatchParser Q') : Prop where
  buffer : SameBytes s.buffer s'.buffer
  firstBoundarySeen : s.firstBoundarySeen = s'.firstBoundarySeen
  state : s.state = s'.state
  currentHeaders : s.currentHeaders = s'.currentHeaders
  currentPartBytes : s.currentPartBytes = s'.currentPartBytes
  ended : s.ended = s'.ended
  parts : s.parts = s'.parts

inductive SameTurn : Turn (StreamingBatchParser Q) → Turn (StreamingBatchParser Q') → Prop where
  | stop {s : StreamingBatchParser Q} {s' : StreamingBatchParser Q'} (h : SameParser s s') :
      SameTurn (.stop s) (.stop s')
  | again {s : StreamingBatchParser Q} {s' : StreamingBatchParser Q'} (h : SameParser s s') :
      SameTurn (.again s) (.again s')

/-! ## Reading -/

theorem SameBytes.length (h : SameBytes q q') : ByteQueue.length q = ByteQueue.length q' := by
  rw [length_eq, length_eq, h]

theorem SameBytes.byteAt (h : SameBytes q q') (pos : Nat) :
    (ByteQueue.byteAt q pos).1 = (ByteQueue.byteAt q' pos).1 ∧
      SameBytes (ByteQueue.byteAt q pos).2 (ByteQueue.byteAt q' pos).2 := by
  obtain ⟨h1, h2⟩ := byteAt_eq q pos
  obtain ⟨h1', h2'⟩ := byteAt_eq q' pos
  exact ⟨by rw [h1, h1', h], h2.trans (h.trans h2'.symm)⟩

theorem SameBytes.startsWith (h : SameBytes q q') (s : Bytes) (offset : Nat) :
    (ByteQueue.startsWith q s offset).1 = (ByteQueue.startsWith q' s offset).1 ∧
      SameBytes (ByteQueue.startsWith q s offset).2 (ByteQueue.startsWith q' s offset).2 := by
  obtain ⟨h1, h2⟩ := startsWith_eq q s offset
  obtain ⟨h1', h2'⟩ := startsWith_eq q' s offset
  exact ⟨by rw [h1, h1', h], h2.trans (h.trans h2'.symm)⟩

theorem SameBytes.indexOf (h : SameBytes q q') (s : Bytes) :
    (ByteQueue.indexOf q s).1 = (ByteQueue.indexOf q' s).1 ∧
      SameBytes (ByteQueue.indexOf q s).2 (ByteQueue.indexOf q' s).2 := by
  obtain ⟨h1, h2⟩ := indexOf_eq q s
  obtain ⟨h1', h2'⟩ := indexOf_eq q' s
  exact ⟨by rw [h1, h1', h], h2.trans (h.trans h2'.symm)⟩

theorem SameBytes.nextTwo (h : SameBytes q q') (a b : UInt8) :
    (LoopbackOData.nextTwo q a b).1 = (LoopbackOData.nextTwo q' a b).1 ∧
      SameBytes (LoopbackOData.nextTwo q a b).2 (LoopbackOData.nextTwo q' a b).2 := by
  obtain ⟨hfirst, hbytes⟩ := h.byteAt 0
  obtain ⟨hsecond, hbytes'⟩ := hbytes.byteAt 1
  unfold LoopbackOData.nextTwo
  rw [h.length]
  by_cases hshort : ByteQueue.length q' < 2
  · rw [if_pos hshort, if_pos hshort]
    exact ⟨rfl, h⟩
  · rw [if_neg hshort, if_neg hshort]
    dsimp only
    by_cases ha : (ByteQueue.byteAt q' 0).1 = some a
    · rw [if_pos ha, if_pos (hfirst.trans ha)]
      exact ⟨by rw [hsecond], hbytes'⟩
    · rw [if_neg ha, if_neg (by rw [hfirst]; exact ha)]
      exact ⟨rfl, hbytes⟩

theorem SameBytes.consumeBytes (h : SameBytes q q') (n : Nat) :
    Agree SameBytes (LoopbackOData.consumeBytes q n) (LoopbackOData.consumeBytes q' n) := by
  have hq := consume_eq q n
  have hq' := consume_eq q' n
  rw [h, ← hq'] at hq
  unfold LoopbackOData.consumeBytes
  cases hc : consume q n with
  | none =>
    rw [hc, Option.map_none, eq_comm, Option.map_eq_none_iff] at hq
    rw [hq]
    exact .error _
  | some r =>
    rw [hc, Option.map_some, eq_comm, Option.map_eq_some_iff] at hq
    obtain ⟨r', hr', hbytes⟩ := hq
    rw [hr']
    exact .ok hbytes.symm

theorem SameBytes.sliceBytes (h : SameBytes q q') (start stop : Nat) :
    LoopbackOData.sliceBytes q start stop = LoopbackOData.sliceBytes q' start stop := by
  unfold LoopbackOData.sliceBytes
  rw [slice_eq, slice_eq, h]

theorem SameBytes.skipLineBreak (h : SameBytes q q') :
    Agree SameBytes (LoopbackOData.skipLineBreak q) (LoopbackOData.skipLineBreak q') := by
  obtain ⟨hbreak, hbytes⟩ := h.nextTwo 13 10
  unfold LoopbackOData.skipLineBreak
  dsimp only
  rw [hbreak]
  split
  · exact hbytes.consumeBytes 2
  · exact .ok hbytes

theorem SameBytes.findHeaderSeparatorInQueue (h : SameBytes q q') :
    (LoopbackOData.findHeaderSeparatorInQueue q).1 =
        (LoopbackOData.findHeaderSeparatorInQueue q').1 ∧
      SameBytes (LoopbackOData.findHeaderSeparatorInQueue q).2
        (LoopbackOData.findHeaderSeparatorInQueue q').2 := by
  obtain ⟨hcrlf, hbytes⟩ := h.indexOf crlfCrlf
  obtain ⟨hlf, hbytes'⟩ := hbytes.indexOf lfLf
  unfold LoopbackOData.findHeaderSeparatorInQueue
  dsimp only
  rw [hcrlf, hlf]
  split <;> exact ⟨rfl, hbytes'⟩

variable {boundary : Text} {finalPass : Bool}

variable (boundary) in
theorem SameBytes.findNextBoundary (h : SameBytes q q') :
    (LoopbackOData.findNextBoundary boundary q).1 =
        (LoopbackOData.findNextBoundary boundary q').1 ∧
      SameBytes (LoopbackOData.findNextBoundary boundary q).2
        (LoopbackOData.findNextBoundary boundary q').2 := by
  obtain ⟨hclosing, hbytes⟩ := h.indexOf (closingMarker boundary)
  obtain ⟨hmarker, hbytes'⟩ := hbytes.indexOf (boundaryMarker boundary)
  unfold LoopbackOData.findNextBoundary
  dsimp only
  rw [hclosing, hmarker]
  split <;> exact ⟨rfl, hbytes'⟩

/-- The number of bytes that were consumed, and the queue without them. -/
def SameConsumed (r : Option Nat × Q) (r' : Option Nat × Q') : Prop :=
  r.1 = r'.1 ∧ SameBytes r.2 r'.2

theorem SameBytes.rejectFirstBoundary (h : SameBytes q q') :
    Agree SameConsumed (LoopbackOData.rejectFirstBoundary boundary finalPass q)
      (LoopbackOData.rejectFirstBoundary boundary finalPass q') := by
  obtain ⟨hfirst, hbytes⟩ := h.byteAt 0
  unfold LoopbackOData.rejectFirstBoundary
  dsimp only
  rw [h.length, hfirst]
  split
  · split
    · exact .ok ⟨rfl, h⟩
    · exact .error _
  · split
    · exact .ok ⟨rfl, hbytes⟩
    · exact .error _

theorem SameBytes.consumeFirstBoundary (h : SameBytes q q') (n : Nat) :
    Agree SameConsumed
      (do let r ← LoopbackOData.consumeBytes q n; .ok (some n, r) : Except BatchError (Option Nat × Q))
      (do let r ← LoopbackOData.consumeBytes q' n; .ok (some n, r)) :=
  (h.consumeBytes n).bind fun _ _ hr => .ok ⟨rfl, hr⟩

theorem SameBytes.consumeAnchoredFirstBoundary (h : SameBytes q q') :
    Agree SameConsumed (LoopbackOData.consumeAnchoredFirstBoundary boundary finalPass q)
      (LoopbackOData.consumeAnchoredFirstBoundary boundary finalPass q') := by
  obtain ⟨hanchored, hbytes⟩ := h.startsWith (boundaryPrefix boundary) 0
  obtain ⟨hbreak, hbytes'⟩ := hbytes.nextTwo 13 10
  obtain ⟨hbroken, hbytes''⟩ := hbytes'.startsWith (boundaryPrefix boundary) 2
  unfold LoopbackOData.consumeAnchoredFirstBoundary
  dsimp only
  rw [h.length, hanchored, hbreak, hbroken]
  split
  · exact hbytes.consumeFirstBoundary _
  · split
    · split
      · exact .ok ⟨rfl, hbytes⟩
      · exact hbytes.rejectFirstBoundary
    · split
      · split
        · split
          · exact .ok ⟨rfl, hbytes'⟩
          · exact hbytes'.rejectFirstBoundary
        · split
          · exact hbytes''.consumeFirstBoundary _
          · exact hbytes''.rejectFirstBoundary
      · exact hbytes'.rejectFirstBoundary

/-! ## Turns -/

variable {limits : MultipartParserLimits} {handle : PartHandler} {rt : Runtime}
variable {s : StreamingBatchParser Q} {s' : StreamingBatchParser Q'}

theorem SameParser.enforceStreamingPartLimit (h : SameParser s s') :
    Agree SameParser (LoopbackOData.enforceStreamingPartLimit boundary limits s)
      (LoopbackOData.enforceStreamingPartLimit boundary limits s') := by
  unfold LoopbackOData.enforceStreamingPartLimit
  rw [h.buffer.length, h.currentPartBytes]
  split
  · exact .ok h
  · split
    · exact .ok h
    · dsimp only
      split
      · exact .ok h
      · refine Agree.refl.bind fun _ _ _ => .ok ?_
        exact { h with currentPartBytes := rfl }

theorem SameParser.readFirstBoundary (h : SameParser s s') :
    Agree SameTurn (LoopbackOData.readFirstBoundary boundary finalPass s)
      (LoopbackOData.readFirstBoundary boundary finalPass s') := by
  unfold LoopbackOData.readFirstBoundary
  refine h.buffer.consumeAnchoredFirstBoundary.bind ?_
  rintro ⟨consumed, q⟩ ⟨_, q'⟩ ⟨rfl, hq⟩
  cases consumed with
  | none => exact .ok (.stop { h with buffer := hq })
  | some n =>
    obtain ⟨hclosing, hbytes⟩ := SameBytes.nextTwo hq 45 45
    dsimp only
    rw [hclosing]
    split
    · exact (hbytes.consumeBytes 2).bind fun _ _ hr =>
        .ok (.stop { h with buffer := hr, firstBoundarySeen := rfl, ended := rfl })
    · exact hbytes.skipLineBreak.bind fun _ _ hr =>
        .ok (.again { h with buffer := hr, firstBoundarySeen := rfl, state := rfl })

theorem SameParser.readHeaders (h : SameParser s s') :
    Agree SameTurn (LoopbackOData.readHeaders rt finalPass s)
      (LoopbackOData.readHeaders rt finalPass s') := by
  obtain ⟨hinfo, hbytes⟩ := h.buffer.findHeaderSeparatorInQueue
  unfold LoopbackOData.readHeaders
  dsimp only
  rw [hinfo]
  split
  · split
    · exact .error _
    · exact .ok (.stop { h with buffer := hbytes })
  · next index length _ =>
    rw [hbytes.sliceBytes]
    refine Agree.refl.bind ?_
    rintro headerBuffer _ rfl
    exact (hbytes.consumeBytes (index + length)).bind fun _ _ hr =>
      .ok (.again { h with
        buffer := hr
        currentHeaders := rfl
        state := rfl
        currentPartBytes := rfl })

theorem SameParser.readBody (h : SameParser s s') :
    Agree SameTurn (LoopbackOData.readBody boundary limits handle finalPass s)
      (LoopbackOData.readBody boundary limits handle finalPass s') := by
  obtain ⟨hinfo, hbytes⟩ := h.buffer.findNextBoundary boundary
  unfold LoopbackOData.readBody
  dsimp only
  rw [hinfo]
  split
  · have hsame : SameParser { s with buffer := (LoopbackOData.findNextBoundary boundary s.buffer).2 }
        { s' with buffer := (LoopbackOData.findNextBoundary boundary s'.buffer).2 } :=
      { h with buffer := hbytes }
    refine hsame.enforceStreamingPartLimit.bind fun t t' ht => ?_
    split
    · exact .error _
    · exact .ok (.stop ht)
  · next index closing _ =>
    rw [hbytes.sliceBytes, h.currentHeaders, h.parts]
    refine Agree.refl.bind ?_
    rintro bodyBuffer _ rfl
    refine Agree.refl.bind fun _ _ _ => Agree.refl.bind ?_
    rintro parts _ rfl
    refine (hbytes.consumeBytes _).bind fun _ _ hr => hr.skipLineBreak.bind fun _ _ hr' => ?_
    split
    · exact .ok (.stop { h with
        buffer := hr'
        currentHeaders := rfl
        currentPartBytes := rfl
        parts := rfl
        ended := rfl })
    · exact .ok (.again { h with
        buffer := hr'
        currentHeaders := rfl
        currentPartBytes := rfl
        parts := rfl
        state := rfl })

theorem SameParser.turn (h : SameParser s s') :
    Agree SameTurn (LoopbackOData.turn boundary limits handle rt finalPass s)
      (LoopbackOData.turn boundary limits handle rt finalPass s') := by
  unfold LoopbackOData.turn
  rw [h.firstBoundarySeen, h.state]
  split
  · exact h.readFirstBoundary
  · split
    · exact h.readHeaders
    · exact h.readBody

theorem SameParser.processTurns (n : Nat) (h : SameParser s s') :
    Agree SameParser (LoopbackOData.processTurns boundary limits handle rt finalPass n s)
      (LoopbackOData.processTurns boundary limits handle rt finalPass n s') := by
  induction n generalizing s s' with
  | zero => exact .ok h
  | succ n ih =>
    unfold LoopbackOData.processTurns
    refine h.turn.bind ?_
    rintro _ _ (hstop | hagain)
    · exact .ok hstop
    · exact ih hagain

theorem SameParser.processBuffer (h : SameParser s s') :
    Agree SameParser (LoopbackOData.processBuffer boundary limits handle rt finalPass s)
      (LoopbackOData.processBuffer boundary limits handle rt finalPass s') := by
  unfold LoopbackOData.processBuffer
  rw [h.ended, h.buffer.length]
  split
  · exact .ok h
  · exact h.processTurns _

theorem SameParser.pushChunk (h : SameParser s s') (chunk : Bytes) :
    SameParser (LoopbackOData.pushChunk s chunk) (LoopbackOData.pushChunk s' chunk) := by
  have hbytes : SameBytes (push s.buffer chunk) (push s'.buffer chunk) := by
    rw [SameBytes, bytes_push, bytes_push, h.buffer]
  exact { h with buffer := hbytes }

variable (Q Q') in
theorem sameParser_startParser (parts : PartsState) :
    SameParser (startParser (Q := Q) parts) (startParser (Q := Q') parts) where
  buffer := bytes_empty.trans bytes_empty.symm
  firstBoundarySeen := rfl
  state := rfl
  currentHeaders := rfl
  currentPartBytes := rfl
  ended := rfl
  parts := rfl

theorem SameParser.finishParse (h : SameParser s s') :
    LoopbackOData.finishParse boundary limits handle rt s =
      LoopbackOData.finishParse boundary limits handle rt s' := by
  apply Agree.eq
  refine h.processBuffer.bind fun t t' ht => ?_
  rw [ht.ended, ht.parts]
  exact Agree.refl

theorem SameParser.parseChunks (chunks : List Bytes) (h : SameParser s s') :
    LoopbackOData.parseChunks boundary limits handle rt chunks s =
      LoopbackOData.parseChunks boundary limits handle rt chunks s' := by
  induction chunks generalizing s s' with
  | nil => exact h.finishParse
  | cons chunk chunks ih =>
    apply Agree.eq
    refine (h.pushChunk chunk).processBuffer.bind fun t t' ht => ?_
    show Agree Eq (LoopbackOData.parseChunks boundary limits handle rt chunks t) _
    rw [ih ht]
    exact Agree.refl

theorem SameParser.parseLimited (total : Nat) (chunks : List Bytes) (h : SameParser s s') :
    LoopbackOData.parseLimited boundary limits handle rt total chunks s =
      LoopbackOData.parseLimited boundary limits handle rt total chunks s' := by
  induction chunks generalizing total s s' with
  | nil => exact h.finishParse
  | cons chunk chunks ih =>
    apply Agree.eq
    refine Agree.refl.bind fun _ _ _ => (h.pushChunk chunk).processBuffer.bind fun t t' ht => ?_
    show Agree Eq (LoopbackOData.parseLimited boundary limits handle rt _ chunks t) _
    rw [ih _ ht]
    exact Agree.refl

/-! ## The parser -/

variable (Q Q')

theorem handlePartWithin_congr (n depth : Nat) (changesetId : Option Text) :
    handlePartWithin Q limits rt n depth changesetId =
      handlePartWithin Q' limits rt n depth changesetId := by
  induction n generalizing depth changesetId with
  | zero => rfl
  | succ n ih =>
    funext body headers s
    cases headers with
    | none => rfl
    | some headers =>
      unfold handlePartWithin parseBuffer
      dsimp only
      rw [ih, ((sameParser_startParser Q Q' ⟨[], 0, s.context⟩).pushChunk
        body).finishParse]

theorem parse_congr (chunks : List Bytes) :
    parse Q limits rt boundary chunks = parse Q' limits rt boundary chunks := by
  have hhandle : handlePart Q limits rt 0 none = handlePart Q' limits rt 0 none := by
    funext body headers s
    unfold handlePart
    rw [handlePartWithin_congr Q Q']
  unfold parse
  rw [hhandle, (sameParser_startParser Q Q' _).parseChunks]

theorem parseMultipartBatch_congr (chunks : List Bytes) :
    parseMultipartBatch Q limits rt boundary chunks =
      parseMultipartBatch Q' limits rt boundary chunks := by
  have hhandle : handlePart Q limits rt 0 none = handlePart Q' limits rt 0 none := by
    funext body headers s
    unfold handlePart
    rw [handlePartWithin_congr Q Q']
  unfold parseMultipartBatch
  rw [hhandle, (sameParser_startParser Q Q' _).parseLimited]

end LoopbackOData
