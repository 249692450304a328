import LoopbackOData.Batch.BufferQueue

/-!
# Calls of the buffer queue

The methods of the queue with the positions that a caller may give, negative ones included, and
with the errors that they throw. A sequence of calls is answered as by the string of the bytes that
were pushed and not consumed.
-/

set_option autoImplicit false

namespace LoopbackOData

structure RangeError where
  message : String
  deriving DecidableEq

/-! ## The methods -/

namespace QueueCalls

def consume (q : BufferQueue) (bytes : Int) : Except RangeError BufferQueue :=
  if bytes ≤ 0 then .ok q
  else match q.consume bytes.toNat with
    | some q' => .ok q'
    | none =>
      let totalLength := q.totalLength
      .error ⟨s!"Cannot consume {bytes} bytes from buffer of length {totalLength}."⟩

def slice (q : BufferQueue) (start stop : Int) : Except RangeError Bytes :=
  if start < 0 ∨ stop < 0 ∨ start > stop then
    .error ⟨s!"Invalid slice range: start={start}, end={stop}."⟩
  else match q.slice start.toNat stop.toNat with
    | some output => .ok output
    | none =>
      let totalLength := q.totalLength
      .error ⟨s!"Slice range end={stop} exceeds buffer length {totalLength}."⟩

def byteAt (q : BufferQueue) (pos : Int) : Except RangeError UInt8 × BufferQueue :=
  if pos < 0 ∨ pos ≥ q.totalLength then
    let totalLength := q.totalLength
    (.error ⟨s!"byteAt({pos}) is out of range for length {totalLength}."⟩, q)
  else match q.byteAt pos.toNat with
    | (some byte, q') => (.ok byte, q')
    | (none, q') => (.error ⟨s!"byteAt({pos}) could not resolve within queued buffers."⟩, q')

/-- The loops that compare byte by byte. An error of a read ends them. -/
def matchesAt (q : BufferQueue) (pos : Int) : Bytes → Except RangeError Bool × BufferQueue
  | [] => (.ok true, q)
  | b :: rest =>
    match byteAt q pos with
    | (.error e, q') => (.error e, q')
    | (.ok byte, q') => if byte = b then matchesAt q' (pos + 1) rest else (.ok false, q')

def startsWith (q : BufferQueue) (s : Bytes) (offset : Int) :
    Except RangeError Bool × BufferQueue :=
  if offset < 0 then (.ok false, q)
  else if s.length + offset > q.totalLength then (.ok false, q)
  else matchesAt q offset s

/-- The loop of `indexOf` over so many places. -/
def search (first : UInt8) (rest : Bytes) :
    Nat → BufferQueue → Int → Except RangeError Int × BufferQueue
  | 0, q, _ => (.ok (-1), q)
  | n + 1, q, i =>
    match byteAt q i with
    | (.error e, q') => (.error e, q')
    | (.ok byte, q') =>
      if byte = first then
        match matchesAt q' (i + 1) rest with
        | (.error e, q'') => (.error e, q'')
        | (.ok true, q'') => (.ok i, q'')
        | (.ok false, q'') => search first rest n q'' (i + 1)
      else search first rest n q' (i + 1)

def indexOf (q : BufferQueue) (needle : Bytes) (start : Int) :
    Except RangeError Int × BufferQueue :=
  let start := if start < 0 then 0 else start
  match needle with
  | [] => (.ok (min start q.totalLength), q)
  | first :: rest =>
    if q.totalLength - start < needle.length then (.ok (-1), q)
    else
      let lastStart := q.totalLength - (needle.length : Int)
      search first rest (lastStart - start + 1).toNat q start

end QueueCalls

/-! ## The string of the bytes -/

namespace ByteString

def consume (s : Bytes) (bytes : Int) : Except RangeError Bytes :=
  if bytes ≤ 0 then .ok s
  else if bytes ≤ s.length then .ok (s.drop bytes.toNat)
  else
    let totalLength := s.length
    .error ⟨s!"Cannot consume {bytes} bytes from buffer of length {totalLength}."⟩

def slice (s : Bytes) (start stop : Int) : Except RangeError Bytes :=
  if start < 0 ∨ stop < 0 ∨ start > stop then
    .error ⟨s!"Invalid slice range: start={start}, end={stop}."⟩
  else if stop ≤ s.length then .ok ((s.drop start.toNat).take (stop - start).toNat)
  else
    let totalLength := s.length
    .error ⟨s!"Slice range end={stop} exceeds buffer length {totalLength}."⟩

def byteAt (s : Bytes) (pos : Int) : Except RangeError UInt8 :=
  if pos < 0 then
    let totalLength := s.length
    .error ⟨s!"byteAt({pos}) is out of range for length {totalLength}."⟩
  else match s[pos.toNat]? with
    | some byte => .ok byte
    | none =>
      let totalLength := s.length
      .error ⟨s!"byteAt({pos}) is out of range for length {totalLength}."⟩

/-- The prefix is at the offset. No negative offset is in the string, and none past its end. -/
def startsWith (s t : Bytes) (offset : Int) : Bool :=
  decide (0 ≤ offset) && decide (t.length + offset ≤ s.length) &&
    t.isPrefixOf (s.drop offset.toNat)

/-- The first place from the start on at which the needle is, or `-1`. The empty needle is found at
the end of the string, if it is looked for further right. -/
def indexOf (s needle : Bytes) (start : Int) : Int :=
  if needle = [] then min start.toNat s.length
  else match Occurrence.first needle (s.drop start.toNat) with
    | some i => i + start.toNat
    | none => -1

end ByteString

/-! ## Sequences of calls -/

inductive QueueCall where
  | push (buffer : Bytes)
  | length
  | consume (bytes : Int)
  | slice (start stop : Int)
  | byteAt (pos : Int)
  | startsWith (s : Bytes) (offset : Int)
  | indexOf (needle : Bytes) (start : Int)

/-- What a call returns. -/
inductive QueueReply where
  | nothing
  | length (n : Nat)
  | bytes (s : Bytes)
  | byte (b : UInt8)
  | answer (b : Bool)
  | index (i : Int)

/-- A call that throws leaves the queue as it was. -/
def QueueCall.onQueue (q : BufferQueue) : QueueCall → Except RangeError QueueReply × BufferQueue
  | .push buffer => (.ok .nothing, q.push buffer)
  | .length => (.ok (.length q.totalLength), q)
  | .consume bytes =>
    match QueueCalls.consume q bytes with
    | .ok q' => (.ok .nothing, q')
    | .error e => (.error e, q)
  | .slice start stop => ((QueueCalls.slice q start stop).map .bytes, q)
  | .byteAt pos => ((QueueCalls.byteAt q pos).1.map .byte, (QueueCalls.byteAt q pos).2)
  | .startsWith s offset =>
    ((QueueCalls.startsWith q s offset).1.map .answer, (QueueCalls.startsWith q s offset).2)
  | .indexOf needle start =>
    ((QueueCalls.indexOf q needle start).1.map .index, (QueueCalls.indexOf q needle start).2)

def QueueCall.onBytes (s : Bytes) : QueueCall → Except RangeError QueueReply × Bytes
  | .push buffer => (.ok .nothing, s ++ buffer)
  | .length => (.ok (.length s.length), s)
  | .consume bytes =>
    match ByteString.consume s bytes with
    | .ok s' => (.ok .nothing, s')
    | .error e => (.error e, s)
  | .slice start stop => ((ByteString.slice s start stop).map .bytes, s)
  | .byteAt pos => ((ByteString.byteAt s pos).map .byte, s)
  | .startsWith t offset => (.ok (.answer (ByteString.startsWith s t offset)), s)
  | .indexOf needle start => (.ok (.index (ByteString.indexOf s needle start)), s)

/-- What a sequence of calls returns. -/
def replies {σ : Type} (answer : σ → QueueCall → Except RangeError QueueReply × σ) (s : σ) :
    List QueueCall → List (Except RangeError QueueReply)
  | [] => []
  | call :: calls => (answer s call).1 :: replies answer (answer s call).2 calls

/-! ## Each call -/

namespace QueueCalls

variable {q : BufferQueue}

theorem consume_spec (h : q.Valid) (bytes : Int) :
    (∃ q', consume q bytes = .ok q' ∧ q'.Valid ∧
        ByteString.consume q.bytes bytes = .ok q'.bytes) ∨
      ∃ e, consume q bytes = .error e ∧ ByteString.consume q.bytes bytes = .error e := by
  have hspec := BufferQueue.consume_spec h bytes.toNat
  unfold consume ByteString.consume
  by_cases hzero : bytes ≤ 0
  · rw [if_pos hzero, if_pos hzero]
    exact .inl ⟨q, rfl, h, rfl⟩
  · rw [if_neg hzero, if_neg hzero]
    by_cases hle : bytes ≤ q.bytes.length
    · rw [if_pos (by omega)] at hspec
      obtain ⟨q', hconsume, hvalid, hbytes⟩ := hspec
      rw [hconsume, if_pos hle]
      exact .inl ⟨q', rfl, hvalid, by rw [hbytes]⟩
    · rw [if_neg (by omega)] at hspec
      rw [hspec, if_neg hle, ← h.total]
      exact .inr ⟨_, rfl, rfl⟩

theorem slice_eq (h : q.Valid) (start stop : Int) :
    slice q start stop = ByteString.slice q.bytes start stop := by
  unfold slice ByteString.slice
  by_cases hrange : start < 0 ∨ stop < 0 ∨ start > stop
  · rw [if_pos hrange, if_pos hrange]
  · rw [if_neg hrange, if_neg hrange, BufferQueue.slice_spec h, ← h.total]
    by_cases hle : stop ≤ q.totalLength
    · rw [if_pos hle, if_pos (by omega), Int.toNat_sub'']
      all_goals omega
    · rw [if_neg hle, if_neg (by omega)]

/-- A read of the queue is one of the bytes. -/
theorem byteAt_spec (h : q.Valid) (pos : Int) :
    (byteAt q pos).1 = ByteString.byteAt q.bytes pos ∧ (byteAt q pos).2.Valid ∧
      (byteAt q pos).2.bytes = q.bytes := by
  obtain ⟨hbyte, hvalid, hbytes⟩ := BufferQueue.byteAt_spec h pos.toNat
  unfold byteAt ByteString.byteAt
  rw [← h.total]
  by_cases hneg : pos < 0
  · rw [if_pos (.inl hneg), if_pos hneg]
    exact ⟨rfl, h, rfl⟩
  · rw [if_neg hneg]
    by_cases hpast : pos ≥ q.totalLength
    · have hlength := h.total
      rw [if_pos (.inr hpast), List.getElem?_eq_none (by omega)]
      exact ⟨rfl, h, rfl⟩
    · have hlt : pos.toNat < q.bytes.length := by
        rw [← h.total]
        omega
      rw [if_neg (by omega)]
      rw [List.getElem?_eq_getElem hlt] at hbyte ⊢
      cases hread : q.byteAt pos.toNat with
      | mk found q' =>
        rw [hread] at hbyte hvalid hbytes
        obtain rfl : found = some q.bytes[pos.toNat] := hbyte
        exact ⟨rfl, hvalid, hbytes⟩

/-- Where there are bytes, reading gives them. -/
theorem byteAt_eq (h : q.Valid) {pos : Nat} (hlt : pos < q.bytes.length) :
    byteAt q pos = (.ok q.bytes[pos], (q.byteAt pos).2) := by
  have hbyte := (BufferQueue.byteAt_spec h pos).1
  rw [List.getElem?_eq_getElem hlt] at hbyte
  rw [byteAt, if_neg (by rw [h.total]; omega), Int.toNat_natCast]
  cases hread : q.byteAt pos with
  | mk found q' =>
    rw [hread] at hbyte
    obtain rfl : found = some q.bytes[pos] := hbyte
    rfl

/-- A comparison within the bytes throws nothing. -/
theorem matchesAt_eq (s : Bytes) (h : q.Valid) {i : Nat}
    (hroom : i + s.length ≤ q.bytes.length) :
    matchesAt q i s = (.ok (q.matchesAt i s).1, (q.matchesAt i s).2) := by
  induction s generalizing q i with
  | nil => rfl
  | cons b s ih =>
    rw [List.length_cons] at hroom
    have hlt : i < q.bytes.length := by omega
    obtain ⟨hbyte, hvalid, hbytes⟩ := BufferQueue.byteAt_spec h i
    rw [List.getElem?_eq_getElem hlt] at hbyte
    rw [matchesAt, byteAt_eq h hlt, BufferQueue.matchesAt, hbyte]
    dsimp only
    by_cases hb : q.bytes[i] = b
    · have hnext := ih hvalid (i := i + 1) (by rw [hbytes]; omega)
      rw [if_pos hb, if_pos (congrArg some hb)]
      exact hnext
    · rw [if_neg hb, if_neg fun heq => hb (Option.some.inj heq)]

theorem startsWith_spec (h : q.Valid) (s : Bytes) (offset : Int) :
    (startsWith q s offset).1 = .ok (ByteString.startsWith q.bytes s offset) ∧
      (startsWith q s offset).2.Valid ∧ (startsWith q s offset).2.bytes = q.bytes := by
  rw [startsWith, ByteString.startsWith, ← h.total]
  by_cases hneg : offset < 0
  · rw [if_pos hneg, decide_eq_false (by omega), Bool.false_and, Bool.false_and]
    exact ⟨rfl, h, rfl⟩
  · rw [if_neg hneg, decide_eq_true (by omega), Bool.true_and]
    by_cases hlong : s.length + offset > q.totalLength
    · rw [if_pos hlong, decide_eq_false (by omega), Bool.false_and]
      exact ⟨rfl, h, rfl⟩
    · have hroom : offset.toNat + s.length ≤ q.bytes.length := by
        rw [← h.total]
        omega
      have hmatches := matchesAt_eq s h hroom
      obtain ⟨hspec, hvalid, hbytes⟩ := BufferQueue.matchesAt_spec s h offset.toNat
      rw [Int.toNat_of_nonneg (by omega)] at hmatches
      rw [if_neg hlong, decide_eq_true (by omega), Bool.true_and, hmatches, hspec]
      exact ⟨rfl, hvalid, hbytes⟩

/-- A search within the bytes throws nothing. -/
theorem search_eq (first : UInt8) (rest : Bytes) (n : Nat) (h : q.Valid) {i : Nat}
    (hroom : i + n + rest.length ≤ q.bytes.length) :
    search first rest n q i =
      (.ok (((BufferQueue.search first rest n q i).1.map Int.ofNat).getD (-1)),
        (BufferQueue.search first rest n q i).2) := by
  induction n generalizing q i with
  | zero => rfl
  | succ n ih =>
    have hlt : i < q.bytes.length := by omega
    obtain ⟨hbyte, hvalid, hbytes⟩ := BufferQueue.byteAt_spec h i
    rw [List.getElem?_eq_getElem hlt] at hbyte
    rw [search, byteAt_eq h hlt, BufferQueue.search, hbyte]
    dsimp only
    by_cases hfirst : q.bytes[i] = first
    · rw [if_pos hfirst, if_pos (congrArg some hfirst)]
      have hmatches := matchesAt_eq rest hvalid (i := i + 1) (by rw [hbytes]; omega)
      rw [Nat.cast_add, Nat.cast_one] at hmatches
      obtain ⟨_, hvalid', hbytes'⟩ := BufferQueue.matchesAt_spec rest hvalid (i + 1)
      rw [hmatches]
      cases hfound : ((q.byteAt i).2.matchesAt (i + 1) rest).1 with
      | true => rfl
      | false =>
        have hnext := ih hvalid' (i := i + 1) (by rw [hbytes', hbytes]; omega)
        rw [Nat.cast_add, Nat.cast_one] at hnext
        exact hnext
    · have hnext := ih hvalid (i := i + 1) (by rw [hbytes]; omega)
      rw [Nat.cast_add, Nat.cast_one] at hnext
      rw [if_neg hfirst, if_neg fun heq => hfirst (Option.some.inj heq)]
      exact hnext

theorem indexOf_spec (h : q.Valid) (needle : Bytes) (start : Int) :
    (indexOf q needle start).1 = .ok (ByteString.indexOf q.bytes needle start) ∧
      (indexOf q needle start).2.Valid ∧ (indexOf q needle start).2.bytes = q.bytes := by
  have hstart : (if start < 0 then 0 else start) = (start.toNat : Int) := by
    split
    · next hneg => rw [Int.toNat_of_nonpos (by omega)]; rfl
    · next hneg => rw [Int.toNat_of_nonneg (by omega)]
  unfold indexOf ByteString.indexOf
  rw [hstart]
  dsimp only
  cases needle with
  | nil =>
    rw [if_pos rfl, ← h.total]
    exact ⟨rfl, h, rfl⟩
  | cons first rest =>
    dsimp only
    rw [if_neg (List.cons_ne_nil _ _)]
    by_cases hshort : q.totalLength - (start.toNat : Int) < (first :: rest).length
    · have hnone : Occurrence.first (first :: rest) (q.bytes.drop start.toNat) = none := by
        rw [Occurrence.first_eq_none_iff]
        intro j hprefix
        have hlength := hprefix.length_le
        rw [List.length_drop, List.length_drop, List.length_cons, ← h.total] at hlength
        rw [List.length_cons] at hshort
        omega
      rw [if_pos hshort, hnone]
      exact ⟨rfl, h, rfl⟩
    · rw [if_neg hshort]
      rw [List.length_cons] at hshort
      rw [List.length_cons]
      have hrest : q.bytes.length = start.toNat +
          ((q.totalLength : Int) - ((rest.length + 1 : Nat) : Int) - start.toNat + 1).toNat +
          rest.length := by
        rw [← h.total]
        omega
      obtain ⟨hfound, hvalid, hbytes⟩ := BufferQueue.search_spec first rest _ h hrest
      rw [search_eq first rest _ h (Nat.le_of_eq hrest.symm), hfound]
      refine ⟨?_, hvalid, hbytes⟩
      cases Occurrence.first (first :: rest) (q.bytes.drop start.toNat) with
      | none => rfl
      | some i => exact congrArg Except.ok (Nat.cast_add i start.toNat)

end QueueCalls

/-! ## All calls -/

theorem QueueCall.onQueue_spec {q : BufferQueue} (h : q.Valid) (call : QueueCall) :
    (call.onQueue q).1 = (call.onBytes q.bytes).1 ∧ (call.onQueue q).2.Valid ∧
      (call.onQueue q).2.bytes = (call.onBytes q.bytes).2 := by
  cases call with
  | push buffer =>
    obtain ⟨hvalid, hbytes⟩ := BufferQueue.push_spec h buffer
    exact ⟨rfl, hvalid, hbytes⟩
  | length => exact ⟨congrArg (fun n => Except.ok (QueueReply.length n)) h.total, h, rfl⟩
  | consume bytes =>
    unfold onQueue onBytes
    dsimp only
    obtain ⟨q', hq, hvalid, hbytes⟩ | ⟨e, hq, hbytes⟩ := QueueCalls.consume_spec h bytes
    · rw [hq, hbytes]
      exact ⟨rfl, hvalid, rfl⟩
    · rw [hq, hbytes]
      exact ⟨rfl, h, rfl⟩
  | slice start stop =>
    exact ⟨congrArg (Except.map QueueReply.bytes) (QueueCalls.slice_eq h start stop), h, rfl⟩
  | byteAt pos =>
    obtain ⟨hbyte, hvalid, hbytes⟩ := QueueCalls.byteAt_spec h pos
    exact ⟨congrArg (Except.map QueueReply.byte) hbyte, hvalid, hbytes⟩
  | startsWith s offset =>
    obtain ⟨hanswer, hvalid, hbytes⟩ := QueueCalls.startsWith_spec h s offset
    exact ⟨congrArg (Except.map QueueReply.answer) hanswer, hvalid, hbytes⟩
  | indexOf needle start =>
    obtain ⟨hindex, hvalid, hbytes⟩ := QueueCalls.indexOf_spec h needle start
    exact ⟨congrArg (Except.map QueueReply.index) hindex, hvalid, hbytes⟩

theorem replies_onQueue {q : BufferQueue} (h : q.Valid) (calls : List QueueCall) :
    replies (fun q call => call.onQueue q) q calls =
      replies (fun s call => call.onBytes s) q.bytes calls := by
  induction calls generalizing q with
  | nil => rfl
  | cons call calls ih =>
    obtain ⟨hreply, hvalid, hbytes⟩ := call.onQueue_spec h
    rw [replies, replies, hreply, ih hvalid, hbytes]

/-- A new queue answers every sequence of calls as the string of the bytes does. -/
theorem replies_eq_onBytes (calls : List QueueCall) :
    replies (fun q call => call.onQueue q) BufferQueue.empty calls =
      replies (fun s call => call.onBytes s) [] calls :=
  replies_onQueue BufferQueue.valid_empty calls

end LoopbackOData
