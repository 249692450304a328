import LoopbackOData.Js
import LoopbackOData.Library.ByteQueue

/-!
# The buffer queue

The queue in which the multipart parser keeps the chunks that have arrived. It holds the chunks as
they came, the place of the first byte that is not consumed yet, and the place of the byte that was
read last. Whatever the chunks are, its operations are those of the list of the bytes.
-/

set_option autoImplicit false

namespace LoopbackOData

abbrev Bytes := List UInt8

/-- Where the byte at `globalPos` was found. -/
structure CachePoint where
  globalPos : Nat
  bufferIndex : Nat
  bufferOffset : Nat

structure BufferQueue where
  buffers : List Bytes
  headIndex : Nat
  headOffset : Nat
  totalLength : Nat
  cache : Option CachePoint

namespace BufferQueue

def empty : BufferQueue := ⟨[], 0, 0, 0, none⟩

def push (q : BufferQueue) (buffer : Bytes) : BufferQueue :=
  if buffer = [] then q
  else { q with buffers := q.buffers ++ [buffer], totalLength := q.totalLength + buffer.length }

/-- The loops over the buffers: from an offset in the first of them, over so many bytes. -/
def walk : List Bytes → Nat → Nat → Nat → Nat × Nat
  | [], bufferIndex, bufferOffset, _ => (bufferIndex, bufferOffset)
  | current :: buffers, bufferIndex, bufferOffset, remaining =>
    let available := current.length - bufferOffset
    if remaining < available then (bufferIndex, bufferOffset + remaining)
    else walk buffers (bufferIndex + 1) 0 (remaining - available)

def walkFrom (q : BufferQueue) (bufferIndex bufferOffset remaining : Nat) : Nat × Nat :=
  walk (q.buffers.drop bufferIndex) bufferIndex bufferOffset remaining

def consume (q : BufferQueue) (bytes : Nat) : Option BufferQueue :=
  if bytes = 0 then some q
  else if q.totalLength < bytes then none
  else
    let head := q.walkFrom q.headIndex q.headOffset bytes
    let totalLength := q.totalLength - bytes
    if totalLength = 0 then some empty
    else if 64 < head.1 ∧ head.2 = 0 then some ⟨q.buffers.drop head.1, 0, 0, totalLength, none⟩
    else some ⟨q.buffers, head.1, head.2, totalLength, none⟩

/-- The copying loop of `slice`. -/
def copy : List Bytes → Nat → Nat → Bytes
  | [], _, _ => []
  | current :: buffers, bufferOffset, remaining =>
    if remaining = 0 then []
    else
      let toCopy := min (current.length - bufferOffset) remaining
      (current.drop bufferOffset).take toCopy ++ copy buffers 0 (remaining - toCopy)

def slice (q : BufferQueue) (start stop : Nat) : Option Bytes :=
  if stop < start then none
  else if q.totalLength < stop then none
  else
    let place := q.walkFrom q.headIndex q.headOffset start
    some (copy (q.buffers.drop place.1) place.2 (stop - start))

def byteAt (q : BufferQueue) (pos : Nat) : Option UInt8 × BufferQueue :=
  if q.totalLength ≤ pos then (none, q)
  else
    let place := match q.cache with
      | some c =>
        if c.globalPos ≤ pos then q.walkFrom c.bufferIndex c.bufferOffset (pos - c.globalPos)
        else q.walkFrom q.headIndex q.headOffset pos
      | none => q.walkFrom q.headIndex q.headOffset pos
    match q.buffers[place.1]? with
    | some current => (current[place.2]?, { q with cache := some ⟨pos, place.1, place.2⟩ })
    | none => (none, q)

/-- The loops that compare byte by byte. -/
def matchesAt (q : BufferQueue) (pos : Nat) : Bytes → Bool × BufferQueue
  | [] => (true, q)
  | b :: rest =>
    let found := q.byteAt pos
    if found.1 = some b then found.2.matchesAt (pos + 1) rest else (false, found.2)

def startsWith (q : BufferQueue) (s : Bytes) (offset : Nat) : Bool × BufferQueue :=
  if q.totalLength < s.length + offset then (false, q) else q.matchesAt offset s

/-- The loop of `indexOf` over so many places. -/
def search (first : UInt8) (rest : Bytes) : Nat → BufferQueue → Nat → Option Nat × BufferQueue
  | 0, q, _ => (none, q)
  | n + 1, q, i =>
    let found := q.byteAt i
    if found.1 = some first then
      let matched := found.2.matchesAt (i + 1) rest
      if matched.1 then (some i, matched.2) else search first rest n matched.2 (i + 1)
    else search first rest n found.2 (i + 1)

def indexOf (q : BufferQueue) : Bytes → Option Nat × BufferQueue
  | [] => (some 0, q)
  | first :: rest =>
    if q.totalLength < (first :: rest).length then (none, q)
    else search first rest (q.totalLength - rest.length) q 0

/-! ## The bytes of a queue -/

/-- The bytes from a place on. -/
def bytesFrom (q : BufferQueue) (bufferIndex bufferOffset : Nat) : Bytes :=
  (q.buffers.drop bufferIndex).flatten.drop bufferOffset

def bytes (q : BufferQueue) : Bytes := q.bytesFrom q.headIndex q.headOffset

/-- The offset is in the buffer of this index, or at the end of it. -/
def IsPlace (q : BufferQueue) (bufferIndex bufferOffset : Nat) : Prop :=
  bufferIndex ≤ q.buffers.length ∧ bufferOffset ≤ (q.buffers.drop bufferIndex).head?.elim 0 (·.length)

structure Valid (q : BufferQueue) : Prop where
  head : q.IsPlace q.headIndex q.headOffset
  total : q.totalLength = q.bytes.length
  cached : ∀ c ∈ q.cache, q.IsPlace c.bufferIndex c.bufferOffset ∧
    c.globalPos ≤ q.bytes.length ∧
    q.bytesFrom c.bufferIndex c.bufferOffset = q.bytes.drop c.globalPos

/-- A walk ends at the place that many bytes further, and before a byte if one is left. -/
theorem walk_spec (buffers : List Bytes) (i o n : Nat) (ho : o ≤ buffers.head?.elim 0 (·.length)) :
    ∃ k, (walk buffers i o n).1 = i + k ∧ k ≤ buffers.length ∧
      (walk buffers i o n).2 ≤ (buffers.drop k).head?.elim 0 (·.length) ∧
      (buffers.drop k ≠ [] → (walk buffers i o n).2 < (buffers.drop k).head?.elim 0 (·.length)) ∧
      (buffers.drop k).flatten.drop (walk buffers i o n).2 = (buffers.flatten.drop o).drop n := by
  induction buffers generalizing i o n with
  | nil => exact ⟨0, by simp [walk], by simp, by simpa [walk] using ho, by simp, by simp⟩
  | cons current buffers ih =>
    have hcurrent : o ≤ current.length := ho
    rw [walk]
    by_cases hn : n < current.length - o
    · rw [if_pos hn]
      refine ⟨0, rfl, Nat.zero_le _, ?_, ?_, ?_⟩
      · show o + n ≤ current.length
        omega
      · intro _
        show o + n < current.length
        omega
      · rw [List.drop_zero, List.drop_drop]
    · rw [if_neg hn]
      obtain ⟨k, hindex, hk, hle, hlt, hbytes⟩ := ih (i + 1) 0 (n - (current.length - o))
        (Nat.zero_le _)
      refine ⟨k + 1, by rw [hindex]; omega, by rw [List.length_cons]; omega, hle, hlt, ?_⟩
      have hpast : current.drop (o + n) = [] := List.drop_eq_nil_of_le (by omega)
      rw [List.drop_succ_cons, hbytes, List.drop_zero, List.flatten_cons, List.drop_drop,
        List.drop_append, hpast, List.nil_append]
      congr 1
      omega

variable {q : BufferQueue} {i o n : Nat}

theorem walkFrom_spec (h : q.IsPlace i o) (n : Nat) :
    q.IsPlace (q.walkFrom i o n).1 (q.walkFrom i o n).2 ∧
      q.bytesFrom (q.walkFrom i o n).1 (q.walkFrom i o n).2 = (q.bytesFrom i o).drop n ∧
      (n < (q.bytesFrom i o).length → ∃ current, q.buffers[(q.walkFrom i o n).1]? = some current ∧
        current[(q.walkFrom i o n).2]? = (q.bytesFrom i o)[n]?) := by
  obtain ⟨k, hindex, hk, hle, hlt, hbytes⟩ := walk_spec (q.buffers.drop i) i o n h.2
  rw [List.length_drop] at hk
  rw [List.drop_drop] at hle hlt hbytes
  rw [walkFrom, bytesFrom, bytesFrom, IsPlace, hindex]
  refine ⟨⟨by have := h.1; omega, hle⟩, hbytes, ?_⟩
  intro hn
  have hne : q.buffers.drop (i + k) ≠ [] := by
    intro hnil
    rw [hnil] at hbytes
    have hlength := congrArg List.length hbytes
    rw [List.flatten_nil, List.drop_nil, List.length_nil, List.length_drop] at hlength
    omega
  obtain ⟨current, rest, hcurrent⟩ := List.exists_cons_of_ne_nil hne
  have hoffset := hlt hne
  rw [hcurrent] at hoffset hbytes
  refine ⟨current, ?_, ?_⟩
  · rw [← List.head?_drop, hcurrent, List.head?_cons]
  · have hhead := congrArg List.head? hbytes
    rw [List.head?_drop, List.head?_drop, List.flatten_cons,
      List.getElem?_append_left hoffset] at hhead
    exact hhead

theorem copy_spec (buffers : List Bytes) (o n : Nat)
    (ho : o ≤ buffers.head?.elim 0 (·.length)) :
    copy buffers o n = (buffers.flatten.drop o).take n := by
  induction buffers generalizing o n with
  | nil => simp [copy]
  | cons current buffers ih =>
    have hcurrent : o ≤ current.length := ho
    rw [copy]
    by_cases hn : n = 0
    · simp [hn]
    · rw [if_neg hn]
      dsimp only
      rw [ih 0 _ (Nat.zero_le _), List.drop_zero, List.flatten_cons,
        List.drop_append_of_le_length hcurrent, List.take_append, List.length_drop]
      congr 1
      · by_cases hle : current.length - o ≤ n
        · rw [min_eq_left hle, List.take_of_length_le (by rw [List.length_drop]),
            List.take_of_length_le (by rw [List.length_drop]; exact hle)]
        · rw [min_eq_right (by omega)]
      · congr 1
        omega

/-! ## The operations on the bytes -/

theorem valid_empty : empty.Valid :=
  ⟨⟨Nat.le_refl 0, Nat.le_refl 0⟩, rfl, nofun⟩

theorem bytesFrom_le_push (h : q.IsPlace i o) (buffer : Bytes) :
    (q.push buffer).IsPlace i o ∧ (q.push buffer).bytesFrom i o = q.bytesFrom i o ++ buffer := by
  rw [push]
  by_cases hnil : buffer = []
  · rw [if_pos hnil, hnil, List.append_nil]
    exact ⟨h, rfl⟩
  · rw [if_neg hnil]
    obtain ⟨hi, ho⟩ := h
    have hdrop : (q.buffers ++ [buffer]).drop i = q.buffers.drop i ++ [buffer] :=
      List.drop_append_of_le_length hi
    refine ⟨⟨by rw [List.length_append]; omega, ?_⟩, ?_⟩
    · show o ≤ ((q.buffers ++ [buffer]).drop i).head?.elim 0 (·.length)
      rw [hdrop]
      cases hrest : q.buffers.drop i with
      | nil =>
        rw [hrest] at ho
        have hzero : o = 0 := Nat.le_zero.mp ho
        rw [hzero]
        exact Nat.zero_le _
      | cons current rest =>
        rw [hrest] at ho
        exact ho
    · show ((q.buffers ++ [buffer]).drop i).flatten.drop o = _
      rw [hdrop, List.flatten_append, List.drop_append_of_le_length]
      · simp [bytesFrom]
      · cases hrest : q.buffers.drop i with
        | nil =>
          rw [hrest] at ho
          exact ho
        | cons current rest =>
          rw [hrest] at ho
          rw [List.flatten_cons, List.length_append]
          exact Nat.le_add_right_of_le ho

theorem push_spec (h : q.Valid) (buffer : Bytes) :
    (q.push buffer).Valid ∧ (q.push buffer).bytes = q.bytes ++ buffer := by
  have hindex : (q.push buffer).headIndex = q.headIndex ∧
      (q.push buffer).headOffset = q.headOffset ∧ (q.push buffer).cache = q.cache := by
    rw [push]
    split <;> exact ⟨rfl, rfl, rfl⟩
  obtain ⟨hplace, hbytes⟩ := bytesFrom_le_push h.head buffer
  have hall : (q.push buffer).bytes = q.bytes ++ buffer := by
    rw [bytes, hindex.1, hindex.2.1, hbytes, bytes]
  refine ⟨⟨?_, ?_, ?_⟩, hall⟩
  · rw [hindex.1, hindex.2.1]
    exact hplace
  · rw [hall, List.length_append, ← h.total, push]
    split
    · next hnil => simp [hnil]
    · rfl
  · intro c hc
    rw [hindex.2.2] at hc
    obtain ⟨hcplace, hcpos, hcbytes⟩ := h.cached c hc
    obtain ⟨hcplace', hcbytes'⟩ := bytesFrom_le_push hcplace buffer
    rw [hcbytes', hcbytes, hall, List.drop_append_of_le_length hcpos]
    refine ⟨hcplace', ?_, rfl⟩
    rw [List.length_append]
    omega

theorem valid_uncached {buffers : List Bytes} {total : Nat}
    (h : (⟨buffers, i, o, total, none⟩ : BufferQueue).IsPlace i o)
    (htotal : total = (⟨buffers, i, o, total, none⟩ : BufferQueue).bytes.length) :
    (⟨buffers, i, o, total, none⟩ : BufferQueue).Valid :=
  ⟨h, htotal, nofun⟩

theorem consume_spec (h : q.Valid) (n : Nat) :
    if n ≤ q.bytes.length then ∃ q', q.consume n = some q' ∧ q'.Valid ∧ q'.bytes = q.bytes.drop n
    else q.consume n = none := by
  obtain ⟨hplace, hbytes, _⟩ := walkFrom_spec h.head n
  rw [← bytes] at hbytes
  rw [consume]
  by_cases hzero : n = 0
  · rw [if_pos (by omega), if_pos hzero]
    exact ⟨q, rfl, h, by rw [hzero, List.drop_zero]⟩
  · rw [if_neg hzero]
    by_cases hle : n ≤ q.bytes.length
    · rw [if_pos hle, if_neg (by rw [h.total]; omega)]
      dsimp only
      have htotal : q.totalLength - n = (q.bytes.drop n).length := by
        rw [h.total, List.length_drop]
      by_cases hall : q.totalLength - n = 0
      · rw [if_pos hall]
        refine ⟨empty, rfl, valid_empty, ?_⟩
        rw [htotal] at hall
        rw [List.eq_nil_of_length_eq_zero hall]
        rfl
      · rw [if_neg hall]
        by_cases hslice : 64 < (q.walkFrom q.headIndex q.headOffset n).1 ∧
            (q.walkFrom q.headIndex q.headOffset n).2 = 0
        · rw [if_pos hslice]
          have heq : (⟨q.buffers.drop (q.walkFrom q.headIndex q.headOffset n).1, 0, 0,
              q.totalLength - n, none⟩ : BufferQueue).bytes = q.bytes.drop n := by
            rw [← hbytes, hslice.2]
            rfl
          refine ⟨_, rfl, valid_uncached ⟨Nat.zero_le _, Nat.zero_le _⟩ ?_, heq⟩
          exact htotal.trans (congrArg List.length heq.symm)
        · rw [if_neg hslice]
          refine ⟨_, rfl, valid_uncached hplace ?_, hbytes⟩
          rw [htotal, ← hbytes]
          rfl
    · rw [if_neg hle, if_pos (by rw [h.total]; omega)]

theorem valid_consume {q' : BufferQueue} (h : q.Valid) (hq : q.consume n = some q') : q'.Valid := by
  have hspec := consume_spec h n
  split at hspec
  · obtain ⟨_, heq, hvalid, _⟩ := hspec
    rw [Option.some.inj (hq.symm.trans heq)]
    exact hvalid
  · rw [hspec] at hq
    cases hq

theorem bytes_consume (h : q.Valid) (n : Nat) :
    (q.consume n).map bytes = if n ≤ q.bytes.length then some (q.bytes.drop n) else none := by
  have hspec := consume_spec h n
  split at hspec
  · next hle =>
    obtain ⟨_, heq, _, hbytes⟩ := hspec
    rw [if_pos hle, heq, Option.map_some, hbytes]
  · next hle => rw [if_neg hle, hspec, Option.map_none]

theorem slice_spec (h : q.Valid) (start stop : Nat) :
    q.slice start stop = if start ≤ stop ∧ stop ≤ q.bytes.length then
      some ((q.bytes.drop start).take (stop - start)) else none := by
  obtain ⟨hplace, hbytes, _⟩ := walkFrom_spec h.head start
  rw [← bytes, bytesFrom] at hbytes
  rw [slice, h.total]
  by_cases hstart : start ≤ stop
  · rw [if_neg (by omega)]
    by_cases hstop : stop ≤ q.bytes.length
    · rw [if_neg (by omega), if_pos ⟨hstart, hstop⟩]
      dsimp only
      rw [copy_spec _ _ _ hplace.2, hbytes]
    · rw [if_pos (by omega), if_neg (by omega)]
  · rw [if_pos (by omega), if_neg (by omega)]

/-- The place of a byte, from wherever it is looked for. -/
theorem byteAt_of_place (h : q.Valid) {pos start : Nat} (hplace : q.IsPlace i o)
    (hfrom : q.bytesFrom i o = q.bytes.drop start) (hstart : start ≤ pos)
    (hpos : pos < q.bytes.length) :
    ∃ current, q.buffers[(q.walkFrom i o (pos - start)).1]? = some current ∧
      current[(q.walkFrom i o (pos - start)).2]? = q.bytes[pos]? ∧
      ({ q with cache := some ⟨pos, (q.walkFrom i o (pos - start)).1,
          (q.walkFrom i o (pos - start)).2⟩ } : BufferQueue).Valid := by
  obtain ⟨hplace', hbytes, hcurrent⟩ := walkFrom_spec hplace (pos - start)
  rw [hfrom, List.length_drop, List.getElem?_drop] at hcurrent
  obtain ⟨current, hindex, hbyte⟩ := hcurrent (by omega)
  refine ⟨current, hindex, ?_, h.head, h.total, ?_⟩
  · rw [hbyte]
    congr 1
    omega
  · intro c hc
    obtain rfl := Option.mem_some.mp hc
    refine ⟨hplace', Nat.le_of_lt hpos, ?_⟩
    show q.bytesFrom _ _ = q.bytes.drop pos
    rw [hbytes, hfrom, List.drop_drop]
    congr 1
    omega

theorem byteAt_spec (h : q.Valid) (pos : Nat) :
    (q.byteAt pos).1 = q.bytes[pos]? ∧ (q.byteAt pos).2.Valid ∧
      (q.byteAt pos).2.bytes = q.bytes := by
  rw [byteAt]
  by_cases hpos : q.totalLength ≤ pos
  · rw [if_pos hpos]
    rw [h.total] at hpos
    exact ⟨(List.getElem?_eq_none hpos).symm, h, rfl⟩
  · rw [if_neg hpos]
    rw [h.total, Nat.not_le] at hpos
    have hwhole : q.bytesFrom q.headIndex q.headOffset = q.bytes.drop 0 := rfl
    obtain ⟨current, hindex, hbyte, hvalid⟩ :=
      byteAt_of_place h h.head hwhole (Nat.zero_le _) hpos
    cases hcache : q.cache with
    | none =>
      dsimp only
      rw [Nat.sub_zero] at hindex hbyte hvalid
      rw [hindex]
      exact ⟨hbyte, hvalid, rfl⟩
    | some c =>
      obtain ⟨hcplace, _, hcbytes⟩ := h.cached c hcache
      dsimp only
      by_cases hle : c.globalPos ≤ pos
      · rw [if_pos hle]
        obtain ⟨current', hindex', hbyte', hvalid'⟩ := byteAt_of_place h hcplace hcbytes hle hpos
        rw [hindex']
        exact ⟨hbyte', hvalid', rfl⟩
      · rw [if_neg hle]
        rw [Nat.sub_zero] at hindex hbyte hvalid
        rw [hindex]
        exact ⟨hbyte, hvalid, rfl⟩

theorem matchesAt_spec (s : Bytes) (h : q.Valid) (pos : Nat) :
    (q.matchesAt pos s).1 = s.isPrefixOf (q.bytes.drop pos) ∧ (q.matchesAt pos s).2.Valid ∧
      (q.matchesAt pos s).2.bytes = q.bytes := by
  induction s generalizing q pos with
  | nil => exact ⟨by simp [matchesAt], h, rfl⟩
  | cons b s ih =>
    obtain ⟨hbyte, hvalid, hbytes⟩ := byteAt_spec h pos
    rw [matchesAt]
    by_cases hfound : (q.byteAt pos).1 = some b
    · rw [if_pos hfound]
      obtain ⟨hmatch, hvalid', hbytes'⟩ := ih hvalid (pos + 1)
      rw [hbytes] at hmatch hbytes'
      refine ⟨?_, hvalid', hbytes'⟩
      rw [hbyte, List.getElem?_eq_some_iff] at hfound
      obtain ⟨hlt, hget⟩ := hfound
      rw [hmatch, List.drop_eq_getElem_cons hlt, hget]
      simp
    · rw [if_neg hfound]
      refine ⟨?_, hvalid, hbytes⟩
      rw [hbyte, ← List.head?_drop] at hfound
      cases hdrop : q.bytes.drop pos with
      | nil => rfl
      | cons c rest =>
        rw [hdrop, List.head?_cons, Option.some.injEq] at hfound
        simp [List.isPrefixOf, Ne.symm hfound]

theorem startsWith_spec (h : q.Valid) (s : Bytes) (offset : Nat) :
    (q.startsWith s offset).1 =
        (decide (s.length + offset ≤ q.bytes.length) && s.isPrefixOf (q.bytes.drop offset)) ∧
      (q.startsWith s offset).2.Valid ∧ (q.startsWith s offset).2.bytes = q.bytes := by
  rw [startsWith, h.total]
  by_cases hshort : q.bytes.length < s.length + offset
  · rw [if_pos hshort, decide_eq_false (by omega), Bool.false_and]
    exact ⟨rfl, h, rfl⟩
  · rw [if_neg hshort, decide_eq_true (by omega), Bool.true_and]
    exact matchesAt_spec s h offset

theorem search_spec (first : UInt8) (rest : Bytes) (n : Nat) (h : q.Valid) {i : Nat}
    (hrest : q.bytes.length = i + n + rest.length) :
    (search first rest n q i).1 =
        (Occurrence.first (first :: rest) (q.bytes.drop i)).map (· + i) ∧
      (search first rest n q i).2.Valid ∧ (search first rest n q i).2.bytes = q.bytes := by
  induction n generalizing q i with
  | zero =>
    refine ⟨?_, h, rfl⟩
    have hnone : Occurrence.first (first :: rest) (q.bytes.drop i) = none := by
      rw [Occurrence.first_eq_none_iff]
      intro j hprefix
      have hlength := hprefix.length_le
      rw [List.length_drop, List.length_drop, List.length_cons] at hlength
      omega
    rw [hnone]
    rfl
  | succ n ih =>
    obtain ⟨hbyte, hvalid, hbytes⟩ := byteAt_spec h i
    have hlt : i < q.bytes.length := by omega
    have hhere : (first :: rest).isPrefixOf (q.bytes.drop i) =
        (q.bytes[i] == first && rest.isPrefixOf (q.bytes.drop (i + 1))) := by
      rw [List.drop_eq_getElem_cons hlt, List.isPrefixOf, Bool.beq_comm]
    have hnext (found : Option Nat) :
        found.map (· + (i + 1)) = (found.map (· + 1)).map (· + i) := by
      rw [Option.map_map]
      congr 1
      funext k
      show k + (i + 1) = k + 1 + i
      omega
    have hget : (q.byteAt i).1 = some q.bytes[i] := by rw [hbyte, List.getElem?_eq_getElem hlt]
    rw [search, List.drop_eq_getElem_cons hlt, Occurrence.first, ← List.drop_eq_getElem_cons hlt,
      hhere]
    by_cases hfirst : q.bytes[i] = first
    · rw [if_pos (hget.trans (congrArg some hfirst))]
      obtain ⟨hmatch, hvalid', hbytes'⟩ := matchesAt_spec rest hvalid (i + 1)
      rw [hbytes] at hmatch hbytes'
      rw [hfirst, beq_self_eq_true, Bool.true_and]
      by_cases hprefix : rest.isPrefixOf (q.bytes.drop (i + 1)) = true
      · rw [if_pos hprefix, if_pos (hmatch.trans hprefix)]
        exact ⟨by simp, hvalid', hbytes'⟩
      · rw [if_neg hprefix, if_neg (by rw [hmatch]; exact hprefix)]
        obtain ⟨hfound, hvalid'', hbytes''⟩ := ih hvalid' (i := i + 1) (by rw [hbytes']; omega)
        rw [hbytes'] at hfound hbytes''
        exact ⟨hfound.trans (hnext _), hvalid'', hbytes''⟩
    · have hother : (q.byteAt i).1 ≠ some first := by
        intro heq
        exact hfirst (Option.some.inj (hget.symm.trans heq))
      rw [if_neg hother, if_neg (by simp [hfirst])]
      obtain ⟨hfound, hvalid', hbytes'⟩ := ih hvalid (i := i + 1) (by rw [hbytes]; omega)
      rw [hbytes] at hfound hbytes'
      exact ⟨hfound.trans (hnext _), hvalid', hbytes'⟩

theorem indexOf_spec (h : q.Valid) (s : Bytes) :
    (q.indexOf s).1 = Occurrence.first s q.bytes ∧ (q.indexOf s).2.Valid ∧
      (q.indexOf s).2.bytes = q.bytes := by
  cases s with
  | nil =>
    refine ⟨?_, h, rfl⟩
    rw [indexOf]
    cases q.bytes <;> rfl
  | cons first rest =>
    rw [indexOf, h.total]
    by_cases hshort : q.bytes.length < (first :: rest).length
    · rw [if_pos hshort]
      refine ⟨?_, h, rfl⟩
      rw [eq_comm, Occurrence.first_eq_none_iff]
      intro j hprefix
      have hlength := hprefix.length_le
      rw [List.length_drop] at hlength
      omega
    · rw [if_neg hshort]
      rw [List.length_cons] at hshort
      obtain ⟨hfound, hvalid, hbytes⟩ := search_spec first rest (q.bytes.length - rest.length) h
        (i := 0) (by omega)
      refine ⟨?_, hvalid, hbytes⟩
      rw [hfound, List.drop_zero]
      simp

end BufferQueue

/-- A queue of chunks as the operations keep it. -/
abbrev ValidQueue : Type := { q : BufferQueue // q.Valid }

instance : ByteQueue ValidQueue where
  empty := ⟨.empty, BufferQueue.valid_empty⟩
  push q s := ⟨q.1.push s, (BufferQueue.push_spec q.2 s).1⟩
  length q := q.1.totalLength
  consume q n := (q.1.consume n).pmap Subtype.mk fun _ h => BufferQueue.valid_consume q.2 h
  slice q start stop := q.1.slice start stop
  byteAt q pos := ((q.1.byteAt pos).1, ⟨(q.1.byteAt pos).2, (BufferQueue.byteAt_spec q.2 pos).2.1⟩)
  startsWith q s offset := ((q.1.startsWith s offset).1,
    ⟨(q.1.startsWith s offset).2, (BufferQueue.startsWith_spec q.2 s offset).2.1⟩)
  indexOf q s := ((q.1.indexOf s).1, ⟨(q.1.indexOf s).2, (BufferQueue.indexOf_spec q.2 s).2.1⟩)
  bytes q := q.1.bytes
  bytes_empty := rfl
  bytes_push q s := (BufferQueue.push_spec q.2 s).2
  length_eq q := q.2.total
  consume_eq q n := by
    rw [Option.map_pmap, ← BufferQueue.bytes_consume q.2 n]
    exact Option.pmap_eq_map BufferQueue.Valid BufferQueue.bytes _ _
  slice_eq q start stop := BufferQueue.slice_spec q.2 start stop
  byteAt_eq q pos :=
    ⟨(BufferQueue.byteAt_spec q.2 pos).1, (BufferQueue.byteAt_spec q.2 pos).2.2⟩
  startsWith_eq q s offset := ⟨(BufferQueue.startsWith_spec q.2 s offset).1,
    (BufferQueue.startsWith_spec q.2 s offset).2.2⟩
  indexOf_eq q s := ⟨(BufferQueue.indexOf_spec q.2 s).1, (BufferQueue.indexOf_spec q.2 s).2.2⟩

end LoopbackOData
