import LoopbackOData.Library.Occurrence

/-!
# Queues of bytes

A queue of bytes is filled at one end and read and emptied at the other. Reading may change how the
bytes are kept, never which they are. The plain list of the bytes is the simplest queue, and every
other queue is described by the list it stands for.
-/

set_option autoImplicit false

/-- Operations that fail return `none`. -/
class ByteQueue (Q : Type) where
  empty : Q
  push : Q → List UInt8 → Q
  length : Q → Nat
  consume : Q → Nat → Option Q
  slice : Q → Nat → Nat → Option (List UInt8)
  byteAt : Q → Nat → Option UInt8 × Q
  startsWith : Q → List UInt8 → Nat → Bool × Q
  indexOf : Q → List UInt8 → Option Nat × Q
  bytes : Q → List UInt8
  bytes_empty : bytes empty = []
  bytes_push (q : Q) (s : List UInt8) : bytes (push q s) = bytes q ++ s
  length_eq (q : Q) : length q = (bytes q).length
  consume_eq (q : Q) (n : Nat) :
    (consume q n).map bytes = if n ≤ (bytes q).length then some ((bytes q).drop n) else none
  slice_eq (q : Q) (start stop : Nat) :
    slice q start stop = if start ≤ stop ∧ stop ≤ (bytes q).length then
      some (((bytes q).drop start).take (stop - start)) else none
  byteAt_eq (q : Q) (pos : Nat) :
    (byteAt q pos).1 = (bytes q)[pos]? ∧ bytes (byteAt q pos).2 = bytes q
  startsWith_eq (q : Q) (s : List UInt8) (offset : Nat) :
    (startsWith q s offset).1 =
        (decide (s.length + offset ≤ (bytes q).length) && s.isPrefixOf ((bytes q).drop offset)) ∧
      bytes (startsWith q s offset).2 = bytes q
  indexOf_eq (q : Q) (s : List UInt8) :
    (indexOf q s).1 = Occurrence.first s (bytes q) ∧ bytes (indexOf q s).2 = bytes q

/-- The list of the bytes itself. -/
instance ByteQueue.ofList : ByteQueue (List UInt8) where
  empty := []
  push q s := q ++ s
  length q := q.length
  consume q n := if n ≤ q.length then some (q.drop n) else none
  slice q start stop := if start ≤ stop ∧ stop ≤ q.length then
    some ((q.drop start).take (stop - start)) else none
  byteAt q pos := (q[pos]?, q)
  startsWith q s offset :=
    (decide (s.length + offset ≤ q.length) && s.isPrefixOf (q.drop offset), q)
  indexOf q s := (Occurrence.first s q, q)
  bytes q := q
  bytes_empty := rfl
  bytes_push _ _ := rfl
  length_eq _ := rfl
  consume_eq q n := by
    split
    · rfl
    · rfl
  slice_eq _ _ _ := rfl
  byteAt_eq _ _ := ⟨rfl, rfl⟩
  startsWith_eq _ _ _ := ⟨rfl, rfl⟩
  indexOf_eq _ _ := ⟨rfl, rfl⟩

namespace ByteQueue

variable (s : List UInt8)

@[simp] theorem length_list : length s = s.length := rfl

@[simp] theorem push_list (t : List UInt8) : push s t = s ++ t := rfl

@[simp] theorem consume_list (n : Nat) :
    consume s n = if n ≤ s.length then some (s.drop n) else none := rfl

@[simp] theorem slice_list (start stop : Nat) :
    slice s start stop = if start ≤ stop ∧ stop ≤ s.length then
      some ((s.drop start).take (stop - start)) else none := rfl

@[simp] theorem byteAt_list (pos : Nat) : byteAt s pos = (s[pos]?, s) := rfl

@[simp] theorem startsWith_list (t : List UInt8) (offset : Nat) :
    startsWith s t offset =
      (decide (t.length + offset ≤ s.length) && t.isPrefixOf (s.drop offset), s) := rfl

@[simp] theorem indexOf_list (t : List UInt8) : indexOf s t = (Occurrence.first t s, s) := rfl

end ByteQueue
