import Mathlib

/-!
# Texts of bytes

Decoding UTF-8 with a replacement character for what is malformed. A replacement character stands
for the longest beginning of a well-formed sequence, or for one byte where there is none.
-/

set_option autoImplicit false

namespace Utf8

def isContinuation (b : UInt8) : Bool := 0x80 ≤ b && b ≤ 0xBF

/-- The bounds of the byte that may follow a lead byte, and how many bytes may follow that. -/
def afterLead (lead : UInt8) : Option (UInt8 × UInt8 × Nat) :=
  if 0xC2 ≤ lead && lead ≤ 0xDF then some (0x80, 0xBF, 0)
  else if lead == 0xE0 then some (0xA0, 0xBF, 1)
  else if lead == 0xED then some (0x80, 0x9F, 1)
  else if 0xE1 ≤ lead && lead ≤ 0xEF then some (0x80, 0xBF, 1)
  else if lead == 0xF0 then some (0x90, 0xBF, 2)
  else if 0xF1 ≤ lead && lead ≤ 0xF3 then some (0x80, 0xBF, 2)
  else if lead == 0xF4 then some (0x80, 0x8F, 2)
  else none

/-- How many bytes one replacement character stands for. -/
def malformed : List UInt8 → Nat
  | [] => 1
  | [_] => 1
  | lead :: second :: rest =>
    match afterLead lead with
    | none => 1
    | some (lower, upper, more) =>
      if lower ≤ second && second ≤ upper then
        2 + ((rest.take more).takeWhile isContinuation).length
      else 1

def decodeWithin : Nat → List UInt8 → List Char
  | 0, _ => []
  | _ + 1, [] => []
  | n + 1, b :: bytes =>
    match (b :: bytes).toByteArray.utf8DecodeChar? 0 with
    | some c => c :: decodeWithin n ((b :: bytes).drop c.utf8Size)
    | none => '\uFFFD' :: decodeWithin n ((b :: bytes).drop (malformed (b :: bytes)))

def decode (bytes : List UInt8) : List Char := decodeWithin bytes.length bytes

theorem malformed_pos (bytes : List UInt8) : 0 < malformed bytes := by
  unfold malformed
  split
  · exact Nat.one_pos
  · exact Nat.one_pos
  · split
    · exact Nat.one_pos
    · split <;> omega

theorem decodeWithin_of_le {n : Nat} {bytes : List UInt8} (h : bytes.length ≤ n) :
    decodeWithin n bytes = decode bytes := by
  suffices hall : ∀ m n, ∀ bytes : List UInt8, bytes.length ≤ m → bytes.length ≤ n →
      decodeWithin m bytes = decodeWithin n bytes from hall n _ bytes h (le_refl _)
  intro m
  induction m with
  | zero =>
    intro n bytes hm _
    rw [List.eq_nil_of_length_eq_zero (Nat.le_zero.mp hm)]
    cases n <;> rfl
  | succ m ih =>
    intro n bytes hm hn
    cases bytes with
    | nil => cases n <;> rfl
    | cons b bytes =>
      rw [List.length_cons] at hm hn
      obtain ⟨n, rfl⟩ := Nat.exists_eq_succ_of_ne_zero (by omega : n ≠ 0)
      have hdrop (k : Nat) (hk : 0 < k) :
          decodeWithin m ((b :: bytes).drop k) = decodeWithin n ((b :: bytes).drop k) := by
        apply ih <;> rw [List.length_drop, List.length_cons] <;> omega
      rw [decodeWithin, decodeWithin]
      split
      · next c _ => rw [hdrop _ c.utf8Size_pos]
      · rw [hdrop _ (malformed_pos _)]

theorem decode_encodeChar_append (c : Char) (bytes : List UInt8) :
    decode (String.utf8EncodeChar c ++ bytes) = c :: decode bytes := by
  have hne : String.utf8EncodeChar c ≠ [] := by
    intro hnil
    have hlength := String.length_utf8EncodeChar c
    rw [hnil, List.length_nil] at hlength
    exact absurd hlength (Nat.ne_of_lt c.utf8Size_pos)
  obtain ⟨b, rest, hbytes⟩ := List.exists_cons_of_ne_nil hne
  have hdecode : (b :: (rest ++ bytes)).toByteArray.utf8DecodeChar? 0 = some c := by
    rw [← List.cons_append, ← hbytes, List.toByteArray_append]
    exact ByteArray.utf8DecodeChar?_utf8EncodeChar_append
  have hdrop : (b :: (rest ++ bytes)).drop c.utf8Size = bytes := by
    rw [← List.cons_append, ← hbytes, ← String.length_utf8EncodeChar c, List.drop_left]
  rw [hbytes, List.cons_append, decode, List.length_cons, decodeWithin, hdecode]
  dsimp only
  rw [hdrop, decodeWithin_of_le (by rw [List.length_append]; omega)]

/-- What follows an encoded text is decoded by itself. -/
theorem decode_encode_append (s : List Char) (bytes : List UInt8) :
    decode (s.flatMap String.utf8EncodeChar ++ bytes) = s ++ decode bytes := by
  induction s with
  | nil => rfl
  | cons c s ih =>
    rw [List.flatMap_cons, List.append_assoc, decode_encodeChar_append, ih, List.cons_append]

theorem decode_encode (s : List Char) : decode (s.flatMap String.utf8EncodeChar) = s := by
  have h := decode_encode_append s []
  rw [List.append_nil] at h
  rw [h]
  exact List.append_nil s

end Utf8
