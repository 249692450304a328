import Mathlib

/-!
# Base64

Byte strings as texts over 64 characters, three bytes to four of them, without padding. The
decoder ends at a padding character and skips whatever is not in the alphabet, and undoes the
encoder.
-/

namespace Base64

set_option autoImplicit false

/-- The URL-safe alphabet. -/
def alphabet : List Char :=
  "ABCDEFGHIJKLMNOPQRSTUVWXYZabcdefghijklmnopqrstuvwxyz0123456789-_".toList

def character (sextet : Nat) : Char := alphabet.getD sextet 'A'

/-- The value of a character, in either of the two alphabets in use. -/
def sextet (c : Char) : Option Nat :=
  if c = '+' then some 62
  else if c = '/' then some 63
  else if c ∈ alphabet then some (alphabet.idxOf c)
  else none

/-- The groups of six bits of a byte string, the last one filled up with zeros. -/
def sextets : List UInt8 → List Nat
  | [] => []
  | [a] => [a.toNat / 4, a.toNat % 4 * 16]
  | [a, b] => [a.toNat / 4, a.toNat % 4 * 16 + b.toNat / 16, b.toNat % 16 * 4]
  | a :: b :: c :: rest =>
    a.toNat / 4 :: (a.toNat % 4 * 16 + b.toNat / 16) :: (b.toNat % 16 * 4 + c.toNat / 64) ::
      c.toNat % 64 :: sextets rest

def bytes : List Nat → List UInt8
  | s :: t :: u :: v :: rest =>
    UInt8.ofNat (s * 4 + t / 16) :: UInt8.ofNat (t % 16 * 16 + u / 4) ::
      UInt8.ofNat (u % 4 * 64 + v) :: bytes rest
  | [s, t, u] => [UInt8.ofNat (s * 4 + t / 16), UInt8.ofNat (t % 16 * 16 + u / 4)]
  | [s, t] => [UInt8.ofNat (s * 4 + t / 16)]
  | _ => []

def encode (s : List UInt8) : List Char := (sextets s).map character

def decode (text : List Char) : List UInt8 :=
  bytes ((text.takeWhile (· ≠ '=')).filterMap sextet)

theorem sextets_lt (s : List UInt8) : ∀ n ∈ sextets s, n < 64 := by
  have hlt (a : UInt8) : a.toNat < 256 := a.toNat_lt
  induction s using sextets.induct with
  | case1 => simp [sextets]
  | case2 a =>
    have := hlt a
    simp only [sextets, List.mem_cons, List.not_mem_nil, or_false, forall_eq_or_imp, forall_eq]
    omega
  | case3 a b =>
    have ha := hlt a
    have hb := hlt b
    simp only [sextets, List.mem_cons, List.not_mem_nil, or_false, forall_eq_or_imp, forall_eq]
    omega
  | case4 a b c rest ih =>
    have ha := hlt a
    have hb := hlt b
    have hc := hlt c
    simp only [sextets, List.mem_cons, forall_eq_or_imp]
    refine ⟨by omega, by omega, by omega, by omega, ih⟩

theorem bytes_sextets (s : List UInt8) : bytes (sextets s) = s := by
  have hlt (a : UInt8) : a.toNat < 256 := a.toNat_lt
  have hbyte {a : UInt8} {n : Nat} (h : n = a.toNat) : UInt8.ofNat n = a := by
    rw [h, UInt8.ofNat_toNat]
  induction s using sextets.induct with
  | case1 => rfl
  | case2 a =>
    rw [sextets, bytes, hbyte (a := a) (by omega)]
  | case3 a b =>
    have hb := hlt b
    rw [sextets, bytes, hbyte (a := a) (by omega), hbyte (a := b) (by omega)]
  | case4 a b c rest ih =>
    have hb := hlt b
    have hc := hlt c
    rw [sextets, bytes, hbyte (a := a) (by omega), hbyte (a := b) (by omega),
      hbyte (a := c) (by omega), ih]

theorem character_spec : ∀ n < 64, character n ≠ '=' ∧ sextet (character n) = some n := by
  decide +kernel

/-- Decoding undoes encoding. -/
theorem decode_encode (s : List UInt8) : decode (encode s) = s := by
  have hchars : ∀ c ∈ encode s, (decide (c ≠ '=')) = true := by
    intro c hc
    obtain ⟨n, hn, rfl⟩ := List.mem_map.mp hc
    exact decide_eq_true (character_spec n (sextets_lt s n hn)).1
  have hsextets : ((encode s).filterMap sextet) = sextets s := by
    rw [encode, List.filterMap_map]
    have hall : ∀ n ∈ sextets s, (sextet ∘ character) n = some n := fun n hn =>
      (character_spec n (sextets_lt s n hn)).2
    rw [List.filterMap_congr hall, List.filterMap_some]
  rw [decode, List.takeWhile_eq_self_iff.mpr hchars, hsextets, bytes_sextets]

end Base64
