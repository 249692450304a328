import LoopbackOData.Js
import LoopbackOData.Library.Separated

/-!
# Requests

A request as the controllers see it: the path, and the query as the server's query parser left it.
`encodeURIComponent` and `URLSearchParams` are those of the JavaScript runtime.
-/

namespace LoopbackOData

open Separated

set_option autoImplicit false

structure HttpError where
  status : Nat
  message : String
  deriving DecidableEq, Repr

def badRequest {α : Type} (message : String) : Except HttpError α := .error ⟨400, message⟩

def internalServerError {α : Type} (message : String) : Except HttpError α :=
  .error ⟨500, message⟩

/-! ## Percent encoding -/

def utf8Bytes (s : Text) : List UInt8 := s.flatMap String.utf8EncodeChar

theorem utf8Bytes_injective {s s' : Text} (h : utf8Bytes s = utf8Bytes s') : s = s' := by
  apply String.ofList_injective
  rw [← String.toByteArray_inj, String.toByteArray_ofList, String.toByteArray_ofList]
  exact congrArg List.toByteArray h

/-- The text of bytes in UTF-8. Bytes that are none have no text: `decodeURIComponent`
rejects them, `Buffer.toString` makes replacement characters of them, which no signature of the
server covers. -/
def utf8Text (bytes : List UInt8) : Option Text :=
  bytes.toByteArray.utf8Decode?.map Array.toList

theorem utf8Text_utf8Bytes (s : Text) : utf8Text (utf8Bytes s) = some s := by
  have h : (utf8Bytes s).toByteArray = s.utf8Encode := rfl
  rw [utf8Text, h, List.utf8Decode?_utf8Encode]
  simp

/-- The characters `encodeURIComponent` leaves as they are. -/
def isUnreserved (c : Char) : Bool := c.isAlphanum || c ∈ "-_.!~*'()".toList

def hexDigit (n : Nat) : Char := "0123456789ABCDEF".toList.getD n '0'

def encodeByte (b : UInt8) : Text :=
  let c := Char.ofNat b.toNat
  if isUnreserved c then [c] else ['%', hexDigit (b.toNat / 16), hexDigit (b.toNat % 16)]

/-- Only a byte below 128 is an unreserved character, so each character is escaped as a whole. -/
def encodeURIComponent (s : Text) : Text := (utf8Bytes s).flatMap encodeByte

theorem forall_byte {P : UInt8 → Prop} (h : ∀ n < 256, P (UInt8.ofNat n)) (b : UInt8) : P b := by
  have hb := h b.toNat b.toNat_lt
  rwa [UInt8.ofNat_toNat] at hb

/-- The byte that a code stands for. -/
def decodeByte : Text → Nat
  | [c] => c.toNat
  | [_, high, low] =>
    "0123456789ABCDEF".toList.idxOf high * 16 + "0123456789ABCDEF".toList.idxOf low
  | _ => 0

theorem decodeByte_encodeByte (b : UInt8) : decodeByte (encodeByte b) = b.toNat := by
  have hall : ∀ n < 256, decodeByte (encodeByte (UInt8.ofNat n)) = n := by decide +kernel
  have hb := hall b.toNat b.toNat_lt
  rwa [UInt8.ofNat_toNat] at hb

theorem encodeByte_injective {b b' : UInt8} (h : encodeByte b = encodeByte b') : b = b' := by
  apply UInt8.toNat_inj.mp
  rw [← decodeByte_encodeByte b, h, decodeByte_encodeByte]

/-- The first character tells how long the code of a byte is. -/
theorem encodeByte_length (b : UInt8) :
    (encodeByte b).length = if (encodeByte b).head? = some '%' then 3 else 1 := by
  apply forall_byte _ b
  decide +kernel

theorem encodeByte_separators (b : UInt8) : '&' ∉ encodeByte b ∧ '=' ∉ encodeByte b := by
  apply forall_byte _ b
  decide +kernel

theorem encodeByte_ne_nil (b : UInt8) : encodeByte b ≠ [] := by
  have h := encodeByte_length b
  intro hnil
  simp [hnil] at h

theorem encodeByte_append_inj {b b' : UInt8} {s s' : Text}
    (h : encodeByte b ++ s = encodeByte b' ++ s') : b = b' ∧ s = s' := by
  have hhead : (encodeByte b).head? = (encodeByte b').head? := by
    have := congrArg List.head? h
    rwa [List.head?_append_of_ne_nil _ (encodeByte_ne_nil b),
      List.head?_append_of_ne_nil _ (encodeByte_ne_nil b')] at this
  have hlength : (encodeByte b).length = (encodeByte b').length := by
    rw [encodeByte_length, encodeByte_length, hhead]
  obtain ⟨hcode, hrest⟩ := List.append_inj h hlength
  exact ⟨encodeByte_injective hcode, hrest⟩

theorem encodeURIComponent_injective {s s' : Text}
    (h : encodeURIComponent s = encodeURIComponent s') : s = s' := by
  have hbytes : ∀ bytes bytes' : List UInt8,
      bytes.flatMap encodeByte = bytes'.flatMap encodeByte → bytes = bytes' := by
    intro bytes
    induction bytes with
    | nil =>
      intro bytes' h
      cases bytes' with
      | nil => rfl
      | cons b bytes' => simp [encodeByte_ne_nil] at h
    | cons b bytes ih =>
      intro bytes' h
      cases bytes' with
      | nil => simp [encodeByte_ne_nil] at h
      | cons b' bytes' =>
        rw [List.flatMap_cons, List.flatMap_cons] at h
        obtain ⟨hb, hrest⟩ := encodeByte_append_inj h
        rw [hb, ih bytes' hrest]
  exact utf8Bytes_injective (hbytes _ _ h)

theorem encodeURIComponent_separators (s : Text) :
    '&' ∉ encodeURIComponent s ∧ '=' ∉ encodeURIComponent s := by
  simp only [encodeURIComponent, List.mem_flatMap, not_exists, not_and]
  exact ⟨fun b _ => (encodeByte_separators b).1, fun b _ => (encodeByte_separators b).2⟩

def hexValue (c : Char) : Option Nat :=
  if '0' ≤ c && c ≤ '9' then some (c.toNat - '0'.toNat)
  else if 'A' ≤ c && c ≤ 'F' then some (c.toNat - 'A'.toNat + 10)
  else if 'a' ≤ c && c ≤ 'f' then some (c.toNat - 'a'.toNat + 10)
  else none

/-- The bytes that a percent-encoded text stands for. -/
def percentBytes : Text → Option (List UInt8)
  | [] => some []
  | '%' :: high :: low :: s => do
    let high ← hexValue high
    let low ← hexValue low
    return UInt8.ofNat (16 * high + low) :: (← percentBytes s)
  | '%' :: _ => none
  | c :: s => (percentBytes s).map (String.utf8EncodeChar c ++ ·)

/-- `decodeURIComponent`, none where it throws: the bytes of a character that is not encoded begin
with none that could go on with the bytes before it. -/
def decodeURIComponent (s : Text) : Option Text := (percentBytes s).bind utf8Text

theorem percentBytes_encodeByte (b : UInt8) (s : Text) :
    percentBytes (encodeByte b ++ s) = (percentBytes s).map (b :: ·) := by
  have hplain : isUnreserved (Char.ofNat b.toNat) = true → Char.ofNat b.toNat ≠ '%' ∧
      String.utf8EncodeChar (Char.ofNat b.toNat) = [b] := by
    apply forall_byte _ b
    decide +kernel
  have hcode : ∃ high low, hexValue (hexDigit (b.toNat / 16)) = some high ∧
      hexValue (hexDigit (b.toNat % 16)) = some low ∧ UInt8.ofNat (16 * high + low) = b := by
    refine ⟨b.toNat / 16, b.toNat % 16, ?_⟩
    apply forall_byte _ b
    decide +kernel
  unfold encodeByte
  dsimp only
  split
  · next hc =>
    obtain ⟨hne, hbytes⟩ := hplain hc
    rw [List.singleton_append, percentBytes, hbytes]
    · rfl
    · exact fun _ _ _ h _ => hne h
    · exact fun h => hne h
  · obtain ⟨high, low, hhigh, hlow, hb⟩ := hcode
    rw [List.cons_append, List.cons_append, List.cons_append, List.nil_append, percentBytes,
      hhigh, hlow]
    cases percentBytes s with
    | none => rfl
    | some bytes =>
      rw [← hb]
      rfl

theorem decodeURIComponent_encodeURIComponent (s : Text) :
    decodeURIComponent (encodeURIComponent s) = some s := by
  have hbytes (bytes : List UInt8) : percentBytes (bytes.flatMap encodeByte) = some bytes := by
    induction bytes with
    | nil => rfl
    | cons b bytes ih => rw [List.flatMap_cons, percentBytes_encodeByte, ih, Option.map_some]
  rw [decodeURIComponent, encodeURIComponent, hbytes, Option.bind_some, utf8Text_utf8Bytes]

/-! ## Queries -/

/-- The value of a query parameter: a text, the list of a repeated parameter, or an object (from
brackets in the key). -/
inductive QueryValue where
  | text (s : Text)
  | list (entries : List QueryValue)
  | object (fields : List (Text × QueryValue))

/-- `String(value)`. -/
def QueryValue.toText : QueryValue → Text
  | .text s => s
  | .list entries => [','].intercalate (entries.attach.map fun ⟨entry, _⟩ => entry.toText)
  | .object _ => "[object Object]".toList

theorem lookup_eq_some_iff {β : Type} {entries : List (Text × β)} {key : Text} {value : β}
    (hdistinct : (entries.map Prod.fst).Nodup) :
    entries.lookup key = some value ↔ (key, value) ∈ entries := by
  induction entries with
  | nil => simp
  | cons entry entries ih =>
    obtain ⟨key', value'⟩ := entry
    rw [List.map_cons, List.nodup_cons] at hdistinct
    by_cases hkey : key = key'
    · subst hkey
      have hnot (value : β) : (key, value) ∉ entries := fun hmem =>
        hdistinct.1 (List.mem_map.mpr ⟨_, hmem, rfl⟩)
      simp [hnot, eq_comm]
    · have hlookup : ((key', value') :: entries).lookup key = entries.lookup key := by
        rw [List.lookup_cons, beq_eq_false_iff_ne.mpr hkey]
      rw [hlookup]
      refine (ih hdistinct.2).trans ?_
      simp [hkey]

/-- `request.query`: the parameters by their names, in the order of `Object.entries`. -/
structure Query where
  entries : List (Text × QueryValue)
  distinct : (entries.map Prod.fst).Nodup

namespace Query

def get (query : Query) (key : Text) : Option QueryValue := query.entries.lookup key

/-- `singleQueryValue`. -/
def single (query : Query) (key : Text) : Except HttpError (Option Text) :=
  match query.get key with
  | some (.list _) =>
    badRequest ("Duplicate query option is not allowed: " ++ String.ofList key)
  | some (.text s) => .ok (some s)
  | _ => .ok none

theorem get_eq_some {query : Query} {key : Text} {value : QueryValue} :
    query.get key = some value ↔ (key, value) ∈ query.entries :=
  lookup_eq_some_iff query.distinct

theorem get_eq_none {query : Query} {key : Text} :
    query.get key = none ↔ key ∉ query.entries.map Prod.fst := by
  rw [get, List.lookup_eq_none_iff]
  constructor
  · intro h hmem
    obtain ⟨entry, hentry, rfl⟩ := List.mem_map.mp hmem
    simpa using h entry hentry
  · intro h entry hentry
    rw [bne_iff_ne]
    rintro rfl
    exact h (List.mem_map_of_mem hentry)

end Query

/-- The value of a parameter that occurs once or more often. -/
def gather : List Text → QueryValue
  | [value] => .text value
  | values => .list (values.map .text)

def valuesOf (key : Text) (pairs : List (Text × Text)) : List Text :=
  (pairs.filter (·.1 = key)).map Prod.snd

def withoutKey (key : Text) (pairs : List (Text × Text)) : List (Text × Text) :=
  pairs.filter (·.1 ≠ key)

/-- The parameters of a query string by their names: a name that is repeated gets the list of its
values. -/
def groupPairs : List (Text × Text) → List (Text × QueryValue)
  | [] => []
  | (key, value) :: rest =>
    (key, gather (value :: valuesOf key rest)) :: groupPairs (withoutKey key rest)
termination_by pairs => pairs.length
decreasing_by
  simp only [List.length_cons]
  exact Nat.lt_succ_of_le (List.length_filter_le _ _)

theorem mem_keys_groupPairs {pairs : List (Text × Text)} {key : Text}
    (h : key ∈ (groupPairs pairs).map Prod.fst) : key ∈ pairs.map Prod.fst := by
  induction pairs using groupPairs.induct with
  | case1 => simp [groupPairs] at h
  | case2 key' value rest ih =>
    rw [groupPairs, List.map_cons, List.mem_cons] at h
    rcases h with rfl | h
    · exact List.mem_cons_self
    · have := ih h
      rw [List.mem_map] at this
      obtain ⟨p, hp, hkey⟩ := this
      rw [List.map_cons, List.mem_cons, List.mem_map]
      exact .inr ⟨p, (List.mem_filter.mp hp).1, hkey⟩

theorem nodup_groupPairs (pairs : List (Text × Text)) :
    ((groupPairs pairs).map Prod.fst).Nodup := by
  induction pairs using groupPairs.induct with
  | case1 => simp [groupPairs]
  | case2 key value rest ih =>
    rw [groupPairs, List.map_cons, List.nodup_cons]
    refine ⟨?_, ih⟩
    intro h
    obtain ⟨p, hp, hkey⟩ := List.mem_map.mp (mem_keys_groupPairs h)
    have := (List.mem_filter.mp hp).2
    simp [hkey] at this

/-- What the query parser makes of a query string with these parameters. -/
def Query.ofPairs (pairs : List (Text × Text)) : Query := ⟨groupPairs pairs, nodup_groupPairs pairs⟩

/-- Parameters whose values stand next to each other are grouped as they stand. -/
theorem groupPairs_blocks {blocks : List (Text × List Text)}
    (hdistinct : (blocks.map Prod.fst).Nodup) (hne : ∀ block ∈ blocks, block.2 ≠ []) :
    groupPairs (blocks.flatMap fun block => block.2.map (block.1, ·)) =
      blocks.map fun block => (block.1, gather block.2) := by
  induction blocks with
  | nil => simp [groupPairs]
  | cons block blocks ih =>
    obtain ⟨key, values⟩ := block
    rw [List.map_cons, List.nodup_cons] at hdistinct
    have hvalues : values ≠ [] := hne _ List.mem_cons_self
    obtain ⟨value, values, rfl⟩ := List.exists_cons_of_ne_nil hvalues
    have hother : ∀ p ∈ blocks.flatMap (fun block => block.2.map (block.1, ·)), p.1 ≠ key := by
      intro p hp heq
      obtain ⟨block, hblock, hp⟩ := List.mem_flatMap.mp hp
      obtain ⟨v, _, rfl⟩ := List.mem_map.mp hp
      exact hdistinct.1 (List.mem_map.mpr ⟨block, hblock, heq⟩)
    have hsame : ∀ p ∈ values.map (key, ·), p.1 = key := by
      intro p hp
      obtain ⟨v, _, rfl⟩ := List.mem_map.mp hp
      rfl
    have hvaluesOf : valuesOf key (values.map (key, ·) ++
        blocks.flatMap fun block => block.2.map (block.1, ·)) = values := by
      rw [valuesOf, List.filter_append,
        List.filter_eq_self.mpr fun p hp => decide_eq_true (hsame p hp),
        List.filter_eq_nil_iff.mpr fun p hp => by simpa using hother p hp]
      simp [Function.comp_def]
    have hwithoutKey : withoutKey key (values.map (key, ·) ++
        blocks.flatMap fun block => block.2.map (block.1, ·)) =
        blocks.flatMap fun block => block.2.map (block.1, ·) := by
      rw [withoutKey, List.filter_append,
        List.filter_eq_nil_iff.mpr fun p hp => by simpa using hsame p hp,
        List.filter_eq_self.mpr fun p hp => decide_eq_true (hother p hp), List.nil_append]
    rw [List.flatMap_cons, List.map_cons, List.map_cons, List.cons_append, groupPairs,
      hvaluesOf, hwithoutKey,
      ih hdistinct.2 fun block hblock => hne block (List.mem_cons_of_mem _ hblock)]

/-! ## `URLSearchParams` -/

/-- The parameters of a link, in order. -/
abbrev SearchParams := List (Text × Text)

namespace SearchParams

def append (params : SearchParams) (key value : Text) : SearchParams := params ++ [(key, value)]

/-- The first parameter of the name gets the value, the others are removed. -/
def set : SearchParams → Text → Text → SearchParams
  | [], key, value => [(key, value)]
  | (key', value') :: rest, key, value =>
    if key' = key then (key, value) :: rest.filter (·.1 ≠ key)
    else (key', value') :: set rest key value

theorem set_absent {params : SearchParams} {key : Text} (value : Text)
    (h : key ∉ params.map Prod.fst) : params.set key value = params ++ [(key, value)] := by
  induction params with
  | nil => rfl
  | cons p params ih =>
    rw [List.map_cons, List.mem_cons, not_or] at h
    rw [set, if_neg (Ne.symm h.1), ih h.2, List.cons_append]

end SearchParams

/-- A request for a collection: the URL path as the client sent it, and the query. -/
structure Request where
  path : Text
  query : Query

end LoopbackOData
