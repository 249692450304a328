import LoopbackOData.Filter.Spelling
import LoopbackOData.Paging.DeltaToken

/-!
# Delta tokens, there and back

What a payload has to hold for a delta token of it to be decoded to the same payload. The values of
the keys are written one by one, those of the buckets are walked through.
-/

namespace LoopbackOData

open Outcome RowValue

set_option autoImplicit false

/-! ## Bigints -/

/-- A bigint is read back from its digits. -/
theorem readBigInt_ofInt (i : Int) : readBigInt (Json.Number.ofInt i).text = some i := by
  have hall := Json.all_isDigit_digits i.natAbs
  have hne := Json.digits_ne_nil i.natAbs
  have hdigit : ∀ c ∈ Json.digits i.natAbs, isNumberChar c = true ∧ c ≠ '-' ∧ c ≠ '+' := by
    intro c hc
    have hc' := List.all_eq_true.mp hall c hc
    refine ⟨?_, ?_, ?_⟩
    · have hdigit : isDigit c = true := hc'
      simp [isNumberChar, hdigit]
    · rintro rfl
      exact absurd hc' (by decide)
    · rintro rfl
      exact absurd hc' (by decide)
  have hsigned : ∀ s ∈ [['-'], ['+']], startsWith (Json.digits i.natAbs) s = false := by
    obtain ⟨c, rest, heq⟩ := List.exists_cons_of_ne_nil hne
    obtain ⟨-, hminus, hplus⟩ := hdigit c (heq ▸ List.mem_cons_self)
    simp [heq, startsWith, List.isPrefixOf, Ne.symm hminus, Ne.symm hplus]
  have htrim : trimText (Json.Number.ofInt i).text = (Json.Number.ofInt i).text := by
    refine trimText_eq fun c hc => isSpace_false_of_isNumberChar ?_
    rw [Json.Number.ofInt, List.mem_append] at hc
    rcases hc with hc | hc
    · split at hc
      · rw [List.mem_singleton.mp hc]
        decide
      · cases hc
    · exact (hdigit c hc).1
  rw [readBigInt, htrim]
  by_cases hi : i < 0
  · have htext : (Json.Number.ofInt i).text = '-' :: Json.digits i.natAbs := by
      simp [Json.Number.ofInt, hi]
    have hminus : startsWith ('-' :: Json.digits i.natAbs) ['-'] = true := by
      simp [startsWith, List.isPrefixOf]
    have habs : -(i.natAbs : Int) = i := by omega
    rw [htext]
    rw [hminus, Bool.true_or, if_pos rfl, if_neg (List.cons_ne_nil _ _), List.drop_one,
      List.tail_cons, if_pos ⟨hne, hall⟩, if_pos rfl, digitsValue_digits, habs]
  · have htext : (Json.Number.ofInt i).text = Json.digits i.natAbs := by
      simp [Json.Number.ofInt, hi]
    have habs : (i.natAbs : Int) = i := by omega
    rw [htext]
    rw [hsigned _ (by simp), hsigned _ (by simp), Bool.or_false, if_neg Bool.false_ne_true,
      if_neg hne, if_pos ⟨hne, hall⟩, if_neg Bool.false_ne_true, digitsValue_digits, habs]

/-! ## Lists -/

/-- A list is left as it is by a filter and a map exactly if each of its entries is. -/
theorem map_filter_eq_self_iff {α : Type} {p : α → Bool} {f : α → α} {l : List α} :
    (l.filter p).map f = l ↔ ∀ a ∈ l, p a = true ∧ f a = a := by
  constructor
  · intro h
    have hlength : (l.filter p).length = l.length := by
      rw [← List.length_map f, h]
    have hall : l.filter p = l := List.filter_eq_self.mpr
      (List.length_filter_eq_length_iff.mp hlength)
    rw [hall] at h
    intro a ha
    refine ⟨List.filter_eq_self.mp hall a ha, ?_⟩
    exact List.map_inj_left.mp (h.trans (List.map_id l).symm) a ha
  · intro h
    rw [List.filter_eq_self.mpr fun a ha => (h a ha).1]
    exact (List.map_inj_left.mpr fun a ha => (h a ha).2).trans (List.map_id l)

/-! ## Values -/

/-- A value of a key: no array and no object. -/
def RowValue.IsFlat : RowValue → Prop
  | .undefined => False
  | .array _ => False
  | .record _ => False
  | _ => True

/-- A value in a bucket. -/
inductive RowValue.IsStructured : RowValue → Prop where
  | flat {value : RowValue} (h : value.IsFlat) : IsStructured value
  | array {items : List RowValue} (h : ∀ item ∈ items, IsStructured item) :
    IsStructured (.array items)
  | record {fields : Record} (h : ∀ field ∈ fields, IsStructured field.2) :
    IsStructured (.record fields)

/-- No date is in the value, and no field named `__proto__`. -/
inductive RowValue.Lasts : RowValue → Prop where
  | flat {value : RowValue} (h : value.IsFlat) (hdate : value.isDate = false) : Lasts value
  | array {items : List RowValue} (h : ∀ item ∈ items, Lasts item) : Lasts (.array items)
  | record {fields : Record} (hnames : ∀ field ∈ fields, field.1 ≠ prototypeKey)
    (h : ∀ field ∈ fields, Lasts field.2) : Lasts (.record fields)

section Values

variable {value : RowValue} {fields : Record}

theorem decodeStoredValue_encodeValue (h : value.IsFlat) :
    decodeStoredValue (encodeValue value) = value := by
  cases value with
  | null => rfl
  | bool b => cases b <;> rfl
  | number n => exact numberOfLiteral_text n
  | bigint i =>
    have hread : decodeStoredValue (encodeValue (.bigint i)) =
        ((readBigInt (Json.Number.ofInt i).text).map .bigint).getD
          (.string (Json.Number.ofInt i).text) := rfl
    rw [hread, readBigInt_ofInt]
    rfl
  | string s => rfl
  | date iso => rfl
  | undefined | array | record => exact absurd h id

theorem storedValue_flat (h : value.IsFlat) :
    storedValue value = if value.isDate then .record [] else value := by
  cases value with
  | bigint i =>
    change decodeStoredValue (encodeValue (.bigint i)) = .bigint i
    exact decodeStoredValue_encodeValue h
  | undefined | array | record => exact absurd h id
  | null | bool | number | string | date => exact storedValue_scalar trivial

theorem encodeStructuredValue_isStructured (h : value.IsStructured) :
    encodeStructuredValue value = some ((encodeStructuredValue value).getD .null) := by
  cases h with
  | flat h =>
    cases value with
    | undefined | array | record => exact absurd h id
    | null | bool | number | bigint | string | date => rfl
  | array => rfl
  | record => rfl

theorem storedValue_array {items : List RowValue} (h : ∀ item ∈ items, item.IsStructured) :
    storedValue (.array items) = .array (items.map storedValue) := by
  have hitems : decodeStructuredItems (encodeStructuredItems items) = items.map storedValue := by
    induction items with
    | nil => rfl
    | cons item items ih =>
      obtain ⟨hitem, hitems⟩ := List.forall_mem_cons.mp h
      rw [encodeStructuredItems, decodeStructuredItems, ih hitems, List.map_cons, storedValue,
        encodeStructuredValue_isStructured hitem]
      rfl
  rw [← hitems]
  rfl

theorem storedFields_eq (h : ∀ field ∈ fields, field.2.IsStructured) :
    storedFields fields =
      (fields.filter fun field => decide (field.1 ≠ prototypeKey)).map
        fun field => (field.1, storedValue field.2) := by
  induction fields with
  | nil => rfl
  | cons field fields ih =>
    obtain ⟨name, value⟩ := field
    obtain ⟨hvalue, hfields⟩ := List.forall_mem_cons.mp h
    rw [storedFields_cons, ih hfields]
    by_cases hname : name = prototypeKey
    · rw [if_pos hname, List.filter_cons_of_neg (by simpa using hname)]
    · rw [if_neg hname, List.filter_cons_of_pos (by simpa using hname), List.map_cons,
        storedValue, encodeStructuredValue_isStructured hvalue]

theorem storedValue_record : storedValue (.record fields) = .record (storedFields fields) := by
  have hencode : encodeStructuredValue (.record fields) =
      some (.obj (encodeStructuredFields fields)) := rfl
  rw [storedValue, hencode]
  dsimp only
  rw [decodeStructuredValue, encodedKind_encodeStructuredFields]
  rfl

/-- A value of a bucket is read back exactly if no part of it is lost. -/
theorem storedValue_eq_self_iff (h : value.IsStructured) :
    storedValue value = value ↔ value.Lasts := by
  induction h with
  | flat h =>
    rw [storedValue_flat h]
    cases hdate : RowValue.isDate _ with
    | false => exact iff_of_true rfl (.flat h hdate)
    | true =>
      refine iff_of_false ?_ ?_
      · intro heq
        rw [if_pos rfl] at heq
        rw [← heq] at hdate
        cases hdate
      · intro hlasts
        cases hlasts with
        | flat _ hnot => rw [hdate] at hnot; cases hnot
        | array => cases hdate
        | record => cases hdate
  | array hitems ih =>
    rw [storedValue_array hitems, RowValue.array.injEq]
    constructor
    · intro heq
      have hall := List.map_inj_left.mp (heq.trans (List.map_id _).symm)
      exact .array fun item hitem => (ih item hitem).mp (hall item hitem)
    · intro hlasts
      cases hlasts with
      | flat h => exact absurd h id
      | array hitems' =>
        refine (List.map_inj_left.mpr fun item hitem => ?_).trans (List.map_id _)
        exact (ih item hitem).mpr (hitems' item hitem)
  | record hfields ih =>
    rw [storedValue_record, RowValue.record.injEq, storedFields_eq hfields,
      map_filter_eq_self_iff]
    constructor
    · intro hall
      refine .record (fun field hfield => of_decide_eq_true (hall field hfield).1) ?_
      exact fun field hfield => (ih field hfield).mp (congrArg Prod.snd (hall field hfield).2)
    · intro hlasts
      cases hlasts with
      | flat h => exact absurd h id
      | record hnames hfields' =>
        refine fun field hfield => ⟨decide_eq_true (hnames field hfield), ?_⟩
        rw [(ih field hfield).mpr (hfields' field hfield)]

end Values

/-! ## Payloads -/

/-- The values that a payload may hold. -/
structure IsPayload (payload : DeltaTokenPayload) : Prop where
  keyValues : ∀ fields ∈ payload.keyValues, ∀ field ∈ fields, field.2.IsFlat
  pageKeys : ∀ entries ∈ payload.pageKeys, ∀ fields ∈ entries, ∀ field ∈ fields, field.2.IsFlat
  buckets : ∀ buckets ∈ payload.buckets, ∀ entry ∈ buckets,
    (RowValue.record entry.key).IsStructured ∧
      ∀ data ∈ entry.data, (RowValue.record data).IsStructured

/-- The parts of a payload that are compared; empty lists of pages and buckets are not. -/
structure Returns (payload decoded : DeltaTokenPayload) : Prop where
  entitySet : decoded.entitySet = payload.entitySet
  lastValue : decoded.lastValue = payload.lastValue
  keyValues : decoded.keyValues = payload.keyValues
  pageKeys : ∀ entries ∈ payload.pageKeys, entries ≠ [] → decoded.pageKeys = some entries
  buckets : ∀ buckets ∈ payload.buckets, buckets ≠ [] → decoded.buckets = some buckets

/-- A record of key values has a field, and none named `__proto__`. -/
def KeepsKey (fields : Record) : Prop := fields ≠ [] ∧ ∀ field ∈ fields, field.1 ≠ prototypeKey

/-- Nothing of the payload is lost. -/
structure PayloadLasts (payload : DeltaTokenPayload) : Prop where
  keyValues : ∀ fields ∈ payload.keyValues, KeepsKey fields
  pageKeys : ∀ entries ∈ payload.pageKeys, ∀ fields ∈ entries, KeepsKey fields
  buckets : ∀ buckets ∈ payload.buckets, ∀ entry ∈ buckets,
    (RowValue.record entry.key).Lasts ∧ ∀ data ∈ entry.data, (RowValue.record data).Lasts

section Payloads

variable {payload : DeltaTokenPayload}

theorem assignedFields_map {α β : Type} (f : α → β) (fields : List (Text × α)) :
    assignedFields (fields.map fun field => (field.1, f field.2)) =
      (assignedFields fields).map fun field => (field.1, f field.2) := List.filter_map

theorem assignedFields_eq_self_iff {fields : Record} :
    assignedFields fields = fields ↔ ∀ field ∈ fields, field.1 ≠ prototypeKey := by
  simp [assignedFields, List.filter_eq_self]

theorem storedKey_eq {fields : Record} (h : ∀ field ∈ fields, field.2.IsFlat) :
    (encodeKeyValues (some fields)).bind decodeKeyValuesObject =
      if fields = [] then none else some (assignedFields fields) := by
  have hkept : assignedFields ((encodeFieldValues fields).map fun field =>
      (field.1, decodeStoredValue field.2)) = assignedFields fields := by
    have hassigned : assignedFields (assignedFields fields) = assignedFields fields :=
      assignedFields_eq_self_iff.mpr fun field hfield =>
        of_decide_eq_true (List.mem_filter.mp hfield).2
    rw [encodeFieldValues, assignedFields_map, assignedFields_map, assignedFields_map, hassigned,
      List.map_map]
    refine (List.map_inj_left.mpr fun field hfield => ?_).trans (List.map_id _)
    have hvalue := decodeStoredValue_encodeValue (h field (List.mem_filter.mp hfield).1)
    exact congrArg (field.1, ·) hvalue
  cases fields with
  | nil => rfl
  | cons field fields =>
    rw [if_neg (List.cons_ne_nil _ _), ← hkept]
    rfl

theorem storedKeyValues_eq_iff {keyValues : Option Record}
    (h : ∀ fields ∈ keyValues, ∀ field ∈ fields, field.2.IsFlat) :
    (encodeKeyValues keyValues).bind decodeKeyValuesObject = keyValues ↔
      ∀ fields ∈ keyValues, KeepsKey fields := by
  cases keyValues with
  | none => exact iff_of_true rfl nofun
  | some fields =>
    have hforall : (∀ fields' ∈ some fields, KeepsKey fields') ↔ KeepsKey fields := by simp
    rw [storedKey_eq (h fields rfl), hforall]
    by_cases hne : fields = []
    · rw [if_pos hne]
      exact iff_of_false nofun fun hkeeps => hkeeps.1 hne
    · rw [if_neg hne, Option.some.injEq, assignedFields_eq_self_iff]
      exact ⟨fun hnames => ⟨hne, hnames⟩, And.right⟩

theorem storedPageKeys_eq {entries : List Record}
    (h : ∀ fields ∈ entries, ∀ field ∈ fields, field.2.IsFlat) :
    entries.filterMap (fun fields => (encodeKeyValues (some fields)).bind decodeKeyValuesObject) =
      (entries.filter fun fields => decide (fields ≠ [])).map assignedFields := by
  induction entries with
  | nil => rfl
  | cons fields entries ih =>
    obtain ⟨hfields, hentries⟩ := List.forall_mem_cons.mp h
    rw [List.filterMap_cons, storedKey_eq hfields, ih hentries]
    by_cases hne : fields = []
    · rw [if_pos hne, List.filter_cons_of_neg (by simpa using hne)]
    · rw [if_neg hne, List.filter_cons_of_pos (by simpa using hne), List.map_cons]

theorem storedPageKeys_eq_iff {entries : List Record} (hne : entries ≠ [])
    (h : ∀ fields ∈ entries, ∀ field ∈ fields, field.2.IsFlat) :
    decodeKeyValuesArray (encodeKeyValuesArray (some entries)) = some entries ↔
      ∀ fields ∈ entries, KeepsKey fields := by
  have hstored := storedPageKeys_eq h
  rw [← List.filterMap_filterMap] at hstored
  have hdecode : decodeKeyValuesArray (encodeKeyValuesArray (some entries)) = some entries ↔
      (entries.filter fun fields => decide (fields ≠ [])).map assignedFields = entries := by
    rw [← hstored, encodeKeyValuesArray, Option.getD_some]
    cases entries.filterMap fun entry => encodeKeyValues (some entry) with
    | nil => exact iff_of_false nofun hne.symm
    | cons encoded rest =>
      dsimp only
      rw [decodeKeyValuesArray]
      cases (encoded :: rest).filterMap decodeKeyValuesObject with
      | nil => exact iff_of_false nofun hne.symm
      | cons => rw [Option.some.injEq]
  rw [hdecode, map_filter_eq_self_iff]
  refine forall₂_congr fun fields _ => ?_
  rw [decide_eq_true_eq, assignedFields_eq_self_iff]
  rfl

theorem storedBucket_eq_self_iff {entry : DeltaTokenBucketState}
    (h : (RowValue.record entry.key).IsStructured ∧
      ∀ data ∈ entry.data, (RowValue.record data).IsStructured) :
    storedBucket entry = entry ↔
      (RowValue.record entry.key).Lasts ∧ ∀ data ∈ entry.data, (RowValue.record data).Lasts := by
  obtain ⟨key, data⟩ := entry
  have hfields : ∀ fields : Record, (RowValue.record fields).IsStructured →
      (storedFields fields = fields ↔ (RowValue.record fields).Lasts) := by
    intro fields hstructured
    rw [← storedValue_eq_self_iff hstructured, storedValue_record, RowValue.record.injEq]
  rw [storedBucket, DeltaTokenBucketState.mk.injEq, hfields key h.1]
  cases data with
  | none => simp
  | some data =>
    rw [Option.map_some, Option.some.injEq, hfields data (h.2 data rfl)]
    simp

theorem storedBuckets_eq_iff {buckets : List DeltaTokenBucketState} (hne : buckets ≠ [])
    (h : ∀ entry ∈ buckets, (RowValue.record entry.key).IsStructured ∧
      ∀ data ∈ entry.data, (RowValue.record data).IsStructured) :
    normalizeBucketStates (some (.arr (buckets.map encodeBucketState))) = some buckets ↔
      ∀ entry ∈ buckets, (RowValue.record entry.key).Lasts ∧
        ∀ data ∈ entry.data, (RowValue.record data).Lasts := by
  have hstored := normalizeBucketStates_encode buckets
  have hread : normalizeBucketStates (some (.arr (buckets.map encodeBucketState))) = some buckets ↔
      buckets.map storedBucket = buckets.map id := by
    rw [← hstored, List.map_id]
    constructor
    · intro heq
      rw [heq]
      rfl
    · intro heq
      cases hread : normalizeBucketStates (some (.arr (buckets.map encodeBucketState))) with
      | none =>
        rw [hread] at heq
        exact absurd heq.symm hne
      | some read =>
        rw [hread] at heq
        exact congrArg some heq
  rw [hread, List.map_inj_left]
  exact forall₂_congr fun entry hentry => storedBucket_eq_self_iff (h entry hentry)

theorem returns_storedPayload_iff (h : IsPayload payload) (nowIso : Text) :
    Returns payload (storedPayload payload nowIso) ↔ PayloadLasts payload := by
  constructor
  · intro hreturns
    refine ⟨(storedKeyValues_eq_iff h.keyValues).mp hreturns.keyValues, ?_, ?_⟩
    · intro entries hentries
      by_cases hne : entries = []
      · simp [hne]
      · have hpages := hreturns.pageKeys entries hentries hne
        rw [storedPayload, Option.mem_def.mp hentries] at hpages
        exact (storedPageKeys_eq_iff hne (h.pageKeys entries hentries)).mp hpages
    · intro buckets hbuckets
      by_cases hne : buckets = []
      · simp [hne]
      · have hread := hreturns.buckets buckets hbuckets hne
        rw [storedPayload, Option.mem_def.mp hbuckets] at hread
        exact (storedBuckets_eq_iff hne (h.buckets buckets hbuckets)).mp hread
  · intro hlasts
    refine ⟨rfl, rfl, (storedKeyValues_eq_iff h.keyValues).mpr hlasts.keyValues, ?_, ?_⟩
    · intro entries hentries hne
      rw [storedPayload, Option.mem_def.mp hentries]
      exact (storedPageKeys_eq_iff hne (h.pageKeys entries hentries)).mpr
        (hlasts.pageKeys entries hentries)
    · intro buckets hbuckets hne
      rw [storedPayload, Option.mem_def.mp hbuckets]
      exact (storedBuckets_eq_iff hne (h.buckets buckets hbuckets)).mpr
        (hlasts.buckets buckets hbuckets)

/-- A token is decoded to the payload it was made for exactly if it is not too large and nothing of
the payload is lost. -/
theorem decodeDeltaToken_returns_iff {hmac : Text → Text → Text} {options : TokenSecurityOptions}
    {now later : Int} {nowIso nonce : Text} (hsecret : options.secret ≠ [])
    (hexpiry : ∀ ttlMs ∈ options.ttlMs, later ≤ now + ttlMs) (hpayload : IsPayload payload) :
    (∃ decoded, decodeDeltaToken hmac
          (encodeDeltaToken hmac payload options now nowIso nonce) options later = .ok decoded ∧
        Returns payload decoded) ↔
      (envelopeBytes (signedEnvelope hmac deltaTokenType (payload.encode nowIso) options now
          nonce)).length ≤ maxTokenEnvelopeBytes ∧ PayloadLasts payload := by
  rw [decodeDeltaToken_eq hsecret hexpiry, ← returns_storedPayload_iff hpayload nowIso]
  split
  · next hsize => exact iff_of_false nofun fun h => absurd h.1 (Nat.not_le.mpr hsize)
  · next hsize =>
    constructor
    · rintro ⟨decoded, heq, hreturns⟩
      exact ⟨Nat.not_lt.mp hsize, Except.ok.inj heq ▸ hreturns⟩
    · rintro ⟨_, hreturns⟩
      exact ⟨_, rfl, hreturns⟩

/-- A payload with a bigint under its key and this value in its bucket. -/
def bucketPayload (value : RowValue) : DeltaTokenPayload where
  entitySet := "Orders".toList
  lastValue := "1".toList
  keyValues := some [("id".toList, .bigint 7)]
  pageKeys := none
  buckets := some [⟨[("day".toList, value)], none⟩]
  issuedAt := none

def roundTripOptions : TokenSecurityOptions where
  secret := ['s']
  ttlSeconds := none

theorem isPayload_bucketPayload {value : RowValue} (h : value.IsFlat) :
    IsPayload (bucketPayload value) where
  keyValues := by
    rintro fields ⟨⟩ field hfield
    rw [List.mem_singleton.mp hfield]
    trivial
  pageKeys := nofun
  buckets := by
    rintro buckets ⟨⟩ entry hentry
    rw [List.mem_singleton.mp hentry]
    refine ⟨.record fun field hfield => .flat ?_, nofun⟩
    rw [List.mem_singleton.mp hfield]
    exact h

theorem payloadLasts_bucketPayload {value : RowValue} (h : value.IsFlat)
    (hdate : value.isDate = false) : PayloadLasts (bucketPayload value) where
  keyValues := by
    rintro fields ⟨⟩
    refine ⟨List.cons_ne_nil _ _, fun field hfield => ?_⟩
    rw [List.mem_singleton.mp hfield]
    decide
  pageKeys := nofun
  buckets := by
    rintro buckets ⟨⟩ entry hentry
    rw [List.mem_singleton.mp hentry]
    refine ⟨.record (fun field hfield => ?_) fun field hfield => ?_, nofun⟩
    · rw [List.mem_singleton.mp hfield]
      change "day".toList ≠ prototypeKey
      decide
    · rw [List.mem_singleton.mp hfield]
      exact .flat h hdate

theorem decodeDeltaToken_returns_bigint :
    ∃ decoded, decodeDeltaToken (fun _ _ => [])
        (encodeDeltaToken (fun _ _ => []) (bucketPayload (.bigint 7)) roundTripOptions 0 [] [])
        roundTripOptions 1 = .ok decoded ∧
      Returns (bucketPayload (.bigint 7)) decoded := by
  have hpayload : IsPayload (bucketPayload (.bigint 7)) := isPayload_bucketPayload trivial
  have hzero : Json.Number.ofInt 0 = ⟨['0'], by decide⟩ := by
    rw [Json.Number.ofInt, Json.Number.mk.injEq]
    simp [Json.digits]
  have hseven : (Json.Number.ofInt 7).text = ['7'] := by
    rw [Json.Number.ofInt]
    simp [Json.digits]
  have hencode : (bucketPayload (.bigint 7)).encode [] = .obj
      [("entitySet".toList, .str "Orders".toList), ("lastValue".toList, .str "1".toList),
        ("keyValues".toList, .obj [("id".toList, encodedDeltaValue "bigint" (.str ['7']))]),
        ("buckets".toList, .arr [.obj [("key".toList,
          .obj [("day".toList, encodedDeltaValue "bigint" (.str ['7']))])]]),
        ("issuedAt".toList, .str [])] := by
    rw [← hseven]
    rfl
  refine (decodeDeltaToken_returns_iff (by decide) (by decide) hpayload).mpr
    ⟨?_, payloadLasts_bucketPayload trivial rfl⟩
  rw [hencode, signedEnvelope, hzero]
  decide +kernel

/-- The date is lost. -/
theorem not_returns_date :
    ¬ ∃ decoded, decodeDeltaToken (fun _ _ => [])
          (encodeDeltaToken (fun _ _ => [])
            (bucketPayload (.date "2024-05-01T00:00:00.000Z".toList)) roundTripOptions 0 [] [])
          roundTripOptions 1 = .ok decoded ∧
        Returns (bucketPayload (.date "2024-05-01T00:00:00.000Z".toList)) decoded := by
  rintro ⟨decoded, hdecode, hreturns⟩
  have hpayload : IsPayload (bucketPayload (.date "2024-05-01T00:00:00.000Z".toList)) :=
    isPayload_bucketPayload trivial
  rw [decodeDeltaToken_eq (by decide) (by decide)] at hdecode
  split at hdecode
  · cases hdecode
  · rw [← Except.ok.inj hdecode] at hreturns
    have hlasts := ((returns_storedPayload_iff hpayload []).mp hreturns).buckets _ rfl _
      List.mem_cons_self
    cases hlasts.1 with
    | flat h => exact h
    | record _ hfields =>
      cases hfields _ List.mem_cons_self with
      | flat _ hdate => cases hdate

end Payloads

end LoopbackOData
