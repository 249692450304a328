import LoopbackOData.Paging.SkipToken

/-!
# Following a next link

When the server accepts the next links it emits: the link has to carry every parameter that the
token was bound to, and the order that the token was signed for has to be the order it is verified
for.
-/

namespace LoopbackOData

open Outcome Separated

set_option autoImplicit false

/-! ## The parameters of a link -/

/-- The values that a link carries for one parameter. -/
def linkValues : QueryValue → List Text
  | .text [] => []
  | .text s => [s]
  | .list entries => entries.map QueryValue.toText
  | .object fields => [(QueryValue.object fields).toText]

/-- What one parameter of the request adds to the link. -/
def linkEntry (entry : Text × QueryValue) : SearchParams :=
  if isSkipParameter entry.1 then [] else (linkValues entry.2).map (entry.1, ·)

def linkParams (entries : List (Text × QueryValue)) : SearchParams := entries.flatMap linkEntry

theorem isSkipParameter_skiptoken : isSkipParameter skipTokenKey = true := by decide

theorem mem_linkParams {entries : List (Text × QueryValue)} {p : Text × Text}
    (h : p ∈ linkParams entries) : p.1 ∈ entries.map Prod.fst ∧ isSkipParameter p.1 = false := by
  obtain ⟨entry, hentry, hp⟩ := List.mem_flatMap.mp h
  rw [linkEntry] at hp
  split at hp
  · cases hp
  · next hskip =>
    obtain ⟨value, _, rfl⟩ := List.mem_map.mp hp
    exact ⟨List.mem_map_of_mem hentry, by simpa using hskip⟩

theorem addLinkParam_fresh {params : SearchParams} {entry : Text × QueryValue}
    (h : entry.1 ∉ params.map Prod.fst) :
    addLinkParam params entry = params ++ linkEntry entry := by
  obtain ⟨key, value⟩ := entry
  have happend (entries : List QueryValue) (params : SearchParams) :
      entries.foldl (fun params e => params.append key e.toText) params =
        params ++ entries.map fun e => (key, e.toText) := by
    induction entries generalizing params with
    | nil => simp
    | cons e entries ih =>
      rw [List.foldl_cons, ih, SearchParams.append, List.map_cons, List.append_assoc]
      rfl
  rw [addLinkParam]
  by_cases hskip : isSkipParameter key
  · simp [hskip, linkEntry]
  · simp only [linkEntry, hskip, Bool.false_eq_true, if_false]
    cases value with
    | text s =>
      cases s with
      | nil => simp [linkValues]
      | cons c s => exact SearchParams.set_absent _ h
    | list entries =>
      dsimp only
      rw [happend, linkValues, List.map_map]
      rfl
    | object fields => rfl

/-- A link carries the values of the request's parameters and, last, the token. -/
theorem buildNextLink_params (request : Request) (token : Text) :
    (buildNextLink request token).params =
      linkParams request.query.entries ++ [(skipTokenKey, token)] := by
  have hfold (entries : List (Text × QueryValue)) (params : SearchParams)
      (hdistinct : (entries.map Prod.fst).Nodup)
      (hfresh : ∀ p ∈ params, p.1 ∉ entries.map Prod.fst) :
      entries.foldl addLinkParam params = params ++ linkParams entries := by
    induction entries generalizing params with
    | nil => simp [linkParams]
    | cons entry entries ih =>
      rw [List.map_cons, List.nodup_cons] at hdistinct
      have hentry : entry.1 ∉ params.map Prod.fst := by
        intro hmem
        obtain ⟨p, hp, hkey⟩ := List.mem_map.mp hmem
        exact hfresh p hp (hkey ▸ List.mem_cons_self)
      rw [List.foldl_cons, addLinkParam_fresh hentry, ih _ hdistinct.2]
      · simp [linkParams]
      · intro p hp hkey
        rcases List.mem_append.mp hp with hp | hp
        · exact hfresh p hp (List.mem_cons_of_mem _ hkey)
        · have hp : p ∈ linkParams [entry] := by simpa [linkParams] using hp
          have := (mem_linkParams hp).1
          rw [List.map_singleton, List.mem_singleton] at this
          exact hdistinct.1 (this ▸ hkey)
  rw [buildNextLink]
  dsimp only
  rw [hfold _ _ request.query.distinct (by simp), List.nil_append]
  apply SearchParams.set_absent
  intro hmem
  obtain ⟨p, hp, hkey⟩ := List.mem_map.mp hmem
  have := (mem_linkParams hp).2
  rw [hkey, isSkipParameter_skiptoken] at this
  cases this

/-! ## The query of the next request -/

/-- The parameters of a link by their names. -/
def linkBlocks : List (Text × QueryValue) → List (Text × List Text)
  | [] => []
  | entry :: entries =>
    if isSkipParameter entry.1 ∨ linkValues entry.2 = [] then linkBlocks entries
    else (entry.1, linkValues entry.2) :: linkBlocks entries

theorem mem_linkBlocks {entries : List (Text × QueryValue)} {block : Text × List Text}
    (h : block ∈ linkBlocks entries) :
    isSkipParameter block.1 = false ∧ block.2 ≠ [] ∧
      ∃ value, (block.1, value) ∈ entries ∧ linkValues value = block.2 := by
  induction entries with
  | nil => cases h
  | cons entry entries ih =>
    have hrest (h : block ∈ linkBlocks entries) :
        isSkipParameter block.1 = false ∧ block.2 ≠ [] ∧
          ∃ value, (block.1, value) ∈ entry :: entries ∧ linkValues value = block.2 := by
      obtain ⟨hskip, hne, value, hmem, hvalues⟩ := ih h
      exact ⟨hskip, hne, value, List.mem_cons_of_mem entry hmem, hvalues⟩
    rw [linkBlocks] at h
    split at h
    · exact hrest h
    · next hnot =>
      rw [not_or] at hnot
      rcases List.mem_cons.mp h with rfl | h
      · exact ⟨by simpa using hnot.1, hnot.2, entry.2, List.mem_cons_self, rfl⟩
      · exact hrest h

theorem keys_linkBlocks_sublist (entries : List (Text × QueryValue)) :
    ((linkBlocks entries).map Prod.fst).Sublist (entries.map Prod.fst) := by
  induction entries with
  | nil => exact List.Sublist.slnil
  | cons entry entries ih =>
    rw [linkBlocks]
    split
    · exact ih.cons _
    · exact ih.cons_cons _

theorem linkParams_eq_blocks (entries : List (Text × QueryValue)) :
    linkParams entries = (linkBlocks entries).flatMap fun block => block.2.map (block.1, ·) := by
  induction entries with
  | nil => rfl
  | cons entry entries ih =>
    rw [linkParams, List.flatMap_cons, ← linkParams, ih, linkBlocks, linkEntry]
    by_cases hskip : isSkipParameter entry.1
    · simp [hskip]
    · by_cases hvalues : linkValues entry.2 = []
      · simp [hskip, hvalues]
      · simp [hskip, hvalues]

/-- The query that the parser makes of a link. -/
def linkQuery (query : Query) (token : Text) : Query :=
  .ofPairs (linkParams query.entries ++ [(skipTokenKey, token)])

theorem entries_linkQuery (query : Query) (token : Text) :
    (linkQuery query token).entries =
      (linkBlocks query.entries).map (fun block => (block.1, gather block.2)) ++
        [(skipTokenKey, .text token)] := by
  have hblocks : linkParams query.entries ++ [(skipTokenKey, token)] =
      (linkBlocks query.entries ++ [(skipTokenKey, [token])]).flatMap
        fun block => block.2.map (block.1, ·) := by
    rw [List.flatMap_append, ← linkParams_eq_blocks]
    rfl
  rw [linkQuery, Query.ofPairs, hblocks]
  dsimp only
  rw [groupPairs_blocks]
  · rw [List.map_append]
    rfl
  · rw [List.map_append, List.nodup_append]
    refine ⟨query.distinct.sublist (keys_linkBlocks_sublist _), List.nodup_singleton _, ?_⟩
    rintro key hkey _ hmem rfl
    obtain ⟨block, hblock, rfl⟩ := List.mem_map.mp hkey
    have hskip := (mem_linkBlocks hblock).1
    rw [List.map_singleton, List.mem_singleton] at hmem
    rw [hmem, isSkipParameter_skiptoken] at hskip
    cases hskip
  · intro block hblock
    rcases List.mem_append.mp hblock with hblock | hblock
    · exact (mem_linkBlocks hblock).2.1
    · rw [List.mem_singleton.mp hblock]
      exact List.cons_ne_nil _ _

theorem canonicalValues_gather {values : List Text} (hne : values ≠ []) :
    canonicalValues (gather values) = values := by
  match values with
  | [] => exact absurd rfl hne
  | [value] => simp [gather, canonicalValues, QueryValue.canonicalize]
  | value :: next :: values =>
    simp [gather, canonicalValues, QueryValue.canonicalize, Function.comp_def]

/-- The next request is bound to the parameters of the link. -/
theorem contextParams_linkQuery (query : Query) (token : Text) :
    contextParams (linkQuery query token) = linkParams query.entries := by
  rw [contextParams, entries_linkQuery, List.flatMap_append, linkParams_eq_blocks,
    List.flatMap_map]
  have htoken : contextEntry (skipTokenKey, .text token) = [] := by
    simp only [contextEntry, isSkipParameter_skiptoken, if_true]
  rw [List.flatMap_singleton, htoken, List.append_nil]
  apply List.flatMap_congr
  intro block hblock
  obtain ⟨hskip, hne, _⟩ := mem_linkBlocks hblock
  rw [contextEntry, if_neg (by simp [hskip]), canonicalValues_gather hne]

/-! ## Kept parameters -/

/-- A value that a link carries as it was signed: a text that is not empty, or texts under a
repeated name. -/
def QueryValue.Kept : QueryValue → Prop
  | .text s => s ≠ []
  | .list entries => ∀ entry ∈ entries, ∃ s, entry = .text s
  | .object _ => False

/-- Links carry every parameter but the paging ones. -/
def Query.Kept (query : Query) : Prop :=
  ∀ entry ∈ query.entries, isSkipParameter entry.1 = false → entry.2.Kept

theorem QueryValue.Kept.values {value : QueryValue} (h : value.Kept) :
    linkValues value = canonicalValues value := by
  match value, h with
  | .text [], h => exact absurd rfl h
  | .text (c :: s), _ => simp [linkValues, canonicalValues, QueryValue.canonicalize]
  | .list entries, h =>
    rw [linkValues, canonicalValues]
    apply List.map_congr_left
    intro entry hentry
    obtain ⟨s, rfl⟩ := h entry hentry
    simp [QueryValue.toText, QueryValue.canonicalize]

theorem Query.Kept.params {query : Query} (h : query.Kept) :
    linkParams query.entries = contextParams query := by
  apply List.flatMap_congr
  intro entry hentry
  rw [linkEntry, contextEntry]
  by_cases hskip : isSkipParameter entry.1
  · rw [if_pos hskip, if_pos hskip]
  · rw [if_neg hskip, if_neg hskip, (h entry hentry (by simpa using hskip)).values]

/-- What brackets and braces add to the canonical form of a value. -/
def weight (s : Text) : Nat := s.countP (· = '{') * 2 + s.countP (· = '[')

theorem weight_append (s t : Text) : weight (s ++ t) = weight s + weight t := by
  simp only [weight, List.countP_append]
  omega

theorem weight_intercalate (pieces : List Text) :
    weight ([','].intercalate pieces) = (pieces.map weight).sum := by
  induction pieces with
  | nil => rfl
  | cons piece pieces ih =>
    cases pieces with
    | nil => simp
    | cons next pieces =>
      have hcomma : weight [','] = 0 := by decide
      rw [List.intercalate_cons_cons, weight_append, weight_append, ih, hcomma, List.map_cons,
        List.sum_cons, Nat.add_zero]
      rfl

theorem weight_object (fields : List (Text × QueryValue)) :
    2 ≤ weight (QueryValue.object fields).canonicalize := by
  have hbrace : ∃ rest, (QueryValue.object fields).canonicalize = '{' :: rest := by
    rw [QueryValue.canonicalize.eq_def]
    dsimp only
    rw [stableStringify, QueryValue.toJson, normalizeStableValue, normalizeValue]
    generalize List.mergeSort _ _ = sorted
    cases sorted with
    | nil => exact ⟨_, by rw [Json.print]⟩
    | cons field sorted => exact ⟨_, by rw [Json.print]⟩
  obtain ⟨rest, hrest⟩ := hbrace
  rw [hrest, weight, List.countP_cons]
  simp only [decide_true, if_true]
  omega

/-- The canonical form has at least the brackets of the text in a link, and more of them unless the
value is a text. -/
theorem weight_toText (value : QueryValue) :
    weight value.toText ≤ weight value.canonicalize ∧
      (weight value.toText = weight value.canonicalize → ∃ s, value = .text s) := by
  match value with
  | .text s =>
    simp [QueryValue.toText, QueryValue.canonicalize]
  | .object fields =>
    have hobject := weight_object fields
    have htext : weight (QueryValue.object fields).toText = 1 := by
      rw [QueryValue.toText]
      decide
    refine ⟨by omega, fun h => ?_⟩
    omega
  | .list entries =>
    have hsum : (entries.map fun e => weight e.toText).sum ≤
        (entries.map fun e => weight e.canonicalize).sum := by
      apply List.sum_le_sum
      intro entry hentry
      exact (weight_toText entry).1
    have htext : weight (QueryValue.list entries).toText =
        (entries.map fun e => weight e.toText).sum := by
      rw [QueryValue.toText, weight_intercalate]
      simp [Function.comp_def]
    have hcanonical : weight (QueryValue.list entries).canonicalize =
        1 + (entries.map fun e => weight e.canonicalize).sum := by
      have hbracket : weight ['['] = 1 ∧ weight [']'] = 0 := by decide
      rw [QueryValue.canonicalize, ← List.singleton_append, weight_append, weight_append,
        hbracket.1, hbracket.2, weight_intercalate]
      simp [Function.comp_def]
    exact ⟨by omega, fun h => by omega⟩
termination_by sizeOf value
decreasing_by
  have := List.sizeOf_lt_of_mem hentry
  simp only [QueryValue.list.sizeOf_spec]
  omega

/-- The weight of a list of values, each of them counting. -/
def totalWeight (values : List Text) : Nat := (values.map fun s => weight s + 1).sum

theorem totalWeight_linkValues (value : QueryValue) :
    totalWeight (linkValues value) ≤ totalWeight (canonicalValues value) ∧
      (totalWeight (linkValues value) = totalWeight (canonicalValues value) → value.Kept) := by
  match value with
  | .text [] => exact ⟨Nat.zero_le _, fun h => by cases h⟩
  | .text (c :: s) =>
    refine ⟨?_, fun _ => List.cons_ne_nil c s⟩
    simp [linkValues, canonicalValues, QueryValue.canonicalize]
  | .list entries =>
    simp only [linkValues, canonicalValues, totalWeight, List.map_map, QueryValue.Kept]
    induction entries with
    | nil => simp
    | cons entry entries ih =>
      obtain ⟨hle, heq⟩ := weight_toText entry
      simp only [List.map_cons, List.sum_cons, Function.comp_apply, List.mem_cons,
        forall_eq_or_imp]
      refine ⟨by omega, fun h => ⟨heq (by omega), ih.2 (by omega)⟩⟩
  | .object fields =>
    have htext := weight_toText (.object fields)
    simp only [linkValues, canonicalValues, totalWeight, List.map_cons, List.map_nil,
      List.sum_cons, List.sum_nil]
    refine ⟨by omega, fun h => ?_⟩
    obtain ⟨s, hs⟩ := htext.2 (by omega)
    cases hs

/-- The weight of the values of some parameters. -/
def paramsWeight (params : List (Text × Text)) : Nat := totalWeight (params.map Prod.snd)

theorem paramsWeight_append (params params' : List (Text × Text)) :
    paramsWeight (params ++ params') = paramsWeight params + paramsWeight params' := by
  simp [paramsWeight, totalWeight]

theorem paramsWeight_values (key : Text) (values : List Text) :
    paramsWeight (values.map (key, ·)) = totalWeight values := by
  simp [paramsWeight, Function.comp_def]

theorem paramsWeight_linkEntry (entry : Text × QueryValue) :
    paramsWeight (linkEntry entry) ≤ paramsWeight (contextEntry entry) ∧
      (paramsWeight (linkEntry entry) = paramsWeight (contextEntry entry) →
        isSkipParameter entry.1 = false → entry.2.Kept) := by
  rw [linkEntry, contextEntry]
  by_cases hskip : isSkipParameter entry.1
  · rw [if_pos hskip, if_pos hskip]
    exact ⟨Nat.le_refl _, fun _ hnot => absurd hskip (by simp [hnot])⟩
  · rw [if_neg hskip, if_neg hskip, paramsWeight_values, paramsWeight_values]
    obtain ⟨hle, hkept⟩ := totalWeight_linkValues entry.2
    exact ⟨hle, fun h _ => hkept h⟩

theorem paramsWeight_linkParams (entries : List (Text × QueryValue)) :
    paramsWeight (linkParams entries) ≤ paramsWeight (entries.flatMap contextEntry) ∧
      (paramsWeight (linkParams entries) = paramsWeight (entries.flatMap contextEntry) →
        ∀ entry ∈ entries, isSkipParameter entry.1 = false → entry.2.Kept) := by
  induction entries with
  | nil => simp [linkParams]
  | cons entry entries ih =>
    rw [linkParams, List.flatMap_cons, List.flatMap_cons, paramsWeight_append,
      paramsWeight_append, ← linkParams]
    obtain ⟨hle, hkept⟩ := paramsWeight_linkEntry entry
    refine ⟨Nat.add_le_add hle ih.1, fun h => ?_⟩
    rw [List.forall_mem_cons]
    exact ⟨hkept (by omega), ih.2 (by omega)⟩

/-- Only a query whose parameters are all kept has the parameters of its link, in any order. -/
theorem kept_of_perm {query : Query}
    (h : (contextParams query).Perm (linkParams query.entries)) : query.Kept := by
  have hweight : paramsWeight (linkParams query.entries) = paramsWeight (contextParams query) :=
    ((h.map Prod.snd).map _).sum_nat.symm
  exact (paramsWeight_linkParams query.entries).2 hweight

/-! ## The context of the next request -/

theorem serializeParam_injective {p p' : Text × Text} (h : serializeParam p = serializeParam p') :
    p = p' := by
  obtain ⟨hkey, hvalue⟩ := append_cons_inj (encodeURIComponent_separators p.1).2
    (encodeURIComponent_separators p'.1).2 h
  exact Prod.ext (encodeURIComponent_injective hkey) (encodeURIComponent_injective hvalue)

/-- The context determines the parameters, up to their order. -/
theorem perm_of_buildSkipTokenContext {server : Server} {request request' : Request}
    (h : server.buildSkipTokenContext request = server.buildSkipTokenContext request')
    (hpath : request.path = request'.path) :
    (contextParams request.query).Perm (contextParams request'.query) := by
  rw [Server.buildSkipTokenContext, Server.buildSkipTokenContext, hpath,
    List.append_cancel_left_eq, List.cons.injEq, List.append_cancel_left_eq,
    List.cons.injEq] at h
  have hpieces (params : List (Text × Text)) :
      ∀ piece ∈ params.map serializeParam, '&' ∉ piece ∧ piece ≠ [] := by
    intro piece hpiece
    obtain ⟨p, _, rfl⟩ := List.mem_map.mp hpiece
    have hkey := (encodeURIComponent_separators p.1).1
    have hvalue := (encodeURIComponent_separators p.2).1
    simp [serializeParam, hkey, hvalue]
  have hsorted := intercalate_inj (fun p hp => (hpieces _ p hp).1)
    (fun p hp => (hpieces _ p hp).1) (fun p hp => (hpieces _ p hp).2)
    (fun p hp => (hpieces _ p hp).2) h.2.2
  have hparams := List.map_injective_iff.mpr (fun _ _ => serializeParam_injective) hsorted
  have hperm := (List.mergeSort_perm (contextParams request.query)
    fun a b => server.paramOrder a b != .gt).symm
  rw [hparams] at hperm
  exact hperm.trans (List.mergeSort_perm _ _)

theorem get_linkQuery_token (query : Query) (token : Text) :
    (linkQuery query token).get skipTokenKey = some (.text token) := by
  rw [Query.get_eq_some, entries_linkQuery]
  exact List.mem_append_right _ List.mem_cons_self

/-- A link has the request's paging parameters only as its token. -/
theorem get_linkQuery_skip (query : Query) (token : Text) :
    (linkQuery query token).get skipKey = none := by
  rw [Query.get_eq_none, entries_linkQuery]
  intro hmem
  obtain ⟨entry, hentry, hkey⟩ := List.mem_map.mp hmem
  rcases List.mem_append.mp hentry with hentry | hentry
  · obtain ⟨block, hblock, rfl⟩ := List.mem_map.mp hentry
    have hskip := (mem_linkBlocks hblock).1
    have hparameter : isSkipParameter skipKey = true := by decide
    rw [hkey, hparameter] at hskip
    cases hskip
  · have hne : skipTokenKey ≠ skipKey := by decide
    rw [List.mem_singleton.mp hentry] at hkey
    exact hne hkey

/-- A kept option has the same text in the next request. -/
theorem single_linkQuery {query : Query} {key : Text} {value : Option Text} (token : Text)
    (hkept : query.Kept) (hkey : isSkipParameter key = false)
    (h : query.single key = .ok value) : (linkQuery query token).single key = .ok value := by
  rw [Query.single] at h
  cases hget : query.get key with
  | none =>
    rw [hget] at h
    cases h
    have hnone : (linkQuery query token).get key = none := by
      rw [Query.get_eq_none] at hget ⊢
      rw [entries_linkQuery]
      intro hmem
      obtain ⟨entry, hentry, rfl⟩ := List.mem_map.mp hmem
      rcases List.mem_append.mp hentry with hentry | hentry
      · obtain ⟨block, hblock, rfl⟩ := List.mem_map.mp hentry
        obtain ⟨_, _, value, hvalue, _⟩ := mem_linkBlocks hblock
        exact hget (List.mem_map.mpr ⟨_, hvalue, rfl⟩)
      · rw [List.mem_singleton.mp hentry, isSkipParameter_skiptoken] at hkey
        cases hkey
    rw [Query.single, hnone]
  | some v =>
    rw [hget] at h
    have hmem := Query.get_eq_some.mp hget
    have hv := hkept _ hmem hkey
    match v, hv, h with
    | .text s, hv, h =>
      cases h
      have hentry : (key, QueryValue.text s) ∈ (linkQuery query token).entries := by
        rw [entries_linkQuery]
        apply List.mem_append_left
        have hvalues : linkValues (.text s) = [s] := by
          cases s with
          | nil => exact absurd rfl hv
          | cons c s => rfl
        refine List.mem_map.mpr ⟨(key, [s]), ?_, rfl⟩
        have hblock (entries : List (Text × QueryValue)) (hmem : (key, .text s) ∈ entries) :
            (key, [s]) ∈ linkBlocks entries := by
          induction entries with
          | nil => cases hmem
          | cons entry entries ih =>
            rw [linkBlocks]
            rcases List.mem_cons.mp hmem with rfl | hmem
            · rw [if_neg (by simp [hkey, hvalues]), hvalues]
              exact List.mem_cons_self
            · split
              · exact ih hmem
              · exact List.mem_cons_of_mem _ (ih hmem)
        exact hblock _ hmem
      rw [Query.single, Query.get_eq_some.mpr hentry]

theorem requestDescriptors_linkQuery {model : EntityModel} {query : Query}
    {descriptors : List OrderDescriptor} (token : Text) (hkept : query.Kept)
    (h : requestDescriptors model query = .ok descriptors) :
    requestDescriptors model (linkQuery query token) = .ok descriptors := by
  obtain ⟨order, horder, hrest⟩ := bind_eq_ok.mp h
  obtain ⟨orderby, hsingle, hparse⟩ := bind_eq_ok.mp horder
  refine bind_eq_ok.mpr ⟨order, ?_, hrest⟩
  exact bind_eq_ok.mpr ⟨orderby, single_linkQuery token hkept (by decide) hsingle, hparse⟩

/-! ## Accepting a link -/

namespace Server

variable (server : Server) (config : Config) (model : EntityModel)

/-- The server finds its token in the link and passes its verification. -/
def Accepts (link : Link) (now : Int) : Prop :=
  ∃ descriptors values,
    server.readSkipToken config model (server.follow link) now = .ok (descriptors, some values)

/-- The options that tokens are signed with. -/
def tokenOptions : TokenSecurityOptions :=
  ⟨config.tokenSecret, some (normalizeTtlSeconds config.skipTokenTtl 900)⟩

/-- The envelope that a token of the request travels in. -/
def skipTokenEnvelope (request : Request) (now : Int) (nonce : Text)
    (descriptors : List OrderDescriptor) (values : List Text) : TokenEnvelope :=
  signedEnvelope server.hmac skipTokenType
    (server.skipTokenPayload request descriptors values).toJson (tokenOptions config) now nonce

/-- Delta tracking is off, or its field, descending, leads the order of the request. -/
def KeepsOrder (query : Query) : Prop :=
  ∀ deltaField ∈ model.deltaField, ∀ descriptors, requestDescriptors model query = .ok descriptors →
    descriptors.head? = some ⟨deltaField, .desc⟩

/-- The token after the row is within the size that the decoder allows. -/
def TokenFits (request : Request) (now : Int) (nonce : Text) (last : Row) : Prop :=
  ∀ descriptors values, requestDescriptors model request.query = .ok descriptors →
    server.skipTokenValues last (withDelta model.deltaField descriptors) = .ok (some values) →
    (envelopeBytes (server.skipTokenEnvelope config request now nonce
      (withDelta model.deltaField descriptors) values)).length ≤ maxTokenEnvelopeBytes

variable {server config model}

theorem buildSkipTokenOptions_ok {options : TokenSecurityOptions}
    (h : buildSkipTokenOptions config = .ok options) :
    config.tokenSecret ≠ [] ∧ options = tokenOptions config := by
  rw [buildSkipTokenOptions] at h
  split at h
  · cases h
  · next hsecret =>
    cases h
    exact ⟨hsecret, rfl⟩

/-- What is in a token that was created. -/
theorem createSkipToken_some {request : Request} {now : Int} {nonce token : Text} {record : Row}
    {descriptors : List OrderDescriptor}
    (h : server.createSkipToken config request now nonce record descriptors = .ok (some token)) :
    config.tokenSecret ≠ [] ∧ ∃ values,
      server.skipTokenValues record descriptors = .ok (some values) ∧
        values.length = descriptors.length ∧
        token = signSkipToken server.hmac (server.skipTokenPayload request descriptors values)
          (tokenOptions config) now nonce := by
  rw [createSkipToken] at h
  split at h
  · cases h
  · obtain ⟨values, hvalues, h⟩ := bind_eq_ok.mp h
    cases values with
    | none => cases h
    | some values =>
      dsimp only at h
      rw [signSkipTokenValues] at h
      split at h
      · cases h
      · split at h
        · cases h
        · next hlength =>
          obtain ⟨options, hoptions, h⟩ := bind_eq_ok.mp h
          obtain ⟨hsecret, rfl⟩ := buildSkipTokenOptions_ok hoptions
          cases h
          exact ⟨hsecret, values, hvalues, not_not.mp hlength, rfl⟩

theorem readSkipToken_descriptors {request : Request} {now : Int}
    {descriptors : List OrderDescriptor} {values : Option (List Text)}
    (h : server.readSkipToken config model request now = .ok (descriptors, values)) :
    requestDescriptors model request.query = .ok descriptors := by
  obtain ⟨token, _, h⟩ := bind_eq_ok.mp h
  obtain ⟨descriptors', hdescriptors, h⟩ := bind_eq_ok.mp h
  cases token with
  | none =>
    cases h
    exact hdescriptors
  | some token =>
    dsimp only at h
    split at h
    · cases h
    · obtain ⟨values', _, h⟩ := bind_eq_ok.mp h
      cases h
      exact hdescriptors

/-- Where a next link comes from: the token of the last row of the page. -/
theorem listPage_link {request : Request} {now : Int} {nonce : Text}
    {fetch : List OrderDescriptor → Option (List Text) → List Row} {pageSize : Nat}
    {items : List Row} {link : Link}
    (h : server.listPage config model request now nonce fetch pageSize =
      .ok (items, some link)) :
    ∃ descriptors last token, requestDescriptors model request.query = .ok descriptors ∧
      items.getLast? = some last ∧ link = buildNextLink request token ∧
      server.createSkipToken config request now nonce last
        (withDelta model.deltaField descriptors) = .ok (some token) := by
  obtain ⟨⟨descriptors, values⟩, hread, h⟩ := bind_eq_ok.mp h
  have hdescriptors := readSkipToken_descriptors hread
  dsimp only at h
  split at h
  · cases h
  · obtain ⟨⟨page, token⟩, hpaging, h⟩ := bind_eq_ok.mp h
    dsimp only at h
    cases token with
    | none => cases h
    | some token =>
      cases h
      rw [applyServerDrivenPaging] at hpaging
      split at hpaging
      · cases hpaging
      · dsimp only at hpaging
        split at hpaging
        · cases hpaging
        · next last hlast =>
          obtain ⟨token', htoken, hpaging⟩ := bind_eq_ok.mp hpaging
          cases token' with
          | none => cases hpaging
          | some token' =>
            cases hpaging
            exact ⟨descriptors, last, _, hdescriptors, hlast, rfl, htoken⟩

/-- What reading a token that the server signed comes to. -/
theorem decodeSkipTokenValues_ok {request : Request} {payload : SkipTokenPayload}
    {descriptors : List OrderDescriptor} {now later : Int} {nonce : Text}
    (hsecret : config.tokenSecret ≠ [])
    (hlater : ∀ ttlMs ∈ (tokenOptions config).ttlMs, later ≤ now + ttlMs) :
    (∃ values, server.decodeSkipTokenValues config request later
        (signSkipToken server.hmac payload (tokenOptions config) now nonce) descriptors =
          .ok values) ↔
      (envelopeBytes (signedEnvelope server.hmac skipTokenType payload.toJson
          (tokenOptions config) now nonce)).length ≤ maxTokenEnvelopeBytes ∧
        payload.descriptor = buildSkipTokenDescriptorKey descriptors ∧
        payload.context = server.buildSkipTokenContext request ∧
        payload.values.length = descriptors.length := by
  have hoptions : buildSkipTokenOptions config = .ok (tokenOptions config) := if_neg hsecret
  have hverify := @verifySkipToken_signSkipToken server.hmac payload (tokenOptions config) now
    later nonce hsecret hlater (buildSkipTokenDescriptorKey descriptors)
    (server.buildSkipTokenContext request)
  rw [decodeSkipTokenValues, hoptions]
  simp only [bind, Except.bind]
  constructor
  · rintro ⟨values, h⟩
    split at h
    · cases h
    · cases h
    · next values' hvalues =>
      obtain ⟨hsize, hdescriptor, hcontext, rfl⟩ := (hverify values').mp hvalues
      split at h
      · cases h
      · next hlength =>
        rw [List.length_map] at hlength
        exact ⟨hsize, hdescriptor, hcontext, not_not.mp hlength⟩
  · rintro ⟨hsize, hdescriptor, hcontext, hlength⟩
    rw [(hverify _).mpr ⟨hsize, hdescriptor, hcontext, rfl⟩]
    dsimp only
    rw [if_neg (by rw [List.length_map]; exact not_not_intro hlength)]
    exact ⟨_, rfl⟩

/-- A token is found in its link. -/
theorem readSkipToken_link {request : Request} {token : Text} {later : Int}
    (hparse : server.parseQuery (buildNextLink request token).params =
      .ofPairs (buildNextLink request token).params) (htoken : token ≠ []) :
    server.Accepts config model (buildNextLink request token) later ↔
      ∃ descriptors, requestDescriptors model (linkQuery request.query token) = .ok descriptors ∧
        ∃ values, server.decodeSkipTokenValues config
          ⟨request.path, linkQuery request.query token⟩ later token descriptors = .ok values := by
  have hfollow : server.follow (buildNextLink request token) =
      ⟨request.path, linkQuery request.query token⟩ := by
    rw [follow, hparse, buildNextLink_params]
    rfl
  have hsingle : skipTokenOf (linkQuery request.query token) = .ok (some token) := by
    rw [skipTokenOf, Query.single, get_linkQuery_token]
    simp [bind, Except.bind, pure, Except.pure, htoken, Option.filter]
  rw [Accepts, hfollow]
  constructor
  · rintro ⟨descriptors, values, h⟩
    obtain ⟨token', htoken', h⟩ := bind_eq_ok.mp h
    rw [hsingle] at htoken'
    cases htoken'
    obtain ⟨descriptors', hdescriptors, h⟩ := bind_eq_ok.mp h
    dsimp only at h
    rw [get_linkQuery_skip, if_neg (by simp)] at h
    obtain ⟨values', hvalues, h⟩ := bind_eq_ok.mp h
    cases h
    exact ⟨_, hdescriptors, _, hvalues⟩
  · rintro ⟨descriptors, hdescriptors, values, hvalues⟩
    refine ⟨descriptors, values, ?_⟩
    refine bind_eq_ok.mpr ⟨_, hsingle, ?_⟩
    refine bind_eq_ok.mpr ⟨_, hdescriptors, ?_⟩
    dsimp only
    rw [get_linkQuery_skip, if_neg (by simp)]
    exact bind_eq_ok.mpr ⟨_, hvalues, rfl⟩

/-- When the link with the token after a row is accepted. -/
theorem accepts_buildNextLink_iff {request : Request} {now later : Int} {nonce token : Text}
    {descriptors : List OrderDescriptor} {last : Row}
    (hdescriptors : requestDescriptors model request.query = .ok descriptors)
    (htoken : server.createSkipToken config request now nonce last
      (withDelta model.deltaField descriptors) = .ok (some token))
    (hparse : server.parseQuery (buildNextLink request token).params =
      .ofPairs (buildNextLink request token).params)
    (hlater : ∀ ttlMs ∈ (tokenOptions config).ttlMs, later ≤ now + ttlMs) :
    server.Accepts config model (buildNextLink request token) later ↔
      request.query.Kept ∧ KeepsOrder model request.query ∧
        server.TokenFits config model request now nonce last := by
  obtain ⟨hsecret, values, hvalues, hlength, rfl⟩ := createSkipToken_some htoken
  have hfields := fields_requestDescriptors hdescriptors
  have hne : signSkipToken server.hmac (server.skipTokenPayload request
      (withDelta model.deltaField descriptors) values) (tokenOptions config) now nonce ≠ [] := by
    simp [signSkipToken, signToken, encodeEnvelope]
  rw [readSkipToken_link hparse hne]
  constructor
  · rintro ⟨descriptors', hdescriptors', hdecode⟩
    obtain ⟨hsize, hkey, hcontext, _⟩ := (decodeSkipTokenValues_ok hsecret hlater).mp hdecode
    have hperm := perm_of_buildSkipTokenContext hcontext rfl
    rw [contextParams_linkQuery] at hperm
    have hkept := kept_of_perm hperm
    have hsame := requestDescriptors_linkQuery (signSkipToken server.hmac
      (server.skipTokenPayload request (withDelta model.deltaField descriptors) values)
      (tokenOptions config) now nonce) hkept hdescriptors
    rw [hdescriptors', Except.ok.injEq] at hsame
    subst hsame
    have horder := (withDelta_eq_self_iff hfields).mp
      (buildSkipTokenDescriptorKey_inj (fields_withDelta hfields) hfields hkey)
    refine ⟨hkept, ?_, ?_⟩
    · intro deltaField hdelta descriptors hdescriptors''
      rw [hdescriptors, Except.ok.injEq] at hdescriptors''
      subst hdescriptors''
      exact horder deltaField hdelta
    · intro descriptors values' hdescriptors'' hvalues'
      rw [hdescriptors, Except.ok.injEq] at hdescriptors''
      subst hdescriptors''
      rw [hvalues] at hvalues'
      cases hvalues'
      exact hsize
  · rintro ⟨hkept, horder, hfits⟩
    have hsame := (withDelta_eq_self_iff hfields).mpr
      fun deltaField hdelta => horder deltaField hdelta descriptors hdescriptors
    refine ⟨descriptors, requestDescriptors_linkQuery _ hkept hdescriptors, ?_⟩
    rw [decodeSkipTokenValues_ok hsecret hlater]
    refine ⟨hfits descriptors values hdescriptors hvalues, ?_, ?_, ?_⟩
    · rw [skipTokenPayload, hsame]
    · rw [skipTokenPayload, buildSkipTokenContext, buildSkipTokenContext,
        contextParams_linkQuery, hkept.params]
    · rw [skipTokenPayload, hlength, hsame]

/-- A next link is accepted, before its token expires, exactly if the request has no empty and no
object-valued parameter, delta tracking leaves its order as it is, and the token is not too
large. -/
theorem accepts_nextLink_iff {request : Request} {now later : Int} {nonce : Text}
    {fetch : List OrderDescriptor → Option (List Text) → List Row} {pageSize : Nat}
    {items : List Row} {link : Link}
    (hpage : server.listPage config model request now nonce fetch pageSize =
      .ok (items, some link))
    (hparse : server.parseQuery link.params = .ofPairs link.params)
    (hlater : ∀ ttlMs ∈ (tokenOptions config).ttlMs, later ≤ now + ttlMs) :
    server.Accepts config model link later ↔
      request.query.Kept ∧ KeepsOrder model request.query ∧
        ∀ last ∈ items.getLast?, server.TokenFits config model request now nonce last := by
  obtain ⟨descriptors, last, token, hdescriptors, hlast, rfl, htoken⟩ := listPage_link hpage
  rw [accepts_buildNextLink_iff hdescriptors htoken hparse hlater, hlast]
  simp only [Option.mem_def, Option.some.injEq, forall_eq']

/-! ## Two requests to one server -/

/-- A server on which every message has the one digest that the sample needs. -/
def sampleServer (digest : Text) : Server where
  hmac _ _ := digest
  rt := .ascii
  localeCompare := compareText
  parseQuery := .ofPairs
  route path := path

def sampleConfig : Config := ⟨"s3cret".toList, none⟩

def idKey : Text := "id".toList

def sampleModel : EntityModel where
  properties := [idKey]
  structuredPaths := []
  idProperties := [idKey]
  deltaField := none
  identifiers := by
    intro name hname
    rw [List.mem_singleton.mp hname]
    exact ⟨by decide, by decide⟩
  paths := by simp
  idProperties_mem := by simp
  deltaField_mem := by simp

def sampleRow (id : Int) : Row := fun key => if key = idKey then .num id else .undefined

/-- `GET /Items` with some parameters. -/
def sampleRequest (params : SearchParams) : Request := ⟨"/Items".toList, .ofPairs params⟩

/-- The first of two rows, and the link to the second. -/
def samplePage (digest : Text) (params : SearchParams) :
    Except HttpError (List Row × Option Link) :=
  (sampleServer digest).listPage sampleConfig sampleModel (sampleRequest params) 1700000000000
    "AAAAAAAAAAAAAAAA".toList (fun _ _ => [sampleRow 1, sampleRow 2]) 1

theorem samplePage_link {digest : Text} {params : SearchParams}
    (h : (samplePage digest params).toOption.any fun page =>
      page.1.map (· idKey) = [.num 1] && page.2.isSome) :
    ∃ items link, samplePage digest params = .ok (items, some link) ∧
      items.map (· idKey) = [.num 1] := by
  cases hpage : samplePage digest params with
  | error e =>
    rw [hpage] at h
    cases h
  | ok page =>
    obtain ⟨items, link⟩ := page
    rw [hpage] at h
    simp only [Except.toOption, Option.any_some, Bool.and_eq_true, decide_eq_true_eq] at h
    obtain ⟨link, rfl⟩ := Option.isSome_iff_exists.mp h.2
    exact ⟨items, link, rfl, h.1⟩

/-- A query of one parameter. -/
theorem entries_ofPairs_single (key value : Text) :
    (Query.ofPairs [(key, value)]).entries = [(key, .text value)] := by
  simp [Query.ofPairs, groupPairs, gather, valuesOf, withoutKey]

def countKey : Text := "$count".toList

def countParams : SearchParams := [(countKey, "true".toList)]

def countDigest : Text := "6lfdtTqg1KRK8gGsZUlEF_PNWlylXqjDwUiG2v8yXH8".toList

theorem buildSkipTokenContext_count :
    (sampleServer countDigest).buildSkipTokenContext (sampleRequest countParams) =
      "GET:/Items?%24count=true".toList := by
  have hparams : contextParams (sampleRequest countParams).query =
      [(countKey, "true".toList)] := by
    have hkey : isSkipParameter countKey = false := by decide
    rw [contextParams, sampleRequest, countParams, entries_ofPairs_single, List.flatMap_singleton,
      contextEntry, if_neg (by rw [hkey]; exact Bool.false_ne_true), canonicalValues,
      QueryValue.canonicalize]
    · rfl
    · intro entries h
      cases h
  rw [buildSkipTokenContext, hparams]
  decide +kernel

theorem accepts_nextLink_iff_count : ∃ items link,
    samplePage countDigest countParams = .ok (items, some link) ∧
      (sampleServer countDigest).Accepts sampleConfig sampleModel link 1700000900000 := by
  obtain ⟨items, link, hpage, hitems⟩ := @samplePage_link countDigest countParams
    (by decide +kernel)
  have hlater : ∀ ttlMs ∈ (tokenOptions sampleConfig).ttlMs,
      (1700000900000 : Int) ≤ 1700000000000 + ttlMs := by decide +kernel
  refine ⟨items, link, hpage, (accepts_nextLink_iff hpage rfl hlater).mpr ⟨?_, ?_, ?_⟩⟩
  · rw [Query.Kept, sampleRequest, countParams, entries_ofPairs_single]
    simp [QueryValue.Kept]
  · intro deltaField hdelta
    cases hdelta
  · intro last hlast descriptors values hdescriptors hvalues
    have hid : last idKey = .num 1 := by
      have hmem : last idKey ∈ items.map (· idKey) :=
        List.mem_map_of_mem (List.mem_of_getLast? hlast)
      rwa [hitems, List.mem_singleton] at hmem
    have horder : (requestDescriptors sampleModel (sampleRequest countParams).query).toOption =
        some [⟨idKey, .asc⟩] := by decide +kernel
    rw [hdescriptors] at horder
    cases horder
    have htoken : (sampleServer countDigest).skipTokenValues last [⟨idKey, .asc⟩] =
        .ok (some ["1".toList]) := by
      rw [skipTokenValues, hid]
      rfl
    have hdelta : withDelta sampleModel.deltaField [⟨idKey, .asc⟩] = [⟨idKey, .asc⟩] := rfl
    rw [hdelta, htoken] at hvalues
    cases hvalues
    rw [hdelta, skipTokenEnvelope, skipTokenPayload, buildSkipTokenContext_count]
    decide +kernel

def noteParams : SearchParams := [("note".toList, [])]

def noteDigest : Text := "yDgkf0kRFjBaeFpnjLVMXk6HYL35surxitouHPPqfqs".toList

/-- The link for a request with an empty parameter is refused at once. -/
theorem not_accepts_nextLink_note : ∃ items link,
    samplePage noteDigest noteParams = .ok (items, some link) ∧
      ¬ (sampleServer noteDigest).Accepts sampleConfig sampleModel link 1700000000000 := by
  obtain ⟨items, link, hpage, _⟩ := @samplePage_link noteDigest noteParams (by decide +kernel)
  have hlater : ∀ ttlMs ∈ (tokenOptions sampleConfig).ttlMs,
      (1700000000000 : Int) ≤ 1700000000000 + ttlMs := by decide +kernel
  refine ⟨items, link, hpage, ?_⟩
  obtain ⟨descriptors, last, token, hdescriptors, _, rfl, htoken⟩ := listPage_link hpage
  rw [accepts_buildNextLink_iff hdescriptors htoken rfl hlater]
  rintro ⟨hkept, _⟩
  rw [Query.Kept, sampleRequest, noteParams, entries_ofPairs_single] at hkept
  exact hkept _ List.mem_cons_self (by decide) rfl

end Server

end LoopbackOData
