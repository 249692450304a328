import LoopbackOData.Etag.Preconditions

/-!
# Concurrent conditional writes

The repository calls of PUT, PATCH and DELETE requests on one entity, in any order. Each request
carries the tag of a state that its client has read.
-/

namespace LoopbackOData

set_option autoImplicit false

variable (conv : Conversions) (config : EtagConfig)

/-- A state of the entity in the store. -/
abbrev StoredEntity := {state : EtagState // WellTyped conv config state}

/-- A request, with the calls it makes before its write: `update` looks at the stored entity where
the payload has a foreign key to a composition parent, `delete` where it has composition children or
answers with the deleted entity. -/
inductive WriteRequest where
  | replace
  | update (parentKeys : Bool)
  | delete (composition representation : Bool)
  deriving DecidableEq, Repr

/-- How far a request is. `checked` remembers whether there is an entity for the response. -/
inductive Progress where
  | unsent
  | sent
  | checked (entityForResponse : Bool)
  | written
  | succeeded
  | failed
  deriving DecidableEq, Repr

/-- Whether the write is still to come. -/
def Progress.isPending : Progress → Bool
  | .sent => true
  | .checked _ => true
  | _ => false

structure World (ι : Type) where
  entity : Option (StoredEntity conv config)
  /-- The states that the clients have read. -/
  seen : ι → Option (StoredEntity conv config)
  progress : ι → Progress
  /-- The writes so far, the latest first, each with the state that it has replaced. -/
  writes : List (ι × StoredEntity conv config)

/-- A client reads the entity and sends its request, a request makes its next call, with the state
that a write of it leaves, or a request fails. -/
inductive Action (ι : Type) where
  | send (i : ι)
  | call (i : ι) (next : StoredEntity conv config)
  | fail (i : ι)

variable {conv config} {ι : Type} [DecidableEq ι]

namespace World

/-! ## The calls of the three operations -/

def advance (w : World conv config ι) (i : ι) (progress : Progress) : World conv config ι :=
  { w with progress := Function.update w.progress i progress }

def write (w : World conv config ι) (i : ι) (existing : StoredEntity conv config)
    (next : Option (StoredEntity conv config)) : World conv config ι :=
  { w with entity := next, writes := (i, existing) :: w.writes }

/-- The `If-Match` header of a request. -/
def header (w : World conv config ι) (i : ι) : Option Text :=
  (w.seen i).bind fun state => encodeEtagToken conv config state.1

def send (w : World conv config ι) (i : ι) : World conv config ι :=
  match w.progress i, w.entity with
  | .unsent, some existing =>
    if (encodeEtagToken conv config existing.1).isSome then
      { w with seen := Function.update w.seen i (some existing) }.advance i .sent
    else w
  | _, _ => w

/-- `findById` for the response of a write. -/
def respond (w : World conv config ι) (i : ι) : World conv config ι :=
  w.advance i (if w.entity.isSome then .succeeded else .failed)

/-- What a call with the conditional where of the request finds. -/
def selected (w : World conv config ι) (i : ι) : Option (StoredEntity conv config) :=
  w.entity.filter fun existing => conditionalWhereSelects conv config existing.1 (w.header i)

/-- `findById` and the comparison of tags, `replaceById`, and `findById`. -/
def replace (w : World conv config ι) (i : ι) (next : StoredEntity conv config) :
    World conv config ι :=
  match w.progress i, w.entity with
  | .sent, some existing =>
    if replacePrecondition conv config existing.1 (w.header i) then w.advance i (.checked true)
    else w.advance i .failed
  | .sent, none => w.advance i .failed
  | .checked _, some existing => (w.write i existing (some next)).advance i .written
  | .checked _, none => w.advance i .failed
  | .written, _ => w.respond i
  | _, _ => w

def updateAll (w : World conv config ι) (i : ι) (next : StoredEntity conv config) :
    World conv config ι :=
  match w.selected i with
  | some existing => (w.write i existing (some next)).advance i .written
  | none => w.advance i .failed

/-- `findOne` for the composition parents' keys, `updateAll`, and `findById`. -/
def update (w : World conv config ι) (parentKeys : Bool) (i : ι)
    (next : StoredEntity conv config) : World conv config ι :=
  match w.progress i with
  | .sent =>
    if parentKeys then
      w.advance i (if (w.selected i).isSome then .checked true else .failed)
    else w.updateAll i next
  | .checked _ => w.updateAll i next
  | .written => w.respond i
  | _ => w

def deleteAll (w : World conv config ι) (i : ι) (entityForResponse : Bool) :
    World conv config ι :=
  match w.selected i with
  | some existing =>
    (w.write i existing none).advance i (if entityForResponse then .succeeded else .failed)
  | none => w.advance i .failed

/-- `findOne` for the composition children or the response, and `deleteAll`. -/
def delete (w : World conv config ι) (composition representation : Bool) (i : ι) :
    World conv config ι :=
  match w.progress i with
  | .sent =>
    if composition then
      w.advance i (if (w.selected i).isSome then .checked true else .failed)
    else if representation then w.advance i (.checked (w.selected i).isSome)
    else w.deleteAll i true
  | .checked entityForResponse => w.deleteAll i entityForResponse
  | _ => w

def fail (w : World conv config ι) (i : ι) : World conv config ι :=
  match w.progress i with
  | .sent | .checked _ | .written => w.advance i .failed
  | _ => w

variable (requests : ι → WriteRequest)

def step (w : World conv config ι) : Action conv config ι → World conv config ι
  | .send i => w.send i
  | .call i next => match requests i with
    | .replace => w.replace i next
    | .update parentKeys => w.update parentKeys i next
    | .delete composition representation => w.delete composition representation i
  | .fail i => w.fail i

def run (w : World conv config ι) (actions : List (Action conv config ι)) : World conv config ι :=
  actions.foldl (step requests) w

structure Initial (w : World conv config ι) : Prop where
  progress : ∀ i, w.progress i = .unsent
  seen : ∀ i, w.seen i = none
  writes : w.writes = []

/-! ## What a step does -/

/-- The condition on a write: the where clause of the call, or the comparison before it. -/
def Admits (w : World conv config ι) (i : ι) (existing : StoredEntity conv config) : Prop :=
  conditionalWhereSelects conv config existing.1 (w.header i) = true ∨
    requests i = .replace ∧ ∃ b, w.progress i = .checked b

/-- All that a step can do. -/
inductive Change (w : World conv config ι) :
    Action conv config ι → World conv config ι → Prop where
  | idle {a} : Change w a w
  | send {i existing tag} (hunsent : w.progress i = .unsent) (hentity : w.entity = some existing)
      (htag : encodeEtagToken conv config existing.1 = some tag) :
      Change w (.send i)
        ({ w with seen := Function.update w.seen i (some existing) }.advance i .sent)
  | advance {a i progress} (hsent : w.progress i ≠ .unsent) (hprogress : progress ≠ .unsent)
      (hwritten : progress = .written ∨ progress = .succeeded → w.progress i = .written) :
      Change w a (w.advance i progress)
  | write {i next existing stored progress} (hpending : (w.progress i).isPending = true)
      (hprogress : progress ≠ .unsent) (hentity : w.entity = some existing)
      (hadmits : w.Admits requests i existing) (hstored : stored = none ∨ stored = some next) :
      Change w (.call i next) ((w.write i existing stored).advance i progress)

omit [DecidableEq ι] in
theorem selected_eq_some {w : World conv config ι} {i : ι} {existing : StoredEntity conv config}
    (h : w.selected i = some existing) :
    w.entity = some existing ∧
      conditionalWhereSelects conv config existing.1 (w.header i) = true := by
  unfold selected at h
  rw [Option.filter_eq_some_iff] at h
  exact h

variable {requests}

omit [DecidableEq ι] in
theorem ne_unsent_of_isPending {w : World conv config ι} {i : ι}
    (hpending : (w.progress i).isPending = true) : w.progress i ≠ .unsent := by
  intro hunsent
  rw [hunsent] at hpending
  cases hpending

theorem change_updateAll {w : World conv config ι} {i : ι} {next : StoredEntity conv config}
    (hpending : (w.progress i).isPending = true) :
    Change requests w (.call i next) (w.updateAll i next) := by
  unfold updateAll
  split
  · next existing hselected =>
    obtain ⟨hentity, hselects⟩ := selected_eq_some hselected
    exact .write hpending nofun hentity (Or.inl hselects) (Or.inr rfl)
  · exact .advance (ne_unsent_of_isPending hpending) nofun (by simp)

theorem change_deleteAll {w : World conv config ι} {i : ι} {next : StoredEntity conv config}
    {entityForResponse : Bool} (hpending : (w.progress i).isPending = true) :
    Change requests w (.call i next) (w.deleteAll i entityForResponse) := by
  unfold deleteAll
  split
  · next existing hselected =>
    obtain ⟨hentity, hselects⟩ := selected_eq_some hselected
    refine .write hpending ?_ hentity (Or.inl hselects) (Or.inl rfl)
    cases entityForResponse <;> nofun
  · exact .advance (ne_unsent_of_isPending hpending) nofun (by simp)

theorem change_respond {w : World conv config ι} {i : ι} {a : Action conv config ι}
    (hwritten : w.progress i = .written) : Change requests w a (w.respond i) := by
  unfold respond
  apply Change.advance
  · rw [hwritten]
    nofun
  · split <;> nofun
  · intro
    exact hwritten

theorem change_step (w : World conv config ι) (a : Action conv config ι) :
    Change requests w a (w.step requests a) := by
  cases a with
  | send i =>
    show Change requests w (.send i) (w.send i)
    unfold send
    split
    · next existing hunsent hentity =>
      split
      · next htag =>
        obtain ⟨tag, htag⟩ := Option.isSome_iff_exists.mp htag
        exact .send hunsent hentity htag
      · exact .idle
    · exact .idle
  | fail i =>
    show Change requests w (.fail i) (w.fail i)
    unfold fail
    split <;> first
      | exact .idle
      | next hprogress => exact .advance (by rw [hprogress]; nofun) nofun (by simp)
  | call i next =>
    cases hrequest : requests i with
    | replace =>
      have hstep : w.step requests (.call i next) = w.replace i next := by simp [step, hrequest]
      rw [hstep]
      unfold replace
      split
      · next hsent _ =>
        split <;> exact .advance (by rw [hsent]; nofun) nofun (by simp)
      · next hsent _ => exact .advance (by rw [hsent]; nofun) nofun (by simp)
      · next b existing hchecked hentity =>
        refine .write (by rw [hchecked]; rfl) nofun hentity (Or.inr ?_) (Or.inr rfl)
        exact ⟨hrequest, b, hchecked⟩
      · next hchecked _ => exact .advance (by rw [hchecked]; nofun) nofun (by simp)
      · next hwritten => exact change_respond hwritten
      · exact .idle
    | update parentKeys =>
      have hstep : w.step requests (.call i next) = w.update parentKeys i next := by
        simp [step, hrequest]
      rw [hstep]
      unfold update
      split
      · next hsent =>
        have hpending : (w.progress i).isPending = true := by rw [hsent]; rfl
        split
        · apply Change.advance (ne_unsent_of_isPending hpending)
          · split <;> nofun
          · split <;> simp
        · exact change_updateAll hpending
      · next hchecked => exact change_updateAll (by rw [hchecked]; rfl)
      · next hwritten => exact change_respond hwritten
      · exact .idle
    | delete composition representation =>
      have hstep : w.step requests (.call i next) =
          w.delete composition representation i := by
        simp [step, hrequest]
      rw [hstep]
      unfold delete
      split
      · next hsent =>
        have hpending : (w.progress i).isPending = true := by rw [hsent]; rfl
        have hsent' := ne_unsent_of_isPending hpending
        split
        · apply Change.advance hsent'
          · split <;> nofun
          · split <;> simp
        · split
          · exact .advance hsent' nofun (by simp)
          · exact change_deleteAll hpending
      · next hchecked => exact change_deleteAll (by rw [hchecked]; rfl)
      · exact .idle

/-! ## The states that a tag stands for -/

section Tags

variable {state state' : EtagState} {tag : Text}

theorem isStoredAs_injective {a b value : EtagValue} (ha : a.isStoredAs value = true)
    (hb : b.isStoredAs value = true) : a = b := by
  cases value <;> cases a <;> cases b <;> simp_all [EtagValue.isStoredAs]

theorem eq_of_selectsDecoded {decoded : DecodedEtag}
    (h : selectsDecoded config state decoded = true)
    (h' : selectsDecoded config state' decoded = true) :
    ∀ p ∈ config.properties, state p.1 = state' p.1 := by
  intro p hp
  cases decoded with
  | single value =>
    match hproperties : config.properties with
    | [q] =>
      simp only [selectsDecoded, hproperties] at h h'
      rw [hproperties] at hp
      rw [List.mem_singleton.mp hp]
      exact isStoredAs_injective h h'
    | [] => simp [selectsDecoded, hproperties] at h
    | q :: q' :: properties => simp [selectsDecoded, hproperties] at h
  | composite values =>
    rw [selectsDecoded, List.all_eq_true] at h h'
    have hstored := h p hp
    have hstored' := h' p hp
    rw [Option.any_eq_true] at hstored hstored'
    obtain ⟨value, hvalue, hstored⟩ := hstored
    obtain ⟨value', hvalue', hstored'⟩ := hstored'
    rw [hvalue] at hvalue'
    cases hvalue'
    exact isStoredAs_injective hstored hstored'

theorem etagSegments_congr {properties : List (Text × EtagType)}
    (h : ∀ p ∈ properties, state p.1 = state' p.1) :
    etagSegments conv state properties = etagSegments conv state' properties := by
  induction properties with
  | nil => rfl
  | cons p properties ih =>
    rw [etagSegments, etagSegments, h p List.mem_cons_self,
      ih fun q hq => h q (List.mem_cons_of_mem _ hq)]

theorem tagText_congr (h : ∀ p ∈ config.properties, state p.1 = state' p.1) :
    tagText conv config state = tagText conv config state' := by
  unfold tagText
  match hproperties : config.properties with
  | [] => rfl
  | [p] => simp only [h p (by simp [hproperties])]
  | p :: p' :: properties =>
    simp only
    rw [etagSegments_congr]
    rw [← hproperties]
    exact h

/-- A tag is the weak tag of the text in it. -/
theorem encodeEtagToken_eq (conv : Conversions) (config : EtagConfig) :
    ∃ wrap : Text → Text, ∀ state,
      encodeEtagToken conv config state = (tagText conv config state).map (weakWrap ∘ wrap) := by
  match hproperties : config.properties with
  | [] => exact ⟨id, fun state => by simp [encodeEtagToken, tagText, hproperties]⟩
  | [p] => exact ⟨escapeEtagValue, fun state => by simp [encodeEtagToken, tagText, hproperties]⟩
  | p :: p' :: properties =>
    exact ⟨id, fun state => by simp [encodeEtagToken, tagText, hproperties]⟩

theorem encodeEtagToken_congr (h : tagText conv config state = tagText conv config state') :
    encodeEtagToken conv config state = encodeEtagToken conv config state' := by
  obtain ⟨wrap, hwrap⟩ := encodeEtagToken_eq conv config
  rw [hwrap, hwrap, h]

/-- Without a comma a tag is the only one of its header. -/
theorem parseIfMatch_of_tag (htag : encodeEtagToken conv config state = some tag)
    (hcomma : ',' ∉ tag) : parseIfMatch (some tag) = some (.values [tag]) := by
  obtain ⟨wrap, hwrap⟩ := encodeEtagToken_eq conv config
  rw [hwrap, Option.map_eq_some_iff] at htag
  obtain ⟨text, _, rfl⟩ := htag
  have hspace : isSpace 'W' = false ∧ isSpace '"' = false := by decide
  have htrim : trimText (weakWrap (wrap text)) = weakWrap (wrap text) := by
    apply trimText_of_ends
    · simp [weakWrap, hspace]
    · simp [weakWrap, List.getLast?_cons, hspace]
  have hsplit : (weakWrap (wrap text)).splitOn ',' = [weakWrap (wrap text)] := by
    have hpieces : ∀ piece ∈ [weakWrap (wrap text)], ',' ∉ piece := by simpa using hcomma
    have h := List.splitOn_intercalate ',' hpieces (List.cons_ne_nil _ _)
    rwa [List.intercalate_singleton] at h
  have hne : weakWrap (wrap text) ≠ [] ∧ weakWrap (wrap text) ≠ ['*'] := by simp [weakWrap]
  simp only [parseIfMatch, Function.comp_apply, htrim, hsplit, hne, if_false, List.map_cons,
    List.map_nil, List.filter_cons, List.filter_nil]
  simp [hne]

/-- A request that carries a tag writes to entities with this tag only. -/
theorem encodeEtagToken_of_admitted (hstate : WellTyped conv config state)
    (hstate' : WellTyped conv config state')
    (htag : encodeEtagToken conv config state = some tag) (hcomma : ',' ∉ tag)
    (h : conditionalWhereSelects conv config state' (some tag) = true ∨
      replacePrecondition conv config state' (some tag) = true) :
    encodeEtagToken conv config state' = some tag := by
  have hheader := parseIfMatch_of_tag htag hcomma
  have hconfig : config.properties ≠ [] := by
    intro hnil
    simp [encodeEtagToken, hnil] at htag
  obtain ⟨text, htext, htag'⟩ : ∃ text, tagText conv config state = some text ∧
      normaliseTagForComparison tag = text := by
    have hmatches : matchesEtag (encodeEtagToken conv config state) [tag] = true := by
      simp [htag, matchesEtag]
    rw [matchesEtag_iff] at hmatches
    obtain ⟨text, htext, hmem⟩ := hmatches
    rw [List.map_singleton, List.mem_singleton] at hmem
    exact ⟨text, htext, hmem.symm⟩
  rw [← htag]
  apply encodeEtagToken_congr
  rcases h with hselects | hreplace
  · rw [conditionalWhereSelects_iff hheader hconfig] at hselects
    obtain ⟨_, tag', hmem, hreads'⟩ := hselects
    rw [List.mem_singleton] at hmem
    subst hmem
    have htypes : ∀ p ∈ config.properties, p.2 ≠ .object := by
      intro p hp htype
      exact not_readsAs_of_object hstate' hp htype hreads'
    have hblank : normalizeHeaderValue tag' ≠ [] := by
      obtain ⟨decoded, hdecode, _⟩ := hreads'
      intro hblank
      simp [decodeEtagToken, hblank] at hdecode
    obtain ⟨decoded, hdecode, hselects⟩ := readsAs_of_text hstate htypes htext htag' hblank
    obtain ⟨decoded', hdecode', hselects'⟩ := hreads'
    rw [hdecode] at hdecode'
    cases hdecode'
    exact tagText_congr (eq_of_selectsDecoded hselects' hselects)
  · rw [replacePrecondition_iff hheader hconfig] at hreplace
    obtain ⟨text', htext', hmem⟩ := hreplace
    rw [List.map_singleton, List.mem_singleton, htag'] at hmem
    rw [htext', htext, hmem]

end Tags

/-! ## Runs -/

/-- The states that the entity has had, the current one first. -/
def states (w : World conv config ι) : List (StoredEntity conv config) :=
  w.entity.toList ++ w.writes.map Prod.snd

/-- Two states that do not have the same tag. -/
def TagsDiffer (a b : StoredEntity conv config) : Prop :=
  encodeEtagToken conv config a.1 = none ∨
    encodeEtagToken conv config a.1 ≠ encodeEtagToken conv config b.1

/-- Clients do not read a tag with a comma, at which their header would be split. -/
def PlainTags (w : World conv config ι) : Action conv config ι → Prop
  | .send _ => ∀ existing ∈ w.entity, ∀ tag ∈ encodeEtagToken conv config existing.1, ',' ∉ tag
  | _ => True

/-- A write gives the entity a tag that it has not had. -/
def FreshTags (w : World conv config ι) : Action conv config ι → Prop
  | .call i next => (w.progress i).isPending = true → ∀ state ∈ w.states, TagsDiffer next state
  | _ => True

/-- At `replaceById` the tag of the entity is still the one that was compared. -/
def CheckHolds (requests : ι → WriteRequest) (w : World conv config ι) :
    Action conv config ι → Prop
  | .call i _ => requests i = .replace → ∀ b, w.progress i = .checked b →
    ∀ existing ∈ w.entity, replacePrecondition conv config existing.1 (w.header i) = true
  | _ => True

/-- A property of all the steps of a run. -/
def AlongRun (requests : ι → WriteRequest)
    (P : World conv config ι → Action conv config ι → Prop) :
    World conv config ι → List (Action conv config ι) → Prop
  | _, [] => True
  | w, a :: actions => P w a ∧ AlongRun requests P (w.step requests a) actions

section Decidable

variable (requests : ι → WriteRequest)

instance (a b : StoredEntity conv config) : Decidable (TagsDiffer a b) := by
  unfold TagsDiffer
  infer_instance

instance (w : World conv config ι) : DecidablePred w.PlainTags
  | .send _ => by
    unfold PlainTags
    infer_instance
  | .call .. => isTrue trivial
  | .fail _ => isTrue trivial

instance (w : World conv config ι) : DecidablePred w.FreshTags
  | .call .. => by
    unfold FreshTags
    infer_instance
  | .send _ => isTrue trivial
  | .fail _ => isTrue trivial

instance (w : World conv config ι) : DecidablePred (w.CheckHolds requests)
  | .call .. => by
    unfold CheckHolds
    infer_instance
  | .send _ => isTrue trivial
  | .fail _ => isTrue trivial

instance AlongRun.decidable (P : World conv config ι → Action conv config ι → Prop)
    [∀ w a, Decidable (P w a)] : ∀ (w : World conv config ι) (actions : List _),
      Decidable (AlongRun requests P w actions)
  | _, [] => isTrue trivial
  | w, a :: actions =>
    haveI := AlongRun.decidable P (w.step requests a) actions
    inferInstanceAs (Decidable (P w a ∧ AlongRun requests P (w.step requests a) actions))

end Decidable

/-- No two requests with the same tag succeed, and a successful request has replaced the state that
its client has read, and no other. -/
structure NoLostUpdate (w : World conv config ι) : Prop where
  unique : ∀ i j, w.progress i = .succeeded → w.progress j = .succeeded →
    w.header i = w.header j → i = j
  replaced : ∀ i, w.progress i = .succeeded →
    ∃ state, w.seen i = some state ∧ ∀ existing, (i, existing) ∈ w.writes ↔ existing = state

/-- What holds in every world of a run. -/
structure Consistent (w : World conv config ι) : Prop where
  distinct : w.states.Pairwise TagsDiffer
  unsent : ∀ i, w.progress i = .unsent ↔ w.seen i = none
  seen : ∀ i state, w.seen i = some state → state ∈ w.states ∧
    ∃ tag, encodeEtagToken conv config state.1 = some tag ∧ ',' ∉ tag
  writes : ∀ i existing, (i, existing) ∈ w.writes →
    ∃ tag, w.header i = some tag ∧ encodeEtagToken conv config existing.1 = some tag
  answered : ∀ i, w.progress i = .written ∨ w.progress i = .succeeded →
    ∃ existing, (i, existing) ∈ w.writes

instance : Std.Symm (@TagsDiffer conv config) where
  symm a b h := by
    rcases h with hnone | hne
    · by_cases hb : encodeEtagToken conv config b.1 = none
      · exact Or.inl hb
      · right
        rw [hnone]
        exact hb
    · exact Or.inr hne.symm

omit [DecidableEq ι] in
theorem not_tagsDiffer {a b : StoredEntity conv config} {tag : Text}
    (ha : encodeEtagToken conv config a.1 = some tag)
    (hb : encodeEtagToken conv config b.1 = some tag) : ¬ TagsDiffer a b := by
  rintro (hnone | hne)
  · rw [ha] at hnone
    cases hnone
  · rw [ha, hb] at hne
    exact hne rfl

omit [DecidableEq ι] in
theorem consistent_initial {w : World conv config ι} (h : w.Initial) : w.Consistent where
  distinct := by
    rw [states, h.writes]
    cases w.entity <;> simp
  unsent i := by simp [h.progress, h.seen]
  seen i state hseen := by
    rw [h.seen] at hseen
    cases hseen
  writes i existing hmem := by
    rw [h.writes] at hmem
    cases hmem
  answered i hprogress := by
    rw [h.progress] at hprogress
    simp at hprogress

theorem consistent_change {w w' : World conv config ι} {a : Action conv config ι}
    (hw : w.Consistent) (hplain : w.PlainTags a) (hfresh : w.FreshTags a)
    (hholds : w.CheckHolds requests a) (hchange : Change requests w a w') : w'.Consistent := by
  cases hchange with
  | idle => exact hw
  | @send i existing tag hunsent hentity htag =>
    have hseen : w.seen i = none := (hw.unsent i).mp hunsent
    have hheader (j : ι) (hj : j ≠ i) : header ({ w with
        seen := Function.update w.seen i (some existing) }.advance i .sent) j = w.header j := by
      simp [header, advance, Function.update_of_ne hj]
    refine ⟨hw.distinct, ?_, ?_, ?_, ?_⟩
    · intro j
      by_cases hj : j = i
      · subst hj
        simp [advance]
      · simp [advance, Function.update_of_ne hj, hw.unsent]
    · intro j state hstate
      by_cases hj : j = i
      · subst hj
        simp only [advance, Function.update_self, Option.some.injEq] at hstate
        subst hstate
        refine ⟨?_, tag, htag, hplain _ hentity tag htag⟩
        show existing ∈ w.entity.toList ++ _
        simp [hentity]
      · simp only [advance, Function.update_of_ne hj] at hstate
        exact hw.seen j state hstate
    · intro j replaced hmem
      obtain ⟨tag', hheader', htag'⟩ := hw.writes j replaced hmem
      have hj : j ≠ i := by
        rintro rfl
        simp [header, hseen] at hheader'
      exact ⟨tag', (hheader j hj).trans hheader', htag'⟩
    · intro j hprogress
      by_cases hj : j = i
      · subst hj
        simp [advance] at hprogress
      · simp only [advance, Function.update_of_ne hj] at hprogress
        exact hw.answered j hprogress
  | @advance _ i progress hsent hprogress hwritten =>
    refine ⟨hw.distinct, ?_, hw.seen, hw.writes, ?_⟩
    · intro j
      by_cases hj : j = i
      · subst hj
        have hseen : w.seen j ≠ none := fun h => hsent ((hw.unsent j).mpr h)
        simp [advance, hprogress, hseen]
      · simp [advance, Function.update_of_ne hj, hw.unsent]
    · intro j hanswered
      by_cases hj : j = i
      · subst hj
        simp only [advance, Function.update_self] at hanswered
        exact hw.answered j (Or.inl (hwritten hanswered))
      · simp only [advance, Function.update_of_ne hj] at hanswered
        exact hw.answered j hanswered
  | @write i next existing stored progress hpending hprogress hentity hadmits hstored =>
    have hsent := ne_unsent_of_isPending hpending
    have hstates : w.states = existing :: w.writes.map Prod.snd := by simp [states, hentity]
    have hstates' : states ((w.write i existing stored).advance i progress) =
        stored.toList ++ w.states := by
      rw [hstates]
      rfl
    obtain ⟨state, hseen⟩ := Option.ne_none_iff_exists'.mp fun h => hsent ((hw.unsent i).mpr h)
    obtain ⟨_, tag, htag, hcomma⟩ := hw.seen i state hseen
    have hheader : w.header i = some tag := by simp [header, hseen, htag]
    have hexisting : encodeEtagToken conv config existing.1 = some tag := by
      apply encodeEtagToken_of_admitted state.2 existing.2 htag hcomma
      rw [← hheader]
      rcases hadmits with hselects | ⟨hreplace, b, hchecked⟩
      · exact Or.inl hselects
      · exact Or.inr (hholds hreplace b hchecked existing hentity)
    refine ⟨?_, ?_, ?_, ?_, ?_⟩
    · rw [hstates']
      rcases hstored with rfl | rfl
      · exact hw.distinct
      · exact List.pairwise_cons.mpr ⟨hfresh hpending, hw.distinct⟩
    · intro j
      by_cases hj : j = i
      · subst hj
        simp [advance, write, hprogress, hseen]
      · simp [advance, write, Function.update_of_ne hj, hw.unsent]
    · intro j state' hstate'
      obtain ⟨hmem, htag'⟩ := hw.seen j state' hstate'
      refine ⟨?_, htag'⟩
      rw [hstates']
      exact List.mem_append_right _ hmem
    · intro j replaced hmem
      rcases List.mem_cons.mp hmem with hpair | hmem
      · cases hpair
        exact ⟨tag, hheader, hexisting⟩
      · exact hw.writes j replaced hmem
    · intro j hanswered
      by_cases hj : j = i
      · subst hj
        exact ⟨existing, List.mem_cons_self⟩
      · simp only [advance, Function.update_of_ne hj] at hanswered
        obtain ⟨replaced, hmem⟩ := hw.answered j hanswered
        exact ⟨replaced, List.mem_cons_of_mem _ hmem⟩

omit [DecidableEq ι] in
theorem Consistent.noLostUpdate {w : World conv config ι} (hw : w.Consistent) :
    w.NoLostUpdate where
  unique i j hi hj hheader := by
    obtain ⟨existing, hexisting⟩ := hw.answered i (Or.inr hi)
    obtain ⟨existing', hexisting'⟩ := hw.answered j (Or.inr hj)
    obtain ⟨tag, htag, hencode⟩ := hw.writes i existing hexisting
    obtain ⟨tag', htag', hencode'⟩ := hw.writes j existing' hexisting'
    have hsame : tag = tag' := by
      rw [htag, htag'] at hheader
      exact Option.some.inj hheader
    subst hsame
    have hdistinct : w.writes.Pairwise fun x y => TagsDiffer x.2 y.2 :=
      List.pairwise_map.mp (List.pairwise_append.mp hw.distinct).2.1
    have hsymm : Std.Symm fun x y : ι × StoredEntity conv config => TagsDiffer x.2 y.2 :=
      ⟨fun _ _ h => symm h⟩
    by_contra hne
    have hdiffer := hdistinct.forall hexisting hexisting' fun h => hne (congrArg Prod.fst h)
    exact not_tagsDiffer hencode hencode' hdiffer
  replaced i hi := by
    obtain ⟨existing, hexisting⟩ := hw.answered i (Or.inr hi)
    obtain ⟨tag, htag, hencode⟩ := hw.writes i existing hexisting
    obtain ⟨state, hseen, hstate⟩ := Option.bind_eq_some_iff.mp htag
    have heq : ∀ replaced, (i, replaced) ∈ w.writes → replaced = state := by
      intro replaced hmem
      obtain ⟨tag', htag', hencode'⟩ := hw.writes i replaced hmem
      rw [htag] at htag'
      cases htag'
      by_contra hne
      have hmem' : replaced ∈ w.states := List.mem_append_right _ (List.mem_map_of_mem hmem)
      have hdiffer := hw.distinct.forall hmem' (hw.seen i state hseen).1 hne
      exact not_tagsDiffer hencode' hstate hdiffer
    refine ⟨state, hseen, fun replaced => ⟨heq replaced, ?_⟩⟩
    rintro rfl
    rwa [← heq existing hexisting]

theorem consistent_run {w : World conv config ι} (hw : w.Consistent)
    {actions : List (Action conv config ι)}
    (halong : AlongRun requests (fun w a => w.PlainTags a ∧ w.FreshTags a ∧
      w.CheckHolds requests a) w actions) : (w.run requests actions).Consistent := by
  induction actions generalizing w with
  | nil => exact hw
  | cons a actions ih =>
    obtain ⟨⟨hplain, hfresh, hholds⟩, halong⟩ := halong
    exact ih (consistent_change hw hplain hfresh hholds (change_step w a)) halong

/-- No update is lost in a run where the tags that clients read have no comma, the writes leave new
tags, and no `replaceById` comes after another write than the one that its request has seen. -/
theorem run_noLostUpdate {start : World conv config ι} (hstart : start.Initial)
    {actions : List (Action conv config ι)}
    (halong : AlongRun requests (fun w a => w.PlainTags a ∧ w.FreshTags a ∧
      w.CheckHolds requests a) start actions) :
    (start.run requests actions).NoLostUpdate :=
  (consistent_run (consistent_initial hstart) halong).noLostUpdate

end World

/-! ## Two requests -/

def revision (text : Text) : StoredEntity sampleConversions revisionConfig :=
  ⟨fun _ => .str text, by
    intro p hp
    rw [List.mem_singleton.mp hp]
    exact Or.inr trivial⟩

def revisionWorld : World sampleConversions revisionConfig Bool where
  entity := some (revision "r1".toList)
  seen _ := none
  progress _ := .unsent
  writes := []

theorem revisionWorld_initial : revisionWorld.Initial := ⟨fun _ => rfl, fun _ => rfl, rfl⟩

/-- Both clients read the entity, both requests compare its tag, and both write. -/
def interleaved : List (Action sampleConversions revisionConfig Bool) :=
  [.send false, .send true, .call false (revision "r2".toList), .call true (revision "r3".toList),
    .call false (revision "r2".toList), .call true (revision "r3".toList),
    .call false (revision "r2".toList), .call true (revision "r3".toList)]

/-- Two updates with the same tag: the later one fails. -/
theorem run_noLostUpdate_updates :
    (revisionWorld.run (fun _ => .update false) interleaved).NoLostUpdate := by
  apply World.run_noLostUpdate revisionWorld_initial
  decide +kernel

/-- Two replacements with the same tag both succeed. -/
theorem not_noLostUpdate : revisionWorld.Initial ∧
    World.AlongRun (fun _ => .replace) (fun w a => w.PlainTags a ∧ w.FreshTags a) revisionWorld
      interleaved ∧
    (revisionWorld.run (fun _ => .replace) interleaved).progress false = .succeeded ∧
    (revisionWorld.run (fun _ => .replace) interleaved).progress true = .succeeded ∧
    (revisionWorld.run (fun _ => .replace) interleaved).header false =
      (revisionWorld.run (fun _ => .replace) interleaved).header true := by
  exact ⟨revisionWorld_initial, by decide +kernel⟩

end LoopbackOData
