import LoopbackOData.Js
import LoopbackOData.Library.Dictionary
import LoopbackOData.Library.Separated

/-!
# Includes that the client did not ask for

Filters, lambdas and `$apply` need relations that are not expanded. Their paths are added to the
include list of the query, and what was added is remembered as a list of paths.
-/

namespace LoopbackOData

namespace Injecting

set_option autoImplicit false

/-- The name of a relation, an identifier; it can be a property that is assigned to. -/
structure RelationName where
  text : Text
  nonempty : text ≠ []
  noSlash : '/' ∉ text
  notPrototype : text ≠ prototypeKey
  deriving DecidableEq

abbrev IncludePath := List RelationName

def pathTexts (path : IncludePath) : List Text := path.map RelationName.text

/-- The relation and the includes of its scope; the other properties of a scope are not read. -/
inductive NormalizedInclusion where
  | mk (relation : RelationName) (nested : List NormalizedInclusion)

def NormalizedInclusion.relation : NormalizedInclusion → RelationName
  | .mk relation _ => relation

/-! ## Paths of an include list -/

mutual

/-- `visit` of `extractIncludePaths`, at one entry. -/
def visitEntry (before : IncludePath) : NormalizedInclusion → List IncludePath
  | .mk relation nested =>
    (before ++ [relation]) :: visitEntries (before ++ [relation]) nested

def visitEntries (before : IncludePath) : List NormalizedInclusion → List IncludePath
  | [] => []
  | entry :: entries => visitEntry before entry ++ visitEntries before entries

end

def extractIncludePaths (entries : List NormalizedInclusion) : List IncludePath :=
  visitEntries [] entries

def includePathKey (path : IncludePath) : Text := ['/'].intercalate (pathTexts path)

/-- The loop of `mergeIncludePaths`, with the keys seen so far. -/
def mergeUnseen : List Text → List IncludePath → List IncludePath
  | _, [] => []
  | seen, path :: paths =>
    if includePathKey path = [] ∨ includePathKey path ∈ seen then mergeUnseen seen paths
    else path :: mergeUnseen (includePathKey path :: seen) paths

def mergeIncludePaths (paths : List IncludePath) : List IncludePath := mergeUnseen [] paths

def diffIncludePaths (before after : List IncludePath) : List IncludePath :=
  after.filter fun path => includePathKey path ∉ before.map includePathKey

/-! ## Adding to an include list -/

/-- The nested includes of the first entry for the relation, changed in place; an entry that is not
there yet is pushed. -/
def upsertEntry (current : RelationName)
    (change : List NormalizedInclusion → List NormalizedInclusion) :
    List NormalizedInclusion → List NormalizedInclusion
  | [] => [.mk current (change [])]
  | .mk relation nested :: entries =>
    if relation = current then .mk relation (change nested) :: entries
    else .mk relation nested :: upsertEntry current change entries

def ensureIncludePath : IncludePath → List NormalizedInclusion → List NormalizedInclusion
  | [], entries => entries
  | current :: rest, entries => upsertEntry current (ensureIncludePath rest) entries

/-- One addition: the entry that is there, or the relation alone. -/
def addRelation (merged : Dictionary RelationName NormalizedInclusion) (relation : RelationName) :
    Dictionary RelationName NormalizedInclusion :=
  Dictionary.set merged relation ((Dictionary.get merged relation).getD (.mk relation []))

/-- `mergeIncludes` for additions without a scope: an entry keeps the one that it has. -/
def mergeIncludes (target : List NormalizedInclusion) (additions : List RelationName) :
    List NormalizedInclusion :=
  let merged := (Dictionary.empty).setAll (target.map fun entry => (entry.relation, entry))
  (additions.foldl addRelation merged).map Prod.snd

/-- What one part of a query adds: the paths of lambdas and of filters over navigation properties,
or the relations of `$apply`. -/
inductive Injection where
  | paths (added : List IncludePath)
  | relations (added : List RelationName)

def Injection.requested : Injection → List IncludePath
  | .paths added => added
  | .relations added => added.map fun relation => [relation]

def Injection.apply (entries : List NormalizedInclusion) : Injection → List NormalizedInclusion
  | .paths added => added.foldl (fun entries path => ensureIncludePath path entries) entries
  | .relations added => if added = [] then entries else mergeIncludes entries added

/-- The include list and the paths that have been injected into it. -/
structure InjectedIncludes where
  entries : List NormalizedInclusion
  injectedIncludePaths : List IncludePath := []

def InjectedIncludes.inject (state : InjectedIncludes) (injection : Injection) :
    InjectedIncludes :=
  let after := injection.apply state.entries
  { entries := after
    injectedIncludePaths := state.injectedIncludePaths ++
      diffIncludePaths (extractIncludePaths state.entries) (extractIncludePaths after) }

/-- The include list of the client: each relation is there once. -/
structure ClientIncludes where
  entries : List NormalizedInclusion
  distinct : (entries.map NormalizedInclusion.relation).Nodup

def ClientIncludes.paths (client : ClientIncludes) : List IncludePath :=
  extractIncludePaths client.entries

def ClientIncludes.inject (client : ClientIncludes) (injections : List Injection) :
    InjectedIncludes :=
  injections.foldl InjectedIncludes.inject { entries := client.entries }

/-! ## The paths as a set -/

/-- A path leads along the entries. -/
def Includes : List NormalizedInclusion → IncludePath → Prop
  | _, [] => False
  | entries, relation :: rest =>
    ∃ nested, .mk relation nested ∈ entries ∧ (rest = [] ∨ Includes nested rest)

mutual

theorem mem_visitEntry {before path : IncludePath} : ∀ entry : NormalizedInclusion,
    path ∈ visitEntry before entry ↔
      ∃ rest, path = before ++ rest ∧ Includes [entry] rest
  | .mk relation nested => by
    rw [visitEntry, List.mem_cons, mem_visitEntries nested]
    constructor
    · rintro (rfl | ⟨rest, rfl, hrest⟩)
      · exact ⟨[relation], rfl, nested, List.mem_singleton_self _, .inl rfl⟩
      · exact ⟨relation :: rest, by simp, nested, List.mem_singleton_self _, .inr hrest⟩
    · rintro ⟨rest, rfl, hrest⟩
      cases rest with
      | nil => exact hrest.elim
      | cons first rest =>
        obtain ⟨nested', hmem, hrest⟩ := hrest
        obtain ⟨rfl, rfl⟩ := NormalizedInclusion.mk.inj (List.mem_singleton.mp hmem)
        rcases hrest with rfl | hrest
        · exact .inl rfl
        · exact .inr ⟨rest, by simp, hrest⟩

theorem mem_visitEntries {before path : IncludePath} : ∀ entries : List NormalizedInclusion,
    path ∈ visitEntries before entries ↔
      ∃ rest, path = before ++ rest ∧ Includes entries rest
  | [] => by
    rw [visitEntries]
    constructor
    · intro h
      cases h
    · rintro ⟨rest, -, hrest⟩
      cases rest with
      | nil => exact hrest.elim
      | cons first rest =>
        obtain ⟨nested, hmem, -⟩ := hrest
        cases hmem
  | entry :: entries => by
    rw [visitEntries, List.mem_append, mem_visitEntry entry, mem_visitEntries entries]
    have hcons : ∀ rest, Includes (entry :: entries) rest ↔
        Includes [entry] rest ∨ Includes entries rest := by
      intro rest
      cases rest with
      | nil => simp [Includes]
      | cons first rest => simp [Includes, or_and_right, exists_or]
    simp only [hcons, and_or_left, exists_or]

end

theorem mem_extractIncludePaths {path : IncludePath} {entries : List NormalizedInclusion} :
    path ∈ extractIncludePaths entries ↔ Includes entries path := by
  rw [extractIncludePaths, mem_visitEntries]
  simp

theorem ne_nil_of_includes {path : IncludePath} {entries : List NormalizedInclusion}
    (h : Includes entries path) : path ≠ [] := by
  rintro rfl
  exact h

/-- A path leads over all of its prefixes. -/
theorem includes_of_longer {path longer : IncludePath} {entries : List NormalizedInclusion}
    (h : Includes entries longer) (hshorter : path <+: longer) (hne : path ≠ []) :
    Includes entries path := by
  induction path generalizing longer entries with
  | nil => exact absurd rfl hne
  | cons relation path ih =>
    obtain ⟨suffix, rfl⟩ := hshorter
    obtain ⟨nested, hmem, hrest⟩ := h
    refine ⟨nested, hmem, ?_⟩
    by_cases hpath : path = []
    · exact .inl hpath
    · rcases hrest with hnil | hrest
      · exact absurd (List.append_eq_nil_iff.mp hnil).1 hpath
      · exact .inr (ih hrest (List.prefix_append _ _) hpath)

/-! ### Keys -/

theorem pathTexts_injective : Function.Injective pathTexts := by
  refine List.map_injective_iff.mpr fun a b h => ?_
  cases a
  cases b
  congr

theorem includePathKey_inj {path path' : IncludePath} :
    includePathKey path = includePathKey path' ↔ path = path' := by
  constructor
  · intro h
    refine pathTexts_injective (Separated.intercalate_inj ?_ ?_ ?_ ?_ h)
    · exact List.forall_mem_map.mpr fun relation _ => relation.noSlash
    · exact List.forall_mem_map.mpr fun relation _ => relation.noSlash
    · exact List.forall_mem_map.mpr fun relation _ => relation.nonempty
    · exact List.forall_mem_map.mpr fun relation _ => relation.nonempty
  · rintro rfl
    rfl

theorem includePathKey_eq_nil {path : IncludePath} : includePathKey path = [] ↔ path = [] :=
  @includePathKey_inj path []

theorem mem_map_includePathKey {path : IncludePath} {paths : List IncludePath} :
    includePathKey path ∈ paths.map includePathKey ↔ path ∈ paths := by
  rw [List.mem_map]
  simp [includePathKey_inj]

theorem mem_mergeUnseen {path : IncludePath} {seen paths : List IncludePath} :
    path ∈ mergeUnseen (seen.map includePathKey) paths ↔ path ∈ paths ∧ path ≠ [] ∧ path ∉ seen := by
  induction paths generalizing seen with
  | nil => simp [mergeUnseen]
  | cons first paths ih =>
    rw [mergeUnseen]
    split
    next hskip =>
      rw [mem_map_includePathKey, includePathKey_eq_nil] at hskip
      rw [ih, List.mem_cons]
      constructor
      · rintro ⟨hmem, hne, hseen⟩
        exact ⟨.inr hmem, hne, hseen⟩
      · rintro ⟨rfl | hmem, hne, hseen⟩
        · exact absurd hskip (not_or.mpr ⟨hne, hseen⟩)
        · exact ⟨hmem, hne, hseen⟩
    next hskip =>
      rw [mem_map_includePathKey, includePathKey_eq_nil, not_or] at hskip
      rw [← List.map_cons, List.mem_cons, ih, List.mem_cons, List.mem_cons, not_or]
      constructor
      · rintro (rfl | ⟨hmem, hne, -, hseen⟩)
        · exact ⟨.inl rfl, hskip⟩
        · exact ⟨.inr hmem, hne, hseen⟩
      · rintro ⟨rfl | hmem, hne, hseen⟩
        · exact .inl rfl
        · by_cases heq : path = first
          · exact .inl heq
          · exact .inr ⟨hmem, hne, heq, hseen⟩

theorem mem_mergeIncludePaths {path : IncludePath} {paths : List IncludePath} :
    path ∈ mergeIncludePaths paths ↔ path ∈ paths ∧ path ≠ [] := by
  rw [mergeIncludePaths]
  have h := @mem_mergeUnseen path [] paths
  simpa using h

theorem mem_diffIncludePaths {path : IncludePath} {before after : List IncludePath} :
    path ∈ diffIncludePaths before after ↔ path ∈ after ∧ path ∉ before := by
  rw [diffIncludePaths, List.mem_filter, decide_eq_true_eq, mem_map_includePathKey]

/-! ## What an injection adds -/

theorem includes_cons {entry : NormalizedInclusion} {entries : List NormalizedInclusion}
    {path : IncludePath} :
    Includes (entry :: entries) path ↔ Includes [entry] path ∨ Includes entries path := by
  cases path with
  | nil => simp [Includes]
  | cons first rest => simp [Includes, or_and_right, exists_or]

theorem includes_singleton {relation first : RelationName} {nested : List NormalizedInclusion}
    {rest : IncludePath} :
    Includes [.mk relation nested] (first :: rest) ↔
      first = relation ∧ (rest = [] ∨ Includes nested rest) := by
  simp only [Includes, List.mem_singleton, NormalizedInclusion.mk.injEq]
  constructor
  · rintro ⟨_, ⟨rfl, rfl⟩, hrest⟩
    exact ⟨rfl, hrest⟩
  · rintro ⟨rfl, hrest⟩
    exact ⟨nested, ⟨rfl, rfl⟩, hrest⟩

theorem includes_upsertEntry {current first : RelationName} {rest added : IncludePath}
    {change : List NormalizedInclusion → List NormalizedInclusion}
    (hchange : ∀ nested path, Includes (change nested) path ↔
      Includes nested path ∨ path ≠ [] ∧ path <+: added) (entries : List NormalizedInclusion) :
    Includes (upsertEntry current change entries) (first :: rest) ↔
      Includes entries (first :: rest) ∨ first :: rest <+: current :: added := by
  have hnested (nested : List NormalizedInclusion) :
      (rest = [] ∨ Includes (change nested) rest) ↔
        (rest = [] ∨ Includes nested rest) ∨ rest <+: added := by
    rw [hchange]
    by_cases hrest : rest = []
    · simp [hrest]
    · simp [hrest]
  induction entries with
  | nil =>
    rw [upsertEntry, includes_singleton, hnested, List.cons_prefix_cons]
    have hempty : ¬ Includes [] (first :: rest) := by simp [Includes]
    have hempty' : Includes [] rest → rest <+: added := by
      intro h
      cases rest with
      | nil => exact List.nil_prefix
      | cons r rest => simp [Includes] at h
    constructor
    · rintro ⟨rfl, (rfl | h) | h⟩
      · exact .inr ⟨rfl, List.nil_prefix⟩
      · exact .inr ⟨rfl, hempty' h⟩
      · exact .inr ⟨rfl, h⟩
    · rintro (h | ⟨rfl, h⟩)
      · exact absurd h hempty
      · exact ⟨rfl, .inr h⟩
  | cons entry entries ih =>
    obtain ⟨relation, nested⟩ := entry
    rw [upsertEntry]
    split
    next heq =>
      subst heq
      rw [includes_cons, includes_singleton, hnested, includes_cons, includes_singleton,
        List.cons_prefix_cons]
      tauto
    next =>
      rw [includes_cons, @includes_cons _ entries, or_assoc]
      exact or_congr Iff.rfl ih

theorem includes_ensureIncludePath {path added : IncludePath} {entries : List NormalizedInclusion} :
    Includes (ensureIncludePath added entries) path ↔
      Includes entries path ∨ path ≠ [] ∧ path <+: added := by
  induction added generalizing path entries with
  | nil =>
    rw [ensureIncludePath, List.prefix_nil]
    tauto
  | cons current added ih =>
    cases path with
    | nil => simp [Includes]
    | cons first rest =>
      rw [ensureIncludePath, includes_upsertEntry fun _ _ => ih]
      simp

/-- What the entries are after an injection: those of before, and all prefixes of what is
requested. -/
def Adds (before after : List NormalizedInclusion) (requested : List IncludePath) : Prop :=
  ∀ path, Includes after path ↔
    Includes before path ∨ path ≠ [] ∧ ∃ added ∈ requested, path <+: added

theorem adds_foldl_ensureIncludePath (paths : List IncludePath)
    (entries : List NormalizedInclusion) :
    Adds entries (paths.foldl (fun entries path => ensureIncludePath path entries) entries)
      paths := by
  induction paths generalizing entries with
  | nil =>
    intro path
    simp
  | cons first paths ih =>
    intro path
    rw [List.foldl_cons, ih, includes_ensureIncludePath, List.exists_mem_cons_iff]
    tauto

/-! ### The relations of `$apply` -/

/-- Entries that are kept under their own relations. -/
structure Keyed (merged : Dictionary RelationName NormalizedInclusion) : Prop where
  distinct : Dictionary.Distinct merged
  own : ∀ pair ∈ merged, pair.2.relation = pair.1

theorem Keyed.includes_iff {merged : Dictionary RelationName NormalizedInclusion}
    (h : Keyed merged) {first : RelationName} {rest : IncludePath} :
    Includes (merged.map Prod.snd) (first :: rest) ↔
      ∃ nested, Dictionary.get merged first = some (.mk first nested) ∧
        (rest = [] ∨ Includes nested rest) := by
  rw [Includes]
  refine exists_congr fun nested => and_congr_left fun _ => ?_
  rw [← h.distinct.mem_iff, List.mem_map]
  constructor
  · rintro ⟨pair, hpair, hentry⟩
    have hkey := h.own pair hpair
    rw [hentry] at hkey
    have hpair' : pair = (first, .mk first nested) := Prod.ext hkey.symm hentry
    exact hpair' ▸ hpair
  · intro hpair
    exact ⟨_, hpair, rfl⟩

theorem Keyed.relation_of_get {merged : Dictionary RelationName NormalizedInclusion}
    (h : Keyed merged) {relation : RelationName} {entry : NormalizedInclusion}
    (hget : Dictionary.get merged relation = some entry) :
    ∃ nested, entry = .mk relation nested := by
  have hown := h.own _ (h.distinct.mem_iff.mpr hget)
  obtain ⟨own, nested⟩ := entry
  obtain rfl : own = relation := hown
  exact ⟨nested, rfl⟩

theorem Keyed.addRelation {merged : Dictionary RelationName NormalizedInclusion}
    (h : Keyed merged) (relation : RelationName) : Keyed (addRelation merged relation) where
  distinct := h.distinct.set
  own := by
    intro pair hpair
    rcases Dictionary.mem_set hpair with rfl | hpair
    · cases hget : Dictionary.get merged relation with
      | none => rfl
      | some entry => exact h.own _ (h.distinct.mem_iff.mpr hget)
    · exact h.own pair hpair

theorem Keyed.adds_addRelation {merged : Dictionary RelationName NormalizedInclusion}
    (h : Keyed merged) (relation : RelationName) :
    Adds (merged.map Prod.snd) ((Injecting.addRelation merged relation).map Prod.snd)
      [[relation]] := by
  intro path
  cases path with
  | nil => simp [Includes]
  | cons first rest =>
    rw [(h.addRelation relation).includes_iff, h.includes_iff, Injecting.addRelation,
      Dictionary.get_set]
    simp only [List.mem_singleton, exists_eq_left, List.cons_prefix_cons, List.prefix_nil, ne_eq,
      reduceCtorEq, not_false_eq_true, true_and]
    by_cases heq : relation = first
    · subst heq
      rw [if_pos rfl]
      cases hget : Dictionary.get merged relation with
      | some entry =>
        obtain ⟨nested, rfl⟩ := h.relation_of_get hget
        -- the relation is there already
        simp only [Option.getD_some, Option.some.injEq, NormalizedInclusion.mk.injEq, true_and,
          exists_eq_left']
        tauto
      | none =>
        have hnone : Includes [] rest → rest = [] := by
          cases rest <;> simp [Includes]
        simp only [Option.getD_none, Option.some.injEq, NormalizedInclusion.mk.injEq, true_and,
          exists_eq_left', reduceCtorEq, false_and, exists_false, false_or]
        tauto
    · rw [if_neg heq]
      simp [Ne.symm heq]

theorem Keyed.foldl_addRelation {merged : Dictionary RelationName NormalizedInclusion}
    (h : Keyed merged) (additions : List RelationName) :
    Keyed (additions.foldl Injecting.addRelation merged) ∧
      Adds (merged.map Prod.snd) ((additions.foldl Injecting.addRelation merged).map Prod.snd)
        (additions.map fun relation => [relation]) := by
  induction additions generalizing merged with
  | nil =>
    refine ⟨h, fun path => ?_⟩
    simp
  | cons relation additions ih =>
    obtain ⟨hkeyed, hadds⟩ := ih (h.addRelation relation)
    refine ⟨hkeyed, fun path => ?_⟩
    rw [List.foldl_cons, hadds, h.adds_addRelation relation, List.map_cons,
      List.exists_mem_cons_iff, List.exists_mem_cons_iff]
    have hnone : ¬ ∃ added ∈ ([] : List IncludePath), path <+: added := by simp
    tauto

theorem keyed_entries {entries : List NormalizedInclusion}
    (h : (entries.map NormalizedInclusion.relation).Nodup) :
    Keyed (entries.map fun entry => (entry.relation, entry)) where
  distinct := by
    rw [Dictionary.Distinct, List.map_map]
    exact h
  own := List.forall_mem_map.mpr fun _ _ => rfl

/-- A list with each relation once, put into a map. -/
theorem keyed_setAll {entries : List NormalizedInclusion}
    (h : (entries.map NormalizedInclusion.relation).Nodup) :
    Keyed ((Dictionary.empty).setAll (entries.map fun entry => (entry.relation, entry))) ∧
      ∀ path, Includes (((Dictionary.empty).setAll
        (entries.map fun entry => (entry.relation, entry))).map Prod.snd) path ↔
          Includes entries path := by
  have hkeyed : Keyed ((Dictionary.empty).setAll
      (entries.map fun entry => (entry.relation, entry))) := by
    refine ⟨Dictionary.distinct_empty.setAll _, fun pair hpair => ?_⟩
    obtain ⟨before, after, hsplit, -⟩ := Dictionary.mem_setAll_empty.mp hpair
    refine (keyed_entries h).own pair ?_
    rw [hsplit]
    simp
  refine ⟨hkeyed, fun path => ?_⟩
  have hvalues : (entries.map fun entry => (entry.relation, entry)).map Prod.snd = entries := by
    rw [List.map_map]
    exact List.map_id entries
  cases path with
  | nil => simp [Includes]
  | cons first rest =>
    conv_rhs => rw [← hvalues]
    rw [hkeyed.includes_iff, (keyed_entries h).includes_iff, Dictionary.get_setAll,
      Dictionary.get_empty, Option.or_none, (keyed_entries h).distinct.get_reverse]

theorem relations_of_keyed {merged : Dictionary RelationName NormalizedInclusion}
    (h : Keyed merged) : ((merged.map Prod.snd).map NormalizedInclusion.relation).Nodup := by
  have hkeys : (merged.map Prod.snd).map NormalizedInclusion.relation = merged.map Prod.fst := by
    rw [List.map_map]
    exact List.map_congr_left h.own
  rw [hkeys]
  exact h.distinct

theorem relations_upsertEntry (current : RelationName)
    (change : List NormalizedInclusion → List NormalizedInclusion)
    (entries : List NormalizedInclusion) :
    (upsertEntry current change entries).map NormalizedInclusion.relation =
      if current ∈ entries.map NormalizedInclusion.relation then
        entries.map NormalizedInclusion.relation
      else entries.map NormalizedInclusion.relation ++ [current] := by
  induction entries with
  | nil => rfl
  | cons entry entries ih =>
    obtain ⟨relation, nested⟩ := entry
    rw [upsertEntry]
    by_cases heq : relation = current
    · rw [if_pos heq, if_pos (by simp [NormalizedInclusion.relation, heq])]
      rfl
    · rw [if_neg heq, List.map_cons, ih]
      have hmem : current ∈ (NormalizedInclusion.mk relation nested :: entries).map
          NormalizedInclusion.relation ↔ current ∈ entries.map NormalizedInclusion.relation := by
        simp [NormalizedInclusion.relation, Ne.symm heq]
      by_cases hcurrent : current ∈ entries.map NormalizedInclusion.relation
      · rw [if_pos hcurrent, if_pos (hmem.mpr hcurrent)]
        rfl
      · rw [if_neg hcurrent, if_neg fun h => hcurrent (hmem.mp h)]
        rfl

theorem distinct_ensureIncludePath {entries : List NormalizedInclusion}
    (h : (entries.map NormalizedInclusion.relation).Nodup) (path : IncludePath) :
    ((ensureIncludePath path entries).map NormalizedInclusion.relation).Nodup := by
  cases path with
  | nil => exact h
  | cons current rest =>
    rw [ensureIncludePath, relations_upsertEntry]
    split
    · exact h
    next hcurrent => exact List.nodup_append.mpr ⟨h, List.nodup_singleton _, by
        rintro relation hrelation _ hmem rfl
        exact hcurrent (List.mem_singleton.mp hmem ▸ hrelation)⟩

theorem distinct_foldl_ensureIncludePath {entries : List NormalizedInclusion}
    (h : (entries.map NormalizedInclusion.relation).Nodup) (paths : List IncludePath) :
    ((paths.foldl (fun entries path => ensureIncludePath path entries) entries).map
      NormalizedInclusion.relation).Nodup := by
  induction paths generalizing entries with
  | nil => exact h
  | cons path paths ih => exact ih (distinct_ensureIncludePath h path)

/-- Each part of the query adds what it requests, and keeps each relation once. -/
theorem adds_apply {entries : List NormalizedInclusion}
    (h : (entries.map NormalizedInclusion.relation).Nodup) (injection : Injection) :
    ((injection.apply entries).map NormalizedInclusion.relation).Nodup ∧
      Adds entries (injection.apply entries) injection.requested := by
  cases injection with
  | paths added =>
    exact ⟨distinct_foldl_ensureIncludePath h added, adds_foldl_ensureIncludePath added entries⟩
  | relations added =>
    rw [Injection.apply]
    by_cases hadded : added = []
    · subst hadded
      rw [if_pos rfl]
      refine ⟨h, fun path => ?_⟩
      simp [Injection.requested]
    · rw [if_neg hadded]
      obtain ⟨hkeyed, hsame⟩ := keyed_setAll h
      obtain ⟨hmerged, hadds⟩ := hkeyed.foldl_addRelation added
      refine ⟨relations_of_keyed hmerged, fun path => ?_⟩
      rw [← hsame path]
      exact hadds path

/-! ## A run of injections -/

/-- The injected paths are those of the list that the client's has not. -/
structure Tracks (client : List NormalizedInclusion) (requested : List IncludePath)
    (state : InjectedIncludes) : Prop where
  distinct : (state.entries.map NormalizedInclusion.relation).Nodup
  adds : Adds client state.entries requested
  injected : ∀ path, path ∈ state.injectedIncludePaths ↔
    Includes state.entries path ∧ ¬ Includes client path

theorem Tracks.inject {client : List NormalizedInclusion} {requested : List IncludePath}
    {state : InjectedIncludes} (h : Tracks client requested state) (injection : Injection) :
    Tracks client (requested ++ injection.requested) (state.inject injection) := by
  obtain ⟨hdistinct, hadds⟩ := adds_apply h.distinct injection
  have hall : Adds client (injection.apply state.entries) (requested ++ injection.requested) := by
    intro path
    rw [hadds, h.adds, or_assoc, ← and_or_left]
    simp only [List.mem_append, or_and_right, exists_or]
  refine ⟨hdistinct, hall, fun path => ?_⟩
  have hold : Includes client path → Includes state.entries path := fun hpath =>
    (h.adds path).mpr (.inl hpath)
  have hnew : Includes state.entries path → Includes (injection.apply state.entries) path :=
    fun hpath => (hadds path).mpr (.inl hpath)
  change path ∈ state.injectedIncludePaths ++ diffIncludePaths (extractIncludePaths state.entries)
    (extractIncludePaths (injection.apply state.entries)) ↔
    Includes (injection.apply state.entries) path ∧ ¬ Includes client path
  rw [List.mem_append, h.injected, mem_diffIncludePaths, mem_extractIncludePaths,
    mem_extractIncludePaths]
  tauto

theorem tracks_inject (client : ClientIncludes) (injections : List Injection) :
    Tracks client.entries (injections.flatMap Injection.requested) (client.inject injections) := by
  have hrun : ∀ (injections : List Injection) (requested : List IncludePath)
      (state : InjectedIncludes), Tracks client.entries requested state →
      Tracks client.entries (requested ++ injections.flatMap Injection.requested)
        (injections.foldl InjectedIncludes.inject state) := by
    intro injections
    induction injections with
    | nil =>
      intro requested state h
      simpa using h
    | cons injection injections ih =>
      intro requested state h
      rw [List.flatMap_cons, ← List.append_assoc, List.foldl_cons]
      exact ih _ _ (h.inject injection)
  refine hrun injections [] { entries := client.entries } ⟨client.distinct, ?_, ?_⟩
  · intro path
    simp
  · intro path
    simp

end Injecting

end LoopbackOData
