import LoopbackOData.Expand.Trees

/-!
# Merging includes

`mergeScopes` and `mergeInclusionList` show the union of the trees that their arguments show.
-/

namespace LoopbackOData

namespace Expand

set_option autoImplicit false

open RelationTree Dictionary

/-! ## Options -/

section Options

variable {os os' : List NodeOption}

theorem findSome?_exclusive {β : Type} {f : NodeOption → Option β} {kind : OptionKind}
    (hf : ∀ o b, f o = some b → o.kind = kind)
    (hkinds : ((os ++ os').map NodeOption.kind).Nodup) :
    os.findSome? f = none ∨ os'.findSome? f = none := by
  cases hfirst : os.findSome? f with
  | none => exact Or.inl rfl
  | some b =>
    refine Or.inr ?_
    obtain ⟨o, ho, hob⟩ := List.exists_of_findSome?_eq_some hfirst
    rw [List.findSome?_eq_none_iff]
    intro o' ho'
    cases hfo : f o' with
    | none => rfl
    | some b' =>
      rw [List.map_append] at hkinds
      have hsame : o.kind = o'.kind := (hf o b hob).trans (hf o' b' hfo).symm
      exact (List.disjoint_of_nodup_append hkinds (List.mem_map_of_mem ho)
        (hsame ▸ List.mem_map_of_mem ho')).elim

theorem or_eq_findSome?_append {β : Type} {f : NodeOption → Option β} {kind : OptionKind}
    {target incoming : Option β} (hf : ∀ o b, f o = some b → o.kind = kind)
    (hkinds : ((os ++ os').map NodeOption.kind).Nodup) (htarget : target = os.findSome? f)
    (hincoming : incoming = os'.findSome? f) :
    incoming.or target = (os ++ os').findSome? f := by
  rw [List.findSome?_append, htarget, hincoming]
  rcases findSome?_exclusive hf hkinds with h | h
  · rw [h, Option.or_none, Option.none_or]
  · rw [h, Option.or_none, Option.none_or]

theorem kind_of_names {o : NodeOption} {names : List Text} (h : o.names? = some names) :
    o.kind = .select := by
  cases o <;> first | rfl | cases h

theorem kind_of_clause {o : NodeOption} {clause : Where} (h : o.clause? = some clause) :
    o.kind = .filter := by
  cases o <;> first | rfl | cases h

theorem kind_of_order {o : NodeOption} {order : List Text} (h : o.order? = some order) :
    o.kind = .orderby := by
  cases o <;> first | rfl | cases h

theorem kind_of_limit {o : NodeOption} {limit : Nat} (h : o.limit? = some limit) :
    o.kind = .top := by
  cases o <;> first | rfl | cases h

theorem kind_of_offset {o : NodeOption} {offset : Nat} (h : o.offset? = some offset) :
    o.kind = .skip := by
  cases o <;> first | rfl | cases h

theorem Selects.mono {relations relations' fields names : List Text}
    (h : Selects relations fields names) (hrelations : ∀ name ∈ relations, name ∈ relations') :
    Selects relations' fields names where
  kept := h.kept
  written := by
    intro name hname
    rcases h.written name hname with hname | hname
    · exact Or.inl hname
    · exact Or.inr (hrelations name hname)

theorem selects_mergeFields {relations : List Text} {target incoming names names' : Option (List Text)}
    (htarget : Option.Rel (Selects relations) target names)
    (hincoming : Option.Rel (Selects relations) incoming names')
    (hexclusive : names = none ∨ names' = none) :
    Option.Rel (Selects relations) (mergeFields target incoming) (names.or names') := by
  rcases hexclusive with rfl | rfl
  · cases htarget
    rw [Option.none_or]
    cases hincoming with
    | none => exact .none
    | @some fields names h =>
      have hsame : mergeFields none (some fields) = some (fields.foldl projectRelationField []) := rfl
      rw [hsame]
      refine .some ⟨fun name hname => ?_, fun name hname => ?_⟩
      · exact (mem_foldl_projectRelationField _ _ _).mpr (Or.inr (h.kept name hname))
      · rcases (mem_foldl_projectRelationField _ _ _).mp hname with hname | hname
        · cases hname
        · exact h.written name hname
  · cases hincoming
    rw [Option.or_none]
    exact htarget

theorem whereClause_mergeWhere {target incoming : Option Where}
    (hexclusive : target = none ∨ incoming = none) :
    mergeWhere target incoming = target.or incoming := by
  rcases hexclusive with rfl | rfl
  · cases incoming <;> rfl
  · cases target <;> rfl

theorem fits_merge {target incoming : Scope} {includes : List Inclusion}
    (htarget : Fits target os) (hincoming : Fits incoming os')
    (hkinds : ((os ++ os').map NodeOption.kind).Nodup)
    (hkeys : ∀ name, name ∈ target.includes.map Prod.fst ∨ name ∈ incoming.includes.map Prod.fst →
      name ∈ includes.map Prod.fst) :
    Fits (.mk (target.options.merge incoming.options) includes) (os ++ os') where
  select := by
    rw [List.findSome?_append]
    refine selects_mergeFields ?_ ?_ (findSome?_exclusive (fun o b => kind_of_names) hkinds)
    · exact rel_mono htarget.select fun fields names h => h.mono fun name hname =>
        hkeys name (Or.inl hname)
    · exact rel_mono hincoming.select fun fields names h => h.mono fun name hname =>
        hkeys name (Or.inr hname)
  filter := by
    rw [List.findSome?_append, ← htarget.filter, ← hincoming.filter]
    apply whereClause_mergeWhere
    rw [htarget.filter, hincoming.filter]
    exact findSome?_exclusive (fun o b => kind_of_clause) hkinds
  orderby := or_eq_findSome?_append (fun o b => kind_of_order) hkinds htarget.orderby
    hincoming.orderby
  top := or_eq_findSome?_append (fun o b => kind_of_limit) hkinds htarget.top hincoming.top
  skip := or_eq_findSome?_append (fun o b => kind_of_offset) hkinds htarget.skip hincoming.skip

end Options

/-! ## Includes -/

theorem ShowsBelow.mono {scope : Option Scope} {a b : RelationTree} (h : ShowsBelow scope a)
    (hab : a = b) : ShowsBelow scope b := hab ▸ h

theorem showsBelow_some {scope : Scope} {tree : RelationTree} (h : Shows scope tree) :
    ShowsBelow (some scope) tree :=
  ⟨fun _ hs => Option.some.inj hs ▸ h, nofun⟩

/-- The way of merging is right for trees that are not deeper than `depth`. -/
def Merges (merge : Scope → Scope → Scope) (depth : Nat) : Prop :=
  ∀ {target incoming : Scope} {a b : RelationTree}, Shows target a → Shows incoming b →
    Shallow depth a → Shallow depth b → Disjoint (union a b) →
      Shows (merge target incoming) (union a b)

section Includes

variable {merge : Scope → Scope → Scope} {depth : Nat} {a b : RelationTree}

/-- A scope is merged with what is there, or with the empty scope. -/
theorem showsBelow_merge (hmerge : Merges merge depth) {current : Option Scope} {scope : Scope}
    (hcurrent : ShowsBelow current a) (hscope : Shows scope b) (ha : Shallow depth a)
    (hb : Shallow depth b) (hdisjoint : Disjoint (union a b)) :
    Shows (merge (current.getD Scope.empty) scope) (union a b) := by
  cases hsome : current with
  | some s => exact hmerge (hcurrent.shows s hsome) hscope ha hb hdisjoint
  | none =>
    obtain ⟨os, hos, _⟩ := hscope.root
    have habsent : union a b = union (leaf []) b := by
      rw [leaf_nil_union hos]
      funext path
      exact union_of_left_none (hcurrent.absent hsome path)
    have hpositive : 0 < depth := by
      rw [Nat.pos_iff_ne_zero]
      rintro rfl
      rw [hb [] le_rfl] at hos
      cases hos
    have hleaf : Shallow depth (leaf []) := by
      intro path hdepth
      refine if_neg fun hpath => ?_
      rw [hpath] at hdepth
      exact absurd hdepth (Nat.not_le.mpr hpositive)
    rw [habsent] at hdisjoint ⊢
    exact hmerge shows_empty hscope hleaf hb hdisjoint

theorem showsBelow_elim (hmerge : Merges merge depth) {current added : Option Scope}
    (hcurrent : ShowsBelow current a) (hadded : ShowsBelow added b) (ha : Shallow depth a)
    (hb : Shallow depth b) (hdisjoint : Disjoint (union a b)) :
    ShowsBelow (added.elim current fun scope => some (merge (current.getD Scope.empty) scope))
      (union a b) := by
  cases hsome : added with
  | none =>
    refine hcurrent.mono (funext fun path => ?_)
    exact (union_of_right_none (hadded.absent hsome path)).symm
  | some scope =>
    exact showsBelow_some
      (showsBelow_merge hmerge hcurrent (hadded.shows scope hsome) ha hb hdisjoint)

theorem showsBelow_mergeInclusionListBy (hmerge : Merges merge depth)
    {existing additions : List Inclusion} (hexisting : Distinct existing)
    (hadditions : Distinct additions) {relation : Text}
    (he : ShowsBelow (get existing relation) a) (hadd : ShowsBelow (get additions relation) b)
    (ha : Shallow depth a) (hb : Shallow depth b) (hdisjoint : Disjoint (union a b)) :
    ShowsBelow (get (mergeInclusionListBy merge existing additions) relation) (union a b) := by
  have hnone : ShowsBelow none fun _ => none := ⟨nofun, fun _ _ => rfl⟩
  have hleft : union (fun _ => none) a = a := funext fun _ => union_of_left_none rfl
  have hfirst := showsBelow_elim hmerge hnone he (fun _ _ => rfl) ha (by rw [hleft]; exact hdisjoint.left)
  rw [hleft] at hfirst
  have hboth := showsBelow_elim hmerge hfirst hadd ha hb hdisjoint
  have hget : get (mergeInclusionListBy merge existing additions) relation =
      (get additions relation).elim (get (existing.foldl (upsertBy merge) []) relation)
        fun scope => some (merge ((get (existing.foldl (upsertBy merge) []) relation).getD
          Scope.empty) scope) := by
    rw [mergeInclusionListBy, List.foldl_append]
    exact get_foldl_combineAt merge Scope.empty hadditions _ relation
  have hget' : get (existing.foldl (upsertBy merge) []) relation =
      (get existing relation).elim none fun scope => some (merge (none.getD Scope.empty) scope) :=
    get_foldl_combineAt merge Scope.empty hexisting [] relation
  rw [hget, hget']
  exact hboth

theorem distinct_mergeInclusionListBy (existing additions : List Inclusion) :
    Distinct (mergeInclusionListBy merge existing additions) :=
  distinct_empty.foldl_combineAt merge Scope.empty _

theorem keys_mergeInclusionListBy {existing additions : List Inclusion} (name : Text)
    (h : name ∈ existing.map Prod.fst ∨ name ∈ additions.map Prod.fst) :
    name ∈ (mergeInclusionListBy merge existing additions).map Prod.fst := by
  refine (keys_foldl_combineAt merge Scope.empty _ _ name).mpr (Or.inl ?_)
  rw [List.map_append]
  exact List.mem_append.mpr h

end Includes

/-! ## Scopes -/

/-- Induction on how deep the trees may be. -/
theorem merges_mergeScopesWithin (fuel : Nat) : Merges (mergeScopesWithin fuel) fuel := by
  induction fuel with
  | zero =>
    intro target incoming a b htarget hincoming ha hb hdisjoint
    obtain ⟨os, hos, _⟩ := htarget.root
    rw [ha [] le_rfl] at hos
    cases hos
  | succ fuel ih =>
    intro target incoming a b htarget hincoming ha hb hdisjoint
    obtain ⟨os, hos, hfits⟩ := htarget.root
    obtain ⟨os', hos', hfits'⟩ := hincoming.root
    have hroot : union a b [] = some (os ++ os') := union_of_some hos hos'
    have hkinds : ((os ++ os').map NodeOption.kind).Nodup := hdisjoint [] _ hroot
    rw [mergeScopesWithin]
    by_cases hempty : incoming.includes.isEmpty
    · rw [if_pos hempty]
      have hnil : incoming.includes = [] := List.isEmpty_iff.mp hempty
      refine shows_of_below (htarget.distinct [] target rfl) hroot
        (fits_merge hfits hfits' hkinds fun name hname => ?_) fun relation => ?_
      · rw [hnil] at hname
        exact hname.resolve_right List.not_mem_nil
      · refine (htarget.below relation).mono (funext fun path => ?_)
        have habsent : get incoming.includes relation = none := by rw [hnil]; rfl
        exact (union_of_right_none ((hincoming.below relation).absent habsent path)).symm
    · rw [if_neg hempty]
      refine shows_ensureFieldsIncludeRelations (shows_of_below
        (distinct_mergeInclusionListBy _ _) hroot
        (fits_merge hfits hfits' hkinds keys_mergeInclusionListBy) fun relation => ?_)
      exact showsBelow_mergeInclusionListBy ih (htarget.distinct [] target rfl)
        (hincoming.distinct [] incoming rfl) (htarget.below relation) (hincoming.below relation)
        (ha.below relation) (hb.below relation) (hdisjoint.below relation)

theorem depth_of_get {includes : List Inclusion} {relation : Text} {scope : Scope}
    (h : get includes relation = some scope) : scope.depth < includesDepth includes := by
  induction includes with
  | nil => cases h
  | cons entry rest ih =>
    rw [get_cons] at h
    rw [includesDepth]
    split at h
    · obtain rfl := Option.some.inj h
      exact lt_of_lt_of_le (Nat.lt_succ_self _) (le_max_left _ _)
    · exact lt_of_lt_of_le (ih h) (le_max_right _ _)

theorem length_of_node {scope node : Scope} {path : List Text} (h : scope.node path = some node) :
    path.length ≤ scope.depth := by
  induction path generalizing scope with
  | nil => exact Nat.zero_le _
  | cons relation path ih =>
    obtain ⟨next, hnext, hnode⟩ := Option.bind_eq_some_iff.mp h
    have hdepth : scope.depth = includesDepth scope.includes := by
      cases scope
      rfl
    have hlt := depth_of_get hnext
    have hle := ih hnode
    rw [List.length_cons, hdepth]
    omega

theorem Shows.shallow {scope : Scope} {tree : RelationTree} (h : Shows scope tree) {depth : Nat}
    (hdepth : scope.depth < depth) : Shallow depth tree := by
  intro path hpath
  have hfits := h.fits path
  cases hnode : scope.node path with
  | none =>
    rw [hnode] at hfits
    exact rel_none_left hfits
  | some node =>
    have hlength := length_of_node hnode
    omega

theorem shows_mergeScopes {target incoming : Scope} {a b : RelationTree} (htarget : Shows target a)
    (hincoming : Shows incoming b) (hdisjoint : Disjoint (union a b)) :
    Shows (mergeScopes target incoming) (union a b) := by
  refine merges_mergeScopesWithin _ htarget hincoming (htarget.shallow ?_) (hincoming.shallow ?_)
    hdisjoint
  · exact Nat.lt_succ_of_le (le_max_left _ _)
  · exact Nat.lt_succ_of_le (le_max_right _ _)

theorem merges_mergeScopes (depth : Nat) : Merges mergeScopes depth :=
  fun htarget hincoming _ _ hdisjoint => shows_mergeScopes htarget hincoming hdisjoint

theorem fits_of_includes {includes : List Inclusion} : Fits (.mk {} includes) [] where
  select := .none
  filter := rfl
  orderby := rfl
  top := rfl
  skip := rfl

/-- A scope with one relation. -/
theorem shows_under {relation : Text} {scope : Scope} {tree : RelationTree}
    (h : Shows scope tree) : Shows (.mk {} [(relation, scope)]) (under relation tree) := by
  refine shows_of_below (List.nodup_singleton _) rfl fits_of_includes fun name => ?_
  have hget : get (Scope.mk {} [(relation, scope)]).includes name =
      if relation = name then some scope else none := get_cons _ _
  rw [hget]
  by_cases hname : relation = name
  · rw [if_pos hname]
    refine (showsBelow_some h).mono (funext fun path => ?_)
    exact (if_pos hname.symm).symm
  · rw [if_neg hname]
    exact ⟨nofun, fun _ path => if_neg (Ne.symm hname)⟩

theorem nil_of_fits_includes {includes : List Inclusion} {os : List NodeOption}
    (h : Fits (.mk {} includes) os) : os = [] := by
  cases os with
  | nil => rfl
  | cons o os =>
    cases o with
    | select names =>
      have hselect := h.select
      cases hselect
    | filter clause => exact absurd h.filter nofun
    | orderby order => exact absurd h.orderby nofun
    | top limit => exact absurd h.top nofun
    | skip offset => exact absurd h.skip nofun

theorem shows_mergeInclusionList {existing additions : List Inclusion} {a b : RelationTree}
    (he : Shows (.mk {} existing) a) (hadd : Shows (.mk {} additions) b)
    (hdisjoint : Disjoint (union a b)) :
    Shows (.mk {} (mergeInclusionList existing additions)) (union a b) := by
  obtain ⟨os, hos, hfits⟩ := he.root
  obtain ⟨os', hos', hfits'⟩ := hadd.root
  obtain rfl := nil_of_fits_includes hfits
  obtain rfl := nil_of_fits_includes hfits'
  refine shows_of_below (distinct_mergeInclusionListBy existing additions)
    (union_of_some hos hos') fits_of_includes fun relation => ?_
  exact showsBelow_mergeInclusionListBy
    (merges_mergeScopes (max (Scope.mk {} existing).depth (Scope.mk {} additions).depth))
    (he.distinct [] _ rfl) (hadd.distinct [] _ rfl) (he.below relation) (hadd.below relation)
    ((he.shallow (Nat.lt_succ_of_le (le_max_left _ _))).below relation)
    ((hadd.shallow (Nat.lt_succ_of_le (le_max_right _ _))).below relation)
    (hdisjoint.below relation)

/-- One include more. -/
theorem shows_upsert {includes : List Inclusion} {a b : RelationTree} {relation : Text}
    {scope : Scope} (hincludes : Shows (.mk {} includes) a) (hscope : Shows scope b)
    (hdisjoint : Disjoint (union a (under relation b))) :
    Shows (.mk {} (upsert includes (relation, scope))) (union a (under relation b)) := by
  obtain ⟨os, hos, hfits⟩ := hincludes.root
  obtain rfl := nil_of_fits_includes hfits
  refine shows_of_below (hincludes.distinct [] _ rfl).set (union_of_some hos rfl) fits_of_includes
    fun name => ?_
  have hget : get (Scope.mk {} (upsert includes (relation, scope))).includes name =
      if relation = name then some (mergeScopes ((get includes name).getD Scope.empty) scope)
      else get includes name := get_combineAt mergeScopes Scope.empty includes _ name
  rw [hget]
  by_cases hname : relation = name
  · rw [if_pos hname]
    have hunder : (fun path => union a (under relation b) (name :: path)) =
        union (fun path => a (name :: path)) b := by
      funext path
      rw [union, union, under, if_pos hname.symm]
    have hbelow := hdisjoint.below name
    rw [hunder] at hbelow ⊢
    have hmax := hincludes.shallow (Nat.lt_succ_of_le
      (le_max_left (Scope.mk {} includes).depth (scope.depth + 1)))
    exact showsBelow_some (showsBelow_merge (merges_mergeScopes _) (hincludes.below name) hscope
      (hmax.below name) (hscope.shallow (Nat.lt_of_succ_le (le_max_right _ _))) hbelow)
  · rw [if_neg hname]
    refine (hincludes.below name).mono (funext fun path => ?_)
    exact (union_of_right_none (if_neg (Ne.symm hname))).symm

end Expand

end LoopbackOData
