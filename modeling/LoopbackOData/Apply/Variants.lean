import LoopbackOData.Apply.Aggregation
import LoopbackOData.Library.Grouping
import LoopbackOData.Library.LeftJoins
import LoopbackOData.Library.Separated

/-!
# Variants of a row

The database joins the relations that paths share once. In memory, the paths are put into groups
by their whole chain of relations, and the targets of the groups are multiplied.
-/

namespace LoopbackOData

namespace Aggregation

open LeftJoins

set_option autoImplicit false

/-! ## Reference -/

/-- The value of a path where rows are joined; a path over no relation is read from the row. -/
def joinedValue (row : Cell) (choice : List Text → Cell) (path : NavigationPath) : Cell :=
  if path.joins = [] then resolveVariantValue row Dictionary.empty path.originalPath
  else resolvePropertyFromTarget (choice path.joins) path.propertyPath

/-- The chains of relations that the paths go over. -/
def NavigationPaths.chains (paths : NavigationPaths) : List (List Text) :=
  Dictionary.distinctKeys ((paths.paths.map NavigationPath.joins).filter (· ≠ []))

/-- The paths over a chain. -/
def NavigationPaths.over (paths : NavigationPaths) (chain : List Text) : List NavigationPath :=
  paths.paths.filter fun path => path.joins = chain

/-! ## Targets -/

theorem relatedRows_ne_nil (item : Cell) (relationName : Text) :
    relatedRows item relationName ≠ [] := by
  unfold relatedRows
  split
  · exact List.cons_ne_nil _ _
  · split
    · exact List.cons_ne_nil _ _
    · next hne _ => exact fun h => hne (h ▸ rfl)
    · exact List.cons_ne_nil _ _
    · exact List.cons_ne_nil _ _
    · exact List.cons_ne_nil _ _

theorem collectNavigationTargets_eq (row : Cell) (joins : List Text) :
    collectNavigationTargets row joins = targets relatedRows row joins := by
  have hrow : [row] ≠ [] := List.cons_ne_nil _ _
  rw [collectNavigationTargets, targets]
  generalize [row] = current at hrow
  induction joins generalizing current with
  | nil => rfl
  | cons name joins ih =>
    have hnext : (current.flatMap fun item => relatedRows item name) ≠ [] := by
      obtain ⟨item, hmem⟩ := List.exists_mem_of_ne_nil _ hrow
      obtain ⟨target, htarget⟩ := List.exists_mem_of_ne_nil _ (relatedRows_ne_nil item name)
      exact List.ne_nil_of_mem (List.mem_flatMap.mpr ⟨item, hmem, htarget⟩)
    rw [List.foldl_cons, List.foldl_cons]
    split
    · next hnil => exact absurd hnil hnext
    · exact ih _ hnext

/-! ## Groups of paths -/

theorem chain_named {paths : NavigationPaths} {chain : List Text} (h : chain ∈ paths.chains) :
    chain ≠ [] ∧ (∃ path ∈ paths.paths, path.joins = chain) ∧
      ∀ name ∈ chain, name ≠ [] ∧ '/' ∉ name := by
  obtain ⟨hmem, hne⟩ := List.mem_filter.mp (Dictionary.mem_distinctKeys.mp h)
  obtain ⟨path, hpath, rfl⟩ := List.mem_map.mp hmem
  exact ⟨of_decide_eq_true hne, ⟨path, hpath, rfl⟩, path.named⟩

theorem mem_chains {paths : NavigationPaths} {path : NavigationPath} (h : path ∈ paths.paths) :
    path.joins ∈ paths.chains ↔ path.joins ≠ [] := by
  rw [NavigationPaths.chains, Dictionary.mem_distinctKeys, List.mem_filter, decide_eq_true_eq]
  exact and_iff_right (List.mem_map_of_mem h)

theorem NavigationPaths.nodup_chains (paths : NavigationPaths) : paths.chains.Nodup :=
  Dictionary.nodup_distinctKeys _

/-- Names without a slash are told apart by the text that joins them. -/
theorem intercalate_joins_inj {joins joins' : List Text}
    (h : ∀ name ∈ joins, name ≠ [] ∧ '/' ∉ name) (h' : ∀ name ∈ joins', name ≠ [] ∧ '/' ∉ name)
    (heq : ['/'].intercalate joins = ['/'].intercalate joins') : joins = joins' :=
  Separated.intercalate_inj (fun name hmem => (h name hmem).2) (fun name hmem => (h' name hmem).2)
    (fun name hmem => (h name hmem).1) (fun name hmem => (h' name hmem).1) heq

theorem groupNavigationPaths_eq (paths : List NavigationPath) :
    groupNavigationPaths paths =
      Dictionary.groupItems (fun path => ['/'].intercalate path.joins)
        (fun group path => group.getD [] ++ [path])
        (paths.filter fun path => path.joins ≠ []) := by
  rw [groupNavigationPaths, Dictionary.groupItems, List.foldl_filter]
  congr 1
  funext groups path
  by_cases hjoins : path.joins = []
  · rw [if_pos hjoins, if_neg (by simp [hjoins])]
  · rw [if_neg hjoins, if_pos (by simp [hjoins])]

/-- There is a group for every chain: the paths over it. -/
theorem groups_eq (paths : NavigationPaths) :
    (groupNavigationPaths paths.paths).map Prod.snd = paths.chains.map paths.over := by
  have hcollect (items : List NavigationPath) :
      (Dictionary.collect (fun group path => group.getD [] ++ [path]) items).getD [] = items := by
    induction items using List.reverseRecOn with
    | nil => rfl
    | append_singleton items path ih => rw [Dictionary.collect_append, Option.getD_some, ih]
  have hkeys : ((paths.paths.filter fun path => path.joins ≠ []).map fun path =>
      ['/'].intercalate path.joins) =
      ((paths.paths.map NavigationPath.joins).filter (· ≠ [])).map (['/'].intercalate ·) := by
    rw [List.filter_map, List.map_map]
    rfl
  rw [groupNavigationPaths_eq, Dictionary.map_groupItems _ _ _
    (fun key => (paths.paths.filter fun path => path.joins ≠ []).filter fun path =>
      ['/'].intercalate path.joins = key), hkeys, Dictionary.distinctKeys_map, List.map_map]
  · refine List.map_congr_left fun chain hmem => ?_
    obtain ⟨hne, _, hnamed⟩ := chain_named hmem
    rw [Function.comp_apply, NavigationPaths.over, List.filter_filter]
    refine List.filter_congr fun path _ => ?_
    by_cases hjoins : path.joins = chain
    · simp [hjoins, hne]
    · have hkey : ['/'].intercalate path.joins ≠ ['/'].intercalate chain := fun heq =>
        hjoins (intercalate_joins_inj path.named hnamed heq)
      simp [hjoins, hkey]
  · intro joins hmem joins' hmem' heq
    have hchain := (chain_named (Dictionary.mem_distinctKeys.mpr hmem)).2.2
    exact intercalate_joins_inj hchain (chain_named (Dictionary.mem_distinctKeys.mpr hmem')).2.2 heq
  · intro pair hpair
    have hitems := hcollect ((paths.paths.filter fun path => path.joins ≠ []).filter fun path =>
      ['/'].intercalate path.joins = pair.1)
    rw [hpair] at hitems
    exact hitems

/-! ## Pushing -/

theorem pushVariants_eq (maxFanout : Nat) (paths : List NavigationPath)
    (pairs : List (Variant × Cell)) (next : List Variant) :
    pushVariants maxFanout paths pairs next =
      if pairs = [] ∨ next.length + pairs.length ≤ maxFanout then
        .ok (next ++ pairs.map fun pair => assignPaths paths pair.2 pair.1)
      else fanoutExceeded maxFanout := by
  induction pairs generalizing next with
  | nil =>
    rw [if_pos (.inl rfl), List.map_nil, List.append_nil]
    rfl
  | cons pair pairs ih =>
    rw [pushVariants, ih]
    simp only [List.length_append, List.length_cons, List.length_nil, reduceCtorEq, false_or]
    by_cases hfull : next.length + (0 + 1) > maxFanout
    · rw [if_pos hfull, if_neg (by omega)]
    · rw [if_neg hfull, List.map_cons, ← List.append_cons]
      by_cases hpairs : pairs = []
      · subst hpairs
        rw [if_pos (.inl rfl), if_pos (by simp only [List.length_nil]; omega)]
      · simp only [hpairs, false_or]
        refine if_congr ?_ rfl rfl
        omega

/-- The variants without a limit. -/
def spread (row : Cell) (groups : List (List NavigationPath)) (variants : List Variant) :
    List Variant :=
  groups.foldl (fun variants paths => variants.flatMap fun variant =>
    (targets relatedRows row ((paths.head?.map NavigationPath.joins).getD [])).map fun target =>
      assignPaths paths target variant) variants

theorem length_le_spread (row : Cell) (groups : List (List NavigationPath))
    (variants : List Variant) : variants.length ≤ (spread row groups variants).length := by
  induction groups generalizing variants with
  | nil => exact Nat.le_refl _
  | cons paths groups ih =>
    refine Nat.le_trans ?_ (ih _)
    have hpos := targets_pos relatedRows_ne_nil row ((paths.head?.map NavigationPath.joins).getD [])
    rw [List.length_flatMap]
    simp only [List.length_map]
    rw [List.map_const', List.sum_replicate, smul_eq_mul]
    exact Nat.le_mul_of_pos_right _ hpos

/-- The limit is on all variants, as no group takes any away. -/
theorem expandGroups_eq (maxFanout : Nat) (row : Cell) (groups : List (List NavigationPath))
    (variants : List Variant) (hne : variants ≠ []) :
    expandGroups maxFanout row groups variants =
      if (spread row groups variants).length ≤ maxFanout then .ok (spread row groups variants)
      else fanoutExceeded maxFanout := by
  induction groups generalizing variants with
  | nil =>
    rw [expandGroups]
    by_cases hle : variants.length ≤ maxFanout
    · rw [if_neg (Nat.not_lt.mpr hle)]
      exact (if_pos hle).symm
    · rw [if_pos (Nat.lt_of_not_le hle)]
      exact (if_neg hle).symm
  | cons paths groups ih =>
    have hpos := targets_pos relatedRows_ne_nil row ((paths.head?.map NavigationPath.joins).getD [])
    have htargets : targets relatedRows row ((paths.head?.map NavigationPath.joins).getD []) ≠ [] :=
      List.ne_nil_of_length_pos hpos
    have hpairs : (variants.flatMap fun variant =>
        (targets relatedRows row ((paths.head?.map NavigationPath.joins).getD [])).map
          fun target => (variant, target)) ≠ [] := by
      obtain ⟨variant, hvariant⟩ := List.exists_mem_of_ne_nil _ hne
      obtain ⟨target, htarget⟩ := List.exists_mem_of_ne_nil _ htargets
      exact List.ne_nil_of_mem
        (List.mem_flatMap.mpr ⟨variant, hvariant, List.mem_map_of_mem htarget⟩)
    have hspread : spread row (paths :: groups) variants =
        spread row groups (variants.flatMap fun variant =>
          (targets relatedRows row ((paths.head?.map NavigationPath.joins).getD [])).map
            fun target => assignPaths paths target variant) := rfl
    have hmap : ((variants.flatMap fun variant =>
        (targets relatedRows row ((paths.head?.map NavigationPath.joins).getD [])).map
          fun target => (variant, target)).map fun pair => assignPaths paths pair.2 pair.1) =
        variants.flatMap fun variant =>
          (targets relatedRows row ((paths.head?.map NavigationPath.joins).getD [])).map
            fun target => assignPaths paths target variant := by
      rw [List.map_flatMap]
      simp only [List.map_map, Function.comp_def]
    have hnext := congrArg (List.length (α := Variant)) hmap
    rw [List.length_map] at hnext
    simp only [expandGroups, collectNavigationTargets_eq, if_neg htargets]
    rw [pushVariants_eq, hmap, hspread]
    simp only [hpairs, false_or, List.length_nil, Nat.zero_add, List.nil_append, hnext]
    split
    · refine ih _ fun hnil => hpairs ?_
      rw [hnil, List.length_nil] at hnext
      exact List.eq_nil_of_length_eq_zero hnext
    · next hmore =>
      have hle := length_le_spread row groups (variants.flatMap fun variant =>
        (targets relatedRows row ((paths.head?.map NavigationPath.joins).getD [])).map
          fun target => assignPaths paths target variant)
      rw [if_neg (by omega)]
      rfl

/-! ## Values of variants -/

/-- The variant of a target for each of some chains. -/
def chosen (paths : NavigationPaths) (choices : List (List Text × Cell)) : Variant :=
  choices.foldl (fun variant choice => assignPaths (paths.over choice.1) choice.2 variant)
    Dictionary.empty

theorem length_of_mem_products {row : Cell} {chains : List (List Text)} {rows : List Cell}
    (h : rows ∈ products relatedRows row chains) : rows.length = chains.length := by
  induction chains using List.reverseRecOn generalizing rows with
  | nil =>
    rw [List.mem_singleton.mp h]
    rfl
  | append_singleton chains chain ih =>
    rw [products_append] at h
    obtain ⟨before, hbefore, hmem⟩ := List.mem_flatMap.mp h
    obtain ⟨target, _, rfl⟩ := List.mem_map.mp hmem
    rw [List.length_append, List.length_append, ih hbefore]
    rfl

/-- The variants are those of all choices of targets for the chains. -/
theorem spread_eq (paths : NavigationPaths) (row : Cell) (chains : List (List Text))
    (h : ∀ chain ∈ chains, ∃ path ∈ paths.paths, path.joins = chain) :
    spread row (chains.map paths.over) [Dictionary.empty] =
      (products relatedRows row chains).map fun rows => chosen paths (chains.zip rows) := by
  induction chains using List.reverseRecOn with
  | nil => rfl
  | append_singleton chains chain ih =>
    have hhead : ((paths.over chain).head?.map NavigationPath.joins).getD [] = chain := by
      obtain ⟨path, hpath, hjoins⟩ := h chain (by simp)
      have hmem : path ∈ paths.over chain :=
        List.mem_filter.mpr ⟨hpath, decide_eq_true hjoins⟩
      cases hover : paths.over chain with
      | nil => exact absurd (hover ▸ hmem) List.not_mem_nil
      | cons first rest =>
        have hfirst : first ∈ paths.over chain := hover ▸ List.mem_cons_self
        exact of_decide_eq_true (List.mem_filter.mp hfirst).2
    have hstep : spread row ((chains ++ [chain]).map paths.over) [Dictionary.empty] =
        (spread row (chains.map paths.over) [Dictionary.empty]).flatMap fun variant =>
          (targets relatedRows row chain).map fun target =>
            assignPaths (paths.over chain) target variant := by
      rw [List.map_append, spread, List.foldl_append, List.map_cons, List.map_nil,
        List.foldl_cons, List.foldl_nil, hhead]
      rfl
    rw [hstep, ih fun chain' hmem => h chain' (List.mem_append_left _ hmem), products_append,
      List.flatMap_map, List.map_flatMap]
    refine List.flatMap_congr fun rows hmem => ?_
    rw [List.map_map]
    refine List.map_congr_left fun target _ => ?_
    rw [Function.comp_apply, List.zip_append (length_of_mem_products hmem).symm, chosen, chosen,
      List.foldl_append]
    rfl

section Values

variable {paths : NavigationPaths}

/-- A path is known by its text. -/
theorem eq_of_originalPath_eq {path path' : NavigationPath} (hmem : path ∈ paths.paths)
    (hmem' : path' ∈ paths.paths) (heq : path.originalPath = path'.originalPath) : path = path' :=
  List.inj_on_of_nodup_map paths.distinct hmem hmem' heq

theorem get_assignPaths {path : NavigationPath} (hmem : path ∈ paths.paths)
    {group : List NavigationPath} (hgroup : ∀ other ∈ group, other ∈ paths.paths) (target : Cell)
    (variant : Variant) :
    (path ∈ group → (assignPaths group target variant).get path.originalPath =
      some (resolvePropertyFromTarget target path.propertyPath)) ∧
    (path ∉ group →
      (assignPaths group target variant).get path.originalPath =
        variant.get path.originalPath) := by
  induction group using List.reverseRecOn with
  | nil => exact ⟨fun h => absurd h List.not_mem_nil, fun _ => rfl⟩
  | append_singleton group last ih =>
    have hlast : last ∈ paths.paths := hgroup last (by simp)
    have hslash := paths.slashed last hlast
    have hproto : last.originalPath ≠ prototypeKey := by
      intro heq
      rw [heq] at hslash
      exact absurd hslash (by decide)
    have hstep : assignPaths (group ++ [last]) target variant =
        (assignPaths group target variant).set last.originalPath
          (resolvePropertyFromTarget target last.propertyPath) := by
      rw [assignPaths, List.foldl_append, List.foldl_cons, List.foldl_nil, assign, if_neg hproto]
      rfl
    obtain ⟨hin, hout⟩ := ih fun other hother => hgroup other (List.mem_append_left _ hother)
    rw [hstep, Dictionary.get_set]
    by_cases heq : last.originalPath = path.originalPath
    · obtain rfl := eq_of_originalPath_eq hlast hmem heq
      rw [if_pos rfl]
      exact ⟨fun _ => rfl, fun hnot => absurd (by simp) hnot⟩
    · rw [if_neg heq]
      have hne : path ≠ last := fun h => heq (h ▸ rfl)
      simp only [List.mem_append, List.mem_singleton, hne, or_false]
      exact ⟨hin, hout⟩

/-- Every path gets the value at the target that was chosen for its chain. -/
theorem get_chosen {path : NavigationPath} (hmem : path ∈ paths.paths)
    (choice : List Text → Cell) (chains : List (List Text)) :
    (path.joins ∈ chains →
      (chosen paths (chains.map fun chain => (chain, choice chain))).get path.originalPath =
        some (resolvePropertyFromTarget (choice path.joins) path.propertyPath)) ∧
    (path.joins ∉ chains →
      (chosen paths (chains.map fun chain => (chain, choice chain))).get path.originalPath =
        none) := by
  induction chains using List.reverseRecOn with
  | nil => exact ⟨fun h => absurd h List.not_mem_nil, fun _ => rfl⟩
  | append_singleton chains chain ih =>
    have hstep : chosen paths ((chains ++ [chain]).map fun chain => (chain, choice chain)) =
        assignPaths (paths.over chain) (choice chain)
          (chosen paths (chains.map fun chain => (chain, choice chain))) := by
      rw [List.map_append, chosen, List.foldl_append]
      rfl
    have hover : path ∈ paths.over chain ↔ path.joins = chain := by
      rw [NavigationPaths.over, List.mem_filter, decide_eq_true_eq]
      exact and_iff_right hmem
    obtain ⟨hin, hout⟩ := get_assignPaths hmem
      (fun other hother => (List.mem_filter.mp hother).1 : ∀ other ∈ paths.over chain, _)
      (choice chain) (chosen paths (chains.map fun chain => (chain, choice chain)))
    rw [hover] at hin hout
    rw [hstep, List.mem_append, List.mem_singleton]
    by_cases hchain : path.joins = chain
    · rw [hin hchain, ← hchain]
      exact ⟨fun _ => rfl, fun hnot => absurd (.inr rfl) hnot⟩
    · rw [hout hchain]
      simp only [hchain, or_false]
      exact ih

/-- What a variant of joined rows gives for a path is the value where they are joined. -/
theorem resolveVariantValue_chosen {path : NavigationPath} (hmem : path ∈ paths.paths) (row : Cell)
    (choice : List Text → Cell) :
    resolveVariantValue row (chosen paths (paths.chains.map fun chain => (chain, choice chain)))
        path.originalPath = joinedValue row choice path := by
  obtain ⟨hin, hout⟩ := get_chosen hmem choice paths.chains
  rw [mem_chains hmem] at hin hout
  rw [joinedValue]
  by_cases hjoins : path.joins = []
  · rw [if_pos hjoins, resolveVariantValue, hout fun hne => hne hjoins, resolveVariantValue,
      Dictionary.get_empty]
  · rw [if_neg hjoins, resolveVariantValue, hin hjoins]

end Values

/-! ## The joins of the database -/

section Joins

/-- The keys under which the database has joined tables, in their order, after the chain of a path
below a key. -/
def ensureJoinChain (joinOrder : List Text) (pathKey : Text) : List Text → List Text
  | [] => joinOrder
  | relationName :: joins =>
    let key := if pathKey = [] then relationName else pathKey ++ '/' :: relationName
    ensureJoinChain (if key ∈ joinOrder then joinOrder else joinOrder ++ [key]) key joins

def joinOrder (paths : List NavigationPath) : List Text :=
  paths.foldl (fun order path => ensureJoinChain order [] path.joins) []

/-- Names of relations. -/
def IsNamed (joins : List Text) : Prop := ∀ name ∈ joins, name ≠ [] ∧ '/' ∉ name

theorem intercalate_snoc {joins : List Text} (h : IsNamed joins) (name : Text) :
    (if ['/'].intercalate joins = [] then name else ['/'].intercalate joins ++ '/' :: name) =
      ['/'].intercalate (joins ++ [name]) := by
  cases joins with
  | nil => simp
  | cons first rest =>
    have hne : ['/'].intercalate (first :: rest) ≠ [] := by
      intro hnil
      have hempty := @intercalate_joins_inj _ [] h (by simp) hnil
      cases hempty
    rw [if_neg hne]
    clear hne h
    induction rest generalizing first with
    | nil => simp [List.intercalate_cons_cons]
    | cons second rest ih =>
      rw [List.cons_append, List.intercalate_cons_cons, List.append_assoc, List.append_assoc,
        ih second, List.cons_append, List.cons_append, List.intercalate_cons_cons,
        List.append_assoc]
      rfl

theorem ensureJoinChain_eq (j : Joined Cell Text) (path rest : List Text)
    (hdone : ∀ q ∈ j.done, IsNamed q) (hnamed : IsNamed (path ++ rest)) :
    ensureJoinChain (j.done.map (['/'].intercalate ·)) (['/'].intercalate path) rest =
        (j.joinFrom relatedRows path rest).done.map (['/'].intercalate ·) ∧
      ∀ q ∈ (j.joinFrom relatedRows path rest).done, IsNamed q := by
  induction rest generalizing j path with
  | nil => exact ⟨rfl, hdone⟩
  | cons name rest ih =>
    have hpath : IsNamed path := fun n hn => hnamed n (List.mem_append_left _ hn)
    have hsnoc : IsNamed (path ++ [name]) := by
      intro n hn
      refine hnamed n ?_
      rw [List.append_cons]
      exact List.mem_append_left _ hn
    have hmem : ['/'].intercalate (path ++ [name]) ∈ j.done.map (['/'].intercalate ·) ↔
        path ++ [name] ∈ j.done := by
      constructor
      · intro h
        obtain ⟨q, hq, heq⟩ := List.mem_map.mp h
        rwa [intercalate_joins_inj (hdone q hq) hsnoc heq] at hq
      · exact List.mem_map_of_mem
    have hstep : (if ['/'].intercalate (path ++ [name]) ∈ j.done.map (['/'].intercalate ·) then
          j.done.map (['/'].intercalate ·)
        else j.done.map (['/'].intercalate ·) ++ [['/'].intercalate (path ++ [name])]) =
        (j.joinName relatedRows path name).done.map (['/'].intercalate ·) := by
      rw [Joined.joinName]
      by_cases hdone : path ++ [name] ∈ j.done
      · rw [if_pos (hmem.mpr hdone), if_pos hdone]
      · rw [if_neg (hmem.not.mpr hdone), if_neg hdone, List.map_append]
        rfl
    rw [ensureJoinChain, intercalate_snoc hpath, hstep, Joined.joinFrom]
    refine ih _ _ (fun q hq => ?_) (by rwa [List.append_cons] at hnamed)
    obtain hq | rfl := mem_done_joinName.mp hq
    · exact hdone q hq
    · exact hsnoc

/-- The tables that the database joins are those of the tree. -/
theorem joinOrder_eq (row : Cell) (paths : List NavigationPath) :
    joinOrder paths =
      (leftJoin relatedRows row (paths.map NavigationPath.joins)).done.map
        (['/'].intercalate ·) := by
  have hall : joinOrder paths =
      (leftJoin relatedRows row (paths.map NavigationPath.joins)).done.map
        (['/'].intercalate ·) ∧
      ∀ q ∈ (leftJoin relatedRows row (paths.map NavigationPath.joins)).done, IsNamed q := by
    induction paths using List.reverseRecOn with
    | nil => exact ⟨rfl, fun q hq => absurd hq List.not_mem_nil⟩
    | append_singleton paths path ih =>
      rw [joinOrder, List.foldl_append, ← joinOrder, List.map_append, leftJoin,
        List.foldl_append, ← leftJoin, ih.1]
      exact ensureJoinChain_eq _ [] path.joins ih.2 path.named
  exact hall.1

end Joins

/-! ## Variants and joins -/

/-- Only the chains count for what is joined. -/
theorem leftJoin_chains (row : Cell) (paths : NavigationPaths) :
    leftJoin relatedRows row (paths.paths.map NavigationPath.joins) =
      leftJoin relatedRows row paths.chains := by
  have hall (joins : List (List Text)) : leftJoin relatedRows row joins =
      leftJoin relatedRows row (Dictionary.distinctKeys (joins.filter (· ≠ []))) := by
    induction joins using List.reverseRecOn with
    | nil => rfl
    | append_singleton joins chain ih =>
      by_cases hchain : chain = []
      · have hfilter : (joins ++ [chain]).filter (· ≠ []) = joins.filter (· ≠ []) := by
          simp [hchain]
        rw [leftJoin_append_of_mem (.inl hchain), ih, hfilter]
      · have hfilter : (joins ++ [chain]).filter (· ≠ []) = joins.filter (· ≠ []) ++ [chain] := by
          simp [hchain]
        have hmem : chain ∈ joins.filter (· ≠ []) ↔ chain ∈ joins := by
          rw [List.mem_filter]
          exact and_iff_left (decide_eq_true hchain)
        rw [hfilter, Dictionary.distinctKeys_append]
        simp only [hmem]
        by_cases hjoined : chain ∈ joins
        · rw [if_pos hjoined, leftJoin_append_of_mem (.inr hjoined), ih]
        · rw [if_neg hjoined, leftJoin, List.foldl_append, ← leftJoin, ih, leftJoin, leftJoin,
            List.foldl_append]
  exact hall _

theorem sharesSingle_chains (row : Cell) (paths : NavigationPaths) :
    SharesSingle relatedRows row (paths.paths.map NavigationPath.joins) ↔
      SharesSingle relatedRows row paths.chains := by
  have hmem (chain : List Text) : chain ∈ paths.chains ↔
      chain ∈ paths.paths.map NavigationPath.joins ∧ chain ≠ [] := by
    rw [NavigationPaths.chains, Dictionary.mem_distinctKeys, List.mem_filter, decide_eq_true_eq]
  constructor
  · intro h chain hchain chain' hchain'
    exact h chain ((hmem chain).mp hchain).1 chain' ((hmem chain').mp hchain').1
  · intro h chain hchain chain' hchain' hne path hpath hpath'
    by_cases hroot : path = []
    · subst hroot
      rfl
    · have hnonempty {whole : List Text} (hstart : path <+: whole) : whole ≠ [] := by
        rintro rfl
        exact hroot (List.prefix_nil.mp hstart)
      exact h chain ((hmem chain).mpr ⟨hchain, hnonempty hpath⟩) chain'
        ((hmem chain').mpr ⟨hchain', hnonempty hpath'⟩) hne path hpath hpath'

theorem expandNavigationVariants_eq (maxFanout : Nat) (row : Cell) (paths : NavigationPaths) :
    expandNavigationVariants maxFanout row (groupNavigationPaths paths.paths) =
      if (paths.chains.map fun chain => (targets relatedRows row chain).length).prod ≤ maxFanout
      then .ok ((products relatedRows row paths.chains).map fun rows =>
        chosen paths (paths.chains.zip rows))
      else fanoutExceeded maxFanout := by
  rw [expandNavigationVariants, groups_eq, expandGroups_eq _ _ _ _ (List.cons_ne_nil _ _),
    spread_eq paths row _ fun chain hmem => (chain_named hmem).2.1, List.length_map,
    length_products]

/-- The values that the variants of a row have for the paths are those of the tree of joins exactly
if the limit admits the products of the targets and no relation that two paths share has several
related rows. -/
theorem expandNavigationVariants_iff_leftJoin (maxFanout : Nat) (row : Cell)
    (paths : NavigationPaths) :
    (∃ variants,
      expandNavigationVariants maxFanout row (groupNavigationPaths paths.paths) = .ok variants ∧
      (variants.map fun variant => paths.paths.map fun path =>
          resolveVariantValue row variant path.originalPath).Perm
        ((leftJoin relatedRows row (paths.paths.map NavigationPath.joins)).combinations.map
          fun choice => paths.paths.map (joinedValue row choice))) ↔
      (paths.chains.map fun chain => (targets relatedRows row chain).length).prod ≤ maxFanout ∧
        SharesSingle relatedRows row (paths.paths.map NavigationPath.joins) := by
  obtain ⟨hequal, hfewer⟩ := leftJoin_products relatedRows_ne_nil row paths.nodup_chains
  rw [expandNavigationVariants_eq, leftJoin_chains, sharesSingle_chains]
  constructor
  · rintro ⟨variants, hvariants, hperm⟩
    by_cases hle : (paths.chains.map fun chain => (targets relatedRows row chain).length).prod ≤
        maxFanout
    · rw [if_pos hle] at hvariants
      obtain rfl := Except.ok.inj hvariants
      refine ⟨hle, ?_⟩
      by_contra hshared
      have hlength := hperm.length_eq
      rw [List.length_map, List.length_map, List.length_map] at hlength
      exact absurd (hfewer hshared) (by omega)
    · rw [if_neg hle] at hvariants
      cases hvariants
  · rintro ⟨hle, hsingle⟩
    rw [if_pos hle]
    refine ⟨_, rfl, List.Perm.of_eq ?_⟩
    rw [← hequal hsingle, List.map_map, List.map_map]
    refine List.map_congr_left fun choice _ => List.map_congr_left fun path hmem => ?_
    rw [← resolveVariantValue_chosen hmem row choice, List.map_prod_left_eq_zip]

/-! ## Shared relations -/

/-- A path over relations with these names. -/
def pathOver (originalPath : Text) (joins : List Text) (propertyPath : Text)
    (h : ∀ name ∈ joins, name ≠ [] ∧ '/' ∉ name) : NavigationPath :=
  ⟨originalPath, joins, some propertyPath, h⟩

/-- The ids and the products of orders. -/
def orderPaths : NavigationPaths where
  paths :=
    [pathOver "orders/id".toList ["orders".toList] "id".toList (by decide),
      pathOver "orders/item/name".toList ["orders".toList, "item".toList] "name".toList
        (by decide)]
  slashed := by decide
  distinct := by decide

/-- An order of an item. -/
def orderOf (id : Rat) (name : Text) (object : Nat) : Cell :=
  .record [("id".toList, .number id),
    ("item".toList, .record [("name".toList, .string name)] (object + 1))] object

/-- A customer with two orders. -/
def customer : Cell :=
  .record [("orders".toList, .array [orderOf 1 ['a'] 2, orderOf 2 ['b'] 4] 1)] 0

theorem expandNavigationVariants_shared :
    ¬ ∃ variants,
      expandNavigationVariants 1000 customer (groupNavigationPaths orderPaths.paths) =
        .ok variants ∧
      (variants.map fun variant => orderPaths.paths.map fun path =>
          resolveVariantValue customer variant path.originalPath).Perm
        ((leftJoin relatedRows customer
          (orderPaths.paths.map NavigationPath.joins)).combinations.map
          fun choice => orderPaths.paths.map (joinedValue customer choice)) := by
  rintro ⟨variants, hvariants, hperm⟩
  have hfour : variants.length = 4 := by
    have hlength : (expandNavigationVariants 1000 customer
        (groupNavigationPaths orderPaths.paths)).map List.length = .ok 4 := by rfl
    rw [hvariants] at hlength
    exact Except.ok.inj hlength
  have htwo : (leftJoin relatedRows customer
      (orderPaths.paths.map NavigationPath.joins)).combinations.length = 2 := by rfl
  have hlength := hperm.length_eq
  rw [List.length_map, List.length_map, hfour, htwo] at hlength
  cases hlength

end Aggregation

end LoopbackOData
