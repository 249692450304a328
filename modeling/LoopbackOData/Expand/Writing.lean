import LoopbackOData.Expand.Spelling

/-!
# Reading expansions back

However a tree of relations is written, as paths or nested options, in any order and in any number
of segments, `parseExpand` returns the includes that show it.
-/

namespace LoopbackOData

namespace Expand

set_option autoImplicit false

open RelationTree Dictionary

/-! ## Writing a tree -/

structure IsRelationName (name : Text) : Prop extends IsName name where
  slash : '/' ∉ name

/-- A segment of `$expand`: a path, and the options of its end in parentheses. -/
def segmentText (path texts : List Text) : Text :=
  ['/'].intercalate path ++ if texts = [] then [] else '(' :: [';'].intercalate texts ++ [')']

section Writes

variable {ι : Type} (rt : Runtime) (options : ParseOptions) (graph : RelationGraph ι)

/-- The relation leads from a model to the same model. -/
def SelfReferencing (relations : Option ι) (relation : Text) : Prop :=
  ∃ model, relations = some model ∧ graph.relation model relation = some (some model)

mutual

/-- The texts are the options of a node, with the tree below it and its `$levels`. -/
inductive WritesOptions :
    Option ι → List Text → List NodeOption → RelationTree → Option Nat → Prop where
  | nil {relations : Option ι} : WritesOptions relations [] [] (leaf []) none
  | option {relations : Option ι} {o : NodeOption} {text : Text} {texts : List Text}
      {os : List NodeOption} {below : RelationTree} {levels : Option Nat} :
    SpellsOption rt options o text → WritesOptions relations texts os below levels →
    WritesOptions relations (text :: texts) (o :: os) below levels
  | expand {relations : Option ι} {segments texts : List Text} {os : List NodeOption}
      {tree below : RelationTree} {levels : Option Nat} :
    segments ≠ [] → WritesSegments relations segments tree →
    WritesOptions relations texts os below levels →
    WritesOptions relations (optionText "$expand" ([','].intercalate segments) :: texts) os
      (union tree below) levels
  | levels {relations : Option ι} {n : Nat} {texts : List Text} {os : List NodeOption}
      {below : RelationTree} :
    1 ≤ n → n ≤ maxSafeInteger → WritesOptions relations texts os below none →
    WritesOptions relations (optionText "$levels" (Json.digits n) :: texts) os below (some n)

/-- The texts are the segments of an expansion. A relation with `$levels` leads to itself, and is
not expanded again below. -/
inductive WritesSegments : Option ι → List Text → RelationTree → Prop where
  | nil {relations : Option ι} : WritesSegments relations [] (leaf [])
  | cons {relations before next : Option ι} {path : List Text} {relation : Text}
      {texts segments : List Text} {os : List NodeOption} {below tree : RelationTree}
      {levels : Option Nat} :
    (∀ name ∈ path ++ [relation], IsRelationName name) →
    path.foldlM graph.follow relations = .ok before → graph.follow before relation = .ok next →
    WritesOptions next texts os below levels →
    (levels.getD 1 = 1 ∨ SelfReferencing graph next relation ∧ below [relation] = none) →
    WritesSegments relations segments tree →
    WritesSegments relations (segmentText (path ++ [relation]) texts :: segments)
      (union (along (path ++ [relation])
        (nested relation (union (leaf os) below) (levels.getD 1 - 1))) tree)

end

end Writes

/-! ## Scopes along a path -/

section Paths

variable {ι : Type} {rt : Runtime} {options : ParseOptions} {graph : RelationGraph ι}

theorem disjoint_of_under {relation : Text} {tree : RelationTree}
    (h : Disjoint (under relation tree)) : Disjoint tree := by
  intro path os hos
  refine h (relation :: path) os ?_
  rw [under, if_pos rfl]
  exact hos

theorem disjoint_of_along {path : List Text} {tree : RelationTree}
    (h : Disjoint (along path tree)) : Disjoint tree := by
  induction path with
  | nil => exact h
  | cons relation path ih => exact ih (disjoint_of_under h)

theorem disjoint_of_nested {relation : Text} {tree : RelationTree} {levels : Nat}
    (h : Disjoint (nested relation tree levels)) : Disjoint tree := by
  cases levels with
  | zero => exact h
  | succ levels => exact Disjoint.left h

theorem Fits.mono {scope : Scope} {os : List NodeOption} {includes : List Inclusion}
    (h : Fits scope os)
    (hkeys : ∀ name ∈ scope.includes.map Prod.fst, name ∈ includes.map Prod.fst) :
    Fits (.mk scope.options includes) os where
  select := rel_mono h.select fun _ _ hselects => hselects.mono hkeys
  filter := h.filter
  orderby := h.orderby
  top := h.top
  skip := h.skip

/-- A relation that is new is put last. -/
theorem shows_concat {scope child : Scope} {relation : Text} {a b : RelationTree}
    (hscope : Shows scope a) (hchild : Shows child b)
    (hnew : get scope.includes relation = none) :
    Shows (.mk scope.options (scope.includes ++ [(relation, child)]))
      (union a (under relation b)) := by
  obtain ⟨os, hos, hfits⟩ := hscope.root
  have hroot : union a (under relation b) [] = some (os ++ []) := union_of_some hos rfl
  rw [List.append_nil] at hroot
  refine shows_of_below ?_ hroot (hfits.mono fun name hname => ?_) fun name => ?_
  · change Distinct (scope.includes ++ [(relation, child)])
    have hkey : relation ∉ scope.includes.map Prod.fst := by
      intro hmem
      obtain ⟨pair, hpair, hfst⟩ := List.mem_map.mp hmem
      have hget := (Distinct.mem_iff (hscope.distinct [] scope rfl)).mp
        (show (relation, pair.2) ∈ scope.includes from hfst ▸ hpair)
      rw [hnew] at hget
      cases hget
    rw [Distinct, List.map_append]
    refine (hscope.distinct [] scope rfl).append (List.nodup_singleton relation) ?_
    intro name hname hname'
    rw [List.mem_singleton.mp hname'] at hname
    exact hkey hname
  · rw [List.map_append]
    exact List.mem_append_left _ hname
  · change ShowsBelow (get (scope.includes ++ [(relation, child)]) name) _
    rw [get_append, get_cons]
    by_cases hname : relation = name
    · rw [if_pos hname, ← hname, hnew]
      refine (showsBelow_some hchild).mono (funext fun path => ?_)
      rw [union_of_left_none ((hscope.below relation).absent hnew path), under, if_pos rfl]
    · rw [if_neg hname]
      have hsame : (get scope.includes name).or (get [] name) = get scope.includes name :=
        Option.or_none
      rw [hsame]
      refine (hscope.below name).mono (funext fun path => ?_)
      exact (union_of_right_none (if_neg (Ne.symm hname))).symm

/-- `$levels` on a relation that leads to itself nests it that deep. -/
theorem shows_expandLevels {next : Option ι} {relation : Text} {template : Scope}
    {tree : RelationTree} (hself : SelfReferencing graph next relation)
    (htemplate : Shows template tree) (hnew : tree [relation] = none) (levels : Nat) :
    Shows (expandLevels graph relation template levels next) (nested relation tree levels) := by
  have hget : get template.includes relation = none := by
    cases hget : get template.includes relation with
    | none => rfl
    | some child =>
      obtain ⟨os, hos, _⟩ := (((htemplate.below relation).shows child hget).root)
      rw [hnew] at hos
      cases hos
  obtain ⟨model, rfl, hmodel⟩ := hself
  induction levels with
  | zero => exact htemplate
  | succ levels ih =>
    have hdefinition : graph.definition (some model) relation = some (some model) := hmodel
    rw [expandLevels, hdefinition]
    exact shows_concat htemplate ih hget

/-- The scopes along a path show nothing but the next relation of it. -/
theorem shows_buildIncludeFromParts
    {parseIncludes : Option ι → Text → Except FilterError (List Inclusion)} {text : Text}
    {relation : Text} {scope : Scope} {tree : RelationTree} {before : Option ι}
    (hlast : buildIncludeFromParts rt options graph parseIncludes text [relation] before =
      .ok (relation, scope)) (hscope : Shows scope tree) (hdisjoint : Disjoint tree)
    {path : List Text} {relations : Option ι}
    (hpath : path.foldlM graph.follow relations = .ok before) :
    ∃ first rest child, path ++ [relation] = first :: rest ∧
      buildIncludeFromParts rt options graph parseIncludes text (path ++ [relation]) relations =
        .ok (first, child) ∧ Shows child (along rest tree) ∧ Disjoint (along rest tree) := by
  induction path generalizing relations with
  | nil =>
    obtain rfl := Except.ok.inj hpath
    exact ⟨relation, [], scope, rfl, hlast, hscope, hdisjoint⟩
  | cons name path ih =>
    rw [List.foldlM_cons] at hpath
    cases hfollow : graph.follow relations name with
    | error err =>
      rw [hfollow] at hpath
      cases hpath
    | ok next =>
      rw [hfollow] at hpath
      obtain ⟨first, rest, child, heq, hbuild, hchild, hchildDisjoint⟩ := ih hpath
      have hunder : Disjoint (under first (along rest tree)) := disjoint_under hchildDisjoint
      refine ⟨name, first :: rest, mergeScopes .empty (.mk {} [(first, child)]), ?_, ?_, ?_, ?_⟩
      · rw [List.cons_append, heq]
      · rw [heq] at hbuild
        rw [List.cons_append, heq, buildIncludeFromParts, hfollow]
        change (buildIncludeFromParts rt options graph parseIncludes text (first :: rest) next >>=
          _) = _
        rw [hbuild]
        rfl
      · have hnil : union (leaf []) (under first (along rest tree)) =
            under first (along rest tree) := @leaf_nil_union _ [] rfl
        have hshows := shows_mergeScopes shows_empty (@shows_under first _ _ hchild)
          (hnil.symm ▸ hunder)
        rwa [hnil] at hshows
      · exact hunder

end Paths

/-! ## Reading -/

section Reading

variable {ι : Type} (rt : Runtime) (options : ParseOptions) (graph : RelationGraph ι)

/-- The options are read into a state that shows what was read before. -/
structure ReadsOptions (relations : Option ι) (texts : List Text) (os : List NodeOption)
    (below : RelationTree) (levels : Option Nat) : Prop where
  pieces : ∀ text ∈ texts, IsPiece ';' text ∧ Trimmed text
  root : below [] = some []
  reads : ∀ {fuel : Nat}, (∀ text ∈ texts, text.length ≤ fuel) →
    ∀ {state : ExpandOptions} {before : List NodeOption} {tree : RelationTree},
      Shows state.scope (leaf before) → Shows (.mk {} state.includes) tree →
      (levels.isSome → state.levels = none) →
      Disjoint (union (leaf (before ++ os)) (union tree below)) →
      ∃ state', texts.foldlM (parseExpandOption rt options
          (parseExpandWithin rt options graph fuel relations)) state = .ok state' ∧
        Shows state'.scope (leaf (before ++ os)) ∧
        Shows (.mk {} state'.includes) (union tree below) ∧
        state'.levels = levels.or state.levels

/-- The segments are read into includes that show what was read before. -/
structure ReadsSegments (relations : Option ι) (texts : List Text) (tree : RelationTree) :
    Prop where
  pieces : ∀ text ∈ texts, Trimmed text ∧
    ∀ delimiter, IsDelimiter delimiter → Closed delimiter text
  root : tree [] = some []
  reads : ∀ {fuel : Nat}, (∀ text ∈ texts, text.length ≤ fuel) →
    ∀ {includes : List Inclusion} {before : RelationTree}, Shows (.mk {} includes) before →
      Disjoint (union before tree) →
      ∃ includes', texts.foldlM (parseSegment rt options graph
          (parseExpandWithin rt options graph fuel) relations) includes = .ok includes' ∧
        Shows (.mk {} includes') (union before tree)

variable {rt options graph}

theorem length_le_intercalate {sep : Char} {pieces : List Text} {piece : Text}
    (h : piece ∈ pieces) : piece.length ≤ ([sep].intercalate pieces).length := by
  induction pieces with
  | nil => cases h
  | cons first pieces ih =>
    cases pieces with
    | nil => rw [List.mem_singleton.mp h, List.intercalate_singleton]
    | cons next pieces =>
      rw [List.intercalate_cons_cons, List.length_append, List.length_append]
      rcases List.mem_cons.mp h with rfl | h
      · omega
      · have := ih h
        omega

/-- With fuel for its length, an expansion is read whole. -/
theorem parseExpandWithin_of_reads {relations : Option ι} {texts : List Text}
    {tree : RelationTree} (h : ReadsSegments rt options graph relations texts tree) {fuel : Nat}
    (hfuel : ([','].intercalate texts).length < fuel) (hdisjoint : Disjoint tree) :
    ∃ includes, parseExpandWithin rt options graph fuel relations ([','].intercalate texts) =
      .ok includes ∧ Shows (.mk {} includes) tree := by
  cases fuel with
  | zero => exact absurd hfuel (Nat.not_lt_zero _)
  | succ fuel =>
    have hnil : union (leaf []) tree = tree := leaf_nil_union h.root
    have hsplit : splitTopLevel ([','].intercalate texts) ',' = .ok texts := by
      refine splitTopLevel_intercalate (by decide) fun piece hpiece => ?_
      obtain ⟨htrimmed, hclosed⟩ := h.pieces piece hpiece
      exact ⟨hclosed _ (Or.inr (Or.inl rfl)), htrimmed.trimText, htrimmed.ne_nil⟩
    obtain ⟨includes, hread, hshows⟩ := h.reads
      (fun text htext => (length_le_intercalate htext).trans (Nat.lt_succ_iff.mp hfuel))
      (shows_of_fits fits_of_includes) (hnil.symm ▸ hdisjoint)
    refine ⟨includes, ?_, hnil ▸ hshows⟩
    rw [parseExpandWithin, hsplit]
    exact hread

theorem readsOptions_nil {relations : Option ι} :
    ReadsOptions rt options graph relations [] [] (leaf []) none where
  pieces := nofun
  root := rfl
  reads := by
    intro fuel _ state before tree hscope hincludes _ _
    obtain ⟨os, hos, _⟩ := hincludes.root
    refine ⟨state, rfl, ?_, ?_, Option.none_or.symm⟩
    · rwa [List.append_nil]
    · rwa [union_leaf_nil hos]

theorem readsOptions_option {relations : Option ι} {o : NodeOption} {text : Text}
    {texts : List Text} {os : List NodeOption} {below : RelationTree} {levels : Option Nat}
    (ho : SpellsOption rt options o text)
    (h : ReadsOptions rt options graph relations texts os below levels) :
    ReadsOptions rt options graph relations (text :: texts) (o :: os) below levels where
  pieces := by
    intro piece hpiece
    rcases List.mem_cons.mp hpiece with rfl | hpiece
    · exact ⟨isPiece_of_spells ho, trimmed_of_spells ho⟩
    · exact h.pieces piece hpiece
  root := h.root
  reads := by
    intro fuel hfuel state before tree hscope hincludes hlevels hdisjoint
    obtain ⟨added, hfits, hparse⟩ := parseExpandOption_of_spells ho
    rw [List.append_cons] at hdisjoint ⊢
    have hboth : Disjoint (union (leaf before) (leaf [o])) := by
      rw [union_leaf]
      have hleft := hdisjoint.left
      rw [← union_leaf] at hleft
      exact hleft.left
    have hmerged := shows_mergeScopes hscope (shows_of_fits hfits) hboth
    rw [union_leaf] at hmerged
    rw [List.foldlM_cons, hparse]
    exact h.reads (fun piece hpiece => hfuel piece (List.mem_cons_of_mem _ hpiece)) hmerged
      hincludes hlevels hdisjoint

theorem eq_leaf_of_shows {tree : RelationTree} (h : Shows (.mk {} []) tree) : tree = leaf [] := by
  obtain ⟨os, hos, hfits⟩ := h.root
  obtain rfl := nil_of_fits_includes hfits
  funext path
  cases path with
  | nil => exact hos
  | cons relation path => exact (h.below relation).absent rfl path

/-- Includes of two options `$expand`. -/
theorem shows_added {includes added : List Inclusion} {a b : RelationTree}
    (hincludes : Shows (.mk {} includes) a) (hadded : Shows (.mk {} added) b)
    (hdisjoint : Disjoint (union a b)) {state : ExpandOptions} (hstate : state.includes = includes) :
    ∃ state', (if added.isEmpty then Except.ok state
        else if state.includes.isEmpty then .ok { state with includes := added }
        else .ok { state with includes := mergeInclusionList state.includes added } :
        Except FilterError ExpandOptions) = .ok state' ∧
      state'.scope = state.scope ∧ state'.levels = state.levels ∧
      Shows (.mk {} state'.includes) (union a b) := by
  subst hstate
  by_cases hempty : added.isEmpty
  · obtain rfl := List.isEmpty_iff.mp hempty
    obtain rfl := eq_leaf_of_shows hadded
    obtain ⟨os, hos, _⟩ := hincludes.root
    refine ⟨state, if_pos rfl, rfl, rfl, ?_⟩
    rwa [union_leaf_nil hos]
  · rw [if_neg hempty]
    by_cases hfirst : state.includes.isEmpty
    · rw [List.isEmpty_iff.mp hfirst] at hincludes
      obtain rfl := eq_leaf_of_shows hincludes
      obtain ⟨os, hos, _⟩ := hadded.root
      refine ⟨{ state with includes := added }, if_pos hfirst, rfl, rfl, ?_⟩
      rwa [leaf_nil_union hos]
    · exact ⟨{ state with includes := mergeInclusionList state.includes added }, if_neg hfirst,
        rfl, rfl, shows_mergeInclusionList hincludes hadded hdisjoint⟩

theorem closed_segments {relations : Option ι} {segments : List Text} {tree : RelationTree}
    (h : ReadsSegments rt options graph relations segments tree) {delimiter : Option Char}
    (hdelimiter : IsDelimiter delimiter) (hcomma : isPlain delimiter ',' = true) :
    Closed delimiter ([','].intercalate segments) :=
  closed_intercalate hcomma fun piece hpiece => (h.pieces piece hpiece).2 delimiter hdelimiter

theorem readsOptions_expand {relations : Option ι} {segments texts : List Text}
    {os : List NodeOption} {tree below : RelationTree} {levels : Option Nat}
    (hne : segments ≠ []) (hsegments : ReadsSegments rt options graph relations segments tree)
    (h : ReadsOptions rt options graph relations texts os below levels) :
    ReadsOptions rt options graph relations
      (optionText "$expand" ([','].intercalate segments) :: texts) os (union tree below) levels := by
  have htrimmed : Trimmed ([','].intercalate segments) :=
    trimmed_intercalate hne fun piece hpiece => (hsegments.pieces piece hpiece).1
  refine ⟨?_, union_of_some hsegments.root h.root, ?_⟩
  · intro piece hpiece
    rcases List.mem_cons.mp hpiece with rfl | hpiece
    · exact ⟨isPiece_optionText (by decide) htrimmed
        (closed_segments hsegments (Or.inr (Or.inr rfl)) (by decide)),
        trimmed_optionText (by decide) htrimmed⟩
    · exact h.pieces piece hpiece
  · intro fuel hfuel state before tree₀ hscope hincludes hlevels hdisjoint
    have hassoc : union tree₀ (union tree below) = union (union tree₀ tree) below :=
      union_assoc.symm
    rw [hassoc] at hdisjoint ⊢
    have hlength := hfuel _ List.mem_cons_self
    rw [optionText, List.length_append, List.length_cons] at hlength
    have htree : Disjoint (union tree₀ tree) := hdisjoint.right.left
    have hfuel' : ([','].intercalate segments).length < fuel := by omega
    obtain ⟨added, hread, hadded⟩ := parseExpandWithin_of_reads hsegments hfuel' htree.right
    obtain ⟨state', hstate, hscope', hlevels', hincludes'⟩ :=
      shows_added hincludes hadded htree rfl
    have hparse : parseExpandOption rt options (parseExpandWithin rt options graph fuel relations)
        state (optionText "$expand" ([','].intercalate segments)) = .ok state' := by
      rw [parseExpandOption_optionText (by decide) htrimmed, applyExpandOption,
        if_neg (by decide), if_pos rfl, hread, ← hstate]
      rfl
    rw [List.foldlM_cons, hparse]
    have hrest := h.reads (fun piece hpiece => hfuel piece (List.mem_cons_of_mem _ hpiece))
      (hscope' ▸ hscope) hincludes' (hlevels' ▸ hlevels) hdisjoint
    rw [hlevels'] at hrest
    exact hrest

theorem readsOptions_levels {relations : Option ι} {n : Nat} {texts : List Text}
    {os : List NodeOption} {below : RelationTree} (hpositive : 1 ≤ n) (hn : n ≤ maxSafeInteger)
    (h : ReadsOptions rt options graph relations texts os below none) :
    ReadsOptions rt options graph relations (optionText "$levels" (Json.digits n) :: texts) os
      below (some n) := by
  have htrimmed := (isName_digits n).trimmed
  refine ⟨?_, h.root, ?_⟩
  · intro piece hpiece
    rcases List.mem_cons.mp hpiece with rfl | hpiece
    · exact ⟨isPiece_optionText (by decide) htrimmed
        ((isName_digits n).closed (Or.inr (Or.inr rfl))), trimmed_optionText (by decide) htrimmed⟩
    · exact h.pieces piece hpiece
  · intro fuel hfuel state before tree hscope hincludes hlevels hdisjoint
    have hparse : parseExpandOption rt options (parseExpandWithin rt options graph fuel relations)
        state (optionText "$levels" (Json.digits n)) = .ok { state with levels := some n } := by
      rw [parseExpandOption_optionText (by decide) htrimmed, applyExpandOption,
        if_neg (by decide), if_neg (by decide), if_neg (by decide), if_neg (by decide),
        if_neg (by decide), if_neg (by decide), if_neg (by decide), if_pos rfl, hlevels rfl,
        parseLevels_digits hpositive hn]
      rfl
    rw [List.foldlM_cons, hparse]
    exact h.reads (fun piece hpiece => hfuel piece (List.mem_cons_of_mem _ hpiece)) hscope
      hincludes (fun hlevel => by cases hlevel) hdisjoint

/-- The options as one text. -/
def optionsText (texts : List Text) : Text := [';'].intercalate texts

theorem trimmed_optionsText {relations : Option ι} {texts : List Text} {os : List NodeOption}
    {below : RelationTree} {levels : Option Nat}
    (h : ReadsOptions rt options graph relations texts os below levels) (hne : texts ≠ []) :
    Trimmed (optionsText texts) :=
  trimmed_intercalate hne fun piece hpiece => (h.pieces piece hpiece).2

theorem closed_optionsText {relations : Option ι} {texts : List Text} {os : List NodeOption}
    {below : RelationTree} {levels : Option Nat}
    (h : ReadsOptions rt options graph relations texts os below levels) :
    Closed none (optionsText texts) :=
  closed_intercalate (by decide) fun piece hpiece => (h.pieces piece hpiece).1.closed.none

/-- The last relation of a path, with its options and levels. -/
theorem buildIncludeFromParts_last {before next : Option ι} {relation : Text} {texts : List Text}
    {os : List NodeOption} {below : RelationTree} {levels : Option Nat}
    (h : ReadsOptions rt options graph next texts os below levels)
    (hfollow : graph.follow before relation = .ok next)
    (hlevels : levels.getD 1 = 1 ∨ SelfReferencing graph next relation ∧ below [relation] = none)
    {fuel : Nat} (hfuel : ∀ text ∈ texts, text.length ≤ fuel)
    (hdisjoint : Disjoint (union (leaf os) below)) :
    ∃ scope, buildIncludeFromParts rt options graph (parseExpandWithin rt options graph fuel)
        (optionsText texts) [relation] before = .ok (relation, scope) ∧
      Shows scope (nested relation (union (leaf os) below) (levels.getD 1 - 1)) := by
  have hbelow : union (leaf []) below = below := leaf_nil_union h.root
  obtain ⟨state, hread, hscope, hincludes, hstate⟩ := h.reads hfuel
    (show Shows ({} : ExpandOptions).scope (leaf []) from shows_empty)
    (shows_of_fits fits_of_includes) (fun _ => rfl) (by rwa [List.nil_append, hbelow])
  rw [List.nil_append] at hscope
  rw [hbelow] at hincludes
  have hstate' : state.levels = levels := hstate.trans Option.or_none
  rw [buildIncludeFromParts, hfollow]
  by_cases htexts : texts = []
  · subst htexts
    obtain rfl := Except.ok.inj hread
    obtain rfl : none = levels := hstate'
    refine ⟨.empty, rfl, ?_⟩
    have hos : leaf os = leaf [] := eq_leaf_of_shows hscope
    have hleaf : below = leaf [] := eq_leaf_of_shows hincludes
    have hunion : union (leaf os) below = leaf [] := by
      rw [hos, hleaf]
      exact @leaf_nil_union _ [] rfl
    rw [hunion]
    exact shows_empty
  · have hne := (trimmed_optionsText h htexts).ne_nil
    have hparse : parseExpandOptions rt options (parseExpandWithin rt options graph fuel next)
        (optionsText texts) = .ok state := by
      have hsplit : splitTopLevel (optionsText texts) ';' = .ok texts :=
        splitTopLevel_intercalate (by decide) fun piece hpiece => (h.pieces piece hpiece).1
      rw [parseExpandOptions, hsplit]
      exact hread
    have hempty : union (leaf []) (leaf os) = leaf os := @leaf_nil_union _ os rfl
    have hmerged : Shows (mergeScopes (mergeScopes .empty state.scope) (.mk {} state.includes))
        (union (leaf os) below) := by
      refine shows_mergeScopes ?_ hincludes hdisjoint
      have hfirst := shows_mergeScopes shows_empty hscope (hempty.symm ▸ hdisjoint.left)
      rwa [hempty] at hfirst
    refine ⟨expandLevels graph relation (mergeScopes (mergeScopes .empty state.scope)
      (.mk {} state.includes)) (levels.getD 1 - 1) next, ?_, ?_⟩
    · change (if optionsText texts = [] then Except.ok (relation, Scope.empty) else
        parseExpandOptions rt options (parseExpandWithin rt options graph fuel next)
          (optionsText texts) >>= _) = _
      rw [if_neg hne, hparse, ← hstate']
      rfl
    · rcases hlevels with hone | ⟨hself, hnew⟩
      · rw [hone]
        exact hmerged
      · refine shows_expandLevels hself hmerged ?_ _
        exact (union_of_left_none (if_neg (List.cons_ne_nil _ _))).trans hnew

/-- A path as one text. -/
def pathText (path : List Text) : Text := ['/'].intercalate path

section PathTexts

variable {path : List Text}

theorem trimmed_pathText (hne : path ≠ []) (hpath : ∀ name ∈ path, IsRelationName name) :
    Trimmed (pathText path) :=
  trimmed_intercalate hne fun name hname => (hpath name hname).trimmed

theorem closed_pathText (hpath : ∀ name ∈ path, IsRelationName name) {delimiter : Option Char}
    (hdelimiter : IsDelimiter delimiter) : Closed delimiter (pathText path) := by
  refine closed_intercalate ?_ fun name hname => (hpath name hname).closed hdelimiter
  rcases hdelimiter with rfl | rfl | rfl
  · decide
  · decide
  · decide

theorem mem_pathText {c : Char} (hpath : ∀ name ∈ path, IsRelationName name)
    (hc : c ∈ pathText path) : isPlain none c = true := by
  induction path with
  | nil => cases hc
  | cons name path ih =>
    have hname : c ∈ name → isPlain none c = true := fun hmem =>
      isPlain_of_isNameChar (Or.inl rfl) ((hpath name List.mem_cons_self).chars c hmem)
    cases path with
    | nil =>
      rw [pathText, List.intercalate_singleton] at hc
      exact hname hc
    | cons next path =>
      rw [pathText, List.intercalate_cons_cons, List.append_assoc, List.mem_append,
        List.mem_append] at hc
      rcases hc with hc | hc | hc
      · exact hname hc
      · rw [List.mem_singleton.mp hc]
        decide
      · exact ih (fun other hother => hpath other (List.mem_cons_of_mem _ hother)) hc

theorem parts_pathText (hne : path ≠ []) (hpath : ∀ name ∈ path, IsRelationName name) :
    (((pathText path).splitOn '/').map trimText).filter (fun name => decide (name ≠ [])) =
      path := by
  have hsplit : (pathText path).splitOn '/' = path :=
    List.splitOn_intercalate '/' (fun name hname => (hpath name hname).slash) hne
  have hmap : path.map trimText = path.map id :=
    List.map_congr_left fun name hname => (hpath name hname).trimmed.trimText
  rw [hsplit, hmap, List.map_id]
  exact List.filter_eq_self.mpr fun name hname => decide_eq_true (hpath name hname).ne_nil

end PathTexts

theorem extractPathAndOptions_segmentText {relations : Option ι} {path texts : List Text}
    {os : List NodeOption} {below : RelationTree} {levels : Option Nat} (hne : path ≠ [])
    (hpath : ∀ name ∈ path, IsRelationName name)
    (h : ReadsOptions rt options graph relations texts os below levels) :
    Trimmed (segmentText path texts) ∧
      (∀ delimiter, IsDelimiter delimiter → Closed delimiter (segmentText path texts)) ∧
      extractPathAndOptions (segmentText path texts) = .ok (pathText path, optionsText texts) := by
  have htrimmed := trimmed_pathText hne hpath
  have hplain : ∀ c ∈ pathText path, isPlain none c = true := fun c => mem_pathText hpath
  by_cases htexts : texts = []
  · subst htexts
    have htext : segmentText path [] = pathText path := by
      rw [segmentText, if_pos rfl, List.append_nil]
      rfl
    rw [htext]
    exact ⟨htrimmed, fun delimiter => closed_pathText hpath,
      extractPathAndOptions_path hplain htrimmed.trimText⟩
  · have htext : segmentText path texts = pathText path ++ ('(' :: optionsText texts ++ [')']) := by
      rw [segmentText, if_neg htexts]
      rfl
    have hwhole : Trimmed (pathText path ++ ('(' :: optionsText texts ++ [')'])) :=
      htrimmed.append (trimmed_group _)
    rw [htext]
    refine ⟨hwhole, fun delimiter hdelimiter => (closed_pathText hpath hdelimiter).append
      (closed_group (closed_optionsText h)), ?_⟩
    have htrim := hwhole.trimText
    rw [← List.append_assoc] at htrim ⊢
    exact extractPathAndOptions_group hplain (closed_optionsText h) htrimmed.trimText
      (trimmed_optionsText h htexts).trimText htrim

theorem readsSegments_nil {relations : Option ι} :
    ReadsSegments rt options graph relations [] (leaf []) where
  pieces := nofun
  root := rfl
  reads := by
    intro fuel _ includes before hincludes _
    obtain ⟨os, hos, _⟩ := hincludes.root
    refine ⟨includes, rfl, ?_⟩
    rwa [union_leaf_nil hos]

theorem length_optionsText_le {path texts : List Text} {text : Text} (h : text ∈ texts) :
    text.length ≤ (segmentText path texts).length := by
  have hle : text.length ≤ (optionsText texts).length := length_le_intercalate h
  rw [segmentText, if_neg (List.ne_nil_of_mem h), List.length_append, List.length_append,
    List.length_cons]
  rw [optionsText] at hle
  omega

theorem readsSegments_cons {relations before next : Option ι} {path : List Text}
    {relation : Text} {texts segments : List Text} {os : List NodeOption}
    {below tree : RelationTree} {levels : Option Nat}
    (hnames : ∀ name ∈ path ++ [relation], IsRelationName name)
    (hpath : path.foldlM graph.follow relations = .ok before)
    (hfollow : graph.follow before relation = .ok next)
    (hoptions : ReadsOptions rt options graph next texts os below levels)
    (hlevels : levels.getD 1 = 1 ∨ SelfReferencing graph next relation ∧ below [relation] = none)
    (h : ReadsSegments rt options graph relations segments tree) :
    ReadsSegments rt options graph relations (segmentText (path ++ [relation]) texts :: segments)
      (union (along (path ++ [relation])
        (nested relation (union (leaf os) below) (levels.getD 1 - 1))) tree) := by
  have hne : path ++ [relation] ≠ [] := by simp
  obtain ⟨htrimmed, hclosed, hextract⟩ :=
    extractPathAndOptions_segmentText hne hnames hoptions
  refine ⟨?_, ?_, ?_⟩
  · intro piece hpiece
    rcases List.mem_cons.mp hpiece with rfl | hpiece
    · exact ⟨htrimmed, hclosed⟩
    · exact h.pieces piece hpiece
  · have hown : along (path ++ [relation])
        (nested relation (union (leaf os) below) (levels.getD 1 - 1)) [] = some [] := by
      cases path <;> rfl
    exact union_of_some hown h.root
  · intro fuel hfuel includes tree₀ hincludes hdisjoint
    rw [← union_assoc] at hdisjoint ⊢
    have hown := hdisjoint.left.right
    have hend := disjoint_of_along hown
    obtain ⟨scope, hbuild, hscope⟩ := buildIncludeFromParts_last hoptions hfollow hlevels
      (fun text htext => (length_optionsText_le htext).trans (hfuel _ List.mem_cons_self))
      (disjoint_of_nested hend)
    obtain ⟨first, rest, child, heq, hchild, hshows, _⟩ :=
      shows_buildIncludeFromParts hbuild hscope hend hpath
    have hsegment : parseSegment rt options graph (parseExpandWithin rt options graph fuel)
        relations includes (segmentText (path ++ [relation]) texts) =
        .ok (upsert includes (first, child)) := by
      rw [parseSegment, hextract]
      change (buildIncludeFromParts rt options graph _ (optionsText texts)
        (((pathText (path ++ [relation])).splitOn '/').map trimText |>.filter
          fun name => decide (name ≠ [])) relations >>= _) = _
      rw [parts_pathText hne hnames, hchild]
      rfl
    rw [List.foldlM_cons, hsegment]
    rw [heq] at hdisjoint ⊢
    exact h.reads (fun piece hpiece => hfuel piece (List.mem_cons_of_mem _ hpiece))
      (shows_upsert hincludes hshows hdisjoint.left) hdisjoint

mutual

theorem readsOptions_of_writes : ∀ {relations : Option ι} {texts : List Text}
    {os : List NodeOption} {below : RelationTree} {levels : Option Nat},
    WritesOptions rt options graph relations texts os below levels →
      ReadsOptions rt options graph relations texts os below levels
  | _, _, _, _, _, .nil => readsOptions_nil
  | _, _, _, _, _, .option ho h => readsOptions_option ho (readsOptions_of_writes h)
  | _, _, _, _, _, .expand hne hsegments h =>
    readsOptions_expand hne (readsSegments_of_writes hsegments) (readsOptions_of_writes h)
  | _, _, _, _, _, .levels hpositive hn h =>
    readsOptions_levels hpositive hn (readsOptions_of_writes h)

theorem readsSegments_of_writes : ∀ {relations : Option ι} {texts : List Text}
    {tree : RelationTree}, WritesSegments rt options graph relations texts tree →
      ReadsSegments rt options graph relations texts tree
  | _, _, _, .nil => readsSegments_nil
  | _, _, _, .cons hnames hpath hfollow hoptions hlevels h =>
    readsSegments_cons hnames hpath hfollow (readsOptions_of_writes hoptions) hlevels
      (readsSegments_of_writes h)

end

/-- However a tree of relations is written, `parseExpand` returns the includes that show it. -/
theorem shows_parseExpand {relations : Option ι} {segments : List Text} {tree : RelationTree}
    (h : WritesSegments rt options graph relations segments tree) (hdisjoint : Disjoint tree) :
    ∃ includes, parseExpand rt options graph relations ([','].intercalate segments) =
      .ok includes ∧ Shows (.mk {} includes) tree :=
  parseExpandWithin_of_reads (readsSegments_of_writes h) (Nat.lt_succ_self _) hdisjoint

end Reading

/-! ## Customers and orders -/

/-- Customers have orders and a parent that is a customer; orders have items. -/
def customerRelations : RelationGraph Bool where
  relation isOrder name :=
    if isOrder then if name = "Items".toList then some none else none
    else if name = "Orders".toList then some (some true)
    else if name = "Parent".toList then some (some false)
    else none

theorem parseScopeFilter_quoted :
    parseScopeFilter Runtime.ascii {} "Name eq 'a;b)''c'".toList =
      .ok (some (.property "Name".toList (.equals (.str "a;b)'c".toList)))) := by
  have hparse : parseFilterText Runtime.ascii {} "Name eq 'a;b)''c'".toList =
      .ok (some (.leaf (.comparison "Name".toList .eq (.single (.str "a;b)'c".toList))))) := by
    decide +kernel
  rw [parseScopeFilter, parseODataQuery]
  dsimp only
  rw [hparse]
  change (decomposeFilter {} _ >>= _) = _
  rw [decomposeFilter, rewriteNegatedLambdas_leaf]
  rfl

theorem parseScopeFilter_trim :
    parseScopeFilter Runtime.ascii {} "trim(Name) eq 'x'".toList =
      fail "$expand $filter requires unsupported relation post-filter evaluation: trim." := by
  have hparse : parseFilterText Runtime.ascii {} "trim(Name) eq 'x'".toList = .ok (some
      (.leaf (.stringfncmp .trim [.field "Name".toList none] .eq "x".toList))) := by
    decide +kernel
  rw [parseScopeFilter, parseODataQuery]
  dsimp only
  rw [hparse]
  change (decomposeFilter {} _ >>= _) = _
  rw [decomposeFilter, rewriteNegatedLambdas_leaf]
  rfl

theorem digits_three : Json.digits 3 = "3".toList := by
  rw [Json.digits, if_pos (by decide)]
  rfl

/-- The named orders with their items, and three levels of parents. -/
def customerTree : RelationTree :=
  union (under "Orders".toList (union
      (union (leaf [.filter (.property "Name".toList (.equals (.str "a;b)'c".toList))), .top 3])
        (leaf []))
      (under "Items".toList (union (leaf [.select ["Id".toList]]) (leaf [])))))
    (union (under "Parent".toList
      (nested "Parent".toList (union (leaf [.select ["Name".toList]]) (leaf [])) 2)) (leaf []))

theorem disjoint_customerTree : Disjoint customerTree := by
  have hempty : Disjoint (leaf []) := disjoint_leaf List.nodup_nil
  have hleaf (os : List NodeOption) (hos : (os.map NodeOption.kind).Nodup) :
      Disjoint (union (leaf os) (leaf [])) := disjoint_leaf_union hos rfl hempty
  have hselect (name : Text) : Disjoint (union (leaf [.select [name]]) (leaf [])) :=
    hleaf _ (List.nodup_singleton _)
  apply disjoint_under_union _ rfl (fun _ => rfl)
  · refine disjoint_under_union ?_ rfl (fun _ => rfl) hempty
    rw [union_leaf, List.append_nil]
    refine disjoint_leaf_union (List.nodup_singleton _) rfl (disjoint_under ?_)
    refine disjoint_leaf_union (List.nodup_singleton _) rfl (disjoint_under ?_)
    exact disjoint_leaf (List.nodup_singleton _)
  · rw [union_leaf, List.append_nil]
    exact disjoint_leaf_union (by decide) rfl (disjoint_under (hselect _))

/-- A customer's orders in two segments. -/
theorem shows_parseExpand_customers :
    ∃ includes, parseExpand Runtime.ascii {} customerRelations (some false)
        ("Orders($filter=Name eq 'a;b)''c';$top=3),Orders/Items($select=Id)," ++
          "Parent($levels=3;$select=Name)").toList = .ok includes ∧
      Shows (.mk {} includes) customerTree := by
  have hname (name : Text) (h : name ≠ [] ∧ (∀ c ∈ name, isNameChar c = true) ∧ '/' ∉ name) :
      IsRelationName name := ⟨⟨h.1, h.2.1⟩, h.2.2⟩
  have hsingle (name : Text) (h : IsRelationName name) :
      ∀ other ∈ [name], IsRelationName other :=
    fun other hother => List.mem_singleton.mp hother ▸ h
  have hselect (name : Text) (h : IsRelationName name) :
      SpellsOption Runtime.ascii {} (.select [name]) (optionText "$select" name) := by
    have hspells : SpellsOption Runtime.ascii {} (.select [name])
        (optionText "$select" ([','].intercalate [name])) :=
      .select (List.cons_ne_nil name []) fun other hother => (hsingle name h other hother).toIsName
    rwa [List.intercalate_singleton] at hspells
  have horders : IsRelationName "Orders".toList := hname _ (by decide)
  have hitems : IsRelationName "Items".toList := hname _ (by decide)
  have hparent : IsRelationName "Parent".toList := hname _ (by decide)
  have hfilter : SpellsOption Runtime.ascii {}
      (.filter (.property "Name".toList (.equals (.str "a;b)'c".toList))))
      (optionText "$filter" "Name eq 'a;b)''c'".toList) :=
    .filter ⟨by decide, by decide, by decide⟩ rfl parseScopeFilter_quoted
  have htop : SpellsOption Runtime.ascii {} (.top 3) (optionText "$top" "3".toList) := by
    rw [← digits_three]
    exact .top (by decide)
  have hlevels : WritesOptions Runtime.ascii {} customerRelations (some false)
      [optionText "$levels" "3".toList, optionText "$select" "Name".toList]
      [.select ["Name".toList]] (leaf []) (some 3) := by
    rw [← digits_three]
    exact .levels (by decide) (by decide) (.option (hselect _ (hname _ (by decide))) .nil)
  have hfirst : WritesOptions Runtime.ascii {} customerRelations (some true)
      [optionText "$filter" "Name eq 'a;b)''c'".toList, optionText "$top" "3".toList]
      [.filter (.property "Name".toList (.equals (.str "a;b)'c".toList))), .top 3] (leaf []) none :=
    .option hfilter (.option htop .nil)
  have hsecond : WritesOptions Runtime.ascii {} customerRelations none
      [optionText "$select" "Id".toList] [.select ["Id".toList]] (leaf []) none :=
    .option (hselect _ (hname _ (by decide))) .nil
  have hpath : ∀ name ∈ ["Orders".toList, "Items".toList], IsRelationName name := by
    intro name hmem
    rcases List.mem_cons.mp hmem with rfl | hmem
    · exact horders
    · exact hsingle _ hitems _ hmem
  have hwrites : WritesSegments Runtime.ascii {} customerRelations (some false)
      [segmentText ["Orders".toList]
        [optionText "$filter" "Name eq 'a;b)''c'".toList, optionText "$top" "3".toList],
        segmentText ["Orders".toList, "Items".toList] [optionText "$select" "Id".toList],
        segmentText ["Parent".toList]
          [optionText "$levels" "3".toList, optionText "$select" "Name".toList]] _ :=
    @WritesSegments.cons _ _ _ _ _ _ _ [] _ _ _ _ _ _ _ (hsingle _ horders) rfl rfl hfirst (Or.inl rfl)
      (@WritesSegments.cons _ _ _ _ _ _ _ ["Orders".toList] _ _ _ _ _ _ _ hpath rfl rfl hsecond (Or.inl rfl)
        (@WritesSegments.cons _ _ _ _ _ _ _ [] _ _ _ _ _ _ _ (hsingle _ hparent) rfl rfl hlevels (Or.inr ⟨⟨false, rfl, rfl⟩, rfl⟩)
          .nil))
  have htree (a b c : RelationTree) (relation : Text) :
      union (under relation (union a b)) c =
        union (under relation a) (union (under relation b) c) := by
    rw [← under_union, union_assoc]
  have htext : [','].intercalate [segmentText ["Orders".toList]
      [optionText "$filter" "Name eq 'a;b)''c'".toList, optionText "$top" "3".toList],
      segmentText ["Orders".toList, "Items".toList] [optionText "$select" "Id".toList],
      segmentText ["Parent".toList]
        [optionText "$levels" "3".toList, optionText "$select" "Name".toList]] =
      ("Orders($filter=Name eq 'a;b)''c';$top=3),Orders/Items($select=Id)," ++
        "Parent($levels=3;$select=Name)").toList := by
    decide
  rw [← htext]
  refine shows_parseExpand ?_ disjoint_customerTree
  rw [customerTree, htree]
  exact hwrites

section Refusals

variable {ι : Type} {rt : Runtime} {options : ParseOptions} {graph : RelationGraph ι}

theorem parseExpand_single {relations : Option ι} {text path value : Text} {parts : List Text}
    (hsplit : splitTopLevel text ',' = .ok [text])
    (hextract : extractPathAndOptions text = .ok (path, value))
    (hparts : ((path.splitOn '/').map trimText).filter (fun name => decide (name ≠ [])) = parts) :
    parseExpand rt options graph relations text =
      (buildIncludeFromParts rt options graph (parseExpandWithin rt options graph text.length)
        value parts relations).map (upsert []) := by
  rw [parseExpand, parseExpandWithin, hsplit]
  change [text].foldlM (parseSegment rt options graph _ relations) [] = _
  rw [List.foldlM_cons, parseSegment, hextract, ← hparts]
  change (buildIncludeFromParts rt options graph _ value _ relations >>= _) >>= _ = _
  cases buildIncludeFromParts rt options graph (parseExpandWithin rt options graph text.length)
    value (((path.splitOn '/').map trimText).filter fun name => decide (name ≠ [])) relations <;> rfl

theorem buildIncludeFromParts_refused {before next : Option ι} {relation value : Text}
    {err : FilterError} (parseIncludes : Option ι → Text → Except FilterError (List Inclusion))
    (hfollow : graph.follow before relation = .ok next)
    (hsplit : splitTopLevel (optionText "$filter" value) ';' = .ok [optionText "$filter" value])
    (hfilter : parseScopeFilter rt options value = .error err) (hvalue : Trimmed value) :
    buildIncludeFromParts rt options graph parseIncludes (optionText "$filter" value) [relation]
      before = .error err := by
  have hoption : parseExpandOption rt options (parseIncludes next) {}
      (optionText "$filter" value) = .error err := by
    rw [parseExpandOption_optionText (by decide) hvalue, applyExpandOption, if_neg (by decide),
      if_neg (by decide), if_pos rfl, hfilter]
    rfl
  have hparsed : parseExpandOptions rt options (parseIncludes next)
      (optionText "$filter" value) = .error err := by
    rw [parseExpandOptions, hsplit]
    change [optionText "$filter" value].foldlM
      (parseExpandOption rt options (parseIncludes next)) {} = _
    rw [List.foldlM_cons, hoption]
    rfl
  have hne := (trimmed_optionText (show "$filter" ∈ optionKeys by decide) hvalue).ne_nil
  rw [buildIncludeFromParts, hfollow]
  change (if optionText "$filter" value = [] then Except.ok (relation, Scope.empty) else
    parseExpandOptions rt options (parseIncludes next) (optionText "$filter" value) >>= _) = _
  rw [if_neg hne, hparsed]
  rfl

end Refusals

/-- A filter that the repository cannot evaluate is refused, and so is a number that is not safe. -/
theorem not_parseExpand_customers :
    (¬ ∃ includes, parseExpand Runtime.ascii {} customerRelations (some false)
      "Orders($filter=trim(Name) eq 'x')".toList = .ok includes) ∧
    ¬ ∃ includes, parseExpand Runtime.ascii {} customerRelations (some false)
      "Orders($top=9007199254740992)".toList = .ok includes := by
  constructor
  · rintro ⟨includes, hread⟩
    have hsplit : splitTopLevel "Orders($filter=trim(Name) eq 'x')".toList ',' =
        .ok ["Orders($filter=trim(Name) eq 'x')".toList] := by decide
    have hextract : extractPathAndOptions "Orders($filter=trim(Name) eq 'x')".toList =
        .ok ("Orders".toList, optionText "$filter" "trim(Name) eq 'x'".toList) := by decide
    have hparts : ((("Orders".toList).splitOn '/').map trimText).filter
        (fun name => decide (name ≠ [])) = ["Orders".toList] := by decide
    have hsplit' : splitTopLevel (optionText "$filter" "trim(Name) eq 'x'".toList) ';' =
        .ok [optionText "$filter" "trim(Name) eq 'x'".toList] := by decide
    have hbuild := buildIncludeFromParts_refused
      (parseExpandWithin Runtime.ascii {} customerRelations
        "Orders($filter=trim(Name) eq 'x')".toList.length)
      (show customerRelations.follow (some false) "Orders".toList = .ok (some true) from rfl)
      hsplit' parseScopeFilter_trim ⟨by decide, by decide, by decide⟩
    rw [parseExpand_single hsplit hextract hparts, hbuild] at hread
    cases hread
  · have hread : (parseExpand Runtime.ascii {} customerRelations (some false)
        "Orders($top=9007199254740992)".toList).toOption.isNone = true := by
      decide +kernel
    rintro ⟨includes, hincludes⟩
    rw [hincludes] at hread
    cases hread

end Expand

end LoopbackOData
