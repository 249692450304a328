import LoopbackOData.Expand.Inclusion

/-!
# Trees of relations

What an expansion asks for: a tree of relations with options at its nodes. Merging scopes that show
two trees gives one that shows their union, as long as no node has an option in both.
-/

namespace LoopbackOData

namespace Expand

set_option autoImplicit false

inductive NodeOption where
  | select (names : List Text)
  | filter (clause : Where)
  | orderby (order : List Text)
  | top (limit : Nat)
  | skip (offset : Nat)

inductive OptionKind where
  | select | filter | orderby | top | skip
  deriving DecidableEq

namespace NodeOption

def kind : NodeOption → OptionKind
  | .select _ => .select
  | .filter _ => .filter
  | .orderby _ => .orderby
  | .top _ => .top
  | .skip _ => .skip

def names? : NodeOption → Option (List Text)
  | .select names => some names
  | _ => none

def clause? : NodeOption → Option Where
  | .filter clause => some clause
  | _ => none

def order? : NodeOption → Option (List Text)
  | .orderby order => some order
  | _ => none

def limit? : NodeOption → Option Nat
  | .top limit => some limit
  | _ => none

def offset? : NodeOption → Option Nat
  | .skip offset => some offset
  | _ => none

end NodeOption

/-- A tree is given by the options at the end of each of its paths. -/
abbrev RelationTree := List Text → Option (List NodeOption)

namespace RelationTree

/-- A node without relations. -/
def leaf (options : List NodeOption) : RelationTree := fun path =>
  if path = [] then some options else none

/-- The tree below one relation of a node. -/
def under (relation : Text) (tree : RelationTree) : RelationTree
  | [] => some []
  | name :: path => if name = relation then tree path else none

/-- The tree below a path. -/
def along : List Text → RelationTree → RelationTree
  | [], tree => tree
  | relation :: path, tree => under relation (along path tree)

/-- The nodes of both trees, with the options of both. -/
def union (a b : RelationTree) : RelationTree := fun path =>
  (a path).merge (· ++ ·) (b path)

/-- The relation leads to the same node again, `levels` deep. -/
def nested (relation : Text) (tree : RelationTree) : Nat → RelationTree
  | 0 => tree
  | levels + 1 => union tree (under relation (nested relation tree levels))

/-- No option is written twice at a node. -/
def Disjoint (tree : RelationTree) : Prop :=
  ∀ path, ∀ options ∈ tree path, (options.map NodeOption.kind).Nodup

/-- The nodes are less than `depth` relations away. -/
def Shallow (depth : Nat) (tree : RelationTree) : Prop :=
  ∀ path, depth ≤ path.length → tree path = none

variable {a b c : RelationTree} {relation : Text} {path : List Text}

theorem union_eq_none : union a b path = none ↔ a path = none ∧ b path = none := by
  rw [union]
  cases a path <;> cases b path <;> simp

theorem union_of_left_none (h : a path = none) : union a b path = b path := by
  rw [union, h]
  cases b path <;> rfl

theorem union_of_right_none (h : b path = none) : union a b path = a path := by
  rw [union, h]
  cases a path <;> rfl

theorem union_of_some {os os' : List NodeOption} (h : a path = some os) (h' : b path = some os') :
    union a b path = some (os ++ os') := by
  rw [union, h, h']
  rfl

theorem union_assoc : union (union a b) c = union a (union b c) := by
  funext path
  simp only [union]
  cases a path <;> cases b path <;> cases c path <;> simp

theorem leaf_nil_union {os : List NodeOption} (h : a [] = some os) : union (leaf []) a = a := by
  funext path
  by_cases hpath : path = []
  · subst hpath
    rw [union_of_some (show leaf [] [] = some [] from if_pos rfl) h, h]
    rfl
  · exact union_of_left_none (if_neg hpath)

theorem union_leaf_nil {os : List NodeOption} (h : a [] = some os) : union a (leaf []) = a := by
  funext path
  by_cases hpath : path = []
  · subst hpath
    rw [union_of_some h (show leaf [] [] = some [] from if_pos rfl), h, List.append_nil]
  · exact union_of_right_none (if_neg hpath)

theorem union_leaf (os os' : List NodeOption) :
    union (leaf os) (leaf os') = leaf (os ++ os') := by
  funext path
  by_cases hpath : path = []
  · rw [union_of_some (if_pos hpath) (if_pos hpath), leaf, if_pos hpath]
  · rw [union_of_left_none (if_neg hpath), leaf, leaf, if_neg hpath, if_neg hpath]

theorem Disjoint.left (h : Disjoint (union a b)) : Disjoint a := by
  intro path options hmem
  cases hb : b path with
  | none => exact h path options (by rwa [union_of_right_none hb])
  | some os' =>
    have hboth := h path _ (union_of_some (Option.mem_def.mp hmem) hb)
    rw [List.map_append] at hboth
    exact hboth.of_append_left

theorem Disjoint.right (h : Disjoint (union a b)) : Disjoint b := by
  intro path options hmem
  cases ha : a path with
  | none => exact h path options (by rwa [union_of_left_none ha])
  | some os =>
    have hboth := h path _ (union_of_some ha (Option.mem_def.mp hmem))
    rw [List.map_append] at hboth
    exact hboth.of_append_right

theorem disjoint_leaf {os : List NodeOption} (hos : (os.map NodeOption.kind).Nodup) :
    Disjoint (leaf os) := by
  intro path options hmem
  rw [leaf, Option.mem_def] at hmem
  split at hmem
  · rwa [← Option.some.inj hmem]
  · cases hmem

theorem disjoint_leaf_union {os : List NodeOption} (hos : (os.map NodeOption.kind).Nodup)
    (hroot : a [] = some []) (h : Disjoint a) : Disjoint (union (leaf os) a) := by
  intro path options hmem
  by_cases hpath : path = []
  · subst hpath
    rw [union_of_some (if_pos rfl) hroot, List.append_nil] at hmem
    rwa [← Option.some.inj hmem]
  · rw [union_of_left_none (if_neg hpath)] at hmem
    exact h path options hmem

theorem disjoint_under (h : Disjoint a) : Disjoint (under relation a) := by
  intro path options hmem
  cases path with
  | nil =>
    obtain rfl := Option.some.inj hmem
    exact List.nodup_nil
  | cons name path =>
    rw [under, Option.mem_def] at hmem
    split at hmem
    · exact h path options hmem
    · cases hmem

/-- A relation that the other tree does not have. -/
theorem disjoint_under_union (h : Disjoint a) (hroot : b [] = some [])
    (hnew : ∀ path, b (relation :: path) = none) (hb : Disjoint b) :
    Disjoint (union (under relation a) b) := by
  intro path options hmem
  cases path with
  | nil =>
    rw [union_of_some (show under relation a [] = some [] from rfl) hroot] at hmem
    obtain rfl := Option.some.inj hmem
    exact List.nodup_nil
  | cons name path =>
    by_cases hname : name = relation
    · rw [hname, union_of_right_none (hnew path)] at hmem
      exact disjoint_under h (relation :: path) options hmem
    · rw [union_of_left_none (show under relation a (name :: path) = none from if_neg hname)]
        at hmem
      exact hb (name :: path) options hmem

theorem under_union : union (under relation a) (under relation b) = under relation (union a b) := by
  funext path
  cases path with
  | nil => rfl
  | cons name path =>
    by_cases hname : name = relation
    · simp only [union, under, if_pos hname]
    · simp only [union, under, if_neg hname]
      rfl

theorem Shallow.union {depth : Nat} (ha : Shallow depth a) (hb : Shallow depth b) :
    Shallow depth (union a b) :=
  fun path hdepth => union_eq_none.mpr ⟨ha path hdepth, hb path hdepth⟩

theorem Shallow.below {depth : Nat} (h : Shallow (depth + 1) a) (relation : Text) :
    Shallow depth fun path => a (relation :: path) :=
  fun _ hdepth => h _ (Nat.succ_le_succ hdepth)

theorem Disjoint.below (h : Disjoint a) (relation : Text) :
    Disjoint fun path => a (relation :: path) :=
  fun path => h (relation :: path)

end RelationTree

open RelationTree Dictionary

/-! ## What a scope shows -/

/-- The scope at the end of a path. -/
def Scope.node : Scope → List Text → Option Scope
  | scope, [] => some scope
  | scope, relation :: path => (get scope.includes relation).bind fun next => next.node path

/-- The fields are the names, except that relations may be among them. -/
structure Selects (relations fields names : List Text) : Prop where
  kept : ∀ name ∈ names, name ∈ fields
  written : ∀ name ∈ fields, name ∈ names ∨ name ∈ relations

/-- The scope has the options and nothing else, except that its own relations may be selected. -/
structure Fits (scope : Scope) (options : List NodeOption) : Prop where
  select : Option.Rel (Selects (scope.includes.map Prod.fst)) scope.options.fields
    (options.findSome? NodeOption.names?)
  filter : scope.options.whereClause = options.findSome? NodeOption.clause?
  orderby : scope.options.order = options.findSome? NodeOption.order?
  top : scope.options.limit = options.findSome? NodeOption.limit?
  skip : scope.options.offset = options.findSome? NodeOption.offset?

/-- The includes are the relations of the tree, each once, and every scope fits its node. -/
structure Shows (scope : Scope) (tree : RelationTree) : Prop where
  distinct : ∀ path, ∀ node ∈ scope.node path, Distinct node.includes
  fits : ∀ path, Option.Rel Fits (scope.node path) (tree path)

/-- The scope of a relation shows the tree below it, if there is one. -/
structure ShowsBelow (scope : Option Scope) (tree : RelationTree) : Prop where
  shows : ∀ s ∈ scope, Shows s tree
  absent : scope = none → ∀ path, tree path = none

theorem rel_none_left {α β : Type} {r : α → β → Prop} {b : Option β} (h : Option.Rel r none b) :
    b = none := by
  cases h
  rfl

theorem rel_some_left {α β : Type} {r : α → β → Prop} {a : α} {b : Option β}
    (h : Option.Rel r (some a) b) : ∃ b', b = some b' ∧ r a b' := by
  cases h with
  | some h => exact ⟨_, rfl, h⟩

theorem rel_mono {α β : Type} {r r' : α → β → Prop} {a : Option α} {b : Option β}
    (h : Option.Rel r a b) (hr : ∀ x y, r x y → r' x y) : Option.Rel r' a b := by
  cases h with
  | some h => exact .some (hr _ _ h)
  | none => exact .none

theorem rel_map_left {α β γ : Type} {r : α → β → Prop} {r' : γ → β → Prop} {f : α → γ}
    {a : Option α} {b : Option β} (h : Option.Rel r a b) (hf : ∀ x y, r x y → r' (f x) y) :
    Option.Rel r' (a.map f) b := by
  cases h with
  | some h => exact .some (hf _ _ h)
  | none => exact .none

theorem Shows.root {scope : Scope} {tree : RelationTree} (h : Shows scope tree) :
    ∃ os, tree [] = some os ∧ Fits scope os := rel_some_left (h.fits [])

theorem Shows.below {scope : Scope} {tree : RelationTree} (h : Shows scope tree)
    (relation : Text) :
    ShowsBelow (get scope.includes relation) fun path => tree (relation :: path) where
  shows := by
    intro s hs
    have hnode (path : List Text) : scope.node (relation :: path) = s.node path := by
      rw [Scope.node, Option.mem_def.mp hs, Option.bind_some]
    refine ⟨fun path node hmem => ?_, fun path => ?_⟩
    · exact h.distinct (relation :: path) node (by rwa [hnode])
    · have hfits := h.fits (relation :: path)
      rwa [hnode] at hfits
  absent := by
    intro hnone path
    have hfits := h.fits (relation :: path)
    rw [Scope.node, hnone, Option.bind_none] at hfits
    exact rel_none_left hfits

/-- A scope shows a tree if it fits the root and its includes show what is below. -/
theorem shows_of_below {scope : Scope} {tree : RelationTree} {os : List NodeOption}
    (hdistinct : Distinct scope.includes) (hroot : tree [] = some os) (hfits : Fits scope os)
    (hbelow : ∀ relation, ShowsBelow (get scope.includes relation)
      fun path => tree (relation :: path)) : Shows scope tree where
  distinct := by
    intro path node hmem
    cases path with
    | nil =>
      obtain rfl := Option.some.inj hmem
      exact hdistinct
    | cons relation path =>
      obtain ⟨s, hs, hnode⟩ := Option.bind_eq_some_iff.mp hmem
      exact ((hbelow relation).shows s hs).distinct path node hnode
  fits := by
    intro path
    cases path with
    | nil =>
      rw [hroot]
      exact .some hfits
    | cons relation path =>
      rw [Scope.node]
      cases hget : get scope.includes relation with
      | none =>
        rw [Option.bind_none, (hbelow relation).absent hget path]
        exact .none
      | some s => exact ((hbelow relation).shows s hget).fits path

theorem fits_empty : Fits Scope.empty [] where
  select := .none
  filter := rfl
  orderby := rfl
  top := rfl
  skip := rfl

theorem shows_of_fits {options : ScopeOptions} {os : List NodeOption}
    (h : Fits (.mk options []) os) : Shows (.mk options []) (leaf os) :=
  shows_of_below distinct_empty (if_pos rfl) h fun _ => ⟨nofun, fun _ _ => rfl⟩

theorem shows_empty : Shows Scope.empty (leaf []) := shows_of_fits fits_empty

/-! ## Merging -/

theorem mem_foldl_projectRelationField (names fields : List Text) (name : Text) :
    name ∈ names.foldl projectRelationField fields ↔ name ∈ fields ∨ name ∈ names := by
  induction names generalizing fields with
  | nil => simp
  | cons added names ih =>
    rw [List.foldl_cons, ih, projectRelationField]
    by_cases hadded : added ∈ fields
    · rw [if_pos hadded, List.mem_cons]
      constructor
      · tauto
      · rintro (h | rfl | h)
        · exact Or.inl h
        · exact Or.inl hadded
        · exact Or.inr h
    · rw [if_neg hadded, List.mem_append, List.mem_singleton, List.mem_cons]
      tauto

theorem keys_ensureIncludes (includes : List Inclusion) :
    (ensureIncludes includes).map Prod.fst = includes.map Prod.fst := by
  induction includes with
  | nil => rfl
  | cons entry rest ih => rw [ensureIncludes, List.map_cons, List.map_cons, ih]

theorem get_ensureIncludes (includes : List Inclusion) (relation : Text) :
    get (ensureIncludes includes) relation =
      (get includes relation).map ensureFieldsIncludeRelations := by
  induction includes with
  | nil => rfl
  | cons entry rest ih =>
    rw [ensureIncludes, get_cons, get_cons, ih]
    by_cases h : entry.1 = relation
    · rw [if_pos h, if_pos h]
      rfl
    · rw [if_neg h, if_neg h]

theorem node_ensureFieldsIncludeRelations (scope : Scope) (path : List Text) :
    (ensureFieldsIncludeRelations scope).node path =
      (scope.node path).map ensureFieldsIncludeRelations := by
  induction path generalizing scope with
  | nil => rfl
  | cons relation path ih =>
    cases scope with
    | mk options includes =>
      have hincludes : (ensureFieldsIncludeRelations (.mk options includes)).includes =
          ensureIncludes includes := rfl
      rw [Scope.node, Scope.node, hincludes, get_ensureIncludes]
      cases hget : get (Scope.mk options includes).includes relation with
      | none =>
        have hget' : get includes relation = none := hget
        rw [hget']
        rfl
      | some s =>
        have hget' : get includes relation = some s := hget
        rw [hget']
        exact ih s

theorem fits_ensureFieldsIncludeRelations {scope : Scope} {os : List NodeOption}
    (h : Fits scope os) : Fits (ensureFieldsIncludeRelations scope) os := by
  cases scope with
  | mk options includes =>
    refine ⟨?_, h.filter, h.orderby, h.top, h.skip⟩
    have hselect := h.select
    have hkeys : (ensureFieldsIncludeRelations (.mk options includes)).includes.map Prod.fst =
        includes.map Prod.fst := keys_ensureIncludes includes
    rw [hkeys]
    have hfields : (ensureFieldsIncludeRelations (.mk options includes)).options.fields =
        options.fields.map ((includes.map Prod.fst).foldl projectRelationField ·) := rfl
    rw [hfields]
    refine rel_map_left hselect fun fields names hboth => ⟨fun name hname => ?_, fun name hname => ?_⟩
    · exact (mem_foldl_projectRelationField _ _ _).mpr (Or.inl (hboth.kept name hname))
    · rcases (mem_foldl_projectRelationField _ _ _).mp hname with hname | hname
      · exact hboth.written name hname
      · exact Or.inr hname

theorem shows_ensureFieldsIncludeRelations {scope : Scope} {tree : RelationTree}
    (h : Shows scope tree) : Shows (ensureFieldsIncludeRelations scope) tree where
  distinct := by
    intro path node hmem
    rw [node_ensureFieldsIncludeRelations] at hmem
    obtain ⟨s, hs, rfl⟩ := Option.map_eq_some_iff.mp hmem
    have hdistinct := h.distinct path s hs
    cases s with
    | mk options includes =>
      have hkeys : (ensureIncludes includes).map Prod.fst = includes.map Prod.fst :=
        keys_ensureIncludes includes
      rw [Distinct] at hdistinct ⊢
      exact hkeys ▸ hdistinct
  fits := by
    intro path
    rw [node_ensureFieldsIncludeRelations]
    exact rel_map_left (h.fits path) fun _ _ => fits_ensureFieldsIncludeRelations

end Expand

end LoopbackOData
