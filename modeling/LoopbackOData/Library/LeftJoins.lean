import Mathlib

/-!
# Left joins along chains of relations

Rows are related to rows by named relations, each to one row at least, which stands for nothing
where nothing is related. Chains of names that begin alike share their beginning in a tree of
joins. The tree has as many combinations as the targets of the chains have, taken independently,
exactly if no shared beginning has several targets.
-/

namespace LeftJoins

set_option autoImplicit false

universe u v
variable {ρ : Type u} {ν : Type v} [DecidableEq ν] (related : ρ → ν → List ρ)

/-- The rows at the end of a chain. -/
def targets (row : ρ) (chain : List ν) : List ρ :=
  chain.foldl (fun current name => current.flatMap fun item => related item name) [row]

/-- The chains that are joined, and every choice of rows for them. -/
structure Joined (ρ : Type u) (ν : Type v) where
  done : List (List ν)
  combinations : List (List ν → ρ)

def Joined.start (row : ρ) : Joined ρ ν := ⟨[], [fun _ => row]⟩

/-- A name after a chain is joined unless it is already. -/
def Joined.joinName (j : Joined ρ ν) (path : List ν) (name : ν) : Joined ρ ν :=
  if path ++ [name] ∈ j.done then j
  else
    ⟨j.done ++ [path ++ [name]], j.combinations.flatMap fun choice =>
      (related (choice path) name).map fun row => Function.update choice (path ++ [name]) row⟩

def Joined.joinFrom (j : Joined ρ ν) (path : List ν) : List ν → Joined ρ ν
  | [] => j
  | name :: rest => Joined.joinFrom (j.joinName related path name) (path ++ [name]) rest

def Joined.joinChain (j : Joined ρ ν) (chain : List ν) : Joined ρ ν := j.joinFrom related [] chain

def leftJoin (row : ρ) (chains : List (List ν)) : Joined ρ ν :=
  chains.foldl (Joined.joinChain related) (.start row)

/-- The choices of targets for every chain by itself. -/
def products (row : ρ) (chains : List (List ν)) : List (List ρ) :=
  chains.foldl (fun choices chain =>
    choices.flatMap fun rows => (targets related row chain).map fun target => rows ++ [target]) [[]]

/-- A beginning that two chains share has one target. -/
def SharesSingle (row : ρ) (chains : List (List ν)) : Prop :=
  ∀ chain ∈ chains, ∀ chain' ∈ chains, chain ≠ chain' → ∀ path, path <+: chain → path <+: chain' →
    (targets related row path).length = 1

/-! ## Targets -/

section Targets

variable {related}

omit [DecidableEq ν] in
theorem foldl_flatMap (rows rows' : List ρ) (chain : List ν) :
    chain.foldl (fun current name => current.flatMap fun item => related item name)
        (rows ++ rows') =
      chain.foldl (fun current name => current.flatMap fun item => related item name) rows ++
        chain.foldl (fun current name => current.flatMap fun item => related item name) rows' := by
  induction chain generalizing rows rows' with
  | nil => rfl
  | cons name chain ih => rw [List.foldl_cons, List.flatMap_append, ih]; rfl

omit [DecidableEq ν] in
theorem foldl_eq_flatMap (rows : List ρ) (chain : List ν) :
    chain.foldl (fun current name => current.flatMap fun item => related item name) rows =
      rows.flatMap fun row => targets related row chain := by
  induction rows with
  | nil =>
    induction chain with
    | nil => rfl
    | cons name chain ih => exact ih
  | cons row rows ih =>
    rw [List.flatMap_cons, ← ih, targets, ← foldl_flatMap]
    rfl

omit [DecidableEq ν] in
theorem targets_append (row : ρ) (path chain : List ν) :
    targets related row (path ++ chain) =
      (targets related row path).flatMap fun target => targets related target chain := by
  rw [targets, List.foldl_append, foldl_eq_flatMap]
  rfl

omit [DecidableEq ν] in
theorem targets_cons (row : ρ) (name : ν) (chain : List ν) :
    targets related row (name :: chain) =
      (related row name).flatMap fun target => targets related target chain := by
  rw [targets, List.foldl_cons, List.flatMap_singleton, foldl_eq_flatMap]

variable (hrelated : ∀ row name, related row name ≠ [])
include hrelated

omit [DecidableEq ν] in
theorem targets_pos (row : ρ) (chain : List ν) : 0 < (targets related row chain).length := by
  induction chain generalizing row with
  | nil => exact Nat.one_pos
  | cons name chain ih =>
    obtain ⟨target, hmem⟩ := List.exists_mem_of_ne_nil _ (hrelated row name)
    rw [targets_cons, List.length_flatMap]
    exact Nat.lt_of_lt_of_le (ih target) (List.le_sum_of_mem (List.mem_map_of_mem hmem))

omit [DecidableEq ν] in
/-- A longer chain has no fewer targets. -/
theorem length_targets_le (row : ρ) (path chain : List ν) :
    (targets related row path).length ≤ (targets related row (path ++ chain)).length := by
  have hall (rows : List ρ) :
      rows.length ≤ (rows.flatMap fun target => targets related target chain).length := by
    induction rows with
    | nil => exact Nat.le_refl _
    | cons target rows ih =>
      have hpos := targets_pos hrelated target chain
      rw [List.flatMap_cons, List.length_append, List.length_cons]
      omega
  rw [targets_append]
  exact hall _

omit [DecidableEq ν] in
/-- One of several targets has fewer further targets than all of them have. -/
theorem length_targets_lt {row target : ρ} {path : List ν} (chain : List ν)
    (hmem : target ∈ targets related row path)
    (hseveral : 1 < (targets related row path).length) :
    (targets related target chain).length <
      (targets related row (path ++ chain)).length := by
  have hall {rows : List ρ} (hmem : target ∈ rows) (hseveral : 1 < rows.length) :
      (targets related target chain).length <
        (rows.flatMap fun target => targets related target chain).length := by
    obtain ⟨before, after, rfl⟩ := List.append_of_mem hmem
    have hother : 0 < (before.flatMap fun target => targets related target chain).length +
        (after.flatMap fun target => targets related target chain).length := by
      cases before with
      | cons other before =>
        have hpos := targets_pos hrelated other chain
        rw [List.flatMap_cons, List.length_append]
        omega
      | nil =>
        cases after with
        | nil => simp at hseveral
        | cons other after =>
          have hpos := targets_pos hrelated other chain
          rw [List.flatMap_cons, List.length_append]
          omega
    rw [List.flatMap_append, List.flatMap_cons, List.length_append, List.length_append]
    omega
  rw [targets_append]
  exact hall hmem hseveral

end Targets

/-! ## The tree of joins -/

section Tree

variable {related} {row : ρ} {j : Joined ρ ν} {path : List ν} {name : ν} {rest : List ν}

theorem mem_done_joinName {q : List ν} :
    q ∈ (j.joinName related path name).done ↔ q ∈ j.done ∨ q = path ++ [name] := by
  unfold Joined.joinName
  split
  · next hmem => exact ⟨.inl, fun h => h.elim id fun heq => heq ▸ hmem⟩
  · rw [List.mem_append, List.mem_singleton]

theorem mem_done_joinFrom {q : List ν} :
    q ∈ (j.joinFrom related path rest).done ↔
      q ∈ j.done ∨ ∃ more, more ≠ [] ∧ more <+: rest ∧ q = path ++ more := by
  induction rest generalizing j path with
  | nil =>
    rw [Joined.joinFrom]
    refine ⟨.inl, fun h => h.elim id ?_⟩
    rintro ⟨more, hne, hstart, _⟩
    exact absurd (List.prefix_nil.mp hstart) hne
  | cons name rest ih =>
    rw [Joined.joinFrom, ih, mem_done_joinName]
    constructor
    · rintro ((hdone | rfl) | ⟨more, hne, hstart, rfl⟩)
      · exact .inl hdone
      · exact .inr ⟨[name], by simp, ⟨rest, rfl⟩, rfl⟩
      · exact .inr ⟨name :: more, by simp, List.cons_prefix_cons.mpr ⟨rfl, hstart⟩, by simp⟩
    · rintro (hdone | ⟨more, hne, hstart, rfl⟩)
      · exact .inl (.inl hdone)
      · obtain ⟨name', more, rfl⟩ := List.exists_cons_of_ne_nil hne
        obtain ⟨rfl, hmoreprefix⟩ := List.cons_prefix_cons.mp hstart
        by_cases hmore : more = []
        · subst hmore
          exact .inl (.inr rfl)
        · exact .inr ⟨more, hmore, hmoreprefix, by simp⟩

/-- What is joined is what the chains begin with. -/
theorem mem_done_leftJoin {chains : List (List ν)} {q : List ν} :
    q ∈ (leftJoin related row chains).done ↔ q ≠ [] ∧ ∃ chain ∈ chains, q <+: chain := by
  induction chains using List.reverseRecOn with
  | nil =>
    refine iff_of_false List.not_mem_nil ?_
    rintro ⟨_, chain, hmem, _⟩
    exact List.not_mem_nil hmem
  | append_singleton chains chain ih =>
    rw [leftJoin, List.foldl_append, List.foldl_cons, List.foldl_nil, ← leftJoin,
      Joined.joinChain, mem_done_joinFrom, ih]
    constructor
    · rintro (⟨hne, chain', hmem, hstart⟩ | ⟨more, hne, hstart, rfl⟩)
      · exact ⟨hne, chain', List.mem_append_left _ hmem, hstart⟩
      · exact ⟨hne, chain, List.mem_append_right _ List.mem_cons_self, hstart⟩
    · rintro ⟨hne, chain', hmem, hstart⟩
      obtain hmem | hmem := List.mem_append.mp hmem
      · exact .inl ⟨hne, chain', hmem, hstart⟩
      · rw [List.mem_singleton.mp hmem] at hstart
        exact .inr ⟨q, hne, hstart, rfl⟩

theorem joinFrom_of_done
    (h : ∀ more, more ≠ [] → more <+: rest → path ++ more ∈ j.done) :
    j.joinFrom related path rest = j := by
  induction rest generalizing path with
  | nil => rfl
  | cons name rest ih =>
    have hname : path ++ [name] ∈ j.done := h [name] (by simp) ⟨rest, rfl⟩
    rw [Joined.joinFrom, Joined.joinName, if_pos hname]
    refine ih fun more hne hstart => ?_
    have hmore := h (name :: more) (by simp) (List.cons_prefix_cons.mpr ⟨rfl, hstart⟩)
    rwa [List.append_cons] at hmore

/-- A chain that is joined already changes nothing. -/
theorem leftJoin_append_of_mem {chains : List (List ν)} {chain : List ν}
    (h : chain = [] ∨ chain ∈ chains) :
    leftJoin related row (chains ++ [chain]) = leftJoin related row chains := by
  rw [leftJoin, List.foldl_append, ← leftJoin]
  refine joinFrom_of_done fun more hne hstart => ?_
  obtain rfl | hmem := h
  · exact absurd (List.prefix_nil.mp hstart) hne
  · exact mem_done_leftJoin.mpr ⟨hne, chain, hmem, hstart⟩

/-- Every choice has a target for what is joined. -/
def Joined.IsSound (related : ρ → ν → List ρ) (row : ρ) (j : Joined ρ ν) : Prop :=
  ∀ choice ∈ j.combinations, ∀ path, path = [] ∨ path ∈ j.done →
    choice path ∈ targets related row path

theorem isSound_joinName (h : j.IsSound related row) (hpath : path = [] ∨ path ∈ j.done) :
    (j.joinName related path name).IsSound related row := by
  unfold Joined.joinName
  split
  · exact h
  · rintro choice hmem q hq
    obtain ⟨before, hbefore, hmem⟩ := List.mem_flatMap.mp hmem
    obtain ⟨target, htarget, rfl⟩ := List.mem_map.mp hmem
    by_cases heq : q = path ++ [name]
    · subst heq
      rw [Function.update_self, targets_append]
      refine List.mem_flatMap.mpr ⟨before path, h before hbefore path hpath, ?_⟩
      rw [targets_cons]
      exact List.mem_flatMap.mpr ⟨target, htarget, List.mem_singleton.mpr rfl⟩
    · rw [Function.update_of_ne heq]
      refine h before hbefore q (hq.imp_right fun hq => ?_)
      exact (List.mem_append.mp hq).resolve_right fun hlast => heq (List.mem_singleton.mp hlast)

theorem isSound_joinFrom (h : j.IsSound related row) (hpath : path = [] ∨ path ∈ j.done) :
    (j.joinFrom related path rest).IsSound related row := by
  induction rest generalizing j path with
  | nil => exact h
  | cons name rest ih =>
    exact ih (isSound_joinName h hpath) (.inr (mem_done_joinName.mpr (.inr rfl)))

theorem isSound_leftJoin (chains : List (List ν)) :
    (leftJoin related row chains).IsSound related row := by
  induction chains using List.reverseRecOn with
  | nil =>
    rintro choice hmem path hpath
    rw [List.mem_singleton.mp hmem, hpath.resolve_right List.not_mem_nil]
    exact List.mem_singleton.mpr rfl
  | append_singleton chains chain ih =>
    rw [leftJoin, List.foldl_append]
    exact isSound_joinFrom ih (.inl rfl)

/-- Below a chain that has not been joined, the choices are those of its targets; whatever does not
look at what is joined there stays the same. -/
theorem combinations_joinFrom_new (related : ρ → ν → List ρ) {β : Type*}
    (seen : (List ν → ρ) → β)
    (hnew : ∀ q ∈ j.done, ∀ name ∈ rest.head?, ¬ path ++ [name] <+: q)
    (hseen : ∀ choice target more, more ≠ [] → more <+: rest →
      seen (Function.update choice (path ++ more) target) = seen choice) :
    (j.joinFrom related path rest).combinations.map
        (fun choice => (seen choice, choice (path ++ rest))) =
      j.combinations.flatMap fun choice =>
        (targets related (choice path) rest).map fun target => (seen choice, target) := by
  induction rest generalizing j path with
  | nil =>
    rw [Joined.joinFrom, List.append_nil]
    exact List.map_eq_flatMap
  | cons name rest ih =>
    have hnot : path ++ [name] ∉ j.done := fun hmem =>
      hnew _ hmem name rfl (List.prefix_refl _)
    rw [Joined.joinFrom, List.append_cons, ih]
    · have hfirst (choice : List ν → ρ) (target : ρ) :
          seen (Function.update choice (path ++ [name]) target) = seen choice :=
        hseen choice target [name] (by simp) ⟨rest, rfl⟩
      simp only [Joined.joinName, if_neg hnot, List.flatMap_assoc, List.flatMap_map, hfirst,
        Function.update_self, targets_cons, List.map_flatMap]
    · rintro q hq name' hname' hstart
      obtain hq | rfl := mem_done_joinName.mp hq
      · exact hnew q hq name rfl ((List.prefix_append _ _).trans hstart)
      · exact absurd hstart.length_le (by simp)
    · intro choice target more hne hstart
      have hstep := hseen choice target (name :: more) (by simp)
        (List.cons_prefix_cons.mpr ⟨rfl, hstart⟩)
      rwa [List.append_cons] at hstep

end Tree

/-! ## Trees and products -/

section Counting

variable {related} {row : ρ} {chains : List (List ν)} {chain : List ν}

/-- A chain is what has been joined of it, and the rest. -/
theorem exists_split (related : ρ → ν → List ρ) (row : ρ) (chains : List (List ν))
    (chain : List ν) :
    ∃ start rest, chain = start ++ rest ∧
      (start = [] ∨ start ∈ (leftJoin related row chains).done) ∧
      (∀ q ∈ (leftJoin related row chains).done, ∀ name ∈ rest.head?, ¬ start ++ [name] <+: q) ∧
      (leftJoin related row chains).joinChain related chain =
        (leftJoin related row chains).joinFrom related start rest := by
  have hclosed {p q : List ν} (hne : p ≠ []) (hstart : p <+: q)
      (hq : q ∈ (leftJoin related row chains).done) : p ∈ (leftJoin related row chains).done := by
    obtain ⟨_, chain', hmem, hstart'⟩ := mem_done_leftJoin.mp hq
    exact mem_done_leftJoin.mpr ⟨hne, chain', hmem, hstart.trans hstart'⟩
  suffices hall : ∀ path rest, (path = [] ∨ path ∈ (leftJoin related row chains).done) →
      ∃ start rest', path ++ rest = start ++ rest' ∧
        (start = [] ∨ start ∈ (leftJoin related row chains).done) ∧
        (∀ q ∈ (leftJoin related row chains).done, ∀ name ∈ rest'.head?,
          ¬ start ++ [name] <+: q) ∧
        (leftJoin related row chains).joinFrom related path rest =
          (leftJoin related row chains).joinFrom related start rest' from
    hall [] chain (.inl rfl)
  intro path rest hpath
  induction rest generalizing path with
  | nil =>
    refine ⟨path, [], rfl, hpath, ?_, rfl⟩
    exact fun _ _ name hname => (Option.not_mem_none name hname).elim
  | cons name rest ih =>
    by_cases hdone : path ++ [name] ∈ (leftJoin related row chains).done
    · obtain ⟨start, rest', heq, hstart, hnew, hjoin⟩ := ih (path ++ [name]) (.inr hdone)
      refine ⟨start, rest', by rw [← heq, List.append_cons], hstart, hnew, ?_⟩
      rw [← hjoin, Joined.joinFrom, Joined.joinName, if_pos hdone]
    · refine ⟨path, name :: rest, rfl, hpath, ?_, rfl⟩
      rintro q hq name' ⟨⟩ hstart
      exact hdone (hclosed (by simp) hstart hq)

omit [DecidableEq ν] in
theorem products_append (chains : List (List ν)) (chain : List ν) :
    products related row (chains ++ [chain]) =
      (products related row chains).flatMap fun rows =>
        (targets related row chain).map fun target => rows ++ [target] := by
  rw [products, List.foldl_append]
  rfl

omit [DecidableEq ν] in
theorem length_products_append (chains : List (List ν)) (chain : List ν) :
    (products related row (chains ++ [chain])).length =
      (products related row chains).length * (targets related row chain).length := by
  rw [products_append, List.length_flatMap]
  simp only [List.length_map]
  rw [List.map_const', List.sum_replicate, smul_eq_mul]

omit [DecidableEq ν] in
theorem length_products (chains : List (List ν)) :
    (products related row chains).length =
      (chains.map fun chain => (targets related row chain).length).prod := by
  induction chains using List.reverseRecOn with
  | nil => rfl
  | append_singleton chains chain ih =>
    rw [length_products_append, ih, List.map_append, List.prod_append]
    exact congrArg _ (List.prod_singleton).symm

/-- A new chain multiplies the choices by its targets below what has been joined of it. -/
theorem combinations_append {start rest : List ν} (hchain : chain = start ++ rest)
    (hnew : ∀ q ∈ (leftJoin related row chains).done, ∀ name ∈ rest.head?,
      ¬ start ++ [name] <+: q)
    (hjoin : (leftJoin related row chains).joinChain related chain =
      (leftJoin related row chains).joinFrom related start rest) :
    (leftJoin related row (chains ++ [chain])).combinations.map
        (fun choice => (chains ++ [chain]).map choice) =
      (leftJoin related row chains).combinations.flatMap fun choice =>
        (targets related (choice start) rest).map fun target => chains.map choice ++ [target] := by
  have hseen : ∀ (choice : List ν → ρ) target more, more ≠ [] → more <+: rest →
      chains.map (Function.update choice (start ++ more) target) = chains.map choice := by
    intro choice target more hne hstart
    refine List.map_congr_left fun chain' hmem => Function.update_of_ne ?_ target choice
    rintro rfl
    obtain ⟨name, more, rfl⟩ := List.exists_cons_of_ne_nil hne
    obtain ⟨after, rfl⟩ := hstart
    refine hnew _ (mem_done_leftJoin.mpr ⟨by simp, _, hmem, List.prefix_refl _⟩) name rfl ?_
    exact ⟨more, by simp⟩
  have hcombinations := combinations_joinFrom_new related (fun choice => chains.map choice) hnew hseen
  have hmap := congrArg (List.map fun seen => seen.1 ++ [seen.2]) hcombinations
  rw [List.map_map, List.map_flatMap] at hmap
  simp only [List.map_map, Function.comp_def] at hmap
  rw [leftJoin, List.foldl_append, List.foldl_cons, List.foldl_nil, ← leftJoin, hjoin]
  simp only [List.map_append, List.map_cons, List.map_nil, hchain]
  exact hmap

variable (hrelated : ∀ row name, related row name ≠ [])
include hrelated

theorem combinations_ne_nil (row : ρ) (chains : List (List ν)) :
    (leftJoin related row chains).combinations ≠ [] := by
  have hname {j : Joined ρ ν} {path : List ν} {name : ν} (h : j.combinations ≠ []) :
      (j.joinName related path name).combinations ≠ [] := by
    unfold Joined.joinName
    split
    · exact h
    · obtain ⟨choice, hmem⟩ := List.exists_mem_of_ne_nil _ h
      obtain ⟨target, htarget⟩ := List.exists_mem_of_ne_nil _ (hrelated (choice path) name)
      exact List.ne_nil_of_mem
        (List.mem_flatMap.mpr ⟨choice, hmem, List.mem_map_of_mem htarget⟩)
  have hfrom {j : Joined ρ ν} (rest path : List ν) (h : j.combinations ≠ []) :
      (j.joinFrom related path rest).combinations ≠ [] := by
    induction rest generalizing j path with
    | nil => exact h
    | cons name rest ih => exact ih _ (hname h)
  induction chains using List.reverseRecOn with
  | nil => exact List.cons_ne_nil _ _
  | append_singleton chains chain ih =>
    rw [leftJoin, List.foldl_append]
    exact hfrom _ _ ih

/-- A chain after others shares single beginnings with them if what has been joined of it has one
target. -/
theorem sharesSingle_append {start rest : List ν} (hnot : chain ∉ chains)
    (hchain : chain = start ++ rest)
    (hstart : start = [] ∨ start ∈ (leftJoin related row chains).done)
    (hnew : ∀ q ∈ (leftJoin related row chains).done, ∀ name ∈ rest.head?,
      ¬ start ++ [name] <+: q) :
    SharesSingle related row (chains ++ [chain]) ↔
      SharesSingle related row chains ∧ (targets related row start).length = 1 := by
  have hroot : (targets related row []).length = 1 := rfl
  have hshared : (∀ chain' ∈ chains, ∀ path, path <+: chain → path <+: chain' →
      (targets related row path).length = 1) ↔ (targets related row start).length = 1 := by
    constructor
    · intro h
      obtain rfl | hdone := hstart
      · exact hroot
      · obtain ⟨_, chain', hmem, hstart⟩ := mem_done_leftJoin.mp hdone
        exact h chain' hmem start ⟨rest, hchain.symm⟩ hstart
    · intro h chain' hmem path hpath hpath'
      have hstartPath : path <+: start := by
        by_contra hlonger
        rw [hchain] at hpath
        obtain ⟨more, rfl⟩ | hstart :=
          (List.prefix_or_prefix_of_prefix (List.prefix_append start rest) hpath)
        · have hne : more ≠ [] := by
            rintro rfl
            exact hlonger (by simp)
          obtain ⟨name, more, rfl⟩ := List.exists_cons_of_ne_nil hne
          have hhead : name ∈ rest.head? := by
            obtain ⟨after, hafter⟩ := hpath
            rw [List.append_assoc, List.append_cancel_left_eq] at hafter
            rw [← hafter]
            rfl
          exact hnew _ (mem_done_leftJoin.mpr ⟨by simp, chain', hmem, hpath'⟩) name hhead
            ⟨more, by simp⟩
        · exact hlonger hstart
      obtain ⟨more, rfl⟩ := hstartPath
      have hle := length_targets_le hrelated row path more
      have hpos := targets_pos hrelated row path
      omega
  rw [← hshared]
  constructor
  · intro h
    refine ⟨fun c hc c' hc' => h c (List.mem_append_left _ hc) c' (List.mem_append_left _ hc'), ?_⟩
    intro chain' hmem path hpath hpath'
    refine h chain (by simp) chain' (List.mem_append_left _ hmem) ?_ path hpath hpath'
    rintro rfl
    exact hnot hmem
  · rintro ⟨hsingle, hlast⟩ c hc c' hc' hne path hpath hpath'
    obtain hc | hc := List.mem_append.mp hc
    · obtain hc' | hc' := List.mem_append.mp hc'
      · exact hsingle c hc c' hc' hne path hpath hpath'
      · rw [List.mem_singleton.mp hc'] at hpath'
        exact hlast c hc path hpath' hpath
    · rw [List.mem_singleton.mp hc] at hpath hne
      obtain hc' | hc' := List.mem_append.mp hc'
      · exact hlast c' hc' path hpath hpath'
      · exact absurd (List.mem_singleton.mp hc').symm hne

/-- The choices are the products where every shared beginning has one target, and fewer
otherwise. -/
theorem leftJoin_products (row : ρ) (hnodup : chains.Nodup) :
    (SharesSingle related row chains →
      (leftJoin related row chains).combinations.map (fun choice => chains.map choice) =
        products related row chains) ∧
    (¬ SharesSingle related row chains →
      (leftJoin related row chains).combinations.length <
        (products related row chains).length) := by
  induction chains using List.reverseRecOn with
  | nil => exact ⟨fun _ => rfl, fun h => absurd (fun c hc => absurd hc List.not_mem_nil) h⟩
  | append_singleton chains chain ih =>
    have hdisjoint := List.nodup_append.mp hnodup
    obtain ⟨hequal, hfewer⟩ := ih hdisjoint.1
    have hnot : chain ∉ chains := fun hmem =>
      hdisjoint.2.2 chain hmem chain List.mem_cons_self rfl
    obtain ⟨start, rest, hchain, hstart, hnew, hjoin⟩ :=
      exists_split related row chains chain
    have hcombinations := combinations_append hchain hnew hjoin
    rw [sharesSingle_append hrelated hnot hchain hstart hnew]
    have hle : (leftJoin related row chains).combinations.length ≤
        (products related row chains).length := by
      by_cases hsingle : SharesSingle related row chains
      · rw [← hequal hsingle, List.length_map]
      · exact Nat.le_of_lt (hfewer hsingle)
    have hlength : (leftJoin related row (chains ++ [chain])).combinations.length =
        ((leftJoin related row chains).combinations.map fun choice =>
          (targets related (choice start) rest).length).sum := by
      rw [← List.length_map (f := fun choice => (chains ++ [chain]).map choice), hcombinations,
        List.length_flatMap]
      simp only [List.length_map]
    by_cases hone : (targets related row start).length = 1
    · obtain ⟨target, htarget⟩ := List.length_eq_one_iff.mp hone
      have hsame : ∀ choice ∈ (leftJoin related row chains).combinations,
          targets related (choice start) rest = targets related row chain := by
        intro choice hmem
        have hsound := isSound_leftJoin chains choice hmem start hstart
        rw [htarget, List.mem_singleton] at hsound
        rw [hsound, hchain, targets_append, htarget, List.flatMap_singleton]
      constructor
      · rintro ⟨hsingle, _⟩
        rw [hcombinations, products_append, ← hequal hsingle, List.flatMap_map]
        exact List.flatMap_congr fun choice hmem => by rw [hsame choice hmem]
      · intro hnot
        have hlt := hfewer fun hsingle => hnot ⟨hsingle, hone⟩
        rw [hlength, List.map_congr_left fun choice hmem => congrArg List.length
          (hsame choice hmem), List.map_const', List.sum_replicate, smul_eq_mul,
          length_products_append]
        exact Nat.mul_lt_mul_of_pos_right hlt (targets_pos hrelated row chain)
    · have hseveral : 1 < (targets related row start).length :=
        Nat.lt_of_le_of_ne (targets_pos hrelated row start) (Ne.symm hone)
      refine ⟨fun h => absurd h.2 hone, fun _ => ?_⟩
      have hterms : ∀ count ∈ (leftJoin related row chains).combinations.map fun choice =>
          (targets related (choice start) rest).length,
          count ≤ (targets related row chain).length - 1 := by
        intro count hmem
        obtain ⟨choice, hchoice, rfl⟩ := List.mem_map.mp hmem
        have hlt := length_targets_lt hrelated rest
          (isSound_leftJoin chains choice hchoice start hstart) hseveral
        rw [← hchain] at hlt
        omega
      have hsum := List.sum_le_card_nsmul _ _ hterms
      have hpos := targets_pos hrelated row chain
      have hcombinationsPos := List.length_pos_iff.mpr (combinations_ne_nil hrelated row chains)
      rw [List.length_map, smul_eq_mul, ← hlength] at hsum
      rw [length_products_append]
      calc (leftJoin related row (chains ++ [chain])).combinations.length
          ≤ (leftJoin related row chains).combinations.length *
              ((targets related row chain).length - 1) := hsum
        _ < (leftJoin related row chains).combinations.length *
              (targets related row chain).length :=
            Nat.mul_lt_mul_of_pos_left (by omega) hcombinationsPos
        _ ≤ (products related row chains).length * (targets related row chain).length :=
            Nat.mul_le_mul_right _ hle

end Counting

end LeftJoins
