import LoopbackOData.Apply.Window

/-!
# The pages of the last stage

What a client reads that follows the next links from a request with `$apply` alone. In memory the
rows are cut once and sorted again by the columns of the token; a query of the database sorts by the
`orderby` of the stage only, and repeats the offset and the limit of the stage on each page.
-/

namespace LoopbackOData

namespace Apply

open Outcome ListRelations ThreeValued

set_option autoImplicit false

/-! ## The columns of a token -/

section Columns

variable {compare : Scalar → Scalar → Ordering} {stage : Stage}

theorem orderBy_append (first second : List OrderDescriptor) (a b : Row) :
    orderBy compare (first ++ second) a b =
      (orderBy compare first a b).then (orderBy compare second a b) := by
  induction first with
  | nil => rfl
  | cons item first ih =>
    rw [List.cons_append, orderBy, orderBy, ih, Ordering.then_assoc]

theorem compare_eq_of_orderBy {order : List OrderDescriptor} {a b : Row}
    (h : orderBy compare order a b = .eq) {item : OrderDescriptor} (hitem : item ∈ order) :
    compare (a item.field) (b item.field) = .eq := by
  induction order with
  | nil => cases hitem
  | cons first order ih =>
    rw [orderBy, Ordering.then_eq_eq, directed_eq_iff] at h
    rcases List.mem_cons.mp hitem with rfl | hitem
    · exact h.1
    · exact ih h.2 hitem

/-- A field that is compared already tells no rows apart. -/
theorem orderBy_addDescriptor {item : OrderDescriptor} (hfield : item.field ≠ [])
    (order rest : List OrderDescriptor) :
    orderBy compare (addDescriptor order item ++ rest) =
      orderBy compare (order ++ item :: rest) := by
  unfold addDescriptor
  split
  · next hdrop =>
    have hmem := hdrop.resolve_left hfield
    obtain ⟨known, hknown, hname⟩ := List.mem_map.mp hmem
    funext a b
    rw [orderBy_append, orderBy_append, orderBy]
    by_cases heq : orderBy compare order a b = .eq
    · have hsame := compare_eq_of_orderBy heq hknown
      rw [hname] at hsame
      rw [heq, directed_eq_iff.mpr hsame]
      rfl
    · cases horder : orderBy compare order a b with
      | eq => exact absurd horder heq
      | _ => rfl
  · rw [List.append_assoc]
    rfl

theorem orderBy_foldl_addDescriptor {items : List OrderDescriptor}
    (hfields : ∀ item ∈ items, item.field ≠ []) (order : List OrderDescriptor) :
    orderBy compare (items.foldl addDescriptor order) = orderBy compare (order ++ items) := by
  induction items generalizing order with
  | nil => rw [List.append_nil, List.foldl_nil]
  | cons item items ih =>
    have hrest := ih fun item' hitem => hfields item' (List.mem_cons_of_mem _ hitem)
    rw [List.foldl_cons, hrest, orderBy_addDescriptor (hfields item List.mem_cons_self)]

theorem foldl_addDescriptor_ne_nil (items : List OrderDescriptor) {order : List OrderDescriptor}
    (h : order ≠ []) : items.foldl addDescriptor order ≠ [] := by
  induction items generalizing order with
  | nil => exact h
  | cons item items ih =>
    apply ih
    unfold addDescriptor
    split
    · exact h
    · exact List.append_ne_nil_of_right_ne_nil _ (List.cons_ne_nil _ _)

/-- A token goes by the `orderby` of the stage where it has one. -/
theorem orderBy_descriptors (hfields : ∀ item ∈ stage.orderBy, item.field ≠ [])
    (horder : stage.orderBy ≠ []) :
    orderBy compare (buildApplyOrderDescriptors stage) = orderBy compare stage.orderBy := by
  have hkept : stage.orderBy.foldl addDescriptor [] ≠ [] := by
    cases hitems : stage.orderBy with
    | nil => exact absurd hitems horder
    | cons item items =>
      rw [List.foldl_cons]
      apply foldl_addDescriptor_ne_nil
      have hfield : item.field ≠ [] := by
        apply hfields
        rw [hitems]
        exact List.mem_cons_self
      unfold addDescriptor
      rw [if_neg]
      · exact List.cons_ne_nil _ _
      · rintro (hempty | hmem)
        · exact hfield hempty
        · cases hmem
  rw [buildApplyOrderDescriptors, if_pos hkept, orderBy_foldl_addDescriptor hfields]
  rfl

end Columns

/-! ## The result -/

/-- A request with `$apply` and no other option. -/
def noOptions : ListOptions := ⟨[], none, none⟩

/-- The rows of the last stage: sorted by its `orderby`, and cut. Without `orderby` the rows that
are left come in any order; a database breaks ties as it likes before it cuts. -/
def IsResult (rt : TokenRuntime) (stage : Stage) (rows out : List Row) : Source → Prop
  | .memory =>
    out.Perm (stage.result rt rows) ∧ (stage.orderBy ≠ [] → out = stage.result rt rows)
  | .database db => ∃ ordered : List Row, ordered.Perm rows ∧
      ordered.Pairwise (fun a b => orderBy db.order stage.orderBy a b ≠ .gt) ∧
      out = sliceResults ordered stage.skip stage.top

/-- Reading all pages returns the result. -/
def PagesReturnResult (rt : TokenRuntime) (context : ListContext) (source : Source) (stage : Stage)
    (rows : List Row) : Prop :=
  ∃ out, Pages.Reading (fetchApply rt context source stage rows noOptions) none out ∧
    IsResult rt stage rows out source

/-! ## Comparisons of a database -/

namespace Database

variable (db : Database) (rt : TokenRuntime)

/-- The database compares a value with the text of another one as it orders the two. -/
def ReadsAs (a b : Scalar) : Prop :=
  ∀ raw, stringifySkipTokenValue rt b = .ok raw →
    db.equals a raw = .ofBool (db.order a b == .eq) ∧
    db.greater a raw = .ofBool (db.order a b == .gt) ∧
    db.less a raw = .ofBool (db.order a b == .lt)

/-- Up to the first field that tells them apart, the values of a row are compared with those of the
last row of a page as they are ordered. -/
def Tells : List OrderDescriptor → Row → Row → Prop
  | [], _, _ => True
  | item :: rest, last, row =>
    db.ReadsAs rt (row item.field) (last item.field) ∧
      (db.order (row item.field) (last item.field) = .eq → Tells rest last row)

/-- At the end of a page of a query. -/
structure PageEnd (descriptors : List OrderDescriptor) (rows : List Row) (last : Row)
    (rest : List Row) : Prop where
  signable : ∃ values, skipTokenValues rt (fun row field => row field) last descriptors =
    .ok (some values)
  tells : ∀ row ∈ rows, db.Tells rt descriptors last row
  apart : ∀ row ∈ rest, orderBy db.order descriptors row last ≠ .eq

variable {db rt} {descriptors : List OrderDescriptor} {last row : Row}

theorem any_branches_ne_true {equal : List Truth} (h : .false ∈ equal)
    (descriptors : List OrderDescriptor) (values : List Text) :
    Truth.any (db.skipTokenBranches row equal descriptors values) ≠ .true := by
  induction descriptors generalizing equal values with
  | nil =>
    intro hany
    cases hany
  | cons item rest ih =>
    cases values with
    | nil =>
      intro hany
      cases hany
    | cons value values =>
      rw [skipTokenBranches, Truth.any_cons, Ne, Truth.or_eq_true]
      rintro (hall | hrest)
      · have htrue := (Truth.all_eq_true _).mp hall _ (List.mem_append_left _ h)
        cases htrue
      · exact ih (List.mem_append_left _ h) values hrest

theorem all_append_singleton {equal : List Truth} (h : ∀ t ∈ equal, t = .true) (t : Truth) :
    Truth.all (equal ++ [t]) = .true ↔ t = .true := by
  rw [Truth.all_eq_true]
  constructor
  · intro hall
    exact hall t (List.mem_append_right _ List.mem_cons_self)
  · intro ht t' ht'
    rcases List.mem_append.mp ht' with ht' | ht'
    · exact h t' ht'
    · rw [List.mem_singleton.mp ht']
      exact ht

/-- By induction on the fields, those before being equal. -/
theorem any_branches_iff {equal : List Truth} (hequal : ∀ t ∈ equal, t = .true)
    (h : db.Tells rt descriptors last row) {values : List Text}
    (hvalues : skipTokenValues rt (fun row field => row field) last descriptors =
      .ok (some values)) :
    Truth.any (db.skipTokenBranches row equal descriptors values) = .true ↔
      orderBy db.order descriptors row last = .gt := by
  induction descriptors generalizing equal values with
  | nil =>
    have hnil : [] = values := Option.some.inj (Except.ok.inj hvalues)
    rw [← hnil]
    constructor
    · intro hany
      cases hany
    · intro hgt
      cases hgt
  | cons item rest ih =>
    obtain ⟨hreads, hrest⟩ := h
    rw [skipTokenValues] at hvalues
    split at hvalues
    · cases hvalues
    · obtain ⟨raw, hraw, hvalues⟩ := bind_eq_ok.mp hvalues
      obtain ⟨raws, hraws, hvalues⟩ := bind_eq_ok.mp hvalues
      cases raws with
      | none => cases hvalues
      | some raws =>
        obtain rfl := Option.some.inj (Except.ok.inj hvalues)
        obtain ⟨hequals, hgreater, hless⟩ := hreads raw hraw
        have hbranch (comparison : Truth) (hcomparison : comparison = .true ↔
            directed item.direction (db.order (row item.field) (last item.field)) = .gt) :
            (Truth.all (equal ++ [comparison])).or (Truth.any (db.skipTokenBranches row
              (equal ++ [db.equals (row item.field) raw]) rest raws)) = .true ↔
              orderBy db.order (item :: rest) row last = .gt := by
          rw [Truth.or_eq_true, all_append_singleton hequal, hcomparison, orderBy, hequals]
          cases horder : db.order (row item.field) (last item.field) with
          | eq =>
            have hstep : ∀ t ∈ equal ++ [Truth.ofBool (Ordering.eq == Ordering.eq)],
                t = Truth.true := by
              intro t ht
              rcases List.mem_append.mp ht with ht | ht
              · exact hequal t ht
              · exact List.mem_singleton.mp ht
            have heq : directed item.direction .eq = .eq := directed_eq_iff.mpr rfl
            rw [ih hstep (hrest horder) hraws, heq]
            exact or_iff_right Ordering.noConfusion
          | _ =>
            have hstop : Truth.any (db.skipTokenBranches row
                (equal ++ [Truth.ofBool false]) rest raws) ≠ .true := by
              apply any_branches_ne_true
              exact List.mem_append_right _ List.mem_cons_self
            refine (or_iff_left hstop).trans ?_
            cases item.direction <;> exact Iff.rfl
        rw [skipTokenBranches, Truth.any_cons]
        apply hbranch
        cases item.direction with
        | asc =>
          rw [hgreater, Truth.ofBool_eq_true, beq_iff_eq]
          rfl
        | desc =>
          rw [hless, Truth.ofBool_eq_true, beq_iff_eq]
          exact Ordering.swap_eq_gt.symm

/-- The token of a page lets through exactly the rows that follow its last row in the order. -/
theorem passesSkipToken_iff (h : db.Tells rt descriptors last row) {values : List Text}
    (hvalues : skipTokenValues rt (fun row field => row field) last descriptors =
      .ok (some values)) :
    db.passesSkipToken descriptors (some values) row = true ↔
      orderBy db.order descriptors row last = .gt := by
  rw [← any_branches_iff (List.forall_mem_nil _) h hvalues]
  exact decide_eq_true_iff

/-- The database orders the values of each of the columns, on the rows of the stage. -/
def Orders (db : Database) (order : List OrderDescriptor) (rows : List Row) : Prop :=
  ∀ item ∈ order, Std.TransCmp fun a b : { row // row ∈ rows } =>
    db.order (a.val item.field) (b.val item.field)

end Database

/-! ## When the pages return the result -/

/-- However rows that the order does not tell apart are arranged, at the end of each page. -/
def EachPageEnds (order : Row → Row → Ordering) (size : Nat) (rows : List Row)
    (ends : List Row → Row → List Row → Prop) : Prop :=
  ∀ before last rest, (before ++ last :: rest).Perm rows →
    (before ++ last :: rest).Pairwise (fun a b => order a b ≠ .gt) → rest ≠ [] →
      size ∣ before.length + 1 → ends before last rest

/-- The result is on one page, or the order tells each page from the next. A query, which offsets
and limits each page by the stage's `skip` and `top`, resumes only a stage that has an `orderby` and
cuts nothing off. -/
def StageResumes (rt : TokenRuntime) (context : ListContext) (stage : Stage) (rows : List Row) :
    Source → Prop
  | .memory =>
    let order := orderBy (orderValues rt) (buildApplyOrderDescriptors stage)
    let size := applyPageSize context.limits stage noOptions
    stage.orderBy = [] ∧ (stage.result rt rows).length ≤ size ∨
      OrdersOn (fun a b => order a b != .gt) rows ∧
        EachPageEnds order size (stage.result rt rows)
          (PageEnd rt (buildApplyOrderDescriptors stage))
  | .database db =>
    let order := orderBy db.order stage.orderBy
    let size := applyPageSize context.limits stage noOptions
    db.Orders stage.orderBy rows ∧
      ((sliceResults rows stage.skip stage.top).length ≤ size ∨
        stage.orderBy ≠ [] ∧ stage.skip.getD 0 = 0 ∧ (∀ top ∈ stage.top, rows.length ≤ top) ∧
        EachPageEnds order size rows fun _ last rest =>
          db.PageEnd rt (buildApplyOrderDescriptors stage) rows last rest)

section Reading

variable {rt : TokenRuntime} {context : ListContext} {stage : Stage} {rows : List Row}

theorem checkOptions_noOptions : checkOptions context noOptions = .ok () := by
  unfold checkOptions noOptions
  rw [if_neg (by rintro ⟨_, h⟩; exact h rfl), if_neg (by rintro ⟨_, h⟩; cases h)]
  exact if_neg (by rintro ⟨_, h⟩; cases h)

theorem mem_of_mem_sliceResults {offset limit : Option Nat} {row : Row}
    (h : row ∈ sliceResults rows offset limit) : row ∈ rows := by
  rw [sliceResults_eq] at h
  exact List.mem_of_mem_drop (List.mem_of_mem_take h)

theorem mem_of_mem_result {row : Row} (h : row ∈ stage.result rt rows) : row ∈ rows :=
  (orderResults_perm rows stage.orderBy).mem_iff.mp (mem_of_mem_sliceResults h)

theorem length_result : (stage.result rt rows).length =
    (sliceResults rows stage.skip stage.top).length := by
  rw [Stage.result, sliceResults_eq, sliceResults_eq, List.length_take, List.length_take,
    List.length_drop, List.length_drop, (orderResults_perm rows stage.orderBy).length_eq]

/-! ### In memory -/

/-- Sorting the result again by the columns of the token changes nothing. -/
theorem orderedRows_eq_result (hfields : ∀ item ∈ stage.orderBy, item.field ≠ [])
    (horder : stage.orderBy ≠ [])
    (h : OrdersOn (fun a b =>
      orderBy (orderValues rt) (buildApplyOrderDescriptors stage) a b != .gt) rows)
    (options : ListOptions) : orderedRows rt stage options rows = stage.result rt rows := by
  have hsame := @orderBy_descriptors (orderValues rt) stage hfields horder
  rw [orderedRows, if_neg horder]
  apply List.mergeSort_of_pairwise
  rw [hsame] at h ⊢
  rw [Stage.result, sliceResults_eq]
  exact h.pairwise_mergeSort.sublist ((List.take_sublist _ _).trans (List.drop_sublist _ _))

theorem pagesReturnResult_memory (hnumbers : rt.ReadsNumbers rows)
    (hfields : ∀ item ∈ stage.orderBy, item.field ≠ [])
    (h : StageResumes rt context stage rows .memory) :
    PagesReturnResult rt context .memory stage rows := by
  have hperm := orderedRows_perm_result rt stage noOptions rows
  have hmem : ∀ row ∈ orderedRows rt stage noOptions rows, row ∈ rows := by
    intro row hrow
    exact mem_of_mem_result (hperm.mem_iff.mp hrow)
  refine ⟨orderedRows rt stage noOptions rows, ?_, hperm, ?_⟩
  · apply reading_orderedRows hnumbers checkOptions_noOptions hmem
    rcases h with ⟨_, hone⟩ | ⟨horders, hends⟩
    · left
      rw [hperm.length_eq]
      exact hone
    · by_cases htop : stage.top = some 0
      · left
        rw [hperm.length_eq, Stage.result, sliceResults_eq, htop, Option.getD_some, List.take_zero]
        exact Nat.zero_le _
      · right
        have hsorted : (orderedRows rt stage noOptions rows).Pairwise fun a b =>
            orderBy (orderValues rt) (buildApplyOrderDescriptors stage) a b ≠ .gt :=
          pairwise_orderedRows horders
        refine ⟨applyPageSize_pos htop, hsorted, ?_⟩
        intro before last rest hdata hrest hdvd
        rw [hdata] at hperm hsorted
        exact hends before last rest hperm hsorted hrest hdvd
  · intro horder
    rcases h with ⟨hplain, _⟩ | ⟨horders, _⟩
    · exact absurd hplain horder
    · exact orderedRows_eq_result hfields horder horders noOptions

/-! ### By queries -/

variable {db : Database}

theorem fetch_database (token : Option (List Text)) :
    fetchApply rt context (.database db) stage rows noOptions token =
      db.execute rt stage (buildApplyOrderDescriptors stage)
        (applyPageSize context.limits stage noOptions) token rows := by
  have hoptions : (if token = none then noOptions else noOptions.next) = noOptions := by
    split <;> rfl
  rw [fetchApply, hoptions, listApply, checkOptions_noOptions]
  rfl

/-- What a query finds before its offset and its limit. -/
def Database.found (db : Database) (stage : Stage) (token : Option (List Text))
    (rows : List Row) : List Row :=
  sortBy db.order stage.orderBy (db.arrange token
    (rows.filter (db.passesSkipToken (buildApplyOrderDescriptors stage) token)))

theorem found_perm (token : Option (List Text)) : (db.found stage token rows).Perm
    (rows.filter (db.passesSkipToken (buildApplyOrderDescriptors stage) token)) :=
  (List.mergeSort_perm _ _).trans (db.arrange_perm _ _)

theorem pairwise_found (h : db.Orders stage.orderBy rows) (token : Option (List Text)) :
    (db.found stage token rows).Pairwise fun a b =>
      orderBy db.order stage.orderBy a b ≠ .gt := by
  have horders : OrdersOn (fun a b => orderBy db.order stage.orderBy a b != .gt) rows :=
    ordersOn_of_transCmp (transCmp_orderBy h)
  have hmem : ∀ row ∈ db.arrange token
      (rows.filter (db.passesSkipToken (buildApplyOrderDescriptors stage) token)), row ∈ rows := by
    intro row hrow
    exact List.mem_of_mem_filter ((db.arrange_perm _ _).mem_iff.mp hrow)
  exact (horders.of_mem hmem).pairwise_mergeSort.imp fun hab => by simpa using hab

theorem select_eq (size : Nat) (token : Option (List Text)) :
    db.select stage (buildApplyOrderDescriptors stage) size token rows =
      ((db.found stage token rows).drop (stage.skip.getD 0)).take (clamp (size + 1) stage.top) := rfl

/-- A result that fits on one page is what the first query returns. -/
theorem reading_onePage {size : Nat}
    (hone : (sliceResults rows stage.skip stage.top).length ≤ size) :
    db.execute rt stage (buildApplyOrderDescriptors stage) size none rows =
      .ok (sliceResults (db.found stage none rows) stage.skip stage.top, none) := by
  have hall : (db.found stage none rows).Perm rows := by
    have hfilter : rows.filter (db.passesSkipToken (buildApplyOrderDescriptors stage) none) =
        rows := List.filter_eq_self.mpr fun _ _ => rfl
    have hperm := @found_perm stage rows db none
    rwa [hfilter] at hperm
  have hlength := hall.length_eq
  have hselect : db.select stage (buildApplyOrderDescriptors stage) size none rows =
      sliceResults (db.found stage none rows) stage.skip stage.top := by
    rw [sliceResults_eq, List.length_take, List.length_drop] at hone
    rw [select_eq, sliceResults_eq, List.take_eq_take_iff, List.length_drop, hlength]
    cases htop : stage.top with
    | none =>
      rw [htop, Option.getD_none] at hone
      rw [Option.getD_none, clamp]
      omega
    | some top =>
      rw [htop, Option.getD_some] at hone
      rw [Option.getD_some, clamp]
      omega
  rw [Database.execute, hselect]
  apply if_pos
  rw [sliceResults_eq, List.length_take, List.length_drop] at hone ⊢
  rw [hlength]
  exact hone

theorem sliceResults_of_all (hskip : stage.skip.getD 0 = 0)
    (htop : ∀ top ∈ stage.top, rows.length ≤ top) {ordered : List Row}
    (hperm : ordered.Perm rows) : sliceResults ordered stage.skip stage.top = ordered := by
  rw [sliceResults_eq, hskip, List.drop_zero, Nat.sub_zero]
  apply List.take_of_length_le
  rw [hperm.length_eq]
  cases hlimit : stage.top with
  | none => exact le_refl _
  | some top => exact htop top hlimit

theorem pairwise_replace {α : Type} {R : α → α → Prop} {first second second' : List α}
    (h : (first ++ second).Pairwise R) (hperm : second'.Perm second)
    (hsecond : second'.Pairwise R) : (first ++ second').Pairwise R := by
  rw [List.pairwise_append] at h ⊢
  obtain ⟨hfirst, _, hcross⟩ := h
  refine ⟨hfirst, hsecond, ?_⟩
  intro a ha b hb
  exact hcross a ha b (hperm.mem_iff.mp hb)

/-- Behind the last row of a page. -/
theorem filter_passesSkipToken (hfields : ∀ item ∈ stage.orderBy, item.field ≠ [])
    (horder : stage.orderBy ≠ []) (hsorts : db.Orders stage.orderBy rows)
    {before rest : List Row} {last : Row} (hperm : (before ++ last :: rest).Perm rows)
    (hsorted : (before ++ last :: rest).Pairwise fun a b =>
      orderBy db.order stage.orderBy a b ≠ .gt)
    (hend : db.PageEnd rt (buildApplyOrderDescriptors stage) rows last rest) {values : List Text}
    (hvalues : skipTokenValues rt (fun row field => row field) last
      (buildApplyOrderDescriptors stage) = .ok (some values)) :
    (rows.filter (db.passesSkipToken (buildApplyOrderDescriptors stage) (some values))).Perm
      rest := by
  have hsame := @orderBy_descriptors db.order stage hfields horder
  have hcmp := transCmp_orderBy hsorts
  have hmem : ∀ row ∈ before ++ last :: rest, row ∈ rows := fun row hrow => hperm.mem_iff.mp hrow
  have hlast : last ∈ rows := by
    apply hmem
    exact List.mem_append_right _ List.mem_cons_self
  have hpasses : ∀ row ∈ rows,
      (db.passesSkipToken (buildApplyOrderDescriptors stage) (some values) row = true ↔
        orderBy db.order stage.orderBy row last = .gt) := by
    intro row hrow
    rw [← hsame]
    exact Database.passesSkipToken_iff (hend.tells row hrow) hvalues
  rw [List.pairwise_append, List.pairwise_cons] at hsorted
  obtain ⟨_, ⟨hbehind, _⟩, hcross⟩ := hsorted
  have hbefore : before.filter
      (db.passesSkipToken (buildApplyOrderDescriptors stage) (some values)) = [] := by
    apply List.filter_eq_nil_iff.mpr
    intro row hrow hpass
    rw [hpasses row (hmem row (List.mem_append_left _ hrow))] at hpass
    exact hcross row hrow last List.mem_cons_self hpass
  have hself : ¬ db.passesSkipToken (buildApplyOrderDescriptors stage) (some values) last := by
    intro hpass
    rw [hpasses last hlast] at hpass
    have hswap := hcmp.eq_swap (a := ⟨last, hlast⟩) (b := ⟨last, hlast⟩)
    dsimp only at hswap
    rw [hpass] at hswap
    cases hswap
  have hrest : rest.filter
      (db.passesSkipToken (buildApplyOrderDescriptors stage) (some values)) = rest := by
    apply List.filter_eq_self.mpr
    intro row hrow
    have hin : row ∈ rows := by
      apply hmem
      exact List.mem_append_right _ (List.mem_cons_of_mem _ hrow)
    rw [hpasses row hin]
    have hapart := hend.apart row hrow
    rw [hsame] at hapart
    have hswap := hcmp.eq_swap (a := ⟨row, hin⟩) (b := ⟨last, hlast⟩)
    dsimp only at hswap
    have hle := hbehind row hrow
    cases hresult : orderBy db.order stage.orderBy last row with
    | lt =>
      rw [hswap, hresult]
      rfl
    | eq =>
      rw [hswap, hresult] at hapart
      exact absurd rfl hapart
    | gt => exact absurd hresult hle
  refine (hperm.symm.filter _).trans ?_
  rw [List.filter_append, hbefore, List.nil_append, List.filter_cons_of_neg hself, hrest]

/-- By induction on what the query still finds, behind the pages that are done. -/
theorem reading_behind {size : Nat} (hsize : 0 < size)
    (hfields : ∀ item ∈ stage.orderBy, item.field ≠ []) (horder : stage.orderBy ≠ [])
    (hsorts : db.Orders stage.orderBy rows) (hskip : stage.skip.getD 0 = 0)
    (htop : ∀ top ∈ stage.top, rows.length ≤ top)
    (hends : EachPageEnds (orderBy db.order stage.orderBy) size rows fun _ last rest =>
      db.PageEnd rt (buildApplyOrderDescriptors stage) rows last rest)
    {done : List Row} {token : Option (List Text)}
    (hperm : (done ++ db.found stage token rows).Perm rows)
    (hsorted : (done ++ db.found stage token rows).Pairwise fun a b =>
      orderBy db.order stage.orderBy a b ≠ .gt)
    (hdvd : size ∣ done.length) :
    ∃ out, Pages.Reading (fun token => db.execute rt stage (buildApplyOrderDescriptors stage)
        size token rows) token out ∧
      (done ++ out).Perm rows ∧
      (done ++ out).Pairwise fun a b => orderBy db.order stage.orderBy a b ≠ .gt := by
  induction hn : (db.found stage token rows).length using Nat.strong_induction_on
    generalizing done token with
  | _ n ih =>
    have hcount := hperm.length_eq
    rw [List.length_append] at hcount
    have hselect : db.select stage (buildApplyOrderDescriptors stage) size token rows =
        (db.found stage token rows).take (size + 1) := by
      rw [select_eq, hskip, List.drop_zero, List.take_eq_take_iff]
      cases hlimit : stage.top with
      | none => rfl
      | some top =>
        have hle := htop top hlimit
        rw [clamp]
        omega
    by_cases hlong : (db.found stage token rows).length ≤ size
    · refine ⟨db.found stage token rows, ?_, hperm, hsorted⟩
      apply Pages.Reading.last
      have hall : (db.found stage token rows).take (size + 1) = db.found stage token rows := by
        apply List.take_of_length_le
        omega
      rw [Database.execute, hselect, hall]
      exact if_pos hlong
    · obtain ⟨before, last, rest, hfound, hpage, hrest⟩ :=
        Pages.exists_page hsize (Nat.lt_of_not_le hlong)
      rw [hfound] at hperm hsorted hn
      have hperm' : ((done ++ before) ++ last :: rest).Perm rows := by
        rwa [List.append_assoc]
      have hsorted' : ((done ++ before) ++ last :: rest).Pairwise fun a b =>
          orderBy db.order stage.orderBy a b ≠ .gt := by
        rwa [List.append_assoc]
      have hdvd' : size ∣ (done ++ before).length + 1 := by
        rw [List.length_append, Nat.add_assoc, hpage]
        exact Nat.dvd_add hdvd (dvd_refl size)
      have hend := hends (done ++ before) last rest hperm' hsorted' hrest hdvd'
      obtain ⟨values, hvalues⟩ := hend.signable
      have hnext : (db.found stage (some values) rows).Perm rest :=
        (found_perm (some values)).trans
          (filter_passesSkipToken hfields horder hsorts hperm' hsorted' hend hvalues)
      have hsplit (tail : List Row) :
          (done ++ before) ++ last :: tail = (done ++ (before ++ [last])) ++ tail := by
        rw [List.append_assoc, List.append_assoc, List.append_assoc]
        rfl
      have hlength : (db.found stage (some values) rows).length < n := by
        rw [hnext.length_eq, ← hn, List.length_append, List.length_cons]
        omega
      rw [hsplit] at hperm' hsorted'
      obtain ⟨out, hread, hout, hpairs⟩ := @ih _ hlength (done ++ (before ++ [last])) (some values)
        ((hnext.append_left _).trans hperm')
        (pairwise_replace hsorted' hnext (pairwise_found hsorts _)) (by
          rw [List.length_append, List.length_append, List.length_singleton, hpage]
          exact Nat.dvd_add hdvd (dvd_refl size)) rfl
      refine ⟨(before ++ [last]) ++ out, ?_, ?_, ?_⟩
      · apply Pages.Reading.next _ hread
        have htake : ((db.found stage token rows).take (size + 1)).take size =
            before ++ [last] := by
          rw [List.take_take, Nat.min_eq_left (Nat.le_succ size), hfound, ← hpage,
            List.take_length_add_append]
          rfl
        have hmore : ¬ ((db.found stage token rows).take (size + 1)).length ≤ size := by
          rw [List.length_take]
          omega
        rw [Database.execute, hselect, if_neg hmore, htake,
          List.getLast?_append_of_ne_nil _ (List.cons_ne_nil _ _), List.getLast?_singleton]
        dsimp only
        rw [hvalues]
        rfl
      · rwa [← List.append_assoc]
      · rwa [← List.append_assoc]

theorem pagesReturnResult_database (hfields : ∀ item ∈ stage.orderBy, item.field ≠ [])
    (h : StageResumes rt context stage rows (.database db)) :
    PagesReturnResult rt context (.database db) stage rows := by
  obtain ⟨hsorts, hpages⟩ := h
  have hall : (db.found stage none rows).Perm rows := by
    have hfilter : rows.filter (db.passesSkipToken (buildApplyOrderDescriptors stage) none) =
        rows := List.filter_eq_self.mpr fun _ _ => rfl
    have hperm := @found_perm stage rows db none
    rwa [hfilter] at hperm
  have hfetch : fetchApply rt context (.database db) stage rows noOptions =
      fun token => db.execute rt stage (buildApplyOrderDescriptors stage)
        (applyPageSize context.limits stage noOptions) token rows := funext fetch_database
  have hone (hfits : (sliceResults rows stage.skip stage.top).length ≤
      applyPageSize context.limits stage noOptions) :
      PagesReturnResult rt context (.database db) stage rows := by
    refine ⟨sliceResults (db.found stage none rows) stage.skip stage.top, ?_,
      db.found stage none rows, hall, pairwise_found hsorts none, rfl⟩
    rw [hfetch]
    exact Pages.Reading.last (reading_onePage hfits)
  rcases hpages with hfits | ⟨horder, hskip, htop, hends⟩
  · exact hone hfits
  · by_cases hzero : stage.top = some 0
    · apply hone
      rw [sliceResults_eq, hzero, Option.getD_some, List.take_zero]
      exact Nat.zero_le _
    · have hstart : ([] ++ db.found stage none rows).Perm rows := hall
      obtain ⟨out, hread, hout, hpairs⟩ := reading_behind (applyPageSize_pos hzero) hfields horder
        hsorts hskip htop hends hstart (pairwise_found hsorts none) (Nat.dvd_zero _)
      refine ⟨out, ?_, out, hout, hpairs, (sliceResults_of_all hskip htop hout).symm⟩
      rw [hfetch]
      exact hread

end Reading

/-- Two pages, by `orderby(country)`. -/
def countryStage : Stage := { salesStage with orderBy := [⟨"country".toList, .asc⟩] }

def sampleCompare (a : Scalar) (raw : Text) (test : Ordering → Bool) : Truth :=
  match a with
  | .str s => .ofBool (test (orderValues sampleRuntime (.str s) (.str raw)))
  | .num q =>
    match sampleRuntime.numberOf raw with
    | some r => .ofBool (test (orderValues sampleRuntime (.num q) (.num r)))
    | none => .unknown
  | _ => .unknown

/-- A database that reads parameters in the type of the column. -/
def sampleDatabase : Database where
  arrange _ rows := rows
  arrange_perm _ rows := List.Perm.refl rows
  order := orderValues sampleRuntime
  equals a raw := sampleCompare a raw (· == .eq)
  greater a raw := sampleCompare a raw (· == .gt)
  less a raw := sampleCompare a raw (· == .lt)

theorem descriptors_countryStage :
    buildApplyOrderDescriptors countryStage = [⟨"country".toList, .asc⟩] := by decide

theorem uniform_countries :
    UniformColumns (buildApplyOrderDescriptors countryStage) salesRows := by
  have hsales := uniform_sales
  rw [descriptors_salesStage] at hsales
  rw [descriptors_countryStage]
  refine ⟨?_, ?_⟩
  · intro item hitem
    apply hsales.columns
    exact List.mem_cons.mpr (Or.inl (List.mem_singleton.mp hitem))
  · intro item hitem
    apply hsales.kinds
    exact List.mem_cons.mpr (Or.inl (List.mem_singleton.mp hitem))

/-- Rows with uniform columns that are pairwise apart are so in any arrangement. -/
theorem apart_of_perm {rt : TokenRuntime} {descriptors : List OrderDescriptor}
    {rows before rest : List Row} {last : Row} (huniform : UniformColumns descriptors rows)
    (hapart : rows.Pairwise fun a b => orderBy (orderValues rt) descriptors a b ≠ .eq)
    (hperm : (before ++ last :: rest).Perm rows) {row : Row} (hrow : row ∈ rest) :
    orderBy (orderValues rt) descriptors row last ≠ .eq := by
  have hboth : (before ++ last :: rest).Pairwise fun a b =>
      orderBy (orderValues rt) descriptors a b ≠ .eq ∧
        orderBy (orderValues rt) descriptors b a ≠ .eq := by
    refine (hperm.pairwise_iff fun {a b} h => h.symm).mpr ?_
    refine hapart.imp_of_mem fun {a b} ha hb hab => ⟨hab, ?_⟩
    rw [orderBy_swap (tells_of_uniform huniform ha hb)]
    intro hswap
    exact hab (Ordering.swap_eq_eq.mp hswap)
  rw [List.pairwise_append, List.pairwise_cons] at hboth
  exact (hboth.2.1.1 row hrow).2

theorem apart_countries : salesRows.Pairwise fun a b =>
    orderBy (orderValues sampleRuntime) (buildApplyOrderDescriptors countryStage) a b ≠ .eq := by
  rw [descriptors_countryStage]
  decide

theorem sampleDatabase_reads (s t : Text) :
    sampleDatabase.ReadsAs sampleRuntime (.str s) (.str t) := by
  intro raw hraw
  obtain rfl : t = raw := Except.ok.inj hraw
  exact ⟨rfl, rfl, rfl⟩

theorem stageResumes_memory :
    StageResumes sampleRuntime salesContext countryStage salesRows .memory := by
  refine Or.inr ⟨ordersOn_of_uniform uniform_countries, ?_⟩
  have hresult : (countryStage.result sampleRuntime salesRows).Perm salesRows :=
    orderResults_perm salesRows countryStage.orderBy
  intro before last rest hperm _ _ _
  have hall := hperm.trans hresult
  refine pageEnd_of_uniform uniform_countries (fun row hrow => hall.mem_iff.mp hrow) ?_
  intro row hrow
  exact apart_of_perm uniform_countries apart_countries hall hrow

theorem stageResumes_database :
    StageResumes sampleRuntime salesContext countryStage salesRows (.database sampleDatabase) := by
  have horder : countryStage.orderBy = buildApplyOrderDescriptors countryStage := by decide
  have htop : ∀ top ∈ countryStage.top, salesRows.length ≤ top := by
    intro top hmem
    cases hmem
  refine ⟨?_, Or.inr ⟨List.cons_ne_nil _ _, rfl, htop, ?_⟩⟩
  · rw [horder]
    intro item hitem
    have hcolumn : UniformColumns [⟨item.field, .asc⟩] salesRows := by
      refine ⟨?_, ?_⟩
      · intro item' hitem'
        rw [List.mem_singleton.mp hitem']
        exact uniform_countries.columns item hitem
      · intro item' hitem'
        rw [List.mem_singleton.mp hitem']
        exact uniform_countries.kinds item hitem
    have hcmp := @transCmp_of_uniform sampleRuntime _ _ hcolumn
    have hsingle : (fun a b : { row // row ∈ salesRows } =>
        orderBy (orderValues sampleRuntime) [⟨item.field, .asc⟩] a.val b.val) =
          fun a b => sampleDatabase.order (a.val item.field) (b.val item.field) := by
      funext a b
      exact Ordering.then_eq
    rwa [hsingle] at hcmp
  · intro before last rest hperm _ _ _
    have hlast : last ∈ salesRows := by
      apply hperm.mem_iff.mp
      exact List.mem_append_right _ List.mem_cons_self
    rw [descriptors_countryStage]
    obtain ⟨country, total, rfl, _⟩ := sales_cases hlast
    refine ⟨⟨[country.toList], rfl⟩, ?_, ?_⟩
    · intro row hrow
      obtain ⟨country', total', rfl, _⟩ := sales_cases hrow
      exact ⟨sampleDatabase_reads _ _, fun _ => trivial⟩
    · intro row hrow
      rw [← descriptors_countryStage]
      exact apart_of_perm uniform_countries apart_countries hperm hrow

end Apply

end LoopbackOData
