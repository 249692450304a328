import LoopbackOData.Apply.Resuming

/-!
# `$orderby`, `$skip` and `$top` next to `$apply`

The pages of a request with `$apply` follow the columns of the last stage: `$orderby` only breaks
ties of these, `$skip` is read by nothing, and `$top` is the size of a page and not of the result.
-/

namespace LoopbackOData

namespace Apply

open Outcome ListRelations

set_option autoImplicit false

/-! ## The window -/

/-- Rows number `$skip + 1` to `$skip + $top` of the rows in some order that sorts them by
`$orderby`. -/
def IsWindow (rt : TokenRuntime) (options : ListOptions) (rows out : List Row) : Prop :=
  ∃ ordered : List Row, ordered.Perm rows ∧
    ordered.Pairwise (fun a b => orderBy (orderValues rt) options.orderBy a b ≠ .gt) ∧
    out = sliceResults ordered options.skip options.top

/-- Reading all pages returns the window. -/
def AnswersWindow (rt : TokenRuntime) (context : ListContext) (source : Source) (stage : Stage)
    (rows : List Row) (options : ListOptions) : Prop :=
  ∃ out, Pages.Reading (fetchApply rt context source stage rows options) none out ∧
    IsWindow rt options rows out

/-- A last stage without an order or a cut of its own. -/
structure Stage.IsPlain (stage : Stage) : Prop where
  orderBy : stage.orderBy = []
  skip : stage.skip = none
  top : stage.top = none

/-- The order in which the rows are handed out. -/
def Source.handsOut (rt : TokenRuntime) (stage : Stage) (options : ListOptions)
    (rows : List Row) : Source → List Row
  | .memory => orderedRows rt stage options rows
  | .database db => db.arrange none rows

/-- All rows are on one page, or, in memory, the order tells each page from the next. -/
def PagesResume (rt : TokenRuntime) (context : ListContext) (stage : Stage) (rows : List Row)
    (options : ListOptions) (source : Source) : Prop :=
  rows.length ≤ applyPageSize context.limits stage options ∨
    (source = .memory ∧
      (OrdersOn (fun a b =>
        orderBy (orderValues rt) (buildApplyOrderDescriptors stage) a b != .gt) rows) ∧
      ∀ before last rest, orderedRows rt stage options rows = before ++ last :: rest →
        rest ≠ [] → applyPageSize context.limits stage options ∣ before.length + 1 →
          PageEnd rt (buildApplyOrderDescriptors stage) before last rest)

/-! ## Reading all pages -/

section Pages

variable {rt : TokenRuntime} {context : ListContext} {stage : Stage} {options : ListOptions}
  {rows : List Row}

theorem clamp_pos {value : Nat} {limit : Option Nat} (h : 0 < value)
    (hlimit : ∀ l ∈ limit, 0 < l) : 0 < clamp value limit := by
  cases limit with
  | none => exact h
  | some l => exact Nat.lt_min.mpr ⟨h, hlimit l rfl⟩

theorem resolvePageSize_pos {limits : PaginationLimits} {maxPageSize : Option Nat}
    (hmax : ∀ l ∈ maxPageSize, 0 < l) (requested : Option Nat) :
    0 < resolvePageSize limits maxPageSize requested := by
  have hbase : 0 < clamp (if 0 < limits.pageSize then limits.pageSize else 200) maxPageSize := by
    apply clamp_pos _ hmax
    split
    · assumption
    · omega
  unfold resolvePageSize
  dsimp only
  split
  · exact hbase
  · split
    · exact hbase
    · split
      · exact clamp_pos hbase hmax
      · omega

/-- Only `top(0)` makes pages without rows. -/
theorem applyPageSize_pos (htop : stage.top ≠ some 0) :
    0 < applyPageSize context.limits stage options := by
  apply clamp_pos
  · apply resolvePageSize_pos
    intro l hl
    rcases Option.or_eq_some_iff.mp hl with hl | ⟨_, hl⟩
    · exact context.limits.maxApplyPageSize_pos l hl
    · exact context.limits.maxPageSize_pos l hl
  · intro l hl
    apply Nat.pos_of_ne_zero
    rintro rfl
    exact htop hl

theorem checkOptions_next (h : checkOptions context options = .ok ()) :
    checkOptions context options.next = .ok () := by
  unfold checkOptions at h ⊢
  split at h
  · cases h
  · next horder =>
    split at h
    · cases h
    · next htop =>
      rw [if_neg (by exact horder), if_neg (by exact htop)]
      cases hfind : options.orderBy.find? fun item => item.field ∉ context.orderable with
      | none =>
        have hfind' : (options.next.orderBy.find? fun item =>
          decide (item.field ∉ context.orderable)) = none := hfind
        rw [hfind']
        exact if_neg (by rintro ⟨_, hskip⟩; cases hskip)
      | some item =>
        rw [hfind] at h
        cases h

theorem sliceResults_none (rows : List Row) : sliceResults rows none none = rows := rfl

theorem sliceResults_eq (rows : List Row) (offset limit : Option Nat) :
    sliceResults rows offset limit =
      (rows.drop (offset.getD 0)).take (limit.getD (rows.length - offset.getD 0)) := by
  cases limit with
  | none =>
    have hlength : (rows.drop (offset.getD 0)).length ≤ rows.length - offset.getD 0 := by
      rw [List.length_drop]
    exact (List.take_of_length_le hlength).symm
  | some limit => rfl

theorem orderResults_perm (rows : List Row) (order : List OrderDescriptor) :
    (orderResults rt rows order).Perm rows := List.mergeSort_perm _ _

theorem orderedRows_perm_result (rt : TokenRuntime) (stage : Stage) (options : ListOptions)
    (rows : List Row) : (orderedRows rt stage options rows).Perm (stage.result rt rows) := by
  rw [orderedRows]
  refine (orderResults_perm _ _).trans ?_
  split
  · exact orderResults_perm _ _
  · exact List.Perm.refl _

theorem orderedRows_perm (rt : TokenRuntime) (options : ListOptions) (rows : List Row)
    (hplain : stage.IsPlain) : (orderedRows rt stage options rows).Perm rows := by
  refine (orderedRows_perm_result rt stage options rows).trans ?_
  rw [Stage.result, hplain.skip, hplain.top, sliceResults_none]
  exact orderResults_perm _ _

theorem handsOut_perm (rt : TokenRuntime) (options : ListOptions) (rows : List Row)
    (hplain : stage.IsPlain) (source : Source) :
    (source.handsOut rt stage options rows).Perm rows := by
  cases source with
  | memory => exact orderedRows_perm rt options rows hplain
  | database db => exact db.arrange_perm none rows

/-- The rows are sorted by the columns before they are cut into pages. -/
theorem pairwise_orderedRows
    (h : OrdersOn (fun a b =>
      orderBy (orderValues rt) (buildApplyOrderDescriptors stage) a b != .gt) rows) :
    (orderedRows rt stage options rows).Pairwise fun a b =>
      orderBy (orderValues rt) (buildApplyOrderDescriptors stage) a b ≠ .gt := by
  have hworking : ∀ row ∈ stage.result rt rows, row ∈ rows := by
    intro row hrow
    rw [Stage.result, sliceResults_eq] at hrow
    exact (orderResults_perm rows stage.orderBy).mem_iff.mp
      (List.mem_of_mem_drop (List.mem_of_mem_take hrow))
  have hordered : ∀ row ∈ (if stage.orderBy = [] then
      orderResults rt (stage.result rt rows) options.orderBy
        else stage.result rt rows), row ∈ rows := by
    intro row hrow
    split at hrow
    · exact hworking row ((orderResults_perm _ _).mem_iff.mp hrow)
    · exact hworking row hrow
  exact (h.of_mem hordered).pairwise_mergeSort.imp fun hab => by simpa using hab

theorem fetch_memory (hcheck : checkOptions context options = .ok ())
    (token : Option (List Text)) :
    fetchApply rt context .memory stage rows options token =
      filterRowsAfterSkipToken rt (orderedRows rt stage options rows)
        (buildApplyOrderDescriptors stage) token >>= fun data =>
          applyServerDrivenPaging rt data (buildApplyOrderDescriptors stage)
            (applyPageSize context.limits stage options) := by
  have hchecks :
      checkOptions context (if token = none then options else options.next) = .ok () := by
    split
    · exact hcheck
    · exact checkOptions_next hcheck
  have hordered : orderedRows rt stage (if token = none then options else options.next) rows =
      orderedRows rt stage options rows := by
    split <;> rfl
  have hsize : applyPageSize context.limits stage
      (if token = none then options else options.next) =
        applyPageSize context.limits stage options := by
    split <;> rfl
  rw [fetchApply, listApply, hchecks, hordered, hsize]
  rfl

/-- In memory the pages hand out the ordered rows, where these are on one page or the order tells
each page from the next. -/
theorem reading_orderedRows (hnumbers : rt.ReadsNumbers rows)
    (hcheck : checkOptions context options = .ok ())
    (hmem : ∀ row ∈ orderedRows rt stage options rows, row ∈ rows)
    (h : (orderedRows rt stage options rows).length ≤ applyPageSize context.limits stage options ∨
      0 < applyPageSize context.limits stage options ∧
        (orderedRows rt stage options rows).Pairwise (fun a b =>
          orderBy (orderValues rt) (buildApplyOrderDescriptors stage) a b ≠ .gt) ∧
        ∀ before last rest, orderedRows rt stage options rows = before ++ last :: rest →
          rest ≠ [] → applyPageSize context.limits stage options ∣ before.length + 1 →
            PageEnd rt (buildApplyOrderDescriptors stage) before last rest) :
    Pages.Reading (fetchApply rt context .memory stage rows options) none
      (orderedRows rt stage options rows) := by
  rcases h with hone | ⟨hsize, hsorted, hends⟩
  · apply Pages.Reading.last
    exact (fetch_memory hcheck none).trans (Pages.cut_all hone)
  · refine Pages.reading_of_resumes hsize (fetch_memory hcheck none) ?_
    intro before last rest hdata hrest hdvd
    have hend := hends before last rest hdata hrest hdvd
    rw [hdata] at hsorted
    have hlast : last ∈ rows := by
      apply hmem
      rw [hdata]
      exact List.mem_append_right _ List.mem_cons_self
    obtain ⟨values, htoken, hafter⟩ := rowsAfter_pageEnd (hnumbers last hlast) hsorted hend
    refine ⟨values, htoken, ?_⟩
    rw [fetch_memory hcheck, filterRowsAfterSkipToken, hdata, hafter]
    rfl

/-- The pages hand out all rows. -/
theorem reading_handsOut (hnumbers : rt.ReadsNumbers rows) (hplain : stage.IsPlain)
    {source : Source} (h : PagesResume rt context stage rows options source)
    (hcheck : checkOptions context options = .ok ()) :
    Pages.Reading (fetchApply rt context source stage rows options) none
      (source.handsOut rt stage options rows) := by
  have htop : stage.top ≠ some 0 := by
    rw [hplain.top]
    exact (Option.some_ne_none 0).symm
  cases source with
  | memory =>
    have hperm := orderedRows_perm rt options rows hplain
    apply reading_orderedRows hnumbers hcheck fun row hrow => hperm.mem_iff.mp hrow
    rcases h with hone | ⟨_, horders, hends⟩
    · left
      rw [hperm.length_eq]
      exact hone
    · exact Or.inr ⟨applyPageSize_pos htop, pairwise_orderedRows horders, hends⟩
  | database db =>
    have hone : rows.length ≤ applyPageSize context.limits stage options := by
      rcases h with hone | ⟨hmemory, _⟩
      · exact hone
      · cases hmemory
    apply Pages.Reading.last
    have hfound : db.select stage (buildApplyOrderDescriptors stage)
        (applyPageSize context.limits stage options) none rows = db.arrange none rows := by
      have hall : rows.filter (db.passesSkipToken (buildApplyOrderDescriptors stage) none) =
          rows := List.filter_eq_self.mpr fun _ _ => rfl
      have hsorted : sortBy db.order [] (db.arrange none rows) = db.arrange none rows := by
        apply List.mergeSort_of_pairwise
        exact List.pairwise_of_forall fun _ _ => rfl
      rw [Database.select, hall, hplain.orderBy, hsorted, hplain.skip, hplain.top]
      apply List.take_of_length_le
      have hlength := (db.arrange_perm none rows).length_eq
      simp only [Option.getD_none, List.drop_zero, clamp]
      omega
    have hlength := (db.arrange_perm none rows).length_eq
    rw [fetchApply, if_pos rfl, listApply, hcheck]
    change db.execute rt stage (buildApplyOrderDescriptors stage)
      (applyPageSize context.limits stage options) none rows = _
    rw [Database.execute, hfound]
    exact if_pos (by omega)

/-! ## The rows of the window -/

theorem isWindow_of_all (hskip : options.skip.getD 0 = 0)
    (htop : ∀ top ∈ options.top, rows.length ≤ top) {out : List Row} (hperm : out.Perm rows)
    (hsorted : out.Pairwise fun a b => orderBy (orderValues rt) options.orderBy a b ≠ .gt) :
    IsWindow rt options rows out := by
  refine ⟨out, hperm, hsorted, ?_⟩
  rw [sliceResults_eq, hskip, List.drop_zero]
  apply (List.take_of_length_le _).symm
  rw [hperm.length_eq, Nat.sub_zero]
  cases hlimit : options.top with
  | none => exact le_refl _
  | some top => exact htop top hlimit

/-- All rows are in the window only if it cuts nothing off. -/
theorem all_of_isWindow {out : List Row} (hperm : out.Perm rows)
    (h : IsWindow rt options rows out) :
    (rows = [] ∨ options.skip.getD 0 = 0 ∧ ∀ top ∈ options.top, rows.length ≤ top) ∧
      out.Pairwise fun a b => orderBy (orderValues rt) options.orderBy a b ≠ .gt := by
  obtain ⟨ordered, hordered, hsorted, rfl⟩ := h
  have hsub : (sliceResults ordered options.skip options.top).Sublist ordered := by
    rw [sliceResults_eq]
    exact (List.take_sublist _ _).trans (List.drop_sublist _ _)
  have hlength := hperm.length_eq
  rw [sliceResults_eq, List.length_take, List.length_drop] at hlength
  refine ⟨?_, hsorted.sublist hsub⟩
  by_cases hnil : rows = []
  · exact Or.inl hnil
  · have hpos := List.length_pos_iff.mpr hnil
    have hcount := hordered.length_eq
    right
    cases htop : options.top with
    | none =>
      rw [htop, Option.getD_none] at hlength
      refine ⟨by omega, ?_⟩
      intro top hmem
      cases hmem
    | some limit =>
      rw [htop, Option.getD_some] at hlength
      refine ⟨by omega, ?_⟩
      intro top hmem
      obtain rfl := Option.some.inj (Option.mem_def.mp hmem)
      omega

/-- What follows where the pages return the window. -/
theorem all_of_answersWindow (hnumbers : rt.ReadsNumbers rows) (hplain : stage.IsPlain)
    {source : Source} (hresume : PagesResume rt context stage rows options source)
    (h : AnswersWindow rt context source stage rows options) :
    checkOptions context options = .ok () ∧
      (rows = [] ∨ options.skip.getD 0 = 0 ∧ ∀ top ∈ options.top, rows.length ≤ top) ∧
      (source.handsOut rt stage options rows).Pairwise fun a b =>
        orderBy (orderValues rt) options.orderBy a b ≠ .gt := by
  obtain ⟨out, hread, hwindow⟩ := h
  have hcheck : checkOptions context options = .ok () := by
    cases hcheck : checkOptions context options with
    | ok _ => rfl
    | error e =>
      have herror : fetchApply rt context source stage rows options none = .error e := by
        rw [fetchApply, if_pos rfl, listApply, hcheck]
        rfl
      exact absurd herror hread.not_error
  obtain rfl := hread.unique (reading_handsOut hnumbers hplain hresume hcheck)
  exact ⟨hcheck, all_of_isWindow (handsOut_perm rt options rows hplain source) hwindow⟩

/-- Rows whose columns hold values of one kind each, no two rows being equal in all of them. -/
theorem pagesResume_of_uniform (hplain : stage.IsPlain)
    (huniform : UniformColumns (buildApplyOrderDescriptors stage) rows)
    (hapart : rows.Pairwise fun a b =>
      orderBy (orderValues rt) (buildApplyOrderDescriptors stage) a b ≠ .eq) :
    PagesResume rt context stage rows options .memory := by
  have hperm := orderedRows_perm rt options rows hplain
  refine Or.inr ⟨rfl, ordersOn_of_uniform huniform, ?_⟩
  intro before last rest hdata _ _
  rw [hdata] at hperm
  refine pageEnd_of_uniform huniform (fun row hrow => hperm.mem_iff.mp hrow) ?_
  have hordered : (before ++ last :: rest).Pairwise fun a b =>
      orderBy (orderValues rt) (buildApplyOrderDescriptors stage) a b ≠ .eq ∧
        orderBy (orderValues rt) (buildApplyOrderDescriptors stage) b a ≠ .eq := by
    refine (hperm.pairwise_iff fun {a b} h => h.symm).mpr ?_
    refine hapart.imp_of_mem fun {a b} ha hb hab => ⟨hab, ?_⟩
    rw [orderBy_swap (tells_of_uniform huniform ha hb)]
    intro hswap
    exact hab (Ordering.swap_eq_eq.mp hswap)
  rw [List.pairwise_append, List.pairwise_cons] at hordered
  intro row hrow
  exact (hordered.2.1.1 row hrow).2

end Pages

/-! ## Sales by country -/

/-- A runtime that is right on ASCII and on the numbers 3 and 5. -/
def sampleRuntime : TokenRuntime where
  toRuntime := Runtime.ascii
  numberOf text := if text = ['3'] then some 3 else if text = ['5'] then some 5 else none
  dateOf _ := none
  dateText _ := []

def salesStage : Stage where
  groupBy := ["country".toList]
  aliases := ["total".toList]
  orderBy := []
  skip := none
  top := none

def sales (country : String) (total : Rat) : Row := fun field =>
  if field = "country".toList then .str country.toList
  else if field = "total".toList then .num total
  else .undefined

/-- Pages of two rows. -/
def salesContext : ListContext where
  limits := {
    strict := false
    pageSize := 2
    maxTop := none
    maxSkip := none
    maxPageSize := none
    maxApplyPageSize := none
    maxTop_pos := by simp
    maxPageSize_pos := by simp
    maxApplyPageSize_pos := by simp }
  orderable := ["country".toList]
  pipelineHasOrder := false

def salesRows : List Row := [sales "AT" 3, sales "BE" 5, sales "CH" 5]

theorem salesStage_isPlain : salesStage.IsPlain := ⟨rfl, rfl, rfl⟩

theorem sales_cases {row : Row} (h : row ∈ salesRows) :
    ∃ country total, row = sales country total ∧ (total = 3 ∨ total = 5) := by
  rcases List.mem_cons.mp h with rfl | h
  · exact ⟨"AT", 3, rfl, Or.inl rfl⟩
  · rcases List.mem_cons.mp h with rfl | h
    · exact ⟨"BE", 5, rfl, Or.inr rfl⟩
    · exact ⟨"CH", 5, List.mem_singleton.mp h, Or.inr rfl⟩

theorem reads_sales : sampleRuntime.ReadsNumbers salesRows := by
  intro row hrow field q hvalue
  obtain ⟨country, total, rfl, htotal⟩ := sales_cases hrow
  unfold sales at hvalue
  split at hvalue
  · cases hvalue
  · split at hvalue
    · obtain rfl := Scalar.num.inj hvalue
      have hthree : sampleRuntime.numberToString 3 = ['3'] := rfl
      have hfive : sampleRuntime.numberToString 5 = ['5'] := rfl
      rcases htotal with rfl | rfl
      · rw [hthree]
        rfl
      · rw [hfive]
        rfl
    · cases hvalue

theorem descriptors_salesStage : buildApplyOrderDescriptors salesStage =
    [⟨"country".toList, .asc⟩, ⟨"total".toList, .asc⟩] := by decide

theorem uniform_sales : UniformColumns (buildApplyOrderDescriptors salesStage) salesRows := by
  rw [descriptors_salesStage]
  refine ⟨by decide, ?_⟩
  intro item hitem a ha b hb
  obtain ⟨country, total, rfl, _⟩ := sales_cases ha
  obtain ⟨country', total', rfl, _⟩ := sales_cases hb
  have hne : "total".toList ≠ "country".toList := by decide
  rcases List.mem_cons.mp hitem with rfl | hitem
  · unfold sales
    rw [if_pos rfl, if_pos rfl]
    exact .str _ _
  · rw [List.mem_singleton.mp hitem]
    unfold sales
    rw [if_neg hne, if_pos rfl, if_neg hne, if_pos rfl]
    exact .num _ _

theorem pagesResume_sales (options : ListOptions) :
    PagesResume sampleRuntime salesContext salesStage salesRows options .memory := by
  refine pagesResume_of_uniform salesStage_isPlain uniform_sales ?_
  rw [descriptors_salesStage]
  decide

def byCountry : ListOptions := ⟨[⟨"country".toList, .asc⟩], none, some 7⟩

end Apply

end LoopbackOData
