import LoopbackOData.Apply.Paging
import LoopbackOData.Library.ListRelations

/-!
# Where the pages of `$apply` resume

A token holds texts, which are read back in the type of the row that they are compared with. At the
end of a page the comparison with the token is that of the order exactly if the fields up to the
first that tells a row from the last one have values of one kind.
-/

namespace LoopbackOData

namespace Apply

open Outcome ListRelations

set_option autoImplicit false

/-! ## Values of one kind -/

/-- Values that the order and a token compare alike: numbers, texts or truth values, or no value
twice. -/
inductive SameKind : Scalar → Scalar → Prop where
  | null : SameKind .null .null
  | bool (b c : Bool) : SameKind (.bool b) (.bool c)
  | num (q r : Rat) : SameKind (.num q) (.num r)
  | str (s t : Text) : SameKind (.str s) (.str t)

/-- `Number(String(q)) === q` for the numbers of a row. -/
def TokenRuntime.ReadsNumbersOf (rt : TokenRuntime) (row : Row) : Prop :=
  ∀ field q, row field = .num q → rt.numberOf (rt.numberToString q) = some q

def TokenRuntime.ReadsNumbers (rt : TokenRuntime) (rows : List Row) : Prop :=
  ∀ row ∈ rows, rt.ReadsNumbersOf row

section Kinds

variable {rt : TokenRuntime} {a b : Scalar}

theorem SameKind.symm (h : SameKind a b) : SameKind b a := by
  cases h <;> constructor

theorem coerceTokenValue_stringify
    (hnumbers : ∀ q, b = .num q → rt.numberOf (rt.numberToString q) = some q)
    (h : SameKind a b) {raw : Text}
    (hraw : stringifySkipTokenValue rt b = .ok raw) : coerceTokenValue rt raw a = .ok b := by
  unfold coerceTokenValue
  cases h with
  | null =>
    have hnull : "null".toList = raw := Except.ok.inj hraw
    dsimp only
    rw [if_pos hnull.symm]
  | bool b c =>
    have hbool : textOf rt (.bool c) = raw := Except.ok.inj hraw
    have hne : "false".toList ≠ "true".toList := by decide
    dsimp only
    cases c with
    | true =>
      have htrue : raw = "true".toList := hbool.symm
      rw [htrue, if_pos rfl]
    | false =>
      have hfalse : raw = "false".toList := hbool.symm
      rw [hfalse, if_neg hne, if_pos rfl]
  | num q r =>
    have hnum : rt.numberToString r = raw := Except.ok.inj hraw
    dsimp only
    rw [← hnum, hnumbers r rfl]
  | str s t =>
    have hstr : t = raw := Except.ok.inj hraw
    dsimp only
    rw [hstr]

theorem compareValues_eq_orderValues (h : SameKind a b) :
    compareValues rt a b = orderValues rt a b := by
  cases h <;> rfl

theorem orderValues_self (a : Scalar) : orderValues rt a a = .eq := by
  unfold orderValues
  rw [if_pos rfl]

theorem compareText_swap (s t : Text) : compareText s t = (compareText t s).swap := by
  apply compareOfLessAndEq_eq_swap_of_lt_iff_not_gt_and_ne
  intro x y
  rw [not_lt, le_iff_lt_or_eq]
  constructor
  · intro hlt
    exact ⟨Or.inl hlt, hlt.ne⟩
  · rintro ⟨hlt | heq, hne⟩
    · exact hlt
    · exact absurd heq hne

theorem orderValues_swap (h : SameKind a b) :
    orderValues rt a b = (orderValues rt b a).swap := by
  by_cases heq : a = b
  · subst heq
    rw [orderValues_self]
    rfl
  · have hne : b ≠ a := fun hba => heq hba.symm
    unfold orderValues
    rw [if_neg heq, if_neg hne]
    cases h with
    | null => exact absurd rfl heq
    | bool b c => exact compareText_swap _ _
    | num q r => exact @Std.OrientedCmp.eq_swap Rat compare inferInstance q r
    | str s t => exact compareText_swap s t

end Kinds

theorem directed_eq_iff {direction : Direction} {order : Ordering} :
    directed direction order = .eq ↔ order = .eq := by
  cases direction <;> cases order <;> decide

theorem directed_swap (direction : Direction) (order : Ordering) :
    (directed direction order).swap = directed direction order.swap := by
  cases direction <;> cases order <;> rfl

/-! ## Rows at the end of a page -/

section Rows

variable (rt : TokenRuntime)

/-- Up to the first field that tells them apart, the rows have values of one kind. -/
def Tells : List OrderDescriptor → Row → Row → Prop
  | [], _, _ => True
  | item :: rest, last, row =>
    SameKind (row item.field) (last item.field) ∧
      (orderValues rt (row item.field) (last item.field) = .eq → Tells rest last row)

variable {rt} {descriptors : List OrderDescriptor} {last row : Row}

theorem orderBy_self (descriptors : List OrderDescriptor) (row : Row) :
    orderBy (orderValues rt) descriptors row row = .eq := by
  induction descriptors with
  | nil => rfl
  | cons item rest ih =>
    rw [orderBy, orderValues_self, ih]
    cases item.direction <;> rfl

theorem orderBy_swap (h : Tells rt descriptors last row) :
    orderBy (orderValues rt) descriptors row last =
      (orderBy (orderValues rt) descriptors last row).swap := by
  induction descriptors with
  | nil => rfl
  | cons item rest ih =>
    obtain ⟨hkind, hrest⟩ := h
    have hswap : directed item.direction (orderValues rt (row item.field) (last item.field)) =
        (directed item.direction (orderValues rt (last item.field) (row item.field))).swap := by
      rw [directed_swap, ← orderValues_swap hkind]
    rw [orderBy, orderBy, Ordering.swap_then, ← hswap]
    by_cases heq : orderValues rt (row item.field) (last item.field) = .eq
    · rw [ih (hrest heq)]
    · cases horder : directed item.direction
          (orderValues rt (row item.field) (last item.field)) with
      | lt => rfl
      | eq => exact absurd (directed_eq_iff.mp horder) heq
      | gt => rfl

/-- A token can be made of the row: it has a value in every field, and no field is a path. -/
def Signable (descriptors : List OrderDescriptor) (row : Row) : Prop :=
  ∀ item ∈ descriptors, '/' ∉ item.field ∧ SameKind (row item.field) (row item.field)

theorem skipTokenValues_of_signable (h : Signable descriptors last) :
    ∃ values, skipTokenValues rt extractFieldValue last descriptors = .ok (some values) := by
  induction descriptors with
  | nil => exact ⟨[], rfl⟩
  | cons item rest ih =>
    obtain ⟨values, hvalues⟩ := ih fun item' hitem => h item' (List.mem_cons_of_mem _ hitem)
    obtain ⟨hpath, hkind⟩ := h item List.mem_cons_self
    rw [skipTokenValues, extractFieldValue, if_neg hpath, hvalues]
    cases hvalue : last item.field with
    | undefined =>
      rw [hvalue] at hkind
      cases hkind
    | date ms =>
      rw [hvalue] at hkind
      cases hkind
    | invalidDate =>
      rw [hvalue] at hkind
      cases hkind
    | _ => exact ⟨_, rfl⟩

/-- The comparison with the token is that of the order. -/
theorem compareRowAgainstToken_of_tells (hnumbers : rt.ReadsNumbersOf last)
    (hpath : ∀ item ∈ descriptors, '/' ∉ item.field) (h : Tells rt descriptors last row)
    {values : List Text}
    (hvalues : skipTokenValues rt extractFieldValue last descriptors = .ok (some values)) :
    compareRowAgainstToken rt row descriptors values =
      .ok (orderBy (orderValues rt) descriptors row last) := by
  induction descriptors generalizing values with
  | nil =>
    cases values <;> rfl
  | cons item rest ih =>
    obtain ⟨hkind, hrest⟩ := h
    have hfield := hpath item List.mem_cons_self
    rw [skipTokenValues, extractFieldValue, if_neg hfield] at hvalues
    split at hvalues
    · cases hvalues
    · obtain ⟨raw, hraw, hvalues⟩ := bind_eq_ok.mp hvalues
      obtain ⟨raws, hraws, hvalues⟩ := bind_eq_ok.mp hvalues
      cases raws with
      | none => cases hvalues
      | some raws =>
        obtain rfl := Option.some.inj (Except.ok.inj hvalues)
        have ih' := fun heq => ih (fun item' hitem => hpath item' (List.mem_cons_of_mem _ hitem))
          (hrest heq) hraws
        rw [compareRowAgainstToken, extractFieldValue, if_neg hfield,
          coerceTokenValue_stringify (hnumbers item.field) hkind hraw, orderBy]
        dsimp only [bind, Except.bind]
        rw [compareValues_eq_orderValues hkind]
        by_cases heq : orderValues rt (row item.field) (last item.field) = .eq
        · rw [heq, ih' heq]
          cases item.direction <;> rfl
        · cases horder : directed item.direction
              (orderValues rt (row item.field) (last item.field)) with
          | lt => rfl
          | eq => exact absurd (directed_eq_iff.mp horder) heq
          | gt => rfl

/-! ## Pages -/

variable (rt) in
/-- At the end of a page: the rows behind it are told apart from its last row. -/
structure PageEnd (descriptors : List OrderDescriptor) (before : List Row) (last : Row)
    (rest : List Row) : Prop where
  signable : Signable descriptors last
  tells : ∀ row ∈ before ++ last :: rest, Tells rt descriptors last row
  apart : ∀ row ∈ rest, orderBy (orderValues rt) descriptors row last ≠ .eq

variable {before rest : List Row} {values : List Text}

theorem rowsAfter_of_gt {rows : List Row}
    (h : ∀ row ∈ rows, compareRowAgainstToken rt row descriptors values = .ok .gt) :
    rowsAfter rt descriptors values rows = .ok rows := by
  induction rows with
  | nil => rfl
  | cons row rows ih =>
    have hrest := ih fun row' hrow => h row' (List.mem_cons_of_mem _ hrow)
    rw [rowsAfter, h row List.mem_cons_self, hrest]
    rfl

theorem rowsAfter_append {rows : List Row}
    (h : ∀ row ∈ before, ∃ order, compareRowAgainstToken rt row descriptors values = .ok order ∧
      order ≠ .gt) :
    rowsAfter rt descriptors values (before ++ rows) = rowsAfter rt descriptors values rows := by
  induction before with
  | nil => rfl
  | cons row before ih =>
    obtain ⟨order, horder, hne⟩ := h row List.mem_cons_self
    have hrest := ih fun row' hrow => h row' (List.mem_cons_of_mem _ hrow)
    rw [List.cons_append, rowsAfter, horder, hrest]
    change ((rowsAfter rt descriptors values rows).bind fun rest =>
      Except.ok (if order = .gt then row :: rest else rest)) = _
    cases rowsAfter rt descriptors values rows with
    | error e => rfl
    | ok rest =>
      change Except.ok (if order = .gt then row :: rest else rest) = _
      rw [if_neg hne]

/-- The token of a page resumes the rows behind it. -/
theorem rowsAfter_pageEnd (hnumbers : rt.ReadsNumbersOf last)
    (hsorted : (before ++ last :: rest).Pairwise fun a b =>
      orderBy (orderValues rt) descriptors a b ≠ .gt)
    (h : PageEnd rt descriptors before last rest) :
    ∃ values, createSkipToken rt descriptors last = .ok values ∧
      rowsAfter rt descriptors values (before ++ last :: rest) = .ok rest := by
  obtain ⟨values, hvalues⟩ := @skipTokenValues_of_signable rt _ _ h.signable
  have hcompare : ∀ row ∈ before ++ last :: rest,
      compareRowAgainstToken rt row descriptors values =
        .ok (orderBy (orderValues rt) descriptors row last) := by
    intro row hrow
    exact compareRowAgainstToken_of_tells hnumbers (fun item hitem => (h.signable item hitem).1)
      (h.tells row hrow) hvalues
  refine ⟨values, ?_, ?_⟩
  · rw [createSkipToken, hvalues]
    rfl
  · rw [List.pairwise_append] at hsorted
    obtain ⟨_, hlast, hcross⟩ := hsorted
    rw [List.pairwise_cons] at hlast
    have hsplit : before ++ last :: rest = (before ++ [last]) ++ rest := by
      rw [List.append_assoc]
      rfl
    rw [hsplit, rowsAfter_append, rowsAfter_of_gt]
    · intro row hrow
      have hmem : row ∈ before ++ last :: rest := by
        apply List.mem_append_right
        exact List.mem_cons_of_mem _ hrow
      rw [hcompare row hmem]
      have hle := hlast.1 row hrow
      have hne := h.apart row hrow
      rw [orderBy_swap (h.tells row hmem)] at hne ⊢
      cases horder : orderBy (orderValues rt) descriptors last row with
      | lt => rfl
      | eq =>
        rw [horder] at hne
        exact absurd rfl hne
      | gt => exact absurd horder hle
    · intro row hrow
      have hmem : row ∈ before ++ last :: rest := by
        rw [hsplit]
        exact List.mem_append_left _ hrow
      refine ⟨_, hcompare row hmem, ?_⟩
      rcases List.mem_append.mp hrow with hrow | hrow
      · exact hcross row hrow last List.mem_cons_self
      · rw [List.mem_singleton.mp hrow, orderBy_self]
        decide

end Rows

/-! ## Columns of one kind -/

/-- In every column the rows have values of one kind, and no column is a path. -/
structure UniformColumns (descriptors : List OrderDescriptor) (rows : List Row) : Prop where
  columns : ∀ item ∈ descriptors, '/' ∉ item.field
  kinds : ∀ item ∈ descriptors, ∀ a ∈ rows, ∀ b ∈ rows, SameKind (a item.field) (b item.field)

section Columns

variable {rt : TokenRuntime} {descriptors : List OrderDescriptor} {rows : List Row}

theorem isLE_compareText_iff {s t : Text} :
    (compareText s t).isLE = true ↔ s.flatMap utf16 ≤ t.flatMap utf16 := by
  apply isLE_compareOfLessAndEq
  · intro x y
    exact le_antisymm
  · intro x y
    exact not_le
  · exact le_total

theorem isLE_orderValues_trans {a b c : Scalar} (hab : SameKind a b) (hbc : SameKind b c)
    (h : (orderValues rt a b).isLE = true) (h' : (orderValues rt b c).isLE = true) :
    (orderValues rt a c).isLE = true := by
  have htext (s t u : Text) (hst : (compareText s t).isLE = true)
      (htu : (compareText t u).isLE = true) : (compareText s u).isLE = true := by
    rw [isLE_compareText_iff] at hst htu ⊢
    exact hst.trans htu
  by_cases heq : a = b
  · rw [heq]
    exact h'
  · by_cases heq' : b = c
    · rw [← heq']
      exact h
    · by_cases hsame : a = c
      · rw [hsame, orderValues_self]
        rfl
      · unfold orderValues at h h' ⊢
        rw [if_neg heq] at h
        rw [if_neg heq'] at h'
        rw [if_neg hsame]
        cases hab with
        | null => exact absurd rfl heq
        | bool _ _ =>
          cases hbc with
          | bool _ _ => exact htext _ _ _ h h'
        | num q r =>
          cases hbc with
          | num _ _ => exact @Std.TransOrd.isLE_trans Rat _ _ _ _ _ h h'
        | str s t =>
          cases hbc with
          | str _ _ => exact htext _ _ _ h h'

/-- By induction on the columns. -/
theorem transCmp_orderBy {compare : Scalar → Scalar → Ordering}
    (h : ∀ item ∈ descriptors, Std.TransCmp fun a b : { row // row ∈ rows } =>
      compare (a.val item.field) (b.val item.field)) :
    Std.TransCmp fun a b : { row // row ∈ rows } =>
      orderBy compare descriptors a.val b.val := by
  induction descriptors with
  | nil => exact { eq_swap := rfl, isLE_trans := fun _ _ => rfl }
  | cons item rest ih =>
    have hvalues := h item List.mem_cons_self
    have hfirst : Std.TransCmp fun a b : { row // row ∈ rows } =>
        directed item.direction (compare (a.val item.field) (b.val item.field)) := by
      cases item.direction with
      | asc => exact hvalues
      | desc =>
        have hswap : (fun a b : { row // row ∈ rows } =>
            directed .desc (compare (a.val item.field) (b.val item.field))) =
              fun a b => compare (b.val item.field) (a.val item.field) := by
          funext a b
          exact (hvalues.eq_swap (a := b) (b := a)).symm
        rw [hswap]
        exact @Std.TransCmp.opposite _ _ hvalues
    have hlex := ih fun item' hitem => h item' (List.mem_cons_of_mem _ hitem)
    exact @Std.instTransCmpCompareLex _ _ _ hfirst hlex

theorem transCmp_of_uniform (h : UniformColumns descriptors rows) :
    Std.TransCmp fun a b : { row // row ∈ rows } =>
      orderBy (orderValues rt) descriptors a.val b.val := by
  apply transCmp_orderBy
  intro item hitem
  have hkinds := h.kinds item hitem
  exact {
    eq_swap := fun {a b} => orderValues_swap (hkinds a.val a.property b.val b.property)
    isLE_trans := fun {a b c} => isLE_orderValues_trans
      (hkinds a.val a.property b.val b.property) (hkinds b.val b.property c.val c.property) }

theorem ordersOn_of_transCmp {order : Row → Row → Ordering}
    (h : Std.TransCmp fun a b : { row // row ∈ rows } => order a.val b.val) :
    OrdersOn (fun a b => order a b != .gt) rows := by
  have hle (result : Ordering) : (result != .gt) = result.isLE := by cases result <;> rfl
  refine ⟨?_, ?_⟩
  · intro a ha b hb
    rw [hle, hle]
    have hswap := h.eq_swap (a := ⟨a, ha⟩) (b := ⟨b, hb⟩)
    dsimp only at hswap
    rw [hswap]
    cases order b a <;> decide
  · intro a ha b hb c hc hab hbc
    rw [hle] at hab hbc ⊢
    exact h.isLE_trans (a := ⟨a, ha⟩) (b := ⟨b, hb⟩) (c := ⟨c, hc⟩) hab hbc

theorem ordersOn_of_uniform (h : UniformColumns descriptors rows) :
    OrdersOn (fun a b => orderBy (orderValues rt) descriptors a b != .gt) rows :=
  ordersOn_of_transCmp (transCmp_of_uniform h)

theorem tells_of_uniform (h : UniformColumns descriptors rows) {last row : Row}
    (hlast : last ∈ rows) (hrow : row ∈ rows) : Tells rt descriptors last row := by
  induction descriptors with
  | nil => trivial
  | cons item rest ih =>
    have hrest : UniformColumns rest rows :=
      ⟨fun item' hitem => h.columns item' (List.mem_cons_of_mem _ hitem),
        fun item' hitem => h.kinds item' (List.mem_cons_of_mem _ hitem)⟩
    exact ⟨h.kinds item List.mem_cons_self row hrow last hlast, fun _ => ih hrest⟩

/-- Rows with uniform columns are told apart at the end of a page if they differ. -/
theorem pageEnd_of_uniform (h : UniformColumns descriptors rows) {before rest : List Row}
    {last : Row} (hmem : ∀ row ∈ before ++ last :: rest, row ∈ rows)
    (hapart : ∀ row ∈ rest, orderBy (orderValues rt) descriptors row last ≠ .eq) :
    PageEnd rt descriptors before last rest := by
  have hlast : last ∈ rows := by
    apply hmem
    exact List.mem_append_right _ List.mem_cons_self
  refine ⟨?_, ?_, hapart⟩
  · intro item hitem
    exact ⟨h.columns item hitem, h.kinds item hitem last hlast last hlast⟩
  · intro row hrow
    exact tells_of_uniform h hlast (hmem row hrow)

end Columns

end Apply

end LoopbackOData
