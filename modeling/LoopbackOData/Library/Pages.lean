import Mathlib

/-!
# Reading page by page

A list that is handed out in pages, each of which names the token that the next one is asked for
with. Reading on to the end returns the list where every token resumes it behind its page.
-/

set_option autoImplicit false

namespace Pages

variable {α τ ε : Type}

/-- From a token on, until a page names no next one. -/
inductive Reading (fetch : Option τ → Except ε (List α × Option τ)) :
    Option τ → List α → Prop where
  | last {token : Option τ} {items : List α} (h : fetch token = .ok (items, none)) :
      Reading fetch token items
  | next {token : Option τ} {t : τ} {items rest : List α} (h : fetch token = .ok (items, some t))
      (hrest : Reading fetch (some t) rest) : Reading fetch token (items ++ rest)

/-- The first page of the data, with the token of its last element where that is not all. -/
def cut (tokenOf : α → Except ε τ) (size : Nat) (data : List α) :
    Except ε (List α × Option τ) :=
  if size = 0 ∨ data.length ≤ size then .ok (data, none)
  else match (data.take size).getLast? with
    | none => .ok (data, none)
    | some last => (tokenOf last).map fun token => (data.take size, some token)

variable {fetch : Option τ → Except ε (List α × Option τ)}

theorem Reading.unique {token : Option τ} {items items' : List α} (h : Reading fetch token items)
    (h' : Reading fetch token items') : items = items' := by
  induction h generalizing items' with
  | last hlast =>
    cases h' with
    | last hlast' =>
      rw [hlast] at hlast'
      exact (Prod.mk.inj (Except.ok.inj hlast')).1
    | next hnext _ =>
      rw [hlast] at hnext
      cases hnext
  | next hnext _ ih =>
    cases h' with
    | last hlast =>
      rw [hnext] at hlast
      cases hlast
    | next hnext' hrest =>
      rw [hnext] at hnext'
      cases hnext'
      rw [ih hrest]

theorem Reading.not_error {token : Option τ} {items : List α} {e : ε}
    (h : Reading fetch token items) : fetch token ≠ .error e := by
  intro herror
  cases h with
  | last hlast =>
    rw [herror] at hlast
    cases hlast
  | next hnext _ =>
    rw [herror] at hnext
    cases hnext

variable {tokenOf : α → Except ε τ} {size : Nat}

theorem cut_all {data : List α} (h : data.length ≤ size) :
    cut tokenOf size data = .ok (data, none) := by
  rw [cut, if_pos (Or.inr h)]

theorem cut_page {before rest : List α} {last : α} {token : τ} (hsize : before.length + 1 = size)
    (hrest : rest ≠ []) (htoken : tokenOf last = .ok token) :
    cut tokenOf size (before ++ last :: rest) = .ok (before ++ [last], some token) := by
  have htake : (before ++ last :: rest).take size = before ++ [last] := by
    rw [← hsize, List.take_length_add_append]
    rfl
  have hpos : 0 < rest.length := List.length_pos_iff.mpr hrest
  rw [cut, if_neg, htake, List.getLast?_append_of_ne_nil _ (List.cons_ne_nil _ _)]
  · dsimp only [List.getLast?_singleton]
    rw [htoken]
    rfl
  · rw [List.length_append, List.length_cons]
    omega

/-- The data behind the first page. -/
theorem exists_page {data : List α} (hsize : 0 < size) (hlong : size < data.length) :
    ∃ before last rest, data = before ++ last :: rest ∧ before.length + 1 = size ∧ rest ≠ [] := by
  have hlast : size - 1 < data.length := by omega
  refine ⟨data.take (size - 1), data[size - 1], data.drop size, ?_, ?_, ?_⟩
  · have hdrop := List.drop_eq_getElem_cons hlast
    rw [show size - 1 + 1 = size by omega] at hdrop
    rw [← hdrop, List.take_append_drop]
  · rw [List.length_take]
    omega
  · intro hnil
    have hlength := congrArg List.length hnil
    rw [List.length_drop, List.length_nil] at hlength
    omega

/-- By induction on the data: what a token resumes is the data behind its page again. -/
theorem reading_of_resumes (hsize : 0 < size) {data : List α} {token : Option τ}
    (hfetch : fetch token = cut tokenOf size data)
    (hresumes : ∀ before last rest, data = before ++ last :: rest → rest ≠ [] →
      size ∣ before.length + 1 →
        ∃ t, tokenOf last = .ok t ∧ fetch (some t) = cut tokenOf size rest) :
    Reading fetch token data := by
  induction hn : data.length using Nat.strong_induction_on generalizing data token with
  | _ n ih =>
    by_cases hlong : data.length ≤ size
    · apply Reading.last
      rw [hfetch, cut_all hlong]
    · have hmore : size < data.length := by omega
      obtain ⟨before, last, rest, rfl, hpage, hrest⟩ := exists_page hsize hmore
      obtain ⟨t, htoken, hnext⟩ := hresumes before last rest rfl hrest (by rw [hpage])
      have hlength : rest.length < n := by
        rw [← hn, List.length_append, List.length_cons]
        omega
      have hread : Reading fetch (some t) rest := by
        refine ih rest.length hlength hnext ?_ rfl
        rintro before' last' rest' rfl hrest' hdvd
        refine hresumes (before ++ last :: before') last' rest' ?_ hrest' ?_
        · rw [List.append_assoc, List.cons_append]
        · have hcount : (before ++ last :: before').length + 1 = size + (before'.length + 1) := by
            rw [List.length_append, List.length_cons]
            omega
          rw [hcount]
          exact Nat.dvd_add (dvd_refl size) hdvd
      have hall := Reading.next (hfetch.trans (cut_page hpage hrest htoken)) hread
      rw [List.append_assoc] at hall
      exact hall

/-- By induction on the data: the data behind a token is its page and the data behind the next. -/
theorem reading_of_behind (hsize : 0 < size) {Behind : Option τ → List α → Prop}
    (hlast : ∀ token data, Behind token data → data.length ≤ size →
      fetch token = .ok (data, none))
    (hnext : ∀ token data, Behind token data → size < data.length →
      ∃ t, fetch token = .ok (data.take size, some t) ∧ Behind (some t) (data.drop size))
    {data : List α} {token : Option τ} (h : Behind token data) : Reading fetch token data := by
  induction hn : data.length using Nat.strong_induction_on generalizing data token with
  | _ n ih =>
    by_cases hlong : data.length ≤ size
    · exact Reading.last (hlast token data h hlong)
    · obtain ⟨t, hfetch, hbehind⟩ := hnext token data h (by omega)
      have hlength : (data.drop size).length < n := by
        rw [List.length_drop]
        omega
      have hall := Reading.next hfetch (ih _ hlength hbehind rfl)
      rwa [List.take_append_drop] at hall

end Pages
