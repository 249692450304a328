import LoopbackOData.Logging.Capture

/-!
# What a captured body takes

The JSON text of a captured body takes at most a fixed multiple of the budget.
-/

namespace LoopbackOData

namespace Logging

set_option autoImplicit false

/-! ## Bytes of JSON texts -/

theorem byteLength_append (s t : Text) : byteLength (s ++ t) = byteLength s + byteLength t := by
  simp [byteLength, utf8Bytes]

theorem byteLength_cons (c : Char) (s : Text) :
    byteLength (c :: s) = c.utf8Size + byteLength s := by
  simp [byteLength, utf8Bytes]

theorem byteLength_nil : byteLength [] = 0 := rfl

theorem byteLength_escape (c : Char) : byteLength (Json.escape c) ≤ 6 * c.utf8Size := by
  have hpos := c.utf8Size_pos
  rw [Json.escape]
  split
  · next name char hfind =>
    have hall : ∀ short ∈ Json.shortEscapes, short.1.utf8Size = 1 := by decide
    have hname := hall _ (List.mem_of_find?_eq_some hfind)
    have hslash : ('\\' : Char).utf8Size = 1 := rfl
    rw [byteLength_cons, byteLength_cons, byteLength_nil, hslash, hname]
    omega
  · split
    · next hcontrol =>
      have hall : ∀ n < 32, byteLength ['\\', 'u', '0', '0', Nat.digitChar (n / 16),
          Nat.digitChar (n % 16)] = 6 := by decide
      rw [hall _ hcontrol]
      omega
    · rw [byteLength_cons, byteLength_nil]
      omega

/-- An escape takes at most six times the bytes of its character. -/
theorem byteLength_quote (s : Text) : byteLength (Json.quote s) ≤ 6 * byteLength s + 2 := by
  have hescape : byteLength (s.flatMap Json.escape) ≤ 6 * byteLength s := by
    induction s with
    | nil => exact le_refl _
    | cons c s ih =>
      have hc := byteLength_escape c
      rw [List.flatMap_cons, byteLength_append, byteLength_cons]
      omega
  have hmark : byteLength ['"'] = 1 := rfl
  have hmark' : ('"' : Char).utf8Size = 1 := rfl
  rw [Json.quote, byteLength_cons, byteLength_append, hmark, hmark']
  omega

/-! ## Weights

A bound on the JSON text of a value that stays one when a part of the value is masked. -/

mutual

def weight : RowValue → Nat
  | .array items => 5 + weightItems items
  | .record fields => 5 + weightFields fields
  | .number n => max 5 (byteLength n.text)
  | .string s => max 5 (byteLength (Json.quote s))
  | .date iso => max 5 (byteLength (Json.quote iso))
  | _ => 5

def weightItems : List RowValue → Nat
  | [] => 0
  | item :: items => weight item + 1 + weightItems items

def weightFields : List (Text × RowValue) → Nat
  | [] => 0
  | (key, value) :: fields =>
    byteLength (Json.quote key) + 2 + weight value + weightFields fields

end

theorem five_le_weight (value : RowValue) : 5 ≤ weight value := by
  cases value with
  | array items => exact Nat.le_add_right _ _
  | record fields => exact Nat.le_add_right _ _
  | number n => exact le_max_left _ _
  | string s => exact le_max_left _ _
  | date iso => exact le_max_left _ _
  | undefined => exact le_refl _
  | null => exact le_refl _
  | bool b => exact le_refl _
  | bigint i => exact le_refl _

/-- The bytes of a separator. -/
theorem utf8Size_separator : (',' : Char).utf8Size = 1 ∧ (':' : Char).utf8Size = 1 ∧
    ('[' : Char).utf8Size = 1 ∧ (']' : Char).utf8Size = 1 ∧ ('{' : Char).utf8Size = 1 ∧
    ('}' : Char).utf8Size = 1 := ⟨rfl, rfl, rfl, rfl, rfl, rfl⟩

mutual

theorem print_le_weight (value : RowValue) :
    ∀ json ∈ value.toJson, byteLength (Json.print json) ≤ weight value := by
  obtain ⟨hcomma, hcolon, hopen, hclose, hbrace, hbrace'⟩ := utf8Size_separator
  rintro json hjson
  match value with
  | .undefined => cases hjson
  | .bigint _ => cases hjson
  | .null =>
    cases hjson
    exact (by decide : byteLength (Json.print .null) ≤ 5)
  | .bool b =>
    cases hjson
    cases b
    · exact (by decide : byteLength (Json.print (.bool false)) ≤ 5)
    · exact (by decide : byteLength (Json.print (.bool true)) ≤ 5)
  | .number n =>
    cases hjson
    exact le_max_right _ _
  | .string s =>
    cases hjson
    exact le_max_right _ _
  | .date iso =>
    cases hjson
    exact le_max_right _ _
  | .array [] =>
    cases hjson
    exact (by decide : byteLength (Json.print (.arr [])) ≤ 5)
  | .array (item :: items) =>
    cases hjson
    have hitem := printGet_le_weight item
    have hitems := printItems_le_weight items
    rw [RowValue.toJsonItems, Json.print, byteLength_cons, byteLength_append, hopen, weight,
      weightItems]
    omega
  | .record fields =>
    cases hjson
    have hfields := printFields_le_weight fields
    rw [weight]
    cases htext : RowValue.toJsonFields fields with
    | nil =>
      have hempty : byteLength (Json.print (.obj [])) = 2 := rfl
      omega
    | cons field rest =>
      obtain ⟨key, json⟩ := field
      rw [htext, Json.printFields, byteLength_cons, hcomma] at hfields
      rw [Json.print, byteLength_cons, hbrace]
      omega

theorem printGet_le_weight (value : RowValue) :
    byteLength (Json.print (value.toJson.getD .null)) ≤ weight value := by
  have hfive := five_le_weight value
  have hprint := print_le_weight value
  cases hjson : value.toJson with
  | none =>
    have hnull : byteLength (Json.print .null) = 4 := rfl
    rw [Option.getD_none]
    omega
  | some json => exact hprint json hjson

theorem printItems_le_weight (items : List RowValue) :
    byteLength (Json.printItems (RowValue.toJsonItems items)) ≤ weightItems items + 1 := by
  obtain ⟨hcomma, hcolon, hopen, hclose, hbrace, hbrace'⟩ := utf8Size_separator
  match items with
  | [] => exact le_refl _
  | item :: items =>
    have hitem := printGet_le_weight item
    have hitems := printItems_le_weight items
    rw [RowValue.toJsonItems, Json.printItems, byteLength_cons, byteLength_append, hcomma,
      weightItems]
    omega

theorem printFields_le_weight (fields : List (Text × RowValue)) :
    byteLength (Json.printFields (RowValue.toJsonFields fields)) ≤ weightFields fields + 1 := by
  obtain ⟨hcomma, hcolon, hopen, hclose, hbrace, hbrace'⟩ := utf8Size_separator
  match fields with
  | [] => exact le_refl _
  | (key, value) :: fields =>
    have hvalue := print_le_weight value
    have hfields := printFields_le_weight fields
    rw [RowValue.toJsonFields, weightFields]
    cases hjson : value.toJson with
    | none =>
      dsimp only
      omega
    | some json =>
      have hjson := hvalue json hjson
      dsimp only
      rw [Json.printFields, byteLength_cons, byteLength_append, byteLength_cons,
        byteLength_append, hcomma, hcolon]
      omega

end

/-! ## Masks -/

theorem weight_maskText : weight (.string maskText) = 5 := by decide

theorem weightItems_modify {change : RowValue → RowValue}
    (h : ∀ value, weight (change value) ≤ weight value) (items : List RowValue) (index : Nat) :
    weightItems (items.modify index change) ≤ weightItems items := by
  induction items generalizing index with
  | nil =>
    rw [List.modify_nil]
  | cons item items ih =>
    cases index with
    | zero =>
      have hitem := h item
      rw [List.modify_zero_cons, weightItems, weightItems]
      omega
    | succ index =>
      have hitems := ih index
      rw [List.modify_succ_cons, weightItems, weightItems]
      omega

theorem weightFields_modifyField {change : RowValue → RowValue}
    (h : ∀ value, weight (change value) ≤ weight value) (fields : List (Text × RowValue))
    (key : Text) : weightFields (modifyField fields key change) ≤ weightFields fields := by
  induction fields with
  | nil => exact le_refl _
  | cons field fields ih =>
    obtain ⟨name, value⟩ := field
    have hvalue := h value
    rw [modifyField, List.map_cons, ← modifyField]
    by_cases hname : name = key
    · subst hname
      rw [if_pos rfl, weightFields, weightFields]
      dsimp only
      omega
    · rw [if_neg hname, weightFields, weightFields]
      omega

variable {reading : IntegerReading}

theorem weight_maskAt (segments : List PathSegment) (value : RowValue) :
    weight (maskAt reading segments value) ≤ weight value := by
  induction segments generalizing value with
  | nil =>
    rw [maskAt, weight_maskText]
    exact five_le_weight value
  | cons segment segments ih =>
    cases value with
    | array items =>
      rw [maskAt]
      split
      · have hitems := weightItems_modify ih items
        rw [weight, weight]
        exact Nat.add_le_add_left (hitems _) 5
      · exact le_refl _
    | record fields =>
      rw [maskAt]
      split
      · exact le_refl _
      · rw [weight, weight]
        exact Nat.add_le_add_left (weightFields_modifyField ih fields _) 5
    | undefined => exact le_refl _
    | null => exact le_refl _
    | bool b => exact le_refl _
    | number n => exact le_refl _
    | bigint i => exact le_refl _
    | string s => exact le_refl _
    | date iso => exact le_refl _

theorem weight_maskPath (target : RowValue) (path : Text) :
    weight (maskPath reading target path) ≤ weight target := by
  rw [maskPath, applyMaskAtPath]
  split
  · exact le_refl _
  · exact weight_maskAt _ target

theorem weight_maskRequestBody (body : RowValue) (paths : List Text) :
    weight (maskRequestBody reading body paths) ≤ weight body := by
  have hfold : weight (paths.foldl (maskPath reading) body) ≤ weight body := by
    induction paths generalizing body with
    | nil => exact le_refl _
    | cons path paths ih => exact (ih _).trans (weight_maskPath body path)
  rw [maskRequestBody]
  split
  · exact hfold
  · exact le_refl _

/-! ## What a copy takes from the budget -/

/-- From one state to another a copy of this weight was made. An object whose copy is cut, or a
number that exceeds the budget, takes less of the budget than its text. -/
def Charged (value : RowValue) (state state' : CloneState) : Prop :=
  weight value + 13 * state'.remaining ≤ 13 * state.remaining + 12

theorem remaining_consumeBudget (state : CloneState) (bytes : Nat) :
    (state.consumeBudget bytes).remaining = state.remaining - bytes := by
  unfold CloneState.consumeBudget CloneState.flag
  split
  · next h => rw [h, Nat.sub_zero]
  · split
    · next h => rw [h, Nat.zero_sub]
    · split
      · next h => exact (Nat.sub_eq_zero_of_le (Nat.le_of_lt h)).symm
      · rfl

theorem byteLength_truncateStringByBytes (value : Text) (limit : Nat) :
    byteLength (truncateStringByBytes value limit) ≤ limit := by
  induction value generalizing limit with
  | nil => exact Nat.zero_le _
  | cons char value ih =>
    rw [truncateStringByBytes]
    split
    · exact Nat.zero_le _
    · have hrest := ih (limit - char.utf8Size)
      rw [byteLength_cons]
      omega

theorem charged_consumeStringValue (value : Text) (state : CloneState) :
    Charged (consumeStringValue value state).1 state (consumeStringValue value state).2 := by
  have hquote (s : Text) := byteLength_quote s
  unfold consumeStringValue Charged
  split
  · next hfits =>
    have hvalue := hquote value
    rw [weight]
    dsimp only
    omega
  · split
    · next hempty =>
      have hnil : weight (.string []) = 5 := rfl
      rw [hnil, CloneState.flag]
      dsimp only
      omega
    · have htruncated := hquote (truncateStringByBytes value state.remaining)
      have hle := byteLength_truncateStringByBytes value state.remaining
      rw [weight]
      dsimp only
      omega

theorem remaining_flag (state : CloneState) : state.flag.remaining = state.remaining := rfl

theorem charged_consumeBudget {value : RowValue} {bytes : Nat} {state : CloneState}
    (hweight : weight value ≤ max 5 bytes) (hbytes : bytes ≤ 25) (hpos : 0 < state.remaining) :
    Charged value state (state.consumeBudget bytes) := by
  rw [Charged, remaining_consumeBudget]
  omega

theorem charged_clonePrimitiveValue (value : Value) {state : CloneState}
    (hpos : 0 < state.remaining) :
    Charged (clonePrimitiveValue value state).1 state (clonePrimitiveValue value state).2 := by
  cases value with
  | string s => exact charged_consumeStringValue s state
  | bigint i => exact charged_consumeStringValue _ state
  | null => exact charged_consumeBudget (le_refl 5) (by omega) hpos
  | undefined => exact charged_consumeBudget (le_refl 5) (by omega) hpos
  | bool b =>
    cases b with
    | true => exact charged_consumeBudget (le_refl 5) (by decide) hpos
    | false => exact charged_consumeBudget (le_refl 5) (by decide) hpos
  | number n => exact charged_consumeBudget (le_refl _) n.short hpos
  | object address => exact (by omega : 5 + 13 * state.remaining ≤ 13 * state.remaining + 12)

/-- A step of the copy keeps to the budget. -/
def KeepsBudget (clone : Cloner) : Prop :=
  ∀ value state copied state', clone value state = some (copied, state') →
    Charged copied state state'

theorem remaining_of_charged {value : RowValue} {state state' : CloneState}
    (h : Charged value state state') : state'.remaining ≤ state.remaining := by
  have hfive := five_le_weight value
  rw [Charged] at h
  omega

/-- The entries that are copied take the separator after each, but for one that the last takes
where the budget is used up. -/
theorem weightItems_cloneItems {clone : Cloner} (hclone : KeepsBudget clone)
    {items : List Value} {processed : Nat} {state state' : CloneState} {copied : List RowValue}
    (h : cloneItems clone processed items state = some (copied, state')) :
    weightItems copied + 13 * state'.remaining ≤
      13 * state.remaining + if state.remaining = 0 then 0 else 13 := by
  induction items generalizing processed state state' copied with
  | nil =>
    cases h
    rw [weightItems]
    omega
  | cons item items ih =>
    rw [cloneItems] at h
    split at h
    · cases h
      rw [weightItems, remaining_flag]
      omega
    · split at h
      · cases h
        rw [weightItems, remaining_flag]
        omega
      · next hpos =>
        rw [if_neg hpos]
        obtain ⟨⟨next, state₁⟩, hnext, h⟩ := Option.bind_eq_some_iff.mp h
        have hcharged := hclone item state next state₁ hnext
        dsimp only at h
        split at h
        · cases h
          have hle := remaining_of_charged hcharged
          rw [weightItems]
          omega
        · obtain ⟨⟨rest, state₂⟩, hrest, h⟩ := Option.bind_eq_some_iff.mp h
          dsimp only at h
          cases h
          have hitems := ih hrest
          rw [remaining_consumeBudget] at hitems
          rw [Charged] at hcharged
          rw [weightItems]
          split at hitems <;> omega

theorem weightFields_cloneFields {clone : Cloner} (hclone : KeepsBudget clone)
    {fields : List (Text × Value)} {processed : Nat} {state state' : CloneState}
    {copied : List (Text × RowValue)}
    (h : cloneFields clone processed fields state = some (copied, state')) :
    weightFields copied + 13 * state'.remaining ≤ 13 * state.remaining := by
  induction fields generalizing processed state state' copied with
  | nil =>
    cases h
    exact Nat.le_of_eq (Nat.zero_add _)
  | cons field fields ih =>
    obtain ⟨key, value⟩ := field
    have hconsume := remaining_consumeBudget state (keyBudget key)
    rw [cloneFields] at h
    split at h
    · cases h
      exact Nat.le_of_eq (Nat.zero_add _)
    · split at h
      · cases h
        exact Nat.le_of_eq (Nat.zero_add _)
      · dsimp only at h
        split at h
        · next hempty =>
          cases h
          rw [weightFields, remaining_flag]
          omega
        · next hpos =>
          obtain ⟨⟨next, state₁⟩, hnext, h⟩ := Option.bind_eq_some_iff.mp h
          have hcharged := hclone value _ next state₁ hnext
          have hle := remaining_of_charged hcharged
          rw [Charged] at hcharged
          dsimp only at h
          split at h
          · cases h
            rw [weightFields]
            omega
          · obtain ⟨⟨rest, state₂⟩, hrest, h⟩ := Option.bind_eq_some_iff.mp h
            dsimp only at h
            cases h
            have hfields := ih hrest
            have hquote := byteLength_quote key
            have hbudget : keyBudget key = byteLength key + 4 := rfl
            rw [assignField]
            split
            · omega
            · rw [weightFields]
              omega

section Copy

variable {memory : Memory}

theorem charged_text {text : Text} (h : weight (.string text) ≤ 12) (state : CloneState) :
    Charged (.string text) state state.flag := by
  rw [Charged, CloneState.flag]
  dsimp only
  omega

theorem charged_cloneNonPlainObject (state : CloneState) :
    Charged (cloneNonPlainObject state).1 state (cloneNonPlainObject state).2 :=
  charged_consumeStringValue _ state.flag

theorem charged_of_eq {step : RowValue × CloneState} {state state' : CloneState}
    {copied : RowValue} (hstep : Charged step.1 state step.2)
    (h : some step = some (copied, state')) : Charged copied state state' := by
  rw [Option.some.inj h] at hstep
  exact hstep

/-- Two bytes of the brackets pay for the separator that the budget does not cover. -/
theorem charged_cloneContainer {nested : Nested} {seen : List Nat} {address : Nat}
    {state state' : CloneState} {copied : RowValue}
    {copy : Cloner → CloneState → Option (RowValue × CloneState)} (hpos : 0 < state.remaining)
    (hcopy : ∀ clone ∈ nested, ∀ state state' copied,
      copy (clone (address :: seen)) state = some (copied, state') →
        weight copied + 13 * state'.remaining ≤
          5 + 13 * state.remaining + if state.remaining = 0 then 0 else 13)
    (h : cloneContainer nested seen address state copy = some (copied, state')) :
    Charged copied state state' := by
  unfold cloneContainer at h
  split at h
  · exact charged_of_eq (charged_text (by decide) state) h
  · cases nested with
    | none => exact charged_of_eq (charged_text (by decide) state) h
    | some clone =>
      have hweight := hcopy clone rfl _ _ _ h
      rw [remaining_consumeBudget] at hweight
      rw [Charged]
      split at hweight <;> omega

theorem charged_cloneObject {nested : Nested}
    (hnested : ∀ clone ∈ nested, ∀ seen, KeepsBudget (clone seen)) {seen : List Nat}
    {address : Nat} {state state' : CloneState} {copied : RowValue} (hpos : 0 < state.remaining)
    (h : cloneObject memory nested seen address state = some (copied, state')) :
    Charged copied state state' := by
  unfold cloneObject at h
  split at h
  · exact charged_of_eq (charged_consumeStringValue _ state) h
  · cases h
  · exact charged_of_eq (charged_consumeStringValue _ state) h
  · exact charged_of_eq (charged_cloneNonPlainObject state) h
  · refine charged_cloneContainer hpos (fun clone hclone state state' copied h => ?_) h
    obtain ⟨⟨items', state₁⟩, hitems, h⟩ := Option.map_eq_some_iff.mp h
    cases h
    have hweight := weightItems_cloneItems (hnested clone hclone _) hitems
    rw [weight]
    omega
  · refine charged_cloneContainer hpos (fun clone hclone state state' copied h => ?_) h
    obtain ⟨⟨fields', state₁⟩, hfields, h⟩ := Option.map_eq_some_iff.mp h
    cases h
    have hweight := weightFields_cloneFields (hnested clone hclone _) hfields
    rw [weight]
    omega

theorem keepsBudget_cloneWith {nested : Nested}
    (hnested : ∀ clone ∈ nested, ∀ seen, KeepsBudget (clone seen)) (seen : List Nat) :
    KeepsBudget (cloneWith memory nested seen) := by
  intro value state copied state' h
  unfold cloneWith at h
  split at h
  · next hempty =>
    cases h
    exact (by omega : 5 + 13 * state.remaining ≤ 13 * state.remaining + 12)
  · next hpos =>
    have hpos := Nat.pos_of_ne_zero hpos
    split at h
    · exact charged_cloneObject hnested hpos h
    · exact charged_of_eq (charged_clonePrimitiveValue value hpos) h

/-- By induction on the levels that are copied. -/
theorem keepsBudget_cloneStructuredValue (levels : Nat) (seen : List Nat) :
    KeepsBudget (cloneStructuredValue memory levels seen) := by
  induction levels generalizing seen with
  | zero => exact keepsBudget_cloneWith (fun clone h => absurd h (Option.not_mem_none clone)) seen
  | succ levels ih =>
    refine keepsBudget_cloneWith (fun clone h seen => ?_) seen
    cases h
    exact ih seen

/-! ## Texts of byte buffers -/

theorem length_sextets (bytes : List UInt8) :
    (Base64.sextets bytes).length ≤ 2 * bytes.length := by
  induction bytes using Base64.sextets.induct with
  | case1 => exact le_refl _
  | case2 a => exact le_refl _
  | case3 a b => exact (by decide : 3 ≤ 4)
  | case4 a b c rest ih =>
    simp only [Base64.sextets, List.length_cons]
    omega

/-- The characters of these texts have no escapes. -/
theorem escape_toBase64 {bytes : List UInt8} {c : Char} (h : c ∈ toBase64 bytes) :
    Json.escape c = [c] ∧ c.utf8Size = 1 := by
  have hall : ∀ n < 64, Json.escape (if Base64.character n = '-' then '+'
      else if Base64.character n = '_' then '/' else Base64.character n) =
        [if Base64.character n = '-' then '+'
          else if Base64.character n = '_' then '/' else Base64.character n] ∧
      (if Base64.character n = '-' then '+'
        else if Base64.character n = '_' then '/' else Base64.character n).utf8Size = 1 := by
    decide +kernel
  rw [toBase64, List.mem_append] at h
  obtain h | h := h
  · obtain ⟨c', hmem, rfl⟩ := List.mem_map.mp h
    obtain ⟨n, hn, rfl⟩ := List.mem_map.mp hmem
    exact hall n (Base64.sextets_lt bytes n hn)
  · rw [List.eq_of_mem_replicate h]
    decide

theorem byteLength_quote_toBase64 (bytes : List UInt8) :
    byteLength (Json.quote (toBase64 bytes)) ≤ 2 * bytes.length + 4 := by
  have hplain (s : Text) (h : ∀ c ∈ s, Json.escape c = [c] ∧ c.utf8Size = 1) :
      byteLength (s.flatMap Json.escape) = s.length := by
    induction s with
    | nil => rfl
    | cons c s ih =>
      obtain ⟨⟨hescape, hsize⟩, hrest⟩ := List.forall_mem_cons.mp h
      rw [List.flatMap_cons, hescape, List.singleton_append, byteLength_cons, hsize, ih hrest,
        List.length_cons, Nat.add_comm]
  have hlength : (toBase64 bytes).length ≤ 2 * bytes.length + 2 := by
    have hsextets := length_sextets bytes
    rw [toBase64, List.length_append, List.length_map, List.length_replicate, Base64.encode,
      List.length_map]
    omega
  have hmark : byteLength ['"'] = 1 := rfl
  have hmark' : ('"' : Char).utf8Size = 1 := rfl
  rw [Json.quote, byteLength_cons, byteLength_append, hmark, hmark',
    hplain _ fun c hc => escape_toBase64 hc]
  omega

/-! ## Captured bodies are bounded -/

/-- The JSON text of the body takes at most a multiple of the budget. -/
def Fits (maxBytes : Nat) (captured : CapturedPayload) : Prop :=
  ∀ json ∈ captured.body.toJson, byteLength (Json.print json) ≤ 13 * maxBytes + 12

theorem fits_of_weight {maxBytes : Nat} {captured : CapturedPayload}
    (h : weight captured.body ≤ 13 * maxBytes + 12) : Fits maxBytes captured :=
  fun json hjson => (print_le_weight captured.body json hjson).trans h

section Captures

variable (memory : Memory) {maxBytes : Nat}

theorem weight_captureText (payload : Text) (maxBytes : Nat) :
    weight (captureText payload maxBytes).body ≤ 13 * maxBytes + 12 := by
  rw [captureText]
  split
  · have hquote := byteLength_quote (truncateStringByBytes payload maxBytes)
    have hle := byteLength_truncateStringByBytes payload maxBytes
    rw [weight]
    omega
  · have hquote := byteLength_quote payload
    rw [weight]
    omega

theorem weight_captureBuffer (payload : List UInt8) (maxBytes : Nat) :
    weight (captureBuffer payload maxBytes).body ≤ 13 * maxBytes + 12 := by
  rw [captureBuffer]
  split
  · have hquote := byteLength_quote_toBase64 (payload.take maxBytes)
    rw [List.length_take] at hquote
    rw [weight]
    omega
  · have hquote := byteLength_quote_toBase64 payload
    rw [weight]
    omega

theorem weight_cloneStructuredPayload (payload : Value) (maxDepth : Nat) (hpos : 0 < maxBytes) :
    weight (cloneStructuredPayload memory payload maxBytes maxDepth).body ≤
      13 * maxBytes + 12 := by
  rw [cloneStructuredPayload]
  split
  · next body state hclone =>
    have hcharged := keepsBudget_cloneStructuredValue maxDepth [] payload _ body state hclone
    rw [Charged] at hcharged
    dsimp only at hcharged ⊢
    omega
  · have hweight : weight (.string "[unserializable]".toList) = 18 := by decide
    rw [hweight]
    omega

theorem weight_captureObject (reading : IntegerReading) (payload : Value) (paths : List Text)
    (hpos : 0 < maxBytes) :
    weight (captureObject memory reading payload maxBytes paths).body ≤ 13 * maxBytes + 12 := by
  rw [captureObject]
  split
  · exact (weight_maskRequestBody _ paths).trans
      (weight_cloneStructuredPayload memory payload _ hpos)
  · exact (by omega : 5 ≤ 13 * maxBytes + 12)

theorem weight_plain (payload : Value) (hpos : 0 < maxBytes) (h : ∀ s, payload ≠ .string s) :
    weight payload.plain ≤ 13 * maxBytes + 12 := by
  cases payload with
  | number n =>
    have hshort := n.short
    rw [Value.plain, weight]
    omega
  | string s => exact absurd rfl (h s)
  | _ => exact (by omega : 5 ≤ 13 * maxBytes + 12)

theorem fits_captureRequestBody {reading : IntegerReading} {payload : Value} {paths : List Text}
    {captured : CapturedPayload} (hpos : 0 < maxBytes)
    (h : captureRequestBody memory reading payload maxBytes paths = some captured) :
    Fits maxBytes captured := by
  apply fits_of_weight
  unfold captureRequestBody at h
  split at h
  · cases h
  · cases h
  · cases h
    exact weight_captureText _ maxBytes
  · split at h
    · cases h
      exact weight_captureBuffer _ maxBytes
    · cases h
      exact weight_captureObject memory reading _ paths hpos
  · next hstring _ =>
    cases h
    exact weight_plain payload hpos hstring

theorem fits_captureResponseBody {payload : Value} {captured : CapturedPayload}
    (hpos : 0 < maxBytes) (h : captureResponseBody memory payload maxBytes = some captured) :
    Fits maxBytes captured := by
  apply fits_of_weight
  unfold captureResponseBody at h
  split at h
  · cases h
  · cases h
  · cases h
    exact weight_captureText _ maxBytes
  · cases h
    exact weight_cloneStructuredPayload memory _ _ hpos
  · next hstring _ =>
    cases h
    exact weight_plain payload hpos hstring

end Captures

end Copy

end Logging

end LoopbackOData
