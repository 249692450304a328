import LoopbackOData.Logging.Bounds

/-!
# What a captured body shows

A body whose copy is not flagged shows the whole payload.
-/

namespace LoopbackOData

namespace Logging

set_option autoImplicit false

section Copy

variable (memory : Memory)

mutual

/-- The tree that a value stands for, with dates, byte buffers and bigints as texts. Objects that
hold themselves stand for none. -/
inductive Shows : Value → RowValue → Prop where
  | undefined : Shows .undefined .undefined
  | null : Shows .null .null
  | bool (b : Bool) : Shows (.bool b) (.bool b)
  | number (n : PrintedNumber) : Shows (.number n) (.number n.number)
  | bigint (i : Int) : Shows (.bigint i) (.string (Json.Number.ofInt i).text)
  | string (s : Text) : Shows (.string s) (.string s)
  | buffer {address : Nat} {bytes : List UInt8} (hread : memory address = .buffer bytes) :
      Shows (.object address) (.string (toBase64 bytes))
  | date {address : Nat} {iso : IsoText} (hread : memory address = .date (some iso)) :
      Shows (.object address) (.string iso.text)
  | array {address : Nat} {items : List Value} {shown : List RowValue}
      (hread : memory address = .array items) (hitems : ShowsItems items shown) :
      Shows (.object address) (.array shown)
  | record {address : Nat} {fields : List (Text × Value)} {shown : List (Text × RowValue)}
      (hread : memory address = .record fields) (hfields : ShowsFields fields shown) :
      Shows (.object address) (.record shown)

inductive ShowsItems : List Value → List RowValue → Prop where
  | nil : ShowsItems [] []
  | cons {item : Value} {items : List Value} {copied : RowValue} {shown : List RowValue}
      (hitem : Shows item copied) (hitems : ShowsItems items shown) :
      ShowsItems (item :: items) (copied :: shown)

inductive ShowsFields : List (Text × Value) → List (Text × RowValue) → Prop where
  | nil : ShowsFields [] []
  | cons {key : Text} {value : Value} {fields : List (Text × Value)} {copied : RowValue}
      {shown : List (Text × RowValue)} (hvalue : Shows value copied)
      (hfields : ShowsFields fields shown) :
      ShowsFields ((key, value) :: fields) ((key, copied) :: shown)

end

/-- No object has a property of its own that is named `__proto__`. -/
def HasNoPrototypeField : Prop :=
  ∀ address fields, memory address = .record fields → prototypeKey ∉ fields.map Prod.fst

/-- A step of the copy that is not flagged shows the value, and none was flagged before. -/
def IsFaithful (clone : Cloner) : Prop :=
  ∀ value state copied state', clone value state = some (copied, state') →
    state'.truncated = false → Shows memory value copied ∧ state.truncated = false

variable {memory}

theorem truncated_consumeBudget {state : CloneState} {bytes : Nat}
    (h : (state.consumeBudget bytes).truncated = false) : state.truncated = false := by
  unfold CloneState.consumeBudget CloneState.flag at h
  split at h
  · exact h
  · split at h
    · cases h
    · split at h
      · cases h
      · exact h

theorem consumeStringValue_unflagged {value : Text} {state : CloneState}
    (h : (consumeStringValue value state).2.truncated = false) :
    (consumeStringValue value state).1 = .string value ∧ state.truncated = false := by
  unfold consumeStringValue at h ⊢
  split at h
  · next hfits =>
    rw [if_pos hfits]
    exact ⟨rfl, h⟩
  · split at h
    · cases h
    · cases h

theorem clonePrimitiveValue_unflagged {value : Value} {state : CloneState}
    (hplain : ∀ address, value ≠ .object address)
    (h : (clonePrimitiveValue value state).2.truncated = false) :
    Shows memory value (clonePrimitiveValue value state).1 ∧ state.truncated = false := by
  cases value with
  | undefined => exact ⟨.undefined, truncated_consumeBudget h⟩
  | null => exact ⟨.null, truncated_consumeBudget h⟩
  | bool b => exact ⟨.bool b, truncated_consumeBudget h⟩
  | number n => exact ⟨.number n, truncated_consumeBudget h⟩
  | bigint i =>
    obtain ⟨heq, hstate⟩ := consumeStringValue_unflagged h
    rw [clonePrimitiveValue, heq]
    exact ⟨.bigint i, hstate⟩
  | string s =>
    obtain ⟨heq, hstate⟩ := consumeStringValue_unflagged h
    rw [clonePrimitiveValue, heq]
    exact ⟨.string s, hstate⟩
  | object address => exact absurd rfl (hplain address)

theorem truncated_of_isCut {next : RowValue} {state : CloneState} (h : isCut next state = true) :
    state.truncated = true := by
  cases next with
  | undefined => exact h
  | _ => cases h

theorem cloneItems_unflagged {clone : Cloner} (hclone : IsFaithful memory clone)
    {items : List Value} {processed : Nat} {state state' : CloneState} {copied : List RowValue}
    (h : cloneItems clone processed items state = some (copied, state'))
    (hunflagged : state'.truncated = false) :
    ShowsItems memory items copied ∧ state.truncated = false := by
  induction items generalizing processed state copied with
  | nil =>
    cases h
    exact ⟨.nil, hunflagged⟩
  | cons item items ih =>
    rw [cloneItems] at h
    split at h
    · cases h
      cases hunflagged
    · split at h
      · cases h
        cases hunflagged
      · obtain ⟨⟨next, state₁⟩, hnext, h⟩ := Option.bind_eq_some_iff.mp h
        dsimp only at h
        split at h
        · next hcut =>
          cases h
          rw [truncated_of_isCut hcut] at hunflagged
          cases hunflagged
        · obtain ⟨⟨rest, state₂⟩, hrest, h⟩ := Option.bind_eq_some_iff.mp h
          dsimp only at h
          cases h
          obtain ⟨hitems, hstate⟩ := ih hrest
          obtain ⟨hitem, hstate⟩ := hclone item state next state₁ hnext
            (truncated_consumeBudget hstate)
          exact ⟨.cons hitem hitems, hstate⟩

theorem cloneFields_unflagged {clone : Cloner} (hclone : IsFaithful memory clone)
    {fields : List (Text × Value)} (hplain : prototypeKey ∉ fields.map Prod.fst)
    {processed : Nat} {state state' : CloneState} {copied : List (Text × RowValue)}
    (h : cloneFields clone processed fields state = some (copied, state'))
    (hunflagged : state'.truncated = false) :
    ShowsFields memory fields copied ∧ state.truncated = false := by
  induction fields generalizing processed state copied with
  | nil =>
    cases h
    exact ⟨.nil, hunflagged⟩
  | cons field fields ih =>
    obtain ⟨key, value⟩ := field
    rw [List.map_cons, List.mem_cons, not_or] at hplain
    rw [cloneFields] at h
    split at h
    · cases h
      cases hunflagged
    · split at h
      · cases h
        cases hunflagged
      · dsimp only at h
        split at h
        · cases h
          cases hunflagged
        · obtain ⟨⟨next, state₁⟩, hnext, h⟩ := Option.bind_eq_some_iff.mp h
          dsimp only at h
          split at h
          · next hcut =>
            cases h
            rw [truncated_of_isCut hcut] at hunflagged
            cases hunflagged
          · obtain ⟨⟨rest, state₂⟩, hrest, h⟩ := Option.bind_eq_some_iff.mp h
            dsimp only at h
            cases h
            obtain ⟨hfields, hstate⟩ := ih hplain.2 hrest
            obtain ⟨hvalue, hstate⟩ := hclone value _ next state₁ hnext hstate
            rw [assignField, if_neg (Ne.symm hplain.1)]
            exact ⟨.cons hvalue hfields, truncated_consumeBudget hstate⟩

/-- A container whose copy is not flagged has been copied on the level below. -/
theorem cloneContainer_unflagged {nested : Nested} {seen : List Nat} {address : Nat}
    {state state' : CloneState} {copied : RowValue}
    {copy : Cloner → CloneState → Option (RowValue × CloneState)}
    (h : cloneContainer nested seen address state copy = some (copied, state'))
    (hunflagged : state'.truncated = false) :
    ∃ clone ∈ nested,
      copy (clone (address :: seen)) (state.consumeBudget 2) = some (copied, state') := by
  unfold cloneContainer at h
  split at h
  · cases h
    cases hunflagged
  · cases nested with
    | none =>
      cases h
      cases hunflagged
    | some clone => exact ⟨clone, rfl, h⟩

theorem cloneObject_unflagged (hplain : HasNoPrototypeField memory) {nested : Nested}
    (hnested : ∀ clone ∈ nested, ∀ seen, IsFaithful memory (clone seen)) {seen : List Nat}
    {address : Nat} {state state' : CloneState} {copied : RowValue}
    (h : cloneObject memory nested seen address state = some (copied, state'))
    (hunflagged : state'.truncated = false) :
    Shows memory (.object address) copied ∧ state.truncated = false := by
  have hstring {value : Text} (hshows : Shows memory (.object address) (.string value))
      (h : some (consumeStringValue value state) = some (copied, state')) :
      Shows memory (.object address) copied ∧ state.truncated = false := by
    have h := Option.some.inj h
    have hunflagged' : (consumeStringValue value state).2.truncated = false := by
      rw [h]
      exact hunflagged
    obtain ⟨heq, hstate⟩ := consumeStringValue_unflagged hunflagged'
    rw [h] at heq
    rw [show copied = .string value from heq]
    exact ⟨hshows, hstate⟩
  unfold cloneObject at h
  split at h
  · next hread => exact hstring (.buffer hread) h
  · cases h
  · next hread => exact hstring (.date hread) h
  · have h := Option.some.inj h
    have hunflagged' : (cloneNonPlainObject state).2.truncated = false := by
      rw [h]
      exact hunflagged
    cases (consumeStringValue_unflagged hunflagged').2
  · next items hread =>
    obtain ⟨clone, hclone, h⟩ := cloneContainer_unflagged h hunflagged
    obtain ⟨⟨items', state₁⟩, hitems, h⟩ := Option.map_eq_some_iff.mp h
    cases h
    obtain ⟨hshows, hstate⟩ := cloneItems_unflagged (hnested clone hclone _) hitems hunflagged
    exact ⟨.array hread hshows, truncated_consumeBudget hstate⟩
  · next fields hread =>
    obtain ⟨clone, hclone, h⟩ := cloneContainer_unflagged h hunflagged
    obtain ⟨⟨fields', state₁⟩, hfields, h⟩ := Option.map_eq_some_iff.mp h
    cases h
    obtain ⟨hshows, hstate⟩ := cloneFields_unflagged (hnested clone hclone _)
      (hplain address fields hread) hfields hunflagged
    exact ⟨.record hread hshows, truncated_consumeBudget hstate⟩

theorem isFaithful_cloneWith (hplain : HasNoPrototypeField memory) {nested : Nested}
    (hnested : ∀ clone ∈ nested, ∀ seen, IsFaithful memory (clone seen)) (seen : List Nat) :
    IsFaithful memory (cloneWith memory nested seen) := by
  intro value state copied state' h hunflagged
  unfold cloneWith at h
  split at h
  · cases h
    cases hunflagged
  · split at h
    · exact cloneObject_unflagged hplain hnested h hunflagged
    · next hobject =>
      have h := Option.some.inj h
      have hunflagged' : (clonePrimitiveValue value state).2.truncated = false := by
        rw [h]
        exact hunflagged
      have hshows := @clonePrimitiveValue_unflagged memory _ _ hobject hunflagged'
      rw [h] at hshows
      exact hshows

/-- By induction on the levels that are copied. -/
theorem isFaithful_cloneStructuredValue (hplain : HasNoPrototypeField memory) (levels : Nat)
    (seen : List Nat) : IsFaithful memory (cloneStructuredValue memory levels seen) := by
  induction levels generalizing seen with
  | zero =>
    exact isFaithful_cloneWith hplain (fun clone h => absurd h (Option.not_mem_none clone)) seen
  | succ levels ih =>
    refine isFaithful_cloneWith hplain (fun clone h seen => ?_) seen
    cases h
    exact ih seen

theorem cloneStructuredPayload_unflagged (hplain : HasNoPrototypeField memory) {payload : Value}
    {maxBytes maxDepth : Nat}
    (h : (cloneStructuredPayload memory payload maxBytes maxDepth).truncated = false) :
    Shows memory payload (cloneStructuredPayload memory payload maxBytes maxDepth).body := by
  unfold cloneStructuredPayload at h ⊢
  split at h
  · next body state hclone =>
    exact (isFaithful_cloneStructuredValue hplain maxDepth [] _ _ _ _ hclone h).1
  · cases h

/-- A body that is no part of another is logged as it stands, where it is no object. -/
def ShowsBody (memory : Memory) (payload : Value) (body : RowValue) : Prop :=
  Shows memory payload body ∨ ∃ i, payload = .bigint i ∧ body = .bigint i

theorem showsBody_plain {payload : Value} (hplain : ∀ address, payload ≠ .object address) :
    ShowsBody memory payload payload.plain := by
  cases payload with
  | undefined => exact .inl .undefined
  | null => exact .inl .null
  | bool b => exact .inl (.bool b)
  | number n => exact .inl (.number n)
  | bigint i => exact .inr ⟨i, rfl, rfl⟩
  | string s => exact .inl (.string s)
  | object address => exact absurd rfl (hplain address)

theorem captureText_unflagged {payload : Text} {maxBytes : Nat}
    (h : (captureText payload maxBytes).truncated = false) :
    (captureText payload maxBytes).body = .string payload := by
  unfold captureText at h ⊢
  split at h
  · cases h
  · next hfits => rw [if_neg hfits]

theorem captureBuffer_unflagged {payload : List UInt8} {maxBytes : Nat}
    (h : (captureBuffer payload maxBytes).truncated = false) :
    (captureBuffer payload maxBytes).body = .string (toBase64 payload) := by
  unfold captureBuffer at h ⊢
  split at h
  · cases h
  · next hfits => rw [if_neg hfits]

theorem captureResponseBody_unflagged (hplain : HasNoPrototypeField memory) {payload : Value}
    {maxBytes : Nat} {captured : CapturedPayload}
    (h : captureResponseBody memory payload maxBytes = some captured)
    (hunflagged : captured.truncated = false) : ShowsBody memory payload captured.body := by
  unfold captureResponseBody at h
  split at h
  · cases h
  · cases h
  · cases h
    rw [captureText_unflagged hunflagged]
    exact .inl (.string _)
  · cases h
    exact .inl (cloneStructuredPayload_unflagged hplain hunflagged)
  · next hobject =>
    cases h
    exact showsBody_plain hobject

/-- What an object that is no byte buffer shows counts as true. -/
theorem isTruthyBody_of_shows {address : Nat} {body : RowValue}
    (hbuffer : ∀ bytes, memory address ≠ .buffer bytes)
    (h : Shows memory (.object address) body) : isTruthyBody body = true := by
  cases h with
  | buffer hread => exact absurd hread (hbuffer _)
  | @date _ iso hread => exact decide_eq_true iso.nonempty
  | array hread hitems => rfl
  | record hread hfields => rfl

theorem captureRequestBody_unflagged (hplain : HasNoPrototypeField memory)
    {reading : IntegerReading} {payload : Value} {maxBytes : Nat} {paths : List Text}
    {captured : CapturedPayload}
    (h : captureRequestBody memory reading payload maxBytes paths = some captured)
    (hunflagged : captured.truncated = false) :
    ∃ shown, ShowsBody memory payload shown ∧
      captured.body = maskRequestBody reading shown paths := by
  unfold captureRequestBody at h
  split at h
  · cases h
  · cases h
  · next s =>
    cases h
    rw [captureText_unflagged hunflagged]
    exact ⟨.string s, .inl (.string s), rfl⟩
  · next address =>
    split at h
    · next bytes hread =>
      cases h
      rw [captureBuffer_unflagged hunflagged]
      exact ⟨.string (toBase64 bytes), .inl (.buffer hread), rfl⟩
    · next hbuffer =>
      cases h
      unfold captureObject at hunflagged ⊢
      dsimp only at hunflagged ⊢
      have hcloned : (cloneStructuredPayload memory (.object address) maxBytes
          defaultMaxCaptureDepth).truncated = false := by
        split at hunflagged
        · exact hunflagged
        · exact hunflagged
      have hshows := cloneStructuredPayload_unflagged hplain hcloned
      rw [if_pos (isTruthyBody_of_shows hbuffer hshows)]
      exact ⟨_, .inl hshows, rfl⟩
  · next hobject =>
    cases h
    refine ⟨payload.plain, showsBody_plain hobject, ?_⟩
    cases payload with
    | object address => exact absurd rfl (hobject address)
    | _ => rfl

end Copy

/-! ## Both bodies -/

/-- An object that holds a text and itself. -/
def selfMemory : Memory := fun _ =>
  .record [("name".toList, .string "x".toList), ("self".toList, .object 0)]

def withoutZeros (digits : Text) : Text :=
  match digits.dropWhile (· = '0') with
  | [] => ['0']
  | digits => digits

/-- Integers as they are read while double precision has them all. -/
def exactIntegers : IntegerReading where
  value digits :=
    if startsWith digits ['-'] then some (-(digitsValue (digits.drop 1) : Int))
    else some (digitsValue digits)
  text digits :=
    if startsWith digits ['-'] then
      if withoutZeros (digits.drop 1) = ['0'] then ['0'] else '-' :: withoutZeros (digits.drop 1)
    else withoutZeros digits

/-- An object whose only property is named `__proto__`. -/
def prototypeMemory : Memory := fun _ => .record [(prototypeKey, .string "x".toList)]

end Logging

end LoopbackOData
