import LoopbackOData.Expand.Merging
import LoopbackOData.Expand.Scanning
import LoopbackOData.Filter.Spelling
import LoopbackOData.Paging.TokenSigning

/-!
# Spelling options

How the options of a node are written, and what the parser reads each of them as.
-/

namespace LoopbackOData

namespace Expand

set_option autoImplicit false

open RelationTree

/-! ## Trimmed texts -/

/-- Not empty, and without space at its ends. -/
structure Trimmed (text : Text) : Prop where
  ne_nil : text ≠ []
  head : ∀ c ∈ text.head?, isSpace c = false
  last : ∀ c ∈ text.getLast?, isSpace c = false

theorem Trimmed.trimText {text : Text} (h : Trimmed text) : trimText text = text :=
  trimText_of_ends h.head h.last

/-- Only the ends matter. -/
theorem Trimmed.between {first last : Text} (hfirst : Trimmed first) (hlast : Trimmed last)
    (middle : Text) : Trimmed (first ++ middle ++ last) where
  ne_nil := by
    intro hnil
    rw [List.append_assoc] at hnil
    exact hfirst.ne_nil (List.append_eq_nil_iff.mp hnil).1
  head := by
    intro c hc
    apply hfirst.head c
    obtain ⟨d, rest, hd⟩ := List.exists_cons_of_ne_nil hfirst.ne_nil
    rw [hd] at hc ⊢
    exact hc
  last := by
    intro c hc
    apply hlast.last c
    rw [List.getLast?_append] at hc
    cases hl : last.getLast? with
    | none => exact absurd (List.getLast?_eq_none_iff.mp hl) hlast.ne_nil
    | some d =>
      rw [hl] at hc
      exact hc

theorem Trimmed.append {first last : Text} (hfirst : Trimmed first) (hlast : Trimmed last) :
    Trimmed (first ++ last) := by
  have h := hfirst.between hlast []
  rwa [List.append_nil] at h

theorem trimmed_of_forall {text : Text} (hne : text ≠ []) (h : ∀ c ∈ text, isSpace c = false) :
    Trimmed text where
  ne_nil := hne
  head := fun c hc => h c (List.mem_of_mem_head? hc)
  last := fun c hc => h c (List.mem_of_mem_getLast? hc)

theorem trimmed_singleton {c : Char} (h : isSpace c = false) : Trimmed [c] := by
  refine trimmed_of_forall (List.cons_ne_nil c []) fun d hd => ?_
  rw [List.mem_singleton.mp hd]
  exact h

theorem trimmed_intercalate {sep : Char} {pieces : List Text}
    (hne : pieces ≠ []) (h : ∀ piece ∈ pieces, Trimmed piece) :
    Trimmed ([sep].intercalate pieces) := by
  induction pieces with
  | nil => exact absurd rfl hne
  | cons piece pieces ih =>
    have hpiece := h piece List.mem_cons_self
    cases pieces with
    | nil => rwa [List.intercalate_singleton]
    | cons next pieces =>
      rw [List.intercalate_cons_cons]
      exact hpiece.between (ih (List.cons_ne_nil _ _) fun q hq => h q (List.mem_cons_of_mem _ hq)) _

theorem trimmed_group (text : Text) : Trimmed ('(' :: text ++ [')']) :=
  (trimmed_singleton (by decide)).between (trimmed_singleton (by decide)) text

/-! ## Names -/

def isNameChar (c : Char) : Bool := !isSpace c && !("'(),;".toList.contains c)

/-- A name has neither spaces nor the characters that `$expand` is cut at. -/
structure IsName (name : Text) : Prop where
  ne_nil : name ≠ []
  chars : ∀ c ∈ name, isNameChar c = true

section Names

variable {name : Text} {c : Char}

theorem isSpace_of_isNameChar (h : isNameChar c = true) : isSpace c = false := by
  rw [isNameChar, Bool.and_eq_true] at h
  simpa using h.1

theorem ne_of_isNameChar {d : Char} (h : isNameChar c = true) (hd : d ∈ "'(),;".toList) :
    c ≠ d := by
  rintro rfl
  rw [isNameChar, Bool.and_eq_true, Bool.not_eq_true', List.contains_eq_mem] at h
  rw [decide_eq_true hd] at h
  exact absurd h.2 (by decide)

/-- The delimiters that `$expand` is cut at, or none. -/
def IsDelimiter (delimiter : Option Char) : Prop :=
  delimiter = none ∨ delimiter = some ',' ∨ delimiter = some ';'

theorem isPlain_of_isNameChar {delimiter : Option Char} (hdelimiter : IsDelimiter delimiter)
    (h : isNameChar c = true) : isPlain delimiter c = true := by
  simp only [isPlain, Bool.and_eq_true, decide_eq_true_eq]
  refine ⟨⟨⟨ne_of_isNameChar h (by decide), ne_of_isNameChar h (by decide)⟩,
    ne_of_isNameChar h (by decide)⟩, ?_⟩
  rcases hdelimiter with rfl | rfl | rfl
  · intro heq
    cases heq
  · exact fun heq => ne_of_isNameChar h (by decide) (Option.some.inj heq)
  · exact fun heq => ne_of_isNameChar h (by decide) (Option.some.inj heq)

theorem IsName.trimmed (h : IsName name) : Trimmed name :=
  trimmed_of_forall h.ne_nil fun c hc => isSpace_of_isNameChar (h.chars c hc)

theorem IsName.closed (h : IsName name) {delimiter : Option Char}
    (hdelimiter : IsDelimiter delimiter) : Closed delimiter name :=
  closed_of_isPlain fun c hc => isPlain_of_isNameChar hdelimiter (h.chars c hc)

theorem IsName.comma_not_mem (h : IsName name) : ',' ∉ name :=
  fun hmem => ne_of_isNameChar (h.chars _ hmem) (by decide) rfl

end Names

/-! ## Values -/

/-- An item of `$orderby` as it is written. -/
structure OrderItem where
  field : Text
  direction : Option Direction

def OrderItem.text (item : OrderItem) : Text :=
  match item.direction with
  | none => item.field
  | some .asc => item.field ++ " asc".toList
  | some .desc => item.field ++ " desc".toList

/-- An item as a repository takes it. -/
def OrderItem.clause (item : OrderItem) : Text :=
  item.field ++ ' ' :: (item.direction.getD .asc).text

/-- An option with its value. -/
def optionText (key : String) (value : Text) : Text := key.toList ++ '=' :: value

def optionKeys : List String :=
  ["$select", "$expand", "$filter", "$orderby", "$top", "$skip", "$levels"]

/-- How an option is spelled. The quotes and parentheses of a filter are closed, and it has no
semicolon outside them; `clause` is what the repository is asked for. -/
inductive SpellsOption (rt : Runtime) (options : ParseOptions) : NodeOption → Text → Prop where
  | select {names : List Text} :
    names ≠ [] → (∀ name ∈ names, IsName name) →
    SpellsOption rt options (.select names) (optionText "$select" ([','].intercalate names))
  | filter {text : Text} {clause : Where} :
    Trimmed text → Closed (some ';') text →
    parseScopeFilter rt options text = .ok (some clause) →
    SpellsOption rt options (.filter clause) (optionText "$filter" text)
  | orderby {items : List OrderItem} :
    items ≠ [] → (∀ item ∈ items, IsName item.field) →
    SpellsOption rt options (.orderby (items.map OrderItem.clause))
      (optionText "$orderby" ([','].intercalate (items.map OrderItem.text)))
  | top {limit : Nat} :
    limit ≤ maxSafeInteger →
    SpellsOption rt options (.top limit) (optionText "$top" (Json.digits limit))
  | skip {offset : Nat} :
    offset ≤ maxSafeInteger →
    SpellsOption rt options (.skip offset) (optionText "$skip" (Json.digits offset))

theorem parseSelect_intercalate {names : List Text} (hne : names ≠ [])
    (hnames : ∀ name ∈ names, IsName name) :
    parseSelect ([','].intercalate names) = names.foldl projectRelationField [] := by
  have htrim : names.map trimText = names := by
    have hmap : names.map trimText = names.map id :=
      List.map_congr_left fun name hname => (hnames name hname).trimmed.trimText
    rw [hmap, List.map_id]
  have hfilter : names.filter (fun name => decide (name ≠ [])) = names :=
    List.filter_eq_self.mpr fun name hname => decide_eq_true (hnames name hname).ne_nil
  rw [parseSelect, List.splitOn_intercalate _ (fun name hname => (hnames name hname).comma_not_mem)
    hne, htrim, hfilter]

theorem parseOrderItem_text {item : OrderItem} (h : IsName item.field) :
    parseOrderItem item.text = .ok item.clause := by
  obtain ⟨field, direction⟩ := item
  have hkept (rest : List Text) : (field :: rest).filter (fun word => decide (word ≠ [])) =
      field :: rest.filter (fun word => decide (word ≠ [])) := by
    rw [List.filter_cons, if_pos (decide_eq_true h.ne_nil)]
  have hspace : ∀ c ∈ field, isSpace c = false := fun c hc => isSpace_of_isNameChar (h.chars c hc)
  have hfield : splitSpaces field = [field] := by
    rw [splitSpaces, List.splitOnP_eq_singleton hspace,
      hkept, List.filter_nil]
  have hboth (word : Text) (hword : splitSpaces word = [word]) :
      splitSpaces (field ++ ' ' :: word) = [field, word] := by
    rw [splitSpaces, List.splitOnP_append_cons_of_forall_mem hspace _ (by decide),
      hkept]
    exact congrArg _ hword
  cases direction with
  | none => exact (congrArg _ rfl).trans (by rw [OrderItem.text, parseOrderItem, hfield]; rfl)
  | some direction =>
    cases direction with
    | asc =>
      have hsplit := hboth "asc".toList (by decide)
      have htext : OrderItem.text ⟨field, some .asc⟩ = field ++ ' ' :: "asc".toList := rfl
      rw [htext, parseOrderItem, hsplit]
      rfl
    | desc =>
      have hsplit := hboth "desc".toList (by decide)
      have htext : OrderItem.text ⟨field, some .desc⟩ = field ++ ' ' :: "desc".toList := rfl
      rw [htext, parseOrderItem, hsplit]
      rfl

theorem mapM_parseOrderItem {items : List OrderItem} (h : ∀ item ∈ items, IsName item.field) :
    (items.map OrderItem.text).mapM parseOrderItem = .ok (items.map OrderItem.clause) := by
  induction items with
  | nil => rfl
  | cons item items ih =>
    rw [List.map_cons, List.mapM_cons, parseOrderItem_text (h item List.mem_cons_self),
      ih fun other hother => h other (List.mem_cons_of_mem _ hother)]
    rfl

theorem comma_not_mem_text {item : OrderItem} (h : IsName item.field) : ',' ∉ item.text := by
  obtain ⟨field, direction⟩ := item
  have hfield : ',' ∉ field := h.comma_not_mem
  cases direction with
  | none => exact hfield
  | some direction =>
    cases direction <;>
    · intro hmem
      rcases List.mem_append.mp hmem with hmem | hmem
      · exact hfield hmem
      · exact absurd hmem (by decide)

theorem trimmed_text {item : OrderItem} (h : IsName item.field) : Trimmed item.text := by
  obtain ⟨field, direction⟩ := item
  have hfield : Trimmed field := h.trimmed
  cases direction with
  | none => exact hfield
  | some direction =>
    cases direction with
    | asc =>
      have hlast : Trimmed "asc".toList := trimmed_of_forall (by decide) (by decide)
      have htext : OrderItem.text ⟨field, some .asc⟩ = field ++ [' '] ++ "asc".toList := by
        rw [List.append_assoc]
        rfl
      exact htext ▸ hfield.between hlast _
    | desc =>
      have hlast : Trimmed "desc".toList := trimmed_of_forall (by decide) (by decide)
      have htext : OrderItem.text ⟨field, some .desc⟩ = field ++ [' '] ++ "desc".toList := by
        rw [List.append_assoc]
        rfl
      exact htext ▸ hfield.between hlast _

theorem closed_text {item : OrderItem} (h : IsName item.field) :
    Closed (some ';') item.text := by
  obtain ⟨field, direction⟩ := item
  have hfield : Closed (some ';') field := h.closed (Or.inr (Or.inr rfl))
  cases direction with
  | none => exact hfield
  | some direction =>
    cases direction with
    | asc => exact hfield.append (closed_of_isPlain (by decide))
    | desc => exact hfield.append (closed_of_isPlain (by decide))

theorem parseOrder_intercalate {items : List OrderItem} (hne : items ≠ [])
    (h : ∀ item ∈ items, IsName item.field) :
    parseOrder ([','].intercalate (items.map OrderItem.text)) =
      .ok (items.map OrderItem.clause) := by
  have hne' : items.map OrderItem.text ≠ [] := fun hnil => hne (List.map_eq_nil_iff.mp hnil)
  have htrimmed : Trimmed ([','].intercalate (items.map OrderItem.text)) := by
    refine trimmed_intercalate hne' fun piece hpiece => ?_
    obtain ⟨item, hitem, rfl⟩ := List.mem_map.mp hpiece
    exact trimmed_text (h item hitem)
  have hsplit : ([','].intercalate (items.map OrderItem.text)).splitOn ',' =
      items.map OrderItem.text := by
    refine List.splitOn_intercalate _ (fun piece hpiece => ?_) hne'
    obtain ⟨item, hitem, rfl⟩ := List.mem_map.mp hpiece
    exact comma_not_mem_text (h item hitem)
  rw [parseOrder, if_neg htrimmed.ne_nil, hsplit, mapM_parseOrderItem h]

section Numbers

theorem isNameChar_of_isDigit {c : Char} (h : isDigit c = true) : isNameChar c = true :=
  (by decide : ∀ c ∈ "0123456789".toList, isNameChar c = true) c (mem_digits h)

theorem isName_digits (n : Nat) : IsName (Json.digits n) where
  ne_nil := Json.digits_ne_nil n
  chars := fun c hc => isNameChar_of_isDigit (List.all_eq_true.mp (Json.all_isDigit_digits n) c hc)

theorem parseQueryNonNegativeInteger_digits {n : Nat} (h : n ≤ maxSafeInteger) (option : String) :
    parseQueryNonNegativeInteger (Json.digits n) option = .ok n := by
  have hall : (Json.digits n ≠ [] ∧ (Json.digits n).all isDigit ∧
      digitsValue (Json.digits n) ≤ maxSafeInteger) := by
    rw [digitsValue_digits]
    exact ⟨Json.digits_ne_nil n, Json.all_isDigit_digits n, h⟩
  unfold parseQueryNonNegativeInteger
  rw [(isName_digits n).trimmed.trimText, if_pos hall, digitsValue_digits]

theorem finiteNumber_digits {n : Nat} (h : n ≤ maxSafeInteger) :
    finiteNumber (Json.digits n) = some (n : Rat) := by
  have hspells : SpellsDecimal (Json.digits n) ⟨false, Json.digits n, [], 0⟩ := by
    have hintro : SpellsDecimal ((if false then ['-'] else []) ++ (Json.digits n ++
        ((if ([] : Text) = [] then [] else ['.']) ++ []))) ⟨false, Json.digits n, [], 0⟩ :=
      .intro (Json.digits_ne_nil n) (Json.all_isDigit_digits n) rfl .none
    simpa using hintro
  have hvalue : DecimalText.value ⟨false, Json.digits n, [], 0⟩ = (n : Rat) := by
    simp [DecimalText.value, digitsValue_digits]
  have hfinite : isFiniteNumber (n : Rat) = true := by
    rw [isFiniteNumber, decide_eq_true_eq, abs_of_nonneg (Nat.cast_nonneg n)]
    have hle : (n : Rat) ≤ (maxSafeInteger : Rat) := Nat.cast_le.mpr h
    have hexponent : 1024 = 970 + 54 := rfl
    have hpower : (1 : Rat) ≤ 2 ^ 970 := one_le_pow₀ one_le_two
    have hsafe : (maxSafeInteger : Rat) < 2 ^ 54 - 1 := by
      rw [maxSafeInteger]
      norm_num
    rw [hexponent, pow_add]
    generalize (2 : Rat) ^ 970 = power at hpower ⊢
    nlinarith only [hle, hpower, hsafe]
  have hread := finiteNumber_of_spells hspells (by rw [hvalue]; exact hfinite)
  rwa [hvalue] at hread

theorem parseLevels_digits {n : Nat} (hpositive : 1 ≤ n) (h : n ≤ maxSafeInteger) :
    parseLevels (Json.digits n) = .ok n := by
  have hmax : asciiLower (Json.digits n) ≠ "max".toList := by
    obtain ⟨c, rest, heq⟩ := List.exists_cons_of_ne_nil (Json.digits_ne_nil n)
    have hc : isDigit c = true :=
      List.all_eq_true.mp (Json.all_isDigit_digits n) c (heq ▸ List.mem_cons_self)
    have hdigits : ∀ c ∈ "0123456789".toList, c.toLower ≠ 'm' := by decide
    rw [heq]
    exact fun hlower => hdigits c (mem_digits hc) (List.cons.inj hlower).1
  have hone : (n : Rat).den = 1 ∧ 1 ≤ (n : Rat) := ⟨Rat.den_natCast n, by exact_mod_cast hpositive⟩
  unfold parseLevels
  rw [if_neg hmax, finiteNumber_digits h]
  dsimp only
  rw [if_pos hone, Rat.num_natCast, Int.toNat_natCast]

end Numbers

/-! ## Reading an option -/

section Options

variable {rt : Runtime} {options : ParseOptions}
  {parseIncludes : Text → Except FilterError (List Inclusion)}

theorem isName_of_mem_optionKeys {key : String} (h : key ∈ optionKeys) : IsName key.toList where
  ne_nil := (by decide : ∀ key ∈ optionKeys, key.toList ≠ []) key h
  chars := (by decide : ∀ key ∈ optionKeys, ∀ c ∈ key.toList, isNameChar c = true) key h

theorem trimmed_optionText {key : String} {value : Text} (hkey : key ∈ optionKeys)
    (hvalue : Trimmed value) : Trimmed (optionText key value) := by
  have h := (isName_of_mem_optionKeys hkey).trimmed.between hvalue ['=']
  rwa [List.append_assoc] at h

theorem isPiece_optionText {key : String} {value : Text} (hkey : key ∈ optionKeys)
    (hvalue : Trimmed value) (hclosed : Closed (some ';') value) :
    IsPiece ';' (optionText key value) where
  closed := by
    have hequals : Closed (some ';') ['='] := rfl
    exact ((isName_of_mem_optionKeys hkey).closed (Or.inr (Or.inr rfl))).append
      (hequals.append hclosed)
  trimmed := (trimmed_optionText hkey hvalue).trimText
  ne_nil := (trimmed_optionText hkey hvalue).ne_nil

theorem parseExpandOption_optionText {key : String} {value : Text} (hkey : key ∈ optionKeys)
    (hvalue : Trimmed value) (state : ExpandOptions) :
    parseExpandOption rt options parseIncludes state (optionText key value) =
      applyExpandOption rt options parseIncludes state key.toList value := by
  have hequals : '=' ∉ key.toList := (by decide : ∀ key ∈ optionKeys, '=' ∉ key.toList) key hkey
  have hlower : lowerKey key.toList = key.toList :=
    (by decide : ∀ key ∈ optionKeys, lowerKey key.toList = key.toList) key hkey
  have hall : ∀ c ∈ key.toList, decide (c ≠ '=') = true := by
    intro c hc
    rw [decide_eq_true_eq]
    rintro rfl
    exact hequals hc
  have htake : (optionText key value).takeWhile (fun c => decide (c ≠ '=')) = key.toList := by
    rw [optionText, List.takeWhile_append_of_pos hall]
    simp
  have hdrop : ((optionText key value).dropWhile (fun c => decide (c ≠ '='))).drop 1 = value := by
    rw [optionText, List.dropWhile_append_of_pos hall]
    simp
  have hmem : ¬ ('=' ∉ optionText key value) := by simp [optionText]
  have hwhole := trimmed_optionText hkey hvalue
  unfold parseExpandOption
  dsimp only
  rw [hwhole.trimText, if_neg hwhole.ne_nil, if_neg hmem, htake, hdrop,
    (isName_of_mem_optionKeys hkey).trimmed.trimText, hlower, hvalue.trimText,
    if_neg hvalue.ne_nil]

theorem trimmed_of_isNames {names : List Text} (hne : names ≠ [])
    (hnames : ∀ name ∈ names, IsName name) : Trimmed ([','].intercalate names) :=
  trimmed_intercalate hne fun name hname => (hnames name hname).trimmed

theorem trimmed_items {items : List OrderItem} (hne : items ≠ [])
    (hitems : ∀ item ∈ items, IsName item.field) :
    Trimmed ([','].intercalate (items.map OrderItem.text)) := by
  refine trimmed_intercalate (fun hnil => hne (List.map_eq_nil_iff.mp hnil)) fun piece hpiece => ?_
  obtain ⟨item, hitem, rfl⟩ := List.mem_map.mp hpiece
  exact trimmed_text (hitems item hitem)

theorem isPiece_of_spells {o : NodeOption} {text : Text} (h : SpellsOption rt options o text) :
    IsPiece ';' text := by
  have hcomma : isPlain (some ';') ',' = true := by decide
  have hdelimiter : IsDelimiter (some ';') := Or.inr (Or.inr rfl)
  cases h with
  | select hne hnames =>
    refine isPiece_optionText (by decide) (trimmed_of_isNames hne hnames) ?_
    exact closed_intercalate hcomma fun name hname => (hnames name hname).closed hdelimiter
  | filter htrimmed hclosed _ => exact isPiece_optionText (by decide) htrimmed hclosed
  | orderby hne hitems =>
    refine isPiece_optionText (by decide) (trimmed_items hne hitems)
      (closed_intercalate hcomma fun piece hpiece => ?_)
    obtain ⟨item, hitem, rfl⟩ := List.mem_map.mp hpiece
    exact closed_text (hitems item hitem)
  | @top limit hlimit =>
    exact isPiece_optionText (by decide) (isName_digits limit).trimmed
      ((isName_digits limit).closed hdelimiter)
  | @skip offset hoffset =>
    exact isPiece_optionText (by decide) (isName_digits offset).trimmed
      ((isName_digits offset).closed hdelimiter)

theorem trimmed_of_spells {o : NodeOption} {text : Text} (h : SpellsOption rt options o text) :
    Trimmed text := by
  cases h with
  | select hne hnames => exact trimmed_optionText (by decide) (trimmed_of_isNames hne hnames)
  | filter htrimmed _ _ => exact trimmed_optionText (by decide) htrimmed
  | orderby hne hitems => exact trimmed_optionText (by decide) (trimmed_items hne hitems)
  | @top limit _ => exact trimmed_optionText (by decide) (isName_digits limit).trimmed
  | @skip offset _ => exact trimmed_optionText (by decide) (isName_digits offset).trimmed

/-- An option is merged into the scope and changes nothing else. -/
theorem parseExpandOption_of_spells {o : NodeOption} {text : Text}
    (h : SpellsOption rt options o text) :
    ∃ added : ScopeOptions, Fits (.mk added []) [o] ∧ ∀ parseIncludes state,
      parseExpandOption rt options parseIncludes state text =
        .ok { state with scope := mergeScopes state.scope (.mk added []) } := by
  cases h with
  | @select names hne hnames =>
    refine ⟨{ fields := some (names.foldl projectRelationField []) },
      ⟨.some ⟨fun name hname => ?_, fun name hname => ?_⟩, rfl, rfl, rfl, rfl⟩,
      fun parseIncludes state => ?_⟩
    · exact (mem_foldl_projectRelationField _ _ _).mpr (Or.inr hname)
    · exact ((mem_foldl_projectRelationField _ _ _).mp hname).elim nofun Or.inl
    · rw [parseExpandOption_optionText (by decide) (trimmed_of_isNames hne hnames),
        applyExpandOption, if_pos rfl, parseSelect_intercalate hne hnames]
  | @filter text clause htrimmed hclosed hclause =>
    refine ⟨{ whereClause := some clause }, ⟨.none, rfl, rfl, rfl, rfl⟩,
      fun parseIncludes state => ?_⟩
    rw [parseExpandOption_optionText (by decide) htrimmed, applyExpandOption, if_neg (by decide),
      if_neg (by decide), if_pos rfl, hclause]
    rfl
  | @orderby items hne hitems =>
    refine ⟨{ order := some (items.map OrderItem.clause) }, ⟨.none, rfl, rfl, rfl, rfl⟩,
      fun parseIncludes state => ?_⟩
    have hempty : (items.map OrderItem.clause).isEmpty = false := by
      rw [List.isEmpty_map]
      exact List.isEmpty_eq_false_iff.mpr hne
    rw [parseExpandOption_optionText (by decide) (trimmed_items hne hitems), applyExpandOption,
      if_neg (by decide), if_neg (by decide), if_neg (by decide), if_pos rfl,
      parseOrder_intercalate hne hitems]
    change (if (items.map OrderItem.clause).isEmpty then Except.ok state else .ok { state with
      scope := mergeScopes state.scope (.mk { order := some (items.map OrderItem.clause) } []) }) = _
    rw [hempty]
    rfl
  | @top limit hlimit =>
    refine ⟨{ limit := some limit }, ⟨.none, rfl, rfl, rfl, rfl⟩, fun parseIncludes state => ?_⟩
    rw [parseExpandOption_optionText (by decide) (isName_digits limit).trimmed, applyExpandOption,
      if_neg (by decide), if_neg (by decide), if_neg (by decide), if_neg (by decide), if_pos rfl,
      parseQueryNonNegativeInteger_digits hlimit]
    rfl
  | @skip offset hoffset =>
    refine ⟨{ offset := some offset }, ⟨.none, rfl, rfl, rfl, rfl⟩, fun parseIncludes state => ?_⟩
    rw [parseExpandOption_optionText (by decide) (isName_digits offset).trimmed, applyExpandOption,
      if_neg (by decide), if_neg (by decide), if_neg (by decide), if_neg (by decide),
      if_neg (by decide), if_pos rfl, parseQueryNonNegativeInteger_digits hoffset]
    rfl

end Options

end Expand

end LoopbackOData
