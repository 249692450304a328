import LoopbackOData.Apply.Ordering
import LoopbackOData.Apply.Window
import LoopbackOData.Expand.Parser
import LoopbackOData.Library.Pages
import LoopbackOData.Paging.Constraint
import LoopbackOData.Paging.NextLink

/-!
# The pages of a collection

`list` without `$apply` and without delta tracking, where the repository evaluates the filter: the
clause of the request and the constraint of its skip token go to the repository, and what comes back
is sorted again and cut. Following the next links reads every row that meets the filter once, in the
order of the request.
-/

namespace LoopbackOData

open Outcome ListRelations Pages

open Apply (PaginationLimits TokenRuntime clamp orderBy orderResults orderValues originalTop
  resolvePageSize)

open Expand (parseQueryNonNegativeInteger)

open Search (FieldClause rowTruth)

set_option autoImplicit false

/-! ## The repository -/

/-- The row meets the clause; every row meets none. -/
def Database.meets (db : Database) (clause : Option FieldClause) (row : Row) : Bool :=
  clause.all fun clause => clause.eval (rowTruth db row) = .true

/-- An unchanging table, and `repository.find` on it: the rows that meet a clause, arranged by the
descriptors, from an offset on and up to a limit. Rows that the descriptors do not tell apart come
in any order, another one each time. -/
structure Repository (db : Database) where
  rows : List Row
  find : Option FieldClause → List OrderDescriptor → Nat → Nat → List Row
  finds : ∀ clause order offset limit, ∃ found : List Row,
    found.Perm (rows.filter (db.meets clause)) ∧
      found.Pairwise (fun a b => db.compareRows order a b ≠ .gt) ∧
      find clause order offset limit = (found.drop offset).take limit

/-! ## The options of a request -/

/-- What a request with the clause of its `$filter` and its `$search` limits its rows to. -/
structure PageOptions where
  clause : Option FieldClause
  top : Option Nat
  skip : Option Nat

/-- A paging option of the query. -/
def wholeNumber (option : String) : Option Text → Except HttpError (Option Nat)
  | none => .ok none
  | some raw =>
    match parseQueryNonNegativeInteger raw option with
    | .ok n => .ok (some n)
    | .error _ => badRequest ("Invalid " ++ option ++ " value: " ++ String.ofList raw)

/-- The checks of `maxTop` and, in `enforceSkipLimit`, of `maxSkip`: strict servers refuse what the
others cut down. -/
def enforceLimits (limits : PaginationLimits) (options : PageOptions) :
    Except HttpError PageOptions :=
  if limits.strict then
    if options.top.any fun top => limits.maxTop.any (· < top) then
      badRequest ("The $top value (" ++ toString (options.top.getD 0) ++
        ") exceeds the maximum allowed (" ++ toString (limits.maxTop.getD 0) ++ ").")
    else if options.skip.any fun skip => limits.maxSkip.any (· < skip) then
      badRequest ("$skip exceeds maximum allowed (" ++ toString (limits.maxSkip.getD 0) ++ ").")
    else .ok options
  else
    .ok { options with
      top := originalTop limits ⟨[], options.skip, options.top⟩
      skip := options.skip.map (clamp · limits.maxSkip) }

/-- The controller of an entity set that delta tracking is off for, and its repository. -/
structure Listing (db : Database) where
  server : Server
  config : Config
  model : EntityModel
  tokens : TokenRuntime
  types : Text → PropertyType
  limits : PaginationLimits
  appendKeysForClientPaging : Bool
  /-- The `where` clause of the texts of `$filter` and `$search`. -/
  whereOf : Option Text → Option Text → Except HttpError (Option FieldClause)
  repository : Repository db
  runtime : server.rt = tokens.toRuntime
  noDelta : model.deltaField = none
  singleKey : ∀ filter search clause, whereOf filter search = .ok (some clause) → clause.SingleKey

namespace Listing

variable {db : Database} (listing : Listing db)

def options (query : Query) : Except HttpError PageOptions := do
  let clause ← listing.whereOf (← query.single "$filter".toList) (← query.single "$search".toList)
  let top ← wholeNumber "$top" (← query.single "$top".toList)
  let skip ← wholeNumber "$skip" (← query.single skipKey)
  enforceLimits listing.limits ⟨clause, top, skip⟩

/-- The constraint that the values of a skip token put on the rows. -/
def constraint (descriptors : List OrderDescriptor) :
    Option (List Text) → Except HttpError (Option FieldClause)
  | none => .ok none
  | some raws => buildSkipTokenConstraint listing.tokens listing.types descriptors raws

/-- The order of a page that the client asked for by `$skip` and `$top`, as
`ensureManualSkipOrderDeterminism` leaves it. -/
def manualOrder (query : Query) (descriptors : List OrderDescriptor) :
    Except HttpError (List OrderDescriptor) := do
  if listing.appendKeysForClientPaging ∧ listing.model.idProperties ≠ [] then return descriptors
  else clauseDescriptors [] (← requestOrder query)

def pageSize (options : PageOptions) : Nat :=
  resolvePageSize listing.limits listing.limits.maxPageSize options.top

/-- `list`: one row more than a page holds is asked for. -/
def list (request : Request) (now : Int) (nonce : Text) :
    Except HttpError (List Row × Option Link) := do
  let options ← listing.options request.query
  let (descriptors, raws) ←
    listing.server.readSkipToken listing.config listing.model request now
  let size := listing.pageSize options
  let offset := options.skip.getD 0
  if manualPagingRequested request.query then
    let order ← listing.manualOrder request.query descriptors
    let results := listing.repository.find options.clause order offset size
    return (orderResults listing.tokens results order, none)
  else
    let constraint ← listing.constraint descriptors raws
    let clause := combineWithAnd [options.clause, constraint]
    let results := listing.repository.find clause descriptors offset (size + 1)
    let (items, token) ← listing.server.applyServerDrivenPaging listing.config request now nonce
      (orderResults listing.tokens results descriptors) descriptors size
    return (items, token.map (buildNextLink request))

/-! ## Following the links -/

/-- The answer to the first request or to the link with the number of its page. -/
def page (first : Request) (times : Nat → Int) (nonces : Nat → Text)
    (link : Option (Nat × Link)) : Except HttpError (List Row × Option (Nat × Link)) := do
  let n := (link.map Prod.fst).getD 0
  let request := link.elim first fun link => listing.server.follow link.2
  let (items, next) ← listing.list request (times n) (nonces n)
  return (items, next.map (n + 1, ·))

end Listing

/-! ## The requests of the links -/

/-- A link carries every parameter, and the link of the link does: a list of one empty text would
come back as an empty text, which the next link leaves out. -/
def Query.Lasting (query : Query) : Prop :=
  query.Kept ∧ ∀ entry ∈ query.entries, entry.2 ≠ .list [.text []]

section Links

variable {query : Query}

theorem Query.Lasting.kept_linkQuery (h : query.Lasting) (token : Text) :
    (linkQuery query token).Kept := by
  intro entry hentry hskip
  rw [entries_linkQuery] at hentry
  rcases List.mem_append.mp hentry with hentry | hentry
  · obtain ⟨block, hblock, rfl⟩ := List.mem_map.mp hentry
    obtain ⟨hkey, hne, value, hmem, hvalues⟩ := mem_linkBlocks hblock
    have hkept := h.1 _ hmem hkey
    have hlone := h.2 _ hmem
    dsimp only at hkept hlone ⊢
    cases value with
    | text s =>
      have hs : linkValues (.text s) = [s] := by
        rw [hkept.values, canonicalValues, QueryValue.canonicalize]
        simp
      rw [← hvalues, hs]
      exact hkept
    | list entries =>
      obtain ⟨values, rfl⟩ : ∃ values : List Text, entries = values.map .text := by
        clear hmem hvalues hlone
        induction entries with
        | nil => exact ⟨[], rfl⟩
        | cons entry entries ih =>
          obtain ⟨hentry, hentries⟩ := List.forall_mem_cons.mp hkept
          obtain ⟨s, rfl⟩ := hentry
          obtain ⟨values, rfl⟩ := ih hentries
          exact ⟨s :: values, rfl⟩
      have htexts : linkValues (.list (values.map .text)) = values := by
        rw [linkValues, List.map_map]
        conv_rhs => rw [← List.map_id values]
        apply List.map_congr_left
        intro s _
        simp [QueryValue.toText]
      rw [htexts] at hvalues
      subst hvalues
      rcases hv : block.2 with - | ⟨s, - | ⟨s', rest⟩⟩
      · exact absurd hv hne
      · rw [hv] at hlone
        intro hs
        subst hs
        exact hlone rfl
      · intro entry hentry
        obtain ⟨t, _, rfl⟩ := List.mem_map.mp hentry
        exact ⟨t, rfl⟩
    | object fields => exact absurd hkept id
  · rw [List.mem_singleton.mp hentry, isSkipParameter_skiptoken] at hskip
    cases hskip

/-- The links of a run carry the same parameters. -/
theorem Query.Lasting.params_linkQuery (h : query.Lasting) (token : Text) :
    linkParams (linkQuery query token).entries = linkParams query.entries := by
  rw [(h.kept_linkQuery token).params, contextParams_linkQuery]

theorem Query.Lasting.linkQuery_linkQuery (h : query.Lasting) (token token' : Text) :
    linkQuery (linkQuery query token) token' = linkQuery query token' := by
  rw [linkQuery, h.params_linkQuery]
  rfl

end Links

/-! ## The rows in order -/

namespace Listing

variable {db : Database}

/-- The database orders the values of the columns, and the memory orders them alike; every one is
read back from a token, and no two rows have one key. -/
structure Pageable (listing : Listing db) (descriptors : List OrderDescriptor) : Prop where
  orders : ∀ item ∈ descriptors,
    Std.TransCmp fun a b : { row // row ∈ listing.repository.rows } =>
      db.compare item.field (a.val item.field) (b.val item.field)
  agrees : ∀ item ∈ descriptors, ∀ a ∈ listing.repository.rows, ∀ b ∈ listing.repository.rows,
    orderValues listing.tokens (a item.field) (b item.field) =
      db.compare item.field (a item.field) (b item.field)
  resumable : ∀ item ∈ descriptors, ∀ row ∈ listing.repository.rows,
    Resumable listing.server listing.tokens listing.types item.field (row item.field)
  keys : listing.repository.rows.Pairwise fun a b =>
    ∃ id ∈ listing.model.idProperties, id ≠ [] ∧ db.compare id (a id) (b id) ≠ .eq

section Order

variable {listing : Listing db} {descriptors : List OrderDescriptor} {a b : Row}

theorem Pageable.compareRows_eq (h : listing.Pageable descriptors)
    (ha : a ∈ listing.repository.rows) (hb : b ∈ listing.repository.rows) :
    db.compareRows descriptors a b = orderBy (orderValues listing.tokens) descriptors a b := by
  have hagrees := h.agrees
  clear h
  induction descriptors with
  | nil => rfl
  | cons item rest ih =>
    obtain ⟨hitem, hrest⟩ := List.forall_mem_cons.mp hagrees
    rw [Database.compareRows, orderBy, hitem a ha b hb, ih hrest]

theorem Pageable.transCmp (h : listing.Pageable descriptors) :
    Std.TransCmp fun a b : { row // row ∈ listing.repository.rows } =>
      orderBy (orderValues listing.tokens) descriptors a.val b.val := by
  apply Apply.transCmp_orderBy
  intro item hitem
  have hsame : (fun a b : { row // row ∈ listing.repository.rows } =>
      orderValues listing.tokens (a.val item.field) (b.val item.field)) =
        fun a b => db.compare item.field (a.val item.field) (b.val item.field) := by
    funext a b
    exact h.agrees item hitem a.val a.property b.val b.property
  rw [hsame]
  exact h.orders item hitem

theorem Pageable.oriented (h : listing.Pageable descriptors) :
    ∀ a ∈ listing.repository.rows, ∀ b ∈ listing.repository.rows,
      db.compareRows descriptors b a = (db.compareRows descriptors a b).swap := by
  intro a ha b hb
  rw [h.compareRows_eq ha hb, h.compareRows_eq hb ha]
  exact h.transCmp.eq_swap (a := ⟨b, hb⟩) (b := ⟨a, ha⟩)

theorem compare_eq_of_compareRows (h : db.compareRows descriptors a b = .eq)
    {item : OrderDescriptor} (hitem : item ∈ descriptors) :
    db.compare item.field (a item.field) (b item.field) = .eq := by
  induction descriptors with
  | nil => cases hitem
  | cons first rest ih =>
    rw [Database.compareRows, Ordering.then_eq_eq, Apply.directed_eq_iff] at h
    rcases List.mem_cons.mp hitem with rfl | hitem
    · exact h.1
    · exact ih h.2 hitem

theorem mem_keyDescriptors {ids : List Text} (seen : List OrderDescriptor) {id : Text}
    (h : id ∈ seen.map (·.field) ∨ id ∈ ids ∧ id ≠ []) :
    id ∈ (keyDescriptors seen ids).map (·.field) := by
  induction ids generalizing seen with
  | nil =>
    rcases h with h | ⟨h, -⟩
    · exact h
    · cases h
  | cons first ids ih =>
    rw [keyDescriptors]
    split
    · next hdrop =>
      apply ih
      rcases h with h | ⟨h, hne⟩
      · exact Or.inl h
      · rcases List.mem_cons.mp h with rfl | h
        · exact Or.inl (hdrop.resolve_left hne)
        · exact Or.inr ⟨h, hne⟩
    · apply ih
      rw [List.map_append, List.mem_append]
      rcases h with h | ⟨h, hne⟩
      · exact Or.inl (Or.inl h)
      · rcases List.mem_cons.mp h with rfl | h
        · exact Or.inl (Or.inr List.mem_cons_self)
        · exact Or.inr ⟨h, hne⟩

/-- Every key property is a descriptor. -/
theorem exists_descriptor_of_key {model : EntityModel} {query : Query}
    (h : requestDescriptors model query = .ok descriptors) {id : Text}
    (hid : id ∈ model.idProperties) (hne : id ≠ []) : ∃ item ∈ descriptors, item.field = id := by
  obtain ⟨order, -, h⟩ := bind_eq_ok.mp h
  obtain ⟨-, -, h⟩ := bind_eq_ok.mp h
  obtain ⟨clauses, -, h⟩ := bind_eq_ok.mp h
  have hmem := mem_keyDescriptors clauses (Or.inr ⟨hid, hne⟩)
  dsimp only at h
  split at h
  · next hnil =>
    rw [hnil] at hmem
    cases hmem
  · cases h
    exact List.mem_map.mp hmem

theorem Pageable.apart (h : listing.Pageable descriptors) {query : Query}
    (hdescriptors : requestDescriptors listing.model query = .ok descriptors) :
    listing.repository.rows.Pairwise fun a b => db.compareRows descriptors a b ≠ .eq := by
  refine h.keys.imp fun {a b} hkey heq => ?_
  obtain ⟨id, hid, hne, hdiffers⟩ := hkey
  obtain ⟨item, hitem, rfl⟩ := exists_descriptor_of_key hdescriptors hid hne
  exact hdiffers (compare_eq_of_compareRows heq hitem)

/-- What the repository has sorted is left as it is. -/
theorem Pageable.orderResults_eq (h : listing.Pageable descriptors) {rows : List Row}
    (hmem : ∀ row ∈ rows, row ∈ listing.repository.rows)
    (hsorted : rows.Pairwise fun a b => db.compareRows descriptors a b ≠ .gt) :
    orderResults listing.tokens rows descriptors = rows := by
  apply List.mergeSort_of_pairwise
  refine hsorted.imp_of_mem fun {a b} ha hb hab => ?_
  rw [← h.compareRows_eq (hmem a ha) (hmem b hb)]
  simpa using hab

end Order

end Listing

/-! ## The token of a page -/

section Tokens

variable {server : Server} {config : Config} {model : EntityModel} {first : Request} {last : Row}
  {now later : Int} {nonce : Text} {descriptors : List OrderDescriptor} {raws : List Text}

/-- The request of a link behind the first one. -/
def Request.behind (first : Request) (token : Text) : Request :=
  ⟨first.path, linkQuery first.query token⟩

theorem follow_buildNextLink {request : Request} {token : Text}
    (hpath : request.path = first.path)
    (hparams : linkParams request.query.entries = linkParams first.query.entries)
    (hparse : server.parseQuery (buildNextLink first token).params =
      .ofPairs (buildNextLink first token).params) :
    server.follow (buildNextLink request token) = first.behind token := by
  have hlink : (buildNextLink request token).params = (buildNextLink first token).params := by
    rw [buildNextLink_params, buildNextLink_params, hparams]
  rw [Server.follow, hlink, hparse, buildNextLink_params]
  exact congrArg (Request.mk · _) hpath

/-- Tokens of requests with the same parameters are the same. -/
theorem createSkipToken_congr {request : Request} (hpath : request.path = first.path)
    (hparams : contextParams request.query = contextParams first.query) :
    server.createSkipToken config request now nonce last descriptors =
      server.createSkipToken config first now nonce last descriptors := by
  have hcontext : server.buildSkipTokenContext request = server.buildSkipTokenContext first := by
    rw [Server.buildSkipTokenContext, Server.buildSkipTokenContext, hpath, hparams]
  have hpayload (values : List Text) : server.skipTokenPayload request descriptors values =
      server.skipTokenPayload first descriptors values := by
    rw [Server.skipTokenPayload, Server.skipTokenPayload, hcontext]
  have hsign (values : List Text) :
      server.signSkipTokenValues config request now nonce values descriptors =
        server.signSkipTokenValues config first now nonce values descriptors := by
    rw [Server.signSkipTokenValues, Server.signSkipTokenValues, hpayload]
  simp only [Server.createSkipToken, hsign]

theorem createSkipToken_ok (hsecret : config.tokenSecret ≠ []) (hne : descriptors ≠ [])
    (hraws : server.skipTokenValues last descriptors = .ok (some raws))
    (hlength : raws.length = descriptors.length) :
    server.createSkipToken config first now nonce last descriptors =
      .ok (some (signSkipToken server.hmac (server.skipTokenPayload first descriptors raws)
        (Server.tokenOptions config) now nonce)) := by
  have hvalues : raws ≠ [] := by
    rintro rfl
    exact hne (List.length_eq_zero_iff.mp hlength.symm)
  have hoptions : buildSkipTokenOptions config = .ok (Server.tokenOptions config) := if_neg hsecret
  rw [Server.createSkipToken, if_neg hne, hraws]
  simp only [bind, Except.bind]
  rw [Server.signSkipTokenValues, if_neg (by tauto), if_neg (not_not_intro hlength), hoptions]
  rfl

/-- The values of a token that the server signed. -/
theorem decodeSkipTokenValues_signed {request : Request} {payload : SkipTokenPayload}
    (hsecret : config.tokenSecret ≠ [])
    (hlater : ∀ ttlMs ∈ (Server.tokenOptions config).ttlMs, later ≤ now + ttlMs)
    (hsize : (envelopeBytes (signedEnvelope server.hmac skipTokenType payload.toJson
      (Server.tokenOptions config) now nonce)).length ≤ maxTokenEnvelopeBytes)
    (hdescriptor : payload.descriptor = buildSkipTokenDescriptorKey descriptors)
    (hcontext : payload.context = server.buildSkipTokenContext request)
    (hlength : payload.values.length = descriptors.length) :
    server.decodeSkipTokenValues config request later
      (signSkipToken server.hmac payload (Server.tokenOptions config) now nonce) descriptors =
        .ok payload.values := by
  have hoptions : buildSkipTokenOptions config = .ok (Server.tokenOptions config) := if_neg hsecret
  have hverify := @verifySkipToken_signSkipToken server.hmac payload (Server.tokenOptions config)
    now later nonce hsecret hlater (buildSkipTokenDescriptorKey descriptors)
    (server.buildSkipTokenContext request) (payload.values.map .str)
  rw [Server.decodeSkipTokenValues, hoptions]
  simp only [bind, Except.bind]
  rw [hverify.mpr ⟨hsize, hdescriptor, hcontext, rfl⟩]
  dsimp only
  rw [if_neg (by rw [List.length_map]; exact not_not_intro hlength), List.map_map]
  have htexts : Server.tokenValue ∘ Json.Value.str = id := by
    funext s
    rfl
  rw [htexts, List.map_id]

/-- The link behind a row comes back with the values of the row. -/
theorem readSkipToken_behind (hdescriptors : requestDescriptors model first.query = .ok descriptors)
    (hdelta : model.deltaField = none) (hkept : first.query.Kept)
    (hsecret : config.tokenSecret ≠ []) (hne : descriptors ≠ [])
    (hraws : server.skipTokenValues last descriptors = .ok (some raws))
    (hlength : raws.length = descriptors.length)
    (hfits : server.TokenFits config model first now nonce last)
    (hlater : ∀ ttlMs ∈ (Server.tokenOptions config).ttlMs, later ≤ now + ttlMs) {token : Text}
    (htoken : server.createSkipToken config first now nonce last descriptors =
      .ok (some token)) :
    server.readSkipToken config model (first.behind token) later =
      .ok (descriptors, some raws) := by
  rw [createSkipToken_ok hsecret hne hraws hlength] at htoken
  obtain rfl := Option.some.inj (Except.ok.inj htoken)
  have hpresent : signSkipToken server.hmac (server.skipTokenPayload first descriptors raws)
      (Server.tokenOptions config) now nonce ≠ [] := by
    simp [signSkipToken, signToken, encodeEnvelope]
  have hsize := hfits descriptors raws hdescriptors
  rw [hdelta] at hsize
  have hread : skipTokenOf (linkQuery first.query (signSkipToken server.hmac
      (server.skipTokenPayload first descriptors raws) (Server.tokenOptions config) now nonce)) =
        .ok (some (signSkipToken server.hmac (server.skipTokenPayload first descriptors raws)
          (Server.tokenOptions config) now nonce)) := by
    rw [skipTokenOf, Query.single, get_linkQuery_token]
    simp [bind, Except.bind, pure, Except.pure, hpresent, Option.filter]
  rw [Request.behind]
  refine bind_eq_ok.mpr ⟨_, hread, ?_⟩
  refine bind_eq_ok.mpr ⟨_, requestDescriptors_linkQuery _ hkept hdescriptors, ?_⟩
  dsimp only
  rw [get_linkQuery_skip, if_neg (by simp)]
  refine bind_eq_ok.mpr ⟨_, decodeSkipTokenValues_signed hsecret hlater (hsize hraws) rfl ?_
    hlength, rfl⟩
  rw [Server.skipTokenPayload, Server.buildSkipTokenContext, Server.buildSkipTokenContext,
    contextParams_linkQuery, hkept.params]

end Tokens

/-! ## One page -/

section Pages

variable {db : Database}

theorem combineWithAnd_none {γ : Type} (base : Option (Clause γ)) :
    combineWithAnd [base, none] = base := by
  cases base <;> rfl

theorem meets_combineWithAnd {base : Option FieldClause} {clause : FieldClause} {row : Row}
    (hbase : ∀ part ∈ base, part.SingleKey) (hclause : clause.SingleKey) :
    db.meets (combineWithAnd [base, some clause]) row = true ↔
      db.meets base row = true ∧ clause.Holds (rowTruth db row) := by
  cases base with
  | none =>
    have hone : combineWithAnd [none, some clause] = some clause := rfl
    rw [hone]
    simp [Database.meets, Clause.Holds]
  | some base =>
    have hparts : ∀ part ∈ [base, clause], part.SingleKey := by
      rw [List.forall_mem_cons, List.forall_mem_singleton]
      exact ⟨hbase base rfl, hclause⟩
    obtain ⟨both, hboth, -, hholds⟩ :=
      combineWithAnd_map_some (rowTruth db row) (List.cons_ne_nil base [clause]) hparts
    have hpair : combineWithAnd [some base, some clause] = some both := hboth
    rw [List.forall_mem_cons, List.forall_mem_singleton] at hholds
    rw [hpair]
    simpa [Database.meets, Clause.Holds] using hholds

section ServerDriven

variable {server : Server} {config : Config} {request : Request} {now : Int} {nonce : Text}
  {descriptors : List OrderDescriptor} {size : Nat}

theorem applyServerDrivenPaging_all {data : List Row} (h : data.length ≤ size) :
    server.applyServerDrivenPaging config request now nonce (data.take (size + 1)) descriptors
      size = .ok (data, none) := by
  rw [List.take_of_length_le (by omega), Server.applyServerDrivenPaging, if_pos (Or.inr h)]
  rfl

theorem applyServerDrivenPaging_page {before rest : List Row} {last : Row} {token : Text}
    (hsize : before.length + 1 = size) (hrest : rest ≠ [])
    (htoken : server.createSkipToken config request now nonce last descriptors =
      .ok (some token)) :
    server.applyServerDrivenPaging config request now nonce
      ((before ++ last :: rest).take (size + 1)) descriptors size =
        .ok (before ++ [last], some token) := by
  have hpage : ((before ++ last :: rest).take (size + 1)).take size = before ++ [last] := by
    rw [List.take_take, Nat.min_eq_left (Nat.le_succ size), ← hsize, List.take_length_add_append]
    rfl
  have hpos : 0 < rest.length := List.length_pos_iff.mpr hrest
  have hlong : ¬ (size = 0 ∨ ((before ++ last :: rest).take (size + 1)).length ≤ size) := by
    rw [List.length_take, List.length_append, List.length_cons]
    omega
  have hlast : (before ++ [last]).getLast? = some last := List.getLast?_concat
  rw [Server.applyServerDrivenPaging, if_neg hlong, hpage]
  dsimp only
  rw [hlast]
  dsimp only
  rw [htoken]
  rfl

end ServerDriven

namespace Listing

variable {listing : Listing db} {request : Request} {now : Int}
  {descriptors : List OrderDescriptor} {options : PageOptions}

theorem singleKey_options {query : Query} (h : listing.options query = .ok options) :
    ∀ clause ∈ options.clause, clause.SingleKey := by
  obtain ⟨filter, -, h⟩ := bind_eq_ok.mp h
  obtain ⟨search, -, h⟩ := bind_eq_ok.mp h
  obtain ⟨clause, hclause, h⟩ := bind_eq_ok.mp h
  obtain ⟨topText, -, h⟩ := bind_eq_ok.mp h
  obtain ⟨top, -, h⟩ := bind_eq_ok.mp h
  obtain ⟨skipText, -, h⟩ := bind_eq_ok.mp h
  obtain ⟨skip, -, h⟩ := bind_eq_ok.mp h
  have hsame : options.clause = clause := by
    unfold enforceLimits at h
    split at h
    · split at h
      · cases h
      · split at h
        · cases h
        · cases h
          rfl
    · cases h
      rfl
  intro clause' hmem
  rw [hsame] at hmem
  exact listing.singleKey _ _ _ (hclause.trans (congrArg Except.ok hmem))

/-- A link has the options of the first request but its `$skip`. -/
theorem options_behind {first : Request} (hkept : first.query.Kept)
    (h : listing.options first.query = .ok options) (token : Text) :
    listing.options (first.behind token).query = .ok { options with skip := none } := by
  obtain ⟨filter, hfilter, h⟩ := bind_eq_ok.mp h
  obtain ⟨search, hsearch, h⟩ := bind_eq_ok.mp h
  obtain ⟨clause, hclause, h⟩ := bind_eq_ok.mp h
  obtain ⟨topText, htopText, h⟩ := bind_eq_ok.mp h
  obtain ⟨top, htop, h⟩ := bind_eq_ok.mp h
  obtain ⟨skipText, -, h⟩ := bind_eq_ok.mp h
  obtain ⟨skip, -, h⟩ := bind_eq_ok.mp h
  have hskip : (first.behind token).query.single skipKey = .ok none := by
    rw [Query.single, Request.behind, get_linkQuery_skip]
  refine bind_eq_ok.mpr ⟨filter, single_linkQuery token hkept (by decide) hfilter, ?_⟩
  refine bind_eq_ok.mpr ⟨search, single_linkQuery token hkept (by decide) hsearch, ?_⟩
  refine bind_eq_ok.mpr ⟨clause, hclause, ?_⟩
  refine bind_eq_ok.mpr ⟨topText, single_linkQuery token hkept (by decide) htopText, ?_⟩
  refine bind_eq_ok.mpr ⟨top, htop, ?_⟩
  refine bind_eq_ok.mpr ⟨none, hskip, ?_⟩
  refine bind_eq_ok.mpr ⟨none, rfl, ?_⟩
  unfold enforceLimits at h ⊢
  split at h
  · split at h
    · cases h
    · split at h
      · cases h
      · next hstrict htop hskip =>
        cases h
        rw [if_pos hstrict, if_neg htop]
        rfl
  · next hstrict =>
    cases h
    rw [if_neg hstrict]
    rfl

/-- A page is cut from what the repository finds. -/
theorem list_eq (nonce : Text) (hrows : listing.Pageable descriptors) {raws : Option (List Text)}
    {clause : Option FieldClause} (hoptions : listing.options request.query = .ok options)
    (hread : listing.server.readSkipToken listing.config listing.model request now =
      .ok (descriptors, raws))
    (hmanual : manualPagingRequested request.query = false)
    (hclause : listing.constraint descriptors raws = .ok clause) :
    ∃ found : List Row, found.Perm
        (listing.repository.rows.filter (db.meets (combineWithAnd [options.clause, clause]))) ∧
      found.Pairwise (fun a b => db.compareRows descriptors a b ≠ .gt) ∧
      listing.list request now nonce =
        (listing.server.applyServerDrivenPaging listing.config request now nonce
          ((found.drop (options.skip.getD 0)).take (listing.pageSize options + 1)) descriptors
          (listing.pageSize options)).map fun page =>
            (page.1, page.2.map (buildNextLink request)) := by
  obtain ⟨found, hperm, hsorted, hfind⟩ := listing.repository.finds
    (combineWithAnd [options.clause, clause]) descriptors (options.skip.getD 0)
    (listing.pageSize options + 1)
  refine ⟨found, hperm, hsorted, ?_⟩
  have hsub : ((found.drop (options.skip.getD 0)).take (listing.pageSize options + 1)).Sublist
      found := (List.take_sublist _ _).trans (List.drop_sublist _ _)
  have hsame := hrows.orderResults_eq
    (fun row hrow => (List.mem_filter.mp (hperm.mem_iff.mp (hsub.subset hrow))).1)
    (hsorted.sublist hsub)
  rw [list, hoptions]
  simp only [bind, Except.bind]
  rw [hread]
  dsimp only
  rw [if_neg (by rw [hmanual]; exact Bool.false_ne_true), hclause]
  dsimp only
  rw [hfind, hsame]
  cases listing.server.applyServerDrivenPaging listing.config request now nonce
    ((found.drop (options.skip.getD 0)).take (listing.pageSize options + 1)) descriptors
    (listing.pageSize options) with
  | error e => rfl
  | ok page => rfl

end Listing

end Pages

/-! ## All pages -/

namespace Listing

variable {db : Database}

/-- A first request whose links the server answers: none of its tokens is too large or expired when
it comes back, and the query parser reads a link as it was written. -/
structure Followable (listing : Listing db) (first : Request) (times : Nat → Int)
    (nonces : Nat → Text) (descriptors : List OrderDescriptor) (options : PageOptions) : Prop where
  options : listing.options first.query = .ok options
  descriptors : requestDescriptors listing.model first.query = .ok descriptors
  fresh : first.query.get skipTokenKey = none
  serverDriven : manualPagingRequested first.query = false
  lasting : first.query.Lasting
  parsed : ∀ token, listing.server.parseQuery (buildNextLink first token).params =
    .ofPairs (buildNextLink first token).params
  secret : listing.config.tokenSecret ≠ []
  inTime : ∀ n, ∀ ttlMs ∈ (Server.tokenOptions listing.config).ttlMs,
    times (n + 1) ≤ times n + ttlMs
  fits : ∀ row ∈ listing.repository.rows, ∀ n,
    listing.server.TokenFits listing.config listing.model first (times n) (nonces n) row

section Run

variable {listing : Listing db} {first : Request} {times : Nat → Int} {nonces : Nat → Text}
  {descriptors : List OrderDescriptor} {options : PageOptions} {all data : List Row}

theorem requestDescriptors_ne_nil {model : EntityModel} {query : Query}
    (h : requestDescriptors model query = .ok descriptors) : descriptors ≠ [] := by
  obtain ⟨order, -, h⟩ := bind_eq_ok.mp h
  obtain ⟨-, -, h⟩ := bind_eq_ok.mp h
  obtain ⟨clauses, -, h⟩ := bind_eq_ok.mp h
  dsimp only at h
  split at h
  · cases h
    exact List.cons_ne_nil _ _
  · next hne =>
    cases h
    exact hne

/-- The rows in their order, each of them once. -/
structure Arrangement (listing : Listing db) (descriptors : List OrderDescriptor)
    (clause : Option FieldClause) (all : List Row) : Prop where
  perm : all.Perm (listing.repository.rows.filter (db.meets clause))
  sorted : all.Pairwise fun a b => db.compareRows descriptors a b = .lt

theorem Arrangement.mem_rows {clause : Option FieldClause}
    (h : listing.Arrangement descriptors clause all) {row : Row} (hrow : row ∈ all) :
    row ∈ listing.repository.rows :=
  (List.mem_filter.mp (h.perm.mem_iff.mp hrow)).1

/-- What a page of the run is cut from: the data behind the last row of the page before. -/
inductive Behind (listing : Listing db) (first : Request) (times : Nat → Int)
    (nonces : Nat → Text) (descriptors : List OrderDescriptor) (options : PageOptions)
    (all : List Row) : Option (Nat × Link) → List Row → Prop where
  | first : Behind listing first times nonces descriptors options all none
      (all.drop (options.skip.getD 0))
  | next {n : Nat} {before data : List Row} {last : Row} {token : Text} {link : Link}
      (hall : all = before ++ last :: data)
      (htoken : listing.server.createSkipToken listing.config first (times n) (nonces n) last
        descriptors = .ok (some token))
      (hlink : listing.server.follow link = first.behind token) :
      Behind listing first times nonces descriptors options all (some (n + 1, link)) data

/-- The answer of the page behind a link. -/
def answer (listing : Listing db) (request : Request) (now : Int) (nonce : Text)
    (descriptors : List OrderDescriptor) (size : Nat) (data : List Row) :
    Except HttpError (List Row × Option Link) :=
  (listing.server.applyServerDrivenPaging listing.config request now nonce (data.take (size + 1))
    descriptors size).map fun page => (page.1, page.2.map (buildNextLink request))

theorem list_first (hrun : listing.Followable first times nonces descriptors options)
    (hrows : listing.Pageable descriptors)
    (hall : listing.Arrangement descriptors options.clause all) :
    listing.list first (times 0) (nonces 0) =
      listing.answer first (times 0) (nonces 0) descriptors (listing.pageSize options)
        (all.drop (options.skip.getD 0)) := by
  have hread : listing.server.readSkipToken listing.config listing.model first (times 0) =
      .ok (descriptors, none) := by
    refine bind_eq_ok.mpr ⟨none, ?_, bind_eq_ok.mpr ⟨_, hrun.descriptors, rfl⟩⟩
    rw [skipTokenOf, Query.single, hrun.fresh]
    rfl
  obtain ⟨found, hperm, hsorted, hlist⟩ := list_eq (nonces 0) hrows hrun.options hread
    hrun.serverDriven rfl
  rw [combineWithAnd_none] at hperm
  have hsub := List.filter_sublist (p := db.meets options.clause) (l := listing.repository.rows)
  have hlt := pairwise_lt_of_perm
    (fun a ha b hb => hrows.oriented a (hsub.subset ha) b (hsub.subset hb))
    ((hrows.apart hrun.descriptors).sublist hsub) hperm hsorted
  have hsame : found = all := by
    refine eq_of_pairwise_lt ?_ hlt hall.sorted (hperm.trans hall.perm.symm)
    intro a ha b hb
    exact hrows.oriented a (hsub.subset (hperm.mem_iff.mp ha)) b
      (hsub.subset (hperm.mem_iff.mp hb))
  rw [hlist, hsame, answer]

/-- The rows that meet the clause and the constraint of the token are those behind its row. -/
theorem list_behind (hrun : listing.Followable first times nonces descriptors options)
    (hrows : listing.Pageable descriptors) {before : List Row} {last : Row} {n : Nat}
    (hall : listing.Arrangement descriptors options.clause (before ++ last :: data))
    {token : Text} (htoken : listing.server.createSkipToken listing.config first (times n)
      (nonces n) last descriptors = .ok (some token)) :
    listing.list (first.behind token) (times (n + 1)) (nonces (n + 1)) =
      listing.answer (first.behind token) (times (n + 1)) (nonces (n + 1)) descriptors
        (listing.pageSize options) data := by
  have hlast : last ∈ listing.repository.rows := hall.mem_rows (by simp)
  have hne := requestDescriptors_ne_nil hrun.descriptors
  obtain ⟨raws, clause, hraws, hlength, hconstraint, hkey, hholds⟩ :=
    @buildSkipTokenConstraint_holds listing.server listing.tokens listing.types db last descriptors
      hne fun item hitem => hrows.resumable item hitem last hlast
  have hread := readSkipToken_behind hrun.descriptors listing.noDelta hrun.lasting.1 hrun.secret
    hne hraws hlength (hrun.fits last hlast n) (hrun.inTime n) htoken
  have hmanual : manualPagingRequested (first.behind token).query = false := by
    rw [manualPagingRequested, Request.behind, get_linkQuery_skip]
    rfl
  obtain ⟨found, hperm, hsorted, hlist⟩ := list_eq (nonces (n + 1)) hrows
    (options_behind hrun.lasting.1 hrun.options token) hread hmanual hconstraint
  have hmeets : listing.repository.rows.filter
      (db.meets (combineWithAnd [options.clause, some clause])) =
        (listing.repository.rows.filter (db.meets options.clause)).filter
          fun row => db.compareRows descriptors row last = .gt := by
    rw [List.filter_filter]
    apply List.filter_congr
    intro row hrow
    have hpresent : Present descriptors row := fun item hitem =>
      (hrows.resumable item hitem row hrow).1
    rw [Bool.eq_iff_iff, meets_combineWithAnd (singleKey_options hrun.options) hkey,
      hholds row hpresent, Bool.and_eq_true, decide_eq_true_eq]
    exact and_comm
  have horiented : ∀ a ∈ before ++ last :: data, ∀ b ∈ before ++ last :: data,
      db.compareRows descriptors b a = (db.compareRows descriptors a b).swap := by
    intro a ha b hb
    exact hrows.oriented a (hall.mem_rows ha) b (hall.mem_rows hb)
  have hdata : found.Perm data := by
    have hfilter := hall.perm.filter fun row => db.compareRows descriptors row last = .gt
    rw [filter_gt_of_pairwise_lt horiented hall.sorted] at hfilter
    rw [hmeets] at hperm
    exact hperm.trans hfilter.symm
  have hbehind : data.Pairwise fun a b => db.compareRows descriptors a b = .lt :=
    (List.pairwise_cons.mp (List.pairwise_append.mp hall.sorted).2.1).2
  have hmem : ∀ row ∈ data, row ∈ before ++ last :: data := by
    intro row hrow
    simp [hrow]
  have hlt := pairwise_lt_of_perm
    (fun a ha b hb => horiented a (hmem a ha) b (hmem b hb))
    (hbehind.imp fun {a b} hab => by rw [hab]; exact Ordering.noConfusion) hdata hsorted
  have hsame : found = data := by
    refine eq_of_pairwise_lt ?_ hlt hbehind hdata
    intro a ha b hb
    exact horiented a (hmem a (hdata.mem_iff.mp ha)) b (hmem b (hdata.mem_iff.mp hb))
  rw [hlist, hsame, answer]
  rfl

theorem exists_suffix {link : Option (Nat × Link)}
    (h : Behind listing first times nonces descriptors options all link data) :
    ∃ before, all = before ++ data := by
  cases h with
  | first => exact ⟨all.take (options.skip.getD 0), (List.take_append_drop _ all).symm⟩
  | @next n before data last token link hall htoken hlink =>
    refine ⟨before ++ [last], ?_⟩
    rw [hall, List.append_assoc]
    rfl

theorem page_behind (hrun : listing.Followable first times nonces descriptors options)
    (hrows : listing.Pageable descriptors)
    (hall : listing.Arrangement descriptors options.clause all) {link : Option (Nat × Link)}
    (h : Behind listing first times nonces descriptors options all link data) :
    ∃ n request, request.path = first.path ∧
      linkParams request.query.entries = linkParams first.query.entries ∧
      contextParams request.query = contextParams first.query ∧
      listing.page first times nonces link =
        (listing.answer request (times n) (nonces n) descriptors (listing.pageSize options)
          data).map fun page => (page.1, page.2.map (n + 1, ·)) := by
  have hmap {α β ε : Type} (result : Except ε α) (f : α → β) :
      (do let a ← result; return f a) = result.map f := by
    cases result <;> rfl
  cases h with
  | first =>
    refine ⟨0, first, rfl, rfl, rfl, ?_⟩
    rw [← list_first hrun hrows hall]
    exact hmap (listing.list first (times 0) (nonces 0)) _
  | @next n before data last token link hsplit htoken hlink =>
    refine ⟨n + 1, first.behind token, rfl, hrun.lasting.params_linkQuery token, ?_, ?_⟩
    · rw [Request.behind, contextParams_linkQuery, hrun.lasting.1.params]
    · rw [hsplit] at hall
      rw [← list_behind hrun hrows hall htoken, ← hlink]
      exact hmap (listing.list (listing.server.follow link) (times (n + 1)) (nonces (n + 1))) _

end Run

end Listing

/-! ## A table that is sorted -/

section Sorting

variable {db : Database}

theorem transCmp_compareRows (h : ∀ field, Std.TransCmp (db.compare field))
    (order : List OrderDescriptor) : Std.TransCmp (db.compareRows order) := by
  induction order with
  | nil => exact { eq_swap := rfl, isLE_trans := fun _ _ => rfl }
  | cons item rest ih =>
    have hitem := h item.field
    have hfirst : Std.TransCmp fun a b : Row =>
        Apply.directed item.direction (db.compare item.field (a item.field) (b item.field)) := by
      cases item.direction with
      | asc => exact {
          eq_swap := fun {a b} => hitem.eq_swap
          isLE_trans := fun {a b c} => hitem.isLE_trans }
      | desc => exact {
          eq_swap := fun {a b} => congrArg Ordering.swap hitem.eq_swap
          isLE_trans := fun {a b c} hab hbc => by
            have hswap {x y : Scalar} : (db.compare item.field x y).swap =
              db.compare item.field y x := hitem.eq_swap.symm
            simp only [Apply.directed, hswap] at hab hbc ⊢
            exact hitem.isLE_trans hbc hab }
    exact @Std.instTransCmpCompareLex _ _ _ hfirst ih

/-- A table whose rows are sorted when they are read. -/
def Repository.ofRows (db : Database) (h : ∀ field, Std.TransCmp (db.compare field))
    (rows : List Row) : Repository db where
  rows := rows
  find clause order offset limit :=
    (((rows.filter (db.meets clause)).mergeSort fun a b =>
      db.compareRows order a b != .gt).drop offset).take limit
  finds clause order offset limit := by
    refine ⟨_, List.mergeSort_perm _ _, ?_, rfl⟩
    have horder := transCmp_compareRows h order
    have hle (result : Ordering) : (result != .gt) = result.isLE := by cases result <;> rfl
    refine (List.pairwise_mergeSort ?_ ?_ _).imp fun {a b} hab => by simpa using hab
    · intro a b c hab hbc
      rw [hle] at hab hbc ⊢
      exact horder.isLE_trans hab hbc
    · intro a b
      have hswap := horder.eq_swap (a := a) (b := b)
      cases hab : db.compareRows order b a <;> simp [hswap, hab]

end Sorting

/-! ## Two pages -/

def keyOf : Scalar → Rat
  | .num q => q
  | _ => 0

def keyedDatabase : Database where
  compare _ a b := compare (keyOf a) (keyOf b)
  matchesPattern _ _ _ := false

theorem transCmp_keyedDatabase (field : Text) : Std.TransCmp (keyedDatabase.compare field) where
  eq_swap := fun {a b} =>
    @Std.OrientedCmp.eq_swap Rat compare _ (keyOf a) (keyOf b)
  isLE_trans := fun {a b c} =>
    @Std.TransCmp.isLE_trans Rat compare _ (keyOf a) (keyOf b) (keyOf c)

theorem pos_of_noLimit : ∀ limit ∈ (none : Option Nat), 0 < limit := by simp

def keyedListing : Listing keyedDatabase where
  server := Server.sampleServer Server.countDigest
  config := Server.sampleConfig
  model := Server.sampleModel
  tokens := Apply.integerRuntime
  types _ := .number
  limits := {
    strict := false
    pageSize := 1
    maxTop := none
    maxSkip := none
    maxPageSize := none
    maxApplyPageSize := none
    maxTop_pos := pos_of_noLimit
    maxPageSize_pos := pos_of_noLimit
    maxApplyPageSize_pos := pos_of_noLimit }
  appendKeysForClientPaging := true
  whereOf _ _ := .ok none
  repository := .ofRows keyedDatabase transCmp_keyedDatabase
    [Server.sampleRow 2, Server.sampleRow 1]
  runtime := rfl
  noDelta := rfl
  singleKey := by
    intro filter search clause h
    cases h

theorem get_countQuery {key : Text} (h : key ≠ Server.countKey) :
    (Server.sampleRequest Server.countParams).query.get key = none := by
  rw [Query.get_eq_none, Server.sampleRequest, Server.countParams, Server.entries_ofPairs_single]
  simpa using h

theorem single_countQuery {key : Text} (h : key ≠ Server.countKey) :
    (Server.sampleRequest Server.countParams).query.single key = .ok none := by
  rw [Query.single, get_countQuery h]

theorem followable_keyedListing : keyedListing.Followable
    (Server.sampleRequest Server.countParams) (fun _ => 1700000000000)
    (fun _ => "AAAAAAAAAAAAAAAA".toList) [⟨Server.idKey, .asc⟩] ⟨none, none, none⟩ where
  options := by
    rw [Listing.options, single_countQuery (by decide), single_countQuery (by decide),
      single_countQuery (by decide), single_countQuery (by decide)]
    rfl
  descriptors := by
    rw [requestDescriptors, requestOrder, single_countQuery (by decide)]
    rfl
  fresh := get_countQuery (by decide)
  serverDriven := by
    rw [manualPagingRequested, get_countQuery (by decide)]
    rfl
  lasting := by
    refine ⟨?_, ?_⟩
    · rw [Query.Kept, Server.sampleRequest, Server.countParams, Server.entries_ofPairs_single]
      simp [QueryValue.Kept]
    · rw [Server.sampleRequest, Server.countParams, Server.entries_ofPairs_single]
      simp
  parsed _ := rfl
  secret := by decide
  inTime _ := by decide +kernel
  fits row hrow _ descriptors values hdescriptors hvalues := by
    have horder : requestDescriptors Server.sampleModel
        (Server.sampleRequest Server.countParams).query = .ok [⟨Server.idKey, .asc⟩] := by
      rw [requestDescriptors, requestOrder, single_countQuery (by decide)]
      rfl
    obtain rfl := Except.ok.inj (horder.symm.trans hdescriptors)
    have hid : row Server.idKey = .num 1 ∨ row Server.idKey = .num 2 := by
      rcases List.mem_cons.mp hrow with rfl | hrow
      · exact Or.inr rfl
      · rw [List.mem_singleton.mp hrow]
        exact Or.inl rfl
    have hvalue (raw : Text) (hraw : keyedListing.server.stringifySkipTokenValue
        (row Server.idKey) = .ok raw) (hne : row Server.idKey ≠ .undefined) : [raw] = values := by
      have htoken : keyedListing.server.skipTokenValues row [⟨Server.idKey, .asc⟩] =
          .ok (some [raw]) := by
        rw [Server.skipTokenValues, if_neg hne, hraw]
        rfl
      exact Option.some.inj (Except.ok.inj (htoken.symm.trans hvalues))
    have hcontext : keyedListing.server.buildSkipTokenContext
        (Server.sampleRequest Server.countParams) = "GET:/Items?%24count=true".toList :=
      Server.buildSkipTokenContext_count
    rw [Server.skipTokenEnvelope, Server.skipTokenPayload, hcontext]
    rcases hid with hid | hid
    · rw [← hvalue ['1'] (by rw [hid]; rfl) (by rw [hid]; exact Scalar.noConfusion)]
      decide +kernel
    · rw [← hvalue ['2'] (by rw [hid]; rfl) (by rw [hid]; exact Scalar.noConfusion)]
      decide +kernel

theorem pageable_keyedListing : keyedListing.Pageable [⟨Server.idKey, .asc⟩] where
  orders item _ := {
    eq_swap := (transCmp_keyedDatabase item.field).eq_swap
    isLE_trans := (transCmp_keyedDatabase item.field).isLE_trans }
  agrees item hitem a ha b hb := by
    have hnum (row : Row) (hrow : row ∈ keyedListing.repository.rows) :
        ∃ q, row Server.idKey = .num q := by
      rcases List.mem_cons.mp hrow with rfl | hrow
      · exact ⟨_, rfl⟩
      · rw [List.mem_singleton.mp hrow]
        exact ⟨_, rfl⟩
    rw [List.mem_singleton.mp hitem]
    obtain ⟨q, hq⟩ := hnum a ha
    obtain ⟨r, hr⟩ := hnum b hb
    dsimp only
    rw [hq, hr, orderValues]
    split
    · next heq =>
      cases heq
      exact (@Std.ReflCmp.compare_self Rat compare _ _).symm
    · rfl
  resumable item hitem row hrow := by
    rw [List.mem_singleton.mp hitem]
    rcases List.mem_cons.mp hrow with rfl | hrow
    · exact ⟨rfl, ['2'], rfl, by decide +kernel⟩
    · rw [List.mem_singleton.mp hrow]
      exact ⟨rfl, ['1'], rfl, by decide +kernel⟩
  keys := by
    have hapart : keyedDatabase.compare Server.idKey (Server.sampleRow 2 Server.idKey)
        (Server.sampleRow 1 Server.idKey) ≠ .eq := by decide +kernel
    refine List.pairwise_pair.mpr ⟨Server.idKey, List.mem_cons_self, by decide, hapart⟩

end LoopbackOData
