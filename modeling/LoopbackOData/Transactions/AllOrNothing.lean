import LoopbackOData.Batch.ServiceUrls
import LoopbackOData.Transactions.Requests

/-!
# Writes are all or nothing

A request outside of changesets commits one transaction that all of its writes carry, or nothing. A
request in a changeset leaves the transaction to that; whether its writes carry it depends on the
entity set of its controller.
-/

namespace LoopbackOData

namespace WriteTx

open Effect

set_option autoImplicit false

/-! ## The property -/

def Call.managesTransaction : Call → Bool
  | .beginTransaction _ => true
  | .commit _ => true
  | .rollback _ => true
  | _ => false

/-- A write has the transaction in its options. -/
def Call.Carries (transaction : Transaction) : Call → Prop
  | .write _ _ options => options = some transaction
  | _ => True

def Call.isWrite : Call → Bool
  | .write _ _ _ => true
  | _ => false

def Call.isCommit : Call → Bool
  | .commit _ => true
  | _ => false

def Call.isRollback : Call → Bool
  | .rollback _ => true
  | _ => false

/-- All writes of the request carried one transaction that the request began. It was committed
once, and never rolled back, if the request succeeded, and not committed if it failed. -/
structure KeepsOwnTransaction (outcome : Except Thrown PUnit) (events : List Event)
    (transaction : Transaction) : Prop where
  began : ∀ event ∈ events, event.call.isWrite → ⟨.beginTransaction transaction, true⟩ ∈ events
  carried : ∀ event ∈ events, event.call.Carries transaction
  committed : outcome = .ok ⟨⟩ →
    events.filter (·.call.isCommit) = [⟨.commit transaction, true⟩] ∧
      ∀ event ∈ events, event.call.isRollback = false
  failed : ∀ e, outcome = .error e →
    ∀ event ∈ events, event.call.isCommit → event.succeeded = false

/-- The request neither opened nor ended a transaction, and its writes carried the changeset's. -/
structure LeavesToChangeset (changeset : Changeset) (events : List Event) : Prop where
  unmanaged : ∀ event ∈ events, event.call.managesTransaction = false
  carried : ∀ event ∈ events, event.call.Carries changeset.transaction

structure AllOrNothing (changeset : Option Changeset) (outcome : Except Thrown PUnit)
    (s : RequestState) : Prop where
  closed : s.writeTx = none
  own : changeset = none → ∃ transaction, KeepsOwnTransaction outcome s.events transaction
  shared : ∀ c, changeset = some c → LeavesToChangeset c s.events

/-! ## The part inside of a transaction -/

section Inside

variable (controller : Controller) (env : Environment) (transaction : Transaction)

/-- The repositories of all entity sets are given the transaction. -/
def Provides (s : RequestState) : Prop :=
  ∀ entitySet, buildRepositoryOptions controller entitySet s = some transaction

/-- What a handler can do between two states: calls that leave the transaction to others and writes
that carry it. -/
structure Within (s s' : RequestState) : Prop where
  atomicity : s'.atomicity = s.atomicity
  writeTx : s'.writeTx = s.writeTx
  events : ∃ added, s'.events = added ++ s.events ∧
    ∀ event ∈ added, event.call.managesTransaction = false ∧ event.call.Carries transaction

variable {transaction}

theorem Within.refl (s : RequestState) : Within transaction s s := ⟨rfl, rfl, [], rfl, by simp⟩

theorem Within.trans (s t u : RequestState) (h : Within transaction s t)
    (h' : Within transaction t u) : Within transaction s u := by
  obtain ⟨added, heq, hadded⟩ := h.events
  obtain ⟨added', heq', hadded'⟩ := h'.events
  refine ⟨h'.atomicity.trans h.atomicity, h'.writeTx.trans h.writeTx, added' ++ added, ?_, ?_⟩
  · rw [heq', heq, List.append_assoc]
  · intro event hevent
    rcases List.mem_append.mp hevent with hmem | hmem
    · exact hadded' event hmem
    · exact hadded event hmem

theorem Provides.of_within (s s' : RequestState) (h : Within transaction s s')
    (hs : Provides controller transaction s) : Provides controller transaction s' := by
  intro entitySet
  rw [buildRepositoryOptions, h.atomicity, h.writeTx]
  exact hs entitySet

/-- A program that can run inside of the transaction. -/
def Inside (transaction : Transaction) {α : Type} (m : TxM α) : Prop :=
  Triple (Within transaction) (Provides controller transaction) m fun _ =>
    Provides controller transaction

variable {controller}

theorem inside_pure {α : Type} (a : α) : Inside controller transaction (pure a : TxM α) :=
  triple_pure Within.refl fun _ h => h

theorem inside_fail {α : Type} (e : Thrown) :
    Inside controller transaction (Effect.fail e : TxM α) := triple_fail Within.refl

theorem inside_get : Inside controller transaction (Effect.get : TxM RequestState) :=
  triple_get Within.refl fun _ h => h

theorem inside_bind {α β : Type} {m : TxM α} {f : α → TxM β}
    (hm : Inside controller transaction m) (hf : ∀ a, Inside controller transaction (f a)) :
    Inside controller transaction (m >>= f) :=
  triple_bind Within.trans hm hf

theorem inside_attempt {α : Type} {m : TxM α} (h : Inside controller transaction m) :
    Inside controller transaction (attempt m) :=
  triple_attempt (Provides.of_within controller) h

theorem inside_when {c : Prop} [Decidable c] {m : TxM PUnit}
    (h : Inside controller transaction m) : Inside controller transaction (Effect.when c m) :=
  triple_when Within.refl h

theorem inside_call {c : Call} (hmanages : c.managesTransaction = false)
    (hcarries : c.Carries transaction) : Inside controller transaction (call env c) := by
  intro s hs
  have hwithin (succeeded : Bool) :
      Within transaction s { s with events := ⟨c, succeeded⟩ :: s.events } :=
    ⟨rfl, rfl, [⟨c, succeeded⟩], rfl, by simpa using ⟨hmanages, hcarries⟩⟩
  unfold call
  cases env.throws s.events c with
  | none =>
    refine ⟨hwithin true, fun a s' hok => ?_⟩
    obtain ⟨_, rfl⟩ := Prod.mk.inj hok
    exact hs
  | some e => exact ⟨hwithin false, fun a s' hok => by cases (Prod.mk.inj hok).1⟩

theorem inside_read (entitySet : Text) (options : Option Transaction) :
    Inside controller transaction (call env (.read entitySet options)) :=
  inside_call env rfl trivial

theorem inside_step (what : String) : Inside controller transaction (step env what) :=
  inside_call env rfl trivial

theorem inside_write (method : String) (entitySet : Text) :
    Inside controller transaction (call env (.write method entitySet (some transaction))) :=
  inside_call env rfl rfl

theorem inside_ifHolds (what : String) {m m' : TxM PUnit} (h : Inside controller transaction m)
    (h' : Inside controller transaction m') :
    Inside controller transaction (ifHolds env what m m') := by
  intro s hs
  unfold ifHolds
  split
  · exact h s hs
  · exact h' s hs

theorem inside_whenHolds (what : String) {m : TxM PUnit} (h : Inside controller transaction m) :
    Inside controller transaction (whenHolds env what m) :=
  inside_ifHolds env what h (inside_pure _)

/-- The options that a handler asks for are the transaction. -/
theorem inside_options {α : Type} (entitySet : Text) {f : Option Transaction → TxM α}
    (h : Inside controller transaction (f (some transaction))) :
    Inside controller transaction (repositoryOptionsForEntitySet controller entitySet >>= f) := by
  intro s hs
  have hrun : (repositoryOptionsForEntitySet controller entitySet >>= f) s =
      f (some transaction) s := by
    rw [bind_apply, repositoryOptionsForEntitySet, hs entitySet]
  rw [hrun]
  exact h s hs

theorem inside_assertWriteDataSource (repoDs : Option DataSource) (hint : String) :
    Inside controller transaction (assertWriteDataSource controller repoDs hint) := by
  refine inside_bind inside_get fun s => ?_
  split
  · exact inside_fail _
  · split
    · exact inside_fail _
    · exact inside_pure _

theorem inside_assertCompositionWriteDataSource (repoDs : Option DataSource) (hint : String) :
    Inside controller transaction (assertCompositionWriteDataSource repoDs hint) := by
  refine inside_bind inside_get fun s => ?_
  split
  · exact inside_fail _
  · exact inside_pure _

theorem inside_runHooks (entitySet : Text) (stage : String) (n : Nat) :
    Inside controller transaction (runHooks env entitySet stage n) := by
  induction n with
  | zero => exact inside_pure _
  | succ n ih => exact inside_bind (inside_call env rfl trivial) fun _ => ih

theorem inside_onHook {next : TxM PUnit} (hnext : Inside controller transaction next)
    (hook : OnHook) : Inside controller transaction (hook.run next) := by
  induction hook with
  | finish thrown =>
    cases thrown with
    | none => exact inside_pure _
    | some e => exact inside_fail e
  | next rest ih =>
    intro s hs
    obtain ⟨hwithin, _⟩ := hnext s hs
    have hafter := Provides.of_within controller s _ hwithin hs
    rw [OnHook.run]
    dsimp only
    cases hrun : next s with
    | mk outcome s' =>
      rw [hrun] at hwithin hafter
      cases outcome with
      | ok a =>
        obtain ⟨hrest, hok⟩ := ih none s' hafter
        exact ⟨Within.trans _ _ _ hwithin hrest, hok⟩
      | error e =>
        obtain ⟨hrest, hok⟩ := ih (some e) s' hafter
        exact ⟨Within.trans _ _ _ hwithin hrest, hok⟩

theorem inside_handle {m : TxM PUnit} (h : Inside controller transaction m) :
    Inside controller transaction (handle controller env m) := by
  refine inside_bind (inside_step env _) fun _ => ?_
  refine inside_bind (inside_runHooks env _ _ _) fun _ => ?_
  refine inside_bind ?_ fun _ => inside_runHooks env _ _ _
  unfold runOn
  split
  · exact h
  · exact inside_onHook h _

/-! ## Handlers inside -/

mutual

theorem inside_persistDeepInsertGraph (relation : DeepRelation) :
    Inside controller transaction
      (persistDeepInsertGraph controller env (some transaction) relation) := by
  cases relation with
  | mk name targetsMany items =>
    rw [persistDeepInsertGraph]
    exact inside_bind (inside_step env _) fun _ => inside_persistInsertItems name items

theorem inside_persistInsertItems (name : Text) (items : List (List DeepRelation)) :
    Inside controller transaction
      (persistInsertItems controller env (some transaction) name items) := by
  cases items with
  | nil =>
    rw [persistInsertItems]
    exact inside_pure _
  | cons children items =>
    rw [persistInsertItems]
    refine inside_bind (inside_step env _) fun _ => ?_
    refine inside_bind (inside_assertWriteDataSource _ _) fun _ => ?_
    refine inside_bind (inside_write env _ _) fun _ => ?_
    exact inside_bind (inside_persistInsertRelations children) fun _ =>
      inside_persistInsertItems name items

theorem inside_persistInsertRelations (relations : List DeepRelation) :
    Inside controller transaction
      (persistInsertRelations controller env (some transaction) relations) := by
  cases relations with
  | nil =>
    rw [persistInsertRelations]
    exact inside_pure _
  | cons relation relations =>
    rw [persistInsertRelations]
    exact inside_bind (inside_persistDeepInsertGraph relation) fun _ =>
      inside_persistInsertRelations relations

end

theorem inside_persistRootRelations (relations : List DeepRelation) :
    Inside controller transaction
      (persistRootRelations controller env (some transaction) relations) := by
  induction relations with
  | nil => exact inside_pure _
  | cons relation relations ih =>
    obtain ⟨name, targetsMany, items⟩ := relation
    refine inside_bind (inside_step env _) fun _ => ?_
    refine inside_bind (inside_assertWriteDataSource _ _) fun _ => ?_
    exact inside_bind (inside_persistDeepInsertGraph env _) fun _ => ih

mutual

theorem inside_persistDeepUpdateGraph (relation : DeepRelation) :
    Inside controller transaction
      (persistDeepUpdateGraph controller env (some transaction) relation) := by
  cases relation with
  | mk name targetsMany items =>
    rw [persistDeepUpdateGraph]
    refine inside_bind (inside_step env _) fun _ => ?_
    exact inside_bind (inside_read env _ _) fun _ => inside_persistUpdateItems name targetsMany items

theorem inside_persistUpdateItems (name : Text) (targetsMany : Bool)
    (items : List (List DeepRelation)) :
    Inside controller transaction
      (persistUpdateItems controller env (some transaction) name targetsMany items) := by
  cases items with
  | nil =>
    rw [persistUpdateItems]
    exact inside_pure _
  | cons children items =>
    rw [persistUpdateItems]
    have hchildren := inside_applyDeepUpdateRelations children
    refine inside_bind (inside_step env _) fun _ => ?_
    refine inside_bind (inside_ifHolds env _ ?_ ?_) fun _ =>
      inside_persistUpdateItems name targetsMany items
    · refine inside_bind (inside_assertWriteDataSource _ _) fun _ => ?_
      exact inside_bind (inside_write env _ _) fun _ => inside_whenHolds env _ hchildren
    · refine inside_bind (inside_whenHolds env _ ?_) fun _ => ?_
      · exact inside_bind (inside_assertWriteDataSource _ _) fun _ => inside_write env _ _
      · refine inside_bind (inside_when ?_) fun _ => inside_whenHolds env _ hchildren
        exact inside_bind (inside_attempt (inside_read env _ _)) fun _ => inside_pure _

theorem inside_applyDeepUpdateRelations (relations : List DeepRelation) :
    Inside controller transaction
      (applyDeepUpdateRelations controller env (some transaction) relations) := by
  cases relations with
  | nil =>
    rw [applyDeepUpdateRelations]
    exact inside_pure _
  | cons relation relations =>
    rw [applyDeepUpdateRelations]
    exact inside_bind (inside_persistDeepUpdateGraph relation) fun _ =>
      inside_applyDeepUpdateRelations relations

end

theorem inside_readChildren (entitySet : Text) :
    Inside controller transaction (readChildren controller env entitySet) :=
  inside_options entitySet (inside_bind (inside_read env _ _) fun _ => inside_step env _)

mutual

theorem inside_planCascadeForEntity (node : CompositionCascadeNode) :
    Inside controller transaction (planCascadeForEntity controller env node) := by
  cases node with
  | mk entitySet children =>
    rw [planCascadeForEntity]
    exact inside_bind (inside_readChildren env entitySet) fun _ =>
      inside_planCascadeForChildren children

theorem inside_planCascadeForChildren (children : List CompositionCascadeNode) :
    Inside controller transaction (planCascadeForChildren controller env children) := by
  cases children with
  | nil =>
    rw [planCascadeForChildren]
    exact inside_pure _
  | cons child children =>
    rw [planCascadeForChildren]
    exact inside_bind (inside_planCascadeForEntity child) fun _ =>
      inside_planCascadeForChildren children

end

mutual

theorem inside_executeCascadeNode (node : CompositionCascadeNode) :
    Inside controller transaction (executeCascadeNode controller env node) := by
  cases node with
  | mk entitySet children =>
    rw [executeCascadeNode]
    refine inside_bind (inside_executeCascadeChildren children) fun _ => ?_
    refine inside_bind (inside_step env _) fun _ => ?_
    refine inside_bind (inside_assertCompositionWriteDataSource _ _) fun _ => ?_
    refine inside_options entitySet ?_
    refine inside_bind (inside_runHooks env _ _ _) fun _ => ?_
    exact inside_bind (inside_write env _ _) fun _ => inside_runHooks env _ _ _

theorem inside_executeCascadeChildren (children : List CompositionCascadeNode) :
    Inside controller transaction (executeCascadeChildren controller env children) := by
  cases children with
  | nil =>
    rw [executeCascadeChildren]
    exact inside_pure _
  | cons child children =>
    rw [executeCascadeChildren]
    exact inside_bind (inside_executeCascadeNode child) fun _ =>
      inside_executeCascadeChildren children

end

theorem inside_writeMedia :
    Inside controller transaction (writeMedia controller env (some transaction)) := by
  refine inside_bind (inside_step env _) fun _ => ?_
  refine inside_bind (inside_ifHolds env _ (inside_write env _ _) (inside_step env _)) fun _ => ?_
  exact inside_whenHolds env _ (inside_options _ (inside_write env _ _))

theorem inside_createDefault (deepInsert : List DeepRelation) (bodyIsBinary : Bool) :
    Inside controller transaction (createDefault controller env deepInsert bodyIsBinary) := by
  refine inside_options _ ?_
  refine inside_bind (inside_step env _) fun _ => ?_
  refine inside_bind (inside_write env _ _) fun _ => ?_
  refine inside_bind (inside_step env _) fun _ => ?_
  refine inside_bind (inside_when ?_) fun _ => ?_
  · exact inside_bind (inside_persistRootRelations env deepInsert) fun _ => inside_read env _ _
  refine inside_bind (inside_when (inside_writeMedia env)) fun _ => ?_
  exact inside_bind (inside_whenHolds env _ (inside_read env _ _)) fun _ => inside_step env _

theorem inside_replaceDefault :
    Inside controller transaction (replaceDefault controller env) := by
  refine inside_options _ ?_
  refine inside_bind (inside_step env _) fun _ => ?_
  refine inside_bind (inside_whenHolds env _ ?_) fun _ => ?_
  · exact inside_bind (inside_read env _ _) fun _ => inside_step env _
  refine inside_bind (inside_assertWriteDataSource _ _) fun _ => ?_
  refine inside_bind (inside_write env _ _) fun _ => ?_
  exact inside_bind (inside_read env _ _) fun _ => inside_step env _

theorem inside_updateDefault (deepUpdate : List DeepRelation) :
    Inside controller transaction (updateDefault controller env deepUpdate) := by
  refine inside_options _ ?_
  refine inside_bind (inside_step env _) fun _ => ?_
  refine inside_bind (inside_whenHolds env _ ?_) fun _ => ?_
  · exact inside_bind (inside_read env _ _) fun _ => inside_step env _
  refine inside_bind (inside_ifHolds env _ ?_ ?_) fun _ => ?_
  · exact inside_bind (inside_write env _ _) fun _ => inside_step env _
  · exact inside_whenHolds env _ (inside_write env _ _)
  refine inside_bind (inside_read env _ _) fun _ => ?_
  refine inside_bind (inside_when ?_) fun _ => inside_step env _
  exact inside_bind (inside_applyDeepUpdateRelations env deepUpdate) fun _ => inside_read env _ _

theorem inside_deleteComposed (mode : DeleteMode) (options : Option Transaction) :
    Inside controller transaction (deleteComposed controller env mode options) := by
  cases mode with
  | plain => exact inside_pure _
  | restrict =>
    refine inside_bind (inside_read env _ _) fun _ => ?_
    exact inside_bind (inside_step env _) fun _ => inside_readChildren env _
  | cascade =>
    refine inside_bind (inside_read env _ _) fun _ => ?_
    refine inside_bind (inside_step env _) fun _ => ?_
    exact inside_bind (inside_planCascadeForEntity env _) fun _ =>
      inside_executeCascadeChildren env _

theorem inside_deleteDefault (mode : DeleteMode) :
    Inside controller transaction (deleteDefault controller env mode) := by
  refine inside_options _ ?_
  refine inside_bind (inside_step env _) fun _ => ?_
  refine inside_bind (inside_deleteComposed env mode _) fun _ => ?_
  refine inside_bind (inside_whenHolds env _ (inside_read env _ _)) fun _ => ?_
  refine inside_bind (inside_when (inside_assertCompositionWriteDataSource _ _)) fun _ => ?_
  refine inside_bind (inside_ifHolds env _ ?_ (inside_write env _ _)) fun _ => inside_step env _
  exact inside_bind (inside_write env _ _) fun _ => inside_step env _

theorem inside_replaceTarget (relation : Text) (hint : String) :
    Inside controller transaction (replaceTarget controller env relation hint) := by
  refine inside_options _ ?_
  refine inside_bind (inside_read env _ _) fun _ => ?_
  refine inside_bind (inside_step env _) fun _ => ?_
  refine inside_bind (inside_assertWriteDataSource _ _) fun _ => ?_
  exact inside_options _ (inside_write env _ _)

end Inside

/-! ## The end of a transaction -/

section Ending

variable {env : Environment} {transaction : Transaction} {s s' : RequestState}

/-- The state with one more call. -/
def RequestState.after (s : RequestState) (event : Event) : RequestState :=
  { s with events := event :: s.events }

theorem call_cases (env : Environment) (c : Call) (s : RequestState) :
    call env c s = (.ok ⟨⟩, s.after ⟨c, true⟩) ∨ ∃ e, call env c s = (.error e, s.after ⟨c, false⟩) := by
  unfold call
  cases env.throws s.events c with
  | none => exact Or.inl rfl
  | some e => exact Or.inr ⟨e, rfl⟩

theorem rollbackQuietly_eq (env : Environment) (transaction : Transaction) (s : RequestState) :
    ∃ rolledBack, rollbackQuietly env transaction s =
      (.ok rolledBack, s.after ⟨.rollback transaction, rolledBack⟩) := by
  rcases call_cases env (.rollback transaction) s with hcall | ⟨e, hcall⟩
  · refine ⟨true, ?_⟩
    rw [rollbackQuietly, bind_apply, attempt, hcall]
    rfl
  · refine ⟨false, ?_⟩
    rw [rollbackQuietly, bind_apply, attempt, hcall]
    rfl

/-- What ends a transaction that is not committed. -/
def Event.Abandons (transaction : Transaction) (event : Event) : Prop :=
  event.call = .rollback transaction ∨ event = ⟨.commit transaction, false⟩

/-- Either the work has succeeded and one commit does, or there are rollbacks and at most a commit
that throws. -/
theorem settle_cases (env : Environment) (transaction : Transaction)
    (outcome : Except Thrown PUnit) (s : RequestState) :
    settle env transaction outcome s = (.ok ⟨⟩, s.after ⟨.commit transaction, true⟩) ∨
      ∃ e added, settle env transaction outcome s =
          (.error e, { s with events := added ++ s.events }) ∧
        ∀ event ∈ added, event.Abandons transaction := by
  cases outcome with
  | ok a =>
    rw [settle, bind_apply, attempt]
    rcases call_cases env (.commit transaction) s with hcommit | ⟨e, hcommit⟩
    · rw [hcommit]
      exact Or.inl rfl
    · rw [hcommit]
      obtain ⟨rolledBack, hrollback⟩ :=
        rollbackQuietly_eq env transaction (s.after ⟨.commit transaction, false⟩)
      dsimp only
      rw [bind_apply, hrollback]
      dsimp only
      cases rolledBack with
      | true =>
        exact Or.inr ⟨_, [⟨.rollback transaction, true⟩, ⟨.commit transaction, false⟩], rfl,
          by simp [Event.Abandons]⟩
      | false =>
        obtain ⟨again, hagain⟩ := rollbackQuietly_eq env transaction
          ((s.after ⟨.commit transaction, false⟩).after ⟨.rollback transaction, false⟩)
        rw [Effect.when, if_pos rfl, bind_apply, bind_apply, hagain]
        exact Or.inr ⟨_, [⟨.rollback transaction, again⟩, ⟨.rollback transaction, false⟩,
          ⟨.commit transaction, false⟩], rfl, by simp [Event.Abandons]⟩
  | error e =>
    obtain ⟨rolledBack, hrollback⟩ := rollbackQuietly_eq env transaction s
    rw [settle, bind_apply, hrollback]
    exact Or.inr ⟨e, [⟨.rollback transaction, rolledBack⟩], rfl, by simp [Event.Abandons]⟩

theorem commitOrRollback_eq (m : TxM PUnit) (s : RequestState) :
    commitOrRollback env transaction m s = settle env transaction (m s).1 (m s).2 := rfl

end Ending

/-! ## Requests of their own -/

section Own

variable {controller : Controller} {env : Environment} {transaction : Transaction}

/-- A call that has nothing to do with transactions. -/
def Event.Quiet (event : Event) : Prop :=
  event.call.managesTransaction = false ∧ event.call.isWrite = false

theorem carries_of_not_write {c : Call} (h : c.isWrite = false) : c.Carries transaction := by
  cases c with
  | write method entitySet options => cases h
  | _ => trivial

theorem not_commit_of_unmanaged {c : Call} (h : c.managesTransaction = false) :
    c.isCommit = false := by
  cases c with
  | commit transaction => cases h
  | _ => rfl

theorem not_rollback_of_unmanaged {c : Call} (h : c.managesTransaction = false) :
    c.isRollback = false := by
  cases c with
  | rollback transaction => cases h
  | _ => rfl

/-- The request has not begun anything yet. -/
structure Idle (s : RequestState) : Prop where
  atomicity : s.atomicity = none
  writeTx : s.writeTx = none
  events : ∀ event ∈ s.events, event.Quiet

def Own (result : Except Thrown PUnit × RequestState) : Prop :=
  result.2.writeTx = none ∧ ∃ transaction, KeepsOwnTransaction result.1 result.2.events transaction

/-- A failure before a transaction began. -/
theorem own_of_idle {e : Thrown} {s : RequestState} (h : Idle s) : Own (.error e, s) := by
  refine ⟨h.writeTx, 0, ⟨fun event hevent hwrite => ?_, fun event hevent => ?_, nofun,
    fun _ _ event hevent hcommit => ?_⟩⟩
  · rw [(h.events event hevent).2] at hwrite
    cases hwrite
  · exact carries_of_not_write (h.events event hevent).2
  · rw [not_commit_of_unmanaged (h.events event hevent).1] at hcommit
    cases hcommit

theorem Idle.after {s : RequestState} (h : Idle s) {event : Event} (hevent : event.Quiet) :
    Idle (s.after event) :=
  ⟨h.atomicity, h.writeTx, List.forall_mem_cons.mpr ⟨hevent, h.events⟩⟩

theorem own_step {what : String} {m : TxM PUnit} (hm : ∀ s, Idle s → Own (m s))
    (s : RequestState) (hs : Idle s) : Own ((step env what >>= fun _ => m) s) := by
  rw [bind_apply, step]
  rcases call_cases env (.step what) s with hcall | ⟨e, hcall⟩
  · rw [hcall]
    exact hm _ (hs.after ⟨rfl, rfl⟩)
  · rw [hcall]
    exact own_of_idle (hs.after ⟨rfl, rfl⟩)

/-- What the events of a request come to: those that end the transaction, those inside of it, and
those up to its beginning. -/
theorem keepsOwnTransaction_of_events {outcome : Except Thrown PUnit}
    {ending inside before : List Event}
    (hinside : ∀ event ∈ inside,
      event.call.managesTransaction = false ∧ event.call.Carries transaction)
    (hbefore : ∀ event ∈ before, event.Quiet)
    (hending : (outcome = .ok ⟨⟩ ∧ ending = [⟨.commit transaction, true⟩]) ∨
      ((∃ e, outcome = .error e) ∧ ∀ event ∈ ending, event.Abandons transaction)) :
    KeepsOwnTransaction outcome
      (ending ++ (inside ++ ⟨.beginTransaction transaction, true⟩ :: before)) transaction := by
  have hrest : ∀ event ∈ inside ++ ⟨.beginTransaction transaction, true⟩ :: before,
      event.call.Carries transaction ∧ event.call.isCommit = false ∧
        event.call.isRollback = false := by
    intro event hevent
    rcases List.mem_append.mp hevent with hmem | hmem
    · obtain ⟨hmanages, hcarries⟩ := hinside event hmem
      exact ⟨hcarries, not_commit_of_unmanaged hmanages, not_rollback_of_unmanaged hmanages⟩
    · rcases List.mem_cons.mp hmem with rfl | hmem
      · exact ⟨trivial, rfl, rfl⟩
      · obtain ⟨hmanages, hwrite⟩ := hbefore event hmem
        exact ⟨carries_of_not_write hwrite, not_commit_of_unmanaged hmanages,
          not_rollback_of_unmanaged hmanages⟩
  have hbegan : (⟨.beginTransaction transaction, true⟩ : Event) ∈
      ending ++ (inside ++ ⟨.beginTransaction transaction, true⟩ :: before) := by simp
  have hnone : (inside ++ ⟨.beginTransaction transaction, true⟩ :: before).filter
      (·.call.isCommit) = [] := by
    rw [List.filter_eq_nil_iff]
    intro event hevent
    rw [(hrest event hevent).2.1]
    exact Bool.false_ne_true
  refine ⟨fun event hevent _ => hbegan, fun event hevent => ?_, fun hok => ?_,
    fun e herror event hevent hcommit => ?_⟩
  · rcases List.mem_append.mp hevent with hmem | hmem
    · rcases hending with ⟨_, rfl⟩ | ⟨_, habandons⟩
      · rw [List.mem_singleton.mp hmem]
        trivial
      · rcases habandons event hmem with hcall | hcall
        · rw [hcall]
          trivial
        · rw [hcall]
          trivial
    · exact (hrest event hmem).1
  · rcases hending with ⟨_, rfl⟩ | ⟨⟨e, herror⟩, _⟩
    · refine ⟨?_, ?_⟩
      · rw [List.filter_append, hnone]
        rfl
      · intro event hevent
        rcases List.mem_cons.mp hevent with rfl | hmem
        · rfl
        · exact (hrest event hmem).2.2
    · rw [hok] at herror
      cases herror
  · rcases hending with ⟨hok, _⟩ | ⟨_, habandons⟩
    · rw [hok] at herror
      cases herror
    · rcases List.mem_append.mp hevent with hmem | hmem
      · rcases habandons event hmem with hcall | hcall
        · rw [hcall] at hcommit
          cases hcommit
        · rw [hcall]
      · rw [(hrest event hmem).2.1] at hcommit
        cases hcommit

theorem own_inTransaction {m : TxM PUnit} {dataSource : DataSource} {s : RequestState}
    {before : List Event} (hm : Inside controller transaction m) (hatomicity : s.atomicity = none)
    (hevents : s.events = ⟨.beginTransaction transaction, true⟩ :: before)
    (hbefore : ∀ event ∈ before, event.Quiet) :
    Own (inTransaction env transaction dataSource m s) := by
  let started : RequestState := { s with writeTx := some ⟨some transaction, dataSource⟩ }
  have hprovides : Provides controller transaction started := by
    intro entitySet
    have hnone : started.atomicity = none := hatomicity
    rw [buildRepositoryOptions, hnone]
    rfl
  obtain ⟨inside, hinside, hadded⟩ := (hm started hprovides).1.events
  have hbegan : started.events = ⟨.beginTransaction transaction, true⟩ :: before := hevents
  have hrun : inTransaction env transaction dataSource m s =
      ((settle env transaction (m started).1 (m started).2).1,
        clearWriteTxState (settle env transaction (m started).1 (m started).2).2) := rfl
  rw [hrun]
  rcases settle_cases env transaction (m started).1 (m started).2 with
    hsettle | ⟨e, ending, hsettle, hending⟩
  · rw [hsettle]
    refine ⟨rfl, transaction, ?_⟩
    have hevents' : (clearWriteTxState ((m started).2.after ⟨.commit transaction, true⟩)).events =
        [⟨.commit transaction, true⟩] ++
          (inside ++ ⟨.beginTransaction transaction, true⟩ :: before) := by
      rw [← hbegan, ← hinside]
      rfl
    rw [hevents']
    exact keepsOwnTransaction_of_events hadded hbefore (Or.inl ⟨rfl, rfl⟩)
  · rw [hsettle]
    refine ⟨rfl, transaction, ?_⟩
    have hevents' : (clearWriteTxState
        { (m started).2 with events := ending ++ (m started).2.events }).events =
        ending ++ (inside ++ ⟨.beginTransaction transaction, true⟩ :: before) := by
      rw [← hbegan, ← hinside]
      rfl
    rw [hevents']
    exact keepsOwnTransaction_of_events hadded hbefore (Or.inr ⟨⟨e, rfl⟩, hending⟩)

/-- The data source begins a transaction whenever it is asked to. -/
def Environment.BeginsTransactions (env : Environment) : Prop :=
  ∀ events transaction, env.throws events (.beginTransaction transaction) = none

theorem own_beginAndRun {m : TxM PUnit} {dataSource : DataSource} {requireSupport : Bool}
    {unsupported : Option Thrown → TxM PUnit} (hbegins : env.BeginsTransactions)
    (hsupports : controller.supportsTransactions dataSource = true)
    (hm : ∀ transaction, Inside controller transaction m) (s : RequestState) (hs : Idle s) :
    Own (beginAndRun controller env dataSource requireSupport unsupported m s) := by
  have hrun : beginAndRun controller env dataSource requireSupport unsupported m s =
      inTransaction env s.events.length dataSource m
        (s.after ⟨.beginTransaction s.events.length, true⟩) := by
    rw [beginAndRun, if_neg (not_not_intro hsupports)]
    have hcall : call env (.beginTransaction s.events.length) s =
        (.ok ⟨⟩, s.after ⟨.beginTransaction s.events.length, true⟩) := by
      rw [call, hbegins]
      rfl
    have hget : (Effect.get : TxM RequestState) s = (.ok s, s) := rfl
    rw [bind_apply, hget]
    dsimp only
    rw [bind_apply, attempt, hcall]
  rw [hrun]
  exact own_inTransaction (hm _) hs.atomicity rfl hs.events

variable (hbegins : env.BeginsTransactions) (henabled : controller.enabled = true)
  {dataSource : DataSource} (hdataSource : controller.dataSource = some dataSource)
  (hsupports : controller.supportsTransactions dataSource = true)
include hbegins hdataSource hsupports

theorem own_withCompositionWriteTransaction {m : TxM PUnit}
    (hm : ∀ transaction, Inside controller transaction m) (s : RequestState) (hs : Idle s) :
    Own (withCompositionWriteTransaction controller env m s) := by
  refine own_step (fun s hs => ?_) s hs
  have hget : (Effect.get : TxM RequestState) s = (.ok s, s) := rfl
  rw [bind_apply, hget]
  dsimp only
  rw [hs.writeTx, hs.atomicity, hdataSource]
  exact own_beginAndRun hbegins hsupports hm s hs

include henabled

theorem own_withWriteTransaction {m : TxM PUnit}
    (hm : ∀ transaction, Inside controller transaction m) (s : RequestState) (hs : Idle s) :
    Own (withWriteTransaction controller env m s) := by
  rw [withWriteTransaction, if_neg (not_not_intro henabled)]
  refine own_step (fun s hs => ?_) s hs
  have hget : (Effect.get : TxM RequestState) s = (.ok s, s) := rfl
  rw [bind_apply, hget]
  dsimp only
  rw [hs.writeTx, hs.atomicity, hdataSource]
  exact own_beginAndRun hbegins hsupports hm s hs

/-- Every write request outside of changesets. -/
theorem own_run (request : WriteRequest) (s : RequestState) (hs : Idle s) :
    Own (request.run controller env s) := by
  have hwrite {m : TxM PUnit} (hm : ∀ transaction, Inside controller transaction m) :=
    own_withWriteTransaction hbegins henabled hdataSource hsupports hm
  cases request with
  | create deepInsert bodyIsBinary =>
    exact own_step (hwrite fun _ => inside_handle env (inside_createDefault env _ _)) s hs
  | replace => exact own_step (hwrite fun _ => inside_handle env (inside_replaceDefault env)) s hs
  | update deepUpdate =>
    exact own_step (hwrite fun _ => inside_handle env (inside_updateDefault env _)) s hs
  | delete mode =>
    refine own_step (fun s hs => ?_) s hs
    have hm (transaction : Transaction) (mode : DeleteMode) :
        Inside controller transaction (runDelete controller env mode) :=
      inside_handle env (inside_deleteDefault env mode)
    by_cases hmode : (if env.onHook.isSome then DeleteMode.plain else mode) = .cascade
    · rw [if_pos hmode]
      exact own_withCompositionWriteTransaction hbegins hdataSource hsupports (fun _ => hm _ _) s hs
    · rw [if_neg hmode]
      exact hwrite (fun _ => hm _ _) s hs
  | link relation =>
    refine own_step (hwrite fun _ => inside_handle env ?_) s hs
    exact inside_bind (inside_step env _) fun _ => inside_replaceTarget env _ _
  | unlink relation =>
    refine own_step (hwrite fun _ => ?_) s hs
    exact inside_bind (inside_step env _) fun _ =>
      inside_handle env (inside_replaceTarget env _ _)

end Own

/-! ## Requests of a changeset -/

section Shared

variable {controller : Controller} {env : Environment} {changeset : Changeset}

theorem getTransaction_atomicityState (entitySet : Text) :
    changeset.atomicityState.getTransaction entitySet =
      if entitySet ∈ changeset.setNames then some changeset.transaction else none := by
  rw [AtomicityState.getTransaction, Changeset.atomicityState]
  induction changeset.setNames with
  | nil => rfl
  | cons name names ih =>
    rw [List.map_cons, List.lookup_cons, ih]
    by_cases hname : entitySet = name
    · simp [hname]
    · have hne : (entitySet == name) = false := beq_eq_false_iff_ne.mpr hname
      simp [hne, hname]

theorem provides_of_changeset {s : RequestState} (hmem : controller.setName ∈ changeset.setNames)
    (hatomicity : s.atomicity = some changeset.atomicityState) :
    Provides controller changeset.transaction s := by
  intro entitySet
  rw [buildRepositoryOptions, hatomicity, Option.bind_some, Option.bind_some,
    getTransaction_atomicityState, getTransaction_atomicityState, if_pos hmem]
  split <;> rfl

/-- A request of a changeset that has not called anything that matters yet. -/
structure Joined (controller : Controller) (changeset : Changeset) (s : RequestState) : Prop where
  member : controller.setName ∈ changeset.setNames
  atomicity : s.atomicity = some changeset.atomicityState
  writeTx : s.writeTx = none

theorem Joined.of_within {s s' : RequestState} (h : Joined controller changeset s)
    (hwithin : Within changeset.transaction s s') : Joined controller changeset s' :=
  ⟨h.member, hwithin.atomicity.trans h.atomicity, hwithin.writeTx.trans h.writeTx⟩

theorem Joined.provides {s : RequestState} (h : Joined controller changeset s) :
    Provides controller changeset.transaction s := provides_of_changeset h.member h.atomicity

theorem within_step {what : String} {m : TxM PUnit}
    (hm : ∀ s, Joined controller changeset s → Within changeset.transaction s (m s).2)
    (s : RequestState) (hs : Joined controller changeset s) :
    Within changeset.transaction s ((step env what >>= fun _ => m) s).2 := by
  have hstep := (inside_step env what s hs.provides).1
  rw [bind_apply]
  cases hrun : step env what s with
  | mk outcome s' =>
    rw [hrun] at hstep
    cases outcome with
    | ok a => exact Within.trans _ _ _ hstep (hm s' (hs.of_within hstep))
    | error e => exact hstep

theorem within_withWriteTransaction {m : TxM PUnit}
    (hm : Inside controller changeset.transaction m) (s : RequestState)
    (hs : Joined controller changeset s) :
    Within changeset.transaction s (withWriteTransaction controller env m s).2 := by
  rw [withWriteTransaction]
  split
  · exact (hm s hs.provides).1
  · refine within_step (fun s hs => ?_) s hs
    have hget : (Effect.get : TxM RequestState) s = (.ok s, s) := rfl
    rw [bind_apply, hget]
    dsimp only
    rw [hs.atomicity]
    exact (hm s hs.provides).1

/-- The state of the cascade holds no transaction here, and it is cleared again. -/
theorem within_withoutTransaction {m : TxM PUnit} {dataSource : DataSource}
    (hm : Inside controller changeset.transaction m) (s : RequestState)
    (hs : Joined controller changeset s) :
    Within changeset.transaction s (withoutTransaction dataSource m s).2 := by
  let started : RequestState := { s with writeTx := some ⟨none, dataSource⟩ }
  have hprovides : Provides controller changeset.transaction started :=
    provides_of_changeset hs.member hs.atomicity
  obtain ⟨hatomicity, _, hevents⟩ := (hm started hprovides).1
  exact ⟨hatomicity, hs.writeTx.symm, hevents⟩

theorem within_withCompositionWriteTransaction {m : TxM PUnit}
    (hm : Inside controller changeset.transaction m) (s : RequestState)
    (hs : Joined controller changeset s) :
    Within changeset.transaction s (withCompositionWriteTransaction controller env m s).2 := by
  refine within_step (fun s hs => ?_) s hs
  have hget : (Effect.get : TxM RequestState) s = (.ok s, s) := rfl
  rw [bind_apply, hget]
  dsimp only
  rw [hs.writeTx, hs.atomicity]
  cases controller.dataSource with
  | none => exact (hm s hs.provides).1
  | some dataSource => exact within_withoutTransaction hm s hs

/-- Every write request of a changeset that has a transaction for the controller's entity set. -/
theorem within_run (request : WriteRequest) (s : RequestState)
    (hs : Joined controller changeset s) :
    Within changeset.transaction s (request.run controller env s).2 := by
  cases request with
  | create deepInsert bodyIsBinary =>
    exact within_step (within_withWriteTransaction
      (inside_handle env (inside_createDefault env _ _))) s hs
  | replace =>
    exact within_step (within_withWriteTransaction
      (inside_handle env (inside_replaceDefault env))) s hs
  | update deepUpdate =>
    exact within_step (within_withWriteTransaction
      (inside_handle env (inside_updateDefault env _))) s hs
  | delete mode =>
    refine within_step (fun s hs => ?_) s hs
    have hm (mode : DeleteMode) :
        Inside controller changeset.transaction (runDelete controller env mode) :=
      inside_handle env (inside_deleteDefault env mode)
    by_cases hmode : (if env.onHook.isSome then DeleteMode.plain else mode) = .cascade
    · rw [if_pos hmode]
      exact within_withCompositionWriteTransaction (hm _) s hs
    · rw [if_neg hmode]
      exact within_withWriteTransaction (hm _) s hs
  | link relation =>
    refine within_step (within_withWriteTransaction (inside_handle env ?_)) s hs
    exact inside_bind (inside_step env _) fun _ => inside_replaceTarget env _ _
  | unlink relation =>
    refine within_step (within_withWriteTransaction ?_) s hs
    exact inside_bind (inside_step env _) fun _ =>
      inside_handle env (inside_replaceTarget env _ _)

/-! ## References from other entity sets -/

/-- Nothing throws, there are no hooks, and no decision is taken. -/
def calmEnvironment : Environment where
  throws _ _ := none
  decides _ _ := false
  beforeHooks _ := 0
  onHook := none
  afterHooks _ := 0
  dataSourceOf _ := none
  cascade := []

theorem calm_call (c : Call) (s : RequestState) :
    call calmEnvironment c s = (.ok ⟨⟩, s.after ⟨c, true⟩) := rfl

/-- From every state of a request in the changeset, the program makes the write of a reference
without a transaction. -/
def WritesOutside (changeset : Changeset) (relation : Text) (m : TxM PUnit) : Prop :=
  ∀ s : RequestState, s.atomicity = some changeset.atomicityState → s.writeTx = none →
    ⟨.write "replaceById" relation none, true⟩ ∈ (m s).2.events

theorem writesOutside_step {what : String} {relation : Text} {m : TxM PUnit}
    (h : WritesOutside changeset relation m) :
    WritesOutside changeset relation (step calmEnvironment what >>= fun _ => m) := by
  intro s hatomicity hwriteTx
  rw [bind_apply, step, calm_call]
  exact h (s.after ⟨.step what, true⟩) hatomicity hwriteTx

theorem writesOutside_handle {relation : Text} {m : TxM PUnit}
    (h : WritesOutside changeset relation m) :
    WritesOutside changeset relation (handle controller calmEnvironment m) := by
  refine writesOutside_step fun s hatomicity hwriteTx => ?_
  have hmem := h s hatomicity hwriteTx
  have hrun : ((runHooks calmEnvironment controller.setName "before" 0 >>= fun _ =>
      runOn calmEnvironment m >>= fun _ =>
        runHooks calmEnvironment controller.setName "after" 0) s).2 = (m s).2 := by
    rw [runHooks, bind_apply]
    change ((runOn calmEnvironment m >>= fun _ => (pure PUnit.unit : TxM PUnit)) s).2 = _
    have hon : runOn calmEnvironment m = m := rfl
    rw [hon, bind_apply]
    cases m s with
    | mk outcome s' => cases outcome <;> rfl
  exact hrun ▸ hmem

theorem writesOutside_withWriteTransaction {relation : Text} {m : TxM PUnit}
    (h : WritesOutside changeset relation m) :
    WritesOutside changeset relation (withWriteTransaction controller calmEnvironment m) := by
  rw [withWriteTransaction]
  split
  · exact h
  · refine writesOutside_step fun s hatomicity hwriteTx => ?_
    have hget : (Effect.get : TxM RequestState) s = (.ok s, s) := rfl
    rw [bind_apply, hget]
    dsimp only
    rw [hatomicity]
    exact h s hatomicity hwriteTx

theorem writesOutside_replaceTarget {relation : Text} {hint : String}
    (hnot : controller.setName ∉ changeset.setNames) :
    WritesOutside changeset relation
      (replaceTarget controller calmEnvironment relation hint) := by
  intro s hatomicity hwriteTx
  have hoptions (s : RequestState) (h : s.atomicity = some changeset.atomicityState)
      (hwriteTx : s.writeTx = none) :
      repositoryOptions controller s = (.ok none, s) := by
    rw [repositoryOptions, repositoryOptionsForEntitySet, buildRepositoryOptions, h, hwriteTx,
      Option.bind_some, getTransaction_atomicityState, if_neg hnot]
    rfl
  have hassert (s : RequestState) (h : s.atomicity = some changeset.atomicityState)
      (hwriteTx : s.writeTx = none) :
      assertWriteDataSource controller none hint s = (.ok ⟨⟩, s) := by
    have hget : (Effect.get : TxM RequestState) s = (.ok s, s) := rfl
    rw [assertWriteDataSource, bind_apply, hget]
    dsimp only
    rw [h, hwriteTx]
    rfl
  let read := s.after ⟨.read relation none, true⟩
  let checked := read.after ⟨.step "foreign key", true⟩
  rw [replaceTarget, bind_apply, hoptions s hatomicity hwriteTx]
  dsimp only
  rw [bind_apply, calm_call]
  dsimp only
  rw [bind_apply, step, calm_call]
  dsimp only
  have hsource : calmEnvironment.dataSourceOf relation = none := rfl
  rw [hsource, bind_apply, hassert checked hatomicity hwriteTx]
  dsimp only
  rw [bind_apply, hoptions checked hatomicity hwriteTx]
  exact List.mem_cons_self

/-- Without a transaction for the controller's entity set, the write of a reference carries none. -/
theorem reference_writes_outside {request : WriteRequest} (hreference : request.isReference = true)
    (hnot : controller.setName ∉ changeset.setNames) :
    ∃ relation, ⟨.write "replaceById" relation none, true⟩ ∈
      (request.run controller calmEnvironment (.start (some changeset))).2.events := by
  cases request with
  | link relation =>
    refine ⟨relation, ?_⟩
    have hwrites : WritesOutside changeset relation
        (linkNavigationRef controller calmEnvironment relation) :=
      writesOutside_step (writesOutside_withWriteTransaction
        (writesOutside_handle (writesOutside_step (writesOutside_replaceTarget hnot))))
    exact hwrites (.start (some changeset)) rfl rfl
  | unlink relation =>
    refine ⟨relation, ?_⟩
    have hwrites : WritesOutside changeset relation
        (unlinkNavigationRef controller calmEnvironment relation) :=
      writesOutside_step (writesOutside_withWriteTransaction
        (writesOutside_step (writesOutside_handle (writesOutside_replaceTarget hnot))))
    exact hwrites (.start (some changeset)) rfl rfl
  | _ => cases hreference

end Shared

/-! ## The outcome of every write request -/

/-- A request that succeeds has committed all of its writes in one transaction, a request that fails
none of them, and a changeset's request has left that to the changeset, exactly if the changeset has
a transaction for the entity set of the controller. -/
theorem allOrNothing_iff (controller : Controller) (henabled : controller.enabled = true)
    {dataSource : DataSource} (hdataSource : controller.dataSource = some dataSource)
    (hsupports : controller.supportsTransactions dataSource = true) (request : WriteRequest)
    (membership : Option (Membership controller request)) :
    (∀ env : Environment, env.BeginsTransactions →
        AllOrNothing (membership.map (·.changeset))
          (request.run controller env (.start (membership.map (·.changeset)))).1
          (request.run controller env (.start (membership.map (·.changeset)))).2) ↔
      ∀ m ∈ membership, controller.setName ∈ m.changeset.setNames := by
  constructor
  · intro h m hm
    by_contra hnot
    cases hreference : request.isReference with
    | false => exact hnot (m.resolved hreference)
    | true =>
      obtain ⟨relation, hwrite⟩ := reference_writes_outside hreference hnot
      have hall := h calmEnvironment fun _ _ => rfl
      rw [Option.mem_def.mp hm, Option.map_some] at hall
      have hcarried := (hall.shared m.changeset rfl).carried _ hwrite
      cases hcarried
  · intro h env hbegins
    cases membership with
    | none =>
      obtain ⟨hclosed, transaction, hkeeps⟩ :=
        own_run hbegins henabled hdataSource hsupports request (.start none)
          ⟨rfl, rfl, fun _ h => absurd h List.not_mem_nil⟩
      exact ⟨hclosed, fun _ => ⟨transaction, hkeeps⟩, fun c hc => by cases hc⟩
    | some m =>
      have hjoined : Joined controller m.changeset (.start (some m.changeset)) :=
        ⟨h m rfl, rfl, rfl⟩
      obtain ⟨_, hwriteTx, added, hevents, hadded⟩ := @within_run _ env _ request _ hjoined
      have hall : ∀ event ∈ (request.run controller env (.start (some m.changeset))).2.events,
          event.call.managesTransaction = false ∧
            event.call.Carries m.changeset.transaction := by
        rw [hevents]
        intro event hevent
        rcases List.mem_append.mp hevent with hmem | hmem
        · exact hadded event hmem
        · cases hmem
      refine ⟨hwriteTx, fun hnone => absurd hnone (Option.some_ne_none _), ?_⟩
      intro c hc
      obtain rfl := Option.some.inj hc
      exact ⟨fun event hevent => (hall event hevent).1, fun event hevent => (hall event hevent).2⟩

/-! ## Orders and customers -/

def shop : DataSource := ⟨0, some "shop".toList⟩

def shopController (setName : String) : Controller where
  setName := setName.toList
  dataSource := some shop
  supportsTransactions _ := true
  enabled := true
  requireTransactionSupport := false
  rejectMultiDataSource := true
  cascadeRequireSupport := true

/-- A changeset whose requests resolve to the orders. -/
def ordersChangeset : Changeset where
  groupId := "g1".toList
  dataSource := shop
  dataSourceKey := "shop".toList
  setNames := ["Orders".toList]
  transaction := 7

def shopService : BatchService where
  rt := { Runtime.ascii with statusText := fun _ => [] }
  basePath := some "/odata".toList
  rootRouteNames := []
  namespaces := []
  registry := [⟨"Customers".toList, ["id".toList], fun _ => none, [("orders".toList, "Orders".toList)]⟩,
    ⟨"Orders".toList, ["id".toList], fun _ => none, []⟩]
  parseUrl _ := none
  stringOf _ := []
  numberText _ := none

/-- A hook after the delete of an order throws. -/
def failingHook : Environment where
  throws _ c := if c = .hook "Orders".toList "after" then
    some (.other none "late".toList) else none
  decides _ _ := false
  beforeHooks _ := 1
  onHook := none
  afterHooks _ := 1
  dataSourceOf _ := some shop
  cascade := [.mk "Lines".toList []]

/-- A cascading delete of an order, in a changeset that it belongs to. -/
theorem allOrNothing_delete_order :
    AllOrNothing (some ordersChangeset)
      ((WriteRequest.delete .cascade).run (shopController "Orders") failingHook
        (.start (some ordersChangeset))).1
      ((WriteRequest.delete .cascade).run (shopController "Orders") failingHook
        (.start (some ordersChangeset))).2 := by
  have hmember : (shopController "Orders").setName ∈ ordersChangeset.setNames := by decide
  refine (allOrNothing_iff (shopController "Orders") rfl rfl rfl (.delete .cascade)
    (some ⟨ordersChangeset, fun _ => hmember⟩)).mpr ?_ failingHook ?_
  · intro m hm
    obtain rfl := Option.some.inj (Option.mem_def.mp hm)
    exact hmember
  · intro events transaction
    rfl

/-- The URL of a link from a customer resolves to the orders, so the changeset has a transaction for
these; the customers' controller finds none for itself and writes outside of it. -/
theorem not_allOrNothing_link_customer :
    resolveEntitySetName shopService "/odata/Customers(1)/orders/$ref".toList =
        some "Orders".toList ∧
      calmEnvironment.BeginsTransactions ∧
      ((WriteRequest.link "orders".toList).run (shopController "Customers") calmEnvironment
        (.start (some ordersChangeset))).1 = .ok ⟨⟩ ∧
      ¬ AllOrNothing (some ordersChangeset)
        ((WriteRequest.link "orders".toList).run (shopController "Customers") calmEnvironment
          (.start (some ordersChangeset))).1
        ((WriteRequest.link "orders".toList).run (shopController "Customers") calmEnvironment
          (.start (some ordersChangeset))).2 := by
  refine ⟨by decide, fun _ _ => rfl, rfl, ?_⟩
  intro h
  have hnot : (shopController "Customers").setName ∉ ordersChangeset.setNames := by decide
  have hreference : (WriteRequest.link "orders".toList).isReference = true := rfl
  obtain ⟨relation, hwrite⟩ := reference_writes_outside hreference hnot
  have hcarried := (h.shared ordersChangeset rfl).carried _ hwrite
  cases hcarried

end WriteTx

end LoopbackOData
