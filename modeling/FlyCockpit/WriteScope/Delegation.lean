-- SUMMARY: When a delegation that fails leaves its parent able to write.
import Mathlib.Data.Fintype.EquivFin
import FlyCockpit.WriteScope.Permits

/-!
# Failed delegations

Preparing a transfer moves the parent's lease to the next generation and invalidates the older tokens.
Every later failure unwinds forward, to a generation beyond that, and the failing call returns no token.
So once the preparation is stored, the holder has no token left that the lease accepts.
-/

namespace FlyCockpit.WriteScope

open Fallible Faults

/-! ## Generations do not go back -/

/-- The lease is beyond the generation. -/
def Database.Beyond (db : Database) (leaseId generation : Nat) : Prop :=
  ∃ row, db.leases.lookup leaseId = some row ∧ generation < row.generation

namespace Database

variable {db db' : Database} {leaseId generation id permitId transferId : Nat}
  {row : LeaseRow} {r : Option TransferRow}

theorem Beyond.of_leases (h : db.Beyond leaseId generation) (heq : db'.leases = db.leases) :
    db'.Beyond leaseId generation := by
  obtain ⟨row, hrow, hlt⟩ := h
  exact ⟨row, by rwa [heq], hlt⟩

/-- A new lease is not the one in question. -/
theorem Beyond.insert (h : db.Beyond leaseId generation) (hfresh : db.leases.lookup id = none) :
    Beyond { db with leases := db.leases.insert id row } leaseId generation := by
  obtain ⟨old, hold, hlt⟩ := h
  refine ⟨old, ?_, hlt⟩
  rw [Table.lookup_insert_eq, if_neg, hold]
  rintro rfl
  rw [hfresh] at hold
  cases hold

/-- A lease moves to its own or a later generation. -/
theorem Beyond.moved (h : db.Beyond leaseId generation) {state : LeaseState}
    {later : Nat} (hrow : db.leases.lookup id = some row) (haccepts : row.accepts (row.moved state later) = true) :
    Beyond { db with leases := db.leases.insert id (row.moved state later) } leaseId generation := by
  obtain ⟨old, hold, hlt⟩ := h
  by_cases hid : leaseId = id
  · subst hid
    obtain rfl := Option.some.inj (hrow.symm.trans hold)
    refine ⟨_, AList.lookup_insert _, ?_⟩
    have hle : row.generation ≤ (row.moved state later).generation := by
      simp only [LeaseRow.accepts, Bool.and_eq_true, decide_eq_true_eq] at haccepts
      exact haccepts.1.1
    omega
  · refine ⟨old, ?_, hlt⟩
    rw [Table.lookup_insert_eq, if_neg hid, hold]

theorem beyond_casWriteScopeLease {cas : CasWriteScopeLease} {r : Option LeaseRow}
    (h : db.Beyond leaseId generation) (hrun : db.casWriteScopeLease cas = .ok (r, db')) :
    db'.Beyond leaseId generation := by
  rcases casWriteScopeLease_cases hrun with ⟨-, -, rfl⟩ | ⟨row, hexpected, haccepts, -, rfl⟩
  · exact h
  · exact h.moved hexpected.lookup haccepts

theorem beyond_activateWriteScopeChild {childId : Nat} {child : LeaseRow} {transferCas : CasWriteScopeTransfer}
    {parentCas : CasWriteScopeLease} {r : Option (LeaseRow × TransferRow × LeaseRow)}
    (h : db.Beyond leaseId generation)
    (hrun : db.activateWriteScopeChild childId child transferCas parentCas = .ok (r, db')) :
    db'.Beyond leaseId generation := by
  rcases activateWriteScopeChild_cases hrun with
    ⟨-, rfl⟩ | ⟨t, parent, hfresh, -, -, -, -, hexpected, haccepts, -, rfl⟩
  · exact h
  · exact ((h.insert hfresh).moved hexpected.lookup haccepts).of_leases rfl

theorem leases_insertWriteScopePermit {p r : PermitRow}
    (hrun : db.insertWriteScopePermit permitId p = .ok (r, db')) : db'.leases = db.leases := by
  obtain ⟨permits, -, heq⟩ := result_bind_eq_ok.1 hrun
  cases heq
  rfl

theorem leases_releaseWriteScopePermit {r : Option PermitRow}
    (hrun : db.releaseWriteScopePermit permitId = .ok (r, db')) : db'.leases = db.leases := by
  obtain ⟨updated, -, heq⟩ := result_bind_eq_ok.1 hrun
  cases updated <;> cases heq <;> rfl

theorem leases_attachWriteScopeTransferOwnership {containmentId containmentGeneration executionPermitId : Nat} {publicationIdentity : Option Nat}
    (hrun : db.attachWriteScopeTransferOwnership transferId containmentId containmentGeneration
      executionPermitId publicationIdentity = .ok (r, db')) : db'.leases = db.leases := by
  obtain ⟨updated, -, heq⟩ := result_bind_eq_ok.1 hrun
  cases updated <;> cases heq <;> rfl

theorem leases_abandonWriteScopeTransfer {expectedVersion : Nat} {expectedPhase : TransferPhase}
    (hrun : db.abandonWriteScopeTransfer transferId expectedPhase expectedVersion = .ok (r, db')) :
    db'.leases = db.leases := by
  obtain ⟨updated, -, heq⟩ := result_bind_eq_ok.1 hrun
  cases updated <;> cases heq <;> rfl

theorem leases_casWriteScopeTransferPhase {cas : CasWriteScopeTransfer}
    (hrun : db.casWriteScopeTransferPhase cas = .ok (r, db')) : db'.leases = db.leases := by
  rw [casWriteScopeTransferPhase] at hrun
  split at hrun
  case isTrue => cases hrun
  obtain ⟨updated, -, heq⟩ := result_bind_eq_ok.1 hrun
  cases updated <;> cases heq <;> rfl

end Database

/-! ## Operations behind the preparation -/

/-- Whatever becomes of the operation, a lease stays beyond the generation. -/
def StaysBeyond {α : Type} (leaseId generation : Nat) (x : Op α) : Prop :=
  ∀ m : Machine, m.state.db.Beyond leaseId generation →
    Ensures x m fun _ m' => m'.state.db.Beyond leaseId generation

namespace StaysBeyond

variable {α β : Type} {leaseId generation : Nat} {x y : Op α} {f : α → Op β}

theorem pure (a : α) : StaysBeyond leaseId generation (pure a : Op α) :=
  fun _ h => Ensures.pure h

theorem fail (e : WriteScopeError) : StaysBeyond leaseId generation (fail e : Op α) :=
  fun _ h => Ensures.fail h

theorem bind (hx : StaysBeyond leaseId generation x) (hf : ∀ a, StaysBeyond leaseId generation (f a)) :
    StaysBeyond leaseId generation (x >>= f) :=
  fun m h => (hx m h).bind (fun a m' h' => hf a m' h') fun _ _ h' => h'

theorem ite {c : Prop} [Decidable c] (hx : StaysBeyond leaseId generation x)
    (hy : StaysBeyond leaseId generation y) : StaysBeyond leaseId generation (if c then x else y) :=
  fun m h => Ensures.ite (fun _ => hx m h) fun _ => hy m h

theorem view : StaysBeyond leaseId generation (view : Op Machine) :=
  fun _ h _ => h

theorem ask (g : Answers → α) : StaysBeyond leaseId generation (ask g) :=
  fun _ h _ => h

theorem updateTokens (g : List TokenCore → List TokenCore) :
    StaysBeyond leaseId generation (updateTokens g) :=
  fun _ h _ => h

theorem ofResult (r : Except WriteScopeError α) : StaysBeyond leaseId generation (ofResult r : Op α) := by
  cases r with
  | ok a => exact pure a
  | error e => exact fail e

theorem okOr (a : Option α) (e : WriteScopeError) : StaysBeyond leaseId generation (okOr a e : Op α) :=
  ofResult _

theorem query (context : String) (g : Database → α) : StaysBeyond leaseId generation (query context g) :=
  fun _ h => Ensures.read h h h

theorem execute (context : String) {g : Database → Except WriteScopeError (α × Database)}
    (hg : ∀ db a db', db.Beyond leaseId generation → g db = .ok (a, db') → db'.Beyond leaseId generation) :
    StaysBeyond leaseId generation (execute context g) := by
  intro m h
  refine Ensures.call (fun a m' hrun => ?_) (fun _ _ => h) h h
  cases hdb : g m.state.db with
  | error e =>
    rw [hdb] at hrun
    cases hrun
  | ok r =>
    rw [hdb] at hrun
    cases hrun
    have hbeyond := hg _ _ _ h hdb
    exact ⟨hbeyond, hbeyond⟩

theorem attempt (hx : StaysBeyond leaseId generation x) : StaysBeyond leaseId generation (attempt x) :=
  fun m h => Ensures.attempt (hx m h)

theorem atomically (hx : StaysBeyond leaseId generation x) : StaysBeyond leaseId generation (atomically x) :=
  fun m h => Ensures.atomically (hx m h)

theorem outcome (hx : StaysBeyond leaseId generation x) {m m' : Machine} {script : List Answer}
    {o : Outcome WriteScopeError α} (hm : m.state.db.Beyond leaseId generation)
    (h : Faults.outcome x m script = (o, m')) : m'.state.db.Beyond leaseId generation := by
  have hend := hx m hm script
  rwa [h] at hend

end StaysBeyond

section Operations

variable {α : Type} {leaseId generation : Nat}

theorem staysBeyond_casLease (id : Nat) (current : LeaseRow) (next : LeaseState) (newGeneration : Nat) :
    StaysBeyond leaseId generation (casLease id current next newGeneration) := by
  refine .ite (.bind (.fail _) fun _ => ?_) ?_
  all_goals
    refine .bind (.execute _ fun db a db' h hrun => Database.beyond_casWriteScopeLease h hrun) fun row => ?_
    cases row with
    | none => exact .pure _
    | some row => exact .ite (.bind (.updateTokens _) fun _ => .pure _) (.pure _)

theorem staysBeyond_releasePermitQuietly (permitId : Nat) :
    StaysBeyond leaseId generation (releasePermitQuietly permitId) :=
  .bind (.attempt (.execute _ fun _ _ _ h hrun =>
    h.of_leases (Database.leases_releaseWriteScopePermit hrun))) fun _ => .pure _

theorem staysBeyond_failFreeing (permitId : Nat) (err : WriteScopeError) :
    StaysBeyond leaseId generation (failFreeing permitId err : Op α) :=
  .bind (staysBeyond_releasePermitQuietly permitId) fun _ => .fail err

theorem staysBeyond_failEnding (ticket : ContainmentTicket) (permitId : Nat) (err : WriteScopeError) :
    StaysBeyond leaseId generation (failEnding ticket permitId err : Op α) :=
  .bind (.bind (.bind (.ask _) fun _ => .pure _) fun _ => staysBeyond_releasePermitQuietly permitId)
    fun _ => .fail err

theorem staysBeyond_unwindToActive (parentLeaseId : Nat) :
    StaysBeyond leaseId generation (unwindToActive parentLeaseId) := by
  refine .bind (.attempt (.query _ _)) fun found => ?_
  split
  · exact .ite (.bind (.attempt (staysBeyond_casLease _ _ _ _)) fun _ => .pure _) (.pure _)
  · exact .pure _

theorem staysBeyond_abandonAndUnwind (parentLeaseId transferId : Nat) :
    StaysBeyond leaseId generation (abandonAndUnwind parentLeaseId transferId) := by
  refine .bind (.attempt (.query _ _)) fun found => ?_
  split
  · refine .ite (.bind (.attempt (.execute _ fun _ _ _ h hrun =>
      h.of_leases (Database.leases_abandonWriteScopeTransfer hrun))) fun _ => ?_) ?_
    · exact staysBeyond_unwindToActive parentLeaseId
    · exact staysBeyond_unwindToActive parentLeaseId
  · exact staysBeyond_unwindToActive parentLeaseId

theorem staysBeyond_resolvedAncestor (resolve : Resolve) (request : TransferRequest) :
    StaysBeyond leaseId generation (resolvedAncestor resolve request) := by
  unfold resolvedAncestor
  split
  · exact .ofResult _
  · exact .pure _

theorem staysBeyond_reserveExecutionPermit (request : TransferRequest) (parent : LeaseRow) (ancestor : Path) :
    StaysBeyond leaseId generation (reserveExecutionPermit request parent ancestor) :=
  .bind (.ask _) fun _ => .bind (.execute _ fun _ _ _ h hrun =>
    h.of_leases (Database.leases_insertWriteScopePermit hrun)) fun _ => .pure _

theorem staysBeyond_recordOwnership (transferId permitId identity : Nat) (ticket : ContainmentTicket) :
    StaysBeyond leaseId generation (recordOwnership transferId permitId identity ticket) := by
  refine .bind (.attempt (.execute _ fun _ _ _ h hrun =>
    h.of_leases (Database.leases_attachWriteScopeTransferOwnership hrun))) fun recorded => ?_
  split
  · exact .pure _
  · exact staysBeyond_failEnding _ _ _
  · exact staysBeyond_failEnding _ _ _

/-- From the reservation of the permit to the release of user code. -/
theorem staysBeyond_acquire (resolve : Resolve) (request : TransferRequest) (transferId : Nat)
    (parent : LeaseRow) : StaysBeyond leaseId generation
      (acquireCapabilityPermitAndContainment resolve request transferId parent) := by
  refine .bind (staysBeyond_resolvedAncestor resolve request) fun ancestor =>
    .bind (staysBeyond_reserveExecutionPermit request parent ancestor) fun permitId =>
    .bind (.bind (.ask _) fun capability => .ite (staysBeyond_failFreeing permitId _) (.pure _)) fun _ =>
    .bind (.bind (.ask _) fun kind => .bind (.ask _) fun identity => ?_) fun identity =>
    .bind (.bind (.ask _) fun created => ?_) fun ticket =>
    .bind (staysBeyond_recordOwnership transferId permitId identity ticket) fun _ =>
    .bind (.bind (.ask _) fun released => ?_) fun _ => .pure _
  · split
    · exact .pure _
    · exact staysBeyond_failFreeing _ _
  · split
    · exact .pure _
    · exact staysBeyond_failFreeing _ _
  · split
    · exact .pure _
    · exact staysBeyond_failEnding _ _ _

theorem staysBeyond_excludeParent (transferId : Nat) (prepared : TransferRow) (acquired : AcquiredExecution) :
    StaysBeyond leaseId generation (excludeParent transferId prepared acquired) := by
  refine .ite (.bind (.fail _) fun _ => ?_) ?_
  all_goals
    exact .bind (.execute _ fun _ _ _ h hrun => h.of_leases (Database.leases_casWriteScopeTransferPhase hrun))
      fun _ => .ofResult _

theorem staysBeyond_activateChild (request : TransferRequest) (transferId : Nat) (excluded : TransferRow)
    (parent : LeaseRow) : StaysBeyond leaseId generation (activateChild request transferId excluded parent) :=
  .bind (.ask _) fun _ => .bind (.ask _) fun _ => .bind (.atomically (.execute _ fun _ _ _ h hrun =>
    Database.beyond_activateWriteScopeChild h hrun)) fun _ => .bind (.ofResult _) fun _ => .pure _

theorem staysBeyond_issueToken (id : Nat) (row : LeaseRow) :
    StaysBeyond leaseId generation (issueToken id row) :=
  .bind .view fun _ => .bind (.updateTokens _) fun _ => .pure _

theorem staysBeyond_finishTransfer (request : TransferRequest) (transferId : Nat) (prepared : TransferRow)
    (parent : LeaseRow) (acquired : AcquiredExecution) :
    StaysBeyond leaseId generation (finishTransfer request transferId prepared parent acquired) :=
  .bind (staysBeyond_excludeParent transferId prepared acquired) fun excluded =>
    .bind (staysBeyond_issueToken _ _) fun _ =>
    .bind (staysBeyond_activateChild request transferId excluded parent) fun _ =>
    .bind (staysBeyond_issueToken _ _) fun _ => .pure _

theorem staysBeyond_carryTransfer (resolve : Resolve) (request : TransferRequest) (transferId : Nat)
    (prepared : TransferRow) (parent : LeaseRow) :
    StaysBeyond leaseId generation (carryTransfer resolve request transferId prepared parent) := by
  have hrest : StaysBeyond leaseId generation (do
      let acquired ← acquireCapabilityPermitAndContainment resolve request transferId parent
      finishTransfer request transferId prepared parent acquired) :=
    .bind (staysBeyond_acquire resolve request transferId parent) fun acquired =>
      staysBeyond_finishTransfer request transferId prepared parent acquired
  exact .bind (.query _ _) fun _ => .ite (.bind (.fail _) fun _ => hrest) hrest

end Operations

/-! ## The preparation -/

/-- The checks in front of a transfer pass, given the row of its parent. -/
structure Machine.AdmitsTransfer (m : Machine) (request : TransferRequest) (row : LeaseRow) : Prop where
  intake : m.state.shuttingDown = false
  session : m.state.db.isSessionDeleting request.sessionId = false
  legal : row.state.canTransitionTo .transferring = true
  admits : (m.state.db.authority request.parentLeaseId row).admitsSubscope request.subScope = .ok ()

/-- The preparation of a transfer is stored: the checks pass, the backend is proven, the id of the
    transfer is new, and the four reads and the transaction proceed. -/
structure Machine.Prepares (m : Machine) (request : TransferRequest) (row : LeaseRow)
    (script : List Answer) : Prop where
  admits : m.AdmitsTransfer request row
  proven : ((m.env (m.tick + 1)).capabilityFor request.subScope request.mode).isProven = true
  fresh : m.state.db.transfers.lookup (m.env (m.tick + 3)).newId = none
  proceeds : Proceeds 5 script

section Preparation

variable {m m' : Machine} {request : TransferRequest} {row : LeaseRow} {resolve : Resolve}
  {script : List Answer} {e : WriteScopeError} {now : Int} {transferId : Nat}

theorem looks_admitTransfer (hrow : m.state.db.leases.lookup request.parentLeaseId = some row) :
    Looks (admitTransfer request) m 4 (m.AdmitsTransfer request row) row := by
  refine Looks.view_bind (Looks.ite (fun hclosed => Looks.fail_bind fun h => ?_) fun hopen => ?_)
  · rw [h.intake] at hclosed
    cases hclosed
  refine Looks.read_bind (k := 3)
    (Looks.ite (fun hdeleting => Looks.fail_bind fun h => ?_) fun halive => ?_) rfl
  · exact absurd (h.session.symm.trans hdeleting) Bool.false_ne_true
  refine (looks_lease hrow).bind (k := 2)
    (Looks.ite (fun hillegal => Looks.fail_bind fun h => ?_) fun hlegal => ?_) rfl (iff_of_eq (true_and _))
  · rw [h.legal] at hillegal
    cases hillegal
  refine (looks_effectiveAuthority hrow).bind (k := 0) ?_ rfl (iff_of_eq (true_and _))
  refine Looks.check.bind (Looks.pure trivial) rfl ?_
  rw [and_true]
  refine ⟨fun hadmits => ⟨?_, ?_, ?_, hadmits⟩, fun h => h.admits⟩
  · exact Bool.eq_false_iff.2 hopen
  · exact Bool.eq_false_iff.2 halive
  · simpa using hlegal

theorem outcome_ask_bind {α β : Type} {g : Answers → α} {f : α → Op β} :
    outcome (ask g >>= f) m script = outcome (f (g (m.env m.tick))) { m with tick := m.tick + 1 } script :=
  rfl

theorem outcome_prepareAndCarry_of_unproven
    (h : ((m.env (m.tick + 1)).capabilityFor request.subScope request.mode).isProven = false) :
    ∃ e, outcome (prepareAndCarry resolve request row) m script =
      (.error (.error e), { m with tick := m.tick + 2 }) := by
  unfold prepareAndCarry probeBackend
  simp only [bind_assoc, outcome_ask_bind, h]
  exact ⟨_, rfl⟩

theorem outcome_prepareAndCarry_of_proven
    (h : ((m.env (m.tick + 1)).capabilityFor request.subScope request.mode).isProven = true) :
    outcome (prepareAndCarry resolve request row) m script =
      outcome (execute "prepare: cas parent lease"
          (request.store row (m.env (m.tick + 2)).now (m.env (m.tick + 3)).newId) >>=
        carryStored resolve request (m.env (m.tick + 3)).newId) { m with tick := m.tick + 4 }
        ((answerAt script 0).honest :: script.drop 1) := by
  unfold execute
  rw [← outcome_atomically_call_bind]
  unfold prepareAndCarry probeBackend
  simp only [bind_assoc, outcome_ask_bind, h, Bool.not_true, Bool.false_eq_true, if_false, pure_bind]
  rfl

theorem store_of_fresh (hrow : m.state.db.leases.lookup request.parentLeaseId = some row)
    (hlegal : row.state.canTransitionTo .transferring = true)
    (hfresh : m.state.db.transfers.lookup transferId = none) :
    ∃ stored m₁, (request.store row now transferId m.state.db).map (fun r => (r.1, m.withDb r.2)) = .ok (stored, m₁) ∧
      m₁.state.db.Beyond request.parentLeaseId row.generation := by
  rw [TransferRequest.store, Database.prepareWriteScopeTransfer_of hrow hlegal (Nat.le_succ _) hfresh]
  exact ⟨_, _, rfl, _, AList.lookup_insert _, Nat.lt_succ_self _⟩

theorem store_of_taken (hrow : m.state.db.leases.lookup request.parentLeaseId = some row)
    (hlegal : row.state.canTransitionTo .transferring = true)
    (htaken : m.state.db.transfers.lookup transferId ≠ none) :
    ∃ e, (request.store row now transferId m.state.db).map (fun r => (r.1, m.withDb r.2)) = .error e := by
  rw [TransferRequest.store, Database.prepareWriteScopeTransfer]
  simp only [Database.swapLease_of hrow hlegal (Nat.le_succ row.generation), hlegal, Nat.not_lt.2 (Nat.le_succ _),
    if_false, Bool.not_true, Bool.false_eq_true]
  have hinsert : ∀ context, insertRow m.state.db.transfers transferId (request.preparedRow row now) context =
      .error (.internal context) := fun context => if_pos (Option.isSome_iff_ne_none.2 htaken)
  change ∃ e, (((insertRow m.state.db.transfers transferId (request.preparedRow row now) _ >>= _) :
    Except WriteScopeError _).map _) = .error e
  rw [hinsert]
  exact ⟨_, rfl⟩

theorem staysBeyond_carryStored {leaseId generation : Nat}
    {stored : Option (LeaseRow × TransferRow)} :
    StaysBeyond leaseId generation (carryStored resolve request transferId stored) := by
  refine .bind (.okOr _ _) fun prepared => .bind (.updateTokens _) fun _ =>
    .bind (.attempt (staysBeyond_carryTransfer _ _ _ _ _)) fun r => ?_
  cases r with
  | ok handle => exact .pure handle
  | error err => exact .bind (staysBeyond_abandonAndUnwind _ _) fun _ => .fail err

/-- A call that fails has changed no lease and no token, or its parent's lease is beyond the generation
    it had. -/
theorem beginTransfer_error_cases (hrow : m.state.db.leases.lookup request.parentLeaseId = some row)
    (h : outcome (beginTransfer resolve request) m script = (.error (.error e), m')) :
    (¬m.Prepares request row script ∧ m'.state = m.state) ∨
      (m.Prepares request row script ∧ m'.state.db.Beyond request.parentLeaseId row.generation) := by
  rw [beginTransfer] at h
  rcases (looks_admitTransfer hrow).outcome_bind script with ⟨hproceeds, hadmits, hrest⟩ | ⟨hnot, e', hended⟩
  case inr =>
    rw [hended] at h
    cases h
    refine .inl ⟨fun hprepares => hnot ⟨fun i hi => hprepares.proceeds i ?_, hprepares.admits⟩, rfl⟩
    exact Nat.lt_succ_of_lt hi
  rw [hrest] at h
  cases hproven : ((m.env (m.tick + 1)).capabilityFor request.subScope request.mode).isProven with
  | false =>
    obtain ⟨e', hended⟩ := @outcome_prepareAndCarry_of_unproven m request row resolve (script.drop 4) hproven
    rw [hended] at h
    cases h
    refine .inl ⟨fun hprepares => ?_, rfl⟩
    exact absurd (hproven.symm.trans hprepares.proven) Bool.false_ne_true
  | true =>
    rw [outcome_prepareAndCarry_of_proven hproven, answerAt_drop] at h
    by_cases hfresh : m.state.db.transfers.lookup (m.env (m.tick + 3)).newId = none
    case neg =>
      obtain ⟨e', hstore⟩ := @store_of_taken { m with tick := m.tick + 4 } request row
        (m.env (m.tick + 2)).now _ hrow hadmits.legal hfresh
      refine .inl ⟨fun hprepares => hfresh hprepares.fresh, ?_⟩
      rw [store_of_rejected h hstore]
    by_cases hanswer : answerAt script 4 = .proceed
    case neg =>
      refine .inl ⟨fun hprepares => hanswer (hprepares.proceeds 4 (by decide)), ?_⟩
      rw [store_of_held_back h hanswer]
    refine .inr ⟨⟨hadmits, hproven, hfresh, fun i hi => ?_⟩, ?_⟩
    · rcases Nat.lt_succ_iff_lt_or_eq.1 hi with hi | rfl
      · exact hproceeds i hi
      · exact hanswer
    -- The rest of the call starts beyond the generation and stays there.
    obtain ⟨stored, m₁, hstore, hstart⟩ := @store_of_fresh { m with tick := m.tick + 4 } request row
      (m.env (m.tick + 2)).now _ hrow hadmits.legal hfresh
    rw [hanswer, execute, outcome_call_bind_of_ok rfl hstore rfl] at h
    exact staysBeyond_carryStored.outcome hstart h

end Preparation

/-! ## What the holder can do afterwards -/

/-- The token can obtain a permit for the target, in some surroundings. -/
def Machine.Obtains (m : Machine) (resolve : Resolve) (token : WriteScopeToken) (target : Path)
    (kind : MutationKind) : Prop :=
  ∃ env script permit m', outcome (acquireMutationPermit resolve resolve token target kind) { m with env } script =
    (.ok permit, m')

section Holder

variable {m : Machine} {resolve : Resolve} {token : WriteScopeToken} {target effective : Path} {kind : MutationKind}

theorem exists_fresh {ν : Type} (t : Table Nat ν) : ∃ id, t.lookup id = none := by
  obtain ⟨id, hid⟩ := Infinite.exists_notMem_finset t.keys.toFinset
  rw [List.mem_toFinset, ← AList.mem_keys] at hid
  exact ⟨id, AList.lookup_eq_none.2 hid⟩

theorem confirmPermit_of_same {footprint : PermitFootprint} {permitId : Nat}
    (h : resolve target = .ok footprint.target) :
    confirmPermit resolve target footprint permitId = pure ⟨permitId, target, footprint.target, footprint⟩ := by
  have hresolved : (resolved resolve target : Op Path) = pure footprint.target := by
    rw [resolved, h]
    rfl
  rw [confirmPermit, hresolved, pure_bind, if_neg (not_not.2 rfl)]

/-- Where storage answers and the new id is unused, an admitted target gets its permit. -/
theorem Machine.Admits.obtains (h : m.Admits resolve token target kind effective) :
    m.Obtains resolve token target kind := by
  obtain ⟨id, hfresh⟩ := exists_fresh m.state.db.permits
  obtain ⟨row, hrow, -⟩ := h.lease
  refine ⟨fun _ => { m.env 0 with newId := id }, [], ?_⟩
  have hlooks := @looks_admitMutation { m with env := fun _ => { m.env 0 with newId := id } } token row resolve
    target effective kind hrow h.resolves
  rcases hlooks.outcome_bind [] with ⟨-, -, hrest⟩ | ⟨hnot, -⟩
  · rw [acquireMutationPermit, hrest, outcome_recordAndConfirm, execute, outcome_call_bind_of_ok rfl (insert_of_fresh hfresh) rfl,
      confirmPermit_of_same h.resolves]
    exact ⟨_, _, rfl⟩
  · exact absurd ⟨fun _ _ => rfl, ⟨h.lease, h.valid, h.resolves, h.free⟩⟩ hnot

/-- A token of an older generation obtains nothing. -/
theorem not_obtains_of_beyond (h : m.state.db.Beyond token.leaseId token.generation) :
    ¬m.Obtains resolve token target kind := by
  rintro ⟨env, script, permit, m', hrun⟩
  obtain ⟨row, hrow, hlt⟩ := h
  have hrefuses : Refuses (validateToken token) { m with env } :=
    (@looks_validateToken { m with env } token row hrow).refuses fun hcurrent => Nat.ne_of_gt hlt hcurrent.2
  obtain ⟨e, hended⟩ := ((hrefuses.bind _).bind _).outcome script
  rw [acquireMutationPermit, admitMutation, hended] at hrun
  cases hrun

end Holder

/-- A delegation that fails leaves the holder of its parent's token what it could write, exactly if the
    preparation was not stored or there was nothing to write. -/
theorem failed_delegation_keeps_holder_iff {m m' : Machine} {resolve : Resolve} {request : TransferRequest}
    {row : LeaseRow} {token : WriteScopeToken} {script : List Answer} {e : WriteScopeError}
    (hrow : m.state.db.leases.lookup request.parentLeaseId = some row)
    (hholder : token.leaseId = request.parentLeaseId) (hgeneration : row.generation = token.generation)
    (h : outcome (beginTransfer resolve request) m script = (.error (.error e), m')) :
    (∀ resolve target kind effective, m.Admits resolve token target kind effective →
        m'.Obtains resolve token target kind) ↔
      ¬m.Prepares request row script ∨
        ∀ resolve target kind effective, ¬m.Admits resolve token target kind effective := by
  rcases beginTransfer_error_cases hrow h with ⟨hnot, hstate⟩ | ⟨hprepares, hbeyond⟩
  · refine iff_of_true (fun resolve target kind effective hadmits => ?_) (.inl hnot)
    have hsame : m'.Admits resolve token target kind effective := by
      obtain ⟨hlease, hvalid, hresolves, hfree⟩ := hadmits
      exact ⟨by rwa [hstate], by rwa [hstate], hresolves, by rwa [hstate]⟩
    exact hsame.obtains
  · rw [← hholder, hgeneration] at hbeyond
    constructor
    · intro hobtains
      refine .inr fun resolve target kind effective hadmits => ?_
      exact not_obtains_of_beyond hbeyond (hobtains resolve target kind effective hadmits)
    · intro hcondition resolve target kind effective hadmits
      rcases hcondition with hnot | hnone
      · exact absurd hprepares hnot
      · exact absurd hadmits (hnone resolve target kind effective)

/-! ## Containment that cannot be created -/

/-- Surroundings with a proven backend that can create no containment. -/
def provenSurroundings (tick : Nat) : Answers :=
  { bareSurroundings tick with
    capabilityFor := fun _ _ => .proven ⟨true, true, true, true, true, true⟩
    targetIdentity := fun _ => some 7 }

/-- A fresh coordinator that has opened the root lease of a session. -/
def delegatorOpened : Machine := (outcome (openRootLease 1 ⟨["ws"]⟩) ⟨{}, provenSurroundings, 0⟩ []).2

def subRequest : TransferRequest where
  parentLeaseId := 1
  sessionId := 1
  subScope := ⟨["ws", "sub"]⟩
  mode := .native

def afterDelegation : Machine := (outcome (beginTransfer .ok subRequest) delegatorOpened []).2

def openedRow : LeaseRow where
  parentLeaseId := none
  sessionId := 1
  scopePath := ["ws"]
  generation := 1
  state := .active
  version := 1
  createdAt := 0

theorem failed_delegation_keeps_holder_uncontained :
    outcome (beginTransfer .ok subRequest) delegatorOpened [] =
        (.error (.error (.internal "no containment")), afterDelegation) ∧
      ((∀ resolve target kind effective, delegatorOpened.Admits resolve rootToken target kind effective →
          afterDelegation.Obtains resolve rootToken target kind) ↔
        ¬delegatorOpened.Prepares subRequest openedRow [] ∨
          ∀ resolve target kind effective, ¬delegatorOpened.Admits resolve rootToken target kind effective) := by
  have hrun : outcome (beginTransfer .ok subRequest) delegatorOpened [] =
      (.error (.error (.internal "no containment")), afterDelegation) := Prod.ext rfl rfl
  exact ⟨hrun, failed_delegation_keeps_holder_iff rfl rfl rfl hrun⟩

/-- The backend is proven and creates no containment: the call fails, the parent's lease is active again at
    the third generation, and its holder still has the token of the first. -/
theorem failed_delegation_strands_holder :
    (outcome (openRootLease 1 ⟨["ws"]⟩) ⟨{}, provenSurroundings, 0⟩ []).1 = .ok (1, rootToken) ∧
      delegatorOpened.Admits .ok rootToken ["ws", "a"] .create ["ws", "a"] ∧
      (outcome (beginTransfer .ok subRequest) delegatorOpened []).1 = .error (.error (.internal "no containment")) ∧
      (outcome (acquireMutationPermit .ok .ok rootToken ["ws", "a"] .create) afterDelegation []).1 =
        .error (.error (.staleGeneration 1 1 3)) ∧
      ¬afterDelegation.Obtains .ok rootToken ["ws", "a"] .create :=
  ⟨rfl, ⟨⟨_, rfl, rfl, rfl⟩, rfl, rfl, rfl⟩, rfl, rfl, not_obtains_of_beyond ⟨_, rfl, Nat.lt_of_sub_eq_succ rfl⟩⟩

end FlyCockpit.WriteScope
