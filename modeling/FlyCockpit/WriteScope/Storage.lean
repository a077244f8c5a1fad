-- SUMMARY: The tables of leases, transfers and permits, and the statements that change them.
import FlyCockpit.Lib.Fallible
import FlyCockpit.Lib.Table
import FlyCockpit.WriteScope.Scope

/-!
# Durable leases, transfers and permits

Rows live in three tables under their primary keys. A statement that changes a row is a
compare-and-swap on what its caller read, and the triggers of the tables refuse illegal moves on
their own. Paths are kept as text; they stand here as the paths themselves.
-/

namespace FlyCockpit.WriteScope

open Fallible

structure LeaseRow where
  /-- Absent for the root authority of a session. -/
  parentLeaseId : Option Nat
  sessionId : Nat
  scopePath : Path
  generation : Nat
  state : LeaseState
  version : Nat
  createdAt : Int
  deriving DecidableEq, Repr

structure TransferRow where
  sessionId : Nat
  parentLeaseId : Nat
  childLeaseId : Option Nat
  subScopePath : Path
  phase : TransferPhase
  prepareParentGeneration : Nat
  containmentId : Option Nat
  /-- The containment's own counter, never a lease generation. -/
  containmentGeneration : Option Nat
  publicationIdentity : Option Nat
  executionPermitId : Option Nat
  version : Nat
  createdAt : Int
  deriving DecidableEq, Repr

inductive PermitState
  | held
  | released
  deriving DecidableEq, Repr

structure PermitRow where
  sessionId : Nat
  leaseId : Nat
  generation : Nat
  kind : PermitKind
  influenceKind : MutationKind
  influenceRoot : Path
  targetPath : Path
  state : PermitState
  deriving DecidableEq, Repr

structure CasWriteScopeLease where
  leaseId : Nat
  expectedState : LeaseState
  expectedGeneration : Nat
  expectedVersion : Nat
  newState : LeaseState
  newGeneration : Nat

/-- The optional fields are written where they are present. -/
structure CasPatch where
  containmentId : Option Nat := none
  containmentGeneration : Option Nat := none
  publicationIdentity : Option (Option Nat) := none
  executionPermitId : Option Nat := none

structure CasWriteScopeTransfer where
  transferId : Nat
  expectedPhase : TransferPhase
  expectedVersion : Nat
  newPhase : TransferPhase
  patch : CasPatch := {}

/-- A lease in its next state. -/
def LeaseRow.moved (row : LeaseRow) (state : LeaseState) (generation : Nat) : LeaseRow :=
  { row with state, generation, version := row.version + 1 }

/-- A transfer in its next phase, with the fields of a patch written. -/
def TransferRow.advanced (row : TransferRow) (phase : TransferPhase) (patch : CasPatch) :
    TransferRow :=
  { row with
    phase
    containmentId := patch.containmentId <|> row.containmentId
    containmentGeneration := patch.containmentGeneration <|> row.containmentGeneration
    publicationIdentity := patch.publicationIdentity.getD row.publicationIdentity
    executionPermitId := patch.executionPermitId <|> row.executionPermitId
    version := row.version + 1 }

/-- A transfer with its ticket, its permit and the identity of its target recorded. -/
def TransferRow.attached (row : TransferRow) (containmentId containmentGeneration
    executionPermitId : Nat) (publicationIdentity : Option Nat) : TransferRow :=
  { row with
    containmentId := some containmentId
    containmentGeneration := some containmentGeneration
    executionPermitId := some executionPermitId
    publicationIdentity }

/-- A transfer whose child starts. -/
def TransferRow.activated (row : TransferRow) (childId : Nat) (phase : TransferPhase) :
    TransferRow :=
  { row with phase, childLeaseId := some childId, version := row.version + 1 }

/-- A transfer that is closed without a child. -/
def TransferRow.abandoned (row : TransferRow) : TransferRow :=
  { row with phase := .committed, version := row.version + 1 }

def PermitRow.freed (row : PermitRow) : PermitRow := { row with state := .released }

/-! ## Triggers -/

/-- Generations never decrement, a state change is legal and moves the version, and the scope is
fixed. -/
def LeaseRow.accepts (old new : LeaseRow) : Bool :=
  decide (old.generation ≤ new.generation) && (new.state == old.state ||
      decide (old.version < new.version) && old.state.canTransitionTo new.state) &&
    new.scopePath == old.scopePath

/-- Phases advance by one step, or close a transfer that has no child; the child is written once and
the sub-scope is fixed. -/
def TransferRow.accepts (old new : TransferRow) : Bool :=
  (decide (new.phase.ordinal ≤ old.phase.ordinal + 1) ||
      new.phase == .committed && old.childLeaseId.isNone) &&
    decide (old.phase.ordinal ≤ new.phase.ordinal) &&
    (old.childLeaseId.isNone || new.childLeaseId == old.childLeaseId) &&
    new.subScopePath == old.subScopePath

/-- A released permit is final, and what it influences is fixed. -/
def PermitRow.accepts (old new : PermitRow) : Bool :=
  (old.state == .held || new.state == .released) &&
    new.influenceRoot == old.influenceRoot && new.kind == old.kind

/-! ## Statements -/

section Statements

variable {ν : Type}

/-- Fails on a primary key that is taken. -/
def insertRow (t : Table Nat ν) (id : Nat) (row : ν) (context : String) :
    Except WriteScopeError (Table Nat ν) :=
  if (t.lookup id).isSome then .error (.internal context) else .ok (t.insert id row)

/-- The row after an update, unless none meets the condition. -/
def updateRow (t : Table Nat ν) (id : Nat) (condition : ν → Bool) (accepts : ν → ν → Bool)
    (f : ν → ν) (context : String) : Except WriteScopeError (Option (ν × Table Nat ν)) :=
  match t.lookup id with
  | none => .ok none
  | some row =>
    if condition row then
      if accepts row (f row) then .ok (some (f row, t.insert id (f row)))
      else .error (.internal context)
    else .ok none

/-- The rows of a table with their keys, oldest first. -/
def sortedRows (createdAt : ν → Int) (t : Table Nat ν) : List (Nat × ν) :=
  (t.entries.map fun e => (e.1, e.2)).insertionSort fun a b =>
    createdAt a.2 < createdAt b.2 ∨ createdAt a.2 = createdAt b.2 ∧ a.1 ≤ b.1

variable {t t' : Table Nat ν} {id : Nat} {row : ν} {condition : ν → Bool} {accepts : ν → ν → Bool}
  {f : ν → ν} {context : String}

theorem insertRow_eq_ok : insertRow t id row context = .ok t' ↔
    t.lookup id = none ∧ t.insert id row = t' := by
  rw [insertRow]
  cases t.lookup id <;> simp

theorem updateRow_cases {r : Option (ν × Table Nat ν)}
    (h : updateRow t id condition accepts f context = .ok r) :
    (r = none ∧ ∀ row, t.lookup id = some row → condition row = false) ∨
      ∃ row, t.lookup id = some row ∧ condition row = true ∧ accepts row (f row) = true ∧
        r = some (f row, t.insert id (f row)) := by
  rw [updateRow] at h
  cases hrow : t.lookup id with
  | none =>
    rw [hrow] at h
    cases h
    exact .inl ⟨rfl, fun row' hrow' => absurd hrow' (by simp)⟩
  | some row =>
    simp only [hrow] at h
    split at h
    case isFalse hcondition =>
      cases h
      refine .inl ⟨rfl, fun row' hrow' => ?_⟩
      obtain rfl := Option.some.inj hrow'
      simpa using hcondition
    case isTrue hcondition =>
      split at h
      case isFalse => cases h
      case isTrue haccepts =>
        cases h
        exact .inr ⟨row, rfl, hcondition, haccepts, rfl⟩

theorem updateRow_of (hrow : t.lookup id = some row) (hcondition : condition row = true)
    (haccepts : accepts row (f row) = true) :
    updateRow t id condition accepts f context = .ok (some (f row, t.insert id (f row))) := by
  simp [updateRow, hrow, hcondition, haccepts]

end Statements

structure Database where
  leases : Table Nat LeaseRow := ∅
  transfers : Table Nat TransferRow := ∅
  permits : Table Nat PermitRow := ∅
  /-- The sessions that are being deleted. -/
  deleting : List Nat := []

namespace Database

def insertWriteScopeLease (leaseId : Nat) (row : LeaseRow) (db : Database) :
    Except WriteScopeError (LeaseRow × Database) := do
  let leases ← insertRow db.leases leaseId row "inserting write_scope_lease"
  return (row, { db with leases })

/-- The parent's row under a compare-and-swap, without the checks in front of it. -/
def swapLease (cas : CasWriteScopeLease) (context : String) (db : Database) :
    Except WriteScopeError (Option (LeaseRow × Table Nat LeaseRow)) :=
  updateRow db.leases cas.leaseId
    (fun row => row.state == cas.expectedState && row.generation == cas.expectedGeneration &&
      row.version == cas.expectedVersion)
    LeaseRow.accepts
    (·.moved cas.newState cas.newGeneration)
    context

def illegalLeaseTransition (before after : LeaseState) : WriteScopeError :=
  .internal s!"illegal write scope lease transition: {before.asStr} -> {after.asStr}"

def casWriteScopeLease (cas : CasWriteScopeLease) (db : Database) :
    Except WriteScopeError (Option LeaseRow × Database) := do
  if cas.newGeneration < cas.expectedGeneration then
    throw (.internal s!"lease generation would decrement: {cas.expectedGeneration} -> {cas.newGeneration}")
  if cas.expectedState ≠ cas.newState && !cas.expectedState.canTransitionTo cas.newState then
    throw (illegalLeaseTransition cas.expectedState cas.newState)
  match ← swapLease cas "cas write_scope_lease" db with
  | none => return (none, db)
  | some (row, leases) => return (some row, { db with leases })

/-- The swap of the parent's row and the insertion of the transfer, in one transaction. -/
def prepareWriteScopeTransfer (cas : CasWriteScopeLease) (transferId : Nat) (row : TransferRow)
    (db : Database) : Except WriteScopeError (Option (LeaseRow × TransferRow) × Database) := do
  if !cas.expectedState.canTransitionTo cas.newState then
    throw (illegalLeaseTransition cas.expectedState cas.newState)
  if cas.newGeneration < cas.expectedGeneration then
    throw (.internal "lease generation would decrement")
  match ← swapLease cas "prepare: cas parent lease" db with
  | none => return (none, db)
  | some (parent, leases) =>
    let transfers ← insertRow db.transfers transferId row "prepare: insert transfer"
    return (some (parent, row), { db with leases, transfers })

/-- Writes the ticket, the permit and the identity of a transfer that is still prepared. The version
stays, so that the row its caller read remains valid. -/
def attachWriteScopeTransferOwnership (transferId containmentId containmentGeneration
    executionPermitId : Nat) (publicationIdentity : Option Nat) (db : Database) :
    Except WriteScopeError (Option TransferRow × Database) := do
  let updated ← updateRow db.transfers transferId (·.phase == .prepared) TransferRow.accepts
    (·.attached containmentId containmentGeneration executionPermitId publicationIdentity)
    "attach write_scope_transfer ownership"
  match updated with
  | none => return (none, db)
  | some (row, transfers) => return (some row, { db with transfers })

/-- The child's lease, its transfer and its parent's state, in one transaction. -/
def activateWriteScopeChild (childId : Nat) (child : LeaseRow) (transferCas : CasWriteScopeTransfer)
    (parentCas : CasWriteScopeLease) (db : Database) :
    Except WriteScopeError (Option (LeaseRow × TransferRow × LeaseRow) × Database) := do
  if !parentCas.expectedState.canTransitionTo parentCas.newState then
    throw (illegalLeaseTransition parentCas.expectedState parentCas.newState)
  let leases ← insertRow db.leases childId child "activate: insert child lease"
  let attached ← updateRow db.transfers transferCas.transferId
    (fun row => row.phase == transferCas.expectedPhase && row.version == transferCas.expectedVersion)
    TransferRow.accepts
    (·.activated childId transferCas.newPhase)
    "activate: attach child to transfer"
  match attached with
  | none => return (none, db)
  | some (transfer, transfers) =>
    match ← swapLease parentCas "activate: move parent to delegated" { db with leases } with
    | none => return (none, db)
    | some (parent, leases) =>
      return (some (child, transfer, parent), { db with leases, transfers })

/-- Closes a transfer that never had a child. -/
def abandonWriteScopeTransfer (transferId : Nat) (expectedPhase : TransferPhase)
    (expectedVersion : Nat) (db : Database) :
    Except WriteScopeError (Option TransferRow × Database) := do
  let updated ← updateRow db.transfers transferId
    (fun row => row.phase == expectedPhase && row.version == expectedVersion &&
      row.childLeaseId.isNone)
    TransferRow.accepts
    TransferRow.abandoned
    "abandon write_scope_transfer"
  match updated with
  | none => return (none, db)
  | some (row, transfers) => return (some row, { db with transfers })

def casWriteScopeTransferPhase (cas : CasWriteScopeTransfer) (db : Database) :
    Except WriteScopeError (Option TransferRow × Database) := do
  if cas.newPhase.ordinal ≠ cas.expectedPhase.ordinal + 1 then
    throw (.internal ("write scope transfer phase must advance one step: " ++
      s!"{cas.expectedPhase.asStr} -> {cas.newPhase.asStr}"))
  let updated ← updateRow db.transfers cas.transferId
    (fun row => row.phase == cas.expectedPhase && row.version == cas.expectedVersion)
    TransferRow.accepts
    (·.advanced cas.newPhase cas.patch)
    "cas write_scope_transfer phase"
  match updated with
  | none => return (none, db)
  | some (row, transfers) => return (some row, { db with transfers })

def insertWriteScopePermit (permitId : Nat) (row : PermitRow) (db : Database) :
    Except WriteScopeError (PermitRow × Database) := do
  let permits ← insertRow db.permits permitId row "inserting write_scope_permit"
  return (row, { db with permits })

def releaseWriteScopePermit (permitId : Nat) (db : Database) :
    Except WriteScopeError (Option PermitRow × Database) := do
  let updated ← updateRow db.permits permitId (·.state == .held) PermitRow.accepts
    PermitRow.freed "releasing write_scope_permit"
  match updated with
  | none => return (none, db)
  | some (row, permits) => return (some row, { db with permits })

/-! ## What the statements do -/

section Effects

variable {db db' : Database} {row : LeaseRow} {t : TransferRow} {cas : CasWriteScopeLease}

/-- The row a compare-and-swap found is the one its caller expected. -/
structure Expected (cas : CasWriteScopeLease) (row : LeaseRow) (db : Database) : Prop where
  lookup : db.leases.lookup cas.leaseId = some row
  state : row.state = cas.expectedState
  generation : row.generation = cas.expectedGeneration
  version : row.version = cas.expectedVersion

theorem swapLease_cases {context : String}
    {r : Option (LeaseRow × Table Nat LeaseRow)} (h : db.swapLease cas context = .ok r) :
    (r = none ∧ ∀ row, ¬Expected cas row db) ∨
      ∃ row, Expected cas row db ∧ row.accepts (row.moved cas.newState cas.newGeneration) ∧
        r = some (row.moved cas.newState cas.newGeneration,
          db.leases.insert cas.leaseId (row.moved cas.newState cas.newGeneration)) := by
  refine (updateRow_cases h).imp ?_ ?_
  · rintro ⟨rfl, hnone⟩
    refine ⟨rfl, ?_⟩
    rintro row ⟨hrow, hstate, hgeneration, hversion⟩
    simpa [hstate, hgeneration, hversion] using hnone row hrow
  · rintro ⟨row, hrow, hcondition, haccepts, hr⟩
    simp only [Bool.and_eq_true, beq_iff_eq] at hcondition
    obtain ⟨⟨hstate, hgeneration⟩, hversion⟩ := hcondition
    exact ⟨row, ⟨hrow, hstate, hgeneration, hversion⟩, haccepts, hr⟩

theorem casWriteScopeLease_cases {r : Option LeaseRow}
    (h : db.casWriteScopeLease cas = .ok (r, db')) :
    (∀ row, ¬Expected cas row db) ∧ r = none ∧ db' = db ∨
      ∃ row, Expected cas row db ∧ row.accepts (row.moved cas.newState cas.newGeneration) ∧
        r = some (row.moved cas.newState cas.newGeneration) ∧
        db' = { db with
          leases := db.leases.insert cas.leaseId (row.moved cas.newState cas.newGeneration) } := by
  rw [casWriteScopeLease] at h
  split at h
  case isTrue => cases h
  split at h
  case isTrue => cases h
  obtain ⟨swapped, hswap, heq⟩ := result_bind_eq_ok.1 h
  obtain ⟨rfl, hnone⟩ | ⟨row, hexpected, haccepts, rfl⟩ := swapLease_cases hswap
  · cases heq
    exact .inl ⟨hnone, rfl, rfl⟩
  · cases heq
    exact .inr ⟨row, hexpected, haccepts, rfl, rfl⟩

/-- The tables with a transfer prepared. -/
abbrev prepared (leaseId : Nat) (row : LeaseRow) (transferId : Nat) (t : TransferRow)
    (db : Database) : Database :=
  { db with
    leases := db.leases.insert leaseId row
    transfers := db.transfers.insert transferId t }

theorem activateWriteScopeChild_cases {childId : Nat} {transferCas : CasWriteScopeTransfer}
    {parentCas : CasWriteScopeLease} {r : Option (LeaseRow × TransferRow × LeaseRow)}
    (h : db.activateWriteScopeChild childId row transferCas parentCas = .ok (r, db')) :
    r = none ∧ db' = db ∨ ∃ t parent, db.leases.lookup childId = none ∧
        db.transfers.lookup transferCas.transferId = some t ∧
        t.phase = transferCas.expectedPhase ∧ t.version = transferCas.expectedVersion ∧
        t.accepts (t.activated childId transferCas.newPhase) ∧
        Expected parentCas parent { db with leases := db.leases.insert childId row } ∧
        parent.accepts (parent.moved parentCas.newState parentCas.newGeneration) ∧
        r = some (row, t.activated childId transferCas.newPhase,
          parent.moved parentCas.newState parentCas.newGeneration) ∧
        db' = { db with
          leases := (db.leases.insert childId row).insert parentCas.leaseId
            (parent.moved parentCas.newState parentCas.newGeneration)
          transfers := db.transfers.insert transferCas.transferId
            (t.activated childId transferCas.newPhase) } := by
  rw [activateWriteScopeChild] at h
  split at h
  case isTrue => cases h
  obtain ⟨leases, hinsert, h⟩ := result_bind_eq_ok.1 h
  obtain ⟨hfresh, rfl⟩ := insertRow_eq_ok.1 hinsert
  obtain ⟨updated, hupdate, h⟩ := result_bind_eq_ok.1 h
  obtain ⟨rfl, -⟩ | ⟨t, ht, hcondition, haccepts, rfl⟩ := updateRow_cases hupdate
  · cases h
    exact .inl ⟨rfl, rfl⟩
  simp only [Bool.and_eq_true, beq_iff_eq] at hcondition
  obtain ⟨swapped, hswap, heq⟩ := result_bind_eq_ok.1 h
  obtain ⟨rfl, -⟩ | ⟨parent, hexpected, hmoved, rfl⟩ := swapLease_cases hswap
  · cases heq
    exact .inl ⟨rfl, rfl⟩
  · cases heq
    exact .inr ⟨t, parent, hfresh, ht, hcondition.1, hcondition.2, haccepts, hexpected, hmoved, rfl, rfl⟩

end Effects

/-! ## Statements that succeed -/

section Successes

variable {db : Database} {row : LeaseRow} {t : TransferRow} {p : PermitRow} {state : LeaseState}
  {generation : Nat} {leaseId permitId : Nat}

theorem accepts_moved
    (hlegal : row.state.canTransitionTo state = true) (hgeneration : row.generation ≤ generation) :
    row.accepts (row.moved state generation) = true := by
  simp [LeaseRow.accepts, LeaseRow.moved, hlegal, hgeneration]

theorem swapLease_of {context : String}
    (hrow : db.leases.lookup leaseId = some row) (hlegal : row.state.canTransitionTo state = true)
    (hgeneration : row.generation ≤ generation) :
    db.swapLease ⟨leaseId, row.state, row.generation, row.version, state, generation⟩ context =
      .ok (some (row.moved state generation,
        db.leases.insert leaseId (row.moved state generation))) := by
  rw [swapLease, updateRow_of hrow (by simp) (accepts_moved hlegal hgeneration)]

theorem prepareWriteScopeTransfer_of {transferId : Nat}
    (hrow : db.leases.lookup leaseId = some row) (hlegal : row.state.canTransitionTo state = true)
    (hgeneration : row.generation ≤ generation) (hfresh : db.transfers.lookup transferId = none) :
    db.prepareWriteScopeTransfer
        ⟨leaseId, row.state, row.generation, row.version, state, generation⟩ transferId t =
      .ok (some (row.moved state generation, t),
        db.prepared leaseId (row.moved state generation) transferId t) := by
  have hinsert : ∀ context, insertRow db.transfers transferId t context =
      .ok (db.transfers.insert transferId t) :=
    fun context => insertRow_eq_ok.2 ⟨hfresh, rfl⟩
  rw [prepareWriteScopeTransfer]
  simp only [swapLease_of hrow hlegal hgeneration, hlegal, Nat.not_lt.2 hgeneration, if_false,
    Bool.not_true, Bool.false_eq_true]
  change (insertRow db.transfers transferId t _ >>= _) = _
  rw [hinsert]
  rfl

theorem insertWriteScopePermit_of (hfresh : db.permits.lookup permitId = none) :
    db.insertWriteScopePermit permitId p =
      .ok (p, { db with permits := db.permits.insert permitId p }) := by
  rw [insertWriteScopePermit, insertRow_eq_ok.2 ⟨hfresh, rfl⟩]
  rfl

theorem releaseWriteScopePermit_of (hp : db.permits.lookup permitId = some p)
    (hheld : p.state = .held) :
    db.releaseWriteScopePermit permitId =
      .ok (some p.freed, { db with permits := db.permits.insert permitId p.freed }) := by
  rw [releaseWriteScopePermit, updateRow_of hp (by simp [hheld])
    (by simp [PermitRow.accepts, PermitRow.freed])]
  rfl

end Successes

/-! ## Queries -/

def isSessionDeleting (sessionId : Nat) (db : Database) : Bool := db.deleting.contains sessionId

def listWriteScopeTransfersForParent (parentLeaseId : Nat) (db : Database) :
    List (Nat × TransferRow) :=
  (sortedRows TransferRow.createdAt db.transfers).filter fun e => e.2.parentLeaseId == parentLeaseId

def getWriteScopeTransferByExecutionPermit (permitId : Nat) (db : Database) :
    Option (Nat × TransferRow) :=
  (sortedRows TransferRow.createdAt db.transfers).find? fun e =>
    e.2.executionPermitId == some permitId

def listHeldWriteScopePermits (sessionId : Option Nat) (db : Database) : List (Nat × PermitRow) :=
  (db.permits.entries.map fun e => (e.1, e.2)).filter fun e =>
    sessionId.all (· == e.2.sessionId) && e.2.state == .held

end Database

end FlyCockpit.WriteScope
