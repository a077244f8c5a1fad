-- SUMMARY: The write-authority coordinator: mutation permits and the start of transfers as programs.
import FlyCockpit.Lib.Faults
import FlyCockpit.WriteScope.Storage

/-!
# The coordinator

Every operation is a sequence of single storage statements, with questions to the file system, the
write backend and the containment barrier in between. Statements may fail and the daemon may stop
before any of them; what others answer changes from one question to the next. The operations take
one lock and so run one after another.
-/

namespace FlyCockpit.WriteScope

open Faults

/-! ## What others answer -/

inductive ExecutionMode
  | native
  | zerobox
  | docker
  | podman
  deriving DecidableEq, Repr

/-- What a backend must attest before strict writable delegation. -/
structure ProvenScopedWriteAttestation where
  privateInodeView : Bool
  backingTreeUnreachable : Bool
  otherUppersUnreachable : Bool
  crossOwnerHardLinkDenied : Bool
  brokerOnlyReplacePublication : Bool
  crashCleanup : Bool
  deriving DecidableEq, Repr

namespace ProvenScopedWriteAttestation

def isComplete (a : ProvenScopedWriteAttestation) : Bool :=
  a.privateInodeView && a.backingTreeUnreachable && a.otherUppersUnreachable &&
    a.crossOwnerHardLinkDenied && a.brokerOnlyReplacePublication && a.crashCleanup

def missingClauses (a : ProvenScopedWriteAttestation) : List String :=
  (if a.privateInodeView then [] else ["private_inode_view"]) ++
    (if a.backingTreeUnreachable then [] else ["backing_tree_unreachable"]) ++
    (if a.otherUppersUnreachable then [] else ["other_uppers_unreachable"]) ++
    (if a.crossOwnerHardLinkDenied then [] else ["cross_owner_hard_link_denied"]) ++
    (if a.brokerOnlyReplacePublication then [] else ["broker_only_replace_publication"]) ++
    (if a.crashCleanup then [] else ["crash_cleanup"])

/-- The clauses as the refusal lists them. -/
def listing (a : ProvenScopedWriteAttestation) : String :=
  "[" ++ ", ".intercalate (a.missingClauses.map fun clause => "\"" ++ clause ++ "\"") ++ "]"

end ProvenScopedWriteAttestation

inductive ScopedWriteCapability
  | proven (attestation : ProvenScopedWriteAttestation)
  | unsupported (reason : String)
  deriving DecidableEq, Repr

def ScopedWriteCapability.isProven : ScopedWriteCapability → Bool
  | proven attestation => attestation.isComplete
  | unsupported _ => false

structure ContainmentTicket where
  containmentId : Nat
  generation : Nat
  deriving DecidableEq, Repr

/-- Everything an operation asks of its surroundings, as it would be answered at one moment. -/
structure Answers where
  now : Int
  newId : Nat
  kind : String
  capabilityFor : CanonicalScope → ExecutionMode → ScopedWriteCapability
  targetIdentity : CanonicalScope → Option Nat
  /-- Containment for the operation derived from a transfer. -/
  create : Nat → ExecutionMode → Except WriteScopeError ContainmentTicket
  proveMembershipAndReleaseUserCode : Nat → Except WriteScopeError Unit
  terminate : ContainmentTicket → Except WriteScopeError Unit

/-- What the resolution of a path answers: the effective path, or why there is none. -/
abbrev Resolve := Path → Except String Path

/-! ## The state -/

/-- Shared by all copies of a token; an authority change clears `alive` in the older ones. -/
structure TokenCore where
  leaseId : Nat
  generation : Nat
  alive : Bool
  deriving DecidableEq, Repr

structure WriteScopeToken where
  leaseId : Nat
  sessionId : Nat
  generation : Nat
  scope : CanonicalScope
  /-- The position of its core among the issued ones. -/
  core : Nat
  deriving DecidableEq, Repr

structure Coordinator where
  db : Database := {}
  tokens : List TokenCore := []
  shuttingDown : Bool := false

/-- The coordinator among its surroundings. -/
structure Machine where
  state : Coordinator
  env : Nat → Answers
  tick : Nat

abbrev Op := Program WriteScopeError Machine

/-- The answer to a question; the next one may be answered differently. -/
def ask {α : Type} (f : Answers → α) : Op α := do
  let m ← view
  update fun m => { m with tick := m.tick + 1 }
  return f (m.env m.tick)

section Storage

variable {α : Type}

def Machine.withDb (m : Machine) (db : Database) : Machine :=
  { m with state := { m.state with db } }

def query (context : String) (f : Database → α) : Op α :=
  read (.internal context) fun m => f m.state.db

/-- A statement that commits by itself. -/
def execute (context : String) (f : Database → Except WriteScopeError (α × Database)) : Op α :=
  call (.internal context) fun m => (f m.state.db).map fun (a, db) => (a, m.withDb db)

/-- A transaction: where it reports an error it has no effect. -/
def transact (context : String) (f : Database → Except WriteScopeError (α × Database)) : Op α :=
  atomically (execute context f)

end Storage

/-! ## Tokens -/

/-- The older cores of a lease are not alive any more. -/
def invalidateOlder (leaseId generation : Nat) (tokens : List TokenCore) : List TokenCore :=
  tokens.map fun core =>
    if core.leaseId = leaseId ∧ core.generation < generation then { core with alive := false } else core

def updateTokens (f : List TokenCore → List TokenCore) : Op Unit :=
  update fun m => { m with state := { m.state with tokens := f m.state.tokens } }

def issueToken (leaseId : Nat) (row : LeaseRow) : Op WriteScopeToken := do
  let m ← view
  updateTokens fun tokens =>
    invalidateOlder leaseId row.generation tokens ++ [⟨leaseId, row.generation, true⟩]
  return {
    leaseId
    sessionId := row.sessionId
    generation := row.generation
    scope := ⟨row.scopePath⟩
    core := m.state.tokens.length }

def Coordinator.isValid (c : Coordinator) (token : WriteScopeToken) : Bool :=
  c.tokens[token.core]?.any (·.alive)

/-! ## Leases and authority -/

def lease (leaseId : Nat) : Op LeaseRow := do
  okOr (← query "get_write_scope_lease" (·.leases.lookup leaseId)) (.leaseNotFound leaseId)

/-- The sub-scopes a lease has delegated and not got back. -/
def Database.exclusions (leaseId : Nat) (db : Database) : List CanonicalScope :=
  ((db.listWriteScopeTransfersForParent leaseId).filter (·.2.phase.parentDeniedInSubscope)).map
    fun e => ⟨e.2.subScopePath⟩

/-- The scope of a lease less its exclusions. -/
def Database.authority (leaseId : Nat) (row : LeaseRow) (db : Database) : EffectiveAuthority :=
  .new ⟨row.scopePath⟩ (db.exclusions leaseId)

def effectiveAuthority (leaseId : Nat) : Op EffectiveAuthority := do
  let row ← lease leaseId
  query "querying parent transfers" (·.authority leaseId row)

def openRootLease (sessionId : Nat) (scope : CanonicalScope) : Op (Nat × WriteScopeToken) := do
  let now ← ask (·.now)
  let leaseId ← ask (·.newId)
  let row ← execute "inserting write_scope_lease" (·.insertWriteScopeLease leaseId {
    parentLeaseId := none
    sessionId
    scopePath := scope.path
    generation := 1
    state := .active
    version := 1
    createdAt := now })
  return (leaseId, ← issueToken leaseId row)

/-! ## Mutation permits -/

structure MutationPermit where
  permitId : Nat
  requested : Path
  effectiveTarget : Path
  footprint : PermitFootprint
  deriving DecidableEq, Repr

def validateToken (token : WriteScopeToken) : Op Unit := do
  let row ← lease token.leaseId
  let m ← view
  if !m.state.isValid token || row.generation ≠ token.generation then
    fail (.staleGeneration token.leaseId token.generation row.generation)

/-- The effective path of a target, or the error of a path that changed. -/
def resolved (resolve : Resolve) (target : Path) : Op Path :=
  ofResult ((resolve target).mapError fun _ => .effectivePathChanged target)

/-- Whether an effective path may be mutated: inside the base, outside every exclusion. -/
def EffectiveAuthority.permits (authority : EffectiveAuthority) (effective : Path) :
    Except WriteScopeError Unit :=
  if authority.base.containsPath effective then
    match authority.exclusions.find? (·.containsPath effective) with
    | some excluded => .error (.deniedInsideDelegatedSubscope effective excluded.path)
    | none => .ok ()
  else .error (.outsideScope effective authority.base.path)

/-- The mutation a permit row was granted for. -/
def PermitRow.footprint (row : PermitRow) : PermitFootprint :=
  .forMutation row.targetPath row.influenceKind

/-- The held mutation permits of a session that conflict with a footprint. -/
def Database.conflicting (sessionId : Nat) (footprint : PermitFootprint) (db : Database) :
    List (Nat × PermitRow) :=
  (db.listHeldWriteScopePermits (some sessionId)).filter fun e =>
    e.2.kind == .mutation && footprint.conflictsWith e.2.footprint

/-- What a mutation would influence, if the token and the lease's authority let it through and no
held permit conflicts. -/
def admitMutation (resolve : Resolve) (token : WriteScopeToken) (target : Path)
    (kind : MutationKind) : Op PermitFootprint := do
  validateToken token
  let authority ← effectiveAuthority token.leaseId
  let effective ← resolved resolve target
  let footprint := PermitFootprint.forMutation effective kind
  ofResult (authority.permits effective)
  let conflicts ← query "querying held session permits" (·.conflicting token.sessionId footprint)
  if conflicts ≠ [] then
    fail (.conflictingMutationPermits conflicts.length effective)
  return footprint

/-- The row of a mutation permit. -/
def WriteScopeToken.permitRow (token : WriteScopeToken) (footprint : PermitFootprint) : PermitRow where
  sessionId := token.sessionId
  leaseId := token.leaseId
  generation := token.generation
  kind := .mutation
  influenceKind := footprint.kind
  influenceRoot := footprint.influenceRoot
  targetPath := footprint.target
  state := .held

/-- The durable record of a mutation permit. -/
def recordPermit (token : WriteScopeToken) (footprint : PermitFootprint) : Op Nat := do
  let permitId ← ask (·.newId)
  let _ ← execute "inserting write_scope_permit"
    (·.insertWriteScopePermit permitId (token.permitRow footprint))
  return permitId

/-- The resolution of the target once more, with the permit held. -/
def confirmPermit (revalidate : Resolve) (target : Path) (footprint : PermitFootprint)
    (permitId : Nat) : Op MutationPermit := do
  -- The permit of a path that does not resolve any more stays held.
  let revalidated ← resolved revalidate target
  if revalidated ≠ footprint.target then
    let _ ← attempt (execute "releasing write_scope_permit" (·.releaseWriteScopePermit permitId))
    fail (.effectivePathChanged target)
  return { permitId, requested := target, effectiveTarget := revalidated, footprint }

/-- What is left of a call once its target is admitted. -/
def recordAndConfirm (revalidate : Resolve) (token : WriteScopeToken) (target : Path)
    (footprint : PermitFootprint) : Op MutationPermit := do
  let permitId ← recordPermit token footprint
  confirmPermit revalidate target footprint permitId

def acquireMutationPermit (resolve revalidate : Resolve) (token : WriteScopeToken) (target : Path)
    (kind : MutationKind) : Op MutationPermit := do
  let footprint ← admitMutation resolve token target kind
  recordAndConfirm revalidate token target footprint

def releaseMutationPermit (permit : MutationPermit) : Op Unit := do
  let _ ← execute "releasing write_scope_permit" (·.releaseWriteScopePermit permit.permitId)

/-! ## Compare-and-swap -/

def casLease (leaseId : Nat) (current : LeaseRow) (next : LeaseState) (newGeneration : Nat) :
    Op (Option LeaseRow) := do
  if !current.state.canTransitionTo next then
    fail (.illegalTransition current.state next)
  let row ← execute "cas write_scope_lease" (·.casWriteScopeLease {
    leaseId
    expectedState := current.state
    expectedGeneration := current.generation
    expectedVersion := current.version
    newState := next
    newGeneration })
  match row with
  | some row =>
    if row.generation > current.generation then
      updateTokens (invalidateOlder leaseId row.generation)
  | none => pure ()
  return row

def casTransfer (transferId : Nat) (current : TransferRow) (next : TransferPhase)
    (patch : CasPatch) : Op TransferRow := do
  if current.phase.next ≠ some next then
    fail (.illegalPhaseAdvance current.phase next)
  let row ← execute "cas write_scope_transfer phase" (·.casWriteScopeTransferPhase {
    transferId
    expectedPhase := current.phase
    expectedVersion := current.version
    newPhase := next
    patch })
  okOr row (.transferNotFound transferId)

/-! ## Transfers -/

structure TransferRequest where
  parentLeaseId : Nat
  sessionId : Nat
  subScope : CanonicalScope
  mode : ExecutionMode
  /-- The highest ancestor the child's execution could redirect. -/
  reachableAncestor : Option Path := none

structure DelegationHandle where
  transferId : Nat
  childToken : WriteScopeToken
  parentToken : WriteScopeToken
  containment : ContainmentTicket
  executionPermitId : Nat

structure AcquiredExecution where
  executionPermitId : Nat
  containment : ContainmentTicket
  publicationIdentity : Nat

namespace Database

/-- A lease and its ancestors. A cycle would end the walk. -/
def ancestry (db : Database) : Nat → List Nat → Option Nat → List Nat
  | 0, chain, _ | _, chain, none => chain
  | fuel + 1, chain, some leaseId =>
    if leaseId ∈ chain then chain
    else db.ancestry fuel (leaseId :: chain) ((db.leases.lookup leaseId).bind (·.parentLeaseId))

/-- Every step of the walk visits another lease. -/
def leaseAncestry (leaseId : Nat) (db : Database) : List Nat :=
  db.ancestry (db.leases.size + 1) [] (some leaseId)

/-- An execution permit that handed over one of the given leases. -/
def handedOver (chain : List Nat) (permitId : Nat) (row : PermitRow) (db : Database) : Bool :=
  row.kind == .execution &&
    (db.getWriteScopeTransferByExecutionPermit permitId).any fun e => e.2.childLeaseId.any (· ∈ chain)

/-- The held permits of a session that overlap a scope, except for the handovers of the owner and
its ancestors. -/
def blockingPermits (sessionId parentLeaseId : Nat) (scope : CanonicalScope) (db : Database) :
    List (Nat × PermitRow) :=
  (db.listHeldWriteScopePermits (some sessionId)).filter fun e =>
    (pathContains e.2.influenceRoot scope.path || pathContains scope.path e.2.influenceRoot) &&
      !db.handedOver (db.leaseAncestry parentLeaseId) e.1 e.2

end Database

/-- A transferring parent becomes active again at the next generation. -/
def unwindToActive (parentLeaseId : Nat) : Op Unit := do
  match ← attempt (query "get_write_scope_lease" (·.leases.lookup parentLeaseId)) with
  | .ok (some current) =>
    if current.state = .transferring then
      let _ ← attempt (casLease parentLeaseId current .active (current.generation + 1))
  | _ => pure ()

/-- Closes a transfer that has no child and unwinds its parent; errors of both are ignored. -/
def abandonAndUnwind (parentLeaseId transferId : Nat) : Op Unit := do
  match ← attempt (query "get_write_scope_transfer" (·.transfers.lookup transferId)) with
  | .ok (some current) =>
    if current.childLeaseId = none ∧ current.phase ≠ .committed then
      let _ ← attempt (execute "abandon write_scope_transfer"
        (·.abandonWriteScopeTransfer transferId current.phase current.version))
  | _ => pure ()
  unwindToActive parentLeaseId

/-- The reason why a capability that is not proven is refused. -/
def ScopedWriteCapability.refusal (capability : ScopedWriteCapability) (subject : String) : String :=
  match capability with
  | .unsupported reason => reason
  | .proven attestation => subject ++ "attestation incomplete: missing " ++ attestation.listing

def releasePermitQuietly (permitId : Nat) : Op Unit := do
  let _ ← attempt (execute "releasing write_scope_permit" (·.releaseWriteScopePermit permitId))

/-- The outcome of the termination is ignored. -/
def terminateContainment (ticket : ContainmentTicket) : Op Unit := do
  let _ ← ask (·.terminate ticket)

/-- Ends a containment that must not run, and frees its permit. -/
def giveUpContainment (ticket : ContainmentTicket) (permitId : Nat) : Op Unit := do
  terminateContainment ticket
  releasePermitQuietly permitId

/-- The ancestor in the spelling that scopes and permits have. -/
def resolvedAncestor (resolve : Resolve) (request : TransferRequest) : Op Path :=
  match request.reachableAncestor with
  | some ancestor => ofResult ((resolve ancestor).mapError fun error =>
      .invalidScope ancestor s!"reachable ancestor does not resolve: {error}")
  | none => pure request.subScope.path

/-- First of all the permit, so that a recovery can find it. -/
def reserveExecutionPermit (request : TransferRequest) (parent : LeaseRow) (ancestor : Path) :
    Op Nat := do
  let footprint := PermitFootprint.forExecution request.subScope.path ancestor
  let permitId ← ask (·.newId)
  let _ ← execute "inserting write_scope_permit" (·.insertWriteScopePermit permitId {
    sessionId := request.sessionId
    leaseId := request.parentLeaseId
    generation := parent.generation
    kind := .execution
    influenceKind := footprint.kind
    influenceRoot := footprint.influenceRoot
    targetPath := footprint.target
    state := .held })
  return permitId

/-- The same error after the permit is freed. -/
def failFreeing {α : Type} (permitId : Nat) (err : WriteScopeError) : Op α := do
  releasePermitQuietly permitId
  fail err

/-- The same error after the containment is ended and the permit is freed. -/
def failEnding {α : Type} (ticket : ContainmentTicket) (permitId : Nat) (err : WriteScopeError) :
    Op α := do
  giveUpContainment ticket permitId
  fail err

def requireProvenBackend (request : TransferRequest) (permitId : Nat) : Op Unit := do
  let capability ← ask (·.capabilityFor request.subScope request.mode)
  if !capability.isProven then
    failFreeing permitId (.scopedWritesUnsupported (capability.refusal ""))

/-- The identity of the publication target, before any user code exists. -/
def sampleIdentity (request : TransferRequest) (permitId : Nat) : Op Nat := do
  let kind ← ask (·.kind)
  match ← ask (·.targetIdentity request.subScope) with
  | some identity => return identity
  | none =>
    failFreeing permitId (.scopedWritesUnsupported
      (s!"backend `{kind}` attests Proven but cannot bind " ++
        s!"`{request.subScope.path.display}` to a stable inode identity; " ++
        "replace-only publication cannot be verified"))

def createContainment (request : TransferRequest) (transferId permitId : Nat) :
    Op ContainmentTicket := do
  match ← ask (·.create transferId request.mode) with
  | .ok ticket => return ticket
  | .error err => failFreeing permitId err

/-- The record of the ticket, the permit and the identity on the transfer. -/
def recordOwnership (transferId permitId identity : Nat) (ticket : ContainmentTicket) : Op Unit := do
  match ← attempt (execute "attach write_scope_transfer ownership"
      (·.attachWriteScopeTransferOwnership transferId ticket.containmentId ticket.generation permitId
        (some identity))) with
  | .ok (some _) => return
  | .ok none =>
    failEnding ticket permitId
      (.internal "transfer left `prepared` before ownership could be recorded")
  | .error err => failEnding ticket permitId err

def releaseUserCode (permitId : Nat) (ticket : ContainmentTicket) : Op Unit := do
  match ← ask (·.proveMembershipAndReleaseUserCode ticket.containmentId) with
  | .ok () => return
  | .error err => failEnding ticket permitId err

/-- The execution permit, a proven backend, the identity of the target, containment, and the record
of all of them before user code is released. -/
def acquireCapabilityPermitAndContainment (resolve : Resolve) (request : TransferRequest)
    (transferId : Nat) (parent : LeaseRow) : Op AcquiredExecution := do
  let ancestor ← resolvedAncestor resolve request
  let permitId ← reserveExecutionPermit request parent ancestor
  requireProvenBackend request permitId
  let identity ← sampleIdentity request permitId
  let ticket ← createContainment request transferId permitId
  recordOwnership transferId permitId identity ticket
  releaseUserCode permitId ticket
  return { executionPermitId := permitId, containment := ticket, publicationIdentity := identity }

/-- The exclusion of the parent; its row records what was acquired. -/
def excludeParent (transferId : Nat) (prepared : TransferRow) (acquired : AcquiredExecution) :
    Op TransferRow :=
  casTransfer transferId prepared .parentExcluded {
    containmentId := some acquired.containment.containmentId
    containmentGeneration := some acquired.containment.generation
    publicationIdentity := some (some acquired.publicationIdentity)
    executionPermitId := some acquired.executionPermitId }

/-- The child's lease under its transfer, and the parent delegated. -/
def activateChild (request : TransferRequest) (transferId : Nat) (excluded : TransferRow)
    (parent : LeaseRow) : Op (Nat × LeaseRow) := do
  let now ← ask (·.now)
  let childId ← ask (·.newId)
  let activated ← transact "activate: insert child lease" (·.activateWriteScopeChild childId {
      parentLeaseId := some request.parentLeaseId
      sessionId := request.sessionId
      scopePath := request.subScope.path
      generation := excluded.prepareParentGeneration + 2
      state := .active
      version := 1
      createdAt := now }
    { transferId
      expectedPhase := excluded.phase
      expectedVersion := excluded.version
      newPhase := .childActivated }
    { leaseId := request.parentLeaseId
      expectedState := parent.state
      expectedGeneration := parent.generation
      expectedVersion := parent.version
      newState := .delegated
      newGeneration := parent.generation })
  let (child, _, _) ← okOr activated (.transferRaceLost request.subScope.path)
  return (childId, child)

/-- The exclusion of the parent, then the activation of the child. -/
def finishTransfer (request : TransferRequest) (transferId : Nat) (prepared : TransferRow)
    (parent : LeaseRow) (acquired : AcquiredExecution) : Op DelegationHandle := do
  let excluded ← excludeParent transferId prepared acquired
  let parentToken ← issueToken request.parentLeaseId parent
  let (childId, child) ← activateChild request transferId excluded parent
  let childToken ← issueToken childId child
  return {
    transferId
    childToken
    parentToken
    containment := acquired.containment
    executionPermitId := acquired.executionPermitId }

/-- What a prepared transfer still has to do: the drain of overlapping permits, the acquisition and
the two last phases. -/
def carryTransfer (resolve : Resolve) (request : TransferRequest) (transferId : Nat)
    (prepared : TransferRow) (parent : LeaseRow) : Op DelegationHandle := do
  let blocking ← query "querying held session permits"
    (·.blockingPermits request.sessionId request.parentLeaseId request.subScope)
  if blocking ≠ [] then
    fail (.permitsNotDrained blocking.length)
  let acquired ← acquireCapabilityPermitAndContainment resolve request transferId parent
  finishTransfer request transferId prepared parent acquired

/-- The checks in front of a transfer; nothing is written before all of them pass. -/
def admitTransfer (request : TransferRequest) : Op LeaseRow := do
  let m ← view
  if m.state.shuttingDown then
    fail .shutdownIntakeClosed
  if ← query "is_session_deleting" (·.isSessionDeleting request.sessionId) then
    fail .sessionDeleting
  let parent ← lease request.parentLeaseId
  if !parent.state.canTransitionTo .transferring then
    fail (.illegalTransition parent.state .transferring)
  let authority ← effectiveAuthority request.parentLeaseId
  ofResult (authority.admitsSubscope request.subScope)
  return parent

/-- An early question to the backend, so that an unsupported one leaves no row behind. -/
def probeBackend (request : TransferRequest) : Op Unit := do
  let kind ← ask (·.kind)
  let capability ← ask (·.capabilityFor request.subScope request.mode)
  if !capability.isProven then
    fail (.scopedWritesUnsupported (capability.refusal s!"backend `{kind}` "))

/-- The transfer of a preparation. -/
def TransferRequest.preparedRow (request : TransferRequest) (parent : LeaseRow) (now : Int) :
    TransferRow where
  sessionId := request.sessionId
  parentLeaseId := request.parentLeaseId
  childLeaseId := none
  subScopePath := request.subScope.path
  phase := .prepared
  prepareParentGeneration := parent.generation
  containmentId := none
  containmentGeneration := none
  publicationIdentity := none
  executionPermitId := none
  version := 1
  createdAt := now

/-- The parent in transfer and the transfer's row, in one step. -/
def TransferRequest.store (request : TransferRequest) (parent : LeaseRow) (now : Int) (transferId : Nat)
    (db : Database) : Except WriteScopeError (Option (LeaseRow × TransferRow) × Database) :=
  db.prepareWriteScopeTransfer
    { leaseId := request.parentLeaseId
      expectedState := parent.state
      expectedGeneration := parent.generation
      expectedVersion := parent.version
      newState := .transferring
      newGeneration := parent.generation + 1 }
    transferId (request.preparedRow parent now)

/-- What follows the preparation; where it fails, the transfer is abandoned and its parent unwound. -/
def carryStored (resolve : Resolve) (request : TransferRequest) (transferId : Nat)
    (stored : Option (LeaseRow × TransferRow)) : Op DelegationHandle := do
  let (preparedParent, row) ← okOr stored (.transferRaceLost request.subScope.path)
  updateTokens (invalidateOlder request.parentLeaseId preparedParent.generation)
  match ← attempt (carryTransfer resolve request transferId row preparedParent) with
  | .ok handle => return handle
  | .error err =>
    abandonAndUnwind request.parentLeaseId transferId
    fail err

/-- What is left of a call once its checks have passed. -/
def prepareAndCarry (resolve : Resolve) (request : TransferRequest) (parent : LeaseRow) :
    Op DelegationHandle := do
  probeBackend request
  let now ← ask (·.now)
  let transferId ← ask (·.newId)
  let stored ← transact "prepare: cas parent lease" (request.store parent now transferId)
  carryStored resolve request transferId stored

def beginTransfer (resolve : Resolve) (request : TransferRequest) : Op DelegationHandle := do
  let parent ← admitTransfer request
  prepareAndCarry resolve request parent

end FlyCockpit.WriteScope
