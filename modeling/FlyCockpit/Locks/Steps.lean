-- SUMMARY: The critical sections of the lock operations, and the system of interleaved calls.
import FlyCockpit.Locks.Tasks

/-!
# Critical sections

Every function here is one critical section of the mutex: it reads and changes the lock state and
says what is left of the task. An operation that releases holds calls `notify_waiters` right behind
the section, which is counted with it; only a sweep restores rows first.
-/

namespace FlyCockpit.Locks

namespace Task

/-! ## Acquiring -/

/-- The lock is the caller's. -/
def acquireDone (s : Shared) (call : AcquireCall) : AcquireMode → Shared × List Task
  | .once => (s.reply .unit, [])
  | .fast | .armed _ => (s, [clearWaiter call.holder .acquired])

def tryAcquireStep (env : Env) (s : Shared) (call : AcquireCall) (mode : AcquireMode) :
    Shared × List Task :=
  match s.state.held.lookup call.path with
  | some holder =>
    if holder = call.holder then acquireDone s call mode
    else match mode with
      | .once => (s.reply (.failed (.held call.path holder)), [])
      | .fast => (s, [arm call])
      | .armed seen => (s, [recordWait call holder seen])
  | none =>
    let readHash := if call.recordRead then env.hash call.path else none
    let state := s.state.hold call.path call.holder env.now
    let state := if call.recordRead then state.recordRead call.path call.holder readHash else state
    (s.withState state, [acquirePersist call mode readHash (call.path ∈ state.forcedReleased)])

def acquireRollbackStep (s : Shared) (call : AcquireCall) (mode : AcquireMode) (e : StorageError) :
    Shared × List Task :=
  let state := s.state.forgetOwn call.path call.holder
  let state := if call.recordRead then state.dropRead call.path call.holder else state
  match mode with
  | .once | .fast => ((s.withState state).reply (.failed (.storage e)), [])
  | .armed _ => (s.withState state, [clearWaiter call.holder (.failed (.storage e))])

def recordWaitStep (s : Shared) (call : AcquireCall) (holder : Holder) (seen : Nat) :
    Shared × List Task :=
  match s.state.recordWaitOrCycle call.holder call.path holder with
  | (.error edges, state) => ((s.withState state).reply (.failed (.waitCycle edges)), [])
  | (.ok (), state) => (s.withState state, [parked call seen])

/-- A parked task is woken only by a wakeup behind its registration. -/
def parkedStep (env : Env) (s : Shared) (call : AcquireCall) (seen : Nat) : Shared × List Task :=
  match env.wait with
  | .notified => if seen < s.wakes then (s, [arm call]) else (s, [parked call seen])
  | .cancelled => (s, [clearWaiter call.holder .cancelled])
  | .timedOut =>
    (s, [clearWaiter call.holder (.failed (.waitTimedOut (s.state.waiting.lookup call.holder)))])

/-! ## Sweeping -/

/-- The held paths whose holder passes a test. -/
def heldEntries (state : LockState) (test : Holder → Bool) : List (PathBuf × Holder) :=
  (state.held.entries.filter fun e => test e.2).map fun e => (e.1, e.2)

def touchHolderStep (env : Env) (s : Shared) (holder : Holder) : Shared × List Task :=
  let paths := env.arrange id ((heldEntries s.state (· = holder)).map Prod.fst)
  let touched := paths.foldl (fun t path => t.insert path env.now) s.state.touched
  touchRest (s.withState { s.state with touched }) holder env.now paths

def sweepExpiredStep (env : Env) (s : Shared) (now : Int) : Shared × List Task :=
  let expired := (s.state.held.entries.filter fun e => s.state.idle e.1 now).map fun e => (e.1, e.2)
  match env.arrange Prod.fst expired with
  | [] => (s.reply (.paths []), [])
  | reclaimed => (s, [sweepPersist now reclaimed])

/-- What the second critical section of a sweep has done so far. -/
structure Swept where
  state : LockState
  reclaimed : List PathBuf
  toRestore : List (PathBuf × Holder × Option (Option UInt64))

/-- One reclaimed entry. The hold may have changed hands or been refreshed since the first look. -/
def Swept.visit (now : Int) (w : Swept) (entry : PathBuf × Holder) : Swept :=
  if w.state.held.lookup entry.1 ≠ some entry.2 then w
  else if !w.state.idle entry.1 now then
    { w with toRestore := w.toRestore ++ [(entry.1, entry.2, w.state.readOf entry.1 entry.2)] }
  else
    { w with
      state := (w.state.forget entry.1).invalidateRead entry.1 entry.2
      reclaimed := w.reclaimed ++ [entry.1] }

def sweepForgetStep (s : Shared) (now : Int) (reclaimed : List (PathBuf × Holder)) :
    Shared × List Task :=
  let swept := reclaimed.foldl (Swept.visit now) ⟨s.state, [], []⟩
  restoreRest (s.withState swept.state) swept.reclaimed swept.toRestore

/-! ## Releasing -/

def releaseStep (s : Shared) (path : PathBuf) (holder : Holder) : Shared × List Task :=
  match s.state.held.lookup path with
  | none => (s.reply .unit, [])
  | some h =>
    if h = holder then (s, [releasePersist path holder])
    else if h.agent = holder.agent then (s.reply (.failed (.heldInOtherSession path h)), [])
    else (s.reply (.failed (.notHolder path h)), [])

def releaseForgetStep (s : Shared) (path : PathBuf) (holder : Holder) : Shared × List Task :=
  ((s.withState ((s.state.forgetOwn path holder).unflagForced path)).notifyWaiters.reply .unit, [])

def dropReadForgetStep (s : Shared) (path : PathBuf) (holder : Holder) : Shared × List Task :=
  let state := ((s.state.forgetOwn path holder).dropRead path holder).unflagForced path
  let s' := s.withState state
  let released := s.state.held.lookup path = some holder
  ((if released then s'.notifyWaiters else s').reply .unit, [])

/-- A release behind a failed guard answers with the failure of the guard. -/
def forceReply (error : Option LockError) (persisted : Bool) : Reply :=
  match error with
  | none => .persisted persisted
  | some e => .failed e

def releaseForceMemoryStep (s : Shared) (path : PathBuf) (holder : Holder)
    (error : Option LockError) : Shared × List Task :=
  if s.state.held.lookup path = some holder then (s, [forcePersist path holder error])
  else (s.reply (forceReply error true), [])

def forceForgetStep (s : Shared) (path : PathBuf) (holder : Holder) (error : Option LockError)
    (persisted : Bool) : Shared × List Task :=
  let state := s.state.forgetOwn path holder
  let state := if persisted then state.unflagForced path else state.flagForced path
  ((s.withState state).notifyWaiters.reply (forceReply error persisted), [])

def noteAuthoredStep (env : Env) (s : Shared) (path : PathBuf) (holder : Holder) :
    Shared × List Task :=
  match env.hash path with
  | none => (s.reply .unit, [])
  | some hash => ((s.withState (s.state.recordAuthored path holder hash)).reply .unit, [])

/-! ## Write guards -/

/-- The read record of the holder is the content on disk. -/
def checkFreshRead (env : Env) (state : LockState) (path : PathBuf) (holder : Holder) :
    Except LockError Unit :=
  match state.readOf path holder with
  | none => .error (.writeRequiresRead path)
  | some readHash =>
    if readHash.isSome ∧ env.hash path = readHash then .ok () else .error (.staleRead path)

def beginWriteStep (env : Env) (s : Shared) (path : PathBuf) (holder : Holder) :
    Shared × List Task :=
  match s.state.held.lookup path with
  | some h =>
    if h = holder then (s.reply (.guard false), [])
    else (s.reply (.failed (.writeHeld path h)), [])
  | none => match checkFreshRead env s.state path holder with
    | .error e => (s.reply (.failed e), [])
    | .ok () => (s.withState (s.state.hold path holder env.now), [beginWritePersist path holder])

def beginWriteRollbackStep (s : Shared) (path : PathBuf) (holder : Holder) (e : StorageError) :
    Shared × List Task :=
  ((s.withState (s.state.forgetOwn path holder)).reply (.failed (.storage e)), [])

/-- The check of a guard behind a waiting acquire. An anchored edit may rely on content the holder
created; a blind write may not. -/
def checkGuard (env : Env) (state : LockState) (path : PathBuf) (holder : Holder)
    (requireFreshRead acceptAuthoredContent : Bool) : Except LockError Unit :=
  match state.held.lookup path with
  | none => .error (.notAcquired path)
  | some h =>
    if h ≠ holder then .error (.writeHeld path h)
    else if !requireFreshRead then .ok ()
    else if (state.readOf path holder).isNone ∧ acceptAuthoredContent ∧
        (state.authoredOf path holder).isSome ∧ env.hash path = state.authoredOf path holder then
      .ok ()
    else checkFreshRead env state path holder

def beginGuardAfterWaitStep (env : Env) (s : Shared) (path : PathBuf) (holder : Holder)
    (acquiredByWait requireFreshRead acceptAuthoredContent : Bool) : Shared × List Task :=
  match checkGuard env s.state path holder requireFreshRead acceptAuthoredContent with
  | .ok () => (s.reply (.guard acquiredByWait), [])
  | .error e =>
    if acquiredByWait then (s, [releaseForceMemory path holder (some e)])
    else (s.reply (.failed e), [])

/-- `release_abandoned_write_guard_memory`, for a hold that is the holder's. -/
def abandon (s : Shared) (path : PathBuf) : Shared :=
  (s.withState ((s.state.forget path).flagForced path)).notifyWaiters

/-- A guard that is dropped before it wrote releases its hold in memory and leaves the row to a
spawned task. Outside a runtime the row stays. -/
def dropWriteGuardStep (env : Env) (s : Shared) (path : PathBuf) (holder : Holder) :
    Shared × List Task :=
  if s.state.held.lookup path = some holder then
    (abandon s path, if env.runtime then [persistAbandoned holder path []] else [])
  else (s, [])

def abandonHeldPathsStep (env : Env) (s : Shared) (holder : Holder) (todo toPersist : List PathBuf)
    (extrasFound : Bool) : Shared × List Task :=
  match todo with
  | path :: todo =>
    if s.state.held.lookup path = some holder then
      (abandon s path, [abandonHeldPaths holder todo (toPersist ++ [path]) extrasFound])
    else (s, [abandonHeldPaths holder todo toPersist extrasFound])
  | [] =>
    if extrasFound then
      if env.runtime then abandonedRest s holder toPersist else (s, [])
    else
      let extras := env.arrange id ((heldEntries s.state (· = holder)).map Prod.fst)
      (s, [abandonHeldPaths holder extras toPersist true])

/-- `Uuid::nil`, the session of holds that are not tied to one. -/
def transientHolder (agent : AgentId) : Holder := ⟨Block.zero 16, agent⟩

def acquireTransientStep (env : Env) (s : Shared) (path : PathBuf) (agent : AgentId) :
    Shared × List Task :=
  match s.state.held.lookup path with
  | none => ((s.withState (s.state.hold path (transientHolder agent) env.now)).reply (.guard true), [])
  | some h =>
    if h = transientHolder agent then (s.reply (.guard true), [])
    else (s.reply (.failed (.held path h)), [])

def dropTransientStep (s : Shared) (path : PathBuf) (holder : Holder) : Shared × List Task :=
  ((s.withState (s.state.forgetOwn path holder)).notifyWaiters, [])

/-! ## Suspending and resuming -/

def suspendStep (env : Env) (s : Shared) (party : Party) : Shared × List Task :=
  let released := env.arrange Prod.fst (heldEntries s.state party.covers)
  let hashes := released.filterMap fun (path, holder) => (env.hash path).map fun h => (path, holder, h)
  match released with
  | [] => (s.reply (.paths []), [])
  | entry :: todo => (s, [suspendPersist party released hashes entry todo])

/-- The hashes of the released files, kept for the resume. -/
def storeSnapshot (state : LockState) (hashes : List (PathBuf × Holder × UInt64)) :
    Party → LockState
  | .agent holder =>
    let snapshot := hashes.foldl (fun t (path, _, hash) => t.insert path hash) ∅
    { state with suspended := state.suspended.insert holder snapshot }
  | .session id =>
    let snapshot := hashes.foldl (fun t (path, holder, hash) => t.insert path (holder.agent, hash)) ∅
    { state with sessionReleased := state.sessionReleased.insert id snapshot }

/-- The holds go without another look at who holds them. -/
def suspendForgetStep (s : Shared) (party : Party) (released : List (PathBuf × Holder))
    (hashes : List (PathBuf × Holder × UInt64)) : Shared × List Task :=
  let state := released.foldl (fun state entry => state.forget entry.1) s.state
  ((s.withState (storeSnapshot state hashes party)).notifyWaiters.reply
    (.paths (released.map Prod.fst)), [])

def takeSnapshot (state : LockState) : Party → Option (List (PathBuf × Holder × UInt64)) × LockState
  | .agent holder =>
    ((state.suspended.lookup holder).map fun t => t.entries.map fun e => (e.1, holder, e.2),
      { state with suspended := state.suspended.erase holder })
  | .session id =>
    ((state.sessionReleased.lookup id).map fun t => t.entries.map fun e => (e.1, ⟨id, e.2.1⟩, e.2.2),
      { state with sessionReleased := state.sessionReleased.erase id })

def resumeStep (env : Env) (s : Shared) (party : Party) : Shared × List Task :=
  match takeSnapshot s.state party with
  | (none, _) => (s.reply (.paths []), [])
  | (some snapshot, state) =>
    (s.withState state, [resumeCheck party (env.arrange Prod.fst snapshot) [] []])

/-- What the reacquiring critical section of a resume has done so far. -/
structure Reacquired where
  state : LockState
  reacquired : List (PathBuf × Holder)
  invalidated : List (PathBuf × Holder)

/-- A path that somebody else took meanwhile is left to them. A session resume drops the read
record of such a path; an agent resume does not. -/
def Reacquired.visit (party : Party) (now : Int) (r : Reacquired) (entry : PathBuf × Holder) :
    Reacquired :=
  if (r.state.held.lookup entry.1).isSome then
    match party with
    | .agent _ => r
    | .session _ =>
      { r with
        state := r.state.invalidateRead entry.1 entry.2
        invalidated := r.invalidated ++ [entry] }
  else
    { r with
      state := r.state.hold entry.1 entry.2 now
      reacquired := r.reacquired ++ [entry] }

def resumeCheckStep (env : Env) (s : Shared) (party : Party)
    (todo : List (PathBuf × Holder × UInt64)) (toReacquire invalidated : List (PathBuf × Holder)) :
    Shared × List Task :=
  match todo with
  | (path, holder, expected) :: todo =>
    if env.hash path = some expected then
      (s, [resumeCheck party todo (toReacquire ++ [(path, holder)]) invalidated])
    else
      (s.withState (s.state.invalidateRead path holder),
        [resumeCheck party todo toReacquire (invalidated ++ [(path, holder)])])
  | [] =>
    let r := toReacquire.foldl (Reacquired.visit party env.now) ⟨s.state, [], invalidated⟩
    persistRest (s.withState r.state) (r.reacquired.map Prod.fst) r.invalidated r.reacquired

/-! ## Transfers and ended sessions -/

def transferAgentLocksStep (env : Env) (s : Shared) (session : Uuid) (fromAgent toAgent : AgentId) :
    Shared × List Task :=
  if fromAgent = toAgent then (s.reply (.paths []), [])
  else
    let held := (heldEntries s.state (· = ⟨session, fromAgent⟩)).map Prod.fst
    match env.arrange id held with
    | [] => (s.reply (.paths []), [])
    | paths => (s, [transferPersist session fromAgent toAgent paths])

/-- Entries of one agent are added to those of the other one. -/
def mergeInto {ν : Type} (t : Table Holder (Table PathBuf ν)) (source target : Holder) :
    Table Holder (Table PathBuf ν) :=
  match t.lookup source with
  | none => t
  | some moved =>
    let rest := t.erase source
    rest.insert target
      (moved.entries.foldl (fun t e => t.insert e.1 e.2) ((rest.lookup target).getD ∅))

def transferForgetStep (s : Shared) (session : Uuid) (fromAgent toAgent : AgentId)
    (paths : List PathBuf) : Shared × List Task :=
  let source : Holder := ⟨session, fromAgent⟩
  let target : Holder := ⟨session, toAgent⟩
  let held := paths.foldl
    (fun held path => if held.lookup path = some source then held.insert path target else held)
    s.state.held
  let state :=
    { s.state with
      held
      readTracker := mergeInto s.state.readTracker source target
      authoredTracker := mergeInto s.state.authoredTracker source target }
  ((s.withState state).reply (.paths paths), [])

def endSessionForgetStep (s : Shared) (session : Uuid) : Shared × List Task :=
  let held := s.state.held.retain fun _ holder => holder.session ≠ session
  let state :=
    { s.state with
      held
      touched := s.state.touched.retain fun path _ => (held.lookup path).isSome
      readTracker := s.state.readTracker.retain fun holder _ => holder.session ≠ session
      authoredTracker := s.state.authoredTracker.retain fun holder _ => holder.session ≠ session
      suspended := s.state.suspended.retain fun holder _ => holder.session ≠ session
      sessionReleased := s.state.sessionReleased.erase session }
  let s' := s.withState state
  ((if held.size = s.state.held.size then s' else s'.notifyWaiters).reply .unit, [])

/-! ## Steps -/

/-- One critical section. -/
def memoryStep (env : Env) (s : Shared) : Task → Shared × List Task
  | tryAcquire call mode => tryAcquireStep env s call mode
  | acquireRollback call mode e => acquireRollbackStep s call mode e
  | acquireFinish call mode =>
    acquireDone (s.withState (s.state.unflagForced call.path)) call mode
  | arm call => (s, [tryAcquire call (.armed s.wakes)])
  | recordWait call holder seen => recordWaitStep s call holder seen
  | parked call seen => parkedStep env s call seen
  | clearWaiter waiter answer => ((s.withState (s.state.clearWaiter waiter)).reply answer, [])
  | touchHolder holder => touchHolderStep env s holder
  | sweepExpired now => sweepExpiredStep env s now
  | sweepForget now reclaimed => sweepForgetStep s now reclaimed
  | release path holder => releaseStep s path holder
  | releaseForget path holder => releaseForgetStep s path holder
  | dropReadForget path holder => dropReadForgetStep s path holder
  | releaseForceMemory path holder error => releaseForceMemoryStep s path holder error
  | forceForget path holder error persisted => forceForgetStep s path holder error persisted
  | noteReadRemember path holder readHash =>
    ((s.withState (s.state.recordRead path holder readHash)).reply .unit, [])
  | noteAuthored path holder => noteAuthoredStep env s path holder
  | beginWrite path holder => beginWriteStep env s path holder
  | beginWriteRollback path holder e => beginWriteRollbackStep s path holder e
  | beginGuardAfterWait path holder acquiredByWait requireFreshRead acceptAuthoredContent =>
    beginGuardAfterWaitStep env s path holder acquiredByWait requireFreshRead acceptAuthoredContent
  | dropWriteGuard path holder => dropWriteGuardStep env s path holder
  | abandonHeldPaths holder todo toPersist extrasFound =>
    abandonHeldPathsStep env s holder todo toPersist extrasFound
  | unflagAbandoned holder path todo =>
    abandonedRest (s.withState (s.state.unflagForced path)) holder todo
  | acquireTransient path agent => acquireTransientStep env s path agent
  | dropTransient path holder => dropTransientStep s path holder
  | suspend party => suspendStep env s party
  | suspendForget party released hashes => suspendForgetStep s party released hashes
  | resume party => resumeStep env s party
  | resumeCheck party todo toReacquire invalidated =>
    resumeCheckStep env s party todo toReacquire invalidated
  | transferAgentLocks session fromAgent toAgent =>
    transferAgentLocksStep env s session fromAgent toAgent
  | transferForget session fromAgent toAgent paths =>
    transferForgetStep s session fromAgent toAgent paths
  | endSessionForget session => endSessionForgetStep s session
  | _ => (s, [])

def step (env : Env) (s : Shared) (t : Task) : Shared × List Task :=
  match t.storageCall with
  | some call =>
    let (result, s) := s.perform env call
    t.afterStorage s result
  | none => t.memoryStep env s

end Task

/-! ## Calls -/

inductive Call
  | acquire (call : AcquireCall)
  | acquireWait (call : AcquireCall)
  | touchHolder (holder : Holder)
  | sweepExpired (now : Int)
  | release (path : PathBuf) (holder : Holder)
  | releaseAndDropRead (path : PathBuf) (holder : Holder)
  | releaseForceMemory (path : PathBuf) (holder : Holder)
  | noteRead (path : PathBuf) (holder : Holder) (readHash : Option UInt64)
  | noteAuthored (path : PathBuf) (holder : Holder)
  | beginWrite (path : PathBuf) (holder : Holder)
  | beginGuardAfterWait (path : PathBuf) (holder : Holder)
      (acquiredByWait requireFreshRead acceptAuthoredContent : Bool)
  | dropWriteGuard (path : PathBuf) (holder : Holder)
  | abandonHeldPaths (holder : Holder) (paths : List PathBuf)
  | acquireTransient (path : PathBuf) (agent : AgentId)
  | dropTransient (path : PathBuf) (agent : AgentId)
  | suspendAgent (holder : Holder)
  | suspendSession (session : Uuid)
  | resumeAgent (holder : Holder)
  | resumeSession (session : Uuid)
  | transferAgentLocks (session : Uuid) (fromAgent toAgent : AgentId)
  | endSession (session : Uuid)

def Call.task : Call → Task
  | acquire call => .tryAcquire call .once
  | acquireWait call => .tryAcquire call .fast
  | touchHolder holder => .touchHolder holder
  | sweepExpired now => .sweepExpired now
  | release path holder => .release path holder
  | releaseAndDropRead path holder => .releaseAndDropRead path holder
  | releaseForceMemory path holder => .releaseForceMemory path holder none
  | noteRead path holder readHash => .noteRead path holder readHash
  | noteAuthored path holder => .noteAuthored path holder
  | beginWrite path holder => .beginWrite path holder
  | beginGuardAfterWait path holder acquiredByWait requireFreshRead acceptAuthoredContent =>
    .beginGuardAfterWait path holder acquiredByWait requireFreshRead acceptAuthoredContent
  | dropWriteGuard path holder => .dropWriteGuard path holder
  | abandonHeldPaths holder paths => .abandonHeldPaths holder paths [] false
  | acquireTransient path agent => .acquireTransient path agent
  | dropTransient path agent => .dropTransient path (Task.transientHolder agent)
  | suspendAgent holder => .suspend (.agent holder)
  | suspendSession session => .suspend (.session session)
  | resumeAgent holder => .resume (.agent holder)
  | resumeSession session => .resume (.session session)
  | transferAgentLocks session fromAgent toAgent => .transferAgentLocks session fromAgent toAgent
  | endSession session => .endSession session

/-- `from_db`: the manager starts from the rows a former process left. -/
def LockState.fromDb (db : LockDb) : LockState where
  held := db.lockState.entries.foldl (fun t e => t.insert e.1 e.2.holder) ∅
  touched := db.lockState.entries.foldl (fun t e => t.insert e.1 e.2.acquiredAt) ∅
  readTracker := db.lockReads.entries.foldl
    (fun t e => t.insert e.1.1 (((t.lookup e.1.1).getD ∅).insert e.1.2 e.2.readHash)) ∅
  authoredTracker := ∅
  forcedReleased := ∅
  suspended := ∅
  sessionReleased := ∅
  waiting := ∅

def Shared.start (db : LockDb) : Shared := ⟨.fromDb db, db, 0, []⟩

/-- All interleavings of lock operations. -/
def lockManager : Lts (Pool Shared Task) (Pool.Move Call Env) :=
  Pool.lts (fun s => ∃ db, s = .start db) Call.task Task.step

end FlyCockpit.Locks
