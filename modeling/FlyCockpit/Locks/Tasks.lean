-- SUMMARY: The operations of the lock manager as tasks of in-memory steps and storage calls.
import Mathlib.Data.List.Sort
import FlyCockpit.Lib.Pool
import FlyCockpit.Locks.State

/-!
# Lock operations

An operation runs as a task. Between two awaits or two critical sections of the mutex it is a value
of `Task`, which says where it stands and what it remembers. A task at a storage call hands the
call to the database and goes on with the answer; any other task takes one critical section. Tasks
of different operations are interleaved in any order.
-/

namespace FlyCockpit.Locks

/-! ## The environment of a step -/

inductive StorageAnswer
  | done
  /-- The call fails without effect. -/
  | refused
  /-- The call takes effect and reports an error. -/
  | lost
  deriving DecidableEq

/-- How a wait ends. -/
inductive WaitAnswer
  | notified
  | cancelled
  | timedOut
  deriving DecidableEq

structure Env where
  now : Int
  /-- `file_hash`: the content of the files on disk. -/
  hash : PathBuf → Option UInt64
  storage : StorageAnswer
  wait : WaitAnswer
  /-- The order in which a map iterates. -/
  order : List PathBuf
  /-- The step runs inside an async runtime. -/
  runtime : Bool

/-- The entries of a map in the order of iteration. -/
def Env.arrange {α : Type} (env : Env) (path : α → PathBuf) (entries : List α) : List α :=
  entries.insertionSort fun a b => env.order.idxOf (path a) ≤ env.order.idxOf (path b)

/-! ## Answers of the operations -/

inductive LockError
  | held (path : PathBuf) (holder : Holder)
  | heldInOtherSession (path : PathBuf) (holder : Holder)
  | notHolder (path : PathBuf) (holder : Holder)
  | waitCycle (edges : List (Holder × WaitingOn))
  | waitTimedOut (edge : Option WaitingOn)
  | writeHeld (path : PathBuf) (holder : Holder)
  | writeRequiresRead (path : PathBuf)
  | staleRead (path : PathBuf)
  | notAcquired (path : PathBuf)
  | storage (error : StorageError)
  deriving DecidableEq

inductive Reply
  | unit
  | acquired
  | cancelled
  | paths (paths : List PathBuf)
  | persisted (ok : Bool)
  | guard (acquiredByGuard : Bool)
  | failed (error : LockError)
  deriving DecidableEq

structure Shared where
  state : LockState
  db : LockDb
  /-- Calls of `notify_waiters` so far. -/
  wakes : Nat
  replies : List Reply

namespace Shared

def withState (s : Shared) (state : LockState) : Shared := { s with state }

def notifyWaiters (s : Shared) : Shared := { s with wakes := s.wakes + 1 }

def reply (s : Shared) (r : Reply) : Shared := { s with replies := s.replies ++ [r] }

/-- A storage call, as the environment lets it end. -/
def perform (env : Env) (s : Shared) (call : StorageCall) : Except StorageError Unit × Shared :=
  match env.storage, call.apply env.now s.db with
  | .refused, _ => (.error .unavailable, s)
  | _, .error e => (.error e, s)
  | .done, .ok db => (.ok (), { s with db })
  | .lost, .ok db => (.error .unavailable, { s with db })

end Shared

/-! ## Tasks -/

structure AcquireCall where
  path : PathBuf
  holder : Holder
  /-- The handle records reads and the call asks for it. -/
  recordRead : Bool

/-- `acquire` tries once; `acquire_wait` tries once and then again each time it is woken. -/
inductive AcquireMode
  | once
  | fast
  /-- The wakeup was registered when `seen` wakeups had happened. -/
  | armed (seen : Nat)

/-- Whose locks are suspended: those of one agent or those of a whole session. -/
inductive Party
  | agent (holder : Holder)
  | session (session : Uuid)

def Party.covers : Party → Holder → Bool
  | agent holder, h => h = holder
  | session id, h => h.session = id

inductive Task
  -- `acquire`, `acquire_wait` and `try_acquire`
  | tryAcquire (call : AcquireCall) (mode : AcquireMode)
  | acquirePersist (call : AcquireCall) (mode : AcquireMode) (readHash : Option UInt64) (forced : Bool)
  | acquireRollback (call : AcquireCall) (mode : AcquireMode) (error : StorageError)
  | acquireFinish (call : AcquireCall) (mode : AcquireMode)
  | arm (call : AcquireCall)
  | recordWait (call : AcquireCall) (holder : Holder) (seen : Nat)
  | parked (call : AcquireCall) (seen : Nat)
  | clearWaiter (waiter : Holder) (answer : Reply)
  -- `touch_holder`
  | touchHolder (holder : Holder)
  | touchPersist (holder : Holder) (now : Int) (path : PathBuf) (todo : List PathBuf)
  -- `sweep_expired`
  | sweepExpired (now : Int)
  | sweepPersist (now : Int) (reclaimed : List (PathBuf × Holder))
  | sweepForget (now : Int) (reclaimed : List (PathBuf × Holder))
  | sweepRestore (reclaimed : List PathBuf) (entry : PathBuf × Holder × Option (Option UInt64))
      (todo : List (PathBuf × Holder × Option (Option UInt64)))
  -- `release`, `release_and_drop_read`, `release_force_memory`
  | release (path : PathBuf) (holder : Holder)
  | releasePersist (path : PathBuf) (holder : Holder)
  | releaseForget (path : PathBuf) (holder : Holder)
  | releaseAndDropRead (path : PathBuf) (holder : Holder)
  | dropReadForget (path : PathBuf) (holder : Holder)
  | releaseForceMemory (path : PathBuf) (holder : Holder) (error : Option LockError)
  | forcePersist (path : PathBuf) (holder : Holder) (error : Option LockError)
  | forceForget (path : PathBuf) (holder : Holder) (error : Option LockError) (persisted : Bool)
  -- `note_read`, `note_authored`
  | noteRead (path : PathBuf) (holder : Holder) (readHash : Option UInt64)
  | noteReadRemember (path : PathBuf) (holder : Holder) (readHash : Option UInt64)
  | noteAuthored (path : PathBuf) (holder : Holder)
  -- `begin_write`, `begin_guard_after_wait` and the guards
  | beginWrite (path : PathBuf) (holder : Holder)
  | beginWritePersist (path : PathBuf) (holder : Holder)
  | beginWriteRollback (path : PathBuf) (holder : Holder) (error : StorageError)
  | beginGuardAfterWait (path : PathBuf) (holder : Holder)
      (acquiredByWait requireFreshRead acceptAuthoredContent : Bool)
  | dropWriteGuard (path : PathBuf) (holder : Holder)
  | abandonHeldPaths (holder : Holder) (todo toPersist : List PathBuf) (extrasFound : Bool)
  | persistAbandoned (holder : Holder) (path : PathBuf) (todo : List PathBuf)
  | unflagAbandoned (holder : Holder) (path : PathBuf) (todo : List PathBuf)
  | acquireTransient (path : PathBuf) (agent : AgentId)
  | dropTransient (path : PathBuf) (holder : Holder)
  -- `suspend_agent`, `suspend_session`
  | suspend (party : Party)
  | suspendPersist (party : Party) (released : List (PathBuf × Holder))
      (hashes : List (PathBuf × Holder × UInt64)) (entry : PathBuf × Holder)
      (todo : List (PathBuf × Holder))
  | suspendForget (party : Party) (released : List (PathBuf × Holder))
      (hashes : List (PathBuf × Holder × UInt64))
  -- `resume_agent`, `resume_session`
  | resume (party : Party)
  | resumeCheck (party : Party) (todo : List (PathBuf × Holder × UInt64))
      (toReacquire invalidated : List (PathBuf × Holder))
  | resumePersist (reacquired : List PathBuf) (invalidated : List (PathBuf × Holder))
      (entry : PathBuf × Holder) (todo : List (PathBuf × Holder))
  | resumeInvalidate (reacquired : List PathBuf) (entry : PathBuf × Holder)
      (todo : List (PathBuf × Holder))
  -- `transfer_agent_locks`, `end_session`
  | transferAgentLocks (session : Uuid) (fromAgent toAgent : AgentId)
  | transferPersist (session : Uuid) (fromAgent toAgent : AgentId) (paths : List PathBuf)
  | transferForget (session : Uuid) (fromAgent toAgent : AgentId) (paths : List PathBuf)
  | endSession (session : Uuid)
  | endSessionForget (session : Uuid)

namespace Task

/-! ## Storage calls -/

/-- The call a task waits for. -/
def storageCall : Task → Option StorageCall
  | acquirePersist call _ readHash forced => some <|
    if call.recordRead ∧ forced then .lockForceAcquireWithRead call.path call.holder readHash
    else if forced then .lockForceAcquire call.path call.holder
    else if call.recordRead then .lockAcquireWithRead call.path call.holder readHash
    else .lockAcquire call.path call.holder
  | touchPersist holder now path _ => some (.lockTouch path holder now)
  | sweepPersist _ reclaimed => some (.lockReleaseAndDeleteReads reclaimed)
  | sweepRestore _ (path, holder, readGrant) _ => some <| match readGrant with
    | some readHash => .lockAcquireWithRead path holder readHash
    | none => .lockAcquire path holder
  | releasePersist path holder => some (.lockRelease path holder)
  | releaseAndDropRead path holder => some (.lockReleaseAndDeleteReads [(path, holder)])
  | forcePersist path holder _ => some (.lockRelease path holder)
  | noteRead path holder readHash => some (.lockNoteRead path holder readHash)
  | beginWritePersist path holder => some (.lockAcquire path holder)
  | persistAbandoned holder path _ => some (.lockRelease path holder)
  | suspendPersist _ _ _ (path, holder) _ => some (.lockRelease path holder)
  | resumePersist _ _ (path, holder) _ => some (.lockAcquire path holder)
  | resumeInvalidate _ (path, holder) _ => some (.lockDeleteRead path holder)
  | transferPersist session fromAgent toAgent _ =>
    some (.lockTransferAgent session fromAgent toAgent)
  | endSession session => some (.lockCleanupSession session)
  | _ => none

/-- The rest of a resume behind its acquires. -/
def invalidateRest (s : Shared) (reacquired : List PathBuf) :
    List (PathBuf × Holder) → Shared × List Task
  | [] => (s.reply (.paths reacquired), [])
  | entry :: todo => (s, [resumeInvalidate reacquired entry todo])

/-- The rest of a resume behind its critical section. -/
def persistRest (s : Shared) (reacquired : List PathBuf) (invalidated : List (PathBuf × Holder)) :
    List (PathBuf × Holder) → Shared × List Task
  | [] => invalidateRest s reacquired invalidated
  | entry :: todo => (s, [resumePersist reacquired invalidated entry todo])

/-- The rest of a sweep behind its critical section. -/
def restoreRest (s : Shared) (reclaimed : List PathBuf) :
    List (PathBuf × Holder × Option (Option UInt64)) → Shared × List Task
  | [] =>
    ((if reclaimed.isEmpty then s else s.notifyWaiters).reply (.paths reclaimed), [])
  | entry :: todo => (s, [sweepRestore reclaimed entry todo])

def touchRest (s : Shared) (holder : Holder) (now : Int) : List PathBuf → Shared × List Task
  | [] => (s.reply .unit, [])
  | path :: todo => (s, [touchPersist holder now path todo])

/-- The paths of abandoned holds still to be released in storage. -/
def abandonedRest (s : Shared) (holder : Holder) : List PathBuf → Shared × List Task
  | [] => (s, [])
  | path :: todo => (s, [persistAbandoned holder path todo])

/-- How a task goes on when its storage call has ended. -/
def afterStorage (s : Shared) (result : Except StorageError Unit) : Task → Shared × List Task
  | acquirePersist call mode _ _ => match result with
    | .ok () => (s, [acquireFinish call mode])
    | .error e => (s, [acquireRollback call mode e])
  -- A failed touch is only logged.
  | touchPersist holder now _ todo => touchRest s holder now todo
  | sweepPersist now reclaimed => match result with
    | .ok () => (s, [sweepForget now reclaimed])
    | .error e => (s.reply (.failed (.storage e)), [])
  -- A failed restore is only logged.
  | sweepRestore reclaimed _ todo => restoreRest s reclaimed todo
  | releasePersist path holder => match result with
    | .ok () => (s, [releaseForget path holder])
    | .error e => (s.reply (.failed (.storage e)), [])
  | releaseAndDropRead path holder => match result with
    | .ok () => (s, [dropReadForget path holder])
    | .error e => (s.reply (.failed (.storage e)), [])
  | forcePersist path holder error => (s, [forceForget path holder error result.isOk])
  | noteRead path holder readHash => match result with
    | .ok () => (s, [noteReadRemember path holder readHash])
    | .error _ => (s.reply .unit, [])
  | beginWritePersist path holder => match result with
    | .ok () => (s.reply (.guard true), [])
    | .error e => (s, [beginWriteRollback path holder e])
  -- A failed release of an abandoned hold is only logged, and its path stays flagged.
  | persistAbandoned holder path todo => match result with
    | .ok () => (s, [unflagAbandoned holder path todo])
    | .error _ => abandonedRest s holder todo
  | suspendPersist party released hashes _ todo => match result, todo with
    | .error e, _ => (s.reply (.failed (.storage e)), [])
    | .ok (), [] => (s, [suspendForget party released hashes])
    | .ok (), entry :: todo => (s, [suspendPersist party released hashes entry todo])
  | resumePersist reacquired invalidated _ todo => match result with
    | .ok () => persistRest s reacquired invalidated todo
    | .error e => (s.reply (.failed (.storage e)), [])
  | resumeInvalidate reacquired _ todo => match result with
    | .ok () => invalidateRest s reacquired todo
    | .error e => (s.reply (.failed (.storage e)), [])
  | transferPersist session fromAgent toAgent paths => match result with
    | .ok () => (s, [transferForget session fromAgent toAgent paths])
    | .error e => (s.reply (.failed (.storage e)), [])
  | endSession session => match result with
    | .ok () => (s, [endSessionForget session])
    | .error e => (s.reply (.failed (.storage e)), [])
  | _ => (s, [])

end Task

end FlyCockpit.Locks
