-- SUMMARY: The in-memory state of the lock manager, the tables it is mirrored to, and the calls that change them.
import FlyCockpit.Lib.Bytes
import FlyCockpit.Lib.Table
import Mathlib.Data.Finset.Basic

/-!
# Lock state and storage

One manager arbitrates the file locks of all agents of all sessions. Its state lives behind a
mutex that is never held across an await; `Locks/Tasks` has the operations. Paths are canonical
throughout. Every call of the storage is one statement or one transaction. An acquire is guarded: it
refreshes the row of the same owner and refuses the row of another one. Deletes are keyed by the
owner, so they miss a row that changed hands.
-/

namespace FlyCockpit.Locks

abbrev PathBuf := String

abbrev AgentId := String

abbrev Uuid := Block 16

/-- An agent of a session. -/
structure Holder where
  session : Uuid
  agent : AgentId
  deriving DecidableEq

/-- `LOCK_IDLE_TIMEOUT`, in seconds. -/
def lockIdleTimeout : Int := 5 * 60

structure WaitingOn where
  path : PathBuf
  holder : Holder
  deriving DecidableEq

structure LockState where
  held : Table PathBuf Holder
  /-- When the holder of a path last touched its lock, in Unix seconds. -/
  touched : Table PathBuf Int
  /-- The content hash each agent read; `none` was restored without one and authorizes nothing. -/
  readTracker : Table Holder (Table PathBuf (Option UInt64))
  /-- The content hash of the files an agent created. -/
  authoredTracker : Table Holder (Table PathBuf UInt64)
  /-- Paths that were released in memory while their row was left behind. -/
  forcedReleased : Finset PathBuf
  suspended : Table Holder (Table PathBuf UInt64)
  sessionReleased : Table Uuid (Table PathBuf (AgentId × UInt64))
  waiting : Table Holder WaitingOn

namespace LockState

variable (s : LockState) (path : PathBuf) (holder : Holder)

/-- The hold is inserted together with its idle clock. -/
def hold (now : Int) : LockState :=
  { s with held := s.held.insert path holder, touched := s.touched.insert path now }

/-- The hold is removed together with its idle clock, whoever holds the path. -/
def forget : LockState := { s with held := s.held.erase path, touched := s.touched.erase path }

/-- The hold is removed if it is the holder's. -/
def forgetOwn : LockState := if s.held.lookup path = some holder then s.forget path else s

/-- The idle clock of a path, which a path without one passes. -/
def idleSince (now : Int) : Int := (s.touched.lookup path).getD now

/-- The holder of the path has been idle past the timeout. -/
def idle (now : Int) : Bool := s.idleSince path now ≤ now - lockIdleTimeout

/-! ## Read records -/

def readOf : Option (Option UInt64) := (s.readTracker.lookup holder).bind (·.lookup path)

def authoredOf : Option UInt64 := (s.authoredTracker.lookup holder).bind (·.lookup path)

def recordRead (readHash : Option UInt64) : LockState :=
  { s with
    readTracker := s.readTracker.insert holder
      (((s.readTracker.lookup holder).getD ∅).insert path readHash) }

def recordAuthored (authoredHash : UInt64) : LockState :=
  { s with
    authoredTracker := s.authoredTracker.insert holder
      (((s.authoredTracker.lookup holder).getD ∅).insert path authoredHash) }

/-- The read record of a path is removed; the holder keeps an entry, even an empty one. -/
def invalidateRead : LockState :=
  match s.readTracker.lookup holder with
  | none => s
  | some reads => { s with readTracker := s.readTracker.insert holder (reads.erase path) }

/-- The read record of a path is removed, and the holder's entry with its last one. -/
def dropRead : LockState :=
  match s.readTracker.lookup holder with
  | none => s
  | some reads =>
    if (reads.erase path).entries.isEmpty then
      { s with readTracker := s.readTracker.erase holder }
    else { s with readTracker := s.readTracker.insert holder (reads.erase path) }

/-! ## Flags and snapshots -/

def flagForced : LockState := { s with forcedReleased := insert path s.forcedReleased }

def unflagForced : LockState := { s with forcedReleased := s.forcedReleased.erase path }

end LockState

/-! ## The wait graph -/

/-- The edges from `current` on, up to the first one that leads back to `start`. -/
def waitCycleFrom (waiting : Table Holder WaitingOn) (start : Holder) :
    Nat → List Holder → Holder → Option (List (Holder × WaitingOn))
  | 0, _, _ => none
  | fuel + 1, seen, current =>
    if current ∈ seen then none
    else match waiting.lookup current with
      | none => none
      | some edge =>
        if edge.holder = start then some [(current, edge)]
        else (waitCycleFrom waiting start fuel (current :: seen) edge.holder).map ((current, edge) :: ·)

/-- The cycle of waiters through `start`. Every round of the search sees a new waiter. -/
def waitCycle (s : LockState) (start : Holder) : Option (List (Holder × WaitingOn)) :=
  waitCycleFrom s.waiting start (s.waiting.size + 1) [] start

namespace LockState

def clearWaiter (s : LockState) (waiter : Holder) : LockState :=
  { s with waiting := s.waiting.erase waiter }

/-- The new edge is stored unless it closes a cycle. -/
def recordWaitOrCycle (s : LockState) (waiter : Holder) (path : PathBuf) (holder : Holder) :
    Except (List (Holder × WaitingOn)) Unit × LockState :=
  let waits := { s with waiting := s.waiting.insert waiter ⟨path, holder⟩ }
  match waitCycle waits waiter with
  | some edges => (.error edges, waits.clearWaiter waiter)
  | none => (.ok (), waits)

end LockState

/-! ## Tables -/

structure LockStateRow where
  holder : Holder
  acquiredAt : Int
  deriving DecidableEq

structure LockReadRow where
  readAt : Int
  readHash : Option UInt64
  deriving DecidableEq

structure LockDb where
  lockState : Table PathBuf LockStateRow
  lockReads : Table (Holder × PathBuf) LockReadRow

inductive StorageError
  | conflict (path : PathBuf) (owner : Holder)
  | unavailable
  deriving DecidableEq

namespace LockDb

variable (db : LockDb)

def guardedLockAcquire (path : PathBuf) (holder : Holder) (now : Int) : Except StorageError LockDb :=
  match db.lockState.lookup path with
  | none => .ok { db with lockState := db.lockState.insert path ⟨holder, now⟩ }
  | some row =>
    if row.holder = holder then
      .ok { db with lockState := db.lockState.insert path ⟨holder, now⟩ }
    else .error (.conflict path row.holder)

def forceLockAcquire (path : PathBuf) (holder : Holder) (now : Int) : LockDb :=
  { db with lockState := db.lockState.insert path ⟨holder, now⟩ }

def upsertRead (path : PathBuf) (holder : Holder) (now : Int) (readHash : Option UInt64) : LockDb :=
  { db with lockReads := db.lockReads.insert (holder, path) ⟨now, readHash⟩ }

def deleteRead (path : PathBuf) (holder : Holder) : LockDb :=
  { db with lockReads := db.lockReads.erase (holder, path) }

/-- The row of the path is deleted if it is the holder's. -/
def deleteLock (path : PathBuf) (holder : Holder) : LockDb :=
  { db with lockState := db.lockState.retain fun p row => !(p = path ∧ row.holder = holder) }

def touchLock (path : PathBuf) (holder : Holder) (now : Int) : LockDb :=
  { db with
    lockState := db.lockState.mapValues fun p row =>
      if p = path ∧ row.holder = holder then { row with acquiredAt := now } else row }

/-- Every lock row of one agent becomes the other agent's. -/
def transferLocks (source target : Holder) : LockDb :=
  { db with
    lockState := db.lockState.mapValues fun _ row =>
      if row.holder = source then { row with holder := target } else row }

/-- The read rows of one agent replace those of the other one. -/
def transferReads (source target : Holder) : LockDb :=
  let moved := db.lockReads.entries.filter fun e => e.1.1 = source
  let copied := moved.foldl (fun reads e => reads.insert (target, e.1.2) e.2) db.lockReads
  { db with lockReads := copied.retain fun key _ => key.1 ≠ source }

def cleanupSession (session : Uuid) : LockDb where
  lockState := db.lockState.retain fun _ row => row.holder.session ≠ session
  lockReads := db.lockReads.retain fun key _ => key.1.session ≠ session

end LockDb

inductive StorageCall
  | lockAcquire (path : PathBuf) (holder : Holder)
  | lockAcquireWithRead (path : PathBuf) (holder : Holder) (readHash : Option UInt64)
  | lockForceAcquire (path : PathBuf) (holder : Holder)
  | lockForceAcquireWithRead (path : PathBuf) (holder : Holder) (readHash : Option UInt64)
  | lockTouch (path : PathBuf) (holder : Holder) (now : Int)
  | lockRelease (path : PathBuf) (holder : Holder)
  | lockNoteRead (path : PathBuf) (holder : Holder) (readHash : Option UInt64)
  | lockDeleteRead (path : PathBuf) (holder : Holder)
  | lockReleaseAndDeleteReads (entries : List (PathBuf × Holder))
  | lockTransferAgent (session : Uuid) (fromAgent toAgent : AgentId)
  | lockCleanupSession (session : Uuid)

/-- What a call does to the tables at a time. -/
def StorageCall.apply (now : Int) (db : LockDb) : StorageCall → Except StorageError LockDb
  | lockAcquire path holder => db.guardedLockAcquire path holder now
  | lockAcquireWithRead path holder readHash =>
    (db.guardedLockAcquire path holder now).map (·.upsertRead path holder now readHash)
  | lockForceAcquire path holder => .ok (db.forceLockAcquire path holder now)
  | lockForceAcquireWithRead path holder readHash =>
    .ok ((db.forceLockAcquire path holder now).upsertRead path holder now readHash)
  | lockTouch path holder at_ => .ok (db.touchLock path holder at_)
  | lockRelease path holder => .ok (db.deleteLock path holder)
  | lockNoteRead path holder readHash => .ok (db.upsertRead path holder now readHash)
  | lockDeleteRead path holder => .ok (db.deleteRead path holder)
  | lockReleaseAndDeleteReads entries =>
    .ok (entries.foldl (fun db e => (db.deleteLock e.1 e.2).deleteRead e.1 e.2) db)
  | lockTransferAgent session fromAgent toAgent =>
    if fromAgent = toAgent then .ok db
    else .ok ((db.transferLocks ⟨session, fromAgent⟩ ⟨session, toAgent⟩).transferReads
      ⟨session, fromAgent⟩ ⟨session, toAgent⟩)
  | lockCleanupSession session => .ok (db.cleanupSession session)

end FlyCockpit.Locks
