-- SUMMARY: Scheduled jobs, the statements of their table, and the tasks of the scheduler.
import FlyCockpit.Lib.Pool
import FlyCockpit.Lib.Table
import FlyCockpit.Scheduler.Schedule
import Mathlib.Data.List.Sort

/-!
# Jobs

Jobs live in a table of the database. Every statement is atomic; what a call does between two of
them works on rows it has read before. A row carries the identity of its insertion, so that a row
that was deleted and inserted again is not taken for the old one.
-/

namespace FlyCockpit.Scheduler

abbrev JobId := String

inductive ScheduledJobPayload
  | runPrompt (assistant prompt projectRoot : String)
  | callback (subsystem : String)
  deriving DecidableEq, Repr

structure ScheduledJobLastResult where
  ok : Bool
  summary : String
  finishedAt : Int
  deriving DecidableEq, Repr

structure ScheduledJobRow where
  rowIdentity : String
  owner : String
  schedule : ScheduledJobSchedule
  payload : ScheduledJobPayload
  enabled : Bool
  missedRunPolicy : MissedRunPolicy
  createdAt : Int
  updatedAt : Int
  lastRunAt : Option Int
  nextRunAt : Option Int
  lastResult : Option ScheduledJobLastResult
  failureCount : Nat
  backoffUntil : Option Int
  disabledNotice : Option String
  deriving DecidableEq, Repr

structure ScheduledJobRunUpdate where
  rowIdentity : String
  lastRunAt : Int
  nextRunAt : Option Int
  lastResult : ScheduledJobLastResult
  failureCount : Nat
  backoffUntil : Option Int
  enabled : Bool
  disabledNotice : Option String
  deriving DecidableEq, Repr

/-- Either half of the callback convention makes a job the daemon's own. -/
def isSystemCallback (row : ScheduledJobRow) : Bool :=
  "system:".toList.isPrefixOf row.owner.toList || match row.payload with
    | .callback _ => true
    | .runPrompt .. => false

/-! ## Statements -/

abbrev Jobs := Table JobId ScheduledJobRow

namespace Jobs

/-- An UPDATE of the row of a job, if it meets the WHERE clause. -/
def update (jobs : Jobs) (id : JobId) (p : ScheduledJobRow → Bool)
    (f : ScheduledJobRow → ScheduledJobRow) : Jobs :=
  match jobs.lookup id with
  | some row => if p row then jobs.insert id (f row) else jobs
  | none => jobs

theorem lookup_update (jobs : Jobs) (id : JobId) (p : ScheduledJobRow → Bool)
    (f : ScheduledJobRow → ScheduledJobRow) (k : JobId) :
    (jobs.update id p f).lookup k =
      if k = id then (jobs.lookup id).map fun row => if p row then f row else row
      else jobs.lookup k := by
  unfold update
  split
  · next row hrow =>
    split_ifs with hp hk hk
    · subst hk
      simp [hp, hrow]
    · rw [Table.lookup_insert_eq, if_neg hk]
    · subst hk
      simp [hp, hrow]
    · rfl
  · next hrow =>
    split_ifs with hk
    · subst hk
      simp [hrow]
    · rfl

def setEnabledRow (enabled : Bool) (nextRunAt : Option Int) (updatedAt : Int) (row : ScheduledJobRow) :
    ScheduledJobRow :=
  { row with
    enabled
    nextRunAt
    updatedAt
    failureCount := if enabled then 0 else row.failureCount
    backoffUntil := if enabled then none else row.backoffUntil
    disabledNotice := if enabled then none else row.disabledNotice }

def setScheduledJobEnabled (jobs : Jobs) (id : JobId) (enabled : Bool) (nextRunAt : Option Int)
    (updatedAt : Int) : Jobs :=
  jobs.update id (fun _ => true) (setEnabledRow enabled nextRunAt updatedAt)

def setScheduledJobEnabledIfMatches (jobs : Jobs) (id : JobId) (rowIdentity : String) (enabled : Bool)
    (nextRunAt : Option Int) (updatedAt : Int) : Jobs :=
  jobs.update id (fun row => row.rowIdentity = rowIdentity) (setEnabledRow enabled nextRunAt updatedAt)

def updateScheduledJobNextRun (jobs : Jobs) (id : JobId) (nextRunAt : Option Int) (updatedAt : Int) : Jobs :=
  jobs.update id (fun _ => true) fun row => { row with nextRunAt, updatedAt }

/-- The condition under which a due job is claimed. -/
def claimable (expectedNextRunAt : Option Int) (row : ScheduledJobRow) : Bool :=
  row.enabled && row.nextRunAt = expectedNextRunAt

def claimScheduledJobDue (jobs : Jobs) (id : JobId) (expectedNextRunAt claimNextRunAt : Option Int)
    (updatedAt : Int) : Jobs :=
  jobs.update id (claimable expectedNextRunAt) fun row => { row with nextRunAt := claimNextRunAt, updatedAt }

def updateScheduledJobAfterRun (jobs : Jobs) (id : JobId) (update : ScheduledJobRunUpdate) : Jobs :=
  jobs.update id (fun row => row.rowIdentity = update.rowIdentity) fun row =>
    { row with
      lastRunAt := some update.lastRunAt
      nextRunAt := update.nextRunAt
      lastResult := some update.lastResult
      failureCount := update.failureCount
      backoffUntil := update.backoffUntil
      enabled := update.enabled
      disabledNotice := update.disabledNotice
      updatedAt := update.lastRunAt }

/-- ORDER BY enabled DESC, next_run_at IS NULL, next_run_at ASC, id ASC. -/
def listedBefore (a b : JobId × ScheduledJobRow) : Bool :=
  if a.2.enabled ≠ b.2.enabled then a.2.enabled
  else match a.2.nextRunAt, b.2.nextRunAt with
    | some _, none => true
    | none, some _ => false
    | none, none => a.1 ≤ b.1
    | some m, some n => m < n || m = n && a.1 ≤ b.1

def listScheduledJobs (jobs : Jobs) : List (JobId × ScheduledJobRow) :=
  (jobs.entries.map fun e => (e.1, e.2)).insertionSort fun a b => listedBefore a b = true

end Jobs

/-! ## Tasks -/

inductive RunKind
  | scheduled
  | manual
  deriving DecidableEq, Repr

inductive SchedulerError
  | systemOwned
  | notFound (id : JobId)
  | alreadyRunning (id : JobId)
  | schedule (error : ScheduleError)
  | storage
  deriving DecidableEq, Repr

inductive Reply
  | job (row : Option ScheduledJobRow)
  | unit
  | failed (error : SchedulerError)
  deriving DecidableEq, Repr

/-- What a step is told from outside. -/
structure Env where
  now : Int
  /-- The database answers. -/
  stored : Bool := true
  /-- How the executor ended. -/
  outcome : Except String String := .ok ""
  /-- The seconds the jitter source adds. -/
  jitter : Nat := 0

/-- The daemon's memory and its table. -/
structure Shared where
  jobs : Jobs
  lastUserActivity : Int
  /-- The activity gate is taken. -/
  gate : Bool
  inFlight : List JobId
  slots : Nat
  replies : List Reply

def Shared.reply (s : Shared) (r : Reply) : Shared := { s with replies := s.replies ++ [r] }

/-- The operations of the scheduler, by the point they are at. -/
inductive Task
  -- `set_client_visible_enabled`
  | setVisibleRead (id : JobId) (enabled : Bool)
  | setVisibleDecide (id : JobId) (expected : ScheduledJobRow) (enabled : Bool)
  | setVisibleWrite (id : JobId) (expected : ScheduledJobRow) (enabled : Bool) (nextRunAt : Option Int)
      (now : Int)
  -- `set_enabled`
  | setRead (id : JobId) (enabled : Bool)
  | setDecide (id : JobId) (job : ScheduledJobRow) (enabled : Bool)
  | setWrite (id : JobId) (enabled : Bool) (nextRunAt : Option Int) (now : Int)
  -- `run_client_visible_job_by_id`, `run_job_by_id`
  | runVisibleRead (id : JobId)
  | runVisibleClaim (id : JobId) (expected : ScheduledJobRow)
  | runRead (id : JobId)
  | runEnqueue (id : JobId) (job : ScheduledJobRow)
  -- `run_due_once`
  | dueStart
  | dueList (now : Int)
  | dueNext (now : Int) (todo : List (JobId × ScheduledJobRow))
  | dueDelay (now : Int) (id : JobId) (waitUntil : Int) (todo : List (JobId × ScheduledJobRow))
  | dueClaim (now : Int) (id : JobId) (job : ScheduledJobRow) (claimNextRunAt : Option Int)
      (todo : List (JobId × ScheduledJobRow))
  | dueEnqueue (now : Int) (id : JobId) (job : ScheduledJobRow) (todo : List (JobId × ScheduledJobRow))
  | dueEnd (answer : Reply)
  -- `execute_and_record`
  | awaitSlot (id : JobId) (job : ScheduledJobRow) (kind : RunKind)
  | execute (id : JobId) (job : ScheduledJobRow) (kind : RunKind)
  | recordRead (id : JobId) (job : ScheduledJobRow) (kind : RunKind) (result : ScheduledJobLastResult)
  | recordDecide (id : JobId) (job current : ScheduledJobRow) (kind : RunKind)
      (result : ScheduledJobLastResult)
  | recordWrite (id : JobId) (current : ScheduledJobRow) (kind : RunKind) (update : ScheduledJobRunUpdate)
  | executed (id : JobId)
  -- `recompute_after_start`
  | recomputeList
  | recomputeNext (now : Int) (todo : List (JobId × ScheduledJobRow))
  | recomputeWrite (now : Int) (id : JobId) (nextRunAt : Option Int)
      (todo : List (JobId × ScheduledJobRow))
  -- `record_user_activity`
  | recordUserActivity

end FlyCockpit.Scheduler
