-- SUMMARY: The steps of the scheduler's operations, and the system of interleaved calls.
import FlyCockpit.Scheduler.Jobs

/-!
# Steps

A step is one statement of the database or one stretch of work in memory. A pass over the due jobs
holds the activity gate from its first to its last step. A job that is run is marked in flight until
its result has been recorded.
-/

namespace FlyCockpit.Scheduler

namespace Task

/-! ## Enabling and disabling -/

/-- The next run of a job that is being enabled. -/
def nextWhenEnabled (cron : Cron) (env : Env) (s : Shared) (job : ScheduledJobRow) (enabled : Bool) :
    Except ScheduleError (Option Int) :=
  if enabled then
    computeNextRun cron job.schedule env.now job.lastRunAt job.createdAt s.lastUserActivity
      job.missedRunPolicy job.nextRunAt
  else .ok none

def fail (s : Shared) (error : SchedulerError) : Shared × List Task := (s.reply (.failed error), [])

def setVisibleReadStep (s : Shared) (id : JobId) (enabled : Bool) : Shared × List Task :=
  match s.jobs.lookup id with
  | none => (s.reply (.job none), [])
  | some row => if isSystemCallback row then fail s .systemOwned else (s, [setVisibleDecide id row enabled])

def setVisibleDecideStep (cron : Cron) (env : Env) (s : Shared) (id : JobId) (expected : ScheduledJobRow)
    (enabled : Bool) : Shared × List Task :=
  match nextWhenEnabled cron env s expected enabled with
  | .error e => fail s (.schedule e)
  | .ok next => (s, [setVisibleWrite id expected enabled next env.now])

/-- A row that was replaced meanwhile is looked at again. -/
def setVisibleWriteStep (s : Shared) (id : JobId) (expected : ScheduledJobRow) (enabled : Bool)
    (nextRunAt : Option Int) (now : Int) : Shared × List Task :=
  match s.jobs.lookup id with
  | none => (s.reply (.job none), [])
  | some row =>
    if row.rowIdentity = expected.rowIdentity then
      let jobs := s.jobs.setScheduledJobEnabledIfMatches id expected.rowIdentity enabled nextRunAt now
      (({ s with jobs } : Shared).reply (.job (jobs.lookup id)), [])
    else if isSystemCallback row then fail s .systemOwned
    else (s, [setVisibleRead id enabled])

def setReadStep (s : Shared) (id : JobId) (enabled : Bool) : Shared × List Task :=
  match s.jobs.lookup id with
  | none => (s.reply (.job none), [])
  | some row => (s, [setDecide id row enabled])

def setDecideStep (cron : Cron) (env : Env) (s : Shared) (id : JobId) (job : ScheduledJobRow)
    (enabled : Bool) : Shared × List Task :=
  match nextWhenEnabled cron env s job enabled with
  | .error e => fail s (.schedule e)
  | .ok next => (s, [setWrite id enabled next env.now])

def setWriteStep (s : Shared) (id : JobId) (enabled : Bool) (nextRunAt : Option Int) (now : Int) :
    Shared × List Task :=
  let jobs := s.jobs.setScheduledJobEnabled id enabled nextRunAt now
  (({ s with jobs } : Shared).reply (.job (jobs.lookup id)), [])

/-! ## Manual runs -/

def runVisibleReadStep (s : Shared) (id : JobId) : Shared × List Task :=
  match s.jobs.lookup id with
  | none => fail s (.notFound id)
  | some row => if isSystemCallback row then fail s .systemOwned else (s, [runVisibleClaim id row])

/-- The claim of a manual run changes nothing. -/
def runVisibleClaimStep (s : Shared) (id : JobId) (expected : ScheduledJobRow) : Shared × List Task :=
  match s.jobs.lookup id with
  | none => fail s (.notFound id)
  | some row =>
    if row.rowIdentity = expected.rowIdentity then (s, [runEnqueue id row])
    else if isSystemCallback row then fail s .systemOwned
    else (s, [runVisibleRead id])

def runReadStep (s : Shared) (id : JobId) : Shared × List Task :=
  match s.jobs.lookup id with
  | none => fail s (.notFound id)
  | some row => (s, [runEnqueue id row])

def runEnqueueStep (s : Shared) (id : JobId) (job : ScheduledJobRow) : Shared × List Task :=
  if id ∈ s.inFlight then fail s (.alreadyRunning id)
  else (({ s with inFlight := id :: s.inFlight } : Shared).reply .unit, [awaitSlot id job .manual])

/-! ## Due jobs -/

/-- A pass waits for the activity gate. -/
def dueStartStep (env : Env) (s : Shared) : Shared × List Task :=
  if s.gate then (s, [dueStart]) else ({ s with gate := true }, [dueList env.now])

/-- How long an idle job still has to wait. -/
def idleWaitUntil (job : ScheduledJobRow) (lastUserActivity now : Int) :
    Except ScheduleError (Option Int) :=
  match job.schedule with
  | .idle minIdleSeconds maxAgeSeconds => do
    let minIdle ← toI64 minIdleSeconds .minIdleTooLarge
    let maxAge ← toI64 maxAgeSeconds .maxAgeTooLarge
    let maxAgeAt := saturatingAdd (job.lastRunAt.getD job.createdAt) maxAge
    if maxAgeAt ≤ now then return none
    let waitUntil := min (saturatingAdd lastUserActivity minIdle) maxAgeAt
    return if now < waitUntil then some waitUntil else none
  | _ => .ok none

/-- The job is enabled, its time has come, and it is not backing off. -/
def isDue (job : ScheduledJobRow) (now : Int) : Bool :=
  job.enabled && job.nextRunAt.any (· ≤ now) && !job.backoffUntil.any (now < ·)

def dueNextStep (cron : Cron) (s : Shared) (now : Int) :
    List (JobId × ScheduledJobRow) → Shared × List Task
  | [] => (s, [dueEnd .unit])
  | (id, job) :: todo =>
    if !isDue job now || id ∈ s.inFlight then (s, [dueNext now todo])
    else match idleWaitUntil job s.lastUserActivity now with
      | .error e => (s, [dueEnd (.failed (.schedule e))])
      | .ok (some waitUntil) => (s, [dueDelay now id waitUntil todo])
      | .ok none =>
        match computeNextRun cron job.schedule now (some now) job.createdAt s.lastUserActivity
          job.missedRunPolicy none with
        | .error e => (s, [dueEnd (.failed (.schedule e))])
        | .ok next => (s, [dueClaim now id job next todo])

def dueClaimStep (s : Shared) (now : Int) (id : JobId) (job : ScheduledJobRow)
    (claimNextRunAt : Option Int) (todo : List (JobId × ScheduledJobRow)) : Shared × List Task :=
  match s.jobs.lookup id with
  | none => (s, [dueNext now todo])
  | some row =>
    if Jobs.claimable job.nextRunAt row then
      ({ s with jobs := s.jobs.claimScheduledJobDue id job.nextRunAt claimNextRunAt now },
        [dueEnqueue now id { row with nextRunAt := claimNextRunAt, updatedAt := now } todo])
    else (s, [dueNext now todo])

def dueEnqueueStep (s : Shared) (now : Int) (id : JobId) (job : ScheduledJobRow)
    (todo : List (JobId × ScheduledJobRow)) : Shared × List Task :=
  if id ∈ s.inFlight then (s, [dueEnd (.failed (.alreadyRunning id))])
  else ({ s with inFlight := id :: s.inFlight }, [dueNext now todo, awaitSlot id job .scheduled])

/-! ## Running a job -/

def maxFailures : Nat := 5

def backoffSeconds (failureCount jitter : Nat) : Int :=
  let exp := min (failureCount - 1) 6
  let base := min (60 * 2 ^ exp) (60 * 60)
  let floor := base / 2
  min (floor + min jitter floor) (60 * 60)

def disabledNotice (id : JobId) (failureCount : Nat) : String :=
  "scheduled job `" ++ id ++ "` disabled after " ++ toString failureCount ++ " consecutive failures"

def awaitSlotStep (s : Shared) (id : JobId) (job : ScheduledJobRow) (kind : RunKind) :
    Shared × List Task :=
  if s.slots = 0 then (s, [awaitSlot id job kind])
  else ({ s with slots := s.slots - 1 }, [execute id job kind])

def executeStep (env : Env) (s : Shared) (id : JobId) (job : ScheduledJobRow) (kind : RunKind) :
    Shared × List Task :=
  let result : ScheduledJobLastResult := match env.outcome with
    | .ok summary => ⟨true, summary, env.now⟩
    | .error message => ⟨false, message, env.now⟩
  (s, [recordRead id job kind result])

/-- The result of a run whose row was replaced meanwhile is dropped. -/
def recordReadStep (s : Shared) (id : JobId) (job : ScheduledJobRow) (kind : RunKind)
    (result : ScheduledJobLastResult) : Shared × List Task :=
  match s.jobs.lookup id with
  | none => (s, [executed id])
  | some current =>
    if current.rowIdentity = job.rowIdentity then (s, [recordDecide id job current kind result])
    else (s, [executed id])

/-- The next run that is recorded behind a run. -/
def nextAfterRun (cron : Cron) (current : ScheduledJobRow) (kind : RunKind) (enabled : Bool)
    (finishedAt lastUserActivity : Int) : Except ScheduleError (Option Int) :=
  if !enabled then .ok none
  else match kind with
    | .scheduled =>
      computeNextRun cron current.schedule finishedAt (some finishedAt) current.createdAt
        lastUserActivity current.missedRunPolicy none
    | .manual => .ok current.nextRunAt

def recordDecideStep (cron : Cron) (env : Env) (s : Shared) (id : JobId) (job current : ScheduledJobRow)
    (kind : RunKind) (result : ScheduledJobLastResult) : Shared × List Task :=
  let failureCount := if result.ok then 0 else min (current.failureCount + 1) (2 ^ 32 - 1)
  let disabled : Bool := maxFailures ≤ failureCount
  let enabled := current.enabled && !disabled
  match nextAfterRun cron current kind enabled result.finishedAt s.lastUserActivity with
  | .error _ => (s, [executed id])
  | .ok nextRunAt =>
    let update : ScheduledJobRunUpdate :=
      { rowIdentity := job.rowIdentity
        lastRunAt := result.finishedAt
        nextRunAt
        lastResult := result
        failureCount
        backoffUntil := if !result.ok && !disabled then
          some (saturatingAdd result.finishedAt (backoffSeconds failureCount env.jitter)) else none
        enabled
        disabledNotice :=
          if disabled then some (disabledNotice id failureCount) else current.disabledNotice }
    (s, [recordWrite id current kind update])

def recordWriteStep (s : Shared) (id : JobId) (update : ScheduledJobRunUpdate) : Shared × List Task :=
  ({ s with jobs := s.jobs.updateScheduledJobAfterRun id update }, [executed id])

/-- The permit and the mark of the job are given back. -/
def executedStep (s : Shared) (id : JobId) : Shared × List Task :=
  ({ s with slots := s.slots + 1, inFlight := s.inFlight.filter (· ≠ id) }, [])

/-! ## Start and activity -/

def recordUserActivityStep (env : Env) (s : Shared) : Shared × List Task :=
  if s.gate then (s, [recordUserActivity])
  else (({ s with lastUserActivity := env.now } : Shared).reply .unit, [])

def recomputeNextStep (cron : Cron) (s : Shared) (now : Int) :
    List (JobId × ScheduledJobRow) → Shared × List Task
  | [] => (s.reply .unit, [])
  | (id, job) :: todo =>
    if !job.enabled then (s, [recomputeNext now todo])
    else match computeNextRun cron job.schedule now job.lastRunAt job.createdAt s.lastUserActivity
        job.missedRunPolicy job.nextRunAt with
      | .error e => fail s (.schedule e)
      | .ok next => (s, [recomputeWrite now id next todo])

/-! ## Steps -/

/-- The task is at a statement of the database. -/
def atStatement : Task → Bool
  | setVisibleRead .. | setVisibleWrite .. | setRead .. | setWrite .. | runVisibleRead .. | runVisibleClaim ..
  | runRead .. | dueList .. | dueDelay .. | dueClaim .. | recordRead .. | recordWrite .. | recomputeList
  | recomputeWrite .. => true
  | _ => false

/-- A statement that fails ends the operation. -/
def storageFailed (s : Shared) : Task → Shared × List Task
  | dueList _ | dueDelay .. | dueClaim .. => (s, [dueEnd (.failed .storage)])
  | recordRead id .. | recordWrite id .. => (s, [executed id])
  | _ => fail s .storage

def answered (cron : Cron) (env : Env) (s : Shared) : Task → Shared × List Task
  | setVisibleRead id enabled => setVisibleReadStep s id enabled
  | setVisibleDecide id expected enabled => setVisibleDecideStep cron env s id expected enabled
  | setVisibleWrite id expected enabled next now => setVisibleWriteStep s id expected enabled next now
  | setRead id enabled => setReadStep s id enabled
  | setDecide id job enabled => setDecideStep cron env s id job enabled
  | setWrite id enabled next now => setWriteStep s id enabled next now
  | runVisibleRead id => runVisibleReadStep s id
  | runVisibleClaim id expected => runVisibleClaimStep s id expected
  | runRead id => runReadStep s id
  | runEnqueue id job => runEnqueueStep s id job
  | dueStart => dueStartStep env s
  | dueList now => (s, [dueNext now s.jobs.listScheduledJobs])
  | dueNext now todo => dueNextStep cron s now todo
  | dueDelay now id waitUntil todo =>
    ({ s with jobs := s.jobs.updateScheduledJobNextRun id (some waitUntil) now }, [dueNext now todo])
  | dueClaim now id job next todo => dueClaimStep s now id job next todo
  | dueEnqueue now id job todo => dueEnqueueStep s now id job todo
  | dueEnd answer => (({ s with gate := false } : Shared).reply answer, [])
  | awaitSlot id job kind => awaitSlotStep s id job kind
  | execute id job kind => executeStep env s id job kind
  | recordRead id job kind result => recordReadStep s id job kind result
  | recordDecide id job current kind result => recordDecideStep cron env s id job current kind result
  | recordWrite id _ _ update => recordWriteStep s id update
  | executed id => executedStep s id
  | recomputeList => (s, [recomputeNext env.now s.jobs.listScheduledJobs])
  | recomputeNext now todo => recomputeNextStep cron s now todo
  | recomputeWrite now id next todo =>
    ({ s with jobs := s.jobs.updateScheduledJobNextRun id next now }, [recomputeNext now todo])
  | recordUserActivity => recordUserActivityStep env s

def step (cron : Cron) (env : Env) (s : Shared) (t : Task) : Shared × List Task :=
  if t.atStatement && !env.stored then t.storageFailed s else t.answered cron env s

end Task

/-! ## Calls -/

inductive Call
  | setClientVisibleEnabled (id : JobId) (enabled : Bool)
  | setEnabled (id : JobId) (enabled : Bool)
  | runClientVisibleJobById (id : JobId)
  | runJobById (id : JobId)
  | runDueOnce
  | recomputeAfterStart
  | recordUserActivity

def Call.task : Call → Task
  | setClientVisibleEnabled id enabled => .setVisibleRead id enabled
  | setEnabled id enabled => .setRead id enabled
  | runClientVisibleJobById id => .runVisibleRead id
  | runJobById id => .runRead id
  | runDueOnce => .dueStart
  | recomputeAfterStart => .recomputeList
  | recordUserActivity => .recordUserActivity

def maxConcurrentJobs : Nat := 4

/-- A scheduler that was just made over a table of jobs. -/
def Shared.start (jobs : Jobs) (now : Int) : Shared := ⟨jobs, now, false, [], maxConcurrentJobs, []⟩

/-- All interleavings of scheduler operations. -/
def daemonScheduler (cron : Cron) : Lts (Pool Shared Task) (Pool.Move Call Env) :=
  Pool.lts (fun s => ∃ jobs now, s = .start jobs now) Call.task (Task.step cron)

end FlyCockpit.Scheduler
