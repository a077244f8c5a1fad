-- SUMMARY: When the next run of a job lies behind the run it is computed for.
import FlyCockpit.Scheduler.Disabling

/-!
# Progress

A claim and the record of a scheduled run store the next run of the job. It lies in the future for
all schedules but one: an idle job whose user has been idle long enough is due again at once, since
its next run counts from the last activity and not from the run.
-/

namespace FlyCockpit.Scheduler

open Option

/-! ## The next run behind a run -/

/-- An idle job has to wait for its user. -/
def ScheduledJobSchedule.Waits (lastUserActivity now : Int) : ScheduledJobSchedule → Prop
  | idle minIdleSeconds _ => now < lastUserActivity + minIdleSeconds.toNat
  | _ => True

/-- The cron library gives occurrences behind the timestamp it is asked about. -/
def Cron.Later (cron : Cron) : Prop := ∀ expr start time, cron.next expr start = some time → start < time

/-- A time of the clock that is not at its end. -/
def InClock (time : Int) : Prop := i64Min ≤ time ∧ time < i64Max

theorem toI64_eq_ok {n : UInt64} {error : ScheduleError} {m : Int} (h : toI64 n error = .ok m) :
    m = n.toNat := by
  unfold toI64 at h
  split_ifs at h
  exact (Except.ok.inj h).symm

theorem toNat_pos {n : UInt64} (h : n ≠ 0) : (0 : Int) < n.toNat := by
  have : n.toNat ≠ 0 := fun hzero => h (UInt64.toNat_inj.1 hzero)
  omega

/-- A saturated sum is later than a time of the clock exactly if the sum is. -/
theorem lt_saturatingAdd_iff {now a b : Int} (hnow : InClock now) :
    now < saturatingAdd a b ↔ now < a + b := by
  obtain ⟨hmin, hmax⟩ := hnow
  unfold saturatingAdd
  rw [lt_max_iff, lt_min_iff]
  omega

section NextRun

variable {cron : Cron} {now createdAt lastUserActivity : Int} {policy : MissedRunPolicy}
  {next : Option Int}

theorem computeNextRun_cron {expr : Text} (hcron : cron.Later)
    (h : computeNextRun cron (.cron expr) now (some now) createdAt lastUserActivity policy none = .ok next) :
    ∀ n ∈ next, now < n := by
  simp only [computeNextRun, any_none, Bool.false_eq_true, if_false, false_and] at h
  cases hexpr : productCron cron expr with
  | error e =>
    rw [hexpr] at h
    cases h
  | ok text =>
    rw [hexpr] at h
    cases htime : cron.next text now with
    | none =>
      simp only [bind, Except.bind, htime] at h
      cases h
    | some time =>
      simp only [bind, Except.bind, htime] at h
      cases h
      intro n hn
      obtain rfl := some.inj hn
      exact hcron text now _ htime

theorem computeNextRun_every {seconds : UInt64} (hseconds : seconds ≠ 0) (hnow : InClock now)
    (h : computeNextRun cron (.every seconds) now (some now) createdAt lastUserActivity policy none =
      .ok next) : ∀ n ∈ next, now < n := by
  simp only [computeNextRun, any_none, Bool.false_eq_true, if_false, false_and] at h
  cases hseconds' : toI64 seconds .everyTooLarge with
  | error e =>
    rw [hseconds'] at h
    cases h
  | ok m =>
    rw [hseconds'] at h
    cases h
    intro n hn
    obtain rfl := some.inj hn
    rw [toI64_eq_ok hseconds', lt_saturatingAdd_iff hnow, getD_some, max_self]
    have := toNat_pos hseconds
    omega

theorem computeNextRun_once {time : Int}
    (h : computeNextRun cron (.once time) now (some now) createdAt lastUserActivity policy none =
      .ok next) : ∀ n ∈ next, now < n := by
  simp only [computeNextRun, any_none, Bool.false_eq_true, if_false, false_and, reduceCtorEq,
    or_false] at h
  split_ifs at h with htime
  · cases h
    intro n hn
    obtain rfl := some.inj hn
    exact lt_max_of_lt_left htime
  · cases h
    exact fun n hn => nomatch hn

theorem computeNextRun_idle {minIdleSeconds maxAgeSeconds : UInt64} (hmax : maxAgeSeconds ≠ 0)
    (hnow : InClock now)
    (h : computeNextRun cron (.idle minIdleSeconds maxAgeSeconds) now (some now) createdAt
      lastUserActivity policy none = .ok next) :
    (∀ n ∈ next, now < n) ↔ now < lastUserActivity + minIdleSeconds.toNat := by
  simp only [computeNextRun, any_none, Bool.false_eq_true, if_false, false_and] at h
  cases hmin' : toI64 minIdleSeconds .minIdleTooLarge with
  | error e =>
    rw [hmin'] at h
    cases h
  | ok minIdle =>
    cases hmax' : toI64 maxAgeSeconds .maxAgeTooLarge with
    | error e =>
      rw [hmin', hmax'] at h
      cases h
    | ok maxAge =>
      rw [hmin', hmax'] at h
      cases h
      have hpos := toNat_pos hmax
      have hage : now < saturatingAdd now maxAge := by
        rw [lt_saturatingAdd_iff hnow, toI64_eq_ok hmax']
        omega
      have hmem : (∀ n ∈ some (min (saturatingAdd lastUserActivity minIdle) (saturatingAdd now maxAge)),
          now < n) ↔ now < min (saturatingAdd lastUserActivity minIdle) (saturatingAdd now maxAge) :=
        ⟨fun h => h _ rfl, fun h n hn => some.inj hn ▸ h⟩
      rw [getD_some, hmem, lt_min_iff, and_iff_left hage, lt_saturatingAdd_iff hnow,
        toI64_eq_ok hmin']

/-- Behind a run at `now` the next one is absent or later, unless it is an idle job whose user has been
idle for long enough. -/
theorem computeNextRun_later_iff {schedule : ScheduledJobSchedule} (hcron : cron.Later)
    (hvalid : validateSchedule cron schedule = .ok ()) (hnow : InClock now)
    (h : computeNextRun cron schedule now (some now) createdAt lastUserActivity policy none = .ok next) :
    (∀ n ∈ next, now < n) ↔ schedule.Waits lastUserActivity now := by
  cases schedule with
  | cron expr => exact iff_of_true (computeNextRun_cron hcron h) trivial
  | every seconds =>
    refine iff_of_true (computeNextRun_every (fun hzero => ?_) hnow h) trivial
    rw [validateSchedule, if_pos hzero] at hvalid
    cases hvalid
  | once time => exact iff_of_true (computeNextRun_once h) trivial
  | idle minIdleSeconds maxAgeSeconds =>
    refine computeNextRun_idle (fun hzero => ?_) hnow h
    rw [validateSchedule, if_pos (.inr hzero)] at hvalid
    cases hvalid

end NextRun

/-! ## The activity a task has read -/

namespace Task

/-- The last user activity at the time the task computed a next run. -/
def note (s _ : Shared) (t : Task) (lastUserActivity : Int) : Int :=
  match t with
  | dueNext .. | recordDecide .. => s.lastUserActivity
  | _ => lastUserActivity

/-- The times a task carries are times of the clock, and its next run is computed from them. -/
def Timed (cron : Cron) (t : Task × Int) : Prop :=
  match t.1 with
  | dueList now | dueNext now _ | dueDelay now .. | dueEnqueue now .. => InClock now
  | dueClaim now _ job next _ => InClock now ∧
    computeNextRun cron job.schedule now (some now) job.createdAt t.2 job.missedRunPolicy none = .ok next
  | recordRead _ _ _ result | recordDecide _ _ _ _ result => InClock result.finishedAt
  | recordWrite _ current kind update => InClock update.lastRunAt ∧
    nextAfterRun cron current kind update.enabled update.lastRunAt t.2 = .ok update.nextRunAt
  | _ => True

end Task

def notedScheduler (cron : Cron) : Lts (Pool Shared (Task × Int)) (Pool.Move Call Env) :=
  Pool.lts (fun s => ∃ jobs now, s = .start jobs now) (fun call => (call.task, 0))
    (Pool.noted (Task.step cron) Task.note)

/-- Every run of the scheduler has these notes. -/
theorem exists_notedScheduler {cron : Cron} {pool : Pool Shared Task}
    {past : List (Pool Shared Task × Pool.Move Call Env)} (h : (daemonScheduler cron).History pool past) :
    ∃ pool' past', (notedScheduler cron).History pool' past' ∧ pool'.unnoted = pool ∧
      past'.map (Prod.map Pool.unnoted id) = past :=
  Pool.History.exists_noted 0 Task.note h

namespace Task

section Steps

variable {cron : Cron} {env : Env} {s : Shared}

/-- The tasks that are left of a step carry times of the clock. -/
def Passes (cron : Cron) (lastUserActivity : Int) (r : Shared × List Task) : Prop :=
  ∀ u ∈ r.2, Timed cron (u, lastUserActivity)

theorem Passes.done {s' : Shared} {n : Int} : Passes cron n (s', []) := List.forall_mem_nil _

theorem Passes.next {s' : Shared} {u : Task} {n : Int} (hu : Timed cron (u, n)) :
    Passes cron n (s', [u]) :=
  List.forall_mem_singleton.2 hu

theorem passes_dueNextStep {now : Int} (hnow : InClock now) (todo : List (JobId × ScheduledJobRow)) :
    Passes cron s.lastUserActivity (dueNextStep cron s now todo) := by
  unfold dueNextStep
  split
  · exact .next trivial
  · split_ifs
    · exact .next hnow
    · split
      · exact .next trivial
      · exact .next hnow
      · split
        · exact .next trivial
        · next hnext => exact .next ⟨hnow, hnext⟩

theorem passes_recordDecideStep {result : ScheduledJobLastResult} (hresult : InClock result.finishedAt)
    (id : JobId) (job current : ScheduledJobRow) (kind : RunKind) :
    Passes cron s.lastUserActivity (recordDecideStep cron env s id job current kind result) := by
  unfold recordDecideStep
  dsimp only
  split
  · exact .next trivial
  · next hnext => exact .next ⟨hresult, hnext⟩

theorem passes_answered {t : Task} {n : Int} (h : Timed cron (t, n)) (hclock : InClock env.now) :
    Passes cron (t.note s (t.answered cron env s).1 n) (t.answered cron env s) := by
  cases t with
  | dueNext now todo => exact passes_dueNextStep h todo
  | recordDecide id job current kind result => exact passes_recordDecideStep h id job current kind
  | dueClaim now id job next todo =>
    change Passes cron n (dueClaimStep s now id job next todo)
    unfold dueClaimStep
    repeat' split
    all_goals exact .next h.1
  | dueEnqueue now id job todo =>
    change Passes cron n (dueEnqueueStep s now id job todo)
    unfold dueEnqueueStep
    split_ifs
    · exact .next trivial
    · exact List.forall_mem_cons.2 ⟨h, List.forall_mem_singleton.2 trivial⟩
  | execute id job kind =>
    refine .next ?_
    change InClock (ScheduledJobLastResult.finishedAt _)
    split <;> exact hclock
  | _ =>
    -- The other steps end, or hand on the time they have.
    unfold answered setVisibleReadStep setVisibleDecideStep setVisibleWriteStep setReadStep
      setDecideStep runVisibleReadStep runVisibleClaimStep runReadStep runEnqueueStep dueStartStep
      awaitSlotStep recordReadStep recomputeNextStep recordUserActivityStep
    dsimp only [note]
    repeat' split
    all_goals first | exact .done | exact .next trivial | exact .next h | exact .next hclock

theorem passes_storageFailed (t : Task) (n : Int) : Passes cron n (t.storageFailed s) := by
  unfold storageFailed
  split
  all_goals first
    | exact .next trivial
    | exact .done

theorem Timed.step {t : Task × Int} (h : Timed cron t) (hclock : InClock env.now) :
    ∀ u ∈ (Pool.noted (Task.step cron) Task.note env s t).2, Timed cron u := by
  obtain ⟨t, n⟩ := t
  have hpasses : Passes cron (t.note s (t.step cron env s).1 n) (t.step cron env s) := by
    unfold Task.step
    split_ifs
    · exact passes_storageFailed t _
    · exact passes_answered h hclock
  intro u hmem
  obtain ⟨u, hu, rfl⟩ := List.mem_map.1 hmem
  exact hpasses u hu

end Steps

end Task

/-! ## Runs -/

namespace Task

/-- The step records the result of a run. -/
def records (s : Shared) (env : Env) (id : JobId) (update : ScheduledJobRunUpdate) : Bool :=
  env.stored && (s.jobs.lookup id).any (·.rowIdentity = update.rowIdentity)

/-- The next run that the claim of a due job or the record of a scheduled run stores is absent or later
than the claim or the end of the run. -/
def StoresLater (cron : Cron) (s : Shared) (t : Task × Int) (env : Env) : Prop :=
  match t.1 with
  | dueClaim now id job next _ => t.1.claims s env = some id →
    validateSchedule cron job.schedule = .ok () → ∀ n ∈ next, now < n
  | recordWrite id current kind update => records s env id update = true → kind = .scheduled →
    validateSchedule cron current.schedule = .ok () → ∀ n ∈ update.nextRunAt, update.lastRunAt < n
  | _ => True

/-- The user of an idle job that is claimed, or recorded as enabled behind a scheduled run, has not been
idle for long enough to run it again. -/
def IdleWaits (cron : Cron) (s : Shared) (t : Task × Int) (env : Env) : Prop :=
  match t.1 with
  | dueClaim now id job _ _ => t.1.claims s env = some id →
    validateSchedule cron job.schedule = .ok () → job.schedule.Waits t.2 now
  | recordWrite id current kind update => records s env id update = true → kind = .scheduled →
    validateSchedule cron current.schedule = .ok () → update.enabled = true →
      current.schedule.Waits t.2 update.lastRunAt
  | _ => True

theorem storesLater_iff {cron : Cron} (hcron : cron.Later) {s : Shared} {t : Task × Int} {env : Env}
    (h : Timed cron t) : StoresLater cron s t env ↔ IdleWaits cron s t env := by
  obtain ⟨t, n⟩ := t
  cases t with
  | dueClaim now id job next todo =>
    refine imp_congr_right fun _ => forall_congr' fun hvalid => ?_
    exact computeNextRun_later_iff hcron hvalid h.1 h.2
  | recordWrite id current kind update =>
    obtain ⟨hclock, hnext⟩ := h
    refine imp_congr_right fun _ => forall_congr' fun hkind => forall_congr' fun hvalid => ?_
    dsimp only at hnext
    rw [hkind, nextAfterRun] at hnext
    cases henabled : update.enabled with
    | false =>
      rw [henabled] at hnext
      rw [← Except.ok.inj hnext]
      exact iff_of_true (fun n hn => nomatch hn) nofun
    | true =>
      rw [henabled] at hnext
      rw [forall_prop_of_true (by rfl)]
      exact computeNextRun_later_iff hcron hvalid hclock hnext
  | _ => exact Iff.rfl

end Task

/-- In a run of interleaved operations under a clock below its limit, every next run that is stored with
a claim or behind a scheduled run is absent or later, exactly if no idle job is run whose user has
been idle for long enough to run it again. -/
theorem next_run_later_iff {cron : Cron} (hcron : cron.Later) {pool : Pool Shared (Task × Int)}
    {past : List (Pool Shared (Task × Int) × Pool.Move Call Env)}
    (h : (notedScheduler cron).History pool past)
    (hclock : ∀ e ∈ past, e.1.OnStep (fun _ _ env => InClock env.now) e.2) :
    (∀ e ∈ past, e.1.OnStep (Task.StoresLater cron) e.2) ↔
      ∀ e ∈ past, e.1.OnStep (Task.IdleWaits cron) e.2 := by
  refine forall₂_congr fun e he => ?_
  obtain ⟨before, hbefore, hsub⟩ := h.exists_of_mem e he
  have htimed : ∀ t ∈ e.1.tasks, Task.Timed cron t := by
    refine Pool.History.forall_tasks (fun call => ?_) (fun hclock ht => ht.step hclock) hbefore
      fun e' he' => hclock e' (hsub he')
    cases call <;> trivial
  exact Pool.onStep_congr (fun t ht _ => Task.storesLater_iff hcron (htimed t ht)) e.2

/-! ## An idle job that runs back to back -/

/-- The time at which a job is claimed with a next run that is not later. -/
def claimedEarly (cron : Cron) (e : Pool Shared (Task × Int) × Pool.Move Call Env) : Option Int :=
  match e.2 with
  | .start _ => none
  | .step index env => e.1.tasks[index]?.bind fun t => match t.1 with
    | .dueClaim now id job next _ =>
      if t.1.claims e.1.shared env = some id ∧ validateSchedule cron job.schedule = .ok () ∧
          next.any (· ≤ now) = true then some now
      else none
    | _ => none

theorem claimedEarly_eq_none {cron : Cron} {e : Pool Shared (Task × Int) × Pool.Move Call Env}
    (h : e.1.OnStep (Task.StoresLater cron) e.2) : claimedEarly cron e = none := by
  obtain ⟨pool, move⟩ := e
  cases move with
  | start call => rfl
  | step index env =>
    cases htask : pool.tasks[index]? with
    | none => simp only [claimedEarly, htask, bind_none]
    | some t =>
      have ht := h t htask
      obtain ⟨t, n⟩ := t
      simp only [claimedEarly, htask, bind_some]
      cases t with
      | dueClaim now id job next todo =>
        dsimp only
        rw [if_neg]
        rintro ⟨hclaims, hvalid, hearly⟩
        obtain ⟨m, hm, hle⟩ := (any_eq_true _ _).1 hearly
        exact absurd (ht hclaims hvalid m hm) (not_lt.2 (of_decide_eq_true hle))
      | _ => rfl

instance (time : Int) : Decidable (InClock time) := inferInstanceAs (Decidable (_ ∧ _))

theorem neverCron_later : neverCron.Later := fun _ _ _ h => nomatch h

/-- A job that runs when the user has been idle for two minutes, or else every ten minutes. -/
def idler : ScheduledJobRow :=
  { minutely with rowIdentity := "idler", schedule := .idle 120 600, nextRunAt := some 120 }

def idlerPool : Pool Shared (Task × Int) := ⟨.start ((∅ : Jobs).insert "job" idler) 0, []⟩

/-- A pass at second 1000 runs the job, which ends at second 1001, and a pass comes then. -/
def idleMoves : List (Pool.Move Call Env) :=
  .start .runDueOnce :: List.replicate 8 (.step 0 { now := 1000 }) ++
    List.replicate 5 (.step 0 { now := 1001 }) ++
    .start .runDueOnce :: List.replicate 4 (.step 0 { now := 1001 })

/-- The user has not been there since second 0, and the job is claimed again in the second it ended. -/
theorem idle_job_claimed_again :
    ∃ pool past, (notedScheduler neverCron).History pool past ∧ neverCron.Later ∧
      (∀ e ∈ past, e.1.OnStep (fun _ _ env => InClock env.now) e.2) ∧
      pool.shared.lastUserActivity = 0 ∧
      (pool.shared.jobs.lookup "job").bind (·.lastRunAt) = some 1001 ∧
      past.filterMap (claimedEarly neverCron) = [1001, 1000] ∧
      ¬∀ e ∈ past, e.1.OnStep (Task.StoresLater neverCron) e.2 := by
  have hrun : ∃ r ∈ Pool.advanceAll (fun call => (Call.task call, 0))
      (Pool.noted (Task.step neverCron) Task.note) idlerPool [] idleMoves,
      (∀ e ∈ r.2, e.1.OnStep (fun _ _ env => InClock env.now) e.2) ∧
      r.1.shared.lastUserActivity = 0 ∧
      (r.1.shared.jobs.lookup "job").bind (·.lastRunAt) = some 1001 ∧
      r.2.filterMap (claimedEarly neverCron) = [1001, 1000] := by decide +kernel
  obtain ⟨⟨pool, past⟩, hrun, hclock, hactivity, hran, hclaimed⟩ := hrun
  refine ⟨pool, past, Pool.history_of_advanceAll (.init ⟨⟨_, _, rfl⟩, rfl⟩) hrun,
    neverCron_later, hclock, hactivity, hran, hclaimed, fun hlater => ?_⟩
  have hnone : past.filterMap (claimedEarly neverCron) = [] :=
    List.filterMap_eq_nil_iff.2 fun e he => claimedEarly_eq_none (hlater e he)
  cases hclaimed.symm.trans hnone

/-- A job that runs every minute is claimed and run. -/
theorem next_run_later_iff_minutely :
    ∃ pool past, (notedScheduler neverCron).History pool past ∧ neverCron.Later ∧
      (∀ e ∈ past, e.1.OnStep (fun _ _ env => InClock env.now) e.2) ∧ past.length = 13 ∧
      ((∀ e ∈ past, e.1.OnStep (Task.StoresLater neverCron) e.2) ↔
        ∀ e ∈ past, e.1.OnStep (Task.IdleWaits neverCron) e.2) := by
  have hrun : ∃ r ∈ Pool.advanceAll (fun call => (Call.task call, 0))
      (Pool.noted (Task.step neverCron) Task.note) ⟨minutelyPool.shared, []⟩ []
        (ranMoves ++ [.step 0 { now := 100 }]),
      (∀ e ∈ r.2, e.1.OnStep (fun _ _ env => InClock env.now) e.2) ∧ r.2.length = 13 := by decide +kernel
  obtain ⟨⟨pool, past⟩, hrun, hclock, hlength⟩ := hrun
  have hhistory : (notedScheduler neverCron).History pool past :=
    Pool.history_of_advanceAll (.init ⟨⟨_, _, rfl⟩, rfl⟩) hrun
  exact ⟨pool, past, hhistory, neverCron_later, hclock, hlength,
    next_run_later_iff neverCron_later hhistory hclock⟩

end FlyCockpit.Scheduler
