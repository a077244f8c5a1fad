-- SUMMARY: When a job that was disabled stays disabled.
import FlyCockpit.Scheduler.Steps

/-!
# Disabling

The result of a run is recorded with the enabled flag that was read when the run ended. If a call
disables the job between the read and the write, the write enables it again. So does a call to enable
that was made before and is stored after the call to disable. Nothing else does, apart from calls to
enable that are made later.
-/

namespace FlyCockpit.Scheduler

/-! ## Disabled rows -/

namespace Jobs

def isDisabled (jobs : Jobs) (id : JobId) : Bool := (jobs.lookup id).any (!·.enabled)

variable {jobs : Jobs} {id k : JobId} {p : ScheduledJobRow → Bool}
  {f : ScheduledJobRow → ScheduledJobRow} {enabled : Bool}

theorem isDisabled_update : (jobs.update id p f).isDisabled k =
      if k = id then (jobs.lookup id).any fun row => !(if p row then f row else row).enabled
      else jobs.isDisabled k := by
  unfold isDisabled
  rw [lookup_update]
  split_ifs
  · rw [Option.any_map]
  · rfl

/-- A statement that does not write the flag leaves it alone. -/
theorem isDisabled_update_of_kept (hf : ∀ row, (f row).enabled = row.enabled) :
    (jobs.update id p f).isDisabled k = jobs.isDisabled k := by
  rw [isDisabled_update]
  split_ifs with hk
  · subst hk
    unfold isDisabled
    congr 1
    funext row
    split_ifs
    · rw [hf]
    · rfl
  · rfl

/-- A statement that writes the flag of the row it finds. -/
theorem isDisabled_update_of_set (hf : ∀ row, (f row).enabled = enabled)
    (h : (jobs.lookup id).any p = true) : (jobs.update id p f).isDisabled id = !enabled := by
  obtain ⟨row, hrow, hp⟩ := (Option.any_eq_true p _).1 h
  rw [isDisabled_update, if_pos rfl, hrow]
  simp [hp, hf]

theorem isDisabled_setScheduledJobEnabled (next : Option Int) (now : Int)
    (h : (jobs.lookup id).isSome = true) :
    (jobs.setScheduledJobEnabled id enabled next now).isDisabled id = !enabled := by
  refine isDisabled_update_of_set (fun _ => rfl) ?_
  obtain ⟨row, hrow⟩ := Option.isSome_iff_exists.1 h
  rw [hrow]
  rfl

/-- A statement that finds no row to write. -/
theorem update_eq_self (f : ScheduledJobRow → ScheduledJobRow) (h : (jobs.lookup id).any p = false) :
    jobs.update id p f = jobs := by
  unfold update
  split
  · next row hrow =>
    rw [hrow, Option.any_some] at h
    rw [if_neg (Bool.eq_false_iff.1 h)]
  · rfl

/-- A disabled row stays disabled unless the statement finds it and sets the flag. -/
theorem isDisabled_update_of_ne (hf : ∀ row, (f row).enabled = enabled)
    (h : jobs.isDisabled k = true)
    (hset : (jobs.lookup id).any p = true → enabled = true → id ≠ k) :
    (jobs.update id p f).isDisabled k = true := by
  cases hfound : (jobs.lookup id).any p with
  | false => rwa [update_eq_self f hfound]
  | true =>
    by_cases hk : k = id
    · subst hk
      rw [isDisabled_update_of_set hf hfound, Bool.not_eq_true']
      exact Bool.eq_false_iff.2 fun henabled => hset hfound henabled rfl
    · rwa [isDisabled_update, if_neg hk]

end Jobs

namespace Task

/-! ## Writes of the enabled flag -/

/-- The job and the flag that a call to enable or disable stores with this step. -/
def sets (s : Shared) (env : Env) : Task → Option (JobId × Bool)
  | setVisibleWrite id expected enabled _ _ =>
    if env.stored && (s.jobs.lookup id).any (·.rowIdentity = expected.rowIdentity) then some (id, enabled)
    else none
  | setWrite id enabled _ _ =>
    if env.stored && (s.jobs.lookup id).isSome then some (id, enabled) else none
  | _ => none

/-- The job whose result is recorded as that of an enabled job with this step. -/
def recordsEnabled (s : Shared) (env : Env) : Task → Option JobId
  | recordWrite id _ _ update =>
    if env.stored && (s.jobs.lookup id).any (·.rowIdentity = update.rowIdentity) && update.enabled then
      some id
    else none
  | _ => none

/-- The job that is claimed for a scheduled run with this step. -/
def claims (s : Shared) (env : Env) : Task → Option JobId
  | dueClaim _ id job _ _ =>
    if env.stored && (s.jobs.lookup id).any (Jobs.claimable job.nextRunAt) then some id else none
  | _ => none

/-! ## What a step does to the flag -/

/-- The statement that the step makes on the table. -/
def statement (jobs : Jobs) : Task → Jobs
  | setVisibleWrite id expected enabled next now =>
    jobs.setScheduledJobEnabledIfMatches id expected.rowIdentity enabled next now
  | setWrite id enabled next now => jobs.setScheduledJobEnabled id enabled next now
  | dueDelay now id waitUntil _ => jobs.updateScheduledJobNextRun id (some waitUntil) now
  | dueClaim now id job next _ => jobs.claimScheduledJobDue id job.nextRunAt next now
  | recordWrite id _ _ update => jobs.updateScheduledJobAfterRun id update
  | recomputeWrite now id next _ => jobs.updateScheduledJobNextRun id next now
  | _ => jobs

/-- The step leaves the table alone. -/
def reads : Task → Bool
  | setVisibleWrite .. | setWrite .. | dueDelay .. | dueClaim .. | recordWrite .. | recomputeWrite .. => false
  | _ => true

section Steps

variable {cron : Cron} {env : Env} {s : Shared} {id : JobId} {t : Task}

theorem jobs_storageFailed (t : Task) : (t.storageFailed s).1.jobs = s.jobs := by
  unfold storageFailed
  split <;> rfl

theorem jobs_answered (ht : t.reads = true) : (t.answered cron env s).1.jobs = s.jobs := by
  cases t with
  | setVisibleWrite | setWrite | dueDelay | dueClaim | recordWrite | recomputeWrite => cases ht
  | dueList | dueEnd | execute | executed | recomputeList => rfl
  | _ =>
    -- The other steps choose how to go on.
    unfold answered setVisibleReadStep setVisibleDecideStep setReadStep setDecideStep
      runVisibleReadStep runVisibleClaimStep runReadStep runEnqueueStep dueStartStep dueNextStep
      dueEnqueueStep awaitSlotStep recordReadStep recordDecideStep recomputeNextStep
      recordUserActivityStep
    dsimp only
    repeat' split
    all_goals rfl

theorem jobs_setVisibleWriteStep (expected : ScheduledJobRow) (enabled : Bool)
    (next : Option Int) (now : Int) :
    (setVisibleWriteStep s id expected enabled next now).1.jobs =
      s.jobs.setScheduledJobEnabledIfMatches id expected.rowIdentity enabled next now := by
  have hkept : (s.jobs.lookup id).any (·.rowIdentity = expected.rowIdentity) = false →
      s.jobs = s.jobs.setScheduledJobEnabledIfMatches id expected.rowIdentity enabled next now :=
    fun h => (Jobs.update_eq_self _ h).symm
  unfold setVisibleWriteStep
  split
  · next hrow =>
    refine hkept ?_
    rw [hrow, Option.any_none]
  · next row hrow =>
    rw [hrow, Option.any_some, decide_eq_false_iff_not] at hkept
    split_ifs with hmatch hsystem
    · rfl
    · exact hkept hmatch
    · exact hkept hmatch

theorem jobs_dueClaimStep (now : Int) (job : ScheduledJobRow) (next : Option Int)
    (todo : List (JobId × ScheduledJobRow)) :
    (dueClaimStep s now id job next todo).1.jobs =
      s.jobs.claimScheduledJobDue id job.nextRunAt next now := by
  have hkept : (s.jobs.lookup id).any (Jobs.claimable job.nextRunAt) = false →
      s.jobs = s.jobs.claimScheduledJobDue id job.nextRunAt next now :=
    fun h => (Jobs.update_eq_self _ h).symm
  unfold dueClaimStep
  split
  · next hrow =>
    refine hkept ?_
    rw [hrow, Option.any_none]
  · next row hrow =>
    rw [hrow, Option.any_some] at hkept
    split_ifs with hclaim
    · rfl
    · exact hkept (Bool.eq_false_iff.2 hclaim)

/-- The table behind a step: one statement at most is made. -/
theorem jobs_step (t : Task) :
    (t.step cron env s).1.jobs = if env.stored then t.statement s.jobs else s.jobs := by
  unfold step
  by_cases ht : t.reads = true
  · have hkept : t.statement s.jobs = s.jobs := by
      cases t <;> first | rfl | cases ht
    rw [hkept, ite_self]
    split_ifs
    · exact jobs_storageFailed t
    · exact jobs_answered ht
  · have hat : t.atStatement = true := by
      cases t <;> first | rfl | exact absurd rfl ht
    rw [hat, Bool.true_and]
    cases hstored : env.stored with
    | false => exact jobs_storageFailed t
    | true =>
      cases t with
      | setVisibleWrite id expected enabled next now => exact jobs_setVisibleWriteStep expected enabled next now
      | dueClaim now id job next todo => exact jobs_dueClaimStep now job next todo
      | setWrite | dueDelay | recordWrite | recomputeWrite => rfl
      | _ => exact absurd rfl ht

/-! ## The flag -/

/-- Only a call that enables the job and the record of a run that was taken for enabled set the
flag. -/
theorem isDisabled_step (h : s.jobs.isDisabled id = true)
    (hsets : t.sets s env ≠ some (id, true)) (hrecords : t.recordsEnabled s env ≠ some id) :
    (t.step cron env s).1.jobs.isDisabled id = true := by
  rw [jobs_step]
  cases hstored : env.stored with
  | false => exact h
  | true =>
    rw [if_pos rfl]
    cases t with
    | setVisibleWrite k expected enabled next now =>
      refine Jobs.isDisabled_update_of_ne (fun _ => rfl) h fun hfound henabled hk => hsets ?_
      rw [sets, hstored, hfound, henabled, hk]
      rfl
    | setWrite k enabled next now =>
      refine Jobs.isDisabled_update_of_ne (fun _ => rfl) h fun hfound henabled hk => hsets ?_
      have hsome : (s.jobs.lookup k).isSome = true := by
        obtain ⟨row, hrow, -⟩ := (Option.any_eq_true _ _).1 hfound
        rw [hrow]
        rfl
      rw [sets, hstored, hsome, henabled, hk]
      rfl
    | recordWrite k current kind update =>
      refine Jobs.isDisabled_update_of_ne (fun _ => rfl) h fun hfound henabled hk => hrecords ?_
      rw [recordsEnabled, hstored, hfound, show update.enabled = true from henabled, hk]
      rfl
    | dueDelay | dueClaim | recomputeWrite =>
      refine Eq.trans (Jobs.isDisabled_update_of_kept ?_) h
      exact fun _ => rfl
    | _ => exact h

theorem isDisabled_of_sets {enabled : Bool} (h : t.sets s env = some (id, enabled)) :
    (t.step cron env s).1.jobs.isDisabled id = !enabled := by
  rw [jobs_step]
  cases t with
  | setVisibleWrite k expected enabled next now =>
    rw [sets] at h
    split_ifs at h with hfound
    obtain ⟨hstored, hfound⟩ := Bool.and_eq_true_iff.1 hfound
    cases h
    rw [if_pos hstored]
    exact Jobs.isDisabled_update_of_set (fun _ => rfl) hfound
  | setWrite k enabled next now =>
    rw [sets] at h
    split_ifs at h with hfound
    obtain ⟨hstored, hfound⟩ := Bool.and_eq_true_iff.1 hfound
    cases h
    rw [if_pos hstored]
    exact Jobs.isDisabled_setScheduledJobEnabled next now hfound
  | _ => cases h

theorem not_isDisabled_of_recordsEnabled (h : t.recordsEnabled s env = some id) :
    (t.step cron env s).1.jobs.isDisabled id = false := by
  rw [jobs_step]
  cases t with
  | recordWrite k current kind update =>
    rw [recordsEnabled] at h
    split_ifs at h with hfound
    rw [Bool.and_eq_true_iff, Bool.and_eq_true_iff] at hfound
    obtain ⟨⟨hstored, hfound⟩, henabled⟩ := hfound
    cases h
    have hset : (s.jobs.updateScheduledJobAfterRun id update).isDisabled id = !update.enabled :=
      Jobs.isDisabled_update_of_set (fun _ => rfl) hfound
    rw [if_pos hstored, statement, hset, henabled]
    rfl
  | _ => cases h

/-- A disabled job is not claimed. -/
theorem not_isDisabled_of_claims (h : t.claims s env = some id) : s.jobs.isDisabled id = false := by
  cases t with
  | dueClaim now k job next todo =>
    rw [claims] at h
    split_ifs at h with hfound
    obtain ⟨-, hfound⟩ := Bool.and_eq_true_iff.1 hfound
    cases h
    obtain ⟨row, hrow, hclaim⟩ := (Option.any_eq_true _ _).1 hfound
    rw [Jobs.claimable, Bool.and_eq_true_iff] at hclaim
    simp [Jobs.isDisabled, hrow, hclaim.1]
  | _ => cases h

end Steps

end Task

/-! ## Runs -/

/-- The job that the call is made to enable. -/
def Call.enables : Call → Option JobId
  | setClientVisibleEnabled id true | setEnabled id true => some id
  | _ => none

/-- The jobs that a call has disabled and that no call was made to enable since. -/
def watch (pool : Pool Shared Task) (move : Pool.Move Call Env) (ids : List JobId) : List JobId :=
  match move with
  | .start call => ids.filter (call.enables ≠ some ·)
  | .step index env => match pool.tasks[index]?.bind (Task.sets pool.shared env) with
    | some (id, false) => id :: ids
    | _ => ids

def watchedScheduler (cron : Cron) : Lts (Pool Shared Task × List JobId) (Pool.Move Call Env) :=
  (daemonScheduler cron).tracked [] watch

/-- The jobs that calls have disabled are disabled. -/
def Sticks (x : Pool Shared Task × List JobId) : Prop := ∀ id ∈ x.2, x.1.shared.jobs.isDisabled id = true

/-- For a job that a call has disabled, no result is recorded as that of an enabled job and no call
that was made before to enable it is stored. -/
def StoresInTime (x : Pool Shared Task × List JobId) (move : Pool.Move Call Env) : Prop :=
  x.1.OnStep (fun s t env => ∀ id ∈ x.2,
    t.recordsEnabled s env ≠ some id ∧ t.sets s env ≠ some (id, true)) move

/-- No job is claimed that a call has disabled. -/
def ClaimsNone (x : Pool Shared Task × List JobId) (move : Pool.Move Call Env) : Prop :=
  x.1.OnStep (fun s t env => ∀ id ∈ t.claims s env, id ∉ x.2) move

instance (x : Pool Shared Task × List JobId) : Decidable (Sticks x) :=
  inferInstanceAs (Decidable (∀ id ∈ x.2, x.1.shared.jobs.isDisabled id = true))

instance (x : Pool Shared Task × List JobId) (move : Pool.Move Call Env) : Decidable (StoresInTime x move) :=
  inferInstanceAs (Decidable (x.1.OnStep _ move))

instance (x : Pool Shared Task × List JobId) (move : Pool.Move Call Env) : Decidable (ClaimsNone x move) :=
  inferInstanceAs (Decidable (x.1.OnStep _ move))

variable {x : Pool Shared Task × List JobId}

theorem Sticks.claimsNone (h : Sticks x) (move : Pool.Move Call Env) : ClaimsNone x move := by
  refine Pool.onStep_of_forall (fun t env id hid hmem => ?_) move
  have hdisabled := h id hmem
  rw [Task.not_isDisabled_of_claims hid] at hdisabled
  cases hdisabled

/-- A step keeps the watched jobs disabled exactly if it stores in time. -/
theorem sticks_step_iff {cron : Cron} {y : Pool Shared Task × List JobId} {move : Pool.Move Call Env}
    (hx : Sticks x) (hstep : (watchedScheduler cron).step x move y) : Sticks y ↔ StoresInTime x move := by
  obtain ⟨pool, ids⟩ := x
  obtain ⟨pool', ids'⟩ := y
  obtain ⟨hmove, hids⟩ := hstep
  dsimp only at hmove hids
  obtain ⟨call, rfl, rfl⟩ | ⟨front, t, back, env, rfl, htasks, rfl⟩ := Pool.advance_cases hmove
  · rw [hids]
    exact iff_of_true (fun id hid => hx id (List.mem_of_mem_filter hid)) trivial
  have hwatch : ∀ id, id ∈ ids' ↔ t.sets pool.shared env = some (id, false) ∨ id ∈ ids := by
    intro id
    rw [hids, watch, htasks]
    simp only [List.getElem?_append_right (Nat.le_refl _), Nat.sub_self, List.getElem?_cons_zero,
      Option.bind_some]
    split
    · next k hset => simp [hset, @eq_comm _ k id]
    · next hset => exact (or_iff_right fun h => hset id h).symm
  rw [StoresInTime, Pool.onStep_iff htasks]
  constructor
  · intro hy id hid
    have hdisabled := hy id ((hwatch id).2 (.inr hid))
    refine ⟨fun hrecords => ?_, fun hsets => ?_⟩
    · cases (Task.not_isDisabled_of_recordsEnabled hrecords).symm.trans hdisabled
    · cases (Task.isDisabled_of_sets hsets).symm.trans hdisabled
  · intro hstores id hid
    obtain hset | hid := (hwatch id).1 hid
    · exact Task.isDisabled_of_sets hset
    · exact Task.isDisabled_step (hx id hid) (hstores id hid).2 (hstores id hid).1

def neverCron : Cron := ⟨fun _ => false, fun _ _ => none⟩

/-- A job that runs every minute and is due first at second 100. -/
def minutely : ScheduledJobRow where
  rowIdentity := "minutely"
  owner := "assistant:ada"
  schedule := .every 60
  payload := .runPrompt "ada" "report" "/work"
  enabled := true
  missedRunPolicy := .skip
  createdAt := 0
  updatedAt := 0
  lastRunAt := none
  nextRunAt := some 100
  lastResult := none
  failureCount := 0
  backoffUntil := none
  disabledNotice := none

def minutelyPool : Pool Shared Task := ⟨.start ((∅ : Jobs).insert "job" minutely) 0, []⟩

/-- The job is claimed at second 100 and has run. -/
def ranMoves : List (Pool.Move Call Env) :=
  .start .runDueOnce :: List.replicate 11 (.step 0 { now := 100 })

/-- It is disabled before its result is recorded, and the next pass comes at second 200. -/
def disabledMoves : List (Pool.Move Call Env) :=
  .start (.setClientVisibleEnabled "job" false) :: List.replicate 3 (.step 1 { now := 100 }) ++
    List.replicate 2 (.step 0 { now := 100 }) ++
    .start .runDueOnce :: List.replicate 4 (.step 0 { now := 200 })

end FlyCockpit.Scheduler
