-- SUMMARY: No job runs twice at a time, and no mark or permit is lost.
import FlyCockpit.Scheduler.Disabling

/-!
# Running jobs

A job is marked in flight before it waits for one of the permits. Whatever becomes of its run,
failures of the database included, the last step gives both back.
-/

namespace FlyCockpit.Scheduler

namespace Task

/-- The job a task runs, from the mark on. -/
def runs : Task → List JobId
  | awaitSlot id .. | execute id .. | recordRead id .. | recordDecide id .. | recordWrite id ..
  | executed id => [id]
  | _ => []

/-- The permits a task holds. -/
def permits : Task → Nat
  | execute .. | recordRead .. | recordDecide .. | recordWrite .. | executed .. => 1
  | _ => 0

/-- A step accounts for the permits and marks of its task. -/
structure Accounts (s : Shared) (t : Task) (r : Shared × List Task) : Prop where
  slots : r.1.slots + (r.2.map permits).sum = s.slots + t.permits
  marks : ∀ rest, s.inFlight.Perm (t.runs ++ rest) → s.inFlight.Nodup →
    r.1.inFlight.Perm (r.2.flatMap runs ++ rest) ∧ r.1.inFlight.Nodup

variable {cron : Cron} {env : Env} {s : Shared}

theorem Accounts.quiet {t : Task} {u : List Task} {r : Shared} (hs : r.slots = s.slots)
    (hm : r.inFlight = s.inFlight) (hu : (u.map permits).sum = t.permits)
    (hr : u.flatMap runs = t.runs) : Accounts s t (r, u) where
  slots := by rw [hs, hu]
  marks rest h hn := by
    rw [hm, hr]
    exact ⟨h, hn⟩

theorem accounts_answered (t : Task) : Accounts s t (t.answered cron env s) := by
  cases t with
  | runEnqueue id job =>
    rw [answered, runEnqueueStep]
    split_ifs with hid
    · exact .quiet rfl rfl rfl rfl
    · exact ⟨rfl, fun rest h hn => ⟨h.cons id, hn.cons hid⟩⟩
  | dueEnqueue now id job todo =>
    rw [answered, dueEnqueueStep]
    split_ifs with hid
    · exact .quiet rfl rfl rfl rfl
    · exact ⟨rfl, fun rest h hn => ⟨h.cons id, hn.cons hid⟩⟩
  | awaitSlot id job kind =>
    rw [answered, awaitSlotStep]
    split_ifs with hslots
    · exact .quiet rfl rfl rfl rfl
    · exact ⟨Nat.sub_add_cancel (Nat.pos_of_ne_zero hslots), fun rest h hn => ⟨h, hn⟩⟩
  | executed id =>
    refine ⟨rfl, fun rest h hn => ⟨?_, hn.filter _⟩⟩
    have hid : id ∉ rest := (List.nodup_cons.1 (h.nodup_iff.1 hn)).1
    have hrest : (id :: rest).filter (· ≠ id) = rest := by
      rw [List.filter_cons_of_neg (by simp), List.filter_eq_self]
      exact fun k hk => decide_eq_true fun hkid => hid (hkid ▸ hk)
    exact hrest ▸ h.filter (· ≠ id)
  | _ =>
    -- The other steps leave marks and permits where they are.
    simp only [answered, setVisibleReadStep, setVisibleDecideStep, setVisibleWriteStep, setReadStep,
      setDecideStep, setWriteStep, runVisibleReadStep, runVisibleClaimStep, runReadStep, dueStartStep,
      dueNextStep, dueClaimStep, executeStep, recordReadStep, recordDecideStep, recordWriteStep,
      recordUserActivityStep, recomputeNextStep]
    repeat' split
    all_goals exact .quiet rfl rfl rfl rfl

/-- A run whose statement fails keeps its mark and its permit for its last step. -/
theorem accounts_step (t : Task) : Accounts s t (t.step cron env s) := by
  unfold step
  split_ifs with hfailed
  · cases t <;>
      first
      | exact ⟨rfl, fun rest h hn => ⟨h, hn⟩⟩
      | cases hfailed
  · exact accounts_answered t

end Task

/-- The marks are the jobs that tasks run, no two of them the same one, and every permit is free or
held by a task that runs a job. -/
structure Accounted (pool : Pool Shared Task) : Prop where
  nodup : pool.shared.inFlight.Nodup
  marks : pool.shared.inFlight.Perm (pool.tasks.flatMap Task.runs)
  slots : pool.shared.slots + (pool.tasks.map Task.permits).sum = maxConcurrentJobs

/-- In all interleavings, and whichever statements fail, marks and permits are accounted for. -/
theorem running_accounted {cron : Cron} {pool : Pool Shared Task}
    (h : (daemonScheduler cron).Reachable pool) : Accounted pool := by
  refine Lts.Reachable.invariant ?_ ?_ h
  · rintro ⟨shared, tasks⟩ ⟨⟨jobs, now, hshared⟩, htasks⟩
    subst hshared htasks
    exact ⟨.nil, .nil, rfl⟩
  · rintro pool move pool' ⟨hnodup, hmarks, hslots⟩ hmove
    obtain ⟨call, rfl, rfl⟩ | ⟨front, t, back, env, rfl, htasks, rfl⟩ := Pool.advance_cases hmove
    · refine ⟨hnodup, ?_, ?_⟩ <;> cases call <;> simpa [Call.task, Task.runs, Task.permits]
    · obtain ⟨hs, hm⟩ := @Task.accounts_step cron env pool.shared t
      simp only [htasks, List.flatMap_append, List.flatMap_cons, List.map_append, List.map_cons,
        List.sum_append, List.sum_cons] at hmarks hslots
      -- The task's jobs are brought to the front, and what is left of it back to its place.
      obtain ⟨hperm, hnodup⟩ := hm _ (hmarks.trans (List.perm_append_comm_assoc ..)) hnodup
      refine ⟨hnodup, ?_, ?_⟩
      · simpa using hperm.trans (List.perm_append_comm_assoc ..)
      · simp only [List.map_append, List.sum_append]
        omega

/-- A job that has run, before its result is recorded. -/
theorem running_accounted_minutely :
    ∃ pool, (daemonScheduler neverCron).Reachable pool ∧ pool.shared.inFlight = ["job"] ∧
      pool.shared.slots = 3 ∧ (pool.tasks.map Task.permits).sum = 1 := by
  have hrun : ∃ r ∈ Pool.advanceAll Call.task (Task.step neverCron) minutelyPool [] ranMoves,
      r.1.shared.inFlight = ["job"] ∧ r.1.shared.slots = 3 := by decide +kernel
  obtain ⟨⟨pool, past⟩, hrun, hmark, hslots⟩ := hrun
  have hhistory : (daemonScheduler neverCron).History pool past :=
    Pool.history_of_advanceAll (.init ⟨⟨_, _, rfl⟩, rfl⟩) hrun
  have hpermits := (running_accounted hhistory.reachable).slots
  rw [hslots] at hpermits
  exact ⟨pool, hhistory.reachable, hmark, hslots, Nat.add_left_cancel hpermits⟩

end FlyCockpit.Scheduler
