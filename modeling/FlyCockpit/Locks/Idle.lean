-- SUMMARY: Every hold has an idle clock and every idle clock belongs to a hold.
import FlyCockpit.Locks.Exclusion

/-!
# Idle clocks

A sweep finds the holds to reclaim by their idle clocks. A hold without a clock would never be
reclaimed and a clock without a hold would be stale; neither exists between two critical sections.
-/

namespace FlyCockpit.Locks

namespace LockState

variable {s s' : LockState} {path : PathBuf} {holder : Holder}

/-- The held paths are the paths with an idle clock. -/
def Clocked (s : LockState) : Prop :=
  ∀ q, (s.held.lookup q).isSome = (s.touched.lookup q).isSome

theorem Clocked.of_eq (h : s.Clocked) (hheld : s'.held = s.held) (htouched : s'.touched = s.touched) :
    s'.Clocked := by
  intro q
  rw [hheld, htouched]
  exact h q

theorem Clocked.hold (h : s.Clocked) (now : Int) : (s.hold path holder now).Clocked := by
  intro q
  have hq := h q
  rw [lookup_hold, LockState.hold, Table.lookup_insert_eq]
  split_ifs
  · rfl
  · exact hq

theorem Clocked.forget (h : s.Clocked) : (s.forget path).Clocked := by
  intro q
  have hq := h q
  rw [lookup_forget, LockState.forget, Table.lookup_erase_eq]
  split_ifs
  · rfl
  · exact hq

theorem Clocked.forgetOwn (h : s.Clocked) : (s.forgetOwn path holder).Clocked := by
  unfold LockState.forgetOwn
  split_ifs
  · exact h.forget
  · exact h

@[simp] theorem touched_dropRead : (s.dropRead path holder).touched = s.touched := by
  unfold dropRead
  cases s.readTracker.lookup holder with
  | none => rfl
  | some reads =>
    dsimp only
    split_ifs <;> rfl

theorem Clocked.dropRead (h : s.Clocked) : (s.dropRead path holder).Clocked :=
  h.of_eq (held_dropRead s path holder) touched_dropRead

theorem Clocked.invalidateRead (h : s.Clocked) : (s.invalidateRead path holder).Clocked :=
  h.of_eq (held_invalidateRead s path holder) (touched_invalidateRead s path holder)

/-- Clocks of held paths may be set. -/
theorem Clocked.touch (h : s.Clocked) (now : Int) (paths : List PathBuf)
    (hpaths : ∀ q ∈ paths, (s.held.lookup q).isSome = true) :
    LockState.Clocked
      { s with touched := paths.foldl (fun t path => t.insert path now) s.touched } := by
  intro q
  have hkeys : (paths.foldl (fun t path => t.insert path now) s.touched).lookup q =
      if q ∈ paths then some now else s.touched.lookup q := by
    clear hpaths h
    generalize s.touched = t
    induction paths generalizing t with
    | nil => simp
    | cons path paths ih =>
      rw [List.foldl_cons, ih, Table.lookup_insert_eq]
      by_cases hq : q = path <;> by_cases hmem : q ∈ paths <;> simp [hq, hmem]
  dsimp only
  rw [hkeys]
  split_ifs with hmem
  · exact hpaths q hmem
  · exact h q

theorem clocked_fromDb (db : LockDb) : (fromDb db).Clocked := by
  intro q
  have hheld : (fromDb db).held.lookup q = (db.lockState.lookup q).map (·.holder) :=
    Table.lookup_foldl_insert LockStateRow.holder db.lockState q
  have htouched : (fromDb db).touched.lookup q = (db.lockState.lookup q).map (·.acquiredAt) :=
    Table.lookup_foldl_insert LockStateRow.acquiredAt db.lockState q
  rw [hheld, htouched, Option.isSome_map, Option.isSome_map]

end LockState

namespace Task

open LockState

variable {s : Shared} {env : Env}

/-! ## Loops -/

theorem clocked_swept (now : Int) (l : List (PathBuf × Holder)) {w : Swept} (h : w.state.Clocked) :
    (l.foldl (Swept.visit now) w).state.Clocked := by
  induction l generalizing w with
  | nil => exact h
  | cons e l ih =>
    refine ih ?_
    rw [Swept.visit_state]
    split_ifs
    · exact h.forget.invalidateRead
    · exact h

theorem clocked_forgetAll (released : List (PathBuf × Holder)) {state : LockState} (h : state.Clocked) :
    (released.foldl (fun state entry => state.forget entry.1) state).Clocked := by
  induction released generalizing state with
  | nil => exact h
  | cons e released ih => exact ih h.forget

theorem clocked_reacquired (party : Party) (now : Int) (l : List (PathBuf × Holder)) {r : Reacquired}
    (h : r.state.Clocked) : (l.foldl (Reacquired.visit party now) r).state.Clocked := by
  induction l generalizing r with
  | nil => exact h
  | cons e l ih =>
    refine ih ?_
    unfold Reacquired.visit
    split_ifs
    · cases party with
      | agent holder => exact h
      | session id => exact h.invalidateRead
    · exact h.hold now

/-! ## The critical sections -/

theorem clocked_tryAcquireStep (h : s.state.Clocked) (call : AcquireCall) (mode : AcquireMode) :
    (tryAcquireStep env s call mode).1.state.Clocked := by
  unfold tryAcquireStep
  cases s.state.held.lookup call.path with
  | some holder =>
    dsimp only
    split_ifs
    · rw [(acquireDone_keeps ..).1]
      exact h
    · cases mode <;> exact h
  | none =>
    have hhold : (s.state.hold call.path call.holder env.now).Clocked := h.hold env.now
    dsimp only
    split_ifs
    · exact hhold.of_eq rfl rfl
    · exact hhold

theorem clocked_acquireRollbackStep (h : s.state.Clocked) (call : AcquireCall) (mode : AcquireMode)
    (e : StorageError) : (acquireRollbackStep s call mode e).1.state.Clocked := by
  have hown : (s.state.forgetOwn call.path call.holder).Clocked := h.forgetOwn
  unfold acquireRollbackStep
  dsimp only
  split_ifs
  · cases mode <;> exact hown.dropRead
  · cases mode <;> exact hown

theorem clocked_touchHolderStep (h : s.state.Clocked) (holder : Holder) :
    (touchHolderStep env s holder).1.state.Clocked := by
  unfold touchHolderStep
  dsimp only
  rw [(touchRest_keeps ..).1]
  refine h.touch env.now _ fun q hq => ?_
  rw [Env.arrange, List.mem_insertionSort] at hq
  obtain ⟨e, he, rfl⟩ := List.mem_map.1 hq
  obtain ⟨entry, hentry, rfl⟩ := List.mem_map.1 he
  rw [Option.isSome_iff_exists]
  exact ⟨entry.2, Table.mem_entries_iff.1 (List.mem_of_mem_filter hentry)⟩

theorem clocked_dropReadForgetStep (h : s.state.Clocked) (path : PathBuf) (holder : Holder) :
    (dropReadForgetStep s path holder).1.state.Clocked := by
  have hown : ((s.state.forgetOwn path holder).dropRead path holder).Clocked := h.forgetOwn.dropRead
  unfold dropReadForgetStep
  dsimp only
  split_ifs
  · exact hown.of_eq rfl rfl
  · exact hown.of_eq rfl rfl

theorem clocked_abandonHeldPathsStep (h : s.state.Clocked) (holder : Holder)
    (todo toPersist : List PathBuf) (extrasFound : Bool) :
    (abandonHeldPathsStep env s holder todo toPersist extrasFound).1.state.Clocked := by
  cases todo with
  | nil =>
    rw [state_abandonHeldPathsStep_nil]
    exact h
  | cons path todo =>
    unfold abandonHeldPathsStep
    dsimp only
    split_ifs
    · exact Clocked.of_eq h.forget rfl rfl
    · exact h

theorem clocked_resumeStep (h : s.state.Clocked) (party : Party) :
    (resumeStep env s party).1.state.Clocked := by
  refine h.of_eq (held_resumeStep env s party) ?_
  unfold resumeStep
  cases party with
  | agent holder => cases hsnapshot : s.state.suspended.lookup holder <;> simp [takeSnapshot, hsnapshot]
  | session id => cases hsnapshot : s.state.sessionReleased.lookup id <;> simp [takeSnapshot, hsnapshot]

theorem clocked_resumeCheckStep (h : s.state.Clocked) (party : Party)
    (todo : List (PathBuf × Holder × UInt64)) (toReacquire invalidated : List (PathBuf × Holder)) :
    (resumeCheckStep env s party todo toReacquire invalidated).1.state.Clocked := by
  cases todo with
  | nil =>
    unfold resumeCheckStep
    dsimp only
    rw [(persistRest_keeps ..).1]
    exact clocked_reacquired party env.now toReacquire h
  | cons entry todo =>
    unfold resumeCheckStep
    dsimp only
    split_ifs
    · exact h
    · exact h.invalidateRead

/-- A transfer hands over held paths only. -/
theorem clocked_transferForgetStep (h : s.state.Clocked) (session : Uuid)
    (fromAgent toAgent : AgentId) (paths : List PathBuf) :
    (transferForgetStep s session fromAgent toAgent paths).1.state.Clocked := by
  intro q
  have hq := h q
  unfold transferForgetStep
  dsimp only
  rw [Shared.state_reply, Shared.state_withState]
  dsimp only
  rw [lookup_transfer, ← hq]
  split_ifs with hown
  · rw [hown.2]
    rfl
  · rfl

theorem clocked_endSessionForgetStep (h : s.state.Clocked) (session : Uuid) :
    (endSessionForgetStep s session).1.state.Clocked := by
  have hretain : LockState.Clocked
      { s.state with
        held := s.state.held.retain fun _ holder => holder.session ≠ session
        touched := s.state.touched.retain fun path _ =>
          ((s.state.held.retain fun _ holder => holder.session ≠ session).lookup path).isSome } := by
    intro q
    have hq := h q
    dsimp only
    rw [Table.lookup_retain _ s.state.touched, Table.lookup_retain]
    cases hheld : s.state.held.lookup q with
    | none => simp
    | some holder =>
      rw [hheld] at hq
      obtain ⟨now, hnow⟩ := Option.isSome_iff_exists.1 hq.symm
      rw [hnow]
      by_cases hsession : holder.session = session <;> simp [Option.filter, hsession]
  unfold endSessionForgetStep
  dsimp only
  split_ifs
  · exact hretain.of_eq rfl rfl
  · exact hretain.of_eq rfl rfl

theorem clocked_memoryStep (h : s.state.Clocked) (t : Task) : (t.memoryStep env s).1.state.Clocked := by
  by_cases hleaves : t.leavesHolds = true
  · obtain ⟨hheld, htouched, -⟩ := memoryStep_of_leavesHolds env s t hleaves
    exact h.of_eq hheld htouched
  cases t with
  | tryAcquire call mode => exact clocked_tryAcquireStep h call mode
  | acquireRollback call mode e => exact clocked_acquireRollbackStep h call mode e
  | touchHolder holder => exact clocked_touchHolderStep h holder
  | sweepForget now reclaimed =>
    change (sweepForgetStep s now reclaimed).1.state.Clocked
    unfold sweepForgetStep
    rw [state_restoreRest]
    exact clocked_swept now reclaimed h
  | releaseForget path holder => exact h.forgetOwn.of_eq rfl rfl
  | dropReadForget path holder => exact clocked_dropReadForgetStep h path holder
  | forceForget path holder error persisted =>
    cases persisted <;> exact Clocked.of_eq h.forgetOwn rfl rfl
  | beginWrite | dropWriteGuard | acquireTransient =>
    unfold memoryStep beginWriteStep dropWriteGuardStep acquireTransientStep
    dsimp only
    repeat' split
    all_goals first | exact h | exact h.hold env.now | exact Clocked.of_eq h.forget rfl rfl
  | abandonHeldPaths holder todo toPersist extrasFound =>
    exact clocked_abandonHeldPathsStep h holder todo toPersist extrasFound
  | beginWriteRollback | dropTransient => exact h.forgetOwn
  | suspendForget party released hashes =>
    cases party <;> exact Clocked.of_eq (clocked_forgetAll released h) rfl rfl
  | resume party => exact clocked_resumeStep h party
  | resumeCheck party todo toReacquire invalidated =>
    exact clocked_resumeCheckStep h party todo toReacquire invalidated
  | transferForget session fromAgent toAgent paths =>
    exact clocked_transferForgetStep h session fromAgent toAgent paths
  | endSessionForget session => exact clocked_endSessionForgetStep h session
  | _ => exact absurd rfl hleaves

theorem clocked_step (h : s.state.Clocked) (t : Task) : (t.step env s).1.state.Clocked := by
  cases hcall : t.storageCall with
  | some call =>
    rw [state_step_of_storage s hcall]
    exact h
  | none =>
    rw [step, hcall]
    exact clocked_memoryStep h t

end Task

/-! ## Runs -/

theorem clocked_of_reachable {pool : Pool Shared Task} (h : lockManager.Reachable pool) :
    pool.shared.state.Clocked := by
  refine h.invariant (I := fun pool => pool.shared.state.Clocked) ?_ ?_
  · rintro pool ⟨⟨db, hdb⟩, -⟩
    rw [hdb]
    exact LockState.clocked_fromDb db
  · intro pool move pool' hpool hmove
    obtain ⟨call, -, rfl⟩ | ⟨front, t, back, env, -, -, rfl⟩ := Pool.advance_cases hmove
    · exact hpool
    · exact Task.clocked_step hpool t

/-- Between the steps of any interleaved operations, the held paths are exactly those with an idle
clock. -/
theorem held_iff_touched_of_reachable {pool : Pool Shared Task} (h : lockManager.Reachable pool)
    (path : PathBuf) : path ∈ pool.shared.state.held ↔ path ∈ pool.shared.state.touched := by
  rw [← AList.lookup_isSome, ← AList.lookup_isSome, clocked_of_reachable h path]

/-- Alice has taken a file in memory and her row is still being written. -/
theorem held_iff_touched_acquiring :
    ∃ pool, lockManager.Reachable pool ∧ pool.shared.state.held.lookup "file" = some alice ∧
      ("file" ∈ pool.shared.state.held ↔ "file" ∈ pool.shared.state.touched) := by
  have hrun : ∃ r ∈ Pool.advanceAll Call.task Task.step idlePool [] (theftMoves.take 2),
      r.1.shared.state.held.lookup "file" = some alice := by decide +kernel
  obtain ⟨⟨pool, past⟩, hrun, hheld⟩ := hrun
  have hhistory : lockManager.History pool past :=
    Pool.history_of_advanceAll (.init ⟨⟨_, rfl⟩, rfl⟩) hrun
  exact ⟨pool, hhistory.reachable, hheld, held_iff_touched_of_reachable hhistory.reachable "file"⟩

end FlyCockpit.Locks
