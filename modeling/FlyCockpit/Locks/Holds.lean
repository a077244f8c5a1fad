-- SUMMARY: What every step of a lock operation does to the holds.
import FlyCockpit.Locks.Steps

/-!
# Holds

The lock operations change the map of holds in few ways: they add a hold on a free path, remove a
hold, or hand one over. The lemmas here say for every critical section which holds it changes.
-/

namespace FlyCockpit.Locks

open LockState

namespace LockState

variable (s : LockState) (path q : PathBuf) (holder : Holder)

theorem lookup_hold (now : Int) :
    (s.hold path holder now).held.lookup q = if q = path then some holder else s.held.lookup q :=
  Table.lookup_insert_eq q path holder s.held

variable {s path q} in
/-- A hold on a free path takes nothing from anybody. -/
theorem lookup_hold_of_free {h : Holder} (hfree : s.held.lookup path = none) (now : Int)
    (hheld : s.held.lookup q = some h) : (s.hold path holder now).held.lookup q = some h := by
  rw [lookup_hold, if_neg, hheld]
  rintro rfl
  rw [hfree] at hheld
  cases hheld

theorem lookup_forget :
    (s.forget path).held.lookup q = if q = path then none else s.held.lookup q :=
  Table.lookup_erase_eq q path s.held

theorem lookup_forgetOwn : (s.forgetOwn path holder).held.lookup q =
      if q = path ∧ s.held.lookup path = some holder then none else s.held.lookup q := by
  unfold forgetOwn
  by_cases hown : s.held.lookup path = some holder
  · rw [if_pos hown, lookup_forget]
    simp [hown]
  · rw [if_neg hown, if_neg fun h => hown h.2]

@[simp] theorem held_recordRead (readHash : Option UInt64) :
    (s.recordRead path holder readHash).held = s.held := rfl

@[simp] theorem held_invalidateRead : (s.invalidateRead path holder).held = s.held := by
  unfold invalidateRead
  cases s.readTracker.lookup holder <;> rfl

@[simp] theorem touched_invalidateRead : (s.invalidateRead path holder).touched = s.touched := by
  unfold invalidateRead
  cases s.readTracker.lookup holder <;> rfl

@[simp] theorem held_dropRead : (s.dropRead path holder).held = s.held := by
  unfold dropRead
  cases s.readTracker.lookup holder with
  | none => rfl
  | some reads =>
    dsimp only
    split_ifs <;> rfl

@[simp] theorem held_flagForced : (s.flagForced path).held = s.held := rfl

@[simp] theorem held_unflagForced : (s.unflagForced path).held = s.held := rfl

end LockState

namespace Shared

@[simp] theorem state_withState (s : Shared) (state : LockState) : (s.withState state).state = state :=
  rfl

@[simp] theorem state_notifyWaiters (s : Shared) : s.notifyWaiters.state = s.state := rfl

@[simp] theorem state_reply (s : Shared) (r : Reply) : (s.reply r).state = s.state := rfl

@[simp] theorem state_perform (env : Env) (s : Shared) (call : StorageCall) :
    (s.perform env call).2.state = s.state := by
  unfold perform
  split <;> rfl

end Shared

namespace Task

/-! ## Storage calls leave the holds alone -/

section Rest

variable (s : Shared)

@[simp] theorem invalidateRest_keeps (reacquired : List PathBuf) (todo : List (PathBuf × Holder)) :
    (invalidateRest s reacquired todo).1.state = s.state ∧
      (invalidateRest s reacquired todo).1.wakes = s.wakes := by
  cases todo <;> exact ⟨rfl, rfl⟩

@[simp] theorem persistRest_keeps (reacquired : List PathBuf)
    (invalidated todo : List (PathBuf × Holder)) :
    (persistRest s reacquired invalidated todo).1.state = s.state ∧
      (persistRest s reacquired invalidated todo).1.wakes = s.wakes := by
  cases todo with
  | nil => exact invalidateRest_keeps s reacquired invalidated
  | cons e todo => exact ⟨rfl, rfl⟩

@[simp] theorem state_restoreRest (reclaimed : List PathBuf)
    (todo : List (PathBuf × Holder × Option (Option UInt64))) :
    (restoreRest s reclaimed todo).1.state = s.state := by
  cases todo with
  | nil => cases reclaimed <;> rfl
  | cons e todo => rfl

@[simp] theorem touchRest_keeps (holder : Holder) (now : Int) (todo : List PathBuf) :
    (touchRest s holder now todo).1.state = s.state ∧
      (touchRest s holder now todo).1.wakes = s.wakes := by
  cases todo <;> exact ⟨rfl, rfl⟩

@[simp] theorem abandonedRest_keeps (holder : Holder) (todo : List PathBuf) :
    (abandonedRest s holder todo).1.state = s.state ∧
      (abandonedRest s holder todo).1.wakes = s.wakes := by
  cases todo <;> exact ⟨rfl, rfl⟩

@[simp] theorem acquireDone_keeps (call : AcquireCall) (mode : AcquireMode) :
    (acquireDone s call mode).1.state = s.state ∧ (acquireDone s call mode).1.wakes = s.wakes := by
  cases mode <;> exact ⟨rfl, rfl⟩

/-- Behind a storage call no map changes, and only the end of a sweep wakes anybody. -/
theorem afterStorage_keeps (result : Except StorageError Unit) (t : Task) :
    (t.afterStorage s result).1.state = s.state ∧
      ((∀ reclaimed entry todo, t ≠ sweepRestore reclaimed entry todo) →
        (t.afterStorage s result).1.wakes = s.wakes) := by
  cases t with
  | sweepRestore reclaimed entry todo =>
    exact ⟨state_restoreRest s reclaimed todo, fun ht => absurd rfl (ht reclaimed entry todo)⟩
  | touchPersist holder now path todo => exact (touchRest_keeps s holder now todo).imp_right fun h _ => h
  | persistAbandoned holder path todo =>
    cases result with
    | ok u => exact ⟨rfl, fun _ => rfl⟩
    | error e => exact (abandonedRest_keeps s holder todo).imp_right fun h _ => h
  | suspendPersist party released hashes entry todo =>
    cases result <;> cases todo <;> exact ⟨rfl, fun _ => rfl⟩
  | resumePersist reacquired invalidated entry todo =>
    cases result with
    | ok u => exact (persistRest_keeps s reacquired invalidated todo).imp_right fun h _ => h
    | error e => exact ⟨rfl, fun _ => rfl⟩
  | resumeInvalidate reacquired entry todo =>
    cases result with
    | ok u => exact (invalidateRest_keeps s reacquired todo).imp_right fun h _ => h
    | error e => exact ⟨rfl, fun _ => rfl⟩
  | _ => cases result <;> exact ⟨rfl, fun _ => rfl⟩

theorem state_step_of_storage {env : Env} {t : Task} {call : StorageCall}
    (h : t.storageCall = some call) : (t.step env s).1.state = s.state := by
  rw [step, h]
  dsimp only
  rw [(afterStorage_keeps _ _ t).1, Shared.state_perform]

end Rest

/-! ## Loops over several holds -/

/-- The state after one reclaimed entry. -/
theorem Swept.visit_state (now : Int) (w : Swept) (e : PathBuf × Holder) : (w.visit now e).state =
      if w.state.held.lookup e.1 = some e.2 ∧ w.state.idle e.1 now = true then
        (w.state.forget e.1).invalidateRead e.1 e.2
      else w.state := by
  unfold Swept.visit
  by_cases hheld : w.state.held.lookup e.1 = some e.2
  · cases hidle : w.state.idle e.1 now <;> simp [hheld]
  · simp [hheld]

variable {now : Int} {e : PathBuf × Holder} {r : Reacquired} {h : Holder}

theorem Swept.visit_of_ne {w : Swept} {q : PathBuf} (hne : q ≠ e.1) :
    (w.visit now e).state.held.lookup q = w.state.held.lookup q ∧
      (w.visit now e).state.idle q now = w.state.idle q now := by
  rw [Swept.visit_state]
  split_ifs with hgone
  · have htouched : ((w.state.forget e.1).invalidateRead e.1 e.2).touched.lookup q =
        w.state.touched.lookup q := by
      rw [touched_invalidateRead]
      exact AList.lookup_erase_ne hne
    refine ⟨?_, ?_⟩
    · rw [held_invalidateRead, lookup_forget, if_neg hne]
    · rw [idle, idle, idleSince, idleSince, htouched]
  · exact ⟨rfl, rfl⟩

/-- A sweep takes a hold only if it is still the one it looked at and still idle. -/
theorem held_swept (now : Int) (q : PathBuf) (l : List (PathBuf × Holder)) (w : Swept) :
    (l.foldl (Swept.visit now) w).state.held.lookup q = w.state.held.lookup q ∨
      ((l.foldl (Swept.visit now) w).state.held.lookup q = none ∧ w.state.idle q now = true ∧
        ∃ h, (q, h) ∈ l ∧ w.state.held.lookup q = some h) := by
  induction l generalizing w with
  | nil => exact .inl rfl
  | cons e l ih =>
    rw [List.foldl_cons]
    have hrest := ih (w.visit now e)
    by_cases hgone : q = e.1 ∧ w.state.held.lookup e.1 = some e.2 ∧ w.state.idle e.1 now = true
    · -- Once taken, the hold is not seen again.
      obtain ⟨rfl, hheld, hidle⟩ := hgone
      have hnone : (w.visit now e).state.held.lookup e.1 = none := by
        rw [Swept.visit_state, if_pos ⟨hheld, hidle⟩, held_invalidateRead,
          lookup_forget, if_pos rfl]
      rw [hnone] at hrest
      refine .inr ⟨?_, hidle, e.2, List.mem_cons_self, hheld⟩
      exact hrest.elim id (·.1)
    · have hsame : (w.visit now e).state.held.lookup q = w.state.held.lookup q ∧
          (w.visit now e).state.idle q now = w.state.idle q now := by
        by_cases hq : q = e.1
        · rw [Swept.visit_state, if_neg (fun h => hgone ⟨hq, h⟩)]
          exact ⟨rfl, rfl⟩
        · exact Swept.visit_of_ne hq
      rw [hsame.1, hsame.2] at hrest
      obtain hkept | ⟨hnone, hidle, h, hmem, hheld⟩ := hrest
      · exact .inl hkept
      · exact .inr ⟨hnone, hidle, h, List.mem_cons_of_mem e hmem, hheld⟩

/-- A suspend takes all holds of its snapshot. -/
theorem held_forgetAll (released : List (PathBuf × Holder)) (state : LockState) (q : PathBuf) :
    (released.foldl (fun state entry => state.forget entry.1) state).held.lookup q =
      if q ∈ released.map Prod.fst then none else state.held.lookup q := by
  induction released generalizing state with
  | nil => rfl
  | cons e released ih =>
    rw [List.foldl_cons, ih, lookup_forget, List.map_cons]
    by_cases hq : q = e.1 <;> by_cases hmem : q ∈ released.map Prod.fst <;> simp [hq, hmem]

@[simp] theorem held_storeSnapshot (state : LockState) (hashes : List (PathBuf × Holder × UInt64))
    (party : Party) : (storeSnapshot state hashes party).held = state.held := by
  cases party <;> rfl

theorem Reacquired.visit_free {party : Party} (hfree : r.state.held.lookup e.1 = none) :
    r.visit party now e =
      { r with state := r.state.hold e.1 e.2 now, reacquired := r.reacquired ++ [e] } := by
  unfold Reacquired.visit
  rw [hfree]
  rfl

theorem Reacquired.visit_taken (party : Party) (now : Int)
    (htaken : r.state.held.lookup e.1 = some h) : (r.visit party now e).state.held = r.state.held ∧
      (r.visit party now e).reacquired = r.reacquired := by
  unfold Reacquired.visit
  rw [htaken]
  cases party <;> simp

/-- A resume takes only free paths. -/
theorem held_reacquired (party : Party) (now : Int) (q : PathBuf) (l : List (PathBuf × Holder))
    (r : Reacquired) (hheld : r.state.held.lookup q = some h) :
    (l.foldl (Reacquired.visit party now) r).state.held.lookup q = some h := by
  induction l generalizing r with
  | nil => exact hheld
  | cons e l ih =>
    rw [List.foldl_cons]
    refine ih _ ?_
    cases hpath : r.state.held.lookup e.1 with
    | some other => rw [(Reacquired.visit_taken party now hpath).1, hheld]
    | none =>
      rw [Reacquired.visit_free hpath]
      exact lookup_hold_of_free e.2 hpath now hheld

/-- A transfer hands over what is still held. -/
theorem lookup_transfer (source target : Holder) (paths : List PathBuf) (held : Table PathBuf Holder)
    (q : PathBuf) :
    (paths.foldl (fun held path => if held.lookup path = some source then held.insert path target
      else held) held).lookup q =
      if q ∈ paths ∧ held.lookup q = some source then some target else held.lookup q := by
  induction paths generalizing held with
  | nil => simp
  | cons path paths ih =>
    rw [List.foldl_cons, ih]
    by_cases hown : held.lookup path = some source
    · rw [if_pos hown, Table.lookup_insert_eq]
      by_cases hq : q = path
      · subst hq
        simp [hown]
      · simp [hq]
    · rw [if_neg hown]
      by_cases hq : q = path
      · subst hq
        simp [hown]
      · simp [hq]

/-! ## The critical sections -/

section Sections

variable (env : Env) (s : Shared)

theorem held_acquireRollbackStep (call : AcquireCall) (mode : AcquireMode) (e : StorageError) :
    (acquireRollbackStep s call mode e).1.state.held = (s.state.forgetOwn call.path call.holder).held := by
  unfold acquireRollbackStep
  cases call.recordRead <;> cases mode <;> simp

theorem held_touchHolderStep (holder : Holder) :
    (touchHolderStep env s holder).1.state.held = s.state.held := by
  unfold touchHolderStep
  simp

theorem held_sweepForgetStep (now : Int) (reclaimed : List (PathBuf × Holder)) :
    (sweepForgetStep s now reclaimed).1.state.held =
      (reclaimed.foldl (Swept.visit now) ⟨s.state, [], []⟩).state.held := by
  unfold sweepForgetStep
  simp

theorem held_dropReadForgetStep (path : PathBuf) (holder : Holder) :
    (dropReadForgetStep s path holder).1.state.held = (s.state.forgetOwn path holder).held := by
  unfold dropReadForgetStep
  dsimp only
  split_ifs <;> simp

theorem held_forceForgetStep (path : PathBuf) (holder : Holder) (error : Option LockError)
    (persisted : Bool) :
    (forceForgetStep s path holder error persisted).1.state.held =
      (s.state.forgetOwn path holder).held := by
  unfold forceForgetStep
  cases persisted <;> simp

theorem held_dropWriteGuardStep (path : PathBuf) (holder : Holder) :
    (dropWriteGuardStep env s path holder).1.state.held = (s.state.forgetOwn path holder).held := by
  unfold dropWriteGuardStep forgetOwn
  split_ifs <;> rfl

theorem held_abandonHeldPathsStep_cons (holder : Holder) (path : PathBuf)
    (todo toPersist : List PathBuf) (extrasFound : Bool) :
    (abandonHeldPathsStep env s holder (path :: todo) toPersist extrasFound).1.state.held =
      (s.state.forgetOwn path holder).held := by
  unfold abandonHeldPathsStep forgetOwn
  dsimp only
  split_ifs <;> rfl

theorem state_abandonHeldPathsStep_nil (holder : Holder) (toPersist : List PathBuf)
    (extrasFound : Bool) :
    (abandonHeldPathsStep env s holder [] toPersist extrasFound).1.state = s.state := by
  unfold abandonHeldPathsStep
  dsimp only
  split_ifs <;> simp

theorem lookup_suspendForgetStep (party : Party) (released : List (PathBuf × Holder))
    (hashes : List (PathBuf × Holder × UInt64)) (q : PathBuf) :
    (suspendForgetStep s party released hashes).1.state.held.lookup q =
      if q ∈ released.map Prod.fst then none else s.state.held.lookup q := by
  unfold suspendForgetStep
  simp only [Shared.state_reply, Shared.state_notifyWaiters, Shared.state_withState,
    held_storeSnapshot, held_forgetAll]

theorem held_resumeStep (party : Party) : (resumeStep env s party).1.state.held = s.state.held := by
  unfold resumeStep
  cases party with
  | agent holder => cases h : s.state.suspended.lookup holder <;> simp [takeSnapshot, h]
  | session id => cases h : s.state.sessionReleased.lookup id <;> simp [takeSnapshot, h]

theorem lookup_endSessionForgetStep (session : Uuid) (q : PathBuf) :
    (endSessionForgetStep s session).1.state.held.lookup q =
      (s.state.held.lookup q).filter fun holder => holder.session ≠ session := by
  unfold endSessionForgetStep
  dsimp only
  split_ifs <;> exact Table.lookup_retain _ _ _

/-- The points at which an operation neither takes a hold nor gives one up, and its storage calls. -/
def leavesHolds : Task → Bool
  | acquireFinish .. | arm .. | recordWait .. | parked .. | clearWaiter .. | sweepExpired .. => true
  | release .. | releaseForceMemory .. | noteReadRemember .. | noteAuthored .. => true
  | beginGuardAfterWait .. | unflagAbandoned .. | suspend .. | transferAgentLocks .. => true
  | t => t.storageCall.isSome

/-- There the idle clocks stand still as well, and nobody is woken. -/
theorem memoryStep_of_leavesHolds (t : Task) (ht : t.leavesHolds = true) :
    (t.memoryStep env s).1.state.held = s.state.held ∧
      (t.memoryStep env s).1.state.touched = s.state.touched ∧
      (t.memoryStep env s).1.wakes = s.wakes := by
  cases t with
  | acquireFinish call mode => cases mode <;> exact ⟨rfl, rfl, rfl⟩
  | recordWait call holder seen =>
    unfold memoryStep recordWaitStep recordWaitOrCycle
    dsimp only
    generalize waitCycle _ _ = cycle
    cases cycle <;> exact ⟨rfl, rfl, rfl⟩
  | unflagAbandoned holder path todo => cases todo <;> exact ⟨rfl, rfl, rfl⟩
  | parked | sweepExpired | release | releaseForceMemory | noteAuthored | beginGuardAfterWait | suspend
  | transferAgentLocks =>
    unfold memoryStep parkedStep sweepExpiredStep releaseStep releaseForceMemoryStep noteAuthoredStep
      beginGuardAfterWaitStep suspendStep transferAgentLocksStep
    dsimp only
    repeat' split
    all_goals exact ⟨rfl, rfl, rfl⟩
  | _ => first | exact ⟨rfl, rfl, rfl⟩ | cases ht

end Sections

end Task

end FlyCockpit.Locks
