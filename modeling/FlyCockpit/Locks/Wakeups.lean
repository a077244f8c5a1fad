-- SUMMARY: Which operations wake the waiters after they let go of a hold.
import FlyCockpit.Locks.Exclusion

/-!
# Wakeups

A waiter is parked until somebody calls `notify_waiters`, so an operation that frees a path has to
call it before it returns. A note on every operation in flight says whether it still owes that
call. All operations pay, a sweep as its last step, except for the two that take back a hold whose
row could not be written.
-/

namespace FlyCockpit.Locks

open List

/-! ## Notes on operations -/

/-- A path that was held is free. -/
def lostHold (s s' : Shared) : Bool :=
  s.state.held.keys.any fun path => (s'.state.held.lookup path).isNone

structure Note where
  /-- The number of wakeups when the operation freed a path, until it calls `notify_waiters`. -/
  freed : Option Nat := none
  /-- The holder that was found when the operation last recorded its wait. -/
  found : Option Holder := none

def Task.note (s s' : Shared) (t : Task) (note : Note) : Note where
  freed := if s'.wakes ≠ s.wakes then none else if lostHold s s' then some s.wakes else note.freed
  found := match t with
    | .recordWait _ holder _ => some holder
    | _ => note.found

/-- The lock manager, with notes on its operations. -/
def notedManager : Lts (Pool Shared (Task × Note)) (Pool.Move Call Env) :=
  Pool.lts (fun s => ∃ db, s = .start db) (fun call => (call.task, {})) (Pool.noted Task.step Task.note)

/-- Every run of the lock manager has these notes. -/
theorem exists_notedManager {pool : Pool Shared Task} {past : List (Pool Shared Task × Pool.Move Call Env)}
    (h : lockManager.History pool past) :
    ∃ pool' past', notedManager.History pool' past' ∧ pool'.unnoted = pool ∧
      past'.map (Prod.map Pool.unnoted id) = past :=
  Pool.History.exists_noted ({} : Note) Task.note h

variable {s s' : Shared}

theorem lostHold_eq_false : lostHold s s' = false ↔
      ∀ q h, s.state.held.lookup q = some h → (s'.state.held.lookup q).isSome = true := by
  have hkeys : ∀ q, q ∈ s.state.held.keys ↔ ∃ h, s.state.held.lookup q = some h := fun q => by
    rw [← AList.mem_keys, ← AList.lookup_isSome, Option.isSome_iff_exists]
  rw [lostHold, any_eq_false]
  constructor
  · intro hkept q h hheld
    have hq := hkept q ((hkeys q).2 ⟨h, hheld⟩)
    rwa [Bool.not_eq_true, Option.isNone_eq_false_iff] at hq
  · intro hkept q hq
    obtain ⟨h, hheld⟩ := (hkeys q).1 hq
    rw [Bool.not_eq_true, Option.isNone_eq_false_iff]
    exact hkept q h hheld

theorem lostHold_of_eq (h : s'.state.held = s.state.held) : lostHold s s' = false := by
  rw [lostHold_eq_false, h]
  exact fun q h hheld => Option.isSome_iff_exists.2 ⟨h, hheld⟩

/-- Taking one's own hold back loses it, if it is still there. -/
theorem lostHold_forgetOwn {path : PathBuf} {holder : Holder}
    (h : s'.state.held = (s.state.forgetOwn path holder).held) :
    lostHold s s' = decide (s.state.held.lookup path = some holder) := by
  by_cases hown : s.state.held.lookup path = some holder
  · rw [decide_eq_true hown, ← Bool.not_eq_false, lostHold_eq_false]
    intro hkept
    have hgone := hkept path holder hown
    rw [h, LockState.lookup_forgetOwn, if_pos ⟨rfl, hown⟩] at hgone
    cases hgone
  · rw [decide_eq_false hown]
    refine lostHold_of_eq ?_
    rw [h, LockState.forgetOwn, if_neg hown]

namespace Task

/-! ## What a step does about wakeups -/

/-- Work that goes on behind the operation that spawned it. -/
def spawned : Task → Bool
  | persistAbandoned .. => true
  | _ => false

section Steps

variable {env : Env} {s s' : Shared} {t : Task} {note : Note}

/-- The step wakes the waiters, or it keeps all holds. -/
def Settles (s s' : Shared) : Prop :=
  s'.wakes = s.wakes + 1 ∨ s'.wakes = s.wakes ∧ lostHold s s' = false

theorem Settles.of_state (hwakes : s'.wakes = s.wakes) (hstate : s'.state = s.state) :
    Settles s s' :=
  .inr ⟨hwakes, lostHold_of_eq (congrArg LockState.held hstate)⟩

theorem Settles.of_held (hwakes : s'.wakes = s.wakes)
    (hheld : s'.state.held = s.state.held) : Settles s s' :=
  .inr ⟨hwakes, lostHold_of_eq hheld⟩

/-- Holds that are only added are kept. -/
theorem Settles.of_kept (hwakes : s'.wakes = s.wakes)
    (hkept : ∀ q h, s.state.held.lookup q = some h → s'.state.held.lookup q = some h) :
    Settles s s' :=
  .inr ⟨hwakes, lostHold_eq_false.2 fun q h hheld => by rw [hkept q h hheld]; rfl⟩

@[simp] theorem wakes_perform (call : StorageCall) : (s.perform env call).2.wakes = s.wakes := by
  unfold Shared.perform
  split <;> rfl

theorem settles_tryAcquireStep (call : AcquireCall) (mode : AcquireMode) :
    Settles s (tryAcquireStep env s call mode).1 := by
  refine .of_kept ?_ fun q h hheld => held_tryAcquireStep call mode hheld
  unfold tryAcquireStep
  cases s.state.held.lookup call.path with
  | some holder =>
    dsimp only
    split_ifs
    · exact (acquireDone_keeps s call mode).2
    · cases mode <;> rfl
  | none => rfl

theorem settles_dropReadForgetStep (path : PathBuf) (holder : Holder) :
    Settles s (dropReadForgetStep s path holder).1 := by
  have hheld := held_dropReadForgetStep s path holder
  by_cases hown : s.state.held.lookup path = some holder
  · left
    simp [dropReadForgetStep, hown, Shared.notifyWaiters, Shared.reply, Shared.withState]
  · right
    refine ⟨?_, ?_⟩
    · simp [dropReadForgetStep, hown, Shared.reply, Shared.withState]
    · rw [lostHold_forgetOwn hheld, decide_eq_false hown]

theorem settles_beginWriteStep (path : PathBuf) (holder : Holder) :
    Settles s (beginWriteStep env s path holder).1 := by
  refine .of_kept ?_ fun q h hheld => held_beginWriteStep path holder hheld
  unfold beginWriteStep
  cases s.state.held.lookup path with
  | some other =>
    dsimp only
    split_ifs <;> rfl
  | none =>
    dsimp only
    split <;> rfl

theorem settles_dropWriteGuardStep (path : PathBuf) (holder : Holder) :
    Settles s (dropWriteGuardStep env s path holder).1 := by
  unfold dropWriteGuardStep
  split_ifs
  · exact .inl rfl
  · exact .inl rfl
  · exact .of_state rfl rfl

theorem settles_abandonHeldPathsStep (holder : Holder) (todo toPersist : List PathBuf)
    (extrasFound : Bool) :
    Settles s (abandonHeldPathsStep env s holder todo toPersist extrasFound).1 := by
  cases todo with
  | nil =>
    refine .of_state ?_ (state_abandonHeldPathsStep_nil env s holder toPersist extrasFound)
    unfold abandonHeldPathsStep
    dsimp only
    split_ifs
    · exact (abandonedRest_keeps s holder toPersist).2
    · rfl
    · rfl
  | cons path todo =>
    unfold abandonHeldPathsStep
    dsimp only
    split_ifs
    · exact .inl rfl
    · exact .of_state rfl rfl

theorem settles_acquireTransientStep (path : PathBuf) (agent : AgentId) :
    Settles s (acquireTransientStep env s path agent).1 := by
  refine .of_kept ?_ fun q h hheld => held_acquireTransientStep path agent hheld
  unfold acquireTransientStep
  cases s.state.held.lookup path with
  | some other =>
    dsimp only
    split_ifs <;> rfl
  | none => rfl

theorem settles_resumeStep (party : Party) : Settles s (resumeStep env s party).1 := by
  refine .of_held ?_ (held_resumeStep env s party)
  unfold resumeStep
  split <;> rfl

theorem settles_resumeCheckStep (party : Party) (todo : List (PathBuf × Holder × UInt64))
    (toReacquire invalidated : List (PathBuf × Holder)) :
    Settles s (resumeCheckStep env s party todo toReacquire invalidated).1 := by
  refine .of_kept ?_ fun q h hheld => held_resumeCheckStep party todo toReacquire invalidated hheld
  cases todo with
  | nil =>
    unfold resumeCheckStep
    dsimp only
    rw [(persistRest_keeps ..).2]
    rfl
  | cons entry todo =>
    unfold resumeCheckStep
    dsimp only
    split_ifs <;> rfl

/-- A transfer keeps every path held. -/
theorem settles_transferForgetStep (session : Uuid) (fromAgent toAgent : AgentId)
    (paths : List PathBuf) : Settles s (transferForgetStep s session fromAgent toAgent paths).1 := by
  refine .inr ⟨rfl, lostHold_eq_false.2 fun q h hheld => ?_⟩
  have hlookup := lookup_transfer ⟨session, fromAgent⟩ ⟨session, toAgent⟩ paths s.state.held q
  change ((paths.foldl (fun held path => if held.lookup path = some ⟨session, fromAgent⟩ then
    held.insert path ⟨session, toAgent⟩ else held) s.state.held).lookup q).isSome = true
  rw [hlookup, hheld]
  split_ifs <;> rfl

theorem settles_endSessionForgetStep (session : Uuid) :
    Settles s (endSessionForgetStep s session).1 := by
  by_cases hsize : (s.state.held.retain fun _ holder => holder.session ≠ session).size =
      s.state.held.size
  · refine .inr ⟨?_, lostHold_eq_false.2 fun q h hheld => ?_⟩
    · simp only [endSessionForgetStep, hsize]
      rfl
    · have hall := length_filter_eq_length_iff.1 hsize
      have hkept := hall _ (Table.mem_entries_iff.2 hheld)
      rw [lookup_endSessionForgetStep, hheld, Option.filter_some, if_pos hkept]
      rfl
  · left
    simp only [endSessionForgetStep, if_neg hsize]
    rfl

/-- A sweep that reclaims nothing keeps all holds. -/
theorem held_swept_of_nil (now : Int) (l : List (PathBuf × Holder)) (w : Swept)
    (h : (l.foldl (Swept.visit now) w).reclaimed = []) :
    (l.foldl (Swept.visit now) w).state.held = w.state.held := by
  have hgrows : ∀ (l : List (PathBuf × Holder)) (w : Swept),
      ∃ more, (l.foldl (Swept.visit now) w).reclaimed = w.reclaimed ++ more := by
    intro l
    induction l with
    | nil => exact fun w => ⟨[], (append_nil _).symm⟩
    | cons e l ih =>
      intro w
      obtain ⟨more, hmore⟩ := ih (w.visit now e)
      rw [foldl_cons, hmore]
      unfold Swept.visit
      split_ifs
      · exact ⟨more, rfl⟩
      · exact ⟨more, rfl⟩
      · exact ⟨e.1 :: more, append_assoc _ _ _⟩
  induction l generalizing w with
  | nil => rfl
  | cons e l ih =>
    rw [foldl_cons] at h ⊢
    rw [ih _ h]
    obtain ⟨more, hmore⟩ := hgrows l (w.visit now e)
    rw [h] at hmore
    obtain ⟨hnone, -⟩ := append_eq_nil_iff.1 hmore.symm
    unfold Swept.visit at hnone ⊢
    split_ifs at hnone ⊢
    · rfl
    · rfl
    · exact absurd hnone (by simp)

/-- A sweep pays at once, or what is left of it knows that something was reclaimed. -/
theorem sweepForgetStep_cases (now : Int) (reclaimed : List (PathBuf × Holder)) :
    Settles s (sweepForgetStep s now reclaimed).1 ∨ ∃ path paths entry todo,
        (sweepForgetStep s now reclaimed).2 = [sweepRestore (path :: paths) entry todo] := by
  have hheld := held_sweepForgetStep s now reclaimed
  unfold sweepForgetStep at hheld ⊢
  dsimp only at hheld ⊢
  cases hpaths : (reclaimed.foldl (Swept.visit now) ⟨s.state, [], []⟩).reclaimed with
  | nil =>
    left
    rw [hpaths, held_swept_of_nil now reclaimed ⟨s.state, [], []⟩ hpaths] at hheld
    refine .of_held ?_ hheld
    cases (reclaimed.foldl (Swept.visit now) ⟨s.state, [], []⟩).toRestore <;> rfl
  | cons path paths =>
    cases (reclaimed.foldl (Swept.visit now) ⟨s.state, [], []⟩).toRestore with
    | nil => exact .inl (.inl rfl)
    | cons entry todo => exact .inr ⟨path, paths, entry, todo, rfl⟩

/-- All but the points at which a path may be freed, or was, without a wakeup. -/
def plain : Task → Bool
  | acquireRollback .. | beginWriteRollback .. | sweepForget .. | sweepRestore .. | clearWaiter .. => false
  | _ => true

theorem settles_memoryStep (t : Task) (ht : t.plain = true) : Settles s (t.memoryStep env s).1 := by
  by_cases hleaves : t.leavesHolds = true
  · obtain ⟨hheld, -, hwakes⟩ := memoryStep_of_leavesHolds env s t hleaves
    exact .of_held hwakes hheld
  cases t with
  | tryAcquire call mode => exact settles_tryAcquireStep call mode
  | acquireRollback call mode e => cases ht
  | touchHolder holder =>
    refine .of_held ?_ (held_touchHolderStep env s holder)
    exact (touchRest_keeps _ holder env.now _).2
  | sweepForget now reclaimed => cases ht
  | releaseForget path holder => exact .inl rfl
  | dropReadForget path holder => exact settles_dropReadForgetStep path holder
  | forceForget path holder error persisted => exact .inl rfl
  | beginWrite path holder => exact settles_beginWriteStep path holder
  | beginWriteRollback path holder e => cases ht
  | dropWriteGuard path holder => exact settles_dropWriteGuardStep path holder
  | abandonHeldPaths holder todo toPersist extrasFound =>
    exact settles_abandonHeldPathsStep holder todo toPersist extrasFound
  | acquireTransient path agent => exact settles_acquireTransientStep path agent
  | dropTransient path holder => exact .inl rfl
  | suspendForget party released hashes => exact .inl rfl
  | resume party => exact settles_resumeStep party
  | resumeCheck party todo toReacquire invalidated =>
    exact settles_resumeCheckStep party todo toReacquire invalidated
  | transferForget session fromAgent toAgent paths =>
    exact settles_transferForgetStep session fromAgent toAgent paths
  | endSessionForget session => exact settles_endSessionForgetStep session
  | _ => exact absurd rfl hleaves

theorem settles_step (t : Task) (ht : t.plain = true) : Settles s (t.step env s).1 := by
  cases hcall : t.storageCall with
  | some call =>
    refine .of_state ?_ (state_step_of_storage s hcall)
    rw [step, hcall]
    dsimp only
    rw [(afterStorage_keeps _ _ t).2 (by rintro _ _ _ rfl; cases ht), wakes_perform]
  | none =>
    rw [step, hcall]
    exact settles_memoryStep t ht

/-- A sweep that restores rows has its wakeup as its last step. -/
theorem step_sweepRestore_cases (reclaimed : List PathBuf)
    (entry : PathBuf × Holder × Option (Option UInt64))
    (todo : List (PathBuf × Holder × Option (Option UInt64))) :
    (reclaimed = [] ∨ ((sweepRestore reclaimed entry todo).step env s).1.wakes = s.wakes + 1) ∧
        ((sweepRestore reclaimed entry todo).step env s).2 = [] ∨
      ∃ next rest, ((sweepRestore reclaimed entry todo).step env s).2 =
        [sweepRestore reclaimed next rest] := by
  have hstep : ∀ call, (sweepRestore reclaimed entry todo).storageCall = some call →
      (sweepRestore reclaimed entry todo).step env s =
        restoreRest (s.perform env call).2 reclaimed todo := by
    intro call hcall
    rw [step, hcall]
    rfl
  rw [hstep _ rfl]
  cases todo with
  | cons next rest => exact .inr ⟨next, rest, rfl⟩
  | nil =>
    refine .inl ⟨?_, rfl⟩
    cases reclaimed with
    | nil => exact .inl rfl
    | cons path paths =>
      right
      change (s.perform env _).2.wakes + 1 = s.wakes + 1
      rw [wakes_perform]

theorem lostHold_of_storage {call : StorageCall} (h : t.storageCall = some call) :
    lostHold s (t.step env s).1 = false :=
  lostHold_of_eq (congrArg LockState.held (state_step_of_storage s h))

/-! ## Debts -/

/-- The points at which an operation may owe a wakeup. -/
def owing : Task → Bool
  | sweepRestore reclaimed _ _ => !reclaimed.isEmpty
  | clearWaiter .. => true
  | _ => false

/-- No other operation owes one. -/
def Booked (t : Task × Note) : Prop := t.2.freed ≠ none → t.1.owing = true

theorem freed_of_settles (h : Settles s s')
    (hnote : note.freed = none) : (t.note s s' note).freed = none := by
  obtain hwakes | ⟨-, hlost⟩ := h
  · simp [Task.note, hwakes]
  · simp [Task.note, hlost, hnote]

/-- Taking one's own hold back leaves a debt if the hold was still there. -/
theorem freed_of_rollback {path : PathBuf} {holder : Holder}
    (hnote : note.freed = none) (hwakes : s'.wakes = s.wakes)
    (hheld : s'.state.held = (s.state.forgetOwn path holder).held) :
    (∀ n ∈ (t.note s s' note).freed, n < s'.wakes) ↔ s.state.held.lookup path ≠ some holder := by
  simp [Task.note, hnote, hwakes, lostHold_forgetOwn hheld]

theorem Booked.freed_eq_none (h : Booked (t, note)) (ht : t.owing = false) : note.freed = none :=
  Classical.not_not.1 fun hfreed => Bool.eq_false_iff.1 ht (h hfreed)

/-- A plain step leaves no debt. -/
theorem Booked.paid (h : Booked (t, note)) (ht : t.plain = true) :
    (t.note s (t.step env s).1 note).freed = none := by
  refine freed_of_settles (settles_step t ht) (h.freed_eq_none ?_)
  cases t <;> first | rfl | cases ht

theorem acquireRollbackStep_rest (call : AcquireCall) (mode : AcquireMode) (e : StorageError) :
    (acquireRollbackStep s call mode e).1.wakes = s.wakes ∧
      ((acquireRollbackStep s call mode e).2 = [] ∧ (∀ seen, mode ≠ .armed seen) ∨
        (acquireRollbackStep s call mode e).2 = [clearWaiter call.holder (.failed (.storage e))] ∧
          ∃ seen, mode = .armed seen) := by
  cases mode with
  | once => exact ⟨rfl, .inl ⟨rfl, nofun⟩⟩
  | fast => exact ⟨rfl, .inl ⟨rfl, nofun⟩⟩
  | armed seen => exact ⟨rfl, .inr ⟨rfl, seen, rfl⟩⟩

theorem Booked.step {t : Task × Note} (h : Booked t) :
    ∀ u ∈ (Pool.noted Task.step Task.note env s t).2, Booked u := by
  obtain ⟨t, note⟩ := t
  intro u hu hfreed
  obtain ⟨task, htask, rfl⟩ := mem_map.1 hu
  dsimp only at htask hfreed ⊢
  by_cases ht : t.plain = true
  · exact absurd (h.paid ht) hfreed
  cases t with
  | acquireRollback call mode e =>
    change task ∈ (acquireRollbackStep s call mode e).2 at htask
    obtain ⟨-, ⟨hrest, -⟩ | ⟨hrest, -⟩⟩ := acquireRollbackStep_rest (s := s) call mode e
    · rw [hrest] at htask
      cases htask
    · rw [hrest, mem_singleton] at htask
      rw [htask]
      rfl
  | beginWriteRollback path holder e => cases htask
  | clearWaiter waiter answer => cases htask
  | sweepForget now reclaimed =>
    change task ∈ (sweepForgetStep s now reclaimed).2 at htask
    obtain hsettles | ⟨path, paths, entry, todo, hrest⟩ :=
      sweepForgetStep_cases (s := s) now reclaimed
    · exact absurd (freed_of_settles hsettles (h.freed_eq_none rfl)) hfreed
    · rw [hrest, mem_singleton] at htask
      rw [htask]
      rfl
  | sweepRestore reclaimed entry todo =>
    obtain ⟨-, hrest⟩ | ⟨next, rest, hrest⟩ :=
      @step_sweepRestore_cases env s reclaimed entry todo
    · rw [hrest] at htask
      cases htask
    · rw [hrest, mem_singleton] at htask
      have hlost : lostHold s ((sweepRestore reclaimed entry todo).step env s).1 = false :=
        lostHold_of_storage (by rfl)
      rw [htask]
      refine h fun hnone => hfreed ?_
      simp [Task.note, hlost, show note.freed = none from hnone]
  | _ => exact absurd rfl ht

/-! ## Returning without a debt -/

/-- If the operation ends with this step, every path it freed was followed by a wakeup. -/
def WakesBeforeReturn (s : Shared) (t : Task × Note) (env : Env) : Prop :=
  (t.1.step env s).2.all spawned = true →
    ∀ n ∈ (t.1.note s (t.1.step env s).1 t.2).freed, n < (t.1.step env s).1.wakes

instance (t : Task × Note) : Decidable (WakesBeforeReturn s t env) :=
  inferInstanceAs (Decidable (_ → _))

/-- No hold is taken back: an acquire or a guard whose row could not be written finds its hold gone,
and a waiting acquire that took its hold back returns only after somebody else's wakeup. -/
def TakesNothingBack (s : Shared) (t : Task × Note) : Prop :=
  match t.1 with
  | acquireRollback call mode _ => match mode with
    | .armed _ => True
    | _ => s.state.held.lookup call.path ≠ some call.holder
  | beginWriteRollback path holder _ => s.state.held.lookup path ≠ some holder
  | clearWaiter _ _ => ∀ n ∈ t.2.freed, n < s.wakes
  | _ => True

theorem wakesBeforeReturn_iff {t : Task × Note} (h : Booked t) :
    WakesBeforeReturn s t env ↔ TakesNothingBack s t := by
  obtain ⟨t, note⟩ := t
  by_cases ht : t.plain = true
  · refine iff_of_true (fun _ => ?_) ?_
    · intro n hn
      cases hn.symm.trans (h.paid ht)
    · cases t <;> trivial
  cases t with
  | acquireRollback call mode e =>
    have hfreed : (∀ n ∈ ((acquireRollback call mode e).note s (acquireRollbackStep s call mode e).1
        note).freed, n < (acquireRollbackStep s call mode e).1.wakes) ↔
          s.state.held.lookup call.path ≠ some call.holder :=
      freed_of_rollback (h.freed_eq_none rfl) (acquireRollbackStep_rest call mode e).1
        (held_acquireRollbackStep s call mode e)
    have hiff : WakesBeforeReturn s (acquireRollback call mode e, note) env ↔
        ((acquireRollbackStep s call mode e).2.all spawned = true →
          s.state.held.lookup call.path ≠ some call.holder) := by
      rw [WakesBeforeReturn]
      exact imp_congr_right fun _ => hfreed
    rw [hiff]
    cases mode with
    | once => exact forall_prop_of_true (by rfl)
    | fast => exact forall_prop_of_true (by rfl)
    | armed seen => exact iff_of_true nofun trivial
  | beginWriteRollback path holder e =>
    have hfreed : (∀ n ∈ ((beginWriteRollback path holder e).note s
        (beginWriteRollbackStep s path holder e).1 note).freed,
          n < (beginWriteRollbackStep s path holder e).1.wakes) ↔
        s.state.held.lookup path ≠ some holder :=
      freed_of_rollback (h.freed_eq_none rfl) (by rfl) (by rfl)
    rw [WakesBeforeReturn]
    exact (forall_prop_of_true (by rfl)).trans hfreed
  | clearWaiter waiter answer =>
    have hlost : lostHold s ((clearWaiter waiter answer).step env s).1 = false := lostHold_of_eq (by rfl)
    have hwakes : ((clearWaiter waiter answer).step env s).1.wakes = s.wakes := by rfl
    have hfreed : ((clearWaiter waiter answer).note s ((clearWaiter waiter answer).step env s).1
        note).freed = note.freed := by
      simp [Task.note, hlost, hwakes]
    rw [WakesBeforeReturn, hfreed, hwakes]
    exact forall_prop_of_true (by rfl)
  | sweepForget now reclaimed =>
    refine iff_of_true (fun hend => ?_) trivial
    obtain hsettles | ⟨path, paths, entry, todo, hrest⟩ := sweepForgetStep_cases (s := s) now reclaimed
    · have hnone : ((sweepForget now reclaimed).note s (sweepForgetStep s now reclaimed).1
          note).freed = none :=
        freed_of_settles hsettles (h.freed_eq_none rfl)
      intro n hn
      cases hn.symm.trans hnone
    · change (sweepForgetStep s now reclaimed).2.all spawned = true at hend
      rw [hrest] at hend
      cases hend
  | sweepRestore reclaimed entry todo =>
    refine iff_of_true (fun hend => ?_) trivial
    obtain ⟨hnone | hwakes, -⟩ | ⟨next, rest, hrest⟩ :=
      @step_sweepRestore_cases env s reclaimed entry todo
    · have hlost : lostHold s ((sweepRestore reclaimed entry todo).step env s).1 = false :=
        lostHold_of_storage (by rfl)
      have hnote : note.freed = none := h.freed_eq_none (by rw [hnone]; rfl)
      simp [Task.note, hlost, hnote]
    · simp [Task.note, hwakes]
    · rw [hrest] at hend
      cases hend
  | _ => exact absurd rfl ht

end Steps

end Task

/-! ## Runs -/

theorem booked_of_history {pool : Pool Shared (Task × Note)}
    {past : List (Pool Shared (Task × Note) × Pool.Move Call Env)}
    (h : notedManager.History pool past) : ∀ t ∈ pool.tasks, Task.Booked t := by
  have hok : ∀ e ∈ past, e.1.OnStep (fun _ _ _ => True) e.2 := fun e _ =>
    Pool.onStep_of_forall (fun _ _ => trivial) e.2
  exact Pool.History.forall_tasks (fun _ hfreed => absurd rfl hfreed) (fun _ ht => ht.step) h hok

/-- In a run of interleaved operations every operation that frees a path wakes the waiters before it
returns, exactly if no acquire and no guard takes back a hold whose row could not be written. -/
theorem releases_wake_iff {pool : Pool Shared (Task × Note)}
    {past : List (Pool Shared (Task × Note) × Pool.Move Call Env)}
    (h : notedManager.History pool past) :
    (∀ e ∈ past, e.1.OnStep Task.WakesBeforeReturn e.2) ↔
      ∀ e ∈ past, e.1.OnStep (fun s t _ => Task.TakesNothingBack s t) e.2 := by
  refine forall₂_congr fun e he => ?_
  obtain ⟨before, hbefore, -⟩ := h.exists_of_mem e he
  have hbooked := booked_of_history hbefore
  exact Pool.onStep_congr (fun t ht _ => Task.wakesBeforeReturn_iff (hbooked t ht)) e.2

/-! ## A hold that is taken back -/

/-- Alice takes a file in memory, Bob finds it taken and parks, and Alice's row cannot be written. -/
def takenBackMoves : List (Pool.Move Call Env) :=
  [.start (.acquire ⟨"file", alice, false⟩), .step 0 calm,
    .start (.acquireWait ⟨"file", bob, false⟩), .step 1 calm, .step 1 calm, .step 1 calm, .step 1 calm,
    .step 0 refusing, .step 0 calm]

def notedIdle : Pool Shared (Task × Note) := ⟨.start ⟨∅, ∅⟩, []⟩

/-- Alice's acquire has failed, the file is free, and Bob stays parked: nobody woke him. -/
theorem rollback_wakes_nobody : ∃ pool past, notedManager.History pool past ∧
      pool.tasks.map (fun t => t.1.actsFor bob) = [true] ∧
      pool.shared.state.held.lookup "file" = none ∧ pool.shared.wakes = 0 ∧
      ¬∀ e ∈ past, e.1.OnStep Task.WakesBeforeReturn e.2 := by
  have hrun : ∃ r ∈ Pool.advanceAll (fun call => (Call.task call, {})) (Pool.noted Task.step Task.note)
      notedIdle [] takenBackMoves,
      r.1.tasks.map (fun t => t.1.actsFor bob) = [true] ∧
      r.1.shared.state.held.lookup "file" = none ∧ r.1.shared.wakes = 0 ∧
      ¬∀ e ∈ r.2, e.1.OnStep Task.WakesBeforeReturn e.2 := by decide +kernel
  obtain ⟨⟨pool, past⟩, hrun, hlast⟩ := hrun
  exact ⟨pool, past, Pool.history_of_advanceAll (.init ⟨⟨_, rfl⟩, rfl⟩) hrun, hlast⟩

/-- Alice acquires a file, which Bob waits for, and releases it. -/
theorem releases_wake_iff_release :
    ∃ pool past, notedManager.History pool past ∧ pool.shared.wakes = 1 ∧
      pool.tasks.map (fun t => t.1.actsFor bob) = [true] ∧
      ((∀ e ∈ past, e.1.OnStep Task.WakesBeforeReturn e.2) ↔
        ∀ e ∈ past, e.1.OnStep (fun s t _ => Task.TakesNothingBack s t) e.2) := by
  have hrun : ∃ r ∈ Pool.advanceAll (fun call => (Call.task call, {})) (Pool.noted Task.step Task.note)
      notedIdle [] [.start (.acquire ⟨"file", alice, false⟩), .step 0 calm, .step 0 calm, .step 0 calm,
        .start (.acquireWait ⟨"file", bob, false⟩), .step 0 calm, .step 0 calm, .step 0 calm, .step 0 calm,
        .start (.release "file" alice), .step 1 calm, .step 1 calm, .step 1 calm],
      r.1.shared.wakes = 1 ∧ r.1.tasks.map (fun t => t.1.actsFor bob) = [true] := by decide +kernel
  obtain ⟨⟨pool, past⟩, hrun, hwakes, hbob⟩ := hrun
  have hhistory : notedManager.History pool past :=
    Pool.history_of_advanceAll (.init ⟨⟨_, rfl⟩, rfl⟩) hrun
  exact ⟨pool, past, hhistory, hwakes, hbob, releases_wake_iff hhistory⟩

end FlyCockpit.Locks
