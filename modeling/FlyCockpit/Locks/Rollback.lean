-- SUMMARY: What a failed acquire leaves of the lock state it found.
import FlyCockpit.Locks.Idle

/-!
# Rolled back acquires

An acquire takes a free path in memory, with its idle clock and, if it records reads, a read record,
before the row is written. When that fails the hold and the clock are removed again, which is what
they were. The read record is removed too, although the agent may have had one for the path, and
with its last record goes the entry of the agent, although it may have been there empty.
-/

namespace FlyCockpit.Locks

/-- Two tables answer every lookup alike. -/
def SameTable {κ ν : Type} [DecidableEq κ] (t t' : Table κ ν) : Prop := ∀ k, t.lookup k = t'.lookup k

namespace LockState

/-- The two states hold the same: the order of the entries of a map is no part of it. -/
structure Same (s s' : LockState) : Prop where
  held : SameTable s.held s'.held
  touched : SameTable s.touched s'.touched
  reads : ∀ holder, Option.Rel SameTable (s.readTracker.lookup holder) (s'.readTracker.lookup holder)
  authored : s.authoredTracker = s'.authoredTracker
  forced : s.forcedReleased = s'.forcedReleased
  suspended : s.suspended = s'.suspended
  released : s.sessionReleased = s'.sessionReleased
  waiting : s.waiting = s'.waiting

/-- A read record of the path can be added and removed again: the agent has none for it, and has
others unless it has no entry. -/
def Spare (s : LockState) (path : PathBuf) (holder : Holder) : Prop :=
  ∀ reads, s.readTracker.lookup holder = some reads → reads.lookup path = none ∧ reads.entries ≠ []

section ReadRecords

variable {s : LockState} {path : PathBuf} {holder : Holder}

/-- The records of an agent behind one that was added and removed. -/
theorem lookup_dropRead_recordRead (readHash : Option UInt64) (h : Holder) :
    ((s.recordRead path holder readHash).dropRead path holder).readTracker.lookup h =
      if h = holder then
        if (((s.readTracker.lookup holder).getD ∅).erase path).entries.isEmpty then none
        else some (((s.readTracker.lookup holder).getD ∅).erase path)
      else s.readTracker.lookup h := by
  have hlookup : (s.recordRead path holder readHash).readTracker.lookup holder =
      some (((s.readTracker.lookup holder).getD ∅).insert path readHash) :=
    AList.lookup_insert _
  have hother : h ≠ holder →
      (s.recordRead path holder readHash).readTracker.lookup h = s.readTracker.lookup h :=
    fun hne => AList.lookup_insert_ne hne
  rw [dropRead, hlookup]
  dsimp only
  rw [Table.erase_insert_self]
  by_cases hh : h = holder
  · subst hh
    rw [if_pos rfl]
    split_ifs
    · exact AList.lookup_erase ..
    · exact AList.lookup_insert _
  · rw [if_neg hh]
    split_ifs
    · exact (AList.lookup_erase_ne hh).trans (hother hh)
    · exact (AList.lookup_insert_ne hh).trans (hother hh)

theorem sameReads_refl (o : Option (Table PathBuf (Option UInt64))) : Option.Rel SameTable o o := by
  cases o with
  | none => exact .none
  | some reads => exact .some fun _ => rfl

/-- The records of all agents are the same exactly if the record that was removed had been spare. -/
theorem sameReads_iff_spare (readHash : Option UInt64) : (∀ h, Option.Rel SameTable
        (((s.recordRead path holder readHash).dropRead path holder).readTracker.lookup h)
        (s.readTracker.lookup h)) ↔ s.Spare path holder := by
  constructor
  · intro hsame reads hreads
    have hholder := hsame holder
    rw [lookup_dropRead_recordRead, if_pos rfl, hreads, Option.getD_some] at hholder
    split_ifs at hholder with hempty
    · cases hholder
    · cases hholder with
      | some htable =>
        have hpath := htable path
        rw [AList.lookup_erase] at hpath
        refine ⟨hpath.symm, fun hnil => ?_⟩
        rw [Table.erase_of_none hpath.symm, hnil] at hempty
        exact hempty rfl
  · intro hspare h
    rw [lookup_dropRead_recordRead]
    split_ifs with hh hempty
    · subst hh
      cases hreads : s.readTracker.lookup h with
      | none => exact .none
      | some reads =>
        obtain ⟨hpath, hne⟩ := hspare reads hreads
        rw [hreads, Option.getD_some, Table.erase_of_none hpath, List.isEmpty_iff] at hempty
        exact absurd hempty hne
    · subst hh
      cases hreads : s.readTracker.lookup h with
      | none =>
        rw [hreads] at hempty
        exact absurd rfl hempty
      | some reads =>
        rw [Option.getD_some, Table.erase_of_none (hspare reads hreads).1]
        exact sameReads_refl _
    · exact sameReads_refl _

theorem dropRead_eq (s : LockState) (path : PathBuf) (holder : Holder) :
    s.dropRead path holder = { s with readTracker := (s.dropRead path holder).readTracker } := by
  unfold dropRead
  cases s.readTracker.lookup holder with
  | none => rfl
  | some reads =>
    dsimp only
    split_ifs <;> rfl

/-- A record that is added and removed leaves no trace exactly if it had been spare. -/
theorem same_dropRead_recordRead_iff (readHash : Option UInt64) :
    Same ((s.recordRead path holder readHash).dropRead path holder) s ↔ s.Spare path holder := by
  rw [← sameReads_iff_spare readHash]
  refine ⟨Same.reads, fun hreads => ?_⟩
  rw [dropRead_eq]
  exact ⟨fun _ => rfl, fun _ => rfl, hreads, rfl, rfl, rfl, rfl, rfl⟩

end ReadRecords

theorem forgetOwn_recordRead (s : LockState) (path : PathBuf) (holder : Holder) (readHash : Option UInt64) :
    (s.recordRead path holder readHash).forgetOwn path holder =
      (s.forgetOwn path holder).recordRead path holder readHash := by
  unfold forgetOwn
  rw [held_recordRead]
  split_ifs <;> rfl

/-- Taking a free path and letting it go again changes nothing. -/
theorem forgetOwn_hold {s : LockState} (hclocked : s.Clocked) {path : PathBuf} (holder : Holder)
    (hfree : s.held.lookup path = none) (now : Int) :
    (s.hold path holder now).forgetOwn path holder = s := by
  have htouched : s.touched.lookup path = none := by
    have hclock := hclocked path
    rw [hfree, Option.isSome_none] at hclock
    exact Option.isNone_iff_eq_none.1 (Option.isSome_eq_false_iff.1 hclock.symm)
  have hown : (s.hold path holder now).held.lookup path = some holder := AList.lookup_insert _
  rw [forgetOwn, if_pos hown]
  unfold hold forget
  dsimp only
  rw [Table.erase_insert hfree, Table.erase_insert htouched]

end LockState

/-! ## The rollback -/

namespace Task

open LockState

variable {env : Env} {s s₁ s₂ : Shared} {call : AcquireCall} {mode : AcquireMode} {t : Task}
  {e : StorageError}

/-- An acquire that comes to its rollback had found the path free. -/
theorem tryAcquire_of_rollback (hsection : (tryAcquire call mode).step env s = (s₁, [t])) {env' : Env}
    (hstorage : t.step env' s₁ = (s₂, [acquireRollback call mode e])) :
    s.state.held.lookup call.path = none ∧ ∃ readHash, s₂.state = if call.recordRead then
          (s.state.hold call.path call.holder env.now).recordRead call.path call.holder readHash
        else s.state.hold call.path call.holder env.now := by
  change tryAcquireStep env s call mode = (s₁, [t]) at hsection
  unfold tryAcquireStep at hsection
  cases hheld : s.state.held.lookup call.path with
  | some holder =>
    -- A held path is the caller's own, or waited for, or refused; none of it is rolled back.
    rw [hheld] at hsection
    dsimp only at hsection
    split_ifs at hsection
    · cases mode with
      | once => cases hsection
      | fast | armed seen =>
        cases hsection
        cases hstorage
    · cases mode with
      | once => cases hsection
      | fast =>
        cases hsection
        cases hstorage
      | armed seen =>
        cases hsection
        change recordWaitStep s call holder seen = _ at hstorage
        unfold recordWaitStep at hstorage
        split at hstorage <;> cases hstorage
  | none =>
    rw [hheld] at hsection
    obtain ⟨rfl, ht⟩ := Prod.mk.inj hsection
    obtain rfl := List.singleton_inj.1 ht
    refine ⟨rfl, if call.recordRead then env.hash call.path else none, ?_⟩
    have hkept := congrArg (fun r => r.1.state) hstorage
    dsimp only at hkept
    rw [← hkept, state_step_of_storage _ rfl]
    rfl

/-- What the rollback does to the state. -/
theorem state_rollback (env : Env) (s : Shared) (call : AcquireCall) (mode : AcquireMode) (e : StorageError) :
    ((acquireRollback call mode e).step env s).1.state =
      if call.recordRead then (s.state.forgetOwn call.path call.holder).dropRead call.path call.holder
      else s.state.forgetOwn call.path call.holder := by
  change (acquireRollbackStep s call mode e).1.state = _
  unfold acquireRollbackStep
  cases mode <;> rfl

end Task

/-- An acquire that fails in storage, with nothing in between, leaves the lock state as it was,
exactly if the read record it adds and removes had been spare. -/
theorem failed_acquire_restores_iff {pool : Pool Shared Task} (h : lockManager.Reachable pool)
    {call : AcquireCall} {mode : AcquireMode} {first second third : Env} {s₁ s₂ : Shared} {t : Task}
    {e : StorageError} (hsection : (Task.tryAcquire call mode).step first pool.shared = (s₁, [t]))
    (hstorage : t.step second s₁ = (s₂, [.acquireRollback call mode e])) :
    LockState.Same ((Task.acquireRollback call mode e).step third s₂).1.state pool.shared.state ↔
      (call.recordRead = true → pool.shared.state.Spare call.path call.holder) := by
  obtain ⟨hfree, readHash, hstate⟩ := Task.tryAcquire_of_rollback hsection hstorage
  have hback := LockState.forgetOwn_hold (clocked_of_reachable h) call.holder hfree first.now
  rw [Task.state_rollback, hstate]
  cases hrecords : call.recordRead with
  | false =>
    simp only [Bool.false_eq_true, if_false, false_imp_iff, iff_true]
    rw [hback]
    exact ⟨fun _ => rfl, fun _ => rfl, fun _ => LockState.sameReads_refl _, rfl, rfl, rfl, rfl, rfl⟩
  | true =>
    simp only [if_true, true_imp_iff]
    rw [← LockState.same_dropRead_recordRead_iff readHash]
    rw [LockState.forgetOwn_recordRead, hback]

/-- Alice acquires a file and records the read. -/
def readAcquire : AcquireCall := ⟨"file", alice, true⟩

/-- Bob holds a file, and both have read one. -/
def busyPool : Pool Shared Task :=
  ⟨.start ⟨AList.singleton "notes" ⟨bob, 0⟩,
    (AList.singleton (bob, "notes") ⟨0, some 7⟩).insert (alice, "notes") ⟨0, some 7⟩⟩, []⟩

/-- Her row is to be written. -/
def takenShared : Shared :=
  busyPool.shared.withState ((busyPool.shared.state.hold "file" alice 0).recordRead "file" alice none)

/-- Alice, who has read another file, fails to take this one. -/
theorem failed_acquire_restores_unread :
    (Task.tryAcquire readAcquire .once).step calm busyPool.shared =
        (takenShared, [.acquirePersist readAcquire .once none false]) ∧
      (Task.acquirePersist readAcquire .once none false).step refusing takenShared =
        (takenShared, [.acquireRollback readAcquire .once .unavailable]) ∧
      LockState.Same ((Task.acquireRollback readAcquire .once .unavailable).step calm takenShared).1.state
        busyPool.shared.state := by
  have hsection : (Task.tryAcquire readAcquire .once).step calm busyPool.shared =
      (takenShared, [.acquirePersist readAcquire .once none false]) := rfl
  have hstorage : (Task.acquirePersist readAcquire .once none false).step refusing takenShared =
      (takenShared, [.acquireRollback readAcquire .once .unavailable]) := rfl
  refine ⟨hsection, hstorage, ?_⟩
  refine (failed_acquire_restores_iff (.init ⟨⟨_, rfl⟩, rfl⟩) hsection hstorage).2 fun _ reads hreads => ?_
  have hread : busyPool.shared.state.readTracker.lookup alice = some (AList.singleton "notes" (some 7)) := rfl
  rw [← Option.some.inj (hread.symm.trans hreads)]
  exact ⟨rfl, List.cons_ne_nil _ _⟩

/-- A manager that starts with a read record of Alice. -/
def readerPool : Pool Shared Task := ⟨.start ⟨∅, AList.singleton (alice, "file") ⟨0, some 7⟩⟩, []⟩

/-- The record is gone behind an acquire that failed. -/
theorem failed_acquire_loses_read : lockManager.Reachable readerPool ∧
      readerPool.shared.state.readOf "file" alice = some (some 7) ∧
      ∃ r ∈ Pool.advanceAll Call.task Task.step readerPool []
          [.start (.acquire readAcquire), .step 0 calm, .step 0 refusing, .step 0 calm],
        r.1.tasks.isEmpty = true ∧ r.1.shared.replies = [.failed (.storage .unavailable)] ∧
          r.1.shared.state.readOf "file" alice = none :=
  ⟨.init ⟨⟨_, rfl⟩, rfl⟩, by decide +kernel, by decide +kernel⟩

end FlyCockpit.Locks
