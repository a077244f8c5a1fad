-- SUMMARY: Who may take a hold away: exactly the operations that look again before they do.
import FlyCockpit.Locks.Holds

/-!
# Mutual exclusion

A hold should go only by an operation that acts for its holder, or by a sweep that finds the holder
idle when it takes the hold. Every operation looks at the holds, waits for the storage and comes
back to a state that others may have changed, so it has to look again. All do but one: a suspend
takes every path of its first look.
-/

namespace FlyCockpit.Locks

open LockState

namespace Task

/-- The operation was called for the holder, or for its session. -/
def actsFor (holder : Holder) : Task → Bool
  | tryAcquire call _ | acquirePersist call _ _ _ | acquireRollback call _ _ | acquireFinish call _
  | arm call | recordWait call _ _ | parked call _ => call.holder = holder
  | clearWaiter h _ | touchHolder h | touchPersist h _ _ _ => h = holder
  | sweepExpired _ | sweepPersist _ _ | sweepForget _ _ | sweepRestore _ _ _ => false
  | release _ h | releasePersist _ h | releaseForget _ h | releaseAndDropRead _ h
  | dropReadForget _ h | releaseForceMemory _ h _ | forcePersist _ h _ | forceForget _ h _ _ =>
    h = holder
  | noteRead _ h _ | noteReadRemember _ h _ | noteAuthored _ h => h = holder
  | beginWrite _ h | beginWritePersist _ h | beginWriteRollback _ h _
  | beginGuardAfterWait _ h _ _ _ | dropWriteGuard _ h | abandonHeldPaths h _ _ _
  | persistAbandoned h _ _ | unflagAbandoned h _ _ => h = holder
  | acquireTransient _ agent => transientHolder agent = holder
  | dropTransient _ h => h = holder
  | suspend party | suspendPersist party _ _ _ _ | suspendForget party _ _ | resume party
  | resumeCheck party _ _ _ => party.covers holder
  | resumePersist _ _ entry _ | resumeInvalidate _ entry _ => entry.2.session = holder.session
  | transferAgentLocks session fromAgent _ | transferPersist session fromAgent _ _
  | transferForget session fromAgent _ _ => (⟨session, fromAgent⟩ : Holder) = holder
  | endSession session | endSessionForget session => session = holder.session

/-- A sweep at the point where it takes holds, and the holder of the path is idle there. -/
def ReclaimsIdle (state : LockState) (path : PathBuf) : Task → Prop
  | sweepForget now _ => state.idle path now = true
  | _ => False

/-- The step takes a hold only from those it acts for, or from an idle holder. -/
def TakesOnlyOwn (s : Shared) (t : Task) (env : Env) : Prop :=
  ∀ path holder, s.state.held.lookup path = some holder →
    (t.step env s).1.state.held.lookup path ≠ some holder →
    t.actsFor holder = true ∨ t.ReclaimsIdle s.state path

/-- A suspend about to take its paths finds those that are held still held by its party. -/
def StillOwn (s : Shared) : Task → Prop
  | suspendForget party released _ => ∀ entry ∈ released, ∀ holder,
      s.state.held.lookup entry.1 = some holder → party.covers holder = true
  | _ => True

section Steps

variable {s : Shared} {env : Env} {q : PathBuf} {h : Holder}

/-- Only the holder's own hold goes. -/
theorem eq_of_forgetOwn {state : LockState} {path : PathBuf} {holder : Holder}
    (hheld : state.held.lookup q = some h)
    (hlost : (state.forgetOwn path holder).held.lookup q ≠ some h) : holder = h := by
  rw [lookup_forgetOwn] at hlost
  split_ifs at hlost with hown
  · obtain ⟨rfl, hholder⟩ := hown
    exact Option.some.inj (hholder.symm.trans hheld)
  · exact absurd hheld hlost

theorem held_tryAcquireStep (call : AcquireCall) (mode : AcquireMode)
    (hheld : s.state.held.lookup q = some h) :
    (tryAcquireStep env s call mode).1.state.held.lookup q = some h := by
  unfold tryAcquireStep
  cases hpath : s.state.held.lookup call.path with
  | some holder =>
    dsimp only
    split_ifs with hown
    · rw [(acquireDone_keeps ..).1, hheld]
    · cases mode <;> exact hheld
  | none =>
    have hkept := lookup_hold_of_free call.holder hpath env.now hheld
    dsimp only
    split_ifs <;> exact hkept

theorem held_beginWriteStep (path : PathBuf) (holder : Holder)
    (hheld : s.state.held.lookup q = some h) :
    (beginWriteStep env s path holder).1.state.held.lookup q = some h := by
  unfold beginWriteStep
  cases hpath : s.state.held.lookup path with
  | some other =>
    dsimp only
    split_ifs <;> exact hheld
  | none =>
    dsimp only
    cases checkFreshRead env s.state path holder with
    | error e => exact hheld
    | ok u => exact lookup_hold_of_free holder hpath env.now hheld

theorem held_acquireTransientStep (path : PathBuf) (agent : AgentId)
    (hheld : s.state.held.lookup q = some h) :
    (acquireTransientStep env s path agent).1.state.held.lookup q = some h := by
  unfold acquireTransientStep
  cases hpath : s.state.held.lookup path with
  | some other =>
    dsimp only
    split_ifs <;> exact hheld
  | none => exact lookup_hold_of_free _ hpath env.now hheld

theorem held_resumeCheckStep (party : Party) (todo : List (PathBuf × Holder × UInt64))
    (toReacquire invalidated : List (PathBuf × Holder)) (hheld : s.state.held.lookup q = some h) :
    (resumeCheckStep env s party todo toReacquire invalidated).1.state.held.lookup q = some h := by
  cases todo with
  | nil =>
    unfold resumeCheckStep
    dsimp only
    rw [(persistRest_keeps ..).1, Shared.state_withState]
    exact held_reacquired party env.now q toReacquire _ hheld
  | cons entry todo =>
    unfold resumeCheckStep
    dsimp only
    split_ifs
    · exact hheld
    · rw [Shared.state_withState, held_invalidateRead, hheld]

/-- The critical sections keep to the holds they may take. -/
theorem memoryStep_takesOnlyOwn (t : Task) (hstill : t.StillOwn s)
    (hheld : s.state.held.lookup q = some h)
    (hlost : (t.memoryStep env s).1.state.held.lookup q ≠ some h) :
    t.actsFor h = true ∨ t.ReclaimsIdle s.state q := by
  -- Most sections either leave the holds alone or forget the caller's own one.
  have hsame : ∀ {held : Table PathBuf Holder}, held = s.state.held → held.lookup q ≠ some h → False :=
    fun heq hne => hne (heq ▸ hheld)
  have hown : ∀ {held : Table PathBuf Holder} (path : PathBuf) {holder : Holder},
      held = (s.state.forgetOwn path holder).held → held.lookup q ≠ some h → holder = h :=
    fun _ _ heq hne => eq_of_forgetOwn hheld (heq ▸ hne)
  by_cases hleaves : t.leavesHolds = true
  · exact (hsame (memoryStep_of_leavesHolds env s t hleaves).1 hlost).elim
  cases t with
  | tryAcquire call mode => exact absurd (held_tryAcquireStep call mode hheld) hlost
  | acquireRollback call mode e =>
    exact .inl (decide_eq_true (hown call.path (held_acquireRollbackStep s call mode e) hlost))
  | touchHolder holder => exact (hsame (held_touchHolderStep env s holder) hlost).elim
  | sweepForget now reclaimed =>
    change (sweepForgetStep s now reclaimed).1.state.held.lookup q ≠ some h at hlost
    rw [held_sweepForgetStep] at hlost
    obtain hkept | ⟨-, hidle, -⟩ := held_swept now q reclaimed ⟨s.state, [], []⟩
    · exact absurd (hkept.trans hheld) hlost
    · exact .inr hidle
  | releaseForget path holder => exact .inl (decide_eq_true (hown path rfl hlost))
  | dropReadForget path holder =>
    exact .inl (decide_eq_true (hown path (held_dropReadForgetStep s path holder) hlost))
  | forceForget path holder error persisted =>
    exact .inl (decide_eq_true (hown path (held_forceForgetStep s path holder error persisted) hlost))
  | beginWrite path holder => exact absurd (held_beginWriteStep path holder hheld) hlost
  | beginWriteRollback path holder e => exact .inl (decide_eq_true (hown path rfl hlost))
  | dropWriteGuard path holder =>
    exact .inl (decide_eq_true (hown path (held_dropWriteGuardStep env s path holder) hlost))
  | abandonHeldPaths holder todo toPersist extrasFound =>
    cases todo with
    | nil =>
      exact (hsame (congrArg held
        (state_abandonHeldPathsStep_nil env s holder toPersist extrasFound)) hlost).elim
    | cons path todo =>
      exact .inl (decide_eq_true
        (hown path (held_abandonHeldPathsStep_cons env s holder path todo toPersist extrasFound) hlost))
  | acquireTransient path agent => exact absurd (held_acquireTransientStep path agent hheld) hlost
  | dropTransient path holder => exact .inl (decide_eq_true (hown path rfl hlost))
  | suspendForget party released hashes =>
    change (suspendForgetStep s party released hashes).1.state.held.lookup q ≠ some h at hlost
    rw [lookup_suspendForgetStep] at hlost
    split_ifs at hlost with hmem
    · obtain ⟨entry, hentry, rfl⟩ := List.mem_map.1 hmem
      exact .inl (hstill entry hentry h hheld)
    · exact absurd hheld hlost
  | resume party => exact (hsame (held_resumeStep env s party) hlost).elim
  | resumeCheck party todo toReacquire invalidated =>
    exact absurd (held_resumeCheckStep party todo toReacquire invalidated hheld) hlost
  | transferForget session fromAgent toAgent paths =>
    refine .inl (decide_eq_true (by_contra fun hne => ?_))
    refine hlost ((lookup_transfer _ _ paths s.state.held q).trans ?_)
    rw [if_neg, hheld]
    exact fun h => hne (Option.some.inj (h.2.symm.trans hheld))
  | endSessionForget session =>
    refine .inl (decide_eq_true (by_contra fun hne => ?_))
    refine hlost ((lookup_endSessionForgetStep s session q).trans ?_)
    rw [hheld]
    simp [Ne.symm hne]
  | _ => exact absurd rfl hleaves

/-- A step keeps to the holds it may take exactly when it is no suspend that lost a path. -/
theorem takesOnlyOwn_iff (t : Task) : t.TakesOnlyOwn s env ↔ t.StillOwn s := by
  constructor
  · intro htakes
    cases t with
    | suspendForget party released hashes =>
      intro entry hentry holder hheld
      have hlost : (step env s (suspendForget party released hashes)).1.state.held.lookup entry.1 ≠
          some holder := by
        change (suspendForgetStep s party released hashes).1.state.held.lookup entry.1 ≠ some holder
        rw [lookup_suspendForgetStep, if_pos (List.mem_map_of_mem hentry)]
        exact (Option.some_ne_none holder).symm
      exact (htakes entry.1 holder hheld hlost).resolve_right id
    | _ => exact trivial
  · intro hstill path holder hheld hlost
    cases hcall : t.storageCall with
    | some call =>
      rw [state_step_of_storage s hcall] at hlost
      exact absurd hheld hlost
    | none =>
      rw [step, hcall] at hlost
      exact memoryStep_takesOnlyOwn t hstill hheld hlost

end Steps

end Task

/-! ## Runs -/

/-- Along the moves of interleaved operations every hold goes by an operation of its holder or by a
sweep that finds the holder idle, exactly when every suspend that takes its paths finds the held
ones still held by the suspended agent or session. -/
theorem holds_go_only_by_own_iff (past : List (Pool Shared Task × Pool.Move Call Env)) :
    (∀ e ∈ past, e.1.OnStep Task.TakesOnlyOwn e.2) ↔
      ∀ e ∈ past, e.1.OnStep (fun s t _ => t.StillOwn s) e.2 := by
  have hmove : ∀ (pool : Pool Shared Task) (move : Pool.Move Call Env),
      pool.OnStep Task.TakesOnlyOwn move ↔ pool.OnStep (fun s t _ => t.StillOwn s) move := by
    intro pool move
    cases move with
    | start call => exact Iff.rfl
    | step index env => exact forall₂_congr fun t _ => Task.takesOnlyOwn_iff t
  exact forall₂_congr fun e _ => hmove e.1 e.2

/-! ## A stolen hold -/

def alice : Holder := ⟨Block.fill 16 1, "alice"⟩

def bob : Holder := ⟨Block.fill 16 2, "bob"⟩

/-- An undisturbed step. -/
def calm : Env where
  now := 0
  hash _ := none
  storage := .done
  wait := .notified
  order := []
  runtime := true

/-- A step whose storage call fails. -/
def refusing : Env := { calm with storage := .refused }

/-- Nobody holds anything. -/
def idlePool : Pool Shared Task := ⟨.start ⟨∅, ∅⟩, []⟩

/-- Alice holds a file and is suspended. Behind the first look of the suspend she releases the file
herself and Bob acquires it. -/
def theftMoves : List (Pool.Move Call Env) :=
  [.start (.acquire ⟨"file", alice, false⟩), .step 0 calm, .step 0 calm, .step 0 calm,
    .start (.suspendAgent alice), .step 0 calm,
    .start (.release "file" alice), .step 1 calm, .step 1 calm, .step 1 calm,
    .start (.acquire ⟨"file", bob, false⟩), .step 1 calm, .step 1 calm, .step 1 calm,
    .step 0 calm, .step 0 calm]

/-- The last move of a run takes a hold on a file from a holder it does not act for. -/
def stolen (path : PathBuf) (holder : Holder) (past : List (Pool Shared Task × Pool.Move Call Env)) :
    Bool :=
  match past with
  | (pool, .step index env) :: _ => match pool.tasks[index]? with
    | some (.suspendForget party released hashes) =>
      let t := Task.suspendForget party released hashes
      pool.shared.state.held.lookup path = some holder ∧
        (t.step env pool.shared).1.state.held.lookup path ≠ some holder ∧ !t.actsFor holder
    | _ => false
  | _ => false

theorem not_takesOnlyOwn_of_stolen {path : PathBuf} {holder : Holder}
    {past : List (Pool Shared Task × Pool.Move Call Env)} (h : stolen path holder past = true) :
    ¬∀ e ∈ past, e.1.OnStep Task.TakesOnlyOwn e.2 := by
  intro hall
  unfold stolen at h
  split at h
  · rename_i pool index env rest
    split at h
    · rename_i party released hashes htask
      obtain ⟨hheld, hlost, hnot⟩ := of_decide_eq_true h
      have hown := hall _ List.mem_cons_self _ htask path holder hheld hlost
      obtain hacts | hidle := hown
      · simp [hacts] at hnot
      · exact hidle
    · cases h
  · cases h

/-- The suspend of Alice takes the hold of Bob. -/
theorem suspend_takes_other_hold : ∃ pool past, lockManager.History pool past ∧
      ¬∀ e ∈ past, e.1.OnStep Task.TakesOnlyOwn e.2 := by
  have hstolen : ∃ r ∈ Pool.advanceAll Call.task Task.step idlePool [] theftMoves,
      stolen "file" bob r.2 = true := by decide +kernel
  obtain ⟨⟨pool, past⟩, hrun, hlast⟩ := hstolen
  exact ⟨pool, past, Pool.history_of_advanceAll (.init ⟨⟨_, rfl⟩, rfl⟩) hrun,
    not_takesOnlyOwn_of_stolen hlast⟩

/-- Alice acquires a file and releases it. -/
theorem holds_go_only_by_own_iff_release :
    ∃ pool past, lockManager.History pool past ∧ pool.shared.state.held.lookup "file" = none ∧
      ((∀ e ∈ past, e.1.OnStep Task.TakesOnlyOwn e.2) ↔
        ∀ e ∈ past, e.1.OnStep (fun s t _ => t.StillOwn s) e.2) := by
  have hrun : ∃ r ∈ Pool.advanceAll Call.task Task.step idlePool [] [.start (.acquire ⟨"file", alice, false⟩),
        .step 0 calm, .step 0 calm, .step 0 calm,
        .start (.release "file" alice), .step 0 calm, .step 0 calm, .step 0 calm],
      r.1.shared.state.held.lookup "file" = none := by decide +kernel
  obtain ⟨⟨pool, past⟩, hrun, hfree⟩ := hrun
  exact ⟨pool, past, Pool.history_of_advanceAll (.init ⟨⟨_, rfl⟩, rfl⟩) hrun, hfree,
    holds_go_only_by_own_iff past⟩

end FlyCockpit.Locks
