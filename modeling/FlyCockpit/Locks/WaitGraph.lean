-- SUMMARY: The search of the wait graph is exact, and which cycles of waits are reported.
import FlyCockpit.Locks.Wakeups

/-!
# The wait graph

A waiting acquire stores an edge from its agent to the holder it found, and parks unless the stored
edges lead from that holder back to the agent. The search finds such a way exactly if there is one.
An agent has one edge only, so that a second wait of the same agent replaces the edge of the first
one, and a cycle through the first one is not seen.
-/

open Relation

namespace FlyCockpit.Locks

open LockState List

/-! ## The search -/

/-- The stored edge of `waiter` leads to `holder`. -/
def Edge (waiting : Table Holder WaitingOn) (waiter holder : Holder) : Prop :=
  ∃ edge, waiting.lookup waiter = some edge ∧ edge.holder = holder

variable {a b : Holder} {pool : Pool Shared (Task × Note)}

theorem Edge.unique {waiting : Table Holder WaitingOn} {c : Holder} (hb : Edge waiting a b)
    (hc : Edge waiting a c) : b = c := by
  obtain ⟨edge, hedge, rfl⟩ := hb
  obtain ⟨edge', hedge', rfl⟩ := hc
  rw [Option.some.inj (hedge.symm.trans hedge')]

/-- The waiters that were seen lead to one another and to the current one, never to the start. -/
structure Trail (waiting : Table Holder WaitingOn) (start : Holder) (seen : List Holder)
    (current : Holder) : Prop where
  nodup : seen.Nodup
  next : ∀ a ∈ seen, ∃ b, Edge waiting a b ∧ b ≠ start ∧ (b = current ∨ b ∈ seen)

section Search

variable {waiting : Table Holder WaitingOn} {start current : Holder} {seen : List Holder}

theorem Trail.length_le (h : Trail waiting start seen current) : seen.length ≤ waiting.size := by
  rw [Table.size_eq_keys]
  refine (subperm_of_subset h.nodup fun a ha => ?_).length_le
  obtain ⟨_, ⟨edge, hedge, -⟩, -⟩ := h.next a ha
  rw [← AList.mem_keys, ← AList.lookup_isSome, hedge]
  rfl

/-- A trail that has come around does not lead to the start. -/
theorem Trail.not_transGen (h : Trail waiting start seen current) (hcurrent : current ∈ seen) :
    ¬TransGen (Edge waiting) current start := by
  have hstay : ∀ {c}, TransGen (Edge waiting) current c → c ∈ seen ∧ c ≠ start := by
    intro c hpath
    have hnext : ∀ {a c}, a ∈ seen → Edge waiting a c → c ∈ seen ∧ c ≠ start := by
      intro a c ha hac
      obtain ⟨b, hab, hb, hmem⟩ := h.next a ha
      obtain rfl := hab.unique hac
      obtain rfl | hmem := hmem
      · exact ⟨hcurrent, hb⟩
      · exact ⟨hmem, hb⟩
    induction hpath with
    | single hedge => exact hnext hcurrent hedge
    | tail _ hedge ih => exact hnext ih.1 hedge
  exact fun hpath => (hstay hpath).2 rfl

theorem Trail.extend (h : Trail waiting start seen current) {edge : WaitingOn}
    (hnew : current ∉ seen) (hedge : waiting.lookup current = some edge) (hne : edge.holder ≠ start) :
    Trail waiting start (current :: seen) edge.holder where
  nodup := nodup_cons.2 ⟨hnew, h.nodup⟩
  next := by
    intro a ha
    obtain rfl | ha := mem_cons.1 ha
    · exact ⟨edge.holder, ⟨edge, hedge, rfl⟩, hne, .inl rfl⟩
    · obtain ⟨b, hab, hb, rfl | hmem⟩ := h.next a ha
      · exact ⟨b, hab, hb, .inr mem_cons_self⟩
      · exact ⟨b, hab, hb, .inr (mem_cons_of_mem _ hmem)⟩

/-- With fuel for the waiters that are not on the trail, the search finds the way to the start if
there is one. -/
theorem isSome_waitCycleFrom (fuel : Nat) (h : Trail waiting start seen current)
    (hfuel : waiting.size < fuel + seen.length) :
    (waitCycleFrom waiting start fuel seen current).isSome = true ↔
      TransGen (Edge waiting) current start := by
  induction fuel generalizing seen current with
  | zero =>
    have := h.length_le
    omega
  | succ fuel ih =>
    rw [waitCycleFrom]
    split_ifs with hseen
    · exact iff_of_false nofun (h.not_transGen hseen)
    cases hedge : waiting.lookup current with
    | none =>
      refine iff_of_false nofun fun hpath => ?_
      obtain ⟨_, ⟨edge, hsome, -⟩, -⟩ := TransGen.head'_iff.1 hpath
      cases hedge.symm.trans hsome
    | some edge =>
      have hhead : Edge waiting current edge.holder := ⟨edge, hedge, rfl⟩
      dsimp only
      split_ifs with hstart
      · exact iff_of_true rfl (hstart ▸ .single hhead)
      rw [Option.isSome_map, ih (h.extend hseen hedge hstart) (by rw [length_cons]; omega)]
      constructor
      · exact fun hpath => .head hhead hpath
      · intro hpath
        obtain ⟨b, hb, hrest⟩ := TransGen.head'_iff.1 hpath
        obtain rfl := hhead.unique hb
        obtain heq | hrest := reflTransGen_iff_eq_or_transGen.1 hrest
        · exact absurd heq.symm hstart
        · exact hrest

end Search

/-- The search finds a cycle exactly if the waiter is on one. -/
theorem isSome_waitCycle (s : LockState) (start : Holder) :
    (waitCycle s start).isSome = true ↔ TransGen (Edge s.waiting) start start :=
  isSome_waitCycleFrom _ ⟨nodup_nil, nofun⟩ (by simp)

/-- A way to `a` does not need the edges that leave `a`. -/
theorem reflTransGen_of_ne {R S : Holder → Holder → Prop}
    (h : ∀ c d, c ≠ a → R c d → S c d) (hpath : ReflTransGen R b a) : ReflTransGen S b a := by
  induction hpath using ReflTransGen.head_induction_on with
  | refl => exact .refl
  | @head c d hcd _ ih =>
    by_cases hc : c = a
    · rw [hc]
    · exact .head (h c d hc hcd) ih

theorem reflTransGen_insert {waiting : Table Holder WaitingOn} {waiter : Holder} {edge : WaitingOn} :
    ReflTransGen (Edge (waiting.insert waiter edge)) a waiter ↔ ReflTransGen (Edge waiting) a waiter := by
  have hedge : ∀ b c, b ≠ waiter → (Edge (waiting.insert waiter edge) b c ↔ Edge waiting b c) := by
    intro b c hb
    rw [Edge, Edge, Table.lookup_insert_eq, if_neg hb]
  exact ⟨reflTransGen_of_ne fun b c hb => (hedge b c hb).1,
    reflTransGen_of_ne fun b c hb => (hedge b c hb).2⟩

/-- A new edge closes a cycle exactly if the old ones lead from the holder to the waiter. -/
theorem transGen_insert_self {waiting : Table Holder WaitingOn} {waiter holder : Holder}
    (path : PathBuf) : TransGen (Edge (waiting.insert waiter ⟨path, holder⟩)) waiter waiter ↔
      ReflTransGen (Edge waiting) holder waiter := by
  rw [TransGen.head'_iff]
  constructor
  · rintro ⟨b, ⟨edge, hedge, rfl⟩, hpath⟩
    rw [Table.lookup_insert_eq, if_pos rfl] at hedge
    obtain rfl := Option.some.inj hedge
    exact reflTransGen_insert.1 hpath
  · intro hpath
    refine ⟨holder, ⟨⟨path, holder⟩, ?_, rfl⟩, reflTransGen_insert.2 hpath⟩
    rw [Table.lookup_insert_eq, if_pos rfl]

/-- The edge of a new wait is stored if it closes no cycle; otherwise the waiter is left without an
edge. -/
theorem recordWaitOrCycle_cases (s : LockState) (waiter holder : Holder) (path : PathBuf) :
    TransGen (Edge (s.waiting.insert waiter ⟨path, holder⟩)) waiter waiter ∧
        (∃ edges, (s.recordWaitOrCycle waiter path holder).1 = .error edges) ∧
        (s.recordWaitOrCycle waiter path holder).2 = { s with waiting := s.waiting.erase waiter } ∨
      ¬TransGen (Edge (s.waiting.insert waiter ⟨path, holder⟩)) waiter waiter ∧
        (s.recordWaitOrCycle waiter path holder).1 = .ok () ∧
        (s.recordWaitOrCycle waiter path holder).2 =
          { s with waiting := s.waiting.insert waiter ⟨path, holder⟩ } := by
  have hsearch := isSome_waitCycle { s with waiting := s.waiting.insert waiter ⟨path, holder⟩ } waiter
  rw [← hsearch, recordWaitOrCycle]
  cases waitCycle { s with waiting := s.waiting.insert waiter ⟨path, holder⟩ } waiter with
  | none => exact .inr ⟨Bool.false_ne_true, rfl, rfl⟩
  | some edges =>
    refine .inl ⟨rfl, ⟨edges, rfl⟩, ?_⟩
    dsimp only [clearWaiter]
    rw [Table.erase_insert_self]

/-! ## What a step does about the waits -/

namespace LockState

variable (s : LockState) (path : PathBuf) (holder : Holder)

@[simp] theorem waiting_forgetOwn : (s.forgetOwn path holder).waiting = s.waiting := by
  unfold forgetOwn
  split_ifs <;> rfl

@[simp] theorem waiting_dropRead : (s.dropRead path holder).waiting = s.waiting := by
  unfold dropRead
  cases s.readTracker.lookup holder with
  | none => rfl
  | some reads =>
    dsimp only
    split_ifs <;> rfl

@[simp] theorem waiting_invalidateRead : (s.invalidateRead path holder).waiting = s.waiting := by
  unfold invalidateRead
  split <;> rfl

end LockState

def AcquireMode.waits : AcquireMode → Bool
  | .once => false
  | .fast | .armed _ => true

namespace Task

/-- The call of a parked wait. -/
def parkedCall : Task → Option AcquireCall
  | parked call _ => some call
  | _ => none

/-- The stored edges stay, and no wait parks. -/
structure Quiet (s : Shared) (r : Shared × List Task) : Prop where
  waiting : r.1.state.waiting = s.state.waiting
  rest : ∀ u ∈ r.2, u.parkedCall = none

section Steps

variable {env : Env} {s s' : Shared}

theorem Quiet.done (h : s'.state.waiting = s.state.waiting) : Quiet s (s', []) :=
  ⟨h, forall_mem_nil _⟩

theorem Quiet.next (h : s'.state.waiting = s.state.waiting) {u : Task} (hu : u.parkedCall = none) :
    Quiet s (s', [u]) :=
  ⟨h, forall_mem_singleton.2 hu⟩

theorem quiet_acquireDone (h : s'.state.waiting = s.state.waiting) (call : AcquireCall)
    (mode : AcquireMode) : Quiet s (acquireDone s' call mode) := by
  cases mode with
  | once => exact .done h
  | fast => exact .next h rfl
  | armed seen => exact .next h rfl

theorem quiet_tryAcquireStep (call : AcquireCall) (mode : AcquireMode) :
    Quiet s (tryAcquireStep env s call mode) := by
  unfold tryAcquireStep
  cases s.state.held.lookup call.path with
  | none =>
    refine .next ?_ rfl
    split_ifs <;> rfl
  | some holder =>
    dsimp only
    split_ifs
    · exact quiet_acquireDone rfl call mode
    · cases mode with
      | once => exact .done rfl
      | fast => exact .next rfl rfl
      | armed seen => exact .next rfl rfl

theorem quiet_acquireRollbackStep (call : AcquireCall) (mode : AcquireMode) (e : StorageError) :
    Quiet s (acquireRollbackStep s call mode e) := by
  have hwaiting : (if call.recordRead = true then
      (s.state.forgetOwn call.path call.holder).dropRead call.path call.holder
      else s.state.forgetOwn call.path call.holder).waiting = s.state.waiting := by
    split_ifs <;> simp
  cases mode with
  | once => exact .done hwaiting
  | fast => exact .done hwaiting
  | armed seen => exact .next hwaiting rfl

theorem quiet_touchRest (h : s'.state.waiting = s.state.waiting) (holder : Holder) (now : Int)
    (todo : List PathBuf) : Quiet s (touchRest s' holder now todo) := by
  cases todo with
  | nil => exact .done h
  | cons path todo => exact .next h rfl

theorem quiet_abandonedRest (h : s'.state.waiting = s.state.waiting) (holder : Holder)
    (todo : List PathBuf) : Quiet s (abandonedRest s' holder todo) := by
  cases todo with
  | nil => exact .done h
  | cons path todo => exact .next h rfl

theorem quiet_restoreRest (h : s'.state.waiting = s.state.waiting) (reclaimed : List PathBuf)
    (todo : List (PathBuf × Holder × Option (Option UInt64))) :
    Quiet s (restoreRest s' reclaimed todo) := by
  cases todo with
  | nil =>
    refine .done ?_
    split_ifs <;> exact h
  | cons entry todo => exact .next h rfl

theorem quiet_invalidateRest (h : s'.state.waiting = s.state.waiting) (reacquired : List PathBuf)
    (todo : List (PathBuf × Holder)) : Quiet s (invalidateRest s' reacquired todo) := by
  cases todo with
  | nil => exact .done h
  | cons entry todo => exact .next h rfl

theorem quiet_persistRest (h : s'.state.waiting = s.state.waiting) (reacquired : List PathBuf)
    (invalidated todo : List (PathBuf × Holder)) :
    Quiet s (persistRest s' reacquired invalidated todo) := by
  cases todo with
  | nil => exact quiet_invalidateRest h reacquired invalidated
  | cons entry todo => exact .next h rfl

theorem waiting_swept (now : Int) (l : List (PathBuf × Holder)) (w : Swept) :
    (l.foldl (Swept.visit now) w).state.waiting = w.state.waiting := by
  induction l generalizing w with
  | nil => rfl
  | cons e l ih =>
    rw [foldl_cons, ih]
    unfold Swept.visit
    split_ifs
    · rfl
    · rfl
    · exact waiting_invalidateRead _ _ _

theorem waiting_reacquired (party : Party) (now : Int) (l : List (PathBuf × Holder)) (r : Reacquired) :
    (l.foldl (Reacquired.visit party now) r).state.waiting = r.state.waiting := by
  induction l generalizing r with
  | nil => rfl
  | cons e l ih =>
    rw [foldl_cons, ih]
    unfold Reacquired.visit
    split_ifs
    · cases party with
      | agent holder => rfl
      | session id => exact waiting_invalidateRead _ _ _
    · rfl

theorem waiting_forgetAll (released : List (PathBuf × Holder)) (state : LockState) :
    (released.foldl (fun state entry => state.forget entry.1) state).waiting = state.waiting := by
  induction released generalizing state with
  | nil => rfl
  | cons e l ih => exact ih _

/-- The task is at a point where it does not touch its agent's wait. -/
def leavesWaits : Task → Bool
  | recordWait .. | parked .. | clearWaiter .. => false
  | _ => true

theorem quiet_afterStorage (hwaiting : s'.state.waiting = s.state.waiting)
    (result : Except StorageError Unit) (t : Task) : Quiet s (t.afterStorage s' result) := by
  unfold afterStorage
  split
  all_goals first
    | exact quiet_touchRest hwaiting _ _ _
    | exact quiet_restoreRest hwaiting _ _
    | exact .next hwaiting rfl
    | exact .done hwaiting
    | split
  all_goals first
    | exact .next hwaiting rfl
    | exact .done hwaiting
    | exact quiet_abandonedRest hwaiting _ _
    | exact quiet_persistRest hwaiting _ _ _
    | exact quiet_invalidateRest hwaiting _ _

theorem quiet_dropReadForgetStep (path : PathBuf) (holder : Holder) :
    Quiet s (dropReadForgetStep s path holder) := by
  have hwaiting : (((s.state.forgetOwn path holder).dropRead path holder).unflagForced path).waiting =
      s.state.waiting := by
    change ((s.state.forgetOwn path holder).dropRead path holder).waiting = s.state.waiting
    simp
  refine .done ?_
  split_ifs <;> exact hwaiting

theorem quiet_forceForgetStep (path : PathBuf) (holder : Holder) (error : Option LockError)
    (persisted : Bool) : Quiet s (forceForgetStep s path holder error persisted) := by
  refine .done ?_
  cases persisted <;> exact waiting_forgetOwn _ _ _

theorem quiet_abandonHeldPathsStep (holder : Holder) (todo toPersist : List PathBuf)
    (extrasFound : Bool) : Quiet s (abandonHeldPathsStep env s holder todo toPersist extrasFound) := by
  unfold abandonHeldPathsStep
  split
  · split_ifs <;> exact .next (by rfl) (by rfl)
  · split_ifs
    · exact quiet_abandonedRest rfl holder toPersist
    · exact .done rfl
    · exact .next rfl rfl

theorem quiet_suspendForgetStep (party : Party) (released : List (PathBuf × Holder))
    (hashes : List (PathBuf × Holder × UInt64)) :
    Quiet s (suspendForgetStep s party released hashes) := by
  refine .done ?_
  cases party <;> exact waiting_forgetAll released s.state

theorem quiet_resumeStep (party : Party) : Quiet s (resumeStep env s party) := by
  have hwaiting : (takeSnapshot s.state party).2.waiting = s.state.waiting := by
    cases party <;> rfl
  unfold resumeStep
  split
  · exact .done rfl
  · next heq =>
    rw [heq] at hwaiting
    exact .next hwaiting rfl

theorem quiet_resumeCheckStep (party : Party) (todo : List (PathBuf × Holder × UInt64))
    (toReacquire invalidated : List (PathBuf × Holder)) :
    Quiet s (resumeCheckStep env s party todo toReacquire invalidated) := by
  unfold resumeCheckStep
  split
  · split_ifs
    · exact .next rfl rfl
    · exact .next (waiting_invalidateRead _ _ _) rfl
  · exact quiet_persistRest (waiting_reacquired party env.now toReacquire _) _ _ _

theorem quiet_memoryStep (t : Task) (ht : t.leavesWaits = true) : Quiet s (t.memoryStep env s) := by
  cases t with
  | tryAcquire call mode => exact quiet_tryAcquireStep call mode
  | acquireRollback call mode e => exact quiet_acquireRollbackStep call mode e
  | acquireFinish call mode => exact quiet_acquireDone (by rfl) call mode
  | arm call => exact .next rfl rfl
  | recordWait | parked | clearWaiter => cases ht
  | touchHolder holder => exact quiet_touchRest (by rfl) holder _ _
  | sweepForget now reclaimed =>
    exact quiet_restoreRest (waiting_swept now reclaimed ⟨s.state, [], []⟩) _ _
  | releaseForget path holder => exact .done (waiting_forgetOwn _ _ _)
  | dropReadForget path holder => exact quiet_dropReadForgetStep path holder
  | forceForget path holder error persisted => exact quiet_forceForgetStep path holder error persisted
  | beginWriteRollback path holder e => exact .done (waiting_forgetOwn _ _ _)
  | abandonHeldPaths holder todo toPersist extrasFound =>
    exact quiet_abandonHeldPathsStep holder todo toPersist extrasFound
  | unflagAbandoned holder path todo => exact quiet_abandonedRest (by rfl) holder todo
  | dropTransient path holder => exact .done (waiting_forgetOwn _ _ _)
  | suspendForget party released hashes => exact quiet_suspendForgetStep party released hashes
  | resume party => exact quiet_resumeStep party
  | resumeCheck party todo toReacquire invalidated =>
    exact quiet_resumeCheckStep party todo toReacquire invalidated
  | endSessionForget session =>
    refine .done ?_
    split_ifs <;> rfl
  | sweepExpired | release | releaseForceMemory | noteAuthored | beginWrite | beginGuardAfterWait
  | dropWriteGuard | acquireTransient | suspend | transferAgentLocks =>
    -- Whatever these steps find, they end or go on without a look at the waits.
    unfold memoryStep sweepExpiredStep releaseStep releaseForceMemoryStep noteAuthoredStep
      beginWriteStep beginGuardAfterWaitStep dropWriteGuardStep acquireTransientStep suspendStep
      transferAgentLocksStep
    dsimp only
    repeat' split
    all_goals first | exact .done rfl | exact .next (by rfl) (by rfl)
  | _ => exact .done rfl

theorem quiet_step (t : Task) (ht : t.leavesWaits = true) : Quiet s (t.step env s) := by
  cases hcall : t.storageCall with
  | some call =>
    rw [step, hcall]
    exact quiet_afterStorage (congrArg waiting (Shared.state_perform env s call)) _ t
  | none =>
    rw [step, hcall]
    exact quiet_memoryStep t ht

/-- A wait is refused if the stored edges lead from the holder back to its agent, whose edge goes.
Otherwise it stores its edge and parks. -/
theorem recordWaitStep_cases (call : AcquireCall) (holder : Holder) (seen : Nat) :
    ReflTransGen (Edge s.state.waiting) holder call.holder ∧
        (∃ edges, (recordWaitStep s call holder seen).1.replies =
          s.replies ++ [.failed (.waitCycle edges)]) ∧
        (recordWaitStep s call holder seen).2 = [] ∧
        (recordWaitStep s call holder seen).1.state.waiting = s.state.waiting.erase call.holder ∨
      ¬ReflTransGen (Edge s.state.waiting) holder call.holder ∧
        (recordWaitStep s call holder seen).2 = [parked call seen] ∧
        (recordWaitStep s call holder seen).1.state.waiting =
          s.state.waiting.insert call.holder ⟨call.path, holder⟩ := by
  have hcases := recordWaitOrCycle_cases s.state call.holder holder call.path
  rw [← transGen_insert_self call.path, recordWaitStep]
  generalize s.state.recordWaitOrCycle call.holder call.path holder = r at hcases ⊢
  obtain ⟨edges | _, state⟩ := r
  · obtain ⟨hcycle, -, rfl⟩ | ⟨-, hok, -⟩ := hcases
    · exact .inl ⟨hcycle, ⟨edges, rfl⟩, rfl, rfl⟩
    · cases hok
  · obtain ⟨-, ⟨edges, herror⟩, -⟩ | ⟨hnew, -, rfl⟩ := hcases
    · cases herror
    · exact .inr ⟨hnew, rfl, rfl⟩

/-- A wait changes the edge of its own agent only. -/
theorem lookup_waiting_recordWaitStep (call : AcquireCall) (holder : Holder) (seen : Nat) {k : Holder}
    (hk : k ≠ call.holder) :
    (recordWaitStep s call holder seen).1.state.waiting.lookup k = s.state.waiting.lookup k := by
  obtain ⟨-, -, -, hwaiting⟩ | ⟨-, -, hwaiting⟩ := recordWaitStep_cases (s := s) call holder seen
  · rw [hwaiting, Table.lookup_erase_eq, if_neg hk]
  · rw [hwaiting, Table.lookup_insert_eq, if_neg hk]

theorem parkedStep_spec (call : AcquireCall) (seen : Nat) : (parkedStep env s call seen).1 = s ∧
    ∀ u ∈ (parkedStep env s call seen).2, u.parkedCall = none ∨ u = parked call seen := by
  unfold parkedStep
  split
  · split_ifs <;> simp [parkedCall]
  · simp [parkedCall]
  · simp [parkedCall]

end Steps

/-! ## One wait for each agent -/

/-- The agent whose waiting acquire the task is a stage of. -/
def waiter : Task → Option Holder
  | tryAcquire call mode | acquirePersist call mode _ _ | acquireRollback call mode _
  | acquireFinish call mode => if mode.waits then some call.holder else none
  | arm call | recordWait call _ _ | parked call _ => some call.holder
  | clearWaiter holder _ => some holder
  | _ => none

/-- The task is a stage of a waiting acquire of `holder`. -/
def Waits (t : Task × Note) (holder : Holder) : Prop := t.1.waiter = some holder

/-- The edge of a parked wait is stored. -/
def Posted (t : Task × Note) (s : Shared) : Prop :=
  ∀ call ∈ t.1.parkedCall, ∀ holder, t.2.found = some holder →
    Edge s.state.waiting call.holder holder

theorem posted_of_not_parked {t : Task × Note} {s : Shared} (h : t.1.parkedCall = none) : Posted t s := by
  intro call hcall
  cases h.symm.trans hcall

/-- Nobody else changes the edge of a waiting agent. -/
theorem waiting : Pool.Discipline Waits (fun call : Call => (call.task, ({} : Note)))
    (Pool.noted step note) (fun _ _ _ => True) (fun _ _ => True) Posted
    (fun _ s s' k => s'.state.waiting.lookup k = s.state.waiting.lookup k) where
  good_frame _ _ := id
  promise_frame {owned s s' t} hframe hposted := by
    intro call hcall holder hfound
    obtain ⟨edge, hedge, hholder⟩ := hposted call hcall holder hfound
    have hwaits : Waits t call.holder := by
      obtain ⟨t, k⟩ := t
      cases t with
      | parked own seen =>
        obtain rfl := Option.some.inj hcall
        rfl
      | _ => cases hcall
    exact ⟨edge, (hframe _ hwaits).2.trans hedge, hholder⟩
  start {call s} _ := by
    refine posted_of_not_parked ?_
    cases call <;> rfl
  frame {env s t k} _ _ hnot _ := by
    obtain ⟨t, n⟩ := t
    change (t.step env s).1.state.waiting.lookup k = s.state.waiting.lookup k
    by_cases ht : t.leavesWaits = true
    · rw [(quiet_step t ht).waiting]
    cases t with
    | recordWait call holder seen =>
      exact lookup_waiting_recordWaitStep call holder seen fun hk => hnot (congrArg some hk.symm)
    | parked call seen =>
      exact congrArg (·.state.waiting.lookup k) (parkedStep_spec call seen).1
    | clearWaiter holder answer =>
      change (s.state.waiting.erase holder).lookup k = s.state.waiting.lookup k
      rw [Table.lookup_erase_eq, if_neg fun hk => hnot (congrArg some hk.symm)]
    | _ => exact absurd rfl ht
  settle _ _ _ _ := trivial
  promise {env s t} _ hposted _ := by
    obtain ⟨t, n⟩ := t
    intro u hmem
    obtain ⟨u, hu, rfl⟩ := mem_map.1 hmem
    by_cases ht : t.leavesWaits = true
    · exact posted_of_not_parked ((quiet_step t ht).rest u hu)
    cases t with
    | recordWait call holder seen =>
      change u ∈ (recordWaitStep s call holder seen).2 at hu
      obtain ⟨-, -, hrest, -⟩ | ⟨-, hrest, hwaiting⟩ := recordWaitStep_cases (s := s) call holder seen
      · rw [hrest] at hu
        cases hu
      · rw [hrest, mem_singleton] at hu
        rw [hu]
        intro own hown found hfound
        obtain rfl := Option.some.inj hown
        obtain rfl := Option.some.inj hfound
        refine ⟨⟨call.path, holder⟩, ?_, rfl⟩
        change (recordWaitStep s call holder seen).1.state.waiting.lookup call.holder = _
        rw [hwaiting, Table.lookup_insert_eq, if_pos rfl]
    | parked call seen =>
      change u ∈ (parkedStep env s call seen).2 at hu
      obtain hnone | rfl := (parkedStep_spec call seen).2 u hu
      · exact posted_of_not_parked hnone
      · intro own hown found hfound
        obtain ⟨edge, hedge, hholder⟩ := hposted own hown found hfound
        refine ⟨edge, ?_, hholder⟩
        change (parkedStep env s call seen).1.state.waiting.lookup own.holder = some edge
        rw [(parkedStep_spec call seen).1]
        exact hedge
    | clearWaiter holder answer => cases hu
    | _ => exact absurd rfl ht

end Task

/-! ## Cycles of waits -/

/-- A parked wait of `waiter` found `holder` at its path when it looked last, and `holder` holds the
path. -/
def WaitsFor (pool : Pool Shared (Task × Note)) (waiter holder : Holder) : Prop :=
  ∃ t ∈ pool.tasks, ∃ call ∈ t.1.parkedCall, call.holder = waiter ∧ t.2.found = some holder ∧
    pool.shared.state.held.lookup call.path = some holder

instance (pool : Pool Shared (Task × Note)) (waiter holder : Holder) :
    Decidable (WaitsFor pool waiter holder) :=
  inferInstanceAs (Decidable (∃ t ∈ pool.tasks, ∃ call ∈ t.1.parkedCall, call.holder = waiter ∧
    t.2.found = some holder ∧ pool.shared.state.held.lookup call.path = some holder))

/-- The path is the holder's, and waits lead from the holder back to the agent of the call. -/
def ClosesCycle (pool : Pool Shared (Task × Note)) (call : AcquireCall) (holder : Holder) : Prop :=
  pool.shared.state.held.lookup call.path = some holder ∧
    ReflTransGen (WaitsFor pool) holder call.holder

/-- A wait that closes a cycle of waits is refused. -/
def ReportsCycle (pool : Pool Shared (Task × Note)) : Task → Prop
  | .recordWait call holder seen => ClosesCycle pool call holder →
    (∃ edges, (Task.recordWaitStep pool.shared call holder seen).1.replies =
      pool.shared.replies ++ [.failed (.waitCycle edges)]) ∧
    (Task.recordWaitStep pool.shared call holder seen).2 = []
  | _ => True

/-- A wait that closes a cycle of waits finds a way back in the stored edges. -/
def KeepsEdges (pool : Pool Shared (Task × Note)) : Task → Prop
  | .recordWait call holder _ => ClosesCycle pool call holder →
    ReflTransGen (Edge pool.shared.state.waiting) holder call.holder
  | _ => True

theorem reportsCycle_iff (pool : Pool Shared (Task × Note)) (t : Task) :
    ReportsCycle pool t ↔ KeepsEdges pool t := by
  cases t with
  | recordWait call holder seen =>
    refine imp_congr_right fun _ => ?_
    obtain ⟨hpath, hreply, hrest, -⟩ | ⟨hpath, hrest, -⟩ :=
      Task.recordWaitStep_cases (s := pool.shared) call holder seen
    · exact iff_of_true ⟨hreply, hrest⟩ hpath
    · refine iff_of_false (fun h => ?_) hpath
      cases hrest.symm.trans h.2
  | _ => exact Iff.rfl

/-- No agent has two waiting acquires in flight. -/
def OneWaitEach (pool : Pool Shared (Task × Note)) : Prop :=
  pool.tasks.Pairwise fun t u => ∀ holder ∈ t.1.waiter, u.1.waiter ≠ some holder

instance (pool : Pool Shared (Task × Note)) : Decidable (OneWaitEach pool) :=
  inferInstanceAs (Decidable (pool.tasks.Pairwise _))

theorem OneWaitEach.exclusive (h : OneWaitEach pool) : Pool.Exclusive Task.Waits pool.tasks :=
  h.imp fun hne _ hboth => hne _ hboth.1 hboth.2

theorem WaitsFor.edge {waiter holder : Holder}
    (hposted : ∀ t ∈ pool.tasks, Task.Posted t pool.shared) (h : WaitsFor pool waiter holder) :
    Edge pool.shared.state.waiting waiter holder := by
  obtain ⟨t, ht, call, hcall, rfl, hfound, -⟩ := h
  exact hposted t ht call hcall holder hfound

/-- Whoever waits for one path at a time has all edges stored. -/
theorem keepsEdges_of_oneWaitEach {past : List (Pool Shared (Task × Note) × Pool.Move Call Env)}
    (h : notedManager.History pool past) (hone : ∀ e ∈ past, OneWaitEach e.1) :
    ∀ e ∈ past, ∀ t, KeepsEdges e.1 t := by
  intro e he t
  obtain ⟨before, hbefore, hsub⟩ := h.exists_of_mem e he
  have hposted := (Task.waiting.history (fun _ _ _ => trivial) hbefore
    (fun e' _ => Pool.onStep_of_forall (fun _ _ => trivial) e'.2) (fun e' he' => (hone e' (hsub he')).exclusive)
    (hone e he).exclusive).2
  cases t with
  | recordWait call holder seen =>
    exact fun hcycle => hcycle.2.lift id fun _ _ => WaitsFor.edge hposted
  | _ => trivial

/-- In a run of interleaved operations every wait that closes a cycle of waits is refused, exactly if
it always finds a way back in the stored edges. So it is as long as no agent waits for two paths at
once, whatever is released, transferred or taken over meanwhile. -/
theorem cycles_reported_iff {pool : Pool Shared (Task × Note)}
    {past : List (Pool Shared (Task × Note) × Pool.Move Call Env)}
    (h : notedManager.History pool past) :
    ((∀ e ∈ past, e.1.OnStep (fun _ t _ => ReportsCycle e.1 t.1) e.2) ↔
        ∀ e ∈ past, e.1.OnStep (fun _ t _ => KeepsEdges e.1 t.1) e.2) ∧
      ((∀ e ∈ past, OneWaitEach e.1) →
        ∀ e ∈ past, e.1.OnStep (fun _ t _ => KeepsEdges e.1 t.1) e.2) := by
  constructor
  · refine forall₂_congr fun e _ => ?_
    exact Pool.onStep_congr (fun t _ _ => reportsCycle_iff e.1 t.1) e.2
  · intro hone e he
    exact Pool.onStep_of_forall (fun t _ => keepsEdges_of_oneWaitEach h hone e he t.1) e.2

/-! ## Stored cycles -/

/-- Nobody waits for themselves through the stored edges. -/
def Acyclic (waiting : Table Holder WaitingOn) : Prop := ∀ a, ¬TransGen (Edge waiting) a a

theorem Acyclic.erase {waiting : Table Holder WaitingOn} (h : Acyclic waiting) (waiter : Holder) :
    Acyclic (waiting.erase waiter) := by
  refine fun a hcycle => h a (hcycle.lift id fun b c hedge => ?_)
  obtain ⟨edge, hlookup, rfl⟩ := hedge
  rw [Table.lookup_erase_eq] at hlookup
  split_ifs at hlookup
  exact ⟨edge, hlookup, rfl⟩

/-- A way through the edges with a new one goes through the old edges, or along the new one. -/
theorem transGen_insert_cases {waiting : Table Holder WaitingOn} {waiter : Holder} {edge : WaitingOn}
    (h : TransGen (Edge (waiting.insert waiter edge)) a b) :
    TransGen (Edge waiting) a b ∨ ReflTransGen (Edge (waiting.insert waiter edge)) a waiter ∧
        TransGen (Edge (waiting.insert waiter edge)) waiter b := by
  have hold : ∀ {c d}, c ≠ waiter → Edge (waiting.insert waiter edge) c d → Edge waiting c d := by
    intro c d hc hcd
    rwa [Edge, Table.lookup_insert_eq, if_neg hc] at hcd
  induction h with
  | @single b hab =>
    by_cases ha : a = waiter
    · subst ha
      exact .inr ⟨.refl, .single hab⟩
    · exact .inl (.single (hold ha hab))
  | @tail b c hpath hbc ih =>
    rcases ih with hpath' | ⟨hto, hfrom⟩
    · by_cases hb : b = waiter
      · subst hb
        exact .inr ⟨hpath.to_reflTransGen, .single hbc⟩
      · exact .inl (hpath'.tail (hold hb hbc))
    · exact .inr ⟨hto, hfrom.tail hbc⟩

theorem Acyclic.insert {waiting : Table Holder WaitingOn} (h : Acyclic waiting) {waiter : Holder}
    {edge : WaitingOn} (hnew : ¬TransGen (Edge (waiting.insert waiter edge)) waiter waiter) :
    Acyclic (waiting.insert waiter edge) := by
  intro a hcycle
  rcases transGen_insert_cases hcycle with hold | ⟨hto, hfrom⟩
  · exact h a hold
  · exact hnew (hfrom.trans_left hto)

theorem Task.acyclic_step {env : Env} {s : Shared} (h : Acyclic s.state.waiting) (t : Task) :
    Acyclic (t.step env s).1.state.waiting := by
  by_cases ht : t.leavesWaits = true
  · rw [(quiet_step t ht).waiting]
    exact h
  cases t with
  | recordWait call holder seen =>
    change Acyclic (recordWaitStep s call holder seen).1.state.waiting
    obtain ⟨-, -, -, hwaiting⟩ | ⟨hnew, -, hwaiting⟩ := recordWaitStep_cases (s := s) call holder seen
    · rw [hwaiting]
      exact h.erase call.holder
    · rw [hwaiting]
      exact h.insert fun hcycle => hnew ((transGen_insert_self call.path).1 hcycle)
  | parked call seen =>
    change Acyclic (parkedStep env s call seen).1.state.waiting
    rw [(parkedStep_spec call seen).1]
    exact h
  | clearWaiter waiter answer => exact h.erase waiter
  | _ => exact absurd rfl ht

/-- The stored edges never contain a cycle. A new wait is reported exactly if its edge closes a cycle
through its waiter, and it then takes nothing out of the graph but the edge its waiter had. -/
theorem stored_waits_acyclic :
    (∀ pool, lockManager.Reachable pool → Acyclic pool.shared.state.waiting) ∧
      ∀ (s : LockState) (waiter holder : Holder) (path : PathBuf),
        ((∃ edges, (s.recordWaitOrCycle waiter path holder).1 = .error edges) ↔
            TransGen (Edge (s.waiting.insert waiter ⟨path, holder⟩)) waiter waiter) ∧
          ((∃ edges, (s.recordWaitOrCycle waiter path holder).1 = .error edges) →
            (s.recordWaitOrCycle waiter path holder).2 = { s with waiting := s.waiting.erase waiter } ∧
              ((s.recordWaitOrCycle waiter path holder).2 = s ↔ s.waiting.lookup waiter = none)) := by
  constructor
  · intro pool hreach
    refine hreach.invariant (I := fun pool => Acyclic pool.shared.state.waiting) ?_ ?_
    · rintro pool ⟨⟨db, hdb⟩, -⟩ a hcycle
      rw [hdb] at hcycle
      obtain ⟨_, ⟨edge, hlookup, -⟩, -⟩ := TransGen.head'_iff.1 hcycle
      cases hlookup
    · intro pool move pool' hpool hmove
      obtain ⟨call, -, rfl⟩ | ⟨front, t, back, env, -, -, rfl⟩ := Pool.advance_cases hmove
      · exact hpool
      · exact Task.acyclic_step hpool t
  · intro s waiter holder path
    obtain ⟨hcycle, herror, hstate⟩ | ⟨hnone, hok, -⟩ := recordWaitOrCycle_cases s waiter holder path
    · refine ⟨iff_of_true herror hcycle, fun _ => ⟨hstate, ?_⟩⟩
      rw [hstate]
      constructor
      · intro hsame
        have hlookup := congrArg (fun s' : LockState => s'.waiting.lookup waiter) hsame
        dsimp only at hlookup
        rwa [AList.lookup_erase, eq_comm] at hlookup
      · intro hfree
        rw [Table.erase_of_none hfree]
    · have hnot : ¬∃ edges, (s.recordWaitOrCycle waiter path holder).1 = .error edges := by
        rintro ⟨edges, herror⟩
        cases hok.symm.trans herror
      exact ⟨iff_of_false hnot hnone, fun herror => absurd herror hnot⟩

/-! ## Two agents that wait for each other -/

def carol : Holder := ⟨Block.zero 16, "carol"⟩

def dave : Holder := ⟨Block.zero 16, "dave"⟩

/-- Alice waits for Carol and Bob waits for Alice. -/
def chainedWaits : LockState :=
  { fromDb ⟨∅, ∅⟩ with
    waiting := (AList.singleton alice ⟨"file", carol⟩).insert bob ⟨"alice.rs", alice⟩ }

/-- When Alice finds Bob at the file, the report of the cycle drops her edge to Carol. -/
theorem cycle_report_drops_edge : (chainedWaits.recordWaitOrCycle alice "file" bob).1 =
        .error [(alice, ⟨"file", bob⟩), (bob, ⟨"alice.rs", alice⟩)] ∧
      chainedWaits.waiting.lookup alice = some ⟨"file", carol⟩ ∧
      (chainedWaits.recordWaitOrCycle alice "file" bob).2.waiting.lookup alice = none :=
  ⟨rfl, rfl, rfl⟩

/-- Alice and Bob hold a file each, and each of them waits for the other's file and for one more. -/
def crossedMoves : List (Pool.Move Call Env) :=
  [("alice.rs", alice), ("bob.rs", bob), ("carol.rs", carol), ("dave.rs", dave), ("spare.rs", dave)].flatMap
      (fun (path, holder) =>
        [.start (.acquire ⟨path, holder, false⟩), .step 0 calm, .step 0 calm, .step 0 calm]) ++
    [("bob.rs", alice), ("carol.rs", alice), ("alice.rs", bob), ("dave.rs", bob)].zipIdx.flatMap
      (fun ((path, holder), index) =>
        .start (.acquireWait ⟨path, holder, false⟩) :: List.replicate 4 (.step index calm))

/-- An unrelated release wakes the waits, and each of them looks again, in the order they came. -/
def recheckMoves : List (Pool.Move Call Env) :=
  [.start (.release "spare.rs" dave), .step 4 calm, .step 4 calm, .step 4 calm] ++
    (List.range 4).flatMap fun index => List.replicate 4 (.step index calm)

/-- A wait for an agent that waits for the caller parks. -/
def missesCycle (pool : Pool Shared (Task × Note)) : Task → Bool
  | .recordWait call holder seen =>
    pool.shared.state.held.lookup call.path = some holder && WaitsFor pool holder call.holder &&
      !(Task.recordWaitStep pool.shared call holder seen).2.isEmpty
  | _ => false

theorem missesCycle_eq_false {t : Task} (h : ReportsCycle pool t) : missesCycle pool t = false := by
  cases t with
  | recordWait call holder seen =>
    by_cases hheld : pool.shared.state.held.lookup call.path = some holder
    · by_cases hwaits : WaitsFor pool holder call.holder
      · simp [missesCycle, (h ⟨hheld, .single hwaits⟩).2]
      · simp [missesCycle, hwaits]
    · simp [missesCycle, hheld]
  | _ => rfl

/-- The number of wakeups when a parked wait looked last. -/
def Task.lookedAt : Task → Option Nat
  | parked _ seen => some seen
  | _ => none

/-- Alice and Bob wait for each other, and all waits park, the one that closed the cycle and each of
them when it looks again. -/
theorem crossed_waits_park : ∃ pool past, notedManager.History pool past ∧
      (∃ e ∈ past, e.1.shared.wakes = 0 ∧ WaitsFor e.1 alice bob ∧ WaitsFor e.1 bob alice) ∧
      pool.tasks.map (fun t => t.1.lookedAt) = List.replicate 4 (some 1) ∧
      WaitsFor pool alice bob ∧ WaitsFor pool bob alice ∧
      ¬∀ e ∈ past, e.1.OnStep (fun _ t _ => ReportsCycle e.1 t.1) e.2 := by
  have hrun : ∃ r ∈ Pool.advanceAll (fun call => (Call.task call, {})) (Pool.noted Task.step Task.note)
      notedIdle [] (crossedMoves ++ recheckMoves),
      (∃ e ∈ r.2, e.1.shared.wakes = 0 ∧ WaitsFor e.1 alice bob ∧ WaitsFor e.1 bob alice) ∧
      r.1.tasks.map (fun t => t.1.lookedAt) = List.replicate 4 (some 1) ∧
      WaitsFor r.1 alice bob ∧ WaitsFor r.1 bob alice ∧
      ¬∀ e ∈ r.2, e.1.OnStep (fun _ t _ => missesCycle e.1 t.1 = false) e.2 := by decide +kernel
  obtain ⟨⟨pool, past⟩, hrun, hclosed, hlooked, halice, hbob, hmissed⟩ := hrun
  refine ⟨pool, past, Pool.history_of_advanceAll (.init ⟨⟨_, rfl⟩, rfl⟩) hrun, hclosed, hlooked, halice,
    hbob, fun hreports => hmissed fun e he => ?_⟩
  exact (hreports e he).mono fun _ _ => missesCycle_eq_false

/-- Alice waits for Bob's file and Bob then for Alice's, which is refused. -/
theorem cycles_reported_iff_refused :
    ∃ pool past, notedManager.History pool past ∧ pool.shared.replies.length = 3 ∧
      (∀ e ∈ past, OneWaitEach e.1) ∧
      ∀ e ∈ past, e.1.OnStep (fun _ t _ => ReportsCycle e.1 t.1) e.2 := by
  have hrun : ∃ r ∈ Pool.advanceAll (fun call => (Call.task call, {})) (Pool.noted Task.step Task.note)
      notedIdle [] ([("alice.rs", alice), ("bob.rs", bob)].flatMap (fun (path, holder) =>
          [.start (.acquire ⟨path, holder, false⟩), .step 0 calm, .step 0 calm, .step 0 calm]) ++
        [("bob.rs", alice), ("alice.rs", bob)].zipIdx.flatMap fun ((path, holder), index) =>
          .start (.acquireWait ⟨path, holder, false⟩) :: List.replicate 4 (.step index calm)),
      r.1.shared.replies.length = 3 ∧ ∀ e ∈ r.2, OneWaitEach e.1 := by decide +kernel
  obtain ⟨⟨pool, past⟩, hrun, hreplies, hone⟩ := hrun
  have hhistory : notedManager.History pool past :=
    Pool.history_of_advanceAll (.init ⟨⟨_, rfl⟩, rfl⟩) hrun
  obtain ⟨hiff, hkeeps⟩ := cycles_reported_iff hhistory
  exact ⟨pool, past, hhistory, hreplies, hone, hiff.2 (hkeeps hone)⟩

end FlyCockpit.Locks
