-- SUMMARY: The byte limits under loans: they hold exactly while every return finds room.
import FlyCockpit.Transport.Leases

/-!
# Limits and reservations

`enqueue` keeps the queued bytes within the aggregate limit and what a lane holds beyond its
reservation within the shared pool. Lending the last fragment of a frame gives its charge back, and
`requeue` takes it again without looking: whatever was queued in between is not counted.
-/

namespace FlyCockpit.Transport

open Function List RemoteTransportFrameV1

namespace RemoteQueueLimits

/-- A control frame without payload fits an empty control lane and its reservation. -/
def AdmitsControl (limits : RemoteQueueLimits) : Prop :=
  1 ≤ limits.controlFrames ∧ 1 ≤ limits.controlReservedFrames ∧
    remoteTransportFrameHeaderBytes ≤ limits.controlBytes ∧
    remoteTransportFrameHeaderBytes ≤ limits.controlReservedBytes

/-- The bytes of the lanes are within the aggregate, and the lanes other than control draw no more
than the shared pool has. -/
structure Fits (limits : RemoteQueueLimits) (bytes : RemoteLane → Nat) : Prop where
  aggregate : bytes .control + bytes .interactive + bytes .bulk ≤ limits.aggregateBytes
  pool : limits.AdmitsControl →
    (bytes .interactive - limits.interactiveReservedBytes) + bytes .bulk ≤ limits.sharedPoolBytes

theorem Fits.mono {limits : RemoteQueueLimits} {bytes less : RemoteLane → Nat}
    (h : limits.Fits bytes) (hle : ∀ lane, less lane ≤ bytes lane) : limits.Fits less where
  aggregate := by
    have haggregate := h.aggregate
    have hcontrol := hle .control
    have hinteractive := hle .interactive
    have hbulk := hle .bulk
    omega
  pool hadmits := by
    have hpool := h.pool hadmits
    have hinteractive := hle .interactive
    have hbulk := hle .bulk
    omega

end RemoteQueueLimits

namespace RemoteLaneScheduler

variable {sha256 : Bytes → Block 32} {s t : RemoteLaneScheduler} {frame : RemoteTransportFrameV1}
  {lane : RemoteLane} {size : Nat}

/-- The bytes each lane counts. -/
def bytesOf (s : RemoteLaneScheduler) (lane : RemoteLane) : Nat := (s.lanes lane).bytes

variable (sha256) in
/-- The queued bytes are within the aggregate limit, and a control frame that fits the caps and the
reservation of its lane is queued. -/
structure Honours (s : RemoteLaneScheduler) : Prop where
  aggregate : s.aggregateBytes ≤ s.limits.aggregateBytes
  reserved : ∀ frame, frame.lane = .control →
    frame.payload.length ≤ RemoteLane.control.maxPayloadBytes →
    (s.lanes .control).frames + 1 ≤ s.limits.controlFrames →
    (s.lanes .control).bytes + frame.serializedLen ≤ s.limits.controlBytes →
    (s.lanes .control).frames < s.limits.controlReservedFrames →
    (s.lanes .control).bytes + frame.serializedLen ≤ s.limits.controlReservedBytes →
    (s.enqueue sha256 frame).1 = .enqueued

theorem aggregateBytes_eq (s : RemoteLaneScheduler) :
    s.aggregateBytes = s.bytesOf .control + s.bytesOf .interactive + s.bytesOf .bulk := by
  simp only [aggregateBytes, RemoteLane.all, bytesOf, map_cons, map_nil, sum_cons, sum_nil]
  omega

theorem sharedUsage_eq (s : RemoteLaneScheduler) :
    s.sharedUsage = (s.bytesOf .control - s.limits.controlReservedBytes) +
      (s.bytesOf .interactive - s.limits.interactiveReservedBytes) + s.bytesOf .bulk := by
  simp only [sharedUsage, RemoteLane.all, bytesOf, RemoteQueueLimits.reservedBytesFor,
    map_cons, map_nil, sum_cons, sum_nil]
  omega

/-- A frame is taken when its lane and the pool have room. -/
theorem enqueue_of_room (hcap : frame.payload.length ≤ frame.lane.maxPayloadBytes)
    (hlimits : s.checkLimits frame.lane frame.serializedLen = .ok ()) :
    (s.enqueue sha256 frame).1 = .enqueued := by
  obtain ⟨fragments, hfragments⟩ := fragmentsOf_of_cap sha256 hcap
  rw [enqueue]
  simp only [hlimits, hfragments]

theorem Honours.of_fits (h : s.limits.Fits s.bytesOf) : s.Honours sha256 where
  aggregate := by
    rw [aggregateBytes_eq]
    exact h.aggregate
  reserved frame hlane hcap hframes hbytes hreservedFrames hreservedBytes := by
    have hsize : remoteTransportFrameHeaderBytes ≤ frame.serializedLen := Nat.le_add_right _ _
    have hpool := h.pool ⟨by omega, by omega, by omega, by omega⟩
    have hcontrol : s.bytesOf .control - s.limits.controlReservedBytes = 0 := by
      unfold bytesOf
      omega
    have hown : s.fromShared .control frame.serializedLen = 0 := by
      rw [fromShared, if_neg (fun hfull => absurd hfull.2 (by omega))]
      change frame.serializedLen - (s.limits.controlReservedBytes - (s.lanes .control).bytes) = 0
      omega
    refine enqueue_of_room (hlane ▸ hcap) ?_
    rw [hlane]
    refine checkLimits_of_le hframes hbytes ?_
    rw [hown, sharedUsage_eq, hcontrol]
    omega

/-- A frame that was taken passed the limits. -/
theorem checkLimits_of_enqueued (h : s.enqueue sha256 frame = (.enqueued, t)) :
    s.checkLimits frame.lane frame.serializedLen = .ok () := by
  unfold enqueue at h
  dsimp only at h
  cases hlimits : s.checkLimits frame.lane frame.serializedLen with
  | ok u => rfl
  | error e =>
    rw [hlimits] at h
    exact absurd (Prod.mk.inj h).1 (forLane_ne_enqueued e frame.lane)

theorem shared_le_of_checkLimits (h : s.checkLimits lane size = .ok ()) :
    s.sharedUsage + s.fromShared lane size ≤ s.limits.sharedPoolBytes := by
  unfold checkLimits at h
  split_ifs at h with hframes hbytes hshared
  exact Nat.le_of_not_lt hshared

theorem bytesOf_setLane (s : RemoteLaneScheduler) (lane : RemoteLane) (q : LaneQueue) :
    (s.setLane lane q).bytesOf = update s.bytesOf lane q.bytes := by
  funext other
  unfold bytesOf
  by_cases hother : other = lane
  · subst hother
    rw [lanes_setLane_self, update_self]
  · rw [lanes_setLane_of_ne s hother, update_of_ne hother]

/-- What a frame draws from the pool is at least what its lane then holds in excess. -/
theorem sharedUsage_setLane_le {q : LaneQueue} (hbytes : q.bytes = (s.lanes lane).bytes + size) :
    (s.setLane lane q).sharedUsage ≤ s.sharedUsage + s.fromShared lane size := by
  have hlimits : (s.setLane lane q).limits = s.limits := rfl
  rw [sharedUsage_eq, sharedUsage_eq, hlimits, bytesOf_setLane, hbytes]
  unfold fromShared
  cases lane with
  | control =>
    simp only [update_self, update_of_ne, ne_eq, reduceCtorEq, not_false_eq_true,
      RemoteQueueLimits.reservedBytesFor, bytesOf]
    split_ifs <;> omega
  | interactive =>
    simp only [update_self, update_of_ne, ne_eq, reduceCtorEq, not_false_eq_true,
      RemoteQueueLimits.reservedBytesFor, bytesOf, false_and, if_false]
    omega
  | bulk =>
    simp only [update_self, update_of_ne, ne_eq, reduceCtorEq, not_false_eq_true,
      RemoteQueueLimits.reservedBytesFor, bytesOf, false_and, if_false]
    omega

/-- Where the pool is not overdrawn the limits fit, since the reservations are part of the
aggregate. -/
theorem fits_of_sharedUsage_le
    (hcarved : s.limits.controlReservedBytes + s.limits.interactiveReservedBytes ≤
      s.limits.aggregateBytes)
    (h : s.sharedUsage ≤ s.limits.sharedPoolBytes) : s.limits.Fits s.bytesOf := by
  rw [sharedUsage_eq] at h
  refine ⟨?_, fun _ => by omega⟩
  unfold RemoteQueueLimits.sharedPoolBytes at h
  omega

end RemoteLaneScheduler

/-- The call hands a fragment back. -/
def LendingCall.isRequeue : LendingCall → Bool
  | .requeue _ => true
  | _ => false

namespace Lending

open RemoteLaneScheduler

variable {sha256 : Bytes → Block 32} {s t : Lending} {c : LendingCall}

/-- The lanes fit the limits. -/
def Fit (s : Lending) : Prop := s.scheduler.limits.Fits s.scheduler.bytesOf

variable (sha256) in
/-- The limits are honoured now and after any calls that hand nothing back. -/
def Secured (s : Lending) : Prop :=
  ∀ calls t, (∀ c ∈ calls, LendingCall.isRequeue c = false) →
    Lts.replay (call sha256) s calls = some t → t.scheduler.Honours sha256

/-- The charge of a fragment that comes back fits beside what is queued. -/
def HasRoom (s : Lending) : LendingCall → Prop
  | .requeue lease => s.scheduler.limits.Fits
      (update s.scheduler.bytesOf lease.request.lane
        (s.scheduler.bytesOf lease.request.lane + lease.request.accountedBytes.toList.sum))
  | _ => True

theorem limits_call (hs : Sound sha256 s) (h : s.call sha256 c = some t) :
    t.scheduler.limits = s.scheduler.limits := by
  refine of_call (P := fun _ t => t.scheduler.limits = s.scheduler.limits) h (fun frame => ?_) ?_
    (fun _ _ => rfl) (fun _ _ => rfl) (fun _ _ => rfl) fun _ _ => rfl
  · obtain ⟨scheduler, hok, heq⟩ | heq := s.enqueue_cases sha256 frame
    · rw [heq]
      exact (touches_enqueue hok [] []).limits
    · rw [heq]
  · obtain ⟨scheduler, heq, -, hlimits⟩ | ⟨request, after, scheduler, -, -, hlimits, -, heq⟩ :=
      nextFragment_cases fun lane => (hs.consistent lane).toOrdered
    · rw [heq, hlimits]
    · rw [heq, hlimits]

/-- Beside a return no call breaks the limits. -/
theorem Fit.call (hs : Sound sha256 s) (hcarved : s.scheduler.limits.controlReservedBytes +
      s.scheduler.limits.interactiveReservedBytes ≤ s.scheduler.limits.aggregateBytes)
    (h : s.Fit) (hc : c.isRequeue = false) (hcall : s.call sha256 c = some t) : t.Fit := by
  have hlimits := limits_call hs hcall
  have hless : (∀ lane, t.scheduler.bytesOf lane ≤ s.scheduler.bytesOf lane) → t.Fit := by
    intro hle
    unfold Fit
    rw [hlimits]
    exact RemoteQueueLimits.Fits.mono h hle
  cases c with
  | enqueue frame =>
    cases hcall
    obtain ⟨scheduler, hok, heq⟩ | heq := s.enqueue_cases sha256 frame
    · have hshared := shared_le_of_checkLimits (checkLimits_of_enqueued hok)
      obtain ⟨-, -, rfl⟩ := enqueue_eq_enqueued hok
      rw [heq]
      refine fits_of_sharedUsage_le hcarved ?_
      exact (sharedUsage_setLane_le rfl).trans hshared
    · rw [heq]
      exact h
  | nextFragment =>
    cases hcall
    obtain ⟨scheduler, heq, hlanes, -⟩ | ⟨request, after, scheduler, -, hlanes, -, hserves, heq⟩ :=
      nextFragment_cases fun lane => (hs.consistent lane).toOrdered
    · refine hless fun lane => ?_
      rw [heq, bytesOf, hlanes]
      exact le_rfl
    · refine hless fun lane => ?_
      rw [heq, bytesOf]
      dsimp only
      rw [hlanes]
      by_cases hlane : lane = request.lane
      · subst hlane
        obtain ⟨order, fragments, -, -, rfl⟩ := hserves.turn
        rw [update_self, LaneQueue.bytes_settle, LaneQueue.bytes_served]
        exact Nat.sub_le _ _
      · rw [update_of_ne hlane]
        exact le_rfl
  | keep lease =>
    obtain ⟨-, rfl⟩ := Option.ite_some_none_eq_some.1 hcall
    exact h
  | requeue lease => cases hc
  | closeStream lane streamId =>
    cases hcall
    refine hless fun other => ?_
    rw [closeStream, RemoteLaneScheduler.closeStream, bytesOf_setLane]
    by_cases hother : other = lane
    · subst hother
      rw [update_self, LaneQueue.without, LaneQueue.foldl_settle]
      exact Nat.sub_le _ _
    · rw [update_of_ne hother]
  | setLaneWritable lane writable =>
    cases hcall
    refine hless fun other => ?_
    rw [setLaneWritable, RemoteLaneScheduler.setLaneWritable, bytesOf_setLane]
    by_cases hother : other = lane
    · subst hother
      rw [update_self]
      exact le_rfl
    · rw [update_of_ne hother]

/-! ## Emptying a lane -/

/-- The calls that close some streams of a lane. -/
def closing (lane : RemoteLane) (ids : List UInt64) : List LendingCall :=
  ids.map (.closeStream lane)

theorem replay_closing (sha256 : Bytes → Block 32) (s : Lending) (lane : RemoteLane)
    (ids : List UInt64) : ∃ t, Lts.replay (call sha256) s (closing lane ids) = some t ∧
      (∀ other ≠ lane, t.scheduler.lanes other = s.scheduler.lanes other) ∧
      (∀ streamId ∈ (t.scheduler.lanes lane).order,
        streamId ∈ (s.scheduler.lanes lane).order ∧ streamId ∉ ids) := by
  induction ids generalizing s with
  | nil => exact ⟨s, rfl, fun _ _ => rfl, fun _ hmem => ⟨hmem, not_mem_nil⟩⟩
  | cons first ids ih =>
    obtain ⟨t, hrun, hother, horder⟩ := ih (s.closeStream lane first)
    have htouches := touches_closeStream s lane first
    refine ⟨t, Lts.replay_cons.2 ⟨_, rfl, hrun⟩, fun other hne => ?_, fun streamId hmem => ?_⟩
    · rw [hother other hne, htouches.lanes other hne]
    · obtain ⟨hleft, hnot⟩ := horder streamId hmem
      rw [closeStream, RemoteLaneScheduler.closeStream] at hleft
      dsimp only at hleft
      rw [lanes_setLane_self, LaneQueue.mem_order_without] at hleft
      exact ⟨hleft.1, not_mem_cons_of_ne_of_not_mem hleft.2 hnot⟩

/-- A run of closes empties a lane and leaves the others as they are. -/
theorem exists_emptied (hs : Sound sha256 s) (lane : RemoteLane) : ∃ calls t,
    (∀ c ∈ calls, LendingCall.isRequeue c = false) ∧
    Lts.replay (call sha256) s calls = some t ∧ t.scheduler.limits = s.scheduler.limits ∧
    (∀ other ≠ lane, t.scheduler.lanes other = s.scheduler.lanes other) ∧
    (t.scheduler.lanes lane).frames = 0 ∧ (t.scheduler.lanes lane).bytes = 0 := by
  obtain ⟨t, hrun, hother, horder⟩ :=
    replay_closing sha256 s lane (s.scheduler.lanes lane).order
  have hsound : Sound sha256 t ∧ t.scheduler.limits = s.scheduler.limits :=
    Lts.replay_invariant (I := fun u => Sound sha256 u ∧ u.scheduler.limits = s.scheduler.limits)
      (fun _ _ _ hinv _ hcall => ⟨hinv.1.call hcall, (limits_call hinv.1 hcall).trans hinv.2⟩)
      ⟨hs, rfl⟩ (fun _ _ => trivial) hrun
  have hempty : (t.scheduler.lanes lane).order = [] :=
    eq_nil_iff_forall_not_mem.2 fun streamId hmem =>
      (horder streamId hmem).2 (horder streamId hmem).1
  refine ⟨closing lane (s.scheduler.lanes lane).order, t, ?_, hrun, hsound.2, hother,
    (hsound.1.consistent lane).eq_zero_of_empty hempty⟩
  intro c hc
  obtain ⟨streamId, -, rfl⟩ := mem_map.1 hc
  rfl

/-! ## Limits along a run -/

theorem secured_iff (hs : Sound sha256 s) (hcarved : s.scheduler.limits.controlReservedBytes +
      s.scheduler.limits.interactiveReservedBytes ≤ s.scheduler.limits.aggregateBytes) :
    Secured sha256 s ↔ s.Fit := by
  constructor
  · intro h
    constructor
    · rw [← aggregateBytes_eq]
      exact (h [] s (fun _ hc => absurd hc not_mem_nil) rfl).aggregate
    · rintro ⟨hframes, hreservedFrames, hbytes, hreservedBytes⟩
      -- with the control lane emptied, a control frame without payload tells what the others draw
      obtain ⟨calls, t, hnone, hrun, hlimits, hother, hzeroFrames, hzeroBytes⟩ :=
        exists_emptied hs .control
      have htaken := (h calls t hnone hrun).reserved (emptyFrame .control 0) rfl
        (Nat.zero_le _) (by rw [hzeroFrames, hlimits]; omega)
        (by rw [hzeroBytes, hlimits, Nat.zero_add]; exact hbytes)
        (by rw [hzeroFrames, hlimits]; omega)
        (by rw [hzeroBytes, hlimits, Nat.zero_add]; exact hreservedBytes)
      have hshared := shared_le_of_checkLimits (checkLimits_of_enqueued (Prod.ext htaken rfl))
      rw [sharedUsage_eq, hlimits] at hshared
      unfold bytesOf at hshared ⊢
      rw [hother .interactive (by decide), hother .bulk (by decide)] at hshared
      omega
  · intro hfit calls t hnone hrun
    have hstep : ∀ u c v, Sound sha256 u ∧ u.scheduler.limits = s.scheduler.limits ∧ u.Fit →
        LendingCall.isRequeue c = false → u.call sha256 c = some v →
        Sound sha256 v ∧ v.scheduler.limits = s.scheduler.limits ∧ v.Fit := by
      rintro u c v ⟨hsound, hlimits, hu⟩ hc hcall
      exact ⟨hsound.call hcall, (limits_call hsound hcall).trans hlimits,
        hu.call hsound (hlimits.symm ▸ hcarved) hc hcall⟩
    have hinv := Lts.replay_invariant hstep ⟨hs, rfl, hfit⟩ hnone hrun
    exact .of_fits hinv.2.2

/-- A call keeps the limits exactly when it hands nothing back or finds room. -/
theorem fit_call_iff (hs : Sound sha256 s) (hcarved : s.scheduler.limits.controlReservedBytes +
      s.scheduler.limits.interactiveReservedBytes ≤ s.scheduler.limits.aggregateBytes)
    (h : s.Fit) (hcall : s.call sha256 c = some t) : t.Fit ↔ s.HasRoom c := by
  have hothers : c.isRequeue = false → (t.Fit ↔ True) := fun hc =>
    iff_true_intro (h.call hs hcarved hc hcall)
  cases c with
  | requeue lease =>
    obtain ⟨-, rfl⟩ := Option.ite_some_none_eq_some.1 hcall
    have hbytes : (s.requeue lease).scheduler.bytesOf =
        update s.scheduler.bytesOf lease.request.lane
          (s.scheduler.bytesOf lease.request.lane + lease.request.accountedBytes.toList.sum) := by
      rw [requeue, RemoteLaneScheduler.requeue, bytesOf_setLane, LaneQueue.bytes_restored]
      rfl
    rw [Fit, hbytes]
    exact Iff.rfl
  | enqueue frame => exact hothers rfl
  | nextFragment => exact hothers rfl
  | keep lease => exact hothers rfl
  | closeStream lane streamId => exact hothers rfl
  | setLaneWritable lane writable => exact hothers rfl

/-- Along a run of calls the queued bytes stay within the aggregate, and control keeps its
reservation, exactly when every fragment that comes back finds room for the charge it brings. -/
theorem limits_honoured_iff {limits : RemoteQueueLimits}
    (hcarved : limits.controlReservedBytes + limits.interactiveReservedBytes ≤
      limits.aggregateBytes)
    {s : Lending} {past : List (Lending × LendingCall)}
    (h : (system sha256 limits).History s past) :
    (Secured sha256 s ∧ ∀ e ∈ past, Secured sha256 e.1) ↔ ∀ e ∈ past, HasRoom e.1 e.2 := by
  have hinv : ∀ u, (system sha256 limits).Reachable u →
      Sound sha256 u ∧ u.scheduler.limits = limits := by
    intro u hu
    induction hu with
    | init h0 =>
      cases h0
      exact ⟨sound_new limits, rfl⟩
    | step _ _ hcall ih => exact ⟨ih.1.call hcall, (limits_call ih.1 hcall).trans ih.2⟩
  have hsecured : ∀ u, Sound sha256 u ∧ u.scheduler.limits = limits →
      (Secured sha256 u ↔ u.Fit) := fun u hu => secured_iff hu.1 (hu.2.symm ▸ hcarved)
  refine h.forall_states_iff hinv ?_ ?_
  · rintro u rfl
    rw [hsecured _ ⟨sound_new limits, rfl⟩]
    refine ⟨Nat.zero_le _, fun _ => ?_⟩
    change 0 - limits.interactiveReservedBytes + 0 ≤ _
    omega
  · intro u c v hu hfit hcall
    have hv : Sound sha256 v ∧ v.scheduler.limits = limits :=
      ⟨hu.1.call hcall, (limits_call hu.1 hcall).trans hu.2⟩
    rw [hsecured v hv]
    exact fit_call_iff hu.1 (hu.2.symm ▸ hcarved) ((hsecured u hu).1 hfit) hcall

theorem step_requeue {limits : RemoteQueueLimits} {lease : Lease} (hmem : lease ∈ s.lent) :
    (system sha256 limits).step s (.requeue lease) (s.requeue lease) := if_pos hmem

/-- Limits that leave room for one bulk frame and one control frame. -/
def tight : RemoteQueueLimits :=
  { RemoteQueueLimits.standard with
    aggregateBytes := 144
    controlReservedBytes := 72
    interactiveReservedBytes := 0 }

/-- A bulk fragment is on loan. -/
def bulkLent : Lending := ((new tight).enqueue blankHash (emptyFrame .bulk 2)).nextFragment

/-- The next bulk frame has taken its room. -/
def bulkRefilled : Lending := bulkLent.enqueue blankHash (emptyFrame .bulk 2)

theorem history_bulkRefilled : (system blankHash tight).History bulkRefilled
    [(bulkLent, .enqueue (emptyFrame .bulk 2)),
      ((new tight).enqueue blankHash (emptyFrame .bulk 2), .nextFragment),
      (new tight, .enqueue (emptyFrame .bulk 2))] :=
  (((Lts.History.init rfl).step rfl).step rfl).step rfl

/-- The fragment comes back while there is room for it. -/
theorem limits_honoured_iff_returned :
    Secured blankHash (bulkLent.requeue (emptyLease 2 0)) ∧ Secured blankHash bulkLent := by
  have hlent : (system blankHash tight).History bulkLent
      [((new tight).enqueue blankHash (emptyFrame .bulk 2), .nextFragment),
        (new tight, .enqueue (emptyFrame .bulk 2))] := ((Lts.History.init rfl).step rfl).step rfl
  have hmem : emptyLease 2 0 ∈ bulkLent.lent := by decide +kernel
  have h := (limits_honoured_iff (by decide) (hlent.step (step_requeue hmem))).2 (by
      simp only [List.forall_mem_cons, HasRoom, true_and]
      exact ⟨⟨by decide +kernel, fun _ => by decide +kernel⟩, List.forall_mem_nil _⟩)
  exact ⟨h.1, h.2 _ List.mem_cons_self⟩

/-- The fragment comes back to the full pool. With a control frame queued in the meantime the
aggregate is exceeded; without one the control lane is empty and refuses a frame of the size of its
reservation. -/
theorem requeue_breaks_limits : ∃ lease ∈ bulkLent.lent, (system blankHash tight).Reachable
        ((bulkRefilled.enqueue blankHash (emptyFrame .control 0)).requeue lease) ∧
      tight.aggregateBytes < ((bulkRefilled.enqueue blankHash
        (emptyFrame .control 0)).requeue lease).scheduler.aggregateBytes ∧
      (system blankHash tight).Reachable (bulkRefilled.requeue lease) ∧
      ((bulkRefilled.requeue lease).scheduler.lanes .control).frames = 0 ∧
      ((bulkRefilled.requeue lease).scheduler.lanes .control).bytes = 0 ∧
      (emptyFrame .control 0).serializedLen = tight.controlReservedBytes ∧
      ((bulkRefilled.requeue lease).scheduler.enqueue blankHash (emptyFrame .control 0)).1 =
        .closeStream (.withSize .queueAggregateLimit .control 72) := by
  have hlent : bulkLent.lent = [emptyLease 2 0] := by decide +kernel
  have hreach := history_bulkRefilled.reachable
  refine ⟨_, hlent ▸ List.mem_singleton_self _, ?_, by decide +kernel, ?_, by decide +kernel,
    by decide +kernel, by decide, by decide +kernel⟩
  · have hfull : (system blankHash tight).Reachable (bulkRefilled.enqueue blankHash (emptyFrame .control 0)) :=
      hreach.step (a := .enqueue (emptyFrame .control 0)) rfl
    exact hfull.step (step_requeue (by decide +kernel))
  · exact hreach.step (step_requeue (by decide +kernel))

end Lending

end FlyCockpit.Transport
