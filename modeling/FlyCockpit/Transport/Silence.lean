-- SUMMARY: A closed stream stays silent exactly when none of its fragments was on loan.
import FlyCockpit.Transport.Leases

/-!
# Closing a stream

`close_stream` drops what is queued for a stream. It cannot reach what is on loan: a fragment the
carrier hands back later goes to the head of the stream as if nothing had happened.
-/

namespace FlyCockpit.Transport

open List RemoteTransportFrameV1

/-- The loan belongs to a stream. -/
def Lease.On (lane : RemoteLane) (streamId : UInt64) (lease : Lease) : Prop :=
  (lease.request.lane, lease.request.streamId) = (lane, streamId)

namespace Lending

variable {sha256 : Bytes → Block 32} {lane : RemoteLane} {streamId : UInt64}

/-- What the next call of `next_fragment` would put on loan. -/
def offer (s : Lending) : Option Lease :=
  s.scheduler.nextFragment.1.map fun r => ⟨r, (s.origins r.lane r.streamId).headD 0⟩

/-- The queued charges of a stream that belong to the frames from position `n` on. -/
def chargesSince (s : Lending) (lane : RemoteLane) (streamId : UInt64) (n : Nat) : List Nat :=
  ((s.queue lane streamId).zip (s.origins lane streamId)).filterMap fun e =>
    if n ≤ e.2 then e.1.accountedBytes else none

/-- Of the frames of a stream only those from position `n` on are offered or counted. -/
structure Silent (s : Lending) (lane : RemoteLane) (streamId : UInt64) (n : Nat) : Prop where
  offer : ∀ lease, s.offer = some lease → lease.On lane streamId → n ≤ lease.frame
  frames : (s.scheduler.lanes lane).frames =
    (s.chargesSince lane streamId n).length +
      (s.scheduler.lanes lane).chargedBeside List.length streamId
  bytes : (s.scheduler.lanes lane).bytes =
    (s.chargesSince lane streamId n).sum +
      (s.scheduler.lanes lane).chargedBeside List.sum streamId

/-! ## Nothing older is left -/

variable (sha256) in
/-- Queued and on loan there are only fragments of the frames from position `n` on. -/
structure Renewed (lane : RemoteLane) (streamId : UInt64) (n : Nat) (s : Lending) : Prop where
  sound : Sound sha256 s
  accepted : n ≤ s.accepted.length
  queued : ∀ m ∈ s.origins lane streamId, n ≤ m
  lent : ∀ lease ∈ s.lent, lease.On lane streamId → n ≤ lease.frame

section Renewed

variable {s t : Lending} {n : Nat} (h : Renewed sha256 lane streamId n s)
include h

theorem Renewed.enqueue (frame : RemoteTransportFrameV1) :
    Renewed sha256 lane streamId n (s.enqueue sha256 frame) := by
  refine ⟨h.sound.enqueue frame, ?_, ?_, ?_⟩
  all_goals obtain ⟨scheduler, -, heq⟩ | heq := s.enqueue_cases sha256 frame <;> rw [heq]
  · have := h.accepted
    simp only [length_append]
    omega
  · exact h.accepted
  · dsimp only
    by_cases hsame : (lane, streamId) = (frame.lane, frame.streamId)
    · obtain ⟨rfl, rfl⟩ := Prod.mk.inj hsame
      rw [setOrigins_self, forall_mem_append]
      refine ⟨h.queued, fun m hm => ?_⟩
      rw [eq_of_mem_replicate hm]
      exact h.accepted
    · rw [s.setOrigins_of_ne hsame]
      exact h.queued
  · exact h.queued
  · exact h.lent
  · exact h.lent

/-- The fragment offered next is the head of its stream's queue. -/
theorem Renewed.headD_mem {request : RemoteSendRequest} {after : LaneQueue}
    (hserves : (s.scheduler.lanes request.lane).Serves request after) :
    (s.origins request.lane request.streamId).headD 0 ∈
      s.origins request.lane request.streamId := by
  have hstems := h.sound.queued request.lane request.streamId
  rw [queue, hserves.stream.1] at hstems
  generalize s.origins request.lane request.streamId = origins at hstems
  obtain _ | ⟨-, -⟩ := hstems
  exact mem_cons_self

theorem Renewed.nextFragment : Renewed sha256 lane streamId n s.nextFragment := by
  refine ⟨h.sound.nextFragment, ?_, ?_, ?_⟩
  all_goals
    obtain ⟨scheduler, heq, -, -⟩ | ⟨request, after, scheduler, -, -, -, hserves, heq⟩ :=
      nextFragment_cases fun lane => (h.sound.consistent lane).toOrdered
    all_goals rw [heq]
  · exact h.accepted
  · exact h.accepted
  · exact h.queued
  · dsimp only
    by_cases hsame : (lane, streamId) = (request.lane, request.streamId)
    · obtain ⟨rfl, rfl⟩ := Prod.mk.inj hsame
      rw [setOrigins_self]
      exact fun m hm => h.queued m (mem_of_mem_tail hm)
    · rw [s.setOrigins_of_ne hsame]
      exact h.queued
  · exact h.lent
  · rw [forall_mem_cons]
    refine ⟨fun hon => ?_, h.lent⟩
    obtain ⟨rfl, rfl⟩ := Prod.mk.inj hon
    exact h.queued _ (h.headD_mem hserves)

theorem Renewed.keep (lease : Lease) : Renewed sha256 lane streamId n (s.keep lease) :=
  ⟨h.sound.keep lease, h.accepted, h.queued,
    fun other hmem => h.lent other (mem_of_mem_erase hmem)⟩

theorem Renewed.requeue {lease : Lease} (hmem : lease ∈ s.lent) :
    Renewed sha256 lane streamId n (s.requeue lease) := by
  refine ⟨h.sound.requeue hmem, h.accepted, ?_,
    fun other hother => h.lent other (mem_of_mem_erase hother)⟩
  rw [Lending.requeue]
  dsimp only
  by_cases hsame : (lane, streamId) = (lease.request.lane, lease.request.streamId)
  · have hfresh := h.lent lease hmem hsame.symm
    obtain ⟨rfl, rfl⟩ := Prod.mk.inj hsame
    rw [setOrigins_self, forall_mem_cons]
    exact ⟨hfresh, h.queued⟩
  · rw [s.setOrigins_of_ne hsame]
    exact h.queued

theorem Renewed.closeStream (other : RemoteLane) (otherId : UInt64) :
    Renewed sha256 lane streamId n (s.closeStream other otherId) := by
  refine ⟨h.sound.closeStream other otherId, h.accepted, ?_, h.lent⟩
  rw [Lending.closeStream]
  dsimp only
  by_cases hsame : (lane, streamId) = (other, otherId)
  · obtain ⟨rfl, rfl⟩ := Prod.mk.inj hsame
    rw [setOrigins_self]
    simp
  · rw [s.setOrigins_of_ne hsame]
    exact h.queued

theorem Renewed.call {c : LendingCall} (hcall : s.call sha256 c = some t) :
    Renewed sha256 lane streamId n t :=
  of_call (P := fun _ t => Renewed sha256 lane streamId n t) hcall h.enqueue h.nextFragment
    (fun lease _ => h.keep lease) (fun _ hmem => h.requeue hmem) h.closeStream
    fun other writable => ⟨h.sound.setLaneWritable other writable, h.accepted, h.queued, h.lent⟩

end Renewed

theorem chargesSince_eq {s : Lending} {n : Nat} (hsound : Sound sha256 s)
    (hqueued : ∀ m ∈ s.origins lane streamId, n ≤ m) :
    s.chargesSince lane streamId n = charges (s.queue lane streamId) := by
  have hlength := (hsound.queued lane streamId).length_eq
  unfold chargesSince
  generalize s.queue lane streamId = fragments at hlength
  generalize s.origins lane streamId = origins at hlength hqueued
  induction fragments generalizing origins with
  | nil => rfl
  | cons x fragments ih =>
    cases origins with
    | nil => cases hlength
    | cons m origins =>
      rw [forall_mem_cons] at hqueued
      rw [zip_cons_cons, charges, filterMap_cons, filterMap_cons, if_pos hqueued.1]
      rw [ih origins (Nat.succ.inj hlength) hqueued.2]
      rfl

theorem Renewed.silent {s : Lending} {n : Nat} (h : Renewed sha256 lane streamId n s) :
    s.Silent lane streamId n := by
  have hcharges := chargesSince_eq h.sound h.queued
  refine ⟨fun lease hoffer hon => ?_, ?_, ?_⟩
  · obtain ⟨t, hnext, -, -, -⟩ | ⟨request, after, t, hnext, -, -, hserves⟩ :=
      RemoteLaneScheduler.nextFragment_cases fun lane => (h.sound.consistent lane).toOrdered
    · rw [Lending.offer, hnext] at hoffer
      cases hoffer
    · rw [Lending.offer, hnext] at hoffer
      cases hoffer
      obtain ⟨rfl, rfl⟩ := Prod.mk.inj hon
      exact h.queued _ (h.headD_mem hserves)
  · rw [hcharges]
    exact (h.sound.consistent lane).frames_eq streamId
  · rw [hcharges]
    exact (h.sound.consistent lane).bytes_eq streamId

/-! ## A loan that comes back -/

/-- Blocking every lane but one. -/
def solo (lane : RemoteLane) : List LendingCall :=
  RemoteLane.all.map fun other => .setLaneWritable other (other = lane)

theorem replay_solo (sha256 : Bytes → Block 32) (s : Lending) (lane : RemoteLane) :
    ∃ t, Lts.replay (call sha256) s (solo lane) = some t ∧ t.origins = s.origins ∧
      ∀ other, t.scheduler.lanes other =
        { s.scheduler.lanes other with writable := decide (other = lane) } := by
  refine ⟨_, rfl, rfl, fun other => ?_⟩
  cases other <;> rfl

/-- A lane that alone is writable offers the head of its queue. -/
theorem offer_of_solo {s : Lending} (hs : Sound sha256 s)
    (hsolo : ∀ other, (s.scheduler.lanes other).writable = decide (other = lane))
    {order : List UInt64} (horder : (s.scheduler.lanes lane).order = streamId :: order) :
    ∃ lease, s.offer = some lease ∧ lease.On lane streamId ∧
      lease.frame = (s.origins lane streamId).headD 0 := by
  obtain ⟨t, hnext, -, -, hidle⟩ | ⟨request, after, t, hnext, -, -, hserves⟩ :=
    RemoteLaneScheduler.nextFragment_cases fun lane => (hs.consistent lane).toOrdered
  · obtain hblocked | hempty := hidle lane
    · rw [hsolo lane, decide_eq_false_iff_not] at hblocked
      exact absurd rfl hblocked
    · rw [horder] at hempty
      cases hempty
  · have hlane : request.lane = lane := by
      have hwritable := hserves.writable
      rwa [hsolo, decide_eq_true_eq] at hwritable
    subst hlane
    obtain ⟨rest, fragments, hturn, -, -⟩ := hserves.turn
    rw [horder] at hturn
    cases hturn
    refine ⟨⟨request, (s.origins request.lane request.streamId).headD 0⟩, ?_, rfl, rfl⟩
    rw [Lending.offer, hnext]
    rfl

/-- A fragment handed back after the close is offered again. -/
theorem exists_offer_of_lent {s : Lending} (hs : Sound sha256 s) {lease : Lease}
    (hmem : lease ∈ s.lent) (hon : lease.On lane streamId) :
    ∃ calls t, Lts.replay (call sha256) (s.closeStream lane streamId) calls = some t ∧
      ∃ back, t.offer = some back ∧ back.On lane streamId ∧ back.frame = lease.frame := by
  obtain ⟨rfl, rfl⟩ := Prod.mk.inj hon
  have hclosed := hs.closeStream lease.request.lane lease.request.streamId
  have hlent : lease ∈ (s.closeStream lease.request.lane lease.request.streamId).lent := hmem
  have hback := hclosed.requeue hlent
  generalize s.closeStream lease.request.lane lease.request.streamId = closed at hclosed hlent hback
  obtain ⟨t, hsolo, horigins, hlanes⟩ :=
    replay_solo sha256 (closed.requeue lease) lease.request.lane
  have hrun : Lts.replay (call sha256) closed (.requeue lease :: solo lease.request.lane) = some t :=
    Lts.replay_cons.2 ⟨_, if_pos hlent, hsolo⟩
  have ht : Sound sha256 t :=
    Lts.replay_invariant (fun _ _ _ hsound _ hstep => hsound.call hstep) hclosed
      (fun _ _ => trivial) hrun
  have horder : (t.scheduler.lanes lease.request.lane).order = lease.request.streamId ::
      (closed.scheduler.lanes lease.request.lane).order.filter (· ≠ lease.request.streamId) := by
    rw [hlanes, Lending.requeue, RemoteLaneScheduler.requeue,
      RemoteLaneScheduler.lanes_setLane_self]
    rfl
  have hwritable : ∀ other, (t.scheduler.lanes other).writable =
      decide (other = lease.request.lane) := by
    intro other
    rw [hlanes]
  obtain ⟨back, hoffer, hback, hframe⟩ := offer_of_solo ht hwritable horder
  refine ⟨_, t, hrun, back, hoffer, hback, ?_⟩
  rw [hframe, horigins, Lending.requeue]
  dsimp only
  rw [setOrigins_self]
  rfl

/-- Closing a stream silences the frames it has had, whatever is called later, exactly when none of
their fragments is on loan. -/
theorem closed_stream_silent_iff (limits : RemoteQueueLimits) {s : Lending}
    (h : (system sha256 limits).Reachable s) (lane : RemoteLane) (streamId : UInt64) :
    (∀ calls t, Lts.replay (call sha256) (s.closeStream lane streamId) calls = some t →
      t.Silent lane streamId s.accepted.length) ↔
      ∀ lease ∈ s.lent, ¬lease.On lane streamId := by
  have hs := reachable_sound h
  constructor
  · intro hsilent lease hmem hon
    obtain ⟨calls, t, hrun, back, hoffer, hback, hframe⟩ := exists_offer_of_lent hs hmem hon
    have hle := (hsilent calls t hrun).offer back hoffer hback
    obtain ⟨f, hf, -⟩ := hs.lent lease hmem
    have hlt := (List.getElem?_eq_some_iff.1 hf).1
    omega
  · intro hnone calls t hrun
    have hclosed : Renewed sha256 lane streamId s.accepted.length (s.closeStream lane streamId) := by
      refine ⟨hs.closeStream lane streamId, le_rfl, ?_, fun lease hmem hon => ?_⟩
      · rw [Lending.closeStream]
        dsimp only
        rw [setOrigins_self]
        simp
      · exact absurd hon (hnone lease hmem)
    have ht : Renewed sha256 lane streamId s.accepted.length t :=
      Lts.replay_invariant (fun _ _ _ hrenewed _ hstep => hrenewed.call hstep) hclosed
        (fun _ _ => trivial) hrun
    exact ht.silent

theorem closed_stream_silent_iff_loan :
    (∀ calls t, Lts.replay (call blankHash) (loan.closeStream .bulk 2) calls = some t →
      t.Silent .bulk 2 loan.accepted.length) ↔
      ∀ lease ∈ loan.lent, ¬lease.On .bulk 2 :=
  closed_stream_silent_iff .standard reachable_loan .bulk 2

/-- The stream is closed, the fragment on loan is handed back, and `next_fragment` returns it. -/
theorem requeue_revives_closed_stream :
    (system blankHash .standard).Reachable loan ∧
    ∃ lease ∈ loan.lent, lease.On .bulk 2 ∧ lease.frame < loan.accepted.length ∧
      ((loan.closeStream .bulk 2).requeue lease).offer = some lease := by
  refine ⟨reachable_loan, ?_⟩
  have hlent : loan.lent = [emptyLease 2 2] := by decide +kernel
  rw [hlent]
  exact ⟨_, List.mem_singleton_self _, rfl, by decide +kernel, by decide +kernel⟩

end Lending

end FlyCockpit.Transport
