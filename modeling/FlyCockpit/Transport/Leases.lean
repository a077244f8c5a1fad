-- SUMMARY: Runs of a scheduler whose fragments are on loan: every queued fragment stems from its frame.
import FlyCockpit.Lib.Transition
import FlyCockpit.Transport.Charges

/-!
# Leases

A fragment that `next_fragment` returned is on loan until the carrier keeps it or hands it back. The
system below is the scheduler together with its loans, under any sequence of calls. Beside the
scheduler it records what the scheduler does not: the frames it took, what the carrier kept, and for
every fragment the frame it comes from.
-/

namespace FlyCockpit.Transport

open Function List RemoteTransportFrameV1
open RemoteLaneScheduler (enqueue_eq_enqueued lanes_setLane_of_ne lanes_setLane_self)

/-! ## One call of `next_fragment` -/

namespace LaneQueue

/-- The lane has nothing to send now. -/
def Idle (q : LaneQueue) : Prop := q.writable = false ∨ q.order = []

/-- The lane hands out the head of the stream whose turn it is. -/
structure Serves (q : LaneQueue) (request : RemoteSendRequest) (after : LaneQueue) : Prop where
  writable : q.writable = true
  turn : ∃ order fragments, q.order = request.streamId :: order ∧
    (q.stream request.streamId).fragments =
      ⟨request.fragment, request.accountedBytes⟩ :: fragments ∧
    after = (q.served request.streamId order fragments ((q.stream request.streamId).deficit +
      drrQuantumBytes - request.fragment.bytes.length)).settle request.accountedBytes

variable {q after : LaneQueue} {request : RemoteSendRequest}

theorem Serves.not_idle (h : q.Serves request after) : ¬q.Idle := by
  obtain ⟨order, fragments, horder, -, -⟩ := h.turn
  rintro (hwritable | hempty)
  · rw [h.writable] at hwritable
    cases hwritable
  · rw [horder] at hempty
    cases hempty

theorem Serves.consistent (h : q.Serves request after) (hq : q.Consistent) : after.Consistent := by
  obtain ⟨order, fragments, horder, hstream, rfl⟩ := h.turn
  exact hq.served horder hstream _

/-- Only the stream whose turn it is loses a fragment. -/
theorem Serves.stream (h : q.Serves request after) : (q.stream request.streamId).fragments =
        ⟨request.fragment, request.accountedBytes⟩ :: (after.stream request.streamId).fragments ∧
      ∀ other ≠ request.streamId, (after.stream other).fragments = (q.stream other).fragments := by
  obtain ⟨order, fragments, -, hstream, rfl⟩ := h.turn
  constructor
  · rw [settle_stream, stream_served, if_pos rfl, hstream]
  · intro other hne
    rw [settle_stream, stream_served, if_neg hne]

end LaneQueue

namespace RemoteLaneScheduler

variable {s : RemoteLaneScheduler}

theorem popFromLane_cases {lane : RemoteLane} (h : (s.lanes lane).Ordered) :
    (popFromLane s lane = (none, s) ∧ (s.lanes lane).Idle) ∨
      ∃ request after, popFromLane s lane = (some request, s.setLane lane after) ∧
        request.lane = lane ∧ (s.lanes lane).Serves request after := by
  unfold popFromLane
  dsimp only
  cases hwritable : (s.lanes lane).writable with
  | false => exact .inl ⟨rfl, .inl hwritable⟩
  | true =>
    cases horder : (s.lanes lane).order with
    | nil => exact .inl ⟨rfl, .inr horder⟩
    | cons streamId order =>
      obtain ⟨stream, x, fragments, hlookup, hfragments⟩ := head_of_ordered h horder
      have hstream : (s.lanes lane).stream streamId = stream := by
        rw [LaneQueue.stream, hlookup, Option.getD_some]
      refine .inr ⟨⟨lane, streamId, x.fragment, x.accountedBytes⟩, _, ?_, rfl, hwritable, order,
        fragments, horder, ?_, rfl⟩
      · simp [hlookup, hfragments, hstream]
      · rw [hstream, hfragments]

theorem visitSlots_cases (h : ∀ lane, (s.lanes lane).Ordered) (slots : Nat) :
    (∃ t, visitSlots slots s = (none, t) ∧ t.lanes = s.lanes ∧ t.limits = s.limits ∧
      ∀ slot ∈ List.iterate nextSlot s.cursor slots, (s.lanes (laneSchedule slot)).Idle) ∨
    ∃ request after t, visitSlots slots s = (some request, t) ∧
      t.lanes = update s.lanes request.lane after ∧ t.limits = s.limits ∧
      (s.lanes request.lane).Serves request after := by
  induction slots generalizing s with
  | zero => exact .inl ⟨s, rfl, rfl, rfl, by simp⟩
  | succ slots ih =>
    have hmoved : ∀ lane, (({ s with cursor := nextSlot s.cursor } :
        RemoteLaneScheduler).lanes lane).Ordered := h
    obtain ⟨hpop, hidle⟩ | ⟨request, after, hpop, hlane, hserves⟩ :=
      popFromLane_cases (hmoved (laneSchedule s.cursor))
    · obtain ⟨t, hvisit, hlanes, hlimits, hrest⟩ | ⟨request, after, t, hvisit, hrest⟩ := ih hmoved
      · refine .inl ⟨t, ?_, hlanes, hlimits, ?_⟩
        · rw [visitSlots, hpop]
          exact hvisit
        · rw [List.iterate, forall_mem_cons]
          exact ⟨hidle, hrest⟩
      · refine .inr ⟨request, after, t, ?_, hrest⟩
        rw [visitSlots, hpop]
        exact hvisit
    · have hvisit : visitSlots (slots + 1) s = (some request,
          ({ s with cursor := nextSlot s.cursor } : RemoteLaneScheduler).setLane
            (laneSchedule s.cursor) after) := by
        rw [visitSlots, hpop]
      refine .inr ⟨request, after, _, hvisit, ?_, rfl, ?_⟩
      · rw [hlane]
        rfl
      · rw [hlane]
        exact hserves

/-- A call finds nothing when every lane is idle, and serves one lane otherwise. -/
theorem nextFragment_cases (h : ∀ lane, (s.lanes lane).Ordered) :
    (∃ t, s.nextFragment = (none, t) ∧ t.lanes = s.lanes ∧ t.limits = s.limits ∧
      ∀ lane, (s.lanes lane).Idle) ∨
    ∃ request after t, s.nextFragment = (some request, t) ∧
      t.lanes = update s.lanes request.lane after ∧ t.limits = s.limits ∧
      (s.lanes request.lane).Serves request after := by
  obtain ⟨t, hvisit, hlanes, hlimits, hidle⟩ | hserved := visitSlots_cases h 8
  · refine .inl ⟨t, hvisit, hlanes, hlimits, fun lane => ?_⟩
    obtain ⟨slot, hslot, rfl⟩ := laneSchedule_covers s.cursor lane
    exact hidle slot hslot
  · exact .inr hserved

theorem nextFragment_eq_none_iff (h : ∀ lane, (s.lanes lane).Ordered) :
    s.nextFragment.1 = none ↔ ∀ lane, (s.lanes lane).Idle := by
  obtain ⟨t, hnext, -, -, hidle⟩ | ⟨request, after, t, hnext, -, -, hserves⟩ :=
    nextFragment_cases h
  · simp [hnext, hidle]
  · simp only [hnext, reduceCtorEq, false_iff]
    exact fun hidle => hserves.not_idle (hidle request.lane)

/-- A frame is taken, or refused without a trace. -/
theorem enqueue_cases (sha256 : Bytes → Block 32) (s : RemoteLaneScheduler)
    (frame : RemoteTransportFrameV1) :
    (∃ t, s.enqueue sha256 frame = (.enqueued, t)) ∨
      ∃ error, s.enqueue sha256 frame = (.forLane error frame.lane, s) := by
  unfold enqueue
  dsimp only
  cases s.checkLimits frame.lane frame.serializedLen with
  | error e => exact .inr ⟨e, rfl⟩
  | ok u =>
    cases fragmentsOf sha256 frame with
    | error e => exact .inr ⟨e, rfl⟩
    | ok fragments => exact .inl ⟨_, rfl⟩

end RemoteLaneScheduler

/-! ## The scheduler and its loans -/

/-- A fragment on loan, with the position of its frame among the frames the scheduler took. -/
structure Lease where
  request : RemoteSendRequest
  frame : Nat
  deriving DecidableEq

structure Lending where
  scheduler : RemoteLaneScheduler
  /-- On loan: neither kept nor handed back yet. -/
  lent : List Lease
  /-- What the carrier kept, in order. -/
  kept : List RemoteSendRequest
  /-- The frames `enqueue` took, in order. -/
  accepted : List RemoteTransportFrameV1
  /-- For every queued fragment of a stream the position of its frame. -/
  origins : RemoteLane → UInt64 → List Nat

inductive LendingCall
  | enqueue (frame : RemoteTransportFrameV1)
  | nextFragment
  | keep (lease : Lease)
  | requeue (lease : Lease)
  | closeStream (lane : RemoteLane) (streamId : UInt64)
  | setLaneWritable (lane : RemoteLane) (writable : Bool)
  deriving DecidableEq

namespace Lending

def new (limits : RemoteQueueLimits) : Lending where
  scheduler := .new limits
  lent := []
  kept := []
  accepted := []
  origins _ _ := []

/-- The origins with those of one stream replaced. -/
def setOrigins (s : Lending) (lane : RemoteLane) (streamId : UInt64) (origins : List Nat) :
    RemoteLane → UInt64 → List Nat :=
  update s.origins lane (update (s.origins lane) streamId origins)

theorem setOrigins_self (s : Lending) (lane : RemoteLane) (streamId : UInt64)
    (origins : List Nat) : s.setOrigins lane streamId origins lane streamId = origins := by
  rw [setOrigins, update_self, update_self]

variable {lane : RemoteLane} {streamId : UInt64} {s : Lending} {x : QueuedFragment}
  {other : RemoteLane} {otherId : UInt64} {accepted : List RemoteTransportFrameV1} {n : Nat}

theorem setOrigins_of_ne (s : Lending)
    (h : (other, otherId) ≠ (lane, streamId)) (origins : List Nat) :
    s.setOrigins lane streamId origins other otherId = s.origins other otherId := by
  unfold setOrigins
  by_cases hlane : other = lane
  · subst hlane
    have hid : otherId ≠ streamId := fun heq => h (by rw [heq])
    rw [update_self, update_of_ne hid]
  · rw [update_of_ne hlane]

variable (sha256 : Bytes → Block 32)

/-- `enqueue`: a frame that is taken is recorded as the origin of its fragments. -/
def enqueue (s : Lending) (frame : RemoteTransportFrameV1) : Lending :=
  match s.scheduler.enqueue sha256 frame with
  | (.enqueued, scheduler) =>
    { s with
      scheduler
      accepted := s.accepted ++ [frame]
      origins := s.setOrigins frame.lane frame.streamId (s.origins frame.lane frame.streamId ++
          List.replicate frame.pieceCount s.accepted.length) }
  | (_, scheduler) => { s with scheduler }

/-- `next_fragment`: what is returned goes on loan. -/
def nextFragment (s : Lending) : Lending :=
  match s.scheduler.nextFragment with
  | (none, scheduler) => { s with scheduler }
  | (some request, scheduler) =>
    let origins := s.origins request.lane request.streamId
    { s with
      scheduler
      lent := ⟨request, origins.headD 0⟩ :: s.lent
      origins := s.setOrigins request.lane request.streamId origins.tail }

def keep (s : Lending) (lease : Lease) : Lending :=
  { s with lent := s.lent.erase lease, kept := s.kept ++ [lease.request] }

def requeue (s : Lending) (lease : Lease) : Lending :=
  { s with
    scheduler := s.scheduler.requeue lease.request
    lent := s.lent.erase lease
    origins := s.setOrigins lease.request.lane lease.request.streamId
      (lease.frame :: s.origins lease.request.lane lease.request.streamId) }

def closeStream (s : Lending) (lane : RemoteLane) (streamId : UInt64) : Lending :=
  { s with
    scheduler := s.scheduler.closeStream lane streamId
    origins := s.setOrigins lane streamId [] }

def setLaneWritable (s : Lending) (lane : RemoteLane) (writable : Bool) : Lending :=
  { s with scheduler := s.scheduler.setLaneWritable lane writable }

/-- A fragment is kept or handed back only while it is on loan, so at most once. -/
def call (s : Lending) : LendingCall → Option Lending
  | .enqueue frame => some (s.enqueue sha256 frame)
  | .nextFragment => some s.nextFragment
  | .keep lease => if lease ∈ s.lent then some (s.keep lease) else none
  | .requeue lease => if lease ∈ s.lent then some (s.requeue lease) else none
  | .closeStream lane streamId => some (s.closeStream lane streamId)
  | .setLaneWritable lane writable => some (s.setLaneWritable lane writable)

/-- All runs of schedulers with the given limits. -/
def system (limits : RemoteQueueLimits) : Lts Lending LendingCall :=
  .ofCall (· = new limits) (call sha256)

variable {sha256}

/-! ## What the calls do -/

/-- The queued fragments of a stream. -/
def queue (s : Lending) (lane : RemoteLane) (streamId : UInt64) : List QueuedFragment :=
  ((s.scheduler.lanes lane).stream streamId).fragments

/-- A call that is answered is one of these. -/
theorem of_call {P : LendingCall → Lending → Prop} {c : LendingCall} {t : Lending}
    (hcall : s.call sha256 c = some t) (henqueue : ∀ frame, P (.enqueue frame) (s.enqueue sha256 frame))
    (hnext : P .nextFragment s.nextFragment) (hkeep : ∀ lease ∈ s.lent, P (.keep lease) (s.keep lease))
    (hrequeue : ∀ lease ∈ s.lent, P (.requeue lease) (s.requeue lease))
    (hclose : ∀ lane streamId, P (.closeStream lane streamId) (s.closeStream lane streamId))
    (hwritable : ∀ lane b, P (.setLaneWritable lane b) (s.setLaneWritable lane b)) : P c t := by
  cases c with
  | keep lease =>
    obtain ⟨hmem, rfl⟩ := Option.ite_some_none_eq_some.1 hcall
    exact hkeep lease hmem
  | requeue lease =>
    obtain ⟨hmem, rfl⟩ := Option.ite_some_none_eq_some.1 hcall
    exact hrequeue lease hmem
  | _ =>
    cases hcall
    apply_assumption

/-- Two states that differ in the queue of one stream. -/
structure Touches (s t : Lending) (lane : RemoteLane) (streamId : UInt64) : Prop where
  limits : t.scheduler.limits = s.scheduler.limits
  lanes : ∀ other ≠ lane, t.scheduler.lanes other = s.scheduler.lanes other
  streams : ∀ other ≠ streamId, ((t.scheduler.lanes lane).stream other).fragments =
    ((s.scheduler.lanes lane).stream other).fragments
  origins : ∀ other otherId, (other, otherId) ≠ (lane, streamId) →
    t.origins other otherId = s.origins other otherId

theorem Touches.queue {t : Lending}
    (h : Touches s t lane streamId) (hne : (other, otherId) ≠ (lane, streamId)) :
    t.queue other otherId = s.queue other otherId := by
  unfold Lending.queue
  by_cases hlane : other = lane
  · subst hlane
    exact h.streams otherId fun heq => hne (by rw [heq])
  · rw [h.lanes other hlane]

/-- `enqueue` takes the frame or changes nothing. -/
theorem enqueue_cases (sha256 : Bytes → Block 32) (s : Lending) (frame : RemoteTransportFrameV1) :
    (∃ scheduler, s.scheduler.enqueue sha256 frame = (.enqueued, scheduler) ∧
      s.enqueue sha256 frame =
        { s with
          scheduler
          accepted := s.accepted ++ [frame]
          origins := s.setOrigins frame.lane frame.streamId (s.origins frame.lane frame.streamId ++
              List.replicate frame.pieceCount s.accepted.length) }) ∨
    s.enqueue sha256 frame = s := by
  unfold enqueue
  obtain ⟨scheduler, hok⟩ | ⟨error, hrefused⟩ := s.scheduler.enqueue_cases sha256 frame
  · rw [hok]
    exact .inl ⟨scheduler, rfl, rfl⟩
  · rw [hrefused]
    right
    cases frame.lane <;> rfl

/-- `next_fragment` serves a stream, whose first fragment goes on loan, or finds every lane idle. -/
theorem nextFragment_cases (h : ∀ lane, (s.scheduler.lanes lane).Ordered) :
    (∃ scheduler, s.nextFragment = { s with scheduler } ∧ scheduler.lanes = s.scheduler.lanes ∧
      scheduler.limits = s.scheduler.limits) ∨
    ∃ request after scheduler, s.scheduler.nextFragment = (some request, scheduler) ∧
      scheduler.lanes = update s.scheduler.lanes request.lane after ∧
      scheduler.limits = s.scheduler.limits ∧
      (s.scheduler.lanes request.lane).Serves request after ∧
      s.nextFragment =
        { s with
          scheduler
          lent := ⟨request, (s.origins request.lane request.streamId).headD 0⟩ :: s.lent
          origins := s.setOrigins request.lane request.streamId
            (s.origins request.lane request.streamId).tail } := by
  unfold nextFragment
  obtain ⟨t, hnext, hlanes, hlimits, -⟩ | ⟨request, after, t, hnext, hlanes, hlimits, hserves⟩ :=
    RemoteLaneScheduler.nextFragment_cases h
  · rw [hnext]
    exact .inl ⟨t, rfl, hlanes, hlimits⟩
  · rw [hnext]
    exact .inr ⟨request, after, t, rfl, hlanes, hlimits, hserves, rfl⟩

section Touches

variable {s : Lending} {scheduler : RemoteLaneScheduler}

theorem touches_enqueue {frame : RemoteTransportFrameV1}
    (hok : s.scheduler.enqueue sha256 frame = (.enqueued, scheduler))
    (accepted : List RemoteTransportFrameV1) (origins : List Nat) :
    Touches s
      { s with scheduler, accepted, origins := s.setOrigins frame.lane frame.streamId origins }
      frame.lane frame.streamId := by
  obtain ⟨-, -, rfl⟩ := enqueue_eq_enqueued hok
  refine ⟨rfl, fun other hne => ?_, fun other hne => ?_, fun other otherId hne => ?_⟩
  · exact lanes_setLane_of_ne _ hne _
  · dsimp only
    rw [lanes_setLane_self, LaneQueue.stream_push, if_neg hne]
  · exact s.setOrigins_of_ne hne _

theorem touches_serves {request : RemoteSendRequest} {after : LaneQueue}
    (hlanes : scheduler.lanes = update s.scheduler.lanes request.lane after)
    (hlimits : scheduler.limits = s.scheduler.limits)
    (hserves : (s.scheduler.lanes request.lane).Serves request after) (lent : List Lease)
    (origins : List Nat) :
    Touches s
      { s with scheduler, lent, origins := s.setOrigins request.lane request.streamId origins }
      request.lane request.streamId := by
  refine ⟨hlimits, fun other hne => ?_, fun other hne => ?_, fun other otherId hne => ?_⟩
  · dsimp only
    rw [hlanes, update_of_ne hne]
  · dsimp only
    rw [hlanes, update_self, hserves.stream.2 other hne]
  · exact s.setOrigins_of_ne hne _

theorem touches_requeue (s : Lending) (lease : Lease) :
    Touches s (s.requeue lease) lease.request.lane lease.request.streamId := by
  refine ⟨rfl, fun other hne => ?_, fun other hne => ?_, fun other otherId hne => ?_⟩
  · exact lanes_setLane_of_ne _ hne _
  · rw [requeue, RemoteLaneScheduler.requeue, lanes_setLane_self,
      LaneQueue.stream_restored, if_neg hne]
  · exact s.setOrigins_of_ne hne _

theorem touches_closeStream (s : Lending) (lane : RemoteLane) (streamId : UInt64) :
    Touches s (s.closeStream lane streamId) lane streamId := by
  refine ⟨rfl, fun other hne => ?_, fun other hne => ?_, fun other otherId hne => ?_⟩
  · exact lanes_setLane_of_ne _ hne _
  · rw [closeStream, RemoteLaneScheduler.closeStream, lanes_setLane_self,
      LaneQueue.stream_without, if_neg hne]
  · exact s.setOrigins_of_ne hne _

end Touches

/-! ## Every fragment stems from its frame -/

variable (sha256) in
/-- The fragment is a piece of the frame at a position, and that frame is on the stream. -/
def Stems (accepted : List RemoteTransportFrameV1) (lane : RemoteLane) (streamId : UInt64)
    (x : QueuedFragment) (n : Nat) : Prop :=
  ∃ f, accepted[n]? = some f ∧ f.lane = lane ∧ f.streamId = streamId ∧
    x ∈ f.pieces.map (Piece.queued sha256)

variable (sha256) in
/-- The lanes are consistent, and the origins on record are true. -/
structure Sound (s : Lending) : Prop where
  consistent : ∀ lane, (s.scheduler.lanes lane).Consistent
  queued : ∀ lane streamId,
    List.Forall₂ (Stems sha256 s.accepted lane streamId) (s.queue lane streamId)
      (s.origins lane streamId)
  lent : ∀ lease ∈ s.lent, Stems sha256 s.accepted lease.request.lane lease.request.streamId
    ⟨lease.request.fragment, lease.request.accountedBytes⟩ lease.frame

theorem Stems.append (h : Stems sha256 accepted lane streamId x n)
    (more : List RemoteTransportFrameV1) : Stems sha256 (accepted ++ more) lane streamId x n := by
  obtain ⟨f, hf, hrest⟩ := h
  refine ⟨f, ?_, hrest⟩
  rw [List.getElem?_append_left (List.getElem?_eq_some_iff.1 hf).1, hf]

theorem sound_new (limits : RemoteQueueLimits) : Sound sha256 (new limits) where
  consistent _ := LaneQueue.consistent_fresh
  queued _ _ := .nil
  lent := by simp [new]

section Sound

variable {s t : Lending} (h : Sound sha256 s)
include h

/-- A call keeps the invariant if it keeps it at the stream it touches. -/
theorem Sound.of_touches {lane : RemoteLane} {streamId : UInt64} {more : List RemoteTransportFrameV1}
    (htouches : Touches s t lane streamId) (haccepted : t.accepted = s.accepted ++ more)
    (hconsistent : (t.scheduler.lanes lane).Consistent)
    (hqueued : List.Forall₂ (Stems sha256 t.accepted lane streamId) (t.queue lane streamId)
      (t.origins lane streamId))
    (hlent : ∀ lease ∈ t.lent, Stems sha256 t.accepted lease.request.lane lease.request.streamId
      ⟨lease.request.fragment, lease.request.accountedBytes⟩ lease.frame) : Sound sha256 t where
  consistent other := by
    by_cases hother : other = lane
    · subst hother
      exact hconsistent
    · rw [htouches.lanes other hother]
      exact h.consistent other
  queued other otherId := by
    by_cases hsame : (other, otherId) = (lane, streamId)
    · obtain ⟨rfl, rfl⟩ := Prod.mk.inj hsame
      exact hqueued
    · rw [htouches.queue hsame, htouches.origins other otherId hsame, haccepted]
      exact (h.queued other otherId).imp fun x n hx => hx.append more
  lent := hlent

theorem Sound.enqueue (frame : RemoteTransportFrameV1) : Sound sha256 (s.enqueue sha256 frame) := by
  obtain ⟨scheduler, hok, heq⟩ | heq := s.enqueue_cases sha256 frame
  · rw [heq]
    refine h.of_touches (touches_enqueue hok _ _) rfl ?_ ?_
      fun lease hmem => (h.lent lease hmem).append [frame]
    · obtain ⟨-, -, rfl⟩ := enqueue_eq_enqueued hok
      have hne : frame.pieces.map (Piece.queued sha256) ≠ [] := by simpa using frame.pieces_ne_nil
      rw [lanes_setLane_self]
      exact (h.consistent frame.lane).push frame.streamId hne (charges_pieces sha256 frame)
    · obtain ⟨-, -, rfl⟩ := enqueue_eq_enqueued hok
      have hnew : ∀ x ∈ frame.pieces.map (Piece.queued sha256),
          Stems sha256 (s.accepted ++ [frame]) frame.lane frame.streamId x s.accepted.length :=
        fun x hx => ⟨frame, by simp, rfl, rfl, hx⟩
      have hlength : frame.pieceCount = (frame.pieces.map (Piece.queued sha256)).length := by
        simp [pieces]
      rw [Lending.queue, lanes_setLane_self, LaneQueue.stream_push, if_pos rfl]
      dsimp only
      rw [setOrigins_self, hlength]
      refine rel_append ((h.queued frame.lane frame.streamId).imp
        fun x n hx => hx.append [frame]) ?_
      generalize frame.pieces.map (Piece.queued sha256) = fragments at hnew
      induction fragments with
      | nil => exact .nil
      | cons x fragments ih =>
        rw [forall_mem_cons] at hnew
        exact .cons hnew.1 (ih hnew.2)
  · rw [heq]
    exact h

theorem Sound.nextFragment : Sound sha256 s.nextFragment := by
  obtain ⟨scheduler, heq, hlanes, -⟩ | ⟨request, after, scheduler, -, hlanes, hlimits, hserves, heq⟩ :=
    nextFragment_cases fun lane => (h.consistent lane).toOrdered
  · rw [heq]
    refine ⟨?_, ?_, h.lent⟩
    · dsimp only
      rw [hlanes]
      exact h.consistent
    · unfold Lending.queue
      dsimp only
      rw [hlanes]
      exact h.queued
  · have hstems := h.queued request.lane request.streamId
    rw [Lending.queue, hserves.stream.1] at hstems
    generalize horigins : s.origins request.lane request.streamId = origins at hstems
    obtain _ | ⟨hhead, hrest⟩ := hstems
    rw [heq]
    refine h.of_touches (touches_serves hlanes hlimits hserves _ _) (append_nil _).symm ?_ ?_ ?_
    · dsimp only
      rw [hlanes, update_self]
      exact hserves.consistent (h.consistent request.lane)
    · rw [Lending.queue]
      dsimp only
      rw [hlanes, update_self, setOrigins_self, horigins]
      exact hrest
    · rw [horigins]
      intro lease hmem
      obtain rfl | hmem := mem_cons.1 hmem
      · exact hhead
      · exact h.lent lease hmem

theorem Sound.keep (lease : Lease) : Sound sha256 (s.keep lease) :=
  ⟨h.consistent, h.queued, fun other hmem => h.lent other (mem_of_mem_erase hmem)⟩

theorem Sound.requeue {lease : Lease} (hmem : lease ∈ s.lent) : Sound sha256 (s.requeue lease) := by
  refine h.of_touches (s.touches_requeue lease) (append_nil _).symm ?_ ?_
    fun other hother => h.lent other (mem_of_mem_erase hother)
  · rw [Lending.requeue, RemoteLaneScheduler.requeue, lanes_setLane_self]
    exact (h.consistent _).restored lease.request
  · rw [Lending.queue, Lending.requeue, RemoteLaneScheduler.requeue,
      lanes_setLane_self, LaneQueue.stream_restored, if_pos rfl]
    dsimp only
    rw [setOrigins_self]
    exact .cons (h.lent lease hmem) (h.queued _ _)

theorem Sound.closeStream (lane : RemoteLane) (streamId : UInt64) :
    Sound sha256 (s.closeStream lane streamId) := by
  refine h.of_touches (s.touches_closeStream lane streamId) (append_nil _).symm ?_ ?_ h.lent
  · rw [Lending.closeStream, RemoteLaneScheduler.closeStream, lanes_setLane_self]
    exact (h.consistent lane).without streamId
  · rw [Lending.queue, Lending.closeStream, RemoteLaneScheduler.closeStream,
      lanes_setLane_self, LaneQueue.stream_without, if_pos rfl]
    dsimp only
    rw [setOrigins_self]
    exact .nil

theorem Sound.setLaneWritable (lane : RemoteLane) (writable : Bool) :
    Sound sha256 (s.setLaneWritable lane writable) := by
  have hlane : ∀ other, ∃ w, (s.setLaneWritable lane writable).scheduler.lanes other =
      { s.scheduler.lanes other with writable := w } := by
    intro other
    by_cases hother : other = lane
    · subst hother
      exact ⟨writable, lanes_setLane_self _ _ _⟩
    · exact ⟨_, lanes_setLane_of_ne _ hother _⟩
  refine ⟨fun other => ?_, fun other otherId => ?_, h.lent⟩
  · obtain ⟨w, hw⟩ := hlane other
    obtain ⟨⟨hnodup, hready⟩, hframes, hbytes⟩ := h.consistent other
    rw [hw]
    exact ⟨⟨hnodup, hready⟩, hframes, hbytes⟩
  · obtain ⟨w, hw⟩ := hlane other
    rw [Lending.queue, hw]
    exact h.queued other otherId

theorem Sound.call {c : LendingCall} (hcall : s.call sha256 c = some t) : Sound sha256 t :=
  of_call (P := fun _ t => Sound sha256 t) hcall h.enqueue h.nextFragment (fun lease _ => h.keep lease)
    (fun _ hmem => h.requeue hmem) h.closeStream h.setLaneWritable

end Sound

theorem reachable_sound {limits : RemoteQueueLimits}
    (h : (system sha256 limits).Reachable s) : Sound sha256 s := by
  refine h.invariant (fun s h0 => ?_) fun s c t hs hstep => hs.call hstep
  subst h0
  exact sound_new limits

/-! ## The representation of the lanes -/

/-- A fragment is no longer than the quantum of its stream. -/
theorem Stems.length_le
    (h : Stems sha256 accepted lane streamId x n) : x.fragment.bytes.length ≤ drrQuantumBytes := by
  obtain ⟨f, -, -, -, hmem⟩ := h
  obtain ⟨p, -, rfl⟩ := mem_map.1 hmem
  exact length_take_le _ _

theorem Sound.length_le (h : Sound sha256 s) (hmem : x ∈ s.queue lane streamId) :
    x.fragment.bytes.length ≤ drrQuantumBytes := by
  obtain ⟨hlength, hstems⟩ := forall₂_iff_get.1 (h.queued lane streamId)
  obtain ⟨i, hi, rfl⟩ := mem_iff_getElem.1 hmem
  exact (hstems i hi (hlength ▸ hi)).length_le

/-- In every reachable state the round-robin order of a lane lists the streams with queued
fragments, each once; the counters are the number and the sum of the queued charges; no subtraction
from a counter or a deficit is cut off at zero; and nothing is offered exactly when every lane is
blocked or empty. -/
theorem lanes_represent_queues (limits : RemoteQueueLimits) {s : Lending}
    (h : (system sha256 limits).Reachable s) :
    (∀ lane, (s.scheduler.lanes lane).order.Nodup ∧
      (∀ streamId, streamId ∈ (s.scheduler.lanes lane).order ↔ s.queue lane streamId ≠ []) ∧
      (s.scheduler.lanes lane).frames = (s.scheduler.lanes lane).charged List.length ∧
      (s.scheduler.lanes lane).bytes = (s.scheduler.lanes lane).charged List.sum ∧
      (∀ streamId, (s.scheduler.lanes lane).CoversAll (s.queue lane streamId)) ∧
      (∀ streamId, ∀ x ∈ s.queue lane streamId, x.fragment.bytes.length ≤
        ((s.scheduler.lanes lane).stream streamId).deficit + drrQuantumBytes)) ∧
    (s.scheduler.nextFragment.1 = none ↔ ∀ lane, (s.scheduler.lanes lane).writable = false ∨
        ∀ streamId, s.queue lane streamId = []) := by
  have hsound := reachable_sound h
  refine ⟨fun lane => ?_, ?_⟩
  · have hlane := hsound.consistent lane
    refine ⟨hlane.nodup, hlane.ready, hlane.frames, hlane.bytes, hlane.coversAll, ?_⟩
    intro streamId x hmem
    exact (hsound.length_le hmem).trans (Nat.le_add_left _ _)
  · rw [RemoteLaneScheduler.nextFragment_eq_none_iff fun lane => (hsound.consistent lane).toOrdered]
    refine forall_congr' fun lane => or_congr Iff.rfl ?_
    have hready := (hsound.consistent lane).ready
    constructor
    · intro hempty streamId
      by_contra hne
      have hmem := (hready streamId).2 hne
      rw [hempty] at hmem
      cases hmem
    · intro hall
      rw [List.eq_nil_iff_forall_not_mem]
      exact fun streamId hmem => (hready streamId).1 hmem (hall streamId)

/-- A frame without payload. -/
def emptyFrame (lane : RemoteLane) (streamId : UInt64) : RemoteTransportFrameV1 where
  lane
  flags := .empty
  streamId
  streamSeq := 0
  frameId := ⟨.fill 16 1, isZero_fill_one⟩
  payload := []

def blankHash : Bytes → Block 32 := fun _ => .zero 32

/-- The loan of the one fragment of such a frame. -/
def emptyLease (streamId : UInt64) (frame : Nat) : Lease where
  request := ⟨.bulk, streamId, fragmentAt .bulk (emptyFrame .bulk streamId).frameId
    ((emptyFrame .bulk streamId).wire blankHash) 1 0, some 72⟩
  frame

/-- Frames of three streams were queued, and the first fragment was kept. -/
def firstKept : Lending :=
  (((new .standard).enqueue blankHash (emptyFrame .bulk 4)).enqueue blankHash (emptyFrame .bulk 6)
    |>.enqueue blankHash (emptyFrame .bulk 2)).nextFragment.keep (emptyLease 4 0)

/-- The second fragment came back, went out again and was kept, and the third is on loan. -/
def loan : Lending :=
  ((firstKept.nextFragment.requeue (emptyLease 6 1)).nextFragment.keep (emptyLease 6 1)).nextFragment

theorem reachableBy_loan {Ok : Lending → LendingCall → Prop} (henqueue : ∀ s f, Ok s (.enqueue f))
    (hanswer : ∀ s lease, Ok s (.keep lease) ∧ Ok s (.requeue lease))
    (hask : ∀ s : Lending, s.lent = [] → Ok s .nextFragment) :
    (system blankHash .standard).ReachableBy Ok loan := by
  have hfirst : (system blankHash .standard).ReachableBy Ok firstKept := by
    refine .step (a := .keep _) (.step (a := .nextFragment) ?_ (hask _ rfl) rfl) (hanswer ..).1
      (if_pos (by decide +kernel))
    refine .step (a := .enqueue _) ?_ (henqueue ..) rfl
    exact .step (a := .enqueue _) (.step (a := .enqueue _) (.init rfl) (henqueue ..) rfl) (henqueue ..) rfl
  refine .step (a := .nextFragment) ?_ (hask _ (by decide +kernel)) rfl
  refine .step (a := .keep _) (.step (a := .nextFragment) ?_ (hask _ (by decide +kernel)) rfl)
    (hanswer ..).1 (if_pos (by decide +kernel))
  exact .step (a := .requeue _) (.step (a := .nextFragment) hfirst (hask _ (by decide +kernel)) rfl)
    (hanswer ..).2 (if_pos (by decide +kernel))

theorem reachable_loan : (system blankHash .standard).Reachable loan :=
  reachableBy_loan (fun _ _ => trivial) (fun _ _ => ⟨trivial, trivial⟩) fun _ _ => trivial

theorem lanes_represent_queues_loan : loan.scheduler.nextFragment.1 = none ↔
      ∀ lane, (loan.scheduler.lanes lane).writable = false ∨
        ∀ streamId, loan.queue lane streamId = [] :=
  (lanes_represent_queues .standard reachable_loan).2

end Lending

end FlyCockpit.Transport
