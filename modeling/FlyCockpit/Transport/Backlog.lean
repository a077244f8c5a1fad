-- SUMMARY: The round-robin order of a lane lists its ready streams, and what an enqueued frame adds to them.
import Mathlib.Algebra.Order.BigOperators.Group.Finset
import Mathlib.Data.List.Iterate
import FlyCockpit.Lib.Fallible
import FlyCockpit.Transport.Scheduler

/-!
# The backlog of a scheduler

In a well-formed lane the round-robin order lists exactly the streams that have queued fragments.
A frame that is enqueued adds its pieces to its stream.
-/

namespace FlyCockpit.Transport

namespace LaneQueue

/-- The round-robin order lists the streams that have queued fragments, each once. -/
structure Ordered (q : LaneQueue) : Prop where
  nodup : q.order.Nodup
  ready : ∀ streamId, streamId ∈ q.order ↔ (q.stream streamId).fragments ≠ []

theorem ordered_fresh : Ordered .fresh where
  nodup := List.nodup_nil
  ready streamId := by simp [fresh, stream, StreamQueue.fresh]

@[simp] theorem stream_push (q : LaneQueue) (streamId other : UInt64)
    (fragments : List QueuedFragment) (size : Nat) :
    ((q.push streamId fragments size).stream other).fragments =
      if other = streamId then (q.stream streamId).fragments ++ fragments
      else (q.stream other).fragments := by
  unfold push stream
  dsimp only
  rw [Table.lookup_insert_eq]
  split <;> rfl

theorem Ordered.push {q : LaneQueue} (h : q.Ordered) (streamId : UInt64)
    {fragments : List QueuedFragment} (hne : fragments ≠ []) (size : Nat) :
    (q.push streamId fragments size).Ordered where
  nodup := by
    unfold LaneQueue.push
    dsimp only
    split
    next hempty =>
      have hnotin : streamId ∉ q.order := by
        rw [h.ready, not_not]
        exact List.isEmpty_iff.1 hempty
      simpa using h.nodup.concat hnotin
    next => exact h.nodup
  ready other := by
    rw [stream_push]
    unfold LaneQueue.push
    dsimp only
    have hready := h.ready streamId
    by_cases hother : other = streamId
    · subst hother
      rw [if_pos rfl]
      cases hq : (q.stream other).fragments with
      | nil => simpa [hq] using hne
      | cons x xs => simp_all
    · rw [if_neg hother, ← h.ready other]
      split <;> simp [hother]

@[simp] theorem settle_order (q : LaneQueue) (a : Option Nat) : (q.settle a).order = q.order := by
  cases a <;> rfl

@[simp] theorem settle_stream (q : LaneQueue) (a : Option Nat) : (q.settle a).stream = q.stream := by
  cases a <;> rfl

theorem Ordered.settle {q : LaneQueue} (h : q.Ordered) (a : Option Nat) : (q.settle a).Ordered where
  nodup := by simpa using h.nodup
  ready := by simpa using h.ready

theorem stream_served (q : LaneQueue) (streamId other : UInt64) (order : List UInt64)
    (fragments : List QueuedFragment) (deficit : Nat) :
    ((q.served streamId order fragments deficit).stream other).fragments =
      if other = streamId then fragments else (q.stream other).fragments := by
  unfold served stream
  cases fragments with
  | nil =>
    dsimp only [List.isEmpty_nil, if_true]
    rw [if_pos rfl, Table.lookup_erase_eq]
    split <;> rfl
  | cons x xs =>
    rw [if_neg (by simp)]
    dsimp only
    rw [Table.lookup_insert_eq]
    split <;> rfl

section Served

variable {q : LaneQueue} {streamId : UInt64} {order : List UInt64}

theorem order_served (fragments : List QueuedFragment) (deficit : Nat) :
    (q.served streamId order fragments deficit).order =
      order ++ if fragments.isEmpty then [] else [streamId] := by
  unfold served
  split <;> simp

theorem Ordered.served (h : q.Ordered) (horder : q.order = streamId :: order)
    (fragments : List QueuedFragment) (deficit : Nat) :
    (q.served streamId order fragments deficit).Ordered := by
  have hnodup := h.nodup
  rw [horder, List.nodup_cons] at hnodup
  refine ⟨?_, fun other => ?_⟩
  · rw [order_served]
    split
    · simpa using hnodup.2
    · simpa using hnodup.2.concat hnodup.1
  · rw [order_served, stream_served]
    have hready := h.ready other
    rw [horder] at hready
    by_cases hother : other = streamId
    · subst hother
      cases fragments <;> simp [hnodup.1]
    · rw [if_neg hother, ← hready]
      cases fragments <;> simp [hother]

end Served

end LaneQueue

namespace RemoteLaneScheduler

variable {s : RemoteLaneScheduler}

/-- The stream whose turn it is has a fragment. -/
theorem head_of_ordered {lane : RemoteLane} {streamId : UInt64}
    {order : List UInt64} (h : (s.lanes lane).Ordered)
    (horder : (s.lanes lane).order = streamId :: order) :
    ∃ stream x fragments, (s.lanes lane).streams.lookup streamId = some stream ∧
      stream.fragments = x :: fragments := by
  have hready := (h.ready streamId).1 (by simp [horder])
  cases hlookup : (s.lanes lane).streams.lookup streamId with
  | none => simp [LaneQueue.stream, hlookup, StreamQueue.fresh] at hready
  | some stream =>
    cases hfragments : stream.fragments with
    | nil => simp [LaneQueue.stream, hlookup, hfragments] at hready
    | cons x fragments => exact ⟨stream, x, fragments, rfl, hfragments⟩

/-! ## Draining -/

theorem laneSchedule_covers (c : Fin 8) (lane : RemoteLane) :
    ∃ slot ∈ List.iterate nextSlot c 8, laneSchedule slot = lane := by
  revert c lane
  decide

end RemoteLaneScheduler

/-! ## Frames in pieces -/

open RemoteTransportFrameV1

/-- One fragment of a frame, by position. -/
structure Piece where
  frame : RemoteTransportFrameV1
  index : Nat
  deriving DecidableEq

namespace RemoteTransportFrameV1

def pieceCount (f : RemoteTransportFrameV1) : Nat := fragmentCountOf f.serializedLen

def pieces (f : RemoteTransportFrameV1) : List Piece := (List.range f.pieceCount).map (Piece.mk f)

theorem pieceCount_pos (f : RemoteTransportFrameV1) : 0 < f.pieceCount := fragmentCountOf_pos _

theorem head?_pieces (f : RemoteTransportFrameV1) : f.pieces.head? = some ⟨f, 0⟩ := by
  rw [pieces, List.head?_map, List.head?_range, if_neg f.pieceCount_pos.ne', Option.map_some]

theorem pieces_ne_nil (f : RemoteTransportFrameV1) : f.pieces ≠ [] := by
  intro hnil
  have hhead := f.head?_pieces
  rw [hnil] at hhead
  cases hhead

end RemoteTransportFrameV1

namespace Piece

def isLast (p : Piece) : Bool := p.index + 1 = p.frame.pieceCount

variable (sha256 : Bytes → Block 32)

def fragment (p : Piece) : RemoteCarrierFragmentV1 :=
  fragmentAt p.frame.lane p.frame.frameId (p.frame.wire sha256) p.frame.pieceCount p.index

/-- The piece as the scheduler queues it. -/
def queued (p : Piece) : QueuedFragment :=
  ⟨p.fragment sha256, if p.isLast then some p.frame.serializedLen else none⟩

end Piece

/-- The pieces of a stream. -/
def streamPieces (lane : RemoteLane) (streamId : UInt64) (frames : List RemoteTransportFrameV1) :
    List Piece :=
  (frames.filter (onStream lane streamId)).flatMap pieces

/-! ## Loading a scheduler -/

namespace RemoteLaneScheduler

variable {sha256 : Bytes → Block 32} {f : RemoteTransportFrameV1} {s : RemoteLaneScheduler}

theorem streamPieces_concat (lane : RemoteLane) (streamId : UInt64)
    (frames : List RemoteTransportFrameV1) (f : RemoteTransportFrameV1) :
    streamPieces lane streamId (frames ++ [f]) =
      streamPieces lane streamId frames ++ if onStream lane streamId f then f.pieces else [] := by
  rw [streamPieces, List.filter_append, List.flatMap_append, List.filter_singleton, streamPieces]
  cases onStream lane streamId f <;> simp

/-- The fragments `enqueue` queues are the pieces of the frame. -/
theorem queuedFragments_eq (f : RemoteTransportFrameV1) :
    queuedFragments ((List.range f.pieceCount).map
      (fragmentAt f.lane f.frameId (f.wire sha256) f.pieceCount)) f.serializedLen =
      f.pieces.map (Piece.queued sha256) := by
  have hpos := f.pieceCount_pos
  unfold queuedFragments
  refine List.ext_getElem (by simp [pieces]) fun i hi _ => ?_
  have hlast : (i = f.pieceCount - 1) = (i + 1 = f.pieceCount) := by
    rw [eq_iff_iff]
    omega
  simp [pieces, Piece.queued, Piece.isLast, Piece.fragment, hlast]

theorem fragmentsOf_eq_ok {fragments : List RemoteCarrierFragmentV1}
    (h : fragmentsOf sha256 f = .ok fragments) :
    f.payload.length ≤ f.lane.maxPayloadBytes ∧ fragments = (List.range f.pieceCount).map
        (fragmentAt f.lane f.frameId (f.wire sha256) f.pieceCount) := by
  obtain ⟨serialized, hencode, hfragments⟩ := Fallible.result_bind_eq_ok.1 h
  obtain ⟨hcap, rfl⟩ := (encode_eq_ok sha256).1 hencode
  unfold fragmentFrame at hfragments
  dsimp only at hfragments
  split_ifs at hfragments
  cases hfragments
  rw [wire_length]
  exact ⟨hcap, rfl⟩

theorem forLane_ne_enqueued (e : RemoteTransportError) (lane : RemoteLane) :
    RemoteQueueOutcome.forLane e lane ≠ .enqueued := by
  intro h
  cases lane <;> cases h

theorem frames_le_of_checkLimits {lane : RemoteLane} {size : Nat}
    (h : s.checkLimits lane size = .ok ()) : (s.lanes lane).frames + 1 ≤ s.limits.framesFor lane := by
  unfold checkLimits at h
  split_ifs at h with hframes
  exact Nat.le_of_not_lt hframes

/-- What a successful `enqueue` did. -/
theorem enqueue_eq_enqueued {t : RemoteLaneScheduler} (h : s.enqueue sha256 f = (.enqueued, t)) :
    f.payload.length ≤ f.lane.maxPayloadBytes ∧
      (s.lanes f.lane).frames + 1 ≤ s.limits.framesFor f.lane ∧
      t = s.setLane f.lane ((s.lanes f.lane).push f.streamId (f.pieces.map (Piece.queued sha256))
        f.serializedLen) := by
  unfold enqueue at h
  dsimp only at h
  cases hlimits : s.checkLimits f.lane f.serializedLen with
  | error e =>
    rw [hlimits] at h
    exact absurd (Prod.mk.inj h).1 (forLane_ne_enqueued e f.lane)
  | ok u =>
    rw [hlimits] at h
    cases hfragments : fragmentsOf sha256 f with
    | error e =>
      rw [hfragments] at h
      exact absurd (Prod.mk.inj h).1 (forLane_ne_enqueued e f.lane)
    | ok fragments =>
      rw [hfragments] at h
      obtain ⟨hcap, rfl⟩ := fragmentsOf_eq_ok hfragments
      rw [← queuedFragments_eq]
      exact ⟨hcap, frames_le_of_checkLimits hlimits, (Prod.mk.inj h).2.symm⟩

theorem fragmentsOf_of_cap (sha256 : Bytes → Block 32)
    (hcap : f.payload.length ≤ f.lane.maxPayloadBytes) :
    ∃ fragments, fragmentsOf sha256 f = .ok fragments := by
  have hmax := f.lane.maxPayloadBytes_le
  have hlen : f.serializedLen ≤ maxSerializedFrameBytes := by
    unfold serializedLen maxSerializedFrameBytes maxLogicalPayloadBytes
    omega
  have hcount := fragmentCountOf_le hlen
  have hencode : f.encode sha256 = .ok (f.wire sha256) := (encode_eq_ok sha256).2 ⟨hcap, rfl⟩
  have hsplit : fragmentFrame f.lane f.frameId (f.wire sha256) = .ok ((List.range f.pieceCount).map
        (fragmentAt f.lane f.frameId (f.wire sha256) f.pieceCount)) := by
    have hheader : remoteTransportFrameHeaderBytes ≤ f.serializedLen := Nat.le_add_right _ _
    rw [fragmentFrame, wire_length, if_neg (Nat.not_lt.2 hheader), if_neg (Nat.not_lt.2 hlen), if_neg (Nat.not_lt.2 (hcount.trans (by decide)))]
    rfl
  exact ⟨_, Fallible.result_bind_eq_ok.2 ⟨_, hencode, hsplit⟩⟩

theorem checkLimits_of_le {lane : RemoteLane} {size : Nat}
    (hframes : (s.lanes lane).frames + 1 ≤ s.limits.framesFor lane)
    (hbytes : (s.lanes lane).bytes + size ≤ s.limits.bytesFor lane)
    (hshared : s.sharedUsage + s.fromShared lane size ≤ s.limits.sharedPoolBytes) :
    s.checkLimits lane size = .ok () := by
  rw [checkLimits, if_neg (Nat.not_lt.2 hframes), if_neg (Nat.not_lt.2 hbytes),
    if_neg (Nat.not_lt.2 hshared)]

end RemoteLaneScheduler

end FlyCockpit.Transport
