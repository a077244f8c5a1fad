-- SUMMARY: In every run of a reassembler each stream is dispatched once, in order, and not after its end.
import FlyCockpit.Transport.Reassembler

/-!
# Dispatch

The frames a reassembler hands out are exactly the sequence numbers its stream tables accepted. A
run is any list of calls with any clock readings, so partials may expire, the completion memory may
forget, and fragments may be forged or replayed.
-/

namespace FlyCockpit.Transport

open List

/-! ## What a stream may see -/

namespace RemoteTransportFrameV1

/-- What a dispatched frame does to its stream. -/
def events (f : RemoteTransportFrameV1) : List StreamEvent :=
  .frame f.lane f.streamId :: if f.flags.terminal then [.closed f.lane f.streamId] else []

end RemoteTransportFrameV1

open RemoteTransportFrameV1

/-- The stream log of a list of dispatched frames. -/
def streamLog (frames : List RemoteTransportFrameV1) : List StreamEvent := frames.flatMap events

/-- Exactly-once dispatch in order: on every stream the sequence numbers count up from zero,
nothing follows a terminal frame, and every frame is on a stream its origin may use. -/
structure InOrder (origin : RemoteStreamOrigin) (frames : List RemoteTransportFrameV1) : Prop where
  consecutive : ∀ lane streamId, (frames.filter (onStream lane streamId)).map (·.streamSeq.toNat) =
    List.range (frames.filter (onStream lane streamId)).length
  final : ∀ before f after, frames = before ++ f :: after → f.flags.terminal = true →
    ∀ g ∈ after, onStream f.lane f.streamId g = false
  owned : ∀ f ∈ frames, validateStreamId f.streamId origin f.lane = .ok ()

theorem count_events (f : RemoteTransportFrameV1) (lane : RemoteLane) (streamId : UInt64) :
    f.events.count (.frame lane streamId) = if onStream lane streamId f then 1 else 0 := by
  cases hterminal : f.flags.terminal <;> simp [events, onStream, hterminal, count_cons]

theorem count_streamLog (frames : List RemoteTransportFrameV1) (lane : RemoteLane)
    (streamId : UInt64) :
    (streamLog frames).count (.frame lane streamId) =
      (frames.filter (onStream lane streamId)).length := by
  induction frames with
  | nil => rfl
  | cons f frames ih =>
    rw [streamLog, flatMap_cons, count_append, ← streamLog, ih, count_events, filter_cons]
    split
    · rw [length_cons, Nat.add_comm]
    · rw [Nat.zero_add]

variable {frames : List RemoteTransportFrameV1}

theorem closed_mem_streamLog {lane : RemoteLane} {streamId : UInt64} :
    .closed lane streamId ∈ streamLog frames ↔
      ∃ f ∈ frames, f.flags.terminal = true ∧ f.lane = lane ∧ f.streamId = streamId := by
  have hevents : ∀ f : RemoteTransportFrameV1, .closed lane streamId ∈ f.events ↔
      f.flags.terminal = true ∧ f.lane = lane ∧ f.streamId = streamId := by
    intro f
    cases hterminal : f.flags.terminal <;> simp [events, hterminal, eq_comm]
  simp only [streamLog, mem_flatMap, hevents]

namespace InOrder

variable {origin : RemoteStreamOrigin} {frames : List RemoteTransportFrameV1}
  {f : RemoteTransportFrameV1}

theorem nil (origin : RemoteStreamOrigin) : InOrder origin [] where
  consecutive := by simp
  final := by simp
  owned := by simp

/-- The next frame of a stream that has not ended. -/
theorem snoc (h : InOrder origin frames)
    (hseq : f.streamSeq.toNat = (streamLog frames).count (.frame f.lane f.streamId))
    (hopen : .closed f.lane f.streamId ∉ streamLog frames)
    (howned : validateStreamId f.streamId origin f.lane = .ok ()) :
    InOrder origin (frames ++ [f]) where
  consecutive lane streamId := by
    rw [filter_append, map_append, h.consecutive, length_append, filter_singleton]
    cases hon : onStream lane streamId f with
    | false => simp
    | true =>
      obtain ⟨rfl, rfl⟩ := onStream_eq_true.1 hon
      rw [count_streamLog] at hseq
      simp [hseq, range_succ]
  final := by
    intro before g after hsplit hterminal k hk
    obtain rfl | ⟨after', last, rfl⟩ := eq_nil_or_concat' after
    · cases hk
    rw [← cons_append, ← append_assoc] at hsplit
    obtain ⟨hfront, hlast⟩ := append_inj' hsplit rfl
    obtain rfl : f = last := by simpa using hlast
    obtain hmem | hmem := mem_append.1 hk
    · exact h.final before g after' hfront hterminal k hmem
    · -- The new frame is on another stream than any terminal frame before it.
      obtain rfl : k = f := by simpa using hmem
      by_contra hon
      obtain ⟨hlane, hstream⟩ := onStream_eq_true.1 (Bool.of_not_eq_false hon)
      refine hopen (closed_mem_streamLog.2 ⟨g, ?_, hterminal, hlane.symm, hstream.symm⟩)
      rw [hfront]
      simp
  owned := by
    intro g hg
    obtain hmem | hmem := mem_append.1 hg
    · exact h.owned g hmem
    · obtain rfl : g = f := by simpa using hmem
      exact howned

end InOrder

/-- Taking a frame's sequence number, and closing its stream after a terminal frame, logs the
frame. -/
theorem RemoteStreamSequences.Tracks.dispatch {s t : RemoteStreamSequences}
    {f : RemoteTransportFrameV1} (h : s.Tracks (streamLog frames))
    (haccept : s.accept f.lane f.streamId f.streamSeq = .ok t) :
    RemoteStreamSequences.Tracks (if f.flags.terminal then t.close f.lane f.streamId else t)
      (streamLog (frames ++ [f])) := by
  have hlog : streamLog (frames ++ [f]) = streamLog frames ++ f.events := by simp [streamLog]
  have htracks := h.accept haccept
  rw [hlog, events]
  cases f.flags.terminal with
  | false => exact htracks
  | true => simpa using htracks.close f.lane f.streamId

/-! ## One call -/

/-- The calls a carrier makes on a reassembler, with the clock reading it passes. -/
inductive ReassemblerCall
  | accept (fragment : RemoteCarrierFragmentV1) (nowMs : Nat)
  | expire (nowMs : Nat)

namespace RemoteFragmentReassembler

/-- The dispatched frame of an outcome, and the state it leaves. -/
def outcome : EStateM.Result RemoteTransportError RemoteFragmentReassembler
    (Option RemoteTransportFrameV1) → Option RemoteTransportFrameV1 × RemoteFragmentReassembler
  | .ok out r => (out, r)
  | .error _ r => (none, r)

def call (rt : Runtime) (r : RemoteFragmentReassembler) :
    ReassemblerCall → Option RemoteTransportFrameV1 × RemoteFragmentReassembler
  | .accept fragment nowMs => outcome ((accept rt fragment nowMs).run r)
  | .expire nowMs => (none, (r.expire nowMs).2)

/-- The frames a list of calls dispatches, and the state after them. -/
def run (rt : Runtime) (r : RemoteFragmentReassembler) :
    List ReassemblerCall → List RemoteTransportFrameV1 × RemoteFragmentReassembler
  | [] => ([], r)
  | c :: calls =>
    let (out, r) := r.call rt c
    let (frames, r) := run rt r calls
    (out.toList ++ frames, r)

/-- What a call does to the stream tables: nothing unless it dispatches a frame, and then it takes
the frame's sequence number and closes the stream after a terminal frame. -/
def Dispatches (origin : RemoteStreamOrigin) (s : RemoteStreamSequences)
    (x : Option RemoteTransportFrameV1 × RemoteFragmentReassembler) : Prop :=
  x.2.peerOrigin = origin ∧
  match x.1 with
  | none => x.2.sequences = s
  | some f => validateStreamId f.streamId origin f.lane = .ok () ∧
    ∃ t, s.accept f.lane f.streamId f.streamSeq = .ok t ∧
      x.2.sequences = if f.flags.terminal then t.close f.lane f.streamId else t

section Dispatches

variable (rt : Runtime) (r : RemoteFragmentReassembler)

theorem dispatch_dispatches (key : Block 16) (header : Block 72) (nowMs : Nat)
    (frame : RemoteTransportFrameV1) :
    Dispatches r.peerOrigin r.sequences (outcome (dispatch rt r key header nowMs frame)) := by
  unfold dispatch
  cases hvalid : validateStreamId frame.streamId r.peerOrigin frame.lane with
  | error e => exact ⟨rfl, rfl⟩
  | ok u =>
    dsimp only
    cases haccept : r.sequences.accept frame.lane frame.streamId frame.streamSeq with
    | error e => exact ⟨rfl, rfl⟩
    | ok t => exact ⟨rfl, hvalid, t, haccept, rfl⟩

theorem finish_dispatches (key : Block 16) (lane : RemoteLane) (nowMs : Nat) (serialized : Bytes) :
    Dispatches r.peerOrigin r.sequences (outcome (finish rt r key lane nowMs serialized)) := by
  unfold finish
  cases RemoteTransportFrameV1.decode rt.sha256 serialized with
  | error e => exact ⟨rfl, rfl⟩
  | ok frame =>
    dsimp only
    split_ifs
    · exact ⟨rfl, rfl⟩
    · cases r.completed.lookup key with
      | some done =>
        dsimp only
        split_ifs
        · exact ⟨rfl, rfl⟩
        · exact ⟨rfl, rfl⟩
      | none => exact dispatch_dispatches rt r key _ nowMs frame

theorem store_dispatches (fragment : RemoteCarrierFragmentV1) (nowMs : Nat) (isNew : Bool)
    (p : PartialFrame) :
    Dispatches r.peerOrigin r.sequences (outcome (store rt r fragment nowMs isNew p)) := by
  have hundo : ∀ e, Dispatches r.peerOrigin r.sequences
      (outcome (.error e (r.undo isNew fragment.frameId.val))) := by
    intro e
    cases isNew <;> exact ⟨rfl, rfl⟩
  unfold store
  dsimp only
  split
  · exact hundo _
  · cases p.slots.getD fragment.fragmentIndex.toNat none with
    | some existing =>
      dsimp only
      split_ifs
      · exact ⟨rfl, rfl⟩
      · exact ⟨rfl, rfl⟩
    | none =>
      dsimp only
      split_ifs
      · exact hundo _
      · exact ⟨rfl, rfl⟩
      · exact finish_dispatches rt _ _ _ nowMs _
      · exact ⟨rfl, rfl⟩

theorem accept_dispatches (fragment : RemoteCarrierFragmentV1) (nowMs : Nat) :
    Dispatches r.peerOrigin r.sequences (outcome ((accept rt fragment nowMs).run r)) := by
  unfold accept EStateM.run
  cases fragment.validateShape with
  | error e => exact ⟨rfl, rfl⟩
  | ok u =>
    dsimp only
    cases (r.expire nowMs).2.partials.lookup fragment.frameId.val with
    | some p => exact store_dispatches rt (r.expire nowMs).2 fragment nowMs false p
    | none =>
      dsimp only
      split_ifs
      · exact ⟨rfl, rfl⟩
      · exact store_dispatches rt _ fragment nowMs true _

theorem call_dispatches (c : ReassemblerCall) :
    Dispatches r.peerOrigin r.sequences (r.call rt c) := by
  cases c with
  | accept fragment nowMs => exact accept_dispatches rt r fragment nowMs
  | expire nowMs => exact ⟨rfl, rfl⟩

end Dispatches

/-! ## Whole runs -/

/-- What the frames dispatched so far say about the state. -/
structure Consistent (origin : RemoteStreamOrigin) (r : RemoteFragmentReassembler)
    (frames : List RemoteTransportFrameV1) : Prop where
  peerOrigin : r.peerOrigin = origin
  tracks : r.sequences.Tracks (streamLog frames)
  inOrder : InOrder origin frames

variable {origin : RemoteStreamOrigin} {r : RemoteFragmentReassembler}
  {frames : List RemoteTransportFrameV1}

theorem Consistent.call (h : Consistent origin r frames) (rt : Runtime) (c : ReassemblerCall) :
    Consistent origin (r.call rt c).2 (frames ++ (r.call rt c).1.toList) := by
  have hcall := call_dispatches rt r c
  rw [h.peerOrigin] at hcall
  rcases hresult : r.call rt c with ⟨out, r'⟩
  rw [hresult] at hcall
  cases out with
  | none =>
    obtain ⟨horigin, hsequences⟩ := hcall
    rw [Option.toList_none, append_nil]
    exact ⟨horigin, hsequences ▸ h.tracks, h.inOrder⟩
  | some f =>
    obtain ⟨horigin, howned, t, haccept, hsequences⟩ := hcall
    obtain ⟨hseq, hopen⟩ := h.tracks.accepted haccept
    refine ⟨horigin, ?_, h.inOrder.snoc hseq hopen howned⟩
    dsimp only at hsequences
    rw [hsequences]
    exact h.tracks.dispatch haccept

theorem Consistent.run (h : Consistent origin r frames) (rt : Runtime)
    (calls : List ReassemblerCall) :
    Consistent origin (r.run rt calls).2 (frames ++ (r.run rt calls).1) := by
  induction calls generalizing r frames with
  | nil => simpa [RemoteFragmentReassembler.run] using h
  | cons c calls ih =>
    have hrest := ih (h.call rt c)
    rwa [append_assoc] at hrest

theorem consistent_new (origin : RemoteStreamOrigin) : Consistent origin (new origin) [] where
  peerOrigin := rfl
  tracks := RemoteStreamSequences.tracks_new origin maxActiveStreamsPerPeer
  inOrder := .nil origin

/-- However fragments are forged, replayed, reordered or delayed, every stream is dispatched in
order, each frame once, and not after its end. -/
theorem dispatch_inOrder (rt : Runtime) (origin : RemoteStreamOrigin) (calls : List ReassemblerCall) :
    InOrder origin ((new origin).run rt calls).1 :=
  ((consistent_new origin).run rt calls).inOrder

end RemoteFragmentReassembler

end FlyCockpit.Transport
