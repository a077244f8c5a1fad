-- SUMMARY: The per-peer reassembler: partial frames, completion memory, and the way out of it.
import Mathlib.Data.List.MinMax
import FlyCockpit.Transport.Fragment
import FlyCockpit.Transport.Streams

/-!
# Reassembly

The reassembler collects the fragments of incomplete frames and is the only way by which a frame
becomes dispatchable: a complete frame leaves it after its digest, its frame id, its stream id and
its sequence number passed their checks.
-/

namespace FlyCockpit.Transport

def maxIncompleteFramesPerPeer : Nat := 16
def maxReassemblyBytesPerPeer : Nat := 8388608
def reassemblyDeadlineMs : Nat := 5000
def maxCompletedFrameMemory : Nat := 64

/-- A frame some of whose fragments arrived. There is one slot for every fragment. -/
structure PartialFrame where
  lane : RemoteLane
  fragmentCount : UInt16
  slots : List (Option Bytes)
  bufferedBytes : Nat
  firstSeenMs : Nat
  sized : slots.length = fragmentCount.toNat

namespace PartialFrame

def new (lane : RemoteLane) (fragmentCount : UInt16) (nowMs : Nat) : PartialFrame where
  lane
  fragmentCount
  slots := List.replicate fragmentCount.toNat none
  bufferedBytes := 0
  firstSeenMs := nowMs
  sized := List.length_replicate

def fill (p : PartialFrame) (index : Nat) (bytes : Bytes) : PartialFrame :=
  { p with
    slots := p.slots.set index (some bytes)
    bufferedBytes := p.bufferedBytes + bytes.length
    sized := by rw [List.length_set, p.sized] }

/-- Every slot is filled. -/
def complete (p : PartialFrame) : Bool := p.slots.all Option.isSome

/-- The filled slots in order. -/
def serialized (p : PartialFrame) : Bytes := (p.slots.map fun slot => slot.getD []).flatten

end PartialFrame

/-- A frame that completed, kept for the retention window. -/
structure CompletedFrame where
  atMs : Nat
  header : Block 72
  deriving DecidableEq

/-- What the process provides: SHA-256, and the order in which it walks a hash map. -/
structure Runtime where
  sha256 : Bytes → Block 32
  walk : Table (Block 16) CompletedFrame → List (Block 16 × CompletedFrame)
  mem_walk : ∀ t id done, (id, done) ∈ walk t ↔ t.lookup id = some done

structure RemoteFragmentReassembler where
  peerOrigin : RemoteStreamOrigin
  sequences : RemoteStreamSequences
  partials : Table (Block 16) PartialFrame
  completed : Table (Block 16) CompletedFrame
  bufferedBytes : Nat
  maxFrames : Nat
  maxBytes : Nat
  deadlineMs : Nat

namespace RemoteFragmentReassembler

def new (peerOrigin : RemoteStreamOrigin) : RemoteFragmentReassembler where
  peerOrigin
  sequences := .new peerOrigin
  partials := ∅
  completed := ∅
  bufferedBytes := 0
  maxFrames := maxIncompleteFramesPerPeer
  maxBytes := maxReassemblyBytesPerPeer
  deadlineMs := reassemblyDeadlineMs

/-- A reading of the clock lies beyond the deadline of something first seen at `sinceMs`. -/
def expired (r : RemoteFragmentReassembler) (nowMs sinceMs : Nat) : Bool :=
  r.deadlineMs ≤ nowMs - sinceMs

/-- The state without what is older than the deadline. -/
def unexpired (r : RemoteFragmentReassembler) (nowMs : Nat) : RemoteFragmentReassembler :=
  let outdated := r.partials.retain fun _ p => r.expired nowMs p.firstSeenMs
  { r with
    partials := r.partials.retain fun _ p => !r.expired nowMs p.firstSeenMs
    bufferedBytes := r.bufferedBytes - outdated.total PartialFrame.bufferedBytes
    completed := r.completed.retain fun _ done => !r.expired nowMs done.atMs }

/-- Drop what is older than the deadline and tell how many partials that were. -/
def expire (r : RemoteFragmentReassembler) (nowMs : Nat) : Nat × RemoteFragmentReassembler :=
  (r.partials.size - (r.unexpired nowMs).partials.size, r.unexpired nowMs)

/-- Remember a completed frame; in a full memory the oldest entry makes way. -/
def remember (rt : Runtime) (completed : Table (Block 16) CompletedFrame) (key : Block 16)
    (done : CompletedFrame) : Table (Block 16) CompletedFrame :=
  let kept :=
    if maxCompletedFrameMemory ≤ completed.size then
      match (rt.walk completed).argmin fun e => e.2.atMs with
      | some oldest => completed.erase oldest.1
      | none => completed
    else completed
  kept.insert key done

/-- The rules a decoded frame has to pass on its way out. -/
def dispatch (rt : Runtime) (r : RemoteFragmentReassembler) (key : Block 16) (header : Block 72)
    (nowMs : Nat) (frame : RemoteTransportFrameV1) :
    EStateM.Result RemoteTransportError RemoteFragmentReassembler (Option RemoteTransportFrameV1) :=
  match validateStreamId frame.streamId r.peerOrigin frame.lane with
  | .error e => .error e r
  | .ok () => match r.sequences.accept frame.lane frame.streamId frame.streamSeq with
    | .error e => .error e r
    | .ok sequences =>
      .ok (some frame)
        { r with
          -- A terminal frame retires its stream id.
          sequences :=
            if frame.flags.endStream || frame.flags.resetStream then
              sequences.close frame.lane frame.streamId
            else sequences
          completed := remember rt r.completed key ⟨nowMs, header⟩ }

/-- The frame of a partial whose slots are all filled. -/
def finish (rt : Runtime) (r : RemoteFragmentReassembler) (key : Block 16) (lane : RemoteLane)
    (nowMs : Nat) (serialized : Bytes) :
    EStateM.Result RemoteTransportError RemoteFragmentReassembler (Option RemoteTransportFrameV1) :=
  match RemoteTransportFrameV1.decode rt.sha256 serialized with
  | .error e => .error e r
  | .ok frame =>
    let header := Block.cut serialized 0 72
    if frame.lane ≠ lane ∨ frame.frameId.val ≠ key then .error (.withLane .fragmentConflict lane) r
    else match r.completed.lookup key with
      | some done =>
        -- A byte-identical retry is not dispatched again; any other reuse of the id is a conflict.
        if done.header = header then .ok none r else .error (.withLane .fragmentConflict lane) r
      | none => dispatch rt r key header nowMs frame

/-- Some refusals take back a partial that the same call made. -/
def undo (r : RemoteFragmentReassembler) (isNew : Bool) (key : Block 16) :
    RemoteFragmentReassembler :=
  if isNew then { r with partials := r.partials.erase key } else r

/-- The entry of `accept` for a partial that is present; `isNew` tells whether it was just made. -/
def store (rt : Runtime) (r : RemoteFragmentReassembler) (fragment : RemoteCarrierFragmentV1)
    (nowMs : Nat) (isNew : Bool) (p : PartialFrame) :
    EStateM.Result RemoteTransportError RemoteFragmentReassembler (Option RemoteTransportFrameV1) :=
  let key := fragment.frameId.val
  let lane := fragment.lane
  let index := fragment.fragmentIndex.toNat
  let length := fragment.bytes.length
  if p.lane ≠ lane ∨ p.fragmentCount ≠ fragment.fragmentCount then
    .error (.withLane .fragmentConflict lane) (r.undo isNew key)
  else match p.slots.getD index none with
    | some existing =>
      if existing = fragment.bytes then .ok none r else .error (.withLane .fragmentConflict lane) r
    | none =>
      if r.maxBytes < r.bufferedBytes + length then
        .error (.withSize .reassemblyByteLimit lane length) (r.undo isNew key)
      else if maxSerializedFrameBytes < p.bufferedBytes + length then
        .error (.withSize .reassemblyByteLimit lane length) r
      else
        let filled := p.fill index fragment.bytes
        if filled.complete then
          finish rt
            { r with
              partials := r.partials.erase key
              bufferedBytes := r.bufferedBytes + length - filled.bufferedBytes }
            key lane nowMs filled.serialized
        else
          .ok none
            { r with
              partials := r.partials.insert key filled
              bufferedBytes := r.bufferedBytes + length }

def accept (rt : Runtime) (fragment : RemoteCarrierFragmentV1) (nowMs : Nat) :
    EStateM RemoteTransportError RemoteFragmentReassembler (Option RemoteTransportFrameV1) := fun r =>
  match fragment.validateShape with
  | .error e => .error e r
  | .ok () =>
    let r := (r.expire nowMs).2
    let key := fragment.frameId.val
    match r.partials.lookup key with
    | some p => store rt r fragment nowMs false p
    | none =>
      if r.maxFrames ≤ r.partials.size then .error (.withLane .reassemblyFrameLimit fragment.lane) r
      else
        let p := PartialFrame.new fragment.lane fragment.fragmentCount nowMs
        store rt { r with partials := r.partials.insert key p } fragment nowMs true p

end RemoteFragmentReassembler

end FlyCockpit.Transport
