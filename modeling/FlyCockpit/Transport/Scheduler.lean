-- SUMMARY: The sender's lane scheduler: queue limits, the lane schedule and the fragments it lends.
import FlyCockpit.Lib.Table
import FlyCockpit.Transport.Fragment

/-!
# Lane scheduler

Frames are split into fragments when they are queued. Every stream of a lane has its own queue, the
streams of a lane take turns, and the lanes take turns by a fixed schedule of eight slots. The
limits apply to what is queued: the last fragment of a frame carries the charge of the frame.
-/

namespace FlyCockpit.Transport

/-- `LANE_SCHEDULE`. Slots of lanes that have nothing to send are skipped. -/
def laneSchedule : Fin 8 → RemoteLane
  | 0 | 2 | 5 => .control
  | 1 | 4 | 6 => .interactive
  | 3 | 7 => .bulk

def firstSlot : Fin 8 := 0

def nextSlot (slot : Fin 8) : Fin 8 := slot + 1

def drrQuantumBytes : Nat := remoteCarrierFragmentMaxPayloadBytes

structure RemoteQueueLimits where
  controlFrames : Nat
  controlBytes : Nat
  interactiveFrames : Nat
  interactiveBytes : Nat
  bulkFrames : Nat
  bulkBytes : Nat
  aggregateBytes : Nat
  controlReservedBytes : Nat
  controlReservedFrames : Nat
  interactiveReservedBytes : Nat

namespace RemoteQueueLimits

/-- `DEFAULT`. -/
def standard : RemoteQueueLimits where
  controlFrames := 256
  controlBytes := 2 * 1024 * 1024
  interactiveFrames := 512
  interactiveBytes := 8 * 1024 * 1024
  bulkFrames := 128
  bulkBytes := 8 * 1024 * 1024
  aggregateBytes := 16 * 1024 * 1024
  controlReservedBytes := 1024 * 1024
  controlReservedFrames := 32
  interactiveReservedBytes := 2 * 1024 * 1024

def framesFor (limits : RemoteQueueLimits) : RemoteLane → Nat
  | .control => limits.controlFrames
  | .interactive => limits.interactiveFrames
  | .bulk => limits.bulkFrames

def bytesFor (limits : RemoteQueueLimits) : RemoteLane → Nat
  | .control => limits.controlBytes
  | .interactive => limits.interactiveBytes
  | .bulk => limits.bulkBytes

def reservedBytesFor (limits : RemoteQueueLimits) : RemoteLane → Nat
  | .control => limits.controlReservedBytes
  | .interactive => limits.interactiveReservedBytes
  | .bulk => 0

def sharedPoolBytes (limits : RemoteQueueLimits) : Nat :=
  limits.aggregateBytes - limits.controlReservedBytes - limits.interactiveReservedBytes

end RemoteQueueLimits

/-- What happened to an attempt to queue a frame. A refusal has a shape of its own on every lane. -/
inductive RemoteQueueOutcome
  | enqueued
  | rejected (error : RemoteTransportError)
  | backpressure (error : RemoteTransportError)
  | closeStream (error : RemoteTransportError)
  deriving DecidableEq

def RemoteQueueOutcome.forLane (error : RemoteTransportError) : RemoteLane → RemoteQueueOutcome
  | .bulk => .rejected error
  | .interactive => .backpressure error
  | .control => .closeStream error

/-- A fragment lent to a carrier. -/
structure RemoteSendRequest where
  lane : RemoteLane
  streamId : UInt64
  fragment : RemoteCarrierFragmentV1
  accountedBytes : Option Nat
  deriving DecidableEq

/-- A queued fragment, with the charge of its frame if it is the frame's last one. -/
structure QueuedFragment where
  fragment : RemoteCarrierFragmentV1
  accountedBytes : Option Nat
  deriving DecidableEq

structure StreamQueue where
  fragments : List QueuedFragment
  deficit : Nat

structure LaneQueue where
  streams : Table UInt64 StreamQueue
  /-- Round-robin order over the ready streams. -/
  order : List UInt64
  frames : Nat
  bytes : Nat
  writable : Bool

def StreamQueue.fresh : StreamQueue := ⟨[], 0⟩

def LaneQueue.fresh : LaneQueue := ⟨∅, [], 0, 0, true⟩

namespace LaneQueue

/-- The queue of a stream, empty if it has none. -/
def stream (q : LaneQueue) (streamId : UInt64) : StreamQueue :=
  (q.streams.lookup streamId).getD .fresh

/-- The charge a queued fragment carries is released. -/
def settle (q : LaneQueue) (accountedBytes : Option Nat) : LaneQueue :=
  match accountedBytes with
  | some bytes => { q with frames := q.frames - 1, bytes := q.bytes - bytes }
  | none => q

/-- A frame's fragments join the queue of its stream. -/
def push (q : LaneQueue) (streamId : UInt64) (fragments : List QueuedFragment) (size : Nat) :
    LaneQueue :=
  let stream := q.stream streamId
  { q with
    streams := q.streams.insert streamId { stream with fragments := stream.fragments ++ fragments }
    order := if stream.fragments.isEmpty then q.order ++ [streamId] else q.order
    frames := q.frames + 1
    bytes := q.bytes + size }

/-- The stream at the head of the line sent a fragment and is left with others. A drained stream
leaves; any other one goes to the back of the line. -/
def served (q : LaneQueue) (streamId : UInt64) (order : List UInt64)
    (fragments : List QueuedFragment) (deficit : Nat) : LaneQueue :=
  if fragments.isEmpty then { q with order, streams := q.streams.erase streamId }
  else
    { q with
      order := order ++ [streamId]
      streams := q.streams.insert streamId ⟨fragments, deficit⟩ }

/-- The lane with a fragment handed back to it. -/
def restored (q : LaneQueue) (request : RemoteSendRequest) : LaneQueue :=
  let charged : LaneQueue := match request.accountedBytes with
    | some bytes => { q with frames := q.frames + 1, bytes := q.bytes + bytes }
    | none => q
  let stream := q.stream request.streamId
  { charged with
    streams := q.streams.insert request.streamId
      { stream with fragments := ⟨request.fragment, request.accountedBytes⟩ :: stream.fragments }
    order := request.streamId :: q.order.filter (· ≠ request.streamId) }

/-- The lane without a stream. -/
def without (q : LaneQueue) (streamId : UInt64) : LaneQueue :=
  let settled := (q.stream streamId).fragments.foldl
    (fun q queued => q.settle queued.accountedBytes) q
  { settled with
    streams := q.streams.erase streamId
    order := q.order.filter (· ≠ streamId) }

end LaneQueue

structure RemoteLaneScheduler where
  limits : RemoteQueueLimits
  lanes : RemoteLane → LaneQueue
  cursor : Fin 8

namespace RemoteLaneScheduler

def new (limits : RemoteQueueLimits) : RemoteLaneScheduler where
  limits
  lanes _ := .fresh
  cursor := firstSlot

/-- The state with the queue of one lane replaced. -/
def setLane (s : RemoteLaneScheduler) (lane : RemoteLane) (q : LaneQueue) : RemoteLaneScheduler :=
  { s with lanes := Function.update s.lanes lane q }

@[simp] theorem lanes_setLane_self (s : RemoteLaneScheduler) (lane : RemoteLane) (q : LaneQueue) :
    (s.setLane lane q).lanes lane = q := Function.update_self ..

theorem lanes_setLane_of_ne (s : RemoteLaneScheduler) {lane other : RemoteLane} (h : other ≠ lane)
    (q : LaneQueue) : (s.setLane lane q).lanes other = s.lanes other := Function.update_of_ne h ..

def aggregateBytes (s : RemoteLaneScheduler) : Nat :=
  (RemoteLane.all.map fun lane => (s.lanes lane).bytes).sum

/-- Usage above each lane's reservation. -/
def sharedUsage (s : RemoteLaneScheduler) : Nat :=
  (RemoteLane.all.map fun lane => (s.lanes lane).bytes - s.limits.reservedBytesFor lane).sum

def setLaneWritable (s : RemoteLaneScheduler) (lane : RemoteLane) (writable : Bool) :
    RemoteLaneScheduler :=
  s.setLane lane { s.lanes lane with writable }

/-- The part of a frame that has to come out of the shared pool. Control stops drawing on its
reservation once it holds its reserved number of frames. -/
def fromShared (s : RemoteLaneScheduler) (lane : RemoteLane) (size : Nat) : Nat :=
  let reservedBytes :=
    if lane = .control ∧ s.limits.controlReservedFrames ≤ (s.lanes lane).frames then 0
    else s.limits.reservedBytesFor lane
  size - (reservedBytes - (s.lanes lane).bytes)

/-- The queue limits `enqueue` checks before it touches the frame. -/
def checkLimits (s : RemoteLaneScheduler) (lane : RemoteLane) (size : Nat) :
    Except RemoteTransportError Unit :=
  if s.limits.framesFor lane < (s.lanes lane).frames + 1 then
    .error (.withLane (if lane = .control then .controlQueueOverflow else .queueFrameLimit) lane)
  else if s.limits.bytesFor lane < (s.lanes lane).bytes + size then
    .error (.withSize (if lane = .control then .controlQueueOverflow else .queueByteLimit) lane size)
  else if s.limits.sharedPoolBytes < s.sharedUsage + s.fromShared lane size then
    .error (.withSize .queueAggregateLimit lane size)
  else .ok ()

/-- The fragments of a frame as they are queued. -/
def queuedFragments (fragments : List RemoteCarrierFragmentV1) (size : Nat) : List QueuedFragment :=
  fragments.mapIdx fun index fragment =>
    ⟨fragment, if index = fragments.length - 1 then some size else none⟩

def fragmentsOf (sha256 : Bytes → Block 32) (frame : RemoteTransportFrameV1) :
    Except RemoteTransportError (List RemoteCarrierFragmentV1) := do
  let serialized ← frame.encode sha256
  fragmentFrame frame.lane frame.frameId serialized

def enqueue (sha256 : Bytes → Block 32) (s : RemoteLaneScheduler) (frame : RemoteTransportFrameV1) :
    RemoteQueueOutcome × RemoteLaneScheduler :=
  let lane := frame.lane
  let size := frame.serializedLen
  match s.checkLimits lane size with
  | .error error => (.forLane error lane, s)
  | .ok () => match fragmentsOf sha256 frame with
    | .error error => (.forLane error lane, s)
    | .ok fragments =>
      (.enqueued,
        s.setLane lane ((s.lanes lane).push frame.streamId (queuedFragments fragments size) size))

/-- One fragment of the stream whose turn it is. -/
def popFromLane (s : RemoteLaneScheduler) (lane : RemoteLane) :
    Option RemoteSendRequest × RemoteLaneScheduler :=
  let queue := s.lanes lane
  if !queue.writable then (none, s)
  else match queue.order with
    | [] => (none, s)
    | streamId :: order => match queue.streams.lookup streamId with
      | none => (none, s.setLane lane { queue with order })
      | some stream => match stream.fragments with
        | [] =>
          (none, s.setLane lane
            { queue with
              order
              streams := queue.streams.insert streamId
                { stream with deficit := stream.deficit + drrQuantumBytes } })
        | queued :: fragments =>
          let deficit := stream.deficit + drrQuantumBytes - queued.fragment.bytes.length
          (some ⟨lane, streamId, queued.fragment, queued.accountedBytes⟩, s.setLane lane
              ((queue.served streamId order fragments deficit).settle queued.accountedBytes))

/-- The loop of `next_fragment` over the slots it still may examine. -/
def visitSlots : Nat → RemoteLaneScheduler → Option RemoteSendRequest × RemoteLaneScheduler
  | 0, s => (none, s)
  | slots + 1, s =>
    match popFromLane { s with cursor := nextSlot s.cursor } (laneSchedule s.cursor) with
    | (some request, s) => (some request, s)
    | (none, s) => visitSlots slots s

def nextFragment (s : RemoteLaneScheduler) : Option RemoteSendRequest × RemoteLaneScheduler :=
  visitSlots 8 s

/-- Hand back a fragment the carrier refused. -/
def requeue (s : RemoteLaneScheduler) (request : RemoteSendRequest) : RemoteLaneScheduler :=
  s.setLane request.lane ((s.lanes request.lane).restored request)

/-- Drop everything queued for a stream. -/
def closeStream (s : RemoteLaneScheduler) (lane : RemoteLane) (streamId : UInt64) :
    RemoteLaneScheduler :=
  s.setLane lane ((s.lanes lane).without streamId)

end RemoteLaneScheduler

end FlyCockpit.Transport
