-- SUMMARY: Lanes and failures, the logical frame, its wire format, and the ownership of stream ids.
import Mathlib.Data.Fintype.Defs
import FlyCockpit.Lib.Bytes

/-!
# Lanes and logical frames

Logical frames travel on one of three fixed lanes. An operation of the transport fails with a
reason from a closed set, the lane if it is known, and a coarse bucket in place of a byte count. A
frame is a 72-byte header followed by a payload. The header names the lane, the stream and the
position in the stream, and carries the SHA-256 digest of the payload; the digest is a parameter of
the development.
-/

namespace FlyCockpit.Transport

inductive RemoteLane
  | control
  | interactive
  | bulk
  deriving DecidableEq, Repr

namespace RemoteLane

/-- Every lane in wire order. -/
def all : List RemoteLane := [control, interactive, bulk]

theorem mem_all (lane : RemoteLane) : lane ∈ all := by
  cases lane <;> decide

theorem nodup_all : all.Nodup := by decide

instance instFintype : Fintype RemoteLane where
  elems := ⟨all, nodup_all⟩
  complete := mem_all

def laneId : RemoteLane → UInt8
  | control => 0
  | interactive => 1
  | bulk => 2

def fromLaneId (value : UInt8) : Option RemoteLane :=
  if value = 0 then some control
  else if value = 1 then some interactive
  else if value = 2 then some bulk
  else none

def maxPayloadBytes : RemoteLane → Nat
  | control => 65536
  | interactive => 524288
  | bulk => 524288

@[simp] theorem fromLaneId_laneId (lane : RemoteLane) : fromLaneId lane.laneId = some lane := by
  cases lane <;> rfl

/-- The strict decode accepts no second spelling of a lane. -/
theorem laneId_of_fromLaneId {value : UInt8} {lane : RemoteLane} (h : fromLaneId value = some lane) :
    lane.laneId = value := by
  unfold fromLaneId at h
  split_ifs at h with h0 h1 h2 <;> cases h <;> simp only [laneId, *]

theorem maxPayloadBytes_le (lane : RemoteLane) : lane.maxPayloadBytes ≤ 524288 := by
  cases lane <;> decide

end RemoteLane

/-- The reasons for which the modelled operations fail. -/
inductive RemoteTransportReason
  -- Frame header and envelope
  | unsupportedVersion
  | unknownLane
  | unknownFlagBit
  | headerTooShort
  | trailingBytes
  | payloadLengthMismatch
  | payloadCapExceeded
  | digestMismatch
  -- Stream rules
  | zeroStreamId
  | streamParityViolation
  | sequenceGap
  | sequenceRegression
  | sequenceWrap
  | streamClosed
  | streamLimitExceeded
  -- Fragmentation and reassembly
  | zeroFragmentCount
  | fragmentCountExceeded
  | fragmentIndexOutOfRange
  | fragmentPayloadCapExceeded
  | fragmentLengthMismatch
  | fragmentEndFlagMisplaced
  | fragmentConflict
  | reassemblyFrameLimit
  | reassemblyByteLimit
  -- Bulk transfer
  | bulkUnknownKind
  | bulkOptionBits
  | bulkLengthMismatch
  | bulkOffsetGap
  | bulkWindowOvershoot
  | bulkTransferLimit
  | bulkClassLimit
  | bulkDigestMismatch
  | bulkUnknownTransfer
  | bulkLateChunk
  | bulkAlreadyComplete
  | bulkUnknownMimeClass
  | bulkUnknownAbortReason
  | bulkChunkIndexGap
  -- Queueing
  | queueFrameLimit
  | queueByteLimit
  | queueAggregateLimit
  | controlQueueOverflow
  deriving DecidableEq, Repr

/-- A coarse size in place of a byte count. -/
inductive RemoteSizeBucket
  | le1K
  | le4K
  | le16K
  | le64K
  | le256K
  | le512K
  | gt512K
  deriving DecidableEq, Repr

def RemoteSizeBucket.of (bytes : Nat) : RemoteSizeBucket :=
  if bytes ≤ 1024 then .le1K
  else if bytes ≤ 4 * 1024 then .le4K
  else if bytes ≤ 16 * 1024 then .le16K
  else if bytes ≤ 64 * 1024 then .le64K
  else if bytes ≤ 256 * 1024 then .le256K
  else if bytes ≤ 512 * 1024 then .le512K
  else .gt512K

structure RemoteTransportError where
  reason : RemoteTransportReason
  lane : Option RemoteLane
  sizeBucket : Option RemoteSizeBucket
  deriving DecidableEq, Repr

namespace RemoteTransportError

def new (reason : RemoteTransportReason) : RemoteTransportError := ⟨reason, none, none⟩

def withLane (reason : RemoteTransportReason) (lane : RemoteLane) : RemoteTransportError :=
  ⟨reason, some lane, none⟩

def withSize (reason : RemoteTransportReason) (lane : RemoteLane) (bytes : Nat) :
    RemoteTransportError :=
  ⟨reason, some lane, some (.of bytes)⟩

end RemoteTransportError

/-! ## Frames -/

open Bytes

def remoteTransportFrameVersion : UInt8 := 1
def remoteTransportFrameHeaderBytes : Nat := 72
def maxLogicalPayloadBytes : Nat := 524288
def maxSerializedFrameBytes : Nat := remoteTransportFrameHeaderBytes + maxLogicalPayloadBytes

def controlStreamId : UInt64 := 0

/-- Frame flags. The two defined bits are the end and the reset of a stream. -/
structure RemoteFrameFlags where
  bits : UInt16
  defined : bits &&& ~~~3 = 0
  deriving DecidableEq

namespace RemoteFrameFlags

def empty : RemoteFrameFlags := ⟨0, rfl⟩

def fromBits (bits : UInt16) : Option RemoteFrameFlags :=
  if h : bits &&& ~~~3 = 0 then some ⟨bits, h⟩ else none

def endStream (flags : RemoteFrameFlags) : Bool := flags.bits &&& 1 ≠ 0

def resetStream (flags : RemoteFrameFlags) : Bool := flags.bits &&& 2 ≠ 0

/-- The frame is the last of its stream. -/
def terminal (flags : RemoteFrameFlags) : Bool := flags.endStream || flags.resetStream

@[simp] theorem fromBits_bits (flags : RemoteFrameFlags) : fromBits flags.bits = some flags :=
  dif_pos flags.defined

end RemoteFrameFlags

/-! ## Stream ids -/

/-- The peer that created a stream. -/
inductive RemoteStreamOrigin
  | client
  | daemon
  deriving DecidableEq, Repr

/-- The origin that the parity of a nonzero stream id implies. -/
def RemoteStreamOrigin.ofStreamId (streamId : UInt64) : Option RemoteStreamOrigin :=
  if streamId = controlStreamId then none
  else if streamId % 2 = 0 then some .client
  else some .daemon

/-- A frame from `origin` on `lane` may use `streamId`. -/
def validateStreamId (streamId : UInt64) (origin : RemoteStreamOrigin) (lane : RemoteLane) :
    Except RemoteTransportError Unit :=
  if streamId = controlStreamId then
    -- Stream 0 is the control stream; no other lane may ride it.
    if lane = .control then .ok () else .error (.withLane .zeroStreamId lane)
  else if RemoteStreamOrigin.ofStreamId streamId = some origin then .ok ()
  else .error (.withLane .streamParityViolation lane)

/-! ## Frame ids -/

/-- A protocol id: 16 bytes that are not all zero. -/
def RemoteFrameId : Type := { bytes : Block 16 // bytes.isZero = false }

instance RemoteFrameId.instDecidableEq : DecidableEq RemoteFrameId :=
  inferInstanceAs (DecidableEq (Subtype _))

def tagProtocolIdBytes (bytes : Block 16) : Option RemoteFrameId :=
  if h : bytes.isZero = false then some ⟨bytes, h⟩ else none

@[simp] theorem tagProtocolIdBytes_val (id : RemoteFrameId) : tagProtocolIdBytes id.val = some id :=
  dif_pos id.property

theorem val_of_tagProtocolIdBytes {bytes : Block 16} {id : RemoteFrameId}
    (h : tagProtocolIdBytes bytes = some id) : id.val = bytes := by
  unfold tagProtocolIdBytes at h
  split_ifs at h
  cases h
  rfl

theorem isZero_fill_one : (Block.fill 16 1).isZero = false := rfl

/-! ## Frames -/

structure RemoteTransportFrameV1 where
  lane : RemoteLane
  flags : RemoteFrameFlags
  streamId : UInt64
  streamSeq : UInt64
  frameId : RemoteFrameId
  payload : Bytes
  deriving DecidableEq

namespace RemoteTransportFrameV1

/-- The frame belongs to a stream. -/
def onStream (lane : RemoteLane) (streamId : UInt64) (f : RemoteTransportFrameV1) : Bool :=
  f.lane = lane ∧ f.streamId = streamId

variable {f : RemoteTransportFrameV1}

theorem onStream_eq_true {lane : RemoteLane} {streamId : UInt64} :
    onStream lane streamId f = true ↔ f.lane = lane ∧ f.streamId = streamId := by
  simp [onStream]

variable (sha256 : Bytes → Block 32)

def validatePayloadCap (f : RemoteTransportFrameV1) : Except RemoteTransportError Unit :=
  if f.lane.maxPayloadBytes < f.payload.length then
    .error (.withSize .payloadCapExceeded f.lane f.payload.length)
  else .ok ()

def serializedLen (f : RemoteTransportFrameV1) : Nat :=
  remoteTransportFrameHeaderBytes + f.payload.length

/-- The bytes `encode` writes once the payload cap is checked. -/
def wire (f : RemoteTransportFrameV1) : Bytes :=
  [remoteTransportFrameVersion] ++ ([f.lane.laneId] ++ (be16 f.flags.bits ++
    (be64 f.streamId ++ (be64 f.streamSeq ++ (f.frameId.val.val ++
    (be32 (UInt32.ofNat f.payload.length) ++ ((sha256 f.payload).val ++ f.payload)))))))

def encode (f : RemoteTransportFrameV1) : Except RemoteTransportError Bytes := do
  f.validatePayloadCap
  pure (f.wire sha256)

/-- The checks of `decode` behind the fixed fields of the header. -/
def decodePayload (bytes : Bytes) (lane : RemoteLane) (flags : RemoteFrameFlags)
    (frameId : RemoteFrameId) : Except RemoteTransportError RemoteTransportFrameV1 :=
  let payloadLength := (word32 (bytes.slice 36 4)).toNat
  let actual := bytes.length - remoteTransportFrameHeaderBytes
  let payload := bytes.drop remoteTransportFrameHeaderBytes
  if lane.maxPayloadBytes < payloadLength then
    .error (.withSize .payloadCapExceeded lane payloadLength)
  else if payloadLength < actual then .error (.withLane .trailingBytes lane)
  else if actual < payloadLength then .error (.withLane .payloadLengthMismatch lane)
  else if sha256 payload ≠ .cut bytes 40 32 then .error (.withLane .digestMismatch lane)
  else .ok {
    lane
    flags
    streamId := word64 (bytes.slice 4 8)
    streamSeq := word64 (bytes.slice 12 8)
    frameId
    payload }

def decode (bytes : Bytes) : Except RemoteTransportError RemoteTransportFrameV1 :=
  if bytes.length < remoteTransportFrameHeaderBytes then .error (.new .headerTooShort)
  else if bytes.getD 0 0 ≠ remoteTransportFrameVersion then .error (.new .unsupportedVersion)
  else match RemoteLane.fromLaneId (bytes.getD 1 0) with
    | none => .error (.new .unknownLane)
    | some lane => match RemoteFrameFlags.fromBits (word16 (bytes.slice 2 2)) with
      | none => .error (.withLane .unknownFlagBit lane)
      | some flags => match tagProtocolIdBytes (.cut bytes 20 16) with
        | none => .error (.withLane .payloadLengthMismatch lane)
        | some frameId => decodePayload sha256 bytes lane flags frameId

/-! ## Round trip -/

theorem wire_length (f : RemoteTransportFrameV1) : (f.wire sha256).length = f.serializedLen := by
  simp [wire, serializedLen, remoteTransportFrameHeaderBytes]
  omega

theorem encode_eq_ok {bytes : Bytes} : f.encode sha256 = .ok bytes ↔
      f.payload.length ≤ f.lane.maxPayloadBytes ∧ bytes = f.wire sha256 := by
  unfold encode validatePayloadCap
  split_ifs with h
  · refine iff_of_false ?_ fun hok => Nat.not_lt.2 hok.1 h
    rintro ⟨⟩
  · constructor
    · rintro ⟨⟩
      exact ⟨Nat.le_of_not_lt h, rfl⟩
    · rintro ⟨-, rfl⟩
      rfl

/-- The fixed fields of the header, read back from the wire. -/
theorem wire_fields (f : RemoteTransportFrameV1) : (f.wire sha256).slice 2 2 = be16 f.flags.bits ∧
    (f.wire sha256).slice 4 8 = be64 f.streamId ∧ (f.wire sha256).slice 12 8 = be64 f.streamSeq ∧
    Block.cut (f.wire sha256) 20 16 = f.frameId.val ∧
    (f.wire sha256).slice 36 4 = be32 (UInt32.ofNat f.payload.length) ∧
    Block.cut (f.wire sha256) 40 32 = sha256 f.payload ∧
    (f.wire sha256).drop 72 = f.payload := by
  simp [wire]

theorem payloadLength_toNat (hcap : f.payload.length ≤ f.lane.maxPayloadBytes) :
    (UInt32.ofNat f.payload.length).toNat = f.payload.length := by
  have hmax := f.lane.maxPayloadBytes_le
  exact UInt32.toNat_ofNat_of_lt' (show f.payload.length < 2 ^ 32 by omega)

/-- Decoding what was encoded gives the frame back. -/
theorem decode_wire (hcap : f.payload.length ≤ f.lane.maxPayloadBytes) :
    decode sha256 (f.wire sha256) = .ok f := by
  obtain ⟨hflags, hstream, hseq, hid, hlength, hdigest, hdrop⟩ := f.wire_fields sha256
  have hpayload : (f.wire sha256).drop remoteTransportFrameHeaderBytes = f.payload := hdrop
  have hlen := f.wire_length sha256
  have hactual : (f.wire sha256).length - remoteTransportFrameHeaderBytes = f.payload.length := by
    rw [hlen, serializedLen, Nat.add_sub_cancel_left]
  have hversion : (f.wire sha256).getD 0 0 = remoteTransportFrameVersion := rfl
  have hlane : (f.wire sha256).getD 1 0 = f.lane.laneId := rfl
  have hlong : ¬(f.wire sha256).length < remoteTransportFrameHeaderBytes := by
    rw [hlen, serializedLen]
    omega
  unfold decode
  rw [if_neg hlong, if_neg (not_not.2 hversion)]
  simp only [hlane, RemoteLane.fromLaneId_laneId, hflags, word16_be16,
    RemoteFrameFlags.fromBits_bits, hid, tagProtocolIdBytes_val]
  unfold decodePayload
  simp only [hlength, word32_be32, payloadLength_toNat hcap, hactual, hdigest,
    hpayload, hstream, hseq, word64_be64, ne_eq,
    not_true_eq_false, lt_irrefl, if_false, if_neg (Nat.not_lt.2 hcap)]

end RemoteTransportFrameV1

end FlyCockpit.Transport
