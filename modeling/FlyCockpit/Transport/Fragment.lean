-- SUMMARY: Carrier fragments, the checks on their shape, and the split of a frame into fragments.
import FlyCockpit.Transport.Frame

/-!
# Carrier fragments

A serialized frame travels in at most nine fragments. Every fragment but the last is full, and the
last one alone carries the end flag.
-/

namespace FlyCockpit.Transport

def remoteCarrierFragmentVersion : UInt8 := 1
def remoteCarrierFragmentHeaderBytes : Nat := 26
def remoteCarrierFragmentMaxPayloadBytes : Nat := 65471
def maxFragmentCount : UInt16 := 9

/-- Fragment flags. Only the end flag is defined. -/
structure RemoteFragmentFlags where
  bits : UInt16
  defined : bits &&& ~~~1 = 0
  deriving DecidableEq

namespace RemoteFragmentFlags

def empty : RemoteFragmentFlags := ⟨0, rfl⟩

def fromBits (bits : UInt16) : Option RemoteFragmentFlags :=
  if h : bits &&& ~~~1 = 0 then some ⟨bits, h⟩ else none

/-- `end` in the source. -/
def ended : RemoteFragmentFlags := ⟨1, rfl⟩

def isEnd (flags : RemoteFragmentFlags) : Bool := flags.bits &&& 1 ≠ 0

end RemoteFragmentFlags

structure RemoteCarrierFragmentV1 where
  lane : RemoteLane
  flags : RemoteFragmentFlags
  frameId : RemoteFrameId
  fragmentIndex : UInt16
  fragmentCount : UInt16
  bytes : Bytes
  deriving DecidableEq

namespace RemoteCarrierFragmentV1

def validateShape (f : RemoteCarrierFragmentV1) : Except RemoteTransportError Unit :=
  if remoteCarrierFragmentMaxPayloadBytes < f.bytes.length then
    .error (.withSize .fragmentPayloadCapExceeded f.lane f.bytes.length)
  else if f.fragmentCount = 0 then .error (.withLane .zeroFragmentCount f.lane)
  else if maxFragmentCount < f.fragmentCount then .error (.withLane .fragmentCountExceeded f.lane)
  else if f.fragmentCount ≤ f.fragmentIndex then .error (.withLane .fragmentIndexOutOfRange f.lane)
  -- The final fragment alone carries the end flag.
  else if f.flags.isEnd ≠ decide (f.fragmentIndex + 1 = f.fragmentCount) then
    .error (.withLane .fragmentEndFlagMisplaced f.lane)
  else .ok ()

theorem validateShape_eq_ok {f : RemoteCarrierFragmentV1} : f.validateShape = .ok () ↔
      f.bytes.length ≤ remoteCarrierFragmentMaxPayloadBytes ∧ f.fragmentCount ≠ 0 ∧
      f.fragmentCount ≤ maxFragmentCount ∧ f.fragmentIndex < f.fragmentCount ∧
      f.flags.isEnd = decide (f.fragmentIndex + 1 = f.fragmentCount) := by
  unfold validateShape
  split_ifs with hcap hzero hcount hindex hend
  · simp [Nat.not_le.2 hcap]
  · simp [hzero]
  · simp [UInt16.not_le.2 hcount]
  · simp [UInt16.not_lt.2 hindex]
  · simp [hend]
  · simp [Nat.le_of_not_lt hcap, hzero, UInt16.not_lt.1 hcount, UInt16.not_le.1 hindex,
      not_not.1 hend]

/-! ### Wire format -/

/-- The bytes `encode` writes once the shape is checked. -/
def wire (f : RemoteCarrierFragmentV1) : Bytes :=
  [remoteCarrierFragmentVersion] ++ ([f.lane.laneId] ++ (Bytes.be16 f.flags.bits ++
    (f.frameId.val.val ++ (Bytes.be16 f.fragmentIndex ++ (Bytes.be16 f.fragmentCount ++
    (Bytes.be16 (UInt16.ofNat f.bytes.length) ++ f.bytes))))))

def encode (f : RemoteCarrierFragmentV1) : Except RemoteTransportError Bytes := do
  f.validateShape
  pure f.wire

/-- The checks of `decode` behind the frame id. -/
def decodeBody (bytes : Bytes) (lane : RemoteLane) (flags : RemoteFragmentFlags)
    (frameId : RemoteFrameId) : Except RemoteTransportError RemoteCarrierFragmentV1 :=
  let declaredLen := (Bytes.word16 (bytes.slice 24 2)).toNat
  let actual := bytes.length - remoteCarrierFragmentHeaderBytes
  let fragment : RemoteCarrierFragmentV1 :=
    { lane
      flags
      frameId
      fragmentIndex := Bytes.word16 (bytes.slice 20 2)
      fragmentCount := Bytes.word16 (bytes.slice 22 2)
      bytes := bytes.drop remoteCarrierFragmentHeaderBytes }
  if remoteCarrierFragmentMaxPayloadBytes < declaredLen then
    .error (.withSize .fragmentPayloadCapExceeded lane declaredLen)
  else if declaredLen < actual then .error (.withLane .trailingBytes lane)
  else if actual < declaredLen then .error (.withLane .fragmentLengthMismatch lane)
  else do
    fragment.validateShape
    pure fragment

def decode (bytes : Bytes) : Except RemoteTransportError RemoteCarrierFragmentV1 :=
  if bytes.length < remoteCarrierFragmentHeaderBytes then .error (.new .headerTooShort)
  else if bytes.getD 0 0 ≠ remoteCarrierFragmentVersion then .error (.new .unsupportedVersion)
  else match RemoteLane.fromLaneId (bytes.getD 1 0) with
    | none => .error (.new .unknownLane)
    | some lane => match RemoteFragmentFlags.fromBits (Bytes.word16 (bytes.slice 2 2)) with
      | none => .error (.withLane .unknownFlagBit lane)
      | some flags => match tagProtocolIdBytes (.cut bytes 4 16) with
        | none => .error (.withLane .fragmentConflict lane)
        | some frameId => decodeBody bytes lane flags frameId

end RemoteCarrierFragmentV1

/-! ## Splitting a frame -/

/-- The number of fragments of a serialized frame. -/
def fragmentCountOf (length : Nat) : Nat :=
  max 1 ((length + remoteCarrierFragmentMaxPayloadBytes - 1) / remoteCarrierFragmentMaxPayloadBytes)

/-- The fragment at a position of the split into `count` fragments. -/
def fragmentAt (lane : RemoteLane) (frameId : RemoteFrameId) (serializedFrame : Bytes)
    (count index : Nat) : RemoteCarrierFragmentV1 where
  lane
  flags := if index + 1 = count then .ended else .empty
  frameId
  fragmentIndex := UInt16.ofNat index
  fragmentCount := UInt16.ofNat count
  bytes := serializedFrame.slice (index * remoteCarrierFragmentMaxPayloadBytes)
    remoteCarrierFragmentMaxPayloadBytes

def fragmentFrame (lane : RemoteLane) (frameId : RemoteFrameId) (serializedFrame : Bytes) :
    Except RemoteTransportError (List RemoteCarrierFragmentV1) :=
  let count := fragmentCountOf serializedFrame.length
  if serializedFrame.length < remoteTransportFrameHeaderBytes then
    .error (.withLane .headerTooShort lane)
  else if maxSerializedFrameBytes < serializedFrame.length then
    .error (.withSize .payloadCapExceeded lane serializedFrame.length)
  else if maxFragmentCount.toNat < count then .error (.withLane .fragmentCountExceeded lane)
  else .ok ((List.range count).map (fragmentAt lane frameId serializedFrame count))

/-! ## The split is exact -/

theorem fragmentCountOf_pos (length : Nat) : 0 < fragmentCountOf length :=
  Nat.lt_of_lt_of_le Nat.one_pos (Nat.le_max_left _ _)

theorem fragmentCountOf_le {length : Nat} (h : length ≤ maxSerializedFrameBytes) :
    fragmentCountOf length ≤ 9 := by
  unfold maxSerializedFrameBytes remoteTransportFrameHeaderBytes maxLogicalPayloadBytes at h
  unfold fragmentCountOf remoteCarrierFragmentMaxPayloadBytes
  omega

end FlyCockpit.Transport
