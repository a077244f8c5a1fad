-- SUMMARY: Bulk transfer messages, their wire format, and the receiver's state machine.
import FlyCockpit.Lib.Fallible
import FlyCockpit.Transport.Frame

/-!
# Bulk transfers

A transfer is announced by a begin message, carried in chunks and ended by a complete or an abort.
The messages have exact binary layouts; the receiver keeps one state per transfer. The hasher is
represented by the bytes it was fed, and SHA-256 is a parameter.
-/

namespace FlyCockpit.Transport

def bulkKindBegin : UInt8 := 1
def bulkKindChunk : UInt8 := 2
def bulkKindComplete : UInt8 := 3
def bulkKindAbort : UInt8 := 4

def bulkOptionBitsUnknown : UInt8 := 0
def bulkOptionBitsKnown : UInt8 := 3

def bulkBeginBytesWithoutOptions : Nat := 27
def bulkBeginBytesWithOptions : Nat := 67
def bulkChunkEnvelopeBytes : Nat := 33
def bulkCompleteBytes : Nat := 57
def bulkAbortBytes : Nat := 18

def maxBulkChunkPayloadBytes : Nat := RemoteLane.maxPayloadBytes .bulk - bulkChunkEnvelopeBytes
def maxReceiverWindowBytes : UInt64 := 4194304
def maxTransferBytes : UInt64 := 536870912

def maxSingleImageBytes : UInt64 := 4194304
def maxTotalImageBytes : UInt64 := 8388608

/-! ## MIME classes and abort reasons -/

inductive RemoteBulkMimeClass
  | image
  | imageSet
  | archive
  | exported
  | opaqueData
  | redactedExport
  deriving DecidableEq, Repr

namespace RemoteBulkMimeClass

def code : RemoteBulkMimeClass → UInt8
  | image => 1
  | imageSet => 2
  | archive => 3
  | exported => 4
  | opaqueData => 5
  | redactedExport => 6

def fromCode (code : UInt8) : Option RemoteBulkMimeClass :=
  if code = 1 then some image
  else if code = 2 then some imageSet
  else if code = 3 then some archive
  else if code = 4 then some exported
  else if code = 5 then some opaqueData
  else if code = 6 then some redactedExport
  else none

def classLimitBytes : RemoteBulkMimeClass → UInt64
  | image => maxSingleImageBytes
  | imageSet => maxTotalImageBytes
  | archive => maxTransferBytes
  | exported => maxTransferBytes
  | opaqueData => maxTransferBytes
  | redactedExport => maxTransferBytes

def maxTotalLength (mimeClass : RemoteBulkMimeClass) : UInt64 :=
  if mimeClass.classLimitBytes < maxTransferBytes then mimeClass.classLimitBytes
  else maxTransferBytes

@[simp] theorem fromCode_code (mimeClass : RemoteBulkMimeClass) :
    fromCode mimeClass.code = some mimeClass := by
  cases mimeClass <;> rfl

theorem code_of_fromCode {code : UInt8} {mimeClass : RemoteBulkMimeClass}
    (h : fromCode code = some mimeClass) : mimeClass.code = code := by
  unfold fromCode at h
  split_ifs at h <;> cases h <;> simp only [RemoteBulkMimeClass.code, *]

theorem maxTotalLength_le (mimeClass : RemoteBulkMimeClass) :
    mimeClass.maxTotalLength ≤ mimeClass.classLimitBytes ∧
      mimeClass.maxTotalLength ≤ maxTransferBytes := by
  cases mimeClass <;> decide

end RemoteBulkMimeClass

inductive RemoteBulkAbortReason
  | cancelled
  | limitExceeded
  | integrityFailure
  | transportClosed
  | timeout
  deriving DecidableEq, Repr

namespace RemoteBulkAbortReason

def code : RemoteBulkAbortReason → UInt8
  | cancelled => 1
  | limitExceeded => 2
  | integrityFailure => 3
  | transportClosed => 4
  | timeout => 5

def fromCode (code : UInt8) : Option RemoteBulkAbortReason :=
  if code = 1 then some cancelled
  else if code = 2 then some limitExceeded
  else if code = 3 then some integrityFailure
  else if code = 4 then some transportClosed
  else if code = 5 then some timeout
  else none

@[simp] theorem fromCode_code (reason : RemoteBulkAbortReason) :
    fromCode reason.code = some reason := by
  cases reason <;> rfl

theorem code_of_fromCode {code : UInt8} {reason : RemoteBulkAbortReason}
    (h : fromCode code = some reason) : reason.code = code := by
  unfold fromCode at h
  split_ifs at h <;> cases h <;> simp only [RemoteBulkAbortReason.code, *]

end RemoteBulkAbortReason

/-! ## Messages -/

/-- Protocol ids of all kinds are the same bytes; the kind is a type tag of the source. -/
abbrev RemoteTransferId := RemoteFrameId

def bulkErr (reason : RemoteTransportReason) : RemoteTransportError := .withLane reason .bulk

structure RemoteBulkBegin where
  transferId : RemoteTransferId
  totalLength : Option UInt64
  expectedSha256 : Option (Block 32)
  mimeClass : RemoteBulkMimeClass
  maxTotalLength : UInt64
  deriving DecidableEq

namespace RemoteBulkBegin

def optionBits (begin : RemoteBulkBegin) : UInt8 :=
  match begin.totalLength, begin.expectedSha256 with
  | some _, some _ => bulkOptionBitsKnown
  | _, _ => bulkOptionBitsUnknown

def validate (begin : RemoteBulkBegin) : Except RemoteTransportError Unit :=
  if begin.totalLength.isSome ≠ begin.expectedSha256.isSome then .error (bulkErr .bulkOptionBits)
  else if begin.maxTotalLength ≠ begin.mimeClass.maxTotalLength then
    .error (bulkErr .bulkClassLimit)
  else if begin.totalLength.any (begin.maxTotalLength < ·) then .error (bulkErr .bulkTransferLimit)
  else .ok ()

theorem validate_eq_ok {begin : RemoteBulkBegin} :
    begin.validate = .ok () ↔ begin.totalLength.isSome = begin.expectedSha256.isSome ∧
      begin.maxTotalLength = begin.mimeClass.maxTotalLength ∧
      ∀ total, begin.totalLength = some total → total ≤ begin.maxTotalLength := by
  unfold validate
  split_ifs with hbits hclass htotal
  · simp [hbits]
  · simp [hclass]
  · simp only [Option.any_eq_true_iff_get, decide_eq_true_eq] at htotal
    obtain ⟨hsome, hlt⟩ := htotal
    simp only [false_iff, not_and, not_forall]
    intro _ _
    exact ⟨_, Option.some_get hsome |>.symm, UInt64.not_le.2 hlt⟩
  · simp only [true_iff]
    refine ⟨not_not.1 hbits, not_not.1 hclass, fun total hsome => ?_⟩
    rw [hsome, Option.any_some, decide_eq_true_eq] at htotal
    exact UInt64.not_lt.1 htotal

end RemoteBulkBegin

structure RemoteBulkChunk where
  transferId : RemoteTransferId
  chunkIndex : UInt32
  offset : UInt64
  bytes : Bytes
  deriving DecidableEq

structure RemoteBulkComplete where
  transferId : RemoteTransferId
  finalLength : UInt64
  sha256 : Block 32
  deriving DecidableEq

structure RemoteBulkAbort where
  transferId : RemoteTransferId
  reason : RemoteBulkAbortReason
  deriving DecidableEq

inductive RemoteBulkMessage
  | begin (begin : RemoteBulkBegin)
  | chunk (chunk : RemoteBulkChunk)
  | complete (complete : RemoteBulkComplete)
  | abort (abort : RemoteBulkAbort)
  deriving DecidableEq

/-! ## Wire format -/

namespace RemoteBulkMessage

/-- The two optional fields of a begin message, present together. -/
def optionFields (begin : RemoteBulkBegin) : Bytes :=
  match begin.totalLength, begin.expectedSha256 with
  | some total, some digest => Bytes.be64 total ++ digest.val
  | _, _ => []

/-- The bytes `encode` writes once the message is checked. -/
def wire : RemoteBulkMessage → Bytes
  | .begin b =>
    [bulkKindBegin] ++ (b.transferId.val.val ++ ([b.optionBits] ++ (optionFields b ++
      ([b.mimeClass.code] ++ Bytes.be64 b.maxTotalLength))))
  | .chunk c =>
    [bulkKindChunk] ++ (c.transferId.val.val ++ (Bytes.be32 c.chunkIndex ++
      (Bytes.be64 c.offset ++ (Bytes.be32 (UInt32.ofNat c.bytes.length) ++ c.bytes))))
  | .complete c =>
    [bulkKindComplete] ++ (c.transferId.val.val ++ (Bytes.be64 c.finalLength ++ c.sha256.val))
  | .abort a => [bulkKindAbort] ++ (a.transferId.val.val ++ [a.reason.code])

def encode (message : RemoteBulkMessage) : Except RemoteTransportError Bytes :=
  match message with
  | .begin b => do
    b.validate
    pure message.wire
  | .chunk c =>
    if maxBulkChunkPayloadBytes < c.bytes.length then
      .error (.withSize .payloadCapExceeded .bulk c.bytes.length)
    else .ok message.wire
  | .complete _ => .ok message.wire
  | .abort _ => .ok message.wire

def readTransferId (bytes : Bytes) (offset : Nat) : Except RemoteTransportError RemoteTransferId :=
  match tagProtocolIdBytes (.cut bytes offset 16) with
  | some id => .ok id
  | none => .error (bulkErr .bulkUnknownTransfer)

/-- A message of the wrong length is too short or has trailing bytes. -/
def lengthError (bytes : Bytes) (expectedLen : Nat) : RemoteTransportError :=
  bulkErr (if bytes.length < expectedLen then .bulkLengthMismatch else .trailingBytes)

/-- The fields of a begin message behind its option bits; the class is read at `cursor`. -/
def decodeBeginFields (bytes : Bytes) (transferId : RemoteTransferId) (totalLength : Option UInt64)
    (expectedSha256 : Option (Block 32)) (cursor : Nat) :
    Except RemoteTransportError RemoteBulkMessage :=
  match RemoteBulkMimeClass.fromCode (bytes.getD cursor 0) with
  | none => .error (bulkErr .bulkUnknownMimeClass)
  | some mimeClass => do
    let begin : RemoteBulkBegin :=
      { transferId
        totalLength
        expectedSha256
        mimeClass
        maxTotalLength := Bytes.word64 (bytes.slice (cursor + 1) 8) }
    begin.validate
    pure (.begin begin)

def decodeBegin (bytes : Bytes) : Except RemoteTransportError RemoteBulkMessage :=
  if bytes.length < 18 then .error (bulkErr .headerTooShort)
  else match readTransferId bytes 1 with
    | .error e => .error e
    | .ok transferId =>
      let bits := bytes.getD 17 0
      if bits = bulkOptionBitsUnknown then
        if bytes.length ≠ bulkBeginBytesWithoutOptions then
          .error (lengthError bytes bulkBeginBytesWithoutOptions)
        else decodeBeginFields bytes transferId none none 18
      else if bits = bulkOptionBitsKnown then
        if bytes.length ≠ bulkBeginBytesWithOptions then
          .error (lengthError bytes bulkBeginBytesWithOptions)
        else
          decodeBeginFields bytes transferId (some (Bytes.word64 (bytes.slice 18 8)))
            (some (.cut bytes 26 32)) 58
      else .error (bulkErr .bulkOptionBits)

def decodeChunk (bytes : Bytes) : Except RemoteTransportError RemoteBulkMessage :=
  if bytes.length < bulkChunkEnvelopeBytes then .error (bulkErr .headerTooShort)
  else match readTransferId bytes 1 with
    | .error e => .error e
    | .ok transferId =>
      let byteLength := (Bytes.word32 (bytes.slice 29 4)).toNat
      let actual := bytes.length - bulkChunkEnvelopeBytes
      if maxBulkChunkPayloadBytes < byteLength then
        .error (.withSize .payloadCapExceeded .bulk byteLength)
      else if byteLength < actual then .error (bulkErr .trailingBytes)
      else if actual < byteLength then .error (bulkErr .bulkLengthMismatch)
      else .ok (.chunk
        { transferId
          chunkIndex := Bytes.word32 (bytes.slice 17 4)
          offset := Bytes.word64 (bytes.slice 21 8)
          bytes := bytes.drop bulkChunkEnvelopeBytes })

def decodeComplete (bytes : Bytes) : Except RemoteTransportError RemoteBulkMessage :=
  if bytes.length ≠ bulkCompleteBytes then .error (lengthError bytes bulkCompleteBytes)
  else match readTransferId bytes 1 with
    | .error e => .error e
    | .ok transferId => .ok (.complete
        { transferId
          finalLength := Bytes.word64 (bytes.slice 17 8)
          sha256 := .cut bytes 25 32 })

def decodeAbort (bytes : Bytes) : Except RemoteTransportError RemoteBulkMessage :=
  if bytes.length ≠ bulkAbortBytes then .error (lengthError bytes bulkAbortBytes)
  else match readTransferId bytes 1 with
    | .error e => .error e
    | .ok transferId => match RemoteBulkAbortReason.fromCode (bytes.getD 17 0) with
      | none => .error (bulkErr .bulkUnknownAbortReason)
      | some reason => .ok (.abort { transferId, reason })

def decode (bytes : Bytes) : Except RemoteTransportError RemoteBulkMessage :=
  match bytes.head? with
  | none => .error (bulkErr .headerTooShort)
  | some kindByte =>
    if kindByte = bulkKindBegin then decodeBegin bytes
    else if kindByte = bulkKindChunk then decodeChunk bytes
    else if kindByte = bulkKindComplete then decodeComplete bytes
    else if kindByte = bulkKindAbort then decodeAbort bytes
    else .error (bulkErr .bulkUnknownKind)

end RemoteBulkMessage

/-! ## Receiving a transfer -/

inductive RemoteBulkStatus
  | active
  | completed
  | aborted
  deriving DecidableEq, Repr

/-- The receiver's state; `hasher` holds the bytes the hasher was fed. -/
structure RemoteBulkTransferState where
  transferId : RemoteTransferId
  mimeClass : RemoteBulkMimeClass
  declaredTotal : Option UInt64
  expectedSha256 : Option (Block 32)
  maxTotalLength : UInt64
  nextChunkIndex : UInt32
  received : UInt64
  unacknowledged : UInt64
  windowLimit : UInt64
  hasher : Bytes
  status : RemoteBulkStatus
  deriving DecidableEq

namespace RemoteBulkTransferState

open Fallible

def begin (begin : RemoteBulkBegin) : Except RemoteTransportError RemoteBulkTransferState := do
  begin.validate
  pure
    { transferId := begin.transferId
      mimeClass := begin.mimeClass
      declaredTotal := begin.totalLength
      expectedSha256 := begin.expectedSha256
      maxTotalLength := begin.maxTotalLength
      nextChunkIndex := 0
      received := 0
      unacknowledged := 0
      windowLimit := maxReceiverWindowBytes
      hasher := []
      status := .active }

abbrev Step := EStateM RemoteTransportError RemoteBulkTransferState Unit

def acknowledge (bytes : UInt64) : Step :=
  modify fun s => { s with unacknowledged := s.unacknowledged.saturatingSub bytes }

def ensureActive : Step := do
  let s ← get
  match s.status with
  | .active => pure ()
  | .completed => throw (bulkErr .bulkAlreadyComplete)
  | .aborted => throw (bulkErr .bulkLateChunk)

def ensureSameTransfer (transferId : RemoteTransferId) : Step := do
  let s ← get
  ensure (transferId = s.transferId) (bulkErr .bulkUnknownTransfer)

/-- A bound by an optional value is decided on the option, not over all values of the type. -/
instance (priority := high) decidableForallOption (o : Option UInt64) (p : UInt64 → Prop)
    [DecidablePred p] : Decidable (∀ n ∈ o, p n) :=
  Option.decidableForallMem o

def acceptChunk (chunk : RemoteBulkChunk) : Step := do
  ensureActive
  ensureSameTransfer chunk.transferId
  let s ← get
  ensure (chunk.bytes.length ≤ maxBulkChunkPayloadBytes)
    (.withSize .payloadCapExceeded .bulk chunk.bytes.length)
  ensure (chunk.chunkIndex = s.nextChunkIndex) (bulkErr .bulkChunkIndexGap)
  ensure (chunk.offset = s.received) (bulkErr .bulkOffsetGap)
  let len := UInt64.ofNat chunk.bytes.length
  let projected ← okOr (s.received.checkedAdd len) (bulkErr .bulkTransferLimit)
  ensure (projected ≤ s.maxTotalLength) (bulkErr .bulkClassLimit)
  ensure (projected ≤ maxTransferBytes) (bulkErr .bulkTransferLimit)
  ensure (∀ total ∈ s.declaredTotal, projected ≤ total) (bulkErr .bulkWindowOvershoot)
  ensure (s.unacknowledged + len ≤ s.windowLimit) (bulkErr .bulkWindowOvershoot)
  -- The index wraps around behind its last value; nothing checks it.
  set { s with
    hasher := s.hasher ++ chunk.bytes
    received := projected
    unacknowledged := s.unacknowledged + len
    nextChunkIndex := s.nextChunkIndex + 1 }

def complete (sha256 : Bytes → Block 32) (complete : RemoteBulkComplete) : Step := do
  ensureActive
  ensureSameTransfer complete.transferId
  let s ← get
  ensure (complete.finalLength = s.received) (bulkErr .bulkLengthMismatch)
  ensure (∀ declared ∈ s.declaredTotal, declared = complete.finalLength)
    (bulkErr .bulkLengthMismatch)
  ensure (sha256 s.hasher = complete.sha256) (bulkErr .bulkDigestMismatch)
  ensure (∀ expected ∈ s.expectedSha256, expected = complete.sha256) (bulkErr .bulkDigestMismatch)
  set { s with status := .completed, unacknowledged := 0 }

def abort (abort : RemoteBulkAbort) : Step := do
  ensureSameTransfer abort.transferId
  let s ← get
  match s.status with
  | .aborted => pure ()
  | .completed => throw (bulkErr .bulkAlreadyComplete)
  | .active => set { s with status := .aborted, unacknowledged := 0 }

end RemoteBulkTransferState

end FlyCockpit.Transport
