-- SUMMARY: The binary control event: 98-byte header, eight payload kinds, exact decoding.
import FlyCockpit.Lib.Bytes
import FlyCockpit.Lib.Fallible

/-!
# Control events

A control event is a 98-byte header, which carries the length and the digest of the payload, and
the payload of one of eight kinds. Decoding is exact: every byte is accounted for. SHA-256 is a
parameter.
-/

namespace FlyCockpit.Continuity

open Block Bytes

def remoteControlEventMagic : Bytes := ascii "FCRC"
def remoteControlEventVersion : UInt8 := 1
def remoteControlEventHeaderBytes : Nat := 98
def remoteControlEventMaxPayload : Nat := 65536
def remoteControlEventMaxBytes : Nat := 65634
def remoteControlEventMaxEmbeddedJws : Nat := 16384

inductive ControlEventError
  | length
  | magic
  | version
  | eventIdZero
  | controlSeqZero
  | unknownKind
  | payloadCap
  | payloadLength
  | embeddedJwsLength
  | digestMismatch
  deriving DecidableEq, Repr

inductive RemoteControlEventKind
  | leaseRefresh
  | policyNarrowed
  | deviceRevoked
  | instanceRevoked
  | tenantAuthorityChanged
  | attachmentRevoked
  | drain
  | authorityStatus
  deriving DecidableEq, Repr

namespace RemoteControlEventKind

def fromByte (byte : UInt8) : Option RemoteControlEventKind :=
  if byte = 1 then some leaseRefresh
  else if byte = 2 then some policyNarrowed
  else if byte = 3 then some deviceRevoked
  else if byte = 4 then some instanceRevoked
  else if byte = 5 then some tenantAuthorityChanged
  else if byte = 6 then some attachmentRevoked
  else if byte = 7 then some drain
  else if byte = 8 then some authorityStatus
  else none

def toByte : RemoteControlEventKind → UInt8
  | leaseRefresh => 1
  | policyNarrowed => 2
  | deviceRevoked => 3
  | instanceRevoked => 4
  | tenantAuthorityChanged => 5
  | attachmentRevoked => 6
  | drain => 7
  | authorityStatus => 8

@[simp] theorem fromByte_toByte (kind : RemoteControlEventKind) :
    fromByte kind.toByte = some kind := by
  cases kind <;> rfl

end RemoteControlEventKind

/-! ## The header -/

structure RemoteControlEventHeaderV1 where
  controlSeq : UInt64
  eventId : Block 16
  kind : RemoteControlEventKind
  serviceVersion : UInt64
  policyEpoch : UInt64
  authorityEpoch : UInt64
  issuedAt : Int64
  payloadLength : UInt32
  payloadDigest : Block 32
  deriving DecidableEq

namespace RemoteControlEventHeaderV1

def decode (bytes : Bytes) : Except ControlEventError RemoteControlEventHeaderV1 :=
  if bytes.length ≠ remoteControlEventHeaderBytes then .error .length
  else if bytes.slice 0 4 ≠ remoteControlEventMagic then .error .magic
  else if bytes.getD 4 0 ≠ remoteControlEventVersion then .error .version
  else if word64 (bytes.slice 5 8) < 1 then .error .controlSeqZero
  else if (cut bytes 13 16).isZero then .error .eventIdZero
  else
    match RemoteControlEventKind.fromByte (bytes.getD 29 0) with
    | none => .error .unknownKind
    | some kind =>
      if (word32 (bytes.slice 62 4)).toNat > remoteControlEventMaxPayload then .error .payloadCap
      else
        .ok
          { controlSeq := word64 (bytes.slice 5 8)
            eventId := cut bytes 13 16
            kind
            serviceVersion := word64 (bytes.slice 30 8)
            policyEpoch := word64 (bytes.slice 38 8)
            authorityEpoch := word64 (bytes.slice 46 8)
            issuedAt := wordI64 (bytes.slice 54 8)
            payloadLength := word32 (bytes.slice 62 4)
            payloadDigest := cut bytes 66 32 }

def encode (header : RemoteControlEventHeaderV1) : Bytes :=
  remoteControlEventMagic ++ ([remoteControlEventVersion] ++ (be64 header.controlSeq ++
    (header.eventId.val ++ ([header.kind.toByte] ++ (be64 header.serviceVersion ++
      (be64 header.policyEpoch ++ (be64 header.authorityEpoch ++ (beI64 header.issuedAt ++
        (be32 header.payloadLength ++ header.payloadDigest.val)))))))))

@[simp] theorem length_encode (header : RemoteControlEventHeaderV1) : header.encode.length = 98 := by
  have hmagic : remoteControlEventMagic.length = 4 := by decide
  simp [encode, hmagic]

/-- Decoding reads back every field, behind the checks of the fields. -/
theorem decode_encode_eq (header : RemoteControlEventHeaderV1) : decode header.encode =
      if header.controlSeq < 1 then .error .controlSeqZero
      else if header.eventId.isZero then .error .eventIdZero
      else if header.payloadLength.toNat > remoteControlEventMaxPayload then .error .payloadCap
      else .ok header := by
  have hmagic : remoteControlEventMagic.length = 4 := by decide
  have hfields : header.encode.slice 0 4 = remoteControlEventMagic ∧
      header.encode.getD 4 0 = remoteControlEventVersion ∧
      header.encode.slice 5 8 = be64 header.controlSeq ∧
      cut header.encode 13 16 = header.eventId ∧
      header.encode.getD 29 0 = header.kind.toByte ∧
      header.encode.slice 30 8 = be64 header.serviceVersion ∧
      header.encode.slice 38 8 = be64 header.policyEpoch ∧
      header.encode.slice 46 8 = be64 header.authorityEpoch ∧
      header.encode.slice 54 8 = beI64 header.issuedAt ∧
      header.encode.slice 62 4 = be32 header.payloadLength ∧
      cut header.encode 66 32 = header.payloadDigest := by
    simp [encode, hmagic]
  obtain ⟨hstart, hformat, hseq, hid, hkind, hversion, hpolicy, hauthority, hissued, hlength,
    hdigest⟩ := hfields
  simp only [decode, length_encode, hstart, hformat, hseq, hid, hkind, hversion, hpolicy, hauthority,
    hissued, hlength, hdigest, RemoteControlEventKind.fromByte_toByte, word64_be64, word32_be32,
    wordI64_beI64, remoteControlEventHeaderBytes, ne_eq, not_true_eq_false, if_false]

variable {header : RemoteControlEventHeaderV1}

theorem decode_encode {header' : RemoteControlEventHeaderV1}
    (h : decode header.encode = .ok header') : header' = header := by
  rw [decode_encode_eq] at h
  split_ifs at h
  cases h
  rfl

theorem one_le_controlSeq {bytes : Bytes}
    (h : decode bytes = .ok header) : 1 ≤ header.controlSeq := by
  unfold decode at h
  split_ifs at h with _ _ _ hseq <;> split at h <;> cases h
  exact UInt64.not_lt.1 hseq

end RemoteControlEventHeaderV1

/-! ## Payloads -/

inductive RemoteControlEventPayload
  | leaseRefresh (leaseJws : Bytes)
  | policyNarrowed (previousDigest newDigest : Block 32) (affectedFieldBits : UInt64)
  | deviceRevoked (deviceId : Block 16) (generation : UInt64)
  | instanceRevoked (instanceId : Block 16) (generation : UInt64)
  | tenantAuthorityChanged (previousEpoch newEpoch : UInt64) (ringDigest : Block 32)
  | attachmentRevoked (logicalAttachmentId : Block 16) (reason : UInt8)
  | drain (deadline : Int64) (reason : UInt8)
  | authorityStatus (statusGeneration : UInt64) (statusJws : Bytes)
  deriving DecidableEq

/-- A `{length:u16, bytes}` embedded JWS. -/
def decodeLengthPrefixedJws (bytes : Bytes) : Except ControlEventError Bytes :=
  if bytes.length < 2 then .error .payloadLength
  else
    let len := (word16 (bytes.slice 0 2)).toNat
    if len = 0 ∨ len > remoteControlEventMaxEmbeddedJws then .error .embeddedJwsLength
    else if bytes.length ≠ 2 + len then .error .payloadLength
    else .ok (bytes.drop 2)

namespace RemoteControlEventPayload

def kind : RemoteControlEventPayload → RemoteControlEventKind
  | leaseRefresh .. => .leaseRefresh
  | policyNarrowed .. => .policyNarrowed
  | deviceRevoked .. => .deviceRevoked
  | instanceRevoked .. => .instanceRevoked
  | tenantAuthorityChanged .. => .tenantAuthorityChanged
  | attachmentRevoked .. => .attachmentRevoked
  | drain .. => .drain
  | authorityStatus .. => .authorityStatus

-- The length of a JWS is cast, not checked: a longer one is encoded with a wrong length.
def encode : RemoteControlEventPayload → Bytes
  | leaseRefresh leaseJws => be16 (UInt16.ofNat leaseJws.length) ++ leaseJws
  | policyNarrowed previousDigest newDigest affectedFieldBits =>
    previousDigest.val ++ newDigest.val ++ be64 affectedFieldBits
  | deviceRevoked deviceId generation => deviceId.val ++ be64 generation
  | instanceRevoked instanceId generation => instanceId.val ++ be64 generation
  | tenantAuthorityChanged previousEpoch newEpoch ringDigest =>
    be64 previousEpoch ++ be64 newEpoch ++ ringDigest.val
  | attachmentRevoked logicalAttachmentId reason => logicalAttachmentId.val ++ [reason]
  | drain deadline reason => beI64 deadline ++ [reason]
  | authorityStatus statusGeneration statusJws =>
    be64 statusGeneration ++ be16 (UInt16.ofNat statusJws.length) ++ statusJws

def decode (kind : RemoteControlEventKind) (bytes : Bytes) :
    Except ControlEventError RemoteControlEventPayload :=
  match kind with
  | .leaseRefresh => (decodeLengthPrefixedJws bytes).map leaseRefresh
  | .policyNarrowed =>
    if bytes.length ≠ 72 then .error .payloadLength
    else .ok (policyNarrowed (cut bytes 0 32) (cut bytes 32 32) (word64 (bytes.slice 64 8)))
  | .deviceRevoked =>
    if bytes.length ≠ 24 then .error .payloadLength
    else .ok (deviceRevoked (cut bytes 0 16) (word64 (bytes.slice 16 8)))
  | .instanceRevoked =>
    if bytes.length ≠ 24 then .error .payloadLength
    else .ok (instanceRevoked (cut bytes 0 16) (word64 (bytes.slice 16 8)))
  | .tenantAuthorityChanged =>
    if bytes.length ≠ 48 then .error .payloadLength
    else .ok (tenantAuthorityChanged (word64 (bytes.slice 0 8)) (word64 (bytes.slice 8 8))
      (cut bytes 16 32))
  | .attachmentRevoked =>
    if bytes.length ≠ 17 then .error .payloadLength
    else .ok (attachmentRevoked (cut bytes 0 16) (bytes.getD 16 0))
  | .drain =>
    if bytes.length ≠ 9 then .error .payloadLength
    else .ok (drain (wordI64 (bytes.slice 0 8)) (bytes.getD 8 0))
  | .authorityStatus =>
    if bytes.length < 10 then .error .payloadLength
    else (decodeLengthPrefixedJws (bytes.drop 8)).map (authorityStatus (word64 (bytes.slice 0 8)))

end RemoteControlEventPayload

/-! ## Whole events -/

structure RemoteControlEventV1 where
  header : RemoteControlEventHeaderV1
  payload : RemoteControlEventPayload
  deriving DecidableEq

namespace RemoteControlEventV1

variable (sha256 : Bytes → Block 32)

/-- An event whose header fits its payload. -/
def «seal» (controlSeq : UInt64) (eventId : Block 16) (serviceVersion policyEpoch authorityEpoch : UInt64)
    (issuedAt : Int64) (payload : RemoteControlEventPayload) : RemoteControlEventV1 where
  header :=
    { controlSeq, eventId, kind := payload.kind, serviceVersion, policyEpoch, authorityEpoch, issuedAt
      payloadLength := UInt32.ofNat payload.encode.length
      payloadDigest := sha256 payload.encode }
  payload

/-- The header as it is encoded: length and digest are computed, whatever the fields hold. -/
def sealedHeader (event : RemoteControlEventV1) : RemoteControlEventHeaderV1 :=
  { event.header with
    payloadLength := UInt32.ofNat event.payload.encode.length
    payloadDigest := sha256 event.payload.encode }

def encode (event : RemoteControlEventV1) : Bytes :=
  (event.sealedHeader sha256).encode ++ event.payload.encode

def decode (bytes : Bytes) : Except ControlEventError RemoteControlEventV1 :=
  if bytes.length < remoteControlEventHeaderBytes ∨ bytes.length > remoteControlEventMaxBytes then
    .error .length
  else do
    let header ← RemoteControlEventHeaderV1.decode (bytes.slice 0 remoteControlEventHeaderBytes)
    let payloadBytes := bytes.drop remoteControlEventHeaderBytes
    if payloadBytes.length ≠ header.payloadLength.toNat then .error .payloadLength
    else if sha256 payloadBytes ≠ header.payloadDigest then .error .digestMismatch
    else
      let payload ← RemoteControlEventPayload.decode header.kind payloadBytes
      return { header, payload }

variable {sha256} {bytes : Bytes} {event : RemoteControlEventV1}

theorem decode_eq_ok (h : decode sha256 bytes = .ok event) :
    RemoteControlEventHeaderV1.decode (bytes.slice 0 remoteControlEventHeaderBytes) =
      .ok event.header := by
  unfold decode at h
  split_ifs at h
  obtain ⟨header, hheader, h⟩ := Fallible.result_bind_eq_ok.1 h
  dsimp only at h
  split_ifs at h
  obtain ⟨payload, -, h⟩ := Fallible.result_bind_eq_ok.1 h
  cases h
  exact hheader

theorem one_le_controlSeq (h : decode sha256 bytes = .ok event) : 1 ≤ event.header.controlSeq :=
  RemoteControlEventHeaderV1.one_le_controlSeq (decode_eq_ok h)

/-- An event that survives its own encoding keeps its header, up to length and digest. -/
theorem decode_encode {event' : RemoteControlEventV1}
    (h : decode sha256 (event.encode sha256) = .ok event') :
    event'.header = event.sealedHeader sha256 := by
  have hheader := decode_eq_ok h
  rw [encode, remoteControlEventHeaderBytes,
    slice_head (RemoteControlEventHeaderV1.length_encode _)] at hheader
  exact RemoteControlEventHeaderV1.decode_encode hheader

end RemoteControlEventV1

/-- What the daemon keeps of an event to know it again. -/
def controlEventByteHash (sha256 : Bytes → Block 32) (bytes : Bytes) : Block 32 :=
  sha256 bytes

end FlyCockpit.Continuity
