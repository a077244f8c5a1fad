-- SUMMARY: Record plaintexts, the rekey prepare body, the handshake prologue and framed handshake messages.
import FlyCockpit.Lib.Bytes

/-!
# Noise records and handshake formats

A record plaintext is a 14-byte header (version, kind, 64-bit sequence, 32-bit payload length)
followed by the payload. A rekey prepare is carried as a 17-byte payload. The prologue binds a
connection attempt into the handshake; handshake messages travel in a 4-byte frame.
-/

namespace FlyCockpit.Noise

open Bytes

inductive NoiseError
  | invalidPrologue
  | invalidHandshakeFrame
  | handshakePayloadForbidden
  | invalidRecord
  | recordTooLarge
  | sequenceMismatch
  | sequenceExhausted
  | invalidRekey
  | budgetExceeded
  | invalidState
  | authorizationDenied
  | authenticationFailed
  | lowOrderKey
  | cryptoUnavailable
  | closed
  | invalidFallback
  | fallbackWindowExceeded
  | fallbackRetryExhausted
  deriving DecidableEq, Repr

def recordHeaderLen : Nat := 14
def tagLen : Nat := 16
def maxCiphertext : Nat := 65535
def maxPlaintext : Nat := maxCiphertext - tagLen
def maxPayload : Nat := maxPlaintext - recordHeaderLen

inductive RecordKind
  | data
  | ack
  | rekeyPrepare
  | rekeyCommit
  | close
  deriving DecidableEq, Repr

def RecordKind.toByte : RecordKind → UInt8
  | .data => 1
  | .ack => 2
  | .rekeyPrepare => 3
  | .rekeyCommit => 4
  | .close => 5

def RecordKind.tryFrom (value : UInt8) : Except NoiseError RecordKind :=
  if value = 1 then .ok .data
  else if value = 2 then .ok .ack
  else if value = 3 then .ok .rekeyPrepare
  else if value = 4 then .ok .rekeyCommit
  else if value = 5 then .ok .close
  else .error .invalidRecord

@[simp] theorem RecordKind.tryFrom_toByte (kind : RecordKind) :
    RecordKind.tryFrom kind.toByte = .ok kind := by
  cases kind <;> rfl

/-! ## Record plaintexts -/

structure RemoteNoiseRecordV1 where
  kind : RecordKind
  sequence : Nat
  payload : Bytes
  deriving DecidableEq, Repr

namespace RemoteNoiseRecordV1

def header (record : RemoteNoiseRecordV1) : Bytes :=
  [1, record.kind.toByte] ++ toBe 8 record.sequence ++ toBe 4 record.payload.length

def encodePlaintext (record : RemoteNoiseRecordV1) : Except NoiseError Bytes :=
  if maxPayload < record.payload.length then .error .recordTooLarge
  else if wordSize 32 ≤ record.payload.length then .error .recordTooLarge
  else .ok (record.header ++ record.payload)

def decodePlaintext (bytes : Bytes) (routingSequence : Nat) :
    Except NoiseError RemoteNoiseRecordV1 :=
  if bytes.length < recordHeaderLen ∨ maxPlaintext < bytes.length then .error .invalidRecord
  else
    match RecordKind.tryFrom (bytes.getD 1 0) with
    | .error e => .error e
    | .ok kind =>
      let sequence := ofBe (bytes.slice 2 8)
      let length := ofBe (bytes.slice 10 4)
      if bytes.getD 0 0 ≠ 1 ∨ maxPayload < length ∨ bytes.length ≠ recordHeaderLen + length then
        .error .invalidRecord
      else if sequence ≠ routingSequence then .error .sequenceMismatch
      else .ok { kind, sequence, payload := bytes.drop recordHeaderLen }

@[simp] theorem header_length (record : RemoteNoiseRecordV1) : record.header.length = 14 := by
  simp [header]

variable {record : RemoteNoiseRecordV1}

theorem encodePlaintext_eq_ok {bytes : Bytes} : record.encodePlaintext = .ok bytes ↔
      record.payload.length ≤ maxPayload ∧ bytes = record.header ++ record.payload := by
  have hmax : maxPayload < wordSize 32 := by decide
  unfold encodePlaintext
  split
  · simp; omega
  · split
    · simp; omega
    · simp [eq_comm]; omega

/-- A plaintext decodes to the record it was made from, and to no other routing sequence. -/
theorem decodePlaintext_header_append
    (hpayload : record.payload.length ≤ maxPayload) (hseq : record.sequence < wordSize 64)
    (routingSequence : Nat) :
    decodePlaintext (record.header ++ record.payload) routingSequence =
      if record.sequence = routingSequence then .ok record else .error .sequenceMismatch := by
  have hseq' : ofBe (toBe 8 record.sequence) = record.sequence :=
    ofBe_toBe hseq
  have hlen' : ofBe (toBe 4 record.payload.length) = record.payload.length :=
    ofBe_toBe (lt_of_le_of_lt hpayload (by decide))
  have hkind : (record.header ++ record.payload).getD 1 0 = record.kind.toByte := rfl
  have hversion : (record.header ++ record.payload).getD 0 0 = 1 := rfl
  have hseqBytes : (record.header ++ record.payload).slice 2 8 = toBe 8 record.sequence := by
    simp [header]
  have hlenBytes : (record.header ++ record.payload).slice 10 4 = toBe 4 record.payload.length := by
    simp [header]
  have hrest : (record.header ++ record.payload).drop recordHeaderLen = record.payload := by
    simp [recordHeaderLen]
  have hle : ¬(maxPayload < record.payload.length) := by omega
  have hbounds : ¬((record.header ++ record.payload).length < recordHeaderLen ∨
      maxPlaintext < (record.header ++ record.payload).length) := by
    simp only [List.length_append, header_length, recordHeaderLen]
    simp only [maxPayload, recordHeaderLen] at hpayload
    have : maxPlaintext = 65519 := rfl
    omega
  have hlenEq : (record.header ++ record.payload).length =
      recordHeaderLen + record.payload.length := by simp [recordHeaderLen]
  unfold decodePlaintext
  rw [if_neg hbounds, hkind, RecordKind.tryFrom_toByte]
  simp only [hseqBytes, hlenBytes, hseq', hlen', hversion, hrest]
  rw [if_neg (by simp [hle, recordHeaderLen])]
  by_cases heq : record.sequence = routingSequence <;> simp [heq]
  simp [← heq]

end RemoteNoiseRecordV1

/-! ## Rekey prepares -/

structure RekeyPrepareV1 where
  direction : UInt8
  keyEpoch : Nat
  nextKeyEpoch : Nat
  throughSequence : Nat
  deriving DecidableEq, Repr

namespace RekeyPrepareV1

def len : Nat := 17

def encode (p : RekeyPrepareV1) : Bytes :=
  [p.direction] ++ toBe 4 p.keyEpoch ++ toBe 4 p.nextKeyEpoch ++ toBe 8 p.throughSequence

def decode (bytes : Bytes) : Except NoiseError RekeyPrepareV1 :=
  if bytes.length ≠ len ∨ ¬(bytes.getD 0 0 = 1 ∨ bytes.getD 0 0 = 2) then .error .invalidRekey
  else
    .ok
      { direction := bytes.getD 0 0
        keyEpoch := ofBe (bytes.slice 1 4)
        nextKeyEpoch := ofBe (bytes.slice 5 4)
        throughSequence := ofBe (bytes.slice 9 8) }

@[simp] theorem encode_length (p : RekeyPrepareV1) : p.encode.length = 17 := by
  simp [encode]

variable {p : RekeyPrepareV1}

theorem decode_eq_ok {bytes : Bytes} (h : decode bytes = .ok p) :
    bytes.length = 17 ∧ (bytes.getD 0 0 = 1 ∨ bytes.getD 0 0 = 2) := by
  unfold decode at h
  split_ifs at h with hc
  exact ⟨not_not.1 (not_or.1 hc).1, not_not.1 (not_or.1 hc).2⟩

/-- A prepare with its integers reduced to the widths of their fields. -/
def wrapped (p : RekeyPrepareV1) : RekeyPrepareV1 where
  direction := p.direction
  keyEpoch := p.keyEpoch % 256 ^ 4
  nextKeyEpoch := p.nextKeyEpoch % 256 ^ 4
  throughSequence := p.throughSequence % 256 ^ 8

theorem wrapped_eq_self (hkey : p.keyEpoch < 256 ^ 4)
    (hnext : p.nextKeyEpoch < 256 ^ 4) (hthrough : p.throughSequence < 256 ^ 8) :
    p.wrapped = p := by
  simp only [wrapped, Nat.mod_eq_of_lt hkey, Nat.mod_eq_of_lt hnext, Nat.mod_eq_of_lt hthrough]

theorem decode_encode (hdir : p.direction = 1 ∨ p.direction = 2) :
    decode p.encode = .ok p.wrapped := by
  have hhead : p.encode.getD 0 0 = p.direction := rfl
  have hok : ¬(p.encode.length ≠ len ∨ ¬(p.encode.getD 0 0 = 1 ∨ p.encode.getD 0 0 = 2)) := by
    rw [hhead, encode_length]
    exact not_or.2 ⟨fun h => h rfl, not_not.2 hdir⟩
  unfold decode
  rw [if_neg hok, hhead]
  simp [encode, ofBe_toBe_mod, wrapped]

end RekeyPrepareV1

/-! ## Handshakes -/

/-! ## Prologue -/

def prologueDomain : Bytes := ascii "flycockpit-remote-noise-prologue-v1" ++ [0]
def prologueBodyLen : Nat := 186
def prologueEncodedLen : Nat := prologueDomain.length + prologueBodyLen
def prologueMagic : Bytes := ascii "FCNP"

structure RemoteNoisePrologueV1 where
  childAttemptId : Bytes
  grantJti : Bytes
  clientCertificateId : Bytes
  clientCertificateGeneration : Nat
  daemonCertificateId : Bytes
  daemonCertificateGeneration : Nat
  selectedTupleId : Nat
  negotiationDigest : Bytes
  policyDigest : Bytes
  connectionNonce : Bytes
  deriving DecidableEq, Repr

namespace RemoteNoisePrologueV1

def encode (p : RemoteNoisePrologueV1) : Bytes :=
  prologueDomain ++ prologueMagic ++ [1] ++ p.childAttemptId ++ p.grantJti ++
    p.clientCertificateId ++ toBe 8 p.clientCertificateGeneration ++
    p.daemonCertificateId ++ toBe 8 p.daemonCertificateGeneration ++
    toBe 2 p.selectedTupleId ++ p.negotiationDigest ++ p.policyDigest ++
    p.connectionNonce ++ [1, 2, 2]

/-- The cursor of `take_array` is written out: the accepted length makes every slice complete. -/
def decode (bytes : Bytes) : Except NoiseError RemoteNoisePrologueV1 :=
  if bytes.length ≠ prologueEncodedLen ∨ bytes.take prologueDomain.length ≠ prologueDomain then
    .error .invalidPrologue
  else
    let body : Bytes := bytes.drop prologueDomain.length
    if body.take 4 ≠ prologueMagic ∨ body.getD 4 0 ≠ 1 ∨ body.drop 183 ≠ [1, 2, 2] then
      .error .invalidPrologue
    else
      .ok
        { childAttemptId := body.slice 5 16
          grantJti := body.slice 21 16
          clientCertificateId := body.slice 37 16
          clientCertificateGeneration := ofBe (body.slice 53 8)
          daemonCertificateId := body.slice 61 16
          daemonCertificateGeneration := ofBe (body.slice 77 8)
          selectedTupleId := ofBe (body.slice 85 2)
          negotiationDigest := body.slice 87 32
          policyDigest := body.slice 119 32
          connectionNonce := body.slice 151 32 }

/-- The fixed-size fields have their sizes and the integers fit theirs. -/
structure WellFormed (p : RemoteNoisePrologueV1) : Prop where
  childAttemptId : p.childAttemptId.length = 16
  grantJti : p.grantJti.length = 16
  clientCertificateId : p.clientCertificateId.length = 16
  clientCertificateGeneration : p.clientCertificateGeneration < wordSize 64
  daemonCertificateId : p.daemonCertificateId.length = 16
  daemonCertificateGeneration : p.daemonCertificateGeneration < wordSize 64
  selectedTupleId : p.selectedTupleId < wordSize 16
  negotiationDigest : p.negotiationDigest.length = 32
  policyDigest : p.policyDigest.length = 32
  connectionNonce : p.connectionNonce.length = 32

theorem prologueDomain_length : prologueDomain.length = 36 := by decide

theorem prologueMagic_eq : prologueMagic = [70, 67, 78, 80] := by decide

theorem decode_encode {p : RemoteNoisePrologueV1} (h : WellFormed p) : decode p.encode = .ok p := by
  obtain ⟨h1, h2, h3, h4, h5, h6, h7, h8, h9, h10⟩ := h
  have hclient : ofBe (toBe 8 p.clientCertificateGeneration) =
      p.clientCertificateGeneration := ofBe_toBe h4
  have hdaemon : ofBe (toBe 8 p.daemonCertificateGeneration) =
      p.daemonCertificateGeneration := ofBe_toBe h6
  have htuple : ofBe (toBe 2 p.selectedTupleId) = p.selectedTupleId :=
    ofBe_toBe h7
  have hlen : p.encode.length = prologueEncodedLen := by
    simp [encode, h1, h2, h3, h5, h8, h9, h10, prologueDomain_length, prologueMagic_eq,
      prologueEncodedLen, prologueBodyLen]
  have htake : p.encode.take prologueDomain.length = prologueDomain := by simp [encode]
  have hbody : p.encode.drop prologueDomain.length =
      [70, 67, 78, 80] ++ ([1] ++ (p.childAttemptId ++ (p.grantJti ++ (p.clientCertificateId ++
      (toBe 8 p.clientCertificateGeneration ++ (p.daemonCertificateId ++
      (toBe 8 p.daemonCertificateGeneration ++ (toBe 2 p.selectedTupleId ++
      (p.negotiationDigest ++ (p.policyDigest ++ (p.connectionNonce ++ [1, 2, 2]))))))))))) := by
    simp [encode, prologueMagic_eq]
  unfold decode
  rw [if_neg (by rw [hlen, htake]; simp)]
  simp only [hbody, prologueMagic_eq]
  rw [if_neg]
  · simp [h1, h2, h3, h5, h8, h9, h10, hclient, hdaemon, htuple]
  · simp [h1, h2, h3, h5, h8, h9, h10]

end RemoteNoisePrologueV1

/-! ## Framed handshake messages -/

def handshakeHeaderLen : Nat := 4
def maxHandshakeMessage : Nat := 4096
def absoluteCiphertextCap : Nat := 65535

structure HandshakeFrame where
  messageIndex : UInt8
  message : Bytes
  deriving DecidableEq, Repr

namespace HandshakeFrame

def encode (messageIndex : UInt8) (message : Bytes) : Except NoiseError Bytes :=
  if ¬(messageIndex = 1 ∨ messageIndex = 2) ∨ message = [] ∨
      maxHandshakeMessage < message.length then .error .invalidHandshakeFrame
  else if wordSize 16 ≤ message.length then .error .invalidHandshakeFrame
  else .ok ([1, messageIndex] ++ toBe 2 message.length ++ message)

def decode (bytes : Bytes) (expectedIndex : UInt8) : Except NoiseError HandshakeFrame :=
  if bytes.length < handshakeHeaderLen ∨ absoluteCiphertextCap < bytes.length then
    .error .invalidHandshakeFrame
  else
    let index := bytes.getD 1 0
    let length := ofBe ((bytes.drop 2).take 2)
    if bytes.getD 0 0 ≠ 1 ∨ index ≠ expectedIndex ∨ ¬(index = 1 ∨ index = 2) ∨ length = 0 ∨
        maxHandshakeMessage < length ∨ bytes.length ≠ handshakeHeaderLen + length then
      .error .invalidHandshakeFrame
    else .ok { messageIndex := index, message := bytes.drop 4 }

end HandshakeFrame

end FlyCockpit.Noise
