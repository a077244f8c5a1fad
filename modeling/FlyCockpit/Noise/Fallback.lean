-- SUMMARY: The fallback carrier: outer records, the receive window and the send window.
import FlyCockpit.Lib.Window
import FlyCockpit.Noise.Record

/-!
# Fallback windows

Where no ordered carrier is at hand, records travel inside outer records that carry their sequence
number. The receive window puts them back into order and drops repetitions, which it recognises by
the digest of the whole outer record; the send window caches what the peer may still ask for.
-/

namespace FlyCockpit.Noise

open Bytes

def fallbackOuterHeaderLen : Nat := 28
def fallbackMaxMessage : Nat := 65563
def fallbackMaxCiphertext : Nat := 65535
def fallbackMinCiphertext : Nat := 30
def fallbackWindowRecords : Nat := 64
def fallbackWindowBytes : Nat := 4 * 1024 * 1024
/-- `u64::MAX`: nothing is acknowledged yet. -/
def ackNone : Nat := wordSize 64 - 1
def ackBatch : Nat := 8
def ackDeadlineMillis : Nat := 25
def retryMillis : List Nat := [750, 1500, 3000]
def fallbackSequenceLimit : Nat := 2 ^ 32

/-! ## Outer records -/

inductive FallbackDirection
  | clientToDaemon
  | daemonToClient
  deriving DecidableEq, Repr

def FallbackDirection.toByte : FallbackDirection → UInt8
  | .clientToDaemon => 0
  | .daemonToClient => 1

def FallbackDirection.tryFrom (value : UInt8) : Except NoiseError FallbackDirection :=
  if value = 0 then .ok .clientToDaemon
  else if value = 1 then .ok .daemonToClient
  else .error .invalidFallback

structure FallbackOuterRecordV1 where
  routeGeneration : Nat
  direction : FallbackDirection
  recordSequence : Nat
  peerSeenThrough : Nat
  ciphertext : Bytes
  deriving DecidableEq

structure ValidatedFallbackOuterHeader where
  routeGeneration : Nat
  direction : FallbackDirection
  recordSequence : Nat
  peerSeenThrough : Nat
  ciphertextLen : Nat

def validateOuterHeader (bytes : Bytes) : Except NoiseError ValidatedFallbackOuterHeader :=
  if bytes.length < fallbackOuterHeaderLen ∨ fallbackMaxMessage < bytes.length ∨
      bytes.getD 0 0 ≠ 1 then .error .invalidFallback
  else
    let ciphertextLen := ofBe (bytes.slice 26 2)
    if ciphertextLen < fallbackMinCiphertext ∨ fallbackMaxCiphertext < ciphertextLen ∨
        bytes.length ≠ fallbackOuterHeaderLen + ciphertextLen then .error .invalidFallback
    else
      let routeGeneration := ofBe (bytes.slice 1 8)
      let recordSequence := ofBe (bytes.slice 10 8)
      if routeGeneration = 0 ∨ fallbackSequenceLimit ≤ recordSequence then .error .invalidFallback
      else
        match FallbackDirection.tryFrom (bytes.getD 9 0) with
        | .error e => .error e
        | .ok direction => .ok
            { routeGeneration
              direction
              recordSequence
              peerSeenThrough := ofBe (bytes.slice 18 8)
              ciphertextLen }

namespace FallbackOuterRecordV1

/-- The header in front of the ciphertext. -/
def header (record : FallbackOuterRecordV1) : Bytes :=
  [1] ++ toBe 8 record.routeGeneration ++ [record.direction.toByte] ++
    toBe 8 record.recordSequence ++ toBe 8 record.peerSeenThrough ++
    toBe 2 record.ciphertext.length

def encode (record : FallbackOuterRecordV1) : Except NoiseError Bytes :=
  if record.routeGeneration = 0 ∨ fallbackSequenceLimit ≤ record.recordSequence ∨
      record.ciphertext.length < fallbackMinCiphertext ∨
      fallbackMaxCiphertext < record.ciphertext.length then .error .invalidFallback
  else if wordSize 16 ≤ record.ciphertext.length then .error .invalidFallback
  else .ok (record.header ++ record.ciphertext)

def decode (bytes : Bytes) : Except NoiseError FallbackOuterRecordV1 :=
  match validateOuterHeader bytes with
  | .error e => .error e
  | .ok header => .ok
      { routeGeneration := header.routeGeneration
        direction := header.direction
        recordSequence := header.recordSequence
        peerSeenThrough := header.peerSeenThrough
        ciphertext := bytes.drop 28 }

end FallbackOuterRecordV1

/-- What an accepted header says about the message. -/
theorem validateOuterHeader_bounds {bytes : Bytes} {header : ValidatedFallbackOuterHeader}
    (h : validateOuterHeader bytes = .ok header) :
    bytes.length = fallbackOuterHeaderLen + header.ciphertextLen ∧
      fallbackMinCiphertext ≤ header.ciphertextLen ∧
      header.ciphertextLen ≤ fallbackMaxCiphertext ∧
      header.recordSequence < fallbackSequenceLimit := by
  unfold validateOuterHeader at h
  dsimp only at h
  split_ifs at h with hversion hlen hseq
  split at h <;> cases h
  dsimp only
  omega

namespace FallbackOuterRecordV1

variable {record : FallbackOuterRecordV1}

@[simp] theorem header_length (record : FallbackOuterRecordV1) : record.header.length = 28 := by
  simp [header]

theorem encode_eq_ok {bytes : Bytes} : record.encode = .ok bytes ↔
      record.routeGeneration ≠ 0 ∧ record.recordSequence < fallbackSequenceLimit ∧
      fallbackMinCiphertext ≤ record.ciphertext.length ∧
      record.ciphertext.length ≤ fallbackMaxCiphertext ∧
      bytes = record.header ++ record.ciphertext := by
  have hmax : fallbackMaxCiphertext < wordSize 16 := by decide
  unfold encode
  split_ifs with hinvalid hlong
  · simp only [false_iff]
    omega
  · omega
  · simp only [Except.ok.injEq, eq_comm]
    constructor
    · intro heq
      exact ⟨by omega, by omega, by omega, by omega, heq⟩
    · exact fun h => h.2.2.2.2

/-- The header of an encoded record passes the validation with the record's own values. -/
theorem validateOuterHeader_encode {bytes : Bytes} (h : record.encode = .ok bytes)
    (hroute : record.routeGeneration < wordSize 64) (hseen : record.peerSeenThrough < wordSize 64) :
    validateOuterHeader bytes = .ok
      { routeGeneration := record.routeGeneration
        direction := record.direction
        recordSequence := record.recordSequence
        peerSeenThrough := record.peerSeenThrough
        ciphertextLen := record.ciphertext.length } := by
  obtain ⟨hgeneration, hsequence, hmin, hmax, rfl⟩ := encode_eq_ok.1 h
  have hversion : (record.header ++ record.ciphertext).getD 0 0 = 1 := rfl
  have hdirection : (record.header ++ record.ciphertext).getD 9 0 = record.direction.toByte := by
    simp [header]
  have hroute' : ofBe ((record.header ++ record.ciphertext).slice 1 8) =
      record.routeGeneration := by
    simpa [header] using ofBe_toBe (w := 8) hroute
  have hsequence' : ofBe ((record.header ++ record.ciphertext).slice 10 8) =
      record.recordSequence := by
    simpa [header] using ofBe_toBe (w := 8) (lt_trans hsequence (by decide))
  have hseen' : ofBe ((record.header ++ record.ciphertext).slice 18 8) =
      record.peerSeenThrough := by
    simpa [header] using ofBe_toBe (w := 8) hseen
  have hlength' : ofBe ((record.header ++ record.ciphertext).slice 26 2) =
      record.ciphertext.length := by
    simpa [header] using ofBe_toBe (w := 2) (lt_of_le_of_lt hmax (by decide))
  have hlength : (record.header ++ record.ciphertext).length =
      fallbackOuterHeaderLen + record.ciphertext.length := by
    simp [fallbackOuterHeaderLen]
  have hmessage : fallbackOuterHeaderLen + fallbackMaxCiphertext = fallbackMaxMessage := rfl
  unfold validateOuterHeader
  simp only [hlength, hversion, hdirection, hroute', hsequence', hseen', hlength']
  rw [if_neg (by simp; omega), if_neg (by omega), if_neg (by omega)]
  cases record.direction <;> rfl

/-- An encoded record decodes to itself. -/
theorem decode_encode {bytes : Bytes} (h : record.encode = .ok bytes)
    (hroute : record.routeGeneration < wordSize 64) (hseen : record.peerSeenThrough < wordSize 64) :
    decode bytes = .ok record := by
  unfold decode
  rw [validateOuterHeader_encode h hroute hseen]
  obtain ⟨-, -, -, -, rfl⟩ := encode_eq_ok.1 h
  simp

end FallbackOuterRecordV1

/-! ## Acknowledgements -/

structure CumulativeAckV1 where
  largestContiguous : Nat
  deriving DecidableEq, Repr

namespace CumulativeAckV1

def encode (ack : CumulativeAckV1) : Bytes := 1 :: toBe 8 ack.largestContiguous

def decode (bytes : Bytes) : Except NoiseError CumulativeAckV1 :=
  if bytes.length ≠ 9 ∨ bytes.getD 0 0 ≠ 1 then .error .invalidFallback
  else .ok ⟨ofBe (bytes.slice 1 8)⟩

end CumulativeAckV1

structure CachedRecord where
  bytes : Bytes
  byteCost : Nat
  digest : Block 32
  tracked : Bool
  retryIndex : Nat

/-! ## Receiving -/

inductive ReceiveDisposition
  | buffered
  | duplicate (acknowledge : CumulativeAckV1)
  /-- Outer records as they came, in the order of their sequence numbers. -/
  | contiguous (records : List Bytes)
  deriving DecidableEq

structure FallbackReceiveWindow where
  nextSequence : Nat
  bytes : Nat
  pending : Table Nat CachedRecord
  accepted : Table Nat (Block 32)
  newlyAdmitted : Nat
  lastAckMillis : Nat

/-- The loop that forgets the oldest digests; the fuel is the number of digests. -/
def trimAccepted : Nat → Table Nat (Block 32) → Except NoiseError (Table Nat (Block 32))
  | 0, accepted => .ok accepted
  | fuel + 1, accepted =>
    if fallbackWindowRecords < accepted.size then
      match accepted.firstKey? with
      | none => .error .invalidFallback
      | some first => trimAccepted fuel (accepted.erase first)
    else .ok accepted

namespace FallbackReceiveWindow

def new (nowMillis : Nat) : FallbackReceiveWindow where
  nextSequence := 0
  bytes := 0
  pending := ∅
  accepted := ∅
  newlyAdmitted := 0
  lastAckMillis := nowMillis

def ack (w : FallbackReceiveWindow) : CumulativeAckV1 where
  largestContiguous := if w.nextSequence = 0 then ackNone else w.nextSequence - 1

/-- The loop over the records that have become contiguous. A round takes one record out of
`pending`, whose size is the fuel. -/
def drain : Nat → FallbackReceiveWindow → List Bytes →
    Except NoiseError (List Bytes) × FallbackReceiveWindow
  | 0, w, contiguous => (.ok contiguous, w)
  | fuel + 1, w, contiguous =>
    match w.pending.lookup w.nextSequence with
    | none => (.ok contiguous, w)
    | some cached =>
      let accepted : Table Nat (Block 32) := w.accepted.insert w.nextSequence cached.digest
      let w := { w with
        pending := w.pending.erase w.nextSequence
        bytes := w.bytes - cached.byteCost
        accepted }
      match trimAccepted accepted.size accepted with
      | .error e => (.error e, w)
      | .ok accepted =>
        match checkedAdd 64 w.nextSequence 1 with
        | none => (.error .sequenceExhausted, { w with accepted })
        | some nextSequence =>
          drain fuel
            { w with accepted, nextSequence, newlyAdmitted := min (w.newlyAdmitted + 1) 255 }
            (contiguous ++ [cached.bytes])

/-- A record that is neither known nor out of bounds is put into the window. -/
def admitRecord (w : FallbackReceiveWindow) (sequence : Nat) (record : CachedRecord) :
    Except NoiseError ReceiveDisposition × FallbackReceiveWindow :=
  let w := { w with
    bytes := w.bytes + record.byteCost
    pending := w.pending.insert sequence record }
  if sequence ≠ w.nextSequence then (.ok .buffered, w)
  else
    match drain w.pending.size w [] with
    | (.error e, w) => (.error e, w)
    | (.ok contiguous, w) => (.ok (.contiguous contiguous), w)

variable (sha256 : Bytes → Block 32)

def observe (w : FallbackReceiveWindow) (bytes : Bytes) :
    Except NoiseError ReceiveDisposition × FallbackReceiveWindow :=
  match validateOuterHeader bytes with
  | .error e => (.error e, w)
  | .ok header =>
    let byteCost := header.ciphertextLen
    let sequence := header.recordSequence
    let digest := sha256 bytes
    if sequence < w.nextSequence then
      if w.accepted.lookup sequence = some digest then (.ok (.duplicate w.ack), w)
      else (.error .invalidFallback, w)
    else if fallbackWindowRecords ≤ sequence - w.nextSequence then
      (.error .fallbackWindowExceeded, w)
    else
      match w.pending.lookup sequence with
      | some prior =>
        if prior.digest = digest then (.ok (.duplicate w.ack), w)
        else (.error .invalidFallback, w)
      | none =>
        if fallbackWindowRecords ≤ w.pending.size ∨ fallbackWindowBytes < w.bytes + byteCost then
          (.error .fallbackWindowExceeded, w)
        else w.admitRecord sequence { bytes, byteCost, digest, tracked := false, retryIndex := 0 }

def ackDue (w : FallbackReceiveWindow) (nowMillis : Nat) (immediate receivedAckOnly : Bool) :
    Option CumulativeAckV1 × FallbackReceiveWindow :=
  if receivedAckOnly ∧ ¬immediate then (none, w)
  else if immediate ∨ ackBatch ≤ w.newlyAdmitted ∨
      ackDeadlineMillis ≤ nowMillis - w.lastAckMillis then
    let w := { w with newlyAdmitted := 0, lastAckMillis := nowMillis }
    (some w.ack, w)
  else (none, w)

end FallbackReceiveWindow

/-! ## Sending -/

structure FallbackSendWindow where
  bytes : Nat
  records : Table Nat CachedRecord
  nextSequence : Nat
  deliveryAck : Nat
  peerSeenThrough : Nat

namespace FallbackSendWindow

def new : FallbackSendWindow where
  bytes := 0
  records := ∅
  nextSequence := 0
  deliveryAck := ackNone
  peerSeenThrough := ackNone

def insert (sha256 : Bytes → Block 32) (w : FallbackSendWindow) (sequence : Nat)
    (ciphertext : Bytes) (deliveryTracked : Bool) : Except NoiseError Unit × FallbackSendWindow :=
  match validateOuterHeader ciphertext with
  | .error e => (.error e, w)
  | .ok header =>
    if header.recordSequence ≠ sequence then (.error .invalidFallback, w)
    else if sequence ≠ w.nextSequence ∨ (w.records.lookup sequence).isSome ∨
        fallbackWindowRecords ≤ w.records.size ∨
        fallbackWindowBytes < w.bytes + header.ciphertextLen then
      (.error .fallbackWindowExceeded, w)
    else
      let w := { w with
        bytes := w.bytes + header.ciphertextLen
        records := w.records.insert sequence
          { digest := sha256 ciphertext
            bytes := ciphertext
            byteCost := header.ciphertextLen
            tracked := deliveryTracked
            retryIndex := 0 } }
      match checkedAdd 64 w.nextSequence 1 with
      | none => (.error .sequenceExhausted, w)
      | some nextSequence => (.ok (), { w with nextSequence })

def acknowledge (w : FallbackSendWindow) (largestContiguous : Nat) :
    Except NoiseError Unit × FallbackSendWindow :=
  if largestContiguous = ackNone then
    if w.deliveryAck = ackNone then (.ok (), w) else (.error .invalidFallback, w)
  else if w.nextSequence ≤ largestContiguous ∨
      (w.deliveryAck ≠ ackNone ∧ largestContiguous < w.deliveryAck) then
    (.error .invalidFallback, w)
  else (.ok (), { w with
    deliveryAck := largestContiguous
    records := w.records.mapValues fun key record =>
      if key ≤ largestContiguous then { record with tracked := false } else record })

def retransmitFrom (w : FallbackSendWindow) (nextMissing : Nat) : List Bytes :=
  (w.records.ascending.filter (nextMissing ≤ ·)).filterMap fun key =>
    (w.records.lookup key).map (·.bytes)

/-- The loop over the tracked records, in the order of their keys. -/
def retryRecords (elapsedMillis : Nat) : List Nat → FallbackSendWindow → List Bytes →
    Except NoiseError (List Bytes) × FallbackSendWindow
  | [], w, due => (.ok due, w)
  | key :: keys, w, due =>
    match w.records.lookup key with
    | none => retryRecords elapsedMillis keys w due
    | some record =>
      if record.tracked = false then retryRecords elapsedMillis keys w due
      else if record.retryIndex < retryMillis.length ∧
          retryMillis.getD record.retryIndex 0 ≤ elapsedMillis then
        retryRecords elapsedMillis keys
          { w with
            records := w.records.insert key { record with retryIndex := record.retryIndex + 1 } }
          (due ++ [record.bytes])
      else if record.retryIndex = retryMillis.length ∧ retryMillis.getD 2 0 < elapsedMillis then
        (.error .fallbackRetryExhausted, w)
      else retryRecords elapsedMillis keys w due

def retryDue (w : FallbackSendWindow) (elapsedMillis : Nat) :
    Except NoiseError (List Bytes) × FallbackSendWindow :=
  retryRecords elapsedMillis w.records.ascending w []

/-- One record leaves the cache. -/
def release (w : FallbackSendWindow) (key : Nat) : FallbackSendWindow :=
  match w.records.lookup key with
  | none => w
  | some record => { w with
      records := w.records.erase key
      bytes := w.bytes - record.byteCost }

def releasePeerSeenThrough (w : FallbackSendWindow) (watermark : Nat) :
    Except NoiseError Unit × FallbackSendWindow :=
  if watermark = ackNone then
    if w.peerSeenThrough = ackNone then (.ok (), w) else (.error .invalidFallback, w)
  else if w.nextSequence ≤ watermark ∨
      (w.peerSeenThrough ≠ ackNone ∧ watermark < w.peerSeenThrough) then
    (.error .invalidFallback, w)
  else
    let keys := w.records.ascending.filter (· ≤ watermark)
    (.ok (), keys.foldl release { w with peerSeenThrough := watermark })

end FallbackSendWindow

end FlyCockpit.Noise
