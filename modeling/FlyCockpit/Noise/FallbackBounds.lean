-- SUMMARY: Bounds of the fallback windows that hold whatever bytes and calls arrive.
import FlyCockpit.Noise.FallbackDelivery

/-!
# Windows under hostile input

Nothing is assumed about the bytes here: they may not decode, repeat, skip and contradict earlier
ones. The windows still keep within their limits and their books stay balanced.
-/

namespace FlyCockpit.Noise

open Table

/-! ## Receiving -/

namespace FallbackReceiveWindow

variable {sha256 : Bytes → Block 32} {w : FallbackReceiveWindow}

/-- What also holds in the middle of a call, while contiguous records leave the window. -/
structure Balanced (w : FallbackReceiveWindow) : Prop where
  bytes : w.bytes = w.pending.total (·.byteCost)
  bytes_le : w.bytes ≤ fallbackWindowBytes
  size_le : w.pending.size ≤ fallbackWindowRecords
  pending : ∀ k record, w.pending.lookup k = some record →
    w.nextSequence ≤ k ∧ k < w.nextSequence + fallbackWindowRecords ∧ k < fallbackSequenceLimit
  accepted : w.accepted.keySet = Finset.Ico (w.nextSequence - fallbackWindowRecords) w.nextSequence

/-- Between two calls the next record is missing. -/
structure Settled (w : FallbackReceiveWindow) : Prop extends Balanced w where
  missing : w.pending.lookup w.nextSequence = none

theorem settled_new (nowMillis : Nat) : Settled (new nowMillis) where
  bytes := rfl
  bytes_le := Nat.zero_le _
  size_le := Nat.zero_le _
  pending k record h := by
    rw [new, AList.lookup_empty] at h
    cases h
  accepted := rfl
  missing := AList.lookup_empty _

/-- One round of the loop keeps the balance, and does not fail. -/
theorem Balanced.round (h : Balanced w) {cached : CachedRecord}
    (hcached : w.pending.lookup w.nextSequence = some cached) :
    ∃ trimmed, trimAccepted (size (w.accepted.insert w.nextSequence cached.digest))
        (w.accepted.insert w.nextSequence cached.digest) = .ok trimmed ∧
      checkedAdd 64 w.nextSequence 1 = some (w.nextSequence + 1) ∧
      Balanced
        { w with
          pending := w.pending.erase w.nextSequence
          bytes := w.bytes - cached.byteCost
          accepted := trimmed
          nextSequence := w.nextSequence + 1
          newlyAdmitted := min (w.newlyAdmitted + 1) 255 } := by
  obtain ⟨-, -, hlimit⟩ := h.pending _ _ hcached
  have hkeys : keySet (w.accepted.insert w.nextSequence cached.digest) =
      Finset.Ico (w.nextSequence - fallbackWindowRecords) (w.nextSequence + 1) := by
    rw [keySet_insert, h.accepted]
    ext k
    rw [Finset.mem_insert, Finset.mem_Ico, Finset.mem_Ico]
    omega
  have hcount : w.nextSequence + 1 - (w.nextSequence - fallbackWindowRecords) ≤
      size (w.accepted.insert w.nextSequence cached.digest) := by
    rw [size_eq_card, hkeys, Nat.card_Ico]
  obtain ⟨trimmed, htrim, hlookup⟩ := trimAccepted_spec hkeys hcount
  have hsmall : fallbackSequenceLimit < wordSize 64 := by decide
  have hsize := size_erase hcached
  have htotal := total_erase (·.byteCost) hcached
  have hbytes := h.bytes
  have hbytes_le := h.bytes_le
  have hsize_le := h.size_le
  refine ⟨trimmed, htrim, checkedAdd_of_lt (by omega), ?_, ?_, ?_, ?_, ?_⟩
  · dsimp only
    omega
  · dsimp only
    omega
  · dsimp only
    omega
  · intro k record hrecord
    dsimp only at hrecord ⊢
    rw [lookup_erase_eq] at hrecord
    split_ifs at hrecord with hk
    obtain ⟨hle, hlt, hlimit⟩ := h.pending k record hrecord
    exact ⟨by omega, by omega, hlimit⟩
  · ext k
    dsimp only
    have hmem := Finset.ext_iff.1 hkeys k
    rw [mem_keySet, Finset.mem_Ico] at hmem
    rw [mem_keySet, hlookup k, Finset.mem_Ico]
    by_cases hk : w.nextSequence + 1 ≤ k + fallbackWindowRecords
    · rw [if_pos hk, hmem]
      omega
    · rw [if_neg hk]
      simp only [reduceCtorEq, exists_false, false_iff]
      omega

theorem Balanced.drain {fuel : Nat} (h : Balanced w) (hfuel : w.pending.size ≤ fuel)
    (contiguous : List Bytes) : Settled (FallbackReceiveWindow.drain fuel w contiguous).2 := by
  induction fuel generalizing w contiguous with
  | zero =>
    have hmissing : w.pending.lookup w.nextSequence = none := by
      rw [← Option.not_isSome_iff_eq_none, Option.isSome_iff_exists, ← mem_keySet]
      rw [size_eq_card, Nat.le_zero, Finset.card_eq_zero] at hfuel
      rw [hfuel]
      exact Finset.notMem_empty _
    exact ⟨h, hmissing⟩
  | succ fuel ih =>
    cases hcached : w.pending.lookup w.nextSequence with
    | none =>
      rw [drain_of_missing _ hcached]
      exact ⟨h, hcached⟩
    | some cached =>
      obtain ⟨trimmed, htrim, hnext, hround⟩ := h.round hcached
      have hsize := size_erase hcached
      rw [FallbackReceiveWindow.drain, hcached]
      dsimp only
      rw [htrim]
      dsimp only
      rw [hnext]
      exact ih hround (by dsimp only; omega) _

/-- A record within the limits is taken into the window. -/
theorem Settled.admitRecord (h : Settled w) {k : Nat} {record : CachedRecord}
    (hle : w.nextSequence ≤ k) (hlt : k < w.nextSequence + fallbackWindowRecords)
    (hlimit : k < fallbackSequenceLimit) (hfresh : w.pending.lookup k = none)
    (hsize : w.pending.size < fallbackWindowRecords)
    (hbytes : w.bytes + record.byteCost ≤ fallbackWindowBytes) :
    Settled (w.admitRecord k record).2 := by
  have hbalanced : Balanced { w with
      bytes := w.bytes + record.byteCost
      pending := w.pending.insert k record } := by
    refine ⟨?_, hbytes, ?_, ?_, h.accepted⟩
    · dsimp only
      rw [total_insert, erase_of_none hfresh, h.bytes]
      omega
    · dsimp only
      rw [size_insert, erase_of_none hfresh]
      exact hsize
    · intro j other hother
      dsimp only at hother ⊢
      rw [lookup_insert_eq] at hother
      split_ifs at hother with hj
      · exact hj ▸ ⟨hle, hlt, hlimit⟩
      · exact h.pending j other hother
  unfold FallbackReceiveWindow.admitRecord
  dsimp only
  by_cases hk : k = w.nextSequence
  · have hdrain := hbalanced.drain le_rfl []
    rw [if_neg (not_not_intro hk)]
    generalize FallbackReceiveWindow.drain _ _ _ = result at hdrain ⊢
    obtain ⟨answer | answer, w'⟩ := result
    · exact hdrain
    · exact hdrain
  · rw [if_pos hk]
    refine ⟨hbalanced, ?_⟩
    dsimp only
    rw [lookup_insert_eq, if_neg (Ne.symm hk), h.missing]

theorem Settled.observe (h : Settled w) (bytes : Bytes) : Settled (w.observe sha256 bytes).2 := by
  unfold FallbackReceiveWindow.observe
  cases hvalid : validateOuterHeader bytes with
  | error e => exact h
  | ok header =>
    have hlimit := (validateOuterHeader_bounds hvalid).2.2.2
    dsimp only
    cases hpending : w.pending.lookup header.recordSequence with
    | some prior =>
      dsimp only
      split_ifs <;> exact h
    | none =>
      dsimp only
      split_ifs with hold hknown hfar hroom <;> try exact h
      exact h.admitRecord (by omega) (by omega) hlimit hpending (by omega) (by dsimp only; omega)

theorem Settled.ackDue (h : Settled w) (nowMillis : Nat) (immediate receivedAckOnly : Bool) :
    Settled (w.ackDue nowMillis immediate receivedAckOnly).2 := by
  unfold FallbackReceiveWindow.ackDue
  split_ifs <;> try exact h
  exact ⟨⟨h.bytes, h.bytes_le, h.size_le, h.pending, h.accepted⟩, h.missing⟩

/-- The byte count is the sum of the pending costs and within its limit, as is their number; they
are keyed in the 64 numbers from `next_sequence`, which is missing itself; and the digests kept are
those of the 64 numbers before it. -/
structure Bounded (w : FallbackReceiveWindow) : Prop where
  bytes : w.bytes = w.pending.total (·.byteCost)
  bytes_le : w.bytes ≤ fallbackWindowBytes
  size_le : w.pending.size ≤ fallbackWindowRecords
  keys : w.pending.keySet ⊆ Finset.Ico w.nextSequence (w.nextSequence + fallbackWindowRecords)
  missing : w.nextSequence ∉ w.pending.keySet
  accepted : w.accepted.keySet = Finset.Ico (w.nextSequence - fallbackWindowRecords) w.nextSequence

theorem Settled.bounded (h : Settled w) : Bounded w where
  bytes := h.bytes
  bytes_le := h.bytes_le
  size_le := h.size_le
  keys := by
    intro k hk
    obtain ⟨record, hrecord⟩ := mem_keySet.1 hk
    obtain ⟨hle, hlt, -⟩ := h.pending k record hrecord
    exact Finset.mem_Ico.2 ⟨hle, hlt⟩
  missing := by
    rw [mem_keySet, h.missing]
    nofun
  accepted := h.accepted

end FallbackReceiveWindow

/-! ## Sending -/

namespace FallbackSendWindow

/-- The byte count is the sum of the cached costs and within its limit, as is the number of records;
their keys are an interval that ends with the number inserted last. -/
structure Bounded (w : FallbackSendWindow) (last : Option Nat) : Prop where
  bytes : w.bytes = w.records.total (·.byteCost)
  bytes_le : w.bytes ≤ fallbackWindowBytes
  size_le : w.records.size ≤ fallbackWindowRecords
  keys : ∃ first, w.records.keySet = Finset.Ico first (last.elim 0 (· + 1))

theorem insert_ok {sha256 : Bytes → Block 32} {w w' : FallbackSendWindow} {sequence : Nat}
    {ciphertext : Bytes} {deliveryTracked : Bool}
    (h : w.insert sha256 sequence ciphertext deliveryTracked = (.ok (), w')) :
    sequence = w.nextSequence := by
  unfold insert at h
  dsimp only at h
  repeat' split at h <;> try cases h
  next hfull _ _ _ => exact not_not.1 (not_or.1 hfull).1

end FallbackSendWindow

/-! ## All calls -/

structure FallbackWindows where
  receive : FallbackReceiveWindow
  send : FallbackSendWindow
  /-- The number of the record inserted last. -/
  inserted : Option Nat

inductive FallbackWindowCall
  | observe (bytes : Bytes)
  | ackDue (nowMillis : Nat) (immediate receivedAckOnly : Bool)
  | insert (sequence : Nat) (ciphertext : Bytes) (deliveryTracked : Bool)
  | acknowledge (largestContiguous : Nat)
  | retryDue (elapsedMillis : Nat)
  | releasePeerSeenThrough (watermark : Nat)

namespace FallbackWindows

variable {sha256 : Bytes → Block 32} {s : FallbackWindows}

def after (sha256 : Bytes → Block 32) (s : FallbackWindows) : FallbackWindowCall → FallbackWindows
  | .observe bytes => { s with receive := (s.receive.observe sha256 bytes).2 }
  | .ackDue nowMillis immediate receivedAckOnly =>
    { s with receive := (s.receive.ackDue nowMillis immediate receivedAckOnly).2 }
  | .insert sequence ciphertext deliveryTracked =>
    let (answer, send) := s.send.insert sha256 sequence ciphertext deliveryTracked
    { s with
      send
      inserted := if answer.isOk then some sequence else s.inserted }
  | .acknowledge largestContiguous => { s with send := (s.send.acknowledge largestContiguous).2 }
  | .retryDue elapsedMillis => { s with send := (s.send.retryDue elapsedMillis).2 }
  | .releasePeerSeenThrough watermark =>
    { s with send := (s.send.releasePeerSeenThrough watermark).2 }

def system (sha256 : Bytes → Block 32) : Lts FallbackWindows FallbackWindowCall where
  init s := ∃ nowMillis, s = ⟨.new nowMillis, .new, none⟩
  step s call t := t = s.after sha256 call

/-- The send window caches the tail of what was inserted. -/
structure Kept (s : FallbackWindows) : Prop where
  receive : s.receive.Settled
  send : ∃ sent, s.send.Caches sent ∧ s.inserted.elim 0 (· + 1) = sent.length

theorem Kept.after (h : s.Kept) (call : FallbackWindowCall) : (s.after sha256 call).Kept := by
  obtain ⟨hreceive, sent, hsend, hinserted⟩ := h
  cases call with
  | observe bytes => exact ⟨hreceive.observe bytes, sent, hsend, hinserted⟩
  | ackDue nowMillis immediate receivedAckOnly =>
    exact ⟨hreceive.ackDue nowMillis immediate receivedAckOnly, sent, hsend, hinserted⟩
  | insert sequence ciphertext deliveryTracked =>
    refine ⟨hreceive, ?_⟩
    rw [FallbackWindows.after]
    obtain ⟨e, hsame⟩ | ⟨w', hpush, -, hcaches, -⟩ :=
      hsend.insert_cases sha256 sequence ciphertext deliveryTracked
    · rw [hsame]
      exact ⟨sent, hsend, hinserted⟩
    · have hsequence := FallbackSendWindow.insert_ok hpush
      rw [hpush]
      refine ⟨_, hcaches, ?_⟩
      rw [hsequence, hsend.next, List.length_append]
      rfl
  | acknowledge largestContiguous =>
    exact ⟨hreceive, sent, hsend.acknowledge largestContiguous, hinserted⟩
  | retryDue elapsedMillis => exact ⟨hreceive, sent, hsend.retryDue elapsedMillis, hinserted⟩
  | releasePeerSeenThrough watermark =>
    refine ⟨hreceive, sent, ?_, hinserted⟩
    rw [FallbackWindows.after]
    obtain ⟨answer, hsame⟩ | ⟨w', hrelease, hcaches, -⟩ := hsend.release_cases watermark
    · rw [hsame]
      exact hsend
    · rw [hrelease]
      exact hcaches

/-- Whatever bytes are observed and whatever is asked of the send window, both keep their bounds. -/
theorem bounded_of_reachable (h : (system sha256).Reachable s) :
    s.receive.Bounded ∧ s.send.Bounded s.inserted := by
  have hkept : s.Kept := by
    refine h.invariant ?_ fun s call t hs hstep => hstep ▸ hs.after call
    rintro _ ⟨nowMillis, rfl⟩
    exact ⟨FallbackReceiveWindow.settled_new nowMillis, [], FallbackSendWindow.caches_new, rfl⟩
  obtain ⟨hreceive, sent, hsend, hinserted⟩ := hkept
  refine ⟨hreceive.bounded, hsend.bytes, hsend.bytes_le, hsend.size_le, s.send.firstKept, ?_⟩
  rw [hinserted, hsend.keys]

/-- A record ahead of the next one is observed, then bytes that are no record, and the first record
is inserted. -/
def ahead : FallbackWindows :=
  (((⟨.new 0, .new, none⟩ : FallbackWindows).after (fun _ => Block.zero 32)
    (.observe (FallbackExchange.sample 1))).after (fun _ => Block.zero 32) (.observe [1, 2, 3])).after
      (fun _ => Block.zero 32) (.insert 0 (FallbackExchange.sample 0) true)

theorem ahead_bounded : ahead.receive.Bounded ∧ ahead.send.Bounded ahead.inserted := by
  have hnew : (system fun _ => Block.zero 32).Reachable ⟨.new 0, .new, none⟩ := .init ⟨0, rfl⟩
  exact bounded_of_reachable (((hnew.step rfl).step rfl).step rfl)

end FallbackWindows

end FlyCockpit.Noise
