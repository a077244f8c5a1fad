-- SUMMARY: What the fallback windows hold, told by the list of the records that were sent.
import FlyCockpit.Noise.Fallback

/-!
# Windows over a sequence of records

Let `sent` be the records a send window took, so that the position of a record is its sequence
number. The receive window then holds a part of them: those before `next_sequence` were delivered,
of which the digests of the last 64 are kept, and some later ones are pending. The send window holds
the records from the last release on.
-/

namespace FlyCockpit.Noise

open Option Table List

/-- A valid outer record with the given sequence number. -/
def IsOuter (sequence : Nat) (bytes : Bytes) : Prop :=
  ∃ header, validateOuterHeader bytes = .ok header ∧ header.recordSequence = sequence

/-- What a window charges for an outer record. -/
def outerCost (bytes : Bytes) : Nat := bytes.length - fallbackOuterHeaderLen

/-- Outer records whose sequence numbers are their positions. -/
def Numbered (sent : List Bytes) : Prop := ∀ (k : Nat) bytes, sent[k]? = some bytes → IsOuter k bytes

variable {sequence : Nat} {bytes : Bytes}

theorem IsOuter.lt_limit (h : IsOuter sequence bytes) : sequence < fallbackSequenceLimit := by
  obtain ⟨header, hvalid, rfl⟩ := h
  exact (validateOuterHeader_bounds hvalid).2.2.2

theorem ciphertextLen_eq {header : ValidatedFallbackOuterHeader}
    (h : validateOuterHeader bytes = .ok header) : header.ciphertextLen = outerCost bytes := by
  have hlength := (validateOuterHeader_bounds h).1
  unfold outerCost
  omega

theorem IsOuter.checkedAdd (h : IsOuter sequence bytes) :
    checkedAdd 64 sequence 1 = some (sequence + 1) := by
  have hlimit := h.lt_limit
  have hsmall : fallbackSequenceLimit < wordSize 64 := by decide
  exact checkedAdd_of_lt (by omega)

theorem Numbered.concat {sent : List Bytes} (hsent : Numbered sent) (h : IsOuter sent.length bytes) :
    Numbered (sent ++ [bytes]) := by
  intro k other hother
  by_cases hk : k < sent.length
  · rw [List.getElem?_append_left hk] at hother
    exact hsent k other hother
  · have hlt := (List.getElem?_eq_some_iff.1 hother).1
    rw [length_append, length_singleton] at hlt
    obtain rfl : k = sent.length := by omega
    rw [List.getElem?_concat_length] at hother
    cases hother
    exact h

/-! ## The digests of the last records -/

/-- The digests of an interval of sequence numbers are cut down to those of the last 64. -/
theorem trimAccepted_spec {fuel lo hi : Nat} {accepted : Table Nat (Block 32)}
    (hkeys : accepted.keySet = Finset.Ico lo hi) (hfuel : hi - lo ≤ fuel) :
    ∃ trimmed, trimAccepted fuel accepted = .ok trimmed ∧
      ∀ k, trimmed.lookup k = if hi ≤ k + fallbackWindowRecords then accepted.lookup k else none := by
  have hlow : ∀ k, k ∉ Finset.Ico lo hi → accepted.lookup k = none := by
    intro k hk
    rw [← hkeys, mem_keySet, ← isSome_iff_exists] at hk
    simpa using hk
  induction fuel generalizing lo accepted with
  | zero =>
    refine ⟨accepted, rfl, fun k => ?_⟩
    rw [hlow k (by rw [Finset.mem_Ico]; omega), ite_self]
  | succ fuel ih =>
    have hsize : accepted.size = hi - lo := by
      rw [size_eq_card, hkeys, Nat.card_Ico]
    unfold trimAccepted
    by_cases hlong : fallbackWindowRecords < accepted.size
    · have hfirst : accepted.firstKey? = some lo := by
        rw [firstKey?_eq_some, hkeys, Finset.mem_Ico]
        exact ⟨by omega, fun other hother => (Finset.mem_Ico.1 hother).1⟩
      rw [if_pos hlong, hfirst]
      have herased : keySet (accepted.erase lo) = Finset.Ico (lo + 1) hi := by
        rw [keySet_erase, hkeys]
        ext k
        rw [Finset.mem_erase, Finset.mem_Ico, Finset.mem_Ico]
        omega
      obtain ⟨trimmed, htrim, hlookup⟩ := ih herased (by omega) (by
        intro k hk
        rw [lookup_erase_eq]
        split
        · rfl
        · exact hlow k (by rw [Finset.mem_Ico] at hk ⊢; omega))
      refine ⟨trimmed, htrim, fun k => ?_⟩
      rw [hlookup, lookup_erase_eq]
      by_cases hk : k = lo
      · rw [if_pos hk, ite_self, if_neg (by omega)]
      · rw [if_neg hk]
    · rw [if_neg hlong]
      refine ⟨accepted, rfl, fun k => ?_⟩
      by_cases hk : hi ≤ k + fallbackWindowRecords
      · rw [if_pos hk]
      · rw [if_neg hk, hlow k (by rw [Finset.mem_Ico]; omega)]

/-! ## The receive window -/

namespace FallbackReceiveWindow

variable {sha256 : Bytes → Block 32} {sent : List Bytes} {w w' : FallbackReceiveWindow} {k : Nat}
  {bytes : Bytes}

variable (sha256 sent) in
/-- The window has taken a part of the records. -/
structure Holds (w : FallbackReceiveWindow) : Prop where
  next_le : w.nextSequence ≤ sent.length
  pending : ∀ k record, w.pending.lookup k = some record →
    w.nextSequence ≤ k ∧ sent[k]? = some record.bytes ∧
      record.byteCost = outerCost record.bytes ∧ record.digest = sha256 record.bytes
  bytes : w.bytes = w.pending.total (·.byteCost)
  accepted : ∀ k, w.accepted.lookup k =
    if k < w.nextSequence ∧ w.nextSequence ≤ k + fallbackWindowRecords
    then sent[k]?.map sha256 else none

variable (sha256 sent) in
/-- Between two calls the next record is missing. -/
structure Waits (w : FallbackReceiveWindow) : Prop extends Holds sha256 sent w where
  missing : w.pending.lookup w.nextSequence = none

theorem waits_new (sha256 : Bytes → Block 32) (sent : List Bytes) (nowMillis : Nat) :
    Waits sha256 sent (new nowMillis) where
  next_le := Nat.zero_le _
  pending k record h := by
    rw [new, AList.lookup_empty] at h
    cases h
  bytes := rfl
  accepted k := by
    rw [new, AList.lookup_empty, if_neg (fun h => absurd h.1 (Nat.not_lt_zero k))]
  missing := AList.lookup_empty _

/-- The keys of the digests are the last 64 sequence numbers. -/
theorem Holds.keySet_accepted (h : Holds sha256 sent w) :
    w.accepted.keySet = Finset.Ico (w.nextSequence - fallbackWindowRecords) w.nextSequence := by
  ext k
  rw [mem_keySet, h.accepted k, Finset.mem_Ico]
  by_cases hk : k < w.nextSequence ∧ w.nextSequence ≤ k + fallbackWindowRecords
  · have hlt : k < sent.length := lt_of_lt_of_le hk.1 h.next_le
    rw [if_pos hk, List.getElem?_eq_getElem hlt, map_some]
    simp only [some.injEq, exists_eq', true_iff]
    omega
  · rw [if_neg hk]
    simp only [reduceCtorEq, exists_false, false_iff]
    omega

/-- One round of the loop: the next record moves from the pending ones to the accepted ones. -/
theorem Holds.round (hsent : Numbered sent) (h : Holds sha256 sent w) {cached : CachedRecord}
    (hcached : w.pending.lookup w.nextSequence = some cached) :
    ∃ trimmed, trimAccepted (size (w.accepted.insert w.nextSequence cached.digest))
        (w.accepted.insert w.nextSequence cached.digest) = .ok trimmed ∧
      checkedAdd 64 w.nextSequence 1 = some (w.nextSequence + 1) ∧
      Holds sha256 sent
        { w with
          pending := w.pending.erase w.nextSequence
          bytes := w.bytes - cached.byteCost
          accepted := trimmed
          nextSequence := w.nextSequence + 1
          newlyAdmitted := min (w.newlyAdmitted + 1) 255 } := by
  obtain ⟨-, hbytes, hcost, hdigest⟩ := h.pending _ _ hcached
  have hlt : w.nextSequence < sent.length := (List.getElem?_eq_some_iff.1 hbytes).1
  have hkeys : keySet (w.accepted.insert w.nextSequence cached.digest) =
      Finset.Ico (w.nextSequence - fallbackWindowRecords) (w.nextSequence + 1) := by
    rw [keySet_insert, h.keySet_accepted]
    ext k
    rw [Finset.mem_insert, Finset.mem_Ico, Finset.mem_Ico]
    omega
  have hsize : w.nextSequence + 1 - (w.nextSequence - fallbackWindowRecords) ≤
      size (w.accepted.insert w.nextSequence cached.digest) := by
    rw [size_eq_card, hkeys, Nat.card_Ico]
  obtain ⟨trimmed, htrim, hlookup⟩ := trimAccepted_spec hkeys hsize
  refine ⟨trimmed, htrim, (hsent _ _ hbytes).checkedAdd, ?_, ?_, ?_, ?_⟩
  · exact hlt
  · intro k record hrecord
    dsimp only at hrecord ⊢
    rw [lookup_erase_eq] at hrecord
    split_ifs at hrecord with hk
    obtain ⟨hnext, hrest⟩ := h.pending k record hrecord
    exact ⟨by omega, hrest⟩
  · have htotal := total_erase (·.byteCost) hcached
    have hsum := h.bytes
    dsimp only
    omega
  · intro k
    dsimp only
    rw [hlookup, lookup_insert_eq]
    by_cases hk : k = w.nextSequence
    · subst hk
      rw [if_pos (by unfold fallbackWindowRecords; omega), if_pos rfl,
        if_pos (by unfold fallbackWindowRecords; omega), hbytes, map_some, hdigest]
    · rw [if_neg hk, h.accepted k]
      by_cases hold : w.nextSequence + 1 ≤ k + fallbackWindowRecords
      · rw [if_pos hold]
        by_cases hlow : k < w.nextSequence
        · rw [if_pos ⟨hlow, by omega⟩, if_pos ⟨by omega, hold⟩]
        · rw [if_neg (fun hc => hlow hc.1), if_neg (fun hc => by omega)]
      · rw [if_neg hold, if_neg (fun hc => hold hc.2)]

variable (sha256 sent) in
/-- From `w` to `w'` the next `n` records left the pending ones. -/
structure Delivers (w : FallbackReceiveWindow) (n : Nat) (w' : FallbackReceiveWindow) : Prop where
  next : w'.nextSequence = w.nextSequence + n
  waits : Waits sha256 sent w'
  pending : ∀ k ∈ w'.pending.keySet, k ∈ w.pending.keySet
  delivered : ∀ k, w.nextSequence ≤ k → k < w.nextSequence + n → k ∈ w.pending.keySet

theorem drain_of_missing (fuel : Nat) (hmissing : w.pending.lookup w.nextSequence = none)
    (contiguous : List Bytes) : drain fuel w contiguous = (.ok contiguous, w) := by
  cases fuel with
  | zero => rfl
  | succ fuel => rw [drain, hmissing]

/-- The loop returns the records from `next_sequence` up to the first that is missing. -/
theorem drain_spec (hsent : Numbered sent) {fuel : Nat} (h : Holds sha256 sent w)
    (hfuel : w.pending.size ≤ fuel) (contiguous : List Bytes) :
    ∃ n w', drain fuel w contiguous = (.ok (contiguous ++ (sent.drop w.nextSequence).take n), w') ∧
      Delivers sha256 sent w n w' := by
  induction fuel generalizing w contiguous with
  | zero =>
    have hmissing : w.pending.lookup w.nextSequence = none := by
      rw [← not_isSome_iff_eq_none, isSome_iff_exists, ← mem_keySet]
      rw [size_eq_card, Nat.le_zero, Finset.card_eq_zero] at hfuel
      rw [hfuel]
      exact Finset.notMem_empty _
    refine ⟨0, w, ?_, rfl, ⟨h, hmissing⟩, fun k hk => hk, fun k hle hlt => by omega⟩
    rw [drain_of_missing 0 hmissing, take_zero, append_nil]
  | succ fuel ih =>
    cases hcached : w.pending.lookup w.nextSequence with
    | none =>
      refine ⟨0, w, ?_, rfl, ⟨h, hcached⟩, fun k hk => hk, fun k hle hlt => by omega⟩
      rw [drain_of_missing _ hcached, take_zero, append_nil]
    | some cached =>
      obtain ⟨trimmed, htrim, hnext, hround⟩ := h.round hsent hcached
      have hbytes := (h.pending _ _ hcached).2.1
      have hsize := size_erase hcached
      obtain ⟨n, w', hdrain, hdelivers⟩ :=
        ih hround (by dsimp only; omega) (contiguous ++ [cached.bytes])
      have herased : ∀ k ∈ keySet (w.pending.erase w.nextSequence), k ∈ w.pending.keySet := by
        intro k hk
        rw [keySet_erase] at hk
        exact Finset.mem_of_mem_erase hk
      refine ⟨n + 1, w', ?_, ?_, hdelivers.waits, ?_, ?_⟩
      · obtain ⟨hlt, hget⟩ := List.getElem?_eq_some_iff.1 hbytes
        rw [drain, hcached]
        dsimp only
        rw [htrim]
        dsimp only
        rw [hnext]
        dsimp only at hdrain ⊢
        rw [hdrain, drop_eq_getElem_cons hlt, hget, take_succ_cons, append_assoc, singleton_append]
      · rw [hdelivers.next]
        dsimp only
        omega
      · intro k hk
        exact herased k (hdelivers.pending k hk)
      · intro k hle hlt
        by_cases hk : k = w.nextSequence
        · rw [hk, mem_keySet]
          exact ⟨cached, hcached⟩
        · exact herased k (hdelivers.delivered k (by dsimp only; omega) (by dsimp only; omega))

/-! ## One record -/

/-- The records an answer hands on. -/
def deliveredBy : Except NoiseError ReceiveDisposition → List Bytes
  | .ok (.contiguous records) => records
  | _ => []

variable (sha256 sent) in
/-- What the window is after record `k` was observed. -/
structure Observed (w : FallbackReceiveWindow) (k : Nat)
    (result : Except NoiseError ReceiveDisposition × FallbackReceiveWindow) : Prop where
  waits : Waits sha256 sent result.2
  next_le : w.nextSequence ≤ result.2.nextSequence
  delivered : deliveredBy result.1 =
    (sent.drop w.nextSequence).take (result.2.nextSequence - w.nextSequence)
  pending : ∀ j ∈ result.2.pending.keySet, j ∈ insert k w.pending.keySet
  taken : ∀ j, w.nextSequence ≤ j → j < result.2.nextSequence → j ∈ insert k w.pending.keySet

theorem Waits.observed_self (h : Waits sha256 sent w) (k : Nat)
    {answer : Except NoiseError ReceiveDisposition} (hanswer : deliveredBy answer = []) :
    Observed sha256 sent w k (answer, w) where
  waits := h
  next_le := le_rfl
  delivered := by rw [hanswer, Nat.sub_self, take_zero]
  pending j hj := Finset.mem_insert_of_mem hj
  taken j hle hlt := by
    dsimp only at hlt
    omega

section Admit

variable {k : Nat} {record : CachedRecord}

/-- The window with one more record pending. -/
theorem Waits.holds_insert (h : Waits sha256 sent w) (hbytes : sent[k]? = some record.bytes)
    (hcost : record.byteCost = outerCost record.bytes) (hdigest : record.digest = sha256 record.bytes)
    (hle : w.nextSequence ≤ k) (hfresh : w.pending.lookup k = none) :
    Holds sha256 sent { w with
      bytes := w.bytes + record.byteCost
      pending := w.pending.insert k record } where
  next_le := h.next_le
  pending j other hother := by
    dsimp only at hother ⊢
    rw [lookup_insert_eq] at hother
    split_ifs at hother with hj
    · cases hother
      subst hj
      exact ⟨hle, hbytes, hcost, hdigest⟩
    · exact h.pending j other hother
  bytes := by
    dsimp only
    rw [total_insert, erase_of_none hfresh, h.bytes]
    omega
  accepted := h.accepted

theorem Waits.observed_admitRecord (hsent : Numbered sent) (h : Waits sha256 sent w)
    (hbytes : sent[k]? = some record.bytes) (hcost : record.byteCost = outerCost record.bytes)
    (hdigest : record.digest = sha256 record.bytes)
    (hle : w.nextSequence ≤ k) (hfresh : w.pending.lookup k = none) :
    Observed sha256 sent w k (w.admitRecord k record) ∧ ∃ answer, (w.admitRecord k record).1 = .ok answer := by
  have hholds := h.holds_insert hbytes hcost hdigest hle hfresh
  have hkeys := keySet_insert w.pending k record
  unfold admitRecord
  dsimp only
  by_cases hk : k = w.nextSequence
  · obtain ⟨n, w', hdrain, hdelivers⟩ := drain_spec hsent hholds le_rfl []
    have hnext := hdelivers.next
    dsimp only at hdrain hnext
    rw [if_neg (not_not_intro hk), hdrain]
    refine ⟨⟨hdelivers.waits, ?_, ?_, ?_, ?_⟩, _, rfl⟩
    · dsimp only
      omega
    · dsimp only
      rw [hnext, Nat.add_sub_cancel_left]
      rfl
    · intro j hj
      rw [← hkeys]
      exact hdelivers.pending j hj
    · intro j hfrom hto
      rw [← hkeys]
      exact hdelivers.delivered j hfrom (hnext ▸ hto)
  · rw [if_pos hk]
    refine ⟨⟨⟨hholds, ?_⟩, le_rfl, ?_, ?_, ?_⟩, _, rfl⟩
    · dsimp only
      rw [lookup_insert_eq, if_neg (Ne.symm hk), h.missing]
    · rw [Nat.sub_self, take_zero]
      rfl
    · intro j hj
      rw [← hkeys]
      exact hj
    · intro j hfrom hto
      dsimp only at hto
      omega

end Admit

/-- Whatever the answer to a record, the window goes on waiting, and exactly the records between the
old and the new `next_sequence` were handed on. -/
theorem Waits.observed (hsent : Numbered sent) (h : Waits sha256 sent w)
    (hbytes : sent[k]? = some bytes) : Observed sha256 sent w k (w.observe sha256 bytes) := by
  obtain ⟨header, hvalid, hsequence⟩ := hsent k bytes hbytes
  have hcost := ciphertextLen_eq hvalid
  unfold observe
  rw [hvalid]
  dsimp only
  rw [hsequence]
  cases hpending : w.pending.lookup k with
  | some prior =>
    dsimp only
    split_ifs <;> exact h.observed_self k rfl
  | none =>
    dsimp only
    split_ifs with hold <;> try exact h.observed_self k rfl
    exact (h.observed_admitRecord hsent hbytes hcost rfl (Nat.le_of_not_lt hold) hpending).1

/-- A record is taken, or known to be a repetition, when it is within the window on both sides and
the pending records leave room for it. -/
theorem Waits.observe_isOk (hsent : Numbered sent) (h : Waits sha256 sent w)
    (hbytes : sent[k]? = some bytes) (hold : w.nextSequence ≤ k + fallbackWindowRecords)
    (hnew : k < w.nextSequence + fallbackWindowRecords)
    (hroom : w.nextSequence ≤ k → w.pending.lookup k = none →
      w.pending.size < fallbackWindowRecords ∧ w.bytes + outerCost bytes ≤ fallbackWindowBytes) :
    ∃ answer, (w.observe sha256 bytes).1 = .ok answer := by
  obtain ⟨header, hvalid, hsequence⟩ := hsent k bytes hbytes
  have hcost := ciphertextLen_eq hvalid
  unfold observe
  rw [hvalid]
  dsimp only
  rw [hsequence, hcost]
  by_cases hseen : k < w.nextSequence
  · rw [if_pos hseen, if_pos]
    · exact ⟨_, rfl⟩
    · rw [h.accepted k, if_pos ⟨hseen, hold⟩, hbytes, map_some]
  · rw [if_neg hseen, if_neg (by omega)]
    cases hpending : w.pending.lookup k with
    | some prior =>
      obtain ⟨-, hprior, -, hdigest⟩ := h.pending k prior hpending
      have hsame : prior.bytes = bytes := some.inj (hprior.symm.trans hbytes)
      dsimp only
      rw [if_pos (by rw [hdigest, hsame])]
      exact ⟨_, rfl⟩
    | none =>
      obtain ⟨hsize, htotal⟩ := hroom (Nat.le_of_not_lt hseen) hpending
      dsimp only
      rw [if_neg (by omega)]
      exact (h.observed_admitRecord hsent hbytes rfl rfl (Nat.le_of_not_lt hseen) hpending).2

/-- The acknowledgement an answer carries. -/
def acknowledgedBy : Except NoiseError ReceiveDisposition → List CumulativeAckV1
  | .ok (.duplicate acknowledge) => [acknowledge]
  | _ => []

theorem acknowledgedBy_admitRecord (w : FallbackReceiveWindow) (k : Nat) (record : CachedRecord) :
    acknowledgedBy (w.admitRecord k record).1 = [] := by
  unfold admitRecord
  dsimp only
  split_ifs
  · rfl
  · split <;> rfl

/-- An answer acknowledges what the window had before the call. -/
theorem acknowledgedBy_observe (sha256 : Bytes → Block 32) (w : FallbackReceiveWindow)
    (bytes : Bytes) :
    ∀ ack ∈ acknowledgedBy (w.observe sha256 bytes).1, ack = w.ack := by
  have hself : ∀ ack ∈ acknowledgedBy (.ok (.duplicate w.ack)), ack = w.ack := by
    intro ack hack
    exact mem_singleton.1 hack
  have hnone : ∀ answer, acknowledgedBy answer = [] →
      ∀ ack ∈ acknowledgedBy answer, ack = w.ack := by
    intro answer hanswer ack hack
    rw [hanswer] at hack
    cases hack
  unfold observe
  dsimp only
  repeat' split
  all_goals
    first | exact hself | exact hnone _ rfl | exact hnone _ (acknowledgedBy_admitRecord _ _ _)

/-- Sending more does not touch what the window has taken. -/
theorem Waits.append (h : Waits sha256 sent w) (more : List Bytes) :
    Waits sha256 (sent ++ more) w where
  next_le := by
    rw [length_append]
    exact Nat.le_add_right_of_le h.next_le
  pending k record hrecord := by
    obtain ⟨hle, hbytes, hrest⟩ := h.pending k record hrecord
    have hlt := (List.getElem?_eq_some_iff.1 hbytes).1
    exact ⟨hle, (List.getElem?_append_left hlt).trans hbytes, hrest⟩
  bytes := h.bytes
  accepted k := by
    rw [h.accepted k]
    by_cases hk : k < w.nextSequence ∧ w.nextSequence ≤ k + fallbackWindowRecords
    · rw [if_pos hk, if_pos hk, List.getElem?_append_left (lt_of_lt_of_le hk.1 h.next_le)]
    · rw [if_neg hk, if_neg hk]
  missing := h.missing

/-- Asking for an acknowledgement only touches the clock of acknowledgements. -/
theorem ackDue_cases (w : FallbackReceiveWindow) (nowMillis : Nat)
    (immediate receivedAckOnly : Bool) :
    ∃ newlyAdmitted lastAckMillis,
      (w.ackDue nowMillis immediate receivedAckOnly).2 = { w with newlyAdmitted, lastAckMillis } ∧
      ∀ ack ∈ (w.ackDue nowMillis immediate receivedAckOnly).1, ack = w.ack := by
  unfold ackDue
  split_ifs <;> refine ⟨_, _, rfl, fun ack hack => ?_⟩ <;> cases hack
  rfl

end FallbackReceiveWindow

/-! ## The send window -/

namespace FallbackSendWindow

variable {sent : List Bytes} {w w' : FallbackSendWindow} {bytes : Bytes}

/-- The first sequence number that was not released. -/
def firstKept (w : FallbackSendWindow) : Nat :=
  if w.peerSeenThrough = ackNone then 0 else w.peerSeenThrough + 1

variable (sent) in
/-- The window caches the records from the first that was not released. -/
structure Caches (w : FallbackSendWindow) : Prop where
  next : w.nextSequence = sent.length
  keys : w.records.keySet = Finset.Ico w.firstKept sent.length
  records : ∀ k record, w.records.lookup k = some record →
    sent[k]? = some record.bytes ∧ record.byteCost = outerCost record.bytes
  bytes : w.bytes = w.records.total (·.byteCost)
  size_le : w.records.size ≤ fallbackWindowRecords
  bytes_le : w.bytes ≤ fallbackWindowBytes
  firstKept_le : w.firstKept ≤ sent.length
  acknowledged : w.deliveryAck = ackNone ∨ w.deliveryAck < sent.length

theorem caches_new : Caches [] new where
  next := rfl
  keys := rfl
  records k record h := by
    rw [new, AList.lookup_empty] at h
    cases h
  bytes := rfl
  size_le := Nat.zero_le _
  bytes_le := Nat.zero_le _
  firstKept_le := le_rfl
  acknowledged := .inl rfl

/-- The part of a cached record that is fixed when it is cached. -/
def content (record : CachedRecord) : Bytes × Nat := (record.bytes, record.byteCost)

/-- Windows that cache the same records, whatever became of their tracking. -/
structure SameCache (w w' : FallbackSendWindow) : Prop where
  next : w'.nextSequence = w.nextSequence
  bytes : w'.bytes = w.bytes
  seen : w'.peerSeenThrough = w.peerSeenThrough
  records : ∀ k, (w'.records.lookup k).map content = (w.records.lookup k).map content

theorem Caches.of_same (h : Caches sent w) (hsame : SameCache w w')
    (hack : w'.deliveryAck = ackNone ∨ w'.deliveryAck < sent.length) : Caches sent w' := by
  have hkeys := keySet_congr hsame.records
  have hfirst : w'.firstKept = w.firstKept := by
    unfold firstKept
    rw [hsame.seen]
  have hcosts : ∀ k, (w'.records.lookup k).map (·.byteCost) =
      (w.records.lookup k).map (·.byteCost) := by
    intro k
    have hcontent := congrArg (Option.map Prod.snd) (hsame.records k)
    rwa [Option.map_map, Option.map_map] at hcontent
  refine ⟨hsame.next.trans h.next, ?_, ?_, ?_, ?_, ?_, ?_, hack⟩
  · rw [hkeys, hfirst, h.keys]
  · intro k record hrecord
    have hcontent := hsame.records k
    rw [hrecord, map_some, eq_comm, map_eq_some_iff] at hcontent
    obtain ⟨other, hother, heq⟩ := hcontent
    obtain ⟨hbytes, hcost⟩ := Prod.mk.inj heq
    rw [← hbytes, ← hcost]
    exact h.records k other hother
  · rw [hsame.bytes, h.bytes, total_congr hcosts]
  · rw [size_eq_card, hkeys, ← size_eq_card]
    exact h.size_le
  · rw [hsame.bytes]
    exact h.bytes_le
  · rw [hfirst]
    exact h.firstKept_le

/-! ### Caching -/

theorem Caches.push (h : Caches sent w) {record : CachedRecord}
    (hcost : record.byteCost = outerCost record.bytes)
    (hsize : w.records.size < fallbackWindowRecords)
    (hbytes : w.bytes + record.byteCost ≤ fallbackWindowBytes) :
    Caches (sent ++ [record.bytes]) { w with
      bytes := w.bytes + record.byteCost
      records := w.records.insert sent.length record
      nextSequence := w.nextSequence + 1 } := by
  have hlength : (sent ++ [record.bytes]).length = sent.length + 1 := length_append
  have hfresh : w.records.lookup sent.length = none := by
    rw [← not_isSome_iff_eq_none, isSome_iff_exists, ← mem_keySet, h.keys, Finset.mem_Ico]
    omega
  have hfirst := h.firstKept_le
  refine ⟨?_, ?_, ?_, ?_, ?_, hbytes, ?_, ?_⟩
  · rw [hlength, ← h.next]
  · change keySet (w.records.insert sent.length record) = Finset.Ico w.firstKept _
    rw [keySet_insert, h.keys, hlength]
    ext k
    rw [Finset.mem_insert, Finset.mem_Ico, Finset.mem_Ico]
    omega
  · intro k other hother
    dsimp only at hother
    rw [lookup_insert_eq] at hother
    split_ifs at hother with hk
    · cases hother
      rw [hk]
      exact ⟨List.getElem?_concat_length, hcost⟩
    · obtain ⟨hget, hrest⟩ := h.records k other hother
      have hlt := (List.getElem?_eq_some_iff.1 hget).1
      exact ⟨(List.getElem?_append_left hlt).trans hget, hrest⟩
  · dsimp only
    rw [total_insert, erase_of_none hfresh, h.bytes]
    omega
  · dsimp only
    rw [size_insert, erase_of_none hfresh]
    exact hsize
  · change w.firstKept ≤ _
    omega
  · dsimp only
    rw [hlength]
    exact h.acknowledged.imp id fun hlt => Nat.lt_succ_of_lt hlt

/-- A record that is refused changes nothing; one that is taken has the next sequence number. -/
theorem Caches.insert_cases (sha256 : Bytes → Block 32) (h : Caches sent w) (sequence : Nat)
    (ciphertext : Bytes) (deliveryTracked : Bool) :
    (∃ e, w.insert sha256 sequence ciphertext deliveryTracked = (.error e, w)) ∨
    ∃ w', w.insert sha256 sequence ciphertext deliveryTracked = (.ok (), w') ∧
      IsOuter sent.length ciphertext ∧ Caches (sent ++ [ciphertext]) w' ∧
      w'.bytes = w.bytes + outerCost ciphertext ∧
      w'.peerSeenThrough = w.peerSeenThrough ∧ w'.deliveryAck = w.deliveryAck := by
  unfold insert
  cases hvalid : validateOuterHeader ciphertext with
  | error e => exact .inl ⟨e, rfl⟩
  | ok header =>
    dsimp only
    split_ifs with hsequence hfull
    · exact .inl ⟨_, rfl⟩
    · exact .inl ⟨_, rfl⟩
    · have hnumber : header.recordSequence = sent.length := by
        rw [← h.next]
        omega
      have houter : IsOuter sent.length ciphertext := ⟨header, hvalid, hnumber⟩
      have hnext : checkedAdd 64 w.nextSequence 1 = some (w.nextSequence + 1) := by
        rw [h.next]
        exact houter.checkedAdd
      have hlast : sequence = sent.length := by omega
      rw [hnext, hlast]
      have hcost := ciphertextLen_eq hvalid
      have hpush : Caches (sent ++ [ciphertext]) _ :=
        @Caches.push _ _ h ⟨ciphertext, header.ciphertextLen, sha256 ciphertext, deliveryTracked, 0⟩
          hcost (by omega) (by dsimp only; omega)
      refine .inr ⟨_, rfl, houter, hpush, ?_, rfl, rfl⟩
      dsimp only
      rw [hcost]

/-! ### Acknowledging, retrying and releasing -/

theorem SameCache.refl (w : FallbackSendWindow) : SameCache w w := ⟨rfl, rfl, rfl, fun _ => rfl⟩

theorem SameCache.trans {w'' : FallbackSendWindow} (h : SameCache w w') (h' : SameCache w' w'') :
    SameCache w w'' where
  next := h'.next.trans h.next
  bytes := h'.bytes.trans h.bytes
  seen := h'.seen.trans h.seen
  records k := (h'.records k).trans (h.records k)

theorem SameCache.symm (h : SameCache w w') : SameCache w' w where
  next := h.next.symm
  bytes := h.bytes.symm
  seen := h.seen.symm
  records k := (h.records k).symm

/-- The outer record is cached. -/
def IsCached (w : FallbackSendWindow) (bytes : Bytes) : Prop :=
  ∃ k record, w.records.lookup k = some record ∧ record.bytes = bytes

theorem SameCache.isCached (h : SameCache w w') (hcached : w'.IsCached bytes) :
    w.IsCached bytes := by
  obtain ⟨k, record, hrecord, rfl⟩ := hcached
  have hcontent := h.records k
  rw [hrecord, map_some, eq_comm, map_eq_some_iff] at hcontent
  obtain ⟨other, hother, heq⟩ := hcontent
  exact ⟨k, other, hother, (Prod.mk.inj heq).1⟩

theorem sameCache_acknowledge (w : FallbackSendWindow) (largestContiguous : Nat) :
    SameCache w (w.acknowledge largestContiguous).2 := by
  unfold acknowledge
  split_ifs <;> try exact .refl w
  refine ⟨rfl, rfl, rfl, fun k => ?_⟩
  dsimp only
  rw [lookup_mapValues, Option.map_map]
  congr 1
  funext record
  rw [Function.comp_apply]
  split <;> rfl

theorem Caches.acknowledge (h : Caches sent w) (largestContiguous : Nat) :
    Caches sent (w.acknowledge largestContiguous).2 := by
  refine h.of_same (sameCache_acknowledge w largestContiguous) ?_
  have hack := h.acknowledged
  have hnext := h.next
  unfold FallbackSendWindow.acknowledge
  split_ifs <;> try exact hack
  right
  dsimp only
  omega

theorem sameCache_retried {key : Nat} {record : CachedRecord}
    (hrecord : w.records.lookup key = some record) (retryIndex : Nat) :
    SameCache w { w with records := w.records.insert key { record with retryIndex } } := by
  refine ⟨rfl, rfl, rfl, fun k => ?_⟩
  dsimp only
  rw [lookup_insert_eq]
  by_cases hk : k = key
  · rw [if_pos hk, hk, hrecord]
    rfl
  · rw [if_neg hk]

/-- The loop counts retries, which leaves the cache and the acknowledgement as they are, and returns
cached records. -/
theorem retryRecords_spec (elapsedMillis : Nat) (keys : List Nat) (w : FallbackSendWindow)
    (due : List Bytes) (hdue : ∀ bytes ∈ due, w.IsCached bytes) :
    SameCache w (retryRecords elapsedMillis keys w due).2 ∧
      (retryRecords elapsedMillis keys w due).2.deliveryAck = w.deliveryAck ∧
      ∀ records, (retryRecords elapsedMillis keys w due).1 = .ok records →
        ∀ bytes ∈ records, w.IsCached bytes := by
  induction keys generalizing w due with
  | nil =>
    refine ⟨.refl w, rfl, fun records hrecords => ?_⟩
    cases hrecords
    exact hdue
  | cons key keys ih =>
    unfold retryRecords
    cases hrecord : w.records.lookup key with
    | none => exact ih w due hdue
    | some record =>
      dsimp only
      split_ifs
      · exact ih w due hdue
      · have hsame := sameCache_retried hrecord (record.retryIndex + 1)
        have hmore : ∀ bytes ∈ due ++ [record.bytes], w.IsCached bytes := by
          intro bytes hmem
          obtain hmem | hmem := mem_append.1 hmem
          · exact hdue bytes hmem
          · exact ⟨key, record, hrecord, (mem_singleton.1 hmem).symm⟩
        obtain ⟨hrest, hack, hrecords⟩ := ih _ (due ++ [record.bytes])
          fun bytes hmem => hsame.symm.isCached (hmore bytes hmem)
        exact ⟨hsame.trans hrest, hack, fun records hok bytes hmem =>
          hsame.isCached (hrecords records hok bytes hmem)⟩
      · exact ⟨.refl w, rfl, fun records hrecords => by cases hrecords⟩
      · exact ih w due hdue

theorem Caches.retryDue (h : Caches sent w) (elapsedMillis : Nat) :
    Caches sent (w.retryDue elapsedMillis).2 := by
  obtain ⟨hsame, hack, -⟩ := retryRecords_spec elapsedMillis w.records.ascending w []
    fun _ hmem => absurd hmem not_mem_nil
  exact h.of_same hsame (hack.symm ▸ h.acknowledged)

theorem isCached_of_retransmitFrom {nextMissing : Nat}
    (h : bytes ∈ w.retransmitFrom nextMissing) : w.IsCached bytes := by
  obtain ⟨key, -, hbytes⟩ := mem_filterMap.1 h
  obtain ⟨record, hrecord, rfl⟩ := map_eq_some_iff.1 hbytes
  exact ⟨key, record, hrecord, rfl⟩

/-- Taking some keys out of the cache. -/
theorem foldl_release (keys : List Nat) (w : FallbackSendWindow)
    (hbytes : w.bytes = w.records.total (·.byteCost)) :
    ∃ bytes records, keys.foldl release w = { w with bytes, records } ∧
      bytes = records.total (·.byteCost) ∧ bytes ≤ w.bytes ∧
      ∀ k, records.lookup k = if k ∈ keys then none else w.records.lookup k := by
  induction keys generalizing w with
  | nil => exact ⟨w.bytes, w.records, rfl, hbytes, le_rfl, fun k => by simp⟩
  | cons key keys ih =>
    rw [foldl_cons]
    cases hrecord : w.records.lookup key with
    | none =>
      have hself : release w key = w := by rw [release, hrecord]
      obtain ⟨bytes, records, hfold, htotal, hle, hlookup⟩ := ih w hbytes
      rw [hself]
      refine ⟨bytes, records, hfold, htotal, hle, fun k => ?_⟩
      rw [hlookup k]
      by_cases hk : k = key
      · subst hk
        rw [hrecord, ite_self, ite_self]
      · simp only [mem_cons, hk, false_or]
    | some record =>
      have hself : release w key = { w with
          records := w.records.erase key
          bytes := w.bytes - record.byteCost } := by rw [release, hrecord]
      have hless := total_erase (·.byteCost) hrecord
      obtain ⟨bytes, records, hfold, htotal, hle, hlookup⟩ := ih (release w key) (by
        rw [hself]
        dsimp only at hless ⊢
        omega)
      rw [hself] at hfold hle hlookup ⊢
      refine ⟨bytes, records, hfold, htotal, le_trans hle (Nat.sub_le _ _), fun k => ?_⟩
      rw [hlookup k]
      dsimp only
      rw [lookup_erase_eq]
      by_cases hk : k = key
      · simp [hk]
      · simp only [mem_cons, hk, false_or, if_false]

/-- A release is refused, or it moves the start of the cache behind the watermark. -/
theorem Caches.release_cases (h : Caches sent w) (watermark : Nat) :
    (∃ answer, w.releasePeerSeenThrough watermark = (answer, w)) ∨
    ∃ w', w.releasePeerSeenThrough watermark = (.ok (), w') ∧ Caches sent w' ∧
      watermark ≠ ackNone ∧ w'.firstKept = watermark + 1 ∧ w'.deliveryAck = w.deliveryAck := by
  unfold releasePeerSeenThrough
  split_ifs with hwatermark hseen hin <;> try exact .inl ⟨_, rfl⟩
  dsimp only
  obtain ⟨bytes, records, hfold, htotal, hle, hlookup⟩ :=
    foldl_release (w.records.ascending.filter (· ≤ watermark))
      { w with peerSeenThrough := watermark } h.bytes
  dsimp only at hfold hle
  have hlookup' : ∀ k, records.lookup k =
      if k ≤ watermark then none else w.records.lookup k := by
    intro k
    have hmem : k ∈ w.records.ascending.filter (· ≤ watermark) ↔
        (∃ v, w.records.lookup k = some v) ∧ k ≤ watermark := by
      rw [mem_filter, mem_ascending, decide_eq_true_iff]
    rw [hlookup k]
    by_cases hk : k ≤ watermark
    · rw [if_pos hk]
      split
      · rfl
      · rename_i hnone
        rw [← not_isSome_iff_eq_none, isSome_iff_exists]
        exact fun hsome => hnone (hmem.2 ⟨hsome, hk⟩)
    · rw [if_neg (fun hc => hk (hmem.1 hc).2), if_neg hk]
  have hfirst : w.firstKept ≤ watermark + 1 := by
    unfold firstKept
    split <;> omega
  have hlength : watermark < sent.length := by
    have hnext := h.next
    omega
  have hkeys : records.keySet = Finset.Ico (watermark + 1) sent.length := by
    ext k
    have hold := Finset.ext_iff.1 h.keys k
    rw [mem_keySet, Finset.mem_Ico] at hold
    rw [mem_keySet, hlookup' k, Finset.mem_Ico]
    by_cases hk : k ≤ watermark
    · rw [if_pos hk]
      simp only [reduceCtorEq, exists_false, false_iff]
      omega
    · rw [if_neg hk, hold]
      omega
  have hkept : FallbackSendWindow.firstKept
      { w with peerSeenThrough := watermark, bytes, records } = watermark + 1 :=
    if_neg hwatermark
  rw [hfold]
  refine .inr ⟨_, rfl, ⟨h.next, ?_, ?_, htotal, ?_, ?_, ?_, h.acknowledged⟩, hwatermark, hkept,
    rfl⟩
  · rw [hkept]
    exact hkeys
  · intro k record hrecord
    dsimp only at hrecord
    rw [hlookup' k] at hrecord
    split_ifs at hrecord
    exact h.records k record hrecord
  · have hsize := h.size_le
    rw [size_eq_card, h.keys, Nat.card_Ico] at hsize
    dsimp only
    rw [size_eq_card, hkeys, Nat.card_Ico]
    omega
  · exact le_trans hle h.bytes_le
  · rw [hkept]
    exact hlength

end FallbackSendWindow

end FlyCockpit.Noise
