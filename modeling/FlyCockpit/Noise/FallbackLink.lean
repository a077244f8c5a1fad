-- SUMMARY: Over a channel that keeps the order an honest fallback peer is never rejected.
import FlyCockpit.Noise.FallbackDelivery

/-!
# Honest peers

A send window and a receive window joined by two channels that lose messages but keep their order.
The receive window forgets all but 64 digests and refuses what is 64 records ahead; the send window
caches no more than that. A copy on its way was sent while its record was cached, so it is told by
the part of the records that was cached then: the receive window has not moved past the end of this
part, and everything it holds lies in it.
-/

namespace FlyCockpit.Noise

open FallbackExchange FallbackSendWindow List

structure FallbackLink where
  sender : FallbackSendWindow
  receiver : FallbackReceiveWindow
  /-- The records `insert` took, in order. -/
  sent : List Bytes
  /-- Records on their way, the oldest first. -/
  data : List Bytes
  /-- Acknowledgements on their way back, the oldest first. -/
  acks : List CumulativeAckV1

inductive FallbackLinkCall
  | insert (sequence : Nat) (ciphertext : Bytes) (deliveryTracked : Bool)
  | transmit (key : Nat)
  | retransmitFrom (nextMissing : Nat)
  | retryDue (elapsedMillis : Nat)
  | loseData (index : Nat)
  | observe
  | ack
  | ackDue (nowMillis : Nat) (immediate receivedAckOnly : Bool)
  | loseAck (index : Nat)
  | acknowledge
  | releasePeerSeenThrough (watermark : Nat)

namespace FallbackLink

def new (nowMillis : Nat) : FallbackLink where
  sender := .new
  receiver := .new nowMillis
  sent := []
  data := []
  acks := []

variable (sha256 : Bytes → Block 32)

def insert (s : FallbackLink) (sequence : Nat) (ciphertext : Bytes) (deliveryTracked : Bool) :
    FallbackLink :=
  match s.sender.insert sha256 sequence ciphertext deliveryTracked with
  | (.ok (), sender) => { s with sender, sent := s.sent ++ [ciphertext] }
  | (.error _, sender) => { s with sender }

def retryDue (s : FallbackLink) (elapsedMillis : Nat) : FallbackLink :=
  match s.sender.retryDue elapsedMillis with
  | (.ok due, sender) => { s with sender, data := s.data ++ due }
  | (.error _, sender) => { s with sender }

def ackDue (s : FallbackLink) (nowMillis : Nat) (immediate receivedAckOnly : Bool) :
    FallbackLink :=
  { s with
    receiver := (s.receiver.ackDue nowMillis immediate receivedAckOnly).2
    acks := s.acks ++ (s.receiver.ackDue nowMillis immediate receivedAckOnly).1.toList }

/-- Only cached records are sent, the first time and again; the oldest message of a channel is the
next to arrive; a watermark that is released was received. -/
def call (s : FallbackLink) : FallbackLinkCall → Option FallbackLink
  | .insert sequence ciphertext tracked => some (s.insert sha256 sequence ciphertext tracked)
  | .transmit key => (s.sender.records.lookup key).map fun record =>
      { s with data := s.data ++ [record.bytes] }
  | .retransmitFrom nextMissing =>
    some { s with data := s.data ++ s.sender.retransmitFrom nextMissing }
  | .retryDue elapsed => some (s.retryDue elapsed)
  | .loseData index => some { s with data := s.data.eraseIdx index }
  | .observe => s.data.head?.map fun bytes =>
      { s with data := s.data.tail, receiver := (s.receiver.observe sha256 bytes).2 }
  | .ack => some { s with acks := s.acks ++ [s.receiver.ack] }
  | .ackDue now immediate receivedAckOnly => some (s.ackDue now immediate receivedAckOnly)
  | .loseAck index => some { s with acks := s.acks.eraseIdx index }
  | .acknowledge => s.acks.head?.map fun ack =>
      { s with
        acks := s.acks.tail
        sender := (s.sender.acknowledge ack.largestContiguous).2 }
  | .releasePeerSeenThrough watermark =>
    if watermark = ackNone ∨ watermark < s.receiver.nextSequence then
      some { s with sender := (s.sender.releasePeerSeenThrough watermark).2 }
    else none

def system (nowMillis : Nat) : Lts FallbackLink FallbackLinkCall :=
  .ofCall (· = new nowMillis) (call sha256)

end FallbackLink

/-! ## Answers of the send window -/

namespace FallbackSendWindow

/-- The number of records that were acknowledged. -/
def acknowledged (w : FallbackSendWindow) : Nat := CumulativeAckV1.count ⟨w.deliveryAck⟩

variable {w : FallbackSendWindow}

/-- An acknowledgement is good when it covers no fewer records than the last and no more than were
sent. -/
theorem acknowledge_of_le {ack : CumulativeAckV1}
    (hlast : w.acknowledged ≤ ack.count) (hnext : ack.count ≤ w.nextSequence) :
    (w.acknowledge ack.largestContiguous).1 = .ok () ∧
      (w.acknowledge ack.largestContiguous).2.deliveryAck = ack.largestContiguous := by
  rw [acknowledged, CumulativeAckV1.count_le_count_iff] at hlast
  rw [CumulativeAckV1.count_le_iff] at hnext
  unfold acknowledge
  by_cases hnone : ack.largestContiguous = ackNone
  · have hfirst : w.deliveryAck = ackNone := hlast.resolve_right fun h => h.1 hnone
    rw [if_pos hnone, if_pos hfirst]
    exact ⟨rfl, hfirst.trans hnone.symm⟩
  · have hlt := hnext.resolve_left hnone
    dsimp only at hlast
    rw [if_neg hnone, if_neg (by omega)]
    exact ⟨rfl, rfl⟩

/-- A watermark that was sent is released exactly when it is not below the last one. -/
theorem release_isOk_iff {watermark : Nat}
    (hsent : watermark = ackNone ∨ watermark < w.nextSequence) :
    (w.releasePeerSeenThrough watermark).1 = .ok () ↔ w.peerSeenThrough = ackNone ∨
        (watermark ≠ ackNone ∧ w.peerSeenThrough ≤ watermark) := by
  unfold releasePeerSeenThrough
  by_cases hnone : watermark = ackNone
  · rw [if_pos hnone]
    split
    · simp_all
    · simp_all
  · have hlt := hsent.resolve_left hnone
    rw [if_neg hnone]
    split
    · simp only [reduceCtorEq, false_iff]
      omega
    · simp only [true_iff]
      omega

end FallbackSendWindow

/-! ## Copies on their way -/

/-- What the record of a sequence number costs. -/
def costAt (sent : List Bytes) (k : Nat) : Nat := (sent[k]?.map outerCost).getD 0

variable {sent : List Bytes} {c : Copy} {bytes : Bytes} {w : FallbackReceiveWindow}
  {sha256 : Bytes → Block 32}

theorem costAt_of_getElem? {k : Nat}
    (h : sent[k]? = some bytes) : costAt sent k = outerCost bytes := by
  rw [costAt, h, Option.map_some, Option.getD_some]

/-- A copy of record `sequence`, sent when the cache held the records from `first` up to `last`. -/
structure Copy where
  bytes : Bytes
  sequence : Nat
  first : Nat
  last : Nat

/-- The copy was sent within the limits of the cache. -/
structure Copy.Of (sent : List Bytes) (c : Copy) : Prop where
  bytes : sent[c.sequence]? = some c.bytes
  first_le : c.first ≤ c.sequence
  lt_last : c.sequence < c.last
  last_le : c.last ≤ sent.length
  records : c.last ≤ c.first + fallbackWindowRecords
  cost : ∑ k ∈ Finset.Ico c.first c.last, costAt sent k ≤ fallbackWindowBytes

/-- The copy was sent after everything the receive window holds. -/
structure Copy.Ahead (w : FallbackReceiveWindow) (c : Copy) : Prop where
  first_le : c.first ≤ w.nextSequence
  le_last : w.nextSequence ≤ c.last
  pending : ∀ k ∈ w.pending.keySet, k < c.last

theorem Copy.Of.append (h : c.Of sent) (more : List Bytes) : c.Of (sent ++ more) where
  bytes := (List.getElem?_append_left (lt_of_lt_of_le h.lt_last h.last_le)).trans h.bytes
  first_le := h.first_le
  lt_last := h.lt_last
  last_le := by
    rw [length_append]
    exact Nat.le_add_right_of_le h.last_le
  records := h.records
  cost := by
    have hsame : ∀ k ∈ Finset.Ico c.first c.last, costAt (sent ++ more) k = costAt sent k := by
      intro k hk
      have hlt : k < sent.length := lt_of_lt_of_le (Finset.mem_Ico.1 hk).2 h.last_le
      rw [costAt, costAt, List.getElem?_append_left hlt]
    rw [Finset.sum_congr rfl hsame]
    exact h.cost

/-- A cached record can be sent. -/
theorem FallbackSendWindow.Caches.copy {w : FallbackSendWindow}
    (h : w.Caches sent) (hcached : w.IsCached bytes) :
    ∃ k, Copy.Of sent ⟨bytes, k, w.firstKept, sent.length⟩ := by
  obtain ⟨k, record, hrecord, rfl⟩ := hcached
  have hkey : k ∈ Finset.Ico w.firstKept sent.length := by
    rw [← h.keys, Table.mem_keySet]
    exact ⟨record, hrecord⟩
  obtain ⟨hfirst, hlast⟩ := Finset.mem_Ico.1 hkey
  refine ⟨k, (h.records k record hrecord).1, hfirst, hlast, le_rfl, ?_, ?_⟩
  · have hsize := h.size_le
    rw [Table.size_eq_card, h.keys, Nat.card_Ico] at hsize
    dsimp only
    omega
  · have htotal : w.records.total (·.byteCost) = ∑ j ∈ w.records.keySet, costAt sent j := by
      refine Table.total_eq_sum fun j other hother => ?_
      obtain ⟨hbytes, hcost⟩ := h.records j other hother
      rw [hcost, costAt_of_getElem? hbytes]
    dsimp only
    rw [← h.keys, ← htotal, ← h.bytes]
    exact h.bytes_le

/-- A copy that was sent after everything the window holds is accepted. -/
theorem FallbackReceiveWindow.Waits.observe_copy (hsent : Numbered sent) (h : w.Waits sha256 sent)
    (hof : c.Of sent) (hahead : c.Ahead w) :
    ∃ answer, (w.observe sha256 c.bytes).1 = .ok answer := by
  have hfirst := hof.first_le
  have hlast := hof.lt_last
  have hrecords := hof.records
  have hlow := hahead.first_le
  have hhigh := hahead.le_last
  refine h.observe_isOk hsent hof.bytes (by omega) (by omega) fun hnew hfresh => ?_
  -- the pending records and the new one lie in the part that was cached
  have hnot : c.sequence ∉ w.pending.keySet := by
    rw [Table.mem_keySet, hfresh]
    simp
  have hsubset : insert c.sequence w.pending.keySet ⊆ Finset.Ico c.first c.last := by
    intro k hk
    obtain rfl | hk := Finset.mem_insert.1 hk
    · exact Finset.mem_Ico.2 ⟨hfirst, hlast⟩
    · obtain ⟨record, hrecord⟩ := Table.mem_keySet.1 hk
      have hnext := (h.pending k record hrecord).1
      exact Finset.mem_Ico.2 ⟨by omega, hahead.pending k hk⟩
  constructor
  · have hcard := Finset.card_le_card hsubset
    rw [Finset.card_insert_of_notMem hnot, Nat.card_Ico] at hcard
    rw [Table.size_eq_card]
    omega
  · have htotal : w.pending.total (·.byteCost) = ∑ k ∈ w.pending.keySet, costAt sent k := by
      refine Table.total_eq_sum fun k record hrecord => ?_
      obtain ⟨-, hbytes, hcost, -⟩ := h.pending k record hrecord
      rw [hcost, costAt_of_getElem? hbytes]
    have hsum : ∑ k ∈ insert c.sequence w.pending.keySet, costAt sent k ≤ fallbackWindowBytes :=
      le_trans (Finset.sum_le_sum_of_subset hsubset) hof.cost
    rw [Finset.sum_insert hnot, ← htotal, ← h.bytes, costAt_of_getElem? hof.bytes] at hsum
    omega

/-- The copies behind an observed one are still ahead of the window. -/
theorem Copy.Ahead.observed {later : Copy}
    {result : Except NoiseError ReceiveDisposition × FallbackReceiveWindow}
    (hobserved : w.Observed sha256 sent c.sequence result) (hlast : c.sequence < later.last)
    (h : later.Ahead w) : later.Ahead result.2 := by
  have hknown : ∀ k ∈ insert c.sequence w.pending.keySet, k < later.last := by
    intro k hk
    obtain rfl | hk := Finset.mem_insert.1 hk
    · exact hlast
    · exact h.pending k hk
  refine ⟨le_trans h.first_le hobserved.next_le, ?_, fun k hk => hknown k (hobserved.pending k hk)⟩
  by_cases hmoved : w.nextSequence < result.2.nextSequence
  · have htaken := hobserved.taken (result.2.nextSequence - 1) (by omega) (by omega)
    have hlt := hknown _ htaken
    omega
  · have hle := h.le_last
    omega

namespace FallbackLink

variable {sha256 : Bytes → Block 32} {s t : FallbackLink} {bytes : Bytes}
  {acks : List CumulativeAckV1}

/-! ## What every call preserves -/

/-- The messages of the data channel are copies, sent one after the other. -/
structure Flying (sent : List Bytes) (w : FallbackReceiveWindow) (data : List Bytes)
    (copies : List Copy) : Prop where
  data : data = copies.map (·.bytes)
  of : ∀ c ∈ copies, c.Of sent
  ahead : ∀ c ∈ copies, c.Ahead w
  inOrder : copies.Pairwise fun earlier later => earlier.last ≤ later.last

variable (sha256) in
structure Honest (s : FallbackLink) : Prop where
  numbered : Numbered s.sent
  caches : s.sender.Caches s.sent
  waits : s.receiver.Waits sha256 s.sent
  kept : s.sender.firstKept ≤ s.receiver.nextSequence
  flying : ∃ copies, Flying s.sent s.receiver s.data copies
  acknowledged : s.sender.acknowledged ≤ s.receiver.nextSequence
  acks_ge : ∀ ack ∈ s.acks, s.sender.acknowledged ≤ ack.count
  acks_le : ∀ ack ∈ s.acks, ack.count ≤ s.receiver.nextSequence
  acks_mono : s.acks.Pairwise fun earlier later => earlier.count ≤ later.count

theorem honest_new (sha256 : Bytes → Block 32) (nowMillis : Nat) :
    Honest sha256 (new nowMillis) where
  numbered k bytes h := by cases h
  caches := caches_new
  waits := FallbackReceiveWindow.waits_new sha256 [] nowMillis
  kept := le_rfl
  flying := ⟨[], rfl, forall_mem_nil _, forall_mem_nil _, .nil⟩
  acknowledged := le_rfl
  acks_ge ack h := by cases h
  acks_le ack h := by cases h
  acks_mono := .nil

/-- A step of the sender that takes no record and does not change what it heard. -/
theorem Honest.sender (h : Honest sha256 s) {sender : FallbackSendWindow}
    (hcaches : sender.Caches s.sent) (hkept : sender.firstKept ≤ s.receiver.nextSequence)
    (hack : sender.deliveryAck = s.sender.deliveryAck) : Honest sha256 { s with sender } := by
  have hsame : sender.acknowledged = s.sender.acknowledged := by
    unfold FallbackSendWindow.acknowledged
    rw [hack]
  exact { h with
    caches := hcaches
    kept := hkept
    acknowledged := hsame.trans_le h.acknowledged
    acks_ge := fun ack hmem => hsame.trans_le (h.acks_ge ack hmem) }

theorem Honest.insert (h : Honest sha256 s) (sequence : Nat) (ciphertext : Bytes)
    (deliveryTracked : Bool) :
    Honest sha256 (s.insert sha256 sequence ciphertext deliveryTracked) := by
  unfold FallbackLink.insert
  obtain ⟨e, hinsert⟩ | ⟨sender, hinsert, houter, hcaches, -, hseen, hack⟩ :=
    h.caches.insert_cases sha256 sequence ciphertext deliveryTracked
  · rw [hinsert]
    exact h
  · have hkept : sender.firstKept = s.sender.firstKept := by
      unfold FallbackSendWindow.firstKept
      rw [hseen]
    have hsame : sender.acknowledged = s.sender.acknowledged := by
      unfold FallbackSendWindow.acknowledged
      rw [hack]
    obtain ⟨copies, hflying⟩ := h.flying
    rw [hinsert]
    exact
      { h with
        numbered := h.numbered.concat houter
        caches := hcaches
        waits := h.waits.append _
        kept := hkept.trans_le h.kept
        flying := ⟨copies, { hflying with of := fun c hc => (hflying.of c hc).append _ }⟩
        acknowledged := hsame.trans_le h.acknowledged
        acks_ge := fun ack hmem => hsame.trans_le (h.acks_ge ack hmem) }

/-- A cached record is put on the channel. -/
theorem Honest.send (h : Honest sha256 s) (hcached : s.sender.IsCached bytes) :
    Honest sha256 { s with data := s.data ++ [bytes] } := by
  obtain ⟨copies, hflying⟩ := h.flying
  obtain ⟨k, hof⟩ := h.caches.copy hcached
  have hahead : Copy.Ahead s.receiver ⟨bytes, k, s.sender.firstKept, s.sent.length⟩ := by
    refine ⟨h.kept, h.waits.next_le, fun j hj => ?_⟩
    obtain ⟨record, hrecord⟩ := Table.mem_keySet.1 hj
    exact (List.getElem?_eq_some_iff.1 (h.waits.pending j record hrecord).2.1).1
  refine { h with
    flying := ⟨copies ++ [⟨bytes, k, s.sender.firstKept, s.sent.length⟩], ?_, ?_, ?_, ?_⟩ }
  · rw [map_append, ← hflying.data]
    rfl
  · exact forall_mem_append.2 ⟨hflying.of, forall_mem_singleton.2 hof⟩
  · exact forall_mem_append.2 ⟨hflying.ahead, forall_mem_singleton.2 hahead⟩
  · refine pairwise_append.2 ⟨hflying.inOrder, pairwise_singleton _ _, ?_⟩
    intro earlier hearlier later hlater
    rw [mem_singleton.1 hlater]
    exact (hflying.of earlier hearlier).last_le

theorem Honest.sendAll (h : Honest sha256 s) {records : List Bytes}
    (hcached : ∀ bytes ∈ records, s.sender.IsCached bytes) :
    Honest sha256 { s with data := s.data ++ records } := by
  induction records generalizing s with
  | nil =>
    rw [append_nil]
    exact h
  | cons bytes records ih =>
    obtain ⟨hfirst, hrest⟩ := forall_mem_cons.1 hcached
    have hsent := ih (h.send hfirst) hrest
    dsimp only at hsent
    rwa [append_assoc, singleton_append] at hsent

theorem Honest.retryDue (h : Honest sha256 s) (elapsedMillis : Nat) :
    Honest sha256 (s.retryDue elapsedMillis) := by
  obtain ⟨hsame, hack, hdue⟩ := retryRecords_spec elapsedMillis
    s.sender.records.ascending s.sender [] (forall_mem_nil _)
  have hkept : (s.sender.retryDue elapsedMillis).2.firstKept = s.sender.firstKept := by
    unfold FallbackSendWindow.firstKept FallbackSendWindow.retryDue
    rw [hsame.seen]
  have hsender := h.sender (h.caches.retryDue elapsedMillis) (hkept.trans_le h.kept) hack
  unfold FallbackLink.retryDue
  cases hretry : s.sender.retryDue elapsedMillis with
  | mk answer sender =>
    rw [hretry] at hsender
    cases answer with
    | error e => exact hsender
    | ok due =>
      refine hsender.sendAll fun bytes hmem => ?_
      rw [← FallbackSendWindow.retryDue, hretry] at hsame hdue
      exact hsame.symm.isCached (hdue due rfl bytes hmem)

theorem Honest.loseData (h : Honest sha256 s) (index : Nat) :
    Honest sha256 { s with data := s.data.eraseIdx index } := by
  obtain ⟨copies, hflying⟩ := h.flying
  have hsublist := eraseIdx_sublist copies index
  refine { h with flying := ⟨copies.eraseIdx index, ?_, ?_, ?_, ?_⟩ }
  · dsimp only
    rw [hflying.data, eraseIdx_map]
  · exact fun c hc => hflying.of c (hsublist.subset hc)
  · exact fun c hc => hflying.ahead c (hsublist.subset hc)
  · exact hflying.inOrder.sublist hsublist

/-- The oldest copy arrives. -/
theorem Honest.observe (h : Honest sha256 s) {data : List Bytes} (hdata : s.data = bytes :: data) :
    (∃ answer, (s.receiver.observe sha256 bytes).1 = .ok answer) ∧
      Honest sha256 { s with data, receiver := (s.receiver.observe sha256 bytes).2 } := by
  obtain ⟨copies, hflying⟩ := h.flying
  cases copies with
  | nil =>
    have hnil := hflying.data
    rw [hdata] at hnil
    cases hnil
  | cons c copies =>
    obtain ⟨hof, hofs⟩ := forall_mem_cons.1 hflying.of
    obtain ⟨hahead, haheads⟩ := forall_mem_cons.1 hflying.ahead
    obtain ⟨horder, horders⟩ := pairwise_cons.1 hflying.inOrder
    have hcons := hflying.data
    rw [hdata, map_cons] at hcons
    obtain ⟨rfl, rfl⟩ := List.cons.inj hcons
    have hobserved := h.waits.observed h.numbered hof.bytes
    refine ⟨h.waits.observe_copy h.numbered hof hahead, ?_⟩
    exact
      { h with
        waits := hobserved.waits
        kept := le_trans h.kept hobserved.next_le
        flying := ⟨copies, rfl, hofs, fun later hlater => (haheads later hlater).observed hobserved
          (lt_of_lt_of_le hof.lt_last (horder later hlater)), horders⟩
        acknowledged := le_trans h.acknowledged hobserved.next_le
        acks_le := fun ack hmem => le_trans (h.acks_le ack hmem) hobserved.next_le }

theorem Honest.report (h : Honest sha256 s) (hacks : ∀ ack ∈ acks, ack = s.receiver.ack) :
    Honest sha256 { s with acks := s.acks ++ acks } := by
  have hcount : ∀ ack ∈ acks, ack.count = s.receiver.nextSequence := by
    intro ack hack
    rw [hacks ack hack]
    exact h.waits.count_ack h.numbered
  refine { h with acks_ge := ?_, acks_le := ?_, acks_mono := ?_ }
  · refine forall_mem_append.2 ⟨h.acks_ge, fun ack hack => ?_⟩
    rw [hcount ack hack]
    exact h.acknowledged
  · exact forall_mem_append.2 ⟨h.acks_le, fun ack hack => (hcount ack hack).le⟩
  · refine pairwise_append.2 ⟨h.acks_mono, ?_, ?_⟩
    · refine List.Pairwise.imp_of_mem ?_ (pairwise_of_forall fun _ _ => trivial)
      intro earlier later hearlier hlater _
      rw [hcount earlier hearlier, hcount later hlater]
    · intro earlier hearlier later hlater
      rw [hcount later hlater]
      exact h.acks_le earlier hearlier

theorem Honest.ackDue (h : Honest sha256 s) (nowMillis : Nat) (immediate receivedAckOnly : Bool) :
    Honest sha256 (s.ackDue nowMillis immediate receivedAckOnly) := by
  obtain ⟨newlyAdmitted, lastAckMillis, hreceiver, hacks⟩ :=
    s.receiver.ackDue_cases nowMillis immediate receivedAckOnly
  have hlist : ∀ ack ∈ (s.receiver.ackDue nowMillis immediate receivedAckOnly).1.toList,
      ack = s.receiver.ack := fun ack hack => hacks ack (Option.mem_toList.1 hack)
  have hreport := h.report hlist
  obtain ⟨copies, hflying⟩ := h.flying
  unfold FallbackLink.ackDue
  rw [hreceiver]
  have hwaits := h.waits
  exact { hreport with
    waits := ⟨⟨hwaits.next_le, hwaits.pending, hwaits.bytes, hwaits.accepted⟩, hwaits.missing⟩
    flying := ⟨copies, hflying.data, hflying.of,
      fun c hc => ⟨(hflying.ahead c hc).first_le, (hflying.ahead c hc).le_last,
        (hflying.ahead c hc).pending⟩, hflying.inOrder⟩ }

theorem Honest.loseAck (h : Honest sha256 s) (index : Nat) :
    Honest sha256 { s with acks := s.acks.eraseIdx index } := by
  have hsublist := eraseIdx_sublist s.acks index
  exact { h with
    acks_ge := fun ack hack => h.acks_ge ack (hsublist.subset hack)
    acks_le := fun ack hack => h.acks_le ack (hsublist.subset hack)
    acks_mono := h.acks_mono.sublist hsublist }

/-- The oldest acknowledgement arrives. -/
theorem Honest.acknowledge (h : Honest sha256 s) {ack : CumulativeAckV1}
    (hacks : s.acks = ack :: acks) : (s.sender.acknowledge ack.largestContiguous).1 = .ok () ∧
      Honest sha256 { s with
        acks, sender := (s.sender.acknowledge ack.largestContiguous).2 } := by
  have hge := h.acks_ge
  have hle := h.acks_le
  have hmono := h.acks_mono
  rw [hacks] at hge hle hmono
  obtain ⟨hgeFirst, -⟩ := forall_mem_cons.1 hge
  obtain ⟨hleFirst, hleRest⟩ := forall_mem_cons.1 hle
  obtain ⟨hmonoFirst, hmonoRest⟩ := pairwise_cons.1 hmono
  have hnext : ack.count ≤ s.sender.nextSequence := by
    rw [h.caches.next]
    exact le_trans hleFirst h.waits.next_le
  obtain ⟨hok, hack⟩ := acknowledge_of_le hgeFirst hnext
  have hsame := sameCache_acknowledge s.sender ack.largestContiguous
  have hkept : (s.sender.acknowledge ack.largestContiguous).2.firstKept = s.sender.firstKept := by
    unfold FallbackSendWindow.firstKept
    rw [hsame.seen]
  have hcount : (s.sender.acknowledge ack.largestContiguous).2.acknowledged = ack.count := by
    unfold FallbackSendWindow.acknowledged
    rw [hack]
  refine ⟨hok, ?_⟩
  exact
    { h with
      caches := h.caches.acknowledge ack.largestContiguous
      kept := hkept.trans_le h.kept
      acknowledged := hcount.trans_le hleFirst
      acks_ge := fun later hlater => hcount.trans_le (hmonoFirst later hlater)
      acks_le := hleRest
      acks_mono := hmonoRest }

theorem Honest.release (h : Honest sha256 s) {watermark : Nat}
    (hreceived : watermark = ackNone ∨ watermark < s.receiver.nextSequence) :
    Honest sha256 { s with sender := (s.sender.releasePeerSeenThrough watermark).2 } := by
  obtain ⟨answer, hsame⟩ | ⟨sender, hrelease, hcaches, hsome, hkept, hack⟩ :=
    h.caches.release_cases watermark
  · rw [hsame]
    exact h
  · rw [hrelease]
    exact h.sender hcaches (hkept.trans_le (hreceived.resolve_left hsome)) hack

theorem Honest.call (h : Honest sha256 s) {c : FallbackLinkCall}
    (hcall : s.call sha256 c = some t) : Honest sha256 t := by
  cases c with
  | insert sequence ciphertext tracked =>
    cases hcall
    exact h.insert sequence ciphertext tracked
  | transmit key =>
    obtain ⟨record, hrecord, rfl⟩ := Option.map_eq_some_iff.1 hcall
    exact h.send ⟨key, record, hrecord, rfl⟩
  | retransmitFrom nextMissing =>
    cases hcall
    exact h.sendAll fun bytes hmem => isCached_of_retransmitFrom hmem
  | retryDue elapsed =>
    cases hcall
    exact h.retryDue elapsed
  | loseData index =>
    cases hcall
    exact h.loseData index
  | observe =>
    obtain ⟨bytes, hhead, rfl⟩ := Option.map_eq_some_iff.1 hcall
    exact (h.observe (eq_cons_of_mem_head? hhead)).2
  | ack =>
    cases hcall
    exact h.report fun ack hack => mem_singleton.1 hack
  | ackDue now immediate receivedAckOnly =>
    cases hcall
    exact h.ackDue now immediate receivedAckOnly
  | loseAck index =>
    cases hcall
    exact h.loseAck index
  | acknowledge =>
    obtain ⟨ack, hhead, rfl⟩ := Option.map_eq_some_iff.1 hcall
    exact (h.acknowledge (eq_cons_of_mem_head? hhead)).2
  | releasePeerSeenThrough watermark =>
    simp only [FallbackLink.call] at hcall
    split_ifs at hcall with hreceived
    cases hcall
    exact h.release hreceived

theorem reachable_honest {nowMillis : Nat} (h : (system sha256 nowMillis).Reachable s) :
    Honest sha256 s := by
  induction h with
  | init h0 =>
    cases h0
    exact honest_new sha256 nowMillis
  | step _ _ hcall ih => exact ih.call hcall

/-- In every state of every run the next record and the next acknowledgement to arrive are accepted,
and a watermark that was received is released unless it lies below one that was released before. -/
theorem honest_peer_accepted {nowMillis : Nat} (h : (system sha256 nowMillis).Reachable s) :
    (∀ bytes data, s.data = bytes :: data →
      ∃ answer, (s.receiver.observe sha256 bytes).1 = .ok answer) ∧
    (∀ ack acks, s.acks = ack :: acks → (s.sender.acknowledge ack.largestContiguous).1 = .ok ()) ∧
    ∀ watermark, watermark = ackNone ∨ watermark < s.receiver.nextSequence →
      ((s.sender.releasePeerSeenThrough watermark).1 = .ok () ↔ s.sender.peerSeenThrough = ackNone ∨
          (watermark ≠ ackNone ∧ s.sender.peerSeenThrough ≤ watermark)) := by
  have hs := reachable_honest h
  refine ⟨fun bytes data hdata => (hs.observe hdata).1, fun ack acks hacks =>
    (hs.acknowledge hacks).1, fun watermark hreceived => ?_⟩
  refine FallbackSendWindow.release_isOk_iff (hreceived.imp id fun hlt => ?_)
  rw [hs.caches.next]
  exact lt_of_lt_of_le hlt hs.waits.next_le

/-- Two records arrive, and the later one is released. -/
def released : List FallbackLinkCall :=
  [.insert 0 (sample 0) true, .insert 1 (sample 1) true,
    .transmit 0, .transmit 1, .observe, .observe, .retransmitFrom 0, .ack,
    .releasePeerSeenThrough 1]

def afterRelease : FallbackLink :=
  (Lts.replay (call blankDigest) (new 0) released).getD (new 0)

theorem reachable_afterRelease : (system blankDigest 0).Reachable afterRelease := by
  have hrun : (Lts.replay (call blankDigest) (new 0) released).isSome = true := by
    decide +kernel
  obtain ⟨t, ht⟩ := Option.isSome_iff_exists.1 hrun
  rw [afterRelease, ht, Option.getD_some]
  exact Lts.Reachable.replay (.init rfl) ht

theorem honest_peer_accepted_afterRelease :
    afterRelease.data = [FallbackExchange.sample 0, FallbackExchange.sample 1] ∧
      ∃ answer, (afterRelease.receiver.observe FallbackExchange.blankDigest
        (FallbackExchange.sample 0)).1 = .ok answer := by
  have hdata : afterRelease.data = [FallbackExchange.sample 0, FallbackExchange.sample 1] := by
    decide +kernel
  exact ⟨hdata, (honest_peer_accepted reachable_afterRelease).1 _ _ hdata⟩

/-- Both records were received; the release of the first after the second is refused. -/
theorem release_backwards_refused : (system FallbackExchange.blankDigest 0).Reachable afterRelease ∧
      0 < afterRelease.receiver.nextSequence ∧
      (afterRelease.sender.releasePeerSeenThrough 0).1 = .error .invalidFallback :=
  ⟨reachable_afterRelease, by decide +kernel, by decide +kernel⟩

end FallbackLink

end FlyCockpit.Noise
