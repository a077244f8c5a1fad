-- SUMMARY: Over any network the fallback windows deliver each record once and in order.
import FlyCockpit.Lib.Transition
import FlyCockpit.Noise.FallbackWindows

/-!
# Delivery over any network

A send window and a receive window with a network in between that may lose, repeat and reorder: the
receive window is shown any record that was cached before, at any time and as often as the network
likes. What it hands on is nevertheless the sequence of the records.
-/

namespace FlyCockpit.Noise

open List

open FallbackReceiveWindow (deliveredBy acknowledgedBy)

structure FallbackExchange where
  sender : FallbackSendWindow
  receiver : FallbackReceiveWindow
  /-- The records `insert` took, in order. -/
  sent : List Bytes
  /-- The outputs of the receive window, one after the other. -/
  delivered : List Bytes
  /-- The acknowledgements the receive window gave, in order. -/
  reported : List CumulativeAckV1

inductive FallbackCall
  | insert (sequence : Nat) (ciphertext : Bytes) (deliveryTracked : Bool)
  | acknowledge (largestContiguous : Nat)
  | releasePeerSeenThrough (watermark : Nat)
  | retryDue (elapsedMillis : Nat)
  | observe (bytes : Bytes)
  | ack
  | ackDue (nowMillis : Nat) (immediate receivedAckOnly : Bool)

namespace FallbackExchange

def new (nowMillis : Nat) : FallbackExchange where
  sender := .new
  receiver := .new nowMillis
  sent := []
  delivered := []
  reported := []

variable (sha256 : Bytes → Block 32)

def insert (s : FallbackExchange) (sequence : Nat) (ciphertext : Bytes) (deliveryTracked : Bool) :
    FallbackExchange :=
  match s.sender.insert sha256 sequence ciphertext deliveryTracked with
  | (.ok (), sender) => { s with sender, sent := s.sent ++ [ciphertext] }
  | (.error _, sender) => { s with sender }

def observe (s : FallbackExchange) (bytes : Bytes) : FallbackExchange :=
  { s with
    receiver := (s.receiver.observe sha256 bytes).2
    delivered := s.delivered ++ deliveredBy (s.receiver.observe sha256 bytes).1
    reported := s.reported ++ acknowledgedBy (s.receiver.observe sha256 bytes).1 }

def ackDue (s : FallbackExchange) (nowMillis : Nat) (immediate receivedAckOnly : Bool) :
    FallbackExchange :=
  { s with
    receiver := (s.receiver.ackDue nowMillis immediate receivedAckOnly).2
    reported := s.reported ++ (s.receiver.ackDue nowMillis immediate receivedAckOnly).1.toList }

/-- The network shows the receive window records that were cached, and no others. -/
def call (s : FallbackExchange) : FallbackCall → Option FallbackExchange
  | .insert sequence ciphertext tracked => some (s.insert sha256 sequence ciphertext tracked)
  | .acknowledge largest => some { s with sender := (s.sender.acknowledge largest).2 }
  | .releasePeerSeenThrough watermark =>
    some { s with sender := (s.sender.releasePeerSeenThrough watermark).2 }
  | .retryDue elapsed => some { s with sender := (s.sender.retryDue elapsed).2 }
  | .observe bytes => if bytes ∈ s.sent then some (s.observe sha256 bytes) else none
  | .ack => some { s with reported := s.reported ++ [s.receiver.ack] }
  | .ackDue now immediate receivedAckOnly => some (s.ackDue now immediate receivedAckOnly)

def system (nowMillis : Nat) : Lts FallbackExchange FallbackCall :=
  .ofCall (· = new nowMillis) (call sha256)

end FallbackExchange

/-! ## Acknowledgements count records -/

namespace CumulativeAckV1

/-- The number of records an acknowledgement covers. -/
def count (ack : CumulativeAckV1) : Nat :=
  if ack.largestContiguous = ackNone then 0 else ack.largestContiguous + 1

theorem count_le_iff {ack : CumulativeAckV1} {n : Nat} :
    ack.count ≤ n ↔ ack.largestContiguous = ackNone ∨ ack.largestContiguous < n := by
  unfold count
  split
  · rename_i hnone
    exact ⟨fun _ => .inl hnone, fun _ => Nat.zero_le n⟩
  · rename_i hsome
    exact ⟨.inr, fun h => h.resolve_left hsome⟩

theorem count_le_count_iff {earlier later : CumulativeAckV1} :
    earlier.count ≤ later.count ↔ earlier.largestContiguous = ackNone ∨
      (later.largestContiguous ≠ ackNone ∧
        earlier.largestContiguous ≤ later.largestContiguous) := by
  rw [count_le_iff, count]
  split
  · rename_i hnone
    exact or_congr_right ⟨fun h => absurd h (Nat.not_lt_zero _), fun h => absurd hnone h.1⟩
  · rename_i hsome
    exact or_congr_right ⟨fun h => ⟨hsome, Nat.le_of_lt_succ h⟩, fun h => Nat.lt_succ_of_le h.2⟩

end CumulativeAckV1

/-- The acknowledgement of a window covers what the window handed on. -/
theorem FallbackReceiveWindow.Waits.count_ack {sha256 : Bytes → Block 32} {sent : List Bytes}
    {w : FallbackReceiveWindow} (hsent : Numbered sent) (h : w.Waits sha256 sent) :
    w.ack.count = w.nextSequence := by
  unfold FallbackReceiveWindow.ack CumulativeAckV1.count
  dsimp only
  by_cases hzero : w.nextSequence = 0
  · rw [if_pos hzero, if_pos rfl, hzero]
  · have hlt : w.nextSequence - 1 < sent.length := by
      have hnext := h.next_le
      omega
    have hlimit := (hsent _ _ (List.getElem?_eq_getElem hlt)).lt_limit
    have hnone : fallbackSequenceLimit < ackNone := by decide
    rw [if_neg hzero, if_neg (by omega)]
    omega

namespace FallbackExchange

variable {sha256 : Bytes → Block 32} {s t : FallbackExchange}

/-! ## What every call preserves -/

variable (sha256) in
/-- The receive window has handed on the records before its next sequence number. -/
structure Delivering (s : FallbackExchange) : Prop where
  numbered : Numbered s.sent
  caches : s.sender.Caches s.sent
  waits : s.receiver.Waits sha256 s.sent
  delivered : s.delivered = s.sent.take s.receiver.nextSequence
  reported_le : ∀ ack ∈ s.reported, ack.count ≤ s.receiver.nextSequence
  reported_mono : s.reported.Pairwise fun earlier later => earlier.count ≤ later.count

theorem delivering_new (sha256 : Bytes → Block 32) (nowMillis : Nat) :
    Delivering sha256 (new nowMillis) where
  numbered k bytes h := by cases h
  caches := FallbackSendWindow.caches_new
  waits := FallbackReceiveWindow.waits_new sha256 [] nowMillis
  delivered := rfl
  reported_le ack h := by cases h
  reported_mono := .nil

/-- A step of the sender that takes no record. -/
theorem Delivering.sender (h : Delivering sha256 s) {sender : FallbackSendWindow}
    (hcaches : sender.Caches s.sent) : Delivering sha256 { s with sender } :=
  { h with caches := hcaches }

theorem Delivering.insert (h : Delivering sha256 s) (sequence : Nat) (ciphertext : Bytes)
    (deliveryTracked : Bool) :
    Delivering sha256 (s.insert sha256 sequence ciphertext deliveryTracked) := by
  unfold FallbackExchange.insert
  obtain ⟨e, hinsert⟩ | ⟨sender, hinsert, houter, hcaches, -, -, -⟩ :=
    h.caches.insert_cases sha256 sequence ciphertext deliveryTracked
  · rw [hinsert]
    exact h
  · rw [hinsert]
    refine ⟨h.numbered.concat houter, hcaches, h.waits.append _, ?_, h.reported_le, h.reported_mono⟩
    dsimp only
    rw [take_append_of_le_length h.waits.next_le]
    exact h.delivered

/-- The receive window acknowledges what it has handed on. -/
theorem Delivering.report (h : Delivering sha256 s) {acks : List CumulativeAckV1}
    (hacks : ∀ ack ∈ acks, ack = s.receiver.ack) :
    Delivering sha256 { s with reported := s.reported ++ acks } := by
  have hcount : ∀ ack ∈ acks, ack.count = s.receiver.nextSequence := by
    intro ack hack
    rw [hacks ack hack]
    exact h.waits.count_ack h.numbered
  refine { h with reported_le := ?_, reported_mono := ?_ }
  · intro ack hack
    obtain hack | hack := mem_append.1 hack
    · exact h.reported_le ack hack
    · exact (hcount ack hack).le
  · refine pairwise_append.2 ⟨h.reported_mono, ?_, ?_⟩
    · refine List.Pairwise.imp_of_mem ?_ (pairwise_of_forall fun _ _ => trivial)
      intro earlier later hearlier hlater _
      rw [hcount earlier hearlier, hcount later hlater]
    · intro earlier hearlier later hlater
      rw [hcount later hlater]
      exact h.reported_le earlier hearlier

/-- The receive window moves on. -/
theorem Delivering.observe (h : Delivering sha256 s) {bytes : Bytes} (hmem : bytes ∈ s.sent) :
    Delivering sha256 (s.observe sha256 bytes) := by
  obtain ⟨k, hk⟩ := mem_iff_getElem?.1 hmem
  have hobserved := h.waits.observed h.numbered hk
  have hreport := h.report (FallbackReceiveWindow.acknowledgedBy_observe sha256 s.receiver bytes)
  refine { hreport with waits := hobserved.waits, delivered := ?_, reported_le := ?_ }
  · have hnext := hobserved.next_le
    have hsum : (s.receiver.observe sha256 bytes).2.nextSequence = s.receiver.nextSequence +
        ((s.receiver.observe sha256 bytes).2.nextSequence - s.receiver.nextSequence) := by
      omega
    change s.delivered ++ deliveredBy (s.receiver.observe sha256 bytes).1 =
      s.sent.take (s.receiver.observe sha256 bytes).2.nextSequence
    rw [h.delivered, hobserved.delivered, hsum, take_add, Nat.add_sub_cancel_left]
  · intro ack hack
    exact le_trans (hreport.reported_le ack hack) hobserved.next_le

theorem Delivering.ackDue (h : Delivering sha256 s) (nowMillis : Nat)
    (immediate receivedAckOnly : Bool) :
    Delivering sha256 (s.ackDue nowMillis immediate receivedAckOnly) := by
  obtain ⟨newlyAdmitted, lastAckMillis, hreceiver, hacks⟩ :=
    s.receiver.ackDue_cases nowMillis immediate receivedAckOnly
  have hlist : ∀ ack ∈ (s.receiver.ackDue nowMillis immediate receivedAckOnly).1.toList,
      ack = s.receiver.ack := fun ack hack => hacks ack (Option.mem_toList.1 hack)
  have hreport := h.report hlist
  unfold FallbackExchange.ackDue
  rw [hreceiver]
  have hwaits := h.waits
  exact { hreport with
    waits := ⟨⟨hwaits.next_le, hwaits.pending, hwaits.bytes, hwaits.accepted⟩, hwaits.missing⟩ }

theorem Delivering.call (h : Delivering sha256 s) {c : FallbackCall}
    (hcall : s.call sha256 c = some t) : Delivering sha256 t := by
  cases c with
  | insert sequence ciphertext tracked =>
    cases hcall
    exact h.insert sequence ciphertext tracked
  | acknowledge largest =>
    cases hcall
    exact h.sender (h.caches.acknowledge largest)
  | releasePeerSeenThrough watermark =>
    cases hcall
    obtain ⟨answer, hsame⟩ | ⟨w', hrelease, hcaches, -, -, -⟩ := h.caches.release_cases watermark
    · rw [hsame]
      exact h
    · rw [hrelease]
      exact h.sender hcaches
  | retryDue elapsed =>
    cases hcall
    exact h.sender (h.caches.retryDue elapsed)
  | observe bytes =>
    simp only [FallbackExchange.call] at hcall
    split_ifs at hcall with hmem
    cases hcall
    exact h.observe hmem
  | ack =>
    cases hcall
    exact h.report fun ack hack => mem_singleton.1 hack
  | ackDue now immediate receivedAckOnly =>
    cases hcall
    exact h.ackDue now immediate receivedAckOnly

theorem reachable_delivering {nowMillis : Nat} (h : (system sha256 nowMillis).Reachable s) :
    Delivering sha256 s := by
  induction h with
  | init h0 =>
    cases h0
    exact delivering_new sha256 nowMillis
  | step _ _ hcall ih => exact ih.call hcall

/-- Whatever the network does, the records handed on are the first records that were sent, each once
and as it was sent, and an acknowledgement covers only records that were handed on and no fewer than
the acknowledgements before it. -/
theorem delivered_inOrder {nowMillis : Nat} (h : (system sha256 nowMillis).Reachable s) :
    s.delivered <+: s.sent ∧
    (∀ ack ∈ s.reported,
      ack.largestContiguous = ackNone ∨ ack.largestContiguous < s.delivered.length) ∧
    s.reported.Pairwise fun earlier later => earlier.largestContiguous = ackNone ∨
      (later.largestContiguous ≠ ackNone ∧
        earlier.largestContiguous ≤ later.largestContiguous) := by
  have hs := reachable_delivering h
  have hlength : s.delivered.length = s.receiver.nextSequence := by
    rw [hs.delivered, List.length_take]
    exact Nat.min_eq_left hs.waits.next_le
  refine ⟨?_, ?_, ?_⟩
  · rw [hs.delivered]
    exact List.take_prefix _ _
  · intro ack hack
    rw [hlength]
    exact CumulativeAckV1.count_le_iff.1 (hs.reported_le ack hack)
  · exact hs.reported_mono.imp CumulativeAckV1.count_le_count_iff.1

/-- A record with a ciphertext of 32 bytes. -/
def sampleRecord (sequence : Nat) : FallbackOuterRecordV1 where
  routeGeneration := 7
  direction := .clientToDaemon
  recordSequence := sequence
  peerSeenThrough := ackNone
  ciphertext := List.replicate 32 1

def sample (sequence : Nat) : Bytes :=
  (sampleRecord sequence).header ++ (sampleRecord sequence).ciphertext

theorem isOuter_sample {sequence : Nat} (h : sequence < fallbackSequenceLimit) :
    IsOuter sequence (sample sequence) := by
  have hroute : (sampleRecord sequence).routeGeneration = 7 := rfl
  have hseen : (sampleRecord sequence).peerSeenThrough = ackNone := rfl
  have hlength : (sampleRecord sequence).ciphertext.length = 32 := rfl
  have hencode : (sampleRecord sequence).encode = .ok (sample sequence) := by
    rw [FallbackOuterRecordV1.encode_eq_ok, hroute, hlength]
    exact ⟨by decide, h, by decide, by decide, rfl⟩
  refine ⟨_, FallbackOuterRecordV1.validateOuterHeader_encode hencode ?_ ?_, rfl⟩
  · rw [hroute]
    decide
  · rw [hseen]
    decide

def blankDigest : Bytes → Block 32 := fun _ => .zero 32

/-- The network swaps two records and repeats one. -/
def swapped : List FallbackCall :=
  [.insert 0 (sample 0) true, .insert 1 (sample 1) true, .observe (sample 1), .ack,
    .observe (sample 0), .observe (sample 1), .ackDue 30 false false]

def afterSwap : FallbackExchange := (Lts.replay (call blankDigest) (new 0) swapped).getD (new 0)

theorem reachable_afterSwap : (system blankDigest 0).Reachable afterSwap := by
  have hrun : (Lts.replay (call blankDigest) (new 0) swapped).isSome = true := by decide +kernel
  obtain ⟨t, ht⟩ := Option.isSome_iff_exists.1 hrun
  rw [afterSwap, ht, Option.getD_some]
  exact Lts.Reachable.replay (.init rfl) ht

theorem delivered_inOrder_afterSwap :
    afterSwap.delivered = [sample 0, sample 1] ∧ afterSwap.reported = [⟨ackNone⟩, ⟨1⟩, ⟨1⟩] ∧
      afterSwap.delivered <+: afterSwap.sent :=
  ⟨by decide +kernel, by decide +kernel, (delivered_inOrder reachable_afterSwap).1⟩

end FallbackExchange

end FlyCockpit.Noise
