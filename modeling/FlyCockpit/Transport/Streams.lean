-- SUMMARY: Per-stream sequence numbers, the retirement of stream ids, and the log both implement.
import Mathlib.Data.Finset.Card
import FlyCockpit.Lib.Table
import FlyCockpit.Transport.Frame

/-!
# Stream sequences

The receiver keeps the next sequence number of every open stream. A closed stream id is retired for
good: per lane the retired ordinals are everything below a cursor and a set of ordinals above it,
and the cursor absorbs the set as soon as the two meet.
-/

namespace FlyCockpit.Transport

open List

def maxActiveStreamsPerPeer : Nat := 256
def maxOutstandingStreamIds : Nat := 1024

/-- The position of a stream id in the allocation order of its origin. -/
def streamOrdinal (origin : RemoteStreamOrigin) (streamId : UInt64) : Nat :=
  if streamId = controlStreamId then 0
  else match origin with
    | .client => streamId.toNat / 2
    | .daemon => (streamId.toNat + 1) / 2

/-- Stream 0 exists on the control lane only. -/
def firstLegalOrdinal : RemoteLane → Nat
  | .control => 0
  | .interactive | .bulk => 1

variable {streamId : UInt64} {origin : RemoteStreamOrigin} {lane : RemoteLane} {a : UInt64}
  {fuel cursor : Nat} {closed : Finset Nat}

theorem validateStreamId_eq_ok : validateStreamId streamId origin lane = .ok () ↔
      if streamId = controlStreamId then lane = .control
      else match origin with
        | .client => streamId.toNat % 2 = 0
        | .daemon => streamId.toNat % 2 = 1 := by
  unfold validateStreamId
  split
  next hzero => split <;> simp [*]
  next hzero =>
    have hmod : streamId % 2 = 0 ↔ streamId.toNat % 2 = 0 := by
      rw [← UInt64.toNat_inj, UInt64.toNat_mod]
      rfl
    unfold RemoteStreamOrigin.ofStreamId
    rw [if_neg hzero]
    simp only [hmod]
    rcases Nat.mod_two_eq_zero_or_one streamId.toNat with hparity | hparity <;>
      cases origin <;> simp [hparity]

theorem eq_controlStreamId_iff : streamId = controlStreamId ↔ streamId.toNat = 0 := by
  rw [← UInt64.toNat_inj]
  rfl

/-- On a lane the legal ids of one origin have different ordinals. -/
theorem streamOrdinal_inj {b : UInt64}
    (ha : validateStreamId a origin lane = .ok ()) (hb : validateStreamId b origin lane = .ok ())
    (h : streamOrdinal origin a = streamOrdinal origin b) : a = b := by
  rw [validateStreamId_eq_ok] at ha hb
  rw [← UInt64.toNat_inj]
  unfold streamOrdinal at h
  simp only [eq_controlStreamId_iff] at ha hb h
  cases origin <;> dsimp only at ha hb h <;> split_ifs at ha hb h <;> omega

theorem firstLegalOrdinal_le (ha : validateStreamId a origin lane = .ok ()) :
    firstLegalOrdinal lane ≤ streamOrdinal origin a := by
  rw [validateStreamId_eq_ok] at ha
  unfold streamOrdinal
  simp only [eq_controlStreamId_iff] at ha ⊢
  split at ha
  next hz =>
    subst ha
    exact Nat.zero_le _
  next hz =>
    rw [if_neg hz]
    have hfirst : firstLegalOrdinal lane ≤ 1 := by cases lane <;> decide
    cases origin <;> dsimp only at ha ⊢ <;> omega

/-! ## Retired ordinals -/

/-- The retired ordinals of a lane: those below the cursor and those recorded above it. -/
structure LaneStreamState where
  retireCursor : Nat
  closed : Finset Nat
  ahead : ∀ n ∈ closed, retireCursor < n

/-- The loop of `close`: the cursor moves on while its ordinal is recorded closed. Every round
removes an element, so the size of the set bounds the number of rounds. -/
def absorb : Nat → Nat → Finset Nat → Nat × Finset Nat
  | 0, cursor, closed => (cursor, closed)
  | fuel + 1, cursor, closed =>
    if cursor ∈ closed then absorb fuel (cursor + 1) (closed.erase cursor) else (cursor, closed)

theorem absorb_ahead (hfuel : closed.card ≤ fuel) (h : ∀ n ∈ closed, cursor ≤ n) :
    ∀ n ∈ (absorb fuel cursor closed).2, (absorb fuel cursor closed).1 < n := by
  induction fuel generalizing cursor closed with
  | zero =>
    intro n hn
    rw [absorb, Finset.card_eq_zero.1 (Nat.le_zero.1 hfuel)] at hn
    cases hn
  | succ fuel ih =>
    rw [absorb]
    split
    next hmem =>
      apply ih
      · rw [Finset.card_erase_of_mem hmem]
        omega
      · intro n hn
        obtain ⟨hne, hn⟩ := Finset.mem_erase.1 hn
        have := h n hn
        omega
    next hmem =>
      intro n hn
      have hle := h n hn
      have hne : cursor ≠ n := fun heq => hmem (heq ▸ hn)
      omega

/-- Absorbing moves ordinals from the set below the cursor and changes nothing else. -/
theorem mem_absorb {n : Nat} :
    n < (absorb fuel cursor closed).1 ∨ n ∈ (absorb fuel cursor closed).2 ↔
      n < cursor ∨ n ∈ closed := by
  induction fuel generalizing cursor closed with
  | zero => rfl
  | succ fuel ih =>
    rw [absorb]
    split
    next hmem =>
      rw [ih, Finset.mem_erase]
      constructor
      · rintro (hlt | ⟨-, hn⟩)
        · obtain hlt | rfl := Nat.lt_succ_iff_lt_or_eq.1 hlt
          · exact .inl hlt
          · exact .inr hmem
        · exact .inr hn
      · rintro (hlt | hn)
        · exact .inl (by omega)
        · by_cases heq : n = cursor
          · exact .inl (by omega)
          · exact .inr ⟨heq, hn⟩
    next => rfl

namespace LaneStreamState

def initial (lane : RemoteLane) : LaneStreamState where
  retireCursor := firstLegalOrdinal lane
  closed := ∅
  ahead := by simp

/-- Retired either by the contiguous prefix or by an explicit record. -/
def Retired (s : LaneStreamState) (ordinal : Nat) : Prop :=
  ordinal < s.retireCursor ∨ ordinal ∈ s.closed

instance instDecidableRetired (s : LaneStreamState) (ordinal : Nat) : Decidable (s.Retired ordinal) :=
  inferInstanceAs (Decidable (_ ∨ _))

/-- Record an ordinal closed and absorb the contiguous run at the cursor. -/
def retire (s : LaneStreamState) (ordinal : Nat) : LaneStreamState :=
  if h : ordinal < s.retireCursor then s
  else
    let closed := insert ordinal s.closed
    let absorbed := absorb closed.card s.retireCursor closed
    { retireCursor := absorbed.1
      closed := absorbed.2
      ahead := absorb_ahead le_rfl fun n hn => by
        obtain rfl | hn := Finset.mem_insert.1 hn
        · omega
        · exact (s.ahead n hn).le }

variable {n : Nat}

@[simp] theorem retired_initial {lane : RemoteLane} :
    (initial lane).Retired n ↔ n < firstLegalOrdinal lane := by
  simp [Retired, initial]

theorem retired_retire {s : LaneStreamState} {ordinal : Nat} :
    (s.retire ordinal).Retired n ↔ s.Retired n ∨ n = ordinal := by
  unfold retire Retired
  split
  next h =>
    constructor
    · exact .inl
    · rintro (h' | rfl)
      · exact h'
      · exact .inl h
  next h =>
    rw [mem_absorb, Finset.mem_insert]
    tauto

end LaneStreamState

/-! ## Sequences -/

structure RemoteStreamSequences where
  /-- Open streams and their next expected sequence number. -/
  next : Table (RemoteLane × UInt64) UInt64
  /-- A lane the source has no entry for is in its initial state. -/
  lanes : RemoteLane → LaneStreamState
  origin : RemoteStreamOrigin
  maxActive : Nat
  maxOutstanding : Nat

namespace RemoteStreamSequences

def new (origin : RemoteStreamOrigin) : RemoteStreamSequences where
  next := ∅
  lanes := .initial
  origin
  maxActive := maxActiveStreamsPerPeer
  maxOutstanding := maxOutstandingStreamIds

def withMaxActiveStreams (s : RemoteStreamSequences) (maxActive : Nat) : RemoteStreamSequences :=
  { s with maxActive }

def accept (s : RemoteStreamSequences) (lane : RemoteLane) (streamId streamSeq : UInt64) :
    Except RemoteTransportError RemoteStreamSequences :=
  match s.next.lookup (lane, streamId) with
  | some expected =>
    if streamSeq < expected then .error (.withLane .sequenceRegression lane)
    else if expected < streamSeq then .error (.withLane .sequenceGap lane)
    else match streamSeq.checkedAdd 1 with
      | none => .error (.withLane .sequenceWrap lane)
      | some advanced => .ok { s with next := s.next.insert (lane, streamId) advanced }
  | none =>
    let ordinal := streamOrdinal s.origin streamId
    let state := s.lanes lane
    if state.Retired ordinal then .error (.withLane .streamClosed lane)
    else if s.maxOutstanding ≤ ordinal - state.retireCursor then
      .error (.withLane .streamLimitExceeded lane)
    else if streamSeq ≠ 0 then .error (.withLane .sequenceGap lane)
    else if s.maxActive ≤ s.next.size then .error (.withLane .streamLimitExceeded lane)
    else .ok { s with next := s.next.insert (lane, streamId) 1 }

def close (s : RemoteStreamSequences) (lane : RemoteLane) (streamId : UInt64) :
    RemoteStreamSequences :=
  { s with
    next := s.next.erase (lane, streamId)
    lanes := Function.update s.lanes lane
      ((s.lanes lane).retire (streamOrdinal s.origin streamId)) }

/-- An accepted sequence number advances an open stream or opens a new one. -/
theorem accept_eq_ok {s t : RemoteStreamSequences} {lane : RemoteLane} {streamId streamSeq : UInt64} :
    s.accept lane streamId streamSeq = .ok t ↔
      (∃ advanced, s.next.lookup (lane, streamId) = some streamSeq ∧
        streamSeq.checkedAdd 1 = some advanced ∧
        t = { s with next := s.next.insert (lane, streamId) advanced }) ∨
      (s.next.lookup (lane, streamId) = none ∧
        ¬(s.lanes lane).Retired (streamOrdinal s.origin streamId) ∧
        streamOrdinal s.origin streamId < (s.lanes lane).retireCursor + s.maxOutstanding ∧
        streamSeq = 0 ∧ s.next.size < s.maxActive ∧
        t = { s with next := s.next.insert (lane, streamId) 1 }) := by
  unfold accept
  cases hlookup : s.next.lookup (lane, streamId) with
  | some expected =>
    by_cases hseq : streamSeq = expected
    · subst hseq
      cases hadd : streamSeq.checkedAdd 1 <;> simp [UInt64.lt_irrefl, eq_comm]
    · have hne : expected ≠ streamSeq := fun h => hseq h.symm
      have hcases : streamSeq < expected ∨ expected < streamSeq := by
        by_cases hlt : streamSeq < expected
        · exact .inl hlt
        · exact .inr (UInt64.lt_of_le_of_ne (UInt64.not_lt.1 hlt) hne)
      rcases hcases with hlt | hlt
      · simp [hlt, hne]
      · simp [hlt, UInt64.lt_asymm hlt, hne]
  | none =>
    dsimp only
    split_ifs with hretired hwindow hseq hactive
    · simp [hretired]
    · have hbound : (s.lanes lane).retireCursor ≤ streamOrdinal s.origin streamId := by
        by_contra hlt
        exact hretired (.inl (Nat.lt_of_not_le hlt))
      have hfar : ¬streamOrdinal s.origin streamId < (s.lanes lane).retireCursor + s.maxOutstanding := by
        omega
      simp [hfar]
    · simp [hseq]
    · simp [Nat.not_lt.2 hactive]
    · have hnear : streamOrdinal s.origin streamId < (s.lanes lane).retireCursor + s.maxOutstanding := by
        omega
      simp [hretired, hnear, not_not.1 hseq, Nat.lt_of_not_le hactive, eq_comm]

end RemoteStreamSequences

/-! ## The log of a peer's streams -/

/-- What happened to the streams of a peer: a frame taken, or a stream closed. -/
inductive StreamEvent
  | frame (lane : RemoteLane) (streamId : UInt64)
  | closed (lane : RemoteLane) (streamId : UInt64)
  deriving DecidableEq

/-- The sequence number an open stream waits for: the number of its frames so far. -/
def expectedSeq (log : List StreamEvent) (lane : RemoteLane) (streamId : UInt64) : Option Nat :=
  if .closed lane streamId ∈ log then none
  else if .frame lane streamId ∈ log then some (log.count (.frame lane streamId))
  else none

/-- The streams that have had a frame and have not been closed. -/
def openStreams (log : List StreamEvent) : List (RemoteLane × UInt64) :=
  (log.filterMap fun
    | .frame lane streamId => if .closed lane streamId ∈ log then none else some (lane, streamId)
    | .closed _ _ => none).dedup

theorem mem_openStreams {log : List StreamEvent} : (lane, streamId) ∈ openStreams log ↔
      .frame lane streamId ∈ log ∧ .closed lane streamId ∉ log := by
  rw [openStreams, mem_dedup, mem_filterMap]
  constructor
  · rintro ⟨event, hmem, heq⟩
    cases event with
    | closed lane streamId => cases heq
    | frame lane' streamId' =>
      dsimp only at heq
      split_ifs at heq with hclosed
      cases heq
      exact ⟨hmem, hclosed⟩
  · rintro ⟨hmem, hclosed⟩
    exact ⟨_, hmem, if_neg hclosed⟩

namespace RemoteStreamSequences

/-- The receiver's tables say what the log says. -/
structure Tracks (s : RemoteStreamSequences) (log : List StreamEvent) : Prop where
  next : ∀ lane streamId,
    (s.next.lookup (lane, streamId)).map UInt64.toNat = expectedSeq log lane streamId
  retired : ∀ lane n, (s.lanes lane).Retired n ↔ n < firstLegalOrdinal lane ∨
      ∃ streamId, .closed lane streamId ∈ log ∧ streamOrdinal s.origin streamId = n

theorem tracks_new (origin : RemoteStreamOrigin) (maxActive : Nat) :
    ((new origin).withMaxActiveStreams maxActive).Tracks [] where
  next := by simp [new, withMaxActiveStreams, expectedSeq]
  retired := by simp [new, withMaxActiveStreams]

namespace Tracks

variable {s t : RemoteStreamSequences} {log : List StreamEvent} {lane : RemoteLane}
  {streamId streamSeq : UInt64}

/-- A stream whose ordinal is not retired was never closed. -/
theorem not_retired (h : s.Tracks log)
    (hopen : ¬(s.lanes lane).Retired (streamOrdinal s.origin streamId)) :
    .closed lane streamId ∉ log := fun hclosed =>
  hopen ((h.retired lane _).2 (.inr ⟨streamId, hclosed, rfl⟩))

/-- An accepted sequence number is the number of frames the stream had, and the stream was not
closed before. -/
theorem accepted (h : s.Tracks log) (hok : s.accept lane streamId streamSeq = .ok t) :
    streamSeq.toNat = log.count (.frame lane streamId) ∧ .closed lane streamId ∉ log := by
  have hnext := h.next lane streamId
  obtain ⟨advanced, hlookup, -, -⟩ | ⟨hlookup, hretired, -, rfl, -, -⟩ := accept_eq_ok.1 hok
  · rw [hlookup, Option.map_some, expectedSeq] at hnext
    split_ifs at hnext with hclosed hframe
    exact ⟨Option.some.inj hnext, hclosed⟩
  · have hclosed := h.not_retired hretired
    rw [hlookup, Option.map_none, expectedSeq, if_neg hclosed] at hnext
    split_ifs at hnext with hframe
    exact ⟨(count_eq_zero_of_not_mem hframe).symm, hclosed⟩

theorem expectedSeq_frame (hclosed : .closed lane streamId ∉ log) (lane' : RemoteLane)
    (streamId' : UInt64) :
    expectedSeq (log ++ [.frame lane streamId]) lane' streamId' =
      if (lane', streamId') = (lane, streamId) then some (log.count (.frame lane streamId) + 1)
      else expectedSeq log lane' streamId' := by
  by_cases heq : (lane', streamId') = (lane, streamId)
  · obtain ⟨rfl, rfl⟩ := Prod.mk.inj heq
    simp [expectedSeq, hclosed]
  · have hne : ¬(lane' = lane ∧ streamId' = streamId) := fun h => heq (Prod.ext h.1 h.2)
    have hne' : ¬(lane = lane' ∧ streamId = streamId') := fun h => hne ⟨h.1.symm, h.2.symm⟩
    simp [expectedSeq, heq, hne, hne', count_append]

theorem accept (h : s.Tracks log) (hok : s.accept lane streamId streamSeq = .ok t) :
    t.Tracks (log ++ [.frame lane streamId]) := by
  obtain ⟨hseq, hclosed⟩ := h.accepted hok
  have hinsert : ∀ advanced : UInt64, advanced.toNat = streamSeq.toNat + 1 →
      RemoteStreamSequences.Tracks { s with next := s.next.insert (lane, streamId) advanced }
        (log ++ [.frame lane streamId]) := by
    intro advanced hadvanced
    refine ⟨fun lane' streamId' => ?_, ?_⟩
    · rw [expectedSeq_frame hclosed, Table.lookup_insert_eq, apply_ite (Option.map UInt64.toNat),
        h.next lane' streamId', Option.map_some, hadvanced, hseq]
    · simpa using h.retired
  obtain ⟨advanced, -, hadd, rfl⟩ | ⟨-, -, -, rfl, -, rfl⟩ := accept_eq_ok.1 hok
  · exact hinsert advanced (UInt64.toNat_of_checkedAdd_one hadd)
  · exact hinsert 1 rfl

theorem close (h : s.Tracks log) (lane : RemoteLane) (streamId : UInt64) :
    (s.close lane streamId).Tracks (log ++ [.closed lane streamId]) := by
  refine ⟨fun lane' streamId' => ?_, fun lane' n => ?_⟩
  · rw [RemoteStreamSequences.close]
    dsimp only
    rw [Table.lookup_erase_eq, apply_ite (Option.map UInt64.toNat), h.next lane' streamId',
      Option.map_none]
    by_cases heq : (lane', streamId') = (lane, streamId)
    · obtain ⟨rfl, rfl⟩ := Prod.mk.inj heq
      simp [expectedSeq]
    · have hne : ¬(lane' = lane ∧ streamId' = streamId) := fun h => heq (Prod.ext h.1 h.2)
      simp [expectedSeq, heq, hne, count_append]
  · rw [RemoteStreamSequences.close]
    dsimp only
    by_cases heq : lane' = lane
    · subst heq
      rw [Function.update_self, LaneStreamState.retired_retire, h.retired]
      simp only [mem_append, mem_singleton, StreamEvent.closed.injEq, true_and]
      constructor
      · rintro ((hlt | ⟨id, hid, rfl⟩) | rfl)
        · exact .inl hlt
        · exact .inr ⟨id, .inl hid, rfl⟩
        · exact .inr ⟨streamId, .inr rfl, rfl⟩
      · rintro (hlt | ⟨id, hid | rfl, rfl⟩)
        · exact .inl (.inl hlt)
        · exact .inl (.inr ⟨id, hid, rfl⟩)
        · exact .inr rfl
    · rw [Function.update_of_ne heq, h.retired]
      simp [heq]

/-- The active-stream budget counts the open streams. -/
theorem size_next (h : s.Tracks log) : s.next.size = (openStreams log).length := by
  rw [Table.size_eq_keys]
  refine ((perm_ext_iff_of_nodup s.next.keys_nodup (nodup_dedup _)).2 ?_).length_eq
  rintro ⟨lane, streamId⟩
  change _ ↔ (lane, streamId) ∈ openStreams log
  rw [mem_openStreams, ← AList.mem_keys, ← AList.lookup_isSome, ← Option.isSome_map, h.next,
    expectedSeq]
  split_ifs <;> simp [*]

/-- On legal ids the retired ordinals are those of the closed streams. -/
theorem retired_iff (h : s.Tracks log) (hlegal : validateStreamId streamId s.origin lane = .ok ())
    (hclosed : ∀ id, .closed lane id ∈ log → validateStreamId id s.origin lane = .ok ()) :
    (s.lanes lane).Retired (streamOrdinal s.origin streamId) ↔ .closed lane streamId ∈ log := by
  rw [h.retired]
  constructor
  · rintro (hlt | ⟨id, hid, heq⟩)
    · exact absurd (firstLegalOrdinal_le hlegal) (Nat.not_le.2 hlt)
    · rwa [← streamOrdinal_inj (hclosed id hid) hlegal heq]
  · intro hmem
    exact .inr ⟨streamId, hmem, rfl⟩

end Tracks

end RemoteStreamSequences

end FlyCockpit.Transport
