-- SUMMARY: The stream tables as the receiver stores them, and what their answers depend on.
import FlyCockpit.Transport.Streams

/-!
# Stream retirement

The receiver stores the retirement state of a lane once a call has looked at the lane, also when
the call fails. What it answers depends only on the sequences the tables stand for, so a failed
call is not seen again.
-/

namespace FlyCockpit.Transport

/-- `RemoteStreamSequences` with its two maps as they are stored. -/
structure StreamTables where
  next : Table (RemoteLane × UInt64) UInt64
  lanes : Table RemoteLane LaneStreamState
  origin : RemoteStreamOrigin
  maxActive : Nat
  maxOutstanding : Nat

namespace StreamTables

def new (origin : RemoteStreamOrigin) : StreamTables where
  next := ∅
  lanes := ∅
  origin
  maxActive := maxActiveStreamsPerPeer
  maxOutstanding := maxOutstandingStreamIds

def withMaxActiveStreams (t : StreamTables) (maxActive : Nat) : StreamTables :=
  { t with maxActive }

def withMaxOutstandingIds (t : StreamTables) (maxOutstanding : Nat) : StreamTables :=
  { t with maxOutstanding }

/-- The state of a lane, the initial one if none is stored. -/
def laneState (t : StreamTables) (lane : RemoteLane) : LaneStreamState :=
  (t.lanes.lookup lane).getD (.initial lane)

/-- Looking at a lane stores its state. -/
def visit (t : StreamTables) (lane : RemoteLane) : StreamTables :=
  { t with lanes := t.lanes.insert lane (t.laneState lane) }

def accept (t : StreamTables) (lane : RemoteLane) (streamId streamSeq : UInt64) :
    Except RemoteTransportError Unit × StreamTables :=
  match t.next.lookup (lane, streamId) with
  | some expected =>
    if streamSeq < expected then (.error (.withLane .sequenceRegression lane), t)
    else if expected < streamSeq then (.error (.withLane .sequenceGap lane), t)
    else match streamSeq.checkedAdd 1 with
      | none => (.error (.withLane .sequenceWrap lane), t)
      | some advanced => (.ok (), { t with next := t.next.insert (lane, streamId) advanced })
  | none =>
    let ordinal := streamOrdinal t.origin streamId
    let state := t.laneState lane
    let visited := t.visit lane
    if state.Retired ordinal then (.error (.withLane .streamClosed lane), visited)
    else if t.maxOutstanding ≤ ordinal - state.retireCursor then
      (.error (.withLane .streamLimitExceeded lane), visited)
    else if streamSeq ≠ 0 then (.error (.withLane .sequenceGap lane), visited)
    else if t.maxActive ≤ t.next.size then (.error (.withLane .streamLimitExceeded lane), visited)
    else (.ok (), { visited with next := t.next.insert (lane, streamId) 1 })

def close (t : StreamTables) (lane : RemoteLane) (streamId : UInt64) : StreamTables :=
  let visited := t.visit lane
  { visited with
    next := t.next.erase (lane, streamId)
    lanes := visited.lanes.insert lane
      ((t.laneState lane).retire (streamOrdinal t.origin streamId)) }

/-! ## The sequences the tables stand for -/

@[simps -fullyApplied] def sequences (t : StreamTables) : RemoteStreamSequences where
  next := t.next
  lanes := t.laneState
  origin := t.origin
  maxActive := t.maxActive
  maxOutstanding := t.maxOutstanding

variable (t : StreamTables) (lane : RemoteLane) (streamId streamSeq : UInt64)

theorem laneState_insert (state : LaneStreamState) :
    ({ t with lanes := t.lanes.insert lane state } : StreamTables).laneState =
      Function.update t.laneState lane state := by
  funext other
  rw [laneState, Table.lookup_insert_eq, Function.update_apply]
  split <;> rfl

@[simp] theorem laneState_visit : (t.visit lane).laneState = t.laneState := by
  rw [visit, laneState_insert, Function.update_eq_self]

@[simp] theorem sequences_visit : (t.visit lane).sequences = t.sequences := by
  unfold sequences
  rw [laneState_visit]
  rfl

/-- A call answers what the sequences answer and leaves what they leave: nothing new if it fails. -/
theorem sequences_accept : (t.accept lane streamId streamSeq).1 =
        (t.sequences.accept lane streamId streamSeq).map (fun _ => ()) ∧
      (t.accept lane streamId streamSeq).2.sequences =
        (t.sequences.accept lane streamId streamSeq).toOption.getD t.sequences := by
  have hvisit := t.sequences_visit lane
  unfold accept RemoteStreamSequences.accept
  simp only [sequences_next, sequences_lanes, sequences_origin, sequences_maxActive,
    sequences_maxOutstanding]
  cases t.next.lookup (lane, streamId) with
  | some expected =>
    dsimp only
    split_ifs
    · exact ⟨rfl, rfl⟩
    · exact ⟨rfl, rfl⟩
    · cases streamSeq.checkedAdd 1 <;> exact ⟨rfl, rfl⟩
  | none =>
    dsimp only
    by_cases hretired : (t.laneState lane).Retired (streamOrdinal t.origin streamId)
    · simp only [hretired, if_true]
      exact ⟨rfl, hvisit⟩
    by_cases hwindow :
        t.maxOutstanding ≤ streamOrdinal t.origin streamId - (t.laneState lane).retireCursor
    · simp only [hretired, hwindow, if_true, if_false]
      exact ⟨rfl, hvisit⟩
    by_cases hseq : streamSeq = 0
    case neg =>
      simp only [hretired, hwindow, hseq, ne_eq, not_false_iff, if_true, if_false]
      exact ⟨rfl, hvisit⟩
    by_cases hactive : t.maxActive ≤ t.next.size
    · simp only [hretired, hwindow, hseq, hactive, ne_eq, not_true, if_true, if_false]
      exact ⟨rfl, hvisit⟩
    simp only [hretired, hwindow, hseq, hactive, ne_eq, not_true, if_false]
    exact ⟨rfl, congrArg (fun s => { s with next := t.next.insert (lane, streamId) 1 }) hvisit⟩

theorem sequences_close : (t.close lane streamId).sequences = t.sequences.close lane streamId := by
  have hlanes : (t.close lane streamId).laneState = Function.update t.laneState lane
        ((t.laneState lane).retire (streamOrdinal t.origin streamId)) := by
    exact ((t.visit lane).laneState_insert lane _).trans (by rw [laneState_visit])
  unfold sequences
  rw [hlanes]
  rfl

end StreamTables

/-! ## Runs of calls -/

/-- A call of the receiver: for a frame that arrived, or for the end of a stream. -/
inductive StreamCall
  | accept (lane : RemoteLane) (streamId streamSeq : UInt64)
  | close (lane : RemoteLane) (streamId : UInt64)
  deriving DecidableEq

namespace StreamCall

/-- What the call records if it succeeds. -/
def event : StreamCall → StreamEvent
  | accept lane streamId _ => .frame lane streamId
  | close lane streamId => .closed lane streamId

/-- The id may be used by the peer on the lane. -/
def Legal (origin : RemoteStreamOrigin) : StreamCall → Prop
  | accept lane streamId _ | close lane streamId => validateStreamId streamId origin lane = .ok ()

end StreamCall

namespace StreamTables

/-- The tables of a peer with both limits set. -/
def tuned (origin : RemoteStreamOrigin) (maxActive maxOutstanding : Nat) : StreamTables :=
  ((new origin).withMaxActiveStreams maxActive).withMaxOutstandingIds maxOutstanding

def call (t : StreamTables) : StreamCall → Except RemoteTransportError Unit × StreamTables
  | .accept lane streamId streamSeq => t.accept lane streamId streamSeq
  | .close lane streamId => (.ok (), t.close lane streamId)

/-- The tables after some calls. -/
def run (t : StreamTables) (calls : List StreamCall) : StreamTables :=
  calls.foldl (fun t c => (t.call c).2) t

/-- The answers to some calls. -/
def answers : StreamTables → List StreamCall → List (Except RemoteTransportError Unit)
  | _, [] => []
  | t, c :: calls => (t.call c).1 :: answers (t.call c).2 calls

theorem run_concat (t : StreamTables) (calls : List StreamCall) (c : StreamCall) :
    t.run (calls ++ [c]) = ((t.run calls).call c).2 := by
  simp [run]

theorem answers_concat (t : StreamTables) (calls : List StreamCall) (c : StreamCall) :
    t.answers (calls ++ [c]) = t.answers calls ++ [((t.run calls).call c).1] := by
  induction calls generalizing t with
  | nil => rfl
  | cons d calls ih =>
    rw [List.cons_append, answers, answers, ih]
    rfl

variable {t u : StreamTables} {lane : RemoteLane} {streamId streamSeq : UInt64}

/-- Tables that stand for the same sequences go on standing for the same sequences. -/
theorem call_congr (h : t.sequences = u.sequences) (c : StreamCall) :
    (t.call c).1 = (u.call c).1 ∧ (t.call c).2.sequences = (u.call c).2.sequences := by
  cases c with
  | accept lane streamId streamSeq =>
    obtain ⟨hanswer, hstate⟩ := t.sequences_accept lane streamId streamSeq
    obtain ⟨hanswer', hstate'⟩ := u.sequences_accept lane streamId streamSeq
    rw [call, call, hanswer, hanswer', hstate, hstate', h]
    exact ⟨rfl, rfl⟩
  | close lane streamId =>
    refine ⟨rfl, ?_⟩
    rw [call, call, sequences_close, sequences_close, h]

theorem answers_congr (h : t.sequences = u.sequences)
    (calls : List StreamCall) : t.answers calls = u.answers calls := by
  induction calls generalizing t u with
  | nil => rfl
  | cons c calls ih =>
    obtain ⟨hanswer, hstate⟩ := call_congr h c
    rw [answers, answers, hanswer, ih hstate]

/-- A call that fails leaves the sequences as they were. -/
theorem sequences_of_error
    {error : RemoteTransportError} (h : (t.accept lane streamId streamSeq).1 = .error error) :
    (t.accept lane streamId streamSeq).2.sequences = t.sequences := by
  obtain ⟨hanswer, hstate⟩ := t.sequences_accept lane streamId streamSeq
  cases hok : t.sequences.accept lane streamId streamSeq with
  | error e => rw [hstate, hok]; rfl
  | ok s =>
    rw [hanswer, hok] at h
    cases h

/-- A call that succeeds leaves the sequences their own `accept` leaves. -/
theorem sequences_of_ok (h : (t.accept lane streamId streamSeq).1 = .ok ()) :
    t.sequences.accept lane streamId streamSeq =
      .ok (t.accept lane streamId streamSeq).2.sequences := by
  obtain ⟨hanswer, hstate⟩ := t.sequences_accept lane streamId streamSeq
  cases hok : t.sequences.accept lane streamId streamSeq with
  | error e =>
    rw [hanswer, hok] at h
    cases h
  | ok s =>
    rw [hstate, hok]
    rfl

/-! ## What a run leaves -/

/-- Sequences that follow a log under limits that never change. -/
structure Follows (origin : RemoteStreamOrigin) (maxActive maxOutstanding : Nat)
    (log : List StreamEvent) (s : RemoteStreamSequences) : Prop where
  tracks : s.Tracks log
  origin_eq : s.origin = origin
  maxActive_eq : s.maxActive = maxActive
  maxOutstanding_eq : s.maxOutstanding = maxOutstanding
  budget : s.next.size ≤ maxActive

section Follows

variable {origin : RemoteStreamOrigin} {maxActive maxOutstanding : Nat} {log : List StreamEvent}
  {s : RemoteStreamSequences} {lane : RemoteLane} {streamId : UInt64}

theorem follows_tuned :
    Follows origin maxActive maxOutstanding [] (tuned origin maxActive maxOutstanding).sequences where
  tracks :=
    have h := RemoteStreamSequences.tracks_new origin maxActive
    ⟨h.next, h.retired⟩
  origin_eq := rfl
  maxActive_eq := rfl
  maxOutstanding_eq := rfl
  budget := Nat.zero_le _

theorem Follows.accept {u : RemoteStreamSequences}
    {streamSeq : UInt64} (h : Follows origin maxActive maxOutstanding log s)
    (hok : s.accept lane streamId streamSeq = .ok u) :
    Follows origin maxActive maxOutstanding (log ++ [.frame lane streamId]) u := by
  have htracks := h.tracks.accept hok
  obtain ⟨advanced, hlookup, -, rfl⟩ | ⟨hlookup, -, -, -, hroom, rfl⟩ :=
    RemoteStreamSequences.accept_eq_ok.1 hok
  · refine ⟨htracks, h.origin_eq, h.maxActive_eq, h.maxOutstanding_eq, ?_⟩
    dsimp only
    rw [Table.size_insert, Table.size_erase hlookup]
    exact h.budget
  · refine ⟨htracks, h.origin_eq, h.maxActive_eq, h.maxOutstanding_eq, ?_⟩
    dsimp only
    rw [Table.size_insert, Table.erase_of_none hlookup]
    exact h.maxActive_eq ▸ hroom

theorem Follows.close
    (h : Follows origin maxActive maxOutstanding log s) (lane : RemoteLane) (streamId : UInt64) :
    Follows origin maxActive maxOutstanding (log ++ [.closed lane streamId])
      (s.close lane streamId) where
  tracks := h.tracks.close lane streamId
  origin_eq := h.origin_eq
  maxActive_eq := h.maxActive_eq
  maxOutstanding_eq := h.maxOutstanding_eq
  budget := by
    rw [RemoteStreamSequences.close]
    dsimp only
    cases hlookup : s.next.lookup (lane, streamId) with
    | none =>
      rw [Table.erase_of_none hlookup]
      exact h.budget
    | some expected =>
      have hsize := Table.size_erase hlookup
      have hbudget := h.budget
      omega

/-- After any calls the tables follow a log whose closed streams are those of the `close` calls. -/
theorem follows_run (origin : RemoteStreamOrigin) (maxActive maxOutstanding : Nat)
    (calls : List StreamCall) :
    ∃ log, Follows origin maxActive maxOutstanding log
        ((tuned origin maxActive maxOutstanding).run calls).sequences ∧
      ∀ lane streamId, .closed lane streamId ∈ log ↔ .close lane streamId ∈ calls := by
  induction calls using List.reverseRecOn with
  | nil => exact ⟨[], follows_tuned, by simp⟩
  | append_singleton calls c ih =>
    obtain ⟨log, hfollows, hclosed⟩ := ih
    rw [run_concat]
    cases c with
    | accept lane streamId streamSeq =>
      cases hanswer : (((tuned origin maxActive maxOutstanding).run calls).accept lane streamId
          streamSeq).1 with
      | ok =>
        exact ⟨_, hfollows.accept (sequences_of_ok hanswer), by simpa using hclosed⟩
      | error error =>
        refine ⟨log, ?_, by simpa using hclosed⟩
        rw [call, sequences_of_error hanswer]
        exact hfollows
    | close lane streamId =>
      refine ⟨log ++ [.closed lane streamId], ?_, by simp [hclosed]⟩
      rw [call, sequences_close]
      exact hfollows.close lane streamId

/-- A stream is answered to be closed exactly when its ordinal is retired. -/
theorem accept_streamClosed_iff (h : s.Tracks log)
    (hlegal : validateStreamId streamId s.origin lane = .ok ())
    (hclosed : ∀ id, .closed lane id ∈ log → validateStreamId id s.origin lane = .ok ())
    (streamSeq : UInt64) :
    s.accept lane streamId streamSeq = .error (.withLane .streamClosed lane) ↔
      .closed lane streamId ∈ log := by
  have hnext := h.next lane streamId
  have hretired := h.retired_iff hlegal hclosed
  rw [RemoteStreamSequences.accept]
  cases hlookup : s.next.lookup (lane, streamId) with
  | some expected =>
    rw [hlookup, Option.map_some, expectedSeq] at hnext
    split_ifs at hnext with hmem
    dsimp only
    simp only [hmem, iff_false]
    split_ifs
    · exact fun heq => by cases heq
    · exact fun heq => by cases heq
    · cases streamSeq.checkedAdd 1 <;> exact fun heq => by cases heq
  | none =>
    rw [← hretired]
    dsimp only
    by_cases hin : (s.lanes lane).Retired (streamOrdinal s.origin streamId)
    · simp only [hin, if_true]
    simp only [hin, if_false, iff_false]
    split_ifs
    all_goals exact fun heq => by cases heq

end Follows

/-- Whatever the calls on legal ids were: a stream is answered to be closed exactly when it was
closed, the open streams stay within the budget, and a refused frame changes no later answer. -/
theorem retirement_exact (origin : RemoteStreamOrigin) (maxActive maxOutstanding : Nat)
    {calls : List StreamCall} (hlegal : ∀ c ∈ calls, c.Legal origin) :
    (∀ lane streamId streamSeq, validateStreamId streamId origin lane = .ok () →
      ((((tuned origin maxActive maxOutstanding).run calls).accept lane streamId streamSeq).1 =
          .error (.withLane .streamClosed lane) ↔
        .close lane streamId ∈ calls)) ∧
    ((tuned origin maxActive maxOutstanding).run calls).next.size ≤ maxActive ∧
    (∀ lane streamId streamSeq error,
      (((tuned origin maxActive maxOutstanding).run calls).accept lane streamId streamSeq).1 =
          .error error →
        ∀ later, (((tuned origin maxActive maxOutstanding).run calls).accept lane streamId
            streamSeq).2.answers later =
          ((tuned origin maxActive maxOutstanding).run calls).answers later) := by
  obtain ⟨log, hfollows, hclosed⟩ := follows_run origin maxActive maxOutstanding calls
  refine ⟨fun lane streamId streamSeq hid => ?_, hfollows.budget, ?_⟩
  · have hpast : ∀ id, .closed lane id ∈ log → validateStreamId id origin lane = .ok () :=
      fun id hmem => hlegal _ ((hclosed lane id).1 hmem)
    rw [← hfollows.origin_eq] at hid hpast
    rw [← hclosed, ← accept_streamClosed_iff hfollows.tracks hid hpast streamSeq,
      (sequences_accept _ lane streamId streamSeq).1]
    cases (((tuned origin maxActive maxOutstanding).run calls).sequences.accept lane streamId
      streamSeq) <;> simp [Except.map]
  · intro lane streamId streamSeq error hanswer later
    exact answers_congr (sequences_of_error hanswer) later

/-- Closing the higher of two streams retires that one alone. -/
theorem retirement_exact_out_of_order :
    (∀ c ∈ [StreamCall.accept .bulk 4 0, .accept .bulk 6 0, .close .bulk 6], c.Legal .client) ∧
    ((((tuned .client 256 1024).run
        [.accept .bulk 4 0, .accept .bulk 6 0, .close .bulk 6]).accept .bulk 4 1).1 =
      .error (.withLane .streamClosed .bulk) ↔
        StreamCall.close .bulk 4 ∈ [.accept .bulk 4 0, .accept .bulk 6 0, .close .bulk 6]) := by
  have hlegal : ∀ c ∈ [StreamCall.accept .bulk 4 0, .accept .bulk 6 0, .close .bulk 6],
      c.Legal .client := by
    simp only [List.forall_mem_cons, StreamCall.Legal]
    exact ⟨rfl, rfl, rfl, nofun⟩
  exact ⟨hlegal, (retirement_exact .client 256 1024 hlegal).1 .bulk 4 1 rfl⟩

end StreamTables

end FlyCockpit.Transport
