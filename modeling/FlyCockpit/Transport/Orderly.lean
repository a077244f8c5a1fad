-- SUMMARY: Peers that open their streams in order, and the calls at which they are refused.
import FlyCockpit.Transport.Retirement

/-!
# Orderly peers

A peer is orderly if it opens the streams of a lane in the order of their ids and counts the frames
of each. Such a peer is refused in two cases: its counter is at the end of its range, or it opens a
stream while it holds one open that lies the whole window of ids behind.
-/

namespace FlyCockpit.Transport

open List

/-- Every ordinal up to that of a legal id is the ordinal of a legal id. -/
theorem exists_streamOrdinal_eq {origin : RemoteStreamOrigin} {lane : RemoteLane}
    {streamId : UInt64} (hlegal : validateStreamId streamId origin lane = .ok ()) {n : Nat}
    (hfirst : firstLegalOrdinal lane ≤ n) (hle : n ≤ streamOrdinal origin streamId) :
    ∃ other, validateStreamId other origin lane = .ok () ∧ streamOrdinal origin other = n := by
  have hsize := streamId.toNat_lt
  rw [validateStreamId_eq_ok] at hlegal
  unfold streamOrdinal at hle ⊢
  simp only [validateStreamId_eq_ok, eq_controlStreamId_iff] at hlegal hle ⊢
  by_cases hzero : n = 0
  · subst hzero
    refine ⟨0, ?_, rfl⟩
    cases lane with
    | control => rfl
    | interactive => exact absurd hfirst (by decide)
    | bulk => exact absurd hfirst (by decide)
  · cases origin with
    | client =>
      have hfits : 2 * n < 2 ^ 64 := by
        dsimp only at hle
        split_ifs at hle <;> omega
      refine ⟨UInt64.ofNat (2 * n), ?_⟩
      rw [UInt64.toNat_ofNat_of_lt' hfits, if_neg (by omega), if_neg (by omega)]
      dsimp only
      omega
    | daemon =>
      have hfits : 2 * n - 1 < 2 ^ 64 := by
        dsimp only at hle
        split_ifs at hle <;> omega
      refine ⟨UInt64.ofNat (2 * n - 1), ?_⟩
      rw [UInt64.toNat_ofNat_of_lt' hfits, if_neg (by omega), if_neg (by omega)]
      dsimp only
      omega

namespace StreamCall

/-- What an orderly peer does after the events of the past: it opens the streams of a lane in the
order of their ids, leaving none out, counts the frames of a stream, sends none on a stream it
closed, and holds at most `maxActive` streams open. -/
def Orderly (origin : RemoteStreamOrigin) (maxActive : Nat) (past : List StreamEvent) :
    StreamCall → Prop
  | accept lane streamId streamSeq =>
    validateStreamId streamId origin lane = .ok () ∧
    .closed lane streamId ∉ past ∧
    streamSeq.toNat = past.count (.frame lane streamId) ∧
    (.frame lane streamId ∉ past → (∀ other, validateStreamId other origin lane = .ok () →
        streamOrdinal origin other < streamOrdinal origin streamId → .frame lane other ∈ past) ∧
      (openStreams past).length < maxActive)
  | close lane streamId =>
    validateStreamId streamId origin lane = .ok () ∧ (lane, streamId) ∈ openStreams past

/-- Some stream held open on the lane lies the window or more behind. -/
def blocked (origin : RemoteStreamOrigin) (maxOutstanding : Nat) (past : List StreamEvent)
    (lane : RemoteLane) (streamId : UInt64) : Bool :=
  (openStreams past).any fun held =>
    held.1 = lane ∧ streamOrdinal origin held.2 + maxOutstanding ≤ streamOrdinal origin streamId

/-- Why an orderly peer is refused, if it is. -/
def refusal (origin : RemoteStreamOrigin) (maxOutstanding : Nat) (past : List StreamEvent) :
    StreamCall → Option RemoteTransportError
  | accept lane streamId streamSeq =>
    if .frame lane streamId ∈ past then
      if streamSeq.toNat + 1 < UInt64.size then none else some (.withLane .sequenceWrap lane)
    else if maxOutstanding = 0 ∨ blocked origin maxOutstanding past lane streamId then
      some (.withLane .streamLimitExceeded lane)
    else none
  | close _ _ => none

end StreamCall

namespace StreamTables

section Orderly

variable {origin : RemoteStreamOrigin} {maxActive maxOutstanding : Nat} {past : List StreamEvent}
  {s : RemoteStreamSequences} {lane : RemoteLane} {streamId streamSeq : UInt64}

/-- The window refuses a new stream of an orderly peer exactly when a stream that is still open
lies too far behind. -/
theorem window_iff (h : Follows origin maxActive maxOutstanding past s)
    (hpast : ∀ lane id, .frame lane id ∈ past ∨ .closed lane id ∈ past →
      validateStreamId id origin lane = .ok ())
    (hlegal : validateStreamId streamId origin lane = .ok ()) (hopen : .closed lane streamId ∉ past)
    (horder : ∀ other, validateStreamId other origin lane = .ok () →
      streamOrdinal origin other < streamOrdinal origin streamId → .frame lane other ∈ past) :
    maxOutstanding ≤ streamOrdinal origin streamId - (s.lanes lane).retireCursor ↔
      maxOutstanding = 0 ∨ StreamCall.blocked origin maxOutstanding past lane streamId = true := by
  obtain ⟨htracks, rfl, -, -, -⟩ := h
  have hretired : ∀ id, validateStreamId id s.origin lane = .ok () →
      ((s.lanes lane).Retired (streamOrdinal s.origin id) ↔ .closed lane id ∈ past) :=
    fun id hid => htracks.retired_iff hid fun id' hid' => hpast lane id' (.inr hid')
  -- The cursor is the least ordinal that is not retired.
  have hcursor : ¬(s.lanes lane).Retired (s.lanes lane).retireCursor := by
    intro hin
    obtain hlt | hmem := hin
    · exact lt_irrefl _ hlt
    · exact lt_irrefl _ ((s.lanes lane).ahead _ hmem)
  have hle : (s.lanes lane).retireCursor ≤ streamOrdinal s.origin streamId := by
    by_contra hlt
    exact hopen ((hretired streamId hlegal).1 (.inl (Nat.lt_of_not_le hlt)))
  constructor
  · intro hwindow
    by_cases hzero : maxOutstanding = 0
    · exact .inl hzero
    have hfirst : firstLegalOrdinal lane ≤ (s.lanes lane).retireCursor := by
      by_contra hlt
      exact hcursor ((htracks.retired lane _).2 (.inl (Nat.lt_of_not_le hlt)))
    obtain ⟨other, hother, hordinal⟩ := exists_streamOrdinal_eq hlegal hfirst hle
    have hframe : .frame lane other ∈ past := horder other hother (by omega)
    have hclosed : .closed lane other ∉ past := by
      rw [← hretired other hother, hordinal]
      exact hcursor
    refine .inr (any_eq_true.2 ⟨(lane, other), mem_openStreams.2 ⟨hframe, hclosed⟩, ?_⟩)
    rw [decide_eq_true_eq]
    refine ⟨rfl, ?_⟩
    dsimp only
    omega
  · rintro (rfl | hblocked)
    · exact Nat.zero_le _
    obtain ⟨⟨held, other⟩, hmem, hbehind⟩ := any_eq_true.1 hblocked
    rw [decide_eq_true_eq] at hbehind
    dsimp only at hbehind
    obtain ⟨rfl, hbehind⟩ := hbehind
    obtain ⟨hframe, hclosed⟩ := mem_openStreams.1 hmem
    have hnot := mt (hretired other (hpast held other (.inl hframe))).1 hclosed
    have hge : (s.lanes held).retireCursor ≤ streamOrdinal s.origin other := by
      by_contra hlt
      exact hnot (.inl (Nat.lt_of_not_le hlt))
    omega

/-- The answer to the next frame of an orderly peer. -/
theorem accept_orderly (h : Follows origin maxActive maxOutstanding past s)
    (hpast : ∀ lane id, .frame lane id ∈ past ∨ .closed lane id ∈ past →
      validateStreamId id origin lane = .ok ())
    (hcall : (StreamCall.accept lane streamId streamSeq).Orderly origin maxActive past) :
    (s.accept lane streamId streamSeq).map (fun _ => ()) =
      ((StreamCall.accept lane streamId streamSeq).refusal origin maxOutstanding past).elim
        (.ok ()) .error := by
  obtain ⟨hlegal, hopen, hseq, hnew⟩ := hcall
  have hnext := h.tracks.next lane streamId
  rw [expectedSeq, if_neg hopen] at hnext
  rw [RemoteStreamSequences.accept, StreamCall.refusal]
  by_cases hframe : .frame lane streamId ∈ past
  · rw [if_pos hframe, ← hseq, Option.map_eq_some_iff] at hnext
    obtain ⟨expected, hlookup, heq⟩ := hnext
    rw [UInt64.toNat_inj.1 heq] at hlookup
    rw [hlookup, if_pos hframe]
    dsimp only
    rw [if_neg (UInt64.lt_irrefl _), if_neg (UInt64.lt_irrefl _)]
    by_cases hwrap : streamSeq.toNat + 1 < UInt64.size
    · have hadd : streamSeq.checkedAdd 1 = some (streamSeq + 1) := if_pos hwrap
      rw [hadd, if_pos hwrap]
      rfl
    · have hadd : streamSeq.checkedAdd 1 = none := if_neg hwrap
      rw [hadd, if_neg hwrap]
      rfl
  · rw [if_neg hframe, Option.map_eq_none_iff] at hnext
    obtain ⟨horder, hroom⟩ := hnew hframe
    have hwindow := window_iff h hpast hlegal hopen horder
    have hzero : streamSeq = 0 := by
      rw [← UInt64.toNat_inj, hseq, count_eq_zero_of_not_mem hframe]
      rfl
    have hretired : ¬(s.lanes lane).Retired (streamOrdinal s.origin streamId) := by
      obtain ⟨htracks, rfl, -, -, -⟩ := h
      exact mt (htracks.retired_iff hlegal fun id hid => hpast lane id (.inr hid)).1 hopen
    have hactive : ¬s.maxActive ≤ s.next.size := by
      rw [h.maxActive_eq, h.tracks.size_next]
      exact Nat.not_le.2 hroom
    rw [hnext, if_neg hframe]
    dsimp only
    rw [if_neg hretired, h.origin_eq, h.maxOutstanding_eq, if_neg (not_not.2 hzero), if_neg hactive]
    simp only [hwindow]
    split <;> rfl

end Orderly

/-- A run of calls for an orderly peer. -/
inductive OrderlyRun (origin : RemoteStreamOrigin) (maxActive : Nat) : List StreamCall → Prop
  | nil : OrderlyRun origin maxActive []
  | concat {calls : List StreamCall} {c : StreamCall} : OrderlyRun origin maxActive calls →
      c.Orderly origin maxActive (calls.map StreamCall.event) →
      OrderlyRun origin maxActive (calls ++ [c])

section OrderlyRun

variable {origin : RemoteStreamOrigin} {maxActive : Nat} {calls : List StreamCall}

theorem OrderlyRun.legal (h : OrderlyRun origin maxActive calls) (lane : RemoteLane)
    (streamId : UInt64) (hmem : .frame lane streamId ∈ calls.map StreamCall.event ∨
      .closed lane streamId ∈ calls.map StreamCall.event) :
    validateStreamId streamId origin lane = .ok () := by
  induction h with
  | nil => simp at hmem
  | @concat calls c _ hcall ih =>
    rw [map_append, mem_append, mem_append, or_or_or_comm] at hmem
    obtain hbefore | hlast := hmem
    · exact ih hbefore
    · cases c with
      | accept lane' streamId' streamSeq =>
        simp only [StreamCall.event, map_cons, map_nil, mem_singleton,
          StreamEvent.frame.injEq, reduceCtorEq, or_false] at hlast
        obtain ⟨rfl, rfl⟩ := hlast
        exact hcall.1
      | close lane' streamId' =>
        simp only [StreamCall.event, map_cons, map_nil, mem_singleton,
          StreamEvent.closed.injEq, reduceCtorEq, false_or] at hlast
        obtain ⟨rfl, rfl⟩ := hlast
        exact hcall.1

/-- As long as nothing is refused the tables follow the peer's own log. -/
theorem OrderlyRun.follows (h : OrderlyRun origin maxActive calls) (maxOutstanding : Nat)
    (hok : ∀ answer ∈ (tuned origin maxActive maxOutstanding).answers calls, answer = .ok ()) :
    Follows origin maxActive maxOutstanding (calls.map StreamCall.event)
      ((tuned origin maxActive maxOutstanding).run calls).sequences := by
  induction h with
  | nil => exact follows_tuned
  | @concat calls c _ hcall ih =>
    rw [answers_concat] at hok
    have hfollows := ih fun answer hmem => hok answer (mem_append_left _ hmem)
    have hlast := hok _ (mem_append_right _ (mem_singleton_self _))
    rw [run_concat, map_append]
    cases c with
    | accept lane streamId streamSeq => exact hfollows.accept (sequences_of_ok hlast)
    | close lane streamId =>
      rw [call, sequences_close]
      exact hfollows.close lane streamId

/-- The answer to the next call of an orderly peer that was not refused yet. -/
theorem OrderlyRun.answer {c : StreamCall} (h : OrderlyRun origin maxActive calls)
    (hcall : c.Orderly origin maxActive (calls.map StreamCall.event)) (maxOutstanding : Nat)
    (hok : ∀ answer ∈ (tuned origin maxActive maxOutstanding).answers calls, answer = .ok ()) :
    (((tuned origin maxActive maxOutstanding).run calls).call c).1 =
      (c.refusal origin maxOutstanding (calls.map StreamCall.event)).elim (.ok ()) .error := by
  cases c with
  | accept lane streamId streamSeq =>
    rw [call, (sequences_accept _ lane streamId streamSeq).1]
    exact accept_orderly (h.follows maxOutstanding hok) h.legal hcall
  | close lane streamId => rfl

/-- An orderly peer is refused when its counter is exhausted or when it opens a stream while one
that lies the window behind is still open, and at no other call. -/
theorem orderly_answers_iff (origin : RemoteStreamOrigin) (maxActive maxOutstanding : Nat)
    {calls : List StreamCall} (h : OrderlyRun origin maxActive calls) :
    ((∀ answer ∈ (tuned origin maxActive maxOutstanding).answers calls, answer = .ok ()) ↔
      ∀ earlier c, earlier ++ [c] <+: calls →
        c.refusal origin maxOutstanding (earlier.map StreamCall.event) = none) ∧
    (∀ earlier c, earlier ++ [c] <+: calls →
      (∀ answer ∈ (tuned origin maxActive maxOutstanding).answers earlier, answer = .ok ()) →
        (((tuned origin maxActive maxOutstanding).run earlier).call c).1 =
          (c.refusal origin maxOutstanding (earlier.map StreamCall.event)).elim (.ok ()) .error) := by
  induction h with
  | nil => simp [answers]
  | @concat calls c hrun hcall ih =>
    obtain ⟨hiff, hanswers⟩ := ih
    have hlast := hrun.answer hcall maxOutstanding
    constructor
    · rw [answers_concat, List.forall_mem_append, List.forall_mem_singleton]
      constructor
      · rintro ⟨hok, hanswer⟩ earlier d hfront
        obtain heq | hfront := List.prefix_concat_iff.1 hfront
        · obtain ⟨rfl, hd⟩ := List.append_inj' heq rfl
          cases hd
          rw [hlast hok] at hanswer
          cases hrefusal : c.refusal origin maxOutstanding (earlier.map StreamCall.event) with
          | none => rfl
          | some error =>
            rw [hrefusal] at hanswer
            cases hanswer
        · exact hiff.1 hok earlier d hfront
      · intro hall
        have hok := hiff.2 fun earlier d hfront =>
          hall earlier d (hfront.trans (List.prefix_append _ _))
        refine ⟨hok, ?_⟩
        rw [hlast hok, hall calls c (List.prefix_refl _)]
        rfl
    · intro earlier d hfront hok
      obtain heq | hfront := List.prefix_concat_iff.1 hfront
      · obtain ⟨rfl, hd⟩ := List.append_inj' heq rfl
        cases hd
        exact hlast hok
      · exact hanswers earlier d hfront hok

end OrderlyRun

/-! ## A stream that stays open -/

/-- The client stream with a given ordinal. -/
def clientStream (n : Nat) : UInt64 := UInt64.ofNat (2 * n)

/-- The control stream is opened and stays open while `n` further streams come and go. -/
def heldControl : Nat → List StreamCall
  | 0 => [.accept .control (clientStream 0) 0]
  | n + 1 => heldControl n ++
      [.accept .control (clientStream (n + 1)) 0, .close .control (clientStream (n + 1))]

theorem streamOrdinal_client (streamId : UInt64) :
    streamOrdinal .client streamId = streamId.toNat / 2 := by
  simp only [streamOrdinal, eq_controlStreamId_iff]
  split <;> omega

variable {streamId : UInt64} {n : Nat}

theorem validateStreamId_client_control :
    validateStreamId streamId .client .control = .ok () ↔ streamId.toNat % 2 = 0 := by
  simp only [validateStreamId_eq_ok, eq_controlStreamId_iff, if_true_left]
  omega

theorem toNat_clientStream (h : n ≤ 1024) : (clientStream n).toNat = 2 * n :=
  UInt64.toNat_ofNat_of_lt' (show 2 * n < 2 ^ 64 by omega)

theorem clientStream_inj {m : Nat} (hm : m ≤ 1024) (hn : n ≤ 1024)
    (h : clientStream m = clientStream n) : m = n := by
  have heq := congrArg UInt64.toNat h
  rw [toNat_clientStream hm, toNat_clientStream hn] at heq
  omega

theorem frame_mem_heldControl {lane : RemoteLane} :
    .frame lane streamId ∈ (heldControl n).map StreamCall.event ↔
      lane = .control ∧ ∃ k ≤ n, streamId = clientStream k := by
  induction n with
  | zero => simp [heldControl, StreamCall.event]
  | succ n ih =>
    rw [heldControl, map_append, mem_append, ih]
    simp only [Nat.le_succ_iff, or_and_right, exists_or, exists_eq_left]
    simp [and_or_left, StreamCall.event]

theorem closed_mem_heldControl {lane : RemoteLane} :
    .closed lane streamId ∈ (heldControl n).map StreamCall.event ↔
      lane = .control ∧ ∃ k ≤ n, k ≠ 0 ∧ streamId = clientStream k := by
  induction n with
  | zero => simp [heldControl, StreamCall.event]
  | succ n ih =>
    rw [heldControl, map_append, mem_append, ih]
    simp only [Nat.le_succ_iff, or_and_right, exists_or, exists_eq_left]
    simp [and_or_left, StreamCall.event]

/-- A new stream has had no frame and is not closed. -/
theorem notMem_heldControl (h : n < 1024) :
    .frame .control (clientStream (n + 1)) ∉ (heldControl n).map StreamCall.event ∧
      .closed .control (clientStream (n + 1)) ∉ (heldControl n).map StreamCall.event := by
  rw [frame_mem_heldControl, closed_mem_heldControl]
  constructor
  · rintro ⟨-, k, hk, heq⟩
    have := clientStream_inj (by omega) (by omega) heq
    omega
  · rintro ⟨-, k, hk, -, heq⟩
    have := clientStream_inj (by omega) (by omega) heq
    omega

/-- The control stream is the one that is open. -/
theorem mem_openStreams_heldControl (h : n ≤ 1024) {stream : RemoteLane × UInt64} :
    stream ∈ openStreams ((heldControl n).map StreamCall.event) ↔
      stream = (.control, clientStream 0) := by
  obtain ⟨lane, streamId⟩ := stream
  rw [mem_openStreams, frame_mem_heldControl, closed_mem_heldControl, Prod.mk.injEq]
  constructor
  · rintro ⟨⟨rfl, k, hk, rfl⟩, hopen⟩
    refine ⟨rfl, ?_⟩
    by_cases hzero : k = 0
    · rw [hzero]
    · exact absurd ⟨rfl, k, hk, hzero, rfl⟩ hopen
  · rintro ⟨rfl, rfl⟩
    refine ⟨⟨rfl, 0, Nat.zero_le _, rfl⟩, ?_⟩
    rintro ⟨-, k, hk, hzero, heq⟩
    exact hzero (clientStream_inj (by omega) (by omega) heq).symm

theorem length_openStreams_heldControl (h : n ≤ 1024) :
    (openStreams ((heldControl n).map StreamCall.event)).length ≤ 1 := by
  have hsubset : openStreams ((heldControl n).map StreamCall.event) ⊆ [(.control, clientStream 0)] :=
    fun stream hmem => mem_singleton.2 ((mem_openStreams_heldControl h).1 hmem)
  exact (subperm_of_subset (nodup_dedup _) hsubset).length_le

/-- Opening the next stream is orderly. -/
theorem orderly_heldControl (h : n < 1024) :
    (StreamCall.accept .control (clientStream (n + 1)) 0).Orderly .client 256
      ((heldControl n).map StreamCall.event) := by
  obtain ⟨hframe, hclosed⟩ := notMem_heldControl h
  have hval := toNat_clientStream (n := n + 1) h
  refine ⟨validateStreamId_client_control.2 (by omega), hclosed, ?_, fun _ => ⟨?_, ?_⟩⟩
  · rw [count_eq_zero_of_not_mem hframe]
    rfl
  · intro other hlegal hlt
    rw [validateStreamId_client_control] at hlegal
    rw [streamOrdinal_client, streamOrdinal_client, hval] at hlt
    refine frame_mem_heldControl.2 ⟨rfl, other.toNat / 2, by omega, ?_⟩
    rw [clientStream, Nat.mul_div_cancel' (Nat.dvd_of_mod_eq_zero hlegal), UInt64.ofNat_toNat]
  · have := length_openStreams_heldControl (n := n) (by omega)
    omega

theorem orderlyRun_heldControl (h : n ≤ 1023) : OrderlyRun .client 256 (heldControl n) := by
  induction n with
  | zero =>
    refine @OrderlyRun.concat _ _ [] _ .nil ⟨rfl, nofun, rfl, fun _ => ⟨?_, by decide⟩⟩
    intro other _ hlt
    rw [streamOrdinal_client (clientStream 0)] at hlt
    exact absurd hlt (Nat.not_lt_zero _)
  | succ n ih =>
    have hopen := (ih (by omega)).concat (orderly_heldControl (n := n) (by omega))
    have hrun := hopen.concat (c := .close .control (clientStream (n + 1))) ⟨?_, ?_⟩
    · rw [append_assoc] at hrun
      exact hrun
    · have hval := toNat_clientStream (n := n + 1) (by omega)
      exact validateStreamId_client_control.2 (by omega)
    · have hclosed := (notMem_heldControl (n := n) (by omega)).2
      rw [mem_openStreams, map_append]
      simp [StreamCall.event, hclosed]

/-- The next stream is refused when it lies the window ahead of the control stream. -/
theorem refusal_heldControl (h : n < 1024) :
    (StreamCall.accept .control (clientStream (n + 1)) 0).refusal .client 1024
        ((heldControl n).map StreamCall.event) =
      if 1024 ≤ n + 1 then some (.withLane .streamLimitExceeded .control) else none := by
  have hval := toNat_clientStream (n := n + 1) h
  have hblocked : StreamCall.blocked .client 1024 ((heldControl n).map StreamCall.event) .control
      (clientStream (n + 1)) = decide (1024 ≤ n + 1) := by
    have hordinal : streamOrdinal .client (clientStream (n + 1)) = n + 1 := by
      rw [streamOrdinal_client, hval]
      omega
    have hzero : streamOrdinal .client (clientStream 0) = 0 := rfl
    rw [StreamCall.blocked, Bool.eq_iff_iff, any_eq_true, decide_eq_true_eq]
    simp only [mem_openStreams_heldControl (n := n) (by omega), exists_eq_left, true_and,
      decide_eq_true_eq, hordinal, hzero, Nat.zero_add]
  rw [StreamCall.refusal, if_neg (notMem_heldControl h).1, hblocked]
  simp

/-- Nothing is refused while the streams are within the window. -/
theorem answers_heldControl (h : n ≤ 1023) :
    ∀ answer ∈ (tuned .client 256 1024).answers (heldControl n), answer = .ok () := by
  induction n with
  | zero => exact forall_mem_singleton.2 rfl
  | succ n ih =>
    have hbefore := ih (by omega)
    have hanswer := (orderlyRun_heldControl (n := n) (by omega)).answer
      (orderly_heldControl (n := n) (by omega)) 1024 hbefore
    rw [refusal_heldControl (n := n) (by omega), if_neg (by omega)] at hanswer
    have hsplit : heldControl (n + 1) =
        (heldControl n ++ [.accept .control (clientStream (n + 1)) 0]) ++
          [.close .control (clientStream (n + 1))] := by
      rw [heldControl, append_assoc]
      rfl
    rw [hsplit, answers_concat, answers_concat, forall_mem_append, forall_mem_append]
    exact ⟨⟨hbefore, forall_mem_singleton.2 hanswer⟩, forall_mem_singleton.2 rfl⟩

/-- The longest such run in which nothing is refused. -/
theorem orderly_answers_iff_heldControl : OrderlyRun .client 256 (heldControl 1023) ∧
    ((∀ answer ∈ (tuned .client 256 1024).answers (heldControl 1023), answer = .ok ()) ↔
      ∀ earlier c, earlier ++ [c] <+: heldControl 1023 →
        c.refusal .client 1024 (earlier.map StreamCall.event) = none) :=
  ⟨orderlyRun_heldControl le_rfl,
    (orderly_answers_iff .client 256 1024 (orderlyRun_heldControl le_rfl)).1⟩

/-- A client that keeps the control stream open and uses 1023 further streams one after the other
is refused the next one. -/
theorem held_control_refuses_next :
    OrderlyRun .client 256 (heldControl 1023 ++ [.accept .control (clientStream 1024) 0]) ∧
    .error (.withLane .streamLimitExceeded .control) ∈
      (new .client).answers (heldControl 1023 ++ [.accept .control (clientStream 1024) 0]) := by
  have hrun := orderlyRun_heldControl (n := 1023) le_rfl
  have hnext := orderly_heldControl (n := 1023) (by omega)
  have hanswer := hrun.answer hnext 1024 (answers_heldControl le_rfl)
  rw [refusal_heldControl (n := 1023) (by omega), if_pos le_rfl] at hanswer
  refine ⟨hrun.concat hnext, ?_⟩
  change _ ∈ (tuned .client 256 1024).answers _
  rw [answers_concat]
  exact List.mem_append_right _ (List.mem_singleton.2 hanswer.symm)

end StreamTables

end FlyCockpit.Transport
