-- SUMMARY: A carrier that answers every loan at once loses, repeats and reorders nothing.
import FlyCockpit.Transport.Leases

/-!
# Attended loans

The carrier answers every loan, by keeping the fragment or handing it back, before the scheduler is
asked for the next one. Then at most one fragment is on loan, and what was kept of a stream, what is on loan and what is queued
together are the fragments of the stream's frames, in order. This line only ever moves to the left.
-/

namespace FlyCockpit.Transport

open RemoteLaneScheduler List RemoteTransportFrameV1

namespace RemoteSendRequest

/-- The fragment as it is queued. -/
def queued (r : RemoteSendRequest) : QueuedFragment := ⟨r.fragment, r.accountedBytes⟩

def onStream (lane : RemoteLane) (streamId : UInt64) (r : RemoteSendRequest) : Bool :=
  (r.lane, r.streamId) = (lane, streamId)

end RemoteSendRequest

namespace Lending

variable {sha256 : Bytes → Block 32}

/-- The call asks for a fragment only when none is on loan, and closes no stream. -/
def Attended (s : Lending) : LendingCall → Prop
  | .nextFragment => s.lent = []
  | .closeStream _ _ => False
  | .enqueue _ | .keep _ | .requeue _ | .setLaneWritable _ _ => True

/-- The fragments of a stream among some requests. -/
def fragmentsOn (lane : RemoteLane) (streamId : UInt64) (requests : List RemoteSendRequest) :
    List QueuedFragment :=
  (requests.filter (·.onStream lane streamId)).map RemoteSendRequest.queued

variable (sha256) in
/-- At most one fragment is on loan, and every stream is in line. -/
structure InLine (s : Lending) : Prop where
  single : s.lent.length ≤ 1
  line : ∀ lane streamId,
    fragmentsOn lane streamId s.kept ++ fragmentsOn lane streamId (s.lent.map Lease.request) ++
        s.queue lane streamId =
      (streamPieces lane streamId s.accepted).map (Piece.queued sha256)

theorem fragmentsOn_append (lane : RemoteLane) (streamId : UInt64)
    (requests more : List RemoteSendRequest) :
    fragmentsOn lane streamId (requests ++ more) =
      fragmentsOn lane streamId requests ++ fragmentsOn lane streamId more := by
  simp [fragmentsOn]

theorem fragmentsOn_singleton (lane : RemoteLane) (streamId : UInt64) (r : RemoteSendRequest) :
    fragmentsOn lane streamId [r] =
      if (lane, streamId) = (r.lane, r.streamId) then [r.queued] else [] := by
  by_cases h : (r.lane, r.streamId) = (lane, streamId)
  · have hon : r.onStream lane streamId = true := decide_eq_true h
    rw [if_pos h.symm]
    simp [fragmentsOn, hon]
  · have hoff : r.onStream lane streamId = false := decide_eq_false h
    rw [if_neg (Ne.symm h)]
    simp [fragmentsOn, hoff]

theorem inLine_new (limits : RemoteQueueLimits) : InLine sha256 (new limits) where
  single := Nat.zero_le 1
  line _ _ := rfl

section InLine

variable {s t : Lending} (hs : Sound sha256 s) (h : InLine sha256 s)
include h

theorem InLine.enqueue (frame : RemoteTransportFrameV1) :
    InLine sha256 (s.enqueue sha256 frame) := by
  obtain ⟨scheduler, hok, heq⟩ | heq := s.enqueue_cases sha256 frame
  · rw [heq]
    have htouches := touches_enqueue hok (s.accepted ++ [frame])
      (s.origins frame.lane frame.streamId ++ List.replicate frame.pieceCount s.accepted.length)
    refine ⟨h.single, fun lane streamId => ?_⟩
    have hline := h.line lane streamId
    dsimp only
    rw [streamPieces_concat, map_append, ← hline, append_assoc, append_assoc, append_assoc]
    congr 2
    by_cases hsame : (lane, streamId) = (frame.lane, frame.streamId)
    · obtain ⟨rfl, rfl⟩ := Prod.mk.inj hsame
      obtain ⟨-, -, rfl⟩ := enqueue_eq_enqueued hok
      rw [if_pos (by simp [onStream]), queue, RemoteLaneScheduler.lanes_setLane_self,
        LaneQueue.stream_push, if_pos rfl]
      rfl
    · have hoff : ¬(onStream lane streamId frame = true) := by
        rw [onStream_eq_true]
        rintro ⟨rfl, rfl⟩
        exact hsame rfl
      rw [htouches.queue hsame, if_neg hoff, map_nil, append_nil]
  · rw [heq]
    exact h

include hs in
theorem InLine.nextFragment (hidle : s.lent = []) : InLine sha256 s.nextFragment := by
  obtain ⟨scheduler, heq, hlanes, -⟩ | ⟨request, after, scheduler, -, hlanes, hlimits, hserves, heq⟩ :=
    nextFragment_cases fun lane => (hs.consistent lane).toOrdered
  · rw [heq]
    refine ⟨h.single, fun lane streamId => ?_⟩
    unfold queue
    dsimp only
    rw [hlanes]
    exact h.line lane streamId
  · rw [heq, hidle]
    have htouches := touches_serves hlanes hlimits hserves
      [⟨request, (s.origins request.lane request.streamId).headD 0⟩]
      (s.origins request.lane request.streamId).tail
    refine ⟨le_rfl, fun lane streamId => ?_⟩
    have hline := h.line lane streamId
    rw [hidle] at hline
    dsimp only
    rw [← hline, append_assoc, append_assoc]
    congr 1
    rw [map_singleton, fragmentsOn_singleton]
    by_cases hsame : (lane, streamId) = (request.lane, request.streamId)
    · obtain ⟨rfl, rfl⟩ := Prod.mk.inj hsame
      have hqueue : s.queue request.lane request.streamId =
          request.queued :: (after.stream request.streamId).fragments := hserves.stream.1
      rw [if_pos rfl, hqueue, queue]
      dsimp only
      rw [hlanes, Function.update_self]
      rfl
    · rw [if_neg hsame, htouches.queue hsame]
      rfl

/-- The one fragment on loan. -/
theorem InLine.lent_eq {lease : Lease} (hmem : lease ∈ s.lent) : s.lent = [lease] := by
  obtain ⟨other, hother⟩ := length_eq_one_iff.1 (Nat.le_antisymm h.single (length_pos_of_mem hmem))
  rw [hother, mem_singleton] at hmem
  rw [hother, hmem]

theorem InLine.keep {lease : Lease} (hmem : lease ∈ s.lent) : InLine sha256 (s.keep lease) := by
  have hlent := h.lent_eq hmem
  refine ⟨?_, fun lane streamId => ?_⟩
  · rw [Lending.keep, hlent]
    simp
  · have hline := h.line lane streamId
    rw [hlent, map_singleton] at hline
    rw [Lending.keep, hlent]
    change fragmentsOn lane streamId (s.kept ++ [lease.request]) ++
      fragmentsOn lane streamId (([lease].erase lease).map Lease.request) ++
        s.queue lane streamId = _
    rw [fragmentsOn_append, erase_cons_head]
    simpa [fragmentsOn] using hline

theorem InLine.requeue {lease : Lease} (hmem : lease ∈ s.lent) :
    InLine sha256 (s.requeue lease) := by
  have hlent := h.lent_eq hmem
  have htouches := s.touches_requeue lease
  have hloans : (s.requeue lease).lent = [] := by
    rw [Lending.requeue, hlent]
    simp
  refine ⟨by simp [hloans], fun lane streamId => ?_⟩
  have hline := h.line lane streamId
  rw [hlent, map_singleton, fragmentsOn_singleton] at hline
  rw [hloans, map_nil]
  change fragmentsOn lane streamId s.kept ++ [] ++ _ = _
  rw [append_nil]
  by_cases hsame : (lane, streamId) = (lease.request.lane, lease.request.streamId)
  · obtain ⟨rfl, rfl⟩ := Prod.mk.inj hsame
    have hqueue : (s.requeue lease).queue lease.request.lane lease.request.streamId =
        lease.request.queued :: s.queue lease.request.lane lease.request.streamId := by
      rw [queue, Lending.requeue, RemoteLaneScheduler.requeue,
        RemoteLaneScheduler.lanes_setLane_self, LaneQueue.stream_restored, if_pos rfl]
      rfl
    rw [if_pos rfl, append_assoc] at hline
    rw [hqueue]
    exact hline
  · rw [if_neg hsame, append_nil] at hline
    rw [htouches.queue hsame]
    exact hline

theorem InLine.setLaneWritable (lane : RemoteLane) (writable : Bool) :
    InLine sha256 (s.setLaneWritable lane writable) := by
  refine ⟨h.single, fun other streamId => ?_⟩
  have hqueue : (s.setLaneWritable lane writable).queue other streamId = s.queue other streamId := by
    unfold queue Lending.setLaneWritable RemoteLaneScheduler.setLaneWritable
    dsimp only
    by_cases hother : other = lane
    · subst hother
      rw [RemoteLaneScheduler.lanes_setLane_self]
      rfl
    · rw [lanes_setLane_of_ne _ hother]
  rw [hqueue]
  exact h.line other streamId

include hs in
theorem InLine.call {c : LendingCall} (hattended : s.Attended c)
    (hcall : s.call sha256 c = some t) : InLine sha256 t :=
  of_call (P := fun c t => s.Attended c → InLine sha256 t) hcall (fun frame _ => h.enqueue frame)
    (h.nextFragment hs) (fun _ hmem _ => h.keep hmem) (fun _ hmem _ => h.requeue hmem)
    (fun _ _ => False.elim) (fun lane writable _ => h.setLaneWritable lane writable) hattended

end InLine

theorem reachable_inLine {limits : RemoteQueueLimits} {s : Lending}
    (h : (system sha256 limits).ReachableBy Attended s) : Sound sha256 s ∧ InLine sha256 s := by
  refine h.invariant (I := fun s => Sound sha256 s ∧ InLine sha256 s) (fun s h0 => ?_)
    fun s c t hs hattended hstep => ?_
  · subst h0
    exact ⟨sound_new limits, inLine_new limits⟩
  · exact ⟨hs.1.call hstep, hs.2.call hs.1 hattended hstep⟩

/-- If every loan is answered at once, what was kept of a stream is always a prefix of the fragments
of its frames, and all of them when nothing is offered any more with every lane writable. -/
theorem attended_kept_inOrder (limits : RemoteQueueLimits) {s : Lending}
    (h : (system sha256 limits).ReachableBy Attended s) (lane : RemoteLane) (streamId : UInt64) :
    (s.kept.filter (·.onStream lane streamId)).map (·.fragment) <+:
        (streamPieces lane streamId s.accepted).map (Piece.fragment sha256) ∧
      (s.lent = [] → (∀ lane, (s.scheduler.lanes lane).writable = true) →
        s.scheduler.nextFragment.1 = none →
        (s.kept.filter (·.onStream lane streamId)).map (·.fragment) =
          (streamPieces lane streamId s.accepted).map (Piece.fragment sha256)) := by
  obtain ⟨hsound, hinline⟩ := reachable_inLine h
  have hline := congrArg (List.map QueuedFragment.fragment) (hinline.line lane streamId)
  have hkept : (fragmentsOn lane streamId s.kept).map QueuedFragment.fragment =
      (s.kept.filter (·.onStream lane streamId)).map (·.fragment) := by
    rw [fragmentsOn, List.map_map]
    rfl
  have hpieces : ((streamPieces lane streamId s.accepted).map (Piece.queued sha256)).map
      QueuedFragment.fragment = (streamPieces lane streamId s.accepted).map (Piece.fragment sha256) := by
    rw [List.map_map]
    rfl
  rw [hpieces, List.map_append, List.map_append, hkept, List.append_assoc] at hline
  refine ⟨⟨_, hline⟩, fun hidle hwritable hnone => ?_⟩
  have hqueue : s.queue lane streamId = [] := by
    have hordered := fun lane => (hsound.consistent lane).toOrdered
    by_contra hne
    have hmem := ((hordered lane).ready streamId).2 hne
    obtain hblocked | hempty := (RemoteLaneScheduler.nextFragment_eq_none_iff hordered).1 hnone lane
    · rw [hwritable lane] at hblocked
      cases hblocked
    · rw [hempty] at hmem
      cases hmem
  rw [hidle, hqueue] at hline
  simpa [fragmentsOn] using hline

theorem attended_kept_inOrder_loan :
    loan.kept.length = 2 ∧ (loan.kept.filter (·.onStream .bulk 6)).map (·.fragment) <+:
      (streamPieces .bulk 6 loan.accepted).map (Piece.fragment blankHash) := by
  have hattended : (system blankHash .standard).ReachableBy Attended loan :=
    reachableBy_loan (fun _ _ => trivial) (fun _ _ => ⟨trivial, trivial⟩) fun _ hidle => hidle
  exact ⟨by decide +kernel, (attended_kept_inOrder .standard hattended .bulk 6).1⟩

end Lending

end FlyCockpit.Transport
