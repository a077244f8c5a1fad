-- SUMMARY: Bounded service: how long a lane and a stream wait for their next fragment.
import FlyCockpit.Transport.Leases

/-!
# Bounded service

A run queues frames, changes which lanes are writable and asks for fragments; nothing is handed back and
no stream is closed. A lane that stays ready is served at each of its slots, so what another lane gets
brings its next slot nearer. Within a lane, every fragment brings a waiting stream one place forward, and
what is queued meanwhile joins the line behind it.
-/

namespace FlyCockpit.Transport

open List

/-- A call of a run that hands nothing back and closes nothing. -/
inductive ServiceCall
  | enqueue (frame : RemoteTransportFrameV1)
  | setLaneWritable (lane : RemoteLane) (writable : Bool)
  | nextFragment

namespace RemoteLaneScheduler

variable (sha256 : Bytes → Block 32)

/-- What a call returns to the carrier, and the state behind it. -/
def serve (s : RemoteLaneScheduler) : ServiceCall → Option RemoteSendRequest × RemoteLaneScheduler
  | .enqueue frame => (none, (s.enqueue sha256 frame).2)
  | .setLaneWritable lane writable => (none, s.setLaneWritable lane writable)
  | .nextFragment => s.nextFragment

def after (s : RemoteLaneScheduler) (calls : List ServiceCall) : RemoteLaneScheduler :=
  calls.foldl (fun s c => (s.serve sha256 c).2) s

/-- The fragments a run returns, in order. -/
def returned (s : RemoteLaneScheduler) : List ServiceCall → List RemoteSendRequest
  | [] => []
  | c :: calls => (s.serve sha256 c).1.toList ++ (s.serve sha256 c).2.returned calls

/-- The fragments of one lane among them. -/
def returnedOn (s : RemoteLaneScheduler) (lane : RemoteLane) (calls : List ServiceCall) :
    List RemoteSendRequest :=
  (s.returned sha256 calls).filter (·.lane = lane)

/-- The lane is writable and has something queued before every call of the run. -/
def StaysReady (lane : RemoteLane) (s : RemoteLaneScheduler) : List ServiceCall → Prop
  | [] => True
  | c :: calls => ¬(s.lanes lane).Idle ∧ (s.serve sha256 c).2.StaysReady lane calls

/-- Among how many fragments one is from the lane. -/
def serviceBound : RemoteLane → Nat
  | .control | .interactive => 3
  | .bulk => 4

/-- The slots in front of the next one of the lane. -/
def slotsUntil (lane : RemoteLane) (slot : Fin 8) : Nat :=
  (List.iterate nextSlot slot 8).findIdx fun slot => laneSchedule slot = lane

variable {sha256} {s t : RemoteLaneScheduler} {lane : RemoteLane} {q : LaneQueue} {id : UInt64}
  {i : Nat} {x : QueuedFragment}

/-! ## Lanes -/

theorem slotsUntil_lt (lane : RemoteLane) (slot : Fin 8) : slotsUntil lane slot < serviceBound lane := by
  revert lane slot
  decide

theorem slotsUntil_nextSlot {slot : Fin 8} (h : laneSchedule slot ≠ lane) :
    slotsUntil lane slot = slotsUntil lane (nextSlot slot) + 1 := by
  revert lane slot
  decide

/-- A ready lane is served, or its next slot is nearer. -/
theorem visitSlots_of_ready (h : ∀ lane, (s.lanes lane).Ordered) (hready : ¬(s.lanes lane).Idle) {slots : Nat}
    (hslots : slotsUntil lane s.cursor < slots) :
    ∃ request t, visitSlots slots s = (some request, t) ∧
      (request.lane = lane ∨ slotsUntil lane t.cursor < slotsUntil lane s.cursor) := by
  induction slots generalizing s with
  | zero => exact absurd hslots (Nat.not_lt_zero _)
  | succ slots ih =>
    have hmoved : ∀ lane, (({ s with cursor := nextSlot s.cursor } : RemoteLaneScheduler).lanes lane).Ordered := h
    obtain ⟨hpop, hidle⟩ | ⟨request, after, hpop, hlane, -⟩ :=
      popFromLane_cases (hmoved (laneSchedule s.cursor))
    · have hother : laneSchedule s.cursor ≠ lane := by
        rintro rfl
        exact hready hidle
      have hnearer := slotsUntil_nextSlot hother
      obtain ⟨request, t, hvisit, hserved⟩ := ih hmoved hready (by dsimp only; omega)
      refine ⟨request, t, ?_, hserved.imp_right fun hlt => ?_⟩
      · rw [visitSlots, hpop]
        exact hvisit
      · exact hlt.trans (hnearer ▸ Nat.lt_succ_self _)
    · refine ⟨request, _, by rw [visitSlots, hpop], ?_⟩
      by_cases hserved : laneSchedule s.cursor = lane
      · exact .inl (hlane.trans hserved)
      · exact .inr (slotsUntil_nextSlot hserved ▸ Nat.lt_succ_self _)

theorem nextFragment_of_ready (h : ∀ lane, (s.lanes lane).Ordered) (hready : ¬(s.lanes lane).Idle) :
    ∃ request t, s.nextFragment = (some request, t) ∧
      (request.lane = lane ∨ slotsUntil lane t.cursor < slotsUntil lane s.cursor) := by
  refine visitSlots_of_ready h hready ?_
  have hlt := slotsUntil_lt lane s.cursor
  have hbound : serviceBound lane ≤ 8 := by cases lane <;> decide
  omega

/-! ## Streams -/

/-- The lane grows at most at the back of its line and of its streams. -/
structure Grows (q q' : LaneQueue) : Prop where
  ordered : q.Ordered → q'.Ordered
  place : ∀ (i : Nat) id x, q.order[i]? = some id → (q.stream id).fragments.head? = some x →
    q'.order[i]? = some id ∧ (q'.stream id).fragments.head? = some x

theorem Grows.refl (q : LaneQueue) : Grows q q := ⟨fun h => h, fun _ _ _ hplace hhead => ⟨hplace, hhead⟩⟩

theorem grows_push {streamId : UInt64} {fragments : List QueuedFragment} (hne : fragments ≠ [])
    (size : Nat) : Grows q (q.push streamId fragments size) where
  ordered h := h.push streamId hne size
  place i id x hplace hhead := by
    constructor
    · unfold LaneQueue.push
      dsimp only
      split
      · rwa [List.getElem?_append_left (List.getElem?_eq_some_iff.1 hplace).1]
      · exact hplace
    · rw [LaneQueue.stream_push]
      split
      next heq =>
        subst heq
        rw [List.head?_append, hhead]
        rfl
      next => exact hhead

theorem grows_setLane (h : Grows (s.lanes lane) q) (other : RemoteLane) :
    Grows (s.lanes other) ((s.setLane lane q).lanes other) := by
  by_cases hother : other = lane
  · subst hother
    rwa [lanes_setLane_self]
  · rw [lanes_setLane_of_ne _ hother]
    exact .refl _

theorem grows_enqueue (frame : RemoteTransportFrameV1) (lane : RemoteLane) :
    Grows (s.lanes lane) ((s.enqueue sha256 frame).2.lanes lane) := by
  obtain ⟨t, hok⟩ | ⟨error, hrefused⟩ := s.enqueue_cases sha256 frame
  · obtain ⟨-, -, rfl⟩ := enqueue_eq_enqueued hok
    rw [hok]
    refine grows_setLane (grows_push ?_ _) lane
    rw [ne_eq, map_eq_nil_iff]
    exact frame.pieces_ne_nil
  · rw [hrefused]
    exact .refl _

/-- A call returns nothing and lets every lane grow, or serves one lane. -/
theorem serve_cases (h : ∀ lane, (s.lanes lane).Ordered) (c : ServiceCall) :
    ((s.serve sha256 c).1 = none ∧ ∀ lane, Grows (s.lanes lane) ((s.serve sha256 c).2.lanes lane)) ∨
      ∃ request after, (s.serve sha256 c).1 = some request ∧
        (s.serve sha256 c).2.lanes = Function.update s.lanes request.lane after ∧
        (s.lanes request.lane).Serves request after := by
  cases c with
  | enqueue frame => exact .inl ⟨rfl, grows_enqueue frame⟩
  | setLaneWritable other writable =>
    refine .inl ⟨rfl, grows_setLane ⟨fun hq => ⟨hq.nodup, hq.ready⟩, fun _ _ _ hplace hhead => ?_⟩⟩
    exact ⟨hplace, hhead⟩
  | nextFragment =>
    unfold serve
    obtain ⟨t, hnext, hlanes, -⟩ | ⟨request, after, t, hnext, hlanes, -, hserves⟩ := nextFragment_cases h
    · rw [hnext, hlanes]
      exact .inl ⟨rfl, fun _ => .refl _⟩
    · rw [hnext]
      exact .inr ⟨request, after, rfl, hlanes, hserves⟩

/-- The stream whose turn it is sends its head; a stream behind it moves one place forward. -/
theorem place_of_serves {after : LaneQueue} {request : RemoteSendRequest} (h : q.Serves request after)
    (hq : q.Ordered) (hplace : q.order[i]? = some id)
    (hhead : (q.stream id).fragments.head? = some x) :
    (request.streamId = id ∧ ⟨request.fragment, request.accountedBytes⟩ = x) ∨
      ∃ j, i = j + 1 ∧ after.order[j]? = some id ∧ (after.stream id).fragments.head? = some x := by
  obtain ⟨order, fragments, horder, hstream, rfl⟩ := h.turn
  have hnodup := hq.nodup
  rw [horder] at hplace hnodup
  cases i with
  | zero =>
    obtain rfl : request.streamId = id := Option.some.inj hplace
    rw [hstream] at hhead
    exact .inl ⟨rfl, Option.some.inj hhead⟩
  | succ j =>
    rw [List.getElem?_cons_succ] at hplace
    have hne : id ≠ request.streamId := by
      rintro rfl
      exact (nodup_cons.1 hnodup).1 (mem_of_getElem? hplace)
    refine .inr ⟨j, rfl, ?_, ?_⟩
    · rw [LaneQueue.settle_order, LaneQueue.order_served,
        List.getElem?_append_left (List.getElem?_eq_some_iff.1 hplace).1]
      exact hplace
    · rw [LaneQueue.settle_stream, LaneQueue.stream_served, if_neg hne]
      exact hhead

/-! ## Runs -/

theorem ordered_serve (h : ∀ lane, (s.lanes lane).Ordered) (c : ServiceCall) (lane : RemoteLane) :
    ((s.serve sha256 c).2.lanes lane).Ordered := by
  obtain ⟨-, hgrows⟩ | ⟨request, after, -, hlanes, hserves⟩ := serve_cases h c
  · exact (hgrows lane).ordered (h lane)
  · rw [hlanes]
    by_cases hlane : lane = request.lane
    · subst hlane
      obtain ⟨order, fragments, horder, -, rfl⟩ := hserves.turn
      rw [Function.update_self]
      exact ((h request.lane).served horder fragments _).settle _
    · rw [Function.update_of_ne hlane]
      exact h lane

theorem ordered_after (limits : RemoteQueueLimits) (calls : List ServiceCall) (lane : RemoteLane) :
    (((new limits).after sha256 calls).lanes lane).Ordered := by
  have hrun : ∀ s : RemoteLaneScheduler, (∀ lane, (s.lanes lane).Ordered) →
      ∀ lane, ((s.after sha256 calls).lanes lane).Ordered := by
    induction calls with
    | nil => exact fun s h => h
    | cons c calls ih => exact fun s h => ih _ (ordered_serve h c)
  exact hrun (new limits) (fun _ => LaneQueue.ordered_fresh) lane

theorem cursor_enqueue (frame : RemoteTransportFrameV1) : (s.enqueue sha256 frame).2.cursor = s.cursor := by
  obtain ⟨t, hok⟩ | ⟨error, hrefused⟩ := s.enqueue_cases sha256 frame
  · obtain ⟨-, -, rfl⟩ := enqueue_eq_enqueued hok
    rw [hok]
    rfl
  · rw [hrefused]

/-- A lane that stays ready is served before its next slot is passed. -/
theorem exists_returned (calls : List ServiceCall) (h : ∀ lane, (s.lanes lane).Ordered)
    (hready : s.StaysReady sha256 lane calls)
    (hlength : slotsUntil lane s.cursor < (s.returned sha256 calls).length) :
    ∃ r ∈ (s.returned sha256 calls).take (slotsUntil lane s.cursor + 1), r.lane = lane := by
  induction calls generalizing s with
  | nil => exact absurd hlength (Nat.not_lt_zero _)
  | cons c calls ih =>
    have hrest := ih (ordered_serve h c) hready.2
    cases c with
    | enqueue frame =>
      have hcursor : (s.serve sha256 (.enqueue frame)).2.cursor = s.cursor := cursor_enqueue frame
      rw [hcursor] at hrest
      exact hrest hlength
    | setLaneWritable other writable => exact hrest hlength
    | nextFragment =>
      obtain ⟨request, t, hnext, hserved⟩ := nextFragment_of_ready h hready.1
      have hreturned : s.returned sha256 (.nextFragment :: calls) = request :: t.returned sha256 calls := by
        rw [returned, serve, hnext]
        rfl
      have hstate : (s.serve sha256 .nextFragment).2 = t := congrArg Prod.snd hnext
      rw [hstate] at hrest
      rw [hreturned] at hlength ⊢
      rcases hserved with hlane | hnearer
      · exact ⟨request, mem_cons_self, hlane⟩
      · obtain ⟨r, hr, hlane⟩ := hrest (by rw [length_cons] at hlength; omega)
        exact ⟨r, mem_cons_of_mem _ (take_subset_take_left _ hnearer hr), hlane⟩

/-- A stream in line sends its head as soon as its lane has sent as many fragments as stand in front. -/
theorem exists_returnedOn (calls : List ServiceCall) (h : ∀ lane, (s.lanes lane).Ordered)
    (hplace : (s.lanes lane).order[i]? = some id)
    (hhead : ((s.lanes lane).stream id).fragments.head? = some x)
    (hlength : i < (s.returnedOn sha256 lane calls).length) :
    ∃ r ∈ (s.returnedOn sha256 lane calls).take (i + 1),
      r.streamId = id ∧ ⟨r.fragment, r.accountedBytes⟩ = x := by
  induction calls generalizing s i with
  | nil => exact absurd hlength (Nat.not_lt_zero _)
  | cons c calls ih =>
    have hsplit : s.returnedOn sha256 lane (c :: calls) = (s.serve sha256 c).1.toList.filter (·.lane = lane) ++
        (s.serve sha256 c).2.returnedOn sha256 lane calls := filter_append ..
    have hordered := @ordered_serve sha256 s h c
    rw [hsplit] at hlength ⊢
    obtain ⟨hnone, hgrows⟩ | ⟨request, after, hsome, hlanes, hserves⟩ := serve_cases h c
    · obtain ⟨hplace', hhead'⟩ := (hgrows lane).place i id x hplace hhead
      rw [hnone] at hlength ⊢
      exact ih hordered hplace' hhead' hlength
    rw [hsome] at hlength ⊢
    by_cases hlane : request.lane = lane
    · subst hlane
      have hmine : (some request).toList.filter (·.lane = request.lane) = [request] := by simp
      rw [hmine] at hlength ⊢
      rcases place_of_serves hserves (h request.lane) hplace hhead with hfound | ⟨j, rfl, hplace', hhead'⟩
      · exact ⟨request, mem_cons_self, hfound⟩
      · rw [← Function.update_self request.lane after s.lanes, ← hlanes] at hplace' hhead'
        obtain ⟨r, hr, hfound⟩ := ih hordered hplace' hhead' (Nat.lt_of_succ_lt_succ hlength)
        exact ⟨r, mem_cons_of_mem _ hr, hfound⟩
    · have hother : (some request).toList.filter (·.lane = lane) = [] := by simp [hlane]
      rw [hother] at hlength ⊢
      rw [← Function.update_of_ne (Ne.symm hlane) after s.lanes, ← hlanes] at hplace hhead
      exact ih hordered hplace hhead hlength

/-- While a lane stays ready, one of any three fragments is from it, of any four for bulk. A stream that is
    ready sends its next fragment within as many fragments of its lane as the lane has ready streams. -/
theorem bounded_service (limits : RemoteQueueLimits) (past calls : List ServiceCall) (lane : RemoteLane)
    (hs : s = (new limits).after sha256 past) :
    (s.StaysReady sha256 lane calls → serviceBound lane ≤ (s.returned sha256 calls).length →
        ∃ r ∈ (s.returned sha256 calls).take (serviceBound lane), r.lane = lane) ∧
      ∀ streamId x rest, ((s.lanes lane).stream streamId).fragments = x :: rest →
        (s.lanes lane).order.length ≤ (s.returnedOn sha256 lane calls).length →
        ∃ r ∈ (s.returnedOn sha256 lane calls).take (s.lanes lane).order.length,
          r.streamId = streamId ∧ ⟨r.fragment, r.accountedBytes⟩ = x := by
  have hordered : ∀ lane, (s.lanes lane).Ordered := fun lane => hs ▸ ordered_after limits past lane
  constructor
  · intro hready hlength
    have hlt := slotsUntil_lt lane s.cursor
    obtain ⟨r, hr, hlane⟩ := exists_returned calls hordered hready (hlt.trans_le hlength)
    exact ⟨r, List.take_subset_take_left _ hlt hr, hlane⟩
  · intro streamId x rest hfragments hlength
    have hmem : streamId ∈ (s.lanes lane).order := ((hordered lane).ready streamId).2 (by simp [hfragments])
    obtain ⟨i, hi, hplace⟩ := List.mem_iff_getElem.1 hmem
    obtain ⟨r, hr, hfound⟩ := exists_returnedOn calls hordered (List.getElem?_eq_some_iff.2 ⟨hi, hplace⟩)
      (by rw [hfragments]; rfl) (hi.trans_le hlength)
    exact ⟨r, List.take_subset_take_left _ hi hr, hfound⟩

/-- Frames of two bulk streams and an interactive one are queued. -/
def queuedStreams : List ServiceCall :=
  [.enqueue (Lending.emptyFrame .bulk 2), .enqueue (Lending.emptyFrame .bulk 4),
    .enqueue (Lending.emptyFrame .interactive 1)]

theorem bounded_service_streams :
    ∃ r ∈ (((new .standard).after Lending.blankHash queuedStreams).returnedOn Lending.blankHash .bulk
      (List.replicate 3 .nextFragment)).take 2, r.streamId = 4 := by
  obtain ⟨r, hr, hid, -⟩ := (@bounded_service Lending.blankHash _ .standard queuedStreams
    (List.replicate 3 .nextFragment) .bulk rfl).2 4 _ [] rfl (by decide +kernel)
  exact ⟨r, hr, hid⟩

end RemoteLaneScheduler

end FlyCockpit.Transport
