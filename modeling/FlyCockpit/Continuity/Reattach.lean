-- SUMMARY: Reattaching: the outbox is replayed in pages, cut by count and bounded in bytes.
import FlyCockpit.Lib.Bytes
import FlyCockpit.Lib.Paging

/-!
# Reattaching

A client that comes back asks for the events behind its cursor, page by page. The daemon cuts a page
after 256 events and then refuses the page if its payloads are too large; no smaller page is tried.
The replay comes to its end exactly if every run of 256 events it passes stays within the bound.
-/

namespace FlyCockpit.Continuity

open List

structure RemoteOutboxEventRef where
  eventSeq : UInt64
  deliveryId : String
  kind : String
  canonicalPayload : Bytes

structure RemoteOutboxEventV1 where
  eventSeq : String
  deliveryId : String
  kind : String
  canonicalPayload : Bytes

inductive RemoteReattachResponseV1
  | replay (schemaVersion : UInt8) (events : List RemoteOutboxEventV1) (highWaterEventSeq : String)
      (hasMore : Bool)
  | snapshotRequired (schemaVersion : UInt8) (snapshotId : String) (snapshotPayload : Bytes)
      (compactedThroughEventSeq highWaterEventSeq : String)

inductive ReplayPageError
  | tooManyEvents
  | tooManyBytes

inductive ReattachError
  | replayPageExceedsBounds

def remoteReplayMaxEventsPerPage : Nat := 256

def remoteReplayMaxBytesPerPage : Nat := 2 * 1024 * 1024

def validateReplayPage (events : List RemoteOutboxEventV1) : Except ReplayPageError Unit :=
  if events.length > remoteReplayMaxEventsPerPage then .error .tooManyEvents
  else
    let totalBytes := (events.map (·.canonicalPayload.length)).sum
    if totalBytes > remoteReplayMaxBytesPerPage then .error .tooManyBytes else .ok ()

def decimalSeq (seq : UInt64) : String := Nat.repr seq.toNat

def RemoteOutboxEventRef.toV1 (event : RemoteOutboxEventRef) : RemoteOutboxEventV1 where
  eventSeq := decimalSeq event.eventSeq
  deliveryId := event.deliveryId
  kind := event.kind
  canonicalPayload := event.canonicalPayload

/-- The events behind a cursor. -/
def eventsAfter (cursor : UInt64) (outboxEvents : List RemoteOutboxEventRef) :
    List RemoteOutboxEventRef :=
  outboxEvents.filter (cursor < ·.eventSeq)

def processReattach (eventCursor compactedThroughEventSeq highWaterEventSeq : UInt64)
    (outboxEvents : List RemoteOutboxEventRef) (snapshotId : String) (snapshotPayload : Bytes) :
    Except ReattachError RemoteReattachResponseV1 :=
  if eventCursor < compactedThroughEventSeq then
    .ok (.snapshotRequired 1 snapshotId snapshotPayload (decimalSeq compactedThroughEventSeq)
      (decimalSeq highWaterEventSeq))
  else
    let replayEvents := (eventsAfter eventCursor outboxEvents).take remoteReplayMaxEventsPerPage
    let protoEvents := replayEvents.map (·.toV1)
    match validateReplayPage protoEvents with
    | .error _ => .error .replayPageExceedsBounds
    | .ok () =>
      let hasMore := (eventsAfter eventCursor outboxEvents)[remoteReplayMaxEventsPerPage]?.isSome
      .ok (.replay 1 protoEvents (decimalSeq highWaterEventSeq) hasMore)

/-- What a read transaction sees of an attachment. -/
structure OutboxView where
  compactedThroughEventSeq : UInt64
  highWaterEventSeq : UInt64
  outboxEvents : List RemoteOutboxEventRef
  snapshotId : String
  snapshotPayload : Bytes

namespace OutboxView

variable {view : OutboxView} {cursor : UInt64} {event : RemoteOutboxEventRef}

def reattach (view : OutboxView) (cursor : UInt64) : Except ReattachError RemoteReattachResponseV1 :=
  processReattach cursor view.compactedThroughEventSeq view.highWaterEventSeq view.outboxEvents
    view.snapshotId view.snapshotPayload

/-- The payload bytes of a run of events. -/
def pageBytes (events : List RemoteOutboxEventRef) : Nat :=
  (events.map (·.canonicalPayload.length)).sum

/-- The replay from a cursor ends and delivers these events: every answer is a page, and the client
goes on behind the last event of a page as long as there is more. -/
inductive Delivers (view : OutboxView) : UInt64 → List RemoteOutboxEventV1 → Prop
  | last {cursor : UInt64} {version : UInt8} {page : List RemoteOutboxEventV1} {highWater : String}
      (h : view.reattach cursor = .ok (.replay version page highWater false)) : Delivers view cursor page
  | more {cursor cursor' : UInt64} {version : UInt8} {page rest : List RemoteOutboxEventV1}
      {event : RemoteOutboxEventV1} {highWater : String}
      (h : view.reattach cursor = .ok (.replay version page highWater true))
      (hlast : page.getLast? = some event) (hcursor : event.eventSeq = decimalSeq cursor')
      (hrest : Delivers view cursor' rest) : Delivers view cursor (page ++ rest)

theorem decimalSeq_inj {a b : UInt64} (h : decimalSeq a = decimalSeq b) : a = b := by
  rw [decimalSeq, decimalSeq, Nat.repr_eq_ofList_toDigits, Nat.repr_eq_ofList_toDigits,
    String.ofList_inj] at h
  rw [← UInt64.toNat_inj, ← Nat.ofDigitChars_ten_toDigits (n := a.toNat), h,
    Nat.ofDigitChars_ten_toDigits]

/-- What the client is still to get. -/
def remaining (view : OutboxView) (cursor : UInt64) : List RemoteOutboxEventRef :=
  eventsAfter cursor view.outboxEvents

theorem validateReplayPage_take (events : List RemoteOutboxEventRef) :
    validateReplayPage ((events.take remoteReplayMaxEventsPerPage).map (·.toV1)) =
      if pageBytes (events.take remoteReplayMaxEventsPerPage) ≤ remoteReplayMaxBytesPerPage then .ok ()
      else .error .tooManyBytes := by
  have hcount : ¬((events.take remoteReplayMaxEventsPerPage).map (·.toV1)).length >
      remoteReplayMaxEventsPerPage := by
    rw [length_map, length_take]
    omega
  rw [validateReplayPage, if_neg hcount, map_map]
  by_cases hbytes : pageBytes (events.take remoteReplayMaxEventsPerPage) ≤ remoteReplayMaxBytesPerPage
  · rw [if_pos hbytes]
    exact if_neg (Nat.not_lt.2 hbytes)
  · rw [if_neg hbytes]
    exact if_pos (Nat.lt_of_not_le hbytes)

/-- A page is cut by count; it is answered if its payloads keep to the bound. -/
theorem reattach_eq (h : view.compactedThroughEventSeq ≤ cursor) : view.reattach cursor =
      if pageBytes ((view.remaining cursor).take remoteReplayMaxEventsPerPage) ≤
          remoteReplayMaxBytesPerPage then
        .ok (.replay 1 (((view.remaining cursor).take remoteReplayMaxEventsPerPage).map (·.toV1))
          (decimalSeq view.highWaterEventSeq)
          (decide (remoteReplayMaxEventsPerPage < (view.remaining cursor).length)))
      else .error .replayPageExceedsBounds := by
  rw [reattach, processReattach, if_neg (UInt64.not_lt.2 h)]
  dsimp only
  rw [validateReplayPage_take, remaining]
  split_ifs
  · rw [← Bool.decide_coe (Option.isSome _)]
    simp only [List.getElem?_eq_none_iff, Option.isSome_iff_ne_none, ne_eq, not_le]
  · rfl

theorem pairwise_remaining (hsorted : view.outboxEvents.Pairwise (·.eventSeq < ·.eventSeq)) :
    (view.remaining cursor).Pairwise (·.eventSeq < ·.eventSeq) :=
  hsorted.filter _

/-- Behind the last event of a page lie the events that the page left. -/
theorem remaining_getLast (hsorted : view.outboxEvents.Pairwise (·.eventSeq < ·.eventSeq)) {n : Nat}
    (hlast : ((view.remaining cursor).take n).getLast? = some event) :
    view.remaining event.eventSeq = (view.remaining cursor).drop n ∧ cursor < event.eventSeq := by
  obtain ⟨front, hfront⟩ := List.getLast?_eq_some_iff.1 hlast
  have hsplit : view.remaining cursor = front ++ event :: (view.remaining cursor).drop n := by
    rw [← singleton_append, ← append_assoc, ← hfront, take_append_drop]
  have hmem : event ∈ view.remaining cursor := by
    rw [hsplit]
    exact mem_append_right _ mem_cons_self
  have hbehind : cursor < event.eventSeq := of_decide_eq_true (mem_filter.1 hmem).2
  refine ⟨?_, hbehind⟩
  have hfilter : view.remaining event.eventSeq =
      (view.remaining cursor).filter (event.eventSeq < ·.eventSeq) := by
    rw [remaining, remaining, eventsAfter, eventsAfter, filter_filter]
    refine filter_congr fun e _ => ?_
    rw [eq_comm, Bool.and_eq_left_iff_imp]
    intro hlt
    exact decide_eq_true (UInt64.lt_trans hbehind (of_decide_eq_true hlt))
  have hsorted' := @pairwise_remaining view cursor hsorted
  rw [hsplit] at hsorted'
  rw [hfilter]
  conv_lhs => rw [hsplit]
  exact Paging.filter_behind (r := fun a b : RemoteOutboxEventRef => a.eventSeq < b.eventSeq)
    (fun a b => UInt64.lt_asymm) hsorted'

theorem not_delivers_of_error {e : ReattachError} {events : List RemoteOutboxEventV1}
    (herror : view.reattach cursor = .error e) : ¬view.Delivers cursor events := by
  intro h
  cases h with
  | last h => cases herror.symm.trans h
  | more h => cases herror.symm.trans h

/-- A replay that needs one page only. -/
theorem delivers_iff_of_le (hcursor : view.compactedThroughEventSeq ≤ cursor)
    (hle : (view.remaining cursor).length ≤ remoteReplayMaxEventsPerPage) :
    view.Delivers cursor ((view.remaining cursor).map (·.toV1)) ↔
      pageBytes (view.remaining cursor) ≤ remoteReplayMaxBytesPerPage := by
  have heq := reattach_eq hcursor
  rw [take_of_length_le hle, decide_eq_false (Nat.not_lt.2 hle)] at heq
  split_ifs at heq with hbytes
  · exact iff_of_true (.last heq) hbytes
  · exact iff_of_false (not_delivers_of_error heq) hbytes

/-- A replay that needs more than one page is that page and a replay behind its last event. -/
theorem delivers_iff_of_lt (hcursor : view.compactedThroughEventSeq ≤ cursor)
    (hlt : remoteReplayMaxEventsPerPage < (view.remaining cursor).length)
    (hlast : ((view.remaining cursor).take remoteReplayMaxEventsPerPage).getLast? = some event) :
    view.Delivers cursor ((view.remaining cursor).map (·.toV1)) ↔
      pageBytes ((view.remaining cursor).take remoteReplayMaxEventsPerPage) ≤
          remoteReplayMaxBytesPerPage ∧
        view.Delivers event.eventSeq
          (((view.remaining cursor).drop remoteReplayMaxEventsPerPage).map (·.toV1)) := by
  have heq := reattach_eq hcursor
  rw [decide_eq_true hlt] at heq
  have hsplit : (view.remaining cursor).map (·.toV1) =
      ((view.remaining cursor).take remoteReplayMaxEventsPerPage).map (·.toV1) ++
        ((view.remaining cursor).drop remoteReplayMaxEventsPerPage).map (·.toV1) := by
    rw [← map_append, take_append_drop]
  have hlast' : (((view.remaining cursor).take remoteReplayMaxEventsPerPage).map (·.toV1)).getLast? =
      some event.toV1 := by
    rw [List.getLast?_map, hlast]
    rfl
  split_ifs at heq with hbytes
  · rw [and_iff_right hbytes]
    constructor
    · intro h
      generalize hall : (view.remaining cursor).map (·.toV1) = all at h hsplit
      cases h with
      | last h => cases heq.symm.trans h
      | more h hevent hcursor' hrest =>
        cases heq.symm.trans h
        obtain rfl := append_cancel_left hsplit
        cases hlast'.symm.trans hevent
        cases decimalSeq_inj hcursor'
        exact hrest
    · intro h
      rw [hsplit]
      exact .more heq hlast' rfl h
  · exact iff_of_false (not_delivers_of_error heq) fun h => hbytes h.1

/-- A replay delivers what lies behind the cursor exactly if every run of 256 events behind it stays
within the bound for the bytes of a page. -/
theorem delivers_remaining_iff (view : OutboxView) (cursor : UInt64)
    (hsorted : view.outboxEvents.Pairwise (·.eventSeq < ·.eventSeq))
    (hcursor : view.compactedThroughEventSeq ≤ cursor) :
    view.Delivers cursor ((view.remaining cursor).map (·.toV1)) ↔
      ∀ i, pageBytes (((view.remaining cursor).drop (remoteReplayMaxEventsPerPage * i)).take
        remoteReplayMaxEventsPerPage) ≤ remoteReplayMaxBytesPerPage := by
  -- by induction on the number of events that are left
  induction hleft : (view.remaining cursor).length using Nat.strong_induction_on generalizing cursor with
  | _ n ih =>
    subst hleft
    obtain hle | hlt := (Nat.lt_or_ge remoteReplayMaxEventsPerPage (view.remaining cursor).length).symm
    · rw [delivers_iff_of_le hcursor hle]
      constructor
      · intro hbytes i
        cases i with
        | zero => rwa [Nat.mul_zero, List.drop_zero, List.take_of_length_le hle]
        | succ i =>
          rw [List.drop_eq_nil_of_le (by rw [Nat.mul_succ]; omega)]
          exact Nat.zero_le _
      · intro hpages
        have hfirst := hpages 0
        rwa [Nat.mul_zero, List.drop_zero, List.take_of_length_le hle] at hfirst
    · have hne : (view.remaining cursor).take remoteReplayMaxEventsPerPage ≠ [] := by
        rw [← List.length_pos_iff, List.length_take, Nat.min_eq_left hlt.le]
        exact Nat.zero_lt_succ 255
      have hlast := List.getLast?_eq_getLast_of_ne_nil hne
      generalize List.getLast _ hne = event at hlast
      obtain ⟨hrest, hbehind⟩ := remaining_getLast hsorted hlast
      have ih := ih _ (by rw [hrest, List.length_drop]; exact Nat.sub_lt (by omega) (by decide))
        event.eventSeq (UInt64.le_trans hcursor (UInt64.le_of_lt hbehind)) rfl
      rw [delivers_iff_of_lt hcursor hlt hlast, ← hrest, ih, hrest]
      constructor
      · rintro ⟨hbytes, hpages⟩ i
        cases i with
        | zero => rwa [Nat.mul_zero, List.drop_zero]
        | succ i =>
          rw [Nat.mul_succ, Nat.add_comm, ← List.drop_drop]
          exact hpages i
      · intro hpages
        refine ⟨hpages 0, fun i => ?_⟩
        rw [List.drop_drop, Nat.add_comm, ← Nat.mul_succ]
        exact hpages (i + 1)

/-- An outbox of two events with payloads of this size. -/
def twoEvents (size : Nat) : OutboxView where
  compactedThroughEventSeq := 0
  highWaterEventSeq := 2
  outboxEvents := [⟨1, "d1", "k", List.replicate size 0⟩, ⟨2, "d2", "k", List.replicate size 0⟩]
  snapshotId := "s"
  snapshotPayload := []

theorem pairwise_twoEvents (size : Nat) :
    (twoEvents size).outboxEvents.Pairwise (·.eventSeq < ·.eventSeq) := by
  simp [twoEvents]

theorem length_of_mem_twoEvents {size : Nat}
    (h : event ∈ (twoEvents size).outboxEvents) : event.canonicalPayload.length = size := by
  simp only [twoEvents, mem_cons, not_mem_nil, or_false] at h
  obtain rfl | rfl := h
  · exact length_replicate
  · exact length_replicate

theorem pageBytes_twoEvents (size : Nat) :
    pageBytes (((twoEvents size).remaining 0).take remoteReplayMaxEventsPerPage) = size + size := by
  simp [twoEvents, remaining, eventsAfter, pageBytes, remoteReplayMaxEventsPerPage]

theorem delivers_two_small : (twoEvents 1).Delivers 0 (((twoEvents 1).remaining 0).map (·.toV1)) := by
  refine (delivers_remaining_iff (twoEvents 1) 0 (pairwise_twoEvents 1) (by decide)).2 fun i => ?_
  cases i with
  | zero => decide
  | succ i =>
    rw [List.drop_eq_nil_of_le (by rw [Nat.mul_succ]; exact Nat.le_add_left_of_le (by decide))]
    exact Nat.zero_le _

/-- Two events of three quarters of the bound each make one page, and the replay never starts. -/
theorem two_large_events_refused : (∀ event ∈ (twoEvents 1572864).outboxEvents,
        event.canonicalPayload.length ≤ remoteReplayMaxBytesPerPage) ∧
      (twoEvents 1572864).outboxEvents.Pairwise (·.eventSeq < ·.eventSeq) ∧
      (twoEvents 1572864).reattach 0 = .error .replayPageExceedsBounds ∧
      ∀ events, ¬(twoEvents 1572864).Delivers 0 events := by
  have herror : (twoEvents 1572864).reattach 0 = .error .replayPageExceedsBounds := by
    rw [reattach_eq (show (twoEvents 1572864).compactedThroughEventSeq ≤ 0 from UInt64.le_refl _),
      pageBytes_twoEvents]
    exact if_neg (by decide)
  refine ⟨fun event hevent => ?_, pairwise_twoEvents _, herror, fun _ => not_delivers_of_error herror⟩
  rw [length_of_mem_twoEvents hevent]
  decide

end OutboxView

end FlyCockpit.Continuity
