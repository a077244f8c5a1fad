-- SUMMARY: What the counters of a lane stand for, and that every operation keeps them exact.
import FlyCockpit.Transport.Backlog

/-!
# The counters of a lane

A lane counts the frames and the bytes it holds. Both are sums over the queued fragments: the last
fragment of a frame carries the charge of the frame. A lane is consistent if its round-robin order
lists the streams that have fragments and its counters are these sums. Every operation keeps a lane
consistent, and in a consistent lane no subtraction from a counter is cut off at zero.
-/

namespace FlyCockpit.Transport

open List RemoteTransportFrameV1

/-- The charges some queued fragments carry. -/
def charges (fragments : List QueuedFragment) : List Nat := fragments.filterMap (·.accountedBytes)

@[simp] theorem charges_nil : charges [] = [] := rfl

theorem charges_cons (x : QueuedFragment) (fragments : List QueuedFragment) :
    charges (x :: fragments) = x.accountedBytes.toList ++ charges fragments := by
  unfold charges
  cases h : x.accountedBytes <;> simp [h]

theorem charges_append (fragments more : List QueuedFragment) :
    charges (fragments ++ more) = charges fragments ++ charges more :=
  filterMap_append

theorem accountedBytes_queued (sha256 : Bytes → Block 32) (f : RemoteTransportFrameV1) (i : Nat) :
    (Piece.queued sha256 ⟨f, i⟩).accountedBytes =
      if i + 1 = f.pieceCount then some f.serializedLen else none := by
  simp [Piece.queued, Piece.isLast]

theorem charges_map_pieces (f : RemoteTransportFrameV1) {queued : Piece → QueuedFragment}
    {charge : Nat → Option Nat} (h : ∀ i, (queued ⟨f, i⟩).accountedBytes = charge i) :
    charges (f.pieces.map queued) = (List.range f.pieceCount).filterMap charge := by
  rw [charges, pieces, map_map, filterMap_map]
  exact congrArg (List.filterMap · _) (funext h)

/-- A frame is charged once, with its size. -/
theorem charges_pieces (sha256 : Bytes → Block 32) (f : RemoteTransportFrameV1) :
    charges (f.pieces.map (Piece.queued sha256)) = [f.serializedLen] := by
  have hpos := f.pieceCount_pos
  rw [charges_map_pieces f (accountedBytes_queued sha256 f)]
  generalize f.pieceCount = count at hpos
  obtain ⟨n, rfl⟩ := Nat.exists_eq_succ_of_ne_zero hpos.ne'
  have hbefore : ∀ i ∈ List.range n,
      (if i + 1 = n + 1 then some f.serializedLen else none) = none := by
    intro i hi
    have hlt := mem_range.1 hi
    exact if_neg (by omega)
  rw [Nat.succ_eq_add_one, range_succ, filterMap_append, filterMap_eq_nil_iff.2 hbefore]
  simp

namespace LaneQueue

/-- A measure of the charges of every stream, added up. -/
def charged (f : List Nat → Nat) (q : LaneQueue) : Nat :=
  q.streams.total fun stream => f (charges stream.fragments)

/-- The same without one stream. -/
def chargedBeside (f : List Nat → Nat) (q : LaneQueue) (streamId : UInt64) : Nat :=
  Table.total (fun stream => f (charges stream.fragments)) (q.streams.erase streamId)

structure Consistent (q : LaneQueue) : Prop extends Ordered q where
  frames : q.frames = q.charged List.length
  bytes : q.bytes = q.charged List.sum

/-- Releasing a charge takes from both counters no more than they hold. -/
def Covers (q : LaneQueue) (accountedBytes : Option Nat) : Prop :=
  ∀ bytes, accountedBytes = some bytes → 1 ≤ q.frames ∧ bytes ≤ q.bytes

/-- The same for the charges of several fragments, released one after the other. -/
def CoversAll : LaneQueue → List QueuedFragment → Prop
  | _, [] => True
  | q, x :: fragments =>
    q.Covers x.accountedBytes ∧ (q.settle x.accountedBytes).CoversAll fragments

variable {q : LaneQueue} {f : List Nat → Nat} {streamId : UInt64} {fragments : List QueuedFragment}

theorem charged_eq (hf : f [] = 0) (q : LaneQueue) (streamId : UInt64) :
    q.charged f = f (charges (q.stream streamId).fragments) + q.chargedBeside f streamId := by
  unfold charged chargedBeside stream
  cases hlookup : q.streams.lookup streamId with
  | none =>
    rw [Table.erase_of_none hlookup]
    simp [StreamQueue.fresh, hf]
  | some stream =>
    rw [← Table.total_erase _ hlookup, Nat.add_comm]
    rfl

/-- Replacing the queue of one stream. -/
theorem charged_insert (streams : Table UInt64 StreamQueue) (streamId : UInt64)
    (stream : StreamQueue) :
    Table.total (fun stream => f (charges stream.fragments)) (streams.insert streamId stream) =
      f (charges stream.fragments) +
        Table.total (fun stream => f (charges stream.fragments)) (streams.erase streamId) :=
  Table.total_insert _ _ _ _

theorem consistent_fresh : Consistent .fresh where
  toOrdered := ordered_fresh
  frames := rfl
  bytes := rfl

theorem Consistent.frames_eq (h : q.Consistent) (streamId : UInt64) :
    q.frames = (charges (q.stream streamId).fragments).length +
      q.chargedBeside List.length streamId := by
  rw [h.frames, charged_eq rfl q streamId]

theorem Consistent.bytes_eq (h : q.Consistent) (streamId : UInt64) :
    q.bytes = (charges (q.stream streamId).fragments).sum + q.chargedBeside List.sum streamId := by
  rw [h.bytes, charged_eq rfl q streamId]

theorem Consistent.push (h : q.Consistent) (streamId : UInt64)
    {size : Nat} (hne : fragments ≠ []) (hcharges : charges fragments = [size]) :
    (q.push streamId fragments size).Consistent where
  toOrdered := h.toOrdered.push streamId hne size
  frames := by
    have hframes := h.frames_eq streamId
    unfold LaneQueue.push charged
    dsimp only
    rw [charged_insert, charges_append, hcharges, length_append, hframes, chargedBeside]
    simp only [length_singleton]
    omega
  bytes := by
    have hbytes := h.bytes_eq streamId
    unfold LaneQueue.push charged
    dsimp only
    rw [charged_insert, charges_append, hcharges, sum_append, hbytes, chargedBeside]
    simp only [sum_singleton]
    omega

/-- Serving the head of a stream leaves the charges behind it. -/
theorem charged_served (hf : f [] = 0) (order : List UInt64) (fragments : List QueuedFragment)
    (deficit : Nat) :
    (q.served streamId order fragments deficit).charged f =
      f (charges fragments) + q.chargedBeside f streamId := by
  unfold served
  cases fragments with
  | nil => simp [charged, chargedBeside, hf]
  | cons x fragments =>
    rw [if_neg (by simp)]
    exact charged_insert _ _ _

@[simp] theorem frames_served (order : List UInt64) (fragments : List QueuedFragment)
    (deficit : Nat) : (q.served streamId order fragments deficit).frames = q.frames := by
  unfold served
  split <;> rfl

@[simp] theorem bytes_served (order : List UInt64) (fragments : List QueuedFragment)
    (deficit : Nat) : (q.served streamId order fragments deficit).bytes = q.bytes := by
  unfold served
  split <;> rfl

theorem charged_settle (a : Option Nat) : (q.settle a).charged f = q.charged f := by
  cases a <;> rfl

theorem frames_settle (a : Option Nat) : (q.settle a).frames = q.frames - a.toList.length := by
  cases a <;> rfl

theorem bytes_settle (a : Option Nat) : (q.settle a).bytes = q.bytes - a.toList.sum := by
  cases a <;> rfl

/-- What `pop_from_lane` leaves of a lane whose turn it is. -/
theorem Consistent.served (h : q.Consistent) {order : List UInt64}
    (horder : q.order = streamId :: order) {x : QueuedFragment}
    (hstream : (q.stream streamId).fragments = x :: fragments) (deficit : Nat) :
    ((q.served streamId order fragments deficit).settle x.accountedBytes).Consistent where
  toOrdered := (h.toOrdered.served horder fragments deficit).settle x.accountedBytes
  frames := by
    have hframes := h.frames_eq streamId
    rw [hstream, charges_cons, length_append] at hframes
    rw [frames_settle, frames_served, charged_settle, charged_served rfl, hframes]
    omega
  bytes := by
    have hbytes := h.bytes_eq streamId
    rw [hstream, charges_cons, sum_append] at hbytes
    rw [bytes_settle, bytes_served, charged_settle, charged_served rfl, hbytes]
    omega

section Restored

variable (request : RemoteSendRequest)

theorem frames_restored :
    (q.restored request).frames = q.frames + request.accountedBytes.toList.length := by
  unfold restored
  cases request.accountedBytes <;> rfl

theorem bytes_restored :
    (q.restored request).bytes = q.bytes + request.accountedBytes.toList.sum := by
  unfold restored
  cases request.accountedBytes <;> simp

theorem stream_restored (other : UInt64) : ((q.restored request).stream other).fragments =
      if other = request.streamId then
        ⟨request.fragment, request.accountedBytes⟩ :: (q.stream request.streamId).fragments
      else (q.stream other).fragments := by
  unfold restored stream
  dsimp only
  rw [Table.lookup_insert_eq]
  split <;> rfl

theorem charged_restored : (q.restored request).charged f =
      f (charges (⟨request.fragment, request.accountedBytes⟩ ::
        (q.stream request.streamId).fragments)) + q.chargedBeside f request.streamId :=
  charged_insert _ _ _

theorem Ordered.restored (h : q.Ordered) : (q.restored request).Ordered where
  nodup := by
    change (request.streamId :: q.order.filter (· ≠ request.streamId)).Nodup
    exact nodup_cons.2 ⟨by simp, h.nodup.filter _⟩
  ready other := by
    rw [stream_restored]
    change other ∈ request.streamId :: q.order.filter (· ≠ request.streamId) ↔ _
    by_cases hother : other = request.streamId
    · simp [hother]
    · simp [hother, h.ready other]

theorem Consistent.restored (h : q.Consistent) : (q.restored request).Consistent where
  toOrdered := h.toOrdered.restored request
  frames := by
    rw [frames_restored, charged_restored, charges_cons, length_append,
      h.frames_eq request.streamId]
    dsimp only
    omega
  bytes := by
    rw [bytes_restored, charged_restored, charges_cons, sum_append, h.bytes_eq request.streamId]
    dsimp only
    omega

end Restored

/-- Releasing the charges of several fragments. -/
theorem foldl_settle (fragments : List QueuedFragment) (q : LaneQueue) :
    fragments.foldl (fun q queued => q.settle queued.accountedBytes) q =
      { q with
        frames := q.frames - (charges fragments).length
        bytes := q.bytes - (charges fragments).sum } := by
  induction fragments generalizing q with
  | nil => rfl
  | cons x fragments ih =>
    rw [foldl_cons, ih, charges_cons]
    cases x.accountedBytes with
    | none => rfl
    | some bytes =>
      simp only [settle, Option.toList_some, singleton_append, length_cons, sum_cons,
        mk.injEq, true_and, and_true]
      omega

theorem stream_without (other : UInt64) : ((q.without streamId).stream other).fragments =
      if other = streamId then [] else (q.stream other).fragments := by
  unfold without stream
  dsimp only
  rw [Table.lookup_erase_eq]
  split <;> rfl

theorem mem_order_without {other : UInt64} :
    other ∈ (q.without streamId).order ↔ other ∈ q.order ∧ other ≠ streamId := by
  change other ∈ q.order.filter (· ≠ streamId) ↔ _
  rw [mem_filter, decide_eq_true_iff]

theorem Ordered.without (h : q.Ordered) (streamId : UInt64) : (q.without streamId).Ordered where
  nodup := h.nodup.filter _
  ready other := by
    rw [stream_without, mem_order_without]
    by_cases hother : other = streamId
    · simp [hother]
    · simp [hother, h.ready other]

theorem Consistent.without (h : q.Consistent) (streamId : UInt64) :
    (q.without streamId).Consistent where
  toOrdered := h.toOrdered.without streamId
  frames := by
    have hframes := h.frames_eq streamId
    unfold LaneQueue.without
    dsimp only
    rw [foldl_settle]
    change q.frames - _ = q.chargedBeside List.length streamId
    omega
  bytes := by
    have hbytes := h.bytes_eq streamId
    unfold LaneQueue.without
    dsimp only
    rw [foldl_settle]
    change q.bytes - _ = q.chargedBeside List.sum streamId
    omega

/-! ## No subtraction is cut off -/

theorem coversAll_of_le {q : LaneQueue} (hframes : (charges fragments).length ≤ q.frames)
    (hbytes : (charges fragments).sum ≤ q.bytes) : q.CoversAll fragments := by
  induction fragments generalizing q with
  | nil => trivial
  | cons x fragments ih =>
    rw [charges_cons, length_append] at hframes
    rw [charges_cons, sum_append] at hbytes
    refine ⟨?_, ih ?_ ?_⟩
    · intro bytes hx
      rw [hx, Option.toList_some, length_singleton] at hframes
      rw [hx, Option.toList_some, sum_singleton] at hbytes
      exact ⟨by omega, by omega⟩
    · rw [frames_settle]
      omega
    · rw [bytes_settle]
      omega

/-- The counters cover the charges of every stream. -/
theorem Consistent.coversAll (h : q.Consistent) (streamId : UInt64) :
    q.CoversAll (q.stream streamId).fragments := by
  have hframes := h.frames_eq streamId
  have hbytes := h.bytes_eq streamId
  exact coversAll_of_le (by omega) (by omega)

/-- A lane without ready streams counts nothing. -/
theorem Consistent.eq_zero_of_empty (h : q.Consistent) (hempty : q.order = []) :
    q.frames = 0 ∧ q.bytes = 0 := by
  have hcharges : ∀ streamId stream, q.streams.lookup streamId = some stream →
      charges stream.fragments = [] := by
    intro streamId stream hlookup
    have hready := h.ready streamId
    rw [hempty, LaneQueue.stream, hlookup, Option.getD_some] at hready
    have hnone : stream.fragments = [] := by simpa using hready
    rw [hnone, charges_nil]
  have hzero : ∀ f : List Nat → Nat, f [] = 0 → q.charged f = 0 := by
    intro f hf
    have hle := Table.total_le (f := fun stream : StreamQueue => f (charges stream.fragments))
      fun streamId stream hlookup => (hcharges streamId stream hlookup ▸ hf).le
    exact Nat.le_zero.1 hle
  exact ⟨h.frames.trans (hzero _ rfl), h.bytes.trans (hzero _ rfl)⟩

end LaneQueue

end FlyCockpit.Transport
