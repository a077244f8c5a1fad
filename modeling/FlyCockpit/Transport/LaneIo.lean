-- SUMMARY: Lane endpoints over the two carriers, and what an application can tell of the carrier.
import FlyCockpit.Transport.Codecs

/-!
# Lane endpoints

An endpoint keeps the records of each lane and the order in which they arrived. The WebSocket
fallback puts an 8-byte watermark in front of every fragment, WebRTC does not. Two pairs of
endpoints, one on each carrier, follow the same script; records may also come from outside, and
then they need not be anything that `write_fragment` produced.
-/

namespace FlyCockpit.Transport

open Function List

def peerSeenThroughWatermarkBytes : Nat := 8
def laneFragmentTotalBytes : Nat := 65497

inductive RemoteCarrierKind
  | webRtcDataChannel
  | webSocketFallback
  deriving DecidableEq, Repr

def RemoteCarrierKind.transmitsWatermark : RemoteCarrierKind → Bool
  | webRtcDataChannel => false
  | webSocketFallback => true

/-- An endpoint. The arrival order tracks the records: each lane holds as many as arrived on it. -/
structure RemoteLaneEndpoint where
  kind : RemoteCarrierKind
  records : RemoteLane → List Bytes
  arrival : List RemoteLane
  writable : RemoteLane → Bool
  peerSeenThrough : UInt64
  tracked : ∀ lane, (records lane).length = arrival.count lane

namespace RemoteLaneEndpoint

def new (kind : RemoteCarrierKind) : RemoteLaneEndpoint where
  kind
  records _ := []
  arrival := []
  writable _ := true
  peerSeenThrough := 0
  tracked _ := rfl

def setWritable (e : RemoteLaneEndpoint) (lane : RemoteLane) (writable : Bool) :
    RemoteLaneEndpoint :=
  { e with writable := update e.writable lane writable }

def setPeerSeenThrough (e : RemoteLaneEndpoint) (watermark : UInt64) : RemoteLaneEndpoint :=
  { e with peerSeenThrough := watermark }

/-- The record goes to the end of its lane and of the arrival order. -/
def push (e : RemoteLaneEndpoint) (lane : RemoteLane) (record : Bytes) : RemoteLaneEndpoint :=
  { e with
    records := update e.records lane (e.records lane ++ [record])
    arrival := e.arrival ++ [lane]
    tracked := by
      intro other
      rw [count_append, ← e.tracked other]
      by_cases h : other = lane
      · subst h
        simp
      · simp [update_of_ne h, Ne.symm h] }

/-- The endpoint without the first record of the lane that arrived first. -/
def dropFirst (e : RemoteLaneEndpoint) (lane : RemoteLane) (rest : List RemoteLane)
    (h : e.arrival = lane :: rest) : RemoteLaneEndpoint :=
  { e with
    records := update e.records lane (e.records lane).tail
    arrival := rest
    tracked := by
      intro other
      have hcount := e.tracked other
      rw [h, count_cons] at hcount
      by_cases heq : other = lane
      · subst heq
        simp only [beq_self_eq_true, if_true] at hcount
        rw [update_self, length_tail, hcount, Nat.add_sub_cancel]
      · rw [update_of_ne heq, hcount]
        simp [Ne.symm heq] }

/-- The record that arrived first, its lane, and the endpoint without it. -/
def pop (e : RemoteLaneEndpoint) : Option (RemoteLane × Bytes × RemoteLaneEndpoint) :=
  match h : e.arrival with
  | [] => none
  | lane :: rest => some (lane, (e.records lane).headD [], e.dropFirst lane rest h)

/-- The framing a carrier of some kind puts around fragment bytes. -/
def frame (e : RemoteLaneEndpoint) (fragmentBytes : Bytes) : Bytes :=
  if e.kind.transmitsWatermark then Bytes.be64 e.peerSeenThrough ++ fragmentBytes else fragmentBytes

def encodeRecord (e : RemoteLaneEndpoint) (fragment : RemoteCarrierFragmentV1) :
    Except RemoteTransportError Bytes := do
  let payload ← fragment.encode
  if laneFragmentTotalBytes + peerSeenThroughWatermarkBytes <
      payload.length + peerSeenThroughWatermarkBytes then
    .error (.withSize .fragmentPayloadCapExceeded fragment.lane payload.length)
  else pure (e.frame payload)

def decodeRecord (e : RemoteLaneEndpoint) (record : Bytes) : Except RemoteTransportError Bytes :=
  if e.kind.transmitsWatermark then
    if record.length < peerSeenThroughWatermarkBytes then .error (.new .headerTooShort)
    else .ok (record.drop peerSeenThroughWatermarkBytes)
  else .ok record

/-- The loop of `deliver_to`; a record that does not decode is lost and ends it. -/
def deliverLoop : Nat → RemoteLaneEndpoint → RemoteLaneEndpoint →
    Except RemoteTransportError Unit × RemoteLaneEndpoint × RemoteLaneEndpoint
  | 0, e, peer => (.ok (), e, peer)
  | n + 1, e, peer =>
    match e.pop with
    | none => (.ok (), e, peer)
    | some (lane, record, e') =>
      match e'.decodeRecord record with
      | .error err => (.error err, e', peer)
      | .ok fragmentBytes => deliverLoop n e' (peer.push lane (peer.frame fragmentBytes))

/-- Everything this endpoint holds moves to `peer`; the loop runs once for every arrival. -/
def deliverTo (e peer : RemoteLaneEndpoint) :
    Except RemoteTransportError Unit × RemoteLaneEndpoint × RemoteLaneEndpoint :=
  deliverLoop e.arrival.length e peer

def writeFragment (e : RemoteLaneEndpoint) (lane : RemoteLane) (fragment : RemoteCarrierFragmentV1) :
    Except RemoteTransportError Unit × RemoteLaneEndpoint :=
  if fragment.lane ≠ lane then (.error (.withLane .unknownLane lane), e)
  else if e.writable lane = false then (.error (.withLane .queueByteLimit lane), e)
  else match e.encodeRecord fragment with
    | .error err => (.error err, e)
    | .ok record => (.ok (), e.push lane record)

def readFragment (e : RemoteLaneEndpoint) :
    Except RemoteTransportError (Option RemoteCarrierFragmentV1) × RemoteLaneEndpoint :=
  match e.pop with
  | none => (.ok none, e)
  | some (_, record, e') =>
    match e'.decodeRecord record with
    | .error err => (.error err, e')
    | .ok fragmentBytes => ((RemoteCarrierFragmentV1.decode fragmentBytes).map some, e')

variable {e : RemoteLaneEndpoint}

/-- The `expect` of the source cannot fail: an arrival has its record. -/
theorem pop_eq_some {e' : RemoteLaneEndpoint} {lane : RemoteLane} {record : Bytes}
    (h : e.pop = some (lane, record, e')) :
    e.records lane = record :: e'.records lane ∧ e.arrival = lane :: e'.arrival ∧
      (∀ other, other ≠ lane → e'.records other = e.records other) ∧ e'.kind = e.kind ∧
      e'.writable = e.writable ∧ e'.peerSeenThrough = e.peerSeenThrough := by
  unfold pop at h
  split at h
  next => cases h
  next first rest harrival =>
    cases h
    have hlength := e.tracked lane
    rw [harrival, count_cons_self] at hlength
    obtain ⟨record, records, hrecords⟩ := exists_cons_of_length_eq_add_one hlength
    have htail : (e.dropFirst lane rest harrival).records lane = records := by
      simp [dropFirst, hrecords]
    refine ⟨?_, harrival, fun other hother => update_of_ne hother _ _, rfl, rfl, rfl⟩
    rw [htail, hrecords, headD_cons]

theorem pop_eq_none (h : e.pop = none) : e.arrival = [] := by
  unfold pop at h
  split at h
  next harrival => exact harrival
  next => cases h

/-! ## Records that are read alike -/

/-- A record of WebRTC and one of the fallback that are read alike: the same fragment bytes, or too
few of them for a fragment header. A fallback record has at least its watermark. -/
def Alike (direct fallback : Bytes) : Prop :=
  peerSeenThroughWatermarkBytes ≤ fallback.length ∧
    (fallback.drop peerSeenThroughWatermarkBytes = direct ∨
      direct.length < remoteCarrierFragmentHeaderBytes ∧
      (fallback.drop peerSeenThroughWatermarkBytes).length < remoteCarrierFragmentHeaderBytes)

theorem Alike.decode {direct fallback : Bytes} (h : Alike direct fallback) :
    RemoteCarrierFragmentV1.decode direct =
      RemoteCarrierFragmentV1.decode (fallback.drop peerSeenThroughWatermarkBytes) := by
  obtain ⟨-, rfl | ⟨hdirect, hfallback⟩⟩ := h
  · rfl
  · rw [RemoteCarrierFragmentV1.decode, if_pos hdirect, RemoteCarrierFragmentV1.decode,
      if_pos hfallback]

/-- The state of a WebRTC endpoint and that of a fallback endpoint that an application cannot tell
apart. -/
structure Mirrors (d f : RemoteLaneEndpoint) : Prop where
  direct : d.kind = .webRtcDataChannel
  fallback : f.kind = .webSocketFallback
  arrival : d.arrival = f.arrival
  writable : d.writable = f.writable
  records : ∀ lane, List.Forall₂ Alike (d.records lane) (f.records lane)

theorem mirrors_new : Mirrors (new .webRtcDataChannel) (new .webSocketFallback) where
  direct := rfl
  fallback := rfl
  arrival := rfl
  writable := rfl
  records _ := .nil

namespace Mirrors

variable {d f p q : RemoteLaneEndpoint} {direct fallback : Bytes}

theorem frame_alike (h : Mirrors d f) (halike : Alike direct fallback) :
    Alike (d.frame direct) (f.frame (fallback.drop peerSeenThroughWatermarkBytes)) := by
  have hd : d.frame direct = direct := by
    rw [frame, h.direct]
    rfl
  have hf : (f.frame (fallback.drop peerSeenThroughWatermarkBytes)).drop
      peerSeenThroughWatermarkBytes = fallback.drop peerSeenThroughWatermarkBytes := by
    rw [frame, h.fallback]
    exact drop_left' (Bytes.be64_length _)
  refine ⟨?_, ?_⟩
  · rw [frame, h.fallback]
    simp [RemoteCarrierKind.transmitsWatermark, peerSeenThroughWatermarkBytes]
  · rw [hd, hf]
    exact halike.2

theorem decodeRecord (h : Mirrors d f) (halike : Alike direct fallback) :
    d.decodeRecord direct = .ok direct ∧
      f.decodeRecord fallback = .ok (fallback.drop peerSeenThroughWatermarkBytes) := by
  refine ⟨?_, ?_⟩
  · rw [RemoteLaneEndpoint.decodeRecord, h.direct]
    rfl
  · rw [RemoteLaneEndpoint.decodeRecord, h.fallback]
    exact if_neg (Nat.not_lt.2 halike.1)

theorem push (h : Mirrors d f) (lane : RemoteLane)
    (halike : Alike direct fallback) : Mirrors (d.push lane direct) (f.push lane fallback) where
  direct := h.direct
  fallback := h.fallback
  arrival := by
    simp only [RemoteLaneEndpoint.push, h.arrival]
  writable := h.writable
  records := by
    intro other
    simp only [RemoteLaneEndpoint.push]
    by_cases hother : other = lane
    · subst hother
      rw [update_self, update_self]
      exact rel_append (h.records other) (.cons halike .nil)
    · rw [update_of_ne hother, update_of_ne hother]
      exact h.records other

theorem setWritable (h : Mirrors d f) (lane : RemoteLane) (writable : Bool) :
    Mirrors (d.setWritable lane writable) (f.setWritable lane writable) :=
  { h with
    writable := by
      simp only [RemoteLaneEndpoint.setWritable, h.writable] }

theorem setPeerSeenThrough (h : Mirrors d f) (watermark watermark' : UInt64) :
    Mirrors (d.setPeerSeenThrough watermark) (f.setPeerSeenThrough watermark') :=
  ⟨h.direct, h.fallback, h.arrival, h.writable, h.records⟩

/-- Both endpoints are empty, or the first records are of one lane and are read alike. -/
theorem pop_cases (h : Mirrors d f) : d.pop = none ∧ f.pop = none ∨
      ∃ lane direct fallback d' f', d.pop = some (lane, direct, d') ∧
        f.pop = some (lane, fallback, f') ∧ Alike direct fallback ∧ Mirrors d' f' := by
  cases hd : d.pop with
  | none =>
    cases hf : f.pop with
    | none => exact .inl ⟨rfl, rfl⟩
    | some popped =>
      have harrival := (pop_eq_some hf).2.1
      rw [← h.arrival, pop_eq_none hd] at harrival
      cases harrival
  | some popped =>
    obtain ⟨lane, direct, d'⟩ := popped
    obtain ⟨hrecords, harrival, hother, hkind, hwritable, -⟩ := pop_eq_some hd
    cases hf : f.pop with
    | none =>
      rw [h.arrival, pop_eq_none hf] at harrival
      cases harrival
    | some popped' =>
      obtain ⟨lane', fallback, f'⟩ := popped'
      obtain ⟨hrecords', harrival', hother', hkind', hwritable', -⟩ := pop_eq_some hf
      rw [h.arrival, harrival'] at harrival
      obtain ⟨rfl, hrest⟩ := List.cons.inj harrival
      have hlane := h.records lane'
      rw [hrecords, hrecords', forall₂_cons] at hlane
      refine .inr ⟨lane', direct, fallback, d', f', rfl, rfl, hlane.1, ?_⟩
      exact
        { direct := hkind.trans h.direct
          fallback := hkind'.trans h.fallback
          arrival := hrest.symm
          writable := by rw [hwritable, hwritable', h.writable]
          records := by
            intro other
            by_cases heq : other = lane'
            · subst heq
              exact hlane.2
            · rw [hother other heq, hother' other heq]
              exact h.records other }

/-! ## The calls of an application -/

theorem writeFragment (h : Mirrors d f) (lane : RemoteLane) (fragment : RemoteCarrierFragmentV1) :
    (d.writeFragment lane fragment).1 = (f.writeFragment lane fragment).1 ∧
      Mirrors (d.writeFragment lane fragment).2 (f.writeFragment lane fragment).2 := by
  unfold RemoteLaneEndpoint.writeFragment encodeRecord
  rw [h.writable]
  split_ifs
  · exact ⟨rfl, h⟩
  · exact ⟨rfl, h⟩
  · cases fragment.encode with
    | error e => exact ⟨rfl, h⟩
    | ok payload =>
      dsimp only [bind, Except.bind]
      split_ifs
      · exact ⟨rfl, h⟩
      · refine ⟨rfl, h.push lane ?_⟩
        have halike : Alike payload (f.frame payload) := by
          rw [frame, h.fallback]
          exact ⟨by simp [RemoteCarrierKind.transmitsWatermark, peerSeenThroughWatermarkBytes],
            .inl (drop_left' (Bytes.be64_length _))⟩
        have hd : d.frame payload = payload := by
          rw [frame, h.direct]
          rfl
        rw [hd]
        exact halike

theorem readFragment (h : Mirrors d f) :
    d.readFragment.1 = f.readFragment.1 ∧ Mirrors d.readFragment.2 f.readFragment.2 := by
  unfold RemoteLaneEndpoint.readFragment
  obtain ⟨hd, hf⟩ | ⟨lane, direct, fallback, d', f', hd, hf, halike, hrest⟩ := h.pop_cases
  · rw [hd, hf]
    exact ⟨rfl, h⟩
  · obtain ⟨hdirect, hfallback⟩ := hrest.decodeRecord halike
    simp only [hd, hf, hdirect, hfallback, halike.decode]
    exact ⟨trivial, hrest⟩

theorem deliverLoop (n : Nat) (h : Mirrors d f) (hpeer : Mirrors p q) :
    (RemoteLaneEndpoint.deliverLoop n d p).1 = (RemoteLaneEndpoint.deliverLoop n f q).1 ∧
      Mirrors (RemoteLaneEndpoint.deliverLoop n d p).2.1
        (RemoteLaneEndpoint.deliverLoop n f q).2.1 ∧
      Mirrors (RemoteLaneEndpoint.deliverLoop n d p).2.2
        (RemoteLaneEndpoint.deliverLoop n f q).2.2 := by
  induction n generalizing d f p q with
  | zero => exact ⟨rfl, h, hpeer⟩
  | succ n ih =>
    unfold RemoteLaneEndpoint.deliverLoop
    obtain ⟨hd, hf⟩ | ⟨lane, direct, fallback, d', f', hd, hf, halike, hrest⟩ := h.pop_cases
    · rw [hd, hf]
      exact ⟨rfl, h, hpeer⟩
    · obtain ⟨hdirect, hfallback⟩ := hrest.decodeRecord halike
      simp only [hd, hf, hdirect, hfallback]
      exact ih hrest (hpeer.push lane (hpeer.frame_alike halike))

theorem deliverTo (h : Mirrors d f) (hpeer : Mirrors p q) :
    (d.deliverTo p).1 = (f.deliverTo q).1 ∧ Mirrors (d.deliverTo p).2.1 (f.deliverTo q).2.1 ∧
      Mirrors (d.deliverTo p).2.2 (f.deliverTo q).2.2 := by
  unfold RemoteLaneEndpoint.deliverTo
  rw [h.arrival]
  exact h.deliverLoop f.arrival.length hpeer

end Mirrors

end RemoteLaneEndpoint

/-! ## Scripts -/

open RemoteLaneEndpoint

inductive Side
  | near
  | far

/-- A step of a script on two connected endpoints. The carrier may bring a record of its own. -/
inductive LaneOp
  | write (side : Side) (lane : RemoteLane) (fragment : RemoteCarrierFragmentV1)
  | setWritable (side : Side) (lane : RemoteLane) (writable : Bool)
  | setPeerSeenThrough (side : Side) (watermark : UInt64)
  | deliver (side : Side)
  | read (side : Side)
  | carry (side : Side) (lane : RemoteLane) (record : Bytes)

/-- What an application sees of a step. -/
inductive LaneResult
  | written (result : Except RemoteTransportError Unit)
  | delivered (result : Except RemoteTransportError Unit)
  | fragment (result : Except RemoteTransportError (Option RemoteCarrierFragmentV1))
  | done

/-- Two endpoints on carriers of one kind. -/
structure Link where
  near : RemoteLaneEndpoint
  far : RemoteLaneEndpoint

namespace Link

def new (kind : RemoteCarrierKind) : Link := ⟨.new kind, .new kind⟩

def endpoint (l : Link) : Side → RemoteLaneEndpoint
  | .near => l.near
  | .far => l.far

def set (l : Link) : Side → RemoteLaneEndpoint → Link
  | .near, e => { l with near := e }
  | .far, e => { l with far := e }

def step (l : Link) : LaneOp → LaneResult × Link
  | .write side lane fragment =>
    let (result, e) := (l.endpoint side).writeFragment lane fragment
    (.written result, l.set side e)
  | .setWritable side lane writable =>
    (.done, l.set side ((l.endpoint side).setWritable lane writable))
  | .setPeerSeenThrough side watermark =>
    (.done, l.set side ((l.endpoint side).setPeerSeenThrough watermark))
  | .deliver .near =>
    let (result, near, far) := l.near.deliverTo l.far
    (.delivered result, ⟨near, far⟩)
  | .deliver .far =>
    let (result, far, near) := l.far.deliverTo l.near
    (.delivered result, ⟨near, far⟩)
  | .read side =>
    let (result, e) := (l.endpoint side).readFragment
    (.fragment result, l.set side e)
  | .carry side lane record => (.done, l.set side ((l.endpoint side).push lane record))

/-- What an application sees of a script, step by step. -/
def run (l : Link) : List LaneOp → List LaneResult
  | [] => []
  | op :: ops => (l.step op).1 :: run (l.step op).2 ops

structure Mirrors (d f : Link) : Prop where
  near : d.near.Mirrors f.near
  far : d.far.Mirrors f.far

theorem mirrors_new : Mirrors (new .webRtcDataChannel) (new .webSocketFallback) :=
  ⟨RemoteLaneEndpoint.mirrors_new, RemoteLaneEndpoint.mirrors_new⟩

end Link

/-- A step on WebRTC and the step of the fallback script in its place. The watermarks are the
carrier's own affair; records the carrier brings are read alike. -/
inductive LaneOp.Corresponds : LaneOp → LaneOp → Prop
  | write (side : Side) (lane : RemoteLane) (fragment : RemoteCarrierFragmentV1) :
    Corresponds (.write side lane fragment) (.write side lane fragment)
  | setWritable (side : Side) (lane : RemoteLane) (writable : Bool) :
    Corresponds (.setWritable side lane writable) (.setWritable side lane writable)
  | setPeerSeenThrough (side : Side) (watermark watermark' : UInt64) :
    Corresponds (.setPeerSeenThrough side watermark) (.setPeerSeenThrough side watermark')
  | deliver (side : Side) : Corresponds (.deliver side) (.deliver side)
  | read (side : Side) : Corresponds (.read side) (.read side)
  | carry (side : Side) (lane : RemoteLane) {direct fallback : Bytes} :
    Alike direct fallback → Corresponds (.carry side lane direct) (.carry side lane fallback)

namespace Link.Mirrors

variable {d f : Link}

theorem endpoint (h : Mirrors d f) (side : Side) : (d.endpoint side).Mirrors (f.endpoint side) := by
  cases side with
  | near => exact h.near
  | far => exact h.far

theorem set (h : Mirrors d f) (side : Side) {e e' : RemoteLaneEndpoint} (he : e.Mirrors e') :
    Mirrors (d.set side e) (f.set side e') := by
  cases side with
  | near => exact ⟨he, h.far⟩
  | far => exact ⟨h.near, he⟩

theorem step (h : Mirrors d f) {op op' : LaneOp} (hop : op.Corresponds op') :
    (d.step op).1 = (f.step op').1 ∧ Mirrors (d.step op).2 (f.step op').2 := by
  cases hop with
  | write side lane fragment =>
    obtain ⟨hresult, hrest⟩ := (h.endpoint side).writeFragment lane fragment
    exact ⟨congrArg LaneResult.written hresult, h.set side hrest⟩
  | setWritable side lane writable =>
    exact ⟨rfl, h.set side ((h.endpoint side).setWritable lane writable)⟩
  | setPeerSeenThrough side watermark watermark' =>
    exact ⟨rfl, h.set side ((h.endpoint side).setPeerSeenThrough watermark watermark')⟩
  | deliver side =>
    cases side with
    | near =>
      obtain ⟨hresult, hself, hpeer⟩ := h.near.deliverTo h.far
      exact ⟨congrArg LaneResult.delivered hresult, hself, hpeer⟩
    | far =>
      obtain ⟨hresult, hself, hpeer⟩ := h.far.deliverTo h.near
      exact ⟨congrArg LaneResult.delivered hresult, hpeer, hself⟩
  | read side =>
    obtain ⟨hresult, hrest⟩ := (h.endpoint side).readFragment
    exact ⟨congrArg LaneResult.fragment hresult, h.set side hrest⟩
  | carry side lane halike => exact ⟨rfl, h.set side ((h.endpoint side).push lane halike)⟩

theorem run (h : Mirrors d f) {script script' : List LaneOp}
    (hscript : List.Forall₂ LaneOp.Corresponds script script') : d.run script = f.run script' := by
  induction hscript generalizing d f with
  | nil => rfl
  | cons hop _ ih =>
    obtain ⟨hresult, hrest⟩ := h.step hop
    rw [Link.run, Link.run, hresult, ih hrest]

end Link.Mirrors

/-- Corresponding scripts give an application the same fragments and the same errors on both
carriers, call by call. -/
theorem carriers_indistinguishable {script script' : List LaneOp}
    (h : List.Forall₂ LaneOp.Corresponds script script') :
    (Link.new .webRtcDataChannel).run script = (Link.new .webSocketFallback).run script' :=
  Link.mirrors_new.run h

/-- A malformed record with a watermark in front of it on the fallback. -/
theorem carriers_indistinguishable_malformed : (Link.new .webRtcDataChannel).run
        [.carry .near .bulk [7, 7], .deliver .near, .read .far] =
      (Link.new .webSocketFallback).run
        [.carry .near .bulk (List.replicate 8 9 ++ [7, 7]), .deliver .near, .read .far] :=
  carriers_indistinguishable
    (.cons (.carry .near .bulk ⟨by decide, .inl rfl⟩) (.cons (.deliver .near)
      (.cons (.read .far) .nil)))

/-! ## Records cut to one length -/

/-- What a reader says about the record of a fragment, cut after some bytes. -/
def readTruncated (kind : RemoteCarrierKind) (fragment : RemoteCarrierFragmentV1) (length : Nat) :
    Except RemoteTransportError (Option RemoteCarrierFragmentV1) :=
  match (RemoteLaneEndpoint.new kind).encodeRecord fragment with
  | .error e => .error e
  | .ok record => ((RemoteLaneEndpoint.new kind).push fragment.lane (record.take length)).readFragment.1

def oneByteFragment : RemoteCarrierFragmentV1 where
  lane := .control
  flags := .ended
  frameId := ⟨.fill 16 1, isZero_fill_one⟩
  fragmentIndex := 0
  fragmentCount := 1
  bytes := [5]

/-- Cut to 26 bytes, the record of one and the same fragment fails for different reasons. -/
theorem truncated_record_told_apart : readTruncated .webRtcDataChannel oneByteFragment 26 =
        .error (.withLane .fragmentLengthMismatch .control) ∧
      readTruncated .webSocketFallback oneByteFragment 26 = .error (.new .headerTooShort) :=
  ⟨rfl, rfl⟩

end FlyCockpit.Transport
