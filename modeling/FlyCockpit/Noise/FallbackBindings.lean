-- SUMMARY: The exported fallback functions: through them a sender never gets its window back.
import FlyCockpit.Noise.FallbackDelivery

/-!
# Exported fallback functions

Foreign callers reach the windows through handles. The exported functions insert records, pass on
acknowledgements and ask for retransmissions, but none of them releases a watermark: what was cached
once stays in the cache for as long as the handle lives.
-/

namespace FlyCockpit.Noise

inductive NoiseBindingError
  | invalidInput
  | invalidState
  | authenticationFailed
  | closed
  | internal
  deriving DecidableEq, Repr

def NoiseBindingError.ofNoise : NoiseError → NoiseBindingError
  | .authenticationFailed | .lowOrderKey => .authenticationFailed
  | .closed => .closed
  | .invalidPrologue | .invalidHandshakeFrame | .invalidRecord | .recordTooLarge => .invalidInput
  | _ => .invalidState

structure FallbackBindingState where
  receive : FallbackReceiveWindow
  send : FallbackSendWindow

/-- The fallback states behind the handles that were given out. -/
structure FallbackHandles where
  nextHandle : UInt64
  states : Table UInt64 FallbackBindingState

/-! ## Answers on the wire -/

/-- `append_byte_list`: the number of values, and every value behind its length. -/
def byteList (values : List Bytes) : Bytes :=
  Bytes.toBe 2 values.length ++ values.flatMap fun value => Bytes.toBe 4 value.length ++ value

def encodeByteList (values : List Bytes) : Except NoiseBindingError Bytes :=
  if wordSize 16 ≤ values.length ∨ ∃ value ∈ values, wordSize 32 ≤ value.length then
    .error .internal
  else .ok (byteList values)

def encodeContiguousObservation (records : List Bytes) (acknowledge : CumulativeAckV1) :
    Except NoiseBindingError Bytes :=
  (encodeByteList records).map fun list =>
    if 1 < records.length then 2 :: 1 :: acknowledge.encode ++ list else 2 :: 0 :: list

/-- The answer to a record, with the acknowledgement of the window after it. -/
def encodeObservation (ack : CumulativeAckV1) : ReceiveDisposition → Except NoiseBindingError Bytes
  | .buffered => .ok (0 :: ack.encode)
  | .duplicate acknowledge => .ok (1 :: acknowledge.encode)
  | .contiguous records => encodeContiguousObservation records ack

namespace FallbackHandles

variable {α : Type}

/-- A call on the state behind a handle. -/
def withState (h : FallbackHandles) (handle : UInt64)
    (f : FallbackBindingState → Except NoiseBindingError α × FallbackBindingState) :
    Except NoiseBindingError α × FallbackHandles :=
  match h.states.lookup handle with
  | none => (.error .closed, h)
  | some state => ((f state).1, { h with states := h.states.insert handle (f state).2 })

def fallbackCreate (h : FallbackHandles) (nowMillis : Nat) :
    Except NoiseBindingError UInt64 × FallbackHandles :=
  let handle := h.nextHandle
  let h := { h with nextHandle := handle + 1 }
  if handle = 0 then (.error .internal, h)
  else (.ok handle, { h with states := h.states.insert handle ⟨.new nowMillis, .new⟩ })

def fallbackObserve (sha256 : Bytes → Block 32) (h : FallbackHandles) (handle : UInt64)
    (outerRecord : Bytes) : Except NoiseBindingError Bytes × FallbackHandles :=
  h.withState handle fun state =>
    let (answer, receive) := state.receive.observe sha256 outerRecord
    ((answer.mapError .ofNoise).bind (encodeObservation receive.ack), { state with receive })

def fallbackAckDue (h : FallbackHandles) (handle : UInt64) (nowMillis : Nat)
    (immediate receivedAckOnly : Bool) : Except NoiseBindingError Bytes × FallbackHandles :=
  h.withState handle fun state =>
    let (ack, receive) := state.receive.ackDue nowMillis immediate receivedAckOnly
    (.ok ((ack.map (·.encode)).getD []), { state with receive })

def fallbackCacheOutgoing (sha256 : Bytes → Block 32) (h : FallbackHandles) (handle : UInt64)
    (sequence : Nat) (ciphertext : Bytes) (kind : UInt8) :
    Except NoiseBindingError Unit × FallbackHandles :=
  match RecordKind.tryFrom kind with
  | .error e => (.error (.ofNoise e), h)
  | .ok kind => h.withState handle fun state =>
    let (answer, send) := state.send.insert sha256 sequence ciphertext (kind ≠ .ack)
    (answer.mapError .ofNoise, { state with send })

def fallbackAcknowledge (h : FallbackHandles) (handle : UInt64) (largestContiguous : Nat) :
    Except NoiseBindingError Unit × FallbackHandles :=
  h.withState handle fun state =>
    let (answer, send) := state.send.acknowledge largestContiguous
    (answer.mapError .ofNoise, { state with send })

def fallbackRetryDue (h : FallbackHandles) (handle : UInt64) (elapsedMillis : Nat) :
    Except NoiseBindingError Bytes × FallbackHandles :=
  h.withState handle fun state =>
    let (answer, send) := state.send.retryDue elapsedMillis
    ((answer.mapError .ofNoise).bind encodeByteList, { state with send })

def fallbackClose (h : FallbackHandles) (handle : UInt64) : FallbackHandles :=
  { h with states := h.states.erase handle }

end FallbackHandles

/-! ## Runs of exported calls -/

structure FallbackBindings where
  handles : FallbackHandles
  /-- The records that were cached under a handle since it was created. -/
  cached : UInt64 → List Bytes

/-- The exported calls that change something; `fallback_gap_retransmit` only reads. -/
inductive FallbackBindingCall
  | create (nowMillis : Nat)
  /-- Another kind of handle is created; the handles are counted together. -/
  | createOther
  | observe (handle : UInt64) (outerRecord : Bytes)
  | ackDue (handle : UInt64) (nowMillis : Nat) (immediate receivedAckOnly : Bool)
  | cacheOutgoing (handle : UInt64) (sequence : Nat) (ciphertext : Bytes) (kind : UInt8)
  | acknowledge (handle : UInt64) (largestContiguous : Nat)
  | retryDue (handle : UInt64) (elapsedMillis : Nat)
  | close (handle : UInt64)

namespace FallbackBindings

def new : FallbackBindings where
  handles := { nextHandle := 1, states := ∅ }
  cached _ := []

variable (sha256 : Bytes → Block 32)

def create (b : FallbackBindings) (nowMillis : Nat) : FallbackBindings :=
  match b.handles.fallbackCreate nowMillis with
  | (.ok handle, handles) => { handles, cached := Function.update b.cached handle [] }
  | (.error _, handles) => { b with handles }

def cacheOutgoing (b : FallbackBindings) (handle : UInt64) (sequence : Nat) (ciphertext : Bytes)
    (kind : UInt8) : FallbackBindings :=
  match b.handles.fallbackCacheOutgoing sha256 handle sequence ciphertext kind with
  | (.ok (), handles) =>
    { handles, cached := Function.update b.cached handle (b.cached handle ++ [ciphertext]) }
  | (.error _, handles) => { b with handles }

def call (b : FallbackBindings) : FallbackBindingCall → FallbackBindings
  | .create now => b.create now
  | .createOther =>
    { b with handles := { b.handles with nextHandle := b.handles.nextHandle + 1 } }
  | .observe handle outerRecord =>
    { b with handles := (b.handles.fallbackObserve sha256 handle outerRecord).2 }
  | .ackDue handle now immediate receivedAckOnly =>
    { b with handles := (b.handles.fallbackAckDue handle now immediate receivedAckOnly).2 }
  | .cacheOutgoing handle sequence ciphertext kind =>
    b.cacheOutgoing sha256 handle sequence ciphertext kind
  | .acknowledge handle largest =>
    { b with handles := (b.handles.fallbackAcknowledge handle largest).2 }
  | .retryDue handle elapsed =>
    { b with handles := (b.handles.fallbackRetryDue handle elapsed).2 }
  | .close handle => { b with handles := b.handles.fallbackClose handle }

def system : Lts FallbackBindings FallbackBindingCall :=
  .ofCall (· = new) fun b c => some (b.call sha256 c)

end FallbackBindings

/-! ## Nothing leaves the cache -/

namespace FallbackSendWindow

variable {sent : List Bytes} {w : FallbackSendWindow}

variable (sent) in
/-- The window caches every record it ever took. -/
structure Retains (w : FallbackSendWindow) : Prop where
  caches : w.Caches sent
  seen : w.peerSeenThrough = ackNone
  bytes : w.bytes = (sent.map outerCost).sum

theorem Retains.size (h : w.Retains sent) : w.records.size = sent.length := by
  have hfirst : w.firstKept = 0 := if_pos h.seen
  rw [Table.size_eq_card, h.caches.keys, hfirst, Nat.card_Ico, Nat.sub_zero]

theorem retains_new : Retains [] new := ⟨caches_new, rfl, rfl⟩

theorem Retains.acknowledge (h : w.Retains sent) (largestContiguous : Nat) :
    (w.acknowledge largestContiguous).2.Retains sent := by
  have hsame := sameCache_acknowledge w largestContiguous
  exact ⟨h.caches.acknowledge largestContiguous, hsame.seen.trans h.seen, hsame.bytes.trans h.bytes⟩

theorem Retains.retryDue (h : w.Retains sent) (elapsedMillis : Nat) :
    (w.retryDue elapsedMillis).2.Retains sent := by
  obtain ⟨hsame, -, -⟩ := retryRecords_spec elapsedMillis w.records.ascending w []
    (List.forall_mem_nil _)
  exact ⟨h.caches.retryDue elapsedMillis, hsame.seen.trans h.seen, hsame.bytes.trans h.bytes⟩

/-- A record is refused and nothing changes, or it is one more record in the cache. -/
theorem Retains.insert_cases (sha256 : Bytes → Block 32) (h : w.Retains sent) (sequence : Nat)
    (ciphertext : Bytes) (deliveryTracked : Bool) :
    (∃ e, w.insert sha256 sequence ciphertext deliveryTracked = (.error e, w)) ∨
    ∃ w', w.insert sha256 sequence ciphertext deliveryTracked = (.ok (), w') ∧
      w'.Retains (sent ++ [ciphertext]) := by
  obtain herror | ⟨w', hinsert, -, hcaches, hbytes, hseen, -⟩ :=
    h.caches.insert_cases sha256 sequence ciphertext deliveryTracked
  · exact .inl herror
  · refine .inr ⟨w', hinsert, hcaches, hseen.trans h.seen, ?_⟩
    rw [hbytes, h.bytes, List.map_append, List.sum_append, List.map_singleton, List.sum_singleton]

/-- A valid record with the next sequence number is taken exactly when the window has room. -/
theorem Caches.insert_isOk_iff (sha256 : Bytes → Block 32) (h : w.Caches sent) {ciphertext : Bytes}
    (houter : IsOuter w.nextSequence ciphertext) (deliveryTracked : Bool) :
    (w.insert sha256 w.nextSequence ciphertext deliveryTracked).1 = .ok () ↔
      w.records.size < fallbackWindowRecords ∧
        w.bytes + outerCost ciphertext ≤ fallbackWindowBytes := by
  have hnext := houter.checkedAdd
  have hfresh : (w.records.lookup w.nextSequence).isSome = false := by
    rw [Option.isSome_eq_false_iff, Option.isNone_iff_eq_none, ← Option.not_isSome_iff_eq_none,
      Option.isSome_iff_exists, ← Table.mem_keySet, h.keys, Finset.mem_Ico, h.next]
    omega
  obtain ⟨header, hvalid, hsequence⟩ := houter
  unfold insert
  rw [hvalid]
  dsimp only
  rw [if_neg (not_not_intro hsequence), ciphertextLen_eq hvalid, hfresh, hnext]
  simp only [ne_eq, not_true_eq_false, Bool.false_eq_true, false_or]
  split
  · simp only [reduceCtorEq, false_iff]
    omega
  · simp only [true_iff]
    omega

end FallbackSendWindow

namespace FallbackBindings

variable {sha256 : Bytes → Block 32} {b : FallbackBindings}

/-- Behind every handle the send window caches all that was cached through the handle. -/
def Retaining (b : FallbackBindings) : Prop :=
  ∀ handle state, b.handles.states.lookup handle = some state → state.send.Retains (b.cached handle)

/-- A call on one state that leaves the send window retaining. -/
theorem Retaining.withState {α : Type} (h : b.Retaining) (handle : UInt64)
    (f : FallbackBindingState → Except NoiseBindingError α × FallbackBindingState)
    (hf : ∀ state, state.send.Retains (b.cached handle) →
      (f state).2.send.Retains (b.cached handle)) :
    Retaining { b with handles := (b.handles.withState handle f).2 } := by
  unfold FallbackHandles.withState
  cases hstate : b.handles.states.lookup handle with
  | none => exact h
  | some state =>
    intro other state' hother
    dsimp only at hother ⊢
    rw [Table.lookup_insert_eq] at hother
    split_ifs at hother with heq
    · cases hother
      subst heq
      exact hf state (h other state hstate)
    · exact h other state' hother

theorem Retaining.create (h : b.Retaining) (nowMillis : Nat) : (b.create nowMillis).Retaining := by
  unfold FallbackBindings.create FallbackHandles.fallbackCreate
  dsimp only
  by_cases hzero : b.handles.nextHandle = 0
  · rw [if_pos hzero]
    exact h
  · rw [if_neg hzero]
    intro other state hother
    dsimp only at hother ⊢
    rw [Table.lookup_insert_eq] at hother
    split_ifs at hother with heq
    · cases hother
      rw [heq, Function.update_self]
      exact FallbackSendWindow.retains_new
    · rw [Function.update_of_ne heq]
      exact h other state hother

theorem Retaining.cacheOutgoing (h : b.Retaining) (handle : UInt64) (sequence : Nat)
    (ciphertext : Bytes) (kind : UInt8) :
    (b.cacheOutgoing sha256 handle sequence ciphertext kind).Retaining := by
  unfold FallbackBindings.cacheOutgoing FallbackHandles.fallbackCacheOutgoing
  cases RecordKind.tryFrom kind with
  | error e => exact h
  | ok kind =>
    unfold FallbackHandles.withState
    dsimp only
    cases hstate : b.handles.states.lookup handle with
    | none => exact h
    | some state =>
      dsimp only
      obtain ⟨e, hinsert⟩ | ⟨send, hinsert, hretains⟩ :=
        (h handle state hstate).insert_cases sha256 sequence ciphertext (kind ≠ .ack)
      · rw [hinsert]
        intro other state' hother
        dsimp only [Except.mapError] at hother ⊢
        rw [Table.lookup_insert_eq] at hother
        split_ifs at hother with heq
        · cases hother
          subst heq
          exact h other state hstate
        · exact h other state' hother
      · rw [hinsert]
        intro other state' hother
        dsimp only [Except.mapError] at hother ⊢
        rw [Table.lookup_insert_eq] at hother
        split_ifs at hother with heq
        · cases hother
          rw [heq, Function.update_self]
          exact hretains
        · rw [Function.update_of_ne heq]
          exact h other state' hother

theorem Retaining.call (h : b.Retaining) (c : FallbackBindingCall) : (b.call sha256 c).Retaining := by
  cases c with
  | create now => exact h.create now
  | createOther => exact h
  | observe handle outerRecord => exact h.withState handle _ fun _ hstate => hstate
  | ackDue handle now immediate receivedAckOnly => exact h.withState handle _ fun _ hstate => hstate
  | cacheOutgoing handle sequence ciphertext kind =>
    exact h.cacheOutgoing handle sequence ciphertext kind
  | acknowledge handle largest =>
    exact h.withState handle _ fun _ hstate => hstate.acknowledge largest
  | retryDue handle elapsed => exact h.withState handle _ fun _ hstate => hstate.retryDue elapsed
  | close handle =>
    intro other state hother
    change (b.handles.states.erase handle).lookup other = some state at hother
    rw [Table.lookup_erase_eq] at hother
    split_ifs at hother
    exact h other state hother

theorem reachable_retaining (h : (system sha256).Reachable b) : b.Retaining := by
  induction h with
  | init h0 =>
    cases h0
    intro handle state hstate
    rw [new, AList.lookup_empty] at hstate
    cases hstate
  | step _ _ hcall ih =>
    cases hcall
    exact ih.call _

/-- In every run of the exported functions the next record is taken exactly when, over the whole
life of the handle, fewer than 64 records were cached and its bytes still fit. What the peer has
acknowledged makes no difference. -/
theorem cacheOutgoing_isOk_iff (h : (system sha256).Reachable b) {handle : UInt64}
    {state : FallbackBindingState} (hstate : b.handles.states.lookup handle = some state)
    {ciphertext : Bytes} (houter : IsOuter state.send.nextSequence ciphertext) {kind : UInt8}
    {recordKind : RecordKind} (hkind : RecordKind.tryFrom kind = .ok recordKind) :
    (b.handles.fallbackCacheOutgoing sha256 handle state.send.nextSequence ciphertext kind).1 =
        .ok () ↔
      (b.cached handle).length < fallbackWindowRecords ∧
        ((b.cached handle).map outerCost).sum + outerCost ciphertext ≤ fallbackWindowBytes := by
  have hretains := reachable_retaining h handle state hstate
  rw [← hretains.size, ← hretains.bytes,
    ← hretains.caches.insert_isOk_iff sha256 houter (recordKind ≠ .ack)]
  unfold FallbackHandles.fallbackCacheOutgoing FallbackHandles.withState
  rw [hkind, hstate]
  dsimp only
  cases (state.send.insert sha256 state.send.nextSequence ciphertext
    (decide (recordKind ≠ .ack))).1 with
  | error e => exact iff_of_false nofun nofun
  | ok u => exact iff_of_true rfl rfl

open FallbackExchange (sample blankDigest isOuter_sample)

/-- Data records are cached under a fresh handle, and the peer acknowledges all of them. -/
def filling : List FallbackBindingCall :=
  .create 0 :: (List.range 64).map (fun k => .cacheOutgoing 1 k (sample k) 1) ++ [.acknowledge 1 63]

def afterFilling : FallbackBindings := filling.foldl (call blankDigest) new

theorem reachable_foldl (calls : List FallbackBindingCall) (h : (system sha256).Reachable b) :
    (system sha256).Reachable (calls.foldl (call sha256) b) := by
  induction calls generalizing b with
  | nil => exact h
  | cons c calls ih => exact ih (h.step (a := c) rfl)

theorem reachable_afterFilling : (system blankDigest).Reachable afterFilling :=
  reachable_foldl filling (.init rfl)

theorem lookup_afterFilling : ∃ state, afterFilling.handles.states.lookup 1 = some state ∧
    state.send.nextSequence = 64 ∧ state.send.deliveryAck = 63 ∧
    (state.send.insert blankDigest 64 (sample 64) true).1 = .error .fallbackWindowExceeded := by
  have hrun : (afterFilling.handles.states.lookup 1).map (fun state =>
      (state.send.nextSequence, state.send.deliveryAck,
        (state.send.insert blankDigest 64 (sample 64) true).1)) =
      some (64, 63, .error .fallbackWindowExceeded) := by
    decide +kernel
  obtain ⟨state, hlookup, hrest⟩ := Option.map_eq_some_iff.1 hrun
  obtain ⟨hnext, hrest⟩ := Prod.mk.inj hrest
  obtain ⟨hack, hanswer⟩ := Prod.mk.inj hrest
  exact ⟨state, hlookup, hnext, hack, hanswer⟩

theorem cacheOutgoing_isOk_iff_afterFilling : ∃ state,
    afterFilling.handles.states.lookup 1 = some state ∧
      ((afterFilling.handles.fallbackCacheOutgoing blankDigest 1 state.send.nextSequence
          (sample 64) 1).1 = .ok () ↔
        (afterFilling.cached 1).length < fallbackWindowRecords ∧
          ((afterFilling.cached 1).map outerCost).sum + outerCost (sample 64) ≤
            fallbackWindowBytes) := by
  obtain ⟨state, hlookup, hnext, -, -⟩ := lookup_afterFilling
  have houter : IsOuter state.send.nextSequence (sample 64) := by
    rw [hnext]
    exact isOuter_sample (by decide)
  exact ⟨state, hlookup, cacheOutgoing_isOk_iff reachable_afterFilling hlookup houter rfl⟩

/-- After 64 records that are all acknowledged the next one is refused. -/
theorem acknowledged_window_stays_full : (system blankDigest).Reachable afterFilling ∧
      (∃ state, afterFilling.handles.states.lookup 1 = some state ∧
        state.send.nextSequence = 64 ∧ state.send.deliveryAck = 63) ∧
      IsOuter 64 (sample 64) ∧
      (afterFilling.handles.fallbackCacheOutgoing blankDigest 1 64 (sample 64) 1).1 =
        .error .invalidState := by
  obtain ⟨state, hlookup, hnext, hack, hanswer⟩ := lookup_afterFilling
  refine ⟨reachable_afterFilling, ⟨state, hlookup, hnext, hack⟩, isOuter_sample (by decide), ?_⟩
  have hkind : RecordKind.tryFrom 1 = .ok .data := rfl
  rw [FallbackHandles.fallbackCacheOutgoing, hkind]
  dsimp only
  rw [FallbackHandles.withState, hlookup]
  have hdata : decide (RecordKind.data ≠ RecordKind.ack) = true := rfl
  dsimp only
  rw [hdata, hanswer]
  rfl

end FallbackBindings

end FlyCockpit.Noise
