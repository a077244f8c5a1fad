-- SUMMARY: The accounting of a bulk transfer, its terminal states, and when its chunk index wraps.
import FlyCockpit.Lib.Transition
import FlyCockpit.Transport.Bulk

/-!
# Runs of a bulk transfer

A transfer is the receiver's state together with the chunks it accepted. Whatever is called in
whatever order, the byte counts, the limits and the terminal states hold. The chunk index is a
32-bit counter that nothing bounds: empty chunks cost no bytes, so it can be driven around.
-/

namespace FlyCockpit.Transport

open UInt64 List Fallible

inductive BulkCall
  | acceptChunk (chunk : RemoteBulkChunk)
  | acknowledge (bytes : UInt64)
  | complete (message : RemoteBulkComplete)
  | abort (message : RemoteBulkAbort)

def BulkCall.run (sha256 : Bytes → Block 32) : BulkCall → RemoteBulkTransferState.Step
  | .acceptChunk chunk => RemoteBulkTransferState.acceptChunk chunk
  | .acknowledge bytes => RemoteBulkTransferState.acknowledge bytes
  | .complete message => RemoteBulkTransferState.complete sha256 message
  | .abort message => RemoteBulkTransferState.abort message

namespace RemoteBulkTransferState

/-! ## What one call can do -/

/-- The chunk passes the checks of `acceptChunk`. -/
structure Fits (s : RemoteBulkTransferState) (chunk : RemoteBulkChunk) : Prop where
  active : s.status = .active
  transfer : chunk.transferId = s.transferId
  short : chunk.bytes.length ≤ maxBulkChunkPayloadBytes
  index : chunk.chunkIndex = s.nextChunkIndex
  offset : chunk.offset = s.received
  sum : s.received.toNat + (ofNat chunk.bytes.length).toNat < size
  classLimit : s.received + ofNat chunk.bytes.length ≤ s.maxTotalLength
  limit : s.received + ofNat chunk.bytes.length ≤ maxTransferBytes
  declared : ∀ total ∈ s.declaredTotal, s.received + ofNat chunk.bytes.length ≤ total
  window : s.unacknowledged + ofNat chunk.bytes.length ≤ s.windowLimit

def advance (s : RemoteBulkTransferState) (chunk : RemoteBulkChunk) : RemoteBulkTransferState :=
  { s with
    hasher := s.hasher ++ chunk.bytes
    received := s.received + ofNat chunk.bytes.length
    unacknowledged := s.unacknowledged + ofNat chunk.bytes.length
    nextChunkIndex := s.nextChunkIndex + 1 }

/-- The message passes the checks of `complete`. -/
structure Ends (sha256 : Bytes → Block 32) (s : RemoteBulkTransferState)
    (message : RemoteBulkComplete) : Prop where
  active : s.status = .active
  transfer : message.transferId = s.transferId
  length : message.finalLength = s.received
  declared : ∀ declared ∈ s.declaredTotal, declared = message.finalLength
  digest : sha256 s.hasher = message.sha256
  expected : ∀ expected ∈ s.expectedSha256, expected = message.sha256

def closed (s : RemoteBulkTransferState) (status : RemoteBulkStatus) : RemoteBulkTransferState :=
  { s with status, unacknowledged := 0 }

section Calls

variable (s : RemoteBulkTransferState)

theorem run_ensureActive :
    s.status = .active ∧ ensureActive.run s = .ok () s ∨
      s.status ≠ .active ∧ ∃ e, ensureActive.run s = .error e s := by
  unfold ensureActive
  rw [run_get_bind]
  cases s.status with
  | active => exact .inl ⟨rfl, rfl⟩
  | completed => exact .inr ⟨by decide, _, rfl⟩
  | aborted => exact .inr ⟨by decide, _, rfl⟩

theorem run_acceptChunk (chunk : RemoteBulkChunk) :
    s.Fits chunk ∧ (acceptChunk chunk).run s = .ok () (s.advance chunk) ∨
      ¬s.Fits chunk ∧ ∃ e, (acceptChunk chunk).run s = .error e s := by
  unfold acceptChunk
  obtain ⟨hactive, hrun⟩ | ⟨hactive, e, hrun⟩ := s.run_ensureActive
  · rw [run_bind_of_ok hrun]
    unfold ensureSameTransfer
    simp only [bind_assoc, run_get_bind, run_ensure_bind]
    by_cases hsum : s.received.toNat + (ofNat chunk.bytes.length).toNat < size
    · simp only [UInt64.checkedAdd, if_pos hsum, run_okOr_some_bind, run_ensure_bind]
      split_ifs with hid hshort hindex hoffset hclass hlimit hdeclared hwindow
      · exact .inl ⟨⟨hactive, hid, hshort, hindex, hoffset, hsum, hclass, hlimit, hdeclared,
          hwindow⟩, rfl⟩
      · exact .inr ⟨fun h => hwindow h.window, _, rfl⟩
      · exact .inr ⟨fun h => hdeclared h.declared, _, rfl⟩
      · exact .inr ⟨fun h => hlimit h.limit, _, rfl⟩
      · exact .inr ⟨fun h => hclass h.classLimit, _, rfl⟩
      · exact .inr ⟨fun h => hoffset h.offset, _, rfl⟩
      · exact .inr ⟨fun h => hindex h.index, _, rfl⟩
      · exact .inr ⟨fun h => hshort h.short, _, rfl⟩
      · exact .inr ⟨fun h => hid h.transfer, _, rfl⟩
    · simp only [UInt64.checkedAdd, if_neg hsum]
      split_ifs <;> exact .inr ⟨fun h => hsum h.sum, _, rfl⟩
  · rw [run_bind_of_error hrun]
    exact .inr ⟨fun h => hactive h.active, e, rfl⟩

theorem run_complete (sha256 : Bytes → Block 32) (message : RemoteBulkComplete) :
    s.Ends sha256 message ∧
        (RemoteBulkTransferState.complete sha256 message).run s = .ok () (s.closed .completed) ∨
      ∃ e, (RemoteBulkTransferState.complete sha256 message).run s = .error e s := by
  unfold RemoteBulkTransferState.complete
  obtain ⟨hactive, hrun⟩ | ⟨-, e, hrun⟩ := s.run_ensureActive
  · rw [run_bind_of_ok hrun]
    unfold ensureSameTransfer
    simp only [bind_assoc, run_get_bind, run_ensure_bind]
    split_ifs with hid hlength hdeclared hdigest hexpected
    · exact .inl ⟨⟨hactive, hid, hlength, hdeclared, hdigest, hexpected⟩, rfl⟩
    all_goals exact .inr ⟨_, rfl⟩
  · rw [run_bind_of_error hrun]
    exact .inr ⟨e, rfl⟩

theorem run_abort (message : RemoteBulkAbort) :
    s.status = .active ∧ (abort message).run s = .ok () (s.closed .aborted) ∨
      s.status ≠ .active ∧ (abort message).run s = .ok () s ∨
      ∃ e, (abort message).run s = .error e s := by
  unfold abort ensureSameTransfer
  simp only [bind_assoc, run_get_bind, run_ensure_bind]
  split
  next =>
    cases hstatus : s.status with
    | active => exact .inl ⟨rfl, rfl⟩
    | completed => exact .inr (.inr ⟨_, rfl⟩)
    | aborted => exact .inr (.inl ⟨by decide, rfl⟩)
  next => exact .inr (.inr ⟨_, rfl⟩)

end Calls

end RemoteBulkTransferState

/-! ## Runs -/

/-- A transfer with the message that announced it and the chunks that were accepted so far. -/
structure Transfer where
  begin : RemoteBulkBegin
  state : RemoteBulkTransferState
  accepted : List RemoteBulkChunk

namespace Transfer

open RemoteBulkTransferState

variable (sha256 : Bytes → Block 32) {t : Transfer}

/-- The transfer after a call; a chunk counts as accepted when its call succeeds. -/
def call (t : Transfer) (c : BulkCall) : Transfer where
  begin := t.begin
  state := finalState ((c.run sha256).run t.state)
  accepted :=
    match c, (c.run sha256).run t.state with
    | .acceptChunk chunk, .ok _ _ => t.accepted ++ [chunk]
    | _, _ => t.accepted

def system : Lts Transfer BulkCall where
  init t := RemoteBulkTransferState.begin t.begin = .ok t.state ∧ t.accepted = []
  step t c t' := t' = t.call sha256 c

/-- The total length of the accepted chunks. -/
def length (t : Transfer) : Nat := (t.accepted.map fun chunk => chunk.bytes.length).sum

/-- The accepted chunks put together. -/
def content (t : Transfer) : Bytes := t.accepted.flatMap fun chunk => chunk.bytes

/-- The counters agree with the accepted chunks and stay within the limits. -/
structure Accounted (t : Transfer) : Prop where
  valid : t.begin.validate = .ok ()
  declaredTotal : t.state.declaredTotal = t.begin.totalLength
  expectedSha256 : t.state.expectedSha256 = t.begin.expectedSha256
  maxTotalLength : t.state.maxTotalLength = t.begin.maxTotalLength
  windowLimit : t.state.windowLimit = maxReceiverWindowBytes
  received : t.state.received.toNat = t.length
  hashed : t.state.hasher = t.content
  declared : ∀ total ∈ t.begin.totalLength, t.state.received ≤ total
  classLimit : t.state.received ≤ t.begin.mimeClass.classLimitBytes
  limit : t.state.received ≤ maxTransferBytes
  window : t.state.unacknowledged ≤ maxReceiverWindowBytes
  drained : t.state.status ≠ .active → t.state.unacknowledged = 0

/-- What the next call can and cannot do. -/
structure Guarded (t : Transfer) : Prop where
  unchanged : ∀ (c : BulkCall) e s', (c.run sha256).run t.state = .error e s' → s' = t.state
  absorbing : t.state.status ≠ .active → ∀ c, (t.call sha256 c).state = t.state
  completion : t.state.status ≠ .completed → ∀ c, (t.call sha256 c).state.status = .completed →
    ∃ message, c = .complete message ∧ message.finalLength.toNat = t.length ∧
      message.sha256 = sha256 t.content ∧
      (∀ total ∈ t.begin.totalLength, message.finalLength = total) ∧
      ∀ digest ∈ t.begin.expectedSha256, message.sha256 = digest

/-- The accepted chunks are numbered from zero. -/
def Numbered (t : Transfer) : Prop :=
  (t.accepted.map fun chunk => chunk.chunkIndex.toNat) = List.range t.accepted.length

/-! ## One call -/

/-- A call accepts a chunk that fits, acknowledges, ends the transfer, or changes nothing. -/
theorem call_cases (t : Transfer) (c : BulkCall) :
    (∃ chunk, c = .acceptChunk chunk ∧ t.state.Fits chunk ∧
      t.call sha256 c = ⟨t.begin, t.state.advance chunk, t.accepted ++ [chunk]⟩) ∨
    (∃ bytes, c = .acknowledge bytes ∧ t.call sha256 c =
      { t with state := { t.state with
          unacknowledged := t.state.unacknowledged.saturatingSub bytes } }) ∨
    (∃ message, c = .complete message ∧ t.state.Ends sha256 message ∧
      t.call sha256 c = { t with state := t.state.closed .completed }) ∨
    (∃ message, c = .abort message ∧ t.state.status = .active ∧
      t.call sha256 c = { t with state := t.state.closed .aborted }) ∨
    t.call sha256 c = t ∧ ∀ chunk, c = .acceptChunk chunk → ¬t.state.Fits chunk := by
  cases c with
  | acceptChunk chunk =>
    obtain ⟨hfits, hrun⟩ | ⟨hfits, e, hrun⟩ := t.state.run_acceptChunk chunk
    · exact .inl ⟨chunk, rfl, hfits, by simp only [call, BulkCall.run, hrun, finalState_ok]⟩
    · refine .inr (.inr (.inr (.inr ⟨by simp only [call, BulkCall.run, hrun, finalState_error], ?_⟩)))
      intro chunk' heq
      cases heq
      exact hfits
  | acknowledge bytes => exact .inr (.inl ⟨bytes, rfl, rfl⟩)
  | complete message =>
    obtain ⟨hends, hrun⟩ | ⟨e, hrun⟩ := t.state.run_complete sha256 message
    · exact .inr (.inr (.inl ⟨message, rfl, hends,
        by simp only [call, BulkCall.run, hrun, finalState_ok]⟩))
    · exact .inr (.inr (.inr (.inr ⟨by simp only [call, BulkCall.run, hrun, finalState_error],
        fun _ h => by cases h⟩)))
  | abort message =>
    obtain ⟨hactive, hrun⟩ | ⟨-, hrun⟩ | ⟨e, hrun⟩ := t.state.run_abort message
    · exact .inr (.inr (.inr (.inl ⟨message, rfl, hactive,
        by simp only [call, BulkCall.run, hrun, finalState_ok]⟩)))
    · exact .inr (.inr (.inr (.inr ⟨by simp only [call, BulkCall.run, hrun, finalState_ok],
        fun _ h => by cases h⟩)))
    · exact .inr (.inr (.inr (.inr ⟨by simp only [call, BulkCall.run, hrun, finalState_error],
        fun _ h => by cases h⟩)))

namespace Accounted

variable {t : Transfer} {chunk : RemoteBulkChunk}

theorem toNat_length (h : chunk.bytes.length ≤ maxBulkChunkPayloadBytes) :
    (ofNat chunk.bytes.length).toNat = chunk.bytes.length :=
  toNat_ofNat_of_lt' (Nat.lt_of_le_of_lt h (by decide))

theorem advance (h : t.Accounted) (hfits : t.state.Fits chunk) :
    Accounted ⟨t.begin, t.state.advance chunk, t.accepted ++ [chunk]⟩ where
  valid := h.valid
  declaredTotal := h.declaredTotal
  expectedSha256 := h.expectedSha256
  maxTotalLength := h.maxTotalLength
  windowLimit := h.windowLimit
  received := by
    have hreceived := h.received
    have hsum := hfits.sum
    have hlength := toNat_length hfits.short
    simp only [length, map_append, map_singleton, sum_append, sum_singleton,
      RemoteBulkTransferState.advance, UInt64.toNat_add] at hreceived ⊢
    rw [Nat.mod_eq_of_lt hsum, hreceived, hlength]
  hashed := by
    simp only [content, flatMap_append, flatMap_singleton, RemoteBulkTransferState.advance,
      h.hashed]
  declared := h.declaredTotal ▸ hfits.declared
  classLimit := by
    have hclass := hfits.classLimit
    rw [h.maxTotalLength, (RemoteBulkBegin.validate_eq_ok.1 h.valid).2.1] at hclass
    exact UInt64.le_trans hclass (t.begin.mimeClass.maxTotalLength_le).1
  limit := hfits.limit
  window := h.windowLimit ▸ hfits.window
  drained hstatus := absurd hfits.active hstatus

/-- Acknowledging and ending only take from the window. -/
theorem of_state (h : t.Accounted) {unacknowledged : UInt64} {status : RemoteBulkStatus}
    (hle : unacknowledged ≤ t.state.unacknowledged)
    (hdrained : status ≠ .active → unacknowledged = 0) :
    Accounted { t with state := { t.state with unacknowledged, status } } :=
  { h with
    window := UInt64.le_trans hle h.window
    drained := hdrained }

theorem saturatingSub_le (a b : UInt64) : a.saturatingSub b ≤ a := by
  unfold saturatingSub
  split
  next hle =>
    rw [UInt64.le_iff_toNat_le, UInt64.toNat_sub_of_le _ _ hle]
    exact Nat.sub_le _ _
  next => exact UInt64.zero_le

theorem call (h : t.Accounted) (c : BulkCall) : (t.call sha256 c).Accounted := by
  obtain ⟨chunk, -, hfits, heq⟩ | ⟨bytes, -, heq⟩ | ⟨message, -, -, heq⟩ | ⟨message, -, -, heq⟩ |
    ⟨heq, -⟩ := t.call_cases sha256 c
  · rw [heq]
    exact h.advance hfits
  · rw [heq]
    refine h.of_state (saturatingSub_le _ _) fun hstatus => ?_
    rw [h.drained hstatus]
    exact UInt64.le_antisymm (saturatingSub_le 0 bytes) UInt64.zero_le
  · rw [heq]
    exact h.of_state UInt64.zero_le fun _ => rfl
  · rw [heq]
    exact h.of_state UInt64.zero_le fun _ => rfl
  · rw [heq]
    exact h

theorem guarded (h : t.Accounted) : t.Guarded sha256 where
  unchanged := by
    intro c e s' hrun
    cases c with
    | acceptChunk chunk =>
      obtain ⟨-, hok⟩ | ⟨-, e', herror⟩ := t.state.run_acceptChunk chunk
      · cases hok.symm.trans hrun
      · cases herror.symm.trans hrun
        rfl
    | acknowledge bytes => cases hrun
    | complete message =>
      obtain ⟨-, hok⟩ | ⟨e', herror⟩ := t.state.run_complete sha256 message
      · cases hok.symm.trans hrun
      · cases herror.symm.trans hrun
        rfl
    | abort message =>
      obtain ⟨-, hok⟩ | ⟨-, hok⟩ | ⟨e', herror⟩ := t.state.run_abort message
      · cases hok.symm.trans hrun
      · cases hok.symm.trans hrun
      · cases herror.symm.trans hrun
        rfl
  absorbing := by
    intro hstatus c
    obtain ⟨chunk, -, hfits, -⟩ | ⟨bytes, -, heq⟩ | ⟨message, -, hends, -⟩ | ⟨message, -, hactive, -⟩ |
      ⟨heq, -⟩ := t.call_cases sha256 c
    · exact absurd hfits.active hstatus
    · have hzero : t.state.unacknowledged.saturatingSub bytes = t.state.unacknowledged := by
        rw [h.drained hstatus]
        exact UInt64.le_antisymm (saturatingSub_le 0 bytes) UInt64.zero_le
      rw [heq, hzero]
    · exact absurd hends.active hstatus
    · exact absurd hactive hstatus
    · rw [heq]
  completion := by
    intro hstatus c hcompleted
    obtain ⟨chunk, -, hfits, heq⟩ | ⟨bytes, -, heq⟩ | ⟨message, hc, hends, -⟩ | ⟨message, -, -, heq⟩ |
      ⟨heq, -⟩ := t.call_cases sha256 c
    · rw [heq] at hcompleted
      exact absurd hcompleted hstatus
    · rw [heq] at hcompleted
      exact absurd hcompleted hstatus
    · refine ⟨message, hc, ?_, ?_, ?_, ?_⟩
      · rw [hends.length, h.received]
      · rw [← hends.digest, h.hashed]
      · intro total htotal
        exact (hends.declared total (h.declaredTotal ▸ htotal)).symm
      · intro digest hdigest
        exact (hends.expected digest (h.expectedSha256 ▸ hdigest)).symm
    · rw [heq] at hcompleted
      cases hcompleted
    · rw [heq] at hcompleted
      exact absurd hcompleted hstatus

end Accounted

theorem accounted_init (h : (system sha256).init t) : t.Accounted := by
  obtain ⟨begin, state, accepted⟩ := t
  obtain ⟨hbegin, haccepted⟩ := h
  dsimp only at hbegin haccepted
  obtain ⟨hvalid, hstate⟩ := check_bind_eq_ok.1 hbegin
  cases hstate
  subst haccepted
  exact
    { valid := hvalid
      declaredTotal := rfl
      expectedSha256 := rfl
      maxTotalLength := rfl
      windowLimit := rfl
      received := rfl
      hashed := rfl
      declared := fun _ _ => UInt64.zero_le
      classLimit := UInt64.zero_le
      limit := UInt64.zero_le
      window := UInt64.zero_le
      drained := fun _ => rfl }

/-! ## The chunk index -/

/-- The index of the next chunk counts the accepted ones, up to 32 bits. -/
def Counted (t : Transfer) : Prop := t.state.nextChunkIndex = UInt32.ofNat t.accepted.length

theorem Counted.call (h : t.Counted) (c : BulkCall) : (t.call sha256 c).Counted := by
  obtain ⟨chunk, -, -, heq⟩ | ⟨bytes, -, heq⟩ | ⟨message, -, -, heq⟩ | ⟨message, -, -, heq⟩ |
    ⟨heq, -⟩ := t.call_cases sha256 c
  · rw [heq, Counted, length_append, length_singleton, UInt32.ofNat_add, ← h]
    rfl
  all_goals
    rw [heq]
    exact h

/-- A chunk that fits takes the next number as long as 32 bits can hold it. -/
theorem Numbered.advance_iff {chunk : RemoteBulkChunk} (h : t.Numbered) (hcounted : t.Counted)
    (hfits : t.state.Fits chunk) :
    Numbered ⟨t.begin, t.state.advance chunk, t.accepted ++ [chunk]⟩ ↔
      t.accepted.length < UInt32.size := by
  rw [Numbered, map_append, map_singleton, h, length_append, length_singleton,
    range_succ, append_cancel_left_eq, singleton_inj, hfits.index, hcounted,
    UInt32.toNat_ofNat']
  exact Nat.mod_eq_iff_lt (by decide)

theorem Numbered.call_iff (h : t.Numbered) (hcounted : t.Counted) (c : BulkCall) :
    (t.call sha256 c).Numbered ↔ ∀ chunk, c = .acceptChunk chunk → t.state.Fits chunk →
      t.accepted.length < UInt32.size := by
  obtain ⟨chunk, rfl, hfits, heq⟩ | ⟨bytes, rfl, heq⟩ | ⟨message, rfl, -, heq⟩ |
    ⟨message, rfl, -, heq⟩ | ⟨heq, hnone⟩ := t.call_cases sha256 c
  · rw [heq, h.advance_iff hcounted hfits]
    constructor
    · rintro hlt _ - -
      exact hlt
    · intro hall
      exact hall chunk rfl hfits
  · rw [heq]
    exact iff_of_true h fun _ hc => by cases hc
  · rw [heq]
    exact iff_of_true h fun _ hc => by cases hc
  · rw [heq]
    exact iff_of_true h fun _ hc => by cases hc
  · rw [heq]
    exact iff_of_true h fun chunk hc hfits => absurd hfits (hnone chunk hc)

theorem numbered_init (h : (system sha256).init t) : t.Numbered ∧ t.Counted := by
  obtain ⟨begin, state, accepted⟩ := t
  obtain ⟨hbegin, haccepted⟩ := h
  dsimp only at hbegin haccepted
  obtain ⟨-, hstate⟩ := check_bind_eq_ok.1 hbegin
  cases hstate
  subst haccepted
  exact ⟨rfl, rfl⟩

theorem reachable_accounted (h : (system sha256).Reachable t) : t.Accounted ∧ t.Counted := by
  refine h.invariant (I := fun t => t.Accounted ∧ t.Counted)
    (fun t ht => ⟨accounted_init sha256 ht, (numbered_init sha256 ht).2⟩) ?_
  rintro t c t' ⟨haccounted, hcounted⟩ rfl
  exact ⟨haccounted.call sha256 c, hcounted.call sha256 c⟩

/-- The counters, the limits, the guards and the numbering of the accepted chunks hold all along a
run exactly when no chunk that fits arrives after 2^32 chunks were accepted. -/
theorem transfer_exact_iff {t : Transfer} {past : List (Transfer × BulkCall)}
    (h : (system sha256).History t past) :
    ((t.Accounted ∧ t.Guarded sha256 ∧ t.Numbered) ∧
      ∀ e ∈ past, e.1.Accounted ∧ e.1.Guarded sha256 ∧ e.1.Numbered) ↔
    ∀ e ∈ past, ∀ chunk, e.2 = .acceptChunk chunk → e.1.state.Fits chunk →
      e.1.accepted.length < UInt32.size := by
  have hinit : ∀ t, (system sha256).init t → t.Accounted ∧ t.Guarded sha256 ∧ t.Numbered := by
    intro t ht
    have haccounted := accounted_init sha256 ht
    exact ⟨haccounted, haccounted.guarded sha256, (numbered_init sha256 ht).1⟩
  have hstep : ∀ t c t', t.Accounted ∧ t.Counted → t.Accounted ∧ t.Guarded sha256 ∧ t.Numbered →
      (system sha256).step t c t' → (t'.Accounted ∧ t'.Guarded sha256 ∧ t'.Numbered ↔
        ∀ chunk, c = .acceptChunk chunk → t.state.Fits chunk → t.accepted.length < UInt32.size) := by
    rintro t c t' ⟨haccounted, hcounted⟩ ⟨-, -, hnumbered⟩ rfl
    have hnext := haccounted.call sha256 c
    rw [← hnumbered.call_iff sha256 hcounted c]
    exact ⟨fun hall => hall.2.2, fun hn => ⟨hnext, hnext.guarded sha256, hn⟩⟩
  exact Lts.History.forall_states_iff (fun _ hreach => reachable_accounted sha256 hreach) hinit hstep
    h

/-! ## Driving the index around -/

def someTransferId : RemoteTransferId := ⟨.fill 16 1, isZero_fill_one⟩

/-- A transfer of unknown length. -/
def openBegin : RemoteBulkBegin where
  transferId := someTransferId
  totalLength := none
  expectedSha256 := none
  mimeClass := .archive
  maxTotalLength := maxTransferBytes

/-- The receiver of that transfer after some empty chunks. -/
def emptied (index : UInt32) : RemoteBulkTransferState where
  transferId := someTransferId
  mimeClass := .archive
  declaredTotal := none
  expectedSha256 := none
  maxTotalLength := maxTransferBytes
  nextChunkIndex := index
  received := 0
  unacknowledged := 0
  windowLimit := maxReceiverWindowBytes
  hasher := []
  status := .active

def emptyChunk (index : UInt32) : RemoteBulkChunk where
  transferId := someTransferId
  chunkIndex := index
  offset := 0
  bytes := []

theorem fits_emptyChunk (index : UInt32) : (emptied index).Fits (emptyChunk index) where
  active := rfl
  transfer := rfl
  short := Nat.zero_le _
  index := rfl
  offset := rfl
  sum := show (0 : UInt64).toNat + (ofNat 0).toNat < size by decide
  classLimit := show (0 : UInt64) + ofNat 0 ≤ maxTransferBytes by decide
  limit := show (0 : UInt64) + ofNat 0 ≤ maxTransferBytes by decide
  declared := by
    intro total htotal
    cases htotal
  window := show (0 : UInt64) + ofNat 0 ≤ maxReceiverWindowBytes by decide

/-- Empty chunks are accepted without end. -/
theorem exists_empty_run (n : Nat) :
    ∃ t past, (system sha256).History t past ∧ t.begin = openBegin ∧
      t.state = emptied (UInt32.ofNat n) ∧ t.accepted.length = n := by
  induction n with
  | zero => exact ⟨⟨openBegin, emptied 0, []⟩, [], .init ⟨rfl, rfl⟩, rfl, rfl, rfl⟩
  | succ n ih =>
    obtain ⟨t, past, hrun, hbegin, hstate, hlength⟩ := ih
    refine ⟨_, _, hrun.step (a := .acceptChunk (emptyChunk (UInt32.ofNat n))) rfl, ?_⟩
    have hfits := fits_emptyChunk (UInt32.ofNat n)
    rw [← hstate] at hfits
    obtain ⟨chunk, hc, -, heq⟩ | ⟨bytes, hc, -⟩ | ⟨message, hc, -⟩ | ⟨message, hc, -⟩ | ⟨-, hnone⟩ :=
      t.call_cases sha256 (.acceptChunk (emptyChunk (UInt32.ofNat n)))
    · cases hc
      rw [heq, hbegin, hstate]
      refine ⟨rfl, ?_, ?_⟩
      · simp [advance, emptied, emptyChunk, UInt32.ofNat_add]
      · rw [length_append, hlength, length_singleton]
    · cases hc
    · cases hc
    · cases hc
    · exact absurd hfits (hnone _ rfl)

/-- Of one empty chunk more than 32 bits can number, the last one is number zero again. -/
theorem exists_wrapped_index :
    ∃ t past, (system fun _ => .zero 32).History t past ∧ t.accepted.length = 4294967297 ∧
      ¬t.Numbered := by
  obtain ⟨t, past, hrun, -, -, hlength⟩ := exists_empty_run (fun _ => .zero 32) 4294967297
  refine ⟨t, past, hrun, hlength, fun hnumbered => ?_⟩
  have hlast : 4294967296 ∈ t.accepted.map fun chunk => chunk.chunkIndex.toNat := by
    rw [hnumbered, hlength, List.mem_range]
    decide
  obtain ⟨chunk, -, hchunk⟩ := List.mem_map.1 hlast
  exact absurd chunk.chunkIndex.toNat_lt (hchunk ▸ Nat.lt_irrefl _)

/-- A run with one empty chunk. -/
theorem transfer_exact_iff_one_chunk :
    ∃ t past, (system fun _ => .zero 32).History t past ∧ t.accepted.length = 1 ∧
      (((t.Accounted ∧ t.Guarded (fun _ => .zero 32) ∧ t.Numbered) ∧
        ∀ e ∈ past, e.1.Accounted ∧ e.1.Guarded (fun _ => .zero 32) ∧ e.1.Numbered) ↔
      ∀ e ∈ past, ∀ chunk, e.2 = .acceptChunk chunk → e.1.state.Fits chunk →
        e.1.accepted.length < UInt32.size) := by
  obtain ⟨t, past, hrun, -, -, hlength⟩ := exists_empty_run (fun _ => .zero 32) 1
  exact ⟨t, past, hrun, hlength, transfer_exact_iff (fun _ => .zero 32) hrun⟩

end Transfer

end FlyCockpit.Transport
