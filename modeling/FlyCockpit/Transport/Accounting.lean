-- SUMMARY: What a reassembler buffers is what it counts, and stays within its limits on every run.
import FlyCockpit.Transport.Dispatch

/-!
# Reassembly accounting

A peer chooses the fragments and the order in which they arrive. The counters of the reassembler
nevertheless agree with the bytes it holds, the limits hold in every state a run can visit, and a
fragment that is refused for a limit leaves no trace.
-/

namespace FlyCockpit.Transport

open RemoteTransportFrameV1 Table List

/-! ## Partial frames -/

namespace PartialFrame

/-- The bytes in the filled slots. -/
def filledBytes (p : PartialFrame) : Nat := (p.slots.map fun slot => (slot.getD []).length).sum

/-- A partial that counts its bytes, holds at most one frame and still misses a slot. -/
structure Sound (p : PartialFrame) : Prop where
  counted : p.bufferedBytes = p.filledBytes
  bounded : p.bufferedBytes ≤ maxSerializedFrameBytes
  incomplete : p.complete = false

variable {p : PartialFrame} {index : Nat}

theorem filledBytes_fill (hindex : index < p.slots.length)
    (hempty : p.slots.getD index none = none) (bytes : Bytes) :
    (p.fill index bytes).filledBytes = p.filledBytes + bytes.length := by
  have hslot : p.slots[index] = none := by
    rwa [getD_eq_getElem?_getD, List.getElem?_eq_getElem hindex] at hempty
  -- Both lists agree in front of the slot and behind it.
  have hsplit : p.slots = p.slots.take index ++ none :: p.slots.drop (index + 1) := by
    rw [← hslot, getElem_cons_drop, take_append_drop]
  unfold filledBytes fill
  dsimp only
  conv_rhs => rw [hsplit]
  rw [set_eq_take_append_cons_drop, if_pos hindex]
  simp only [map_append, map_cons, sum_append, sum_cons, Option.getD_some,
    Option.getD_none, length_nil]
  omega

theorem sound_new (lane : RemoteLane) {fragmentCount : UInt16} (hcount : fragmentCount ≠ 0)
    (nowMs : Nat) : (PartialFrame.new lane fragmentCount nowMs).Sound where
  counted := by simp [PartialFrame.new, filledBytes]
  bounded := Nat.zero_le _
  incomplete := by
    obtain ⟨k, hk⟩ := Nat.exists_eq_succ_of_ne_zero fun h => hcount (UInt16.toNat_inj.1 h)
    simp [PartialFrame.new, complete, hk, replicate_succ]

theorem Sound.fill (h : p.Sound) (hindex : index < p.slots.length)
    (hempty : p.slots.getD index none = none) {bytes : Bytes}
    (hroom : p.bufferedBytes + bytes.length ≤ maxSerializedFrameBytes)
    (hmissing : (p.fill index bytes).complete = false) : (p.fill index bytes).Sound where
  counted := by
    rw [filledBytes_fill hindex hempty, ← h.counted]
    rfl
  bounded := hroom
  incomplete := hmissing

end PartialFrame

/-- The reasons by which the reassembler turns a fragment away for want of room. -/
def RemoteTransportReason.isReassemblyLimit : RemoteTransportReason → Bool
  | .reassemblyFrameLimit => true
  | .reassemblyByteLimit => true
  | _ => false

namespace RemoteFragmentReassembler

/-- The counters agree with what is held, and what is held is within the limits. -/
structure Accounted (r : RemoteFragmentReassembler) : Prop where
  maxFrames : r.maxFrames = maxIncompleteFramesPerPeer
  maxBytes : r.maxBytes = maxReassemblyBytesPerPeer
  buffered : r.bufferedBytes = r.partials.total PartialFrame.bufferedBytes
  sound : ∀ id p, r.partials.lookup id = some p → p.Sound
  frames : r.partials.size ≤ maxIncompleteFramesPerPeer
  bytes : r.bufferedBytes ≤ maxReassemblyBytesPerPeer
  memory : r.completed.size ≤ maxCompletedFrameMemory

theorem accounted_new (origin : RemoteStreamOrigin) : (new origin).Accounted where
  maxFrames := rfl
  maxBytes := rfl
  buffered := rfl
  sound := by
    intro id p hlookup
    simp [new] at hlookup
  frames := Nat.zero_le _
  bytes := Nat.zero_le _
  memory := Nat.zero_le _

/-- The subtractions of `expire`, each with what it subtracts from. -/
def expireSubtractions (r : RemoteFragmentReassembler) (nowMs : Nat) : List (Nat × Nat) :=
  let outdated := r.partials.retain fun _ p => r.expired nowMs p.firstSeenMs
  [(r.bufferedBytes, outdated.total PartialFrame.bufferedBytes),
    (r.partials.size, (r.unexpired nowMs).partials.size)]

/-- The subtractions of a call: those of its expiry, and what `accept` takes from the counter when
the fragment completes a frame. -/
def subtractions (r : RemoteFragmentReassembler) : ReassemblerCall → List (Nat × Nat)
  | .expire nowMs => r.expireSubtractions nowMs
  | .accept fragment nowMs =>
    let kept := r.unexpired nowMs
    let p := (kept.partials.lookup fragment.frameId.val).getD
      (.new fragment.lane fragment.fragmentCount nowMs)
    r.expireSubtractions nowMs ++ [(kept.bufferedBytes + fragment.bytes.length,
        (p.fill fragment.fragmentIndex.toNat fragment.bytes).bufferedBytes)]

namespace Accounted

variable {r : RemoteFragmentReassembler} {key : Block 16} {p : PartialFrame}

/-! ## Expiry -/

theorem outdated_le (h : r.Accounted) (nowMs : Nat) :
    (r.partials.retain fun _ p => r.expired nowMs p.firstSeenMs).total PartialFrame.bufferedBytes ≤
      r.bufferedBytes := by
  have hsplit := total_retain_add PartialFrame.bufferedBytes
    (fun _ p => r.expired nowMs p.firstSeenMs) r.partials
  rw [h.buffered, ← hsplit]
  exact Nat.le_add_right _ _

theorem unexpired (h : r.Accounted) (nowMs : Nat) : (r.unexpired nowMs).Accounted where
  maxFrames := h.maxFrames
  maxBytes := h.maxBytes
  buffered := by
    have hsplit := total_retain_add PartialFrame.bufferedBytes
      (fun _ p => r.expired nowMs p.firstSeenMs) r.partials
    have hbuffered := h.buffered
    simp only [RemoteFragmentReassembler.unexpired]
    omega
  sound := by
    intro id p hlookup
    simp only [RemoteFragmentReassembler.unexpired, lookup_retain,
      Option.filter_eq_some_iff] at hlookup
    exact h.sound id p hlookup.1
  frames := Nat.le_trans (size_retain_le _ _) h.frames
  bytes := Nat.le_trans (Nat.sub_le _ _) h.bytes
  memory := Nat.le_trans (size_retain_le _ _) h.memory

/-! ## Changes of one partial -/

theorem insert_new (h : r.Accounted) (hnone : r.partials.lookup key = none)
    (hroom : r.partials.size < maxIncompleteFramesPerPeer) (hp : p.Sound)
    (hempty : p.bufferedBytes = 0) :
    Accounted { r with partials := r.partials.insert key p } where
  maxFrames := h.maxFrames
  maxBytes := h.maxBytes
  buffered := by
    simp only [total_insert, erase_of_none hnone, hempty, Nat.zero_add]
    exact h.buffered
  sound := by
    intro id q hlookup
    simp only [lookup_insert_eq] at hlookup
    split_ifs at hlookup
    · cases hlookup
      exact hp
    · exact h.sound id q hlookup
  frames := by
    simp only [size_insert, erase_of_none hnone]
    exact hroom
  bytes := h.bytes
  memory := h.memory

/-- A partial leaves together with its bytes. -/
theorem erase (h : r.Accounted) (hp : r.partials.lookup key = some p) {buffered : Nat}
    (hbuffered : buffered + p.bufferedBytes = r.bufferedBytes) :
    Accounted { r with partials := r.partials.erase key, bufferedBytes := buffered } where
  maxFrames := h.maxFrames
  maxBytes := h.maxBytes
  buffered := by
    have htotal := total_erase PartialFrame.bufferedBytes hp
    have hcount := h.buffered
    dsimp only
    omega
  sound := by
    intro id q hlookup
    simp only [lookup_erase_eq] at hlookup
    split_ifs at hlookup
    exact h.sound id q hlookup
  frames := by
    have hsize := size_erase hp
    have hframes := h.frames
    dsimp only
    omega
  bytes := by
    have hbytes := h.bytes
    dsimp only
    omega
  memory := h.memory

/-- A partial grows by a fragment for which there is room. -/
theorem grow (h : r.Accounted) {q : PartialFrame}
    (hp : r.partials.lookup key = some p) (hq : q.Sound) {length : Nat}
    (hbuffered : q.bufferedBytes = p.bufferedBytes + length)
    (hroom : r.bufferedBytes + length ≤ maxReassemblyBytesPerPeer) :
    Accounted { r with
      partials := r.partials.insert key q, bufferedBytes := r.bufferedBytes + length } where
  maxFrames := h.maxFrames
  maxBytes := h.maxBytes
  buffered := by
    have htotal := total_erase PartialFrame.bufferedBytes hp
    have hcount := h.buffered
    simp only [total_insert]
    omega
  sound := by
    intro id p' hlookup
    simp only [lookup_insert_eq] at hlookup
    split_ifs at hlookup
    · cases hlookup
      exact hq
    · exact h.sound id p' hlookup
  frames := by
    have hsize := size_erase hp
    have hframes := h.frames
    simp only [size_insert]
    omega
  bytes := hroom
  memory := h.memory

theorem undo (h : r.Accounted) (hp : r.partials.lookup key = some p) {isNew : Bool}
    (hempty : isNew = true → p.bufferedBytes = 0) : (r.undo isNew key).Accounted := by
  unfold RemoteFragmentReassembler.undo
  split_ifs with hnew
  · exact h.erase hp (by rw [hempty hnew, Nat.add_zero])
  · exact h

end Accounted

/-! ## One call -/

section Calls

variable (rt : Runtime) {r : RemoteFragmentReassembler}

/-- A full memory loses its oldest entry before it takes a new one. -/
theorem size_remember_le {completed : Table (Block 16) CompletedFrame}
    (h : completed.size ≤ maxCompletedFrameMemory) (key : Block 16) (done : CompletedFrame) :
    (remember rt completed key done).size ≤ maxCompletedFrameMemory := by
  have hinsert : ∀ t : Table (Block 16) CompletedFrame, size (t.insert key done) ≤ t.size + 1 := by
    intro t
    rw [size_insert]
    cases hlookup : t.lookup key with
    | none => rw [erase_of_none hlookup]
    | some old =>
      have hsize := size_erase hlookup
      omega
  unfold remember
  dsimp only
  split_ifs with hfull
  · cases holdest : (rt.walk completed).argmin fun e => e.2.atMs with
    | some oldest =>
      have hpresent : completed.lookup oldest.1 = some oldest.2 :=
        (rt.mem_walk completed oldest.1 oldest.2).1 (argmin_mem holdest)
      have hsize := size_erase hpresent
      have hle := hinsert (completed.erase oldest.1)
      dsimp only
      omega
    | none =>
      -- The walk of a table that is not empty finds an entry.
      have hwalk : rt.walk completed = [] := argmin_eq_none.1 holdest
      have hentries : completed.entries = [] := by
        refine eq_nil_iff_forall_not_mem.2 fun e he => ?_
        have hmem := (rt.mem_walk completed e.1 e.2).2 (mem_entries_iff.1 he)
        rw [hwalk] at hmem
        cases hmem
      have hsize : completed.size = 0 := by rw [size, hentries, length_nil]
      rw [hsize] at hfull
      exact absurd hfull (by decide)
  · have hle := hinsert completed
    omega

theorem dispatch_accounted (h : r.Accounted) (key : Block 16) (header : Block 72) (nowMs : Nat) (frame : RemoteTransportFrameV1) :
    (outcome (dispatch rt r key header nowMs frame)).2.Accounted := by
  unfold dispatch
  cases validateStreamId frame.streamId r.peerOrigin frame.lane with
  | error e => exact h
  | ok u =>
    dsimp only
    cases r.sequences.accept frame.lane frame.streamId frame.streamSeq with
    | error e => exact h
    | ok t => exact { h with memory := size_remember_le rt h.memory key _ }

theorem finish_accounted (h : r.Accounted) (key : Block 16) (lane : RemoteLane) (nowMs : Nat)
    (serialized : Bytes) : (outcome (finish rt r key lane nowMs serialized)).2.Accounted := by
  unfold finish
  cases decode rt.sha256 serialized with
  | error e => exact h
  | ok frame =>
    dsimp only
    split_ifs
    · exact h
    · cases hlookup : r.completed.lookup key with
      | some done =>
        dsimp only
        split_ifs
        · exact h
        · exact h
      | none => exact dispatch_accounted rt h key _ nowMs frame

variable {fragment : RemoteCarrierFragmentV1} {p : PartialFrame} {e : RemoteTransportError}
  {lane : RemoteLane} {nowMs : Nat} {r' : RemoteFragmentReassembler} {isNew : Bool}
  {streamId : UInt64}

/-- A fragment of the right shape fits the slots of a partial with its count. -/
theorem index_lt_slots (hshape : fragment.validateShape = .ok ())
    (hcount : p.fragmentCount = fragment.fragmentCount) :
    fragment.fragmentIndex.toNat < p.slots.length := by
  rw [p.sized, hcount]
  exact (RemoteCarrierFragmentV1.validateShape_eq_ok.1 hshape).2.2.2.1

theorem store_accounted (h : r.Accounted) (hshape : fragment.validateShape = .ok ())
    (hp : r.partials.lookup fragment.frameId.val = some p)
    (hempty : isNew = true → p.bufferedBytes = 0) (nowMs : Nat) :
    (outcome (store rt r fragment nowMs isNew p)).2.Accounted := by
  unfold store
  dsimp only
  split
  next => exact h.undo hp hempty
  next hsame =>
    have hcount : p.fragmentCount = fragment.fragmentCount :=
      not_not.1 fun hne => hsame (.inr hne)
    cases hslot : p.slots.getD fragment.fragmentIndex.toNat none with
    | some existing =>
      dsimp only
      split_ifs
      · exact h
      · exact h
    | none =>
      dsimp only
      split_ifs with hbytes hframe hcomplete
      · exact h.undo hp hempty
      · exact h
      · refine finish_accounted rt (h.erase hp ?_) _ _ nowMs _
        have hle := le_total PartialFrame.bufferedBytes hp
        have hbuffered := h.buffered
        simp only [PartialFrame.fill]
        omega
      · have hsound := (h.sound _ _ hp).fill (index_lt_slots hshape hcount) hslot
          (Nat.le_of_not_lt hframe) (Bool.of_not_eq_true hcomplete)
        refine h.grow hp hsound rfl ?_
        rw [← h.maxBytes]
        exact Nat.le_of_not_lt hbytes

theorem accept_accounted (h : r.Accounted) (fragment : RemoteCarrierFragmentV1) (nowMs : Nat) :
    (outcome ((accept rt fragment nowMs).run r)).2.Accounted := by
  unfold accept EStateM.run
  cases hshape : fragment.validateShape with
  | error e => exact h
  | ok u =>
    have hkept : ((r.expire nowMs).2).Accounted := h.unexpired nowMs
    dsimp only
    cases hlookup : (r.expire nowMs).2.partials.lookup fragment.frameId.val with
    | some p => exact store_accounted rt hkept hshape hlookup (by simp) nowMs
    | none =>
      dsimp only
      split_ifs with hfull
      · exact hkept
      · have hcount := (RemoteCarrierFragmentV1.validateShape_eq_ok.1 hshape).2.1
        rw [hkept.maxFrames] at hfull
        have hadded := hkept.insert_new hlookup (Nat.lt_of_not_le hfull)
          (PartialFrame.sound_new fragment.lane hcount nowMs) rfl
        exact store_accounted rt hadded hshape (AList.lookup_insert _) (fun _ => rfl) nowMs

theorem call_accounted (h : r.Accounted) (c : ReassemblerCall) : (r.call rt c).2.Accounted := by
  cases c with
  | accept fragment nowMs => exact accept_accounted rt h fragment nowMs
  | expire nowMs => exact h.unexpired nowMs

theorem run_accounted (h : r.Accounted) (calls : List ReassemblerCall) :
    (r.run rt calls).2.Accounted := by
  induction calls generalizing r with
  | nil => exact h
  | cons c calls ih => exact ih (call_accounted rt h c)

/-! ## Subtractions -/

theorem subtractions_le (h : r.Accounted) (c : ReassemblerCall) :
    ∀ s ∈ r.subtractions c, s.2 ≤ s.1 := by
  have hexpire : ∀ nowMs, ∀ s ∈ r.expireSubtractions nowMs, s.2 ≤ s.1 := by
    intro nowMs s hs
    simp only [expireSubtractions, mem_cons, not_mem_nil, or_false] at hs
    obtain rfl | rfl := hs
    · exact h.outdated_le nowMs
    · exact size_retain_le _ _
  cases c with
  | expire nowMs => exact hexpire nowMs
  | accept fragment nowMs =>
    intro s hs
    simp only [subtractions, mem_append, mem_singleton] at hs
    obtain hs | rfl := hs
    · exact hexpire nowMs s hs
    · refine Nat.add_le_add_right ?_ _
      cases hlookup : (r.unexpired nowMs).partials.lookup fragment.frameId.val with
      | none => exact Nat.zero_le _
      | some p =>
        rw [(h.unexpired nowMs).buffered]
        exact le_total PartialFrame.bufferedBytes hlookup

/-! ## Refusals -/

theorem decode_reason {sha256 : Bytes → Block 32} {bytes : Bytes}
    (h : decode sha256 bytes = .error e) :
    e.reason.isReassemblyLimit = false := by
  unfold decode decodePayload at h
  dsimp only at h
  repeat' split at h
  all_goals cases h
  all_goals rfl

theorem validateStreamId_reason {origin : RemoteStreamOrigin}
    (h : validateStreamId streamId origin lane = .error e) : e.reason.isReassemblyLimit = false := by
  unfold validateStreamId at h
  split_ifs at h <;> cases h <;> rfl

theorem sequences_accept_reason {s : RemoteStreamSequences} {streamSeq : UInt64}
    (h : s.accept lane streamId streamSeq = .error e) : e.reason.isReassemblyLimit = false := by
  unfold RemoteStreamSequences.accept at h
  dsimp only at h
  repeat' split at h
  all_goals cases h
  all_goals rfl

/-- A complete frame is never refused for want of room. -/
theorem finish_reason {key : Block 16} {serialized : Bytes}
    (h : finish rt r key lane nowMs serialized = .error e r') :
    e.reason.isReassemblyLimit = false := by
  unfold finish at h
  cases hdecode : decode rt.sha256 serialized with
  | error e' =>
    rw [hdecode] at h
    cases h
    exact decode_reason hdecode
  | ok frame =>
    rw [hdecode] at h
    dsimp only at h
    split_ifs at h
    · cases h
      rfl
    · cases hlookup : r.completed.lookup key with
      | some done =>
        rw [hlookup] at h
        dsimp only at h
        split_ifs at h
        cases h
        rfl
      | none =>
        rw [hlookup] at h
        unfold dispatch at h
        cases hvalid : validateStreamId frame.streamId r.peerOrigin frame.lane with
        | error e' =>
          rw [hvalid] at h
          cases h
          exact validateStreamId_reason hvalid
        | ok u =>
          rw [hvalid] at h
          dsimp only at h
          cases haccept : r.sequences.accept frame.lane frame.streamId frame.streamSeq with
          | error e' =>
            rw [haccept] at h
            cases h
            exact sequences_accept_reason haccept
          | ok t =>
            rw [haccept] at h
            cases h

theorem store_refused (hshape : fragment.validateShape = .ok ())
    (hempty : isNew = true → p.bufferedBytes = 0)
    (h : store rt r fragment nowMs isNew p = .error e r')
    (hlimit : e.reason.isReassemblyLimit = true) : r' = r.undo isNew fragment.frameId.val := by
  unfold store at h
  dsimp only at h
  split at h
  next =>
    cases h
    cases hlimit
  next =>
    cases hslot : p.slots.getD fragment.fragmentIndex.toNat none with
    | some existing =>
      rw [hslot] at h
      dsimp only at h
      split_ifs at h
      cases h
      cases hlimit
    | none =>
      rw [hslot] at h
      dsimp only at h
      split_ifs at h with hbytes hframe
      · cases h
        rfl
      · cases h
        -- One fragment alone is never more than a frame, so this partial is not new.
        obtain rfl : isNew = false := by
          refine Bool.of_not_eq_true fun hnew => ?_
          have hlength := (RemoteCarrierFragmentV1.validateShape_eq_ok.1 hshape).1
          rw [hempty hnew, Nat.zero_add] at hframe
          exact absurd (Nat.lt_of_lt_of_le hframe hlength) (by decide)
        rfl
      · rw [finish_reason rt h] at hlimit
        cases hlimit

theorem accept_refused (h : (accept rt fragment nowMs).run r = .error e r')
    (hlimit : e.reason.isReassemblyLimit = true) : r' = (r.expire nowMs).2 := by
  unfold accept EStateM.run at h
  cases hshape : fragment.validateShape with
  | error e' =>
    rw [hshape] at h
    cases h
    unfold RemoteCarrierFragmentV1.validateShape at hshape
    split_ifs at hshape <;> cases hshape <;> cases hlimit
  | ok u =>
    rw [hshape] at h
    dsimp only at h
    cases hlookup : (r.expire nowMs).2.partials.lookup fragment.frameId.val with
    | some p =>
      rw [hlookup] at h
      exact store_refused rt hshape (by simp) h hlimit
    | none =>
      rw [hlookup] at h
      dsimp only at h
      split_ifs at h
      · cases h
        rfl
      · rw [store_refused rt hshape (fun _ => rfl) h hlimit]
        simp only [undo, if_true, erase_insert hlookup]

end Calls

/-- The state of a new reassembler after some calls. -/
def stateAfter (rt : Runtime) (origin : RemoteStreamOrigin) (calls : List ReassemblerCall) :
    RemoteFragmentReassembler := ((new origin).run rt calls).2

/-- In every state that fragments, expiries and clock readings of any kind can lead to, the counters
agree with what is held, the limits hold, no subtraction of the next call goes below zero, and a
fragment refused for want of room leaves the state as expiry left it. -/
theorem reassembly_accounted (rt : Runtime) (origin : RemoteStreamOrigin)
    (calls : List ReassemblerCall) :
    (stateAfter rt origin calls).Accounted ∧
      (∀ c, ∀ s ∈ (stateAfter rt origin calls).subtractions c, s.2 ≤ s.1) ∧
      ∀ fragment nowMs e r', (accept rt fragment nowMs).run (stateAfter rt origin calls) = .error e r' →
        e.reason.isReassemblyLimit = true → r' = ((stateAfter rt origin calls).expire nowMs).2 := by
  have haccounted : (stateAfter rt origin calls).Accounted :=
    run_accounted rt (accounted_new origin) calls
  refine ⟨haccounted, subtractions_le haccounted, ?_⟩
  intro fragment nowMs e r' h hlimit
  exact accept_refused rt h hlimit

end RemoteFragmentReassembler

end FlyCockpit.Transport
