-- SUMMARY: What a refused control event leaves behind, and the replay that should repair it.
import FlyCockpit.Continuity.Runs

/-!
# Refused control events

A control event that is refused is meant to leave the attachment as it was, but for the pause, so
that a replay of the right event still goes through. The cursor, the epochs and the hash are stored
before the event is performed, and a change of tenant authority can still be refused then.
-/

namespace FlyCockpit.Continuity

namespace AttachmentContinuityState

variable {sha256 : Bytes → Block 32} {state : AttachmentContinuityState}

/-- A pause has no influence on what becomes of a page. -/
theorem result_reconcile_pause (page : List RemoteControlEventV1) :
    (state.pause.reconcileAuthoritativeReplay sha256 page).2 =
      (state.reconcileAuthoritativeReplay sha256 page).2 := by
  induction page with
  | nil => rfl
  | cons event page ih =>
    rw [reconcileAuthoritativeReplay, reconcileAuthoritativeReplay, replayOne, replayOne]
    cases hknown : state.controlEventHashes.lookup event.header.eventId with
    | some existing =>
      rw [show state.pause.controlEventHashes.lookup event.header.eventId = some existing from hknown]
      dsimp only
      by_cases hsame : existing = controlEventByteHash sha256 (event.encode sha256)
      · rw [if_pos hsame, if_pos hsame]
        exact ih
      · rw [if_neg hsame, if_neg hsame]
    | none =>
      rw [show state.pause.controlEventHashes.lookup event.header.eventId = none from hknown]
      dsimp only [pause]
      -- the event is applied without the pause, so that the answer is the same one
      generalize applyControlEvent sha256 { state with operationsPaused := false }
        (event.encode sha256) = answer
      by_cases hseq : event.header.controlSeq = state.lastAppliedControlSeq + 1
      · simp only [hseq, ne_eq, not_true_eq_false, if_false]
        by_cases hresult : answer.2 = .applied
        · simp only [hresult, not_true_eq_false, if_false]
        · simp only [hresult, not_false_eq_true, if_true]
      · simp only [hseq, ne_eq, not_false_eq_true, if_true]

/-- A direct event leaves the attachment alone, pauses it, or passes the checks and is performed. -/
theorem applyControlEvent_cases (sha256 : Bytes → Block 32) (state : AttachmentContinuityState)
    (bytes : Bytes) :
    ((state.applyControlEvent sha256 bytes).1 = state ∨
        (state.applyControlEvent sha256 bytes).1 = state.pause) ∨
      ∃ event, RemoteControlEventV1.decode sha256 bytes = .ok event ∧
        state.ledger.Admits event.header ∧ state.applyControlEvent sha256 bytes =
          (state.persist event.header (controlEventByteHash sha256 bytes)).perform event := by
  unfold applyControlEvent
  split
  next => exact .inl (.inr rfl)
  next event hdecode =>
    dsimp only
    split
    · split_ifs
      · exact .inl (.inl rfl)
      · exact .inl (.inr rfl)
    next hfresh =>
      split_ifs with hgap hepochs
      · exact .inl (.inr rfl)
      · exact .inl (.inr rfl)
      · obtain ⟨hpolicy, hauthority⟩ := not_or.1 hepochs
        exact .inr ⟨event, hdecode, ⟨hfresh, UInt64.not_lt.1 hgap, UInt64.not_lt.1 hpolicy,
          UInt64.not_lt.1 hauthority⟩, rfl⟩

/-- The attachment is as it was, but that it may be paused. -/
def Untouched (state after : AttachmentContinuityState) : Prop :=
  after = state ∨ after = state.pause

/-- Behind a refused event the attachment is as before, and a page that would have been applied
before is still applied. -/
def RefusalLeavesNoTrace (sha256 : Bytes → Block 32) (state : AttachmentContinuityState)
    (bytes : Bytes) : Prop :=
  (state.applyControlEvent sha256 bytes).2 ≠ .applied →
    state.Untouched (state.applyControlEvent sha256 bytes).1 ∧
      ∀ page, (state.reconcileAuthoritativeReplay sha256 page).2 = .applied →
        ((state.applyControlEvent sha256 bytes).1.reconcileAuthoritativeReplay sha256 page).2 = .applied

theorem Untouched.reconcile {after : AttachmentContinuityState} (h : state.Untouched after)
    (page : List RemoteControlEventV1) :
    (after.reconcileAuthoritativeReplay sha256 page).2 =
      (state.reconcileAuthoritativeReplay sha256 page).2 := by
  obtain rfl | rfl := h
  · rfl
  · exact result_reconcile_pause page

theorem Untouched.ledger_eq {after : AttachmentContinuityState} (h : state.Untouched after) :
    after.ledger = state.ledger := by
  obtain rfl | rfl := h
  · rfl
  · rfl

/-- A refused event leaves no trace exactly if it is not a change of tenant authority that passes the
checks of its header and names another epoch than its payload. -/
theorem refusal_leaves_no_trace_iff (sha256 : Bytes → Block 32) (state : AttachmentContinuityState)
    (bytes : Bytes) :
    state.RefusalLeavesNoTrace sha256 bytes ↔
      ∀ event, RemoteControlEventV1.decode sha256 bytes = .ok event →
        state.ledger.Admits event.header → event.Consistent := by
  have houtcome := outcome_applyControlEvent sha256 state bytes
  have hcases := applyControlEvent_cases sha256 state bytes
  rw [RefusalLeavesNoTrace]
  constructor
  · intro hkeeps event hdecode hadmits
    generalize state.applyControlEvent sha256 bytes = answer at houtcome hkeeps
    obtain ⟨after, result⟩ := answer
    cases houtcome with
    | refused hnever => exact absurd hadmits (hnever event hdecode)
    | duplicate hdecode' hknown =>
      cases hdecode.symm.trans hdecode'
      cases hknown.symm.trans hadmits.fresh
    | inconsistent hdecode' _ _ hledger =>
      cases hdecode.symm.trans hdecode'
      obtain ⟨huntouched, -⟩ := hkeeps (by rintro ⟨⟩)
      -- the id of the event is new before and known behind it
      have hknown := congrArg (ControlLedger.hashes · |>.lookup event.header.eventId)
        (hledger.symm.trans huntouched.ledger_eq)
      simp only [ControlLedger.enter, AList.lookup_insert, hadmits.fresh] at hknown
      cases hknown
    | applied hdecode' _ hconsistent =>
      cases hdecode.symm.trans hdecode'
      exact hconsistent
  · intro hconsistent hrefused
    obtain huntouched | ⟨event, hdecode, hadmits, heq⟩ := hcases
    · refine ⟨huntouched, fun page happlied => ?_⟩
      rw [Untouched.reconcile huntouched page]
      exact happlied
    · obtain ⟨-, ⟨-, happlied, -⟩ | ⟨hinconsistent, -⟩⟩ :=
        perform_cases (state.persist event.header (controlEventByteHash sha256 bytes)) event
      · rw [heq] at hrefused
        exact absurd happlied hrefused
      · exact absurd (hconsistent event hdecode hadmits) hinconsistent

end AttachmentContinuityState

/-! ## A change of authority under the wrong epoch -/

/-- The first event changes the tenant authority to epoch 2; its header says `epoch`. -/
def authorityEvent (id : UInt8) (epoch : UInt64) : RemoteControlEventV1 :=
  .seal leadingBytes 1 (Block.fill 16 id) 0 0 epoch 0 (.tenantAuthorityChanged 1 2 (Block.fill 32 0))

def mismatchRefused : AttachmentContinuityState × RemoteControlEventApplyResult :=
  AttachmentContinuityState.applyControlEvent leadingBytes {} ((authorityEvent 1 1).encode leadingBytes)

/-- The event is refused, yet its number is used up: the page with the right event is applied to a new
attachment and refused as a gap behind the refused event. -/
theorem refused_authority_event_blocks_replay :
    mismatchRefused.2 = .malformedPayload ∧ mismatchRefused.1.lastAppliedControlSeq = 1 ∧
      (AttachmentContinuityState.reconcileAuthoritativeReplay leadingBytes {}
        [authorityEvent 2 2]).2 = .applied ∧
      (mismatchRefused.1.reconcileAuthoritativeReplay leadingBytes [authorityEvent 2 2]).2 =
        .sequenceGap ∧
      ¬AttachmentContinuityState.RefusalLeavesNoTrace leadingBytes {}
        ((authorityEvent 1 1).encode leadingBytes) := by
  refine ⟨by decide +kernel, by decide +kernel, by decide +kernel, by decide +kernel, ?_⟩
  intro hkeeps
  obtain ⟨-, hreplay⟩ := hkeeps (by decide +kernel)
  exact absurd (hreplay [authorityEvent 2 2] (by decide +kernel)) (by decide +kernel)

end FlyCockpit.Continuity
