-- SUMMARY: The daemon's control cursor: applying a control event and reconciling a replay page.
import FlyCockpit.Lib.Table
import FlyCockpit.Continuity.ControlEvent

/-!
# The control cursor

An attachment applies control events one at a time, behind a cursor, and remembers every applied
event by its id and hash. What does not fit pauses new operations; a replay page is the way out of
the pause. The ledger is the part of the attachment that decides what becomes of an event.
-/

namespace FlyCockpit.Continuity

open RemoteControlEventV1

/-! ## The attachment -/

inductive ChildMemberState
  | pending
  | active
  | draining
  | closed
  deriving DecidableEq, Repr

structure ChildMember where
  childAttemptId : String
  state : ChildMemberState
  deriving DecidableEq, Repr

def ChildMember.isOpen (child : ChildMember) : Bool :=
  child.state ≠ .closed

inductive RemoteMobileUiState
  | reconnecting
  | reauthenticationRequired
  | snapshotRequired
  | outcomeUnknown
  | accessRevoked
  | sessionTerminal
  deriving DecidableEq, Repr

inductive RemoteControlEventApplyResult
  | applied
  | duplicateIdempotent
  | conflict
  | sequenceGap
  | epochRegression
  | badSignature
  | unknownKind
  | malformedPayload
  deriving DecidableEq, Repr

structure AttachmentContinuityState where
  currentLeaseId : Option String := none
  children : List ChildMember := []
  lastAppliedControlSeq : UInt64 := 0
  lastAppliedPolicyEpoch : UInt64 := 0
  lastAppliedAuthorityEpoch : UInt64 := 0
  controlEventHashes : Table (Block 16) (Block 32) := ∅
  operationsPaused : Bool := false
  requiredPolicyDigest : Option (Block 32) := none
  drainDeadline : Option Int64 := none
  pendingLeaseRefreshJws : Option Bytes := none
  mobileUiState : RemoteMobileUiState := .reconnecting

namespace AttachmentContinuityState

variable (sha256 : Bytes → Block 32) (state : AttachmentContinuityState)

def pause : AttachmentContinuityState :=
  { state with operationsPaused := true }

/-- Move every open child to another state. -/
def moveOpen (target : ChildMemberState) : AttachmentContinuityState :=
  { state with
    children := state.children.map fun child =>
      if child.isOpen then { child with state := target } else child }

/-- The cursor, the epochs and the hash are kept before anything is acknowledged. -/
def persist (header : RemoteControlEventHeaderV1) (byteHash : Block 32) : AttachmentContinuityState :=
  { state with
    controlEventHashes := state.controlEventHashes.insert header.eventId byteHash
    lastAppliedControlSeq := header.controlSeq
    lastAppliedPolicyEpoch := header.policyEpoch
    lastAppliedAuthorityEpoch := header.authorityEpoch }

/-- What an event of each kind does. -/
def perform (event : RemoteControlEventV1) :
    AttachmentContinuityState × RemoteControlEventApplyResult :=
  match event.payload with
  | .leaseRefresh leaseJws => ({ state with pendingLeaseRefreshJws := some leaseJws }, .applied)
  | .policyNarrowed _ newDigest _ => ({ state with requiredPolicyDigest := some newDigest }, .applied)
  | .deviceRevoked .. | .instanceRevoked .. | .attachmentRevoked .. =>
    ({ state.moveOpen .closed with currentLeaseId := none, mobileUiState := .accessRevoked }, .applied)
  | .tenantAuthorityChanged _ newEpoch _ =>
    if event.header.authorityEpoch ≠ newEpoch then (state.pause, .malformedPayload)
    else (state, .applied)
  | .authorityStatus .. => (state, .applied)
  | .drain deadline _ => ({ state.moveOpen .draining with drainDeadline := some deadline }, .applied)

def applyControlEvent (eventBytes : Bytes) :
    AttachmentContinuityState × RemoteControlEventApplyResult :=
  match decode sha256 eventBytes with
  | .error _ => (state.pause, .malformedPayload)
  | .ok event =>
    let byteHash := controlEventByteHash sha256 eventBytes
    match state.controlEventHashes.lookup event.header.eventId with
    | some existingHash =>
      if existingHash = byteHash then (state, .duplicateIdempotent) else (state.pause, .conflict)
    | none =>
      if event.header.controlSeq > state.lastAppliedControlSeq + 1 then (state.pause, .sequenceGap)
      else if event.header.policyEpoch < state.lastAppliedPolicyEpoch ∨
          event.header.authorityEpoch < state.lastAppliedAuthorityEpoch then
        (state.pause, .epochRegression)
      else (state.persist event.header byteHash).perform event

/-- How the replay loop goes on after an event. -/
inductive ReplayStep
  | skip
  | stop (state : AttachmentContinuityState) (result : RemoteControlEventApplyResult)
  | next (state : AttachmentContinuityState)

/-- The body of the replay loop. -/
def replayOne (event : RemoteControlEventV1) : ReplayStep :=
  let bytes := event.encode sha256
  match state.controlEventHashes.lookup event.header.eventId with
  | some existing =>
    if existing = controlEventByteHash sha256 bytes then .skip else .stop state .conflict
  | none =>
    if event.header.controlSeq ≠ state.lastAppliedControlSeq + 1 then .stop state .sequenceGap
    else
      let (after, result) := { state with operationsPaused := false }.applyControlEvent sha256 bytes
      if result ≠ .applied then
        .stop { after with operationsPaused := state.operationsPaused || after.operationsPaused } result
      else .next after

def reconcileAuthoritativeReplay (state : AttachmentContinuityState) :
    List RemoteControlEventV1 → AttachmentContinuityState × RemoteControlEventApplyResult
  | [] => ({ state with operationsPaused := false }, .applied)
  | event :: rest =>
    match state.replayOne sha256 event with
    | .skip => reconcileAuthoritativeReplay state rest
    | .stop after result => (after, result)
    | .next after => reconcileAuthoritativeReplay after rest

/-- The sequence numbers of the events of a page that are reported as applied, in order. -/
def replayedSeqs (state : AttachmentContinuityState) : List RemoteControlEventV1 → List UInt64
  | [] => []
  | event :: rest =>
    match state.replayOne sha256 event with
    | .skip => replayedSeqs state rest
    | .stop .. => []
    | .next after => event.header.controlSeq :: replayedSeqs after rest

end AttachmentContinuityState

/-! ## The ledger -/

/-- What an attachment knows about the control events it applied. -/
structure ControlLedger where
  seq : UInt64
  policyEpoch : UInt64
  authorityEpoch : UInt64
  hashes : Table (Block 16) (Block 32)

def AttachmentContinuityState.ledger (state : AttachmentContinuityState) : ControlLedger :=
  ⟨state.lastAppliedControlSeq, state.lastAppliedPolicyEpoch, state.lastAppliedAuthorityEpoch,
    state.controlEventHashes⟩

/-- A change of tenant authority names the same epoch in header and payload. -/
def RemoteControlEventV1.Consistent (event : RemoteControlEventV1) : Prop :=
  ∀ previousEpoch newEpoch ringDigest,
    event.payload = .tenantAuthorityChanged previousEpoch newEpoch ringDigest →
      event.header.authorityEpoch = newEpoch

namespace ControlLedger

variable (sha256 : Bytes → Block 32) (l : ControlLedger)

/-- The event was applied before, byte for byte. -/
def Recorded (event : RemoteControlEventV1) : Prop :=
  l.hashes.lookup event.header.eventId = some (controlEventByteHash sha256 (event.encode sha256))

instance (event : RemoteControlEventV1) : Decidable (l.Recorded sha256 event) :=
  inferInstanceAs (Decidable (_ = _))

/-- The checks of an event: its id is new, it leaves no gap and no epoch goes back. -/
structure Admits (header : RemoteControlEventHeaderV1) : Prop where
  fresh : l.hashes.lookup header.eventId = none
  seq : header.controlSeq ≤ l.seq + 1
  policy : l.policyEpoch ≤ header.policyEpoch
  authority : l.authorityEpoch ≤ header.authorityEpoch

def enter (header : RemoteControlEventHeaderV1) (byteHash : Block 32) : ControlLedger :=
  ⟨header.controlSeq, header.policyEpoch, header.authorityEpoch,
    l.hashes.insert header.eventId byteHash⟩

/-- A replayed event is the next one, survives its own encoding and is admitted. -/
structure Takes (event event' : RemoteControlEventV1) : Prop where
  decodes : decode sha256 (event.encode sha256) = .ok event'
  next : event.header.controlSeq = l.seq + 1
  admits : l.Admits event'.header
  consistent : event'.Consistent

end ControlLedger

namespace AttachmentContinuityState

variable {sha256 : Bytes → Block 32} {state : AttachmentContinuityState}

/-! ## What one event does -/

@[simp] theorem ledger_pause : state.pause.ledger = state.ledger := rfl

/-- An event of any kind leaves the ledger alone, and only an inconsistent one pauses. -/
theorem perform_cases (state : AttachmentContinuityState) (event : RemoteControlEventV1) :
    (state.perform event).1.ledger = state.ledger ∧
      (event.Consistent ∧ (state.perform event).2 = .applied ∧
          (state.perform event).1.operationsPaused = state.operationsPaused ∨
        ¬event.Consistent ∧ (state.perform event).2 = .malformedPayload ∧
          (state.perform event).1.operationsPaused = true) := by
  obtain ⟨header, payload⟩ := event
  cases payload with
  | tenantAuthorityChanged previousEpoch newEpoch ringDigest =>
    by_cases hepoch : header.authorityEpoch = newEpoch
    · refine ⟨by simp [perform, hepoch], .inl ⟨?_, by simp [perform, hepoch], by simp [perform, hepoch]⟩⟩
      rintro _ _ _ ⟨⟩
      exact hepoch
    · refine ⟨by simp [perform, hepoch], .inr ⟨fun h => hepoch (h _ _ _ rfl), ?_, ?_⟩⟩
      · simp [perform, hepoch]
      · simp [perform, hepoch, pause]
  | _ => exact ⟨rfl, .inl ⟨by rintro _ _ _ ⟨⟩, rfl, rfl⟩⟩

/-- Everything the direct call can do with some bytes. -/
inductive Outcome (sha256 : Bytes → Block 32) (state : AttachmentContinuityState) (bytes : Bytes) :
    AttachmentContinuityState → RemoteControlEventApplyResult → Prop
  | refused {after : AttachmentContinuityState} {result : RemoteControlEventApplyResult}
      (hdecode : ∀ event, decode sha256 bytes = .ok event → ¬state.ledger.Admits event.header)
      (hledger : after.ledger = state.ledger) (hresult : result ≠ .applied)
      (hpaused : after.operationsPaused = true) :
    Outcome sha256 state bytes after result
  | duplicate {event : RemoteControlEventV1} {existing : Block 32}
      (hdecode : decode sha256 bytes = .ok event)
      (hknown : state.ledger.hashes.lookup event.header.eventId = some existing) :
    Outcome sha256 state bytes state .duplicateIdempotent
  | inconsistent {event : RemoteControlEventV1} {after : AttachmentContinuityState}
      (hdecode : decode sha256 bytes = .ok event)
      (hadmits : state.ledger.Admits event.header) (hconsistent : ¬event.Consistent)
      (hledger : after.ledger = state.ledger.enter event.header (controlEventByteHash sha256 bytes))
      (hpaused : after.operationsPaused = true) :
    Outcome sha256 state bytes after .malformedPayload
  | applied {event : RemoteControlEventV1} {after : AttachmentContinuityState}
      (hdecode : decode sha256 bytes = .ok event)
      (hadmits : state.ledger.Admits event.header) (hconsistent : event.Consistent)
      (hledger : after.ledger = state.ledger.enter event.header (controlEventByteHash sha256 bytes))
      (hpaused : after.operationsPaused = state.operationsPaused) :
    Outcome sha256 state bytes after .applied

theorem outcome_applyControlEvent (sha256 : Bytes → Block 32) (state : AttachmentContinuityState)
    (bytes : Bytes) :
    Outcome sha256 state bytes (state.applyControlEvent sha256 bytes).1
      (state.applyControlEvent sha256 bytes).2 := by
  unfold applyControlEvent
  split
  next hdecode => exact .refused (fun _ hok => by rw [hdecode] at hok; cases hok) rfl nofun rfl
  next event hdecode =>
    have hrefused : ∀ {result : RemoteControlEventApplyResult}, ¬state.ledger.Admits event.header →
        result ≠ .applied → Outcome sha256 state bytes state.pause result := by
      intro result hadmits hresult
      refine .refused (fun event' hok => ?_) rfl hresult rfl
      cases hdecode.symm.trans hok
      exact hadmits
    dsimp only
    split
    next existing hknown =>
      split
      · exact .duplicate hdecode hknown
      · refine hrefused (fun hadmits => ?_) nofun
        cases hknown.symm.trans hadmits.fresh
    next hfresh =>
      split_ifs with hgap hepochs
      · exact hrefused (fun hadmits => UInt64.not_lt.2 hadmits.seq hgap) nofun
      · refine hrefused (fun hadmits => ?_) nofun
        obtain hpolicy | hauthority := hepochs
        · exact UInt64.not_lt.2 hadmits.policy hpolicy
        · exact UInt64.not_lt.2 hadmits.authority hauthority
      · obtain ⟨hpolicy, hauthority⟩ := not_or.1 hepochs
        have hadmits : state.ledger.Admits event.header :=
          ⟨hfresh, UInt64.not_lt.1 hgap, UInt64.not_lt.1 hpolicy, UInt64.not_lt.1 hauthority⟩
        obtain ⟨hledger, ⟨hconsistent, hresult, hpaused⟩ | ⟨hconsistent, hresult, hpaused⟩⟩ :=
          perform_cases (state.persist event.header (controlEventByteHash sha256 bytes)) event
        · rw [hresult]
          exact .applied hdecode hadmits hconsistent hledger hpaused
        · rw [hresult]
          exact .inconsistent hdecode hadmits hconsistent hledger hpaused

/-! ## What one event of a page does -/

/-- Everything the body of the replay loop can do. -/
inductive Replayed (sha256 : Bytes → Block 32) (state : AttachmentContinuityState)
    (event : RemoteControlEventV1) : ReplayStep → Prop
  | recorded (hrecorded : state.ledger.Recorded sha256 event) : Replayed sha256 state event .skip
  | blocked {result : RemoteControlEventApplyResult} (hrecorded : ¬state.ledger.Recorded sha256 event)
      (hblocked : state.ledger.hashes.lookup event.header.eventId ≠ none ∨
        event.header.controlSeq ≠ state.ledger.seq + 1) :
    Replayed sha256 state event (.stop state result)
  | refused {after : AttachmentContinuityState} {result : RemoteControlEventApplyResult}
      (hfresh : state.ledger.hashes.lookup event.header.eventId = none)
      (hnext : event.header.controlSeq = state.ledger.seq + 1)
      (hrefused : ∀ event', ¬state.ledger.Takes sha256 event event')
      (hseq : after.ledger.seq = state.ledger.seq ∨
        1 ≤ event.header.controlSeq ∧ after.ledger.seq = event.header.controlSeq ∧ ∃ event',
          decode sha256 (event.encode sha256) = .ok event' ∧ ¬event'.Consistent)
      (hpaused : after.operationsPaused = true) :
    Replayed sha256 state event (.stop after result)
  | taken {event' : RemoteControlEventV1} {after : AttachmentContinuityState}
      (htakes : state.ledger.Takes sha256 event event')
      (hledger : after.ledger = state.ledger.enter event.header
        (controlEventByteHash sha256 (event.encode sha256)))
      (hpaused : after.operationsPaused = false) :
    Replayed sha256 state event (.next after)

theorem replayed_replayOne (sha256 : Bytes → Block 32) (state : AttachmentContinuityState)
    (event : RemoteControlEventV1) :
    Replayed sha256 state event (state.replayOne sha256 event) := by
  unfold replayOne
  dsimp only
  split
  next existing hknown =>
    have hrecorded : state.ledger.Recorded sha256 event ↔
        existing = controlEventByteHash sha256 (event.encode sha256) := by
      rw [ControlLedger.Recorded]
      exact hknown ▸ Option.some_inj
    split
    next hsame => exact .recorded (hrecorded.2 hsame)
    next hsame =>
      refine .blocked (hrecorded.not.2 hsame) (.inl ?_)
      rw [show state.ledger.hashes.lookup event.header.eventId = some existing from hknown]
      nofun
  next hfresh =>
    have hrecorded : ¬state.ledger.Recorded sha256 event := by
      intro hrecorded
      rw [ControlLedger.Recorded, show state.ledger.hashes.lookup event.header.eventId = none from
        hfresh] at hrecorded
      cases hrecorded
    split
    next hgap => exact .blocked hrecorded (.inr hgap)
    next hgap =>
      rw [not_not] at hgap
      have hseq : ∀ {event'}, decode sha256 (event.encode sha256) = .ok event' →
          event'.header.controlSeq = event.header.controlSeq ∧
            event'.header.eventId = event.header.eventId := fun hdecode => by
        rw [decode_encode hdecode]
        exact ⟨rfl, rfl⟩
      have houtcome := outcome_applyControlEvent sha256 { state with operationsPaused := false }
        (event.encode sha256)
      generalize applyControlEvent sha256 { state with operationsPaused := false }
        (event.encode sha256) = answer at houtcome ⊢
      obtain ⟨after, result⟩ := answer
      dsimp only at houtcome ⊢
      cases houtcome with
      | refused hdecode hledger hresult hpaused =>
        rw [if_pos hresult]
        exact .refused hfresh hgap (fun _ htakes => hdecode _ htakes.decodes htakes.admits)
          (.inl (congrArg ControlLedger.seq hledger)) (by simp [hpaused])
      | duplicate hdecode hknown =>
        rw [(hseq hdecode).2] at hknown
        cases hknown.symm.trans hfresh
      | inconsistent hdecode hadmits hconsistent hledger hpaused =>
        refine .refused hfresh hgap (fun event' htakes => hconsistent ?_)
          (.inr ⟨?_, ?_, _, hdecode, hconsistent⟩) ?_
        · cases hdecode.symm.trans htakes.decodes
          exact htakes.consistent
        · rw [← (hseq hdecode).1]
          exact one_le_controlSeq hdecode
        · exact (congrArg ControlLedger.seq hledger).trans (hseq hdecode).1
        · simp [hpaused]
      | applied hdecode hadmits hconsistent hledger hpaused =>
        rw [decode_encode hdecode] at hledger
        exact .taken ⟨hdecode, hgap, hadmits, hconsistent⟩ hledger hpaused

end AttachmentContinuityState

end FlyCockpit.Continuity
