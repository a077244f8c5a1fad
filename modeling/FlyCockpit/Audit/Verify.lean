-- SUMMARY: The sealed head of the audit chain, and verification of stored rows against it.
import FlyCockpit.Audit.Entry

/-!
# Verification of the chain

Rows link by sequence number and MAC from the start of the log, or from the anchor a prune
checkpoint left behind. A head without a pending entry must name the last row; a head with one must
continue the confirmed entry, and the row may or may not be stored yet. The entry MAC is a parameter
of the development. A prune checkpoint names the prefix it replaces in fields that other entries use
otherwise.
-/

namespace FlyCockpit.Audit

open ComputerAuditEntryV1 (decode)

/-- `HMAC-SHA-256` by key and message. -/
structure Crypto where
  hmac : Bytes → Bytes → Block 32

/-- The head names the last confirmed entry and, while an append is under way, carries the pending
    entry in full. -/
structure ComputerAuditSealedHeadV1 where
  pendingPresent : Bool
  sealedGeneration : UInt64
  confirmedSequence : UInt64
  confirmedMac : Block 32
  confirmedKeyVersion : UInt32
  databaseInstanceId : Block 16
  pendingEntry : Block 424
  pendingMac : Block 32
  pendingPreviousSequence : UInt64
  pendingPreviousMac : Block 32
  pendingKeyVersion : UInt32
  pendingDatabaseInstanceId : Block 16
  deriving DecidableEq

namespace ComputerAuditSealedHeadV1

def confirmedOnly (sealedGeneration confirmedSequence : UInt64) (confirmedMac : Block 32)
    (confirmedKeyVersion : UInt32) (databaseInstanceId : Block 16) : ComputerAuditSealedHeadV1 where
  pendingPresent := false
  sealedGeneration
  confirmedSequence
  confirmedMac
  confirmedKeyVersion
  databaseInstanceId
  pendingEntry := .zero _
  pendingMac := .zero _
  pendingPreviousSequence := 0
  pendingPreviousMac := .zero _
  pendingKeyVersion := 0
  pendingDatabaseInstanceId := .zero _

end ComputerAuditSealedHeadV1

structure ComputerAuditEntryRow where
  sequence : UInt64
  entryBytes : Block 424
  mac : Block 32
  eventKind : UInt8
  proposalId : Block 16
  keyVersion : UInt32
  deriving DecidableEq

structure ChainEntry where
  sequence : UInt64
  entryBytes : Block 424
  mac : Block 32

inductive AuditVerifyStatus
  | corrupt
  | unavailableSecureStore
  | unavailableDatabase
  | unavailableKey
  | pendingRecovery
  | databaseBehindSealedHead
  | sealedHeadBehindDatabase
  | verified
  deriving DecidableEq, Repr

/-- The statuses under which a log goes on to be used. -/
def AuditVerifyStatus.usable (status : AuditVerifyStatus) : Bool :=
  status = .verified ∨ status = .pendingRecovery

structure AuditVerifyResult where
  status : AuditVerifyStatus
  confirmedSequence : UInt64
  confirmedMac : Block 32
  sealedGeneration : UInt64
  databaseInstanceId : Block 16
  entryCount : UInt64

/-- `empty_status`. -/
def emptyStatus (status : AuditVerifyStatus) : AuditVerifyResult :=
  { status, confirmedSequence := 0, confirmedMac := .zero _, sealedGeneration := 0,
    databaseInstanceId := .zero _, entryCount := 0 }

namespace ComputerAuditSealedHeadV1

/-- A result that repeats the confirmed part of the head; `corrupt_result` is the corrupt one. -/
def result (h : ComputerAuditSealedHeadV1) (status : AuditVerifyStatus) (entryCount : UInt64) :
    AuditVerifyResult :=
  { status, confirmedSequence := h.confirmedSequence, confirmedMac := h.confirmedMac,
    sealedGeneration := h.sealedGeneration, databaseInstanceId := h.databaseInstanceId,
    entryCount }

end ComputerAuditSealedHeadV1

/-! ## Rows and their projections -/

/-- A decoded row, if its columns are those of its body. -/
def authenticatedEntry (row : ComputerAuditEntryRow) : Option ComputerAuditEntryV1 :=
  match decode row.entryBytes with
  | .error _ => none
  | .ok entry =>
    if entry.sequence = row.sequence ∧ entry.eventKind.asByte = row.eventKind ∧
        entry.proposalId = row.proposalId ∧ entry.keyVersion = row.keyVersion then some entry
    else none

theorem authenticatedEntry_eq_some {row : ComputerAuditEntryRow} {entry : ComputerAuditEntryV1} :
    authenticatedEntry row = some entry ↔ decode row.entryBytes = .ok entry ∧
      entry.sequence = row.sequence ∧ entry.eventKind.asByte = row.eventKind ∧
      entry.proposalId = row.proposalId ∧ entry.keyVersion = row.keyVersion := by
  unfold authenticatedEntry
  cases decode row.entryBytes with
  | error e => simp
  | ok decoded =>
    dsimp only
    constructor
    · intro h
      split_ifs at h with hcolumns
      obtain rfl := Option.some.inj h
      exact ⟨rfl, hcolumns⟩
    · rintro ⟨hdecode, hcolumns⟩
      obtain rfl := Except.ok.inj hdecode
      exact if_pos hcolumns

def chainEntries (rows : List ComputerAuditEntryRow) : List ChainEntry :=
  rows.map fun row => { sequence := row.sequence, entryBytes := row.entryBytes, mac := row.mac }

/-! ## Entry MACs -/

def entryMacDomain : Bytes := Bytes.ascii "flycockpit-computer-audit-v1"

def entryMac (crypto : Crypto) (key : Bytes) (entryBytes : Block 424) : Block 32 :=
  crypto.hmac key (entryMacDomain ++ [0] ++ entryBytes.val)

/-! ## The chain -/

/-- `prune_anchor_mac`: the last matching checkpoint wins, and an unreadable row ends the search. -/
def pruneAnchorMac (firstSequence : UInt64) :
    List ChainEntry → Option (Block 32) → Option (Block 32)
  | [], anchor => anchor
  | entry :: rest, anchor =>
    match decode entry.entryBytes with
    | .error _ => none
    | .ok decoded =>
      if decoded.eventKind = .pruneCheckpoint ∧
          decoded.monotonicNanos.saturatingAdd 1 = firstSequence then
        pruneAnchorMac firstSequence rest (some decoded.hostLeaseDigest)
      else pruneAnchorMac firstSequence rest anchor

/-- The sequence number and MAC the first row has to continue. -/
def chainStart (entries : List ChainEntry) : Option (UInt64 × Block 32) :=
  match entries with
  | [] => some (0, .zero _)
  | first :: _ =>
    match decode first.entryBytes with
    | .error _ => none
    | .ok decoded =>
      if 1 < decoded.sequence then
        (pruneAnchorMac decoded.sequence entries none).map fun anchor =>
          (decoded.sequence.saturatingSub 1, anchor)
      else some (0, .zero _)

variable (crypto : Crypto) (keys : UInt32 → Option Bytes)

/-- One round of the loop of `verify_chain`. -/
def checkEntry (previousSequence : UInt64) (previousMac : Block 32) (entry : ChainEntry) :
    Except AuditVerifyStatus Unit :=
  match decode entry.entryBytes with
  | .error _ => .error .corrupt
  | .ok decoded =>
    if decoded.sequence ≠ entry.sequence then .error .corrupt
    else if decoded.sequence ≠ previousSequence + 1 then .error .corrupt
    else if decoded.previousMac ≠ previousMac then .error .corrupt
    else
      match keys decoded.keyVersion with
      | none => .error .unavailableKey
      | some key =>
        if entryMac crypto key entry.entryBytes ≠ entry.mac then .error .corrupt
        else
          match decoded.validatePresence with
          | .error _ => .error .corrupt
          | .ok _ => .ok ()

/-- The loop of `verify_chain`: the last confirmed sequence number and MAC, or the status and the
    count it stopped with. -/
def checkEntries (previousSequence : UInt64) (previousMac : Block 32) (confirmed : UInt64 × Block 32) :
    List ChainEntry → Except (AuditVerifyStatus × UInt64) (UInt64 × Block 32)
  | [] => .ok confirmed
  | entry :: rest =>
    match checkEntry crypto keys previousSequence previousMac entry with
    | .error .unavailableKey => .error (.unavailableKey, previousSequence)
    | .error status => .error (status, confirmed.1)
    | .ok _ => checkEntries entry.sequence entry.mac (entry.sequence, entry.mac) rest

/-- What the stored entries confirm by themselves. -/
def confirmedBy (entries : List ChainEntry) :
    Except (AuditVerifyStatus × UInt64) (UInt64 × Block 32) :=
  match chainStart entries with
  | none => .error (.corrupt, 0)
  | some (previousSequence, previousMac) =>
    checkEntries crypto keys previousSequence previousMac (0, .zero _) entries

/-- Whether the pending entry of a head continues its confirmed part. -/
def checkPending (head : ComputerAuditSealedHeadV1) : Except AuditVerifyStatus Unit :=
  match decode head.pendingEntry with
  | .error _ => .error .corrupt
  | .ok pending =>
    if pending.previousMac ≠ head.confirmedMac ∨ pending.sequence ≠ head.confirmedSequence + 1 then
      .error .corrupt
    else
      match keys pending.keyVersion with
      | none => .error .unavailableKey
      | some key =>
        if entryMac crypto key head.pendingEntry ≠ head.pendingMac then .error .corrupt
        else if head.pendingPreviousSequence ≠ head.confirmedSequence ∨
            head.pendingPreviousMac ≠ head.confirmedMac then .error .corrupt
        else
          match pending.validatePresence with
          | .error _ => .error .corrupt
          | .ok _ => .ok ()

/-- The status of entries that confirm `sequence` under a head with a pending entry. -/
def pendingStatus (head : ComputerAuditSealedHeadV1) (entries : List ChainEntry)
    (sequence : UInt64) : AuditVerifyStatus :=
  if sequence = head.confirmedSequence then .pendingRecovery
  else if sequence = head.confirmedSequence + 1 then
    match entries.getLast? with
    | some last =>
      if last.entryBytes = head.pendingEntry ∧ last.mac = head.pendingMac then .pendingRecovery
      else .corrupt
    | none => .corrupt
  else if sequence < head.confirmedSequence then .databaseBehindSealedHead
  else .sealedHeadBehindDatabase

def verifyChain (sealedHead : Option ComputerAuditSealedHeadV1)
    (dbEntries : Option (List ChainEntry)) : AuditVerifyResult :=
  match sealedHead with
  | none => emptyStatus .unavailableSecureStore
  | some head =>
    match dbEntries with
    | none => head.result .unavailableDatabase 0
    | some entries =>
      match confirmedBy crypto keys entries with
      | .error (status, count) => head.result status count
      | .ok (sequence, mac) =>
        if head.pendingPresent then
          match checkPending crypto keys head with
          | .error status => head.result status sequence
          | .ok _ => head.result (pendingStatus head entries sequence) sequence
        else if sequence = head.confirmedSequence ∧ mac = head.confirmedMac then
          head.result .verified sequence
        else if sequence < head.confirmedSequence then
          head.result .databaseBehindSealedHead sequence
        else head.result .sealedHeadBehindDatabase sequence

def indexColumnMismatchResult (head : Option ComputerAuditSealedHeadV1) : AuditVerifyResult :=
  match head with
  | some head => head.result .corrupt 0
  | none => emptyStatus .corrupt

def verifyWith (head : Option ComputerAuditSealedHeadV1)
    (rows : Option (List ComputerAuditEntryRow)) : AuditVerifyResult :=
  if (rows.getD []).all fun row => (authenticatedEntry row).isSome then
    verifyChain crypto keys head (rows.map chainEntries)
  else indexColumnMismatchResult head

/-! ## What verification accepts -/

variable {crypto keys} {previousSequence : UInt64} {previousMac : Block 32}
  {confirmed r : UInt64 × Block 32} {entry : ChainEntry} {entries : List ChainEntry}
  {head : ComputerAuditSealedHeadV1}

theorem checkEntry_eq_ok : checkEntry crypto keys previousSequence previousMac entry = .ok () ↔
      ∃ decoded key, decode entry.entryBytes = .ok decoded ∧
        decoded.sequence = entry.sequence ∧ decoded.sequence = previousSequence + 1 ∧
        decoded.previousMac = previousMac ∧ keys decoded.keyVersion = some key ∧
        entryMac crypto key entry.entryBytes = entry.mac ∧ decoded.validatePresence = .ok () := by
  unfold checkEntry
  cases hdecode : decode entry.entryBytes with
  | error e => simp
  | ok decoded =>
    cases hkey : keys decoded.keyVersion with
    | none => simp [hkey, ite_eq_iff]
    | some key => cases hpresence : decoded.validatePresence <;> simp [hkey, hpresence, ite_eq_iff]

theorem checkEntries_cons_eq_ok {rest : List ChainEntry} :
    checkEntries crypto keys previousSequence previousMac confirmed (entry :: rest) = .ok r ↔
      checkEntry crypto keys previousSequence previousMac entry = .ok () ∧
        checkEntries crypto keys entry.sequence entry.mac (entry.sequence, entry.mac) rest = .ok r := by
  rw [checkEntries]
  cases checkEntry crypto keys previousSequence previousMac entry with
  | error status => cases status <;> simp
  | ok u => simp

/-! ## What a rejection says -/

theorem usable_of_checkEntry_eq_error {status : AuditVerifyStatus}
    (h : checkEntry crypto keys previousSequence previousMac entry = .error status) :
    status.usable = false := by
  unfold checkEntry at h
  repeat' split at h
  all_goals cases h
  all_goals rfl

theorem usable_of_checkEntries_eq_error {failure : AuditVerifyStatus × UInt64}
    (h : checkEntries crypto keys previousSequence previousMac confirmed entries = .error failure) :
    failure.1.usable = false := by
  induction entries generalizing previousSequence previousMac confirmed with
  | nil => cases h
  | cons entry rest ih =>
    rw [checkEntries] at h
    split at h
    next => cases h; rfl
    next status hentry => cases h; exact usable_of_checkEntry_eq_error hentry
    next => exact ih h

theorem usable_of_confirmedBy_eq_error
    {failure : AuditVerifyStatus × UInt64} (h : confirmedBy crypto keys entries = .error failure) :
    failure.1.usable = false := by
  unfold confirmedBy at h
  split at h
  · cases h
    rfl
  · exact usable_of_checkEntries_eq_error h

theorem usable_of_checkPending_eq_error
    {status : AuditVerifyStatus} (h : checkPending crypto keys head = .error status) :
    status.usable = false := by
  unfold checkPending at h
  repeat' split at h
  all_goals cases h
  all_goals rfl

/-- Without an entry under way, a usable log is a verified one. -/
theorem verifyChain_usable (hpending : head.pendingPresent = false) :
    (verifyChain crypto keys (some head) (some entries)).status.usable = true ↔
      confirmedBy crypto keys entries = .ok (head.confirmedSequence, head.confirmedMac) := by
  simp only [verifyChain, hpending, Bool.false_eq_true, if_false]
  cases hconfirmed : confirmedBy crypto keys entries with
  | error failure =>
    have husable := usable_of_confirmedBy_eq_error hconfirmed
    simp [ComputerAuditSealedHeadV1.result, husable]
  | ok r =>
    obtain ⟨sequence, mac⟩ := r
    by_cases heq : sequence = head.confirmedSequence ∧ mac = head.confirmedMac
    · simp [heq, ComputerAuditSealedHeadV1.result, AuditVerifyStatus.usable]
    · simp only [heq, if_false]
      split <;> simp [ComputerAuditSealedHeadV1.result, AuditVerifyStatus.usable, heq]

/-- A verified log has nothing under way. -/
theorem verifyChain_verified
    (h : (verifyChain crypto keys (some head) (some entries)).status = .verified) :
    head.pendingPresent = false := by
  cases hpending : head.pendingPresent with
  | false => rfl
  | true =>
    simp only [verifyChain, hpending, if_true] at h
    split at h
    next status count hconfirmed =>
      have husable := usable_of_confirmedBy_eq_error hconfirmed
      rw [show status = .verified from h] at husable
      cases husable
    next =>
      split at h
      next status hcheck =>
        have husable := usable_of_checkPending_eq_error hcheck
        rw [show status = .verified from h] at husable
        cases husable
      next =>
        simp only [ComputerAuditSealedHeadV1.result, pendingStatus] at h
        repeat' split at h
        all_goals cases h

/-! ## Stored rows -/

/-- The column rules of the schema that a reader relies on. -/
def ComputerAuditEntryRow.Stored (row : ComputerAuditEntryRow) : Prop :=
  1 ≤ row.sequence ∧ row.sequence.FitsI64 ∧ 1 ≤ row.eventKind ∧ row.eventKind ≤ 29 ∧
    1 ≤ row.keyVersion

instance ComputerAuditEntryRow.instDecidableStored (row : ComputerAuditEntryRow) :
    Decidable row.Stored := by
  unfold ComputerAuditEntryRow.Stored
  infer_instance

/-! ## Prune checkpoints -/

structure PruneCheckpointAppend where
  operationId : Block 16
  prefixStart : UInt64
  prefixEnd : UInt64
  firstMac : Block 32
  lastMac : Block 32
  exportId : Block 16
  exportDigest : Block 32
  priorCheckpointDigest : Block 32
  recordDigest : Block 32
  deriving DecidableEq

def checkpointBits : UInt32 :=
  PresentBits.operationId ||| PresentBits.recordDigest ||| PresentBits.journalVersion |||
    PresentBits.sessionId ||| PresentBits.canonicalProjectDigest ||| PresentBits.modelDigest |||
    PresentBits.observationDigest ||| PresentBits.hostLeaseDigest

def buildPruneCheckpointEntry (event : PruneCheckpointAppend) (sequence : UInt64)
    (previousMac : Block 32) (keyVersion : UInt32) (wallUnixMillis : Int64) :
    ComputerAuditEntryV1 where
  eventKind := .pruneCheckpoint
  presentBits := checkpointBits
  sequence
  previousMac
  sessionId := event.exportId
  delegationId := .zero _
  actionId := .zero _
  operationId := event.operationId
  proposalId := .zero _
  disposition := 0
  scope := 0
  canonicalProjectDigest := event.exportDigest
  providerDigest := .zero _
  modelDigest := event.priorCheckpointDigest
  physicalTargetDigest := .zero _
  focusDigest := .zero _
  observationDigest := event.firstMac
  hostLeaseDigest := event.lastMac
  recordDigest := event.recordDigest
  askYolo := 0
  actionClass := 0
  journalState := 0
  verificationState := 0
  journalVersion := event.prefixStart
  monotonicNanos := event.prefixEnd
  wallUnixMillis
  errorCode := 0
  ruleKindBits := 0
  keyVersion

def plainEntry (sequence : UInt64) (previousMac : Block 32) : ComputerAuditEntryV1 where
  eventKind := .delegationStarted
  presentBits := 0
  sequence
  previousMac
  sessionId := .zero _
  delegationId := .zero _
  actionId := .zero _
  operationId := .zero _
  proposalId := .zero _
  disposition := 0
  scope := 0
  canonicalProjectDigest := .zero _
  providerDigest := .zero _
  modelDigest := .zero _
  physicalTargetDigest := .zero _
  focusDigest := .zero _
  observationDigest := .zero _
  hostLeaseDigest := .zero _
  recordDigest := .zero _
  askYolo := 0
  actionClass := 0
  journalState := 0
  verificationState := 0
  journalVersion := 0
  monotonicNanos := 0
  wallUnixMillis := 0
  errorCode := 0
  ruleKindBits := 0
  keyVersion := 1

end FlyCockpit.Audit
