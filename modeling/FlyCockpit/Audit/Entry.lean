-- SUMMARY: The canonical 424-byte audit entry: kinds, encoding, decoding and presence rules.
import FlyCockpit.Lib.Bytes
import FlyCockpit.Lib.Fallible

/-!
# Audit entries

An entry of the computer-use audit chain is encoded into exactly 424 bytes. Optional fields are
announced by a mask of present bits: a present field must not be zero and an absent one must be.
-/

namespace FlyCockpit.Audit

open Bytes Fallible

/-! ## Event kinds -/

inductive AuditEventKind
  | delegationStarted
  | askRequested
  | askAllowed
  | askDenied
  | leaseRevoked
  | observationCreated
  | actionPrepared
  | actionDispatching
  | actionAccepted
  | actionSubmissionUnknown
  | actionRejected
  | actionBackendCompleted
  | actionVerified
  | actionVerificationFailed
  | actionFailed
  | actionCancelRequested
  | actionCancelled
  | actionCompletedAfterCancel
  | delegationTerminal
  | guidanceProposalCreated
  | guidanceProposalAccepted
  | guidanceProposalRejected
  | guidanceProposalExpired
  | recoveryStarted
  | recoveryResolved
  | keyRotationCheckpoint
  | pruneCheckpoint
  | exportRecorded
  | sessionDeleted
  deriving DecidableEq, Repr

namespace AuditEventKind

def asByte : AuditEventKind → UInt8
  | .delegationStarted => 1
  | .askRequested => 2
  | .askAllowed => 3
  | .askDenied => 4
  | .leaseRevoked => 5
  | .observationCreated => 6
  | .actionPrepared => 7
  | .actionDispatching => 8
  | .actionAccepted => 9
  | .actionSubmissionUnknown => 10
  | .actionRejected => 11
  | .actionBackendCompleted => 12
  | .actionVerified => 13
  | .actionVerificationFailed => 14
  | .actionFailed => 15
  | .actionCancelRequested => 16
  | .actionCancelled => 17
  | .actionCompletedAfterCancel => 18
  | .delegationTerminal => 19
  | .guidanceProposalCreated => 20
  | .guidanceProposalAccepted => 21
  | .guidanceProposalRejected => 22
  | .guidanceProposalExpired => 23
  | .recoveryStarted => 24
  | .recoveryResolved => 25
  | .keyRotationCheckpoint => 26
  | .pruneCheckpoint => 27
  | .exportRecorded => 28
  | .sessionDeleted => 29

def fromByte (b : UInt8) : Option AuditEventKind :=
  match b.toNat with
  | 1 => some .delegationStarted
  | 2 => some .askRequested
  | 3 => some .askAllowed
  | 4 => some .askDenied
  | 5 => some .leaseRevoked
  | 6 => some .observationCreated
  | 7 => some .actionPrepared
  | 8 => some .actionDispatching
  | 9 => some .actionAccepted
  | 10 => some .actionSubmissionUnknown
  | 11 => some .actionRejected
  | 12 => some .actionBackendCompleted
  | 13 => some .actionVerified
  | 14 => some .actionVerificationFailed
  | 15 => some .actionFailed
  | 16 => some .actionCancelRequested
  | 17 => some .actionCancelled
  | 18 => some .actionCompletedAfterCancel
  | 19 => some .delegationTerminal
  | 20 => some .guidanceProposalCreated
  | 21 => some .guidanceProposalAccepted
  | 22 => some .guidanceProposalRejected
  | 23 => some .guidanceProposalExpired
  | 24 => some .recoveryStarted
  | 25 => some .recoveryResolved
  | 26 => some .keyRotationCheckpoint
  | 27 => some .pruneCheckpoint
  | 28 => some .exportRecorded
  | 29 => some .sessionDeleted
  | _ => none

end AuditEventKind

/-! ## The entry -/

structure ComputerAuditEntryV1 where
  eventKind : AuditEventKind
  presentBits : UInt32
  sequence : UInt64
  previousMac : Block 32
  sessionId : Block 16
  delegationId : Block 16
  actionId : Block 16
  operationId : Block 16
  proposalId : Block 16
  disposition : UInt8
  scope : UInt8
  canonicalProjectDigest : Block 32
  providerDigest : Block 32
  modelDigest : Block 32
  physicalTargetDigest : Block 32
  focusDigest : Block 32
  observationDigest : Block 32
  hostLeaseDigest : Block 32
  recordDigest : Block 32
  askYolo : UInt8
  actionClass : UInt8
  journalState : UInt8
  verificationState : UInt8
  journalVersion : UInt64
  monotonicNanos : UInt64
  wallUnixMillis : Int64
  errorCode : UInt16
  ruleKindBits : UInt16
  keyVersion : UInt32
  deriving DecidableEq

inductive AuditDecodeError
  | badMagic
  | badVersion (version : UInt8)
  | invalidEventKind (kind : UInt8)
  | reservedPresentBits (bits : UInt32)
  | presentButZero (field : String)
  | absentButNonzero (field : String)
  | invalidEnumValue (field : String) (value : UInt8)
  | invalidErrorCode (code : UInt16)
  | invalidRuleKindBits (bits : UInt16)
  deriving DecidableEq, Repr

namespace PresentBits

def bit (i : UInt32) : UInt32 := (1 : UInt32) <<< i

def sessionId : UInt32 := bit 0
def delegationId : UInt32 := bit 1
def actionId : UInt32 := bit 2
def operationId : UInt32 := bit 3
def proposalId : UInt32 := bit 4
def disposition : UInt32 := bit 5
def scope : UInt32 := bit 6
def canonicalProjectDigest : UInt32 := bit 7
def providerDigest : UInt32 := bit 8
def modelDigest : UInt32 := bit 9
def physicalTargetDigest : UInt32 := bit 10
def focusDigest : UInt32 := bit 11
def observationDigest : UInt32 := bit 12
def hostLeaseDigest : UInt32 := bit 13
def recordDigest : UInt32 := bit 14
def askYolo : UInt32 := bit 15
def actionClass : UInt32 := bit 16
def journalState : UInt32 := bit 17
def verificationState : UInt32 := bit 18
def journalVersion : UInt32 := bit 19
def errorCode : UInt32 := bit 20
def ruleKindBits : UInt32 := bit 21
def allValid : UInt32 := bit 22 - 1

end PresentBits

namespace ComputerAuditEntryV1

/-- The fields in their order, nested to the right so that a slice is found by skipping fields. -/
def encodeBytes (e : ComputerAuditEntryV1) : Bytes :=
  [70, 67, 65, 69] ++ ([1] ++ ([e.eventKind.asByte] ++ (be32 e.presentBits ++
    (be64 e.sequence ++ (e.previousMac.val ++ (e.sessionId.val ++ (e.delegationId.val ++
    (e.actionId.val ++ (e.operationId.val ++ (e.proposalId.val ++ ([e.disposition] ++ ([e.scope] ++
    (e.canonicalProjectDigest.val ++ (e.providerDigest.val ++ (e.modelDigest.val ++
    (e.physicalTargetDigest.val ++ (e.focusDigest.val ++ (e.observationDigest.val ++
    (e.hostLeaseDigest.val ++ (e.recordDigest.val ++ ([e.askYolo] ++ ([e.actionClass] ++
    ([e.journalState] ++ ([e.verificationState] ++ (be64 e.journalVersion ++
    (be64 e.monotonicNanos ++ (beI64 e.wallUnixMillis ++ (be16 e.errorCode ++
    (be16 e.ruleKindBits ++ be32 e.keyVersion)))))))))))))))))))))))))))))

def encode (e : ComputerAuditEntryV1) : Block 424 :=
  ⟨e.encodeBytes, by simp [encodeBytes]⟩

def decode (buf : Block 424) : Except AuditDecodeError ComputerAuditEntryV1 :=
  if buf.val.slice 0 4 ≠ [70, 67, 65, 69] then .error .badMagic
  else if buf.byte 4 ≠ 1 then .error (.badVersion (buf.byte 4))
  else
    match AuditEventKind.fromByte (buf.byte 5) with
    | none => .error (.invalidEventKind (buf.byte 5))
    | some eventKind =>
      let presentBits := word32 (buf.val.slice 6 4)
      if presentBits &&& ~~~PresentBits.allValid ≠ 0 then .error (.reservedPresentBits presentBits)
      else
        .ok
          { eventKind
            presentBits
            sequence := word64 (buf.val.slice 10 8)
            previousMac := .cut buf.val 18 32
            sessionId := .cut buf.val 50 16
            delegationId := .cut buf.val 66 16
            actionId := .cut buf.val 82 16
            operationId := .cut buf.val 98 16
            proposalId := .cut buf.val 114 16
            disposition := buf.byte 130
            scope := buf.byte 131
            canonicalProjectDigest := .cut buf.val 132 32
            providerDigest := .cut buf.val 164 32
            modelDigest := .cut buf.val 196 32
            physicalTargetDigest := .cut buf.val 228 32
            focusDigest := .cut buf.val 260 32
            observationDigest := .cut buf.val 292 32
            hostLeaseDigest := .cut buf.val 324 32
            recordDigest := .cut buf.val 356 32
            askYolo := buf.byte 388
            actionClass := buf.byte 389
            journalState := buf.byte 390
            verificationState := buf.byte 391
            journalVersion := word64 (buf.val.slice 392 8)
            monotonicNanos := word64 (buf.val.slice 400 8)
            wallUnixMillis := wordI64 (buf.val.slice 408 8)
            errorCode := word16 (buf.val.slice 416 2)
            ruleKindBits := word16 (buf.val.slice 418 2)
            keyVersion := word32 (buf.val.slice 420 4) }

/-! ## Presence -/

/-- Whether the present bit of a field is set. -/
def has (e : ComputerAuditEntryV1) (bit : UInt32) : Bool := e.presentBits &&& bit ≠ 0

/-- `check_id` and `check_digest`, and the rule for a field that is only compared with zero. -/
def checkZero (present isZero : Bool) (field : String) : Except AuditDecodeError Unit :=
  if present then if isZero then .error (.presentButZero field) else .ok ()
  else if isZero then .ok ()
  else .error (.absentButNonzero field)

/-- The rule for a closed enum whose values are numbered from 1 to `last`. -/
def checkEnum (present : Bool) (value last : UInt8) (field : String) :
    Except AuditDecodeError Unit :=
  if present then
    if value = 0 then .error (.presentButZero field)
    else if last < value then .error (.invalidEnumValue field value)
    else .ok ()
  else if value ≠ 0 then .error (.absentButNonzero field)
  else .ok ()

def checkErrorCode (present : Bool) (code : UInt16) : Except AuditDecodeError Unit :=
  if present then if 13 < code then .error (.invalidErrorCode code) else .ok ()
  else if code ≠ 0 then .error (.absentButNonzero "error_code")
  else .ok ()

def checkRuleKindBits (present : Bool) (bits : UInt16) : Except AuditDecodeError Unit :=
  if present then
    if bits = 0 then .error (.presentButZero "rule_kind_bits")
    else if bits &&& ~~~0b111111 ≠ 0 then .error (.invalidRuleKindBits bits)
    else .ok ()
  else if bits ≠ 0 then .error (.absentButNonzero "rule_kind_bits")
  else .ok ()

def checkKeyVersion (keyVersion : UInt32) : Except AuditDecodeError Unit :=
  if keyVersion = 0 then .error (.presentButZero "key_version") else .ok ()

def validatePresence (e : ComputerAuditEntryV1) : Except AuditDecodeError Unit := do
  checkZero (e.has PresentBits.sessionId) e.sessionId.isZero "session_id"
  checkZero (e.has PresentBits.delegationId) e.delegationId.isZero "delegation_id"
  checkZero (e.has PresentBits.actionId) e.actionId.isZero "action_id"
  checkZero (e.has PresentBits.operationId) e.operationId.isZero "operation_id"
  checkZero (e.has PresentBits.proposalId) e.proposalId.isZero "proposal_id"
  checkEnum (e.has PresentBits.disposition) e.disposition 7 "disposition"
  checkEnum (e.has PresentBits.scope) e.scope 2 "scope"
  checkZero (e.has PresentBits.canonicalProjectDigest) e.canonicalProjectDigest.isZero
    "canonical_project_digest"
  checkZero (e.has PresentBits.providerDigest) e.providerDigest.isZero "provider_digest"
  checkZero (e.has PresentBits.modelDigest) e.modelDigest.isZero "model_digest"
  checkZero (e.has PresentBits.physicalTargetDigest) e.physicalTargetDigest.isZero
    "physical_target_digest"
  checkZero (e.has PresentBits.focusDigest) e.focusDigest.isZero "focus_digest"
  checkZero (e.has PresentBits.observationDigest) e.observationDigest.isZero "observation_digest"
  checkZero (e.has PresentBits.hostLeaseDigest) e.hostLeaseDigest.isZero "host_lease_digest"
  checkZero (e.has PresentBits.recordDigest) e.recordDigest.isZero "record_digest"
  checkEnum (e.has PresentBits.askYolo) e.askYolo 2 "ask_yolo"
  checkEnum (e.has PresentBits.actionClass) e.actionClass 7 "action_class"
  checkEnum (e.has PresentBits.journalState) e.journalState 9 "journal_state"
  checkEnum (e.has PresentBits.verificationState) e.verificationState 4 "verification_state"
  checkZero (e.has PresentBits.journalVersion) (e.journalVersion = 0) "journal_version"
  checkErrorCode (e.has PresentBits.errorCode) e.errorCode
  checkRuleKindBits (e.has PresentBits.ruleKindBits) e.ruleKindBits
  checkKeyVersion e.keyVersion

end ComputerAuditEntryV1

end FlyCockpit.Audit
