-- SUMMARY: The grant store: session rows and approval files, recording a verdict, looking one up.
import FlyCockpit.Approval.Key
import FlyCockpit.Lib.Faults
import FlyCockpit.Lib.Table
import Mathlib.Data.Finset.Basic

/-!
# The grant store

A verdict on a command, a path, an MCP tool or a harness is kept in one of three places: the
session's rows of the `approval_grants` table, the project's approval file, or the global one.
Every access to them may fail. Recording a verdict first removes the opposite verdict for the same
key from all places the session reaches and then writes; it is a sequence of single writes.
-/

namespace FlyCockpit.Approval

open Faults Text

inductive GrantKind
  | command
  | path
  | mcpTool
  | harness
  deriving DecidableEq, Repr

inductive Verdict
  | allow
  | reject
  deriving DecidableEq, Repr

def Verdict.opposite : Verdict → Verdict
  | .allow => .reject
  | .reject => .allow

/-- Ordered from the narrowest to the widest. -/
inductive Scope
  | once
  | session
  | project
  | global
  deriving DecidableEq, Repr

inductive RiskTier
  | ordinary
  | mutating
  | destructive
  | privileged
  | dynamic
  deriving DecidableEq, Repr

namespace RiskTier

def asStr : RiskTier → Text
  | ordinary => "ordinary".toList
  | mutating => "mutating".toList
  | destructive => "destructive".toList
  | privileged => "privileged".toList
  | dynamic => "dynamic".toList

end RiskTier

inductive SandboxPathAccess
  | read
  | readWrite
  deriving DecidableEq, Repr

/-! ## Storage -/

abbrev SessionId := Nat

/-- A row of `approval_grants` under its primary key. -/
structure SessionGrant where
  verdict : Verdict
  access : Option SandboxPathAccess
  riskTier : Option RiskTier
  deriving DecidableEq

/-- The `CHECK` constraints of the table. -/
def SessionGrant.check (kind : GrantKind) (row : SessionGrant) : Bool :=
  row.access.isSome == (kind == .path) &&
    row.riskTier.isSome == (kind == .command && row.verdict == .allow)

/-- A command grant in an approval file; the tier is the text the file has. -/
structure CommandGrantRecord where
  riskTier : Text
  deriving DecidableEq

def CommandGrantRecord.new (tier : RiskTier) : CommandGrantRecord := ⟨tier.asStr⟩

structure ApprovalsFile where
  commands : Table Text CommandGrantRecord := ∅
  paths : Table Text SandboxPathAccess := ∅
  mcpTools : Finset Text := ∅
  commandsReject : Finset Text := ∅
  pathsReject : Table Text SandboxPathAccess := ∅
  mcpToolsReject : Finset Text := ∅

/-- A directory for approvals. Below a missing global config directory nothing is ever created. -/
inductive ApprovalsDir
  | missing
  | present (file : ApprovalsFile)

def ApprovalsDir.file : ApprovalsDir → Option ApprovalsFile
  | missing => none
  | present file => some file

/-- The scopes that live in a file. -/
inductive Durable
  | project
  | global
  deriving DecidableEq, Repr

/-- What the sessions of one project share: the table, and the two directories where they resolve. -/
structure Storage where
  grants : Table (SessionId × GrantKind × Text) SessionGrant
  projectRoot : Bool
  project : Option ApprovalsDir
  global : Option ApprovalsDir

namespace Storage

def dir (s : Storage) : Durable → Option ApprovalsDir
  | .project => s.project
  | .global => s.global

def setDir (s : Storage) (d : Durable) (dir : ApprovalsDir) : Storage :=
  match d with
  | .project => { s with project := some dir }
  | .global => { s with global := some dir }

/-- The file of a scope, if its directory resolves and has one. -/
def file (s : Storage) (d : Durable) : Option ApprovalsFile := (s.dir d).bind ApprovalsDir.file

end Storage

/-- The accesses that can fail. -/
inductive Failure
  | readingGrants
  | insertingGrant
  | removingGrant
  | loadingApprovals
  | writingApprovals
  | missingGlobalConfigDir
  | noProjectApprovalsDir
  | noGlobalConfigDir
  deriving DecidableEq, Repr

inductive StoreError
  | wrapperNotPersistable (key : Text)
  | onceNotPersistable
  | harnessSessionScopeOnly
  | noProjectRoot
  | io (failure : Failure)
  deriving DecidableEq, Repr

abbrev StoreM := Program StoreError Storage

/-! ## Approval files -/

def verdictInsert (file : ApprovalsFile) (kind : GrantKind) (verdict : Verdict) (key : Text)
    (access : Option SandboxPathAccess) (riskTier : Option RiskTier) : ApprovalsFile :=
  match kind, verdict with
  | .command, .allow =>
    match riskTier with
    | some tier => { file with commands := file.commands.insert key (.new tier) }
    | none => file
  | .command, .reject => { file with commandsReject := insert key file.commandsReject }
  | .path, .allow => { file with paths := file.paths.insert key (access.getD .readWrite) }
  | .path, .reject =>
    { file with pathsReject := file.pathsReject.insert key (access.getD .readWrite) }
  | .mcpTool, .allow => { file with mcpTools := insert key file.mcpTools }
  | .mcpTool, .reject => { file with mcpToolsReject := insert key file.mcpToolsReject }
  | .harness, _ => file

/-- Whether the file has an entry. -/
def ApprovalsFile.has (file : ApprovalsFile) (kind : GrantKind) (verdict : Verdict) (key : Text) :
    Bool :=
  match kind, verdict with
  | .command, .allow => (file.commands.lookup key).isSome
  | .command, .reject => key ∈ file.commandsReject
  | .path, .allow => (file.paths.lookup key).isSome
  | .path, .reject => (file.pathsReject.lookup key).isSome
  | .mcpTool, .allow => key ∈ file.mcpTools
  | .mcpTool, .reject => key ∈ file.mcpToolsReject
  | .harness, _ => false

/-- The file without an entry, and whether the entry was there. -/
def verdictRemove (file : ApprovalsFile) (kind : GrantKind) (verdict : Verdict) (key : Text) :
    Bool × ApprovalsFile :=
  (file.has kind verdict key, match kind, verdict with
    | .command, .allow => { file with commands := file.commands.erase key }
    | .command, .reject => { file with commandsReject := file.commandsReject.erase key }
    | .path, .allow => { file with paths := file.paths.erase key }
    | .path, .reject => { file with pathsReject := file.pathsReject.erase key }
    | .mcpTool, .allow => { file with mcpTools := file.mcpTools.erase key }
    | .mcpTool, .reject => { file with mcpToolsReject := file.mcpToolsReject.erase key }
    | .harness, _ => file)

/-- One locked cycle of loading, changing and, if something changed, storing a file. -/
def mutateApprovals (d : Durable) (mutate : ApprovalsFile → Bool × ApprovalsFile) :
    StoreM PUnit :=
  call (.io .writingApprovals) fun s =>
    match s.dir d with
    | none => .ok (⟨⟩, s)
    | some .missing =>
      if (mutate {}).1 then .error (.io .missingGlobalConfigDir) else .ok (⟨⟩, s)
    | some (.present file) =>
      if (mutate file).1 then .ok (⟨⟩, s.setDir d (.present (mutate file).2)) else .ok (⟨⟩, s)

def fileInsert (d : Durable) (kind : GrantKind) (key : Text) (verdict : Verdict)
    (access : Option SandboxPathAccess) (riskTier : Option RiskTier) : StoreM PUnit :=
  mutateApprovals d fun file =>
    (true, verdictInsert (verdictRemove file kind verdict.opposite key).2 kind verdict key access
      riskTier)

def fileRemove (d : Durable) (kind : GrantKind) (key : Text) (verdict : Verdict) : StoreM PUnit :=
  mutateApprovals d fun file => verdictRemove file kind verdict key

def scopedApprovalsFile (d : Durable) : StoreM (Option ApprovalsFile) := do
  match (← view).dir d with
  | none => return none
  | some _ => read (.io .loadingApprovals) fun s => s.file d

/-! ## Session rows -/

section Session

variable (session : SessionId)

/-- `INSERT OR REPLACE` under the primary key. -/
def sessionInsert (kind : GrantKind) (key : Text) (verdict : Verdict)
    (access : Option SandboxPathAccess) (riskTier : Option RiskTier) : StoreM PUnit :=
  call (.io .insertingGrant) fun s =>
    let row : SessionGrant := ⟨verdict, access, riskTier⟩
    if row.check kind then .ok (⟨⟩, { s with grants := s.grants.insert (session, kind, key) row })
    else .error (.io .insertingGrant)

def Storage.hasRow (s : Storage) (session : SessionId) (kind : GrantKind) (key : Text)
    (verdict : Verdict) : Bool :=
  (s.grants.lookup (session, kind, key)).any fun row => row.verdict = verdict

def sessionRemove (kind : GrantKind) (key : Text) (verdict : Verdict) : StoreM PUnit :=
  call (.io .removingGrant) fun s =>
    .ok (⟨⟩, if s.hasRow session kind key verdict
      then { s with grants := s.grants.erase (session, kind, key) } else s)

/-- A pattern that is too long makes the query fail, which counts as "no match" like any failure. -/
def sessionMcpToolPrefixMatches (serverPrefix : Text) (verdict : Verdict) : StoreM Bool := do
  let found ← attempt (read (.io .readingGrants) fun s => s.grants.entries.any fun e =>
    e.1.1 = session && e.1.2.1 = GrantKind.mcpTool && e.2.verdict = verdict &&
      likeOperator (serverPrefix ++ ['%']) e.1.2.2 = some true)
  match found with
  | .ok found => return found
  | .error _ => return false

/-! ## Recording -/

def clearKeyEverywhere (kind : GrantKind) (key : Text) (verdict : Verdict) : StoreM PUnit := do
  sessionRemove session kind key verdict
  if (← view).project.isSome then fileRemove .project kind key verdict
  if (← view).global.isSome then fileRemove .global kind key verdict

/-- The write behind the clearing, at the scope asked for. -/
def writeVerdict (kind : GrantKind) (key : Text) (scope : Scope) (verdict : Verdict)
    (access : Option SandboxPathAccess) (riskTier : Option RiskTier) : StoreM PUnit :=
  match scope with
  | .once => fail .onceNotPersistable
  | .session => sessionInsert session kind key verdict access riskTier
  | .project => do
    if !(← view).projectRoot then fail .noProjectRoot
    if (← view).project.isNone then fail (.io .noProjectApprovalsDir)
    fileInsert .project kind key verdict access riskTier
  | .global => do
    if (← view).global.isNone then fail (.io .noGlobalConfigDir)
    fileInsert .global kind key verdict access riskTier

def record (kind : GrantKind) (key : Text) (scope : Scope) (verdict : Verdict)
    (access : Option SandboxPathAccess) (riskTier : Option RiskTier) : StoreM PUnit := do
  if scope = .once then fail .onceNotPersistable
  clearKeyEverywhere session kind key verdict.opposite
  writeVerdict session kind key scope verdict access riskTier

/-- What the store needs to know of a simple command. -/
structure CommandShape where
  /-- The key in its storage form. -/
  key : Text
  wrapper : Bool
  executionBearingOption : Bool
  deriving DecidableEq

def recordCommand (info : CommandShape) (tier : RiskTier) (scope : Scope) : StoreM PUnit := do
  if scope = .once then fail .onceNotPersistable
  if info.wrapper || info.executionBearingOption then fail (.wrapperNotPersistable info.key)
  record session .command info.key scope .allow none (some tier)

def recordCommandReject (info : CommandShape) (scope : Scope) : StoreM PUnit := do
  if scope = .once then fail .onceNotPersistable
  if info.wrapper || info.executionBearingOption then fail (.wrapperNotPersistable info.key)
  record session .command info.key scope .reject none none

/-- The path is the normalized one. -/
def recordPath (path : Text) (scope : Scope) (access : SandboxPathAccess) : StoreM PUnit := do
  if scope = .once then fail .onceNotPersistable
  record session .path path scope .allow (some access) none

def recordPathReject (path : Text) (scope : Scope) : StoreM PUnit := do
  if scope = .once then fail .onceNotPersistable
  record session .path path scope .reject (some .readWrite) none

def recordMcpKey (key : Text) (scope : Scope) (verdict : Verdict) : StoreM PUnit := do
  if scope = .once then fail .onceNotPersistable
  record session .mcpTool key scope verdict none none

def recordHarness (harness : Text) (scope : Scope) : StoreM PUnit :=
  match scope with
  | .once => fail .onceNotPersistable
  | .session => record session .harness harness .session .allow none none
  | .project | .global => fail .harnessSessionScopeOnly

/-! ## Looking up -/

def anyMcpToolAllowForServer (agent : Option Text) (profile server : Text) : StoreM Bool := do
  let serverPrefix := mcpToolServerPrefix agent profile server
  if ← sessionMcpToolPrefixMatches session serverPrefix .allow then return true
  let project ← scopedApprovalsFile .project
  let global ← scopedApprovalsFile .global
  if project.any fun file => ∃ key ∈ file.mcpTools, serverPrefix <+: key then return true
  if global.any fun file => ∃ key ∈ file.mcpTools, serverPrefix <+: key then return true
  return false

end Session

end FlyCockpit.Approval
