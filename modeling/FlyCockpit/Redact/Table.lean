-- SUMMARY: The redaction table: entries, their construction, unions, forced literals and sealed replacements.
import FlyCockpit.Lib.Utf8
import Mathlib.Data.List.Infix
import Mathlib.Data.List.Sort
import Mathlib.Data.List.Destutter

/-!
# Redaction tables

A table lists the literals that must not leave the machine. Every table is built by
`fromRedactionEntries`, which drops entries that are too short and, unless their origin is forced,
all entries of an origin one of whose literals names a protected path.

Texts are byte strings. The file system and the authority that bindings are checked with are
parameters.
-/

namespace FlyCockpit.Redact

open Bytes List

/-- The needle occurs in the haystack. -/
def contains (haystack needle : Bytes) : Bool := decide (needle <:+: haystack)

/-! ## Entries -/

inductive OrdinarySource where
  | environment
  | credential
  | containedLeak
  deriving DecidableEq

inductive SealedScopeKind where
  | session
  | project
  | global
  | knowledgeBase
  deriving DecidableEq

def SealedScopeKind.asStr : SealedScopeKind → Bytes
  | .session => ascii "session"
  | .project => ascii "project"
  | .global => ascii "global"
  | .knowledgeBase => ascii "knowledge_base"

structure SealedRedactionIdentity where
  scope : SealedScopeKind
  recordId : Option Bytes
  name : Bytes
  version : Nat
  deriving DecidableEq

def sealedOriginPrefix : Bytes := ascii "sealed:"

def decimal (n : Nat) : Bytes := ascii (Nat.repr n)

def SealedRedactionIdentity.displayOrigin (identity : SealedRedactionIdentity) : Bytes :=
  match identity.recordId with
  | some recordId =>
    sealedOriginPrefix ++ ascii "1:" ++ identity.scope.asStr ++ ascii ":" ++ recordId ++
      ascii ":" ++ decimal identity.version ++ ascii ":" ++ identity.name
  | none => sealedOriginPrefix ++ identity.name

def sealedValueId (identity : SealedRedactionIdentity) : Bytes :=
  identity.recordId.getD identity.name

def sealedActiveKey (identity : SealedRedactionIdentity) : Bytes :=
  match identity.recordId with
  | some recordId => ascii "scoped:" ++ recordId ++ ascii "@" ++ decimal identity.version
  | none => ascii "legacy:" ++ identity.name ++ ascii "@" ++ decimal identity.version

inductive Replacement where
  | generic
  | sealed (valueId : Bytes)
  deriving DecidableEq

def sealedUntrustedInferenceMarker (valueId : Bytes) : Bytes :=
  Utf8.encode "**redacted by cockpit — to use this value, reference sealed value `" ++ valueId ++
    Utf8.encode "`**"

def Replacement.render (placeholder : Bytes) : Replacement → Bytes
  | .generic => placeholder
  | .sealed valueId => sealedUntrustedInferenceMarker valueId

inductive EntryClass where
  | ordinary (origin : Bytes) (source : OrdinarySource)
  | sealed (identity : SealedRedactionIdentity)
  deriving DecidableEq

def EntryClass.originDisplay : EntryClass → Bytes
  | .ordinary origin _ => origin
  | .sealed identity => identity.displayOrigin

structure RedactionEntry where
  value : Bytes
  valid : Utf8.Valid value
  entryClass : EntryClass
  replacement : Replacement
  deriving DecidableEq

namespace RedactionEntry

def origin (e : RedactionEntry) : Bytes := e.entryClass.originDisplay

def ordinary (value : Bytes) (valid : Utf8.Valid value) (origin : Bytes) (source : OrdinarySource) :
    RedactionEntry where
  value := value
  valid := valid
  entryClass := .ordinary origin source
  replacement := .generic

def sealed (value : Bytes) (valid : Utf8.Valid value) (identity : SealedRedactionIdentity) :
    RedactionEntry where
  value := value
  valid := valid
  entryClass := .sealed identity
  replacement := .generic

end RedactionEntry

def minRedactionEntryLength : Nat := 4

def originIsForced (origin : Bytes) : Bool :=
  origin == ascii "$denylist" || origin == ascii "$credentials:flycockpit.instance_token" ||
    (ascii "$secret:").isPrefixOf origin || (ascii "$ssh:").isPrefixOf origin

/-! ## Protected paths -/

/-- The absolute paths that exist. -/
structure Filesystem where
  symlinkMetadata : Bytes → Bool

def isExistingAbsolutePath (fs : Filesystem) (value : Bytes) : Bool :=
  (ascii "/").isPrefixOf value && fs.symlinkMetadata value

structure ProtectedPaths where
  paths : List Bytes
  deriving DecidableEq

namespace ProtectedPaths

def fromPersisted (paths : List Bytes) : ProtectedPaths :=
  ⟨((paths.filter (· ≠ [])).insertionSort (· ≤ ·)).destutter (· ≠ ·)⟩

def union (self other : ProtectedPaths) : ProtectedPaths := fromPersisted (self.paths ++ other.paths)

def containsValue (self : ProtectedPaths) (value : Bytes) : Bool :=
  value != [] && self.paths.any (contains · value)

end ProtectedPaths

/-- The literal names a path the redaction must not touch. -/
def conflictsWithPath (fs : Filesystem) (protectedPaths : ProtectedPaths) (value : Bytes) : Bool :=
  protectedPaths.containsValue value || isExistingAbsolutePath fs value

/-! ## Coverage bindings -/

structure RedactionCoverageKey where
  principal : Nat
  ownerAuthorization : Nat
  session : Nat
  workspace : Nat
  ownedRevisions : List Nat
  deriving DecidableEq

def RedactionCoverageKey.sameLineage (self other : RedactionCoverageKey) : Bool :=
  self.principal == other.principal && self.ownerAuthorization == other.ownerAuthorization &&
    self.session == other.session && self.workspace == other.workspace

structure CoverageTableBinding where
  authority : Nat
  generationId : Nat
  epoch : UInt64
  generationOrder : UInt64
  keyRevision : UInt64
  key : RedactionCoverageKey
  deriving DecidableEq

namespace CoverageTableBinding

def compareCounters (self other : CoverageTableBinding) : Ordering :=
  (compare self.epoch other.epoch).then
    ((compare self.generationOrder other.generationOrder).then
      (compare self.keyRevision other.keyRevision))

def bindingOrdering (self other : CoverageTableBinding) : Option Ordering :=
  if self.generationId = other.generationId then
    if self = other then some .eq else none
  else if self.authority ≠ other.authority ∨ ¬self.key.sameLineage other.key then none
  else
    match self.compareCounters other with
    | .eq => none
    | order => some order

end CoverageTableBinding

/-! ## Tables -/

structure RedactionTable where
  entries : List RedactionEntry
  long : ∀ e ∈ entries, minRedactionEntryLength ≤ e.value.length
  placeholder : Bytes
  placeholderConflicts : Bool
  conflicts_eq : placeholderConflicts = entries.any fun e => contains placeholder e.value
  disabled : Bool
  protectedPaths : ProtectedPaths
  protectedPathConflicts : List Bytes
  coverageBinding : Option CoverageTableBinding
  withholdAll : Bool
  scrubRefusals : List CoverageTableBinding

/-- The order of the entries: longer literals first, then by their bytes. -/
def entryOrder (a b : RedactionEntry) : Prop :=
  b.value.length < a.value.length ∨ (a.value.length = b.value.length ∧ a.value ≤ b.value)

instance instDecidableEntryOrder (a b : RedactionEntry) : Decidable (entryOrder a b) :=
  inferInstanceAs (Decidable (_ ∨ _))

/-- The origins, none of them forced, one of whose literals names a protected path. -/
def protectedConflictingOrigins (fs : Filesystem) (protectedPaths : ProtectedPaths)
    (entries : List RedactionEntry) : List Bytes :=
  (entries.filter fun e => !originIsForced e.origin && conflictsWithPath fs protectedPaths e.value).map
    RedactionEntry.origin

/-- The entries that stay: the long ones of forced origins and of origins without a conflict. -/
def admittedEntries (fs : Filesystem) (protectedPaths : ProtectedPaths) (entries : List RedactionEntry) :
    List RedactionEntry :=
  let entries := entries.filter fun e => !(e.value.length < minRedactionEntryLength)
  let conflicting := protectedConflictingOrigins fs protectedPaths entries
  entries.filter fun e =>
    if originIsForced e.origin then true
    else !conflictsWithPath fs protectedPaths e.value && !conflicting.contains e.origin

/-- The entries in order, one for each literal, rendered by the placeholder. -/
def arrangedEntries (entries : List RedactionEntry) : List RedactionEntry :=
  ((entries.insertionSort entryOrder).destutter (·.value ≠ ·.value)).map
    fun e => { e with replacement := .generic }

variable {e : RedactionEntry} {entries : List RedactionEntry}

theorem mem_destutter {l : List RedactionEntry} (h : e ∈ l.destutter (·.value ≠ ·.value)) : e ∈ l :=
  (destutter_sublist _ l).subset h

/-- Dropping repetitions keeps one element for each value. -/
theorem exists_mem_destutter {α β : Type} [DecidableEq β] (f : α → β) {l : List α} {x : α} (h : x ∈ l) :
    ∃ y ∈ l.destutter (fun a b => f a ≠ f b), f y = f x := by
  -- Behind an element that was kept, the same value is only ever skipped.
  have hfrom : ∀ (l : List α) (a x : α), x ∈ a :: l →
      ∃ y ∈ l.destutter' (fun a b => f a ≠ f b) a, f y = f x := by
    intro l
    induction l with
    | nil =>
      intro a x hx
      exact ⟨a, by simp, by rw [mem_singleton.1 hx]⟩
    | cons b l ih =>
      intro a x hx
      by_cases hne : f a ≠ f b
      · rw [List.destutter'_cons_pos l hne]
        rcases mem_cons.1 hx with rfl | hx
        · exact ⟨x, by simp, rfl⟩
        · obtain ⟨y, hy, heq⟩ := ih b x hx
          exact ⟨y, mem_cons_of_mem _ hy, heq⟩
      · rw [List.destutter'_cons_neg l hne]
        rcases mem_cons.1 hx with rfl | hx
        · exact ih x x (by simp)
        · rcases mem_cons.1 hx with rfl | hx
          · obtain ⟨y, hy, heq⟩ := ih a a (by simp)
            exact ⟨y, hy, heq.trans (not_not.1 hne)⟩
          · exact ih a x (mem_cons_of_mem _ hx)
  cases l with
  | nil => cases h
  | cons a l => exact hfrom l a x h

theorem mem_arrangedEntries
    (h : e ∈ arrangedEntries entries) : ∃ e' ∈ entries, e = { e' with replacement := .generic } := by
  obtain ⟨e', he', rfl⟩ := mem_map.1 h
  exact ⟨e', (mem_insertionSort _).1 (mem_destutter he'), rfl⟩

theorem long_of_mem_admitted {fs : Filesystem} {protectedPaths : ProtectedPaths}
    (h : e ∈ admittedEntries fs protectedPaths entries) : minRedactionEntryLength ≤ e.value.length := by
  have hlong := (mem_filter.1 (mem_filter.1 h).1).2
  simpa using hlong

def fromRedactionEntries (fs : Filesystem) (entries : List RedactionEntry) (placeholder : Bytes)
    (disabled : Bool) (protectedPaths : ProtectedPaths) : RedactionTable where
  entries := arrangedEntries (admittedEntries fs protectedPaths entries)
  long := by
    intro e he
    obtain ⟨e', he', rfl⟩ := mem_arrangedEntries he
    have hlong := long_of_mem_admitted he'
    exact hlong
  placeholder := placeholder
  placeholderConflicts := (arrangedEntries (admittedEntries fs protectedPaths entries)).any
    fun e => contains placeholder e.value
  conflicts_eq := rfl
  disabled := disabled
  protectedPaths := protectedPaths
  protectedPathConflicts :=
    ((((entries.filter fun e => !(e.value.length < minRedactionEntryLength)).filter fun e =>
        originIsForced e.origin && conflictsWithPath fs protectedPaths e.value).map
      RedactionEntry.origin).insertionSort (· ≤ ·)).destutter (· ≠ ·)
  coverageBinding := none
  withholdAll := false
  scrubRefusals := []

namespace RedactionTable

/-- The table rebuilt with one more entry. -/
def withEntry (fs : Filesystem) (t : RedactionTable) (e : RedactionEntry) : RedactionTable :=
  { fromRedactionEntries fs (t.entries ++ [e]) t.placeholder t.disabled t.protectedPaths with
    coverageBinding := t.coverageBinding
    scrubRefusals := t.scrubRefusals
    withholdAll := t.withholdAll }

def withForcedLiteral (fs : Filesystem) (t : RedactionTable) (value : Bytes) (valid : Utf8.Valid value)
    (origin : Bytes) : RedactionTable :=
  t.withEntry fs (.ordinary value valid origin .containedLeak)

def withForcedSealedLiteral (fs : Filesystem) (t : RedactionTable) (value : Bytes)
    (valid : Utf8.Valid value) (identity : SealedRedactionIdentity) : RedactionTable :=
  t.withEntry fs (.sealed value valid identity)

def mergedEntries (fs : Filesystem) (self other : RedactionTable) : RedactionTable :=
  { fromRedactionEntries fs (self.entries ++ other.entries) self.placeholder
      (self.disabled && other.disabled) (self.protectedPaths.union other.protectedPaths) with
    withholdAll := self.withholdAll || other.withholdAll
    scrubRefusals := self.scrubRefusals ++ other.scrubRefusals }

/-- The binding a union adopts, or `none` when the operands have bindings that cannot be ordered. -/
def adoptedBinding (self other : RedactionTable) : Option (Option CoverageTableBinding) :=
  match self.coverageBinding, other.coverageBinding with
  | some left, some right =>
    match left.bindingOrdering right with
    | some .eq | some .gt => some (some left)
    | some .lt => some (some right)
    | none => none
  | some left, none => some (some left)
  | none, right => some right

def union (fs : Filesystem) (self other : RedactionTable) : Except String RedactionTable :=
  match self.adoptedBinding other with
  | some binding => .ok { self.mergedEntries fs other with coverageBinding := binding }
  | none => .error "coverage binding mismatch across union operands"

def withSealedReplacements (t : RedactionTable) (activeSealedIds : List Bytes) : RedactionTable :=
  let replaced (e : RedactionEntry) : RedactionEntry :=
    { e with
      replacement :=
        match e.entryClass with
        | .sealed identity =>
          if activeSealedIds.contains (sealedActiveKey identity) then .sealed (sealedValueId identity)
          else .generic
        | .ordinary .. => .generic }
  { t with
    entries := t.entries.map replaced
    long := by simpa [replaced] using t.long
    conflicts_eq := by rw [t.conflicts_eq, any_map]; rfl }

end RedactionTable

end FlyCockpit.Redact
