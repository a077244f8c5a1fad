-- SUMMARY: Lease states, transfer phases and failures; canonical scopes and the footprints of permits.
import Mathlib.Data.List.Basic
import Mathlib.Data.List.Dedup
import Mathlib.Data.List.Sort
import Mathlib.Data.String.Basic

/-!
# States, scopes and footprints

A lease is one owner's write authority over a directory subtree, and a transfer hands a strict part
of it to a child and takes it back. The legal moves of a lease and the order of a transfer's phases
are fixed tables. A canonical scope is named by an absolute path that is resolved already, and
containment of paths is by whole components. What a lease may write is its scope less the sub-scopes
it has delegated. A permit is weighed by its influence root, the top of the subtree whose path
meanings its operation can change.
-/

namespace FlyCockpit.WriteScope

/-- An absolute path by its components. -/
abbrev Path := List String

def Path.display (path : Path) : String := "/" ++ "/".intercalate path

inductive LeaseState
  | active
  | transferring
  | delegated
  | returning
  | released
  deriving DecidableEq, Repr

namespace LeaseState

def asStr : LeaseState → String
  | active => "active"
  | transferring => "transferring"
  | delegated => "delegated"
  | returning => "returning"
  | released => "released"

/-- The legal moves of authority; the storage layer and its trigger enforce the same set. -/
def canTransitionTo : LeaseState → LeaseState → Bool
  | active, transferring | active, released => true
  | transferring, delegated | transferring, active => true
  | delegated, transferring | delegated, returning | delegated, released => true
  | returning, active | returning, delegated | returning, released => true
  | _, _ => false

end LeaseState

/-- The phases of a transfer in their order. -/
inductive TransferPhase
  | prepared
  | parentExcluded
  | childActivated
  | childTerminal
  | parentRestored
  | committed
  deriving DecidableEq, Repr

namespace TransferPhase

def asStr : TransferPhase → String
  | prepared => "prepared"
  | parentExcluded => "parent_excluded"
  | childActivated => "child_activated"
  | childTerminal => "child_terminal"
  | parentRestored => "parent_restored"
  | committed => "committed"

def ordinal : TransferPhase → Nat
  | prepared => 0
  | parentExcluded => 1
  | childActivated => 2
  | childTerminal => 3
  | parentRestored => 4
  | committed => 5

def next : TransferPhase → Option TransferPhase
  | prepared => some parentExcluded
  | parentExcluded => some childActivated
  | childActivated => some childTerminal
  | childTerminal => some parentRestored
  | parentRestored => some committed
  | committed => none

/-- The parent is denied inside the delegated sub-scope. -/
def parentDeniedInSubscope (phase : TransferPhase) : Bool :=
  decide (parentExcluded.ordinal ≤ phase.ordinal) && decide (phase.ordinal < parentRestored.ordinal)

end TransferPhase

inductive PermitKind
  | mutation
  | execution
  deriving DecidableEq, Repr

/-- Failures of the coordinator. -/
inductive WriteScopeError
  | scopedWritesUnsupported (reason : String)
  | invalidScope (requested : Path) (reason : String)
  | notStrictSubscope (candidate base : Path)
  | intersectsDelegatedExclusion (candidate exclusion : Path)
  | transferRaceLost (scope : Path)
  | staleGeneration (leaseId tokenGeneration currentGeneration : Nat)
  | deniedInsideDelegatedSubscope (path exclusion : Path)
  | outsideScope (path scope : Path)
  | effectivePathChanged (path : Path)
  | illegalTransition (before after : LeaseState)
  | illegalPhaseAdvance (before after : TransferPhase)
  | leaseNotFound (leaseId : Nat)
  | transferNotFound (transferId : Nat)
  | containmentNotProvenEmpty (transferId : Nat) (reason : String)
  | permitsNotDrained (count : Nat)
  | conflictingMutationPermits (count : Nat) (path : Path)
  | descendantStillDelegated (transferId count : Nat)
  | containmentGenerationMismatch (expected got : Nat)
  | publicationConflict (reason : String)
  | sessionDeleting
  | shutdownIntakeClosed
  | internal (reason : String)
  deriving DecidableEq, Repr

/-! ## Scopes -/

open List

/-- Component-wise, so that `/ws/a` does not contain `/ws/ab`. -/
def pathContains (root candidate : Path) : Bool := root.isPrefixOf candidate

section Containment

variable {p q r : Path}

theorem pathContains_iff : pathContains p q = true ↔ p <+: q := by
  rw [pathContains, isPrefixOf_iff_prefix]

theorem pathContains_self (p : Path) : pathContains p p = true :=
  pathContains_iff.2 (prefix_refl p)

theorem pathContains_trans (hpq : pathContains p q = true) (hqr : pathContains q r = true) :
    pathContains p r = true :=
  pathContains_iff.2 ((pathContains_iff.1 hpq).trans (pathContains_iff.1 hqr))

/-- Two paths that contain a common path lie on one line. -/
theorem pathContains_of_common (hp : pathContains p r = true) (hq : pathContains q r = true) :
    pathContains p q = true ∨ pathContains q p = true := by
  rw [pathContains_iff] at hp hq
  rw [pathContains_iff, pathContains_iff]
  exact prefix_or_prefix_of_prefix hp hq

end Containment

/-! ## Scopes -/

structure CanonicalScope where
  path : Path
  deriving DecidableEq, Repr

namespace CanonicalScope

def containsPath (scope : CanonicalScope) (candidate : Path) : Bool :=
  pathContains scope.path candidate

def containsScope (scope other : CanonicalScope) : Bool := pathContains scope.path other.path

/-- Under the other scope and not equal to it. -/
def isStrictSubscopeOf (scope other : CanonicalScope) : Bool :=
  scope.path != other.path && pathContains other.path scope.path

def isDisjointFrom (scope other : CanonicalScope) : Bool :=
  !scope.containsScope other && !other.containsScope scope

end CanonicalScope

/-- A scope less the sub-scopes delegated from it. -/
structure EffectiveAuthority where
  base : CanonicalScope
  exclusions : List CanonicalScope
  deriving DecidableEq, Repr

namespace EffectiveAuthority

def new (base : CanonicalScope) (exclusions : List CanonicalScope) : EffectiveAuthority where
  base
  exclusions := (exclusions.insertionSort fun a b => a.path ≤ b.path).dedup

def allowsPath (authority : EffectiveAuthority) (path : Path) : Bool :=
  authority.base.containsPath path && !authority.exclusions.any (·.containsPath path)

/-- Whether a candidate may be delegated: strictly inside the base, and apart from everything
delegated already. -/
def admitsSubscope (authority : EffectiveAuthority) (candidate : CanonicalScope) :
    Except WriteScopeError Unit :=
  if candidate.isStrictSubscopeOf authority.base then
    match authority.exclusions.find? fun excluded => !candidate.isDisjointFrom excluded with
    | some excluded => .error (.intersectsDelegatedExclusion candidate.path excluded.path)
    | none => .ok ()
  else .error (.notStrictSubscope candidate.path authority.base.path)

/-- The sub-scope is delegated. -/
def withExclusion (authority : EffectiveAuthority) (scope : CanonicalScope) : EffectiveAuthority :=
  new authority.base (authority.exclusions ++ [scope])

/-- The sub-scope is returned. -/
def withoutExclusion (authority : EffectiveAuthority) (scope : CanonicalScope) : EffectiveAuthority :=
  new authority.base (authority.exclusions.filter (· ≠ scope))

variable {base candidate : CanonicalScope} {exclusions : List CanonicalScope} {path : Path}
  {scope : CanonicalScope} {authority : EffectiveAuthority}

@[simp] theorem base_new : (new base exclusions).base = base := rfl

@[simp] theorem mem_exclusions_new :
    scope ∈ (new base exclusions).exclusions ↔ scope ∈ exclusions := by
  rw [new, mem_dedup, mem_insertionSort]

theorem allowsPath_iff : authority.allowsPath path = true ↔
    pathContains authority.base.path path = true ∧
      ∀ scope ∈ authority.exclusions, pathContains scope.path path = false := by
  simp only [allowsPath, Bool.and_eq_true, Bool.not_eq_true', any_eq_false,
    CanonicalScope.containsPath, Bool.not_eq_true]

theorem admitsSubscope_iff : authority.admitsSubscope candidate = .ok () ↔
      candidate.isStrictSubscopeOf authority.base = true ∧
        ∀ scope ∈ authority.exclusions, candidate.isDisjointFrom scope = true := by
  by_cases hstrict : candidate.isStrictSubscopeOf authority.base = true
  case neg => simp [admitsSubscope, hstrict]
  case pos =>
  simp only [admitsSubscope, hstrict, if_true, true_and]
  cases hfind : authority.exclusions.find? fun excluded => !candidate.isDisjointFrom excluded with
  | some excluded =>
    have hmem := mem_of_find?_eq_some hfind
    have hmeets := List.find?_some hfind
    simp only [reduceCtorEq, false_iff]
    intro hall
    simp [hall excluded hmem] at hmeets
  | none =>
    rw [List.find?_eq_none] at hfind
    simp only [true_iff]
    intro scope hmem
    simpa using hfind scope hmem

theorem allowsPath_withExclusion : (authority.withExclusion scope).allowsPath path = true ↔
      authority.allowsPath path = true ∧ scope.containsPath path = false := by
  simp only [allowsPath_iff, withExclusion, base_new, mem_exclusions_new, mem_append,
    mem_singleton, or_imp, forall_and, forall_eq, and_assoc, CanonicalScope.containsPath]

/-- What may be delegated is the owner's own. -/
theorem allowsPath_of_admitted
    (hadmits : authority.admitsSubscope scope = .ok ()) (hin : scope.containsPath path = true) :
    authority.allowsPath path = true := by
  obtain ⟨hstrict, hdisjoint⟩ := admitsSubscope_iff.1 hadmits
  rw [CanonicalScope.isStrictSubscopeOf, Bool.and_eq_true] at hstrict
  refine allowsPath_iff.2 ⟨pathContains_trans hstrict.2 hin, fun excluded hmem => ?_⟩
  -- An exclusion with the path in it would lie on one line with the sub-scope.
  rw [Bool.eq_false_iff]
  intro hexcluded
  have hapart := hdisjoint excluded hmem
  rw [CanonicalScope.isDisjointFrom, Bool.and_eq_true, Bool.not_eq_true', Bool.not_eq_true'] at hapart
  rcases pathContains_of_common hin hexcluded with h | h
  · exact absurd h (Bool.eq_false_iff.1 hapart.1)
  · exact absurd h (Bool.eq_false_iff.1 hapart.2)

/-- Nothing that may be delegated is delegated already. -/
theorem not_mem_exclusions_of_admitted
    (hadmits : authority.admitsSubscope scope = .ok ()) : scope ∉ authority.exclusions := by
  intro hmem
  have hapart := (admitsSubscope_iff.1 hadmits).2 scope hmem
  rw [CanonicalScope.isDisjointFrom, Bool.and_eq_true, Bool.not_eq_true'] at hapart
  exact absurd (pathContains_self scope.path) (Bool.eq_false_iff.1 hapart.1)

/-- Delegating a sub-scope splits the paths an owner may write in two: those it keeps and those of the
sub-scope. Taking the sub-scope back gives the owner the same paths as before. -/
theorem delegation_partitions {authority : EffectiveAuthority} {scope : CanonicalScope}
    (hadmits : authority.admitsSubscope scope = .ok ()) (path : Path) :
    (authority.allowsPath path = true ↔
        Xor ((authority.withExclusion scope).allowsPath path = true) (scope.containsPath path = true)) ∧
      ((authority.withExclusion scope).withoutExclusion scope).allowsPath path =
        authority.allowsPath path := by
  constructor
  · rw [allowsPath_withExclusion]
    cases hin : scope.containsPath path with
    | true => simp [xor_def, allowsPath_of_admitted hadmits hin]
    | false => simp [xor_def]
  · have hnot := not_mem_exclusions_of_admitted hadmits
    rw [Bool.eq_iff_iff, allowsPath_iff, allowsPath_iff]
    refine and_congr_right fun _ => forall_congr' fun excluded => imp_congr_left ?_
    simp only [withoutExclusion, withExclusion, mem_exclusions_new, List.mem_filter, List.mem_append,
      List.mem_singleton, decide_eq_true_eq]
    constructor
    · rintro ⟨hmem | rfl, hne⟩
      · exact hmem
      · exact absurd rfl hne
    · intro hmem
      exact ⟨.inl hmem, fun heq => hnot (heq ▸ hmem)⟩

theorem delegation_partitions_sibling :
    (new ⟨["ws"]⟩ [⟨["ws", "b"]⟩]).admitsSubscope ⟨["ws", "a"]⟩ = .ok () ∧
      ((new ⟨["ws"]⟩ [⟨["ws", "b"]⟩]).allowsPath ["ws", "a", "x"] = true ↔
        Xor (((new ⟨["ws"]⟩ [⟨["ws", "b"]⟩]).withExclusion ⟨["ws", "a"]⟩).allowsPath ["ws", "a", "x"] = true)
          (CanonicalScope.containsPath ⟨["ws", "a"]⟩ ["ws", "a", "x"] = true)) :=
  ⟨rfl, (delegation_partitions rfl ["ws", "a", "x"]).1⟩

end EffectiveAuthority

/-! ## Footprints -/

/-- The filesystem operation a mutation permit protects. -/
inductive MutationKind
  | writeContent
  | create
  | remove
  | rename
  | replace
  | link
  | symlink
  deriving DecidableEq, Repr

/-- The operation can change what other paths resolve to. -/
def MutationKind.influencesNamespace : MutationKind → Bool
  | remove | rename | replace | link | symlink => true
  | writeContent | create => false

/-- The target itself, whatever the operation. -/
def influenceRoot (target : Path) (_kind : MutationKind) : Path := target

structure PermitFootprint where
  influenceRoot : Path
  target : Path
  kind : MutationKind
  deriving DecidableEq, Repr

namespace PermitFootprint

def forMutation (target : Path) (kind : MutationKind) : PermitFootprint where
  influenceRoot := WriteScope.influenceRoot target kind
  target
  kind

/-- An execution influences everything below the highest ancestor it can redirect. -/
def forExecution (effectiveWriteRoot reachableAncestor : Path) : PermitFootprint where
  influenceRoot := reachableAncestor
  target := effectiveWriteRoot
  kind := .rename

def overlaps (footprint other : PermitFootprint) : Bool :=
  pathContains footprint.influenceRoot other.influenceRoot ||
    pathContains other.influenceRoot footprint.influenceRoot

/-- Whether two mutations in flight may not be held together: they overlap, and one of them can
change what the other's path means, or both have the same target. -/
def conflictsWith (footprint other : PermitFootprint) : Bool :=
  footprint.overlaps other &&
    (footprint.kind.influencesNamespace || other.kind.influencesNamespace ||
      footprint.target == other.target)

end PermitFootprint

end FlyCockpit.WriteScope
