-- SUMMARY: Path grants: the grants in effect, against the recorded entries they are made of.
import FlyCockpit.Approval.Store
import FlyCockpit.Lib.UnixPath
import Mathlib.Data.Char
import Mathlib.Data.List.Lex
import Mathlib.Data.List.Sort

/-!
# Path grants

A path entry covers the paths below it. A query asks for one path: a covering reject wins, otherwise
the widest covering allow counts. The list of grants in effect is computed apart from that: it merges
the allow entries that no reject overlaps and leaves out those that another one covers. Entries are
compared by their texts there, but cover each other as paths, so two spellings of one path leave each
other out.
-/

namespace FlyCockpit.Approval

open List Faults UnixPath

namespace SandboxPathAccess

def rank : SandboxPathAccess → Nat
  | read => 0
  | readWrite => 1

theorem rank_injective : Function.Injective rank := by
  intro a b h
  cases a <;> cases b <;> first | rfl | cases h

instance : LinearOrder SandboxPathAccess := LinearOrder.lift' rank rank_injective

end SandboxPathAccess

/-! ## Paths -/

/-- The buffer with one more component; going up from the root or from nothing is kept. -/
def pushComponent (out : List Component) : Component → List Component
  | .curDir => out
  | .parentDir => (pop? out).getD (out ++ [.parentDir])
  | .rootDir => [.rootDir]
  | .normal name => out ++ [.normal name]

def lexicalNormalize (path : Text) : List Component := (components path).foldl pushComponent []

def normalizePath (path base : Text) : Text := spelling (lexicalNormalize (join base path))

def pathCovers (stored candidate : Text) : Bool :=
  components candidate = components stored || (components stored).isPrefixOf (components candidate)

def pathsOverlap (a b : Text) : Bool := pathCovers a b || pathCovers b a

def grantCovers (stored candidate : Text) : Bool := pathCovers stored candidate

/-! ## Entries -/

abbrev PathEntry := Text × SandboxPathAccess

def Storage.pathRows (s : Storage) (session : SessionId) (verdict : Verdict) : List PathEntry :=
  (s.grants.entries.filter fun e =>
    e.1.1 = session && e.1.2.1 = GrantKind.path && e.2.verdict = verdict).map fun e =>
      (e.1.2.2, e.2.access.getD .readWrite)

def ApprovalsFile.pathEntries (file : ApprovalsFile) : Verdict → List PathEntry
  | .allow => file.paths.entries.map fun e => (e.1, e.2)
  | .reject => file.pathsReject.entries.map fun e => (e.1, e.2)

section Session

variable (session : SessionId)

/-- A failed read counts as "no rows". -/
def sessionPathEntries (verdict : Verdict) : StoreM (List PathEntry) := do
  match ← attempt (read (.io .readingGrants) fun s => s.pathRows session verdict) with
  | .ok rows => return rows
  | .error _ => return []

/-- The entries of a verdict: those of the session, of the project and the global ones. -/
def pathEntries (verdict : Verdict) : StoreM (List PathEntry) := do
  let project ← scopedApprovalsFile .project
  let global ← scopedApprovalsFile .global
  let entries ← sessionPathEntries session verdict
  return entries ++ project.elim [] (·.pathEntries verdict) ++ global.elim [] (·.pathEntries verdict)

def pathAllowEntries : StoreM (List PathEntry) := pathEntries session .allow

def pathRejectEntries : StoreM (List PathEntry) := pathEntries session .reject

def pathRejectMatches (isMatch : Text → Bool) : StoreM Bool := do
  return (← pathRejectEntries session).any fun e => isMatch e.1

/-! ## Queries -/

/-- The widest access among the entries that cover a path. -/
def coveringAccess (candidate : Text) (entries : List PathEntry) : Option SandboxPathAccess :=
  ((entries.filter fun e => grantCovers e.1 candidate).map Prod.snd).max?

def effectivePathGrantAccess (cwd path : Text) : StoreM (Option SandboxPathAccess) := do
  let candidate := normalizePath path cwd
  if ← pathRejectMatches session fun stored => grantCovers stored candidate then return none
  return coveringAccess candidate (← pathAllowEntries session)

def isPathGrantedFor (cwd path : Text) (required : SandboxPathAccess) : StoreM Bool := do
  return (← effectivePathGrantAccess session cwd path).any fun access => required ≤ access

structure EffectivePathGrant where
  path : Text
  access : SandboxPathAccess
  deriving DecidableEq

/-- An entry of a path that is there already widens its access. -/
def mergeEntry (byPath : Table Text SandboxPathAccess) (e : PathEntry) : Table Text SandboxPathAccess :=
  byPath.insert e.1 ((byPath.lookup e.1).elim e.2 fun current => max current e.2)

/-- The allow entries that no reject overlaps, merged by their texts. -/
def allowedByPath (rejects allows : List PathEntry) : Table Text SandboxPathAccess :=
  (allows.filter fun e => !rejects.any fun r => pathsOverlap r.1 e.1).foldl mergeEntry ∅

/-- Another entry covers this one and allows as much. -/
def coveredByOther (entries : List PathEntry) (e : PathEntry) : Bool :=
  entries.any fun other => other.1 ≠ e.1 && e.2 ≤ other.2 && pathCovers other.1 e.1

def uncovered (entries : List PathEntry) : List EffectivePathGrant :=
  (entries.filter fun e => !coveredByOther entries e).map fun e => ⟨e.1, e.2⟩

def effectivePathGrants : StoreM (List EffectivePathGrant) := do
  let rejects ← pathRejectEntries session
  let byPath := allowedByPath rejects (← pathAllowEntries session)
  return uncovered ((byPath.entries.map fun e => (e.1, e.2)).insertionSort fun a b => a.1 ≤ b.1)

end Session

/-! ## Covering -/

section Covering

variable {a b c : Text}

theorem pathCovers_iff : pathCovers a b = true ↔ components a <+: components b := by
  rw [pathCovers, Bool.or_eq_true, decide_eq_true_iff, isPrefixOf_iff_prefix]
  exact or_iff_right_of_imp fun h => h ▸ prefix_refl _

theorem pathCovers_trans (hab : pathCovers a b = true) (hbc : pathCovers b c = true) :
    pathCovers a c = true :=
  pathCovers_iff.2 ((pathCovers_iff.1 hab).trans (pathCovers_iff.1 hbc))

/-- Two entries that cover one path overlap. -/
theorem pathsOverlap_of_covers (ha : pathCovers a c = true) (hb : pathCovers b c = true) :
    pathsOverlap a b = true := by
  rw [pathsOverlap, Bool.or_eq_true]
  rcases prefix_or_prefix_of_prefix (pathCovers_iff.1 ha) (pathCovers_iff.1 hb) with h | h
  · exact .inl (pathCovers_iff.2 h)
  · exact .inr (pathCovers_iff.2 h)

end Covering

/-! ## Normalized paths -/

theorem formed_pushComponent {out : List Component} (h : Formed out) {c : Component}
    (hc : c = .rootDir ∨ c = .curDir ∨ c.Plain) : Formed (pushComponent out c) := by
  cases c with
  | rootDir => exact ⟨[], .inr rfl, by simp⟩
  | curDir => exact h
  | parentDir =>
    have hparent : Component.parentDir.Plain := ⟨by decide, rfl⟩
    change Formed ((pop? out).getD (out ++ [.parentDir]))
    unfold pop?
    split
    · exact h.append hparent
    · exact h.append hparent
    · exact h.dropLast
  | normal name =>
    refine h.append ?_
    rcases hc with hc | hc | hc
    · cases hc
    · cases hc
    · exact hc

theorem formed_lexicalNormalize (path : Text) : Formed (lexicalNormalize path) := by
  have hfold : ∀ (cs out : List Component), Formed out →
      (∀ c ∈ cs, c = .rootDir ∨ c = .curDir ∨ c.Plain) → Formed (cs.foldl pushComponent out) := by
    intro cs
    induction cs with
    | nil => exact fun out h _ => h
    | cons c cs ih =>
      intro out h hcs
      obtain ⟨hc, hcs⟩ := forall_mem_cons.1 hcs
      exact ih _ (formed_pushComponent h hc) hcs
  exact hfold _ [] ⟨[], .inl rfl, by simp⟩ fun c hc => plain_of_mem_components hc

theorem components_normalizePath (path base : Text) :
    components (normalizePath path base) = lexicalNormalize (join base path) :=
  components_spelling (formed_lexicalNormalize _)

/-- What stands above a normalized path is one, too. -/
theorem exists_normalizePath_above {base path : Text} {cs : List Component} (hcs : cs ≠ [])
    (h : cs <+: components (normalizePath path base)) :
    ∃ path', components (normalizePath path' base) = cs := by
  obtain ⟨n, hn⟩ : ∃ n, (components (normalizePath path base)).length = cs.length + n :=
    Nat.exists_eq_add_of_le h.length_le
  induction n generalizing path with
  | zero => exact ⟨path, (h.eq_of_length hn.symm).symm⟩
  | succ n ih =>
    -- One step up drops the last component, since it is not the only one.
    obtain ⟨path', hpath'⟩ := exists_components_parent base path
    have hlength : 2 ≤ (components (normalizePath path base)).length := by
      have hpos := length_pos_iff.2 hcs
      omega
    have hup : components (normalizePath path' base) = (components (normalizePath path base)).dropLast := by
      rw [components_normalizePath] at hlength ⊢
      rw [components_normalizePath, lexicalNormalize, hpath', foldl_append]
      change (pop? (lexicalNormalize (join base path))).getD _ = _
      rw [pop?_of_formed (formed_lexicalNormalize _) hlength, Option.getD_some]
    refine @ih path' ?_ ?_
    · rw [hup]
      obtain ⟨rest, hrest⟩ := h
      have hne : rest ≠ [] := fun hnil => by
        rw [← hrest, hnil] at hn
        simp at hn
      rw [← hrest, dropLast_append_of_ne_nil hne]
      exact prefix_append _ _
    · rw [hup, length_dropLast, hn]
      omega

/-! ## Merging -/

theorem lookup_mergeEntry (t : Table Text SandboxPathAccess) (e : PathEntry) (key : Text) :
    (mergeEntry t e).lookup key =
      if key = e.1 then ((t.lookup key).toList ++ [e.2]).max? else t.lookup key := by
  rw [mergeEntry, Table.lookup_insert_eq]
  split_ifs with hkey
  · rw [hkey]
    cases t.lookup e.1 <;> rfl
  · rfl

theorem lookup_foldl_mergeEntry (l : List PathEntry) (t : Table Text SandboxPathAccess) (key : Text) :
    (l.foldl mergeEntry t).lookup key =
      ((t.lookup key).toList ++ (l.filter fun e => e.1 = key).map Prod.snd).max? := by
  induction l generalizing t with
  | nil =>
    rw [foldl_nil]
    cases t.lookup key <;> rfl
  | cons e l ih =>
    rw [foldl_cons, ih, lookup_mergeEntry]
    by_cases hkey : e.1 = key
    · rw [if_pos hkey.symm, filter_cons_of_pos (by simpa using hkey), map_cons]
      cases t.lookup key <;> rfl
    · rw [if_neg (Ne.symm hkey), filter_cons_of_neg (by simpa using hkey)]

theorem lookup_allowedByPath_eq_some_iff {rejects allows : List PathEntry} {key : Text}
    {access : SandboxPathAccess} :
    (allowedByPath rejects allows).lookup key = some access ↔
      ((key, access) ∈ allows ∧ ∀ r ∈ rejects, pathsOverlap r.1 key = false) ∧
        ∀ other, (key, other) ∈ allows → other ≤ access := by
  have hmem : ∀ a, a ∈ ((allows.filter fun e => !rejects.any fun r => pathsOverlap r.1 e.1).filter
      fun e => e.1 = key).map Prod.snd ↔
        (key, a) ∈ allows ∧ ∀ r ∈ rejects, pathsOverlap r.1 key = false := by
    intro a
    simp [mem_filter]
  rw [allowedByPath, lookup_foldl_mergeEntry, AList.lookup_empty, Option.toList_none, nil_append,
    List.max?_eq_some_iff, hmem]
  refine and_congr_right fun h => forall_congr' fun other => ?_
  rw [hmem]
  exact ⟨fun hle hother => hle ⟨hother, h.2⟩, fun hle hother => hle hother.1⟩

/-! ## Reading the entries -/

/-- The entries of a verdict that a session sees. -/
def Storage.pathEntries (s : Storage) (session : SessionId) (verdict : Verdict) : List PathEntry :=
  s.pathRows session verdict ++ (s.file .project).elim [] (·.pathEntries verdict) ++
    (s.file .global).elim [] (·.pathEntries verdict)

section Reading

variable (session : SessionId) (s : Storage)

theorem reads_scopedApprovalsFile (d : Durable) : Reads (scopedApprovalsFile d) s (s.file d) := by
  refine Reads.view_bind ?_
  cases hdir : s.dir d with
  | none =>
    have hfile : s.file d = none := by rw [Storage.file, hdir, Option.bind_none]
    rw [hfile]
    exact Reads.pure _ _
  | some dir => exact Reads.read _ _ _

theorem reads_pathEntries (verdict : Verdict) :
    Reads (pathEntries session verdict) s (s.pathEntries session verdict) :=
  (reads_scopedApprovalsFile s .project).bind <| (reads_scopedApprovalsFile s .global).bind <|
    Reads.bind ((Reads.read _ _ _).attempt.bind (Reads.pure _ _)) (Reads.pure _ _)

/-- The merged entries in the order of their texts. -/
def Storage.allowed (s : Storage) (session : SessionId) : List PathEntry :=
  ((allowedByPath (s.pathEntries session .reject) (s.pathEntries session .allow)).entries.map fun e =>
    (e.1, e.2)).insertionSort fun a b => a.1 ≤ b.1

theorem reads_effectivePathGrants :
    Reads (effectivePathGrants session) s (uncovered (s.allowed session)) :=
  (reads_pathEntries session s .reject).bind <| (reads_pathEntries session s .allow).bind <|
    Reads.pure _ _

theorem reads_isPathGrantedFor (cwd path : Text) (required : SandboxPathAccess) :
    Reads (isPathGrantedFor session cwd path required) s
      ((if (s.pathEntries session .reject).any fun e => grantCovers e.1 (normalizePath path cwd) then none
        else coveringAccess (normalizePath path cwd) (s.pathEntries session .allow)).any
          fun access => required ≤ access) := by
  have hmatches : Reads (pathRejectMatches session fun stored => grantCovers stored (normalizePath path cwd)) s
      ((s.pathEntries session .reject).any fun e => grantCovers e.1 (normalizePath path cwd)) :=
    (reads_pathEntries session s .reject).bind (Reads.pure _ _)
  refine Reads.bind (hmatches.bind ?_) (Reads.pure _ _)
  split_ifs with hreject
  · exact Reads.pure _ _
  · exact (reads_pathEntries session s .allow).bind (Reads.pure _ _)

end Reading

/-! ## Grants in effect -/

/-- A recorded allow entry that no reject entry overlaps. -/
def Storage.Unrejected (s : Storage) (session : SessionId) (key : Text) (access : SandboxPathAccess) : Prop :=
  (key, access) ∈ s.pathEntries session .allow ∧
    ∀ r ∈ s.pathEntries session .reject, pathsOverlap r.1 key = false

/-- The widest access recorded for a text. -/
def Storage.Widest (s : Storage) (session : SessionId) (key : Text) (access : SandboxPathAccess) : Prop :=
  s.Unrejected session key access ∧
    ∀ other, (key, other) ∈ s.pathEntries session .allow → other ≤ access

/-- Some unrejected entry covers the path with the access. -/
def Storage.Granted (s : Storage) (session : SessionId) (candidate : Text) (required : SandboxPathAccess) :
    Prop :=
  ∃ key access, s.Unrejected session key access ∧ pathCovers key candidate = true ∧ required ≤ access

section Granted

variable {session : SessionId} {s : Storage} {key : Text} {access : SandboxPathAccess}

theorem mem_allowed_iff : (key, access) ∈ s.allowed session ↔ s.Widest session key access := by
  rw [Storage.allowed, mem_insertionSort, Storage.Widest, Storage.Unrejected,
    ← lookup_allowedByPath_eq_some_iff, ← Option.mem_def, AList.mem_lookup_iff]
  constructor
  · intro h
    obtain ⟨⟨k, a⟩, he, heq⟩ := mem_map.1 h
    cases heq
    exact he
  · exact fun h => mem_map.2 ⟨⟨key, access⟩, h, rfl⟩

theorem exists_widest (h : s.Unrejected session key access) :
    ∃ widest, s.Widest session key widest ∧ access ≤ widest := by
  have hmem : access ∈ ((s.pathEntries session .allow).filter fun e => e.1 = key).map Prod.snd :=
    mem_map.2 ⟨(key, access), mem_filter.2 ⟨h.1, by simp⟩, rfl⟩
  cases hmax : (((s.pathEntries session .allow).filter fun e => e.1 = key).map Prod.snd).max? with
  | none =>
    rw [List.max?_eq_none_iff.1 hmax] at hmem
    cases hmem
  | some widest =>
    obtain ⟨hwidest, hle⟩ := List.max?_eq_some_iff.1 hmax
    obtain ⟨⟨k, a⟩, hfilter, rfl⟩ := mem_map.1 hwidest
    obtain ⟨hentry, hkey⟩ := mem_filter.1 hfilter
    obtain rfl : k = key := of_decide_eq_true hkey
    refine ⟨a, ⟨⟨hentry, h.2⟩, fun other hother => hle other ?_⟩, hle access hmem⟩
    exact mem_map.2 ⟨(k, other), mem_filter.2 ⟨hother, by simp⟩, rfl⟩

/-- A path with an unrejected allow above it has no reject above it. -/
theorem reads_isPathGrantedFor_of_granted {cwd path : Text} {required : SandboxPathAccess}
    (h : s.Granted session (normalizePath path cwd) required) :
    Reads (isPathGrantedFor session cwd path required) s true := by
  obtain ⟨key, access, ⟨hallow, hreject⟩, hcovers, hrequired⟩ := h
  have hnone : ¬((s.pathEntries session .reject).any fun e => grantCovers e.1 (normalizePath path cwd)) =
      true := by
    rw [any_eq_true]
    rintro ⟨r, hr, hrcovers⟩
    have hoverlap := pathsOverlap_of_covers hrcovers hcovers
    rw [hreject r hr] at hoverlap
    cases hoverlap
  have hmem : access ∈ ((s.pathEntries session .allow).filter fun e =>
      grantCovers e.1 (normalizePath path cwd)).map Prod.snd :=
    mem_map.2 ⟨(key, access), mem_filter.2 ⟨hallow, hcovers⟩, rfl⟩
  have hreads := reads_isPathGrantedFor session s cwd path required
  rw [if_neg hnone, coveringAccess] at hreads
  cases hmax : (((s.pathEntries session .allow).filter fun e =>
      grantCovers e.1 (normalizePath path cwd)).map Prod.snd).max? with
  | none =>
    rw [List.max?_eq_none_iff.1 hmax] at hmem
    cases hmem
  | some widest =>
    have hle := (List.max?_eq_some_iff.1 hmax).2 access hmem
    rw [hmax, Option.any_some, decide_eq_true (hrequired.trans hle)] at hreads
    exact hreads

end Granted

/-! ## Leaving out covered entries -/

/-- The entry covers the other one and allows as much. -/
def Dominates (other e : PathEntry) : Prop := e.2 ≤ other.2 ∧ pathCovers other.1 e.1 = true

variable {a b : PathEntry} {entries : List PathEntry} {e : PathEntry}

theorem Dominates.trans {c : PathEntry} (hab : Dominates a b) (hbc : Dominates b c) : Dominates a c :=
  ⟨hbc.1.trans hab.1, pathCovers_trans hab.2 hbc.2⟩

/-- Entries that dominate each other are one path with one access. -/
theorem Dominates.antisymm (hab : Dominates a b) (hba : Dominates b a) :
    components a.1 = components b.1 ∧ a.2 = b.2 :=
  ⟨(pathCovers_iff.1 hab.2).eq_of_length
      (Nat.le_antisymm (pathCovers_iff.1 hab.2).length_le (pathCovers_iff.1 hba.2).length_le),
    le_antisymm hba.1 hab.1⟩

/-- An entry weighs more the deeper its path and the narrower its access. -/
def weight (e : PathEntry) : Nat := 2 * (components e.1).length + (1 - e.2.rank)

theorem weight_lt_of_dominates (hab : Dominates a b) (hba : ¬Dominates b a) :
    weight a < weight b := by
  obtain ⟨haccess, hcovers⟩ := hab
  have hlength := (pathCovers_iff.1 hcovers).length_le
  have hrank : b.2.rank ≤ a.2.rank := haccess
  have hone : a.2.rank ≤ 1 := by cases a.2 <;> decide
  rcases hlength.lt_or_eq with hlt | heq
  · unfold weight
    omega
  · have hsame := (pathCovers_iff.1 hcovers).eq_of_length heq
    have hlt : b.2.rank < a.2.rank := by
      refine lt_of_not_ge fun hge => hba ⟨hge, pathCovers_iff.2 ?_⟩
      rw [hsame]
    unfold weight
    omega

theorem coveredByOther_iff :
    coveredByOther entries e = true ↔ ∃ other ∈ entries, other.1 ≠ e.1 ∧ Dominates other e := by
  simp [coveredByOther, Dominates, and_assoc]

theorem mem_uncovered_iff {g : EffectivePathGrant} :
    g ∈ uncovered entries ↔ (g.path, g.access) ∈ entries ∧
      ∀ other ∈ entries, Dominates other (g.path, g.access) → other.1 = g.path := by
  have hkept : ∀ e, (!coveredByOther entries e) = true ↔
      ∀ other ∈ entries, Dominates other e → other.1 = e.1 := by
    intro e
    rw [Bool.not_eq_true', ← Bool.not_eq_true, coveredByOther_iff]
    simp only [not_exists, not_and]
    exact forall₂_congr fun other _ => not_imp_not
  constructor
  · intro hg
    obtain ⟨e, he, rfl⟩ := mem_map.1 hg
    obtain ⟨hmem, huncovered⟩ := mem_filter.1 he
    exact ⟨hmem, (hkept e).1 huncovered⟩
  · rintro ⟨hmem, huncovered⟩
    exact mem_map.2 ⟨_, mem_filter.2 ⟨hmem, (hkept _).2 huncovered⟩, rfl⟩

/-- An entry is dominated by one that is not left out, if no path above it has two spellings with one
    access that nothing else dominates. -/
theorem exists_uncovered (he : e ∈ entries)
    (hspellings : ∀ a ∈ entries, ∀ b ∈ entries, Dominates a e → a.1 ≠ b.1 → Dominates a b → Dominates b a →
      ∃ c ∈ entries, Dominates c a ∧ ¬Dominates a c) :
    ∃ g ∈ uncovered entries, Dominates (g.path, g.access) e := by
  have hself : Dominates e e := ⟨le_rfl, pathCovers_iff.2 (prefix_refl _)⟩
  -- From an entry that is left out there is a way to a lighter one.
  induction hn : weight e using Nat.strong_induction_on generalizing e with
  | _ n ih =>
    subst hn
    have hbelow : ∀ c ∈ entries, Dominates c e → ¬Dominates e c →
        ∃ g ∈ uncovered entries, Dominates (g.path, g.access) e := by
      intro c hc hdom hnot
      obtain ⟨g, hg, hgc⟩ := ih (weight c) (weight_lt_of_dominates hdom hnot) hc
        (fun a ha b hb hac => hspellings a ha b hb (hac.trans hdom))
        ⟨le_rfl, pathCovers_iff.2 (prefix_refl _)⟩ rfl
      exact ⟨g, hg, hgc.trans hdom⟩
    by_cases hcovered : coveredByOther entries e = true
    · obtain ⟨other, hother, hne, hdom⟩ := coveredByOther_iff.1 hcovered
      by_cases hback : Dominates e other
      · obtain ⟨c, hc, hce, hnot⟩ := hspellings e he other hother hself (Ne.symm hne) hback hdom
        exact hbelow c hc hce hnot
      · exact hbelow other hother hdom hback
    · refine ⟨⟨e.1, e.2⟩, mem_map.2 ⟨e, mem_filter.2 ⟨he, ?_⟩, rfl⟩, hself⟩
      rw [Bool.eq_false_iff.2 hcovered]
      rfl

/-! ## The grants say what is granted -/

/-- The list of grants in effect says just what the entries allow, and the query agrees, exactly if
    there are no two spellings of a path with the same access, or something else dominates them: an
    entry above the path or one with more access. -/
theorem effectivePathGrants_exact_iff (s : Storage) (session : SessionId) (cwd : Text) :
    (∃ grants, outcome (effectivePathGrants session) s [] = (.ok grants, s) ∧ ∀ path required,
        ((∃ g ∈ grants, pathCovers g.path (normalizePath path cwd) = true ∧ required ≤ g.access) ↔
          s.Granted session (normalizePath path cwd) required) ∧
        (s.Granted session (normalizePath path cwd) required →
          outcome (isPathGrantedFor session cwd path required) s [] = (.ok true, s))) ↔
      ∀ key key' access, key ≠ key' → components key = components key' →
        s.Widest session key access → s.Widest session key' access →
        (∃ path, components (normalizePath path cwd) = components key) →
        ∃ other wider, s.Unrejected session other wider ∧ pathCovers other key = true ∧ access ≤ wider ∧
          (components other ≠ components key ∨ wider ≠ access) := by
  have hgrants := (reads_effectivePathGrants session s).outcome
  constructor
  · rintro ⟨grants, hrun, hexact⟩ key key' access hne hsame hkey hkey' ⟨path, hpath⟩
    obtain rfl : uncovered (s.allowed session) = grants := by
      rw [hgrants] at hrun
      cases hrun
      rfl
    have hself : pathCovers key (normalizePath path cwd) = true := by
      rw [pathCovers_iff, hpath]
    obtain ⟨g, hg, hcovers, haccess⟩ := (hexact path access).1.2 ⟨key, access, hkey.1, hself, le_rfl⟩
    obtain ⟨hmem, huncovered⟩ := mem_uncovered_iff.1 hg
    refine ⟨g.path, g.access, (mem_allowed_iff.1 hmem).1, ?_, haccess, ?_⟩
    · rw [pathCovers_iff] at hcovers ⊢
      rwa [hpath] at hcovers
    · -- Otherwise the grant is one of the two spellings, or left out by both.
      by_contra hboth
      obtain ⟨hcomponents, heq⟩ := not_or.1 hboth
      rw [not_ne_iff] at hcomponents heq
      have hleft : ∀ k, components k = components key → s.Widest session k access → k = g.path :=
        fun k hk hwidest => huncovered (k, access) (mem_allowed_iff.2 hwidest)
          ⟨heq.le, pathCovers_iff.2 (by rw [hk, hcomponents])⟩
      exact hne ((hleft key rfl hkey).trans (hleft key' hsame.symm hkey').symm)
  · intro hspellings
    refine ⟨_, hgrants, fun path required => ⟨⟨?_, ?_⟩, fun hgranted =>
      (reads_isPathGrantedFor_of_granted hgranted).outcome⟩⟩
    · rintro ⟨g, hg, hcovers, haccess⟩
      exact ⟨g.path, g.access, (mem_allowed_iff.1 (mem_uncovered_iff.1 hg).1).1, hcovers, haccess⟩
    · rintro ⟨key, access, hunrejected, hcovers, haccess⟩
      obtain ⟨widest, hwidest, hle⟩ := exists_widest hunrejected
      obtain ⟨g, hg, hdom⟩ := exists_uncovered (mem_allowed_iff.2 hwidest) fun a ha b hb hdom hne hab hba => by
        obtain ⟨hsame, heq⟩ := hab.antisymm hba
        have habove := (pathCovers_iff.1 hdom.2).trans (pathCovers_iff.1 hcovers)
        have hnil : components a.1 ≠ [] := fun hnil =>
          hne ((eq_nil_of_components hnil).trans (eq_nil_of_components (hsame ▸ hnil)).symm)
        obtain ⟨other, wider, hother, hcoversa, hwider, hmore⟩ := hspellings a.1 b.1 a.2 hne hsame
          (mem_allowed_iff.1 ha) (mem_allowed_iff.1 (heq ▸ hb))
          (exists_normalizePath_above hnil habove)
        obtain ⟨best, hbest, hbestle⟩ := exists_widest hother
        have hdoma : Dominates (other, best) a := ⟨hwider.trans hbestle, hcoversa⟩
        refine ⟨(other, best), mem_allowed_iff.2 hbest, hdoma, fun hback => ?_⟩
        obtain ⟨hcomponents, hbesteq⟩ := hdoma.antisymm hback
        exact hmore.elim (fun h => h hcomponents) fun h => h (le_antisymm (hbestle.trans hbesteq.le) hwider)
      exact ⟨g, hg, pathCovers_trans hdom.2 hcovers, haccess.trans (hle.trans hdom.1)⟩

/-- A file with two spellings of one path. -/
def twoSpellings : Storage :=
  ⟨∅, true, some (.present {
    paths := ((∅ : Table _ _).insert "/a".toList .read).insert "/a/".toList .read }), none⟩

/-- Each spelling is left out for the other: the path is granted when asked for, and no grant in effect
    covers it. -/
theorem two_spellings_leave_no_grant :
    outcome (effectivePathGrants 1) twoSpellings [] = (.ok [], twoSpellings) ∧
      twoSpellings.Granted 1 (normalizePath "/a".toList "/".toList) .read ∧
      outcome (isPathGrantedFor 1 "/".toList "/a".toList .read) twoSpellings [] =
        (.ok true, twoSpellings) := by
  have hgranted : twoSpellings.Granted 1 (normalizePath "/a".toList "/".toList) .read :=
    ⟨"/a".toList, .read, ⟨by decide +kernel, by decide +kernel⟩, by decide +kernel, le_rfl⟩
  have hnone : uncovered (twoSpellings.allowed 1) = [] := by decide +kernel
  refine ⟨?_, hgranted, (reads_isPathGrantedFor_of_granted hgranted).outcome⟩
  rw [(reads_effectivePathGrants 1 twoSpellings).outcome, hnone]

end FlyCockpit.Approval
