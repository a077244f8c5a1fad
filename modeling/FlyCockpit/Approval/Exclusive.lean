-- SUMMARY: When recording keeps every session from seeing both verdicts on one key.
import FlyCockpit.Approval.Store
import FlyCockpit.Lib.Transition

/-!
# One verdict for each key

Recording a verdict clears the opposite one from the places the session reaches. It does not reach
the rows of other sessions, which see the two files as well. `Standing` is what a storage says
about keys, the map from sessions and files to verdicts; each write acts on it in one place.
-/

namespace FlyCockpit.Approval

open Storage Faults

/-- The verdicts in a storage: at most one in a session's rows, any in a file. -/
@[ext] structure Standing where
  row : SessionId → GrantKind → Text → Option Verdict
  entry : Durable → GrantKind → Text → Verdict → Bool

namespace Standing

variable (t : Standing)

def dropRow (session : SessionId) (kind : GrantKind) (key : Text) (verdict : Verdict) : Standing :=
  { t with row := fun i k x =>
      if i = session ∧ k = kind ∧ x = key then (t.row i k x).filter (· ≠ verdict) else t.row i k x }

def putRow (session : SessionId) (kind : GrantKind) (key : Text) (verdict : Verdict) : Standing :=
  { t with row := fun i k x =>
      if i = session ∧ k = kind ∧ x = key then some verdict else t.row i k x }

def dropEntry (d : Durable) (kind : GrantKind) (key : Text) (verdict : Verdict) : Standing :=
  { t with entry := fun e k x v =>
      if e = d ∧ k = kind ∧ x = key ∧ v = verdict then false else t.entry e k x v }

def putEntry (d : Durable) (kind : GrantKind) (key : Text) (verdict : Verdict) : Standing :=
  { t with entry := fun e k x v =>
      if e = d ∧ k = kind ∧ x = key ∧ v = verdict then true else t.entry e k x v }

/-- What clearing a verdict everywhere leaves. -/
def clear (session : SessionId) (kind : GrantKind) (key : Text) (verdict : Verdict) : Standing :=
  ((t.dropRow session kind key verdict).dropEntry .project kind key verdict).dropEntry .global kind
    key verdict

/-- What writing a verdict leaves. -/
def write (session : SessionId) (kind : GrantKind) (key : Text) (scope : Scope)
    (verdict : Verdict) : Standing :=
  match scope with
  | .once => t
  | .session => t.putRow session kind key verdict
  | .project => (t.dropEntry .project kind key verdict.opposite).putEntry .project kind key verdict
  | .global => (t.dropEntry .global kind key verdict.opposite).putEntry .global kind key verdict

/-- The verdict is among those a session goes by. -/
def Sees (session : SessionId) (kind : GrantKind) (key : Text) (verdict : Verdict) : Prop :=
  t.row session kind key = some verdict ∨ ∃ d, t.entry d kind key verdict = true

/-- No session sees both verdicts on one key. -/
def Exclusive : Prop :=
  ∀ session kind key, ¬(t.Sees session kind key .allow ∧ t.Sees session kind key .reject)

end Standing

/-- The verdicts a storage holds. -/
def Storage.standing (s : Storage) : Standing where
  row session kind key := (s.grants.lookup (session, kind, key)).map SessionGrant.verdict
  entry d kind key verdict := (s.file d).any fun file => file.has kind verdict key

/-! ## Files -/

theorem has_verdictRemove (file : ApprovalsFile) (kind k : GrantKind) (verdict v : Verdict)
    (key x : Text) : (verdictRemove file kind verdict key).2.has k v x =
      if k = kind ∧ x = key ∧ v = verdict then false else file.has k v x := by
  by_cases hx : x = key
  · subst hx
    cases kind <;> cases verdict <;> cases k <;> cases v <;>
      simp [verdictRemove, ApprovalsFile.has] <;> rfl
  · cases kind <;> cases verdict <;> cases k <;> cases v <;>
      simp [verdictRemove, ApprovalsFile.has, hx] <;> rfl

/-- The file has a place for the verdict. -/
def Lands (kind : GrantKind) (verdict : Verdict) (riskTier : Option RiskTier) : Prop :=
  kind ≠ .harness ∧ (kind = .command → verdict = .allow → riskTier.isSome = true)

variable {riskTier : Option RiskTier} {d : Durable} {t : Standing} {s : Storage}

theorem has_verdictInsert (file : ApprovalsFile) {kind : GrantKind} (k : GrantKind)
    {verdict : Verdict} (v : Verdict) (key x : Text) (access : Option SandboxPathAccess)
    (h : Lands kind verdict riskTier) :
    (verdictInsert file kind verdict key access riskTier).has k v x =
      if k = kind ∧ x = key ∧ v = verdict then true else file.has k v x := by
  by_cases hx : x = key
  · subst hx
    cases riskTier <;> cases kind <;> cases verdict <;> cases k <;> cases v <;>
      simp [Lands, verdictInsert, ApprovalsFile.has] at h ⊢ <;> rfl
  · cases riskTier <;> cases kind <;> cases verdict <;> cases k <;> cases v <;>
      simp [Lands, verdictInsert, ApprovalsFile.has, hx] at h ⊢ <;> rfl

/-! ## Writes -/

theorem Storage.standing_setDir (s : Storage) (d : Durable) (file : ApprovalsFile) :
    (s.setDir d (.present file)).standing = { s.standing with
      entry := fun e k x v => if e = d then file.has k v x else s.standing.entry e k x v } := by
  ext e k x v
  · cases d <;> rfl
  · cases d <;> cases e <;> rfl

/-- A cycle on a file that returns leaves the storage alone or replaces the file. -/
theorem returns_mutateApprovals (d : Durable) (mutate : ApprovalsFile → Bool × ApprovalsFile)
    (s : Storage) : Returns (mutateApprovals d mutate) s fun _ s' =>
      (s' = s ∧ ∀ dir, s.dir d = some dir → (mutate (dir.file.getD {})).1 = false) ∨
      ∃ file, s.file d = some file ∧ s' = s.setDir d (.present (mutate file).2) := by
  refine Returns.call fun a s' h => ?_
  cases hdir : s.dir d with
  | none =>
    simp only [hdir, Except.ok.injEq, Prod.mk.injEq, true_and] at h
    exact .inl ⟨h.symm, by simp⟩
  | some dir =>
    have hsome : ∀ dir', some dir = some dir' → dir' = dir := fun _ h => (Option.some.inj h).symm
    cases dir with
    | missing =>
      by_cases hchanged : (mutate {}).1 = true
      · simp [hdir, hchanged] at h
      · simp only [hdir, hchanged, Bool.false_eq_true, if_false, Except.ok.injEq,
          Prod.mk.injEq, true_and] at h
        refine .inl ⟨h.symm, fun dir' hdir' => ?_⟩
        rw [hsome dir' hdir']
        exact Bool.eq_false_iff.2 hchanged
    | present file =>
      by_cases hchanged : (mutate file).1 = true
      · simp only [hdir, hchanged, if_true, Except.ok.injEq, Prod.mk.injEq, true_and] at h
        exact .inr ⟨file, by simp [Storage.file, hdir, ApprovalsDir.file], h.symm⟩
      · simp only [hdir, hchanged, Bool.false_eq_true, if_false, Except.ok.injEq,
          Prod.mk.injEq, true_and] at h
        refine .inl ⟨h.symm, fun dir' hdir' => ?_⟩
        rw [hsome dir' hdir']
        exact Bool.eq_false_iff.2 hchanged

/-- Removing what is not there changes nothing. -/
theorem Standing.dropEntry_of_false {kind : GrantKind} {key : Text}
    {verdict : Verdict} (h : t.entry d kind key verdict = false) :
    t.dropEntry d kind key verdict = t := by
  ext e k x v
  · rfl
  · simp only [dropEntry]
    split_ifs with hsame
    · obtain ⟨rfl, rfl, rfl, rfl⟩ := hsame
      rw [h]
    · rfl

theorem Storage.entry_of_no_dir (h : s.dir d = none) (kind : GrantKind)
    (key : Text) (verdict : Verdict) : s.standing.entry d kind key verdict = false := by
  simp [standing, file, h]

theorem returns_fileRemove (d : Durable) (kind : GrantKind) (key : Text) (verdict : Verdict)
    (s : Storage) : Returns (fileRemove d kind key verdict) s fun _ s' =>
      s'.standing = s.standing.dropEntry d kind key verdict := by
  refine (returns_mutateApprovals d _ s).conseq ?_
  rintro - s' (⟨hs, hsame⟩ | ⟨file, hfile, rfl⟩)
  · -- There is no file, or the entry is not in it.
    rw [hs, Standing.dropEntry_of_false]
    cases hdir : s.dir d with
    | none => exact entry_of_no_dir hdir kind key verdict
    | some dir =>
      cases dir with
      | missing => simp [Storage.standing, Storage.file, hdir, ApprovalsDir.file]
      | present file =>
        simpa [Storage.standing, Storage.file, hdir, ApprovalsDir.file, verdictRemove]
          using hsame _ hdir
  · rw [standing_setDir]
    ext e k x v
    · rfl
    · simp only [has_verdictRemove, Standing.dropEntry]
      by_cases he : e = d
      · subst he
        simp [Storage.standing, hfile]
      · simp [he]

theorem returns_fileInsert {kind : GrantKind} (key : Text) {verdict : Verdict}
    (access : Option SandboxPathAccess)
    (hdir : (s.dir d).isSome = true) (hlands : Lands kind verdict riskTier) :
    Returns (fileInsert d kind key verdict access riskTier) s fun _ s' =>
      s'.standing = (s.standing.dropEntry d kind key verdict.opposite).putEntry d kind key
        verdict := by
  refine (returns_mutateApprovals d _ s).conseq ?_
  rintro - s' (⟨-, hsame⟩ | ⟨file, hfile, rfl⟩)
  · obtain ⟨dir, hdir⟩ := Option.isSome_iff_exists.1 hdir
    exact absurd (hsame dir hdir) (by simp)
  · rw [standing_setDir]
    ext e k x v
    · rfl
    · simp only [has_verdictInsert _ _ _ _ _ _ hlands, has_verdictRemove, Standing.dropEntry,
        Standing.putEntry]
      by_cases he : e = d
      · subst he
        simp [Storage.standing, hfile]
      · simp [he]

theorem returns_sessionRemove (session : SessionId) (kind : GrantKind) (key : Text)
    (verdict : Verdict) (s : Storage) : Returns (sessionRemove session kind key verdict) s
      fun _ s' => s'.standing = s.standing.dropRow session kind key verdict := by
  refine Returns.call fun a s' h => ?_
  simp only [Except.ok.injEq, Prod.mk.injEq, true_and] at h
  subst h
  refine Standing.ext (funext fun i => funext fun k => funext fun x => ?_) ?_
  · simp only [Standing.dropRow]
    by_cases hsame : (i, k, x) = (session, kind, key)
    · cases hsame
      simp only [and_self, if_true]
      cases hrow : s.grants.lookup (session, kind, key) with
      | none => simp [Storage.standing, hasRow, hrow]
      | some row =>
        by_cases hverdict : row.verdict = verdict
        · simp [Storage.standing, hasRow, hrow, hverdict, Option.filter]
        · simp [Storage.standing, hasRow, hrow, hverdict, Option.filter]
    · have hne : ¬(i = session ∧ k = kind ∧ x = key) := by simpa using hsame
      rw [if_neg hne]
      split_ifs
      · simp [Storage.standing, AList.lookup_erase_ne hsame]
      · rfl
  · split_ifs <;> rfl

theorem returns_sessionInsert (session : SessionId) (kind : GrantKind) (key : Text)
    (verdict : Verdict) (access : Option SandboxPathAccess) (riskTier : Option RiskTier)
    (s : Storage) : Returns (sessionInsert session kind key verdict access riskTier) s
      fun _ s' => s'.standing = s.standing.putRow session kind key verdict := by
  refine Returns.call fun a s' h => ?_
  dsimp only at h
  split_ifs at h
  simp only [Except.ok.injEq, Prod.mk.injEq, true_and] at h
  subst h
  ext i k x v
  · simp only [Storage.standing, Standing.putRow, Table.lookup_insert_eq, Prod.mk.injEq]
    split_ifs <;> rfl
  · rfl

/-! ## Recording -/

theorem returns_clearKeyEverywhere (session : SessionId) (kind : GrantKind) (key : Text)
    (verdict : Verdict) (s : Storage) : Returns (clearKeyEverywhere session kind key verdict) s
      fun _ s' => s'.standing = s.standing.clear session kind key verdict := by
  refine Returns.bind (returns_sessionRemove session kind key verdict s) fun _ s₁ h₁ =>
    Returns.view_bind ?_
  have hglobal : ∀ s₂ : Storage, s₂.standing = s₁.standing.dropEntry .project kind key verdict →
      Returns (do
        if (← view).global.isSome then fileRemove .global kind key verdict) s₂
        fun _ s' => s'.standing = s.standing.clear session kind key verdict := by
    intro s₂ h₂
    refine Returns.view_bind (Returns.ite (fun _ => ?_) fun hnone => Returns.pure ?_)
    · refine (returns_fileRemove .global kind key verdict s₂).conseq fun _ s' h => ?_
      rw [h, h₂, h₁]
      rfl
    · have hdir : s₂.dir .global = none := by simpa [dir] using hnone
      rw [Standing.clear, ← h₁, ← h₂,
        Standing.dropEntry_of_false (entry_of_no_dir hdir kind key verdict)]
  refine Returns.ite (fun _ => ?_) fun hnone => hglobal s₁ ?_
  · exact Returns.bind (returns_fileRemove .project kind key verdict s₁) fun _ s₂ h₂ => hglobal s₂ h₂
  · have hdir : s₁.dir .project = none := by simpa [dir] using hnone
    rw [Standing.dropEntry_of_false (entry_of_no_dir hdir kind key verdict)]

theorem returns_writeVerdict (session : SessionId) {kind : GrantKind} (key : Text) (scope : Scope)
    {verdict : Verdict} (access : Option SandboxPathAccess)
    (hlands : scope = .session ∨ Lands kind verdict riskTier) (s : Storage) :
    Returns (writeVerdict session kind key scope verdict access riskTier) s fun _ s' =>
      s'.standing = s.standing.write session kind key scope verdict := by
  cases scope with
  | once => exact Returns.fail
  | session => exact returns_sessionInsert session kind key verdict access riskTier s
  | project =>
    have hlands := hlands.resolve_left (by decide)
    refine Returns.view_bind (Returns.ite (fun _ => Returns.fail_bind) fun _ =>
      Returns.view_bind (Returns.ite (fun _ => Returns.fail_bind) fun hsome => ?_))
    have hdir : (s.dir .project).isSome = true := by simpa [dir, Option.isSome_iff_ne_none] using hsome
    exact returns_fileInsert key access hdir hlands
  | global =>
    have hlands := hlands.resolve_left (by decide)
    refine Returns.view_bind (Returns.ite (fun _ => Returns.fail_bind) fun hsome => ?_)
    have hdir : (s.dir .global).isSome = true := by simpa [dir, Option.isSome_iff_ne_none] using hsome
    exact returns_fileInsert key access hdir hlands

theorem returns_record (session : SessionId) {kind : GrantKind} (key : Text) (scope : Scope)
    {verdict : Verdict} (access : Option SandboxPathAccess)
    (hlands : scope = .session ∨ Lands kind verdict riskTier) (s : Storage) :
    Returns (record session kind key scope verdict access riskTier) s fun _ s' =>
      scope ≠ .once ∧ s'.standing = (s.standing.clear session kind key verdict.opposite).write
        session kind key scope verdict := by
  refine Returns.ite (fun _ => Returns.fail_bind) fun hscope => ?_
  refine Returns.bind (returns_clearKeyEverywhere session kind key verdict.opposite s)
    fun _ s₁ h₁ => ?_
  refine (returns_writeVerdict session key scope access hlands s₁).conseq fun _ s' h => ?_
  exact ⟨hscope, by rw [h, h₁]⟩

/-- The calls by which sessions record verdicts. -/
inductive Request
  | command (info : CommandShape) (tier : RiskTier)
  | commandReject (info : CommandShape)
  | path (path : Text) (access : SandboxPathAccess)
  | pathReject (path : Text)
  | mcpKey (key : Text) (verdict : Verdict)
  | harness (name : Text)

namespace Request

def kind : Request → GrantKind
  | command .. | commandReject .. => .command
  | path .. | pathReject .. => .path
  | mcpKey .. => .mcpTool
  | harness .. => .harness

def key : Request → Text
  | command info _ | commandReject info => info.key
  | path p _ | pathReject p => p
  | mcpKey key _ => key
  | harness name => name

def verdict : Request → Verdict
  | command .. | path .. | harness .. => .allow
  | commandReject .. | pathReject .. => .reject
  | mcpKey _ verdict => verdict

def run (session : SessionId) (scope : Scope) : Request → StoreM PUnit
  | command info tier => recordCommand session info tier scope
  | commandReject info => recordCommandReject session info scope
  | path p access => recordPath session p scope access
  | pathReject p => recordPathReject session p scope
  | mcpKey key verdict => recordMcpKey session key scope verdict
  | harness name => recordHarness session name scope

end Request

/-- One recording by one session. -/
structure Recording where
  session : SessionId
  scope : Scope
  request : Request

def Recording.run (r : Recording) : StoreM PUnit := r.request.run r.session r.scope

/-- What a recording that returns leaves. -/
def Standing.recorded (t : Standing) (r : Recording) : Standing :=
  (t.clear r.session r.request.kind r.request.key r.request.verdict.opposite).write r.session
    r.request.kind r.request.key r.scope r.request.verdict

theorem returns_run (r : Recording) (s : Storage) : Returns r.run s fun _ s' =>
    r.scope ≠ .once ∧ s'.standing = s.standing.recorded r := by
  obtain ⟨session, scope, request⟩ := r
  cases request with
  | command info tier =>
    exact Returns.ite (fun _ => Returns.fail_bind) fun _ => Returns.ite
      (fun _ => Returns.fail_bind) fun _ => returns_record session info.key scope none
        (.inr ⟨by decide, fun _ _ => rfl⟩) s
  | commandReject info =>
    exact Returns.ite (fun _ => Returns.fail_bind) fun _ => Returns.ite
      (fun _ => Returns.fail_bind) fun _ => returns_record session info.key scope none
        (.inr ⟨by decide, fun _ h => absurd h (by decide)⟩) s
  | path p access =>
    exact Returns.ite (fun _ => Returns.fail_bind) fun _ =>
      returns_record session p scope (some access) (.inr ⟨by decide, by decide⟩) s
  | pathReject p =>
    exact Returns.ite (fun _ => Returns.fail_bind) fun _ =>
      returns_record session p scope (some .readWrite) (.inr ⟨by decide, by decide⟩) s
  | mcpKey key verdict =>
    exact Returns.ite (fun _ => Returns.fail_bind) fun _ => returns_record session key scope none
      (.inr ⟨by decide, fun h => absurd h (by decide)⟩) s
  | harness name =>
    cases scope with
    | once => exact Returns.fail
    | session => exact returns_record session name .session none (.inl rfl) s
    | project => exact Returns.fail
    | global => exact Returns.fail

/-! ## Exclusion -/

namespace Standing

variable {t : Standing} {r : Recording}

@[simp] theorem opposite_opposite (v : Verdict) : v.opposite.opposite = v := by
  cases v <;> rfl

theorem opposite_ne (v : Verdict) : v.opposite ≠ v := by
  cases v <;> decide

theorem exclusive_iff : t.Exclusive ↔ ∀ session kind key verdict,
    ¬(t.Sees session kind key verdict ∧ t.Sees session kind key verdict.opposite) := by
  constructor
  · intro h session kind key verdict hboth
    cases verdict with
    | allow => exact h session kind key hboth
    | reject => exact h session kind key hboth.symm
  · intro h session kind key
    exact h session kind key .allow

/-- A recording leaves other keys alone. -/
theorem sees_recorded_of_ne {kind : GrantKind} {key : Text}
    (hne : ¬(kind = r.request.kind ∧ key = r.request.key)) (session : SessionId)
    (verdict : Verdict) :
    (t.recorded r).Sees session kind key verdict ↔ t.Sees session kind key verdict := by
  have hrow : (t.recorded r).row session kind key = t.row session kind key := by
    unfold recorded write clear
    cases r.scope <;> simp [dropRow, putRow, dropEntry, putEntry, hne]
  have hentry : ∀ d, (t.recorded r).entry d kind key verdict = t.entry d kind key verdict := by
    intro d
    have hne' : ∀ p q : Prop, ¬(p ∧ kind = r.request.kind ∧ key = r.request.key ∧ q) :=
      fun p q h => hne ⟨h.2.1, h.2.2.1⟩
    unfold recorded write clear
    cases r.scope <;> simp only [dropRow, putRow, dropEntry, putEntry, hne', if_false]
  simp only [Sees, hrow, hentry]

/-- The opposite verdict is left in the rows of other sessions only. -/
theorem sees_recorded_opposite (session : SessionId) :
    (t.recorded r).Sees session r.request.kind r.request.key r.request.verdict.opposite ↔
      session ≠ r.session ∧
        t.row session r.request.kind r.request.key = some r.request.verdict.opposite := by
  have hentry : ∀ d, (t.recorded r).entry d r.request.kind r.request.key
      r.request.verdict.opposite = false := by
    intro d
    have hne := opposite_ne r.request.verdict
    unfold recorded write clear
    cases r.scope <;> cases d <;> simp [dropRow, putRow, dropEntry, putEntry, hne]
  have hrow : (t.recorded r).row session r.request.kind r.request.key =
        some r.request.verdict.opposite ↔ session ≠ r.session ∧
          t.row session r.request.kind r.request.key = some r.request.verdict.opposite := by
    have hne := opposite_ne r.request.verdict
    unfold recorded write clear
    by_cases hsession : session = r.session
    · cases r.scope <;> simp [dropRow, putRow, dropEntry, putEntry, hsession, hne.symm]
    · cases r.scope <;> simp [dropRow, putRow, dropEntry, putEntry, hsession]
  simp [Sees, hentry, hrow]

/-- A recording in a file is seen by every session. -/
theorem sees_recorded_of_durable (honce : r.scope ≠ .once) (hdurable : r.scope ≠ .session)
    (session : SessionId) :
    (t.recorded r).Sees session r.request.kind r.request.key r.request.verdict := by
  unfold recorded write
  cases hscope : r.scope with
  | once => exact absurd hscope honce
  | session => exact absurd hscope hdurable
  | project => exact .inr ⟨.project, by simp [putEntry]⟩
  | global => exact .inr ⟨.global, by simp [putEntry]⟩

/-- A recording in a session's own rows shows nothing new to another session. -/
theorem sees_of_recorded_session (hscope : r.scope = .session) {session : SessionId}
    (hother : session ≠ r.session)
    (h : (t.recorded r).Sees session r.request.kind r.request.key r.request.verdict) :
    t.Sees session r.request.kind r.request.key r.request.verdict := by
  have hne := (opposite_ne r.request.verdict).symm
  simpa [Sees, recorded, write, clear, hscope, dropRow, putRow, dropEntry, hother, hne] using h

end Standing

/-- The recording stays within the session, or no other session has the opposite verdict. -/
def Recording.Safe (r : Recording) (t : Standing) : Prop :=
  r.scope = .session ∨ ∀ other, other ≠ r.session →
    t.row other r.request.kind r.request.key ≠ some r.request.verdict.opposite

/-- A recording keeps the exclusion exactly if it is safe. -/
theorem Standing.exclusive_recorded_iff {r : Recording} (h : t.Exclusive)
    (honce : r.scope ≠ .once) : (t.recorded r).Exclusive ↔ r.Safe t := by
  rw [exclusive_iff] at h ⊢
  constructor
  · intro hafter
    by_cases hscope : r.scope = .session
    · exact .inl hscope
    · refine .inr fun other hother hrow => ?_
      exact hafter other r.request.kind r.request.key r.request.verdict
        ⟨sees_recorded_of_durable honce hscope other,
          (sees_recorded_opposite other).2 ⟨hother, hrow⟩⟩
  · intro hsafe session kind key verdict hboth
    by_cases hkey : kind = r.request.kind ∧ key = r.request.key
    · obtain ⟨rfl, rfl⟩ := hkey
      -- One of the two verdicts is the recorded one, the other its opposite.
      have hsees : (t.recorded r).Sees session r.request.kind r.request.key r.request.verdict ∧
          (t.recorded r).Sees session r.request.kind r.request.key r.request.verdict.opposite := by
        by_cases hv : verdict = r.request.verdict
        · exact hv ▸ hboth
        · have hopp : verdict = r.request.verdict.opposite := by
            cases verdict <;> cases hr : r.request.verdict <;> simp_all [Verdict.opposite]
          rw [hopp, opposite_opposite] at hboth
          exact hboth.symm
      obtain ⟨hother, hrow⟩ := (sees_recorded_opposite session).1 hsees.2
      rcases hsafe with hscope | hsafe
      · exact h session _ _ _ ⟨sees_of_recorded_session hscope hother hsees.1, .inl hrow⟩
      · exact hsafe session hother hrow
    · rw [sees_recorded_of_ne hkey, sees_recorded_of_ne hkey] at hboth
      exact h session kind key verdict hboth

/-- Sessions of one project recording verdicts one after the other; every call returns. -/
def recordings (init : Storage → Prop) : Lts Storage Recording where
  init
  step s r s' := ∃ script, outcome r.run s script = (.ok ⟨⟩, s')

/-- In a run of recordings no session ever sees both verdicts on a key exactly if each recording in
    a file was made while no other session had the opposite verdict on the key in its rows. -/
theorem recordings_exclusive_iff {s : Storage} {past : List (Storage × Recording)}
    (h : (recordings fun s => s.standing.Exclusive).History s past) :
    (s.standing.Exclusive ∧ ∀ e ∈ past, e.1.standing.Exclusive) ↔
      ∀ e ∈ past, e.2.Safe e.1.standing := by
  have hstep : ∀ s r s', True → s.standing.Exclusive → (recordings fun s => s.standing.Exclusive).step s r s' →
      (s'.standing.Exclusive ↔ r.Safe s.standing) := by
    rintro s r s' - hs ⟨script, hrun⟩
    obtain ⟨honce, hafter⟩ := (returns_run r s).of_outcome hrun
    rw [hafter]
    exact Standing.exclusive_recorded_iff hs honce
  exact Lts.History.forall_states_iff (fun _ _ => trivial) (fun _ h => h) hstep h

/-- What a session recorded on a key is what it goes by, and all it goes by, until the key is recorded
    again, whatever is recorded on other keys in between and by whom. -/
theorem recorded_verdict_stands {init : Storage → Prop} {s before : Storage} {r : Recording}
    {later earlier : List (Storage × Recording)}
    (h : (recordings init).History s (later ++ (before, r) :: earlier)) (hother : ∀ e ∈ later,
      ¬(r.request.kind = e.2.request.kind ∧ r.request.key = e.2.request.key))
    (verdict : Verdict) :
    s.standing.Sees r.session r.request.kind r.request.key verdict ↔ verdict = r.request.verdict := by
  induction later generalizing s with
  | nil =>
    obtain _ | ⟨-, script, hrun⟩ := h
    obtain ⟨honce, hafter⟩ := (returns_run r before).of_outcome hrun
    rw [hafter]
    by_cases hv : verdict = r.request.verdict
    · refine iff_of_true ?_ hv
      rw [hv]
      by_cases hscope : r.scope = .session
      · exact .inl (by simp [Standing.recorded, Standing.write, hscope, Standing.putRow])
      · exact Standing.sees_recorded_of_durable honce hscope r.session
    · have hopp : verdict = r.request.verdict.opposite := by
        cases verdict <;> cases hr : r.request.verdict <;> simp_all [Verdict.opposite]
      rw [hopp, Standing.sees_recorded_opposite]
      exact iff_of_false (fun h => h.1 rfl) (Standing.opposite_ne _)
  | cons e later ih =>
    obtain _ | ⟨hpast, script, hrun⟩ := h
    obtain ⟨hne, hrest⟩ := List.forall_mem_cons.1 hother
    rw [((returns_run _ _).of_outcome hrun).2, Standing.sees_recorded_of_ne hne]
    exact ih hpast hrest

/-! ## Two sessions -/

def freshStorage : Storage := ⟨∅, true, some (.present {}), some (.present {})⟩

theorem not_freshStorage_sees (session : SessionId) (kind : GrantKind) (key : Text)
    (verdict : Verdict) : ¬freshStorage.standing.Sees session kind key verdict := by
  rintro (hrow | ⟨d, hentry⟩)
  · exact absurd hrow (by simp [Storage.standing, freshStorage])
  · revert hentry
    cases d <;> cases kind <;> cases verdict <;>
      simp [Storage.standing, Storage.file, dir, freshStorage, ApprovalsDir.file, ApprovalsFile.has]

def listing : CommandShape := ⟨"ls".toList, false, false⟩

/-- One session rejects a command for itself. -/
def rejectForSession : Recording := ⟨1, .session, .commandReject listing⟩

/-- Another one then allows it for the project. -/
def allowForProject : Recording := ⟨2, .project, .command listing .ordinary⟩

def rejectedOnce : Storage := (outcome rejectForSession.run freshStorage []).2

def allowedBehind : Storage := (outcome allowForProject.run rejectedOnce []).2

theorem allowedBehind_history : (recordings fun s => s.standing.Exclusive).History allowedBehind
      [(rejectedOnce, allowForProject), (freshStorage, rejectForSession)] := by
  have hfresh : freshStorage.standing.Exclusive :=
    fun session kind key hboth => not_freshStorage_sees session kind key .allow hboth.1
  have hreject : (outcome rejectForSession.run freshStorage []).1 = .ok ⟨⟩ := rfl
  have hallow : (outcome allowForProject.run rejectedOnce []).1 = .ok ⟨⟩ := rfl
  exact .step (.step (.init hfresh) ⟨[], Prod.ext hreject rfl⟩) ⟨[], Prod.ext hallow rfl⟩

theorem allowedBehind_exclusive_iff : (allowedBehind.standing.Exclusive ∧ ∀ e ∈
        [(rejectedOnce, allowForProject), (freshStorage, rejectForSession)],
        e.1.standing.Exclusive) ↔
      ∀ e ∈ [(rejectedOnce, allowForProject), (freshStorage, rejectForSession)],
        e.2.Safe e.1.standing :=
  recordings_exclusive_iff allowedBehind_history

/-- The first session then rejects another command. -/
def rejectRemoval : Recording := ⟨1, .session, .commandReject ⟨"rm".toList, false, false⟩⟩

theorem recorded_verdict_stands_allowedBehind :
    (outcome rejectRemoval.run allowedBehind []).2.standing.Sees 2 .command listing.key .allow :=
  (@recorded_verdict_stands _ _ _ _ [(allowedBehind, rejectRemoval)] _
    (.step allowedBehind_history ⟨[], Prod.ext rfl rfl⟩) (List.forall_mem_singleton.2 (by decide)) _).2 rfl

/-- The session that rejected the command now sees both its rejection and the permission. -/
theorem project_allow_meets_session_reject :
    (recordings fun s => s.standing.Exclusive).Reachable allowedBehind ∧
    allowedBehind.standing.Sees 1 .command listing.key .reject ∧
    allowedBehind.standing.Sees 1 .command listing.key .allow := by
  refine ⟨allowedBehind_history.reachable, .inl ?_, .inr ⟨.project, ?_⟩⟩
  · decide
  · decide

end FlyCockpit.Approval
