-- SUMMARY: When a recording that fails leaves every verdict where it was.
import FlyCockpit.Approval.Exclusive

/-!
# Recordings that fail

A recording clears the opposite verdict on its key from all places the session reaches and only then
writes. Any of these steps may fail, and nothing that was cleared is put back. So a failing recording
costs no verdict exactly if there was none to clear.
-/

namespace FlyCockpit.Approval

open Faults

/-- Each verdict stands where it stood: in the rows of the same session, or in the same file. -/
structure Standing.Keeps (t t' : Standing) : Prop where
  row : ∀ session kind key verdict,
    t.row session kind key = some verdict → t'.row session kind key = some verdict
  entry : ∀ d kind key verdict, t.entry d kind key verdict = true → t'.entry d kind key verdict = true

namespace Standing

variable {t t' : Standing} {session : SessionId} {kind : GrantKind} {key : Text} {verdict : Verdict}

theorem Keeps.of_eq (h : t' = t) : t.Keeps t' := by
  subst h
  exact ⟨fun _ _ _ _ h => h, fun _ _ _ _ h => h⟩

theorem dropRow_of_ne (h : t.row session kind key ≠ some verdict) :
    t.dropRow session kind key verdict = t := by
  refine Standing.ext (funext fun i => funext fun k => funext fun x => ?_) rfl
  simp only [dropRow]
  split_ifs with hsame
  · obtain ⟨rfl, rfl, rfl⟩ := hsame
    cases hrow : t.row i k x with
    | none => rfl
    | some v =>
      have hne : v ≠ verdict := fun heq => h (heq ▸ hrow)
      simp [Option.filter, hne]
  · rfl

/-- A row is replaced only by one with its own verdict. -/
theorem keeps_putRow (h : t.row session kind key ≠ some verdict.opposite) :
    t.Keeps (t.putRow session kind key verdict) where
  row i k x v hv := by
    simp only [putRow]
    split_ifs with hsame
    · obtain ⟨rfl, rfl, rfl⟩ := hsame
      cases v <;> cases verdict <;> first | rfl | exact absurd hv h
    · exact hv
  entry _ _ _ _ hv := hv

/-- Behind a clearing the session sees the verdict nowhere. -/
theorem not_sees_clear : ¬(t.clear session kind key verdict).Sees session kind key verdict := by
  rintro (hrow | ⟨d, hentry⟩)
  · simp [clear, dropEntry, dropRow] at hrow
  · cases d <;> simp [clear, dropEntry] at hentry

theorem Keeps.sees (h : t.Keeps t') (hsees : t.Sees session kind key verdict) :
    t'.Sees session kind key verdict := by
  rcases hsees with hrow | ⟨d, hentry⟩
  · exact .inl (h.row _ _ _ _ hrow)
  · exact .inr ⟨d, h.entry _ _ _ _ hentry⟩

end Standing

/-! ## Harmless failures -/

section Harmless

variable {session : SessionId} {kind : GrantKind} {key : Text} {verdict : Verdict} {s : Storage}
  {access : Option SandboxPathAccess} {riskTier : Option RiskTier}

theorem ensures_sessionRemove (h : s.standing.row session kind key ≠ some verdict) :
    Ensures (sessionRemove session kind key verdict) s fun _ s' => s'.standing = s.standing := by
  refine Ensures.of_returns_call rfl ((returns_sessionRemove session kind key verdict s).conseq ?_)
  intro _ s' hs'
  rw [hs', Standing.dropRow_of_ne h]

theorem ensures_fileRemove {d : Durable} (h : s.standing.entry d kind key verdict = false) :
    Ensures (fileRemove d kind key verdict) s fun _ s' => s'.standing = s.standing := by
  refine Ensures.of_returns_call rfl ((returns_fileRemove d kind key verdict s).conseq ?_)
  intro _ s' hs'
  rw [hs', Standing.dropEntry_of_false h]

/-- A clearing that has nothing to clear changes nothing, wherever it stops. -/
theorem ensures_clearKeyEverywhere (h : ¬s.standing.Sees session kind key verdict) :
    Ensures (clearKeyEverywhere session kind key verdict) s fun _ s' => s'.standing = s.standing := by
  have hrow : s.standing.row session kind key ≠ some verdict := fun hrow => h (.inl hrow)
  have hentry : ∀ s₁ : Storage, s₁.standing = s.standing → ∀ d,
      Ensures (fileRemove d kind key verdict) s₁ fun _ s' => s'.standing = s.standing := by
    intro s₁ h₁ d
    have hfalse : s₁.standing.entry d kind key verdict = false := by
      rw [h₁]
      exact Bool.eq_false_iff.2 fun hentry => h (.inr ⟨d, hentry⟩)
    exact (ensures_fileRemove hfalse).conseq fun _ s' hs' => hs'.trans h₁
  refine (ensures_sessionRemove hrow).bind (fun _ s₁ h₁ => Ensures.view_bind ?_) fun _ _ h => h
  have hglobal : ∀ s₂ : Storage, s₂.standing = s.standing → Ensures (do
      if (← view).global.isSome then fileRemove .global kind key verdict) s₂
      fun _ s' => s'.standing = s.standing := fun s₂ h₂ =>
    Ensures.view_bind (Ensures.ite (fun _ => hentry s₂ h₂ .global) fun _ => Ensures.pure h₂)
  refine Ensures.ite (fun _ => ?_) fun _ => hglobal s₁ h₁
  exact (hentry s₁ h₁ .project).bind (fun _ s₂ h₂ => hglobal s₂ h₂) fun _ _ h => h

/-- An insertion into a file takes nothing away but the opposite verdict. -/
theorem has_verdictInsert_of_has {file : ApprovalsFile} {k : GrantKind} {v : Verdict} {x : Text}
    (h : file.has k v x = true) : (verdictInsert file kind verdict key access riskTier).has k v x = true := by
  by_cases hlands : Lands kind verdict riskTier
  · rw [has_verdictInsert _ _ _ _ _ _ hlands, h, ite_self]
  · have hsame : verdictInsert file kind verdict key access riskTier = file := by
      cases kind <;> cases verdict <;> cases riskTier <;> simp [Lands, verdictInsert] at hlands ⊢
    rw [hsame, h]

theorem ensures_fileInsert {d : Durable} (h : s.standing.entry d kind key verdict.opposite = false) :
    Ensures (fileInsert d kind key verdict access riskTier) s
      fun _ s' => s.standing.Keeps s'.standing := by
  have hreturns := returns_mutateApprovals d (fun file =>
    (true, verdictInsert (verdictRemove file kind verdict.opposite key).2 kind verdict key access riskTier)) s
  refine Ensures.of_returns_call (.of_eq rfl) (hreturns.conseq ?_)
  rintro - s' (⟨rfl, -⟩ | ⟨file, hfile, rfl⟩)
  · exact .of_eq rfl
  · rw [Storage.standing_setDir]
    refine ⟨fun _ _ _ _ h => h, fun e k x v hentry => ?_⟩
    dsimp only
    split_ifs with he
    · subst he
      have hhas : ∀ k v x, s.standing.entry e k x v = file.has k v x := fun k v x => by
        simp [Storage.standing, hfile]
      rw [hhas] at h hentry
      refine has_verdictInsert_of_has ?_
      rw [has_verdictRemove, if_neg, hentry]
      rintro ⟨rfl, rfl, rfl⟩
      rw [h] at hentry
      cases hentry
    · exact hentry

theorem ensures_writeVerdict (h : ¬s.standing.Sees session kind key verdict.opposite) (scope : Scope) :
    Ensures (writeVerdict session kind key scope verdict access riskTier) s
      fun _ s' => s.standing.Keeps s'.standing := by
  have hentry : ∀ d, s.standing.entry d kind key verdict.opposite = false := fun d =>
    Bool.eq_false_iff.2 fun hentry => h (.inr ⟨d, hentry⟩)
  have hkept : s.standing.Keeps s.standing := .of_eq rfl
  cases scope with
  | once => exact Ensures.fail hkept
  | session =>
    refine Ensures.of_returns_call hkept ((returns_sessionInsert session kind key verdict access riskTier
      s).conseq ?_)
    intro _ s' hs'
    rw [hs']
    exact Standing.keeps_putRow fun hrow => h (.inl hrow)
  | project =>
    exact Ensures.view_bind (Ensures.ite (fun _ => Ensures.fail_bind hkept) fun _ =>
      Ensures.view_bind (Ensures.ite (fun _ => Ensures.fail_bind hkept) fun _ =>
        ensures_fileInsert (hentry .project)))
  | global =>
    exact Ensures.view_bind (Ensures.ite (fun _ => Ensures.fail_bind hkept) fun _ =>
      ensures_fileInsert (hentry .global))

end Harmless

/-! ## A write that fails behind the clearing -/

section Fails

variable (session : SessionId) (kind : GrantKind) (key : Text) (verdict : Verdict) (s : Storage)

theorem exists_runs_fileRemove (d : Durable) :
    ∃ s', Runs (fileRemove d kind key verdict) s [.proceed] ⟨⟩ s' := by
  unfold fileRemove mutateApprovals
  have hempty : ApprovalsFile.has {} kind verdict key = false := by
    cases kind <;> cases verdict <;> simp [ApprovalsFile.has]
  cases hdir : s.dir d with
  | none => exact ⟨s, Runs.call (by rw [hdir])⟩
  | some dir =>
    cases dir with
    | missing =>
      refine ⟨s, Runs.call ?_⟩
      rw [hdir]
      exact if_neg (by simp [verdictRemove, hempty])
    | present file =>
      by_cases hhas : (verdictRemove file kind verdict key).1 = true
      · refine ⟨s.setDir d (.present (verdictRemove file kind verdict key).2), Runs.call ?_⟩
        rw [hdir]
        exact if_pos hhas
      · refine ⟨s, Runs.call ?_⟩
        rw [hdir]
        exact if_neg hhas

/-- If no call fails, the clearing returns. -/
theorem exists_runs_clearKeyEverywhere :
    ∃ script s', Runs (clearKeyEverywhere session kind key verdict) s script ⟨⟩ s' := by
  have hglobal : ∀ s₂ : Storage, ∃ script s', Runs (do
      if (← view).global.isSome then fileRemove .global kind key verdict) s₂ script ⟨⟩ s' := by
    intro s₂
    by_cases hsome : s₂.global.isSome = true
    · obtain ⟨s', hs'⟩ := exists_runs_fileRemove kind key verdict s₂ .global
      exact ⟨_, s', Runs.view_bind (Runs.ite (fun _ => hs') fun h => absurd hsome h)⟩
    · exact ⟨[], s₂, Runs.view_bind (Runs.ite (fun h => absurd h hsome) fun _ => Runs.pure _ _)⟩
  have hremove : ∃ s₁, Runs (sessionRemove session kind key verdict) s [.proceed] ⟨⟩ s₁ :=
    ⟨_, Runs.call rfl⟩
  obtain ⟨s₁, h₁⟩ := hremove
  by_cases hsome : s₁.project.isSome = true
  · obtain ⟨s₂, h₂⟩ := exists_runs_fileRemove kind key verdict s₁ .project
    obtain ⟨script, s', h'⟩ := hglobal s₂
    exact ⟨_, s', h₁.bind (Runs.view_bind (Runs.ite (fun _ => h₂.bind h') fun h => absurd hsome h))⟩
  · obtain ⟨script, s', h'⟩ := hglobal s₁
    exact ⟨_, s', h₁.bind (Runs.view_bind (Runs.ite (fun h => absurd h hsome) fun _ => h'))⟩

/-- The write has a way to fail from any storage. -/
theorem fails_writeVerdict (scope : Scope) (access : Option SandboxPathAccess)
    (riskTier : Option RiskTier) :
    Fails (writeVerdict session kind key scope verdict access riskTier) s s := by
  cases scope with
  | once => exact Fails.fail
  | session => exact Fails.call
  | project =>
    exact Fails.view_bind (Fails.ite (fun _ => Fails.fail_bind) fun _ =>
      Fails.view_bind (Fails.ite (fun _ => Fails.fail_bind) fun _ => Fails.call))
  | global =>
    exact Fails.view_bind (Fails.ite (fun _ => Fails.fail_bind) fun _ => Fails.call)

end Fails

/-- No failure of a recording costs a verdict exactly if it is refused from the start, or its session
    sees no opposite verdict on the key. -/
theorem record_failure_keeps_iff (session : SessionId) (kind : GrantKind) (key : Text) (scope : Scope)
    (verdict : Verdict) (access : Option SandboxPathAccess) (riskTier : Option RiskTier) (s : Storage) :
    (∀ script e s', outcome (record session kind key scope verdict access riskTier) s script =
        (.error (.error e), s') → s.standing.Keeps s'.standing) ↔
      scope = .once ∨ ¬s.standing.Sees session kind key verdict.opposite := by
  constructor
  · intro h
    by_cases hscope : scope = .once
    · exact .inl hscope
    · refine .inr fun hsees => ?_
      obtain ⟨script, s₁, hclear⟩ := exists_runs_clearKeyEverywhere session kind key verdict.opposite s
      have hwrite := fails_writeVerdict session kind key verdict s₁ scope access riskTier
      have hrecord : Fails (record session kind key scope verdict access riskTier) s s₁ :=
        Fails.ite (fun honce => absurd honce hscope) fun _ => hclear.bind_fails hwrite
      obtain ⟨script', e, hrun⟩ := hrecord
      have hcleared := (returns_clearKeyEverywhere session kind key verdict.opposite s).of_outcome
        (outcome_of_run_ok (hclear []))
      refine Standing.not_sees_clear (hcleared ▸ (h script' e s₁ hrun).sees hsees)
  · rintro (rfl | hsees) script e s' hrun
    · cases hrun
      exact .of_eq rfl
    · have hensures : Ensures (record session kind key scope verdict access riskTier) s
          fun _ s' => s.standing.Keeps s'.standing := by
        refine Ensures.ite (fun _ => Ensures.fail_bind (.of_eq rfl)) fun _ => ?_
        refine (ensures_clearKeyEverywhere hsees).bind (fun _ s₁ h₁ => ?_) fun _ s₁ h₁ => .of_eq h₁
        have hsees₁ : ¬s₁.standing.Sees session kind key verdict.opposite := h₁ ▸ hsees
        exact (ensures_writeVerdict hsees₁ scope).conseq fun _ s' hkeeps => h₁ ▸ hkeeps
      have hkeeps := hensures script
      rwa [hrun] at hkeeps

/-- A session without a project, which has rejected a command for itself. -/
def rootless : Storage :=
  ⟨(∅ : Table _ _).insert (1, .command, listing.key) ⟨.reject, none, none⟩, false, none, some (.present {})⟩

/-- Allowing the command for the missing project fails, and takes the rejection away. -/
theorem failed_allow_drops_reject :
    (outcome (recordCommand 1 listing .ordinary .project) rootless []).1 =
        .error (.error .noProjectRoot) ∧
      rootless.standing.row 1 .command listing.key = some .reject ∧
      ∀ verdict, ¬(outcome (recordCommand 1 listing .ordinary .project) rootless []).2.standing.Sees 1
        .command listing.key verdict := by
  refine ⟨by decide, by decide, ?_⟩
  rintro verdict (hrow | ⟨d, hentry⟩)
  · revert hrow
    cases verdict <;> decide
  · revert hentry
    cases verdict <;> cases d <;> decide

end FlyCockpit.Approval
