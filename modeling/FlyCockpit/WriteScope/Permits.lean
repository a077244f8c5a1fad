-- SUMMARY: Mutation permits: what a refused one leaves behind, and that held ones never conflict.
import FlyCockpit.Lib.Transition
import FlyCockpit.WriteScope.Coordinator

/-!
# Refused permits

A mutation permit is recorded before its target is resolved a second time. If that resolution fails
the permit stays held, and if it gives another path the permit is released by a statement whose
failure is ignored. `acquire_error_keeps_held_iff` says for every failing call whether a permit is
left behind. Permits left behind or not, those held at one time are never in each other's way.
-/

namespace FlyCockpit.WriteScope

open Faults

/-- A permit that is held in a session. -/
def Database.Held (db : Database) (sessionId permitId : Nat) (row : PermitRow) : Prop :=
  db.permits.lookup permitId = some row ∧ row.sessionId = sessionId ∧ row.state = .held

/-- The checks in front of a permit let an effective path through. -/
structure Machine.Admits (m : Machine) (resolve : Resolve) (token : WriteScopeToken) (target : Path)
    (kind : MutationKind) (effective : Path) : Prop where
  lease : ∃ row, m.state.db.leases.lookup token.leaseId = some row ∧ row.generation = token.generation ∧
    (m.state.db.authority token.leaseId row).allowsPath effective = true
  valid : m.state.isValid token = true
  resolves : resolve target = .ok effective
  free : m.state.db.conflicting token.sessionId (.forMutation effective kind) = []

/-! ## The checks -/

theorem EffectiveAuthority.permits_eq_ok_iff {authority : EffectiveAuthority} {path : Path} :
    authority.permits path = .ok () ↔ authority.allowsPath path = true := by
  unfold permits allowsPath
  cases hbase : authority.base.containsPath path with
  | false => simp
  | true =>
    cases hfind : authority.exclusions.find? (·.containsPath path) with
    | none => simpa [List.find?_eq_none] using hfind
    | some excluded =>
      have hcontains := List.find?_some hfind
      simpa using ⟨excluded, List.mem_of_find?_eq_some hfind, hcontains⟩

section Checks

variable {m : Machine} {token : WriteScopeToken} {row : LeaseRow} {leaseId : Nat}
  {resolve : Resolve} {target : Path}

theorem looks_lease (h : m.state.db.leases.lookup leaseId = some row) :
    Looks (lease leaseId) m 1 True row := by
  refine Looks.read_bind (k := 0) ?_ rfl
  dsimp only
  rw [h]
  exact Looks.pure trivial

theorem refuses_lease (h : m.state.db.leases.lookup leaseId = none) :
    Refuses (lease leaseId) m := by
  refine (Looks.read _ _ m).bind_refuses ?_
  dsimp only
  rw [h]
  exact Refuses.fail _ m

theorem looks_validateToken (h : m.state.db.leases.lookup token.leaseId = some row) :
    Looks (validateToken token) m 1 (m.state.isValid token = true ∧ row.generation = token.generation) () := by
  refine (looks_lease h).bind (k := 0) (Looks.view_bind (Looks.ite (fun hstale => Looks.fail ?_) fun hfresh =>
    Looks.pure ?_)) rfl (iff_of_eq (true_and _))
  · rintro ⟨hvalid, hgeneration⟩
    simp [hvalid, hgeneration] at hstale
  · simpa using hfresh

theorem looks_effectiveAuthority (h : m.state.db.leases.lookup leaseId = some row) :
    Looks (effectiveAuthority leaseId) m 2 True (m.state.db.authority leaseId row) :=
  (looks_lease h).bind (Looks.read _ _ m) rfl (iff_of_eq (true_and _))

theorem looks_admitMutation {effective : Path} {kind : MutationKind}
    (hrow : m.state.db.leases.lookup token.leaseId = some row) (heffective : resolve target = .ok effective) :
    Looks (admitMutation resolve token target kind) m 4 (m.Admits resolve token target kind effective)
      (.forMutation effective kind) := by
  have hadmits : (m.state.isValid token = true ∧ row.generation = token.generation) ∧
      (m.state.db.authority token.leaseId row).permits effective = .ok () ∧
        m.state.db.conflicting token.sessionId (.forMutation effective kind) = [] ↔
      m.Admits resolve token target kind effective := by
    rw [EffectiveAuthority.permits_eq_ok_iff]
    constructor
    · rintro ⟨⟨hvalid, hgeneration⟩, hallows, hfree⟩
      exact ⟨⟨row, hrow, hgeneration, hallows⟩, hvalid, heffective, hfree⟩
    · rintro ⟨⟨row', hrow', hgeneration, hallows⟩, hvalid, -, hfree⟩
      obtain rfl := Option.some.inj (hrow'.symm.trans hrow)
      exact ⟨⟨hvalid, hgeneration⟩, hallows, hfree⟩
  have hresolved : Looks (resolved resolve target : Op Path) m 0 True effective := by
    rw [resolved, heffective]
    exact Looks.pure trivial
  refine (looks_validateToken hrow).bind (k := 3) ?_ rfl hadmits
  refine (looks_effectiveAuthority hrow).bind (k := 1) ?_ rfl (iff_of_eq (true_and _))
  refine hresolved.bind (k := 1) ?_ rfl (iff_of_eq (true_and _))
  refine Looks.check.bind (k := 1) ?_ rfl Iff.rfl
  refine Looks.read_bind (k := 0) (Looks.ite (fun hconflicts => Looks.fail_bind ?_) fun hnone => Looks.pure ?_) rfl
  · exact hconflicts
  · exact not_not.1 hnone

/-- Without the lease, or if the target does not resolve, nothing is let through. -/
theorem refuses_admitMutation {kind : MutationKind}
    (h : m.state.db.leases.lookup token.leaseId = none ∨ ∀ effective, resolve target ≠ .ok effective) :
    Refuses (admitMutation resolve token target kind) m := by
  cases hrow : m.state.db.leases.lookup token.leaseId with
  | none => exact ((refuses_lease hrow).bind _).bind _
  | some row =>
    have hresolve := h.resolve_left (by simp [hrow])
    have hresolved : Refuses (resolved resolve target : Op Path) m := by
      unfold resolved
      cases heffective : resolve target with
      | ok effective => exact absurd heffective (hresolve effective)
      | error reason => exact Refuses.fail _ m
    refine (looks_validateToken hrow).bind_refuses ?_
    refine (looks_effectiveAuthority hrow).bind_refuses ?_
    exact hresolved.bind _

end Checks

/-! ## The record -/

section Record

variable {m m' : Machine} {revalidate : Resolve} {token : WriteScopeToken} {target : Path}
  {footprint : PermitFootprint} {script : List Answer} {e : WriteScopeError} {db : Database}
  {permitId : Nat} {row : PermitRow}

theorem outcome_recordAndConfirm :
    outcome (recordAndConfirm revalidate token target footprint) m script =
      outcome (execute "inserting write_scope_permit"
          (·.insertWriteScopePermit (m.env m.tick).newId (token.permitRow footprint)) >>= fun _ =>
        confirmPermit revalidate target footprint (m.env m.tick).newId) { m with tick := m.tick + 1 } script := by
  unfold recordAndConfirm recordPermit
  simp only [bind_assoc, pure_bind]
  rfl

/-- The machine with the permit recorded. -/
def Machine.withPermit (m : Machine) (permitId : Nat) (row : PermitRow) : Machine :=
  m.withDb { m.state.db with permits := m.state.db.permits.insert permitId row }

theorem held_insert_iff (sessionId id : Nat) (other : PermitRow) :
    Database.Held { db with permits := db.permits.insert permitId row } sessionId id other ↔
      if id = permitId then other = row ∧ row.sessionId = sessionId ∧ row.state = .held
      else db.Held sessionId id other := by
  unfold Database.Held
  dsimp only
  rw [Table.lookup_insert_eq]
  split_ifs with hid
  · rw [Option.some.injEq]
    constructor
    · rintro ⟨rfl, h⟩
      exact ⟨rfl, h⟩
    · rintro ⟨rfl, h⟩
      exact ⟨rfl, h⟩
  · rfl

theorem not_held_of_fresh (hfresh : db.permits.lookup permitId = none)
    (sessionId : Nat) (row : PermitRow) : ¬db.Held sessionId permitId row := by
  rintro ⟨hrow, -⟩
  rw [hfresh] at hrow
  cases hrow

/-- A recorded permit is held, one that is released again is not. -/
theorem held_withPermit_iff (hfresh : m.state.db.permits.lookup (m.env m.tick).newId = none) :
    ¬(∀ id row, (m.withPermit (m.env m.tick).newId (token.permitRow footprint)).state.db.Held
        token.sessionId id row ↔ m.state.db.Held token.sessionId id row) ∧
      ∀ id row, ((m.withPermit (m.env m.tick).newId (token.permitRow footprint)).withPermit
        (m.env m.tick).newId (token.permitRow footprint).freed).state.db.Held token.sessionId id row ↔
          m.state.db.Held token.sessionId id row := by
  constructor
  · intro h
    refine not_held_of_fresh hfresh token.sessionId (token.permitRow footprint) ((h _ _).1 ?_)
    refine (held_insert_iff ..).2 ?_
    rw [if_pos rfl]
    exact ⟨rfl, rfl, rfl⟩
  · intro id row
    refine (held_insert_iff ..).trans ?_
    by_cases hid : id = (m.env m.tick).newId
    · subst hid
      rw [if_pos rfl]
      constructor
      · rintro ⟨-, -, hstate⟩
        cases hstate
      · exact fun h => absurd h (not_held_of_fresh hfresh _ _)
    · rw [if_neg hid]
      refine (held_insert_iff ..).trans ?_
      rw [if_neg hid]

theorem insert_of_fresh (hfresh : m.state.db.permits.lookup (m.env m.tick).newId = none) :
    (m.state.db.insertWriteScopePermit (m.env m.tick).newId (token.permitRow footprint)).map
        (fun r => (r.1, { m with tick := m.tick + 1 }.withDb r.2)) =
      .ok (token.permitRow footprint, { m with tick := m.tick + 1 }.withPermit (m.env m.tick).newId
        (token.permitRow footprint)) := by
  rw [Database.insertWriteScopePermit_of hfresh]
  rfl

theorem insert_of_taken (htaken : m.state.db.permits.lookup (m.env m.tick).newId ≠ none) :
    ∃ e, (m.state.db.insertWriteScopePermit (m.env m.tick).newId (token.permitRow footprint)).map
        (fun r => (r.1, { m with tick := m.tick + 1 }.withDb r.2)) = .error e := by
  unfold Database.insertWriteScopePermit insertRow
  rw [if_pos (Option.isSome_iff_ne_none.2 htaken)]
  exact ⟨_, rfl⟩

/-- The permit is released by a statement of its own, and stays if that has no effect. -/
theorem confirmPermit_cases
    (hrow : m.state.db.permits.lookup permitId = some row) (hheld : row.state = .held)
    (h : outcome (confirmPermit revalidate target footprint permitId) m script = (.error (.error e), m')) :
    revalidate target ≠ .ok footprint.target ∧ ((m' = m ∧ ∀ other, revalidate target = .ok other →
          answerAt script 0 = .busy ∨ answerAt script 0 = .refuse) ∨
        (m' = m.withPermit permitId row.freed ∧ ∃ other, revalidate target = .ok other ∧
          (answerAt script 0 = .proceed ∨ answerAt script 0 = .lose))) := by
  unfold confirmPermit resolved at h
  cases hresolve : revalidate target with
  | error reason =>
    rw [hresolve] at h
    cases h
    exact ⟨by simp, .inl ⟨rfl, fun other hother => by cases hother⟩⟩
  | ok other =>
    rw [hresolve] at h
    have hpure : (ofResult ((Except.ok other : Except String Path).mapError fun _ =>
        WriteScopeError.effectivePathChanged target) : Op Path) = pure other := rfl
    rw [hpure, pure_bind] at h
    by_cases hsame : other = footprint.target
    · rw [if_neg (not_not.2 hsame)] at h
      cases h
    · have hrelease : (m.state.db.releaseWriteScopePermit permitId).map (fun r => (r.1, m.withDb r.2)) =
          .ok (some row.freed, m.withPermit permitId row.freed) := by
        rw [Database.releaseWriteScopePermit_of hrow hheld]
        rfl
      rw [if_pos hsame, execute, outcome_attempt_call_bind] at h
      split_ifs at h with hstop
      · cases h
      have hstore : (settle (answerAt script 0) (WriteScopeError.internal "releasing write_scope_permit") m
          (.ok (some row.freed, m.withPermit permitId row.freed))).2 = m' := by
        rw [← hrelease]
        exact congrArg Prod.snd h
      refine ⟨fun heq => hsame (Except.ok.inj heq), ?_⟩
      cases hanswer : answerAt script 0 with
      | stop => exact absurd hanswer hstop
      | busy =>
        rw [hanswer] at hstore
        exact .inl ⟨hstore.symm, fun _ _ => .inl rfl⟩
      | refuse =>
        rw [hanswer] at hstore
        exact .inl ⟨hstore.symm, fun _ _ => .inr rfl⟩
      | proceed =>
        rw [hanswer] at hstore
        exact .inr ⟨hstore.symm, other, rfl, .inl rfl⟩
      | lose =>
        rw [hanswer] at hstore
        exact .inr ⟨hstore.symm, other, rfl, .inr rfl⟩

/-- A failing call leaves the permit behind exactly if its record took effect, and either the call did
    not learn of it, or the target does not resolve to the same path again and no release took effect. -/
theorem held_recordAndConfirm_iff
    (h : outcome (recordAndConfirm revalidate token target footprint) m script = (.error (.error e), m')) :
    (∀ id row, m'.state.db.Held token.sessionId id row ↔ m.state.db.Held token.sessionId id row) ↔
      ¬(m.state.db.permits.lookup (m.env m.tick).newId = none ∧
        (answerAt script 0 = .lose ∨ answerAt script 0 = .proceed ∧
          revalidate target ≠ .ok footprint.target ∧ ∀ other, revalidate target = .ok other →
            answerAt script 1 = .busy ∨ answerAt script 1 = .refuse)) := by
  rw [outcome_recordAndConfirm, execute] at h
  have hsame : (∀ id row, m.state.db.Held token.sessionId id row ↔ m.state.db.Held token.sessionId id row) :=
    fun _ _ => Iff.rfl
  by_cases hfresh : m.state.db.permits.lookup (m.env m.tick).newId = none
  · have hinsert := @insert_of_fresh m token footprint hfresh
    obtain ⟨hkept, hfreed⟩ := @held_withPermit_iff m token footprint hfresh
    -- The record, by what the environment decides on it.
    cases hanswer : answerAt script 0 with
    | stop =>
      rw [outcome_call_bind_of_error hanswer hinsert rfl] at h
      cases h
    | busy =>
      rw [outcome_call_bind_of_error hanswer hinsert rfl] at h
      cases h
      exact iff_of_true hsame (by simp)
    | refuse =>
      rw [outcome_call_bind_of_error hanswer hinsert rfl] at h
      cases h
      exact iff_of_true hsame (by simp)
    | lose =>
      rw [outcome_call_bind_of_error hanswer hinsert rfl] at h
      cases h
      exact iff_of_false hkept fun hnot => hnot ⟨hfresh, .inl rfl⟩
    | proceed =>
      rw [outcome_call_bind_of_ok hanswer hinsert rfl] at h
      obtain ⟨hchanged, hcases⟩ := confirmPermit_cases (AList.lookup_insert _) rfl h
      rw [answerAt_drop] at hcases
      rcases hcases with ⟨rfl, hunreleased⟩ | ⟨rfl, other, hother, hreleased⟩
      · exact iff_of_false hkept fun hnot => hnot ⟨hfresh, .inr ⟨rfl, hchanged, hunreleased⟩⟩
      · refine iff_of_true hfreed ?_
        rintro ⟨-, hlose | ⟨-, -, hunreleased⟩⟩
        · cases hlose
        · rcases hunreleased other hother with h | h <;> rw [h] at hreleased <;> simp at hreleased
  · obtain ⟨e', htaken⟩ := @insert_of_taken m token footprint hfresh
    obtain rfl := store_of_rejected h htaken
    exact iff_of_true hsame fun hnot => hfresh hnot.1

end Record

/-- A call that fails leaves the held permits of the session as they were, except if its checks pass and
    its record takes effect, and either the call does not learn of the record, or the target does not
    resolve to the same path again and no release takes effect. -/
theorem acquire_error_keeps_held_iff {m m' : Machine} {resolve revalidate : Resolve} {token : WriteScopeToken}
    {target : Path} {kind : MutationKind} {script : List Answer} {e : WriteScopeError}
    (h : outcome (acquireMutationPermit resolve revalidate token target kind) m script =
      (.error (.error e), m')) :
    (∀ id row, m'.state.db.Held token.sessionId id row ↔ m.state.db.Held token.sessionId id row) ↔
      ¬∃ effective, m.Admits resolve token target kind effective ∧ Proceeds 4 script ∧
        m.state.db.permits.lookup (m.env m.tick).newId = none ∧
        (answerAt script 4 = .lose ∨ answerAt script 4 = .proceed ∧
          revalidate target ≠ .ok effective ∧ ∀ other, revalidate target = .ok other →
            answerAt script 5 = .busy ∨ answerAt script 5 = .refuse) := by
  have hsame : (∀ id row, m.state.db.Held token.sessionId id row ↔ m.state.db.Held token.sessionId id row) :=
    fun _ _ => Iff.rfl
  rw [acquireMutationPermit] at h
  by_cases hknown : (∃ row, m.state.db.leases.lookup token.leaseId = some row) ∧
      ∃ effective, resolve target = .ok effective
  · obtain ⟨⟨row, hrow⟩, effective, heffective⟩ := hknown
    have heq : ∀ other, m.Admits resolve token target kind other → other = effective := fun other hother =>
      Except.ok.inj (hother.resolves.symm.trans heffective)
    have hlooks := @looks_admitMutation m token row resolve target effective kind hrow heffective
    rcases hlooks.outcome_bind script with ⟨hproceeds, hadmits, hrest⟩ | ⟨hnot, e', hended⟩
    · rw [hrest] at h
      rw [held_recordAndConfirm_iff h, answerAt_drop, answerAt_drop, not_iff_not]
      constructor
      · exact fun hleft => ⟨effective, hadmits, hproceeds, hleft⟩
      · rintro ⟨other, hother, -, hleft⟩
        obtain rfl := heq other hother
        exact hleft
    · rw [hended] at h
      cases h
      refine iff_of_true hsame ?_
      rintro ⟨other, hother, hproceeds, -⟩
      exact hnot ⟨hproceeds, heq other hother ▸ hother⟩
  · have hrefuses : Refuses (admitMutation resolve token target kind) m := by
      refine refuses_admitMutation ?_
      rcases not_and_or.1 hknown with hnone | hnone
      · exact .inl (Option.eq_none_iff_forall_ne_some.2 fun row hrow => hnone ⟨row, hrow⟩)
      · exact .inr fun effective heffective => hnone ⟨effective, heffective⟩
    obtain ⟨e', hended⟩ := (hrefuses.bind (recordAndConfirm revalidate token target)).outcome script
    rw [hended] at h
    cases h
    refine iff_of_true hsame ?_
    rintro ⟨effective, ⟨⟨row, hrow, -⟩, -, heffective, -⟩, -⟩
    exact hknown ⟨⟨row, hrow⟩, effective, heffective⟩

/-! ## A target that vanishes -/

/-- Surroundings that count the questions and support nothing. -/
def bareSurroundings (tick : Nat) : Answers where
  now := tick
  newId := tick
  kind := "direct"
  capabilityFor _ _ := .unsupported "no scoped writes"
  targetIdentity _ := none
  create _ _ := .error (.internal "no containment")
  proveMembershipAndReleaseUserCode _ := .ok ()
  terminate _ := .ok ()

/-- A fresh coordinator that has opened the root lease of a session. -/
def rootOpened : Machine := (outcome (openRootLease 1 ⟨["ws"]⟩) ⟨{}, bareSurroundings, 0⟩ []).2

def rootToken : WriteScopeToken := ⟨1, 1, 1, ⟨["ws"]⟩, 0⟩

def afterVanishing : Machine :=
  (outcome (acquireMutationPermit .ok (fun _ => .error "gone") rootToken ["ws", "a"] .create) rootOpened []).2

theorem acquire_error_keeps_held_vanishing :
    outcome (acquireMutationPermit .ok (fun _ => .error "gone") rootToken ["ws", "a"] .create) rootOpened [] =
        (.error (.error (.effectivePathChanged ["ws", "a"])), afterVanishing) ∧
      ((∀ id row, afterVanishing.state.db.Held 1 id row ↔ rootOpened.state.db.Held 1 id row) ↔
        ¬∃ effective, rootOpened.Admits .ok rootToken ["ws", "a"] .create effective ∧ Proceeds 4 [] ∧
          rootOpened.state.db.permits.lookup (rootOpened.env rootOpened.tick).newId = none ∧
          (answerAt [] 4 = .lose ∨ answerAt [] 4 = .proceed ∧
            (Except.error "gone" : Except String Path) ≠ .ok effective ∧
            ∀ other, (Except.error "gone" : Except String Path) = .ok other →
              answerAt [] 5 = .busy ∨ answerAt [] 5 = .refuse)) := by
  have hrun : outcome (acquireMutationPermit .ok (fun _ => .error "gone") rootToken ["ws", "a"] .create)
      rootOpened [] = (.error (.error (.effectivePathChanged ["ws", "a"])), afterVanishing) := Prod.ext rfl rfl
  exact ⟨hrun, acquire_error_keeps_held_iff hrun⟩

/-- The target resolves when the permit is asked for and no longer when it is recorded, as a link
    that dangles by then: the call fails, and the permit stays held. -/
theorem vanished_target_leaks_permit :
    (outcome (openRootLease 1 ⟨["ws"]⟩) ⟨{}, bareSurroundings, 0⟩ []).1 = .ok (1, rootToken) ∧
      (outcome (acquireMutationPermit .ok (fun _ => .error "gone") rootToken ["ws", "a"] .create) rootOpened []).1 =
        .error (.error (.effectivePathChanged ["ws", "a"])) ∧
      rootOpened.state.db.permits.lookup 2 = none ∧
      ∃ row, afterVanishing.state.db.Held 1 2 row :=
  ⟨rfl, rfl, rfl, _, rfl, rfl, rfl⟩

/-! ## Permits in flight -/

/-- No two mutations in flight in a session are in each other's way. -/
def Database.Compatible (db : Database) : Prop :=
  ∀ sessionId id id' row row', db.Held sessionId id row → db.Held sessionId id' row' → id ≠ id' →
    row.kind = .mutation → row'.kind = .mutation → row.footprint.conflictsWith row'.footprint = false

theorem PermitFootprint.conflictsWith_comm (a b : PermitFootprint) :
    a.conflictsWith b = b.conflictsWith a := by
  unfold conflictsWith overlaps
  rw [Bool.or_comm (pathContains _ _), Bool.or_comm a.kind.influencesNamespace, Bool.beq_comm]

section Compatible

variable {db db' : Database} {m : Machine} {permitId : Nat} {row : PermitRow}

theorem Database.Compatible.mono (h : db.Compatible) (hheld : ∀ sessionId id row,
    db'.Held sessionId id row → row.kind = .mutation → db.Held sessionId id row) : db'.Compatible :=
  fun _ _ _ _ _ hrow hrow' hne hkind hkind' =>
    h _ _ _ _ _ (hheld _ _ _ hrow hkind) (hheld _ _ _ hrow' hkind') hne hkind hkind'

theorem not_conflictsWith_of_free {sessionId : Nat} {footprint : PermitFootprint}
    (hfree : db.conflicting sessionId footprint = []) (hheld : db.Held sessionId permitId row)
    (hkind : row.kind = .mutation) : footprint.conflictsWith row.footprint = false := by
  obtain ⟨hrow, hsession, hstate⟩ := hheld
  have hmem : (permitId, row) ∈ db.listHeldWriteScopePermits (some sessionId) := by
    refine List.mem_filter.2 ⟨List.mem_map.2 ⟨⟨permitId, row⟩, AList.mem_lookup_iff.1 hrow, rfl⟩, ?_⟩
    simp [hsession, hstate]
  simpa [hkind] using List.filter_eq_nil_iff.1 hfree _ hmem

theorem Database.Compatible.insert {token : WriteScopeToken} {effective : Path} {kind : MutationKind}
    (h : db.Compatible) (hfree : db.conflicting token.sessionId (.forMutation effective kind) = []) :
    Database.Compatible { db with
      permits := db.permits.insert permitId (token.permitRow (.forMutation effective kind)) } := by
  intro sessionId id id' row row' hrow hrow' hne hkind hkind'
  rw [held_insert_iff] at hrow hrow'
  split_ifs at hrow hrow' with hid hid' hid'
  · exact absurd (hid.trans hid'.symm) hne
  · obtain ⟨rfl, rfl, -⟩ := hrow
    exact not_conflictsWith_of_free hfree hrow' hkind'
  · obtain ⟨rfl, rfl, -⟩ := hrow'
    rw [PermitFootprint.conflictsWith_comm]
    exact not_conflictsWith_of_free hfree hrow hkind
  · exact h sessionId id id' row row' hrow hrow' hne hkind hkind'

/-- However the operation ends, the mutations in flight stay compatible. -/
def KeepsCompatible {α : Type} (x : Op α) (m : Machine) : Prop :=
  Ensures x m fun _ m' => m'.state.db.Compatible

namespace KeepsCompatible

theorem bind {α β : Type} {x : Op α} {f : α → Op β} (hx : KeepsCompatible x m)
    (hf : ∀ a m', m'.state.db.Compatible → KeepsCompatible (f a) m') : KeepsCompatible (x >>= f) m :=
  Ensures.bind hx hf fun _ _ h => h

theorem execute {α : Type} {context : String} {f : Database → Except WriteScopeError (α × Database)}
    (hm : m.state.db.Compatible) (hf : ∀ a db', f m.state.db = .ok (a, db') → db'.Compatible) :
    KeepsCompatible (execute context f) m := by
  refine Ensures.call (fun a m' hrun => and_self_iff.2 ?_) (fun _ _ => hm) hm hm
  cases hdb : f m.state.db with
  | error e => simp [hdb, Except.map] at hrun
  | ok r =>
    rw [hdb] at hrun
    cases hrun
    exact hf _ _ hdb

/-- A release only takes a held permit away. -/
theorem release (hm : m.state.db.Compatible) : KeepsCompatible
    (WriteScope.execute "releasing write_scope_permit" (·.releaseWriteScopePermit permitId)) m := by
  refine execute hm fun a db' hrun => ?_
  obtain ⟨updated, hupdate, heq⟩ := Fallible.result_bind_eq_ok.1 hrun
  obtain ⟨rfl, -⟩ | ⟨row, -, -, -, rfl⟩ := updateRow_cases hupdate
  · cases heq
    exact hm
  · cases heq
    refine hm.mono fun sessionId id other hheld _ => ?_
    rw [held_insert_iff] at hheld
    split_ifs at hheld
    · cases hheld.2.2
    · exact hheld

theorem acquire (hm : m.state.db.Compatible) (resolve revalidate : Resolve) (token : WriteScopeToken)
    (target : Path) (kind : MutationKind) :
    KeepsCompatible (acquireMutationPermit resolve revalidate token target kind) m := by
  intro script
  rw [acquireMutationPermit]
  by_cases hknown : m.state.db.leases.lookup token.leaseId = none ∨
      ∀ effective, resolve target ≠ .ok effective
  · obtain ⟨e, hended⟩ := ((refuses_admitMutation hknown).bind _).outcome script
    rwa [hended]
  obtain ⟨hlease, hresolves⟩ := not_or.1 hknown
  obtain ⟨row, hrow⟩ := Option.ne_none_iff_exists'.1 hlease
  obtain ⟨effective, heffective⟩ := not_forall_not.1 hresolves
  obtain ⟨-, hadmits, hrest⟩ | ⟨-, e, hended⟩ :=
    (looks_admitMutation hrow heffective).outcome_bind script
  case inr => rwa [hended]
  rw [hrest, outcome_recordAndConfirm]
  refine bind (execute (m := { m with tick := m.tick + 1 }) hm fun a db' hrun => ?_)
    (fun _ m' hm' => ?_) _
  · obtain ⟨permits, hinsert, heq⟩ := Fallible.result_bind_eq_ok.1 hrun
    obtain ⟨-, rfl⟩ := insertRow_eq_ok.1 hinsert
    cases heq
    exact hm.insert hadmits.free
  · unfold confirmPermit resolved
    cases revalidate target with
    | error reason => exact Ensures.fail_bind hm'
    | ok other =>
      refine Ensures.ite (fun _ => ?_) fun _ => Ensures.pure hm'
      exact bind (Ensures.attempt (release hm')) fun _ _ h => Ensures.fail_bind h

end KeepsCompatible

end Compatible

inductive PermitCall
  | acquire (resolve revalidate : Resolve) (token : WriteScopeToken) (target : Path)
    (kind : MutationKind)
  | release (permit : MutationPermit)

/-- Permits are asked for and released one call after the other, whatever the storage does. Between
two calls anything may happen that adds no mutation permit. -/
def permitCalls : Lts Machine PermitCall where
  init m := m.state.db.permits = ∅
  step m call m' := ∃ before : Machine, (∀ sessionId id row, before.state.db.Held sessionId id row →
    row.kind = .mutation → m.state.db.Held sessionId id row) ∧ ∃ script, m' = match call with
      | .acquire resolve revalidate token target kind =>
        (outcome (acquireMutationPermit resolve revalidate token target kind) before script).2
      | .release permit => (outcome (releaseMutationPermit permit) before script).2

/-- Behind the permit that was left behind another one is given out. -/
def twoHeld : Machine :=
  (outcome (acquireMutationPermit .ok .ok rootToken ["ws", "b"] .create) afterVanishing []).2

end FlyCockpit.WriteScope
