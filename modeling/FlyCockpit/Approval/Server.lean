-- SUMMARY: Whether a server's standing permission can come from a grant for another server.
import FlyCockpit.Approval.Exclusive

/-!
# Permissions of a server

`any_mcp_tool_allow_for_server` asks whether some tool of a server is allowed. In the files it
compares the beginnings of keys. In the session's rows it uses the same beginning as a LIKE
pattern, where letters match in either case, `_` and the `%` of the escaping are wildcards, and a
zero character ends the comparison. The answer can therefore come from a grant for another server.
-/

namespace FlyCockpit.Approval

open Faults Text

/-- A key built from names. -/
def Built (key : Text) : Prop :=
  ∃ agent profile server tool, key = mcpToolKeyFor agent profile server tool

/-- A recording for an MCP tool uses a key built from names. -/
def Request.Keyed : Request → Prop
  | mcpKey key _ => Built key
  | _ => True

/-- Recordings from nothing, with built keys for MCP tools. -/
def keyedRecordings : Lts Storage Recording where
  init s := ∀ session kind key verdict, ¬s.standing.Sees session kind key verdict
  step s r s' := r.request.Keyed ∧ ∃ script, outcome r.run s script = (.ok ⟨⟩, s')

/-- Every MCP grant a session sees has a built key. -/
def Standing.AllowsBuilt (t : Standing) : Prop :=
  ∀ session key verdict, t.Sees session .mcpTool key verdict → Built key

variable {key : Text} {agent : Option Text} {session : SessionId} {s : Storage}
  {profile server : Text}

theorem Standing.sees_of_recorded {t : Standing} {r : Recording}
    {kind : GrantKind} {verdict : Verdict} (h : (t.recorded r).Sees session kind key verdict) :
    t.Sees session kind key verdict ∨ kind = r.request.kind ∧ key = r.request.key := by
  by_cases hkey : kind = r.request.kind ∧ key = r.request.key
  · exact .inr hkey
  · exact .inl ((sees_recorded_of_ne hkey session verdict).1 h)

theorem keyed_reachable_allowsBuilt (h : keyedRecordings.Reachable s) : s.standing.AllowsBuilt := by
  refine Lts.Reachable.invariant (I := fun s => s.standing.AllowsBuilt) ?_ ?_ h
  · intro s hinit session key verdict hsees
    exact absurd hsees (hinit session .mcpTool key verdict)
  · rintro s r s' hs ⟨hkeyed, script, hrun⟩ session key verdict hsees
    rw [((returns_run r s).of_outcome hrun).2] at hsees
    rcases Standing.sees_of_recorded hsees with hold | ⟨hkind, rfl⟩
    · exact hs session key verdict hold
    · -- Only a recording for an MCP tool has this kind.
      revert hkind hkeyed
      cases r.request <;> simp [Request.kind, Request.Keyed, Request.key]

/-! ## The question -/

theorem returns_scopedApprovalsFile (d : Durable) (s : Storage) :
    Returns (scopedApprovalsFile d) s fun file s' => s' = s ∧ file = s.file d := by
  refine Returns.view_bind ?_
  cases hdir : s.dir d with
  | none => exact Returns.pure ⟨rfl, by simp [Storage.file, hdir]⟩
  | some dir => exact Returns.read ⟨rfl, rfl⟩

/-- A match in the rows is a row the session sees. -/
theorem returns_sessionMcpToolPrefixMatches (session : SessionId) (serverPrefix : Text)
    (verdict : Verdict) (s : Storage) :
    Returns (sessionMcpToolPrefixMatches session serverPrefix verdict) s fun found s' =>
      s' = s ∧ (found = true → ∃ key, s.standing.row session .mcpTool key = some verdict ∧
        likeOperator (serverPrefix ++ ['%']) key = some true) := by
  refine Returns.bind (R := fun found s' => s' = s ∧ ∀ b, found = .ok b → b = true →
    ∃ key, s.standing.row session .mcpTool key = some verdict ∧
      likeOperator (serverPrefix ++ ['%']) key = some true)
    (Returns.attempt_read ⟨rfl, ?_⟩ ⟨rfl, ?_⟩) ?_
  · intro b hb htrue
    cases hb
    obtain ⟨⟨⟨i, k, key⟩, row⟩, hmem, he⟩ := List.any_eq_true.1 htrue
    simp only [Bool.and_eq_true, decide_eq_true_eq] at he
    obtain ⟨⟨⟨rfl, rfl⟩, rfl⟩, hlike⟩ := he
    refine ⟨key, ?_, hlike⟩
    rw [Table.mem_entries_iff] at hmem
    simp [Storage.standing, hmem]
  · intro b hb
    cases hb
  · rintro (e | b) s' ⟨rfl, h⟩
    · exact Returns.pure ⟨rfl, fun hfalse => absurd hfalse (by decide)⟩
    · exact Returns.pure ⟨rfl, h b rfl⟩

/-- A file with a key that has the prefix. -/
theorem sees_of_file_start {d : Durable} {serverPrefix : Text}
    (h : ((s.file d).any fun file => ∃ key ∈ file.mcpTools, serverPrefix <+: key) = true)
    (session : SessionId) :
    ∃ key, s.standing.Sees session .mcpTool key .allow ∧ serverPrefix <+: key := by
  obtain ⟨file, hfile, hany⟩ := (Option.any_eq_true _ _).1 h
  obtain ⟨key, hmem, hstarts⟩ := of_decide_eq_true hany
  exact ⟨key, .inr ⟨d, by simp [Storage.standing, hfile, ApprovalsFile.has, hmem]⟩, hstarts⟩

/-- A yes comes from a row whose key the pattern matches or from a file's key with the prefix. -/
theorem returns_anyMcpToolAllowForServer (session : SessionId) (agent : Option Text)
    (profile server : Text) (s : Storage) :
    Returns (anyMcpToolAllowForServer session agent profile server) s fun found _ =>
      found = true → ∃ key, s.standing.Sees session .mcpTool key .allow ∧
        (likeOperator (mcpToolServerPattern agent profile server) key = some true ∨
          mcpToolServerPrefix agent profile server <+: key) := by
  refine Returns.bind (returns_sessionMcpToolPrefixMatches session _ _ s) ?_
  rintro found s' ⟨rfl, hfound⟩
  refine Returns.ite (fun htrue => Returns.pure fun _ => ?_) fun _ => ?_
  · obtain ⟨key, hrow, hlike⟩ := hfound htrue
    exact ⟨key, .inl hrow, .inl hlike⟩
  · refine Returns.bind (returns_scopedApprovalsFile .project s') ?_
    rintro project s' ⟨rfl, rfl⟩
    refine Returns.bind (returns_scopedApprovalsFile .global s') ?_
    rintro global s' ⟨rfl, rfl⟩
    refine Returns.ite (fun hproject => Returns.pure fun _ => ?_) fun _ => Returns.ite
      (fun hglobal => Returns.pure fun _ => ?_) fun _ => Returns.pure fun hfalse => ?_
    · obtain ⟨key, hsees, hstarts⟩ := sees_of_file_start hproject session
      exact ⟨key, hsees, .inr hstarts⟩
    · obtain ⟨key, hsees, hstarts⟩ := sees_of_file_start hglobal session
      exact ⟨key, hsees, .inr hstarts⟩
    · exact absurd hfalse (by decide)

/-! ## Other servers -/

/-- In every storage recordings lead to, a yes for the server rests on a grant for one of its
    tools. -/
def NoBleed (agent : Option Text) (profile server : Text) : Prop :=
  ∀ s, keyedRecordings.Reachable s → ∀ session script s',
    outcome (anyMcpToolAllowForServer session agent profile server) s script = (.ok true, s') →
      ∃ tool, s.standing.Sees session .mcpTool (mcpToolKeyFor agent profile server tool) .allow

theorem mcpToolKeyFor_congr {agent' : Option Text} (h : requester agent = requester agent')
    (profile server tool : Text) :
    mcpToolKeyFor agent profile server tool = mcpToolKeyFor agent' profile server tool :=
  mcpToolKeyFor_eq_iff.2 ⟨h, rfl, rfl, rfl⟩

theorem noBleed_of_literal (h : PlainServer agent profile server ∨
      likePatternLimit < utf8Length (mcpToolServerPattern agent profile server)) :
    NoBleed agent profile server := by
  intro s hs session script s' hrun
  obtain ⟨key, hsees, hkey⟩ :=
    (returns_anyMcpToolAllowForServer session agent profile server s).of_outcome hrun rfl
  obtain ⟨agent', profile', server', tool, rfl⟩ := keyed_reachable_allowsBuilt hs session key _ hsees
  suffices hnames : requester agent = requester agent' ∧ profile = profile' ∧ server = server' by
    obtain ⟨hagent, rfl, rfl⟩ := hnames
    exact ⟨tool, mcpToolKeyFor_congr hagent profile server tool ▸ hsees⟩
  rcases hkey with hlike | hstarts
  · rcases h with hplain | hlong
    · unfold likeOperator at hlike
      split_ifs at hlike
      exact names_of_like_pattern hplain (Option.some.inj hlike)
    · simp [likeOperator, hlong] at hlike
  · exact mcpToolServerPrefix_prefix_iff.1 hstarts

/-- A storage with one grant, for a session. -/
def oneGrant (key : Text) : Storage :=
  { freshStorage with
    grants := (∅ : Table _ _).insert (0, GrantKind.mcpTool, key) ⟨.allow, none, none⟩ }

theorem oneGrant_reachable (h : Built key) : keyedRecordings.Reachable (oneGrant key) := by
  have hstep : keyedRecordings.step freshStorage ⟨0, .session, .mcpKey key .allow⟩ (oneGrant key) :=
    ⟨h, [], rfl⟩
  exact Lts.Reachable.step (.init not_freshStorage_sees) hstep

theorem key_of_sees_oneGrant {key' : Text}
    (h : (oneGrant key).standing.Sees session .mcpTool key' .allow) : key' = key := by
  by_contra hne
  refine not_freshStorage_sees session .mcpTool key' .allow (h.imp_left fun hrow => ?_)
  have hlookup : (oneGrant key).grants.lookup (session, .mcpTool, key') = none :=
    AList.lookup_insert_ne fun heq => hne (by simpa using congrArg (·.2.2) heq)
  simp [Storage.standing, hlookup] at hrow

/-- The session is told yes if the pattern matches the key of the grant. -/
theorem runs_oneGrant
    (h : likeOperator (mcpToolServerPattern agent profile server) key = some true) :
    Runs (anyMcpToolAllowForServer 0 agent profile server) (oneGrant key) [.proceed] true
      (oneGrant key) := by
  have hany : ((oneGrant key).grants.entries.any fun e =>
      e.1.1 = 0 && e.1.2.1 = GrantKind.mcpTool && e.2.verdict = .allow &&
        likeOperator (mcpToolServerPrefix agent profile server ++ ['%']) e.1.2.2 = some true) =
      true :=
    List.any_eq_true.2 ⟨⟨(0, .mcpTool, key), ⟨.allow, none, none⟩⟩, List.mem_cons_self, by
      simpa [mcpToolServerPattern] using h⟩
  have hfound : Runs (sessionMcpToolPrefixMatches 0 (mcpToolServerPrefix agent profile server)
      .allow) (oneGrant key) [.proceed] true (oneGrant key) := by
    refine Runs.bind (Runs.attempt (Runs.read _ _ _)) ?_
    rw [hany]
    exact Runs.pure true _
  exact Runs.bind hfound (Runs.pure true _)

/-- Keys determine the names they are built from, an empty agent standing for none. A server's
    standing permission rests on its own grants, whatever else is recorded, exactly if its names
    are plain or its pattern is longer than LIKE takes. -/
theorem mcp_grants_do_not_bleed_iff (agent : Option Text) (profile server : Text) :
    (∀ (agent agent' : Option Text) (profile profile' server server' tool tool' : Text),
      mcpToolKeyFor agent profile server tool = mcpToolKeyFor agent' profile' server' tool' ↔
        requester agent = requester agent' ∧ profile = profile' ∧ server = server' ∧ tool = tool') ∧
    (NoBleed agent profile server ↔ PlainServer agent profile server ∨
      likePatternLimit < utf8Length (mcpToolServerPattern agent profile server)) := by
  refine ⟨fun _ _ _ _ _ _ _ _ => mcpToolKeyFor_eq_iff, ?_, noBleed_of_literal⟩
  intro hno
  by_contra hbad
  obtain ⟨hplain, hshort⟩ := not_or.1 hbad
  obtain ⟨agent', profile', server', hother, hlike⟩ := exists_confused_server hplain []
  have hmatch : likeOperator (mcpToolServerPattern agent profile server)
      (mcpToolKeyFor agent' profile' server' []) = some true := by
    rw [likeOperator, if_neg hshort, hlike]
  obtain ⟨tool, hsees⟩ := hno _ (oneGrant_reachable ⟨agent', profile', server', [], rfl⟩) 0 _ _
    (outcome_of_run_ok (runs_oneGrant hmatch []))
  obtain ⟨hagent, hprofile, hserver, -⟩ := mcpToolKeyFor_eq_iff.1 (key_of_sees_oneGrant hsees)
  exact hother ⟨hagent, hprofile, hserver⟩

/-- With only a grant for `my-server`, the session is told that a tool of `my_server` is
    allowed. -/
theorem underscore_server_bleeds : ¬NoBleed none defaultProfile "my_server".toList := by
  intro hno
  have hmatch : likeOperator (mcpToolServerPattern none defaultProfile "my_server".toList)
      (mcpToolKey "my-server".toList "search".toList) = some true := by
    decide +kernel
  obtain ⟨tool, hsees⟩ := hno _ (oneGrant_reachable ⟨_, _, _, _, rfl⟩) 0 _ _
    (outcome_of_run_ok (runs_oneGrant hmatch []))
  have hserver := (mcpToolKeyFor_eq_iff.1 (key_of_sees_oneGrant hsees)).2.2.1
  exact absurd hserver (by decide +kernel)

end FlyCockpit.Approval
