-- SUMMARY: The grant keys of MCP tools, and which keys a server's prefix and LIKE pattern select.
import FlyCockpit.Lib.Text

/-!
# Keys of MCP grants

A grant for an MCP tool is stored under one text built from the agent, the profile, the server and
the tool. The parts are escaped and joined with `/`. All grants of a server share a prefix; the
approval files are searched with it as it is, the session table with it as a LIKE pattern.
-/

namespace FlyCockpit.Approval

open List Text

def defaultProfile : Text := "default".toList

/-- What stands in front of the agent. -/
def agentTag : Text := "agent:".toList

/-- What stands in front of the profile. -/
def profileTag : Text := "profile:".toList

def escapeMcpToolKeyPart (part : Text) : Text :=
  replaceChar '/' "%2F".toList (replaceChar '%' "%25".toList part)

def mcpToolKeyFor (agent : Option Text) (profile server tool : Text) : Text :=
  let base := escapeMcpToolKeyPart server ++ ['/'] ++ escapeMcpToolKeyPart tool
  let profiled := profileTag ++ escapeMcpToolKeyPart profile ++ ['/'] ++ base
  match agent with
  | some agent =>
    if !agent.isEmpty then agentTag ++ escapeMcpToolKeyPart agent ++ ['/'] ++ profiled
    else profiled
  | none => profiled

def mcpToolServerPrefix (agent : Option Text) (profile server : Text) : Text :=
  let base := escapeMcpToolKeyPart server
  let profiled := profileTag ++ escapeMcpToolKeyPart profile ++ ['/'] ++ base
  match agent with
  | some agent =>
    if !agent.isEmpty then
      agentTag ++ escapeMcpToolKeyPart agent ++ ['/'] ++ profiled ++ ['/']
    else profiled ++ ['/']
  | none => profiled ++ ['/']

def mcpToolKey (server tool : Text) : Text :=
  mcpToolKeyFor none defaultProfile server tool

/-! ## Escaping -/

/-- The escaped form of one character. -/
def escapeChar (c : Char) : Text :=
  if c = '%' then "%25".toList else if c = '/' then "%2F".toList else [c]

@[simp] theorem escape_nil : escapeMcpToolKeyPart [] = [] := rfl

theorem escape_cons (c : Char) (part : Text) :
    escapeMcpToolKeyPart (c :: part) = escapeChar c ++ escapeMcpToolKeyPart part := by
  unfold escapeMcpToolKeyPart
  by_cases hpercent : c = '%'
  · subst hpercent
    rfl
  · by_cases hslash : c = '/'
    · subst hslash
      rfl
    · simp [replaceChar, escapeChar, hpercent, hslash]

theorem escape_append (a b : Text) :
    escapeMcpToolKeyPart (a ++ b) = escapeMcpToolKeyPart a ++ escapeMcpToolKeyPart b := by
  induction a with
  | nil => rfl
  | cons c a ih => rw [cons_append, escape_cons, escape_cons, ih, append_assoc]

theorem slash_not_mem_escape (part : Text) : '/' ∉ escapeMcpToolKeyPart part := by
  induction part with
  | nil => exact not_mem_nil
  | cons c part ih =>
    rw [escape_cons, mem_append, not_or]
    refine ⟨?_, ih⟩
    unfold escapeChar
    split_ifs with hpercent hslash
    · decide
    · decide
    · simpa using Ne.symm hslash

variable {c : Char} {agent agent' : Option Text} {profile server profile' server' tool x : Text}

/-- The escaped characters can be read off one by one. -/
theorem escapeChar_append_inj {d : Char} {u v : Text}
    (h : escapeChar c ++ u = escapeChar d ++ v) : c = d ∧ u = v := by
  unfold escapeChar at h
  split_ifs at h <;> simp_all [eq_comm]

theorem escape_injective : Function.Injective escapeMcpToolKeyPart := by
  intro a
  induction a with
  | nil =>
    intro b h
    cases b with
    | nil => rfl
    | cons d b =>
      rw [escape_cons, escapeChar] at h
      split_ifs at h <;> simp at h
  | cons c a ih =>
    intro b h
    cases b with
    | nil =>
      rw [escape_cons, escapeChar] at h
      split_ifs at h <;> simp at h
    | cons d b =>
      rw [escape_cons, escape_cons] at h
      obtain ⟨rfl, hrest⟩ := escapeChar_append_inj h
      rw [ih hrest]

/-! ## The parts of a key -/

/-- The agent a key names: an empty agent is none. -/
def requester : Option Text → Option Text
  | none => none
  | some a => if !a.isEmpty then some a else none

/-- The part of a key for its agent. -/
def agentParts : Option Text → List Text
  | none => []
  | some a => [agentTag ++ escapeMcpToolKeyPart a]

/-- The parts in front of the tool. -/
def keyParts (agent : Option Text) (profile server : Text) : List Text :=
  agentParts (requester agent) ++
    [profileTag ++ escapeMcpToolKeyPart profile, escapeMcpToolKeyPart server]

theorem delimited_keyParts (agent : Option Text) (profile server : Text) :
    delimited '/' (keyParts agent profile server) = delimited '/' (agentParts (requester agent)) ++
        (profileTag ++ (escapeMcpToolKeyPart profile ++
          '/' :: (escapeMcpToolKeyPart server ++ ['/']))) := by
  rw [keyParts, delimited_append, delimited_cons, delimited_cons, delimited_nil, append_assoc]

theorem mcpToolServerPrefix_eq (agent : Option Text) (profile server : Text) :
    mcpToolServerPrefix agent profile server = delimited '/' (keyParts agent profile server) := by
  rw [delimited_keyParts]
  cases agent with
  | none =>
    simp only [mcpToolServerPrefix, requester, agentParts, delimited_nil, nil_append, append_assoc]
    rfl
  | some a =>
    by_cases ha : (!a.isEmpty) = true
    · simp only [mcpToolServerPrefix, requester, ha, if_true, agentParts, delimited_cons,
        delimited_nil, append_assoc]
      rfl
    · simp only [mcpToolServerPrefix, requester, ha, if_false, agentParts, delimited_nil,
        nil_append, append_assoc, Bool.false_eq_true]
      rfl

theorem mcpToolKeyFor_eq_server (agent : Option Text) (profile server tool : Text) :
    mcpToolKeyFor agent profile server tool =
      mcpToolServerPrefix agent profile server ++ escapeMcpToolKeyPart tool := by
  cases agent with
  | none => simp only [mcpToolKeyFor, mcpToolServerPrefix, append_assoc]
  | some a => cases a <;> simp only [mcpToolKeyFor, mcpToolServerPrefix, append_assoc,
      isEmpty_nil, isEmpty_cons, Bool.not_true, Bool.not_false, if_true, if_false,
      Bool.false_eq_true]

theorem mcpToolKeyFor_eq (agent : Option Text) (profile server tool : Text) :
    mcpToolKeyFor agent profile server tool =
      delimited '/' (keyParts agent profile server) ++ escapeMcpToolKeyPart tool := by
  rw [mcpToolKeyFor_eq_server, mcpToolServerPrefix_eq]

theorem slash_not_mem_keyParts : ∀ part ∈ keyParts agent profile server, '/' ∉ part := by
  have hagent : '/' ∉ agentTag := by decide
  have hprofile : '/' ∉ profileTag := by decide
  unfold keyParts
  cases requester agent <;>
    simp only [agentParts, nil_append, cons_append, forall_mem_cons, mem_append,
      not_or, slash_not_mem_escape, hagent, hprofile, not_false_eq_true, and_self,
      not_mem_nil, false_imp_iff, implies_true]

/-- No other name looks like `x` when its characters are read through `f`. -/
def Told (f : Char → Char) (x : Text) : Prop :=
  ∀ y, (escapeMcpToolKeyPart x).map f = (escapeMcpToolKeyPart y).map f → x = y

theorem told_id (x : Text) : Told id x := by
  intro y h
  rw [map_id, map_id] at h
  exact escape_injective h

/-- Parts in front of other parts, both read through `f`, are the parts of the same names. -/
theorem names_of_keyParts_start {f : Char → Char} (hf : f 'a' ≠ f 'p')
    (hagent : ∀ a, requester agent = some a → Told f a) (hprofile : Told f profile)
    (hserver : Told f server) (h : (keyParts agent profile server).map (List.map f) <+:
      (keyParts agent' profile' server').map (List.map f)) :
    requester agent = requester agent' ∧ profile = profile' ∧ server = server' := by
  unfold keyParts at h
  cases hreq : requester agent with
  | none =>
    cases hreq' : requester agent' with
    | none =>
      simp only [hreq, hreq', agentParts, nil_append, map_cons, map_append, map_nil,
        cons_prefix_cons, append_cancel_left_eq] at h
      exact ⟨rfl, hprofile _ h.1, hserver _ h.2.1⟩
    | some a' =>
      simp only [hreq, hreq', agentParts, nil_append, cons_append, map_cons,
        map_append, cons_prefix_cons] at h
      exact absurd (List.cons.inj h.1).1 (Ne.symm hf)
  | some a =>
    cases hreq' : requester agent' with
    | none =>
      simp only [hreq, hreq', agentParts, nil_append, cons_append, map_cons,
        map_append, cons_prefix_cons] at h
      exact absurd (List.cons.inj h.1).1 hf
    | some a' =>
      simp only [hreq, hreq', agentParts, nil_append, cons_append, map_cons, map_append,
        map_nil, cons_prefix_cons, append_cancel_left_eq] at h
      exact ⟨congrArg some (hagent a hreq _ h.1), hprofile _ h.2.1, hserver _ h.2.2.1⟩

theorem keyParts_congr (h : requester agent = requester agent')
    (profile server : Text) : keyParts agent profile server = keyParts agent' profile server := by
  unfold keyParts
  rw [h]

/-- A key determines everything it is built from, the empty agent standing for none. -/
theorem mcpToolKeyFor_eq_iff {tool' : Text} :
    mcpToolKeyFor agent profile server tool = mcpToolKeyFor agent' profile' server' tool' ↔
      requester agent = requester agent' ∧ profile = profile' ∧ server = server' ∧
        tool = tool' := by
  rw [mcpToolKeyFor_eq, mcpToolKeyFor_eq, delimited_append_inj slash_not_mem_keyParts
    slash_not_mem_keyParts (slash_not_mem_escape _) (slash_not_mem_escape _)]
  constructor
  · rintro ⟨hparts, htool⟩
    have hstarts : (keyParts agent profile server).map (List.map id) <+:
        (keyParts agent' profile' server').map (List.map id) := by rw [hparts]
    obtain ⟨hreq, hprofile, hserver⟩ := names_of_keyParts_start (by decide)
      (fun a _ => told_id a) (told_id profile) (told_id server) hstarts
    exact ⟨hreq, hprofile, hserver, escape_injective htool⟩
  · rintro ⟨hreq, rfl, rfl, rfl⟩
    exact ⟨keyParts_congr hreq profile server, rfl⟩

/-- A server's prefix starts the keys of that server and no others. -/
theorem mcpToolServerPrefix_prefix_iff :
    mcpToolServerPrefix agent profile server <+: mcpToolKeyFor agent' profile' server' tool ↔
      requester agent = requester agent' ∧ profile = profile' ∧ server = server' := by
  rw [mcpToolServerPrefix_eq, mcpToolKeyFor_eq, delimited_prefix_iff slash_not_mem_keyParts
    slash_not_mem_keyParts (slash_not_mem_escape _)]
  constructor
  · intro h
    exact names_of_keyParts_start (by decide) (fun a _ => told_id a) (told_id profile)
      (told_id server) (h.map _)
  · rintro ⟨hreq, rfl, rfl⟩
    rw [keyParts_congr hreq]

/-! ## The pattern of a server -/

/-- The LIKE pattern the session table is searched with. -/
def mcpToolServerPattern (agent : Option Text) (profile server : Text) : Text :=
  mcpToolServerPrefix agent profile server ++ ['%']

/-- A name that LIKE reads as it is written: no letter, no wildcard, nothing to escape, no zero. -/
def Plain (name : Text) : Prop :=
  ∀ c ∈ name, c.isAlpha = false ∧ c ≠ '_' ∧ c ≠ '%' ∧ c ≠ '/' ∧ c ≠ nul

instance Plain.decidable (name : Text) : Decidable (Plain name) :=
  inferInstanceAs (Decidable (∀ c ∈ name, _))

/-- All names of a server are plain. -/
def PlainServer (agent : Option Text) (profile server : Text) : Prop :=
  (∀ a ∈ requester agent, Plain a) ∧ Plain profile ∧ Plain server

theorem escape_of_plain {name : Text} (h : Plain name) : escapeMcpToolKeyPart name = name := by
  induction name with
  | nil => rfl
  | cons c name ih =>
    obtain ⟨⟨-, -, hpercent, hslash, -⟩, hname⟩ := forall_mem_cons.1 h
    rw [escape_cons, ih hname, escapeChar, if_neg hpercent, if_neg hslash, singleton_append]

theorem eq_of_map_toLower_eq {y : Text} (hx : ∀ c ∈ x, c.isAlpha = false)
    (h : x = y.map Char.toLower) : x = y := by
  subst h
  induction y with
  | nil => rfl
  | cons c y ih =>
    rw [map_cons, forall_mem_cons] at hx
    rw [map_cons, ih hx.2, ← eq_of_toLower_eq hx.1 rfl]

theorem told_of_plain (hx : Plain x) : Told Char.toLower x := by
  intro y h
  have hfold : x.map Char.toLower = x := by
    rw [map_congr_left fun c hc => toLower_of_not_alpha (hx c hc).1, map_id']
  rw [escape_of_plain hx, hfold] at h
  have hy := eq_of_map_toLower_eq (fun c hc => (hx c hc).1) h
  exact escape_injective ((escape_of_plain hx).trans hy)

theorem mem_escape_iff (hc : c ∉ ['%', '2', '5', 'F', '/']) (part : Text) :
    c ∈ escapeMcpToolKeyPart part ↔ c ∈ part := by
  induction part with
  | nil => exact Iff.rfl
  | cons d part ih =>
    rw [escape_cons, mem_append, ih, mem_cons]
    refine or_congr_left ?_
    simp only [mem_cons, not_mem_nil, or_false, not_or] at hc
    unfold escapeChar
    split_ifs with hpercent hslash
    · simp [hpercent, hc]
    · simp [hslash, hc]
    · simp

theorem nul_mem_escape_iff (part : Text) : nul ∈ escapeMcpToolKeyPart part ↔ nul ∈ part :=
  mem_escape_iff (by decide) part

/-- The characters of a plain server's prefix are the tags, the delimiters and plain ones. -/
theorem mem_prefix_of_plain (h : PlainServer agent profile server)
    (hc : c ∈ mcpToolServerPrefix agent profile server) : c ≠ '%' ∧ c ≠ '_' ∧ c ≠ nul := by
  obtain ⟨hagent, hprofile, hserver⟩ := h
  have hall : ('/' :: (agentTag ++ profileTag)).all
      (fun c => decide (c ≠ '%' ∧ c ≠ '_' ∧ c ≠ nul)) = true := by decide
  have htags : ∀ c ∈ '/' :: (agentTag ++ profileTag), c ≠ '%' ∧ c ≠ '_' ∧ c ≠ nul :=
    fun c hmem => of_decide_eq_true (all_eq_true.1 hall c hmem)
  have hplain : ∀ name, Plain name → c ∈ name → c ≠ '%' ∧ c ≠ '_' ∧ c ≠ nul :=
    fun name hname hmem => ⟨(hname c hmem).2.2.1, (hname c hmem).2.1, (hname c hmem).2.2.2.2⟩
  rw [mcpToolServerPrefix_eq, delimited_keyParts, escape_of_plain hprofile,
    escape_of_plain hserver] at hc
  cases hreq : requester agent with
  | none =>
    simp only [hreq, agentParts, delimited_nil, mem_append, mem_cons,
      not_mem_nil, or_false, false_or] at hc
    rcases hc with hc | hc | hc | hc | hc
    · exact htags c (by simp [hc])
    · exact hplain profile hprofile hc
    · exact htags c (by simp [hc])
    · exact hplain server hserver hc
    · exact htags c (by simp [hc])
  | some a =>
    have ha := hagent a hreq
    simp only [hreq, agentParts, delimited_cons, delimited_nil, escape_of_plain ha,
      mem_append, mem_cons, not_mem_nil, or_false] at hc
    rcases hc with (((hc | hc) | hc)) | hc | hc | hc | hc | hc
    · exact htags c (by simp [hc])
    · exact hplain a ha hc
    · exact htags c (by simp [hc])
    · exact htags c (by simp [hc])
    · exact hplain profile hprofile hc
    · exact htags c (by simp [hc])
    · exact hplain server hserver hc
    · exact htags c (by simp [hc])

/-- A plain server's pattern selects the keys of that server only. -/
theorem names_of_like_pattern (h : PlainServer agent profile server)
    (hlike : like (cString (mcpToolServerPattern agent profile server))
      (cString (mcpToolKeyFor agent' profile' server' tool)) = true) :
    requester agent = requester agent' ∧ profile = profile' ∧ server = server' := by
  have hnul : nul ∉ mcpToolServerPattern agent profile server := by
    rw [mcpToolServerPattern, mem_append, not_or]
    exact ⟨fun hmem => (mem_prefix_of_plain h hmem).2.2 rfl, by decide⟩
  rw [cString_of_not_mem hnul, mcpToolServerPattern, like_literal_iff fun c hc =>
    ⟨(mem_prefix_of_plain h hc).1, (mem_prefix_of_plain h hc).2.1⟩] at hlike
  have hkey := hlike.trans ((cString_isPrefix_self _).map Char.toLower)
  have hslash : Char.toLower '/' = '/' := by decide
  have hnoSlash : ∀ t : Text, '/' ∉ t → '/' ∉ t.map Char.toLower := by
    intro t ht hmem
    obtain ⟨c, hc, hlower⟩ := mem_map.1 hmem
    exact ht (eq_of_toLower_eq (by decide) hlower ▸ hc)
  rw [mcpToolServerPrefix_eq, mcpToolKeyFor_eq, map_append, map_delimited hslash,
    map_delimited hslash, delimited_prefix_iff
      (forall_mem_map.2 fun p hp => hnoSlash p (slash_not_mem_keyParts p hp))
      (forall_mem_map.2 fun p hp => hnoSlash p (slash_not_mem_keyParts p hp))
      (hnoSlash _ (slash_not_mem_escape _))] at hkey
  exact names_of_keyParts_start (by decide) (fun a ha => told_of_plain (h.1 a ha))
    (told_of_plain h.2.1) (told_of_plain h.2.2) hkey

/-! ## Names a pattern confuses -/

/-- Wherever `x` stands in a pattern, `y` may stand in the key. -/
def Confuses (x y : Text) : Prop :=
  ∀ pre post u, like (cString (pre ++ (escapeMcpToolKeyPart x ++ (post ++ ['%']))))
    (cString (pre ++ (escapeMcpToolKeyPart y ++ (post ++ u)))) = true

/-- A character of a name that LIKE reads as something else can be exchanged. -/
theorem exists_confused_char (hc : c.isAlpha = true ∨ c = '_' ∨ c = '%' ∨ c = '/') :
    ∃ v, v ≠ [c] ∧ v ≠ [] ∧ nul ∉ v ∧ like (escapeChar c) (escapeMcpToolKeyPart v) = true := by
  rcases hc with hc | rfl | rfl | rfl
  · obtain ⟨hne, halpha, hlower⟩ := otherCase_spec hc
    have hplain : ∀ d : Char, d.isAlpha = true → escapeChar d = [d] := by
      intro d hd
      have hpercent : d ≠ '%' := by rintro rfl; exact absurd hd (by decide)
      have hslash : d ≠ '/' := by rintro rfl; exact absurd hd (by decide)
      rw [escapeChar, if_neg hpercent, if_neg hslash]
    have hpercent : c ≠ '%' := by rintro rfl; exact absurd hc (by decide)
    refine ⟨[otherCase c], by simpa using hne, by simp, ?_, ?_⟩
    · rw [mem_singleton]
      intro hnul
      rw [← hnul] at halpha
      exact absurd halpha (by decide)
    · rw [escape_cons, hplain c hc, hplain _ halpha, escape_nil, append_nil]
      exact (like_char hpercent).2 ⟨_, _, rfl, .inr hlower, rfl⟩
  · exact ⟨['-'], by decide, by decide, by decide, by decide⟩
  · exact ⟨['2', '5'], by decide, by decide, by decide, by decide⟩
  · exact ⟨['2', 'F'], by decide, by decide, by decide, by decide⟩

/-- For a name that is not plain there is another one its pattern selects. -/
theorem exists_confused (hx : ¬Plain x) : ∃ y, y ≠ x ∧ y ≠ [] ∧ Confuses x y := by
  by_cases hnul : nul ∈ x
  · refine ⟨x ++ ['x'], by simp, by simp, fun pre post u => ?_⟩
    rw [escape_append, append_assoc]
    exact like_cString_behind ((nul_mem_escape_iff x).2 hnul) _ _ _
  · obtain ⟨c, hc, hbad⟩ : ∃ c ∈ x, c.isAlpha = true ∨ c = '_' ∨ c = '%' ∨ c = '/' := by
      by_contra hall
      refine hx fun c hc => ?_
      have hgood : ¬(c.isAlpha = true ∨ c = '_' ∨ c = '%' ∨ c = '/') :=
        fun hbad => hall ⟨c, hc, hbad⟩
      simp only [not_or, Bool.not_eq_true] at hgood
      exact ⟨hgood.1, hgood.2.1, hgood.2.2.1, hgood.2.2.2, fun heq => hnul (heq ▸ hc)⟩
    obtain ⟨l, r, rfl⟩ := append_of_mem hc
    obtain ⟨v, hne, hsome, hv, hlike⟩ := exists_confused_char hbad
    refine ⟨l ++ (v ++ r), ?_, by simp [hsome], ?_⟩
    · intro heq
      have hvr : v ++ r = [c] ++ r := append_cancel_left heq
      exact hne (append_cancel_right hvr)
    · intro pre post u
      refine like_cString_middle ?_ ?_ ?_ pre post u
      · rw [escape_append, escape_append, escape_append, escape_cons]
        exact like_append (like_self _) (like_append hlike (like_self _))
      · rwa [nul_mem_escape_iff]
      · rw [nul_mem_escape_iff]
        simp only [mem_append, mem_cons, not_or] at hnul ⊢
        exact ⟨hnul.1, hv, hnul.2.2⟩

theorem mcpToolServerPattern_eq (agent : Option Text) (profile server : Text) :
    mcpToolServerPattern agent profile server =
      delimited '/' (agentParts (requester agent)) ++ (profileTag ++
        (escapeMcpToolKeyPart profile ++ ('/' :: (escapeMcpToolKeyPart server ++
          ('/' :: ['%']))))) := by
  rw [mcpToolServerPattern, mcpToolServerPrefix_eq, delimited_keyParts]
  simp only [append_assoc, cons_append, nil_append]

theorem mcpToolKeyFor_eq_append (agent : Option Text) (profile server tool : Text) :
    mcpToolKeyFor agent profile server tool =
      delimited '/' (agentParts (requester agent)) ++ (profileTag ++
        (escapeMcpToolKeyPart profile ++ ('/' :: (escapeMcpToolKeyPart server ++
          ('/' :: escapeMcpToolKeyPart tool))))) := by
  rw [mcpToolKeyFor_eq, delimited_keyParts]
  simp only [append_assoc, cons_append, nil_append]

/-- If the names of a server are not all plain, its pattern selects a key of another one. -/
theorem exists_confused_server (h : ¬PlainServer agent profile server) (tool : Text) :
    ∃ agent' profile' server',
      ¬(requester agent = requester agent' ∧ profile = profile' ∧ server = server') ∧
      like (cString (mcpToolServerPattern agent profile server))
        (cString (mcpToolKeyFor agent' profile' server' tool)) = true := by
  simp only [mcpToolServerPattern_eq, mcpToolKeyFor_eq_append]
  by_cases hserver : Plain server
  · by_cases hprofile : Plain profile
    · -- The agent is the name that is not plain; its replacement is not empty.
      obtain ⟨a, ha, hplain⟩ : ∃ a, requester agent = some a ∧ ¬Plain a := by
        by_contra hall
        exact h ⟨fun a ha => by_contra fun hplain => hall ⟨a, ha, hplain⟩, hprofile, hserver⟩
      obtain ⟨y, hne, hsome, hy⟩ := exists_confused hplain
      have hreq : requester (some y) = some y := by simp [requester, hsome]
      refine ⟨some y, profile, server, fun hsame => hne ?_, ?_⟩
      · rw [ha, hreq] at hsame
        exact (Option.some.inj hsame.1).symm
      · have := hy agentTag ('/' :: (profileTag ++ (escapeMcpToolKeyPart profile ++
          ('/' :: (escapeMcpToolKeyPart server ++ ['/']))))) (escapeMcpToolKeyPart tool)
        simpa only [ha, hreq, agentParts, delimited_cons, delimited_nil, append_assoc,
          cons_append, nil_append] using this
    · obtain ⟨y, hne, -, hy⟩ := exists_confused hprofile
      refine ⟨agent, y, server, fun hsame => hne hsame.2.1.symm, ?_⟩
      have := hy (delimited '/' (agentParts (requester agent)) ++ profileTag)
        ('/' :: (escapeMcpToolKeyPart server ++ ['/'])) (escapeMcpToolKeyPart tool)
      simpa only [append_assoc, cons_append, nil_append] using this
  · obtain ⟨y, hne, -, hy⟩ := exists_confused hserver
    refine ⟨agent, profile, y, fun hsame => hne hsame.2.2.symm, ?_⟩
    have := hy (delimited '/' (agentParts (requester agent)) ++
      (profileTag ++ (escapeMcpToolKeyPart profile ++ ['/']))) ['/'] (escapeMcpToolKeyPart tool)
    simpa only [append_assoc, cons_append, nil_append] using this

end FlyCockpit.Approval
