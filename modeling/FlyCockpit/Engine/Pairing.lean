-- SUMMARY: Tool calls and their results: the provider-validity gate, and healing a history before a send.
import FlyCockpit.Engine.Message
import Mathlib.Data.List.TakeWhile

/-!
# Pairing

A provider accepts a history only if every tool call is answered in the run of result messages right
behind its turn, and every result answers a call of the last turn that issued any. `validatePairing`
checks this; `healLiveHistory` drops the results without a call and answers the calls without a
result, in two passes. The set of open calls is tracked by both, and healing tracks it on the
history it reads while the gate tracks it on the history healing leaves.
-/

namespace FlyCockpit.Engine

open List

/-! ## The gate -/

/-- A user message with a result. -/
def Message.hasResult : Message → Bool
  | .user content => content.any fun c => c.result?.isSome
  | .assistant .. | .system _ => false

/-- The run of result messages at the front of a history. -/
def resultRun (history : List Message) : List Message := history.takeWhile Message.hasResult

inductive PairingError
  | unpairedToolUse (id : Text)
  | orphanToolResult (id : Text)
  deriving DecidableEq

/-- The open calls behind a message: a turn with calls replaces them, a plain user prompt closes
    them. -/
def openAfter (openCalls : List Text) : Message → List Text
  | .assistant id content =>
    let calls := (Message.assistant id content).callIds
    if calls = [] then openCalls else calls
  | .user content => if (Message.user content).hasResult then openCalls else []
  | .system _ => openCalls

/-- The first id that is not among the expected ones is an error. -/
def expectAll (error : Text → PairingError) (expected ids : List Text) : Except PairingError Unit :=
  match ids.find? fun id => id ∉ expected with
  | some id => .error (error id)
  | none => .ok ()

/-- The forward pass: the calls of a turn are answered in the run behind it. -/
def checkCalls : List Message → Except PairingError Unit
  | [] => .ok ()
  | m :: rest => do
    expectAll .unpairedToolUse ((resultRun rest).flatMap Message.resultIds) m.callIds
    checkCalls rest

/-- The second pass: a result answers an open call. -/
def checkResults (openCalls : List Text) : List Message → Except PairingError Unit
  | [] => .ok ()
  | m :: rest => do
    expectAll .orphanToolResult openCalls m.resultIds
    checkResults (openAfter openCalls m) rest

def validatePairing (history : List Message) : Except PairingError Unit := do
  checkCalls history
  checkResults [] history

/-! ## Healing -/

inductive HealKind
  | dropOrphanToolResult
  | stubOrphanToolCall
  deriving DecidableEq

structure ResumeHeal where
  kind : HealKind
  id : Text
  deriving DecidableEq

/-- A result that answers none of the open calls. -/
def UserContent.orphan (openCalls : List Text) (c : UserContent) : Bool :=
  c.result?.any fun r => r.call ∉ openCalls

/-- Drops the results without an open call; a user message left empty is removed. -/
def dropOrphanResults (openCalls : List Text) : List Message → List Message × List ResumeHeal
  | [] => ([], [])
  | .user content :: rest =>
    let next := openAfter openCalls (.user content)
    let healed := dropOrphanResults next rest
    if content.any fun c => c.orphan openCalls then
      let kept := content.filter fun c => !c.orphan openCalls
      let heals := (content.filterMap UserContent.result?).filter fun r => r.call ∉ openCalls
      (if kept = [] then healed.1 else .user kept :: healed.1,
        heals.map (fun r => ⟨.dropOrphanToolResult, r.call⟩) ++ healed.2)
    else
      (.user content :: healed.1, healed.2)
  | m :: rest =>
    let healed := dropOrphanResults (openAfter openCalls m) rest
    (m :: healed.1, healed.2)

def stubResultMessage (body : Text) (call : ToolCall) : Message :=
  .user [.toolResult ⟨call.id, call.provider, call.name, [.text body]⟩]

/-- The calls of a turn that the run behind it, and the pending results where the run ends the
    history, leave unanswered. -/
def orphanCalls (pendingResults recoveryCalls : List Text) (m : Message) (rest : List Message) :
    List ToolCall :=
  let run := resultRun rest
  let covered := run.flatMap Message.resultIds ++
    if run.length = rest.length then pendingResults else []
  m.calls.filter fun call => call.id ∉ covered ∧ call.id ∉ recoveryCalls

/-- Answers the calls without a result behind the run of results of their turn; `due` are the
    answers of the turn whose run is being read. -/
def stubOrphanCalls (pendingResults recoveryCalls : List Text) (body : Text) (due : List Message) :
    List Message → List Message × List ResumeHeal
  | [] => (due, [])
  | m :: rest =>
    if m.hasResult then
      let healed := stubOrphanCalls pendingResults recoveryCalls body due rest
      (m :: healed.1, healed.2)
    else
      let orphans := orphanCalls pendingResults recoveryCalls m rest
      let healed := stubOrphanCalls pendingResults recoveryCalls body
        (orphans.map (stubResultMessage body)) rest
      (due ++ m :: healed.1, orphans.map (fun call => ⟨.stubOrphanToolCall, call.id⟩) ++ healed.2)

def healPairingDeferred (pendingResults recoveryCalls : List Text) (orphanBody : Text)
    (history : List Message) : List Message × List ResumeHeal :=
  let dropped := dropOrphanResults [] history
  let stubbed := stubOrphanCalls pendingResults recoveryCalls orphanBody [] dropped.1
  (stubbed.1, dropped.2 ++ stubbed.2)

def schedulerInterruptedBody : Text :=
  "Tool call interrupted before the turn scheduler could durably settle it.".toList

/-- Heals the history in front of a prompt that is not yet pushed. -/
def healLiveHistory (history : List Message) (prompt : Message) : List Message × List ResumeHeal :=
  healPairingDeferred prompt.resultIds [] schedulerInterruptedBody history

/-! ## What the gate accepts -/

section Gate

variable {m : Message} {rest : List Message} {openCalls : List Text} {due : List Message}

theorem hasResult_iff : m.hasResult = true ↔ m.resultIds ≠ [] := by
  cases m with
  | user content =>
    simp [Message.hasResult, Message.resultIds, Message.results, filterMap_eq_nil_iff,
      Option.isSome_iff_ne_none]
  | assistant id content => simp [Message.hasResult, Message.resultIds, Message.results]
  | system content => simp [Message.hasResult, Message.resultIds, Message.results]

theorem hasResult_eq_false_iff : m.hasResult = false ↔ m.resultIds = [] := by
  rw [Bool.eq_false_iff, ne_eq, hasResult_iff, not_not]

/-- Only user messages carry results. -/
theorem exists_user_of_hasResult (h : m.hasResult = true) : ∃ content, m = .user content := by
  cases m with
  | user content => exact ⟨content, rfl⟩
  | assistant id content => cases h
  | system content => cases h

theorem callIds_of_hasResult (h : m.hasResult = true) : m.callIds = [] := by
  obtain ⟨content, rfl⟩ := exists_user_of_hasResult h
  rfl

theorem openAfter_of_hasResult (h : m.hasResult = true) : openAfter openCalls m = openCalls := by
  obtain ⟨content, rfl⟩ := exists_user_of_hasResult h
  simp only [openAfter, h, if_true]

theorem expectAll_bind_eq_ok {error : Text → PairingError} {expected ids : List Text}
    {next : Except PairingError Unit} : (expectAll error expected ids >>= fun _ => next) = .ok () ↔
      (∀ id ∈ ids, id ∈ expected) ∧ next = .ok () := by
  unfold expectAll
  cases hfind : ids.find? fun id => id ∉ expected with
  | none =>
    rw [List.find?_eq_none] at hfind
    refine (and_iff_right fun id hid => ?_).symm
    exact not_not.1 fun hnot => hfind id hid (decide_eq_true hnot)
  | some id =>
    have hnot := List.find?_some hfind
    refine iff_of_false (by simp [bind, Except.bind]) fun h => ?_
    exact absurd (h.1 id (mem_of_find?_eq_some hfind)) (of_decide_eq_true hnot)

theorem checkCalls_cons_eq_ok : checkCalls (m :: rest) = .ok () ↔
    (∀ id ∈ m.callIds, id ∈ (resultRun rest).flatMap Message.resultIds) ∧
      checkCalls rest = .ok () :=
  expectAll_bind_eq_ok

theorem checkResults_cons_eq_ok : checkResults openCalls (m :: rest) = .ok () ↔
    (∀ id ∈ m.resultIds, id ∈ openCalls) ∧ checkResults (openAfter openCalls m) rest = .ok () :=
  expectAll_bind_eq_ok

theorem validatePairing_eq_ok {history : List Message} : validatePairing history = .ok () ↔
    checkCalls history = .ok () ∧ checkResults [] history = .ok () := by
  unfold validatePairing
  cases checkCalls history with
  | error e => simp [bind, Except.bind]
  | ok u => simp [bind, Except.bind]

/-- Result messages in front of a history are accepted if they answer open calls. -/
theorem checkResults_append (hdue : ∀ d ∈ due, d.hasResult = true) :
    checkResults openCalls (due ++ rest) = .ok () ↔
      (∀ id ∈ due.flatMap Message.resultIds, id ∈ openCalls) ∧ checkResults openCalls rest = .ok () := by
  induction due with
  | nil => simp
  | cons d due ih =>
    obtain ⟨hresult, hdue⟩ := forall_mem_cons.1 hdue
    rw [cons_append, checkResults_cons_eq_ok, openAfter_of_hasResult hresult, ih hdue,
      flatMap_cons, forall_mem_append, and_assoc]

theorem checkCalls_append (hdue : ∀ d ∈ due, d.hasResult = true) :
    checkCalls (due ++ rest) = .ok () ↔ checkCalls rest = .ok () := by
  induction due with
  | nil => rfl
  | cons d due ih =>
    obtain ⟨hresult, hdue⟩ := forall_mem_cons.1 hdue
    rw [cons_append, checkCalls_cons_eq_ok, callIds_of_hasResult hresult, ih hdue]
    simp

end Gate

/-! ## Stubs -/

section Stubs

variable {pending recovery openCalls : List Text} {body : Text} {due : List Message} {m : Message}

/-- The answers extend the run of results. -/
theorem resultRun_stubOrphanCalls (hdue : ∀ d ∈ due, d.hasResult = true) (history : List Message) :
    resultRun (stubOrphanCalls pending recovery body due history).1 = resultRun history ++ due := by
  induction history with
  | nil => exact takeWhile_eq_self_iff.2 hdue
  | cons m rest ih =>
    unfold stubOrphanCalls
    by_cases hm : m.hasResult = true
    · simp only [hm, if_true]
      rw [resultRun, takeWhile_cons_of_pos hm, ← resultRun, ih, resultRun, resultRun,
        takeWhile_cons_of_pos hm, cons_append]
    · simp only [hm, Bool.false_eq_true, if_false]
      rw [resultRun, takeWhile_append_of_pos hdue, takeWhile_cons_of_neg hm, resultRun,
        takeWhile_cons_of_neg hm, append_nil, nil_append]

theorem hasResult_of_mem_stubs {calls : List ToolCall} :
    ∀ d ∈ calls.map (stubResultMessage body), d.hasResult = true := by
  intro d hd
  obtain ⟨call, -, rfl⟩ := mem_map.1 hd
  rfl

theorem resultIds_stubs (calls : List ToolCall) :
    (calls.map (stubResultMessage body)).flatMap Message.resultIds = calls.map ToolCall.id := by
  induction calls with
  | nil => rfl
  | cons call calls ih =>
    rw [map_cons, flatMap_cons, ih]
    rfl

theorem orphanCalls_subset {rest : List Message} :
    (orphanCalls pending recovery m rest).map ToolCall.id ⊆ m.callIds := by
  intro id hid
  obtain ⟨call, hcall, rfl⟩ := mem_map.1 hid
  exact mem_map_of_mem (mem_of_mem_filter hcall)

theorem openAfter_of_calls (h : m.callIds ≠ []) : openAfter openCalls m = m.callIds := by
  cases m with
  | user content => exact absurd rfl h
  | assistant id content => exact if_neg h
  | system content => exact absurd rfl h

/-- Every call ends up answered. -/
theorem checkCalls_stubOrphanCalls (hdue : ∀ d ∈ due, d.hasResult = true) (history : List Message) :
    checkCalls (stubOrphanCalls [] [] body due history).1 = .ok () := by
  induction history generalizing due with
  | nil =>
    have hcheck : checkCalls (due ++ []) = .ok () := (checkCalls_append hdue).2 rfl
    rwa [append_nil] at hcheck
  | cons m rest ih =>
    unfold stubOrphanCalls
    by_cases hm : m.hasResult = true
    · simp only [hm, if_true]
      rw [checkCalls_cons_eq_ok, callIds_of_hasResult hm]
      exact ⟨forall_mem_nil _, ih hdue⟩
    · simp only [hm, Bool.false_eq_true, if_false]
      rw [checkCalls_append hdue, checkCalls_cons_eq_ok]
      refine ⟨fun id hid => ?_, ih hasResult_of_mem_stubs⟩
      rw [resultRun_stubOrphanCalls hasResult_of_mem_stubs, flatMap_append, mem_append]
      obtain ⟨call, hcall, rfl⟩ := mem_map.1 hid
      by_cases hcovered : call.id ∈ (resultRun rest).flatMap Message.resultIds
      · exact .inl hcovered
      · refine .inr (mem_flatMap.2 ⟨stubResultMessage body call, mem_map_of_mem ?_,
          mem_singleton_self _⟩)
        simp only [orphanCalls, mem_filter, ite_self, append_nil, decide_eq_true_eq]
        exact ⟨hcall, hcovered, not_mem_nil⟩

/-- Answers in the place they are given do not disturb the open calls. -/
theorem checkResults_stubOrphanCalls (hdue : ∀ d ∈ due, d.hasResult = true)
    (hopen : ∀ id ∈ due.flatMap Message.resultIds, id ∈ openCalls) (history : List Message) :
    checkResults openCalls (stubOrphanCalls pending recovery body due history).1 = .ok () ↔
      checkResults openCalls history = .ok () := by
  induction history generalizing due openCalls with
  | nil =>
    have hcheck : checkResults openCalls (due ++ []) = .ok () := (checkResults_append hdue).2 ⟨hopen, rfl⟩
    rw [append_nil] at hcheck
    exact iff_of_true hcheck rfl
  | cons m rest ih =>
    unfold stubOrphanCalls
    by_cases hm : m.hasResult = true
    · simp only [hm, if_true]
      rw [checkResults_cons_eq_ok, checkResults_cons_eq_ok, openAfter_of_hasResult hm, ih hdue hopen]
    · simp only [hm, Bool.false_eq_true, if_false]
      rw [checkResults_append hdue, and_iff_right hopen, checkResults_cons_eq_ok, checkResults_cons_eq_ok]
      refine and_congr_right fun _ => ih hasResult_of_mem_stubs fun id hid => ?_
      rw [resultIds_stubs] at hid
      have hcall : id ∈ m.callIds := orphanCalls_subset hid
      rwa [openAfter_of_calls (ne_nil_of_mem hcall)]

end Stubs

/-! ## Dropped results -/

/-- What replaces the set of open calls: a turn with calls, or a plain user prompt. -/
def Message.replacesOpen : Message → Bool
  | .assistant id content => (Message.assistant id content).callIds ≠ []
  | .user content => !(Message.user content).hasResult
  | .system _ => false

/-- The results that arrive before the open calls are replaced. -/
def lateResults (history : List Message) : List Text :=
  (history.takeWhile fun m => !m.replacesOpen).flatMap Message.resultIds

/-- Beside other content the message has results, none of which answers an open call: without them
    it is a plain prompt. -/
def Message.Exposed (openCalls : List Text) : Message → Prop
  | .user content => (Message.user content).hasResult = true ∧
      (∀ id ∈ (Message.user content).resultIds, id ∉ openCalls) ∧ ∃ c ∈ content, c.result? = none
  | .assistant .. | .system _ => False

/-- No call that was open before a message that turns into a plain prompt is answered behind it. -/
def UndisturbedFrom (openCalls : List Text) (history : List Message) : Prop :=
  ∀ before m after, history = before ++ m :: after → m.Exposed (before.foldl openAfter openCalls) →
    ∀ id ∈ lateResults after, id ∉ before.foldl openAfter openCalls

def Undisturbed (history : List Message) : Prop := UndisturbedFrom [] history

/-- The message is in the run of results behind a turn once the orphans are dropped: one of its results
    answers a call, or nothing is left of it. -/
def Message.inRun (openCalls : List Text) : Message → Bool
  | .user content => (Message.user content).hasResult &&
      ((Message.user content).resultIds.any (· ∈ openCalls) || content.all fun c => c.result?.isSome)
  | .assistant .. | .system _ => false

/-- What dropping leaves of a message. -/
def keptOf (openCalls : List Text) : Message → List Message
  | .user content =>
    let kept := content.filter fun c => !c.orphan openCalls
    if kept = [] ∧ content ≠ [] then [] else [.user kept]
  | m => [m]

section Drops

variable {m : Message} {rest : List Message} {openCalls : List Text} {content : List UserContent}

theorem undisturbedFrom_cons : UndisturbedFrom openCalls (m :: rest) ↔
    (m.Exposed openCalls → ∀ id ∈ lateResults rest, id ∉ openCalls) ∧
      UndisturbedFrom (openAfter openCalls m) rest := by
  constructor
  · intro h
    refine ⟨h [] m rest rfl, fun before m' after heq => ?_⟩
    exact h (m :: before) m' after (by rw [heq, cons_append])
  · rintro ⟨hfirst, hrest⟩ before m' after heq
    cases before with
    | nil =>
      obtain ⟨rfl, rfl⟩ := cons_eq_cons.1 heq
      exact hfirst
    | cons b before =>
      obtain ⟨rfl, hafter⟩ := cons_eq_cons.1 heq
      exact hrest before m' after hafter

theorem lateResults_cons_of_replacesOpen (h : m.replacesOpen = true) :
    lateResults (m :: rest) = [] := by
  simp [lateResults, h]

theorem lateResults_cons (h : m.replacesOpen = false) :
    lateResults (m :: rest) = m.resultIds ++ lateResults rest := by
  simp [lateResults, h]

theorem mem_resultIds_user {id : Text} :
    id ∈ (Message.user content).resultIds ↔ ∃ r, .toolResult r ∈ content ∧ r.call = id := by
  simp only [Message.resultIds, Message.results, mem_map, mem_filterMap]
  constructor
  · rintro ⟨r, ⟨c, hc, hr⟩, rfl⟩
    cases c with
    | toolResult result =>
      cases hr
      exact ⟨r, hc, rfl⟩
    | other body => cases hr
  · rintro ⟨r, hr, rfl⟩
    exact ⟨r, ⟨_, hr, rfl⟩, rfl⟩

theorem any_orphan_iff : (content.any fun c => c.orphan openCalls) = true ↔
      ∃ id ∈ (Message.user content).resultIds, id ∉ openCalls := by
  simp only [any_eq_true, mem_resultIds_user]
  constructor
  · rintro ⟨c, hc, horphan⟩
    cases c with
    | toolResult r => exact ⟨r.call, ⟨r, hc, rfl⟩, by simpa [UserContent.orphan, UserContent.result?] using horphan⟩
    | other body => cases horphan
  · rintro ⟨_, ⟨r, hr, rfl⟩, hnot⟩
    exact ⟨_, hr, by simpa [UserContent.orphan, UserContent.result?] using hnot⟩

theorem dropOrphanResults_cons : (dropOrphanResults openCalls (m :: rest)).1 =
    keptOf openCalls m ++ (dropOrphanResults (openAfter openCalls m) rest).1 := by
  cases m with
  | user content =>
    rw [dropOrphanResults.eq_2, keptOf]
    by_cases horphan : (content.any fun c => c.orphan openCalls) = true
    · have hne : content ≠ [] := by
        rintro rfl
        cases horphan
      simp only [horphan, if_true, hne, ne_eq, not_false_eq_true, and_true]
      split <;> rfl
    · have hkept : (content.filter fun c => !c.orphan openCalls) = content := by
        rw [filter_eq_self]
        intro c hc
        simpa using fun h => horphan (any_eq_true.2 ⟨c, hc, h⟩)
      simp only [horphan, hkept]
      simp
  | assistant id content => rfl
  | system content => rfl

theorem openAfter_of_replacesOpen (h : m.replacesOpen = false) : openAfter openCalls m = openCalls := by
  cases m with
  | user content =>
    have hresult : (Message.user content).hasResult = true := by simpa [Message.replacesOpen] using h
    simp only [openAfter, hresult, if_true]
  | assistant id content =>
    have hnone : (Message.assistant id content).callIds = [] := by
      simpa [Message.replacesOpen] using h
    simp only [openAfter, hnone, if_true]
  | system content => rfl

theorem not_replacesOpen_of_hasResult (h : m.hasResult = true) : m.replacesOpen = false := by
  obtain ⟨content, rfl⟩ := exists_user_of_hasResult h
  simp [Message.replacesOpen, h]

/-- A message that replaces the open calls has calls, or is a plain prompt and closes them. -/
theorem cases_of_replacesOpen (h : m.replacesOpen = true) :
    m.resultIds = [] ∧ (m.callIds ≠ [] ∨ ∀ openCalls, openAfter openCalls m = []) := by
  cases m with
  | user content =>
    have hplain : (Message.user content).hasResult = false := by simpa [Message.replacesOpen] using h
    exact ⟨hasResult_eq_false_iff.1 hplain, .inr fun _ => by simp [openAfter, hplain]⟩
  | assistant turn content => exact ⟨rfl, .inl (by simpa [Message.replacesOpen] using h)⟩
  | system content => cases h

/-! ### What is left of a message -/

/-- The results that are kept are those for open calls, in order. -/
theorem resultIds_filter_orphan (content : List UserContent) :
    (Message.user (content.filter fun c => !c.orphan openCalls)).resultIds =
      (Message.user content).resultIds.filter (· ∈ openCalls) := by
  simp only [Message.resultIds, Message.results]
  induction content with
  | nil => rfl
  | cons c content ih =>
    cases c with
    | toolResult r =>
      have horphan : (!(UserContent.toolResult r).orphan openCalls) = decide (r.call ∈ openCalls) := by
        simp [UserContent.orphan, UserContent.result?]
      have hresult : ∀ tail, (UserContent.toolResult r :: tail).filterMap UserContent.result? =
          r :: tail.filterMap UserContent.result? := fun _ => rfl
      rw [filter_cons, horphan, hresult, map_cons, filter_cons, ← ih]
      split
      · rw [hresult, map_cons]
      · rfl
    | other body =>
      rw [filter_cons_of_pos rfl, filterMap_cons_none rfl, filterMap_cons_none rfl, ih]

theorem resultIds_keptOf : (keptOf openCalls m).flatMap Message.resultIds =
    m.resultIds.filter (· ∈ openCalls) := by
  cases m with
  | user content =>
    rw [← resultIds_filter_orphan, keptOf]
    split
    next hnone => rw [hnone.1]; rfl
    next => exact append_nil _
  | assistant id content => rfl
  | system content => rfl

theorem keptOf_of_plain (h : m.resultIds = []) : keptOf openCalls m = [m] := by
  cases m with
  | user content =>
    have hkept : (content.filter fun c => !c.orphan openCalls) = content := by
      rw [filter_eq_self]
      intro c hc
      cases c with
      | toolResult r => exact absurd (mem_resultIds_user.2 ⟨r, hc, rfl⟩) (by simp [h])
      | other body => rfl
    rw [keptOf, hkept, if_neg fun hnil => hnil.2 hnil.1]
  | assistant turn content => rfl
  | system content => rfl

/-- A message with results is in the run, or is left as a plain prompt. -/
theorem inRun_or_exposed (h : m.hasResult = true) : m.inRun openCalls = true ∨ m.Exposed openCalls := by
  obtain ⟨content, rfl⟩ := exists_user_of_hasResult h
  by_cases hopen : ∃ id ∈ (Message.user content).resultIds, id ∈ openCalls
  · obtain ⟨id, hid, hmem⟩ := hopen
    have hany : (Message.user content).resultIds.any (· ∈ openCalls) = true :=
      any_eq_true.2 ⟨id, hid, decide_eq_true hmem⟩
    exact .inl (by simp [Message.inRun, h, hany])
  by_cases hall : ∀ c ∈ content, c.result?.isSome = true
  · exact .inl (by simp [Message.inRun, h, all_eq_true.2 hall])
  · obtain ⟨c, hc, hnone⟩ : ∃ c ∈ content, c.result? = none := by simpa using hall
    exact .inr ⟨h, fun id hid hmem => hopen ⟨id, hid, hmem⟩, c, hc, hnone⟩

theorem hasResult_of_inRun (h : m.inRun openCalls = true) : m.hasResult = true := by
  cases m with
  | user content => exact (Bool.and_eq_true_iff.1 h).1
  | assistant turn content => cases h
  | system content => cases h

theorem not_exposed_of_inRun (h : m.inRun openCalls = true) : ¬m.Exposed openCalls := by
  obtain ⟨content, rfl⟩ := exists_user_of_hasResult (hasResult_of_inRun h)
  rintro ⟨-, horphans, c, hc, hnone⟩
  obtain hopen | hall := Bool.or_eq_true_iff.1 (Bool.and_eq_true_iff.1 h).2
  · obtain ⟨id, hid, hmem⟩ := any_eq_true.1 hopen
    exact horphans id hid (of_decide_eq_true hmem)
  · simpa [hnone] using all_eq_true.1 hall c hc

/-- A message in the run leaves result messages only. -/
theorem hasResult_keptOf (h : m.inRun openCalls = true) : ∀ x ∈ keptOf openCalls m, x.hasResult = true := by
  obtain ⟨content, rfl⟩ := exists_user_of_hasResult (hasResult_of_inRun h)
  intro x hx
  simp only [keptOf] at hx
  split at hx
  next => cases hx
  next hsome =>
    obtain rfl := mem_singleton.1 hx
    obtain hopen | hall := Bool.or_eq_true_iff.1 (Bool.and_eq_true_iff.1 h).2
    · obtain ⟨id, hid, hmem⟩ := any_eq_true.1 hopen
      rw [hasResult_iff, resultIds_filter_orphan]
      exact ne_nil_of_mem (mem_filter.2 ⟨hid, hmem⟩)
    · have hne : (content.filter fun c => !c.orphan openCalls) ≠ [] := by
        intro hnil
        refine hsome ⟨hnil, ?_⟩
        rintro rfl
        cases h
      obtain ⟨c, hc⟩ := exists_mem_of_ne_nil _ hne
      exact any_eq_true.2 ⟨c, hc, all_eq_true.1 hall c (mem_of_mem_filter hc)⟩

theorem keptOf_of_exposed (h : m.Exposed openCalls) :
    ∃ content, keptOf openCalls m = [.user content] ∧ (Message.user content).hasResult = false := by
  cases m with
  | user content =>
    obtain ⟨-, horphans, c, hc, hnone⟩ := h
    have hmem : c ∈ content.filter fun c => !c.orphan openCalls :=
      mem_filter.2 ⟨hc, by simp [UserContent.orphan, hnone]⟩
    refine ⟨_, if_neg fun hnil => ne_nil_of_mem hmem hnil.1, hasResult_eq_false_iff.2 ?_⟩
    rw [resultIds_filter_orphan, filter_eq_nil_iff]
    exact fun id hid hopen => horphans id hid (of_decide_eq_true hopen)
  | assistant turn content => exact h.elim
  | system content => exact h.elim

/-- The gate over what dropping leaves: in step with it as long as both track the same open calls,
    and behind it once a message turned into a plain prompt. -/
theorem checkResults_dropOrphanResults (history : List Message) (openCalls : List Text) :
    (checkResults openCalls (dropOrphanResults openCalls history).1 = .ok () ↔
      UndisturbedFrom openCalls history) ∧
    (checkResults [] (dropOrphanResults openCalls history).1 = .ok () ↔
      (∀ id ∈ lateResults history, id ∉ openCalls) ∧ UndisturbedFrom openCalls history) := by
  induction history generalizing openCalls with
  | nil =>
    have hnone : UndisturbedFrom openCalls [] := fun before m after h =>
      absurd h.symm (by simp)
    exact ⟨iff_of_true rfl hnone, iff_of_true rfl ⟨forall_mem_nil _, hnone⟩⟩
  | cons m rest ih =>
    rw [undisturbedFrom_cons, dropOrphanResults_cons]
    by_cases hresults : m.resultIds = []
    · have hexposed : ¬m.Exposed openCalls := by
        intro hexposed
        cases m with
        | user content => exact hasResult_iff.1 hexposed.1 hresults
        | assistant turn content => exact hexposed
        | system content => exact hexposed
      rw [keptOf_of_plain hresults, singleton_append, checkResults_cons_eq_ok, checkResults_cons_eq_ok, hresults]
      cases hreplaces : m.replacesOpen with
      | true =>
        have hsame : openAfter [] m = openAfter openCalls m := by
          obtain ⟨-, hcalls | hcloses⟩ := cases_of_replacesOpen hreplaces
          · rw [openAfter_of_calls hcalls, openAfter_of_calls hcalls]
          · rw [hcloses, hcloses]
        rw [hsame, lateResults_cons_of_replacesOpen hreplaces]
        simp [hexposed, (ih (openAfter openCalls m)).1]
      | false =>
        rw [lateResults_cons hreplaces, hresults, nil_append, openAfter_of_replacesOpen hreplaces,
          openAfter_of_replacesOpen hreplaces]
        simp [hexposed, ih openCalls]
    · -- A message with results keeps the open calls.
      have hresult := hasResult_iff.2 hresults
      have hkeeps := not_replacesOpen_of_hasResult hresult
      rw [openAfter_of_replacesOpen hkeeps, lateResults_cons hkeeps, forall_mem_append]
      rcases inRun_or_exposed hresult with hrun | hexposed
      · have hexposed : ¬m.Exposed openCalls := not_exposed_of_inRun hrun
        rw [checkResults_append (hasResult_keptOf hrun), checkResults_append (hasResult_keptOf hrun), resultIds_keptOf,
          (ih openCalls).1, (ih openCalls).2]
        simp only [mem_filter, decide_eq_true_eq, and_imp, not_mem_nil]
        tauto
      · obtain ⟨content, hkept, hplain⟩ := keptOf_of_exposed hexposed
        have hopen : ∀ checked, openAfter checked (.user content) = [] := fun _ => by simp [openAfter, hplain]
        rw [hkept, singleton_append, checkResults_cons_eq_ok, checkResults_cons_eq_ok,
          hasResult_eq_false_iff.1 hplain, hopen, hopen, (ih openCalls).2]
        cases m with
        | user content =>
          have horphans := hexposed.2.1
          simp only [not_mem_nil, false_imp_iff, implies_true, true_and]
          tauto
        | assistant turn content => exact hexposed.elim
        | system content => exact hexposed.elim

end Drops

/-! ## Healed histories -/

variable {history : List Message}

theorem dropOrphanResults_of_ok {openCalls : List Text}
    (h : checkResults openCalls history = .ok ()) :
    dropOrphanResults openCalls history = (history, []) := by
  induction history generalizing openCalls with
  | nil => rfl
  | cons m rest ih =>
    obtain ⟨hresults, hrest⟩ := checkResults_cons_eq_ok.1 h
    cases m with
    | user content =>
      have hnone : ¬(content.any fun c => c.orphan openCalls) = true := by
        rw [any_orphan_iff]
        rintro ⟨id, hid, hnot⟩
        exact hnot (hresults id hid)
      rw [dropOrphanResults.eq_2]
      simp only [hnone, Bool.false_eq_true, if_false, ih hrest]
    | assistant id content => simp only [dropOrphanResults, ih hrest]
    | system content => simp only [dropOrphanResults, ih hrest]

theorem stubOrphanCalls_of_ok {body : Text}
    (h : checkCalls history = .ok ()) : stubOrphanCalls [] [] body [] history = (history, []) := by
  induction history with
  | nil => rfl
  | cons m rest ih =>
    obtain ⟨hcalls, hrest⟩ := checkCalls_cons_eq_ok.1 h
    have hnone : orphanCalls [] [] m rest = [] := by
      simp only [orphanCalls, ite_self, append_nil, filter_eq_nil_iff, decide_eq_true_eq]
      exact fun call hcall h => h.1 (hcalls call.id (mem_map_of_mem hcall))
    unfold stubOrphanCalls
    split
    · rw [ih hrest]
    · simp only [hnone, map_nil, ih hrest, nil_append]

/-- In front of a prompt without results, healing leaves a history that the gate accepts, and leaves
    accepted histories as they are, exactly if the history is undisturbed. -/
theorem healed_valid_iff (history : List Message) {prompt : Message}
    (hprompt : prompt.resultIds = []) :
    (validatePairing (healLiveHistory history prompt).1 = .ok () ∧
      (validatePairing history = .ok () → healLiveHistory history prompt = (history, []))) ↔
      Undisturbed history := by
  have hvalid : validatePairing (healLiveHistory history prompt).1 = .ok () ↔
      Undisturbed history := by
    unfold healLiveHistory healPairingDeferred
    rw [hprompt, validatePairing_eq_ok,
      checkResults_stubOrphanCalls (List.forall_mem_nil _) (List.forall_mem_nil _), Undisturbed]
    exact (and_iff_right (checkCalls_stubOrphanCalls (List.forall_mem_nil _) _)).trans
      (checkResults_dropOrphanResults history []).1
  rw [hvalid]
  refine and_iff_left_of_imp fun _ hok => ?_
  obtain ⟨hcalls, hresults⟩ := validatePairing_eq_ok.1 hok
  unfold healLiveHistory healPairingDeferred
  simp only [hprompt, dropOrphanResults_of_ok hresults, stubOrphanCalls_of_ok hcalls,
    List.append_nil]

def readCall : Message := .assistant none [.toolCall ⟨['a'], none, "read".toList, .null⟩]

def resultOf (id : Text) : UserContent := .toolResult ⟨id, none, "read".toList, [.text ['x']]⟩

/-- A stray result beside a text stands between a call and its result. -/
def disturbed : List Message :=
  [readCall, .user [resultOf ['z'], .other ['t']], .user [resultOf ['a']]]

theorem healed_valid_iff_disturbed :
    (validatePairing (healLiveHistory disturbed (.user [])).1 = .ok () ∧
      (validatePairing disturbed = .ok () →
        healLiveHistory disturbed (.user []) = (disturbed, []))) ↔ Undisturbed disturbed :=
  healed_valid_iff disturbed rfl

/-- Without the stray result the message is a plain prompt, and the result behind it an orphan. -/
theorem healed_history_refused :
    validatePairing (healLiveHistory disturbed (.user [.other ['p']])).1 =
      .error (.orphanToolResult ['a']) := by
  decide +kernel

end FlyCockpit.Engine
