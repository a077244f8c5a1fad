-- SUMMARY: When healing answers a call beside a genuine result, and when every call ends up with one result.
import FlyCockpit.Engine.Pairing

/-!
# Healed results

Dropping keeps a result for as long as its call is open, and a call stays open across other turns and
system messages. Answering reads only the run of result messages right behind the turn. A result that is
kept and stands behind that run does not count, and its call is answered a second time.
-/

namespace FlyCockpit.Engine

open Message List

/-- The results in the run behind a turn with the given calls. -/
def runResults (openCalls : List Text) (rest : List Message) : List Text :=
  (rest.takeWhile (·.inRun openCalls)).flatMap resultIds

/-- The results between a turn and the next one that issues calls. -/
def resultsUntilCalls (rest : List Message) : List Text :=
  (rest.takeWhile fun m => m.callIds = []).flatMap resultIds

/-! ## What dropping leaves -/

section Dropped

variable {openCalls : List Text} {m : Message} {rest history : List Message} {id : Text}

theorem dropOrphanResults_append (before after : List Message) :
    (dropOrphanResults openCalls (before ++ after)).1 = (dropOrphanResults openCalls before).1 ++
      (dropOrphanResults (before.foldl openAfter openCalls) after).1 := by
  induction before generalizing openCalls with
  | nil => rfl
  | cons m before ih => rw [cons_append, dropOrphanResults_cons, ih, dropOrphanResults_cons, append_assoc,
      foldl_cons]

theorem callIds_keptOf : (keptOf openCalls m).flatMap callIds = m.callIds := by
  cases m with
  | user content =>
    simp only [keptOf]
    split <;> rfl
  | assistant id content => exact append_nil _
  | system content => rfl

theorem callIds_drop : (dropOrphanResults openCalls history).1.flatMap callIds =
    history.flatMap callIds := by
  induction history generalizing openCalls with
  | nil => rfl
  | cons m rest ih => rw [dropOrphanResults_cons, flatMap_append, callIds_keptOf, ih, flatMap_cons]

theorem resultIds_of_calls (h : m.callIds ≠ []) : m.resultIds = [] := by
  cases m with
  | user content => exact absurd rfl h
  | assistant id content => rfl
  | system content => rfl

theorem keptOf_of_calls (h : m.callIds ≠ []) : keptOf openCalls m = [m] :=
  keptOf_of_plain (resultIds_of_calls h)

theorem mem_openAfter (h : id ∈ openAfter openCalls m) : id ∈ openCalls ∨ id ∈ m.callIds := by
  by_cases hcalls : m.callIds = []
  · cases m with
    | user content =>
      simp only [openAfter] at h
      split at h
      · exact .inl h
      · cases h
    | assistant turn content =>
      simp only [openAfter, hcalls, if_true] at h
      exact .inl h
    | system content => exact .inl h
  · exact .inr (openAfter_of_calls hcalls ▸ h)

theorem callIds_of_not_replacesOpen (h : m.replacesOpen = false) : m.callIds = [] := by
  cases m with
  | user content => rfl
  | assistant turn content => simpa [replacesOpen] using h
  | system content => rfl

/-! ## The results behind a turn -/

theorem resultsUntilCalls_keptOf (tail : List Message) :
    resultsUntilCalls (keptOf openCalls m ++ tail) =
      if m.callIds = [] then m.resultIds.filter (· ∈ openCalls) ++ resultsUntilCalls tail else [] := by
  by_cases hcalls : m.callIds = []
  · have hnone : ∀ x ∈ keptOf openCalls m, decide (x.callIds = []) = true := by
      have hflat := @callIds_keptOf openCalls m
      rw [hcalls, flatMap_eq_nil_iff] at hflat
      exact fun x hx => decide_eq_true (hflat x hx)
    rw [if_pos hcalls, resultsUntilCalls, takeWhile_append_of_pos hnone, flatMap_append, resultIds_keptOf]
    rfl
  · rw [if_neg hcalls, keptOf_of_calls hcalls, resultsUntilCalls, singleton_append,
      takeWhile_cons_of_neg (by simpa using hcalls)]
    rfl

/-- While nothing is open, no result is kept. -/
theorem resultsUntilCalls_drop_nil : resultsUntilCalls (dropOrphanResults [] rest).1 = [] := by
  induction rest with
  | nil => rfl
  | cons m rest ih =>
    rw [dropOrphanResults_cons, resultsUntilCalls_keptOf]
    split
    next hcalls =>
      have hopen : openAfter [] m = [] := by
        rw [eq_nil_iff_forall_not_mem]
        intro id hid
        simpa [hcalls] using mem_openAfter hid
      rw [hopen, ih]
      simp
    next => rfl

/-- The results that stay up to the next calls are those that arrive before the open calls are replaced. -/
theorem resultsUntilCalls_drop : resultsUntilCalls (dropOrphanResults openCalls rest).1 =
    (lateResults rest).filter (· ∈ openCalls) := by
  induction rest with
  | nil => rfl
  | cons m rest ih =>
    rw [dropOrphanResults_cons, resultsUntilCalls_keptOf]
    cases hreplaces : m.replacesOpen with
    | true =>
      obtain ⟨hresults, hcalls | hcloses⟩ := cases_of_replacesOpen hreplaces
      · rw [if_neg hcalls, lateResults_cons_of_replacesOpen hreplaces]
        rfl
      · rw [hcloses, hresults, resultsUntilCalls_drop_nil, lateResults_cons_of_replacesOpen hreplaces]
        simp
    | false =>
      rw [if_pos (callIds_of_not_replacesOpen hreplaces), openAfter_of_replacesOpen hreplaces, ih,
        lateResults_cons hreplaces, filter_append]

/-- The run behind a turn, and what follows it. -/
theorem dropOrphanResults_run : ∃ run tail, (dropOrphanResults openCalls rest).1 = run ++ tail ∧
    resultRun (dropOrphanResults openCalls rest).1 = run ∧
    run.flatMap resultIds = (runResults openCalls rest).filter (· ∈ openCalls) ∧
    (tail = [] ↔ ∀ m ∈ rest, m.inRun openCalls = true) := by
  induction rest with
  | nil => exact ⟨[], [], rfl, rfl, rfl, by simp⟩
  | cons m rest ih =>
    rw [dropOrphanResults_cons]
    cases hrun : m.inRun openCalls with
    | true =>
      obtain ⟨run, tail, heq, hresults, hids, htail⟩ := ih
      rw [openAfter_of_replacesOpen (not_replacesOpen_of_hasResult (hasResult_of_inRun hrun))]
      refine ⟨keptOf openCalls m ++ run, tail, by rw [heq, append_assoc], ?_, ?_, ?_⟩
      · rw [resultRun, takeWhile_append_of_pos (hasResult_keptOf hrun), ← resultRun, hresults]
      · rw [flatMap_append, resultIds_keptOf, hids, runResults, runResults, takeWhile_cons_of_pos hrun,
          flatMap_cons, filter_append]
      · rw [htail, forall_mem_cons]
        exact (and_iff_right hrun).symm
    | false =>
      obtain ⟨x, hkept, hplain⟩ : ∃ x, keptOf openCalls m = [x] ∧ x.hasResult = false := by
        cases hresult : m.hasResult with
        | false => exact ⟨m, keptOf_of_plain (hasResult_eq_false_iff.1 hresult), hresult⟩
        | true =>
          obtain ⟨content, hkept, hplain⟩ :=
            keptOf_of_exposed ((inRun_or_exposed hresult).resolve_left (Bool.eq_false_iff.1 hrun))
          exact ⟨_, hkept, hplain⟩
      rw [hkept]
      refine ⟨[], _, rfl, ?_, ?_, ?_⟩
      · rw [resultRun, singleton_append, takeWhile_cons_of_neg (by simp [hplain])]
      · rw [runResults, takeWhile_cons_of_neg (by simp [hrun])]
        rfl
      · simp [hrun]

/-! ## Counting results -/

/-- A call that no turn issues keeps no result. -/
theorem count_drop_of_not_mem (hopen : id ∉ openCalls) (hcalls : id ∉ history.flatMap callIds) :
    ((dropOrphanResults openCalls history).1.flatMap resultIds).count id = 0 := by
  induction history generalizing openCalls with
  | nil => rfl
  | cons m rest ih =>
    rw [flatMap_cons, mem_append, not_or] at hcalls
    have hafter : id ∉ openAfter openCalls m := fun h => (mem_openAfter h).elim hopen hcalls.1
    have hkept : (m.resultIds.filter (· ∈ openCalls)).count id = 0 :=
      count_eq_zero.2 fun h => hopen (of_decide_eq_true (mem_filter.1 h).2)
    rw [dropOrphanResults_cons, flatMap_append, count_append, resultIds_keptOf, hkept,
      ih hafter hcalls.2]

/-- A call of one turn keeps the results that arrive before the open calls are replaced. -/
theorem count_drop (hopen : id ∈ openCalls) (hcalls : id ∉ rest.flatMap callIds) :
    ((dropOrphanResults openCalls rest).1.flatMap resultIds).count id = (lateResults rest).count id := by
  induction rest with
  | nil => rfl
  | cons m rest ih =>
    rw [flatMap_cons, mem_append, not_or] at hcalls
    rw [dropOrphanResults_cons, flatMap_append, count_append, resultIds_keptOf]
    cases hreplaces : m.replacesOpen with
    | true =>
      obtain ⟨hresults, hafter⟩ := cases_of_replacesOpen hreplaces
      have hnot : id ∉ openAfter openCalls m := by
        rcases hafter with hturn | hcloses
        · rw [openAfter_of_calls hturn]
          exact hcalls.1
        · rw [hcloses]
          exact not_mem_nil
      rw [hresults, count_drop_of_not_mem hnot hcalls.2, lateResults_cons_of_replacesOpen hreplaces]
      rfl
    | false =>
      rw [openAfter_of_replacesOpen hreplaces, ih hcalls.2, lateResults_cons hreplaces, count_append,
        count_filter]
      exact decide_eq_true hopen

end Dropped

/-! ## What answering adds -/

/-- The calls that are answered, in order. -/
def stubbedIds (pendingResults : List Text) : List Message → List Text
  | [] => []
  | m :: rest => (orphanCalls pendingResults [] m rest).map ToolCall.id ++ stubbedIds pendingResults rest

section Answered

variable {pending openCalls : List Text} {body id : Text} {m : Message} {rest : List Message}

/-- Answering adds a result for each of these calls. -/
theorem count_stubOrphanCalls (due history : List Message) :
    ((stubOrphanCalls pending [] body due history).1.flatMap resultIds).count id =
      (history.flatMap resultIds).count id + (due.flatMap resultIds).count id +
        (stubbedIds pending history).count id := by
  induction history generalizing due with
  | nil => simp [stubOrphanCalls, stubbedIds]
  | cons m rest ih =>
    unfold stubOrphanCalls
    by_cases hm : m.hasResult = true
    · have hnone : (orphanCalls pending [] m rest).map ToolCall.id = [] := by
        have hsubset := @orphanCalls_subset pending [] m rest
        rwa [callIds_of_hasResult hm, subset_nil] at hsubset
      simp only [hm, if_true]
      rw [flatMap_cons, count_append, ih, flatMap_cons, count_append, stubbedIds, hnone]
      simp only [nil_append]
      omega
    · simp only [hm, Bool.false_eq_true, if_false]
      rw [flatMap_append, count_append, flatMap_cons, count_append, ih, resultIds_stubs,
        flatMap_cons, count_append, stubbedIds, count_append]
      omega

theorem count_stubbedIds_of_not_mem {history : List Message} (h : id ∉ history.flatMap callIds) :
    (stubbedIds pending history).count id = 0 := by
  induction history with
  | nil => rfl
  | cons m rest ih =>
    rw [flatMap_cons, mem_append, not_or] at h
    rw [stubbedIds, count_append, ih h.2, count_eq_zero.2 fun hid => h.1 (orphanCalls_subset hid)]

theorem count_stubbedIds_append {before : List Message} (h : id ∉ before.flatMap callIds)
    (tail : List Message) :
    (stubbedIds pending (before ++ tail)).count id = (stubbedIds pending tail).count id := by
  induction before with
  | nil => rfl
  | cons m before ih =>
    rw [flatMap_cons, mem_append, not_or] at h
    rw [cons_append, stubbedIds, count_append, ih h.2,
      count_eq_zero.2 fun hid => h.1 (orphanCalls_subset hid), Nat.zero_add]

/-- A call is answered if the run behind its turn has no result for it, unless the run ends the history and
    the prompt has one. -/
theorem mem_orphanCalls_iff (hid : id ∈ m.callIds) :
    id ∈ (orphanCalls pending [] m (dropOrphanResults m.callIds rest).1).map ToolCall.id ↔
      id ∉ runResults m.callIds rest ∧ ¬((∀ x ∈ rest, x.inRun m.callIds = true) ∧ id ∈ pending) := by
  obtain ⟨run, tail, heq, hrun, hids, htail⟩ := @dropOrphanResults_run m.callIds rest
  have hends : run.length = (dropOrphanResults m.callIds rest).1.length ↔ ∀ x ∈ rest, x.inRun m.callIds = true := by
    rw [heq, length_append, ← htail, ← length_eq_zero_iff]
    omega
  have hcovered : id ∈ (run.flatMap resultIds ++
      if run.length = (dropOrphanResults m.callIds rest).1.length then pending else []) ↔
        id ∈ runResults m.callIds rest ∨ (∀ x ∈ rest, x.inRun m.callIds = true) ∧ id ∈ pending := by
    rw [mem_append, hids, mem_filter, ← hends]
    refine or_congr (and_iff_left (decide_eq_true hid)) ?_
    split
    next hlength => exact (and_iff_right hlength).symm
    next hlength => exact iff_of_false not_mem_nil fun h => hlength h.1
  rw [← not_or, ← hcovered]
  simp only [orphanCalls, hrun, mem_map, mem_filter, not_mem_nil, not_false_eq_true, and_true,
    decide_eq_true_eq]
  constructor
  · rintro ⟨call, ⟨-, hnot⟩, rfl⟩
    exact hnot
  · intro hnot
    obtain ⟨call, hcall, rfl⟩ := mem_map.1 hid
    exact ⟨call, ⟨hcall, hnot⟩, rfl⟩

end Answered

/-! ## Healed histories -/

/-- No call is answered beside a genuine result. -/
def NeverContradicts (history : List Message) (prompt : Message) : Prop :=
  ∀ m rest, m :: rest <:+ (dropOrphanResults [] history).1 →
    ∀ call ∈ orphanCalls prompt.resultIds [] m rest, call.id ∉ resultsUntilCalls rest

/-- Every call has one result in what is sent. -/
def OneResultEach (history : List Message) (prompt : Message) : Prop :=
  ∀ id ∈ history.flatMap callIds,
    (((healLiveHistory history prompt).1 ++ [prompt]).flatMap resultIds).count id = 1

section Healed

variable {history rest : List Message} {prompt m : Message} {openCalls : List Text} {id : Text}

/-- The run behind a turn is part of what arrives before the open calls are replaced. -/
theorem runResults_subset : runResults openCalls rest ⊆ lateResults rest := by
  induction rest with
  | nil => exact List.Subset.refl _
  | cons m rest ih =>
    cases hrun : m.inRun openCalls with
    | true =>
      rw [runResults, takeWhile_cons_of_pos hrun, flatMap_cons,
        lateResults_cons (not_replacesOpen_of_hasResult (hasResult_of_inRun hrun))]
      exact append_subset.2 ⟨subset_append_left _ _, List.Subset.trans ih (subset_append_right _ _)⟩
    | false =>
      rw [runResults, takeWhile_cons_of_neg (by simp [hrun])]
      exact nil_subset _

/-- All of it, where the run goes to the end. -/
theorem mem_runResults_of_end (hend : ∀ x ∈ rest, x.inRun openCalls = true) (h : id ∈ lateResults rest) :
    id ∈ runResults openCalls rest := by
  obtain ⟨x, hx, hid⟩ := mem_flatMap.1 h
  rw [runResults, takeWhile_eq_self_iff.2 hend]
  exact mem_flatMap.2 ⟨x, (takeWhile_sublist _).subset hx, hid⟩

section Turns

variable {P : Message → List Message → Prop}

theorem forall_turns_cons : (∀ m rest, m :: rest <:+ prompt :: history → P m rest) ↔
    P prompt history ∧ ∀ m rest, m :: rest <:+ history → P m rest := by
  simp only [suffix_cons_iff, cons_eq_cons]
  constructor
  · exact fun h => ⟨h _ _ (.inl ⟨rfl, rfl⟩), fun m rest hsuffix => h m rest (.inr hsuffix)⟩
  · rintro ⟨hfirst, hrest⟩ m rest (⟨rfl, rfl⟩ | hsuffix)
    · exact hfirst
    · exact hrest m rest hsuffix

/-- The turns that dropping leaves are those of the history. -/
theorem forall_turns_drop_iff (hP : ∀ m rest, m.callIds = [] → P m rest) :
    (∀ m rest, m :: rest <:+ (dropOrphanResults openCalls history).1 → P m rest) ↔
      ∀ m rest, m :: rest <:+ history → P m (dropOrphanResults m.callIds rest).1 := by
  induction history generalizing openCalls with
  | nil => simp [dropOrphanResults]
  | cons x history ih =>
    have hrhs := @forall_turns_cons history x fun m rest => P m (dropOrphanResults m.callIds rest).1
    rw [hrhs, dropOrphanResults_cons]
    by_cases hcalls : x.callIds = []
    · rw [and_iff_right (hP x _ hcalls), ← ih]
      have hflat := @callIds_keptOf openCalls x
      rw [hcalls, flatMap_eq_nil_iff] at hflat
      generalize keptOf openCalls x = kept at hflat
      induction kept with
      | nil => rfl
      | cons y kept hkept =>
        obtain ⟨hy, hnone⟩ := forall_mem_cons.1 hflat
        rw [cons_append, forall_turns_cons, and_iff_right (hP y _ hy)]
        exact hkept hnone
    · rw [keptOf_of_calls hcalls, openAfter_of_calls hcalls, singleton_append, forall_turns_cons, ih]

end Turns

theorem neverContradicts_iff : NeverContradicts history prompt ↔
    ∀ m rest, m :: rest <:+ history → ∀ id ∈ m.callIds,
      id ∈ lateResults rest → id ∈ runResults m.callIds rest := by
  have hnone : ∀ m rest, m.callIds = [] → ∀ call ∈ orphanCalls prompt.resultIds [] m rest,
      call.id ∉ resultsUntilCalls rest := by
    intro m rest hcalls call hcall
    have hid := orphanCalls_subset (mem_map_of_mem hcall)
    rw [hcalls] at hid
    cases hid
  refine (forall_turns_drop_iff hnone).trans (forall₂_congr fun m rest => imp_congr_right fun _ => ?_)
  rw [resultsUntilCalls_drop]
  constructor
  · intro h id hid hlate
    by_contra hrun
    have horphan : id ∈ (orphanCalls prompt.resultIds [] m (dropOrphanResults m.callIds rest).1).map ToolCall.id :=
      (mem_orphanCalls_iff hid).2 ⟨hrun, fun hend => hrun (mem_runResults_of_end hend.1 hlate)⟩
    obtain ⟨call, hcall, rfl⟩ := mem_map.1 horphan
    exact h call hcall (mem_filter.2 ⟨hlate, decide_eq_true hid⟩)
  · intro h call hcall hlate
    have hid := orphanCalls_subset (mem_map_of_mem hcall)
    have hrun := h call.id hid (mem_filter.1 hlate).1
    exact ((mem_orphanCalls_iff hid).1 (mem_map_of_mem hcall)).1 hrun

/-- The results of a call in what is sent: those that arrive in time, the answer, and the prompt's. -/
theorem count_healed (hnodup : (history.flatMap callIds).Nodup) (hturn : m :: rest <:+ history)
    (hid : id ∈ m.callIds) :
    (((healLiveHistory history prompt).1 ++ [prompt]).flatMap resultIds).count id =
      (lateResults rest).count id + (if id ∉ runResults m.callIds rest ∧
          ¬((∀ x ∈ rest, x.inRun m.callIds = true) ∧ id ∈ prompt.resultIds) then 1 else 0) +
        prompt.resultIds.count id := by
  obtain ⟨before, rfl⟩ := hturn
  rw [flatMap_append, flatMap_cons, nodup_append, nodup_append] at hnodup
  obtain ⟨-, ⟨hcalls, -, hafter⟩, hbefore⟩ := hnodup
  have hfresh : id ∉ before.flatMap callIds := fun hmem =>
    hbefore id hmem id (mem_append_left _ hid) rfl
  have hrest : id ∉ rest.flatMap callIds := fun hmem => hafter id hid id hmem rfl
  have hne := ne_nil_of_mem hid
  have hdrop : (dropOrphanResults [] (before ++ m :: rest)).1 = (dropOrphanResults [] before).1 ++
      m :: (dropOrphanResults m.callIds rest).1 := by
    rw [dropOrphanResults_append, dropOrphanResults_cons, keptOf_of_calls hne, openAfter_of_calls hne,
      singleton_append]
  have hstub : ((orphanCalls prompt.resultIds [] m (dropOrphanResults m.callIds rest).1).map ToolCall.id).count id =
      if id ∈ (orphanCalls prompt.resultIds [] m (dropOrphanResults m.callIds rest).1).map ToolCall.id
        then 1 else 0 := by
    rw [List.Nodup.count]
    exact (filter_sublist.map ToolCall.id).nodup hcalls
  unfold healLiveHistory healPairingDeferred
  dsimp only
  rw [flatMap_append, count_append, count_stubOrphanCalls, hdrop, flatMap_append, count_append,
    flatMap_cons, resultIds_of_calls hne, nil_append, count_drop_of_not_mem not_mem_nil hfresh,
    count_drop hid hrest, count_stubbedIds_append (by rwa [callIds_drop]), stubbedIds, count_append,
    count_stubbedIds_of_not_mem (by rwa [callIds_drop]), hstub]
  simp only [mem_orphanCalls_iff hid, flatMap_nil, count_nil, flatMap_cons, append_nil]
  omega

/-- With distinct calls, every call has one result exactly if at most one arrives in time or with the prompt,
    and that one is in the run behind its turn. -/
theorem oneResultEach_iff (hnodup : (history.flatMap callIds).Nodup) : OneResultEach history prompt ↔
    ∀ m rest, m :: rest <:+ history → ∀ id ∈ m.callIds,
      (lateResults rest).count id + prompt.resultIds.count id ≤ 1 ∧
      (id ∈ lateResults rest → id ∈ runResults m.callIds rest) ∧
      (id ∈ prompt.resultIds → ∀ x ∈ rest, x.inRun m.callIds = true) := by
  have hids : OneResultEach history prompt ↔ ∀ m rest, m :: rest <:+ history → ∀ id ∈ m.callIds,
      (((healLiveHistory history prompt).1 ++ [prompt]).flatMap resultIds).count id = 1 := by
    constructor
    · exact fun h m rest hturn id hid => h id (mem_flatMap.2 ⟨m, hturn.subset mem_cons_self, hid⟩)
    · intro h id hid
      obtain ⟨m, hm, hcall⟩ := mem_flatMap.1 hid
      obtain ⟨before, rest, rfl⟩ := append_of_mem hm
      exact h m rest (suffix_append _ _) id hcall
  refine hids.trans (forall₂_congr fun m rest => forall_congr' fun hturn => forall₂_congr fun id hid => ?_)
  rw [count_healed hnodup hturn hid]
  have hlate : 0 < (lateResults rest).count id ↔ id ∈ lateResults rest := count_pos_iff
  have hsent : 0 < prompt.resultIds.count id ↔ id ∈ prompt.resultIds := count_pos_iff
  by_cases hrun : id ∈ runResults m.callIds rest
  · -- The result in the run is the only one.
    have hpos := hlate.2 (runResults_subset hrun)
    rw [if_neg fun h => h.1 hrun]
    refine ⟨fun h => ⟨by omega, fun _ => hrun, fun hmem => ?_⟩, fun h => by omega⟩
    have := hsent.2 hmem
    omega
  by_cases hprompt : (∀ x ∈ rest, x.inRun m.callIds = true) ∧ id ∈ prompt.resultIds
  · have hpos := hsent.2 hprompt.2
    have hnone : ¬0 < (lateResults rest).count id := fun h => hrun (mem_runResults_of_end hprompt.1 (hlate.1 h))
    rw [if_neg fun h => h.2 hprompt]
    exact ⟨fun h => ⟨by omega, fun h => absurd (hlate.2 h) hnone, fun _ => hprompt.1⟩, fun h => by omega⟩
  · -- The call is answered, so there must be no other result.
    rw [if_pos ⟨hrun, hprompt⟩]
    constructor
    · intro h
      refine ⟨by omega, fun hmem => ?_, fun hmem => ?_⟩
      · have := hlate.2 hmem
        omega
      · have := hsent.2 hmem
        omega
    · rintro ⟨-, hinrun, hend⟩
      have hnone : ¬0 < (lateResults rest).count id := fun h => hrun (hinrun (hlate.1 h))
      have hquiet : ¬0 < prompt.resultIds.count id := fun h => hprompt ⟨hend (hsent.1 h), hsent.1 h⟩
      omega

/-- Healing answers no call beside a genuine result, and with distinct calls leaves each with one result,
    exactly if every result that arrives before the calls of its turn are replaced is in the run behind the
    turn, or another one for its call is, and with distinct calls there is at most one for each call, which is
    the prompt's only if the run goes to the end. -/
theorem healing_consistent_iff (history : List Message) (prompt : Message) :
    (NeverContradicts history prompt ∧
      ((history.flatMap Message.callIds).Nodup → OneResultEach history prompt)) ↔
    ∀ m rest, m :: rest <:+ history → ∀ id ∈ m.callIds,
      (id ∈ lateResults rest → id ∈ runResults m.callIds rest) ∧
      ((history.flatMap Message.callIds).Nodup →
        (lateResults rest).count id + prompt.resultIds.count id ≤ 1 ∧
        (id ∈ prompt.resultIds → ∀ x ∈ rest, x.inRun m.callIds = true)) := by
  rw [neverContradicts_iff]
  constructor
  · rintro ⟨hlate, hone⟩ m rest hturn id hid
    refine ⟨hlate m rest hturn id hid, fun hnodup => ?_⟩
    obtain ⟨hcount, -, hend⟩ := (oneResultEach_iff hnodup).1 (hone hnodup) m rest hturn id hid
    exact ⟨hcount, hend⟩
  · intro h
    refine ⟨fun m rest hturn id hid => (h m rest hturn id hid).1, fun hnodup => ?_⟩
    refine (oneResultEach_iff hnodup).2 fun m rest hturn id hid => ?_
    obtain ⟨hlate, hone⟩ := h m rest hturn id hid
    exact ⟨(hone hnodup).1, hlate, (hone hnodup).2⟩

end Healed

/-- A remark of the model stands between a call and its result. -/
def interrupted : List Message := [readCall, .assistant none [.other ['t']], .user [resultOf ['a']]]

/-- The result is kept, and its call is answered a second time. -/
theorem healing_answers_twice :
    (healLiveHistory interrupted (.user [.other ['p']])).1.flatMap Message.resultIds = [['a'], ['a']] ∧
      (healLiveHistory interrupted (.user [.other ['p']])).2 = [⟨.stubOrphanToolCall, ['a']⟩] ∧
      ¬NeverContradicts interrupted (.user [.other ['p']]) := by
  refine ⟨by decide +kernel, by decide +kernel, fun h => ?_⟩
  exact absurd (neverContradicts_iff.1 h readCall _ (List.suffix_refl _) ['a'] (by decide) (by decide)) (by decide)

end FlyCockpit.Engine
