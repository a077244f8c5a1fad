-- SUMMARY: Compaction: the handoff and the longest tail of complete exchanges that fits the budget.
import Mathlib.Algebra.Ring.Nat
import Mathlib.Order.Bounds.Defs
import FlyCockpit.Engine.Pairing

/-!
# Compaction

At a compaction boundary the history becomes a handoff and the most recent complete exchanges. An
exchange goes from one plain prompt to the next, so that calls and their results stay together; it is
complete if the assistant spoke in it. The oldest exchanges are given up until the rest fits a quarter
of the window, and then until the whole stays below the trigger. Tokens are an arbitrary function of
messages.
-/

namespace FlyCockpit.Engine

open List

/-! ## The plan -/

/-- A user message without a result opens an exchange. -/
def Message.opensExchange : Message → Bool
  | .user content => !(Message.user content).hasResult
  | .assistant .. | .system _ => false

/-- The messages of a range. -/
def slice (history : List Message) (range : Nat × Nat) : List Message :=
  (history.drop range.1).take (range.2 - range.1)

/-- Where exchanges open, in a history whose first message is at place `i`. -/
def exchangeStarts (history : List Message) (i : Nat) : List Nat :=
  (history.zipIdx i).filterMap fun (message, index) => if message.opensExchange then some index else none

def completeExchangeRanges (history : List Message) : List (Nat × Nat) :=
  let starts := exchangeStarts history 0
  (starts.zip (starts.drop 1 ++ [history.length])).filter fun range =>
    (slice history range).any Message.isAssistant

/-- The ranges of the last complete exchanges, as many as are to be kept. -/
def requestedRanges (history : List Message) (keepRecentTurns : Nat) : List (Nat × Nat) :=
  let all := completeExchangeRanges history
  let requested := min keepRecentTurns all.length
  all.drop (all.length - requested)

structure CompactBudgetError where
  handoffTokens : Nat
  triggerTokens : Nat

structure CompactHistoryPlan where
  history : List Message
  tailMessagePositions : List Nat
  turnsSummarized : Nat
  tailKept : Nat
  tailTrimmed : Nat
  tokensAfter : Nat

section

variable (messageTokens : Message → Nat)

def exchangeTokens (exchange : List Message) : Nat := (exchange.map messageTokens).sum

/-- The tokens of the retained ranges. -/
def retainedTokens (history : List Message) (retained : List (Nat × Nat)) : Nat :=
  (retained.map fun range => exchangeTokens messageTokens (slice history range)).sum

def belowTrigger (tokens window triggerPct : Nat) : Bool :=
  tokens * 100 < window * triggerPct

/-- Remove the oldest range as long as the rest exceeds a budget; there is no result if a range would
be removed from an empty list. -/
def trimWhile (exceeds : List (Nat × Nat) → Bool) :
    List (Nat × Nat) → Nat → Option (List (Nat × Nat) × Nat)
  | [], trimmed => if exceeds [] then none else some ([], trimmed)
  | range :: rest, trimmed =>
    if exceeds (range :: rest) then trimWhile exceeds rest (trimmed + 1) else some (range :: rest, trimmed)

def trimTail (history : List Message) (handoffTokens : Nat) (contextWindow : Option Nat)
    (triggerPct : Nat) (retained : List (Nat × Nat)) (trimmed : Nat) :
    Option (List (Nat × Nat) × Nat) :=
  match contextWindow with
  | none => some (retained, trimmed)
  | some window =>
    match trimWhile (fun retained => retainedTokens messageTokens history retained > window / 4)
        retained trimmed with
    | none => none
    | some (retained, trimmed) =>
      trimWhile (fun retained => !belowTrigger
        (handoffTokens + retainedTokens messageTokens history retained) window triggerPct) retained trimmed

def handoffMessage (handoff : Text) : Message := .user [.other handoff]

/-- The handoff alone reaches the trigger. -/
def handoffTooLarge (handoffTokens : Nat) (contextWindow : Option Nat) (triggerPct : Nat) : Bool :=
  contextWindow.any fun window => !belowTrigger handoffTokens window triggerPct

def planCompactedHistory (history : List Message) (handoff : Text) (keepRecentTurns : Nat)
    (contextWindow : Option Nat) (triggerPct : Nat) :
    Option (Except CompactBudgetError CompactHistoryPlan) :=
  let handoffTokens := messageTokens (handoffMessage handoff)
  if handoffTooLarge handoffTokens contextWindow triggerPct then
    some (.error ⟨handoffTokens, contextWindow.getD 0 * triggerPct / 100⟩)
  else
    let all := completeExchangeRanges history
    let retained := requestedRanges history keepRecentTurns
    let trimmed := min keepRecentTurns all.length - retained.length
    match trimTail messageTokens history handoffTokens contextWindow triggerPct retained trimmed with
    | none => none
    | some (retained, trimmed) =>
      let planned := handoffMessage handoff :: retained.flatMap (slice history)
      some (.ok
        { history := planned
          tailMessagePositions := retained.flatMap fun range => List.range' range.1 (range.2 - range.1)
          turnsSummarized := all.length - retained.length
          tailKept := retained.length
          tailTrimmed := trimmed
          tokensAfter := (planned.map messageTokens).sum })

end

/-! ## Exchanges -/

/-- The exchanges of a history, each from a plain prompt up to the next one. -/
def exchanges : List Message → List (List Message)
  | [] => []
  | message :: rest =>
    if message.opensExchange then
      (message :: rest.takeWhile fun m => !m.opensExchange) :: exchanges rest
    else exchanges rest

def completeExchanges (history : List Message) : List (List Message) :=
  (exchanges history).filter fun exchange => exchange.any Message.isAssistant

theorem exchangeStarts_cons (message : Message) (rest : List Message) (i : Nat) :
    exchangeStarts (message :: rest) i =
      (if message.opensExchange then [i] else []) ++ exchangeStarts rest (i + 1) := by
  rw [exchangeStarts, zipIdx_cons, filterMap_cons, exchangeStarts]
  cases hopen : message.opensExchange with
  | true => simp [hopen]
  | false => simp [hopen]

/-- The next exchange opens behind the messages that open none. -/
theorem head?_exchangeStarts (history : List Message) (i : Nat) :
    (exchangeStarts history i ++ [i + history.length]).head? =
      some (i + (history.takeWhile fun m => !m.opensExchange).length) := by
  induction history generalizing i with
  | nil => rfl
  | cons message rest ih =>
    rw [exchangeStarts_cons]
    cases hopen : message.opensExchange with
    | true => simp [hopen]
    | false =>
      rw [takeWhile_cons_of_pos (by simp [hopen]), length_cons, length_cons, if_neg (by simp),
        nil_append, Nat.add_comm rest.length, ← Nat.add_assoc, ih]
      congr 1
      omega

/-- From a place where an exchange opens to where the next one opens. -/
theorem slice_exchange (front rest : List Message) (message : Message) :
    slice (front ++ message :: rest)
        (front.length, front.length + 1 + (rest.takeWhile fun m => !m.opensExchange).length) =
      message :: rest.takeWhile fun m => !m.opensExchange := by
  have htake := prefix_iff_eq_take.1 <| takeWhile_prefix (fun m => !m.opensExchange) (l := rest)
  rw [slice, drop_left, Nat.add_assoc, Nat.add_sub_cancel_left, Nat.add_comm, take_succ_cons,
    ← htake]

/-- The ranges between the places where exchanges open are the exchanges. -/
theorem slices_eq_exchanges (front history : List Message) :
    ((exchangeStarts history front.length).zip
        ((exchangeStarts history front.length).drop 1 ++ [front.length + history.length])).map
      (slice (front ++ history)) = exchanges history := by
  induction history generalizing front with
  | nil => rfl
  | cons message rest ih =>
    have hnext := ih (front ++ [message])
    rw [length_append, length_singleton, append_assoc, singleton_append] at hnext
    have hend : front.length + (message :: rest).length = front.length + 1 + rest.length := by
      rw [length_cons]
      omega
    rw [exchangeStarts_cons, exchanges, hend]
    cases hopen : message.opensExchange with
    | false =>
      rw [if_neg (by simp), if_neg (by simp), nil_append]
      exact hnext
    | true =>
      rw [if_pos rfl, if_pos rfl, singleton_append, drop_succ_cons, drop_zero]
      have hhead := head?_exchangeStarts rest (front.length + 1)
      cases hstarts : exchangeStarts rest (front.length + 1) with
      | nil =>
        rw [hstarts] at hhead hnext
        obtain hlength := Option.some.inj hhead
        rw [← hnext, hlength]
        exact congrArg (· :: []) (slice_exchange front rest message)
      | cons next later =>
        rw [hstarts] at hhead hnext
        obtain rfl := Option.some.inj hhead
        rw [← hnext]
        exact congrArg (· :: _) (slice_exchange front rest message)

theorem slices_eq_completeExchanges (history : List Message) :
    (completeExchangeRanges history).map (slice history) = completeExchanges history := by
  have hslices := slices_eq_exchanges [] history
  rw [length_nil, nil_append, Nat.zero_add] at hslices
  rw [completeExchangeRanges, completeExchanges, ← hslices, filter_map]
  rfl

/-! ## Pairing -/

section Pairing

variable {a b history : List Message} {openCalls : List Text} {m : Message}
  {segments : List (List Message)}

/-- The history is empty or its first message opens an exchange. -/
def Opens (history : List Message) : Prop :=
  ∀ message, history.head? = some message → message.opensExchange = true

theorem hasResult_of_opensExchange (h : m.opensExchange = true) : m.hasResult = false := by
  cases m with
  | user content => simpa [Message.opensExchange] using h
  | assistant id content => cases h
  | system content => cases h

theorem openAfter_of_opensExchange (h : m.opensExchange = true) : openAfter openCalls m = [] := by
  cases m with
  | user content =>
    rw [openAfter, hasResult_of_opensExchange h]
    rfl
  | assistant id content => cases h
  | system content => cases h

theorem resultRun_append (hb : Opens b) : resultRun (a ++ b) = resultRun a := by
  have hnone : resultRun b = [] := by
    cases b with
    | nil => rfl
    | cons m b =>
      exact takeWhile_cons_of_neg (by simp [hasResult_of_opensExchange (hb m rfl)])
  rw [resultRun, takeWhile_append]
  split_ifs with hall
  · rw [← resultRun, hnone, append_nil, resultRun]
    exact ((takeWhile_sublist _).eq_of_length hall).symm
  · rfl

theorem checkCalls_append_iff (hb : Opens b) :
    checkCalls (a ++ b) = .ok () ↔ checkCalls a = .ok () ∧ checkCalls b = .ok () := by
  induction a with
  | nil => exact (and_iff_right rfl).symm
  | cons m a ih =>
    rw [cons_append, checkCalls_cons_eq_ok, checkCalls_cons_eq_ok, resultRun_append hb, ih, and_assoc]

/-- Where an exchange opens no call is open. -/
theorem checkResults_append_iff (hb : Opens b) : checkResults openCalls (a ++ b) = .ok () ↔
    checkResults openCalls a = .ok () ∧ checkResults [] b = .ok () := by
  induction a generalizing openCalls with
  | nil =>
    rw [nil_append, checkResults, and_iff_right rfl]
    cases b with
    | nil => rfl
    | cons m b =>
      have hm := hb m rfl
      rw [checkResults_cons_eq_ok, checkResults_cons_eq_ok, openAfter_of_opensExchange hm,
        openAfter_of_opensExchange hm, hasResult_eq_false_iff.1 (hasResult_of_opensExchange hm)]
      simp
  | cons m a ih => rw [cons_append, checkResults_cons_eq_ok, checkResults_cons_eq_ok, ih, and_assoc]

theorem validatePairing_append_iff (hb : Opens b) : validatePairing (a ++ b) = .ok () ↔
    validatePairing a = .ok () ∧ validatePairing b = .ok () := by
  simp only [validatePairing_eq_ok, checkCalls_append_iff hb, checkResults_append_iff hb]
  exact and_and_and_comm

/-- An exchange with an answer: it opens with a prompt, the assistant spoke, and its calls and results
are paired within it. -/
structure CompleteExchange (exchange : List Message) : Prop where
  opens : ∃ prompt rest, exchange = prompt :: rest ∧ prompt.opensExchange = true
  answered : exchange.any Message.isAssistant = true
  paired : validatePairing exchange = .ok ()

theorem opens_dropWhile (rest : List Message) : Opens (rest.dropWhile fun m => !m.opensExchange) := by
  intro message h
  have hnot := List.head?_dropWhile_not (fun m : Message => !m.opensExchange) rest
  rw [h] at hnot
  simpa using hnot

theorem paired_of_mem_exchanges (hcalls : checkCalls history = .ok ())
    (hresults : checkResults openCalls history = .ok ()) {exchange : List Message}
    (h : exchange ∈ exchanges history) :
    (∃ prompt rest, exchange = prompt :: rest ∧ prompt.opensExchange = true) ∧
      validatePairing exchange = .ok () := by
  induction history generalizing openCalls with
  | nil => cases h
  | cons message rest ih =>
    have hcalls' := (checkCalls_cons_eq_ok.1 hcalls).2
    have hresults' := (checkResults_cons_eq_ok.1 hresults).2
    rw [exchanges] at h
    split_ifs at h with hopen
    · obtain rfl | h := mem_cons.1 h
      · refine ⟨⟨message, _, rfl, hopen⟩, ?_⟩
        -- the rest of the history opens with the next exchange, so that it does not count
        rw [← @List.takeWhile_append_dropWhile _ (fun m => !m.opensExchange) rest,
          ← cons_append] at hcalls hresults
        obtain ⟨hcalls, -⟩ := (checkCalls_append_iff (opens_dropWhile rest)).1 hcalls
        obtain ⟨hresults, -⟩ := (checkResults_append_iff (opens_dropWhile rest)).1 hresults
        have hopens : Opens (message :: rest.takeWhile fun m => !m.opensExchange) := by
          rintro _ ⟨⟩
          exact hopen
        obtain ⟨-, hresults⟩ := (checkResults_append_iff (a := []) hopens).1 hresults
        exact validatePairing_eq_ok.2 ⟨hcalls, hresults⟩
      · exact ih hcalls' hresults' h
    · exact ih hcalls' hresults' h

theorem opens_flatten
    (h : ∀ exchange ∈ segments, ∃ prompt rest, exchange = prompt :: rest ∧ prompt.opensExchange = true) :
    Opens segments.flatten := by
  cases segments with
  | nil => rintro _ ⟨⟩
  | cons exchange segments =>
    obtain ⟨prompt, rest, rfl, hopen⟩ := h exchange mem_cons_self
    rintro _ ⟨⟩
    exact hopen

/-- A handoff in front of exchanges that are paired in themselves is accepted. -/
theorem validatePairing_handoff (handoff : Text)
    (h : ∀ exchange ∈ segments, CompleteExchange exchange) :
    validatePairing (handoffMessage handoff :: segments.flatten) = .ok () := by
  have hopens := fun segments (h : ∀ exchange ∈ segments, CompleteExchange exchange) =>
    opens_flatten fun exchange hmem => (h exchange hmem).opens
  have hsegments : validatePairing segments.flatten = .ok () := by
    induction segments with
    | nil => rfl
    | cons exchange segments ih =>
      obtain ⟨hexchange, hrest⟩ := forall_mem_cons.1 h
      exact (validatePairing_append_iff (hopens _ hrest)).2 ⟨hexchange.paired, ih hrest⟩
  exact (validatePairing_append_iff (a := [handoffMessage handoff]) (hopens _ h)).2 ⟨rfl, hsegments⟩

end Pairing

theorem complete_of_mem_completeExchanges {history exchange : List Message}
    (hpairing : validatePairing history = .ok ()) (h : exchange ∈ completeExchanges history) :
    CompleteExchange exchange := by
  obtain ⟨hcalls, hresults⟩ := validatePairing_eq_ok.1 hpairing
  obtain ⟨hmem, hanswered⟩ := mem_filter.1 h
  obtain ⟨hopens, hpaired⟩ := paired_of_mem_exchanges hcalls hresults hmem
  exact ⟨hopens, hanswered, hpaired⟩

/-! ## The tail -/

section Tail

/-- A tail of exchanges that fits a quarter of the window and, with the handoff, stays below the
trigger. -/
def Fits (messageTokens : Message → Nat) (handoffTokens : Nat) (contextWindow : Option Nat)
    (triggerPct : Nat) (tail : List (List Message)) : Prop :=
  let tailTokens := (tail.map (exchangeTokens messageTokens)).sum
  ∀ window, contextWindow = some window →
    tailTokens ≤ window / 4 ∧ belowTrigger (handoffTokens + tailTokens) window triggerPct = true

variable {messageTokens : Message → Nat} {history : List Message} {handoffTokens triggerPct : Nat}
  {contextWindow : Option Nat} {ranges : List (Nat × Nat)}

/-- The longest rest that does not exceed the budget is kept. -/
theorem trimWhile_spec (exceeds : List (Nat × Nat) → Bool) (hnil : exceeds [] = false)
    (ranges : List (Nat × Nat)) (trimmed : Nat) :
    ∃ kept trimmed', trimWhile exceeds ranges trimmed = some (kept, trimmed') ∧ kept <:+ ranges ∧
      exceeds kept = false ∧
      ∀ rest, rest <:+ ranges → exceeds rest = false → rest.length ≤ kept.length := by
  induction ranges generalizing trimmed with
  | nil =>
    refine ⟨[], trimmed, ?_, suffix_refl _, hnil, fun rest hrest _ => hrest.length_le⟩
    rw [trimWhile, hnil]
    rfl
  | cons range ranges ih =>
    rw [trimWhile]
    cases hexceeds : exceeds (range :: ranges) with
    | false => exact ⟨_, _, rfl, suffix_refl _, hexceeds, fun rest hrest _ => hrest.length_le⟩
    | true =>
      obtain ⟨kept, trimmed', heq, hkept, hfits, hlongest⟩ := ih (trimmed + 1)
      refine ⟨kept, trimmed', heq, hkept.trans (suffix_cons _ _), hfits, fun rest hrest hfits => ?_⟩
      obtain rfl | hrest := suffix_cons_iff.1 hrest
      · cases hexceeds.symm.trans hfits
      · exact hlongest rest hrest hfits

theorem retainedTokens_suffix {kept : List (Nat × Nat)} (h : kept <:+ ranges) :
    retainedTokens messageTokens history kept ≤ retainedTokens messageTokens history ranges := by
  obtain ⟨front, rfl⟩ := h
  rw [retainedTokens, retainedTokens, map_append, sum_append]
  exact Nat.le_add_left _ _

theorem fits_some_iff {window : Nat} :
    Fits messageTokens handoffTokens (some window) triggerPct (ranges.map (slice history)) ↔
      retainedTokens messageTokens history ranges ≤ window / 4 ∧
        belowTrigger (handoffTokens + retainedTokens messageTokens history ranges) window triggerPct = true := by
  have htokens : ((ranges.map (slice history)).map (exchangeTokens messageTokens)).sum =
      retainedTokens messageTokens history ranges := by
    rw [map_map]
    rfl
  simp only [Fits, htokens, Option.some.injEq, forall_eq']

variable (messageTokens history) in
/-- The two loops together keep the longest rest that fits, since the second starts from a rest at
least as long as that one. -/
theorem trimTail_spec (hhandoff : handoffTooLarge handoffTokens contextWindow triggerPct = false)
    (ranges : List (Nat × Nat)) (trimmed : Nat) :
    ∃ kept trimmed', trimTail messageTokens history handoffTokens contextWindow triggerPct ranges trimmed =
        some (kept, trimmed') ∧ kept <:+ ranges ∧
      Fits messageTokens handoffTokens contextWindow triggerPct (kept.map (slice history)) ∧
      ∀ rest, rest <:+ ranges →
        Fits messageTokens handoffTokens contextWindow triggerPct (rest.map (slice history)) →
          rest.length ≤ kept.length := by
  cases contextWindow with
  | none =>
    refine ⟨ranges, trimmed, rfl, suffix_refl _, ?_, fun rest hrest _ => hrest.length_le⟩
    rintro _ ⟨⟩
  | some window =>
    have hbelow : belowTrigger handoffTokens window triggerPct = true := by
      simpa [handoffTooLarge] using hhandoff
    obtain ⟨capped, trimmed₁, heq₁, hcapped, hcap, hlongest₁⟩ := trimWhile_spec
      (fun retained => retainedTokens messageTokens history retained > window / 4)
      (by simp [retainedTokens]) ranges trimmed
    obtain ⟨kept, trimmed₂, heq₂, hkept, hunder, hlongest₂⟩ := trimWhile_spec
      (fun retained => !belowTrigger
        (handoffTokens + retainedTokens messageTokens history retained) window triggerPct)
      (by simp [retainedTokens, hbelow]) capped trimmed₁
    simp only [gt_iff_lt, decide_eq_false_iff_not, Nat.not_lt] at hcap hlongest₁
    simp only [Bool.not_eq_false'] at hunder hlongest₂
    refine ⟨kept, trimmed₂, ?_, hkept.trans hcapped, ?_, fun rest hrest hfits => ?_⟩
    · simp only [trimTail, gt_iff_lt, heq₁, heq₂]
    · exact fits_some_iff.2 ⟨(retainedTokens_suffix hkept).trans hcap, hunder⟩
    · obtain ⟨hsmall, hrestUnder⟩ := fits_some_iff.1 hfits
      have hle := hlongest₁ rest hrest hsmall
      exact hlongest₂ rest (suffix_of_suffix_length_le hrest hcapped hle) hrestUnder

end Tail

/-! ## The planned history -/

section Plan

variable (messageTokens : Message → Nat) (history : List Message) (handoff : Text)
  (keepRecentTurns : Nat) (contextWindow : Option Nat) (triggerPct : Nat)

/-- The numbers of most recent complete exchanges that may be kept. -/
def tailSizes : Set Nat :=
  let all := completeExchanges history
  {k | k ≤ keepRecentTurns ∧ k ≤ all.length ∧
    Fits messageTokens (messageTokens (handoffMessage handoff)) contextWindow triggerPct
      (all.drop (all.length - k))}

/-- A planned history: a handoff and a tail of the complete exchanges, as many as may be kept. -/
structure IsPlan (plan : CompactHistoryPlan) (tail : List (List Message)) : Prop where
  recent : tail <:+ completeExchanges history
  history_eq : plan.history = handoffMessage handoff :: tail.flatten
  paired : validatePairing plan.history = .ok ()
  complete : ∀ exchange ∈ tail, CompleteExchange exchange
  tailKept_eq : plan.tailKept = tail.length
  maximal : IsGreatest
    (tailSizes messageTokens history handoff keepRecentTurns contextWindow triggerPct) tail.length

variable {messageTokens history handoff keepRecentTurns contextWindow triggerPct}
  {kept : List (Nat × Nat)}

theorem length_completeExchangeRanges :
    (completeExchangeRanges history).length = (completeExchanges history).length := by
  rw [← slices_eq_completeExchanges, length_map]

theorem drop_map_slice (k : Nat) :
    ((completeExchangeRanges history).drop ((completeExchangeRanges history).length - k)).map
        (slice history) =
      (completeExchanges history).drop ((completeExchanges history).length - k) := by
  rw [map_drop, slices_eq_completeExchanges, length_completeExchangeRanges]

theorem length_drop_recent {k : Nat} (h : k ≤ (completeExchangeRanges history).length) :
    ((completeExchangeRanges history).drop ((completeExchangeRanges history).length - k)).length = k := by
  rw [length_drop]
  omega

/-- The rests of the requested ranges are the most recent ranges, in any number up to the requested. -/
theorem suffix_requestedRanges_iff {rest : List (Nat × Nat)} :
    rest <:+ requestedRanges history keepRecentTurns ↔
      ∃ k, k ≤ keepRecentTurns ∧ k ≤ (completeExchangeRanges history).length ∧
        rest = (completeExchangeRanges history).drop ((completeExchangeRanges history).length - k) := by
  rw [requestedRanges]
  constructor
  · intro h
    have hlength := h.length_le
    rw [length_drop] at hlength
    refine ⟨rest.length, by omega, by omega, ?_⟩
    exact suffix_iff_eq_drop.1 (h.trans (drop_suffix _ _))
  · rintro ⟨k, hkeep, hk, rfl⟩
    refine suffix_of_suffix_length_le (drop_suffix _ _) (drop_suffix _ _) ?_
    rw [length_drop, length_drop]
    omega

/-- What the two loops leave is as much as may be kept. -/
theorem isGreatest_tailSizes (hkept : kept <:+ requestedRanges history keepRecentTurns)
    (hfits : Fits messageTokens (messageTokens (handoffMessage handoff)) contextWindow triggerPct
      (kept.map (slice history)))
    (hlongest : ∀ rest, rest <:+ requestedRanges history keepRecentTurns →
      Fits messageTokens (messageTokens (handoffMessage handoff)) contextWindow triggerPct
        (rest.map (slice history)) → rest.length ≤ kept.length) :
    IsGreatest (tailSizes messageTokens history handoff keepRecentTurns contextWindow triggerPct)
      kept.length := by
  obtain ⟨k, hkeep, hk, rfl⟩ := suffix_requestedRanges_iff.1 hkept
  rw [length_drop_recent hk] at hlongest ⊢
  rw [drop_map_slice] at hfits
  refine ⟨⟨hkeep, length_completeExchangeRanges ▸ hk, hfits⟩, ?_⟩
  rintro j ⟨hjkeep, hj, hjfits⟩
  rw [← length_completeExchangeRanges] at hj
  rw [← drop_map_slice] at hjfits
  have hle := hlongest _ (suffix_requestedRanges_iff.2 ⟨j, hjkeep, hj, rfl⟩) hjfits
  rwa [length_drop_recent hj] at hle

/-- A handoff that stays below the trigger gets a plan, with the ranges the two loops leave. -/
theorem planCompactedHistory_eq
    (hhandoff : handoffTooLarge (messageTokens (handoffMessage handoff)) contextWindow triggerPct = false)
    {trimmed : Nat}
    (heq : trimTail messageTokens history (messageTokens (handoffMessage handoff)) contextWindow triggerPct
      (requestedRanges history keepRecentTurns)
      (min keepRecentTurns (completeExchangeRanges history).length -
        (requestedRanges history keepRecentTurns).length) = some (kept, trimmed)) :
    ∃ plan,
      planCompactedHistory messageTokens history handoff keepRecentTurns contextWindow triggerPct =
        some (.ok plan) ∧
      plan.history = handoffMessage handoff :: (kept.map (slice history)).flatten ∧
      plan.tailKept = kept.length := by
  simp only [planCompactedHistory, hhandoff, Bool.false_eq_true, if_false, heq]
  exact ⟨_, rfl, congrArg _ (flatMap_def ..), rfl⟩

/-- A plan is made whenever the handoff alone stays below the trigger, and it keeps what it may. -/
theorem exists_isPlan (hpairing : validatePairing history = .ok ())
    (hhandoff : handoffTooLarge (messageTokens (handoffMessage handoff)) contextWindow triggerPct = false) :
    ∃ plan tail,
      planCompactedHistory messageTokens history handoff keepRecentTurns contextWindow triggerPct =
        some (.ok plan) ∧
      IsPlan messageTokens history handoff keepRecentTurns contextWindow triggerPct plan tail := by
  obtain ⟨kept, trimmed, heq, hkept, hfits, hlongest⟩ :=
    trimTail_spec messageTokens history hhandoff (requestedRanges history keepRecentTurns) _
  obtain ⟨plan, hplan, hhistory, htailKept⟩ := planCompactedHistory_eq hhandoff heq
  have hrecent : kept.map (slice history) <:+ completeExchanges history := by
    rw [← slices_eq_completeExchanges]
    exact (hkept.trans (drop_suffix _ _)).map _
  have hcomplete : ∀ exchange ∈ kept.map (slice history), CompleteExchange exchange := fun exchange h =>
    complete_of_mem_completeExchanges hpairing (hrecent.subset h)
  refine ⟨plan, kept.map (slice history), hplan, hrecent, hhistory, ?_, hcomplete, ?_, ?_⟩
  · rw [hhistory]
    exact validatePairing_handoff handoff hcomplete
  · rw [htailKept, length_map]
  · rw [length_map]
    exact isGreatest_tailSizes hkept hfits hlongest

/-- Compaction never removes from an empty list, and the history it plans is a handoff in front of the
largest tail of complete exchanges that fits. -/
theorem compaction_keeps_maximal_tail (hpairing : validatePairing history = .ok ()) :
    planCompactedHistory messageTokens history handoff keepRecentTurns contextWindow triggerPct ≠ none ∧
      ∀ plan,
        planCompactedHistory messageTokens history handoff keepRecentTurns contextWindow triggerPct =
          some (.ok plan) →
        ∃ tail, IsPlan messageTokens history handoff keepRecentTurns contextWindow triggerPct plan tail := by
  cases hhandoff : handoffTooLarge (messageTokens (handoffMessage handoff)) contextWindow triggerPct with
  | true =>
    -- the handoff alone is refused
    rw [planCompactedHistory]
    simp only [hhandoff, if_true]
    exact ⟨Option.some_ne_none _, fun plan h => by cases h⟩
  | false =>
    obtain ⟨plan, tail, heq, hplan⟩ := exists_isPlan hpairing hhandoff
    rw [heq]
    refine ⟨Option.some_ne_none _, fun plan' h => ?_⟩
    cases h
    exact ⟨tail, hplan⟩

/-- Two exchanges at ten tokens a message, the second with a call and its result, and room for
forty-five tokens of tail: the older exchange is given up. -/
def twoExchanges : List Message :=
  [.user [.other "a".toList], .assistant none [.other "b".toList],
    .user [.other "c".toList], .assistant none [.toolCall ⟨"1".toList, none, "read".toList, .null⟩],
    .user [.toolResult ⟨"1".toList, none, "read".toList, [.text "r".toList]⟩],
    .assistant none [.other "d".toList]]

theorem compaction_of_twoExchanges :
    ∃ plan, planCompactedHistory (fun _ => 10) twoExchanges "h".toList 5 (some 180) 90 = some (.ok plan) ∧
      plan.tailKept = 1 ∧
      ∃ tail, IsPlan (fun _ => 10) twoExchanges "h".toList 5 (some 180) 90 plan tail :=
  ⟨_, rfl, rfl, (compaction_keeps_maximal_tail rfl).2 _ rfl⟩

end Plan

end FlyCockpit.Engine
