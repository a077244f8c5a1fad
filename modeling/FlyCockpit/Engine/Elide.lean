-- SUMMARY: Arguments of applied write and edit calls become markers, the same live as on resume.
import FlyCockpit.Engine.Prune

/-!
# Applied arguments

Once a write or edit has succeeded and a newer assistant turn exists, the large arguments of its call
become markers in the history sent to the model. The pass runs again and again while the history
grows, and once over the whole of it when a session is resumed. Both give the same history, since a
marker is left alone and a call that may be rewritten stays so. How many tokens a text has is a
parameter.
-/

namespace FlyCockpit.Engine

open Message List

/-! ## Markers -/

/-- The decimal digits, in groups of three. -/
def formatByteCount (n : Nat) : Text :=
  let digits := Nat.toDigits 10 n
  digits.zipIdx.flatMap fun (ch, i) =>
    if i > 0 ∧ (digits.length - i) % 3 = 0 then [',', ch] else [ch]

def appliedFront : Text := "[applied: ".toList

def appliedBack : Text := " bytes — re-read file for current content]".toList

def appliedMarker (byteLen : Nat) : Text := appliedFront ++ (formatByteCount byteLen ++ appliedBack)

/-- The number of values of a `usize`. -/
def usizeRange : Nat := 18446744073709551616

/-- `str::parse::<usize>`, which allows a plus sign. -/
def parseUsize (raw : Text) : Option Nat :=
  let digits := if raw.head? = some '+' then raw.tail else raw
  if digits ≠ [] ∧ digits.all Char.isDigit then
    let value := Nat.ofDigitChars 10 digits 0
    if value < usizeRange then some value else none
  else none

def isAppliedMarker (value : Text) : Bool :=
  match (appliedFront.isPrefixOf? value).bind fun rest => appliedBack.isSuffixOf? rest with
  | none => false
  | some count =>
    match parseUsize (Text.replaceChar ',' [] count) with
    | none => false
    | some byteLen => appliedMarker byteLen = value

/-- The length of a text, as a `usize`. -/
def byteLength (value : Text) : Nat := value.utf8Length % usizeRange

/-! ## Applied results -/

/-- What stands behind the first occurrence of a text. -/
def behindFirst (pattern t : Text) : Option Text :=
  t.tails.findSome? fun rest => pattern.isPrefixOf? rest

theorem length_of_isPrefixOf? {pattern t rest : Text} (h : pattern.isPrefixOf? t = some rest) :
    t.length = pattern.length + rest.length := by
  rw [← List.isPrefixOf?_eq_some_iff_append_eq.1 h, length_append]

theorem length_behindFirst_le {pattern t rest : Text} (h : behindFirst pattern t = some rest) :
    rest.length ≤ t.length := by
  obtain ⟨tail, htail, hrest⟩ := exists_of_findSome?_eq_some h
  have hlength := length_of_isPrefixOf? hrest
  have hle := ((mem_tails _ _).1 htail).length_le
  omega

/-- What stands behind a repair note and the end of its line. -/
def behindRepairNote (body : Text) : Option Text := do
  let rest ← "<repair_note>".toList.isPrefixOf? body
  let after ← behindFirst "</repair_note>".toList rest
  return (['\n'].isPrefixOf? after).getD after

theorem length_behindRepairNote_lt {body after : Text} (h : behindRepairNote body = some after) :
    after.length < body.length := by
  obtain ⟨rest, hopen, h⟩ := Option.bind_eq_some_iff.1 h
  obtain ⟨line, hclose, h⟩ := Option.bind_eq_some_iff.1 h
  have hbody := length_of_isPrefixOf? hopen
  have hline := length_behindFirst_le hclose
  have hpos : 0 < "<repair_note>".toList.length := by decide
  have hafter : after.length ≤ line.length := by
    cases hend : ['\n'].isPrefixOf? line with
    | none =>
      simp only [hend, Option.getD_none] at h
      cases h
      exact Nat.le_refl _
    | some after' =>
      simp only [hend, Option.getD_some] at h
      cases h
      exact length_of_isPrefixOf? hend ▸ Nat.le_add_left _ _
  omega

def stripRepairNotes (body : Text) : Text :=
  match _ : behindRepairNote body with
  | none => body
  | some after => stripRepairNotes after
termination_by body.length
decreasing_by exact length_behindRepairNote_lt (by assumption)

def isWriteOrEdit (tool : Text) : Bool := tool = "write".toList || tool = "edit".toList

def resultIndicatesApplied (tool body : Text) : Bool :=
  let body := stripRepairNotes body
  if "Error:".toList.isPrefixOf body then false
  else if tool = "write".toList then "wrote `".toList.isPrefixOf body
  else if tool = "edit".toList then "edited `".toList.isPrefixOf body
  else false

/-- The result says that a write or edit was applied. -/
def ToolResult.applied (r : ToolResult) : Bool :=
  isWriteOrEdit r.name && resultIndicatesApplied r.name r.body

/-- The ids of applied calls with their tool, the last one in front. -/
def successfulWriteEditCalls (history : List Message) (upcomingResult : Option Message) :
    List (Text × Text) :=
  let results := (history ++ upcomingResult.toList).flatMap results
  ((results.filter ToolResult.applied).map fun r => (r.call, r.name)).reverse

/-! ## The pass -/

def minTokensSaved : Nat := 96

section Pass

variable (tokens : Text → Nat)

/-- The marker that replaces an argument, if any does. -/
def argumentMarker (key : Text) (value : Json) : Option Text :=
  match value with
  | .string original =>
    let replacement := appliedMarker (byteLength original)
    if key = "path".toList || isAppliedMarker original || original = replacement ||
      tokens original - tokens replacement < minTokensSaved then none
    else some replacement
  | _ => none

/-- The arguments with their large texts replaced, and how many there were. The keys of an object are
distinct. -/
def stubLargeStringFields (args : Json) : Json × Nat :=
  match args with
  | .object entries =>
    (.object (entries.map fun e => (e.1, ((argumentMarker tokens e.1 e.2).map Json.string).getD e.2)),
      entries.countP fun e => (argumentMarker tokens e.1 e.2).isSome)
  | args => (args, 0)

def elideToolCall (call : ToolCall) (appliedTool : Text) : ToolCall × Nat :=
  if isWriteOrEdit appliedTool then
    let (arguments, changed) := stubLargeStringFields tokens call.arguments
    ({ call with arguments }, if changed > 0 then 1 else 0)
  else (call, 0)

def elideContent (successful : List (Text × Text)) (retainFullArgs : List Text) :
    AssistantContent → AssistantContent × Nat
  | .toolCall call =>
    if retainFullArgs.contains call.id then (.toolCall call, 0)
    else
      match successful.lookup call.id with
      | none => (.toolCall call, 0)
      | some appliedTool =>
        let (call, changed) := elideToolCall tokens call appliedTool
        (.toolCall call, changed)
  | .other body => (.other body, 0)

def elideMessage (successful : List (Text × Text)) (retainFullArgs : List Text) :
    Message → Message × Nat
  | .assistant id content =>
    let parts := content.map (elideContent tokens successful retainFullArgs)
    (.assistant id (parts.map Prod.fst), (parts.map Prod.snd).sum)
  | message => (message, 0)

/-- The place of the last assistant turn. -/
def lastAssistant : List Message → Option Nat
  | [] => none
  | message :: rest =>
    match lastAssistant rest with
    | some i => some (i + 1)
    | none => if message.isAssistant then some 0 else none

def elideAppliedWriteEditArgsExcept (history : List Message) (upcomingResult : Option Message)
    (retainFullArgs : List Text) : List Message × Nat :=
  let successful := successfulWriteEditCalls history upcomingResult
  if successful.isEmpty then (history, 0)
  else
    let rewritten := history.mapIdx fun i message =>
      if lastAssistant history = some i then (message, 0)
      else elideMessage tokens successful retainFullArgs message
    (rewritten.map Prod.fst, (rewritten.map Prod.snd).sum)

def elideAppliedWriteEditArgs (history : List Message) : List Message × Nat :=
  elideAppliedWriteEditArgsExcept tokens history none []

end Pass

/-! ## Markers are left alone -/

variable {n : Nat}

theorem isDigit_of_mem {c : Char} (h : c ∈ Nat.toDigits 10 n) : c.isDigit = true :=
  Nat.isDigit_of_mem_toDigits (by decide) (by decide) h

theorem replaceChar_formatByteCount (n : Nat) :
    Text.replaceChar ',' [] (formatByteCount n) = Nat.toDigits 10 n := by
  have hdigits : ∀ e ∈ (Nat.toDigits 10 n).zipIdx,
      (if e.2 > 0 ∧ ((Nat.toDigits 10 n).length - e.2) % 3 = 0 then [',', e.1] else [e.1]).flatMap
        (fun x => if x = ',' then [] else [x]) = [e.1] := by
    intro e he
    have hne : e.1 ≠ ',' := by
      intro heq
      have hdigit := isDigit_of_mem (fst_mem_of_mem_zipIdx he)
      rw [heq] at hdigit
      cases hdigit
    split_ifs <;> simp [hne]
  rw [Text.replaceChar, formatByteCount, flatMap_assoc, flatMap_congr hdigits,
    ← map_eq_flatMap, zipIdx_map_fst]

theorem parseUsize_toDigits (h : n < usizeRange) : parseUsize (Nat.toDigits 10 n) = some n := by
  have hplus : (Nat.toDigits 10 n).head? ≠ some '+' := by
    intro hhead
    have hdigit := isDigit_of_mem (mem_of_head? hhead)
    cases hdigit
  have hall : (Nat.toDigits 10 n).all Char.isDigit = true := all_eq_true.2 fun c hc => isDigit_of_mem hc
  rw [parseUsize, if_neg hplus, if_pos ⟨Nat.toDigits_ne_nil, hall⟩, Nat.ofDigitChars_ten_toDigits, if_pos h]

theorem isAppliedMarker_appliedMarker (h : n < usizeRange) :
    isAppliedMarker (appliedMarker n) = true := by
  have hstrip : (appliedFront.isPrefixOf? (appliedMarker n)).bind (fun rest => appliedBack.isSuffixOf? rest) =
      some (formatByteCount n) := by
    rw [appliedMarker, List.isPrefixOf?_eq_some_iff_append_eq.2 rfl, Option.bind_some,
      List.isSuffixOf?_eq_some_iff_append_eq.2 rfl]
  simp only [isAppliedMarker, hstrip, replaceChar_formatByteCount, parseUsize_toDigits h, decide_true]

/-! ## The pass as a projection -/

section Projection

variable (tokens : Text → Nat)

def stubCall (call : ToolCall) : ToolCall :=
  { call with arguments := (stubLargeStringFields tokens call.arguments).1 }

def stubPart (may : Text → Bool) : AssistantContent → AssistantContent
  | .toolCall call => .toolCall (if may call.id then stubCall tokens call else call)
  | .other body => .other body

def stubMessage (may : Text → Bool) : Message → Message
  | .assistant id content => .assistant id (content.map (stubPart tokens may))
  | message => message

/-- The history with the large arguments replaced in the calls that may be rewritten, given by the place
of the turn and the id of the call. -/
def project (may : Nat → Text → Bool) (history : List Message) : List Message :=
  history.mapIdx fun i message => stubMessage tokens (may i) message

/-- A call was applied. -/
def applied (history : List Message) (id : Text) : Bool :=
  (history.flatMap results).any fun r => r.applied && r.call = id

/-- A call of the turn at a place was applied, and a later assistant turn exists. -/
def settled (history : List Message) (i : Nat) (id : Text) : Bool :=
  (history.drop (i + 1)).any isAssistant && applied history id

variable {tokens} {history : List Message} {may may' : Nat → Text → Bool} {i : Nat} {id : Text}

theorem stubMessage_of_none {may : Text → Bool} (h : ∀ id, may id = false) (message : Message) :
    stubMessage tokens may message = message := by
  have hpart : ∀ part, stubPart tokens may part = part := by
    rintro (call | body)
    · rw [stubPart, h, if_neg Bool.false_ne_true]
    · rfl
  cases message with
  | user | system => rfl
  | assistant id content => rw [stubMessage, map_congr_left fun part _ => hpart part, map_id']

theorem argumentMarker_of_marked {key marker : Text} {value : Json}
    (h : argumentMarker tokens key value = some marker) :
    argumentMarker tokens key (.string marker) = none := by
  cases value with
  | string original =>
    rw [argumentMarker] at h
    split_ifs at h
    cases h
    have hmarker := isAppliedMarker_appliedMarker (Nat.mod_lt original.utf8Length (by decide : 0 < usizeRange))
    rw [argumentMarker, byteLength, hmarker, Bool.or_true, Bool.true_or, Bool.true_or]
    rfl
  | null | bool | number | array | object => cases h

theorem stubCall_stubCall (call : ToolCall) : stubCall tokens (stubCall tokens call) = stubCall tokens call := by
  cases hargs : call.arguments with
  | object entries =>
    simp only [stubCall, hargs, stubLargeStringFields, map_map]
    congr 2
    refine map_congr_left fun e _ => ?_
    cases hmarker : argumentMarker tokens e.1 e.2 with
    | none => simp [hmarker]
    | some marker => simp [hmarker, argumentMarker_of_marked hmarker]
  | null | bool | number | string | array => simp only [stubCall, hargs, stubLargeStringFields]

/-- A projection is absorbed by a later one that may rewrite more. -/
theorem project_project (h : ∀ i id, may i id = true → may' i id = true) :
    project tokens may' (project tokens may history) = project tokens may' history := by
  have hpart : ∀ i part, stubPart tokens (may' i) (stubPart tokens (may i) part) = stubPart tokens (may' i) part := by
    rintro i (call | body)
    · cases hmay : may i call.id with
      | false => simp [stubPart, hmay]
      | true =>
        have hid : (stubCall tokens call).id = call.id := rfl
        simp [stubPart, hmay, hid, h i _ hmay, stubCall_stubCall]
    · rfl
  rw [project, project, mapIdx_mapIdx, project]
  congr 1
  funext i message
  cases message with
  | user | system => rfl
  | assistant id content =>
    simp only [Function.comp_apply, stubMessage, map_map]
    congr 1
    exact map_congr_left fun part _ => hpart i part

theorem project_append (h : ∀ i id, may i id = true → i < history.length) (rest : List Message) :
    project tokens may history ++ rest = project tokens may (history ++ rest) := by
  have hrest : (fun i => stubMessage tokens (may (i + history.length))) = fun _ => id := by
    funext i message
    refine stubMessage_of_none (fun id => Bool.eq_false_iff.2 fun hmay => ?_) message
    have := h _ _ hmay
    omega
  rw [project, project, mapIdx_append, hrest]
  simp [mapIdx_eq_zipIdx_map]

/-- What the pass looks at is not rewritten. -/
theorem map_project {β : Type} {g : Message → β}
    (hg : ∀ may message, g (stubMessage tokens may message) = g message) :
    (project tokens may history).map g = history.map g := by
  refine ext_getElem? fun i => ?_
  rw [List.getElem?_map, List.getElem?_map, project, List.getElem?_mapIdx, Option.map_map]
  simp only [Function.comp_def, hg]

theorem settled_project (history : List Message) (may : Nat → Text → Bool) :
    settled (project tokens may history) = settled history := by
  have hassistant : (project tokens may history).map isAssistant = history.map isAssistant :=
    map_project fun may message => by cases message <;> rfl
  have hresults : (project tokens may history).map results = history.map results :=
    map_project fun may message => by cases message <;> rfl
  funext i id
  rw [settled, settled, applied, applied, flatMap_def, flatMap_def, hresults, ← Function.id_comp isAssistant, ← any_map, ← any_map,
    map_drop, map_drop, hassistant]

theorem settled_append (h : settled history i id = true) (rest : List Message) :
    settled (history ++ rest) i id = true := by
  rw [settled, Bool.and_eq_true] at h ⊢
  rw [applied, flatMap_append, any_append, drop_append, any_append, h.1, Bool.true_or]
  rw [applied] at h
  exact ⟨rfl, by rw [h.2, Bool.true_or]⟩

theorem lt_of_settled (h : settled history i id = true) : i < history.length := by
  by_contra hle
  rw [settled, drop_eq_nil_of_le (by omega)] at h
  cases h

theorem lastAssistant_eq_none_iff (history : List Message) :
    lastAssistant history = none ↔ history.any isAssistant = false := by
  induction history with
  | nil => exact iff_of_true rfl rfl
  | cons message rest ih =>
    rw [lastAssistant, any_cons]
    cases hlast : lastAssistant rest with
    | none => simp [ih.1 hlast]
    | some j =>
      have hrest : rest.any isAssistant = true := by
        rw [← Bool.not_eq_false, ← ih, hlast]
        exact Option.some_ne_none j
      simp [hrest]

/-- An assistant turn is the last one if none stands behind it. -/
theorem lastAssistant_eq_some_iff {message : Message} (h : history[i]? = some message)
    (hassistant : message.isAssistant = true) :
    lastAssistant history = some i ↔ (history.drop (i + 1)).any isAssistant = false := by
  induction history generalizing i with
  | nil => cases h
  | cons first rest ih =>
    rw [lastAssistant, drop_succ_cons]
    cases i with
    | zero =>
      cases h
      rw [drop_zero, ← lastAssistant_eq_none_iff]
      cases lastAssistant rest with
      | none => simp [hassistant]
      | some j => simp
    | succ i =>
      rw [← ih h]
      cases lastAssistant rest with
      | none => simp
      | some j => simp

theorem mem_successful {tool : Text} : (id, tool) ∈ successfulWriteEditCalls history none ↔
    ∃ r ∈ history.flatMap results, r.applied = true ∧ r.call = id ∧ r.name = tool := by
  simp [successfulWriteEditCalls, and_assoc]

/-- The calls that are looked up with a tool are the applied ones, and the tool is write or edit. -/
theorem lookup_successful (history : List Message) (id : Text) :
    (∃ tool, (successfulWriteEditCalls history none).lookup id = some tool ∧ isWriteOrEdit tool = true ∧
      applied history id = true) ∨
    (successfulWriteEditCalls history none).lookup id = none ∧ applied history id = false := by
  cases hlookup : (successfulWriteEditCalls history none).lookup id with
  | some tool =>
    obtain ⟨front, back, heq, -⟩ := lookup_eq_some_iff.1 hlookup
    obtain ⟨r, hr, happlied, rfl, rfl⟩ := mem_successful.1 (heq ▸ mem_append_right front mem_cons_self)
    refine .inl ⟨r.name, rfl, (Bool.and_eq_true_iff.1 happlied).1, ?_⟩
    exact any_eq_true.2 ⟨r, hr, by simp [happlied]⟩
  | none =>
    refine .inr ⟨rfl, any_eq_false.2 fun r hr happlied => ?_⟩
    obtain ⟨happlied, hid⟩ := Bool.and_eq_true_iff.1 happlied
    have hmem := mem_successful.2 ⟨r, hr, happlied, of_decide_eq_true hid, rfl⟩
    have hne := lookup_eq_none_iff.1 hlookup _ hmem
    simp at hne

theorem fst_elideMessage (history : List Message) (message : Message) :
    (elideMessage tokens (successfulWriteEditCalls history none) [] message).1 =
      stubMessage tokens (applied history) message := by
  cases message with
  | user | system => rfl
  | assistant id content =>
    simp only [elideMessage, stubMessage, map_map, assistant.injEq, true_and]
    refine map_congr_left fun part _ => ?_
    cases part with
    | other => rfl
    | toolCall call =>
      obtain ⟨tool, hlookup, htool, happlied⟩ | ⟨hlookup, happlied⟩ := lookup_successful history call.id
      · simp [elideContent, stubPart, hlookup, happlied, elideToolCall, htool, stubCall]
      · simp [elideContent, stubPart, hlookup, happlied]

/-- Leaving the last assistant turn alone is asking for a later one. -/
theorem stubMessage_settled {message : Message} (h : history[i]? = some message) :
    stubMessage tokens (settled history i) message =
      if lastAssistant history = some i then message else stubMessage tokens (applied history) message := by
  cases message with
  | user | system => exact (ite_self _).symm
  | assistant id content =>
    have hlast := lastAssistant_eq_some_iff h rfl
    cases hlater : (history.drop (i + 1)).any isAssistant with
    | false =>
      rw [if_pos (hlast.2 hlater)]
      exact stubMessage_of_none (fun id => by rw [settled, hlater, Bool.false_and]) _
    | true =>
      have hsettled : settled history i = applied history := by
        funext id
        rw [settled, hlater, Bool.true_and]
      rw [if_neg (by simp [hlast, hlater]), hsettled]

/-- The pass rewrites the settled calls. -/
theorem elideAppliedWriteEditArgs_eq (tokens : Text → Nat) (history : List Message) :
    (elideAppliedWriteEditArgs tokens history).1 = project tokens (settled history) history := by
  refine ext_getElem? fun i => ?_
  rw [elideAppliedWriteEditArgs, elideAppliedWriteEditArgsExcept, project, List.getElem?_mapIdx]
  cases hmessage : history[i]? with
  | none => split_ifs <;> simp [hmessage]
  | some message =>
    rw [Option.map_some, stubMessage_settled hmessage]
    split_ifs with hempty hlast hlast
    · exact hmessage
    · -- no call was applied
      have hnone : ∀ id, applied history id = false := by
        intro id
        obtain ⟨tool, hlookup, -⟩ | ⟨-, happlied⟩ := lookup_successful history id
        · rw [isEmpty_iff.1 hempty] at hlookup
          cases hlookup
        · exact happlied
      rw [stubMessage_of_none hnone, hmessage]
    · simp [hmessage, hlast]
    · simp [hmessage, hlast, fst_elideMessage]

end Projection

/-! ## Live and on resume -/

/-- How a history grows: messages are appended, and the pass runs over the whole or not. -/
structure Growth where
  appended : List Message
  elides : Bool

section Growth

variable (tokens : Text → Nat)

def grow (history : List Message) (g : Growth) : List Message :=
  if g.elides then (elideAppliedWriteEditArgs tokens (history ++ g.appended)).1 else history ++ g.appended

/-- The history of a session, from its start. -/
def live (steps : List Growth) : List Message := steps.foldl (grow tokens) []

variable {tokens} {history full : List Message}

/-- The live history is the full one with some of the settled calls rewritten. -/
def Lags (tokens : Text → Nat) (history full : List Message) : Prop :=
  ∃ may, (∀ i id, may i id = true → settled full i id = true) ∧ history = project tokens may full

theorem Lags.elide_eq (h : Lags tokens history full) :
    (elideAppliedWriteEditArgs tokens history).1 = (elideAppliedWriteEditArgs tokens full).1 := by
  obtain ⟨may, hmay, rfl⟩ := h
  rw [elideAppliedWriteEditArgs_eq, elideAppliedWriteEditArgs_eq, settled_project, project_project hmay]

theorem Lags.grow (h : Lags tokens history full) (g : Growth) :
    Lags tokens (grow tokens history g) (full ++ g.appended) := by
  obtain ⟨may, hmay, rfl⟩ := h
  rw [Engine.grow, project_append fun i id hi => lt_of_settled (hmay i id hi)]
  have hlags : Lags tokens (project tokens may (full ++ g.appended)) (full ++ g.appended) :=
    ⟨may, fun i id hi => settled_append (hmay i id hi) _, rfl⟩
  split_ifs
  · exact ⟨_, fun _ _ hi => hi, hlags.elide_eq.trans (elideAppliedWriteEditArgs_eq _ _)⟩
  · exact hlags

theorem Lags.run (h : Lags tokens history full) (steps : List Growth) :
    Lags tokens (steps.foldl (Engine.grow tokens) history) (full ++ steps.flatMap Growth.appended) := by
  induction steps generalizing history full with
  | nil => simpa using h
  | cons g steps ih =>
    rw [foldl_cons, flatMap_cons, ← append_assoc]
    exact ih (h.grow g)

theorem lags_live (steps : List Growth) : Lags tokens (live tokens steps) (steps.flatMap Growth.appended) := by
  have hstart : Lags tokens [] [] := ⟨fun _ _ => false, by simp, rfl⟩
  exact hstart.run steps

end Growth

/-! ## What is rewritten -/

inductive ElidedArgument : Text × Json → Text × Json → Prop
  | same (argument : Text × Json) : ElidedArgument argument argument
  | marked (key value : Text) (h : key ≠ "path".toList) :
    ElidedArgument (key, .string value) (key, .string (appliedMarker (byteLength value)))

/-- A part of the turn at a place before and after the pass. -/
inductive ElidedPart (history : List Message) (i : Nat) : AssistantContent → AssistantContent → Prop
  | same (part : AssistantContent) : ElidedPart history i part part
  | call (call : ToolCall) (entries entries' : List (Text × Json)) (hargs : call.arguments = .object entries)
    (hsettled : settled history i call.id = true) (hentries : List.Forall₂ ElidedArgument entries entries') :
    ElidedPart history i (.toolCall call) (.toolCall { call with arguments := .object entries' })

inductive ElidedTurn (history : List Message) (i : Nat) : Message → Message → Prop
  | same (message : Message) : ElidedTurn history i message message
  | assistant (id : Option Text) (content content' : List AssistantContent)
    (hcontent : List.Forall₂ (ElidedPart history i) content content') :
    ElidedTurn history i (.assistant id content) (.assistant id content')

/-- The same turns, up to texts other than the path in the arguments of settled calls. -/
structure OnlyAppliedArguments (history elided : List Message) : Prop where
  length_eq : elided.length = history.length
  turns : ∀ i message message', history[i]? = some message → elided[i]? = some message' →
    ElidedTurn history i message message'

section Rewritten

variable {tokens : Text → Nat}

theorem elidedArgument_of_marker {argument : Text × Json} {marker : Text}
    (h : argumentMarker tokens argument.1 argument.2 = some marker) :
    ElidedArgument argument (argument.1, .string marker) := by
  obtain ⟨key, value⟩ := argument
  cases value with
  | string original =>
    rw [argumentMarker] at h
    split_ifs at h with hkept
    cases h
    refine .marked key original fun hpath => hkept ?_
    simp [hpath]
  | null | bool | number | array | object => cases h

theorem elidedPart_stubPart (history : List Message) (i : Nat) (part : AssistantContent) :
    ElidedPart history i part (stubPart tokens (settled history i) part) := by
  cases part with
  | other body => exact .same _
  | toolCall call =>
    rw [stubPart]
    split_ifs with hsettled
    · rw [stubCall]
      cases hargs : call.arguments with
      | object entries =>
        refine .call call entries _ hargs hsettled ?_
        rw [forall₂_map_right_iff]
        refine forall₂_same.2 fun e _ => ?_
        cases hmarker : argumentMarker tokens e.1 e.2 with
        | none => exact .same e
        | some marker => exact elidedArgument_of_marker hmarker
      | null | bool | number | string | array =>
        simp only [stubLargeStringFields, ← hargs]
        exact .same _
    · exact .same _

theorem onlyAppliedArguments_project (history : List Message) :
    OnlyAppliedArguments history (project tokens (settled history) history) := by
  refine ⟨length_mapIdx, fun i message message' h h' => ?_⟩
  rw [project, List.getElem?_mapIdx, h] at h'
  cases h'
  cases message with
  | user | system => exact .same _
  | assistant id content =>
    refine .assistant id content _ ?_
    rw [forall₂_map_right_iff]
    exact forall₂_same.2 fun part _ => elidedPart_stubPart history i part

end Rewritten

/-- However often the pass ran while the history grew, running it at the end gives what it gives over
the full history. -/
theorem elision_same_live_and_resumed (tokens : Text → Nat) (steps : List Growth) :
    (elideAppliedWriteEditArgs tokens (live tokens steps)).1 =
        (elideAppliedWriteEditArgs tokens (steps.flatMap Growth.appended)).1 ∧
      OnlyAppliedArguments (steps.flatMap Growth.appended)
        (elideAppliedWriteEditArgs tokens (steps.flatMap Growth.appended)).1 := by
  refine ⟨(lags_live steps).elide_eq, ?_⟩
  rw [elideAppliedWriteEditArgs_eq]
  exact onlyAppliedArguments_project _

end FlyCockpit.Engine
