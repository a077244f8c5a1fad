-- SUMMARY: Context pruning: which tool-result bodies are superseded, and how they are elided.
import FlyCockpit.Engine.Message
import Mathlib.Data.Char
import Mathlib.Data.List.Lex
import Mathlib.Data.List.Sort

/-!
# Context pruning

Of several snapshots taken by identical calls only the newest body is kept; the older ones become a
marker. Of a file read in overlapping ranges, an older body loses the numbered lines that newer
bodies span. Both are planned over one history and then applied together.

How a JSON value is written and how many tokens a text has are parameters.
-/

namespace FlyCockpit.Engine

open Text

/-! ## Calls -/

def snapshotTools : List Text := ["read".toList, "code".toList, "graph".toList, "search".toList]

def isSnapshotTool (name : Text) : Bool := snapshotTools.contains name

def readTools : List Text := ["read".toList]

def isReadTool (name : Text) : Bool := readTools.contains name

mutual

/-- The value with the keys of its objects sorted. -/
def Json.sortValue : Json → Json
  | .array items => .array (sortItems items)
  | .object entries => .object ((sortEntries entries).insertionSort fun a b => a.1 ≤ b.1)
  | .null => .null
  | .bool value => .bool value
  | .number literal => .number literal
  | .string value => .string value

def Json.sortItems : List Json → List Json
  | [] => []
  | v :: rest => v.sortValue :: sortItems rest

def Json.sortEntries : List (Text × Json) → List (Text × Json)
  | [] => []
  | (key, v) :: rest => (key, v.sortValue) :: sortEntries rest

end

def canonicalArgs (render : Json → Text) (args : Json) : Text := render args.sortValue

def argCanonicalPath : Json → Option Text
  | .object entries =>
    match entries.find? fun e => e.1 = "path".toList with
    | some (_, .string path) => some path
    | _ => none
  | _ => none

/-- What a table from call ids has for an id, if it is filled from the calls in order and later
    entries replace earlier ones. -/
def callTable {β : Type} (entry : ToolCall → Option β) (history : List Message) (id : Text) :
    Option β :=
  (history.flatMap Message.calls).reverse.findSome? fun call =>
    if call.id = id then entry call else none

/-- The tool and the arguments of a snapshot call. -/
def snapshotIdentity (render : Json → Text) (call : ToolCall) : Option Text :=
  if isSnapshotTool call.name then
    some (call.name ++ [Char.ofNat 0] ++ canonicalArgs render call.arguments)
  else none

def readPath (call : ToolCall) : Option Text :=
  if isReadTool call.name then argCanonicalPath call.arguments else none

/-! ## Bodies -/

def ToolResultContent.text? : ToolResultContent → Option Text
  | .text t => some t
  | .image _ => none

def toolResultIsTextOnly (content : List ToolResultContent) : Bool :=
  content.all fun part => part.text?.isSome

def toolResultBody (content : List ToolResultContent) : Text :=
  (content.filterMap ToolResultContent.text?).flatten

def ToolResult.body (r : ToolResult) : Text := toolResultBody r.content

/-- The results of a history with the index of their message. -/
def resultLocs (history : List Message) : List (Nat × ToolResult) :=
  history.zipIdx.flatMap fun e => e.1.results.map fun r => (e.2, r)

/-! ## Markers -/

inductive Reason
  | snapshotSuperseded
  | overlappingReadSuperseded
  deriving DecidableEq

def Reason.asStr : Reason → Text
  | .snapshotSuperseded => "snapshot superseded".toList
  | .overlappingReadSuperseded => "overlapping read superseded".toList

structure Elision where
  originalEventId : Text
  reason : Reason
  deriving DecidableEq

def markerStart : Text := "[elided:".toList

def Elision.markerText (e : Elision) : Text :=
  "[elided: ".toList ++ e.reason.asStr ++ (" — a later identical call in this conversation " ++
    "still carries the full result; use that one. Not retrievable and not worth re-running.]").toList

def overlapMarkerLine : Text :=
  "[elided: ".toList ++ Reason.overlappingReadSuperseded.asStr ++ (" — these lines appear in a " ++
    "later read in this conversation; use that one. Not retrievable and not worth re-running.]").toList

/-- The body is wholly a marker, or at least begins like one. -/
def isMarker (body : Text) : Bool := markerStart.isPrefixOf body

def containsMarker (body : Text) : Bool := body.lines.any fun line => markerStart.isPrefixOf line

/-! ## Plans -/

structure ElisionTarget where
  historyIndex : Nat
  currentBody : Text
  elision : Elision
  partialBody : Option Text
  tokensSaved : Nat
  targetCallId : Text
  deriving DecidableEq

def ElisionTarget.replacementBody (t : ElisionTarget) : Text :=
  t.partialBody.getD t.elision.markerText

structure ResultLoc where
  historyIndex : Nat
  callId : Text
  key : Text
  body : Text
  elided : Bool
  deriving DecidableEq

/-- The text results of snapshot calls. -/
def snapshotResults (render : Json → Text) (history : List Message) : List ResultLoc :=
  (resultLocs history).filterMap fun e =>
    match callTable (snapshotIdentity render) history e.2.call with
    | none => none
    | some key =>
      if toolResultIsTextOnly e.2.content then
        some ⟨e.1, e.2.call, key, e.2.body, isMarker e.2.body⟩
      else none

/-- The older bodies of each group of identical calls, if the newest one is still there. -/
def exactTargets : List ResultLoc → List ElisionTarget
  | [] => []
  | loc :: rest =>
    match (rest.filter fun other => other.key = loc.key).getLast? with
    | none => exactTargets rest
    | some newest =>
      if newest.elided || loc.elided then exactTargets rest
      else ⟨loc.historyIndex, loc.body, ⟨loc.callId, .snapshotSuperseded⟩, none, 0, loc.callId⟩ ::
        exactTargets rest

structure LineRange where
  first : Nat
  last : Nat
  deriving DecidableEq

def LineRange.containsLine (r : LineRange) (n : Nat) : Bool := r.first ≤ n && n ≤ r.last

def rangesOverlap (a b : LineRange) : Bool := a.first ≤ b.last && b.first ≤ a.last

/-- The number in front of the bar of a numbered line; one that does not fit a machine word is
    none. -/
def numberedLineNo (line : Text) : Option Nat :=
  let digits := line.takeWhile Char.isDigit
  if digits = [] then none
  else
    match line.drop digits.length with
    | '|' :: _ =>
      let n := digits.foldl (fun n c => 10 * n + (c.toNat - '0'.toNat)) 0
      if n < 18446744073709551616 then some n else none
    | _ => none

/-- The numbers of the numbered lines of a body. -/
def lineNumbers (body : Text) : List Nat := body.lines.filterMap numberedLineNo

/-- From the smallest to the largest of the line numbers. -/
def lineRangeOfRead (body : Text) : Option LineRange :=
  let numbers := lineNumbers body
  let last := numbers.foldl max 0
  if last = 0 then none else some ⟨numbers.foldl min 18446744073709551615, last⟩

structure ReadLoc where
  historyIndex : Nat
  callId : Text
  canonicalPath : Text
  range : LineRange
  body : Text
  alreadyElided : Bool
  deriving DecidableEq

/-- The text results of read calls that have numbered lines. -/
def readResults (history : List Message) : List ReadLoc :=
  (resultLocs history).filterMap fun e =>
    match callTable readPath history e.2.call with
    | none => none
    | some path =>
      if toolResultIsTextOnly e.2.content then
        (lineRangeOfRead e.2.body).map fun range =>
          ⟨e.1, e.2.call, path, range, e.2.body, containsMarker e.2.body⟩
      else none

/-- Covered numbered lines are dropped, a marker standing for each run of them. -/
def elideCovered (covered : Nat → Bool) (inElidedRun : Bool) : List Text → List Text
  | [] => []
  | line :: rest =>
    if (numberedLineNo line).any covered then
      if inElidedRun then elideCovered covered true rest
      else overlapMarkerLine :: elideCovered covered true rest
    else line :: elideCovered covered false rest

def rewriteElidingCovered (body : Text) (covering : List ReadLoc) : Option Text :=
  let covered := fun n => covering.any fun c => c.range.containsLine n
  if (lineNumbers body).any covered then
    let out := delimited '\n' (elideCovered covered false body.lines)
    some (if body.getLast? = some '\n' then out else out.dropLast)
  else none

/-- The newer full reads of the same file whose range meets that of an older one. -/
def coveringReads (older : ReadLoc) (newer : List ReadLoc) : List ReadLoc :=
  newer.filter fun c => !c.alreadyElided && c.canonicalPath = older.canonicalPath &&
    rangesOverlap older.range c.range

def overlapTargets : List ReadLoc → List ElisionTarget
  | [] => []
  | older :: newer =>
    if older.alreadyElided then overlapTargets newer
    else
      match (coveringReads older newer).getLast?,
          rewriteElidingCovered older.body (coveringReads older newer) with
      | some pointer, some newBody =>
        if newBody = older.body then overlapTargets newer
        else ⟨older.historyIndex, older.body, ⟨pointer.callId, .overlappingReadSuperseded⟩,
          some newBody, 0, older.callId⟩ :: overlapTargets newer
      | _, _ => overlapTargets newer

structure DedupPlan where
  targets : List ElisionTarget
  deriving DecidableEq

def DedupPlan.tokensSaved (plan : DedupPlan) : Nat := (plan.targets.map ElisionTarget.tokensSaved).sum

def cachedTokensSaved (count : Text → Nat) (t : ElisionTarget) : Nat :=
  count t.currentBody - count t.replacementBody

/-- Targets of one message stand in the order of its results; nothing depends on it. -/
def dedupPlan (render : Json → Text) (count : Text → Nat) (history : List Message) : DedupPlan :=
  let exact := exactTargets (snapshotResults render history)
  let overlap := (overlapTargets (readResults history)).filter fun t =>
    !(exact.map ElisionTarget.targetCallId).contains t.targetCallId
  ⟨((exact ++ overlap).map fun t => { t with tokensSaved := cachedTokensSaved count t }).insertionSort
    fun a b => a.historyIndex ≤ b.historyIndex⟩

/-- Rewrites the body of a result, and nothing else of it. -/
def UserContent.rewrite (id body : Text) : UserContent → UserContent
  | .toolResult r =>
    if r.call = id then .toolResult { r with content := [.text body] } else .toolResult r
  | .other b => .other b

def Message.rewrite (id body : Text) : Message → Message
  | .user content => .user (content.map (UserContent.rewrite id body))
  | .assistant turn content => .assistant turn content
  | .system content => .system content

def applyPlanDirect (history : List Message) (plan : DedupPlan) : List Message :=
  plan.targets.foldl (fun history t =>
    history.modify t.historyIndex (Message.rewrite t.targetCallId t.replacementBody)) history

def pruneHistory (render : Json → Text) (count : Text → Nat) (history : List Message) :
    List Message :=
  applyPlanDirect history (dedupPlan render count history)

end FlyCockpit.Engine
