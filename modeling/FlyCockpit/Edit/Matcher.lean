-- SUMMARY: The edit tool's cascade of matchers, and the replacement of the spans it returns.
import FlyCockpit.Lib.Search
import FlyCockpit.Lib.Text
import Mathlib.Data.List.DropRight
import Mathlib.Data.List.Dedup

/-!
# The edit matcher

An edit names the text to replace. The matcher first looks for the text itself, then for regions of
whole lines that agree with it up to some normal form, or that begin and end with its first and last
lines. Spans are byte ranges of the file. Wherever the source indexes or slices, an index out of
range is a panic here.
-/

namespace FlyCockpit.Edit

open Text (lines)

inductive Failure
  | invalidInput (message : String)
  | internal (message : String)
  | panic
  deriving DecidableEq

abbrev Result := Except Failure

/-- A byte range of a file. -/
structure ByteRange where
  start : Nat
  stop : Nat
  deriving DecidableEq

/-- The stages of the cascade, in their order. -/
inductive Stage
  | exact
  | lineTrim
  | blockAnchor
  | whitespaceNormalized
  | indentFlexible
  | escapeNormalized
  | trimmedBoundary
  | contextAware
  deriving DecidableEq

structure Match where
  canonical : Text
  spans : List ByteRange
  stage : Stage
  deriving DecidableEq

/-! ## Texts -/

def isNewline (c : Char) : Bool := c == '\n'

/-- The file cut behind its newlines. -/
def splitInclusive (t : Text) : List Text := Lines.pieces isNewline t

def len (t : Text) : Nat := Search.size Char.utf8Size t

def trimEnd (t : Text) : Text := t.rdropWhile Text.isWhitespace

def stripNewline (t : Text) : Text := if t.getLast?.any isNewline then t.dropLast else t

/-- Every match of a text replaced, behind `skip` characters of the last match. -/
def replaceFrom (pat new : Text) : Nat → Text → Text
  | _, [] => []
  | skip + 1, _ :: t => replaceFrom pat new skip t
  | 0, c :: t =>
    if pat.isPrefixOf (c :: t) then new ++ replaceFrom pat new (pat.length - 1) t
    else c :: replaceFrom pat new 0 t

def replaceText (pat new t : Text) : Text := replaceFrom pat new 0 t

/-- A part of the file; a range that does not lie between characters panics. -/
def sliceText (file : Text) (range : ByteRange) : Result Text :=
  match Search.slice Char.utf8Size file range.start range.stop with
  | some text => .ok text
  | none => .error .panic

/-! ## Normal forms -/

def lineTrimNormalize (t : Text) : Text := ['\n'].intercalate ((lines t).map trimEnd)

/-- Runs of white space as one blank; `lastSpace` tells that one was just written. -/
def collapseFrom (lastSpace : Bool) : Text → Text
  | [] => []
  | c :: t =>
    if Text.isWhitespace c then
      if lastSpace then collapseFrom true t else ' ' :: collapseFrom true t
    else c :: collapseFrom false t

def whitespaceCollapse (t : Text) : Text := Text.trim (collapseFrom false t)

def minIndent (ls : List Text) : Nat :=
  (((ls.filter fun l => Text.trim l ≠ []).map fun l =>
    (l.takeWhile fun c => c == ' ' || c == '\t').length).min?).getD 0

/-- The line without its first `n` bytes, if they are whole characters. -/
def dropIndent (n : Nat) (l : Text) : Text :=
  ((Search.splitAt Char.utf8Size n l).map (·.2)).getD l

def indentFlexibleNormalize (t : Text) : Text :=
  ['\n'].intercalate ((lines t).map (dropIndent (minIndent (lines t))))

def escapeNormalize (t : Text) : Text :=
  replaceText ['\\', '"'] ['"'] (replaceText ['\\', 't'] ['\t'] (replaceText ['\\', 'n'] ['\n'] t))

def Stage.normalizer : Stage → Option (Text → Text)
  | lineTrim => some lineTrimNormalize
  | whitespaceNormalized => some whitespaceCollapse
  | indentFlexible => some indentFlexibleNormalize
  | escapeNormalized => some escapeNormalize
  | trimmedBoundary => some Text.trim
  | exact | blockAnchor | contextAware => none

/-! ## Windows of lines -/

/-- Whether the region is compared with its final newline depends on the target. -/
def candForCompare (target candidate : Text) : Text :=
  if target.getLast?.any isNewline then candidate else stripNewline candidate

/-- The text of the `n` lines from line `start`. -/
def windowText (file target : Text) (n start : Nat) : Text :=
  candForCompare target (((splitInclusive file).drop start).take n).flatten

/-- Where line `start` begins. -/
def lineStart (file : Text) (start : Nat) : Nat := len ((splitInclusive file).take start).flatten

def windowSpan (file target : Text) (n start : Nat) : ByteRange :=
  ⟨lineStart file start, lineStart file start + len (windowText file target n start)⟩

/-- The span and the text of a window that must lie in the file. -/
def windowAt (file target : Text) (n start : Nat) : Result (ByteRange × Text) :=
  if start + n ≤ (splitInclusive file).length then
    .ok (windowSpan file target n start, windowText file target n start)
  else .error .panic

/-! ## Matching by normal form -/

def multipleExact : Failure := .invalidInput
  "Found multiple matches for `old_string`; pass more surrounding context or set replace_all: true"

def multipleNormalized : Failure := .invalidInput
  "Found multiple matches for `old_string` at normalized stage; pass more surrounding context or set replace_all: true"

/-- The windows with the right normal form; `lastEnd` is where the last of the hits ends. -/
def hitsFrom (file target : Text) (n : Nat) (replaceAll : Bool) (normalize : Text → Text) :
    List Nat → List ByteRange → Nat → Result (List ByteRange)
  | [], hits, _ => .ok hits
  | start :: rest, hits, lastEnd => do
    let (span, text) ← windowAt file target n start
    if normalize text = normalize target then
      if !replaceAll ∧ hits ≠ [] then .error multipleNormalized
      else if replaceAll ∧ span.start < lastEnd then
        hitsFrom file target n replaceAll normalize rest hits lastEnd
      else hitsFrom file target n replaceAll normalize rest (hits ++ [span]) span.stop
    else hitsFrom file target n replaceAll normalize rest hits lastEnd

def targetLines (target : Text) : Nat := target.countP isNewline + 1

/-- The first lines of the windows of `n` lines. -/
def starts (file : Text) (n : Nat) : List Nat := List.range ((splitInclusive file).length - n + 1)

def matchViaNormalizer (file target : Text) (replaceAll : Bool) (normalize : Text → Text) :
    Result (Option (List ByteRange)) :=
  if Text.trim (normalize target) = [] then .ok none
  else if (splitInclusive file).length < targetLines target then .ok none
  else do
    let hits ← hitsFrom file target (targetLines target) replaceAll normalize
      (starts file (targetLines target)) [] 0
    if replaceAll then return (if hits ≠ [] then some hits else none)
    else return hits.head?.map ([·])

/-! ## Matching by anchors -/

/-- How many characters two texts have in common. -/
def common (target cand : Text) : Nat :=
  (target.dedup.map fun c => min (target.count c) (cand.count c)).sum

def ratio (target cand : Text) : Nat := common target cand * 100 / max target.length 1

/-- A line as anchors compare it. -/
def anchorLine (line : Text) : Text := Text.trim (line.rdropWhile isNewline)

/-- The best region so far, with its overlap. -/
def anchorFrom (file target : Text) (minRatio n : Nat) (first last : Text) :
    List Nat → Option (Text × Nat) → Result (Option (Text × Nat))
  | [], best => .ok best
  | start :: rest, best =>
    match (splitInclusive file)[start]? with
    | none => .error .panic
    | some candFirst =>
      if anchorLine candFirst ≠ first then anchorFrom file target minRatio n first last rest best
      else
        match (splitInclusive file)[start + n - 1]? with
        | none => anchorFrom file target minRatio n first last rest best
        | some candLast =>
          if anchorLine candLast ≠ last then anchorFrom file target minRatio n first last rest best
          else
            let cand := windowText file target n start
            if ratio target cand < minRatio then
              anchorFrom file target minRatio n first last rest best
            else if best.all fun b => b.2 < ratio target cand then
              anchorFrom file target minRatio n first last rest (some (cand, ratio target cand))
            else anchorFrom file target minRatio n first last rest best

/-- The trimmed first and last lines of the target, if there are two and neither is blank. -/
def anchors (target : Text) : Option (Text × Text) :=
  match (lines target).head?, (lines target).getLast? with
  | some first, some last =>
    if (lines target).length < 2 then none
    else if Text.trim first = [] ∨ Text.trim last = [] then none
    else some (Text.trim first, Text.trim last)
  | _, _ => none

def anchorMatch (file target : Text) (minRatio : Nat) : Result (Option Text) :=
  match anchors target with
  | none => .ok none
  | some (first, last) => do
    let best ← anchorFrom file target minRatio (lines target).length first last
      (starts file (lines target).length) none
    return best.map (·.1)

def spanForCanonical (file canonical : Text) : Result ByteRange :=
  match Search.find Char.utf8Size canonical file with
  | some start => .ok ⟨start, start + len canonical⟩
  | none => .error (.internal "internal error: matched stage produced no canonical occurrence")

def Stage.minRatio : Stage → Option Nat
  | blockAnchor => some 90
  | contextAware => some 50
  | _ => none

/-! ## The cascade -/

/-- The spans of the matches of a text. -/
def exactSpans (file target : Text) : List ByteRange :=
  (Search.matchIndices Char.utf8Size target file).map fun start => ⟨start, start + len target⟩

def exactMatch (file target : Text) (replaceAll : Bool) : Result (Option Match) :=
  let spans := exactSpans file target
  if spans = [] then .ok none
  else if !replaceAll ∧ spans.length > 1 then .error multipleExact
  else .ok (some ⟨target, if replaceAll then spans else spans.take 1, .exact⟩)

def normalizedMatch (file target : Text) (replaceAll : Bool) (stage : Stage)
    (normalize : Text → Text) : Result (Option Match) := do
  match ← matchViaNormalizer file target replaceAll normalize with
  | none => return none
  | some spans =>
    match spans.head? with
    | none => .error .panic
    | some first => do
      let canonical ← sliceText file first
      return some ⟨canonical, spans, stage⟩

def anchoredMatch (file target : Text) (stage : Stage) (minRatio : Nat) : Result (Option Match) := do
  match ← anchorMatch file target minRatio with
  | none => return none
  | some canonical => do
    let span ← spanForCanonical file canonical
    return some ⟨canonical, [span], stage⟩

/-- What one stage finds. -/
def stageMatch (file target : Text) (replaceAll : Bool) (stage : Stage) : Result (Option Match) :=
  match stage.normalizer, stage.minRatio with
  | some normalize, _ => normalizedMatch file target replaceAll stage normalize
  | none, some minRatio => anchoredMatch file target stage minRatio
  | none, none => exactMatch file target replaceAll

def cascade : List Stage :=
  [.exact, .lineTrim, .blockAnchor, .whitespaceNormalized, .indentFlexible, .escapeNormalized,
    .trimmedBoundary, .contextAware]

/-- The first stage that finds something. -/
def firstMatch (find : Stage → Result (Option Match)) : List Stage → Result (Option Match)
  | [] => .ok none
  | stage :: rest => do
    match ← find stage with
    | some m => return some m
    | none => firstMatch find rest

def findMatch (file target : Text) (replaceAll : Bool) : Result (Option Match) :=
  if target = [] then .error (.invalidInput "`old_string` must not be empty")
  else firstMatch (stageMatch file target replaceAll) cascade

/-! ## Replacing -/

def isCharBoundary (file : Text) (i : Nat) : Bool := (Search.splitAt Char.utf8Size i file).isSome

def invalidSpan : Failure := .internal "internal error: matched stage produced invalid replacement span"

def replaceSpansFrom (file replacement : Text) : Nat → List ByteRange → Result Text
  | cursor, [] => sliceText file ⟨cursor, len file⟩
  | cursor, span :: rest =>
    if span.start < cursor ∨ span.stop < span.start ∨ span.stop > len file ∨
        !isCharBoundary file span.start ∨ !isCharBoundary file span.stop then .error invalidSpan
    else do
      let kept ← sliceText file ⟨cursor, span.start⟩
      let behind ← replaceSpansFrom file replacement span.stop rest
      return kept ++ replacement ++ behind

def replaceSpans (file : Text) (spans : List ByteRange) (replacement : Text) : Result Text :=
  if spans = [] then .error (.internal "internal error: matched stage produced no spans")
  else replaceSpansFrom file replacement 0 spans

end FlyCockpit.Edit
