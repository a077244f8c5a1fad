-- SUMMARY: Numbered reads of a file: the window of lines, the margins dropped at its edges, its rows.
import FlyCockpit.Redact.Truncate

/-!
# Numbered reads

A read shows a window of a file's lines as numbered rows. Where the window abuts lines that are not
shown, a margin is dropped at the edge. Every byte carries the file position it was copied from;
what is done is decided by the bytes alone.
-/

namespace FlyCockpit.Redact

open Utf8 (floorCharBoundary)

def lineFeed : UInt8 := UInt8.ofNat '\n'.toNat

def carriageReturn : UInt8 := UInt8.ofNat '\r'.toNat

def isLineFeed (m : Mark UInt8) : Bool := m.value == lineFeed

def isCarriageReturn (m : Mark UInt8) : Bool := m.value == carriageReturn

/-- The lines of a file, as `str::lines` has them. -/
def fileLines (text : Bytes) : List Marked :=
  Lines.lines isLineFeed isCarriageReturn (Mark.ofSource text)

structure ReadSlice where
  numbered : Marked
  truncated : Bool
  nextOffset : Nat
  totalLines : Nat
  offsetExceeded : Bool
  deriving DecidableEq

def joinLines (lines : List Marked) : Marked := (Mark.fresh [lineFeed]).intercalate lines

/-- The lines of a content; an empty content has none. -/
def splitLines (content : Marked) : List Marked :=
  if content = [] then [] else content.splitOnP isLineFeed

/-- How many lines fit in the byte cap with their numbers, the first of which is `lineNo`. -/
def keptLines (byteCap : Nat) : Nat → Nat → List Marked → Nat
  | _, _, [] => 0
  | lineNo, lenAcc, line :: lines =>
    let added := (decimal lineNo).length + 1 + line.length + 1
    if lenAcc + added > byteCap then 0 else keptLines byteCap (lineNo + 1) (lenAcc + added) lines + 1

/-- The rows of lines, as `push_numbered_line` writes them. -/
def numberLines (firstLineNo : Nat) (lines : List Marked) : Marked :=
  (lines.zipIdx firstLineNo).flatMap fun (line, lineNo) =>
    Mark.fresh (decimal lineNo ++ Bytes.ascii "|") ++ line ++ Mark.fresh [lineFeed]

def endLine (numbered : Marked) : Marked :=
  if numbered ≠ [] ∧ (numbered.getLast?.any isLineFeed) = false then numbered ++ Mark.fresh [lineFeed]
  else numbered

namespace RedactionTable

/-- `drop_front_margin` returns the end of a segment. -/
def dropFront (t : RedactionTable) (seg : Marked) : Marked :=
  seg.drop (seg.length - (t.dropFrontMargin (Mark.values seg)).length)

/-- `drop_back_margin` returns the start of a segment. -/
def dropBack (t : RedactionTable) (seg : Marked) : Marked :=
  seg.take (t.dropBackMargin (Mark.values seg)).length

/-- The content behind the front margin; nothing is omitted before the first line. -/
def frontSafe (t : RedactionTable) (offset : Nat) (joined : Marked) : Marked :=
  if offset > 1 then t.dropFront joined else joined

/-- The lines kept, up to the back margin if their end abuts lines that are not shown. -/
def shownLines (t : RedactionTable) (omits : Bool) (kept : List Marked) : List Marked :=
  if omits then splitLines (t.dropBack (joinLines kept)) else kept

/-- Rows over the cap are cut in front of it. -/
def capRows (t : RedactionTable) (byteCap : Nat) (numbered : Marked) : Marked :=
  if numbered.length > byteCap then
    t.dropBack (numbered.take (floorCharBoundary (Mark.values numbered) byteCap))
  else numbered

def readSliceWithByteCap (t : RedactionTable) (text : Bytes) (offset limit outputByteCap : Nat)
    (explicitRangeEnd : Bool) : ReadSlice :=
  let offset := max offset 1
  let byteCap := outputByteCap - 80
  let lines := fileLines text
  let totalLines := lines.length
  let window := (lines.drop (offset - 1)).take limit
  let moreLines := decide (totalLines > offset - 1 + window.length)
  let offsetExceeded := decide (offset > totalLines)
  if window = [] then
    { numbered := []
      truncated := moreLines
      nextOffset := if offsetExceeded then totalLines + 1 else offset
      totalLines
      offsetExceeded }
  else
    let joined := joinLines window
    let content := t.frontSafe offset joined
    let firstLineNo := offset + (joined.take (joined.length - content.length)).countP isLineFeed
    let safeLines := splitLines content
    let kept := keptLines byteCap firstLineNo 0 safeLines
    let stopped := decide (kept < safeLines.length)
    let shown := t.shownLines (stopped || (moreLines && !explicitRangeEnd)) (safeLines.take kept)
    let numbered := numberLines firstLineNo shown
    { numbered := endLine (t.capRows byteCap numbered)
      truncated := moreLines || stopped || decide (numbered.length > byteCap)
      nextOffset := if offsetExceeded then totalLines + 1 else firstLineNo + shown.length
      totalLines
      offsetExceeded }

end RedactionTable

end FlyCockpit.Redact
