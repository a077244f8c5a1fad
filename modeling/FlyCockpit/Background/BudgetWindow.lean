-- SUMMARY: The window of a background job's output that is rendered under a token cap.
import FlyCockpit.Redact.ReadSlice

/-!
# The budget window

A background job's output is rendered from the end: a probe counts how many of the freshest lines
fit a token cap, and these lines are then written in their order, behind a note if older ones were
left out. The note is not part of what the probe counted, and a line is written without the margins
that could hold a part of a secret, so the two accounts can differ. If they do, it is the freshest
line that is dropped.
-/

namespace FlyCockpit.Background

open List FlyCockpit.Redact

/-! ## The writer -/

structure BudgetedWriter where
  buf : Bytes
  cap : Nat
  tokens : Nat
  truncated : Bool
  deriving DecidableEq

section

-- the tokens of a text
variable (count : Bytes → Nat)

namespace BudgetedWriter

def new (cap : Nat) : BudgetedWriter := ⟨[], cap, 0, false⟩

def write (w : BudgetedWriter) (record : Bytes) : BudgetedWriter × Bool :=
  if w.truncated then (w, false)
  else
    let cost := count record
    if w.tokens + cost > w.cap then ({ w with truncated := true }, false)
    else ({ w with buf := w.buf ++ record, tokens := w.tokens + cost }, true)

def writeln (w : BudgetedWriter) (record : Bytes) : BudgetedWriter × Bool :=
  w.write count (record ++ [lineFeed])

end BudgetedWriter

/-- Go on with the probe until a line is refused. -/
def countFitting : BudgetedWriter → List Bytes → Nat
  | _, [] => 0
  | probe, line :: rest =>
    match probe.writeln count line with
    | (probe, true) => countFitting probe rest + 1
    | (_, false) => 0

def windowThatFits (lines : List Bytes) (cap : Nat) : Nat :=
  countFitting count (.new cap) lines.reverse

/-! ## The window -/

structure RingLine where
  text : Bytes
  frontAbutsOmission : Bool
  backAbutsOmission : Bool
  deriving DecidableEq

structure RingSnapshot where
  overflow : Option Bytes
  lines : List RingLine

def RingSnapshot.probe (snap : RingSnapshot) : List Bytes :=
  snap.overflow.toList ++ snap.lines.map (·.text)

/-- A line without the margins at which it abuts omitted output. -/
def RingLine.render (redact : RedactionTable) (elideFront : Bool) (line : RingLine) : Bytes :=
  let text := if elideFront then redact.dropFrontMargin line.text else line.text
  if line.backAbutsOmission then redact.dropBackMargin text else text

/-- Write lines until one is refused, and say how many were written. -/
def writeStream (redact : RedactionTable) :
    Bool → BudgetedWriter → List RingLine → BudgetedWriter × Nat
  | _, w, [] => (w, 0)
  | frontCut, w, line :: rest =>
    match w.writeln count (line.render redact (line.frontAbutsOmission || frontCut)) with
    | (w, false) => (w, 0)
    | (w, true) =>
      let (w, written) := writeStream redact false w rest
      (w, written + 1)

def elidedNote (fit total : Nat) : Bytes :=
  Utf8.encode "[earlier output elided — " ++ decimal fit ++ Bytes.ascii " of " ++ decimal total ++
    Bytes.ascii " line(s) shown]"

def writeNote (writer : BudgetedWriter) (note : Bool) (fit total : Nat) : BudgetedWriter :=
  if note ∧ fit < total then (writer.writeln count (elidedNote fit total)).1 else writer

def writeMarker (writer : BudgetedWriter) (start : Nat) (overflow : Option Bytes) :
    BudgetedWriter × List Bytes :=
  if start = 0 then
    match overflow with
    | some marker =>
      let (writer, ok) := writer.writeln count marker
      (writer, if ok then [marker] else [])
    | none => (writer, [])
  else (writer, [])

/-- What was written: the marker or not, and so many lines from a place on. -/
structure BudgetWindow where
  writer : BudgetedWriter
  marker : List Bytes
  lineStart : Nat
  written : Nat

def writeBudgetWindow (writer : BudgetedWriter) (redact : RedactionTable) (snap : RingSnapshot)
    (cap : Nat) (note : Bool) : BudgetWindow :=
  let fit := windowThatFits count snap.probe cap
  let start := snap.probe.length - fit
  let overflowCount := snap.overflow.toList.length
  let lineStart := start - overflowCount
  let frontCut := decide (lineStart > 0)
  let writer := writeNote count writer note fit snap.probe.length
  let (writer, marker) := writeMarker count writer start snap.overflow
  let (writer, written) := writeStream count redact frontCut writer (snap.lines.drop lineStart)
  { writer, marker, lineStart, written }

/-- The places of the lines that were written. -/
def BudgetWindow.places (window : BudgetWindow) : List Nat :=
  List.range' window.lineStart window.written

/-- The lines written are the last ones, and the newest line is among them if it fits the cap. -/
def KeepsFreshest (redact : RedactionTable) (snap : RingSnapshot) (cap : Nat) (note : Bool) : Prop :=
  let window := writeBudgetWindow count (.new cap) redact snap cap note
  window.places <:+ List.range snap.lines.length ∧
    ∀ newest, snap.lines.getLast? = some newest → count (newest.text ++ [lineFeed]) ≤ cap →
      snap.lines.length - 1 ∈ window.places

/-! ## The two accounts -/

/-- What a line costs. -/
def lineCost (text : Bytes) : Nat := count (text ++ [lineFeed])

def totalCost (texts : List Bytes) : Nat := (texts.map (lineCost count)).sum

/-- As many of the freshest lines as fit the cap. -/
structure LongestFitting (lines : List Bytes) (cap k : Nat) : Prop where
  le : k ≤ lines.length
  fits : totalCost count (lines.reverse.take k) ≤ cap
  longest : k < lines.length → cap < totalCost count (lines.reverse.take (k + 1))

/-- The texts of lines as they are written. -/
def rendered (redact : RedactionTable) : Bool → List RingLine → List Bytes
  | _, [] => []
  | frontCut, line :: rest =>
    line.render redact (line.frontAbutsOmission || frontCut) :: rendered redact false rest

/-- What is written for the `k` freshest lines: the note, the marker and the lines. -/
def windowTexts (redact : RedactionTable) (snap : RingSnapshot) (note : Bool) (k : Nat) : List Bytes :=
  let lineStart := snap.probe.length - k - snap.overflow.toList.length
  (if note ∧ k < snap.probe.length then [elidedNote k snap.probe.length] else []) ++
    ((if snap.probe.length - k = 0 then snap.overflow.toList else []) ++
      rendered redact (decide (lineStart > 0)) (snap.lines.drop lineStart))

/-- The writer has room for texts of this cost. -/
def BudgetedWriter.Affords (w : BudgetedWriter) (cost : Nat) : Prop :=
  w.truncated = false ∧ w.tokens + cost ≤ w.cap

variable {count}

section Writer

variable {w : BudgetedWriter} {text : Bytes} {cost : Nat}

@[simp] theorem totalCost_nil : totalCost count [] = 0 := rfl

@[simp] theorem totalCost_cons (texts : List Bytes) :
    totalCost count (text :: texts) = lineCost count text + totalCost count texts := rfl

theorem totalCost_append (texts texts' : List Bytes) :
    totalCost count (texts ++ texts') = totalCost count texts + totalCost count texts' := by
  rw [totalCost, totalCost, totalCost, map_append, sum_append]

theorem totalCost_take_le {m n : Nat} (h : m ≤ n) (texts : List Bytes) :
    totalCost count (texts.take m) ≤ totalCost count (texts.take n) := by
  have hsplit : texts.take n = texts.take m ++ (texts.take n).drop m := by
    conv_lhs => rw [← take_append_drop m (texts.take n), take_take, Nat.min_eq_left h]
  rw [hsplit, totalCost_append]
  exact Nat.le_add_right _ _

theorem affords_new (cap cost : Nat) : (BudgetedWriter.new cap).Affords cost ↔ cost ≤ cap := by
  rw [BudgetedWriter.Affords, BudgetedWriter.new, Nat.zero_add]
  exact and_iff_right rfl

/-- A line is written if there is room for it, and otherwise nothing is written any more. -/
theorem writeln_cases (count : Bytes → Nat) (w : BudgetedWriter) (text : Bytes) :
    w.Affords (lineCost count text) ∧ w.writeln count text =
        ({ w with buf := w.buf ++ (text ++ [lineFeed]), tokens := w.tokens + lineCost count text }, true) ∨
      ¬w.Affords (lineCost count text) ∧ (w.writeln count text).2 = false ∧
        (w.writeln count text).1.truncated = true := by
  rw [BudgetedWriter.writeln, BudgetedWriter.write, BudgetedWriter.Affords]
  cases htruncated : w.truncated with
  | true => exact .inr ⟨by simp, rfl, htruncated⟩
  | false =>
    simp only [Bool.false_eq_true, if_false, true_and]
    split_ifs with hcap
    · exact .inr ⟨Nat.not_le.2 hcap, rfl, rfl⟩
    · exact .inl ⟨Nat.le_of_not_lt hcap, rfl⟩

theorem affords_writeln : (w.writeln count text).1.Affords cost ↔ w.Affords (lineCost count text + cost) := by
  obtain ⟨⟨htruncated, -⟩, heq⟩ | ⟨hnot, -, htruncated⟩ := writeln_cases count w text
  · rw [heq, BudgetedWriter.Affords, BudgetedWriter.Affords, Nat.add_assoc]
  · constructor
    · intro h
      exact absurd (htruncated.symm.trans h.1) (by decide)
    · intro h
      exact absurd ⟨h.1, Nat.le_trans (by omega) h.2⟩ hnot

theorem writeStream_le (redact : RedactionTable) (lines : List RingLine) (frontCut : Bool)
    (w : BudgetedWriter) : (writeStream count redact frontCut w lines).2 ≤ lines.length := by
  induction lines generalizing frontCut w with
  | nil => exact Nat.le_refl _
  | cons line rest ih =>
    rw [writeStream]
    split
    · exact Nat.zero_le _
    · exact Nat.succ_le_succ (ih _ _)

/-- All lines are written exactly if there is room for all of them. -/
theorem writeStream_eq_length_iff (redact : RedactionTable) (lines : List RingLine) (frontCut : Bool)
    (w : BudgetedWriter) (hne : lines ≠ []) :
    (writeStream count redact frontCut w lines).2 = lines.length ↔
      w.Affords (totalCost count (rendered redact frontCut lines)) := by
  induction lines generalizing frontCut w with
  | nil => exact absurd rfl hne
  | cons line rest ih =>
    rw [writeStream, rendered, totalCost_cons, ← affords_writeln]
    obtain ⟨hfits, heq⟩ | ⟨-, hrefused, htruncated⟩ :=
      writeln_cases count w (line.render redact (line.frontAbutsOmission || frontCut))
    · rw [heq]
      dsimp only
      rw [length_cons, Nat.add_right_cancel_iff]
      obtain rfl | hrest := eq_or_ne rest []
      · refine iff_of_true rfl ⟨hfits.1, ?_⟩
        exact hfits.2
      · exact ih _ _ hrest
    · generalize w.writeln count _ = answer at hrefused htruncated
      obtain ⟨w', ok⟩ := answer
      dsimp only at hrefused htruncated
      subst hrefused
      refine iff_of_false (by simp) fun h => ?_
      exact absurd (htruncated.symm.trans h.1) (by decide)

/-- The probe stops at the first line that does not fit what is left. -/
theorem countFitting_spec (lines : List Bytes) (w : BudgetedWriter) (hw : w.Affords 0) :
    countFitting count w lines ≤ lines.length ∧
      w.Affords (totalCost count (lines.take (countFitting count w lines))) ∧
      (countFitting count w lines < lines.length →
        ¬w.Affords (totalCost count (lines.take (countFitting count w lines + 1)))) := by
  induction lines generalizing w with
  | nil => exact ⟨Nat.le_refl _, hw, fun h => absurd h (Nat.lt_irrefl _)⟩
  | cons line rest ih =>
    rw [countFitting]
    obtain ⟨hfits, heq⟩ | ⟨hnot, hrefused, -⟩ := writeln_cases count w line
    · obtain ⟨hle, haffords, hnot⟩ := ih (w.writeln count line).1 (affords_writeln.2 hfits)
      rw [heq] at hle haffords hnot ⊢
      dsimp only at hle haffords hnot ⊢
      refine ⟨Nat.succ_le_succ hle, ?_, fun hlt h => ?_⟩
      · rw [take_succ_cons, totalCost_cons, ← affords_writeln, heq]
        exact haffords
      · rw [take_succ_cons, totalCost_cons, ← affords_writeln, heq] at h
        exact hnot (Nat.lt_of_succ_lt_succ hlt) h
    · generalize w.writeln count line = answer at hrefused
      obtain ⟨w', ok⟩ := answer
      dsimp only at hrefused
      subst hrefused
      exact ⟨Nat.zero_le _, hw, fun _ => by simpa using hnot⟩

theorem longestFitting_windowThatFits (count : Bytes → Nat) (lines : List Bytes) (cap : Nat) :
    LongestFitting count lines cap (windowThatFits count lines cap) := by
  obtain ⟨hle, hfits, hlongest⟩ := @countFitting_spec count lines.reverse (.new cap)
    ((affords_new cap 0).2 (Nat.zero_le _))
  rw [length_reverse] at hle hlongest
  exact ⟨hle, (affords_new _ _).1 hfits, fun hlt => Nat.lt_of_not_le fun h =>
    hlongest hlt ((affords_new _ _).2 h)⟩

theorem LongestFitting.le_of_fits {lines : List Bytes} {cap k m : Nat}
    (h : LongestFitting count lines cap k) (hm : m ≤ lines.length)
    (hfits : totalCost count (lines.reverse.take m) ≤ cap) : m ≤ k := by
  by_contra hlt
  have hlongest := h.longest (by omega)
  have hmono := @totalCost_take_le count (k + 1) m (by omega) lines.reverse
  omega

theorem LongestFitting.unique {lines : List Bytes} {cap k m : Nat} (h : LongestFitting count lines cap k)
    (h' : LongestFitting count lines cap m) : k = m :=
  Nat.le_antisymm (h'.le_of_fits h.le h.fits) (h.le_of_fits h'.le h'.fits)

theorem affords_writeNote {note : Bool} {fit total : Nat} :
    (writeNote count w note fit total).Affords cost ↔ w.Affords
      (totalCost count (if note ∧ fit < total then [elidedNote fit total] else []) + cost) := by
  rw [writeNote]
  split_ifs
  · exact affords_writeln
  · rw [totalCost_nil, Nat.zero_add]

theorem affords_writeMarker {start : Nat} {overflow : Option Bytes} :
    (writeMarker count w start overflow).1.Affords cost ↔ w.Affords
      (totalCost count (if start = 0 then overflow.toList else []) + cost) := by
  unfold writeMarker
  split_ifs
  · cases overflow with
    | some marker => exact affords_writeln
    | none => rw [Option.toList_none, totalCost_nil, Nat.zero_add]
  · rw [totalCost_nil, Nat.zero_add]

end Writer

/-! ## The freshest lines -/

section Freshest

variable {redact : RedactionTable} {snap : RingSnapshot} {cap k : Nat} {note : Bool}

theorem length_probe (snap : RingSnapshot) :
    snap.probe.length = snap.overflow.toList.length + snap.lines.length := by
  rw [RingSnapshot.probe, length_append, length_map]

/-- All lines of the window are written exactly if the note, the marker and the lines fit the cap. -/
theorem written_eq_iff (hlongest : LongestFitting count snap.probe cap k)
    (hlt : snap.probe.length - k - snap.overflow.toList.length < snap.lines.length) :
    (writeBudgetWindow count (.new cap) redact snap cap note).written =
        snap.lines.length - (snap.probe.length - k - snap.overflow.toList.length) ↔
      totalCost count (windowTexts redact snap note k) ≤ cap := by
  obtain rfl := (longestFitting_windowThatFits count snap.probe cap).unique hlongest
  have hne : snap.lines.drop (snap.probe.length - windowThatFits count snap.probe cap -
      snap.overflow.toList.length) ≠ [] := by
    rw [Ne, drop_eq_nil_iff]
    omega
  rw [writeBudgetWindow, windowTexts, totalCost_append, totalCost_append, ← affords_new,
    ← affords_writeNote, ← affords_writeMarker, ← writeStream_eq_length_iff redact _ _ _ hne,
    length_drop]

theorem lineStart_eq (hlongest : LongestFitting count snap.probe cap k) :
    (writeBudgetWindow count (.new cap) redact snap cap note).lineStart =
      snap.probe.length - k - snap.overflow.toList.length := by
  obtain rfl := (longestFitting_windowThatFits count snap.probe cap).unique hlongest
  rfl

theorem lineStart_add_written_le (count : Bytes → Nat) (redact : RedactionTable) (snap : RingSnapshot)
    (cap : Nat) (note : Bool) :
    (writeBudgetWindow count (.new cap) redact snap cap note).lineStart +
      (writeBudgetWindow count (.new cap) redact snap cap note).written ≤ snap.lines.length := by
  have hstart : (writeBudgetWindow count (.new cap) redact snap cap note).lineStart ≤
      snap.lines.length := by
    rw [lineStart_eq (longestFitting_windowThatFits count snap.probe cap), length_probe]
    omega
  have hwritten : (writeBudgetWindow count (.new cap) redact snap cap note).written ≤
      (snap.lines.drop (writeBudgetWindow count (.new cap) redact snap cap note).lineStart).length :=
    writeStream_le ..
  rw [length_drop] at hwritten
  omega

/-- The freshest line alone. -/
theorem take_one_probe {newest : RingLine} (h : snap.lines.getLast? = some newest) :
    snap.probe.reverse.take 1 = [newest.text] := by
  rw [take_one, List.head?_reverse, RingSnapshot.probe, List.getLast?_append, List.getLast?_map, h]
  rfl

theorem suffix_range_iff {start written n : Nat} (h : start + written ≤ n) :
    List.range' start written <:+ List.range n ↔ written = 0 ∨ start + written = n := by
  rw [suffix_iff_eq_drop, length_range, length_range', range_eq_range', drop_range']
  have hlength : n - (n - written) = written := by omega
  rw [hlength, Nat.zero_add, Nat.mul_one]
  cases written with
  | zero => simp
  | succ written =>
    rw [List.range'_succ, List.range'_succ]
    constructor
    · intro heq
      obtain ⟨hstart, -⟩ := cons_eq_cons.1 heq
      exact .inr (by omega)
    · rintro (hzero | rfl)
      · cases hzero
      · rw [Nat.add_sub_cancel]

/-- The freshest lines are kept exactly if, whenever the newest line fits the cap, everything that is
written for the longest run of freshest lines that fits the cap, the note included, fits it too. -/
theorem keepsFreshest_iff (count : Bytes → Nat) (redact : RedactionTable) (snap : RingSnapshot)
    (cap : Nat) (note : Bool) :
    KeepsFreshest count redact snap cap note ↔
      ∀ k newest, LongestFitting count snap.probe cap k → snap.lines.getLast? = some newest →
        lineCost count newest.text ≤ cap → totalCost count (windowTexts redact snap note k) ≤ cap := by
  have hle := lineStart_add_written_le count redact snap cap note
  have hlongest := longestFitting_windowThatFits count snap.probe cap
  generalize windowThatFits count snap.probe cap = k at hlongest
  have hstart := @lineStart_eq count redact snap cap k note hlongest
  have hprobe := length_probe snap
  have hwritten := @written_eq_iff count redact snap cap k note hlongest
  rw [← hstart] at hwritten
  unfold KeepsFreshest BudgetWindow.places
  generalize writeBudgetWindow count (.new cap) redact snap cap note = window at hle hstart hwritten ⊢
  dsimp only
  rw [suffix_range_iff hle]
  simp only [List.mem_range'_1]
  cases hnewest : snap.lines.getLast? with
  | none =>
    have hlines := List.getLast?_eq_none_iff.1 hnewest
    rw [hlines, List.length_nil] at hle
    refine iff_of_true ⟨.inl (by omega), ?_⟩ ?_
    · rintro _ ⟨⟩
    · rintro _ _ _ ⟨⟩
  | some newest =>
    have hpos : 0 < snap.lines.length := List.length_pos_of_mem (List.mem_of_getLast? hnewest)
    have hcost : totalCost count (snap.probe.reverse.take 1) = lineCost count newest.text := by
      rw [take_one_probe hnewest]
      rfl
    by_cases hfits : lineCost count newest.text ≤ cap
    · -- the newest line is in the window, so that it is written only with all of the window
      have hk : 1 ≤ k := hlongest.le_of_fits (by omega) (hcost ▸ hfits)
      have hwritten := hwritten (by omega)
      constructor
      · rintro ⟨-, hmem⟩ k' _ hlongest' - -
        obtain rfl := hlongest.unique hlongest'
        obtain ⟨-, hmem⟩ := hmem newest rfl hfits
        exact hwritten.1 (by omega)
      · intro hspent
        have hall := hwritten.2 (hspent k newest hlongest rfl hfits)
        refine ⟨.inr (by omega), fun _ _ _ => ⟨by omega, by omega⟩⟩
    · -- nothing fits and nothing is written
      have hk : k = 0 := by
        by_contra hk
        have hle := @totalCost_take_le count 1 k (by omega) snap.probe.reverse
        have hk := hlongest.fits
        omega
      refine iff_of_true ⟨.inl (by omega), ?_⟩ ?_
      · rintro _ ⟨⟩ h
        exact absurd h hfits
      · rintro _ _ _ ⟨⟩ h
        exact absurd h hfits

end Freshest

end

/-! ## A note that costs the freshest line -/

def plainLine (length : Nat) : RingLine := ⟨List.replicate length 120, false, false⟩

/-- Three lines that cost 60, 10 and 30 bytes. -/
def threeLines : RingSnapshot := ⟨none, [plainLine 59, plainLine 9, plainLine 29]⟩

def noSecrets : RedactionTable := fromRedactionEntries noFiles [] (Bytes.ascii "[R]") false ⟨[]⟩

/-- Under a cap of 60 the last two lines fit, but behind the note only the first of them is written. -/
theorem note_drops_freshest_line :
    (writeBudgetWindow List.length (.new 60) noSecrets threeLines 60 true).places = [1] ∧
      threeLines.lines.getLast? = some (plainLine 29) ∧
      lineCost List.length (plainLine 29).text ≤ 60 ∧
      ¬KeepsFreshest List.length noSecrets threeLines 60 true := by
  have hplaces : (writeBudgetWindow List.length (.new 60) noSecrets threeLines 60 true).places = [1] := by
    decide +kernel
  refine ⟨hplaces, rfl, by decide, ?_⟩
  rintro ⟨-, hnewest⟩
  have hmem := hnewest (plainLine 29) rfl (by decide)
  rw [hplaces] at hmem
  exact absurd hmem (by decide)

end FlyCockpit.Background
