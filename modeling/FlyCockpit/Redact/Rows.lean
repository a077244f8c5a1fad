-- SUMMARY: The rows a read shows are lines of the file under their numbers, and when reading on moves on.
import FlyCockpit.Redact.Cuts
import FlyCockpit.Redact.ReadSlice

/-!
# Rows

The rows of a read are consecutive lines of the file under their own numbers. The margins cut the
first row at its start and the last at its end.
-/

namespace FlyCockpit.Redact

open List

/-! ## Numbering -/

theorem numberLines_cons (lineNo : Nat) (line : Marked) (lines : List Marked) :
    numberLines lineNo (line :: lines) = Mark.fresh (decimal lineNo ++ Bytes.ascii "|") ++ line ++
      (Mark.fresh [lineFeed] ++ numberLines (lineNo + 1) lines) := by
  rw [numberLines, zipIdx_cons, flatMap_cons, append_assoc]
  rfl

theorem numberLines_concat (lineNo : Nat) (lines : List Marked) (line : Marked) :
    ∃ before, numberLines lineNo (lines ++ [line]) =
      before ++ ⟨0x7C, none⟩ :: line ++ [⟨lineFeed, none⟩] := by
  refine ⟨numberLines lineNo lines ++ Mark.fresh (decimal (lineNo + lines.length)), ?_⟩
  simp only [numberLines, Mark.fresh, zipIdx_append, flatMap_append, zipIdx_singleton,
    flatMap_singleton, map_append, append_assoc]
  rfl

theorem length_numberLines_cons (lineNo : Nat) (line : Marked) (lines : List Marked) :
    (numberLines lineNo (line :: lines)).length =
      (decimal lineNo).length + 1 + line.length + 1 + (numberLines (lineNo + 1) lines).length := by
  simp only [numberLines_cons, length_append, Mark.fresh, length_map, Nat.add_assoc]
  rfl

/-- The lines counted are the most that fit. -/
theorem keptLines_isGreatest {byteCap lenAcc : Nat} (hacc : lenAcc ≤ byteCap) (lineNo : Nat)
    (lines : List Marked) :
    IsGreatest {n | n ≤ lines.length ∧ lenAcc + (numberLines lineNo (lines.take n)).length ≤ byteCap}
      (keptLines byteCap lineNo lenAcc lines) := by
  induction lines generalizing lineNo lenAcc with
  | nil => exact ⟨⟨Nat.le_refl 0, hacc⟩, fun n hn => hn.1⟩
  | cons line lines ih =>
    rw [keptLines]
    split_ifs with hover
    · refine ⟨⟨Nat.zero_le _, hacc⟩, fun n hn => ?_⟩
      cases n with
      | zero => exact Nat.le_refl 0
      | succ n =>
        have hfits := hn.2
        rw [take_succ_cons, length_numberLines_cons] at hfits
        omega
    · obtain ⟨⟨hle, hfits⟩, hmost⟩ := ih (Nat.le_of_not_lt hover) (lineNo + 1)
      refine ⟨⟨Nat.succ_le_succ hle, ?_⟩, fun n hn => ?_⟩
      · rw [take_succ_cons, length_numberLines_cons]
        omega
      · cases n with
        | zero => exact Nat.zero_le _
        | succ n =>
          obtain ⟨hn, hfits'⟩ := hn
          rw [take_succ_cons, length_numberLines_cons] at hfits'
          exact Nat.succ_le_succ (hmost ⟨Nat.le_of_succ_le_succ hn, by omega⟩)

variable {lines rows : List Marked} {text : Bytes} {offset limit : Nat}

/-- Lines up to a point of one of them take no more room than all. -/
theorem length_numberLines_take_le {m : Nat} {line : Marked}
    (hline : lines[m]? = some line) (lineNo r : Nat) :
    (numberLines lineNo (lines.take m ++ [line.take r])).length ≤ (numberLines lineNo lines).length := by
  induction lines generalizing m lineNo with
  | nil => cases hline
  | cons first lines ih =>
    cases m with
    | zero =>
      obtain rfl := Option.some.inj hline
      have hlength := (take_sublist r first).length_le
      rw [take_zero, nil_append, length_numberLines_cons, length_numberLines_cons]
      have hnone : (numberLines (lineNo + 1) []).length = 0 := rfl
      omega
    | succ m =>
      rw [take_succ_cons, cons_append, length_numberLines_cons, length_numberLines_cons]
      exact Nat.add_le_add_left (ih hline (lineNo + 1)) _

theorem endLine_numberLines (lineNo : Nat) (lines : List Marked) :
    endLine (numberLines lineNo lines) = numberLines lineNo lines := by
  rw [endLine, if_neg]
  rintro ⟨hne, hlast⟩
  obtain rfl | ⟨init, line, rfl⟩ := eq_nil_or_concat lines
  · exact hne rfl
  · obtain ⟨before, heq⟩ := numberLines_concat lineNo init line
    rw [concat_eq_append, heq, getLast?_concat] at hlast
    cases hlast

/-! ## Cut lines -/

theorem not_lineFeed_of_mem_fileLines {line : Marked} (h : line ∈ fileLines text) :
    ∀ m ∈ line, isLineFeed m = false :=
  Lines.not_newline_of_mem_lines h

/-- What stands on the two sides of a cut of joined lines. -/
theorem cut_joinLines {cut : Nat} (hlines : ∀ line ∈ lines, ∀ m ∈ line, isLineFeed m = false)
    (hne : lines ≠ []) (hcut : cut ≤ (joinLines lines).length) :
    ∃ m line r, lines[m]? = some line ∧ ((joinLines lines).take cut).countP isLineFeed = m ∧
      ((joinLines lines).take cut).splitOnP isLineFeed = lines.take m ++ [line.take r] ∧
      ((joinLines lines).drop cut).splitOnP isLineFeed = line.drop r :: lines.drop (m + 1) ∧
      ∃ before after, joinLines lines = before ++ line ++ after ∧ before.length + r = cut :=
  Lines.splitOnP_cut rfl hlines hne hcut

theorem mem_splitOnP_of_mem_splitLines {content row : Marked} (h : row ∈ splitLines content) :
    row ∈ content.splitOnP isLineFeed := by
  rw [splitLines] at h
  split_ifs at h
  · cases h
  · exact h

/-- The lines a read starts from. -/
def readWindow (text : Bytes) (offset limit : Nat) : List Marked :=
  ((fileLines text).drop (offset - 1)).take limit

theorem not_lineFeed_of_mem_readWindow {line : Marked}
    (h : line ∈ readWindow text offset limit) : ∀ m ∈ line, isLineFeed m = false :=
  not_lineFeed_of_mem_fileLines (mem_of_mem_drop (mem_of_mem_take h))

/-- Row `i` is line `i`, but the first row may lack a start and the last an end. -/
def Excerpt (rows lines : List Marked) : Prop :=
  ∀ i row, rows[i]? = some row → ∃ line, lines[i]? = some line ∧ row <:+: line ∧
    (0 < i → row <+: line) ∧ (i + 1 < rows.length → row <:+ line) ∧
    (0 < i → i + 1 < rows.length → row = line)

/-- Lines from a point of the first on. -/
def TailOf (rows lines : List Marked) : Prop :=
  rows = [] ∨ ∃ line r rest, lines = line :: rest ∧ rows = line.drop r :: rest

/-- Lines up to a point of the last. -/
def HeadOf (rows lines : List Marked) : Prop :=
  rows = [] ∨ rows = lines ∨ ∃ m line r, lines[m]? = some line ∧ rows = lines.take m ++ [line.take r]

theorem TailOf.excerpt {shown : List Marked} {n : Nat} (hrows : TailOf rows lines)
    (hshown : HeadOf shown (rows.take n)) : Excerpt shown lines := by
  have hrow : ∀ i row, (rows.take n)[i]? = some row →
      ∃ line, lines[i]? = some line ∧ row <:+ line ∧ (0 < i → row = line) := by
    intro i row hi
    have hget : rows[i]? = some row := by
      rw [List.getElem?_take] at hi
      split_ifs at hi
      exact hi
    obtain rfl | ⟨line, r, rest, rfl, rfl⟩ := hrows
    · cases hget
    · cases i with
      | zero =>
        obtain rfl := Option.some.inj hget
        exact ⟨line, rfl, drop_suffix r line, fun h => absurd h (Nat.lt_irrefl 0)⟩
      | succ i => exact ⟨row, hget, suffix_refl row, fun _ => rfl⟩
  intro i row hi
  obtain rfl | rfl | ⟨m, last, r, hlast, rfl⟩ := hshown
  · cases hi
  · obtain ⟨line, hline, hsuffix, heq⟩ := hrow i row hi
    exact ⟨line, hline, hsuffix.isInfix, fun h => by rw [heq h], fun _ => hsuffix, fun h _ => heq h⟩
  · have hm : m < (rows.take n).length := (List.getElem?_eq_some_iff.1 hlast).1
    have hlength : ((rows.take n).take m).length = m := length_take_of_le (Nat.le_of_lt hm)
    obtain hlt | hge := Nat.lt_or_ge i m
    · rw [List.getElem?_append_left (by rwa [hlength]), List.getElem?_take_of_lt hlt] at hi
      obtain ⟨line, hline, hsuffix, heq⟩ := hrow i row hi
      exact ⟨line, hline, hsuffix.isInfix, fun h => by rw [heq h], fun _ => hsuffix, fun h _ => heq h⟩
    · rw [List.getElem?_append_right (by rwa [hlength]), hlength, List.getElem?_singleton] at hi
      split_ifs at hi with hzero
      obtain rfl : i = m := by omega
      obtain rfl := Option.some.inj hi
      obtain ⟨line, hline, hsuffix, heq⟩ := hrow i last hlast
      have hend : ¬(i + 1 < ((rows.take n).take i ++ [last.take r]).length) := by
        rw [length_append, hlength, length_singleton]
        exact Nat.lt_irrefl _
      exact ⟨line, hline, (List.take_prefix r last).isInfix.trans hsuffix.isInfix,
        fun h => by rw [← heq h]; exact take_prefix r last, fun h => absurd h hend,
        fun _ h => absurd h hend⟩

theorem Excerpt.mono {lines' : List Marked} (h : Excerpt rows lines) (hle : lines <+: lines') :
    Excerpt rows lines' := by
  intro i row hi
  obtain ⟨line, hline, hrow⟩ := h i row hi
  obtain ⟨tail, rfl⟩ := hle
  exact ⟨line, by rwa [List.getElem?_append_left (List.getElem?_eq_some_iff.1 hline).1], hrow⟩

theorem HeadOf.length_le (h : HeadOf rows lines) : rows.length ≤ lines.length := by
  obtain rfl | rfl | ⟨m, line, r, hline, rfl⟩ := h
  · exact Nat.zero_le _
  · exact Nat.le_refl _
  · have hm := (List.getElem?_eq_some_iff.1 hline).1
    rw [length_append, length_take_of_le (Nat.le_of_lt hm)]
    exact hm

theorem HeadOf.length_numberLines_le (h : HeadOf rows lines) (lineNo : Nat) :
    (numberLines lineNo rows).length ≤ (numberLines lineNo lines).length := by
  obtain rfl | rfl | ⟨m, line, r, hline, rfl⟩ := h
  · exact Nat.zero_le _
  · exact Nat.le_refl _
  · exact length_numberLines_take_le hline lineNo r

/-! ## The parts of a read -/

/-- The number of the first row, if the margin reaches up to `cut`. -/
def firstRow (text : Bytes) (offset limit cut : Nat) : Nat :=
  offset + ((joinLines (readWindow text offset limit)).take cut).countP isLineFeed

/-- The rows there are behind the margin. -/
def rowsFrom (text : Bytes) (offset limit cut : Nat) : List Marked :=
  splitLines ((joinLines (readWindow text offset limit)).drop cut)

def moreLines (text : Bytes) (offset limit : Nat) : Bool :=
  decide ((fileLines text).length > offset - 1 + (readWindow text offset limit).length)

theorem readWindow_drop_start (text : Bytes) (offset limit k : Nat) :
    (readWindow text offset limit).drop k <+: (fileLines text).drop (offset - 1 + k) := by
  rw [readWindow, drop_take, drop_drop]
  exact take_prefix ..

/-- The rows behind the margin are lines of the window, from a point of the first on. -/
theorem rowsFrom_tailOf {cut : Nat}
    (hcut : cut ≤ (joinLines (readWindow text offset limit)).length) :
    TailOf (rowsFrom text offset limit cut)
        ((readWindow text offset limit).drop (firstRow text offset limit cut - offset)) ∧
      firstRow text offset limit cut - offset + (rowsFrom text offset limit cut).length ≤
        (readWindow text offset limit).length := by
  have hlines := @not_lineFeed_of_mem_readWindow text offset limit
  rw [rowsFrom, splitLines, firstRow, Nat.add_sub_cancel_left]
  generalize readWindow text offset limit = window at *
  obtain rfl | hne := eq_or_ne window []
  · obtain rfl := Nat.le_zero.1 hcut
    exact ⟨.inl rfl, Nat.le_refl 0⟩
  · obtain ⟨m, line, r, hline, hcount, -, hsplit, -⟩ := cut_joinLines (fun l hl => hlines hl) hne hcut
    obtain ⟨hm, hget⟩ := List.getElem?_eq_some_iff.1 hline
    rw [hcount, hsplit]
    split_ifs
    · exact ⟨.inl rfl, Nat.le_of_lt hm⟩
    · refine ⟨.inr ⟨line, r, window.drop (m + 1), by rw [drop_eq_getElem_cons hm, hget], rfl⟩, ?_⟩
      rw [length_cons, length_drop]
      omega

theorem RedactionTable.length_dropBackMargin_le (t : RedactionTable) (seg : Bytes) :
    (t.dropBackMargin seg).length ≤ seg.length := by
  obtain ⟨cut, -, heq, -⟩ := dropBackMargin_spec t (Nat.le_refl seg.length)
  rw [take_length] at heq
  rw [heq]
  exact (take_sublist cut seg).length_le

/-- What is shown are the lines kept, up to a point of the last. -/
theorem RedactionTable.shownLines_headOf (t : RedactionTable) (omits : Bool) {kept : List Marked}
    (hkept : ∀ line ∈ kept, ∀ m ∈ line, isLineFeed m = false) : HeadOf (t.shownLines omits kept) kept := by
  rw [shownLines]
  split_ifs
  · rw [dropBack, splitLines]
    split_ifs with hnil
    · exact .inl rfl
    · obtain rfl | hne := eq_or_ne kept []
      · exact absurd take_nil hnil
      · have hle := t.length_dropBackMargin_le (Mark.values (joinLines kept))
        rw [Mark.length_values] at hle
        obtain ⟨m, line, r, hline, -, hsplit, -⟩ := cut_joinLines hkept hne hle
        exact .inr (.inr ⟨m, line, r, hline, hsplit⟩)
  · exact .inr (.inl rfl)

/-- The front margin ends where no occurrence in the window is cut. -/
theorem RedactionTable.frontSafe_eq (t : RedactionTable) (offset : Nat) (joined : Marked) :
    ∃ cut ≤ joined.length, t.frontSafe offset joined = joined.drop cut ∧
      ¬t.Straddled (Mark.values joined) cut := by
  rw [frontSafe]
  split_ifs
  · obtain ⟨cut, hle, heq, hnot⟩ := dropFrontMargin_spec t [] (Mark.values joined)
    rw [Mark.length_values] at hle
    rw [nil_append, length_nil, Nat.zero_add] at hnot
    refine ⟨cut, hle, ?_, hnot⟩
    rw [dropFront, heq, length_drop, Mark.length_values, Nat.sub_sub_self hle]
  · exact ⟨0, Nat.zero_le _, rfl, not_straddled_zero⟩

namespace RedactionTable

/-- How many rows behind a margin up to `cut` fit in the cap. -/
def fitting (text : Bytes) (offset limit cap cut : Nat) : Nat :=
  keptLines (cap - 80) (firstRow text offset limit cut) 0 (rowsFrom text offset limit cut)

def keptRows (text : Bytes) (offset limit cap cut : Nat) : List Marked :=
  (rowsFrom text offset limit cut).take (fitting text offset limit cap cut)

def stopped (text : Bytes) (offset limit cap cut : Nat) : Bool :=
  decide (fitting text offset limit cap cut < (rowsFrom text offset limit cut).length)

theorem fitting_isGreatest (text : Bytes) (offset limit cap cut : Nat) :
    IsGreatest {n | n ≤ (rowsFrom text offset limit cut).length ∧
        (numberLines (firstRow text offset limit cut) ((rowsFrom text offset limit cut).take n)).length ≤
          cap - 80}
      (fitting text offset limit cap cut) := by
  have hmost := keptLines_isGreatest (Nat.zero_le (cap - 80)) (firstRow text offset limit cut)
    (rowsFrom text offset limit cut)
  simp only [Nat.zero_add] at hmost
  exact hmost

variable {offset cut : Nat}

theorem not_lineFeed_of_mem_keptRows {text : Bytes} {limit cap : Nat} {line : Marked}
    (h : line ∈ keptRows text offset limit cap cut) : ∀ m ∈ line, isLineFeed m = false :=
  Lines.not_newline_of_mem_splitOnP (mem_splitOnP_of_mem_splitLines (mem_of_mem_take h))

/-- What a read shows, if its front margin ends at `cut`. -/
def shown (t : RedactionTable) (text : Bytes) (offset limit cap : Nat) (explicit : Bool)
    (cut : Nat) : List Marked :=
  t.shownLines (stopped text offset limit cap cut ||
    (moreLines text offset limit && !explicit)) (keptRows text offset limit cap cut)

theorem shown_headOf (t : RedactionTable) (text : Bytes) (offset limit cap : Nat)
    (explicit : Bool) (cut : Nat) :
    HeadOf (t.shown text offset limit cap explicit cut) (keptRows text offset limit cap cut) :=
  t.shownLines_headOf _ fun _ h => not_lineFeed_of_mem_keptRows h

/-- The rows are within the cap. -/
theorem length_numberLines_shown_le (t : RedactionTable) (text : Bytes) (offset limit cap : Nat)
    (explicit : Bool) (cut : Nat) :
    (numberLines (firstRow text offset limit cut)
      (t.shown text offset limit cap explicit cut)).length ≤ cap - 80 := by
  exact ((t.shown_headOf ..).length_numberLines_le _).trans
    (fitting_isGreatest text offset limit cap cut).1.2

/-- A read in terms of where its front margin ends. -/
theorem readSliceWithByteCap_eq (t : RedactionTable) (text : Bytes) (hoffset : 1 ≤ offset)
    (limit cap : Nat) (explicit : Bool)
    (hle : cut ≤ (joinLines (readWindow text offset limit)).length)
    (hcut : t.frontSafe offset (joinLines (readWindow text offset limit)) =
      (joinLines (readWindow text offset limit)).drop cut) :
    t.readSliceWithByteCap text offset limit cap explicit =
      { numbered := numberLines (firstRow text offset limit cut)
          (t.shown text offset limit cap explicit cut)
        truncated := moreLines text offset limit || stopped text offset limit cap cut
        nextOffset := if decide (offset > (fileLines text).length) then (fileLines text).length + 1
          else firstRow text offset limit cut + (t.shown text offset limit cap explicit cut).length
        totalLines := (fileLines text).length
        offsetExceeded := decide (offset > (fileLines text).length) } := by
  have hfits := t.length_numberLines_shown_le text offset limit cap explicit cut
  have hrows : splitLines (t.frontSafe offset (joinLines (readWindow text offset limit))) =
      rowsFrom text offset limit cut := by rw [hcut, rowsFrom]
  have hfirst : (joinLines (readWindow text offset limit)).length -
      (t.frontSafe offset (joinLines (readWindow text offset limit))).length = cut := by
    rw [hcut, length_drop]
    omega
  have hwindow : ((fileLines text).drop (offset - 1)).take limit = readWindow text offset limit := rfl
  unfold readSliceWithByteCap
  simp only [Nat.max_eq_left hoffset, hwindow, hfirst, hrows]
  by_cases hnil : readWindow text offset limit = []
  · have hnone : rowsFrom text offset limit cut = [] := by
      rw [← hrows, hcut, hnil]
      exact if_pos drop_nil
    have hkept : keptRows text offset limit cap cut = [] := by
      rw [keptRows, hnone, take_nil]
    have hshown : t.shown text offset limit cap explicit cut = [] := by
      have hlength := (t.shown_headOf text offset limit cap explicit cut).length_le
      rw [hkept] at hlength
      exact length_eq_zero_iff.1 (Nat.le_zero.1 hlength)
    have hoffset' : firstRow text offset limit cut = offset := by
      rw [firstRow, hnil, show joinLines [] = [] from rfl, take_nil]
      rfl
    have hstopped : stopped text offset limit cap cut = false := by
      rw [stopped, hnone]
      exact decide_eq_false (Nat.not_lt_zero _)
    rw [if_pos hnil, hshown, hoffset', hstopped, Bool.or_false]
    rfl
  · have hrow : offset + ((joinLines (readWindow text offset limit)).take cut).countP isLineFeed =
      firstRow text offset limit cut := rfl
    have hfitting : keptLines (cap - 80) (firstRow text offset limit cut) 0
      (rowsFrom text offset limit cut) = fitting text offset limit cap cut := rfl
    have hshown : t.shownLines
        (decide (fitting text offset limit cap cut < (rowsFrom text offset limit cut).length) ||
          decide ((fileLines text).length > offset - 1 + (readWindow text offset limit).length) &&
            !explicit)
        ((rowsFrom text offset limit cut).take (fitting text offset limit cap cut)) =
      t.shown text offset limit cap explicit cut := rfl
    -- The rows are within the cap, so the last check of it changes nothing.
    have hcap : t.capRows (cap - 80) (numberLines (firstRow text offset limit cut)
        (t.shown text offset limit cap explicit cut)) =
      numberLines (firstRow text offset limit cut)
        (t.shown text offset limit cap explicit cut) := if_neg (Nat.not_lt.2 hfits)
    rw [if_neg hnil]
    simp only [hrow, hfitting, hshown, hcap, endLine_numberLines, decide_eq_false (Nat.not_lt.2 hfits),
      Bool.or_false]
    rfl

theorem firstRow_eq (text : Bytes) (limit cut : Nat) (hoffset : 1 ≤ offset) :
    firstRow text offset limit cut - 1 = offset - 1 + (firstRow text offset limit cut - offset) := by
  rw [firstRow]
  omega

/-- The rows of a read, in terms of a margin that cuts no occurrence. -/
theorem exists_numbered_eq (t : RedactionTable) (text : Bytes) (offset limit cap : Nat)
    (explicit : Bool) :
    ∃ first, first = max offset 1 ∧ ∃ cut ≤ (joinLines (readWindow text first limit)).length,
      ¬t.Straddled (Mark.values (joinLines (readWindow text first limit))) cut ∧
      (t.readSliceWithByteCap text offset limit cap explicit).numbered =
        numberLines (firstRow text first limit cut) (t.shown text first limit cap explicit cut) := by
  have hmax : t.readSliceWithByteCap text offset limit cap explicit =
      t.readSliceWithByteCap text (max offset 1) limit cap explicit := by
    simp only [readSliceWithByteCap, Nat.max_assoc, Nat.max_self]
  obtain ⟨cut, hle, hcut, hnot⟩ :=
    t.frontSafe_eq (max offset 1) (joinLines (readWindow text (max offset 1) limit))
  refine ⟨_, rfl, cut, hle, hnot, ?_⟩
  rw [hmax, t.readSliceWithByteCap_eq text (Nat.le_max_right ..) limit cap explicit hle hcut]

/-- The rows of a read are consecutive lines of the file, from the offset on, under their numbers. -/
theorem read_rows_excerpt (t : RedactionTable) (text : Bytes) (offset limit cap : Nat)
    (explicit : Bool) :
    ∃ first rows, max offset 1 ≤ first ∧
      (t.readSliceWithByteCap text offset limit cap explicit).numbered = numberLines first rows ∧
      Excerpt rows ((fileLines text).drop (first - 1)) := by
  obtain ⟨first, hfirst, cut, hle, -, heq⟩ := t.exists_numbered_eq text offset limit cap explicit
  refine ⟨firstRow text first limit cut, _, hfirst.ge.trans (Nat.le_add_right ..), heq, ?_⟩
  rw [firstRow_eq text limit cut ((Nat.le_max_right ..).trans hfirst.ge)]
  exact ((rowsFrom_tailOf hle).1.excerpt (t.shown_headOf ..)).mono (readWindow_drop_start ..)

end RedactionTable

end FlyCockpit.Redact
