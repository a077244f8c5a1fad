-- SUMMARY: What scrubbed numbered reads show of registered literals, those over several lines included.
import FlyCockpit.Redact.Rows

/-!
# What numbered reads show of literals

No margin cuts an occurrence inside one line, and its bytes stay together in their row, where
scrubbing finds them. An occurrence over a line end is torn apart by the numbers of the rows, or by
a carriage return that a row does not have.
-/

namespace FlyCockpit.Redact

open List Mark

namespace RedactionTable

variable {t : RedactionTable} {body : Bytes} {c j k p : Nat} {line row : Marked} {m : Mark UInt8}
  {text : Bytes} {offset limit : Nat}

/-- Nothing was copied from inside an occurrence of a literal in the file. -/
def Hides (t : RedactionTable) (text : Bytes) (out : Marked) : Prop :=
  ∀ m ∈ out, ∀ p ∈ m.origin, ¬t.Covered text p

/-- What a line has of an occurrence in the file lies in an occurrence in the line. -/
def LinesCover (t : RedactionTable) (text : Bytes) (lines : List Marked) : Prop :=
  ∀ l ∈ lines, ∀ j m, l[j]? = some m → ∀ p ∈ m.origin, t.Covered text p → t.Covered (values l) j

/-- No literal has the bar behind a row's number in it, or ends with the line feed of a row. -/
def Unframed (t : RedactionTable) : Prop :=
  ∀ e ∈ t.entries, 0x7C ∉ e.value ∧ e.value.getLast? ≠ some lineFeed

/-! ## Occurrences in a part of a text -/

theorem Covered.append (h : t.Covered body j) (before after : Bytes) :
    t.Covered (before ++ body ++ after) (before.length + j) := by
  obtain ⟨s, hs, hstart, hstop⟩ := h
  refine ⟨s.shift before.length, occurs_drop_iff.1 ?_, Nat.add_le_add_left hstart _,
    Nat.add_lt_add_left hstop _⟩
  rw [append_assoc, drop_left]
  exact (occurs_take_iff (c := body.length)).1 (by rwa [take_left]) |>.1

theorem Covered.take (h : t.Covered body j) (hc : ¬t.Straddled body c) (hj : j < c) :
    t.Covered (body.take c) j := by
  obtain ⟨s, hs, hstart, hstop⟩ := h
  obtain hs | ⟨s', -, rfl⟩ := (occurs_iff_of_not_straddled hc s).1 hs
  · exact ⟨s, hs, hstart, hstop⟩
  · exact absurd ((Nat.le_add_right ..).trans hstart) (Nat.not_le.2 hj)

theorem Covered.drop (h : t.Covered body (c + j)) (hc : ¬t.Straddled body c) :
    t.Covered (body.drop c) j := by
  obtain ⟨s, hs, hstart, hstop⟩ := h
  obtain hs | ⟨s', hs', rfl⟩ := (occurs_iff_of_not_straddled hc s).1 hs
  · have hle := (occurs_take_iff.1 hs).2
    omega
  · exact ⟨s', hs', Nat.le_of_add_le_add_left hstart, Nat.lt_of_add_lt_add_left hstop⟩

theorem not_straddled_part (before after : Bytes)
    (h : ¬t.Straddled (before ++ body ++ after) (before.length + c)) : ¬t.Straddled body c := by
  rintro ⟨e, he, s, hocc, hs, hcut⟩
  refine h ⟨e, he, before.length + s, ?_, by omega, by omega⟩
  rw [append_assoc, drop_length_add_append]
  exact hocc.trans ((prefix_append ..).drop s)

/-! ## Rows keep the occurrences of their lines -/

/-- The row is a part of the line, in which it has what it shows of an occurrence in the line. -/
def Keeps (t : RedactionTable) (l row : Marked) : Prop :=
  ∀ j m, row[j]? = some m → ∃ i, l[i]? = some m ∧ (t.Covered (values l) i → t.Covered (values row) j)

theorem Keeps.refl (t : RedactionTable) (line : Marked) : t.Keeps line line :=
  fun j _ hj => ⟨j, hj, id⟩

theorem Keeps.trans {row' : Marked} (h : t.Keeps line row) (h' : t.Keeps row row') :
    t.Keeps line row' := by
  intro j m hj
  obtain ⟨i, hi, hrow⟩ := h' j m hj
  obtain ⟨i', hi', hline⟩ := h i m hi
  exact ⟨i', hi', hrow ∘ hline⟩

theorem keeps_take (hc : ¬t.Straddled (values line) c) : t.Keeps line (line.take c) := by
  intro j m hj
  rw [List.getElem?_take] at hj
  split_ifs at hj with hlt
  refine ⟨j, hj, fun h => ?_⟩
  rw [values, map_take]
  exact h.take hc hlt

theorem keeps_drop (hc : ¬t.Straddled (values line) c) : t.Keeps line (line.drop c) := by
  intro j m hj
  rw [List.getElem?_drop] at hj
  refine ⟨c + j, hj, fun h => ?_⟩
  rw [values, map_drop]
  exact h.drop hc

/-- On both sides of a cut that no occurrence straddles stand lines, or parts of the one it falls in
    that keep its occurrences. -/
theorem keeps_cut {lines : List Marked} (hlines : ∀ line ∈ lines, ∀ m ∈ line, isLineFeed m = false)
    (hle : c ≤ (joinLines lines).length) (hc : ¬t.Straddled (values (joinLines lines)) c) :
    (∀ row ∈ splitLines ((joinLines lines).take c), ∃ line ∈ lines, t.Keeps line row) ∧
      ∀ row ∈ splitLines ((joinLines lines).drop c), ∃ line ∈ lines, t.Keeps line row := by
  obtain rfl | hne := eq_or_ne lines []
  · have hnone : splitLines [] = [] := rfl
    rw [show joinLines [] = [] from rfl, take_nil, drop_nil, hnone]
    exact ⟨forall_mem_nil _, forall_mem_nil _⟩
  obtain ⟨m, line, r, hline, -, htake, hdrop, before, after, hjoined, hr⟩ :=
    cut_joinLines hlines hne hle
  have hmem := mem_of_getElem? hline
  have hcut : ¬t.Straddled (values line) r := by
    refine not_straddled_part (values before) (values after) ?_
    rwa [← values_append, ← values_append, ← hjoined, length_values, hr]
  refine ⟨fun row h => ?_, fun row h => ?_⟩
  · have h := mem_splitOnP_of_mem_splitLines h
    rw [htake, mem_append, mem_singleton] at h
    obtain h | rfl := h
    · exact ⟨row, mem_of_mem_take h, .refl t row⟩
    · exact ⟨line, hmem, keeps_take hcut⟩
  · have h := mem_splitOnP_of_mem_splitLines h
    rw [hdrop, mem_cons] at h
    obtain rfl | h := h
    · exact ⟨line, hmem, keeps_drop hcut⟩
    · exact ⟨row, mem_of_mem_drop h, .refl t row⟩

theorem keeps_shownLines {omits : Bool} {kept : List Marked}
    (hkept : ∀ line ∈ kept, ∀ m ∈ line, isLineFeed m = false) (h : row ∈ t.shownLines omits kept) :
    ∃ line ∈ kept, t.Keeps line row := by
  rw [shownLines] at h
  split_ifs at h
  · obtain ⟨cut, hle, heq, hnot⟩ := dropBackMargin_spec t (Nat.le_refl (values (joinLines kept)).length)
    rw [take_length] at heq
    rw [dropBack, heq, length_take_of_le hle] at h
    rw [length_values] at hle
    exact (keeps_cut hkept hle hnot).1 row h
  · exact ⟨row, h, .refl t row⟩

/-- What a read shows are numbered parts of lines in which no occurrence is cut. -/
theorem read_rows_keep (t : RedactionTable) (text : Bytes) (offset limit cap : Nat)
    (explicit : Bool) :
    ∃ first rows, (t.readSliceWithByteCap text offset limit cap explicit).numbered =
        numberLines first rows ∧
      ∀ row ∈ rows, ∃ line ∈ readWindow text offset limit, t.Keeps line row := by
  obtain ⟨first, hfirst, cut, hle, hnot, heq⟩ := t.exists_numbered_eq text offset limit cap explicit
  have hwindow : readWindow text first limit = readWindow text offset limit := by
    rw [readWindow, readWindow, show first - 1 = offset - 1 by omega]
  refine ⟨_, _, heq, fun row hrow => ?_⟩
  obtain ⟨kept, hkept, hrow⟩ := keeps_shownLines (fun _ h => not_lineFeed_of_mem_keptRows h) hrow
  obtain ⟨line, hline, hkeeps⟩ :=
    (keeps_cut (fun _ h => not_lineFeed_of_mem_readWindow h) hle hnot).2 kept (mem_of_mem_take hkept)
  exact ⟨line, hwindow ▸ hline, hkeeps.trans hrow⟩

/-- A byte of the file stands in a row. -/
theorem exists_row {n : Nat} {rows : List Marked} (hk : (numberLines n rows)[k]? = some m)
    (hp : p ∈ m.origin) :
    ∃ row ∈ rows, ∃ before after j, numberLines n rows = before ++ row ++ after ∧
      row[j]? = some m ∧ before.length + j = k := by
  induction rows generalizing n k with
  | nil => cases hk
  | cons row rows ih =>
    have hnumber : m ∉ fresh (decimal n ++ Bytes.ascii "|") := by
      intro hm
      have hmem := mem_origins.2 ⟨m, hm, hp⟩
      rw [origins_fresh] at hmem
      cases hmem
    rw [numberLines_cons] at hk ⊢
    generalize fresh (decimal n ++ Bytes.ascii "|") = number at hk hnumber ⊢
    rw [List.getElem?_append] at hk
    split_ifs at hk with hlt
    · rw [List.getElem?_append] at hk
      split_ifs at hk with hlt
      · exact absurd (mem_of_getElem? hk) hnumber
      · exact ⟨row, mem_cons_self, number, _, _, rfl, hk, Nat.add_sub_cancel' (Nat.le_of_not_lt hlt)⟩
    · cases hi : k - (number ++ row).length with
      | zero =>
        rw [hi] at hk
        cases hk
        cases hp
      | succ i =>
        rw [hi] at hk
        obtain ⟨row', hrow', before, after, j, hsplit, hj, hindex⟩ := ih hk
        refine ⟨row', mem_cons_of_mem _ hrow', number ++ row ++ ⟨lineFeed, none⟩ :: before, after, j,
          by simp [hsplit]; rfl, hj, ?_⟩
        rw [length_append, length_cons]
        omega

/-- A read from the first line with room for its rows shows its lines as they are. -/
theorem exists_read_eq (t : RedactionTable) (hline : line ∈ readWindow text 1 limit)
    (hne : line ≠ []) :
    ∃ cap, (t.readSliceWithByteCap text 1 limit cap true).numbered =
      numberLines 1 (readWindow text 1 limit) := by
  have hsplit : (joinLines (readWindow text 1 limit)).splitOnP isLineFeed = readWindow text 1 limit :=
    Lines.splitOnP_intercalate rfl (fun _ h => not_lineFeed_of_mem_readWindow h) (ne_nil_of_mem hline)
  have hrows : rowsFrom text 1 limit 0 = readWindow text 1 limit := by
    rw [rowsFrom, drop_zero, splitLines, if_neg, hsplit]
    intro hnil
    rw [hnil] at hsplit
    rw [← hsplit] at hline
    exact hne (mem_singleton.1 hline)
  refine ⟨(numberLines 1 (readWindow text 1 limit)).length + 80, ?_⟩
  generalize hcap : (numberLines 1 (readWindow text 1 limit)).length + 80 = cap
  have hfitting : fitting text 1 limit cap 0 = (readWindow text 1 limit).length := by
    refine (fitting_isGreatest text 1 limit cap 0).unique ⟨?_, fun n hn => hrows ▸ hn.1⟩
    refine ⟨Nat.le_of_eq (congrArg length hrows.symm), ?_⟩
    rw [hrows, take_length, ← hcap]
    exact Nat.le_refl _
  rw [t.readSliceWithByteCap_eq text (Nat.le_refl 1) limit cap true (Nat.zero_le _) rfl]
  rw [shown, stopped, keptRows, hfitting, hrows, decide_eq_false (Nat.lt_irrefl _), Bool.not_true,
    Bool.and_false, take_length]
  rfl

/-- Around the last row stand a bar and a line feed, which a literal may not have there. -/
theorem covered_of_framed (ht : t.Unframed) {before : Bytes} (hj : j < body.length)
    (h : t.Covered (before ++ 0x7C :: body ++ [lineFeed]) (before.length + (j + 1))) :
    t.Covered body j := by
  have hbar : ¬t.Straddled (before ++ [0x7C] ++ (body ++ [lineFeed])) (before ++ [0x7C]).length := by
    rintro ⟨e, he, s, hocc, hs, hlt⟩
    rw [drop_append_of_le_length (Nat.le_of_lt hs)] at hocc
    rw [length_append, length_singleton] at hs hlt
    refine (ht e he).1 ((prefix_of_prefix_length_le (prefix_append ..) hocc ?_).subset ?_)
    · rw [length_drop, length_append, length_singleton]
      omega
    · rw [drop_append_of_le_length (Nat.le_of_lt_succ hs)]
      exact mem_concat_self
  have hend : ¬t.Straddled (body ++ [lineFeed]) body.length := by
    rintro ⟨e, he, s, hocc, hs, hlt⟩
    refine (ht e he).2 ?_
    rw [hocc.eq_of_length_le, drop_append_of_le_length (Nat.le_of_lt hs), getLast?_concat]
    rw [length_drop, length_append, length_singleton]
    omega
  have hsame : before ++ 0x7C :: body ++ [lineFeed] = before ++ [0x7C] ++ (body ++ [lineFeed]) := by simp
  have hindex : before.length + (j + 1) = (before ++ [0x7C]).length + j := by
    rw [length_append, length_singleton]
    omega
  rw [hsame, hindex] at h
  have hrest := h.drop hbar
  rw [drop_left] at hrest
  have hbody := hrest.take hend hj
  rwa [take_left] at hbody

section Scrubbed

variable {current : CoverageTableBinding → Bool} (h : t.Enforces current)

include h

theorem hides_of_linesCover (cap : Nat) (explicit : Bool)
    (hlines : t.LinesCover text (readWindow text offset limit)) : t.Hides text
      (t.scrubMarked current (t.readSliceWithByteCap text offset limit cap explicit).numbered) := by
  intro m hm p hp hcovered
  obtain ⟨first, rows, hnumbered, hkeep⟩ := t.read_rows_keep text offset limit cap explicit
  obtain ⟨k, hk, huncovered⟩ := (h.mem_scrubMarked hp).1 hm
  rw [hnumbered] at hk huncovered
  obtain ⟨row, hrow, before, after, j, hsplit, hj, rfl⟩ := exists_row hk hp
  obtain ⟨line, hline, hkept⟩ := hkeep row hrow
  obtain ⟨i, hi, hkept⟩ := hkept j m hj
  have hin := (hkept (hlines line hline i m hi p hp hcovered)).append (values before) (values after)
  rw [hsplit, values_append, values_append, ← length_values before] at huncovered
  exact huncovered hin

theorem linesCover_of_hides (ht : t.Unframed)
    (hhides : ∀ offset limit cap explicit, t.Hides text
      (t.scrubMarked current (t.readSliceWithByteCap text offset limit cap explicit).numbered)) :
    t.LinesCover text (fileLines text) := by
  intro line hline j m hj p hp hcovered
  obtain ⟨i, hi⟩ := mem_iff_getElem?.1 hline
  have hwindow : readWindow text 1 (i + 1) = (fileLines text).take i ++ [line] := by
    rw [readWindow, Nat.sub_self, drop_zero, take_add_one, hi]
    rfl
  have hshown : line ∈ readWindow text 1 (i + 1) := by
    rw [hwindow]
    exact mem_concat_self
  obtain ⟨cap, hread⟩ := t.exists_read_eq hshown (by rintro rfl; cases hj)
  obtain ⟨before, hnumbered⟩ := numberLines_concat 1 ((fileLines text).take i) line
  rw [hwindow, hnumbered] at hread
  have hlt := (List.getElem?_eq_some_iff.1 hj).1
  by_contra huncovered
  refine hhides 1 (i + 1) cap true m ((h.mem_scrubMarked hp).2
    ⟨before.length + (j + 1), ?_, fun hin => huncovered ?_⟩) p hp hcovered
  · rw [hread, append_assoc, List.getElem?_append_right (Nat.le_add_right ..), Nat.add_sub_cancel_left,
      cons_append, List.getElem?_cons_succ, List.getElem?_append_left hlt, hj]
  · rw [hread, values_append, values_append, ← length_values before] at hin
    exact covered_of_framed ht (by rwa [length_values]) hin

end Scrubbed

end RedactionTable

/-- A table with one literal, which has two lines. -/
def twoLineTable : RedactionTable :=
  fromRedactionEntries noFiles
    [.ordinary (Bytes.ascii "AAAA\nBBBB") (by decide) (Bytes.ascii "$KEY") .environment]
    (Bytes.ascii "[R]") false ⟨[]⟩

end FlyCockpit.Redact
