-- SUMMARY: Reading on from page to page of a file: which pages move on, and which repeat for ever.
import FlyCockpit.Lib.Paging
import FlyCockpit.Redact.Rows

/-!
# Reading on

A truncated read names the line to go on from. It is behind the line the read started from unless
the margins and the cap leave no row: then the next read is the same read again.
-/

namespace FlyCockpit.Redact

open Mark List

open Utf8 (isCharBoundary)

/-! ## Lines are text -/

variable {s p : Marked} {state : Utf8.State} {ps : List Marked} {text : Bytes}

/-- Between newlines stands text, whatever state the reader of the first line is in. -/
theorem run_pieces (h : Utf8.run state (values s) = some .start)
    (hpieces : Lines.pieces isLineFeed s = p :: ps) :
    Utf8.run state (values p) = some .start ∧ ∀ q ∈ ps, Utf8.Valid (values q) := by
  induction s generalizing state p ps with
  | nil => cases hpieces
  | cons m s ih =>
    obtain ⟨state', hstep, hrun⟩ := Option.bind_eq_some_iff.1 h
    rw [Lines.pieces] at hpieces
    split_ifs at hpieces with hm
    · obtain ⟨rfl, rfl⟩ := List.cons.inj hpieces
      have hascii : m.value < 0x80 := by
        rw [beq_iff_eq.1 hm]
        decide
      obtain ⟨rfl, rfl⟩ := Utf8.step_ascii hascii hstep
      refine ⟨by rw [values, map_singleton, Utf8.run, hstep]; rfl, fun q hq => ?_⟩
      cases hs : Lines.pieces isLineFeed s with
      | nil =>
        rw [hs] at hq
        cases hq
      | cons p ps =>
        obtain ⟨hp, hps⟩ := ih hrun hs
        rw [hs] at hq
        obtain rfl | hq := mem_cons.1 hq
        · exact hp
        · exact hps q hq
    · cases hs : Lines.pieces isLineFeed s with
      | nil =>
        rw [hs] at hpieces
        obtain ⟨rfl, rfl⟩ := List.cons.inj hpieces
        have hnil : s = [] := by rw [← Lines.flatten_pieces isLineFeed s, hs, flatten_nil]
        rw [hnil] at h
        exact ⟨h, forall_mem_nil _⟩
      | cons p' ps' =>
        rw [hs] at hpieces
        obtain ⟨rfl, rfl⟩ := List.cons.inj hpieces
        obtain ⟨hp, hps⟩ := ih hrun hs
        refine ⟨?_, hps⟩
        rw [values, map_cons, Utf8.run, hstep]
        exact hp

theorem run_splitOnP (h : Utf8.run state (values s) = some .start)
    (hsplit : s.splitOnP isLineFeed = p :: ps) :
    Utf8.run state (values p) = some .start ∧ ∀ q ∈ ps, Utf8.Valid (values q) := by
  induction s generalizing state p ps with
  | nil =>
    obtain ⟨rfl, rfl⟩ := List.cons.inj hsplit
    exact ⟨h, forall_mem_nil _⟩
  | cons m s ih =>
    obtain ⟨state', hstep, hrun⟩ := Option.bind_eq_some_iff.1 h
    obtain ⟨p', ps', hs⟩ := exists_cons_of_ne_nil (splitOnP_ne_nil isLineFeed s)
    obtain ⟨hp, hps⟩ := ih hrun hs
    rw [splitOnP_cons_eq_if_modifyHead, hs] at hsplit
    split_ifs at hsplit with hm
    · obtain ⟨rfl, rfl⟩ := List.cons.inj hsplit
      have hascii : m.value < 0x80 := by
        rw [beq_iff_eq.1 hm]
        decide
      obtain ⟨rfl, rfl⟩ := Utf8.step_ascii hascii hstep
      exact ⟨rfl, forall_mem_cons.2 ⟨hp, hps⟩⟩
    · obtain ⟨rfl, rfl⟩ := List.cons.inj hsplit
      refine ⟨?_, hps⟩
      rw [values, map_cons, Utf8.run, hstep]
      exact hp

variable {line : Marked}

theorem valid_dropLast {c : UInt8} (hc : c < 0x80) (h : Utf8.Valid (values line))
    (hlast : line.getLast?.any (·.value == c) = true) : Utf8.Valid (values line.dropLast) := by
  obtain rfl | ⟨init, m, rfl⟩ := eq_nil_or_concat line
  · exact h
  · rw [concat_eq_append, List.getLast?_concat, Option.any_some, beq_iff_eq] at hlast
    rw [concat_eq_append, values_append] at h
    rw [concat_eq_append, dropLast_concat]
    exact (Utf8.Valid.of_append_cons (by rwa [hlast]) h).1

theorem valid_of_mem_fileLines (htext : Utf8.Valid text)
    (h : line ∈ fileLines text) : Utf8.Valid (values line) := by
  obtain ⟨piece, hpiece, rfl⟩ := mem_map.1 h
  have hvalid : Utf8.Valid (values piece) := by
    rw [← values_ofSource text] at htext
    cases hpieces : Lines.pieces isLineFeed (ofSource text) with
    | nil =>
      rw [hpieces] at hpiece
      cases hpiece
    | cons p ps =>
      obtain ⟨hp, hps⟩ := run_pieces htext hpieces
      rw [hpieces] at hpiece
      obtain rfl | hpiece := mem_cons.1 hpiece
      · exact hp
      · exact hps piece hpiece
  rw [Lines.stripLineEnd, Lines.stripReturn]
  split_ifs with hend hret
  · exact valid_dropLast (by decide) (valid_dropLast (by decide) hvalid hend) hret
  · exact valid_dropLast (by decide) hvalid hend
  · exact hvalid

theorem valid_joinLines {lines : List Marked} (h : ∀ line ∈ lines, Utf8.Valid (values line)) :
    Utf8.Valid (values (joinLines lines)) := by
  induction lines with
  | nil => rfl
  | cons line lines ih =>
    obtain ⟨hline, hlines⟩ := forall_mem_cons.1 h
    obtain rfl | hne := eq_or_ne lines []
    · simpa only [joinLines, intercalate_singleton] using hline
    · have hjoin : joinLines (line :: lines) = line ++ ⟨lineFeed, none⟩ :: joinLines lines :=
        Lines.intercalate_cons_of_ne_nil _ _ hne
      rw [hjoin, values_append]
      exact hline.append ((Utf8.valid_of_ascii (forall_mem_singleton.2 (by decide))).append (ih hlines))

theorem valid_rowsFrom (htext : Utf8.Valid text) {offset limit cut : Nat}
    (hcut : isCharBoundary (values (joinLines (readWindow text offset limit))) cut = true)
    (h : line ∈ rowsFrom text offset limit cut) : Utf8.Valid (values line) := by
  have hjoined : Utf8.Valid (values (joinLines (readWindow text offset limit))) :=
    valid_joinLines fun line hline =>
      valid_of_mem_fileLines htext (mem_of_mem_drop (mem_of_mem_take hline))
  have hrest : Utf8.Valid (values ((joinLines (readWindow text offset limit)).drop cut)) := by
    rw [values, map_drop]
    exact hjoined.drop hcut
  rw [rowsFrom, splitLines] at h
  split_ifs at h
  · cases h
  · obtain ⟨p, ps, hsplit⟩ := exists_cons_of_ne_nil
      (splitOnP_ne_nil isLineFeed ((joinLines (readWindow text offset limit)).drop cut))
    obtain ⟨hp, hps⟩ := run_splitOnP hrest hsplit
    rw [hsplit] at h
    obtain rfl | h := mem_cons.1 h
    · exact hp
    · exact hps line h

/-! ## Margins -/

namespace RedactionTable

/-- Where the text of a read may start: at the first place behind the margin where nothing is cut. -/
def FrontCut (t : RedactionTable) (offset : Nat) (joined : Marked) (cut : Nat) : Prop :=
  IsLeast {c | (if offset > 1 then min (t.maxMatchLen - 1) joined.length else 0) ≤ c ∧
    t.FreeCut (values joined) c} cut

/-- Where the text of a read may end: at the last place before the margin where nothing is cut. -/
def BackCut (t : RedactionTable) (seg : Marked) (cut : Nat) : Prop :=
  IsGreatest {c | c ≤ seg.length - (t.maxMatchLen - 1) ∧ t.FreeCut (values seg) c} cut

theorem freeCut_zero (t : RedactionTable) (body : Bytes) : t.FreeCut body 0 := ⟨rfl, not_straddled_zero⟩

theorem freeCut_length (t : RedactionTable) (body : Bytes) : t.FreeCut body body.length :=
  ⟨Utf8.isCharBoundary_length body, not_straddled_of_length_le (Nat.le_refl _)⟩

theorem frontSafe_frontCut (t : RedactionTable) (offset : Nat) {joined : Marked}
    (hvalid : Utf8.Valid (values joined)) :
    ∃ cut, t.FrontCut offset joined cut ∧ t.frontSafe offset joined = joined.drop cut := by
  have hlength := length_values joined
  have hfree := t.freeCut_length (values joined)
  rw [frontSafe]
  split_ifs with hoffset
  · simp only [FrontCut, if_pos hoffset]
    rw [dropFront, dropFrontMargin]
    dsimp only
    split_ifs with hshort hmargin hcut
    · refine ⟨0, ⟨⟨by omega, t.freeCut_zero _⟩, fun c _ => Nat.zero_le c⟩, ?_⟩
      rw [hlength, Nat.sub_self]
    · refine ⟨joined.length, ⟨⟨Nat.min_le_right .., hlength ▸ hfree⟩, fun c hc => ?_⟩, rfl⟩
      exact (Nat.le_min.2 ⟨hlength ▸ hmargin, Nat.le_refl _⟩).trans hc.1
    · refine ⟨_, hlength ▸ t.straddleFixpointCut_isLeast hvalid (t.maxMatchLen - 1), ?_⟩
      rw [hlength] at hcut
      rw [length_nil, Nat.sub_zero, drop_length, drop_of_length_le hcut]
    · refine ⟨_, hlength ▸ t.straddleFixpointCut_isLeast hvalid (t.maxMatchLen - 1), ?_⟩
      rw [hlength] at hcut
      rw [length_drop, hlength, Nat.sub_sub_self (by omega)]
  · simp only [FrontCut, if_neg hoffset]
    exact ⟨0, ⟨⟨Nat.le_refl 0, t.freeCut_zero _⟩, fun c _ => Nat.zero_le c⟩, rfl⟩

theorem dropBack_backCut (t : RedactionTable) {seg : Marked} (hvalid : Utf8.Valid (values seg)) :
    ∃ cut, t.BackCut seg cut ∧ t.dropBack seg = seg.take cut := by
  have hlength := length_values seg
  have hfree := t.freeCut_length (values seg)
  unfold BackCut
  rw [dropBack, dropBackMargin]
  dsimp only
  split_ifs with hshort hmargin hcut
  · refine ⟨seg.length, ⟨⟨by omega, hlength ▸ hfree⟩, fun c hc => hc.1.trans (Nat.sub_le ..)⟩, ?_⟩
    rw [hlength]
  · refine ⟨0, ⟨⟨Nat.zero_le _, t.freeCut_zero _⟩, fun c hc => ?_⟩, rfl⟩
    have hle := hc.1
    rw [hlength] at hmargin
    omega
  · exact ⟨0, hcut ▸ hlength ▸ t.straddleFixpointCutBack_isGreatest hvalid _, rfl⟩
  · have hgreatest := t.straddleFixpointCutBack_isGreatest hvalid
      ((values seg).length - (t.maxMatchLen - 1))
    refine ⟨_, hlength ▸ hgreatest, ?_⟩
    rw [length_take_of_le (Utf8.isCharBoundary_le hgreatest.1.2.1), hlength]

/-! ## Moving on -/

/-- A read moves on if it shows the rest of the file, if its front margin passes a line end, if it
    shows all lines of a range that was asked for, or if the text that fits in the cap can be cut
    before its back margin. -/
def Moves (t : RedactionTable) (text : Bytes) (limit cap : Nat) (explicit : Bool)
    (offset : Nat) : Prop :=
  ∃ cut n, t.FrontCut offset (joinLines (readWindow text offset limit)) cut ∧
    IsGreatest {n | n ≤ (rowsFrom text offset limit cut).length ∧
      (numberLines (firstRow text offset limit cut) ((rowsFrom text offset limit cut).take n)).length ≤
        cap - 80} n ∧
    (moreLines text offset limit = false ∧ n = (rowsFrom text offset limit cut).length ∨
      (∃ m ∈ (joinLines (readWindow text offset limit)).take cut, isLineFeed m = true) ∨
      explicit = true ∧ 0 < n ∧ n = (rowsFrom text offset limit cut).length ∨
      ∃ c, 0 < c ∧ c ≤ (joinLines ((rowsFrom text offset limit cut).take n)).length - (t.maxMatchLen - 1) ∧
        t.FreeCut (values (joinLines ((rowsFrom text offset limit cut).take n))) c)

theorem splitLines_eq_nil {content : Marked} : splitLines content = [] ↔ content = [] := by
  rw [splitLines]
  split_ifs with hnil
  · exact ⟨fun _ => hnil, fun _ => rfl⟩
  · exact ⟨fun h => absurd h (splitOnP_ne_nil isLineFeed content), fun h => absurd h hnil⟩

/-- No row is shown if nothing fits, or if the back margin leaves nothing of what does. -/
theorem shownLines_eq_nil (t : RedactionTable) (omits : Bool) {kept : List Marked}
    (hvalid : ∀ line ∈ kept, Utf8.Valid (values line)) :
    t.shownLines omits kept = [] ↔ if omits then
        ¬∃ c, 0 < c ∧ c ≤ (joinLines kept).length - (t.maxMatchLen - 1) ∧
          t.FreeCut (values (joinLines kept)) c
      else kept = [] := by
  rw [shownLines]
  split_ifs
  · obtain ⟨cut, hcut, heq⟩ := t.dropBack_backCut (valid_joinLines hvalid)
    have hle : cut ≤ (joinLines kept).length := hcut.1.1.trans (Nat.sub_le ..)
    rw [splitLines_eq_nil, heq, ← length_eq_zero_iff, length_take_of_le hle]
    constructor
    · rintro rfl ⟨c, hpos, hc⟩
      exact Nat.not_lt.2 (hcut.2 hc) hpos
    · intro hnone
      exact Nat.eq_zero_of_not_pos fun hpos => hnone ⟨cut, hpos, hcut.1⟩
  · exact Iff.rfl

variable {text : Bytes} {offset : Nat}

/-- A read in terms of the first place its text may start at. -/
theorem readSliceWithByteCap_cut (t : RedactionTable) (htext : Utf8.Valid text)
    (hoffset : 1 ≤ offset) (hwithin : offset ≤ (fileLines text).length)
    (limit cap : Nat) (explicit : Bool) :
    ∃ cut, t.FrontCut offset (joinLines (readWindow text offset limit)) cut ∧
      (t.readSliceWithByteCap text offset limit cap explicit).truncated =
        (moreLines text offset limit || stopped text offset limit cap cut) ∧
      (t.readSliceWithByteCap text offset limit cap explicit).nextOffset =
        firstRow text offset limit cut + (t.shown text offset limit cap explicit cut).length := by
  have hjoined : Utf8.Valid (values (joinLines (readWindow text offset limit))) :=
    valid_joinLines fun line hline =>
      valid_of_mem_fileLines htext (mem_of_mem_drop (mem_of_mem_take hline))
  obtain ⟨cut, hcut, heq⟩ := t.frontSafe_frontCut offset hjoined
  have hle : cut ≤ (joinLines (readWindow text offset limit)).length := by
    rw [← length_values]
    exact Utf8.isCharBoundary_le hcut.1.2.1
  rw [t.readSliceWithByteCap_eq text hoffset limit cap explicit hle heq]
  exact ⟨cut, hcut, rfl, if_neg (by simpa using hwithin)⟩

/-- The line a truncated read names is in the file, and not before the line the read starts from. -/
theorem nextOffset_within (t : RedactionTable) (htext : Utf8.Valid text)
    (hoffset : 1 ≤ offset) (hwithin : offset ≤ (fileLines text).length)
    (limit cap : Nat) (explicit : Bool) (htruncated :
      (t.readSliceWithByteCap text offset limit cap explicit).truncated = true) :
    offset ≤ (t.readSliceWithByteCap text offset limit cap explicit).nextOffset ∧
      (t.readSliceWithByteCap text offset limit cap explicit).nextOffset ≤
        (fileLines text).length := by
  obtain ⟨cut, hcut, htrunc, hnext⟩ :=
    t.readSliceWithByteCap_cut htext hoffset hwithin limit cap explicit
  have hle : cut ≤ (joinLines (readWindow text offset limit)).length := by
    rw [← length_values]
    exact Utf8.isCharBoundary_le hcut.1.2.1
  have hrows := (rowsFrom_tailOf hle).2
  have hshown := (t.shown_headOf text offset limit cap explicit cut).length_le
  have hfirst : offset ≤ firstRow text offset limit cut := Nat.le_add_right ..
  have hwindow : (readWindow text offset limit).length ≤ (fileLines text).length - (offset - 1) := by
    rw [readWindow, ← length_drop]
    exact (take_sublist ..).length_le
  rw [keptRows, length_take] at hshown
  rw [htrunc, Bool.or_eq_true, moreLines, stopped, decide_eq_true_eq, decide_eq_true_eq] at htruncated
  rw [hnext]
  omega

/-- When a read stalls, from what fits (`n` of `len` rows), what may be cut (`free`) and whether the
    front margin passes a line end (`line`). -/
theorem stalls_iff {more stopped explicit : Bool} {line free none : Prop} {n len : Nat}
    (hstopped : stopped = decide (n < len)) (hle : n ≤ len) (hnone : n = len → (none ↔ n = 0))
    (hfree : free → ¬none) :
    (more || stopped) = true ∧ ¬line ∧
        (if (stopped || (more && !explicit)) = true then ¬free else none) ↔
      ¬(more = false ∧ n = len ∨ line ∨ explicit = true ∧ 0 < n ∧ n = len ∨ free) := by
  obtain hlt | rfl := Nat.lt_or_eq_of_le hle
  · rw [hstopped, decide_eq_true hlt, Bool.or_true, Bool.true_or, if_pos rfl]
    simp [Nat.ne_of_lt hlt]
  · rw [hstopped, decide_eq_false (Nat.lt_irrefl n), Bool.or_false, Bool.false_or]
    have hzero := hnone rfl
    have hpos : 0 < n ↔ ¬n = 0 := Nat.pos_iff_ne_zero
    rw [hpos, ← hzero]
    cases more with
    | false => simp
    | true =>
      cases explicit with
      | false => simp
      | true =>
        have hcut : none ∧ ¬free ↔ none := and_iff_left_of_imp fun hn hf => hfree hf hn
        simp [not_or, hcut]

theorem readSlice_moves_iff (t : RedactionTable) (htext : Utf8.Valid text)
    (hoffset : 1 ≤ offset) (hwithin : offset ≤ (fileLines text).length)
    (limit cap : Nat) (explicit : Bool) :
    ((t.readSliceWithByteCap text offset limit cap explicit).truncated = true →
      offset < (t.readSliceWithByteCap text offset limit cap explicit).nextOffset) ↔
    t.Moves text limit cap explicit offset := by
  obtain ⟨cut, hcut, htruncated, hnext⟩ :=
    t.readSliceWithByteCap_cut htext hoffset hwithin limit cap explicit
  have hfits := fitting_isGreatest text offset limit cap cut
  have hmoves : t.Moves text limit cap explicit offset ↔ (moreLines text offset limit = false ∧
          fitting text offset limit cap cut = (rowsFrom text offset limit cut).length ∨
        (∃ m ∈ (joinLines (readWindow text offset limit)).take cut, isLineFeed m = true) ∨
        explicit = true ∧ 0 < fitting text offset limit cap cut ∧
          fitting text offset limit cap cut = (rowsFrom text offset limit cut).length ∨
        ∃ c, 0 < c ∧
          c ≤ (joinLines (keptRows text offset limit cap cut)).length - (t.maxMatchLen - 1) ∧
          t.FreeCut (values (joinLines (keptRows text offset limit cap cut))) c) := by
    constructor
    · rintro ⟨cut', n, hcut', hn, h⟩
      obtain rfl := hcut'.unique hcut
      obtain rfl := hn.unique hfits
      exact h
    · exact fun h => ⟨cut, _, hcut, hfits, h⟩
  have hnone := t.shownLines_eq_nil (stopped text offset limit cap cut ||
      (moreLines text offset limit && !explicit))
    (fun line (hline : line ∈ keptRows text offset limit cap cut) =>
      valid_rowsFrom htext hcut.1.2.1 (mem_of_mem_take hline))
  have hline : firstRow text offset limit cut = offset ↔
      ¬∃ m ∈ (joinLines (readWindow text offset limit)).take cut, isLineFeed m = true := by
    rw [firstRow, Nat.add_eq_left, countP_eq_zero]
    simp
  have hfirst : offset ≤ firstRow text offset limit cut := Nat.le_add_right ..
  have hkept : fitting text offset limit cap cut = (rowsFrom text offset limit cut).length →
      (keptRows text offset limit cap cut = [] ↔ fitting text offset limit cap cut = 0) := by
    intro hall
    rw [keptRows, hall, take_length, length_eq_zero_iff]
  have hfree : (∃ c, 0 < c ∧
        c ≤ (joinLines (keptRows text offset limit cap cut)).length - (t.maxMatchLen - 1) ∧
        t.FreeCut (values (joinLines (keptRows text offset limit cap cut))) c) →
      keptRows text offset limit cap cut ≠ [] := by
    rintro ⟨c, hpos, hc, -⟩ hnil
    rw [hnil] at hc
    have hzero : (joinLines []).length = 0 := rfl
    omega
  have hstays : ¬(offset < firstRow text offset limit cut +
        (t.shown text offset limit cap explicit cut).length) ↔
      firstRow text offset limit cut = offset ∧
        t.shown text offset limit cap explicit cut = [] := by
    rw [← length_eq_zero_iff]
    omega
  rw [hmoves, htruncated, hnext, ← not_iff_not, Classical.not_imp, hstays, hline, shown, hnone]
  exact stalls_iff rfl hfits.1.1 hkept hfree

/-- The offset of the read that follows one. -/
def following (t : RedactionTable) (text : Bytes) (limit cap : Nat) (explicit : Bool)
    (offset : Nat) : Nat :=
  (t.readSliceWithByteCap text offset limit cap explicit).nextOffset

/-- The read at an offset has not come to the end of the file. -/
def Truncates (t : RedactionTable) (text : Bytes) (limit cap : Nat) (explicit : Bool)
    (offset : Nat) : Prop :=
  (t.readSliceWithByteCap text offset limit cap explicit).truncated = true

/-- A truncated read names a later line exactly if it moves, and whoever reads on comes to the end of
    the file, in no more reads than it has lines, exactly if every read on the way moves. -/
theorem reading_on_moves_iff (t : RedactionTable) {text : Bytes} (htext : Utf8.Valid text)
    (limit cap : Nat) (explicit : Bool) {offset : Nat} (hoffset : 1 ≤ offset)
    (hwithin : offset ≤ (fileLines text).length) :
    ((t.Truncates text limit cap explicit offset →
        offset < t.following text limit cap explicit offset) ↔
      t.Moves text limit cap explicit offset) ∧
    ((∃ n < (fileLines text).length, ¬t.Truncates text limit cap explicit
        ((t.following text limit cap explicit)^[n] offset)) ↔
      ∀ n, (∀ j ≤ n, t.Truncates text limit cap explicit
          ((t.following text limit cap explicit)^[j] offset)) →
        t.Moves text limit cap explicit ((t.following text limit cap explicit)^[n] offset)) := by
  have hstep : ∀ o, 1 ≤ o ∧ o ≤ (fileLines text).length → ((t.Truncates text limit cap explicit o →
          o < t.following text limit cap explicit o) ↔
        t.Moves text limit cap explicit o) :=
    fun o ho => t.readSlice_moves_iff htext ho.1 ho.2 limit cap explicit
  have hnext : ∀ o, 1 ≤ o ∧ o ≤ (fileLines text).length → t.Truncates text limit cap explicit o →
      o ≤ t.following text limit cap explicit o ∧
        t.following text limit cap explicit o ≤ (fileLines text).length :=
    fun o ho => t.nextOffset_within htext ho.1 ho.2 limit cap explicit
  have hvalid : ∀ o, 1 ≤ o ∧ o ≤ (fileLines text).length → t.Truncates text limit cap explicit o →
      1 ≤ t.following text limit cap explicit o ∧
        t.following text limit cap explicit o ≤ (fileLines text).length :=
    fun o ho hmore => ⟨ho.1.trans (hnext o ho hmore).1, (hnext o ho hmore).2⟩
  refine ⟨hstep offset ⟨hoffset, hwithin⟩, ?_, ?_⟩
  · rintro ⟨n, -, hend⟩ m hmore
    refine Paging.moves_of_ends hvalid (fun o ho hmore hnot => ?_) ⟨hoffset, hwithin⟩ hend hmore
    rw [← hstep o ho, Classical.not_imp] at hnot
    exact Nat.le_antisymm (Nat.le_of_not_lt hnot.2) (hnext o ho hmore).1
  · intro hmoves
    have hless : ∀ o, 1 ≤ o ∧ o ≤ (fileLines text).length → t.Truncates text limit cap explicit o →
        t.Moves text limit cap explicit o →
        (fileLines text).length - t.following text limit cap explicit o <
          (fileLines text).length - o := by
      intro o ho hmore hmove
      have hlt := (hstep o ho).2 hmove hmore
      have hle := (hnext o ho hmore).2
      omega
    obtain ⟨n, hn, hend⟩ := Paging.ends_of_moves hvalid hless ⟨hoffset, hwithin⟩ hmoves
    exact ⟨n, by omega, hend⟩

end RedactionTable

/-- A table of no literals. -/
def emptyTable : RedactionTable := fromRedactionEntries noFiles [] (Bytes.ascii "[R]") false ⟨[]⟩

/-- A read of a single empty line names that line as the one to go on from. -/
theorem empty_line_repeats :
    (emptyTable.readSliceWithByteCap (Bytes.ascii "\nx") 1 1 8192 false).truncated = true ∧
      (emptyTable.readSliceWithByteCap (Bytes.ascii "\nx") 1 1 8192 false).nextOffset = 1 := by
  decide +kernel

theorem two_lines_read_on :
    Utf8.Valid (Bytes.ascii "a\nb") ∧ emptyTable.Truncates (Bytes.ascii "a\nb") 1 8192 false 1 ∧
      ((emptyTable.Truncates (Bytes.ascii "a\nb") 1 8192 false 1 →
          1 < emptyTable.following (Bytes.ascii "a\nb") 1 8192 false 1) ↔
        emptyTable.Moves (Bytes.ascii "a\nb") 1 8192 false 1) := by
  refine ⟨by decide, ?_, (emptyTable.reading_on_moves_iff (by decide) 1 8192 false (by decide) (by decide)).1⟩
  unfold RedactionTable.Truncates
  decide +kernel

end FlyCockpit.Redact
