-- SUMMARY: The regions that the stages of the edit matcher return, and when an edit cannot crash.
import FlyCockpit.Edit.Matcher

/-!
# Matched regions

Every span of a match holds a text of the file, the spans do not overlap, and the canonical text is
the text of the first one; so the replacement succeeds. Only the anchor stages can crash, and they
do on an empty file.
-/

namespace FlyCockpit.Edit

open Option

open Text (lines)

open List

open Search (size Occurs matchIndices)

theorem utf8Size_pos (c : Char) : 0 < c.utf8Size := c.utf8Size_pos

/-! ## Texts at spans -/

variable {text file target : Text} {span : ByteRange}

theorem len_pos (h : text ≠ []) : 0 < len text := by
  obtain ⟨c, rest, rfl⟩ := exists_cons_of_ne_nil h
  rw [len, Search.size_cons]
  exact Nat.add_pos_left (utf8Size_pos c) _

/-- The span of the file that holds this text. -/
def HoldsAt (file : Text) (span : ByteRange) (text : Text) : Prop :=
  ∃ before after, file = before ++ (text ++ after) ∧ span = ⟨len before, len before + len text⟩

theorem holdsAt_iff : HoldsAt file span text ↔
    Occurs Char.utf8Size text file span.start ∧ span.stop = span.start + len text := by
  constructor
  · rintro ⟨before, after, rfl, rfl⟩
    exact ⟨⟨before, after, rfl, rfl⟩, rfl⟩
  · rintro ⟨⟨before, after, rfl, hstart⟩, hstop⟩
    refine ⟨before, after, rfl, ?_⟩
    rw [← show span.start = len before from hstart, ← hstop]

theorem HoldsAt.slice (h : HoldsAt file span text) : sliceText file span = .ok text := by
  obtain ⟨before, after, rfl, rfl⟩ := h
  rw [sliceText, len, len, Search.slice_size utf8Size_pos]

/-- A span holds one text. -/
theorem HoldsAt.unique {text' : Text} (h : HoldsAt file span text)
    (h' : HoldsAt file span text') : text = text' :=
  Except.ok.inj (h.slice.symm.trans h'.slice)

theorem HoldsAt.boundary (h : HoldsAt file span text) :
    isCharBoundary file span.start = true ∧ isCharBoundary file span.stop = true := by
  obtain ⟨before, after, rfl, rfl⟩ := h
  constructor
  · rw [isCharBoundary, len, Search.splitAt_size utf8Size_pos]
    rfl
  · rw [isCharBoundary, len, len, ← Search.size_append, ← append_assoc,
      Search.splitAt_size utf8Size_pos]
    rfl

theorem HoldsAt.le (h : HoldsAt file span text) :
    span.start ≤ span.stop ∧ span.stop ≤ len file := by
  obtain ⟨before, after, rfl, rfl⟩ := h
  simp only [len, Search.size_append]
  omega

/-- Between two cuts of the file. -/
theorem exists_sliceText {i j : Nat} (hi : isCharBoundary file i = true)
    (hj : isCharBoundary file j = true) (hij : i ≤ j) : ∃ text, sliceText file ⟨i, j⟩ = .ok text := by
  obtain ⟨text, htext⟩ := Search.exists_slice utf8Size_pos hi hj hij
  exact ⟨text, by rw [sliceText, htext]⟩

/-! ## Replacing -/

theorem replaceSpansFrom_ok {replacement : Text} {spans : List ByteRange} {cursor : Nat}
    (hcursor : isCharBoundary file cursor = true) (hle : cursor ≤ len file)
    (hspans : ∀ span ∈ spans, (∃ text, HoldsAt file span text) ∧ cursor ≤ span.start)
    (hapart : spans.Pairwise fun a b => a.stop ≤ b.start) :
    ∃ out, replaceSpansFrom file replacement cursor spans = .ok out := by
  induction spans generalizing cursor with
  | nil =>
    have hend : isCharBoundary file (len file) = true := by
      have hsplit := Search.splitAt_size utf8Size_pos file []
      rw [append_nil] at hsplit
      rw [isCharBoundary, len, hsplit]
      rfl
    exact exists_sliceText hcursor hend hle
  | cons span spans ih =>
    obtain ⟨⟨⟨text, htext⟩, hstart⟩, hrest⟩ := forall_mem_cons.1 hspans
    obtain ⟨hspan, hapart⟩ := pairwise_cons.1 hapart
    obtain ⟨hbstart, hbstop⟩ := htext.boundary
    obtain ⟨hordered, hbound⟩ := htext.le
    obtain ⟨kept, hkept⟩ := exists_sliceText hcursor hbstart hstart
    obtain ⟨behind, hbehind⟩ := ih hbstop hbound (fun s hs => ⟨(hrest s hs).1, hspan s hs⟩) hapart
    refine ⟨kept ++ replacement ++ behind, ?_⟩
    have hvalid : ¬(span.start < cursor ∨ span.stop < span.start ∨ span.stop > len file ∨
        (!isCharBoundary file span.start) = true ∨ (!isCharBoundary file span.stop) = true) := by
      rw [hbstart, hbstop]
      simp only [Bool.not_true, Bool.false_eq_true, or_false]
      omega
    rw [replaceSpansFrom, if_neg hvalid, hkept, hbehind]
    rfl

/-- What a match says of the file. -/
structure Match.Valid (file : Text) (m : Match) : Prop where
  canonical_ne : m.canonical ≠ []
  holds : ∀ span ∈ m.spans, ∃ text, HoldsAt file span text
  apart : m.spans.Pairwise fun a b => a.stop ≤ b.start
  first : ∃ span rest, m.spans = span :: rest ∧ HoldsAt file span m.canonical

theorem Match.Valid.replaceSpans_ok {m : Match} (h : m.Valid file) (replacement : Text) :
    ∃ out, replaceSpans file m.spans replacement = .ok out := by
  obtain ⟨span, rest, hspans, -⟩ := h.first
  have hne : m.spans ≠ [] := by
    rw [hspans]
    exact cons_ne_nil _ _
  have hstart : isCharBoundary file 0 = true := by
    cases file <;> rfl
  rw [replaceSpans, if_neg hne]
  exact replaceSpansFrom_ok hstart (Nat.zero_le _) (fun s hs => ⟨h.holds s hs, Nat.zero_le _⟩) h.apart

/-! ## The exact stage -/

/-- The spans of the exact matches tile the places where the target stands. -/
theorem tiles_exactSpans (htarget : target ≠ []) :
    Tiles ByteRange.start ByteRange.stop (HoldsAt file · target) (exactSpans file target) := by
  have htiles := Search.tiles_matchIndices utf8Size_pos htarget file
  refine ⟨forall_mem_map.2 fun start hstart => holdsAt_iff.2 ⟨htiles.occurs start hstart, rfl⟩,
    List.Pairwise.map _ (fun _ _ h => h) htiles.apart, fun span hspan => ?_⟩
  obtain ⟨start, hstart, hle, hlt⟩ := htiles.covers span.start (holdsAt_iff.1 hspan).1
  exact ⟨_, mem_map_of_mem hstart, hle, hlt⟩

theorem exactMatch_eq (file target : Text) (replaceAll : Bool) : exactMatch file target replaceAll =
      if exactSpans file target = [] then .ok none
      else if !replaceAll ∧ (exactSpans file target).length > 1 then .error multipleExact
      else .ok (some ⟨target, exactSpans file target, .exact⟩) := by
  unfold exactMatch
  dsimp only
  split_ifs with hnil hmany hall
  · rfl
  · rfl
  · rfl
  · have hlength : (exactSpans file target).length ≤ 1 := by
      have hfalse : replaceAll = false := Bool.eq_false_iff.2 hall
      rw [hfalse] at hmany
      simpa using hmany
    rw [take_of_length_le hlength]

theorem exactMatch_valid {replaceAll : Bool} {m : Match} (htarget : target ≠ [])
    (h : exactMatch file target replaceAll = .ok (some m)) :
    m = ⟨target, exactSpans file target, .exact⟩ ∧ m.Valid file := by
  rw [exactMatch_eq] at h
  split_ifs at h with hnil hmany
  · cases h
  · cases h
    have htiles := @tiles_exactSpans file target htarget
    refine ⟨rfl, htarget, fun span hspan => ⟨target, htiles.occurs span hspan⟩, htiles.apart, ?_⟩
    obtain ⟨span, rest, hspans⟩ := exists_cons_of_ne_nil hnil
    refine ⟨span, rest, hspans, htiles.occurs span ?_⟩
    rw [hspans]
    exact mem_cons_self

/-! ## Windows -/

theorem candForCompare_prefix (target candidate : Text) : candForCompare target candidate <+: candidate := by
  unfold candForCompare stripNewline
  split_ifs
  · exact prefix_refl _
  · exact dropLast_prefix candidate
  · exact prefix_refl _

theorem candForCompare_eq_nil {candidate : Text} (h : candForCompare target candidate = []) :
    candidate = [] ∨ ∃ c, candidate = [c] ∧ isNewline c = true := by
  unfold candForCompare stripNewline at h
  split_ifs at h with htarget hlast
  · exact .inl h
  · obtain ⟨c, hc, hnewline⟩ := any_eq_true _ _ |>.1 hlast
    obtain ⟨front, rfl⟩ := List.getLast?_eq_some_iff.1 hc
    rw [dropLast_concat] at h
    rw [h]
    exact .inr ⟨c, rfl, hnewline⟩
  · exact .inl h

theorem holdsAt_window (file target : Text) (n start : Nat) :
    HoldsAt file (windowSpan file target n start) (windowText file target n start) := by
  obtain ⟨after, hafter⟩ := candForCompare_prefix target (((splitInclusive file).drop start).take n).flatten
  refine ⟨((splitInclusive file).take start).flatten,
    after ++ (((splitInclusive file).drop start).drop n).flatten, ?_, rfl⟩
  have hfile : (splitInclusive file).flatten = file := Lines.flatten_pieces isNewline file
  rw [windowText, ← append_assoc _ after, hafter, ← flatten_append, take_append_drop,
    ← flatten_append, take_append_drop, hfile]

/-- The windows of a list that have the target's normal form. -/
def matching (file target : Text) (n : Nat) (normalize : Text → Text) (l : List Nat) : List Nat :=
  l.filter fun start => normalize (windowText file target n start) = normalize target

section Hits

variable {file target : Text} {n : Nat} {normalize : Text → Text} {l : List Nat} {hits : List ByteRange}
  {lastEnd : Nat}

theorem windowAt_ok {start : Nat} (h : start + n ≤ (splitInclusive file).length) :
    windowAt file target n start =
      .ok (windowSpan file target n start, windowText file target n start) :=
  if_pos h

theorem matching_cons (start : Nat) : matching file target n normalize (start :: l) =
    if normalize (windowText file target n start) = normalize target then
      start :: matching file target n normalize l
    else matching file target n normalize l := by
  simp only [matching, filter_cons, decide_eq_true_eq]

/-- One window after the other. -/
theorem hitsFrom_cons {start : Nat} {replaceAll : Bool}
    (h : start + n ≤ (splitInclusive file).length) :
    hitsFrom file target n replaceAll normalize (start :: l) hits lastEnd =
      if normalize (windowText file target n start) = normalize target then
        if !replaceAll ∧ hits ≠ [] then .error multipleNormalized
        else if replaceAll ∧ lineStart file start < lastEnd then
          hitsFrom file target n replaceAll normalize l hits lastEnd
        else hitsFrom file target n replaceAll normalize l (hits ++ [windowSpan file target n start])
          (windowSpan file target n start).stop
      else hitsFrom file target n replaceAll normalize l hits lastEnd := by
  rw [hitsFrom, windowAt_ok h]
  rfl

/-- Without `replace_all`, the windows are collected until there is a second one. -/
theorem hitsFrom_false (hl : ∀ start ∈ l, start + n ≤ (splitInclusive file).length) :
    hitsFrom file target n false normalize l hits lastEnd =
      if hits.length + (matching file target n normalize l).length ≤ 1 ∨
          matching file target n normalize l = [] then
        .ok (hits ++ (matching file target n normalize l).map (windowSpan file target n))
      else .error multipleNormalized := by
  induction l generalizing hits lastEnd with
  | nil => simp [hitsFrom, matching]
  | cons start l ih =>
    obtain ⟨hstart, hl⟩ := forall_mem_cons.1 hl
    rw [hitsFrom_cons hstart, matching_cons]
    by_cases hnormal : normalize (windowText file target n start) = normalize target
    · rw [if_pos hnormal, if_pos hnormal]
      by_cases hhits : hits = []
      · subst hhits
        rw [if_neg (by simp), if_neg (by simp), ih hl]
        cases matching file target n normalize l with
        | nil => simp
        | cons start' l' => simp
      · have hlength : 0 < hits.length := length_pos_iff.2 hhits
        rw [if_pos ⟨rfl, hhits⟩, if_neg]
        simp only [length_cons, reduceCtorEq, or_false]
        omega
    · rw [if_neg hnormal, if_neg hnormal, ih hl]

theorem lineStart_mono (file : Text) {i j : Nat} (h : i ≤ j) : lineStart file i ≤ lineStart file j := by
  obtain ⟨rest, hrest⟩ : (splitInclusive file).take i <+: (splitInclusive file).take j :=
    take_prefix_take_left h
  rw [lineStart, lineStart, ← hrest, flatten_append, len, len, Search.size_append]
  exact Nat.le_add_right _ _

/-- With `replace_all`, the windows are tiled from the end of the last hit on. -/
theorem hitsFrom_true (hl : ∀ start ∈ l, start + n ≤ (splitInclusive file).length)
    (hsorted : l.Pairwise (· < ·))
    (hne : ∀ start ∈ matching file target n normalize l, windowText file target n start ≠ []) :
    ∃ more, hitsFrom file target n true normalize l hits lastEnd = .ok (hits ++ more) ∧
      (∀ span ∈ more, lastEnd ≤ span.start ∧
        ∃ start ∈ matching file target n normalize l, span = windowSpan file target n start) ∧
      more.Pairwise (fun a b => a.stop ≤ b.start) ∧
      ∀ start ∈ matching file target n normalize l, lineStart file start < lastEnd ∨
        ∃ span ∈ more, span.start ≤ lineStart file start ∧ lineStart file start < span.stop := by
  induction l generalizing hits lastEnd with
  | nil =>
    exact ⟨[], by rw [hitsFrom, append_nil], by simp, List.Pairwise.nil,
      fun start hstart => absurd hstart not_mem_nil⟩
  | cons start l ih =>
    obtain ⟨hstart, hl⟩ := forall_mem_cons.1 hl
    obtain ⟨hbefore, hsorted⟩ := pairwise_cons.1 hsorted
    rw [hitsFrom_cons hstart, matching_cons]
    rw [matching_cons] at hne
    by_cases hnormal : normalize (windowText file target n start) = normalize target
    · rw [if_pos hnormal, if_pos hnormal, if_neg (by simp)]
      rw [if_pos hnormal] at hne
      obtain ⟨htext, hne⟩ := forall_mem_cons.1 hne
      by_cases hlast : lineStart file start < lastEnd
      · rw [if_pos ⟨rfl, hlast⟩]
        obtain ⟨more, hmore, hspans, hapart, hcovers⟩ := @ih hits lastEnd hl hsorted hne
        refine ⟨more, hmore, fun span hspan => ?_, hapart, forall_mem_cons.2 ⟨.inl hlast, hcovers⟩⟩
        obtain ⟨hle, start', hstart', hwindow⟩ := hspans span hspan
        exact ⟨hle, start', mem_cons_of_mem start hstart', hwindow⟩
      · rw [if_neg fun h => hlast h.2]
        obtain ⟨more, hmore, hspans, hapart, hcovers⟩ := @ih (hits ++ [windowSpan file target n start])
          (windowSpan file target n start).stop hl hsorted hne
        have hordered := (holdsAt_window file target n start).le.1
        have hfirst : lastEnd ≤ (windowSpan file target n start).start := Nat.le_of_not_lt hlast
        refine ⟨windowSpan file target n start :: more, by rw [hmore, append_assoc]; rfl, ?_, ?_, ?_⟩
        · refine forall_mem_cons.2 ⟨⟨hfirst, start, mem_cons_self, rfl⟩, fun span hspan => ?_⟩
          obtain ⟨hle, start', hstart', hwindow⟩ := hspans span hspan
          exact ⟨by omega, start', mem_cons_of_mem start hstart', hwindow⟩
        · exact pairwise_cons.2 ⟨fun span hspan => (hspans span hspan).1, hapart⟩
        · refine forall_mem_cons.2 ⟨.inr ⟨_, mem_cons_self, Nat.le_refl _, ?_⟩, ?_⟩
          · exact Nat.lt_add_of_pos_right (len_pos htext)
          · intro start' hstart'
            have hlater := hbefore start' (mem_of_mem_filter hstart')
            obtain hinside | ⟨span, hspan, hcover⟩ := hcovers start' hstart'
            · exact .inr ⟨_, mem_cons_self, lineStart_mono file hlater.le, hinside⟩
            · exact .inr ⟨span, mem_cons_of_mem _ hspan, hcover⟩
    · rw [if_neg hnormal, if_neg hnormal]
      rw [if_neg hnormal] at hne
      exact ih hl hsorted hne

end Hits

/-! ## The normalizing stages -/

/-- The windows that a normalizing stage looks at, if it looks at any. -/
def stageStarts (file target : Text) (normalize : Text → Text) : List Nat :=
  if Text.trim (normalize target) = [] ∨ (splitInclusive file).length < targetLines target then []
  else starts file (targetLines target)

theorem of_mem_stageStarts {normalize : Text → Text} {start : Nat}
    (h : start ∈ stageStarts file target normalize) :
    start + targetLines target ≤ (splitInclusive file).length := by
  unfold stageStarts starts at h
  split_ifs at h with hempty
  · cases h
  · rw [mem_range] at h
    omega

/-- The windows of the file with the target's normal form. -/
def stageWindows (file target : Text) (normalize : Text → Text) : List Nat :=
  matching file target (targetLines target) normalize (stageStarts file target normalize)

theorem matchViaNormalizer_eq (file target : Text) (replaceAll : Bool) (normalize : Text → Text) :
    matchViaNormalizer file target replaceAll normalize = (do
      let hits ← hitsFrom file target (targetLines target) replaceAll normalize
        (stageStarts file target normalize) [] 0
      if replaceAll then return (if hits ≠ [] then some hits else none)
      else return hits.head?.map ([·])) := by
  unfold matchViaNormalizer stageStarts
  by_cases hempty : Text.trim (normalize target) = []
  · rw [if_pos hempty, if_pos (.inl hempty), hitsFrom]
    cases replaceAll <;> rfl
  · by_cases hshort : (splitInclusive file).length < targetLines target
    · rw [if_neg hempty, if_pos hshort, if_pos (.inr hshort), hitsFrom]
      cases replaceAll <;> rfl
    · rw [if_neg hempty, if_neg hshort, if_neg (not_or.2 ⟨hempty, hshort⟩)]

section Normalizing

variable {file target : Text} {replaceAll : Bool} {normalize : Text → Text} {stage : Stage} {m : Match}

theorem matchViaNormalizer_false : matchViaNormalizer file target false normalize =
    if (stageWindows file target normalize).length ≤ 1 then
      .ok ((stageWindows file target normalize).head?.map fun start =>
        [windowSpan file target (targetLines target) start])
    else .error multipleNormalized := by
  have hhits : hitsFrom file target (targetLines target) false normalize
      (stageStarts file target normalize) [] 0 =
        if (stageWindows file target normalize).length ≤ 1 then
          .ok ((stageWindows file target normalize).map (windowSpan file target (targetLines target)))
        else .error multipleNormalized := by
    rw [hitsFrom_false fun start => of_mem_stageStarts, length_nil, Nat.zero_add, nil_append]
    refine if_congr (or_iff_left_of_imp fun hnil => ?_) rfl rfl
    rw [hnil]
    exact Nat.zero_le 1
  rw [matchViaNormalizer_eq, hhits]
  by_cases hlength : (stageWindows file target normalize).length ≤ 1
  · rw [if_pos hlength, if_pos hlength]
    change Except.ok (((stageWindows file target normalize).map _).head?.map _) = _
    rw [List.head?_map, Option.map_map]
    rfl
  · rw [if_neg hlength, if_neg hlength]
    rfl

theorem normalizer_nil (h : stage.normalizer = some normalize) : normalize [] = [] := by
  cases stage <;> cases h <;> decide

/-- A window with the target's normal form holds a text. -/
theorem windowText_ne_nil {start : Nat} (hstage : stage.normalizer = some normalize)
    (h : start ∈ stageWindows file target normalize) :
    windowText file target (targetLines target) start ≠ [] := by
  obtain ⟨hmem, hnormal⟩ := mem_filter.1 h
  intro hnil
  rw [hnil, normalizer_nil hstage, decide_eq_true_eq] at hnormal
  rw [stageStarts, ← hnormal, if_pos (.inl rfl)] at hmem
  cases hmem

/-- A span that a normalizing stage may replace. -/
def IsWindow (file target : Text) (normalize : Text → Text) (span : ByteRange) : Prop :=
  ∃ start ∈ stageWindows file target normalize, span = windowSpan file target (targetLines target) start

theorem stageStarts_sorted : (stageStarts file target normalize).Pairwise (· < ·) := by
  unfold stageStarts starts
  split_ifs
  · exact List.Pairwise.nil
  · exact pairwise_lt_range

theorem matchViaNormalizer_true (hstage : stage.normalizer = some normalize) : ∃ spans,
    matchViaNormalizer file target true normalize = .ok (if spans ≠ [] then some spans else none) ∧
      Tiles ByteRange.start ByteRange.stop (IsWindow file target normalize) spans := by
  obtain ⟨more, hmore, hspans, hapart, hcovers⟩ := @hitsFrom_true file target (targetLines target)
    normalize (stageStarts file target normalize) [] 0 (fun start => of_mem_stageStarts)
    stageStarts_sorted fun start => windowText_ne_nil hstage
  refine ⟨more, ?_, fun span hspan => (hspans span hspan).2, hapart, ?_⟩
  · rw [matchViaNormalizer_eq, hmore]
    rfl
  · rintro span ⟨start, hstart, rfl⟩
    exact (hcovers start hstart).resolve_left (Nat.not_lt_zero _)

/-- What a normalizing stage returns: windows with the right normal form that do not overlap. -/
theorem of_matchViaNormalizer (hstage : stage.normalizer = some normalize) {spans : List ByteRange}
    (h : matchViaNormalizer file target replaceAll normalize = .ok (some spans)) :
    spans ≠ [] ∧ Tiles ByteRange.start ByteRange.stop (IsWindow file target normalize) spans := by
  cases replaceAll with
  | true =>
    obtain ⟨more, hmore, htiles⟩ := @matchViaNormalizer_true file target normalize stage hstage
    rw [hmore] at h
    split_ifs at h with hne
    · cases h
      exact ⟨hne, htiles⟩
    · cases h
  | false =>
    rw [matchViaNormalizer_false] at h
    split_ifs at h with hlength
    obtain ⟨start, hstart, rfl⟩ := map_eq_some_iff.1 (Except.ok.inj h)
    obtain ⟨rest, hwindows⟩ := List.head?_eq_some_iff.1 hstart
    have hrest : rest = [] := by
      rw [hwindows, length_cons] at hlength
      exact length_eq_zero_iff.1 (by omega)
    have hmem : start ∈ stageWindows file target normalize := mem_of_head? hstart
    refine ⟨cons_ne_nil _ _, ?_, pairwise_singleton _ _, ?_⟩
    · rintro span hspan
      exact ⟨start, hmem, mem_singleton.1 hspan⟩
    · rintro span ⟨start', hstart', rfl⟩
      rw [hwindows, hrest, mem_singleton] at hstart'
      rw [hstart']
      exact ⟨_, mem_singleton_self _, Nat.le_refl _,
        Nat.lt_add_of_pos_right (len_pos (windowText_ne_nil hstage hmem))⟩

variable (file target replaceAll) in
/-- A normalizing stage reports the spans that were found, in a valid match. -/
theorem normalizedMatch_spec (hstage : stage.normalizer = some normalize) :
    matchViaNormalizer file target replaceAll normalize =
        (normalizedMatch file target replaceAll stage normalize).map (Option.map Match.spans) ∧
      ∀ m, normalizedMatch file target replaceAll stage normalize = .ok (some m) →
        m.stage = stage ∧ m.Valid file := by
  unfold normalizedMatch
  cases hmatch : matchViaNormalizer file target replaceAll normalize with
  | error e => exact ⟨rfl, fun m h => by cases h⟩
  | ok found =>
    cases found with
    | none => exact ⟨rfl, fun m h => by cases h⟩
    | some spans =>
      obtain ⟨hne, htiles⟩ := of_matchViaNormalizer hstage hmatch
      obtain ⟨span, rest, rfl⟩ := exists_cons_of_ne_nil hne
      obtain ⟨start, hstart, rfl⟩ := htiles.occurs span mem_cons_self
      have hholds := holdsAt_window file target (targetLines target) start
      change _ = (sliceText file _ >>= _).map _ ∧ ∀ m, (sliceText file _ >>= _) = _ → _
      rw [hholds.slice]
      refine ⟨rfl, fun m h => ?_⟩
      cases h
      refine ⟨rfl, windowText_ne_nil hstage hstart, fun span hspan => ?_, htiles.apart,
        ⟨_, rest, rfl, hholds⟩⟩
      obtain ⟨start', -, rfl⟩ := htiles.occurs span hspan
      exact ⟨_, holdsAt_window file target (targetLines target) start'⟩

theorem matchViaNormalizer_error (hstage : stage.normalizer = some normalize) {e : Failure}
    (h : matchViaNormalizer file target replaceAll normalize = .error e) :
    e = multipleNormalized ∧ replaceAll = false ∧ 1 < (stageWindows file target normalize).length := by
  cases replaceAll with
  | true =>
    obtain ⟨more, hmore, -⟩ := @matchViaNormalizer_true file target normalize stage hstage
    rw [hmore] at h
    cases h
  | false =>
    rw [matchViaNormalizer_false] at h
    split_ifs at h with hlength
    cases h
    exact ⟨rfl, rfl, Nat.lt_of_not_le hlength⟩

theorem normalizedMatch_error (hstage : stage.normalizer = some normalize) {e : Failure}
    (h : normalizedMatch file target replaceAll stage normalize = .error e) :
    e = multipleNormalized ∧ replaceAll = false ∧ 1 < (stageWindows file target normalize).length := by
  refine matchViaNormalizer_error hstage ?_
  rw [(normalizedMatch_spec file target replaceAll hstage).1, h]
  rfl

end Normalizing

/-! ## The anchor stages -/

/-- The region of `n` lines from line `start` begins and ends as the target does and overlaps it
    enough. -/
def IsCandidate (file target : Text) (minRatio n : Nat) (first last : Text) (start : Nat) : Prop :=
  ((splitInclusive file)[start]?).map anchorLine = some first ∧
    ((splitInclusive file)[start + n - 1]?).map anchorLine = some last ∧
    minRatio ≤ ratio target (windowText file target n start)

instance instDecidableIsCandidate (file target : Text) (minRatio n : Nat) (first last : Text)
    (start : Nat) : Decidable (IsCandidate file target minRatio n first last start) :=
  inferInstanceAs (Decidable (_ ∧ _ ∧ _))

section Anchors

variable {file target first last : Text} {minRatio n : Nat} {l : List Nat} {best : Option (Text × Nat)}

theorem anchorFrom_cons {start : Nat} (hstart : start < (splitInclusive file).length) :
    anchorFrom file target minRatio n first last (start :: l) best =
      if IsCandidate file target minRatio n first last start ∧
          best.all (fun b => b.2 < ratio target (windowText file target n start)) then
        anchorFrom file target minRatio n first last l
          (some (windowText file target n start, ratio target (windowText file target n start)))
      else anchorFrom file target minRatio n first last l best := by
  have hget : (splitInclusive file)[start]? = some (splitInclusive file)[start] :=
    List.getElem?_eq_getElem hstart
  have hcand : IsCandidate file target minRatio n first last start ↔
      anchorLine (splitInclusive file)[start] = first ∧
        ((splitInclusive file)[start + n - 1]?).map anchorLine = some last ∧
        minRatio ≤ ratio target (windowText file target n start) := by
    rw [IsCandidate, hget, map_some, some_inj]
  rw [anchorFrom, hget]
  simp only [hcand]
  cases hlast : (splitInclusive file)[start + n - 1]? with
  | none => simp
  | some candLast =>
    simp only [map_some, some_inj]
    grind

/-- A list of windows is searched for the first of those with the highest overlap. -/
theorem anchorFrom_spec (hl : ∀ start ∈ l, start < (splitInclusive file).length)
    (hsorted : l.Pairwise (· < ·)) :
    ∃ out, anchorFrom file target minRatio n first last l best = .ok out ∧
      ((out = best ∧ ∀ start ∈ l, IsCandidate file target minRatio n first last start →
          ¬best.all (fun b => b.2 < ratio target (windowText file target n start)) = true) ∨
        ∃ start ∈ l, IsCandidate file target minRatio n first last start ∧
          out = some (windowText file target n start, ratio target (windowText file target n start)) ∧
          best.all (fun b => b.2 < ratio target (windowText file target n start)) = true ∧
          ∀ start' ∈ l, IsCandidate file target minRatio n first last start' →
            ratio target (windowText file target n start') ≤ ratio target (windowText file target n start) ∧
              (start' < start → ratio target (windowText file target n start') <
                ratio target (windowText file target n start))) := by
  induction l generalizing best with
  | nil => exact ⟨best, rfl, .inl ⟨rfl, fun start hstart => absurd hstart not_mem_nil⟩⟩
  | cons start l ih =>
    obtain ⟨hstart, hl⟩ := forall_mem_cons.1 hl
    obtain ⟨hbefore, hsorted⟩ := pairwise_cons.1 hsorted
    rw [anchorFrom_cons hstart]
    split_ifs with hbetter
    · -- this window becomes the best one; a later one may replace it
      obtain ⟨out, hout, ⟨rfl, hnone⟩ | ⟨chosen, hmem, hcand, rfl, hmore, hmax⟩⟩ := ih hl hsorted
      · refine ⟨_, hout, .inr ⟨start, mem_cons_self, hbetter.1, rfl, hbetter.2, ?_⟩⟩
        refine forall_mem_cons.2 ⟨fun _ => ⟨Nat.le_refl _, fun h => absurd h (Nat.lt_irrefl _)⟩, ?_⟩
        intro start' hstart' hcand'
        have hle := hnone start' hstart' hcand'
        rw [all_some, decide_eq_true_eq] at hle
        exact ⟨Nat.le_of_not_lt hle, fun h => absurd (hbefore start' hstart') (Nat.lt_asymm h)⟩
      · rw [all_some, decide_eq_true_eq] at hmore
        refine ⟨_, hout, .inr ⟨chosen, mem_cons_of_mem start hmem, hcand, rfl, ?_, ?_⟩⟩
        · cases best with
          | none => rfl
          | some b =>
            have hb := hbetter.2
            rw [all_some, decide_eq_true_eq] at hb ⊢
            exact Nat.lt_trans hb hmore
        · exact forall_mem_cons.2 ⟨fun _ => ⟨Nat.le_of_lt hmore, fun _ => hmore⟩, hmax⟩
    · obtain ⟨out, hout, ⟨rfl, hnone⟩ | ⟨chosen, hmem, hcand, rfl, hmore, hmax⟩⟩ := ih hl hsorted
      · refine ⟨_, hout, .inl ⟨rfl, forall_mem_cons.2 ⟨fun hcand hall => ?_, hnone⟩⟩⟩
        exact hbetter ⟨hcand, hall⟩
      · refine ⟨_, hout, .inr ⟨chosen, mem_cons_of_mem start hmem, hcand, rfl, hmore, ?_⟩⟩
        refine forall_mem_cons.2 ⟨fun hcand' => ?_, hmax⟩
        have hworse : ratio target (windowText file target n start) <
            ratio target (windowText file target n chosen) := by
          cases best with
          | none => exact absurd ⟨hcand', rfl⟩ hbetter
          | some b =>
            have hb : ¬b.2 < ratio target (windowText file target n start) := by
              intro hb
              exact hbetter ⟨hcand', by rw [all_some, decide_eq_true_eq]; exact hb⟩
            rw [all_some, decide_eq_true_eq] at hmore
            omega
        exact ⟨Nat.le_of_lt hworse, fun _ => hworse⟩

end Anchors

/-- The region an anchor stage judges best: the first of the candidates with the highest overlap. -/
structure Best (file target : Text) (minRatio : Nat) (start : Nat) : Prop where
  isCandidate : ∃ first last, anchors target = some (first, last) ∧
    IsCandidate file target minRatio (lines target).length first last start
  highest : ∀ first last, anchors target = some (first, last) → ∀ start',
    IsCandidate file target minRatio (lines target).length first last start' →
      ratio target (windowText file target (lines target).length start') ≤
        ratio target (windowText file target (lines target).length start)
  earliest : ∀ first last, anchors target = some (first, last) → ∀ start' < start,
    IsCandidate file target minRatio (lines target).length first last start' →
      ratio target (windowText file target (lines target).length start') <
        ratio target (windowText file target (lines target).length start)

section AnchorStages

variable {file target first last : Text} {minRatio : Nat} {stage : Stage} {m : Match} {start : Nat}

theorem anchors_some (h : anchors target = some (first, last)) :
    2 ≤ (lines target).length ∧ first ≠ [] := by
  unfold anchors at h
  split at h
  · split_ifs at h with hshort hblank
    cases h
    exact ⟨Nat.le_of_not_lt hshort, fun hnil => hblank (.inl hnil)⟩
  · cases h

/-- There is only one best region. -/
theorem Best.unique {start' : Nat} (h : Best file target minRatio start)
    (h' : Best file target minRatio start') : start = start' := by
  obtain ⟨first, last, hanchors, hcand⟩ := h.isCandidate
  obtain ⟨first', last', hanchors', hcand'⟩ := h'.isCandidate
  rw [hanchors] at hanchors'
  cases hanchors'
  obtain hlt | rfl | hlt := Nat.lt_trichotomy start start'
  · have hle := h.highest first last hanchors start' hcand'
    have hmore := h'.earliest first last hanchors start hlt hcand
    omega
  · rfl
  · have hle := h'.highest first last hanchors start hcand
    have hmore := h.earliest first last hanchors start' hlt hcand'
    omega

theorem splitInclusive_ne_nil (h : file ≠ []) : splitInclusive file ≠ [] := by
  intro hnil
  apply h
  rw [← Lines.flatten_pieces isNewline file, show Lines.pieces isNewline file = [] from hnil]
  rfl

theorem anchorMatch_spec (hfile : file ≠ []) : ∃ found, anchorMatch file target minRatio = .ok found ∧
    (found = none ∧ (∀ start, ¬Best file target minRatio start) ∨
      ∃ start, Best file target minRatio start ∧ found = some (windowText file target (lines target).length start)) := by
  unfold anchorMatch
  cases hanchors : anchors target with
  | none =>
    refine ⟨none, rfl, .inl ⟨rfl, fun start hbest => ?_⟩⟩
    obtain ⟨first, last, hsome, -⟩ := hbest.isCandidate
    rw [hanchors] at hsome
    cases hsome
  | some pair =>
    obtain ⟨first, last⟩ := pair
    obtain ⟨hlines, -⟩ := anchors_some hanchors
    have hpos : 0 < (splitInclusive file).length := length_pos_iff.2 (splitInclusive_ne_nil hfile)
    have hstarts : ∀ start ∈ starts file (lines target).length, start < (splitInclusive file).length := by
      intro start hstart
      rw [starts, mem_range] at hstart
      omega
    have hall : ∀ start, IsCandidate file target minRatio (lines target).length first last start →
        start ∈ starts file (lines target).length := by
      rintro start ⟨-, hlast, -⟩
      obtain ⟨candLast, hget, -⟩ := map_eq_some_iff.1 hlast
      have hbound := (List.getElem?_eq_some_iff.1 hget).1
      rw [starts, mem_range]
      omega
    obtain ⟨out, hout, ⟨rfl, hnone⟩ | ⟨start, -, hcand, rfl, -, hmax⟩⟩ :=
      @anchorFrom_spec file target first last minRatio (lines target).length _ none hstarts
        pairwise_lt_range
    · dsimp only
      rw [hout]
      refine ⟨none, rfl, .inl ⟨rfl, fun start hbest => ?_⟩⟩
      obtain ⟨first', last', hsome, hcand⟩ := hbest.isCandidate
      rw [hanchors] at hsome
      cases hsome
      exact hnone start (hall start hcand) hcand rfl
    · dsimp only
      rw [hout]
      refine ⟨_, rfl, .inr ⟨start, ⟨⟨first, last, hanchors, hcand⟩, ?_, ?_⟩, rfl⟩⟩
      · intro first' last' hanchors' start' hcand'
        rw [hanchors] at hanchors'
        cases hanchors'
        exact (hmax start' (hall start' hcand') hcand').1
      · intro first' last' hanchors' start' hlt hcand'
        rw [hanchors] at hanchors'
        cases hanchors'
        exact (hmax start' (hall start' hcand') hcand').2 hlt

/-- Without a line to index, a target with anchors crashes the stage. -/
theorem anchorMatch_empty (h : anchors target = some (first, last)) :
    anchorMatch [] target minRatio = .error .panic := by
  have hstarts : starts [] (lines target).length = [0] := by
    have hnone : splitInclusive [] = [] := rfl
    rw [starts, hnone, length_nil, Nat.zero_sub]
    rfl
  rw [anchorMatch, h]
  dsimp only
  rw [hstarts, anchorFrom]
  rfl

/-- A region that begins with a line that is not blank holds a text. -/
theorem Best.windowText_ne_nil (h : Best file target minRatio start) :
    windowText file target (lines target).length start ≠ [] := by
  obtain ⟨first, last, hanchors, hfirst, -, -⟩ := h.isCandidate
  obtain ⟨hlines, hblank⟩ := anchors_some hanchors
  obtain ⟨line, hline, rfl⟩ := map_eq_some_iff.1 hfirst
  obtain ⟨hbound, hget⟩ := List.getElem?_eq_some_iff.1 hline
  obtain ⟨k, hk⟩ : ∃ k, (lines target).length = k + 1 := Nat.exists_eq_succ_of_ne_zero (by omega)
  have hwindow : (((splitInclusive file).drop start).take (lines target).length).flatten =
      line ++ (((splitInclusive file).drop (start + 1)).take k).flatten := by
    rw [drop_eq_getElem_cons hbound, hget, hk, take_succ_cons, flatten_cons]
  intro hnil
  rw [windowText, hwindow] at hnil
  apply hblank
  obtain hempty | ⟨c, hc, hnewline⟩ := candForCompare_eq_nil hnil
  · rw [(append_eq_nil_iff.1 hempty).1]
    rfl
  · obtain ⟨rfl, -⟩ | ⟨rfl, -⟩ := append_eq_singleton_iff.1 hc
    · rfl
    · rw [anchorLine, rdropWhile_singleton, if_pos hnewline]
      rfl

theorem Best.occurs (_ : Best file target minRatio start) :
    Occurs Char.utf8Size (windowText file target (lines target).length start) file
      (lineStart file start) :=
  (holdsAt_iff.1 (holdsAt_window file target (lines target).length start)).1

theorem anchoredMatch_spec (hfile : file ≠ []) : ∃ found, anchoredMatch file target stage minRatio = .ok found ∧
    (found = none ∧ (∀ start, ¬Best file target minRatio start) ∨
      ∃ start p, Best file target minRatio start ∧
        Search.find Char.utf8Size (windowText file target (lines target).length start) file = some p ∧
      found = some ⟨windowText file target (lines target).length start,
        [⟨p, p + len (windowText file target (lines target).length start)⟩], stage⟩) := by
  obtain ⟨found, hfound, ⟨rfl, hnone⟩ | ⟨start, hbest, rfl⟩⟩ := @anchorMatch_spec file target minRatio hfile
  · exact ⟨none, by rw [anchoredMatch, hfound]; rfl, .inl ⟨rfl, hnone⟩⟩
  · cases hfind : Search.find Char.utf8Size (windowText file target (lines target).length start) file with
    | none =>
      have hnone := (Search.find_eq_none_iff utf8Size_pos hbest.windowText_ne_nil).1 hfind
      exact absurd hbest.occurs (hnone _)
    | some p =>
      refine ⟨_, ?_, .inr ⟨start, p, hbest, hfind, rfl⟩⟩
      rw [anchoredMatch, hfound]
      change (spanForCanonical file _ >>= _) = _
      rw [spanForCanonical, hfind]
      rfl

theorem anchoredMatch_some (hfile : file ≠ [])
    (h : anchoredMatch file target stage minRatio = .ok (some m)) :
    m.stage = stage ∧ m.Valid file ∧ ∃ start p, Best file target minRatio start ∧
      m.canonical = windowText file target (lines target).length start ∧
      Search.find Char.utf8Size m.canonical file = some p ∧ m.spans = [⟨p, p + len m.canonical⟩] := by
  obtain ⟨found, hfound, ⟨rfl, -⟩ | ⟨start, p, hbest, hfind, rfl⟩⟩ :=
    @anchoredMatch_spec file target minRatio stage hfile
  · rw [hfound] at h
    cases h
  · rw [hfound] at h
    cases h
    have hholds : HoldsAt file ⟨p, p + len (windowText file target (lines target).length start)⟩
        (windowText file target (lines target).length start) :=
      holdsAt_iff.2 ⟨(Search.find_eq_some utf8Size_pos hbest.windowText_ne_nil hfind).1, rfl⟩
    refine ⟨rfl, ⟨hbest.windowText_ne_nil, fun span hspan => ?_, pairwise_singleton _ _,
      ⟨_, [], rfl, hholds⟩⟩, start, p, hbest, rfl, hfind, rfl⟩
    rw [mem_singleton.1 hspan]
    exact ⟨_, hholds⟩

end AnchorStages

/-! ## The cascade -/

section Cascade

variable {file target : Text} {replaceAll : Bool} {stage : Stage} {m : Match}

/-- A cascade ends at the first stage that finds something or fails. -/
theorem firstMatch_cases (find : Stage → Result (Option Match)) (l : List Stage) :
    (firstMatch find l = .ok none ∧ ∀ st ∈ l, find st = .ok none) ∨
      ∃ front st rest, l = front ++ st :: rest ∧ (∀ st' ∈ front, find st' = .ok none) ∧
        find st ≠ .ok none ∧ firstMatch find l = find st := by
  induction l with
  | nil => exact .inl ⟨rfl, fun st hst => absurd hst not_mem_nil⟩
  | cons st l ih =>
    rw [firstMatch]
    cases hfind : find st with
    | error e =>
      exact .inr ⟨[], st, l, rfl, fun st' hst' => absurd hst' not_mem_nil, by simp [hfind], hfind.symm⟩
    | ok found =>
      cases found with
      | some m =>
        exact .inr ⟨[], st, l, rfl, fun st' hst' => absurd hst' not_mem_nil, by simp [hfind], hfind.symm⟩
      | none =>
        obtain ⟨hnone, hall⟩ | ⟨front, st', rest, rfl, hfront, hsome, heq⟩ := ih
        · exact .inl ⟨hnone, forall_mem_cons.2 ⟨hfind, hall⟩⟩
        · exact .inr ⟨st :: front, st', rest, rfl, forall_mem_cons.2 ⟨hfind, hfront⟩, hsome, heq⟩

theorem eq_exact_of_none (hnormalizer : stage.normalizer = none) (hratio : stage.minRatio = none) :
    stage = .exact := by
  cases stage <;> first | rfl | (cases hnormalizer; done) | cases hratio

/-- A match of one stage. -/
theorem stageMatch_some (hfile : file ≠ []) (htarget : target ≠ [])
    (h : stageMatch file target replaceAll stage = .ok (some m)) : m.stage = stage ∧ m.Valid file := by
  unfold stageMatch at h
  split at h
  · next normalize hnormalizer =>
    obtain ⟨hstage, hvalid⟩ := (normalizedMatch_spec _ _ _ hnormalizer).2 m h
    exact ⟨hstage, hvalid⟩
  · obtain ⟨hstage, hvalid, -⟩ := anchoredMatch_some hfile h
    exact ⟨hstage, hvalid⟩
  · next hnormalizer hratio =>
    obtain ⟨rfl, hvalid⟩ := exactMatch_valid htarget h
    exact ⟨(eq_exact_of_none hnormalizer hratio).symm, hvalid⟩

/-- A failure of one stage: there were several matches. -/
theorem stageMatch_error (hfile : file ≠ []) {e : Failure}
    (h : stageMatch file target replaceAll stage = .error e) :
    e = multipleExact ∨ e = multipleNormalized := by
  unfold stageMatch at h
  split at h
  · next normalize hnormalizer => exact .inr (normalizedMatch_error hnormalizer h).1
  · obtain ⟨found, hfound, -⟩ := @anchoredMatch_spec file target _ stage hfile
    rw [hfound] at h
    cases h
  · rw [exactMatch_eq] at h
    split_ifs at h
    exact .inl (Except.error.inj h).symm

theorem findMatch_cases (htarget : target ≠ []) : (findMatch file target replaceAll = .ok none ∧
        ∀ st ∈ cascade, stageMatch file target replaceAll st = .ok none) ∨
      ∃ front st rest, cascade = front ++ st :: rest ∧
        (∀ st' ∈ front, stageMatch file target replaceAll st' = .ok none) ∧
        stageMatch file target replaceAll st ≠ .ok none ∧
        findMatch file target replaceAll = stageMatch file target replaceAll st := by
  rw [findMatch, if_neg htarget]
  exact firstMatch_cases (stageMatch file target replaceAll) cascade

theorem findMatch_some (hfile : file ≠ []) (htarget : target ≠ [])
    (h : findMatch file target replaceAll = .ok (some m)) :
    stageMatch file target replaceAll m.stage = .ok (some m) ∧ m.Valid file := by
  obtain ⟨hnone, -⟩ | ⟨front, st, rest, -, -, -, heq⟩ := @findMatch_cases file target replaceAll htarget
  · rw [hnone] at h
    cases h
  · rw [heq] at h
    obtain ⟨rfl, hvalid⟩ := stageMatch_some hfile htarget h
    exact ⟨h, hvalid⟩

/-! ## Crashes -/

/-- The target has two lines at least, and neither its first nor its last line is blank. -/
def TwoAnchors (target : Text) : Prop :=
  2 ≤ (lines target).length ∧ (∀ line, (lines target).head? = some line → Text.trim line ≠ []) ∧
    ∀ line, (lines target).getLast? = some line → Text.trim line ≠ []

theorem twoAnchors_iff : TwoAnchors target ↔ ∃ first last, anchors target = some (first, last) := by
  unfold TwoAnchors anchors
  cases hlines : lines target with
  | nil => simp
  | cons line rest =>
    obtain ⟨final, hfinal⟩ : ∃ final, (line :: rest).getLast? = some final :=
      ⟨_, List.getLast?_eq_getLast_of_ne_nil (cons_ne_nil line rest)⟩
    rw [hfinal, List.head?_cons]
    simp only [Option.some.injEq, forall_eq']
    split_ifs with hshort hblank
    · simp only [exists_false, iff_false, not_and]
      exact fun hlong => absurd hlong (Nat.not_le_of_lt hshort)
    · simp only [exists_false, iff_false, not_and, not_not]
      exact fun _ hfirst => hblank.resolve_left hfirst
    · exact ⟨fun _ => ⟨_, _, rfl⟩, fun _ => ⟨Nat.le_of_not_lt hshort, not_or.1 hblank⟩⟩

/-- The call returns a match that can be replaced, no match, or the error of several matches. -/
def Returns (file target : Text) (replaceAll : Bool) : Prop :=
  (∃ found, findMatch file target replaceAll = .ok found ∧
      ∀ m, found = some m → ∀ replacement, ∃ out, replaceSpans file m.spans replacement = .ok out) ∨
    findMatch file target replaceAll = .error multipleExact ∨
    findMatch file target replaceAll = .error multipleNormalized

theorem returns_of_ne_nil (hfile : file ≠ []) (htarget : target ≠ []) : Returns file target replaceAll := by
  cases hfound : findMatch file target replaceAll with
  | ok found =>
    refine .inl ⟨found, hfound, ?_⟩
    rintro m rfl replacement
    exact (findMatch_some hfile htarget hfound).2.replaceSpans_ok replacement
  | error e =>
    obtain ⟨hnone, -⟩ | ⟨front, st, rest, -, -, -, heq⟩ := @findMatch_cases file target replaceAll htarget
    · rw [hnone] at hfound
      cases hfound
    · refine .inr ?_
      rw [hfound]
      obtain rfl | rfl := stageMatch_error hfile (heq.symm.trans hfound)
      · exact .inl rfl
      · exact .inr rfl

/-- On an empty file only the anchor stages do anything. -/
theorem stageMatch_empty (hstage : stage.minRatio = none) :
    stageMatch [] target replaceAll stage = .ok none := by
  unfold stageMatch
  rw [hstage]
  split
  · next normalize _ =>
    have hshort : (splitInclusive []).length < targetLines target := Nat.succ_pos _
    rw [normalizedMatch, matchViaNormalizer, if_pos hshort, ite_self]
    rfl
  · next hratio => cases hratio
  · rfl

theorem anchoredMatch_none {minRatio : Nat} (h : anchors target = none) :
    anchoredMatch file target stage minRatio = .ok none := by
  rw [anchoredMatch, anchorMatch, h]
  rfl

theorem findMatch_empty (htarget : target ≠ []) (h : anchors target = none) :
    findMatch [] target replaceAll = .ok none := by
  have hnone : ∀ st, stageMatch [] target replaceAll st = .ok none := by
    intro st
    cases hratio : st.minRatio with
    | none => exact stageMatch_empty hratio
    | some minRatio =>
      cases st <;> first | (cases hratio; done) | exact anchoredMatch_none h
  obtain ⟨hfind, -⟩ | ⟨front, st, rest, -, -, hsome, -⟩ := @findMatch_cases [] target replaceAll htarget
  · exact hfind
  · exact absurd (hnone st) hsome

theorem findMatch_panics (htarget : target ≠ []) (h : TwoAnchors target) :
    findMatch [] target replaceAll = .error .panic := by
  obtain ⟨first, last, hanchors⟩ := twoAnchors_iff.1 h
  have hanchor : stageMatch [] target replaceAll .blockAnchor = .error .panic := by
    change anchoredMatch [] target .blockAnchor 90 = _
    rw [anchoredMatch, anchorMatch_empty hanchors]
    rfl
  rw [findMatch, if_neg htarget, cascade, firstMatch, stageMatch_empty rfl]
  change firstMatch _ _ = _
  rw [firstMatch, stageMatch_empty rfl]
  change firstMatch _ _ = _
  rw [firstMatch, hanchor]
  rfl

/-- The matcher returns just when the file is not empty or the target has no anchors to look for. -/
theorem findMatch_returns_iff (file target : Text) (replaceAll : Bool) (htarget : target ≠ []) :
    Returns file target replaceAll ↔ file ≠ [] ∨ ¬TwoAnchors target := by
  constructor
  · intro hreturns
    by_contra hneither
    obtain ⟨hfile, hanchors⟩ := not_or.1 hneither
    obtain rfl := not_not.1 hfile
    have hpanic := @findMatch_panics target replaceAll htarget (not_not.1 hanchors)
    obtain ⟨found, hfound, -⟩ | hmany | hmany := hreturns
    · rw [hpanic] at hfound
      cases hfound
    · rw [hpanic] at hmany
      cases hmany
    · rw [hpanic] at hmany
      cases hmany
  · rintro (hfile | hanchors)
    · exact returns_of_ne_nil hfile htarget
    · by_cases hfile : file = []
      · subst hfile
        have hnone : anchors target = none := by
          cases hpair : anchors target with
          | none => rfl
          | some pair => exact absurd (twoAnchors_iff.2 ⟨pair.1, pair.2, hpair⟩) hanchors
        exact .inl ⟨none, findMatch_empty htarget hnone, fun m hm => by cases hm⟩
      · exact returns_of_ne_nil hfile htarget

/-- A target of two lines in an empty file. -/
theorem empty_file_panics : findMatch [] "a\nb".toList false = .error .panic := by
  decide

theorem findMatch_returns_iff_anchored : anchors "a\nZ\nb".toList = some ("a".toList, "b".toList) ∧
      (Returns "a\nY\nb\n".toList "a\nZ\nb".toList false ↔
        "a\nY\nb\n".toList ≠ [] ∨ ¬TwoAnchors "a\nZ\nb".toList) :=
  ⟨by decide, findMatch_returns_iff _ _ false (by decide)⟩

end Cascade

end FlyCockpit.Edit
