-- SUMMARY: The fixpoint cuts are the nearest cuts that split no literal, and scrubbing may be done on either side of one.
import FlyCockpit.Redact.Straddle

/-!
# The nearest cuts

A round that moves a cut moves it to the end of an occurrence that straddles it, and no cut between
the two is free of that occurrence. So the cut the rounds end with is the nearest free one in the
direction they go. A free cut separates the occurrences, and with them the ranges that scrubbing
replaces, unless the table stands in for the text as a whole.
-/

namespace FlyCockpit.Redact

open List

open Utf8 (ceilCharBoundary floorCharBoundary isCharBoundary)

/-! ## What a round moves a cut to -/

theorem find_eq_some_prefix {needle haystack : Bytes} {n : Nat} (h : find needle haystack = some n) :
    needle <+: haystack.drop n := by
  induction haystack generalizing n with
  | nil =>
    rw [find] at h
    split at h
    next hnil =>
      rw [hnil]
      exact nil_prefix
    next => cases h
  | cons b haystack ih =>
    rw [find] at h
    split at h
    next hstarts =>
      cases h
      exact isPrefixOf_iff_prefix.1 hstarts
    next =>
      obtain ⟨m, hm, rfl⟩ := Option.map_eq_some_iff.1 h
      exact ih hm

/-- The value is the cut, or where a straddling occurrence in the window moves it. -/
def Direction.Attains (direction : Direction) (window value : Bytes) (lo cut moved x : Nat) : Prop :=
  x = moved ∨ ∃ p, value <+: window.drop p ∧ lo + p < cut ∧ cut < lo + p + value.length ∧
    x = direction.target (lo + p) (lo + p + value.length)

theorem Direction.move_eq (direction : Direction) (moved s e : Nat) :
    direction.move moved s e = moved ∨ direction.move moved s e = direction.target s e := by
  cases direction
  · exact Nat.le_total e moved |>.imp (Nat.max_eq_left ·) (Nat.max_eq_right ·)
  · exact Nat.le_total moved s |>.imp (Nat.min_eq_left ·) (Nat.min_eq_right ·)

theorem scanEntry_attains (direction : Direction) (window value : Bytes) (lo cut fuel i moved : Nat) :
    direction.Attains window value lo cut moved
      (scanEntry direction window value lo cut fuel i moved) := by
  induction fuel generalizing i moved with
  | zero => exact .inl rfl
  | succ fuel ih =>
    rw [scanEntry]
    cases hfind : find value (window.drop i) with
    | none => exact .inl rfl
    | some rel =>
      have hocc : value <+: window.drop (i + rel) := drop_drop ▸ find_eq_some_prefix hfind
      dsimp only
      have hstep : direction.Attains window value lo cut moved
          (if lo + (i + rel) < cut ∧ lo + (i + rel) + value.length > cut then
            direction.move moved (lo + (i + rel)) (lo + (i + rel) + value.length) else moved) := by
        split
        next hin =>
          exact (direction.move_eq ..).imp id fun heq => ⟨i + rel, hocc, hin.1, hin.2, heq⟩
        next => exact .inl rfl
      split
      · exact hstep
      · obtain heq | hattains := ih (ceilCharBoundary window (i + rel + 1)) _
        · rw [heq]
          exact hstep
        · exact .inr hattains

namespace RedactionTable

variable {t : RedactionTable} {body : Bytes} {cut : Nat} {fuel : Nat} {r : Stretch} {text : Bytes}
  {current : CoverageTableBinding → Bool} {s : Span Nat}

/-- A round leaves the cut where it is or moves it to the end of an occurrence that straddles it. -/
theorem scanWindow_eq (t : RedactionTable) (direction : Direction) (body : Bytes) (cut : Nat) :
    t.scanWindow direction body cut = cut ∨ ∃ e ∈ t.entries, ∃ s, e.value <+: body.drop s ∧ s < cut ∧
      cut < s + e.value.length ∧
      t.scanWindow direction body cut = direction.target s (s + e.value.length) := by
  have hfold : ∀ (entries : List RedactionEntry) (lo hi moved : Nat), (∀ e ∈ entries, e ∈ t.entries) →
      entries.foldl (scanStep direction ((body.take hi).drop lo) lo cut) moved = moved ∨
        ∃ e ∈ t.entries, ∃ s, e.value <+: body.drop s ∧ s < cut ∧ cut < s + e.value.length ∧
          entries.foldl (scanStep direction ((body.take hi).drop lo) lo cut) moved =
            direction.target s (s + e.value.length) := by
    intro entries lo hi
    induction entries with
    | nil => exact fun _ _ => .inl rfl
    | cons e entries ih =>
      intro moved hmem
      obtain ⟨he, hmem⟩ := forall_mem_cons.1 hmem
      rw [foldl_cons]
      obtain heq | hattained := ih (scanStep direction ((body.take hi).drop lo) lo cut moved e) hmem
      · rw [heq, scanStep, if_neg (t.value_ne_nil he)]
        refine (scanEntry_attains ..).imp id ?_
        rintro ⟨p, hocc, hs, hcut, hx⟩
        rw [drop_drop, drop_take] at hocc
        exact ⟨e, he, lo + p, hocc.trans (List.take_prefix ..), hs, hcut, hx⟩
      · exact .inr hattained
  exact hfold t.entries _ _ cut fun _ he => he

/-- The cut is a character boundary and strictly inside no occurrence of a literal. -/
def FreeCut (t : RedactionTable) (body : Bytes) (cut : Nat) : Prop :=
  isCharBoundary body cut = true ∧ ¬t.Straddled body cut

/-- A round passes no free cut. -/
theorem scanWindow_le_freeCut {direction : Direction} {c : Nat} (hc : ¬t.Straddled body c)
    (h : direction.Beyond c cut) : direction.Beyond c (t.scanWindow direction body cut) := by
  obtain heq | ⟨e, he, s, hocc, hs, hcut, heq⟩ := t.scanWindow_eq direction body cut
  · rwa [heq]
  · rw [heq]
    by_contra hnot
    refine hc ⟨e, he, s, hocc, ?_⟩
    cases direction with
    | forward =>
      simp only [Direction.Beyond, Direction.target] at h hnot
      omega
    | backward =>
      simp only [Direction.Beyond, Direction.target] at h hnot
      omega

/-- The ends of a literal in a text are character boundaries. -/
theorem isCharBoundary_target (hbody : Utf8.Valid body) {e : RedactionEntry} (he : e ∈ t.entries)
    {s : Nat} (hocc : e.value <+: body.drop s) (direction : Direction) :
    isCharBoundary body (direction.target s (s + e.value.length)) = true := by
  have hstart := isCharBoundary_of_occurs e.valid (t.value_ne_nil he) hocc
  cases direction with
  | forward =>
    have hle : s + e.value.length ≤ body.length := by
      have hpos := length_pos_iff.2 (t.value_ne_nil he)
      have hlength := hocc.length_le
      rw [length_drop] at hlength
      omega
    refine hbody.isCharBoundary_iff.2 ⟨hle, ?_⟩
    rw [Direction.target, take_add, ← prefix_iff_eq_take.1 hocc]
    exact (hbody.isCharBoundary_iff.1 hstart).2.append e.valid
  | backward => exact hstart

theorem isCharBoundary_scanWindow (hbody : Utf8.Valid body) (direction : Direction)
    (hcut : isCharBoundary body cut = true) :
    isCharBoundary body (t.scanWindow direction body cut) = true := by
  obtain heq | ⟨e, he, s, hocc, -, -, heq⟩ := t.scanWindow_eq direction body cut
  · rwa [heq]
  · rw [heq]
    exact isCharBoundary_target hbody he hocc direction

theorem advanceCut_nearest (hbody : Utf8.Valid body) (hcut : isCharBoundary body cut = true) :
    isCharBoundary body (t.advanceCut body fuel cut) = true ∧
      ∀ c, ¬t.Straddled body c → cut ≤ c → t.advanceCut body fuel cut ≤ c := by
  induction fuel generalizing cut with
  | zero => exact ⟨hcut, fun _ _ => id⟩
  | succ fuel ih =>
    have hnext := isCharBoundary_scanWindow (t := t) hbody .forward hcut
    have hle : ∀ c, ¬t.Straddled body c → cut ≤ c → t.scanWindow .forward body cut ≤ c :=
      fun c hc h => @scanWindow_le_freeCut t body cut .forward c hc h
    rw [advanceCut]
    split_ifs
    · exact ⟨hcut, fun _ _ => id⟩
    · exact ⟨hnext, hle⟩
    · exact ⟨(ih hnext).1, fun c hc h => (ih hnext).2 c hc (hle c hc h)⟩

theorem retreatCut_nearest (hbody : Utf8.Valid body) (hcut : isCharBoundary body cut = true) :
    isCharBoundary body (t.retreatCut body fuel cut) = true ∧
      ∀ c, ¬t.Straddled body c → c ≤ cut → c ≤ t.retreatCut body fuel cut := by
  induction fuel generalizing cut with
  | zero => exact ⟨hcut, fun _ _ => id⟩
  | succ fuel ih =>
    have hnext := isCharBoundary_scanWindow (t := t) hbody .backward hcut
    have hle : ∀ c, ¬t.Straddled body c → c ≤ cut → c ≤ t.scanWindow .backward body cut :=
      fun c hc h => @scanWindow_le_freeCut t body cut .backward c hc h
    rw [retreatCut]
    split_ifs with hge hzero
    · exact ⟨hcut, fun _ _ => id⟩
    · exact ⟨rfl, fun c hc h => hzero ▸ hle c hc h⟩
    · exact ⟨(ih hnext).1, fun c hc h => (ih hnext).2 c hc (hle c hc h)⟩

theorem straddleFixpointCut_isLeast (t : RedactionTable) (hbody : Utf8.Valid body) (start : Nat) :
    IsLeast {c | min start body.length ≤ c ∧ t.FreeCut body c} (t.straddleFixpointCut body start) := by
  have hmin : t.straddleFixpointCut body start = t.straddleFixpointCut body (min start body.length) := by
    simp only [straddleFixpointCut, ceilCharBoundary, Nat.min_assoc, Nat.min_self]
  have hle : min start body.length ≤ body.length := Nat.min_le_right ..
  generalize min start body.length = start' at hmin hle
  obtain ⟨hfrom, hfree⟩ := straddleFixpointCut_spec t body hle
  have hceil := Utf8.isCharBoundary_ceil body start'
  have hnearest : isCharBoundary body (t.straddleFixpointCut body start') = true ∧
      ∀ c, ¬t.Straddled body c → ceilCharBoundary body start' ≤ c →
        t.straddleFixpointCut body start' ≤ c := by
    rw [straddleFixpointCut]
    split_ifs
    · exact ⟨hceil, fun _ _ => id⟩
    · exact advanceCut_nearest hbody hceil
  rw [hmin]
  exact ⟨⟨hfrom, hnearest.1, hfree⟩, fun c hc =>
    hnearest.2 c hc.2.2 (Utf8.ceilCharBoundary_le hc.1 hc.2.1)⟩

theorem straddleFixpointCutBack_isGreatest (t : RedactionTable) (hbody : Utf8.Valid body) (start : Nat) :
    IsGreatest {c | c ≤ start ∧ t.FreeCut body c} (t.straddleFixpointCutBack body start) := by
  obtain ⟨hfrom, hfree⟩ := straddleFixpointCutBack_spec t body start
  have hfloor := Utf8.isCharBoundary_floor body (min start body.length)
  have hnearest : isCharBoundary body (t.straddleFixpointCutBack body start) = true ∧
      ∀ c, ¬t.Straddled body c → c ≤ floorCharBoundary body (min start body.length) →
        c ≤ t.straddleFixpointCutBack body start := by
    rw [straddleFixpointCutBack]
    split_ifs
    · exact ⟨hfloor, fun _ _ => id⟩
    · exact retreatCut_nearest hbody hfloor
  refine ⟨⟨hfrom, hnearest.1, hfree⟩, fun c hc => hnearest.2 c hc.2.2 ?_⟩
  exact Utf8.le_floorCharBoundary (Nat.le_min.2 ⟨hc.1, Utf8.isCharBoundary_le hc.2.1⟩) hc.2.1

/-! ## Scrubbing on both sides of a cut -/

theorem occurs_take_iff {c : Nat} : t.Occurs (body.take c) s ↔ t.Occurs body s ∧ s.stop ≤ c := by
  constructor
  · intro h
    have hstop := h.stop_le
    obtain ⟨e, hentry, hlength, hocc⟩ := h.entry
    rw [drop_take] at hocc
    exact ⟨⟨e, hentry, hlength, hocc.trans (List.take_prefix ..)⟩, hstop.trans (length_take_le ..)⟩
  · rintro ⟨⟨e, hentry, hlength, hocc⟩, hstop⟩
    refine ⟨e, hentry, hlength, ?_⟩
    rw [drop_take]
    exact prefix_take_iff.2 ⟨hocc, by omega⟩

theorem occurs_drop_iff {c : Nat} : t.Occurs (body.drop c) s ↔ t.Occurs body (s.shift c) := by
  constructor
  · rintro ⟨e, hentry, hlength, hocc⟩
    exact ⟨e, hentry, by simp only [Span.shift]; omega, by rwa [Span.shift, ← drop_drop]⟩
  · rintro ⟨e, hentry, hlength, hocc⟩
    simp only [Span.shift] at hentry hlength hocc
    exact ⟨e, hentry, by omega, by rwa [drop_drop]⟩

/-- Every occurrence lies on one side of a free cut. -/
theorem occurs_iff_of_not_straddled {c : Nat} (hc : ¬t.Straddled body c) (s : Span Nat) :
    t.Occurs body s ↔ t.Occurs (body.take c) s ∨ ∃ s', t.Occurs (body.drop c) s' ∧ s = s'.shift c := by
  simp only [occurs_take_iff, occurs_drop_iff]
  constructor
  · intro h
    obtain hgt | hle := Nat.lt_or_ge c s.stop
    · obtain ⟨e, hentry, hlength, hocc⟩ := h.entry
      have hstart : c ≤ s.start := by
        by_contra hlt
        exact hc ⟨e, mem_of_getElem? hentry, s.start, hocc, Nat.not_le.1 hlt, hlength ▸ hgt⟩
      have hshift : s = Span.shift c ⟨s.start - c, s.stop - c, s.tag⟩ := by
        simp only [Span.shift, Nat.add_sub_cancel' hstart, Nat.add_sub_cancel' (Nat.le_of_lt hgt)]
      exact .inr ⟨_, hshift ▸ h, hshift⟩
    · exact .inl ⟨h, hle⟩
  · rintro (⟨h, -⟩ | ⟨s', h, rfl⟩)
    · exact h
    · exact h

theorem Replaces.of_take {c : Nat} (hr : r.stop ≤ c)
    (h : t.Replaces (body.take c) r text) : t.Replaces body r text := by
  cases h with
  | single hentry hall =>
    exact .single hentry fun s hs hholds => hall s (occurs_take_iff.2 ⟨hs, hholds.2.trans hr⟩) hholds
  | several hs hs' hholds hholds' hne =>
    exact .several (occurs_take_iff.1 hs).1 (occurs_take_iff.1 hs').1 hholds hholds' hne

theorem Replaces.of_drop {c : Nat} (hc : ¬t.Straddled body c)
    (h : t.Replaces (body.drop c) r text) : t.Replaces body (r.shift c) text := by
  cases h with
  | single hentry hall =>
    refine .single hentry fun s hs hholds => ?_
    obtain hs | ⟨s', hs', rfl⟩ := (occurs_iff_of_not_straddled hc s).1 hs
    · have hstop := (occurs_take_iff.1 hs).2
      have hlt := hs.start_lt_stop
      have hle : c + r.start ≤ s.start := hholds.1
      omega
    · exact hall s' hs' (Stretch.holds_shift.1 hholds)
  | several hs hs' hholds hholds' hne =>
    exact .several (occurs_drop_iff.1 hs) (occurs_drop_iff.1 hs') (Stretch.holds_shift.2 hholds)
      (Stretch.holds_shift.2 hholds') hne

theorem Enforces.scrub_append (h : t.Enforces current) {c : Nat}
    (hle : c ≤ body.length) (hc : ¬t.Straddled body c) :
    t.scrub current body = t.scrub current (body.take c) ++ t.scrub current (body.drop c) := by
  obtain ⟨left, leftTexts, hleft, hleftTexts, hscrubLeft⟩ := h.exists_ranges (body.take c)
  obtain ⟨right, rightTexts, hright, hrightTexts, hscrubRight⟩ := h.exists_ranges (body.drop c)
  have hlength : (body.take c).length = c := length_take_of_le hle
  have hproper : ∀ {part : Bytes} (s : Span Nat), t.Occurs part s → s.start < s.stop :=
    fun _ hs => hs.start_lt_stop
  have hbefore : ∀ r ∈ left, r.stop ≤ c := by
    intro r hr
    obtain ⟨s, hs, -, hstop⟩ := hleft.stops r hr
    exact hstop ▸ (occurs_take_iff.1 hs).2
  have hranges : Stretch.MaximalRanges (t.Occurs body) (left ++ right.map (Stretch.shift c)) :=
    hleft.append_shift hright hproper hproper (fun s hs => (occurs_take_iff.1 hs).2)
      (occurs_iff_of_not_straddled hc)
  have htexts : List.Forall₂ (t.Replaces body) (left ++ right.map (Stretch.shift c))
      (leftTexts ++ rightTexts) := by
    refine rel_append ?_ (forall₂_map_left_iff.2 (hrightTexts.imp fun _ _ => .of_drop hc))
    refine forall₂_iff_get.2 ⟨hleftTexts.length_eq, fun i hi hi' => ?_⟩
    exact (hleftTexts.get hi hi').of_take (hbefore _ (getElem_mem hi))
  have hzip : (left ++ right.map (Stretch.shift c)).zip (leftTexts ++ rightTexts) =
      left.zip leftTexts ++ (right.zip rightTexts).map fun r => (r.1.shift (body.take c).length, r.2) := by
    rw [zip_append hleftTexts.length_eq, zip_map_left, hlength]
    rfl
  rw [h.scrub_eq_of_replaces hranges htexts, hscrubLeft, hscrubRight, hzip,
    ← splice_append, take_append_drop]
  · exact fun r hr => hlength.symm ▸ hbefore r.1 (of_mem_zip hr).1
  · exact fun r hr => Nat.le_of_lt (hleft.start_lt_stop hproper (of_mem_zip hr).1)

/-- The cuts are the nearest free ones, and a table that does not stand in for the whole text scrubs
    either side of a free cut by itself. -/
theorem fixpoint_cuts_nearest (t : RedactionTable) (hbody : Utf8.Valid body) (start : Nat) :
    IsLeast {c | min start body.length ≤ c ∧ t.FreeCut body c} (t.straddleFixpointCut body start) ∧
      IsGreatest {c | c ≤ start ∧ t.FreeCut body c} (t.straddleFixpointCutBack body start) ∧
      ∀ current c, t.withholdAll = false → t.coverageBindingStale current = false →
        t.FreeCut body c →
        t.scrub current body = t.scrub current (body.take c) ++ t.scrub current (body.drop c) := by
  refine ⟨t.straddleFixpointCut_isLeast hbody start, t.straddleFixpointCutBack_isGreatest hbody start, ?_⟩
  intro current c hreleases hfresh hc
  cases hdisabled : t.disabled with
  | false =>
    have henforces : t.Enforces current := ⟨hreleases, hfresh, hdisabled⟩
    exact henforces.scrub_append (Utf8.isCharBoundary_le hc.1) hc.2
  | true =>
    have hkept : ∀ text, t.scrub current text = text := by
      intro text
      simp only [scrub, scrubCowWithPlaceholder, hreleases, hfresh, hdisabled, Bool.false_eq_true,
        if_false, if_true]
    rw [hkept, hkept, hkept, List.take_append_drop]

end RedactionTable

theorem overlappingTable_fixpoint_cuts : Utf8.Valid (Bytes.ascii "-abcdefxyz-") ∧
      IsLeast {c | min 4 (Bytes.ascii "-abcdefxyz-").length ≤ c ∧
          overlappingTable.FreeCut (Bytes.ascii "-abcdefxyz-") c}
        (overlappingTable.straddleFixpointCut (Bytes.ascii "-abcdefxyz-") 4) :=
  ⟨by decide, (overlappingTable.fixpoint_cuts_nearest (by decide) 4).1⟩

example : overlappingTable.straddleFixpointCut (Bytes.ascii "-abcdefxyz-") 4 = 10 := by decide +kernel

def withholdingTable : RedactionTable :=
  { fromRedactionEntries noFiles [] (Bytes.ascii "[R]") false ⟨[]⟩ with withholdAll := true }

/-- A table that withholds everything writes its notice once for the whole text. -/
theorem withheld_text_not_separated : withholdingTable.FreeCut (Bytes.ascii "ab") 1 ∧
      withholdingTable.scrub (fun _ => true) (Bytes.ascii "ab") ≠
        withholdingTable.scrub (fun _ => true) ((Bytes.ascii "ab").take 1) ++
          withholdingTable.scrub (fun _ => true) ((Bytes.ascii "ab").drop 1) := by
  refine ⟨⟨by decide, RedactionTable.not_straddled_of_maxMatchLen (.inr rfl)⟩, ?_⟩
  decide +kernel

end FlyCockpit.Redact
