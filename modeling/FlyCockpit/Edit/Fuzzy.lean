-- SUMMARY: Which region a fuzzy edit replaces, when its canonical text stands for it, and when a single edit is ambiguous.
import FlyCockpit.Edit.Places

/-!
# Fuzzy and single edits

The normalizing stages replace the windows they compared. The anchor stages choose a region and then
search the file for its text, so they replace the region only if its text does not occur earlier. The
canonical text of a match finds the same spans again if it stands in all of them and nowhere else.
The exact stage counts matches that do not overlap, so overlapping ones go unnoticed.
-/

namespace FlyCockpit.Edit

open List

open Text (lines)

open Search (Occurs)

variable {file target : Text} {replaceAll : Bool} {stage : Stage} {m : Match}
  {normalize : Text → Text} {span : ByteRange} {start : Nat}

/-! ## The region that was judged -/

/-- The span is a region of whole lines that passes the stage's own test. -/
def Judged (file target : Text) (stage : Stage) (span : ByteRange) : Prop :=
  (∀ normalize, stage.normalizer = some normalize →
    ∃ start, start + targetLines target ≤ (splitInclusive file).length ∧
      span = windowSpan file target (targetLines target) start ∧
      normalize (windowText file target (targetLines target) start) = normalize target) ∧
  ∀ minRatio, stage.minRatio = some minRatio →
    ∃ start first last, anchors target = some (first, last) ∧
      span = windowSpan file target (lines target).length start ∧
      IsCandidate file target minRatio (lines target).length first last start ∧
      ∀ start', IsCandidate file target minRatio (lines target).length first last start' →
        ratio target (windowText file target (lines target).length start') ≤
          ratio target (windowText file target (lines target).length start)

/-- The places of a normalizing stage are windows it compared. -/
theorem judged_of_isWindow (hstage : stage.normalizer = some normalize)
    (hratio : stage.minRatio = none) (h : IsWindow file target normalize span) :
    Judged file target stage span := by
  obtain ⟨start, hstart, rfl⟩ := h
  obtain ⟨hmem, hnormal⟩ := mem_filter.1 hstart
  refine ⟨fun normalize' hstage' => ?_, fun minRatio hratio' => ?_⟩
  · rw [hstage] at hstage'
    cases hstage'
    exact ⟨start, of_mem_stageStarts hmem, rfl, of_decide_eq_true hnormal⟩
  · rw [hratio] at hratio'
    cases hratio'

/-- The place of an anchor stage is the region it judged, unless the text stands there earlier. -/
theorem judged_iff_of_best {minRatio : Nat} (hstage : stage.normalizer = none)
    (hratio : stage.minRatio = some minRatio) (hbest : Best file target minRatio start)
    (hspan : IsBestText file target minRatio span) :
    Judged file target stage span ↔ ∀ q, Occurs Char.utf8Size
      (windowText file target (lines target).length start) file q → lineStart file start ≤ q := by
  obtain ⟨start', hbest', hholds, hfirst⟩ := hspan
  obtain rfl := hbest'.unique hbest
  constructor
  · intro hjudged q hq
    obtain ⟨start, first, last, hanchors, hwindow, hcand, -⟩ := hjudged.2 minRatio hratio
    have htext := hholds.unique (hwindow ▸ holdsAt_window file target (lines target).length start)
    have hlate : ¬start < start' := by
      intro hlt
      have hless := hbest.earliest first last hanchors start hlt hcand
      rw [← htext] at hless
      exact Nat.lt_irrefl _ hless
    calc lineStart file start' ≤ lineStart file start := lineStart_mono file (Nat.le_of_not_lt hlate)
      _ = span.start := (congrArg ByteRange.start hwindow).symm
      _ ≤ q := hfirst q hq
  · intro hleft
    have hstart : span.start = lineStart file start' :=
      Nat.le_antisymm (hfirst _ hbest.occurs) (hleft _ (holdsAt_iff.1 hholds).1)
    obtain ⟨first, last, hanchors, hcand⟩ := hbest.isCandidate
    refine ⟨fun normalize hsome => (nomatch hstage.symm.trans hsome), fun minRatio' hratio' => ?_⟩
    rw [hratio] at hratio'
    cases hratio'
    refine ⟨start', first, last, hanchors, ?_, hcand, hbest.highest first last hanchors⟩
    exact hholds.eq_of_start (holdsAt_window file target (lines target).length start') hstart

theorem exists_isBestText {minRatio : Nat} (hbest : Best file target minRatio start) :
    ∃ span, IsBestText file target minRatio span := by
  cases hfind : Search.find Char.utf8Size (windowText file target (lines target).length start) file with
  | none =>
    exact absurd hbest.occurs
      ((Search.find_eq_none_iff utf8Size_pos hbest.windowText_ne_nil).1 hfind (lineStart file start))
  | some p =>
    obtain ⟨hoccurs, hfirst⟩ := Search.find_eq_some utf8Size_pos hbest.windowText_ne_nil hfind
    exact ⟨⟨p, p + len (windowText file target (lines target).length start)⟩, start, hbest,
      holdsAt_iff.2 ⟨hoccurs, rfl⟩, hfirst⟩

/-- Fuzzy spans are the judged regions just when the text of the region that an anchor stage chooses
    does not occur before that region. -/
theorem fuzzy_spans_judged_iff (hfile : file ≠ []) (htarget : target ≠ []) :
    (∀ m, findMatch file target replaceAll = .ok (some m) → m.stage ≠ .exact →
        ∀ span ∈ m.spans, Judged file target m.stage span) ↔
      ∀ stage minRatio start, stage.minRatio = some minRatio → Reached file target stage →
        Best file target minRatio start →
        ∀ q, Occurs Char.utf8Size (windowText file target (lines target).length start) file q →
          lineStart file start ≤ q := by
  constructor
  · intro hjudged stage minRatio start hratio hreached hbest
    have hstage : stage ≠ .exact := by
      rintro rfl
      cases hratio
    obtain ⟨normalize, -, hnone, -⟩ | ⟨minRatio', hnormalizer, hratio', hiff, heq⟩ | ⟨hexact, -⟩ :=
      stage_cases stage file target replaceAll
    · rw [hratio] at hnone
      cases hnone
    · rw [hratio] at hratio'
      cases hratio'
      obtain ⟨span, hspan⟩ := exists_isBestText hbest
      have hfind := @findMatch_of_reached file target replaceAll stage hfile htarget hreached span
        ((hiff span).2 hspan)
      obtain ⟨found, hfound, ⟨-, hnone⟩ | ⟨start', p, -, -, rfl⟩⟩ :=
        @anchoredMatch_spec file target minRatio stage hfile
      · exact absurd hbest (hnone start)
      · rw [heq, hfound] at hfind
        have hreports := ((findMatch_eq_some_iff hfile htarget).1 hfind).2
        have hplace := (hiff _).1 (hreports.1.tiles.occurs _ List.mem_cons_self)
        exact (judged_iff_of_best hnormalizer hratio hbest hplace).1
          (hjudged _ hfind hstage _ List.mem_cons_self)
    · exact absurd hexact hstage
  · intro hleft m hm hstage span hspan
    obtain ⟨hreached, hreplaces, -⟩ := (findMatch_eq_some_iff hfile htarget).1 hm
    have hmatches := hreplaces.tiles.occurs span hspan
    obtain ⟨normalize, hnormalizer, hratio, hiff, -⟩ | ⟨minRatio, hnormalizer, hratio, hiff, -⟩ |
      ⟨hexact, -⟩ := stage_cases m.stage file target replaceAll
    · exact judged_of_isWindow hnormalizer hratio ((hiff span).1 hmatches)
    · obtain ⟨start, hbest, -⟩ := (hiff span).1 hmatches
      exact (judged_iff_of_best hnormalizer hratio hbest ((hiff span).1 hmatches)).2
        (hleft m.stage minRatio start hratio hreached hbest)
    · exact absurd hexact hstage

/-- The text of the second block stands inside the first. -/
theorem span_not_judged : ∃ m,
    findMatch "xa\nY\nby\na\nY\nb\n".toList "a\nZ\nb".toList false = .ok (some m) ∧
      m.stage ≠ .exact ∧ ¬∀ span ∈ m.spans, Judged "xa\nY\nby\na\nY\nb\n".toList "a\nZ\nb".toList m.stage span := by
  refine ⟨⟨"a\nY\nb".toList, [⟨1, 6⟩], .contextAware⟩, by decide +kernel, by decide, fun hjudged => ?_⟩
  obtain ⟨start, -, -, -, hspan, -⟩ := (hjudged ⟨1, 6⟩ (by decide)).2 50 rfl
  have hstart : 1 = lineStart "xa\nY\nby\na\nY\nb\n".toList start := congrArg ByteRange.start hspan
  cases start with
  | zero => exact absurd hstart (by decide)
  | succ start =>
    have hle := lineStart_mono "xa\nY\nby\na\nY\nb\n".toList (Nat.le_add_left 1 start)
    have hfirst : lineStart "xa\nY\nby\na\nY\nb\n".toList 1 = 3 := by decide
    omega

theorem fuzzy_spans_judged_iff_anchored : findMatch "a\nY\nb\n".toList "a\nZ\nb".toList false =
        .ok (some ⟨"a\nY\nb".toList, [⟨0, 5⟩], .contextAware⟩) ∧
      ((∀ m, findMatch "a\nY\nb\n".toList "a\nZ\nb".toList false = .ok (some m) → m.stage ≠ .exact →
          ∀ span ∈ m.spans, Judged "a\nY\nb\n".toList "a\nZ\nb".toList m.stage span) ↔
        ∀ stage minRatio start, stage.minRatio = some minRatio →
          Reached "a\nY\nb\n".toList "a\nZ\nb".toList stage →
          Best "a\nY\nb\n".toList "a\nZ\nb".toList minRatio start →
          ∀ q, Occurs Char.utf8Size
              (windowText "a\nY\nb\n".toList "a\nZ\nb".toList (lines "a\nZ\nb".toList).length start)
              "a\nY\nb\n".toList q →
            lineStart "a\nY\nb\n".toList start ≤ q) :=
  ⟨by decide +kernel, fuzzy_spans_judged_iff (by decide) (by decide)⟩

/-! ## The canonical text -/

/-- The spans hold this text, and it begins nowhere outside of them. -/
def StandsFor (file canonical : Text) (spans : List ByteRange) : Prop :=
  (∀ span ∈ spans, HoldsAt file span canonical) ∧
    ∀ q, Occurs Char.utf8Size canonical file q → ∃ span ∈ spans, span.start ≤ q ∧ q < span.stop

theorem reached_exact : Reached file target .exact :=
  ⟨[], _, rfl, fun _ hst => absurd hst not_mem_nil⟩

theorem standsFor_iff {canonical : Text} {spans : List ByteRange} :
    StandsFor file canonical spans ↔ (∀ span ∈ spans, HoldsAt file span canonical) ∧
      ∀ b, HoldsAt file b canonical → ∃ a ∈ spans, a.start ≤ b.start ∧ b.start < a.stop := by
  refine and_congr_right fun _ => ⟨fun h b hb => h b.start (holdsAt_iff.1 hb).1, fun h q hq => ?_⟩
  exact h ⟨q, q + len canonical⟩ (holdsAt_iff.2 ⟨hq, rfl⟩)

/-- Searching for the canonical text again. -/
theorem findMatch_canonical_iff (hfile : file ≠ []) (hcanonical : m.canonical ≠ [])
    (h : m.Reports file target replaceAll) :
    findMatch file m.canonical replaceAll = .ok (some ⟨m.canonical, m.spans, .exact⟩) ↔
      StandsFor file m.canonical m.spans := by
  obtain ⟨hreplaces, hfirst⟩ := h
  have hmatches : Matches file m.canonical .exact = (HoldsAt file · m.canonical) := rfl
  rw [findMatch_eq_some_iff hfile hcanonical, standsFor_iff]
  constructor
  · rintro ⟨-, hexact, -⟩
    have htiles := hexact.tiles
    rw [hmatches] at htiles
    exact ⟨htiles.occurs, htiles.covers⟩
  · rintro ⟨hholds, hcovers⟩
    refine ⟨reached_exact, ⟨⟨hholds, hreplaces.tiles.apart, hcovers⟩, hreplaces.nonempty, ?_⟩, hfirst⟩
    exact fun hfalse => ⟨(hreplaces.single hfalse).1, fun hsome => by cases hsome⟩

/-- A fuzzy stage is reached only with a target, and it has places only in a file. -/
theorem ne_nil_of_reached (hstage : stage ≠ .exact) (hreached : Reached file target stage)
    (hspan : Matches file target stage span) : file ≠ [] ∧ target ≠ [] := by
  constructor
  · rintro rfl
    obtain ⟨normalize, -, -, hiff, -⟩ | ⟨minRatio, -, -, hiff, -⟩ | ⟨hexact, -⟩ :=
      stage_cases stage [] target false
    · obtain ⟨start, hstart, -⟩ := (hiff span).1 hspan
      have hbound := of_mem_stageStarts (mem_of_mem_filter hstart)
      exact absurd hbound (Nat.not_succ_le_zero _)
    · obtain ⟨start, hbest, -⟩ := (hiff span).1 hspan
      obtain ⟨first, last, -, hfirst, -⟩ := hbest.isCandidate
      cases hfirst
    · exact hstage hexact
  · rintro rfl
    obtain ⟨front, rest, hcascade, hfront⟩ := hreached
    cases front with
    | nil => exact hstage (List.cons.inj hcascade).1.symm
    | cons st front =>
      obtain rfl : Stage.exact = st := (List.cons.inj hcascade).1
      exact hfront .exact mem_cons_self ⟨0, 0⟩ ⟨[], file, rfl, rfl⟩

theorem ne_nil_of_findMatch (h : findMatch file target replaceAll = .ok (some m)) :
    file ≠ [] ∧ target ≠ [] := by
  have htarget : target ≠ [] := by
    rintro rfl
    cases h
  refine ⟨?_, htarget⟩
  rintro rfl
  by_cases htwo : TwoAnchors target
  · rw [findMatch_panics htarget htwo] at h
    cases h
  · have hnone : anchors target = none := by
      cases hpair : anchors target with
      | none => rfl
      | some pair => exact absurd (twoAnchors_iff.2 ⟨pair.1, pair.2, hpair⟩) htwo
    rw [findMatch_empty htarget hnone] at h
    cases h

/-- The canonical text stands for a fuzzy match just when what is replaced holds this text
    throughout and the text begins nowhere else. -/
theorem canonical_rewrite_iff (file target : Text) (replaceAll : Bool) :
    (∀ m, findMatch file target replaceAll = .ok (some m) → m.stage ≠ .exact →
        findMatch file m.canonical replaceAll = .ok (some ⟨m.canonical, m.spans, .exact⟩)) ↔
      ∀ stage span rest canonical, stage ≠ .exact → Reached file target stage →
        Replaces file target replaceAll stage (span :: rest) → HoldsAt file span canonical →
        StandsFor file canonical (span :: rest) := by
  constructor
  · intro hrewrite stage span rest canonical hstage hreached hreplaces hholds
    have hspan := hreplaces.tiles.occurs span List.mem_cons_self
    obtain ⟨hfile, htarget⟩ := ne_nil_of_reached hstage hreached hspan
    have hreports : Match.Reports ⟨canonical, span :: rest, stage⟩ file target replaceAll :=
      ⟨hreplaces, span, rest, rfl, hholds⟩
    have hfind := (findMatch_eq_some_iff hfile htarget).2 ⟨hreached, hreports⟩
    have hne := (findMatch_some hfile htarget hfind).2.canonical_ne
    exact (findMatch_canonical_iff hfile hne hreports).1 (hrewrite _ hfind hstage)
  · intro hstands m hm hstage
    obtain ⟨hfile, htarget⟩ := ne_nil_of_findMatch hm
    obtain ⟨hreached, hreplaces, span, rest, hspans, hholds⟩ :=
      (findMatch_eq_some_iff hfile htarget).1 hm
    have hne := (findMatch_some hfile htarget hm).2.canonical_ne
    refine (findMatch_canonical_iff hfile hne ⟨hreplaces, span, rest, hspans, hholds⟩).2 ?_
    rw [hspans] at hreplaces ⊢
    exact hstands m.stage span rest m.canonical hstage hreached hreplaces hholds

/-- The canonical text also stands at the end of another line. -/
theorem canonical_rewrite_ambiguous : findMatch "xa b\na b\n".toList "a  b".toList false =
        .ok (some ⟨"a b".toList, [⟨5, 8⟩], .whitespaceNormalized⟩) ∧
      findMatch "xa b\na b\n".toList "a b".toList false = .error multipleExact := by
  decide +kernel

/-! ## Single edits -/

/-- A single edit has one place only; with several it reports them. -/
structure Unambiguous (file target : Text) : Prop where
  exact : ∀ m, findMatch file target false = .ok (some m) → m.stage = .exact →
    ∃! pos, Occurs Char.utf8Size target file pos
  normalized : ∀ m normalize, findMatch file target false = .ok (some m) →
    m.stage.normalizer = some normalize →
    ∃! start, start + targetLines target ≤ (splitInclusive file).length ∧
      normalize (windowText file target (targetLines target) start) = normalize target
  several : ∀ p q, Occurs Char.utf8Size target file p → Occurs Char.utf8Size target file q → p ≠ q →
    findMatch file target false = .error multipleExact
  severalWindows : ∀ stage normalize start start', Reached file target stage →
    stage.normalizer = some normalize → start ∈ stageWindows file target normalize →
    start' ∈ stageWindows file target normalize → start ≠ start' →
    findMatch file target false = .error multipleNormalized

/-- A window of the stage lies in the file and has the target's normal form. A stage with a window
    has a normal form that is not blank, so it looks at every window. -/
theorem mem_stageWindows_iff {window : Nat} (h : window ∈ stageWindows file target normalize) :
    start ∈ stageWindows file target normalize ↔
      start + targetLines target ≤ (splitInclusive file).length ∧
        normalize (windowText file target (targetLines target) start) = normalize target := by
  have hmem := mem_of_mem_filter h
  have hstarts : stageStarts file target normalize = starts file (targetLines target) := by
    unfold stageStarts at hmem ⊢
    split_ifs at hmem ⊢
    · cases hmem
    · rfl
  have hbound := of_mem_stageStarts hmem
  rw [stageWindows, matching, mem_filter, hstarts, starts, mem_range, decide_eq_true_eq]
  refine and_congr_left fun _ => ?_
  omega

theorem normalizedMatch_several (h : 1 < (stageWindows file target normalize).length) :
    normalizedMatch file target false stage normalize = .error multipleNormalized := by
  rw [normalizedMatch, matchViaNormalizer_false, if_neg (Nat.not_le.2 h)]
  rfl

/-- The exact stage sees several matches just when two of them do not overlap. -/
theorem exactSpans_length_le_iff (htarget : target ≠ []) : (exactSpans file target).length ≤ 1 ↔
    ¬∃ p q, Occurs Char.utf8Size target file p ∧ Occurs Char.utf8Size target file q ∧
      p + len target ≤ q := by
  have htiles := @tiles_exactSpans file target htarget
  constructor
  · rintro hlength ⟨p, q, hp, hq, hpq⟩
    obtain ⟨a, ha, hap, hpa⟩ := htiles.covers ⟨p, p + len target⟩ (holdsAt_iff.2 ⟨hp, rfl⟩)
    obtain ⟨b, hb, hbq, hqb⟩ := htiles.covers ⟨q, q + len target⟩ (holdsAt_iff.2 ⟨hq, rfl⟩)
    have hstop := (holdsAt_iff.1 (htiles.occurs a ha)).2
    obtain hnil | ⟨only, honly⟩ := Nat.le_one_iff_eq_zero_or_eq_one.1 hlength |>.imp
      length_eq_zero_iff.1 length_eq_one_iff.1
    · rw [hnil] at ha
      cases ha
    · rw [honly, mem_singleton] at ha hb
      subst ha hb
      dsimp only at hap hqb
      omega
  · intro hnone
    cases hspans : exactSpans file target with
    | nil => exact Nat.zero_le 1
    | cons a l =>
      cases l with
      | nil => exact Nat.le_refl 1
      | cons b l =>
        rw [hspans] at htiles
        obtain ⟨ha, hstop⟩ := holdsAt_iff.1 (htiles.occurs a mem_cons_self)
        obtain ⟨hb, -⟩ := holdsAt_iff.1 (htiles.occurs b (mem_cons_of_mem a mem_cons_self))
        have hapart := rel_of_pairwise_cons htiles.apart (mem_cons_self (l := l))
        exact absurd ⟨a.start, b.start, ha, hb, hstop ▸ hapart⟩ hnone

theorem findMatch_of_occurs (hfile : file ≠ []) (htarget : target ≠ []) {p : Nat}
    (hp : Occurs Char.utf8Size target file p) :
    findMatch file target replaceAll = exactMatch file target replaceAll ∧ exactSpans file target ≠ [] := by
  have hplace : Matches file target .exact ⟨p, p + len target⟩ := holdsAt_iff.2 ⟨hp, rfl⟩
  refine ⟨findMatch_of_reached hfile htarget reached_exact hplace, fun hnil => ?_⟩
  obtain ⟨a, ha, -⟩ := (tiles_exactSpans htarget).covers ⟨p, p + len target⟩ hplace
  rw [hnil] at ha
  cases ha

theorem ne_nil_of_occurs (htarget : target ≠ []) {p : Nat} (hp : Occurs Char.utf8Size target file p) :
    file ≠ [] := by
  rintro rfl
  exact Search.not_occurs_nil htarget hp

/-- The windows of a match at a normalizing stage. -/
theorem exists_unique_window (hm : findMatch file target false = .ok (some m))
    (hstage : m.stage.normalizer = some normalize) :
    ∃! start, start + targetLines target ≤ (splitInclusive file).length ∧
      normalize (windowText file target (targetLines target) start) = normalize target := by
  obtain ⟨hfile, htarget⟩ := ne_nil_of_findMatch hm
  obtain ⟨-, hreplaces, span, rest, hspans, -⟩ := (findMatch_eq_some_iff hfile htarget).1 hm
  have hiff : ∀ span, Matches file target m.stage span ↔ IsWindow file target normalize span := by
    intro span
    rw [Matches, hstage]
  obtain ⟨start, hstart, -⟩ := (hiff span).1 (hreplaces.tiles.occurs span (by simp [hspans]))
  refine ⟨start, (mem_stageWindows_iff hstart).1 hstart, fun start' hstart' => ?_⟩
  have hmem := (mem_stageWindows_iff hstart).2 hstart'
  have hsame := (hreplaces.single rfl).2 (by simp [hstage]) _ _
    ((hiff _).2 ⟨start', hmem, rfl⟩) ((hiff _).2 ⟨start, hstart, rfl⟩)
  exact lineStart_inj hmem hstart (congrArg ByteRange.start hsame)

theorem findMatch_several_windows (htarget : target ≠ []) (hreached : Reached file target stage)
    (hstage : stage.normalizer = some normalize) {start' : Nat}
    (hstart : start ∈ stageWindows file target normalize)
    (hstart' : start' ∈ stageWindows file target normalize) (hne : start ≠ start') :
    findMatch file target false = .error multipleNormalized := by
  obtain ⟨normalize', hstage', -, hiff, heq⟩ | ⟨minRatio, hnone, -⟩ | ⟨rfl, -⟩ :=
    stage_cases stage file target false
  · rw [hstage] at hstage'
    cases hstage'
    have hplace := (hiff _).2 ⟨start, hstart, rfl⟩
    have hfile := (ne_nil_of_reached (by rintro rfl; cases hstage) hreached hplace).1
    rw [findMatch_of_reached hfile htarget hreached hplace, heq]
    refine normalizedMatch_several (Nat.lt_of_not_le fun hle => hne ?_)
    have hsame := IsWindow.eq hle ⟨start, hstart, rfl⟩ ⟨start', hstart', rfl⟩
    exact lineStart_inj hstart hstart' (congrArg ByteRange.start hsame)
  · rw [hstage] at hnone
    cases hnone
  · cases hstage

/-- Single edits are unambiguous just when the target occurs once at most, or twice without
    overlapping itself. -/
theorem single_edit_unambiguous_iff (file target : Text) (htarget : target ≠ []) :
    Unambiguous file target ↔
      (∀ p q, Occurs Char.utf8Size target file p → Occurs Char.utf8Size target file q → p = q) ∨
        ∃ p q, Occurs Char.utf8Size target file p ∧ Occurs Char.utf8Size target file q ∧
          p + len target ≤ q := by
  constructor
  · intro h
    by_contra hneither
    obtain ⟨hmany, hoverlap⟩ := not_or.1 hneither
    push Not at hmany
    obtain ⟨p, q, hp, hq, hne⟩ := hmany
    have hlength := (exactSpans_length_le_iff htarget).2 hoverlap
    obtain ⟨hfind, hspans⟩ := @findMatch_of_occurs file target false (ne_nil_of_occurs htarget hp) htarget p hp
    rw [exactMatch_eq, if_neg hspans, if_neg fun hseveral => Nat.not_lt.2 hlength hseveral.2] at hfind
    obtain ⟨pos, -, hunique⟩ := h.exact _ hfind rfl
    exact hne ((hunique p hp).trans (hunique q hq).symm)
  · intro hcond
    refine ⟨fun m hm hstage => ?_, fun m normalize hm hstage => exists_unique_window hm hstage, ?_,
      fun stage normalize start start' hreached hstage hstart hstart' hne =>
        findMatch_several_windows htarget hreached hstage hstart hstart' hne⟩
    · obtain ⟨hfile, -⟩ := ne_nil_of_findMatch hm
      obtain ⟨-, hreplaces, span, rest, hspans, -⟩ := (findMatch_eq_some_iff hfile htarget).1 hm
      rw [hstage] at hreplaces
      have hspan : HoldsAt file span target := hreplaces.tiles.occurs span (by simp [hspans])
      have heq : m.spans = exactSpans file target := tiles_unique hreplaces.tiles (tiles_exactSpans htarget)
      have hlength := (hreplaces.single rfl).1
      obtain hunique | htwo := hcond
      · exact ⟨span.start, (holdsAt_iff.1 hspan).1, fun pos hpos => hunique _ _ hpos (holdsAt_iff.1 hspan).1⟩
      · rw [heq] at hlength
        exact absurd htwo ((exactSpans_length_le_iff htarget).1 (Nat.le_of_eq hlength))
    · intro p q hp hq hne
      obtain ⟨hfind, hspans⟩ := @findMatch_of_occurs file target false (ne_nil_of_occurs htarget hp) htarget p hp
      have hseveral : (exactSpans file target).length > 1 := by
        refine Nat.lt_of_not_le fun hle => ?_
        obtain hunique | htwo := hcond
        · exact hne (hunique p q hp hq)
        · exact (exactSpans_length_le_iff htarget).1 hle htwo
      rw [hfind, exactMatch_eq, if_neg hspans, if_pos ⟨rfl, hseveral⟩]

/-- Two matches that overlap count as one. -/
theorem overlapping_not_unambiguous : ¬Unambiguous "aaa".toList "aa".toList := by
  intro h
  have hfind : findMatch "aaa".toList "aa".toList false = .ok (some ⟨"aa".toList, [⟨0, 2⟩], .exact⟩) := by
    decide +kernel
  obtain ⟨pos, -, hunique⟩ := h.exact _ hfind rfl
  have hzero := hunique 0 ⟨[], "a".toList, rfl, rfl⟩
  have hone := hunique 1 ⟨"a".toList, [], rfl, rfl⟩
  omega

theorem single_edit_unambiguous_iff_one_char :
    "a".toList ≠ [] ∧ (Unambiguous "aaa".toList "a".toList ↔
      (∀ p q, Occurs Char.utf8Size "a".toList "aaa".toList p →
          Occurs Char.utf8Size "a".toList "aaa".toList q → p = q) ∨
        ∃ p q, Occurs Char.utf8Size "a".toList "aaa".toList p ∧
          Occurs Char.utf8Size "a".toList "aaa".toList q ∧ p + len "a".toList ≤ q) :=
  ⟨by decide, single_edit_unambiguous_iff "aaa".toList "a".toList (by decide)⟩

end FlyCockpit.Edit
