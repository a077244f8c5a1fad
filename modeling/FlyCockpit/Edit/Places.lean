-- SUMMARY: What the stages of the edit matcher replace, told without the search that finds it.
import FlyCockpit.Edit.Regions

/-!
# What a stage replaces

A stage has places it may replace, and it replaces a tiling of them: the exact stage the places where
the target stands, a normalizing stage the windows with the target's normal form, an anchor stage the
first place that holds the text of the best region. The cascade stops at the first stage that has a
place at all.
-/

namespace FlyCockpit.Edit

open List

open Text (lines)

open Search (Occurs)

variable {file target : Text} {replaceAll : Bool} {stage : Stage} {m : Match}

/-! ## Places -/

/-- The first place that holds the text of the best region. -/
def IsBestText (file target : Text) (minRatio : Nat) (span : ByteRange) : Prop :=
  ∃ start, Best file target minRatio start ∧
    HoldsAt file span (windowText file target (lines target).length start) ∧
    ∀ q, Occurs Char.utf8Size (windowText file target (lines target).length start) file q →
      span.start ≤ q

/-- The places that a stage may replace. -/
def Matches (file target : Text) (stage : Stage) (span : ByteRange) : Prop :=
  match stage.normalizer, stage.minRatio with
  | some normalize, _ => IsWindow file target normalize span
  | none, some minRatio => IsBestText file target minRatio span
  | none, none => HoldsAt file span target

/-- The kinds of stages, each with its own places and its own search. -/
theorem stage_cases (stage : Stage) (file target : Text) (replaceAll : Bool) :
    (∃ normalize, stage.normalizer = some normalize ∧ stage.minRatio = none ∧
        (∀ span, Matches file target stage span ↔ IsWindow file target normalize span) ∧
        stageMatch file target replaceAll stage =
          normalizedMatch file target replaceAll stage normalize) ∨
      (∃ minRatio, stage.normalizer = none ∧ stage.minRatio = some minRatio ∧
        (∀ span, Matches file target stage span ↔ IsBestText file target minRatio span) ∧
        stageMatch file target replaceAll stage = anchoredMatch file target stage minRatio) ∨
      stage = .exact ∧ (∀ span, Matches file target stage span ↔ HoldsAt file span target) ∧
        stageMatch file target replaceAll stage = exactMatch file target replaceAll := by
  cases stage with
  | exact => exact .inr (.inr ⟨rfl, fun _ => Iff.rfl, rfl⟩)
  | blockAnchor => exact .inr (.inl ⟨_, rfl, rfl, fun _ => Iff.rfl, rfl⟩)
  | contextAware => exact .inr (.inl ⟨_, rfl, rfl, fun _ => Iff.rfl, rfl⟩)
  | lineTrim => exact .inl ⟨_, rfl, rfl, fun _ => Iff.rfl, rfl⟩
  | whitespaceNormalized => exact .inl ⟨_, rfl, rfl, fun _ => Iff.rfl, rfl⟩
  | indentFlexible => exact .inl ⟨_, rfl, rfl, fun _ => Iff.rfl, rfl⟩
  | escapeNormalized => exact .inl ⟨_, rfl, rfl, fun _ => Iff.rfl, rfl⟩
  | trimmedBoundary => exact .inl ⟨_, rfl, rfl, fun _ => Iff.rfl, rfl⟩

theorem lineStart_lt {i j : Nat} (h : i < j) (hj : j ≤ (splitInclusive file).length) :
    lineStart file i < lineStart file j := by
  have hi : i < (splitInclusive file).length := Nat.lt_of_lt_of_le h hj
  have hpiece : (splitInclusive file)[i] ≠ [] :=
    (Lines.not_newline_of_mem_dropLast (getElem_mem hi)).2
  calc lineStart file i < lineStart file i + len (splitInclusive file)[i] :=
        Nat.lt_add_of_pos_right (len_pos hpiece)
    _ = lineStart file (i + 1) := by
        rw [lineStart, lineStart, take_succ_eq_append_getElem hi, flatten_append, len, len, len,
          Search.size_append, flatten_singleton]
    _ ≤ lineStart file j := lineStart_mono file h

/-- Windows that begin at the same place are the same. -/
theorem lineStart_inj {normalize : Text → Text} {start start' : Nat}
    (h : start ∈ stageWindows file target normalize) (h' : start' ∈ stageWindows file target normalize)
    (heq : lineStart file start = lineStart file start') : start = start' := by
  have hbound := of_mem_stageStarts (mem_of_mem_filter h)
  have hbound' := of_mem_stageStarts (mem_of_mem_filter h')
  obtain hlt | rfl | hlt := Nat.lt_trichotomy start start'
  · have := @lineStart_lt file start start' hlt (by omega)
    omega
  · rfl
  · have := @lineStart_lt file start' start hlt (by omega)
    omega

theorem HoldsAt.eq_of_start {text : Text} {a b : ByteRange} (ha : HoldsAt file a text)
    (hb : HoldsAt file b text) (h : a.start = b.start) : a = b := by
  have hstop := (holdsAt_iff.1 ha).2
  have hstop' := (holdsAt_iff.1 hb).2
  rw [h, ← hstop'] at hstop
  cases a
  cases b
  cases h
  cases hstop
  rfl

theorem Matches.holdsAt {span : ByteRange} (h : Matches file target stage span) :
    ∃ text, HoldsAt file span text := by
  obtain ⟨normalize, -, -, hiff, -⟩ | ⟨minRatio, -, -, hiff, -⟩ | ⟨-, hiff, -⟩ :=
    stage_cases stage file target false
  · obtain ⟨start, -, rfl⟩ := (hiff span).1 h
    exact ⟨_, holdsAt_window file target (targetLines target) start⟩
  · obtain ⟨start, -, hholds, -⟩ := (hiff span).1 h
    exact ⟨_, hholds⟩
  · exact ⟨target, (hiff span).1 h⟩

theorem Matches.eq_of_start {a b : ByteRange} (ha : Matches file target stage a)
    (hb : Matches file target stage b) (h : a.start = b.start) : a = b := by
  obtain ⟨normalize, -, -, hiff, -⟩ | ⟨minRatio, -, -, hiff, -⟩ | ⟨-, hiff, -⟩ :=
    stage_cases stage file target false
  · obtain ⟨start, hstart, rfl⟩ := (hiff a).1 ha
    obtain ⟨start', hstart', rfl⟩ := (hiff b).1 hb
    rw [lineStart_inj hstart hstart' h]
  · obtain ⟨start, hbest, hholds, -⟩ := (hiff a).1 ha
    obtain ⟨start', hbest', hholds', -⟩ := (hiff b).1 hb
    obtain rfl := hbest.unique hbest'
    exact hholds.eq_of_start hholds' h
  · exact ((hiff a).1 ha).eq_of_start ((hiff b).1 hb) h

/-! ## What is replaced -/

/-- The spans that a stage replaces. One span is enough for a single edit, but a normalizing stage
    takes it only if no other window has the target's normal form. -/
structure Replaces (file target : Text) (replaceAll : Bool) (stage : Stage) (spans : List ByteRange) :
    Prop where
  tiles : Tiles ByteRange.start ByteRange.stop (Matches file target stage) spans
  nonempty : spans ≠ []
  single : replaceAll = false → spans.length = 1 ∧
    (stage.normalizer.isSome → ∀ a b, Matches file target stage a → Matches file target stage b → a = b)

/-- The places of a stage have one tiling. -/
theorem tiles_unique {spans spans' : List ByteRange}
    (h : Tiles ByteRange.start ByteRange.stop (Matches file target stage) spans)
    (h' : Tiles ByteRange.start ByteRange.stop (Matches file target stage) spans') : spans = spans' := by
  refine h.unique h' (fun span hspan => ?_) fun a b ha hb hstart => ha.eq_of_start hb hstart
  obtain ⟨text, hholds⟩ := hspan.holdsAt
  exact hholds.le.1

/-- The match is what the stage replaces, with the text of its first span. -/
def Match.Reports (m : Match) (file target : Text) (replaceAll : Bool) : Prop :=
  Replaces file target replaceAll m.stage m.spans ∧
    ∃ span rest, m.spans = span :: rest ∧ HoldsAt file span m.canonical

section Normalizing

variable {normalize : Text → Text}

theorem normalizedMatch_none (hstage : stage.normalizer = some normalize)
    (h : normalizedMatch file target replaceAll stage normalize = .ok none) :
    stageWindows file target normalize = [] := by
  have hnone : matchViaNormalizer file target replaceAll normalize = .ok none := by
    rw [(normalizedMatch_spec file target replaceAll hstage).1, h]
    rfl
  cases replaceAll with
  | true =>
    obtain ⟨spans, hspans, htiles⟩ := @matchViaNormalizer_true file target normalize stage hstage
    rw [hspans] at hnone
    split_ifs at hnone with hne
    · cases hnone
    · rw [not_not.1 hne] at htiles
      refine eq_nil_iff_forall_not_mem.2 fun start hstart => ?_
      obtain ⟨span, hspan, -⟩ := htiles.covers _ ⟨start, hstart, rfl⟩
      cases hspan
  | false =>
    rw [matchViaNormalizer_false] at hnone
    split_ifs at hnone
    exact List.head?_eq_none_iff.1 (Option.map_eq_none_iff.1 (Except.ok.inj hnone))

/-- A single edit at a normalizing stage has one window only. -/
theorem stageWindows_length_le
    (h : ∀ a b, IsWindow file target normalize a → IsWindow file target normalize b → a = b) :
    (stageWindows file target normalize).length ≤ 1 := by
  have hsorted : (stageWindows file target normalize).Pairwise (· < ·) :=
    List.Pairwise.filter _ stageStarts_sorted
  cases hwindows : stageWindows file target normalize with
  | nil => exact Nat.zero_le 1
  | cons start l =>
    cases l with
    | nil => exact Nat.le_refl 1
    | cons start' l =>
      have hstart : start ∈ stageWindows file target normalize := by simp [hwindows]
      have hstart' : start' ∈ stageWindows file target normalize := by simp [hwindows]
      have hspan := h _ _ ⟨start, hstart, rfl⟩ ⟨start', hstart', rfl⟩
      have heq := lineStart_inj hstart hstart' (congrArg ByteRange.start hspan)
      rw [hwindows] at hsorted
      have hlt := rel_of_pairwise_cons hsorted mem_cons_self
      omega

theorem IsWindow.eq (h : (stageWindows file target normalize).length ≤ 1) {a b : ByteRange}
    (ha : IsWindow file target normalize a) (hb : IsWindow file target normalize b) : a = b := by
  obtain ⟨start, hstart, rfl⟩ := ha
  obtain ⟨start', hstart', rfl⟩ := hb
  obtain hnil | ⟨only, honly⟩ := Nat.le_one_iff_eq_zero_or_eq_one.1 h |>.imp
    length_eq_zero_iff.1 length_eq_one_iff.1
  · rw [hnil] at hstart
    cases hstart
  · rw [honly, mem_singleton] at hstart hstart'
    rw [hstart, hstart']

end Normalizing

/-- What the spec of one stage is about. -/
def Answer (file target : Text) (replaceAll : Bool) (stage : Stage) : Result (Option Match) → Prop
  | .ok none => ∀ span, ¬Matches file target stage span
  | .ok (some m) => m.stage = stage ∧ m.Reports file target replaceAll
  | .error _ => (∃ span, Matches file target stage span) ∧
    ∀ spans, ¬Replaces file target replaceAll stage spans

theorem exactMatch_answer (htarget : target ≠ [])
    (hiff : ∀ span, Matches file target .exact span ↔ HoldsAt file span target) :
    Answer file target replaceAll .exact (exactMatch file target replaceAll) := by
  have htiles : Tiles ByteRange.start ByteRange.stop (Matches file target .exact)
      (exactSpans file target) := by
    rw [funext fun span => propext (hiff span)]
    exact tiles_exactSpans htarget
  rw [exactMatch_eq]
  split_ifs with hnil hmany
  · intro span hspan
    obtain ⟨a, ha, -⟩ := htiles.covers span hspan
    rw [hnil] at ha
    cases ha
  · obtain ⟨span, rest, hcons⟩ := exists_cons_of_ne_nil hnil
    refine ⟨⟨span, htiles.occurs span (by simp [hcons])⟩, fun spans hspans => ?_⟩
    obtain rfl := tiles_unique hspans.tiles htiles
    have hone := (hspans.single (by simpa using hmany.1)).1
    omega
  · obtain ⟨span, rest, hspans⟩ := exists_cons_of_ne_nil hnil
    refine ⟨rfl, ⟨htiles, hnil, fun hfalse => ⟨?_, fun hsome => by cases hsome⟩⟩, span, rest, hspans, ?_⟩
    · have hpos := length_pos_iff.2 hnil
      have hlength : ¬(exactSpans file target).length > 1 := fun h => hmany ⟨by simp [hfalse], h⟩
      change (exactSpans file target).length = 1
      omega
    · exact (hiff span).1 (htiles.occurs span (by simp [hspans]))

theorem normalizedMatch_answer {normalize : Text → Text} (hstage : stage.normalizer = some normalize)
    (hiff : ∀ span, Matches file target stage span ↔ IsWindow file target normalize span) :
    Answer file target replaceAll stage (normalizedMatch file target replaceAll stage normalize) := by
  cases hmatch : normalizedMatch file target replaceAll stage normalize with
  | error e =>
    obtain ⟨-, hfalse, hlength⟩ := normalizedMatch_error hstage hmatch
    obtain ⟨start, hstart⟩ := exists_mem_of_length_pos (Nat.lt_of_succ_lt hlength)
    refine ⟨⟨_, (hiff _).2 ⟨start, hstart, rfl⟩⟩, fun spans hspans => ?_⟩
    have hone := (hspans.single hfalse).2 (by simp [hstage])
    have hle := stageWindows_length_le fun a b ha hb => hone a b ((hiff a).2 ha) ((hiff b).2 hb)
    omega
  | ok found =>
    cases found with
    | none =>
      intro span hspan
      obtain ⟨start, hstart, -⟩ := (hiff span).1 hspan
      rw [normalizedMatch_none hstage hmatch] at hstart
      cases hstart
    | some m =>
      obtain ⟨hspans, hm⟩ := normalizedMatch_spec file target replaceAll hstage
      obtain ⟨rfl, hvalid⟩ := hm m hmatch
      rw [hmatch, Except.map, Option.map_some] at hspans
      obtain ⟨hne, htiles⟩ := of_matchViaNormalizer hstage hspans
      rw [← funext fun span => propext (hiff span)] at htiles
      refine ⟨rfl, ⟨htiles, hne, ?_⟩, hvalid.first⟩
      rintro rfl
      rw [matchViaNormalizer_false] at hspans
      split_ifs at hspans with hlength
      obtain ⟨start, -, hsingle⟩ := Option.map_eq_some_iff.1 (Except.ok.inj hspans)
      refine ⟨by rw [← hsingle, length_singleton], fun _ a b ha hb => ?_⟩
      exact ((hiff a).1 ha).eq hlength ((hiff b).1 hb)

theorem anchoredMatch_answer {minRatio : Nat} (hfile : file ≠ []) (hstage : stage.normalizer = none)
    (hiff : ∀ span, Matches file target stage span ↔ IsBestText file target minRatio span) :
    Answer file target replaceAll stage (anchoredMatch file target stage minRatio) := by
  cases hmatch : anchoredMatch file target stage minRatio with
  | error e =>
    obtain ⟨found, hfound, -⟩ := @anchoredMatch_spec file target minRatio stage hfile
    rw [hmatch] at hfound
    cases hfound
  | ok found =>
    cases found with
    | none =>
      intro span hspan
      obtain ⟨start, hbest, -⟩ := (hiff span).1 hspan
      obtain ⟨found, hfound, ⟨-, hnone⟩ | ⟨start', p, -, -, rfl⟩⟩ :=
        @anchoredMatch_spec file target minRatio stage hfile
      · exact hnone start hbest
      · rw [hmatch] at hfound
        cases hfound
    | some m =>
      obtain ⟨rfl, hvalid, start, p, hbest, hcanonical, hfind, hspans⟩ := anchoredMatch_some hfile hmatch
      have hfirst := Search.find_eq_some utf8Size_pos hvalid.canonical_ne hfind
      have hholds : HoldsAt file ⟨p, p + len m.canonical⟩ m.canonical := holdsAt_iff.2 ⟨hfirst.1, rfl⟩
      have hspan : Matches file target m.stage ⟨p, p + len m.canonical⟩ := by
        refine (hiff _).2 ⟨start, hbest, ?_⟩
        rw [← hcanonical]
        exact ⟨hholds, hfirst.2⟩
      refine ⟨rfl, ⟨?_, by simp [hspans], fun _ => ⟨by simp [hspans], fun hsome => ?_⟩⟩, hvalid.first⟩
      · rw [hspans]
        refine ⟨fun a ha => mem_singleton.1 ha ▸ hspan, pairwise_singleton _ _, ?_⟩
        intro b hb
        obtain ⟨start', hbest', hb, hleft⟩ := (hiff b).1 hb
        obtain rfl := hbest'.unique hbest
        rw [← hcanonical] at hb hleft
        have hstart : b.start = p :=
          Nat.le_antisymm (hleft p hfirst.1) (hfirst.2 b.start (holdsAt_iff.1 hb).1)
        refine ⟨_, mem_singleton_self _, Nat.le_of_eq hstart.symm, ?_⟩
        rw [hstart]
        exact Nat.lt_add_of_pos_right (len_pos hvalid.canonical_ne)
      · rw [hstage] at hsome
        cases hsome

/-- What one stage answers: nothing if it has no place, a match of what it replaces, and a failure
    if a single edit is ambiguous. -/
theorem stageMatch_answer (hfile : file ≠ []) (htarget : target ≠ []) :
    Answer file target replaceAll stage (stageMatch file target replaceAll stage) := by
  obtain ⟨normalize, hstage, -, hiff, heq⟩ | ⟨minRatio, hstage, -, hiff, heq⟩ | ⟨rfl, hiff, heq⟩ :=
    stage_cases stage file target replaceAll
  · rw [heq]
    exact normalizedMatch_answer hstage hiff
  · rw [heq]
    exact anchoredMatch_answer hfile hstage hiff
  · rw [heq]
    exact exactMatch_answer htarget hiff

/-! ## The stage that is reached -/

/-- No stage before this one has a place to replace. -/
def Reached (file target : Text) (stage : Stage) : Prop :=
  ∃ front rest, cascade = front ++ stage :: rest ∧
    ∀ st ∈ front, ∀ span, ¬Matches file target st span

theorem stageMatch_eq_none_iff (hfile : file ≠ []) (htarget : target ≠ []) :
    stageMatch file target replaceAll stage = .ok none ↔ ∀ span, ¬Matches file target stage span := by
  have hanswer := @stageMatch_answer file target replaceAll stage hfile htarget
  constructor
  · intro hnone
    rw [hnone] at hanswer
    exact hanswer
  · intro hnone
    cases hmatch : stageMatch file target replaceAll stage with
    | error e =>
      rw [hmatch] at hanswer
      obtain ⟨⟨span, hspan⟩, -⟩ := hanswer
      exact absurd hspan (hnone span)
    | ok found =>
      cases found with
      | none => rfl
      | some m =>
        rw [hmatch] at hanswer
        obtain ⟨rfl, hreplaces, span, rest, hspans, -⟩ := hanswer
        exact absurd (hreplaces.tiles.occurs span (by simp [hspans])) (hnone span)

theorem firstMatch_append {find : Stage → Result (Option Match)} {front rest : List Stage}
    (hfront : ∀ st ∈ front, find st = .ok none) (hstage : find stage ≠ .ok none) :
    firstMatch find (front ++ stage :: rest) = find stage := by
  induction front with
  | nil =>
    rw [nil_append, firstMatch]
    cases hfind : find stage with
    | error e => rfl
    | ok found =>
      cases found with
      | none => exact absurd hfind hstage
      | some m => rfl
  | cons st front ih =>
    obtain ⟨hst, hfront⟩ := forall_mem_cons.1 hfront
    rw [cons_append, firstMatch, hst]
    exact ih hfront

/-- The matcher answers for the first stage that has a place. -/
theorem findMatch_of_reached (hfile : file ≠ []) (htarget : target ≠ [])
    (hreached : Reached file target stage) {span : ByteRange} (hspan : Matches file target stage span) :
    findMatch file target replaceAll = stageMatch file target replaceAll stage := by
  obtain ⟨front, rest, hcascade, hfront⟩ := hreached
  rw [findMatch, if_neg htarget, hcascade]
  refine firstMatch_append (fun st hst => ?_) fun hnone => ?_
  · exact (stageMatch_eq_none_iff hfile htarget).2 (hfront st hst)
  · exact (stageMatch_eq_none_iff hfile htarget).1 hnone span hspan

theorem reached_of_findMatch (hfile : file ≠ []) (htarget : target ≠ [])
    (h : findMatch file target replaceAll ≠ .ok none) :
    ∃ stage, Reached file target stage ∧ (∃ span, Matches file target stage span) ∧
      findMatch file target replaceAll = stageMatch file target replaceAll stage := by
  obtain ⟨hnone, -⟩ | ⟨front, st, rest, hcascade, hfront, hst, heq⟩ :=
    @findMatch_cases file target replaceAll htarget
  · exact absurd hnone h
  · refine ⟨st, ⟨front, rest, hcascade, fun st' hst' => ?_⟩, ?_, heq⟩
    · exact (stageMatch_eq_none_iff hfile htarget).1 (hfront st' hst')
    · by_contra hnone
      exact hst ((stageMatch_eq_none_iff hfile htarget).2 fun span hspan => hnone ⟨span, hspan⟩)

/-- A match is what the first stage with a place replaces. -/
theorem findMatch_eq_some_iff (hfile : file ≠ []) (htarget : target ≠ []) :
    findMatch file target replaceAll = .ok (some m) ↔
      Reached file target m.stage ∧ m.Reports file target replaceAll := by
  constructor
  · intro h
    obtain ⟨stage, hreached, -, heq⟩ := @reached_of_findMatch file target replaceAll hfile htarget
      (by rw [h]; nofun)
    have hanswer := @stageMatch_answer file target replaceAll stage hfile htarget
    rw [← heq, h] at hanswer
    obtain ⟨rfl, hreports⟩ := hanswer
    exact ⟨hreached, hreports⟩
  · rintro ⟨hreached, hreplaces, span, rest, hspans, hholds⟩
    have hspan : Matches file target m.stage span := hreplaces.tiles.occurs span (by simp [hspans])
    rw [findMatch_of_reached hfile htarget hreached hspan]
    have hanswer := @stageMatch_answer file target replaceAll m.stage hfile htarget
    cases hmatch : stageMatch file target replaceAll m.stage with
    | error e =>
      rw [hmatch] at hanswer
      exact absurd hreplaces (hanswer.2 m.spans)
    | ok found =>
      rw [hmatch] at hanswer
      cases found with
      | none => exact absurd hspan (hanswer span)
      | some m' =>
        obtain ⟨hstage, hreplaces', span', rest', hspans', hholds'⟩ := hanswer
        rw [hstage] at hreplaces'
        have heq := tiles_unique hreplaces'.tiles hreplaces.tiles
        rw [heq, hspans] at hspans'
        cases hspans'
        have hcanonical := hholds'.unique hholds
        cases m
        cases m'
        cases hstage
        cases heq
        cases hcanonical
        rfl

end FlyCockpit.Edit
