-- SUMMARY: Scrubbing a text: all occurrences of all literals, merged into ranges and replaced.
import FlyCockpit.Lib.Marks
import FlyCockpit.Redact.Table
import Mathlib.Data.Prod.Lex

/-!
# Scrubbing

`scrub` finds every occurrence of every literal, overlapping ones included, merges those that
overlap strictly into ranges and writes one replacement for each range. The automaton that finds
the occurrences is taken at its word: `findOverlappingIter` lists them all.

`scrubMarked` does the same to bytes that carry where they were copied from, so that it can be said
which bytes of a text get through.
-/

namespace FlyCockpit.Redact

open Bytes List

open Mark (origins ofSource)

/-- The positions at which a literal occurs. -/
def occurrences (value body : Bytes) : List Nat :=
  (List.range (body.length + 1)).filter fun i => value.isPrefixOf (body.drop i)

/-- Every occurrence of every literal, tagged with the index of its entry. -/
def findOverlappingIter (entries : List RedactionEntry) (body : Bytes) : List (Span Nat) :=
  entries.zipIdx.flatMap fun (e, k) =>
    (occurrences e.value body).map fun i => ⟨i, i + e.value.length, k⟩

def isMatch (entries : List RedactionEntry) (body : Bytes) : Bool :=
  entries.any fun e => contains body e.value

/-- The order the spans are sorted in. -/
def spanOrder (a b : Span Nat) : Prop := toLex (a.start, a.stop) ≤ toLex (b.start, b.stop)

instance instDecidableSpanOrder (a b : Span Nat) : Decidable (spanOrder a b) :=
  inferInstanceAs (Decidable (toLex (a.start, a.stop) ≤ toLex (b.start, b.stop)))

instance instTotalSpanOrder : Std.Total spanOrder := ⟨fun _ _ => le_total _ _⟩

instance instTransSpanOrder : IsTrans (Span Nat) spanOrder := ⟨fun _ _ _ => le_trans⟩

def coverageWithheldPlaceholder : Bytes := ascii "[withheld: redaction coverage unavailable]"

/-- Bytes with the positions they were copied from. -/
abbrev Marked := List (Mark UInt8)

namespace RedactionTable

/-- What stands for a range: the replacement of its entry if it has only one. -/
def replacementText (t : RedactionTable) (placeholder : Bytes) (g : Sweep Nat) : Bytes :=
  if g.single then
    match t.entries[g.first]? with
    | some e => e.replacement.render placeholder
    | none => placeholder
  else placeholder

def coverageBindingStale (t : RedactionTable) (current : CoverageTableBinding → Bool) : Bool :=
  !(t.coverageBinding.all current && t.scrubRefusals.all current)

def scrubCowWithPlaceholder (t : RedactionTable) (current : CoverageTableBinding → Bool)
    (body placeholder : Bytes) : Bytes :=
  if t.withholdAll then
    if body = [] then body else coverageWithheldPlaceholder
  else if t.coverageBindingStale current then
    if body = [] then body else placeholder
  else if t.disabled then body
  else if t.entries = [] then body
  else if !isMatch t.entries body then body
  else
    let spans := (findOverlappingIter t.entries body).insertionSort spanOrder
    splice body ((Sweep.sweep spans).map fun g => (g.stretch, t.replacementText placeholder g))

/-- The text live replacements are made of: no literal occurs in it. -/
def livePlaceholder (t : RedactionTable) : Bytes :=
  if t.placeholderConflicts then Utf8.encode "█" else t.placeholder

def scrub (t : RedactionTable) (current : CoverageTableBinding → Bool) (body : Bytes) : Bytes :=
  t.scrubCowWithPlaceholder current body t.livePlaceholder

/-- The table substitutes: it is not withholding, stale or opted out of. -/
structure Enforces (t : RedactionTable) (current : CoverageTableBinding → Bool) : Prop where
  releases : t.withholdAll = false
  fresh : t.coverageBindingStale current = false
  enabled : t.disabled = false

/-- An occurrence of a literal of the table. -/
structure Occurs (t : RedactionTable) (body : Bytes) (s : Span Nat) : Prop where
  entry : ∃ e, t.entries[s.tag]? = some e ∧ s.stop = s.start + e.value.length ∧
    e.value <+: body.drop s.start

/-- The text that is to stand for a range. -/
inductive Replaces (t : RedactionTable) (body : Bytes) (r : Stretch) : Bytes → Prop
  | single {e : RedactionEntry} {k : Nat} (hentry : t.entries[k]? = some e)
      (hall : ∀ s, t.Occurs body s → r.Holds s → s.tag = k) :
      Replaces t body r (e.replacement.render t.livePlaceholder)
  | several {s s' : Span Nat} (hs : t.Occurs body s) (hs' : t.Occurs body s') (hholds : r.Holds s)
      (hholds' : r.Holds s') (hne : s.tag ≠ s'.tag) : Replaces t body r t.livePlaceholder

end RedactionTable

/-! ## Occurrences -/

theorem mem_occurrences {value body : Bytes} (hpos : value ≠ []) {i : Nat} :
    i ∈ occurrences value body ↔ value <+: body.drop i := by
  rw [occurrences, mem_filter, mem_range, isPrefixOf_iff_prefix, and_iff_right_iff_imp]
  intro h
  by_contra hlt
  rw [drop_of_length_le (by omega), prefix_nil] at h
  exact hpos h

theorem contains_iff {haystack needle : Bytes} :
    contains haystack needle = true ↔ ∃ i, needle <+: haystack.drop i := by
  rw [contains, decide_eq_true_iff]
  constructor
  · rintro ⟨l, r, rfl⟩
    exact ⟨l.length, r, by rw [append_assoc, drop_left]⟩
  · rintro ⟨i, h⟩
    exact h.isInfix.trans (drop_suffix i haystack).isInfix

namespace RedactionTable

variable {t : RedactionTable} {body : Bytes} {s : Span Nat} {current : CoverageTableBinding → Bool}

theorem value_ne_nil {e : RedactionEntry} (h : e ∈ t.entries) : e.value ≠ [] := by
  intro hnil
  have hlong := t.long e h
  rw [hnil] at hlong
  exact absurd hlong (by decide)

theorem mem_findOverlappingIter : s ∈ findOverlappingIter t.entries body ↔ t.Occurs body s := by
  simp only [findOverlappingIter, mem_flatMap, mem_map, Prod.exists]
  constructor
  · rintro ⟨e, k, hek, i, hi, rfl⟩
    have hget := mem_zipIdx_iff_getElem?.1 hek
    exact ⟨e, hget, rfl, (mem_occurrences (t.value_ne_nil (mem_of_getElem? hget))).1 hi⟩
  · rintro ⟨e, hget, hstop, hstarts⟩
    refine ⟨e, s.tag, mem_zipIdx_iff_getElem?.2 hget, s.start,
      (mem_occurrences (t.value_ne_nil (mem_of_getElem? hget))).2 hstarts, ?_⟩
    rw [← hstop]

theorem Occurs.start_lt_stop (h : t.Occurs body s) : s.start < s.stop := by
  obtain ⟨e, hget, hstop, -⟩ := h.entry
  have hpos := length_pos_iff.2 (t.value_ne_nil (mem_of_getElem? hget))
  omega

theorem Occurs.stop_le (h : t.Occurs body s) : s.stop ≤ body.length := by
  have hlt := h.start_lt_stop
  obtain ⟨e, -, hstop, hstarts⟩ := h.entry
  have hle := hstarts.length_le
  rw [length_drop] at hle
  omega

/-- Without a match there is nothing to replace. -/
theorem not_occurs_of_not_isMatch (h : isMatch t.entries body = false) : ¬t.Occurs body s := by
  rintro ⟨e, hget, -, hstarts⟩
  have hnot := any_eq_false.1 h e (mem_of_getElem? hget)
  exact hnot (contains_iff.2 ⟨_, hstarts⟩)

/-- The ranges the sweep of the sorted occurrences finds. -/
def sweptRanges (t : RedactionTable) (body : Bytes) : List (Sweep Nat) :=
  Sweep.sweep ((findOverlappingIter t.entries body).insertionSort spanOrder)

theorem finds_sweptRanges (t : RedactionTable) (body : Bytes) :
    Sweep.Finds (t.Occurs body) (t.sweptRanges body) := by
  refine Sweep.finds_sweep (fun s => ?_) (fun s hs => ?_) ?_
  · rw [mem_insertionSort, mem_findOverlappingIter]
  · rw [mem_insertionSort, mem_findOverlappingIter] at hs
    exact hs.start_lt_stop
  · refine (pairwise_insertionSort spanOrder _).imp fun hle => ?_
    rcases Prod.Lex.toLex_le_toLex.1 hle with hlt | ⟨heq, -⟩
    · exact Nat.le_of_lt hlt
    · exact Nat.le_of_eq heq

theorem sweptRanges_of_not_isMatch (h : isMatch t.entries body = false) : t.sweptRanges body = [] := by
  refine eq_nil_iff_forall_not_mem.2 fun g hg => ?_
  obtain ⟨s, hs, -⟩ := (finds_sweptRanges t body).first g hg
  exact not_occurs_of_not_isMatch h hs

/-- Where it returns early there is nothing to replace. -/
theorem splice_sweptRanges {α : Type} (t : RedactionTable) (values : Bytes) (body : List α)
    (text : Sweep Nat → List α) :
    (if t.entries = [] then body else if (!isMatch t.entries values) = true then body else
      splice body ((t.sweptRanges values).map fun g => (g.stretch, text g))) =
        splice body ((t.sweptRanges values).map fun g => (g.stretch, text g)) := by
  have hnone : isMatch t.entries values = false →
      splice body ((t.sweptRanges values).map fun g => (g.stretch, text g)) = body := by
    intro hmatch
    rw [sweptRanges_of_not_isMatch hmatch]
    exact drop_zero ..
  split
  next hnil => rw [hnone (by rw [hnil]; rfl)]
  next =>
    split
    next hmatch => rw [hnone (by simpa using hmatch)]
    next => rfl

theorem Enforces.scrub_eq (h : t.Enforces current) (body : Bytes) :
    t.scrub current body = splice body ((t.sweptRanges body).map fun g =>
      (g.stretch, t.replacementText t.livePlaceholder g)) := by
  simp only [scrub, scrubCowWithPlaceholder, h.releases, h.fresh, h.enabled, Bool.false_eq_true,
    if_false]
  exact splice_sweptRanges t body body _

theorem replaces_replacementText {g : Sweep Nat} (hg : g ∈ t.sweptRanges body) :
    t.Replaces body g.stretch (t.replacementText t.livePlaceholder g) := by
  have hfinds := finds_sweptRanges t body
  obtain ⟨s, hs, hholds, htag⟩ := hfinds.first g hg
  have hsingle := hfinds.single g hg
  unfold replacementText
  split
  next h =>
    obtain ⟨e, hget, -, -⟩ := hs.entry
    rw [htag] at hget
    rw [hget]
    exact .single hget (hsingle.1 h)
  next h =>
    rw [hsingle] at h
    simp only [not_forall] at h
    obtain ⟨s', hs', hholds', hne⟩ := h
    exact .several hs' hs hholds' hholds (fun heq => hne (heq.trans htag))

theorem Enforces.exists_ranges (h : t.Enforces current) (body : Bytes) :
    ∃ ranges texts, Stretch.MaximalRanges (t.Occurs body) ranges ∧
      List.Forall₂ (t.Replaces body) ranges texts ∧ t.scrub current body = splice body (ranges.zip texts) := by
  refine ⟨_, (t.sweptRanges body).map (t.replacementText t.livePlaceholder),
    (finds_sweptRanges t body).ranges, ?_, ?_⟩
  · rw [forall₂_map_left_iff, forall₂_map_right_iff, forall₂_same]
    exact fun g hg => replaces_replacementText hg
  · rw [h.scrub_eq, zip_map']

/-- There is one text to stand for a range. -/
theorem Replaces.unique {r : Stretch} {text text' : Bytes} (h : t.Replaces body r text)
    (h' : t.Replaces body r text') (hheld : ∃ s, t.Occurs body s ∧ r.Holds s) : text = text' := by
  obtain ⟨s, hs, hholds⟩ := hheld
  cases h with
  | single hentry hall =>
    cases h' with
    | single hentry' hall' =>
      obtain rfl := (hall s hs hholds).symm.trans (hall' s hs hholds)
      rw [Option.some.inj (hentry.symm.trans hentry')]
    | several hs hs' hholds hholds' hne => exact absurd ((hall _ hs hholds).trans (hall _ hs' hholds').symm) hne
  | several hs hs' hholds hholds' hne =>
    cases h' with
    | single _ hall => exact absurd ((hall _ hs hholds).trans (hall _ hs' hholds').symm) hne
    | several => rfl

/-- Ranges and their texts determine the scrubbed text. -/
theorem Enforces.scrub_eq_of_replaces (h : t.Enforces current)
    {ranges : List Stretch} {texts : List Bytes} (hranges : Stretch.MaximalRanges (t.Occurs body) ranges)
    (htexts : List.Forall₂ (t.Replaces body) ranges texts) :
    t.scrub current body = splice body (ranges.zip texts) := by
  obtain ⟨ranges', texts', hranges', htexts', hscrub⟩ := h.exists_ranges body
  obtain rfl := hranges'.unique hranges fun s hs => hs.start_lt_stop
  have heq : texts' = texts := by
    refine forall₂_eq_eq_eq ▸ forall₂_iff_get.2 ⟨htexts'.length_eq.symm.trans htexts.length_eq, ?_⟩
    intro i hi hi'
    have hlt : i < ranges'.length := htexts.length_eq ▸ hi'
    obtain ⟨s, hs, hholds, -⟩ := hranges'.starts _ (getElem_mem hlt)
    exact (htexts'.get hlt hi).unique (htexts.get hlt hi') ⟨s, hs, hholds⟩
  rw [hscrub, heq]

/-- Scrubbing replaces each maximal range of strictly overlapping occurrences by one text, that of
    its entry if it has only one and the placeholder otherwise, and keeps everything between. -/
theorem scrub_replaces_ranges {current : CoverageTableBinding → Bool} (h : t.Enforces current)
    (body : Bytes) :
    (∃ ranges, Stretch.MaximalRanges (t.Occurs body) ranges) ∧
      ∀ ranges, Stretch.MaximalRanges (t.Occurs body) ranges →
        ∃ texts, List.Forall₂ (t.Replaces body) ranges texts ∧
          t.scrub current body = splice body (ranges.zip texts) := by
  obtain ⟨ranges, texts, hranges, htexts, hscrub⟩ := h.exists_ranges body
  refine ⟨⟨ranges, hranges⟩, fun ranges' hranges' => ?_⟩
  obtain rfl := hranges.unique hranges' fun s hs => hs.start_lt_stop
  exact ⟨texts, htexts, hscrub⟩

/-! ## Bytes that get through -/

/-- `scrub` on bytes that carry where they were copied from. -/
def scrubMarked (t : RedactionTable) (current : CoverageTableBinding → Bool) (body : Marked) : Marked :=
  if t.withholdAll then
    if body = [] then body else Mark.fresh coverageWithheldPlaceholder
  else if t.coverageBindingStale current then
    if body = [] then body else Mark.fresh t.livePlaceholder
  else if t.disabled then body
  else if t.entries = [] then body
  else if !isMatch t.entries (Mark.values body) then body
  else
    splice body ((t.sweptRanges (Mark.values body)).map fun g =>
      (g.stretch, Mark.fresh (t.replacementText t.livePlaceholder g)))

/-- The bytes are those scrubbing leaves. -/
theorem values_scrubMarked (t : RedactionTable) (current : CoverageTableBinding → Bool) (body : Marked) :
    Mark.values (t.scrubMarked current body) = t.scrub current (Mark.values body) := by
  have hnil : Mark.values body = [] ↔ body = [] := map_eq_nil_iff
  have hfresh : ∀ text : Bytes, (Mark.fresh text).map Mark.value = text := fun text => by
    rw [Mark.fresh, map_map]
    exact map_id text
  have hsplice := map_spliceFrom Mark.value body 0 ((t.sweptRanges (Mark.values body)).map fun g =>
    (g.stretch, Mark.fresh (t.replacementText t.livePlaceholder g)))
  simp only [map_map, Function.comp_def, hfresh] at hsplice
  simp only [scrubMarked, scrub, scrubCowWithPlaceholder, hnil]
  split_ifs
  all_goals first | rfl | exact hfresh _ | exact hsplice

theorem Enforces.scrubMarked_eq (h : t.Enforces current) (body : Marked) :
    t.scrubMarked current body = splice body ((t.sweptRanges (Mark.values body)).map fun g =>
      (g.stretch, Mark.fresh (t.replacementText t.livePlaceholder g))) := by
  simp only [scrubMarked, h.releases, h.fresh, h.enabled, Bool.false_eq_true, if_false]
  exact splice_sweptRanges t (Mark.values body) body _

/-- The position lies in an occurrence of a literal of the table. -/
def Covered (t : RedactionTable) (body : Bytes) (k : Nat) : Prop :=
  ∃ s, t.Occurs body s ∧ s.start ≤ k ∧ k < s.stop

/-- What an enforcing table keeps of a text are the bytes in no occurrence. -/
theorem Enforces.mem_scrubMarked (h : t.Enforces current) {body : Marked} {m : Mark UInt8} {p : Nat}
    (horigin : p ∈ m.origin) :
    m ∈ t.scrubMarked current body ↔ ∃ k, body[k]? = some m ∧ ¬t.Covered (Mark.values body) k := by
  have hranges := (finds_sweptRanges t (Mark.values body)).ranges
  have hcovered : ∀ k, t.Covered (Mark.values body) k ↔
      ∃ g ∈ t.sweptRanges (Mark.values body), g.stretch.start ≤ k ∧ k < g.stretch.stop := by
    intro k
    rw [Covered, ← hranges.exists_range_iff]
    simp only [mem_map, exists_exists_and_eq_and]
  have hfresh : ∀ text : Bytes, m ∉ Mark.fresh text := by
    intro text hmem
    obtain ⟨b, -, rfl⟩ := mem_map.1 hmem
    cases horigin
  rw [h.scrubMarked_eq, splice, mem_spliceFrom, or_iff_left]
  · refine exists_congr fun k => ?_
    rw [hcovered]
    simp only [Nat.zero_le, true_and, forall_mem_map, not_exists, not_and]
  · rintro ⟨r, hr, hmem⟩
    obtain ⟨g, -, rfl⟩ := mem_map.1 hr
    exact hfresh _ hmem
  · rw [pairwise_map]
    exact pairwise_map.1 hranges.apart
  · intro r hr
    obtain ⟨g, hg, rfl⟩ := mem_map.1 hr
    exact Nat.le_of_lt (hranges.start_lt_stop (fun s hs => hs.start_lt_stop) (mem_map_of_mem hg))
  · exact fun _ _ => Nat.zero_le _

/-- The bytes of a text that get through an enforcing table are those in no occurrence. -/
theorem Enforces.mem_origins_scrubMarked (h : t.Enforces current) {j : Nat} (hj : j < body.length) :
    j ∈ origins (t.scrubMarked current (ofSource body)) ↔ ¬t.Covered body j := by
  have hget := Mark.getElem?_ofSource body
  rw [Mark.mem_origins]
  constructor
  · rintro ⟨m, hm, horigin⟩
    obtain ⟨k, hk, hnot⟩ := (h.mem_scrubMarked horigin).1 hm
    rw [hget, Option.map_eq_some_iff] at hk
    obtain ⟨b, -, rfl⟩ := hk
    cases horigin
    rwa [Mark.values_ofSource] at hnot
  · intro hnot
    refine ⟨⟨body[j], some j⟩, (h.mem_scrubMarked rfl).2 ⟨j, ?_, ?_⟩, rfl⟩
    · rw [hget, List.getElem?_eq_getElem hj]
      rfl
    · rwa [Mark.values_ofSource]

end RedactionTable

def noFiles : Filesystem := ⟨fun _ => false⟩

/-- Two literals that share a run of letters, and a third. -/
def overlappingTable : RedactionTable :=
  fromRedactionEntries noFiles
    [.ordinary (ascii "abcdef") (by decide) (ascii "$FIRST") .environment,
      .ordinary (ascii "defxyz") (by decide) (ascii "$SECOND") .environment,
      .ordinary (ascii "9999") (by decide) (ascii "$THIRD") .credential]
    (ascii "[R]") false ⟨[]⟩

theorem overlappingTable_replaces_ranges :
    (∃ ranges, Stretch.MaximalRanges (overlappingTable.Occurs (Bytes.ascii "-abcdefxyz-99999-")) ranges) ∧
      ∀ ranges, Stretch.MaximalRanges (overlappingTable.Occurs (Bytes.ascii "-abcdefxyz-99999-")) ranges →
        ∃ texts, List.Forall₂ (overlappingTable.Replaces (Bytes.ascii "-abcdefxyz-99999-")) ranges texts ∧
          overlappingTable.scrub (fun _ => true) (Bytes.ascii "-abcdefxyz-99999-") =
            splice (Bytes.ascii "-abcdefxyz-99999-") (ranges.zip texts) :=
  RedactionTable.scrub_replaces_ranges ⟨rfl, rfl, rfl⟩ _

example : overlappingTable.scrub (fun _ => true) (ascii "-abcdefxyz-99999-") =
    ascii "-[R]-[R]-" := by decide +kernel

end FlyCockpit.Redact
