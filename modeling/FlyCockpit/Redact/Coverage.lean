-- SUMMARY: Which literals stay covered when a table is rebuilt with more entries or united with another.
import FlyCockpit.Redact.Scrub

/-!
# Coverage

A table scrubs a literal if no byte of an occurrence of it gets through, in any text. A table that
withholds everything does, whatever the literal; one that is opted out of scrubs nothing; any other
scrubs what its entries cover. Adding a literal and uniting two tables rebuild the table from all
entries, and the rebuilding drops every entry of an origin, unless it is forced, as soon as one
literal of that origin names a protected path. What was scrubbed still is exactly if it is not
dropped or the entries that stay cover it.
-/

namespace FlyCockpit.Redact

open List
open Mark (origins ofSource)

/-- Every byte of the literal lies in an occurrence of one of the values in it. -/
def CoveredBy (values : List Bytes) (value : Bytes) : Prop :=
  ∀ j < value.length, ∃ w ∈ values, ∃ i, i ≤ j ∧ j < i + w.length ∧ w <+: value.drop i

variable {value : Bytes} {fs : Filesystem} {protectedPaths : ProtectedPaths}
  {entries : List RedactionEntry}

theorem CoveredBy.of_mem {values : List Bytes} (h : value ∈ values) : CoveredBy values value :=
  fun j hj => ⟨value, h, 0, Nat.zero_le j, by omega, prefix_rfl⟩

theorem CoveredBy.trans {values values' : List Bytes} (h : CoveredBy values value)
    (h' : ∀ w ∈ values, CoveredBy values' w) : CoveredBy values' value := by
  intro j hj
  obtain ⟨w, hw, i, hi, hlt, hstarts⟩ := h j hj
  obtain ⟨w', hw', i', hi', hlt', hstarts'⟩ := h' w hw (j - i) (by omega)
  refine ⟨w', hw', i + i', by omega, by omega, hstarts'.trans ?_⟩
  obtain ⟨r, hr⟩ := hstarts
  rw [← drop_drop, ← hr, drop_append_of_le_length (by omega)]
  exact prefix_append ..

/-- Values of more than one byte do not cover a single one. -/
theorem not_coveredBy_singleton {values : List Bytes} (h : ∀ w ∈ values, 1 < w.length) (b : UInt8) :
    ¬CoveredBy values [b] := by
  intro hcovered
  obtain ⟨w, hw, i, -, -, hstarts⟩ := hcovered 0 Nat.one_pos
  have hle := hstarts.length_le
  have hlong := h w hw
  rw [length_drop, length_singleton] at hle
  omega

namespace RedactionTable

variable {t r : RedactionTable} {current : CoverageTableBinding → Bool}

def entryValues (t : RedactionTable) : List Bytes := t.entries.map RedactionEntry.value

/-- Everything is held back: there is no coverage, or a binding of it is stale. -/
def Withholds (t : RedactionTable) (current : CoverageTableBinding → Bool) : Prop :=
  t.withholdAll = true ∨ t.coverageBindingStale current = true

/-- No byte of an occurrence of the literal gets through, in any text. -/
def Scrubs (t : RedactionTable) (current : CoverageTableBinding → Bool) (value : Bytes) : Prop :=
  ∀ body i, value <+: body.drop i → ∀ j, i ≤ j → j < i + value.length →
    j ∉ origins (t.scrubMarked current (ofSource body))

theorem Withholds.origins_scrubMarked (h : t.Withholds current) (body : Marked) :
    origins (t.scrubMarked current body) = [] := by
  unfold scrubMarked
  split_ifs with hall hnil hstale
  · rw [hnil]
    rfl
  · exact Mark.origins_fresh _
  · rw [‹body = []›]
    rfl
  · exact Mark.origins_fresh _
  all_goals exact absurd h (not_or.2 ⟨hall, hstale⟩)

theorem enforces_of_not_withholds (h : ¬t.Withholds current) (henabled : t.disabled = false) :
    t.Enforces current := by
  obtain ⟨hall, hstale⟩ := not_or.1 h
  exact ⟨Bool.eq_false_iff.2 hall, Bool.eq_false_iff.2 hstale, henabled⟩

theorem Enforces.scrubs_iff (h : t.Enforces current) :
    t.Scrubs current value ↔ CoveredBy t.entryValues value := by
  constructor
  · intro hscrubs j hj
    have hcovered := hscrubs value 0 prefix_rfl j (Nat.zero_le j) (by omega)
    rw [h.mem_origins_scrubMarked hj, not_not] at hcovered
    obtain ⟨s, hs, hstart, hstop⟩ := hcovered
    obtain ⟨e, hget, hend, hstarts⟩ := hs.entry
    exact ⟨e.value, mem_map_of_mem (mem_of_getElem? hget), s.start, hstart, hend ▸ hstop, hstarts⟩
  · intro hcovered body i hocc j hij hj
    have hle := hocc.length_le
    rw [length_drop] at hle
    rw [h.mem_origins_scrubMarked (by omega), not_not]
    obtain ⟨w, hw, p, hp, hlt, hstarts⟩ := hcovered (j - i) (by omega)
    obtain ⟨e, he, rfl⟩ := mem_map.1 hw
    obtain ⟨k, hk, rfl⟩ := getElem_of_mem he
    refine ⟨⟨i + p, i + p + t.entries[k].value.length, k⟩,
      ⟨_, List.getElem?_eq_getElem hk, rfl, hstarts.trans ?_⟩, by dsimp only; omega, by dsimp only; omega⟩
    obtain ⟨rest, hrest⟩ := hocc
    dsimp only
    rw [← drop_drop, ← hrest, drop_append_of_le_length (by omega)]
    exact prefix_append ..

/-- Which literals a table scrubs. -/
theorem scrubs_iff : t.Scrubs current value ↔
    value = [] ∨ t.Withholds current ∨ t.disabled = false ∧ CoveredBy t.entryValues value := by
  by_cases hwithholds : t.Withholds current
  · simp [Scrubs, hwithholds, hwithholds.origins_scrubMarked]
  · cases hdisabled : t.disabled with
    | false =>
      rw [(enforces_of_not_withholds hwithholds hdisabled).scrubs_iff]
      simp only [hwithholds, false_or, true_and, iff_or_self]
      rintro rfl j hj
      cases hj
    | true =>
      have hbody : ∀ body, t.scrubMarked current body = body := by
        obtain ⟨hall, hstale⟩ := not_or.1 hwithholds
        simp [scrubMarked, hall, hstale, hdisabled]
      simp only [hwithholds, Bool.true_eq_false, false_and, or_false]
      constructor
      · intro h
        by_contra hne
        have hpos := length_pos_iff.2 hne
        refine h value 0 prefix_rfl 0 (Nat.le_refl 0) (by omega) ?_
        rw [hbody, Mark.mem_origins]
        refine ⟨⟨value[0], some 0⟩, mem_of_getElem? (i := 0) ?_, rfl⟩
        rw [Mark.getElem?_ofSource, List.getElem?_eq_getElem hpos]
        rfl
      · rintro rfl body i - j hij hj
        exact absurd hj (Nat.not_lt.2 hij)

/-- What another table has to do to scrub what a table scrubs. -/
theorem forall_scrubs_imp_iff (henabled : t.disabled = false → r.disabled = false) :
    (∀ value, t.Scrubs current value → r.Scrubs current value) ↔
      r.Withholds current ∨ ¬t.Withholds current ∧
        (t.disabled = false → ∀ e ∈ t.entries, CoveredBy r.entryValues e.value) := by
  have hlong : ∀ w ∈ r.entryValues, 1 < w.length := by
    intro w hw
    obtain ⟨e, he, rfl⟩ := mem_map.1 hw
    exact Nat.lt_of_lt_of_le (by decide) (r.long e he)
  by_cases hwithholds : r.Withholds current
  · simp [scrubs_iff, hwithholds]
  simp only [scrubs_iff, hwithholds, false_or]
  constructor
  · refine fun h => ⟨fun ht => ?_, fun ht e he => ?_⟩
    · -- One that withholds scrubs every single byte.
      have hcovered := (h [0] (.inr (.inl ht))).resolve_left (cons_ne_nil _ _)
      exact not_coveredBy_singleton hlong 0 hcovered.2
    · exact ((h e.value (.inr (.inr ⟨ht, .of_mem (mem_map_of_mem he)⟩))).resolve_left
        (value_ne_nil he)).2
  · rintro ⟨hnot, hentries⟩ value (hnil | ht | ⟨ht, hcovered⟩)
    · exact .inl hnil
    · exact absurd ht hnot
    · refine .inr ⟨henabled ht, hcovered.trans fun w hw => ?_⟩
      obtain ⟨e, he, rfl⟩ := mem_map.1 hw
      exact hentries ht e he

end RedactionTable

/-! ## What rebuilding keeps -/

/-- The entry goes: its origin is not forced, and some literal of that origin names a protected
    path. -/
def Dropped (fs : Filesystem) (protectedPaths : ProtectedPaths) (entries : List RedactionEntry)
    (e : RedactionEntry) : Prop :=
  originIsForced e.origin = false ∧
    ∃ e' ∈ entries, e'.origin = e.origin ∧ conflictsWithPath fs protectedPaths e'.value = true

theorem mem_admittedEntries (hlong : ∀ e ∈ entries, minRedactionEntryLength ≤ e.value.length)
    {e : RedactionEntry} :
    e ∈ admittedEntries fs protectedPaths entries ↔
      e ∈ entries ∧ ¬Dropped fs protectedPaths entries e := by
  have hfilter : (entries.filter fun e => !(e.value.length < minRedactionEntryLength)) = entries :=
    filter_eq_self.2 fun e he => by simpa using hlong e he
  simp only [admittedEntries, hfilter, mem_filter, and_congr_right_iff]
  intro he
  cases hforced : originIsForced e.origin with
  | true => simp [Dropped, hforced]
  | false =>
    have hmem : e.origin ∈ protectedConflictingOrigins fs protectedPaths entries ↔
        ∃ e' ∈ entries, e'.origin = e.origin ∧ conflictsWithPath fs protectedPaths e'.value = true := by
      simp only [protectedConflictingOrigins, mem_map, mem_filter, Bool.and_eq_true,
        Bool.not_eq_true']
      constructor
      · rintro ⟨e', ⟨he', -, hconflict⟩, horigin⟩
        exact ⟨e', he', horigin, hconflict⟩
      · rintro ⟨e', he', horigin, hconflict⟩
        exact ⟨e', ⟨he', horigin ▸ hforced, hconflict⟩, horigin⟩
    rw [Dropped, ← hmem]
    simp only [hforced, Bool.false_eq_true, if_false, true_and, Bool.and_eq_true, Bool.not_eq_true',
      contains_eq_mem, decide_eq_false_iff_not, and_iff_right_iff_imp]
    intro hnot
    rw [Bool.eq_false_iff]
    exact fun hconflict => hnot (hmem.2 ⟨e, he, rfl, hconflict⟩)

/-- The literals of a table that was built from entries. -/
theorem mem_values_of_built {r : RedactionTable}
    (hbuilt : r.entries = arrangedEntries (admittedEntries fs protectedPaths entries))
    (hlong : ∀ e ∈ entries, minRedactionEntryLength ≤ e.value.length) :
    value ∈ r.entryValues ↔ ∃ e ∈ entries, ¬Dropped fs protectedPaths entries e ∧ e.value = value := by
  rw [RedactionTable.entryValues, hbuilt, mem_map]
  constructor
  · rintro ⟨e, he, rfl⟩
    obtain ⟨e', he', rfl⟩ := mem_arrangedEntries he
    obtain ⟨hmem, hkept⟩ := (mem_admittedEntries hlong).1 he'
    exact ⟨e', hmem, hkept, rfl⟩
  · rintro ⟨e, he, hkept, rfl⟩
    have hmem := (mem_insertionSort entryOrder).2 ((mem_admittedEntries hlong).2 ⟨he, hkept⟩)
    obtain ⟨e', he', heq⟩ := exists_mem_destutter RedactionEntry.value hmem
    exact ⟨_, mem_map_of_mem he', heq⟩

/-- Every one of some entries that goes is covered by the literals of those that stay. -/
def StaysCovered (fs : Filesystem) (protectedPaths : ProtectedPaths)
    (entries needed : List RedactionEntry) : Prop :=
  ∀ e ∈ needed, Dropped fs protectedPaths entries e → ∀ j < e.value.length,
    ∃ e' ∈ entries, ¬Dropped fs protectedPaths entries e' ∧
      ∃ i, i ≤ j ∧ j < i + e'.value.length ∧ e'.value <+: e.value.drop i

namespace RedactionTable

variable {r : RedactionTable} {current : CoverageTableBinding → Bool}

/-- A table built from entries covers some of them exactly if those that go stay covered. -/
theorem forall_coveredBy_iff {needed : List RedactionEntry}
    (hbuilt : r.entries = arrangedEntries (admittedEntries fs protectedPaths entries))
    (hlong : ∀ e ∈ entries, minRedactionEntryLength ≤ e.value.length) (hneeded : needed ⊆ entries) :
    (∀ e ∈ needed, CoveredBy r.entryValues e.value) ↔ StaysCovered fs protectedPaths entries needed := by
  have hvalues : ∀ value, value ∈ r.entryValues ↔
      ∃ e ∈ entries, ¬Dropped fs protectedPaths entries e ∧ e.value = value :=
    fun _ => mem_values_of_built hbuilt hlong
  constructor
  · intro h e he _ j hj
    obtain ⟨w, hw, i, hi, hlt, hstarts⟩ := h e he j hj
    obtain ⟨e', he', hkept, rfl⟩ := (hvalues w).1 hw
    exact ⟨e', he', hkept, i, hi, hlt, hstarts⟩
  · intro h e he
    by_cases hdropped : Dropped fs protectedPaths entries e
    · intro j hj
      obtain ⟨e', he', hkept, i, hi, hlt, hstarts⟩ := h e he hdropped j hj
      exact ⟨e'.value, (hvalues _).2 ⟨e', he', hkept, rfl⟩, i, hi, hlt, hstarts⟩
    · exact .of_mem ((hvalues _).2 ⟨e, hneeded he, hdropped, rfl⟩)

/-- The table withholds, or it enforces and what it drops with one more entry stays covered. -/
def KeepsWith (fs : Filesystem) (t : RedactionTable) (current : CoverageTableBinding → Bool)
    (e : RedactionEntry) : Prop :=
  t.Withholds current ∨
    t.disabled = false ∧ StaysCovered fs t.protectedPaths (t.entries ++ [e]) (t.entries ++ [e])

/-- Adding an entry keeps the coverage and adds the literal, exactly if what goes stays covered. -/
theorem withEntry_scrubs_iff (fs : Filesystem) (t : RedactionTable) {e : RedactionEntry}
    (hlong : minRedactionEntryLength ≤ e.value.length) :
    ((∀ value, t.Scrubs current value → (t.withEntry fs e).Scrubs current value) ∧
        (t.withEntry fs e).Scrubs current e.value) ↔ t.KeepsWith fs current e := by
  have hall : ∀ e' ∈ t.entries ++ [e], minRedactionEntryLength ≤ e'.value.length :=
    forall_mem_append.2 ⟨t.long, forall_mem_singleton.2 hlong⟩
  have hwithholds : (t.withEntry fs e).Withholds current ↔ t.Withholds current := Iff.rfl
  have hdisabled : (t.withEntry fs e).disabled = t.disabled := rfl
  have hne : e.value ≠ [] := length_pos_iff.1 (Nat.lt_of_lt_of_le (by decide) hlong)
  rw [forall_scrubs_imp_iff hdisabled.trans, scrubs_iff, KeepsWith,
    ← forall_coveredBy_iff (r := t.withEntry fs e) rfl hall (Subset.refl _), forall_mem_append,
    forall_mem_singleton, hwithholds, hdisabled]
  by_cases h : t.Withholds current
  · simp [h]
  · simp only [h, hne, false_or, not_false_eq_true, true_and]
    exact ⟨fun ⟨hold, henabled, hnew⟩ => ⟨henabled, hold henabled, hnew⟩,
      fun ⟨henabled, hold, hnew⟩ => ⟨fun _ => hold, henabled, hnew⟩⟩

/-- The entries a table substitutes unless it withholds. -/
def enabledEntries (t : RedactionTable) : List RedactionEntry := if t.disabled then [] else t.entries

/-- The union of two tables withholds: one has no coverage, a refusal of one is stale, or the binding
    that the union adopts is. -/
def UnionWithholds (t u : RedactionTable) (current : CoverageTableBinding → Bool) : Prop :=
  (t.withholdAll = true ∨ u.withholdAll = true) ∨
    (∃ binding, t.adoptedBinding u = some (some binding) ∧ current binding = false) ∨
    ∃ binding ∈ t.scrubRefusals ++ u.scrubRefusals, current binding = false

/-- The union withholds, or neither table does and what goes of their entries stays covered. -/
def KeepsUnited (fs : Filesystem) (t u : RedactionTable) (current : CoverageTableBinding → Bool) : Prop :=
  t.UnionWithholds u current ∨ ¬t.Withholds current ∧ ¬u.Withholds current ∧
    StaysCovered fs (t.protectedPaths.union u.protectedPaths) (t.entries ++ u.entries)
      (t.enabledEntries ++ u.enabledEntries)

theorem forall_enabledEntries {t : RedactionTable} {p : RedactionEntry → Prop} :
    (∀ e ∈ t.enabledEntries, p e) ↔ (t.disabled = false → ∀ e ∈ t.entries, p e) := by
  unfold enabledEntries
  cases t.disabled <;> simp

theorem union_scrubs_iff (fs : Filesystem) (t u : RedactionTable) (h : t.union fs u = .ok r) :
    ((∀ value, t.Scrubs current value → r.Scrubs current value) ∧
        ∀ value, u.Scrubs current value → r.Scrubs current value) ↔ t.KeepsUnited fs u current := by
  have hall : ∀ e ∈ t.entries ++ u.entries, minRedactionEntryLength ≤ e.value.length :=
    forall_mem_append.2 ⟨t.long, u.long⟩
  have hneeded : t.enabledEntries ++ u.enabledEntries ⊆ t.entries ++ u.entries := by
    intro e he
    rw [mem_append] at he ⊢
    exact he.imp (forall_enabledEntries.2 (fun _ _ he => he) e)
      (forall_enabledEntries.2 (fun _ _ he => he) e)
  unfold union at h
  split at h
  next binding hbinding =>
    cases h
    have hwithholds : Withholds { t.mergedEntries fs u with coverageBinding := binding } current ↔
        t.UnionWithholds u current := by
      cases binding <;> simp [Withholds, UnionWithholds, coverageBindingStale, mergedEntries, hbinding,
        or_and_right, exists_or]
    have hrebuilt := forall_coveredBy_iff (r := { t.mergedEntries fs u with coverageBinding := binding })
      rfl hall hneeded
    have henabled : (mergedEntries fs t u).disabled = (t.disabled && u.disabled) := rfl
    rw [forall_mem_append, forall_enabledEntries, forall_enabledEntries] at hrebuilt
    rw [forall_scrubs_imp_iff (by simp +contextual [henabled]),
      forall_scrubs_imp_iff (by simp +contextual [henabled]), KeepsUnited, hwithholds, ← hrebuilt]
    tauto
  next => cases h

end RedactionTable

def leakOrigin : Bytes := Bytes.ascii "$leak:contained"

/-- A table that holds one contained leak, in a workspace below a home directory. -/
def leakTable : RedactionTable :=
  fromRedactionEntries noFiles
    [.ordinary (Bytes.ascii "hunter2") (by decide) leakOrigin .containedLeak]
    (Bytes.ascii "[R]") false ⟨[Bytes.ascii "/home/user"]⟩

end FlyCockpit.Redact
