-- SUMMARY: Which literals can appear in scrubbed text: those that are put together across a replacement text.
import FlyCockpit.Redact.Scrub

/-!
# What survives scrubbing

Every occurrence of a literal in the text is replaced, so a literal can only appear in the result
where a text was put in for a range: inside the text, or across its ends, where it goes on in what
stands around the range. The table looks at one of these cases only, a literal inside the generic
placeholder.
-/

namespace FlyCockpit.Redact

open List

/-- The literal can be laid over the text so that they share positions and agree on them. -/
def Meets (value text : Bytes) : Prop :=
  ∃ i < value.length, ∃ j < text.length, (i = 0 ∨ j = 0) ∧
    (value.drop i <+: text.drop j ∨ text.drop j <+: value.drop i)

instance instDecidableMeets (value text : Bytes) : Decidable (Meets value text) :=
  inferInstanceAs (Decidable (∃ i < value.length, ∃ j < text.length, (i = 0 ∨ j = 0) ∧
    (value.drop i <+: text.drop j ∨ text.drop j <+: value.drop i)))

/-- The value can be read from a piece and on from a place of the body: what is kept there, and the
    text of each range that is come to. -/
def ReadsOn (body : Bytes) : Bytes → Bytes → Nat → List (Stretch × Bytes) → Prop
  | value, piece, lastEnd, [] => value <+: piece ++ body.drop lastEnd
  | value, piece, lastEnd, (r, text) :: ranges =>
    value <+: piece ++ (body.take r.start).drop lastEnd ∨
      ∃ rest ≠ [], value = piece ++ (body.take r.start).drop lastEnd ++ rest ∧
        ReadsOn body rest text r.stop ranges

/-- The value can be read over a text that is put in for a range: from a place in the text, or from
    what is kept of the body before the range into the text. -/
def PutTogether (value body : Bytes) : Nat → List (Stretch × Bytes) → Prop
  | _, [] => False
  | lastEnd, (r, text) :: ranges =>
    (∃ j < text.length, ReadsOn body value (text.drop j) r.stop ranges) ∨
      (∃ left ≠ [], ∃ right ≠ [], value = left ++ right ∧
        left <:+ (body.take r.start).drop lastEnd ∧ ReadsOn body right text r.stop ranges) ∨
      PutTogether value body r.stop ranges

section Splice

variable {value piece body : Bytes} {lastEnd : Nat} {ranges : List (Stretch × Bytes)}

theorem prefix_append_iff_rest {l m : Bytes} :
    value <+: l ++ m ↔ value <+: l ∨ ∃ rest ≠ [], value = l ++ rest ∧ rest <+: m := by
  constructor
  · intro h
    rcases Nat.lt_or_ge l.length value.length with hlt | hle
    · obtain ⟨rest, rfl⟩ := prefix_of_prefix_length_le (prefix_append l m) h (Nat.le_of_lt hlt)
      refine .inr ⟨rest, ?_, rfl, (prefix_append_right_inj l).1 h⟩
      rintro rfl
      simp at hlt
    · exact .inl (prefix_of_prefix_length_le h (prefix_append l m) hle)
  · rintro (h | ⟨rest, -, rfl, h⟩)
    · exact h.trans (prefix_append l m)
    · exact (prefix_append_right_inj l).2 h

theorem readsOn_iff :
    ReadsOn body value piece lastEnd ranges ↔ value <+: piece ++ spliceFrom body lastEnd ranges := by
  induction ranges generalizing value piece lastEnd with
  | nil => exact Iff.rfl
  | cons x ranges ih =>
    simp only [ReadsOn, ih]
    rw [spliceFrom, append_assoc, ← append_assoc piece]
    exact prefix_append_iff_rest.symm

/-- If every occurrence in the text starts in a range, a value in the spliced text is put together. -/
theorem putTogether_of_prefix_drop
    (hproper : ∀ x ∈ ranges, lastEnd ≤ x.1.start ∧ x.1.start ≤ x.1.stop)
    (hapart : ranges.Pairwise fun x y => x.1.stop ≤ y.1.start)
    (hcovered : ∀ i, lastEnd ≤ i → value <+: body.drop i →
      ∃ x ∈ ranges, x.1.start ≤ i ∧ i < x.1.stop) {j : Nat}
    (h : value <+: (spliceFrom body lastEnd ranges).drop j) : PutTogether value body lastEnd ranges := by
  induction ranges generalizing lastEnd j with
  | nil =>
    rw [spliceFrom, drop_drop] at h
    obtain ⟨x, hx, -⟩ := hcovered _ (Nat.le_add_right ..) h
    cases hx
  | cons x ranges ih =>
    obtain ⟨r, text⟩ := x
    obtain ⟨hr, hproper⟩ := forall_mem_cons.1 hproper
    obtain ⟨hfirst, hapart⟩ := pairwise_cons.1 hapart
    dsimp only at hr hfirst
    rw [spliceFrom, append_assoc] at h
    rw [PutTogether]
    generalize hkept : (body.take r.start).drop lastEnd = kept at h ⊢
    rcases Nat.lt_or_ge j kept.length with hbefore | hbefore
    · rw [drop_append_of_le_length (Nat.le_of_lt hbefore)] at h
      obtain h | ⟨right, hright, hsplit, h⟩ := prefix_append_iff_rest.1 h
      · -- In the text kept before the range, where it would have been covered.
        have hbody : value <+: body.drop (lastEnd + j) := by
          rw [← hkept, drop_drop] at h
          exact h.trans ((List.take_prefix ..).drop _)
        have hlength : kept.length ≤ r.start - lastEnd := by
          rw [← hkept, length_drop, length_take]
          omega
        obtain ⟨y, hy, hstart, hstop⟩ := hcovered _ (Nat.le_add_right ..) hbody
        rcases mem_cons.1 hy with rfl | hy
        · dsimp only at hstart
          omega
        · have := hfirst y hy
          omega
      · have hleft : kept.drop j ≠ [] := fun hnil => absurd (drop_eq_nil_iff.1 hnil) (Nat.not_le.2 hbefore)
        exact .inr (.inl ⟨_, hleft, right, hright, hsplit, drop_suffix .., readsOn_iff.2 h⟩)
    · obtain ⟨k, rfl⟩ := Nat.exists_eq_add_of_le hbefore
      rw [drop_length_add_append] at h
      rcases Nat.lt_or_ge k text.length with hinside | hinside
      · rw [drop_append_of_le_length (Nat.le_of_lt hinside)] at h
        exact .inl ⟨k, hinside, readsOn_iff.2 h⟩
      · -- Behind the replacement.
        rw [drop_append, drop_of_length_le hinside, nil_append] at h
        refine .inr (.inr (ih (fun y hy => ⟨hfirst y hy, (hproper y hy).2⟩) hapart (fun i hi hocc => ?_) h))
        obtain ⟨y, hy, hstart, hstop⟩ := hcovered i (by omega) hocc
        rcases mem_cons.1 hy with rfl | hy
        · dsimp only at hstart hstop
          omega
        · exact ⟨y, hy, hstart, hstop⟩

theorem PutTogether.exists_prefix_drop (h : PutTogether value body lastEnd ranges) :
    ∃ j, value <+: (spliceFrom body lastEnd ranges).drop j := by
  induction ranges generalizing lastEnd with
  | nil => exact h.elim
  | cons x ranges ih =>
    rw [spliceFrom, append_assoc]
    rcases h with ⟨j, hj, h⟩ | ⟨left, -, right, -, rfl, ⟨before, hbefore⟩, h⟩ | h
    · refine ⟨((body.take x.1.start).drop lastEnd).length + j, ?_⟩
      rw [drop_length_add_append, drop_append_of_le_length (Nat.le_of_lt hj)]
      exact readsOn_iff.1 h
    · refine ⟨before.length, ?_⟩
      rw [← hbefore, append_assoc, drop_left]
      exact (prefix_append_right_inj left).2 (readsOn_iff.1 h)
    · obtain ⟨j, h⟩ := ih h
      refine ⟨((body.take x.1.start).drop lastEnd).length + (x.2.length + j), ?_⟩
      rwa [drop_length_add_append, drop_length_add_append]

theorem PutTogether.meets (hvalue : value ≠ []) (htexts : ∀ x ∈ ranges, x.2 ≠ [])
    (h : PutTogether value body lastEnd ranges) : ∃ x ∈ ranges, Meets value x.2 := by
  have hpos := length_pos_iff.2 hvalue
  induction ranges generalizing lastEnd with
  | nil => exact h.elim
  | cons x ranges ih =>
    obtain ⟨htext, htexts⟩ := forall_mem_cons.1 htexts
    rcases h with ⟨j, hj, h⟩ | ⟨left, -, right, hright, rfl, -, h⟩ | h
    · refine ⟨x, mem_cons_self, 0, hpos, j, hj, .inl rfl, ?_⟩
      exact prefix_or_prefix_of_prefix (readsOn_iff.1 h) (prefix_append ..)
    · refine ⟨x, mem_cons_self, left.length, ?_, 0, length_pos_iff.2 htext, .inr rfl, ?_⟩
      · rw [length_append]
        exact Nat.lt_add_of_pos_right (length_pos_iff.2 hright)
      · rw [drop_left]
        exact prefix_or_prefix_of_prefix (readsOn_iff.1 h) (prefix_append ..)
    · obtain ⟨y, hy, hmeets⟩ := ih htexts h
      exact ⟨y, mem_cons_of_mem _ hy, hmeets⟩

end Splice

namespace RedactionTable

variable {t : RedactionTable} {current : CoverageTableBinding → Bool} {body : Bytes}

/-- The literal is put together when the ranges of its body are replaced. -/
def Rebuilds (t : RedactionTable) (body value : Bytes) : Prop :=
  ∃ ranges texts, Stretch.MaximalRanges (t.Occurs body) ranges ∧
    Forall₂ (t.Replaces body) ranges texts ∧ PutTogether value body 0 (ranges.zip texts)

theorem contains_scrub_iff (h : t.Enforces current) (body : Bytes) {e : RedactionEntry} (he : e ∈ t.entries) :
    contains (t.scrub current body) e.value = true ↔ t.Rebuilds body e.value := by
  have hproper := fun s (hs : t.Occurs body s) => hs.start_lt_stop
  obtain ⟨ranges, texts, hranges, htexts, hscrub⟩ := h.exists_ranges body
  have hfst : (ranges.zip texts).map Prod.fst = ranges := map_fst_zip (Nat.le_of_eq htexts.length_eq)
  rw [contains_iff, hscrub]
  constructor
  · rintro ⟨j, hj⟩
    refine ⟨ranges, texts, hranges, htexts,
      putTogether_of_prefix_drop (fun x hx => ?_) ?_ (fun i _ hocc => ?_) hj⟩
    · exact ⟨Nat.zero_le _, Nat.le_of_lt (hranges.start_lt_stop hproper (of_mem_zip hx).1)⟩
    · exact pairwise_map.1 (hfst.symm ▸ hranges.apart)
    · obtain ⟨k, hk, hget⟩ := getElem_of_mem he
      have hoccurs : t.Occurs body ⟨i, i + e.value.length, k⟩ :=
        ⟨e, by rw [List.getElem?_eq_getElem hk, hget], rfl, hocc⟩
      obtain ⟨r, hr, hholds⟩ := hranges.covers _ hoccurs
      rw [← hfst] at hr
      obtain ⟨x, hx, rfl⟩ := mem_map.1 hr
      exact ⟨x, hx, hholds.1, Nat.lt_of_lt_of_le hoccurs.start_lt_stop hholds.2⟩
  · rintro ⟨ranges', texts', hranges', htexts', hput⟩
    rw [← hscrub, h.scrub_eq_of_replaces hranges' htexts']
    exact hput.exists_prefix_drop

/-- Scrubbing leaves a text without literals as it is. -/
theorem Enforces.scrub_of_not_contains (h : t.Enforces current) {body : Bytes}
    (hnot : ∀ e ∈ t.entries, contains body e.value = false) : t.scrub current body = body := by
  have hmatch : isMatch t.entries body = false := by
    rw [isMatch, any_eq_false]
    intro e he
    rw [hnot e he]
    exact Bool.false_ne_true
  simp [scrub, scrubCowWithPlaceholder, h.releases, h.fresh, h.enabled, hmatch]

end RedactionTable

theorem hunter2_valid : Utf8.Valid (Bytes.ascii "hunter2") := by decide

theorem cockpit_valid : Utf8.Valid (Bytes.ascii "cockpit") := by decide

/-- A sealed value with an active grant beside a credential that is a word of the marker. -/
def markerTable : RedactionTable :=
  (fromRedactionEntries noFiles
    [.sealed (Bytes.ascii "hunter2") hunter2_valid ⟨.session, none, Bytes.ascii "db", 0⟩,
      .ordinary (Bytes.ascii "cockpit") cockpit_valid (Bytes.ascii "$PASSWORD") .environment]
    (Bytes.ascii "[R]") false ⟨[]⟩).withSealedReplacements [Bytes.ascii "legacy:db@0"]

end FlyCockpit.Redact
