-- SUMMARY: The literals of a table that are reported for journaling, found without overlaps from the left.
import FlyCockpit.Lib.Search
import FlyCockpit.Redact.Straddle
import FlyCockpit.Redact.Survival

/-!
# Reported literals

`matchSensitiveLiterals` lists the entries that occur in a text, each once. It goes over the matches
of the leftmost-longest automaton, which takes the longest literal at the first place where one
starts and goes on behind it. The matches tile the occurrences: a literal that starts inside a match
is passed over, so the list is complete only if no literal can overlap another.
-/

namespace FlyCockpit.Redact

open List

/-! ## The automaton -/

/-- The candidate the automaton prefers: the longest one, and the first of several. -/
def longest : List (RedactionEntry × Nat) → Option (RedactionEntry × Nat)
  | [] => none
  | c :: cs =>
    match longest cs with
    | some d => if c.1.value.length < d.1.value.length then some d else some c
    | none => some c

/-- The match at the front of a text, with its index. -/
def longestAt (entries : List RedactionEntry) (text : Bytes) : Option (RedactionEntry × Nat) :=
  longest (entries.zipIdx.filter fun c => c.1.value.isPrefixOf text)

/-- The matches in the rest of a text, from `pos` on, behind `skip` bytes of the last match. -/
def matchesFrom (entries : List RedactionEntry) : Nat → Nat → Bytes → List (Span Nat)
  | _, _, [] => []
  | skip + 1, pos, _ :: rest => matchesFrom entries skip (pos + 1) rest
  | 0, pos, b :: rest =>
    match longestAt entries (b :: rest) with
    | some (e, k) =>
      ⟨pos, pos + e.value.length, k⟩ :: matchesFrom entries (e.value.length - 1) (pos + 1) rest
    | none => matchesFrom entries 0 (pos + 1) rest

def findIter (entries : List RedactionEntry) (haystack : Bytes) : List (Span Nat) :=
  matchesFrom entries 0 0 haystack

/-! ## The report -/

inductive SourceClass where
  | environment
  | credential
  | containedLeak
  | sealed (recordId : Option Bytes) (version : Nat)
  deriving DecidableEq

def EntryClass.sourceClass : EntryClass → SourceClass
  | .ordinary _ .environment => .environment
  | .ordinary _ .credential => .credential
  | .ordinary _ .containedLeak => .containedLeak
  | .sealed identity => .sealed identity.recordId identity.version

structure MatchedLiteral where
  literal : Bytes
  source : SourceClass
  sealedIdentity : Option SealedRedactionIdentity
  deriving DecidableEq

def RedactionEntry.matched (e : RedactionEntry) : MatchedLiteral where
  literal := e.value
  source := e.entryClass.sourceClass
  sealedIdentity :=
    match e.entryClass with
    | .sealed identity => some identity
    | .ordinary .. => none

namespace RedactionTable

/-- The matches seen so far by their index, and what was reported for them. -/
def reportStep (t : RedactionTable) (acc : List Nat × List MatchedLiteral) (m : Span Nat) :
    List Nat × List MatchedLiteral :=
  if m.tag ∈ acc.1 then acc
  else (m.tag :: acc.1, acc.2 ++ (t.entries[m.tag]?.map RedactionEntry.matched).toList)

/-- Redaction may be opted out of without an effect here. -/
def matchSensitiveLiterals (t : RedactionTable) (haystack : Bytes) : List MatchedLiteral :=
  if t.entries = [] then [] else ((findIter t.entries haystack).foldl t.reportStep ([], [])).2

/-- Every literal that occurs in the text is reported. -/
def ReportsAll (t : RedactionTable) (haystack : Bytes) : Prop :=
  ∀ e ∈ t.entries, contains haystack e.value = true →
    ∃ m ∈ t.matchSensitiveLiterals haystack, m.literal = e.value

end RedactionTable

/-! ## The matches tile the occurrences -/

variable {cs : List (RedactionEntry × Nat)} {entries : List RedactionEntry} {text u v : Bytes}
  {e : RedactionEntry}

theorem longest_mem {c : RedactionEntry × Nat} (h : longest cs = some c) : c ∈ cs := by
  induction cs generalizing c with
  | nil => cases h
  | cons d cs ih =>
    rw [longest] at h
    cases hrest : longest cs with
    | none =>
      rw [hrest] at h
      cases h
      exact mem_cons_self
    | some d' =>
      simp only [hrest] at h
      split_ifs at h
      · cases h
        exact mem_cons_of_mem _ (ih hrest)
      · cases h
        exact mem_cons_self

theorem longest_eq_none (h : longest cs = none) : cs = [] := by
  cases cs with
  | nil => rfl
  | cons c cs =>
    rw [longest] at h
    split at h
    · split_ifs at h
    · cases h

theorem longestAt_eq_some {k : Nat}
    (h : longestAt entries text = some (e, k)) : entries[k]? = some e ∧ e.value <+: text := by
  obtain ⟨hmem, hstarts⟩ := mem_filter.1 (longest_mem h)
  exact ⟨mem_zipIdx_iff_getElem?.1 hmem, isPrefixOf_iff_prefix.1 hstarts⟩

theorem longestAt_eq_none
    (h : longestAt entries text = none) (he : e ∈ entries) : ¬e.value <+: text := by
  intro hstarts
  obtain ⟨k, hk⟩ := List.getElem?_of_mem he
  have hmem : (e, k) ∈ entries.zipIdx.filter fun c => c.1.value.isPrefixOf text :=
    mem_filter.2 ⟨mem_zipIdx_iff_getElem?.2 hk, isPrefixOf_iff_prefix.2 hstarts⟩
  rw [longest_eq_none h] at hmem
  cases hmem

namespace RedactionTable

variable {t : RedactionTable} {haystack : Bytes} {m : MatchedLiteral} {e e' : RedactionEntry}

/-- The matches of the rest of a text tile the occurrences that start in it. -/
theorem tiles_matchesFrom (t : RedactionTable) {rest : Bytes} {pos : Nat}
    (hrest : rest = haystack.drop pos) (skip : Nat) :
    Tiles Span.start Span.stop (fun s => t.Occurs haystack s ∧ pos + skip ≤ s.start)
      (matchesFrom t.entries skip pos rest) := by
  induction rest generalizing pos skip with
  | nil =>
    refine ⟨fun s hs => absurd hs not_mem_nil, List.Pairwise.nil, ?_⟩
    rintro s ⟨hs, hle⟩
    have hlength := drop_eq_nil_iff.1 hrest.symm
    have hlt := hs.start_lt_stop
    have hstop := hs.stop_le
    omega
  | cons b rest ih =>
    have htail : rest = haystack.drop (pos + 1) := by
      rw [← tail_drop, ← hrest, tail_cons]
    cases skip with
    | succ skip =>
      rw [matchesFrom, show pos + (skip + 1) = pos + 1 + skip by omega]
      exact ih htail skip
    | zero =>
      rw [matchesFrom]
      cases hmatch : longestAt t.entries (b :: rest) with
      | none =>
        have htiles := ih htail 0
        refine ⟨fun s hs => ?_, htiles.apart, ?_⟩
        · obtain ⟨hs, hle⟩ := htiles.occurs s hs
          exact ⟨hs, by omega⟩
        · rintro s ⟨hs, hle⟩
          refine htiles.covers s ⟨hs, ?_⟩
          -- No literal starts at this byte.
          obtain ⟨e, hget, -, hstarts⟩ := hs.entry
          obtain heq | hlt := Nat.eq_or_lt_of_le hle
          · rw [← heq, Nat.add_zero, ← hrest] at hstarts
            exact absurd hstarts (longestAt_eq_none hmatch (mem_of_getElem? hget))
          · omega
      | some c =>
        obtain ⟨e, k⟩ := c
        obtain ⟨hget, hstarts⟩ := longestAt_eq_some hmatch
        have hfirst : t.Occurs haystack ⟨pos, pos + e.value.length, k⟩ :=
          ⟨e, hget, rfl, hrest ▸ hstarts⟩
        have hpos := hfirst.start_lt_stop
        dsimp only at hpos
        have htiles := ih htail (e.value.length - 1)
        have hbehind : pos + 1 + (e.value.length - 1) = pos + e.value.length := by omega
        rw [hbehind] at htiles
        refine ⟨?_, ?_, ?_⟩
        · refine forall_mem_cons.2 ⟨⟨hfirst, Nat.le_refl _⟩, fun s hs => ?_⟩
          obtain ⟨hs, hle⟩ := htiles.occurs s hs
          exact ⟨hs, by omega⟩
        · exact pairwise_cons.2 ⟨fun s hs => (htiles.occurs s hs).2, htiles.apart⟩
        · rintro s ⟨hs, hle⟩
          obtain hlt | hge := Nat.lt_or_ge s.start (pos + e.value.length)
          · exact ⟨_, mem_cons_self, hle, hlt⟩
          · obtain ⟨s', hs', hcovers⟩ := htiles.covers s ⟨hs, hge⟩
            exact ⟨s', mem_cons_of_mem _ hs', hcovers⟩

theorem tiles_findIter (t : RedactionTable) (haystack : Bytes) :
    Tiles Span.start Span.stop (t.Occurs haystack) (findIter t.entries haystack) := by
  have hwhole : haystack = haystack.drop 0 := rfl
  have htiles := t.tiles_matchesFrom hwhole 0
  have hall : (fun s => t.Occurs haystack s ∧ 0 + 0 ≤ s.start) = t.Occurs haystack := by
    funext s
    exact propext (and_iff_left (Nat.zero_le s.start))
  rwa [hall] at htiles

/-! ## What is reported -/

/-- What the loop over the matches reports, besides what was reported before. -/
theorem mem_foldl_reportStep {found : List (Span Nat)} {acc : List Nat × List MatchedLiteral}
    (hacc : ∀ k ∈ acc.1, ∀ e, t.entries[k]? = some e → e.matched ∈ acc.2) :
    m ∈ (found.foldl t.reportStep acc).2 ↔
      m ∈ acc.2 ∨ ∃ s ∈ found, ∃ e, t.entries[s.tag]? = some e ∧ e.matched = m := by
  induction found generalizing acc with
  | nil => simp
  | cons s rest ih =>
    rw [foldl_cons]
    by_cases hseen : s.tag ∈ acc.1
    · have hstep : t.reportStep acc s = acc := if_pos hseen
      rw [hstep, ih hacc]
      constructor
      · rintro (h | ⟨s', hs', h⟩)
        · exact .inl h
        · exact .inr ⟨s', mem_cons_of_mem _ hs', h⟩
      · rintro (h | ⟨s', hs', e, hget, rfl⟩)
        · exact .inl h
        · obtain rfl | hs' := mem_cons.1 hs'
          · exact .inl (hacc _ hseen e hget)
          · exact .inr ⟨s', hs', e, hget, rfl⟩
    · have hstep : t.reportStep acc s =
          (s.tag :: acc.1, acc.2 ++ (t.entries[s.tag]?.map RedactionEntry.matched).toList) := if_neg hseen
      rw [hstep, ih]
      · simp only [mem_append, Option.mem_toList, Option.map_eq_some_iff,
          mem_cons, exists_eq_or_imp, or_assoc]
      · refine forall_mem_cons.2 ⟨fun e hget => ?_, fun k hk e hget => ?_⟩
        · rw [hget]
          exact mem_append_right _ (mem_singleton.2 rfl)
        · exact mem_append_left _ (hacc k hk e hget)

theorem mem_matchSensitiveLiterals : m ∈ t.matchSensitiveLiterals haystack ↔
      ∃ s ∈ findIter t.entries haystack, ∃ e, t.entries[s.tag]? = some e ∧ e.matched = m := by
  rw [matchSensitiveLiterals]
  split_ifs with hnil
  · constructor
    · intro hm
      cases hm
    · rintro ⟨s, -, e, hget, -⟩
      rw [hnil] at hget
      cases hget
  · rw [mem_foldl_reportStep fun k hk => absurd hk not_mem_nil]
    simp only [not_mem_nil, false_or]

/-! ## Completeness -/

/-- Occurrences of two literals that share a byte show how the literals meet. -/
theorem Occurs.meets {s s' : Span Nat} (hs : t.Occurs haystack s)
    (hs' : t.Occurs haystack s') (hget : t.entries[s.tag]? = some e) (hget' : t.entries[s'.tag]? = some e')
    (hle : s.start ≤ s'.start) (hlt : s'.start < s.stop) : Meets e'.value e.value := by
  obtain ⟨e₀, he₀, hstop, hstarts⟩ := hs.entry
  obtain ⟨e₁, he₁, -, hstarts'⟩ := hs'.entry
  obtain rfl : e = e₀ := Option.some.inj (hget.symm.trans he₀)
  obtain rfl : e' = e₁ := Option.some.inj (hget'.symm.trans he₁)
  have hrest := hstarts.drop (s'.start - s.start)
  rw [drop_drop, Nat.add_sub_cancel' hle] at hrest
  refine ⟨0, length_pos_iff.2 (t.value_ne_nil (mem_of_getElem? hget')), s'.start - s.start, by omega,
    .inl rfl, prefix_or_prefix_of_prefix hstarts' hrest⟩

/-- In a text in which no occurrence of a literal overlaps one of another literal, every literal that
    occurs is reported. -/
theorem reportsAll_of_apart
    (hapart : ∀ s s', t.Occurs haystack s → t.Occurs haystack s' → s.Overlaps s' →
      t.entries[s.tag]?.map RedactionEntry.value = t.entries[s'.tag]?.map RedactionEntry.value) :
    t.ReportsAll haystack := by
  intro e he hcontains
  obtain ⟨i, hstarts⟩ := contains_iff.1 hcontains
  obtain ⟨k, hk⟩ := List.getElem?_of_mem he
  have hs : t.Occurs haystack ⟨i, i + e.value.length, k⟩ := ⟨e, hk, rfl, hstarts⟩
  obtain ⟨s', hs', hle, hlt⟩ := (t.tiles_findIter haystack).covers _ hs
  have hocc := (t.tiles_findIter haystack).occurs s' hs'
  have hvalue := hapart s' _ hocc hs ⟨Nat.lt_of_le_of_lt hle hs.start_lt_stop, hlt⟩
  obtain ⟨e', hget', -⟩ := hocc.entry
  rw [hget', hk] at hvalue
  exact ⟨e'.matched, mem_matchSensitiveLiterals.2 ⟨s', hs', e', hget', rfl⟩, Option.some.inj hvalue⟩

/-- A text that shows both literals has room for both of them if both are reported. -/
theorem length_le_of_reportsAll (h : t.ReportsAll haystack) (he : e ∈ t.entries)
    (he' : e' ∈ t.entries) (hne : e.value ≠ e'.value) (hc : contains haystack e.value = true)
    (hc' : contains haystack e'.value = true) :
    e.value.length + e'.value.length ≤ haystack.length := by
  have htiles := t.tiles_findIter haystack
  obtain ⟨m, hm, hliteral⟩ := h e he hc
  obtain ⟨m', hm', hliteral'⟩ := h e' he' hc'
  obtain ⟨s, hs, d, hget, rfl⟩ := mem_matchSensitiveLiterals.1 hm
  obtain ⟨s', hs', d', hget', rfl⟩ := mem_matchSensitiveLiterals.1 hm'
  have hne' : s ≠ s' := by
    rintro rfl
    rw [hget] at hget'
    cases hget'
    exact hne (hliteral.symm.trans hliteral')
  have hstop := (htiles.occurs s hs).stop_le
  have hstop' := (htiles.occurs s' hs').stop_le
  obtain ⟨_, hd, hsize, -⟩ := (htiles.occurs s hs).entry
  obtain ⟨_, hd', hsize', -⟩ := (htiles.occurs s' hs').entry
  cases hget.symm.trans hd
  cases hget'.symm.trans hd'
  rw [show d.value = e.value from hliteral] at hsize
  rw [show d'.value = e'.value from hliteral'] at hsize'
  have hapart := htiles.apart_of_ne hs hs' hne'
  omega

end RedactionTable

/-- A literal that starts inside another one, agreeing with it as far as both go. -/
theorem exists_text_of_prefix_drop (hu : Utf8.Valid u) (hv : Utf8.Valid v) (hne : v ≠ [])
    {i : Nat} (hi : i < u.length) (h : u.drop i <+: v ∨ v <+: u.drop i) :
    ∃ text, Utf8.Valid text ∧ contains text u = true ∧ contains text v = true ∧
      text.length < u.length + v.length := by
  have hpos := length_pos_iff.2 hne
  rcases h with hstarts | hstarts
  · -- The second literal starts with the end of the first one.
    have hboundary : Utf8.isCharBoundary u i = true := by
      obtain ⟨b, v, rfl⟩ := exists_cons_of_ne_nil hne
      rw [drop_eq_getElem_cons hi, cons_prefix_cons] at hstarts
      exact Utf8.isCharBoundary_of_getElem? (List.getElem?_eq_getElem hi)
        (hstarts.1 ▸ hv.head_not_continuation)
    have hwhole : u <+: u.take i ++ v := by
      have happend := (prefix_append_right_inj (u.take i)).2 hstarts
      rwa [take_append_drop] at happend
    have htake : (u.take i).length = i := length_take_of_le (Nat.le_of_lt hi)
    refine ⟨u.take i ++ v, ((hu.isCharBoundary_iff.1 hboundary).2).append hv,
      contains_iff.2 ⟨0, hwhole⟩, contains_iff.2 ⟨i, ?_⟩, ?_⟩
    · rw [drop_append, htake, Nat.sub_self, drop_of_length_le (Nat.le_of_eq htake)]
      exact prefix_rfl
    · rw [length_append, htake]
      exact Nat.add_lt_add_right hi _
  · exact ⟨u, hu, contains_iff.2 ⟨0, prefix_rfl⟩, contains_iff.2 ⟨i, hstarts⟩,
      Nat.lt_add_of_pos_right hpos⟩

/-- Two literals that meet stand together in a text that is too short for both. -/
theorem exists_text_of_meets (hu : Utf8.Valid u) (hv : Utf8.Valid v) (h : Meets u v) :
    ∃ text, Utf8.Valid text ∧ contains text u = true ∧ contains text v = true ∧
      text.length < u.length + v.length := by
  obtain ⟨i, hi, j, hj, hzero, hagree⟩ := h
  rcases hzero with rfl | rfl
  · obtain ⟨text, hvalid, hcv, hcu, hshort⟩ := exists_text_of_prefix_drop hv hu
      (ne_nil_of_length_pos hi) hj hagree.symm
    exact ⟨text, hvalid, hcu, hcv, by omega⟩
  · exact exists_text_of_prefix_drop hu hv (ne_nil_of_length_pos hj) hi hagree

namespace RedactionTable

/-- Everything that occurs is reported, in every text, exactly if no two literals of the table can
    overlap; and a text in which no two occurrences do is reported in full by any table. -/
theorem reports_all_iff (t : RedactionTable) :
    ((∀ haystack, Utf8.Valid haystack → t.ReportsAll haystack) ↔
        ∀ e ∈ t.entries, ∀ e' ∈ t.entries, e.value ≠ e'.value → ¬Meets e.value e'.value) ∧
      ∀ haystack, (∀ s s', t.Occurs haystack s → t.Occurs haystack s' → s.Overlaps s' →
          t.entries[s.tag]?.map RedactionEntry.value = t.entries[s'.tag]?.map RedactionEntry.value) →
        t.ReportsAll haystack := by
  refine ⟨⟨?_, ?_⟩, fun haystack => reportsAll_of_apart⟩
  · intro hall e he e' he' hne hmeets
    obtain ⟨text, hvalid, hc, hc', hshort⟩ := exists_text_of_meets e.valid e'.valid hmeets
    exact absurd (length_le_of_reportsAll (hall text hvalid) he he' hne hc hc') (Nat.not_le.2 hshort)
  · intro hapart haystack _
    refine reportsAll_of_apart fun s s' hs hs' hoverlaps => ?_
    obtain ⟨e, hget, -⟩ := hs.entry
    obtain ⟨e', hget', -⟩ := hs'.entry
    have he := List.mem_of_getElem? hget
    have he' := List.mem_of_getElem? hget'
    by_contra hne
    rw [hget, hget', Option.map_some, Option.map_some, Option.some_inj] at hne
    rcases Nat.le_total s.start s'.start with hle | hle
    · exact hapart e' he' e he (Ne.symm hne) (hs.meets hs' hget hget' hle hoverlaps.2)
    · exact hapart e he e' he' hne (hs'.meets hs hget' hget hle hoverlaps.1)

end RedactionTable

/-- Of two literals that overlap only the first one is reported. -/
theorem overlapped_literal_not_reported :
    (∃ e ∈ overlappingTable.entries, e.value = Bytes.ascii "defxyz") ∧
      contains (Bytes.ascii "abcdefxyz") (Bytes.ascii "defxyz") = true ∧
      (overlappingTable.matchSensitiveLiterals (Bytes.ascii "abcdefxyz")).map MatchedLiteral.literal =
        [Bytes.ascii "abcdef"] := by
  decide +kernel

end FlyCockpit.Redact
