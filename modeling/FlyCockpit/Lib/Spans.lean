-- SUMMARY: Tagged spans of a sequence: maximal ranges of overlapping spans, the sweep that finds them, splicing.
import Mathlib.Data.List.Pairwise
import Mathlib.Data.List.Sort

/-!
# Spans

A span is a stretch of positions with a tag. Spans that overlap strictly, directly or through
others, make one range; ranges that only touch stay apart. `MaximalRanges` says which list of
ranges a set of spans has, and `sweep` computes it from the spans sorted by their start.
`splice` replaces ranges of a sequence and keeps everything between them.
-/

universe u v w

structure Span (ι : Type u) where
  start : Nat
  stop : Nat
  tag : ι
  deriving DecidableEq

/-- A stretch of positions. -/
structure Stretch where
  start : Nat
  stop : Nat
  deriving DecidableEq

namespace Span

variable {ι : Type u}

def Overlaps (s s' : Span ι) : Prop := s.start < s'.stop ∧ s'.start < s.stop

theorem Overlaps.symm {s s' : Span ι} (h : s.Overlaps s') : s'.Overlaps s := ⟨h.2, h.1⟩

/-- The spans of a set that overlap directly or through others of the set. -/
def Linked (P : Span ι → Prop) : Span ι → Span ι → Prop :=
  Relation.ReflTransGen fun s s' => P s ∧ P s' ∧ s.Overlaps s'

theorem Linked.mono {P Q : Span ι → Prop} (hPQ : ∀ s, P s → Q s) {s s' : Span ι}
    (h : Linked P s s') : Linked Q s s' :=
  Relation.ReflTransGen.mono (fun _ _ h => ⟨hPQ _ h.1, hPQ _ h.2.1, h.2.2⟩) _ _ h

theorem Linked.symm {P : Span ι → Prop} {s s' : Span ι} (h : Linked P s s') : Linked P s' s := by
  induction h with
  | refl => exact .refl
  | tail _ hstep ih => exact .head ⟨hstep.2.1, hstep.1, hstep.2.2.symm⟩ ih

/-- The span `n` positions further on. -/
def shift (n : Nat) (s : Span ι) : Span ι := ⟨n + s.start, n + s.stop, s.tag⟩

theorem Linked.shift {P Q : Span ι → Prop} {n : Nat} (hPQ : ∀ s, P s → Q (s.shift n)) {s s' : Span ι}
    (h : Linked P s s') : Linked Q (s.shift n) (s'.shift n) :=
  Relation.ReflTransGen.lift (Span.shift n) (fun a b hab =>
    ⟨hPQ a hab.1, hPQ b hab.2.1, Nat.add_lt_add_left hab.2.2.1 n, Nat.add_lt_add_left hab.2.2.2 n⟩) _ _ h

end Span

namespace Stretch

variable {ι : Type u}

/-- The span lies in the stretch. -/
def Holds (r : Stretch) (s : Span ι) : Prop := r.start ≤ s.start ∧ s.stop ≤ r.stop

def shift (n : Nat) (r : Stretch) : Stretch := ⟨n + r.start, n + r.stop⟩

theorem holds_shift {r : Stretch} {s : Span ι} {n : Nat} : (r.shift n).Holds (s.shift n) ↔ r.Holds s := by
  simp only [Holds, shift, Span.shift, Nat.add_le_add_iff_left]

/-- The list of the ranges a set of spans has, in order. -/
structure MaximalRanges (P : Span ι → Prop) (ranges : List Stretch) : Prop where
  apart : ranges.Pairwise fun r r' => r.stop ≤ r'.start
  covers : ∀ s, P s → ∃ r ∈ ranges, r.Holds s
  starts : ∀ r ∈ ranges, ∃ s, P s ∧ r.Holds s ∧ s.start = r.start
  stops : ∀ r ∈ ranges, ∃ s, P s ∧ r.Holds s ∧ s.stop = r.stop
  linked : ∀ r ∈ ranges, ∀ s s', P s → P s' → r.Holds s → r.Holds s' → s.Linked P s'

namespace MaximalRanges

variable {P : Span ι → Prop} {ranges ranges' : List Stretch}

theorem start_lt_stop (h : MaximalRanges P ranges) (hP : ∀ s, P s → s.start < s.stop) {r : Stretch}
    (hr : r ∈ ranges) : r.start < r.stop := by
  obtain ⟨s, hs, hholds, -⟩ := h.starts r hr
  have := hP s hs
  have := hholds.1
  have := hholds.2
  omega

/-- Two ranges that share a position are one. -/
theorem eq_of_overlap (h : MaximalRanges P ranges) {r r' : Stretch}
    (hr : r ∈ ranges) (hr' : r' ∈ ranges) (hlt : r.start < r'.stop) (hlt' : r'.start < r.stop) :
    r = r' := by
  by_contra hne
  have : Std.Symm fun a b : Stretch => a.stop ≤ b.start ∨ b.stop ≤ a.start := ⟨fun _ _ => Or.symm⟩
  have hpair : ranges.Pairwise fun a b => a.stop ≤ b.start ∨ b.stop ≤ a.start := h.apart.imp .inl
  rcases hpair.forall hr hr' hne with hle | hle <;> omega

/-- Linked spans lie in one range. -/
theorem holds_of_linked (h : MaximalRanges P ranges) (hP : ∀ s, P s → s.start < s.stop) {r : Stretch}
    (hr : r ∈ ranges) {s s' : Span ι} (hlinked : s.Linked P s') (hholds : r.Holds s) : r.Holds s' := by
  induction hlinked with
  | refl => exact hholds
  | @tail b c _ hstep ih =>
    obtain ⟨r', hr', hholds'⟩ := h.covers c hstep.2.1
    have hb := hP b hstep.1
    have hc := hP c hstep.2.1
    have heq := h.eq_of_overlap hr hr'
      (by have := ih.1; have := hholds'.2; have := hstep.2.2.1; omega)
      (by have := ih.2; have := hholds'.1; have := hstep.2.2.2; omega)
    exact heq ▸ hholds'

/-- Between the start of a span and the end of one linked to it, every position is in a span. -/
theorem exists_of_linked {s s' : Span ι} (hlinked : s.Linked P s') (hs : P s) {k : Nat}
    (hstart : s.start ≤ k) (hstop : k < s'.stop) : ∃ u, P u ∧ u.start ≤ k ∧ k < u.stop := by
  induction hlinked with
  | refl => exact ⟨s, hs, hstart, hstop⟩
  | @tail b c _ hstep ih =>
    obtain hlt | hge := Nat.lt_or_ge k b.stop
    · exact ih hlt
    · exact ⟨c, hstep.2.1, Nat.le_of_lt (Nat.lt_of_lt_of_le hstep.2.2.2 hge), hstop⟩

/-- The positions in the ranges are those in the spans. -/
theorem exists_range_iff (h : MaximalRanges P ranges) (k : Nat) :
    (∃ r ∈ ranges, r.start ≤ k ∧ k < r.stop) ↔ ∃ s, P s ∧ s.start ≤ k ∧ k < s.stop := by
  constructor
  · rintro ⟨r, hr, hstart, hstop⟩
    obtain ⟨s, hs, hholds, hs_start⟩ := h.starts r hr
    obtain ⟨s', hs', hholds', hs_stop⟩ := h.stops r hr
    exact exists_of_linked (h.linked r hr s s' hs hs' hholds hholds') hs (hs_start ▸ hstart)
      (hs_stop ▸ hstop)
  · rintro ⟨s, hs, hstart, hstop⟩
    obtain ⟨r, hr, hholds⟩ := h.covers s hs
    exact ⟨r, hr, hholds.1.trans hstart, Nat.lt_of_lt_of_le hstop hholds.2⟩

theorem mem_of_mem (h : MaximalRanges P ranges) (h' : MaximalRanges P ranges')
    (hP : ∀ s, P s → s.start < s.stop) {r : Stretch} (hr : r ∈ ranges) : r ∈ ranges' := by
  -- The range of the other list that holds some span of `r` holds them all, and the other way round.
  obtain ⟨s, hs, hholds, hstart⟩ := h.starts r hr
  obtain ⟨t, ht, hholdsT, hstop⟩ := h.stops r hr
  obtain ⟨r', hr', hholds'⟩ := h'.covers s hs
  obtain ⟨s', hs', hholdsS', hstart'⟩ := h'.starts r' hr'
  obtain ⟨t', ht', hholdsT', hstop'⟩ := h'.stops r' hr'
  have ht_in := h'.holds_of_linked hP hr' (h.linked r hr s t hs ht hholds hholdsT) hholds'
  have hs'_in := h.holds_of_linked hP hr (h'.linked r' hr' s s' hs hs' hholds' hholdsS') hholds
  have ht'_in := h.holds_of_linked hP hr (h'.linked r' hr' s t' hs ht' hholds' hholdsT') hholds
  have heq : r = r' := by
    have := hholds'.1
    have := ht_in.2
    have := hs'_in.1
    have := ht'_in.2
    cases r
    cases r'
    simp only [Stretch.mk.injEq] at *
    omega
  exact heq ▸ hr'

/-- A set of spans has one list of ranges. -/
theorem unique (h : MaximalRanges P ranges) (h' : MaximalRanges P ranges')
    (hP : ∀ s, P s → s.start < s.stop) : ranges = ranges' := by
  have hsorted : ∀ {l}, MaximalRanges P l → l.Pairwise fun r r' => r.start < r'.start := by
    intro l hl
    refine hl.apart.imp_of_mem fun ha _ hle => ?_
    have := hl.start_lt_stop hP ha
    omega
  have hmem : ∀ r, r ∈ ranges ↔ r ∈ ranges' := fun r => ⟨h.mem_of_mem h' hP, h'.mem_of_mem h hP⟩
  have hnodup : ∀ {l : List Stretch}, (l.Pairwise fun r r' => r.start < r'.start) → l.Nodup :=
    fun hl => hl.imp fun hlt heq => absurd hlt (by rw [heq]; exact Nat.lt_irrefl _)
  refine ((List.perm_ext_iff_of_nodup (hnodup (hsorted h)) (hnodup (hsorted h'))).2 hmem).eq_of_pairwise
    (fun a b _ _ hab hba => absurd hab (Nat.lt_asymm hba)) (hsorted h) (hsorted h')

/-- Spans on both sides of a position that none of them crosses have the ranges of either side. -/
theorem append_shift {Q R : Span ι → Prop} {c : Nat} (h : MaximalRanges P ranges)
    (h' : MaximalRanges Q ranges') (hP : ∀ s, P s → s.start < s.stop) (hQ : ∀ s, Q s → s.start < s.stop)
    (hleft : ∀ s, P s → s.stop ≤ c) (hR : ∀ s, R s ↔ P s ∨ ∃ s', Q s' ∧ s = s'.shift c) :
    MaximalRanges R (ranges ++ ranges'.map (Stretch.shift c)) := by
  have hbefore : ∀ r ∈ ranges, r.stop ≤ c := by
    intro r hr
    obtain ⟨s, hs, -, hstop⟩ := h.stops r hr
    exact hstop ▸ hleft s hs
  have hPR : ∀ s, P s → R s := fun s hs => (hR s).2 (.inl hs)
  have hQR : ∀ s, Q s → R (s.shift c) := fun s hs => (hR _).2 (.inr ⟨s, hs, rfl⟩)
  have hinP : ∀ r ∈ ranges, ∀ s, R s → r.Holds s → P s := by
    intro r hr s hs hholds
    obtain hs | ⟨s', hs', rfl⟩ := (hR s).1 hs
    · exact hs
    · have hlt := hQ s' hs'
      have hstop := hbefore r hr
      have hle := hholds.2
      simp only [Span.shift] at hle
      omega
  have hinQ : ∀ r ∈ ranges', ∀ s, R s → (r.shift c).Holds s → ∃ s', Q s' ∧ s = s'.shift c ∧ r.Holds s' := by
    intro r hr s hs hholds
    obtain hs | ⟨s', hs', rfl⟩ := (hR s).1 hs
    · have hlt := hP s hs
      have hstop := hleft s hs
      have hle : c + r.start ≤ s.start := hholds.1
      omega
    · exact ⟨s', hs', rfl, holds_shift.1 hholds⟩
  refine ⟨?_, ?_, ?_, ?_, ?_⟩
  · refine List.pairwise_append.2 ⟨h.apart, ?_, ?_⟩
    · exact List.pairwise_map.2 (h'.apart.imp fun hle => Nat.add_le_add_left hle c)
    · intro r hr r' hr'
      obtain ⟨r', -, rfl⟩ := List.mem_map.1 hr'
      exact (hbefore r hr).trans (Nat.le_add_right ..)
  · intro s hs
    obtain hs | ⟨s', hs', rfl⟩ := (hR s).1 hs
    · obtain ⟨r, hr, hholds⟩ := h.covers s hs
      exact ⟨r, List.mem_append_left _ hr, hholds⟩
    · obtain ⟨r, hr, hholds⟩ := h'.covers s' hs'
      exact ⟨r.shift c, List.mem_append_right _ (List.mem_map_of_mem hr), holds_shift.2 hholds⟩
  · intro r hr
    obtain hr | hr := List.mem_append.1 hr
    · obtain ⟨s, hs, hholds, hstart⟩ := h.starts r hr
      exact ⟨s, hPR s hs, hholds, hstart⟩
    · obtain ⟨r, hmem, rfl⟩ := List.mem_map.1 hr
      obtain ⟨s, hs, hholds, hstart⟩ := h'.starts r hmem
      exact ⟨s.shift c, hQR s hs, holds_shift.2 hholds, congrArg (c + ·) hstart⟩
  · intro r hr
    obtain hr | hr := List.mem_append.1 hr
    · obtain ⟨s, hs, hholds, hstop⟩ := h.stops r hr
      exact ⟨s, hPR s hs, hholds, hstop⟩
    · obtain ⟨r, hmem, rfl⟩ := List.mem_map.1 hr
      obtain ⟨s, hs, hholds, hstop⟩ := h'.stops r hmem
      exact ⟨s.shift c, hQR s hs, holds_shift.2 hholds, congrArg (c + ·) hstop⟩
  · intro r hr s s' hs hs' hholds hholds'
    obtain hr | hr := List.mem_append.1 hr
    · exact (h.linked r hr s s' (hinP r hr s hs hholds) (hinP r hr s' hs' hholds') hholds hholds').mono hPR
    · obtain ⟨r, hmem, rfl⟩ := List.mem_map.1 hr
      obtain ⟨u, hu, rfl, hin⟩ := hinQ r hmem s hs hholds
      obtain ⟨u', hu', rfl, hin'⟩ := hinQ r hmem s' hs' hholds'
      exact (h'.linked r hmem u u' hu hu' hin hin').shift hQR

end MaximalRanges

end Stretch

/-! ## The sweep -/

/-- The range a sweep is collecting: where it starts, where it ends so far, the tag of its first
    span and whether all its spans have that tag. -/
structure Sweep (ι : Type u) where
  start : Nat
  stop : Nat
  first : ι
  single : Bool
  deriving DecidableEq

namespace Sweep

variable {ι : Type u}

def stretch (g : Sweep ι) : Stretch := ⟨g.start, g.stop⟩

def of (s : Span ι) : Sweep ι := ⟨s.start, s.stop, s.tag, true⟩

/-- The spans that make up a collected range. -/
structure Collects (g : Sweep ι) (members : List (Span ι)) : Prop where
  holds : ∀ s ∈ members, g.stretch.Holds s
  starts : ∃ s ∈ members, s.start = g.start
  stops : ∃ s ∈ members, s.stop = g.stop
  linked : ∀ s ∈ members, ∀ s' ∈ members, s.Linked (· ∈ members) s'
  first : ∃ s ∈ members, s.tag = g.first
  single : g.single = true ↔ ∀ s ∈ members, s.tag = g.first

theorem Collects.of (s : Span ι) : Collects (of s) [s] := by
  refine ⟨?_, ⟨s, by simp, rfl⟩, ⟨s, by simp, rfl⟩, ?_, ⟨s, by simp, rfl⟩, ?_⟩
  · simp [Stretch.Holds, stretch, Sweep.of]
  · simp only [List.mem_singleton, forall_eq]
    exact .refl
  · simp [Sweep.of]

variable [DecidableEq ι]

def absorb (g : Sweep ι) (s : Span ι) : Sweep ι :=
  { g with
    stop := if s.stop > g.stop then s.stop else g.stop
    single := if s.tag ≠ g.first then false else g.single }

/-- The ranges of spans sorted by their start, the first of which is being collected. -/
def sweepFrom (g : Sweep ι) : List (Span ι) → List (Sweep ι)
  | [] => [g]
  | s :: spans => if s.start < g.stop then sweepFrom (g.absorb s) spans else g :: sweepFrom (of s) spans

def sweep : List (Span ι) → List (Sweep ι)
  | [] => []
  | s :: spans => sweepFrom (of s) spans

/-- A span that starts before the end so far belongs to the range. -/
theorem Collects.absorb {g : Sweep ι} {members : List (Span ι)} (h : Collects g members) {s : Span ι}
    (hlt : s.start < g.stop) (hs : s.start < s.stop) (hsorted : ∀ m ∈ members, m.start ≤ s.start) :
    Collects (g.absorb s) (members ++ [s]) := by
  have hstop : (g.absorb s).stop = max g.stop s.stop := by
    simp only [Sweep.absorb]
    split <;> omega
  obtain ⟨a, ha, hstart⟩ := h.starts
  obtain ⟨m, hm, hmstop⟩ := h.stops
  have hgstart : g.start ≤ s.start := hstart ▸ hsorted a ha
  -- The member that ends last overlaps the new span.
  have hlink : ∀ m' ∈ members, m'.Linked (· ∈ members ++ [s]) s := by
    intro m' hm'
    have hold := (h.linked m' hm' m hm).mono (Q := (· ∈ members ++ [s])) fun _ h => List.mem_append_left _ h
    have hms : m.start < s.stop := Nat.lt_of_le_of_lt (hsorted m hm) hs
    exact hold.tail ⟨by simp [hm], by simp, hms, hmstop ▸ hlt⟩
  refine ⟨?_, ⟨a, by simp [ha], hstart⟩, ?_, ?_, ?_, ?_⟩
  · intro x hx
    rw [Stretch.Holds, stretch, hstop]
    rcases List.mem_append.1 hx with hx | hx
    · have := h.holds x hx
      exact ⟨this.1, this.2.trans (Nat.le_max_left ..)⟩
    · rw [List.mem_singleton.1 hx]
      exact ⟨hgstart, Nat.le_max_right ..⟩
  · rw [hstop]
    rcases Nat.le_total s.stop g.stop with hle | hle
    · exact ⟨m, by simp [hm], by omega⟩
    · exact ⟨s, by simp, by omega⟩
  · intro x hx y hy
    rcases List.mem_append.1 hx with hx | hx <;> rcases List.mem_append.1 hy with hy | hy
    · exact (h.linked x hx y hy).mono fun _ h => List.mem_append_left _ h
    · rw [List.mem_singleton.1 hy]
      exact hlink x hx
    · rw [List.mem_singleton.1 hx]
      exact (hlink y hy).symm
    · rw [List.mem_singleton.1 hx, List.mem_singleton.1 hy]
      exact .refl
  · obtain ⟨f, hf, htag⟩ := h.first
    exact ⟨f, by simp [hf], htag⟩
  · have hsingle := h.single
    simp only [Sweep.absorb, List.forall_mem_append, List.forall_mem_singleton]
    split
    next hne => simp [hne]
    next heq => rw [hsingle, and_iff_left (not_not.1 heq)]

/-- The sweep cuts the sorted spans into the members of its ranges, and the ranges are apart. -/
theorem sweepFrom_spec {g : Sweep ι} {members spans : List (Span ι)} (h : Collects g members)
    (hproper : ∀ s ∈ spans, s.start < s.stop)
    (hsorted : (members ++ spans).Pairwise fun s s' => s.start ≤ s'.start) :
    ∃ parts, parts.flatten = members ++ spans ∧ List.Forall₂ Collects (sweepFrom g spans) parts ∧
      (sweepFrom g spans).Pairwise (fun a b => a.stop ≤ b.start) ∧
      ∀ r ∈ sweepFrom g spans, g.start ≤ r.start := by
  induction spans generalizing g members with
  | nil => exact ⟨[members], by simp, .cons h .nil, List.pairwise_singleton .., by simp [sweepFrom]⟩
  | cons s spans ih =>
    have hbefore : ∀ m ∈ members, m.start ≤ s.start := fun m hm =>
      (List.pairwise_append.1 hsorted).2.2 m hm s (by simp)
    have hproper' : ∀ s ∈ spans, s.start < s.stop := fun s' hs' => hproper s' (by simp [hs'])
    rw [sweepFrom]
    split
    next hlt =>
      have hsorted' : ((members ++ [s]) ++ spans).Pairwise fun s s' => s.start ≤ s'.start := by
        simpa using hsorted
      obtain ⟨parts, hparts, hcollects, hapart, hstart⟩ :=
        ih (h.absorb hlt (hproper s (by simp)) hbefore) hproper' hsorted'
      exact ⟨parts, by simpa using hparts, hcollects, hapart, hstart⟩
    next hge =>
      have hsorted' : ([s] ++ spans).Pairwise fun s s' => s.start ≤ s'.start :=
        (List.pairwise_append.1 hsorted).2.1
      obtain ⟨parts, hparts, hcollects, hapart, hstart⟩ := ih (Collects.of s) hproper' hsorted'
      obtain ⟨a, ha, hgstart⟩ := h.starts
      refine ⟨members :: parts, by simpa using hparts, .cons h hcollects,
        List.pairwise_cons.2 ⟨fun r hr => ?_, hapart⟩, ?_⟩
      · exact (Nat.not_lt.1 hge).trans (hstart r hr)
      · intro r hr
        rcases List.mem_cons.1 hr with rfl | hr
        · exact Nat.le_refl _
        · exact (hgstart ▸ hbefore a ha).trans (hstart r hr)

theorem sweep_spec {spans : List (Span ι)} (hproper : ∀ s ∈ spans, s.start < s.stop)
    (hsorted : spans.Pairwise fun s s' => s.start ≤ s'.start) :
    ∃ parts, parts.flatten = spans ∧ List.Forall₂ Collects (sweep spans) parts ∧
      (sweep spans).Pairwise (fun a b => a.stop ≤ b.start) := by
  cases spans with
  | nil => exact ⟨[], rfl, .nil, .nil⟩
  | cons s spans =>
    obtain ⟨parts, hparts, hcollects, hapart, -⟩ := sweepFrom_spec (Collects.of s)
      (fun s' hs' => hproper s' (by simp [hs'])) hsorted
    exact ⟨parts, hparts, hcollects, hapart⟩

/-- What a sweep finds, in terms of the set of spans alone. -/
structure Finds (P : Span ι → Prop) (groups : List (Sweep ι)) : Prop where
  ranges : Stretch.MaximalRanges P (groups.map stretch)
  first : ∀ g ∈ groups, ∃ s, P s ∧ g.stretch.Holds s ∧ s.tag = g.first
  single : ∀ g ∈ groups, (g.single = true ↔ ∀ s, P s → g.stretch.Holds s → s.tag = g.first)

theorem finds_sweep {P : Span ι → Prop} {spans : List (Span ι)} (hP : ∀ s, P s ↔ s ∈ spans)
    (hproper : ∀ s ∈ spans, s.start < s.stop)
    (hsorted : spans.Pairwise fun s s' => s.start ≤ s'.start) : Finds P (sweep spans) := by
  obtain ⟨parts, rfl, hcollects, hapart⟩ := sweep_spec hproper hsorted
  generalize sweep parts.flatten = groups at hcollects hapart
  obtain ⟨hlength, hget⟩ := List.forall₂_iff_get.1 hcollects
  have hpart : ∀ s, P s → ∃ i, ∃ (hg : i < groups.length) (hm : i < parts.length), s ∈ parts[i] := by
    intro s hs
    obtain ⟨m, hm, hsm⟩ := List.mem_flatten.1 ((hP s).1 hs)
    obtain ⟨i, hi, rfl⟩ := List.getElem_of_mem hm
    exact ⟨i, by omega, hi, hsm⟩
  have hin : ∀ i (hm : i < parts.length), ∀ s ∈ parts[i], P s := fun i hm s hs =>
    (hP s).2 (List.mem_flatten.2 ⟨_, List.getElem_mem hm, hs⟩)
  -- A span that a range holds is one of its members, for no two ranges hold one span.
  have hmember : ∀ i (hg : i < groups.length) (hm : i < parts.length) s, P s →
      groups[i].stretch.Holds s → s ∈ parts[i] := by
    intro i hg hm s hs hholds
    obtain ⟨j, hgj, hmj, hsj⟩ := hpart s hs
    have hholds' := (hget j hgj hmj).holds s hsj
    have hlt := hproper s ((hP s).1 hs)
    have hpair := List.pairwise_iff_getElem.1 hapart
    have heq : i = j := by
      rcases Nat.lt_trichotomy i j with hij | hij | hij
      · have := hpair i j hg hgj hij
        have := hholds.2
        have := hholds'.1
        simp only [stretch, List.get_eq_getElem] at *
        omega
      · exact hij
      · have := hpair j i hgj hg hij
        have := hholds.1
        have := hholds'.2
        simp only [stretch, List.get_eq_getElem] at *
        omega
    subst heq
    exact hsj
  have hwith : ∀ g ∈ groups, ∃ members, Collects g members ∧ (∀ s ∈ members, P s) ∧
      ∀ s, P s → g.stretch.Holds s → s ∈ members := by
    intro g hg
    obtain ⟨i, hi, rfl⟩ := List.getElem_of_mem hg
    have hm : i < parts.length := by omega
    exact ⟨parts[i], hget i hi hm, hin i hm, hmember i hi hm⟩
  refine ⟨⟨List.pairwise_map.2 hapart, ?_, ?_, ?_, ?_⟩, ?_, ?_⟩
  · intro s hs
    obtain ⟨i, hg, hm, hsi⟩ := hpart s hs
    exact ⟨groups[i].stretch, List.mem_map_of_mem (List.getElem_mem hg), (hget i hg hm).holds s hsi⟩
  · rintro r hr
    obtain ⟨g, hg, rfl⟩ := List.mem_map.1 hr
    obtain ⟨members, hc, hP', -⟩ := hwith g hg
    obtain ⟨s, hs, hstart⟩ := hc.starts
    exact ⟨s, hP' s hs, hc.holds s hs, hstart⟩
  · rintro r hr
    obtain ⟨g, hg, rfl⟩ := List.mem_map.1 hr
    obtain ⟨members, hc, hP', -⟩ := hwith g hg
    obtain ⟨s, hs, hstop⟩ := hc.stops
    exact ⟨s, hP' s hs, hc.holds s hs, hstop⟩
  · rintro r hr s s' hs hs' hholds hholds'
    obtain ⟨g, hg, rfl⟩ := List.mem_map.1 hr
    obtain ⟨members, hc, hP', hall⟩ := hwith g hg
    exact (hc.linked s (hall s hs hholds) s' (hall s' hs' hholds')).mono hP'
  · intro g hg
    obtain ⟨members, hc, hP', -⟩ := hwith g hg
    obtain ⟨s, hs, htag⟩ := hc.first
    exact ⟨s, hP' s hs, hc.holds s hs, htag⟩
  · intro g hg
    obtain ⟨members, hc, hP', hall⟩ := hwith g hg
    rw [hc.single]
    exact ⟨fun h s hs hholds => h s (hall s hs hholds), fun h s hs => h s (hP' s hs) (hc.holds s hs)⟩

end Sweep

/-! ## Splicing -/

section Splice

variable {α : Type v}

/-- The sequence from `lastEnd` on with every range replaced by the text beside it. -/
def spliceFrom (body : List α) (lastEnd : Nat) : List (Stretch × List α) → List α
  | [] => body.drop lastEnd
  | (r, text) :: ranges => (body.take r.start).drop lastEnd ++ text ++ spliceFrom body r.stop ranges

def splice (body : List α) (ranges : List (Stretch × List α)) : List α := spliceFrom body 0 ranges

/-- What the result has: what stands outside all ranges, and the texts beside them. -/
theorem mem_spliceFrom {body : List α} {lastEnd : Nat} {ranges : List (Stretch × List α)}
    (hapart : ranges.Pairwise fun r r' => r.1.stop ≤ r'.1.start)
    (hproper : ∀ r ∈ ranges, r.1.start ≤ r.1.stop) (hlast : ∀ r ∈ ranges, lastEnd ≤ r.1.start) {a : α} :
    a ∈ spliceFrom body lastEnd ranges ↔
      (∃ k, lastEnd ≤ k ∧ body[k]? = some a ∧ ∀ r ∈ ranges, ¬(r.1.start ≤ k ∧ k < r.1.stop)) ∨
        ∃ r ∈ ranges, a ∈ r.2 := by
  induction ranges generalizing lastEnd with
  | nil =>
    rw [spliceFrom, List.mem_iff_getElem?]
    simp only [List.getElem?_drop, List.not_mem_nil, false_imp_iff, implies_true, and_true, false_and,
      exists_false, or_false]
    constructor
    · rintro ⟨i, hi⟩
      exact ⟨lastEnd + i, Nat.le_add_right .., hi⟩
    · rintro ⟨k, hk, hget⟩
      exact ⟨k - lastEnd, by rwa [Nat.add_sub_cancel' hk]⟩
  | cons r ranges ih =>
    obtain ⟨hfirst, hapart⟩ := List.pairwise_cons.1 hapart
    obtain ⟨hr, hproper⟩ := List.forall_mem_cons.1 hproper
    obtain ⟨hrlast, hlast⟩ := List.forall_mem_cons.1 hlast
    have hbefore : a ∈ (body.take r.1.start).drop lastEnd ↔
        ∃ k, lastEnd ≤ k ∧ k < r.1.start ∧ body[k]? = some a := by
      rw [List.mem_iff_getElem?]
      simp only [List.getElem?_drop, List.getElem?_take, Option.ite_none_right_eq_some]
      constructor
      · rintro ⟨i, hi, hget⟩
        exact ⟨lastEnd + i, Nat.le_add_right .., hi, hget⟩
      · rintro ⟨k, hk, hlt, hget⟩
        exact ⟨k - lastEnd, by omega, by rwa [Nat.add_sub_cancel' hk]⟩
    rw [spliceFrom, List.mem_append, List.mem_append, ih hapart hproper hfirst, hbefore]
    constructor
    · rintro ((⟨k, hk, hlt, hget⟩ | htext) | ⟨k, hk, hget, hout⟩ | ⟨r', hr', htext⟩)
      · refine .inl ⟨k, hk, hget, List.forall_mem_cons.2 ⟨by omega, fun r' hr' hin => ?_⟩⟩
        have := hfirst r' hr'
        omega
      · exact .inr ⟨r, List.mem_cons_self, htext⟩
      · exact .inl ⟨k, hrlast.trans (hr.trans hk), hget, List.forall_mem_cons.2 ⟨by omega, hout⟩⟩
      · exact .inr ⟨r', List.mem_cons_of_mem _ hr', htext⟩
    · rintro (⟨k, hk, hget, hout⟩ | ⟨r', hr', htext⟩)
      · obtain ⟨hrk, hout⟩ := List.forall_mem_cons.1 hout
        obtain hlt | hge := Nat.lt_or_ge k r.1.start
        · exact .inl (.inl ⟨k, hk, hlt, hget⟩)
        · exact .inr (.inl ⟨k, by omega, hget, hout⟩)
      · obtain rfl | hr' := List.mem_cons.1 hr'
        · exact .inl (.inr htext)
        · exact .inr (.inr ⟨r', hr', htext⟩)

theorem map_spliceFrom {β : Type w} (f : α → β) (body : List α) (n : Nat)
    (ranges : List (Stretch × List α)) : (spliceFrom body n ranges).map f =
      spliceFrom (body.map f) n (ranges.map fun r => (r.1, r.2.map f)) := by
  induction ranges generalizing n with
  | nil => exact List.map_drop
  | cons r ranges ih =>
    rw [List.map_cons, spliceFrom, spliceFrom, List.map_append, List.map_append, ih, List.map_drop,
      List.map_take]

theorem spliceFrom_append (a b : List α) (n : Nat) (ranges : List (Stretch × List α)) :
    spliceFrom (a ++ b) (a.length + n) (ranges.map fun r => (r.1.shift a.length, r.2)) =
      spliceFrom b n ranges := by
  induction ranges generalizing n with
  | nil => exact List.drop_length_add_append ..
  | cons r ranges ih =>
    rw [List.map_cons, spliceFrom, spliceFrom, Stretch.shift, List.take_length_add_append,
      List.drop_length_add_append, ih]

/-- A splice whose ranges lie on both sides of a position is the splices of both sides. -/
theorem splice_append {a : List α} {left : List (Stretch × List α)} (b : List α)
    (right : List (Stretch × List α)) (hstop : ∀ r ∈ left, r.1.stop ≤ a.length)
    (hproper : ∀ r ∈ left, r.1.start ≤ r.1.stop) :
    splice (a ++ b) (left ++ right.map fun r => (r.1.shift a.length, r.2)) =
      splice a left ++ splice b right := by
  have hfrom : ∀ n ≤ a.length,
      spliceFrom (a ++ b) n (left ++ right.map fun r => (r.1.shift a.length, r.2)) =
        spliceFrom a n left ++ splice b right := by
    induction left with
    | nil =>
      intro n hn
      cases right with
      | nil => exact List.drop_append_of_le_length hn
      | cons r right =>
        have hrest := spliceFrom_append a b r.1.stop right
        simp only [List.nil_append, List.map_cons, spliceFrom, splice, Stretch.shift,
          List.take_length_add_append, List.drop_append_of_le_length hn, List.append_assoc,
          List.drop_zero] at hrest ⊢
        rw [hrest]
    | cons r left ih =>
      intro n hn
      obtain ⟨hrstop, hstop⟩ := List.forall_mem_cons.1 hstop
      obtain ⟨hrproper, hproper⟩ := List.forall_mem_cons.1 hproper
      rw [List.cons_append, spliceFrom, spliceFrom, ih hstop hproper _ hrstop,
        List.take_append_of_le_length (hrproper.trans hrstop), List.append_assoc, List.append_assoc,
        List.append_assoc]
  exact hfrom 0 (Nat.zero_le _)

end Splice
