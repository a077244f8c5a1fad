-- SUMMARY: Truncation that exposes no part of a literal, of tool output and of a child's stream.
import FlyCockpit.Redact.Straddle
import Mathlib.Data.Nat.Digits.Defs

/-!
# Truncation

Where a text is cut, an occurrence that straddles the cut would leave a part that scrubbing does
not recognise. Such a part is shorter than the longest literal, so that much is dropped at the edge,
and the cut made inside is moved until nothing straddles it.
-/

namespace FlyCockpit.Redact

open List

open Utf8 (ceilCharBoundary floorCharBoundary)

namespace RedactionTable

def dropFrontMargin (t : RedactionTable) (seg : Bytes) : Bytes :=
  let maxMatch := t.maxMatchLen
  if maxMatch ≤ 1 then seg
  else
    let margin := maxMatch - 1
    if margin ≥ seg.length then []
    else
      let cut := t.straddleFixpointCut seg margin
      if cut ≥ seg.length then [] else seg.drop cut

def dropBackMargin (t : RedactionTable) (seg : Bytes) : Bytes :=
  let maxMatch := t.maxMatchLen
  if maxMatch ≤ 1 then seg
  else
    let margin := maxMatch - 1
    if margin ≥ seg.length then []
    else
      let start := seg.length - margin
      let cut := t.straddleFixpointCutBack seg start
      if cut = 0 then [] else seg.take cut

/-- What is written between the head and the tail. -/
def truncationGap (safeHead : Bytes) (elided : Nat) : Bytes :=
  (if safeHead.getLast? = some (UInt8.ofNat '\n'.toNat) then [] else Bytes.ascii "\n") ++
    Bytes.ascii "... [truncated " ++ decimal elided ++ Bytes.ascii " bytes] ...\n"

def truncateHeadTailRedacted (t : RedactionTable) (s : Bytes) (cap : Nat) : Bytes :=
  if s.length ≤ cap then s
  else
    let markerReserve := 48
    let budget := cap - markerReserve
    let headBudget := budget * 3 / 5
    let tailBudget := budget - headBudget
    let headEnd := floorCharBoundary s headBudget
    let tailStart := ceilCharBoundary s (s.length - tailBudget)
    let safeHead := t.dropBackMargin (s.take headEnd)
    let safeTail := t.dropFrontMargin (s.drop tailStart)
    let elided := s.length - safeHead.length - safeTail.length
    safeHead ++ truncationGap safeHead elided ++ safeTail

inductive FrontMargin where
  | whole
  | cutAt (cut : Nat)
  | withhold
  deriving DecidableEq

def frontMargin (scrub : RedactionTable) (body : Bytes) (dropped : Nat) : FrontMargin :=
  if dropped = 0 then .whole
  else
    let maxMatch := scrub.maxMatchLen
    if maxMatch ≤ 1 then .whole
    else
      let margin := maxMatch - 1
      if margin ≥ body.length then .withhold
      else
        let cut := scrub.straddleFixpointCut body margin
        if cut ≥ body.length then .withhold else .cutAt cut

def truncationMarginElidedMarker : Bytes :=
  Utf8.encode "[… output truncated; leading bytes elided …]\n"

def scrubFrontTruncated (scrub : RedactionTable) (current : CoverageTableBinding → Bool) (body : Bytes)
    (dropped : Nat) : Bytes :=
  match scrub.frontMargin body dropped with
  | .whole => scrub.scrub current body
  | .cutAt cut => scrub.scrub current (truncationMarginElidedMarker ++ body.drop cut)
  | .withhold => scrub.scrub current truncationMarginElidedMarker

/-! ## Margins -/

variable {t : RedactionTable} {cut n cap : Nat} {s : Bytes}

/-- Behind a margin, an occurrence that straddles the cut lies in the text that is left. -/
theorem not_straddled_append {omitted seg : Bytes} (hmargin : t.maxMatchLen ≤ cut + 1)
    (h : ¬t.Straddled seg cut) : ¬t.Straddled (omitted ++ seg) (omitted.length + cut) := by
  rintro ⟨e, he, s, hocc, hs, hcut⟩
  have hmax := length_le_maxMatchLen he
  refine h ⟨e, he, s - omitted.length, ?_, by omega, by omega⟩
  rwa [drop_append, drop_of_length_le (by omega), nil_append] at hocc

theorem not_straddled_take (hmargin : cut + t.maxMatchLen ≤ n + 1) (h : ¬t.Straddled (s.take n) cut) : ¬t.Straddled s cut := by
  rintro ⟨e, he, i, hocc, hi, hcut⟩
  have hmax := length_le_maxMatchLen he
  refine h ⟨e, he, i, ?_, hi, hcut⟩
  rw [drop_take]
  exact prefix_take_iff.2 ⟨hocc, by omega⟩

/-- What is left of the end of a text starts where no occurrence in the whole text is cut. -/
theorem dropFrontMargin_spec (t : RedactionTable) (omitted seg : Bytes) :
    ∃ cut ≤ seg.length, t.dropFrontMargin seg = seg.drop cut ∧
      ¬t.Straddled (omitted ++ seg) (omitted.length + cut) := by
  have hwithheld : ¬t.Straddled (omitted ++ seg) (omitted.length + seg.length) :=
    not_straddled_of_length_le (by rw [length_append])
  unfold dropFrontMargin
  dsimp only
  split_ifs with hshort hmargin hlt
  · exact ⟨0, Nat.zero_le _, rfl, not_straddled_of_maxMatchLen (.inl hshort)⟩
  · exact ⟨seg.length, Nat.le_refl _, by rw [drop_length], hwithheld⟩
  · exact ⟨seg.length, Nat.le_refl _, by rw [drop_length], hwithheld⟩
  · obtain ⟨hle, hnot⟩ := straddleFixpointCut_spec t seg (show t.maxMatchLen - 1 ≤ seg.length by omega)
    exact ⟨_, Nat.le_of_not_le hlt, rfl, not_straddled_append (by omega) hnot⟩

/-- What is left of the start of a text ends where no occurrence in the whole text is cut. -/
theorem dropBackMargin_spec (t : RedactionTable) (h : n ≤ s.length) :
    ∃ cut ≤ n, t.dropBackMargin (s.take n) = s.take cut ∧ ¬t.Straddled s cut := by
  have hlength : (s.take n).length = n := length_take_of_le h
  unfold dropBackMargin
  dsimp only
  rw [hlength]
  split_ifs with hshort
  · exact ⟨n, Nat.le_refl n, rfl, not_straddled_of_maxMatchLen (.inl hshort)⟩
  · exact ⟨0, Nat.zero_le n, rfl, not_straddled_zero⟩
  · exact ⟨0, Nat.zero_le n, rfl, not_straddled_zero⟩
  · obtain ⟨hle, hnot⟩ := straddleFixpointCutBack_spec t (s.take n) (n - (t.maxMatchLen - 1))
    refine ⟨_, hle.trans (Nat.sub_le ..), ?_, not_straddled_take (by omega) hnot⟩
    rw [take_take, Nat.min_eq_left (hle.trans (Nat.sub_le ..))]

/-! ## Results -/

/-- Every occurrence lies wholly in the first `a` bytes, wholly in those from `b` on, or wholly
    between. -/
def KeepsWhole (t : RedactionTable) (s : Bytes) (a b : Nat) : Prop :=
  ∀ e ∈ t.entries, ∀ i, e.value <+: s.drop i →
    i + e.value.length ≤ a ∨ b ≤ i ∨ (a ≤ i ∧ i + e.value.length ≤ b)

theorem keepsWhole_of_not_straddled {a b : Nat} (ha : ¬t.Straddled s a)
    (hb : ¬t.Straddled s b) : t.KeepsWhole s a b := by
  intro e he i hocc
  have ha' : ¬(i < a ∧ a < i + e.value.length) := fun h => ha ⟨e, he, i, hocc, h⟩
  have hb' : ¬(i < b ∧ b < i + e.value.length) := fun h => hb ⟨e, he, i, hocc, h⟩
  omega

theorem length_truncationGap_le (safeHead : Bytes) (elided : Nat) (h : elided < 2 ^ 64) :
    (truncationGap safeHead elided).length ≤ 48 := by
  have hdigits : (decimal elided).length ≤ 20 := by
    have hrepr := Nat.repr_length elided 20 (by decide) (h.trans (by decide))
    rw [decimal, Bytes.ascii, length_map]
    exact hrepr
  have hopen : (Bytes.ascii "... [truncated ").length = 15 := rfl
  have hclose : (Bytes.ascii " bytes] ...\n").length = 12 := rfl
  have hnewline : (if safeHead.getLast? = some (UInt8.ofNat '\n'.toNat) then []
      else Bytes.ascii "\n").length ≤ 1 := by split <;> decide
  simp only [truncationGap, length_append]
  omega

/-- The head and the tail that are kept of a text over the cap, and what they are cut at. -/
theorem truncateHeadTailRedacted_spec (t : RedactionTable) (h : cap < s.length) :
    ∃ a b, a + (s.length - b) ≤ cap - 48 ∧ a ≤ b ∧ b ≤ s.length ∧ t.truncateHeadTailRedacted s cap =
        s.take a ++ truncationGap (s.take a) (b - a) ++ s.drop b ∧
      ¬t.Straddled s a ∧ ¬t.Straddled s b := by
  have hhead := Utf8.floorCharBoundary_le s ((cap - 48) * 3 / 5)
  have hheadLength := Utf8.floorCharBoundary_le_length s ((cap - 48) * 3 / 5)
  have htail : s.length - (cap - 48 - (cap - 48) * 3 / 5) ≤
      ceilCharBoundary s (s.length - (cap - 48 - (cap - 48) * 3 / 5)) :=
    Utf8.le_ceilCharBoundary (Nat.sub_le ..)
  have htailLength := Utf8.ceilCharBoundary_le_length s (s.length - (cap - 48 - (cap - 48) * 3 / 5))
  rw [truncateHeadTailRedacted, if_neg (Nat.not_le.2 h)]
  dsimp only
  generalize floorCharBoundary s ((cap - 48) * 3 / 5) = headEnd at *
  generalize ceilCharBoundary s (s.length - (cap - 48 - (cap - 48) * 3 / 5)) = tailStart at *
  obtain ⟨a, ha, htake, hnotA⟩ := dropBackMargin_spec t hheadLength
  obtain ⟨b, hb, hdrop, hnotB⟩ := dropFrontMargin_spec t (s.take tailStart) (s.drop tailStart)
  rw [take_append_drop, length_take_of_le htailLength] at hnotB
  rw [length_drop] at hb
  have hlengthA : (s.take a).length = a := length_take_of_le (by omega)
  refine ⟨a, tailStart + b, by omega, by omega, by omega, ?_, hnotA, hnotB⟩
  rw [htake, hdrop, drop_drop, hlengthA, length_drop]
  congr 3
  omega

theorem length_truncateHeadTailRedacted_le (t : RedactionTable)
    (hs : s.length < 2 ^ 64) (hcap : 48 ≤ cap) : (t.truncateHeadTailRedacted s cap).length ≤ cap := by
  rcases Nat.lt_or_ge cap s.length with hlt | hge
  · obtain ⟨a, b, hbudget, hab, hb, heq, -, -⟩ := truncateHeadTailRedacted_spec t hlt
    have hgap := length_truncationGap_le (s.take a) (b - a) (by omega)
    rw [heq, length_append, length_append, length_drop, length_take]
    omega
  · rwa [truncateHeadTailRedacted, if_pos hge]

theorem scrubFrontTruncated_spec (t : RedactionTable) (current : CoverageTableBinding → Bool)
    (omitted body : Bytes) :
    ∃ cut gap, cut ≤ body.length ∧
      t.scrubFrontTruncated current body omitted.length = t.scrub current (gap ++ body.drop cut) ∧
      (gap = [] ∧ cut = 0 ∨ gap = truncationMarginElidedMarker) ∧
      ¬t.Straddled (omitted ++ body) (omitted.length + cut) := by
  have hwithheld : t.scrub current truncationMarginElidedMarker =
        t.scrub current (truncationMarginElidedMarker ++ body.drop body.length) ∧
      ¬t.Straddled (omitted ++ body) (omitted.length + body.length) :=
    ⟨by rw [drop_length, append_nil], not_straddled_of_length_le (by rw [length_append])⟩
  unfold scrubFrontTruncated frontMargin
  by_cases hzero : omitted.length = 0
  · refine ⟨0, [], Nat.zero_le _, by rw [if_pos hzero]; rfl, .inl ⟨rfl, rfl⟩, ?_⟩
    rw [hzero]
    exact not_straddled_zero
  rw [if_neg hzero]
  by_cases hshort : t.maxMatchLen ≤ 1
  · exact ⟨0, [], Nat.zero_le _, by simp only [if_pos hshort]; rfl, .inl ⟨rfl, rfl⟩,
      not_straddled_of_maxMatchLen (.inl hshort)⟩
  by_cases hmargin : t.maxMatchLen - 1 ≥ body.length
  · refine ⟨body.length, truncationMarginElidedMarker, Nat.le_refl _, ?_, .inr rfl, hwithheld.2⟩
    simp only [if_neg hshort, if_pos hmargin]
    exact hwithheld.1
  obtain ⟨hle, hnot⟩ := straddleFixpointCut_spec t body (show t.maxMatchLen - 1 ≤ body.length by omega)
  by_cases hcut : t.straddleFixpointCut body (t.maxMatchLen - 1) ≥ body.length
  · refine ⟨body.length, truncationMarginElidedMarker, Nat.le_refl _, ?_, .inr rfl, hwithheld.2⟩
    simp only [if_neg hshort, if_neg hmargin, if_pos hcut]
    exact hwithheld.1
  · refine ⟨t.straddleFixpointCut body (t.maxMatchLen - 1), truncationMarginElidedMarker, by omega, ?_,
      .inr rfl, not_straddled_append (by omega) hnot⟩
    simp only [if_neg hshort, if_neg hmargin, if_neg hcut]

/-- No truncation cuts an occurrence of a literal: each is kept whole or dropped whole. With a cap
    that has room for the marker, truncated output stays within it. -/
theorem truncation_exposes_no_part (t : RedactionTable) (current : CoverageTableBinding → Bool) :
    (∀ s cap, ∃ a b gap, a ≤ b ∧ b ≤ s.length ∧
      t.truncateHeadTailRedacted s cap = s.take a ++ gap ++ s.drop b ∧
      (gap = [] ∧ a = b ∨ gap = truncationGap (s.take a) (b - a)) ∧ t.KeepsWhole s a b) ∧
    (∀ s cap, s.length < 2 ^ 64 → 48 ≤ cap → (t.truncateHeadTailRedacted s cap).length ≤ cap) ∧
    ∀ omitted body, ∃ cut gap, cut ≤ body.length ∧
      t.scrubFrontTruncated current body omitted.length = t.scrub current (gap ++ body.drop cut) ∧
      (gap = [] ∧ cut = 0 ∨ gap = truncationMarginElidedMarker) ∧
      t.KeepsWhole (omitted ++ body) 0 (omitted.length + cut) := by
  refine ⟨fun s cap => ?_, fun s cap hs hcap => length_truncateHeadTailRedacted_le t hs hcap,
    fun omitted body => ?_⟩
  · rcases Nat.lt_or_ge cap s.length with hlt | hge
    · obtain ⟨a, b, -, hab, hb, heq, hnotA, hnotB⟩ := truncateHeadTailRedacted_spec t hlt
      exact ⟨a, b, _, hab, hb, heq, .inr rfl, keepsWhole_of_not_straddled hnotA hnotB⟩
    · have hend : ¬t.Straddled s s.length := not_straddled_of_length_le (Nat.le_refl _)
      refine ⟨s.length, s.length, [], Nat.le_refl _, Nat.le_refl _, ?_, .inl ⟨rfl, rfl⟩,
        keepsWhole_of_not_straddled hend hend⟩
      rw [truncateHeadTailRedacted, if_pos hge, List.take_length, List.drop_length]
      simp
  · obtain ⟨cut, gap, hcut, heq, hgap, hnot⟩ := scrubFrontTruncated_spec t current omitted body
    exact ⟨cut, gap, hcut, heq, hgap, keepsWhole_of_not_straddled not_straddled_zero hnot⟩

end RedactionTable

/-- A text with overlapping literals where the head would end. -/
def straddledText : Bytes := List.replicate 26 0x2E ++ Bytes.ascii "abcdefxyz" ++ List.replicate 100 0x2E

theorem overlappingTable_truncated :
    (overlappingTable.truncateHeadTailRedacted straddledText 64).length ≤ 64 :=
  (RedactionTable.truncation_exposes_no_part overlappingTable fun _ => true).2.1 _ 64
    (by decide +kernel) (by decide)

end FlyCockpit.Redact
