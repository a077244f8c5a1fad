-- SUMMARY: Cuts of a text that no occurrence of a literal straddles, found by moving a cut to a fixpoint.
import FlyCockpit.Redact.Scrub

/-!
# Cuts that split no literal

A cut is moved past every occurrence that straddles it until none does. Each round looks at a
window around the cut that is wide enough for the longest literal, and goes through the
occurrences of every literal in it. The window and the search positions are rounded to character
boundaries; no literal starts on a continuation byte, so nothing is skipped.
-/

namespace FlyCockpit.Redact

open List

open Utf8 (ceilCharBoundary floorCharBoundary isCharBoundary)

/-- The first position at which the needle occurs. -/
def find (needle : Bytes) : Bytes → Option Nat
  | [] => if needle = [] then some 0 else none
  | b :: haystack =>
    if needle.isPrefixOf (b :: haystack) then some 0 else (find needle haystack).map (· + 1)

/-- Which way a cut is moved. -/
inductive Direction where
  | forward
  | backward
  deriving DecidableEq

/-- A straddling occurrence moves the cut to its end, or to its start. -/
def Direction.move (moved s e : Nat) : Direction → Nat
  | .forward => max moved e
  | .backward => min moved s

/-- The occurrences of a literal in a window from `i` on: those that straddle the cut move it. -/
def scanEntry (direction : Direction) (window value : Bytes) (lo cut : Nat) : Nat → Nat → Nat → Nat
  | 0, _, moved => moved
  | fuel + 1, i, moved =>
    match find value (window.drop i) with
    | none => moved
    | some rel =>
      let startInWindow := i + rel
      let s := lo + startInWindow
      let e := s + value.length
      let moved := if s < cut ∧ e > cut then direction.move moved s e else moved
      let i := ceilCharBoundary window (startInWindow + 1)
      if i ≥ window.length then moved else scanEntry direction window value lo cut fuel i moved

/-- One literal of a round. -/
def scanStep (direction : Direction) (window : Bytes) (lo cut moved : Nat) (e : RedactionEntry) : Nat :=
  if e.value = [] then moved
  else scanEntry direction window e.value lo cut (window.length + 1) 0 moved

namespace RedactionTable

def maxMatchLen (t : RedactionTable) : Nat := (t.entries.map fun e => e.value.length).foldr max 0

/-- Where the occurrences around a cut move it. -/
def scanWindow (t : RedactionTable) (direction : Direction) (body : Bytes) (cut : Nat) : Nat :=
  let lo := floorCharBoundary body (cut - (t.maxMatchLen - 1))
  let hi := ceilCharBoundary body (min (cut + t.maxMatchLen - 1) body.length)
  let window := (body.take hi).drop lo
  t.entries.foldl (scanStep direction window lo cut) cut

def advanceCut (t : RedactionTable) (body : Bytes) : Nat → Nat → Nat
  | 0, cut => cut
  | fuel + 1, cut =>
    let advanced := t.scanWindow .forward body cut
    if advanced ≤ cut then cut
    else if advanced ≥ body.length then advanced
    else advanceCut t body fuel advanced

def straddleFixpointCut (t : RedactionTable) (body : Bytes) (start : Nat) : Nat :=
  let cut := ceilCharBoundary body start
  if t.maxMatchLen ≤ 1 ∨ t.entries = [] then cut else t.advanceCut body (body.length + 1) cut

def retreatCut (t : RedactionTable) (body : Bytes) : Nat → Nat → Nat
  | 0, cut => cut
  | fuel + 1, cut =>
    let retreated := t.scanWindow .backward body cut
    if retreated ≥ cut then cut
    else if retreated = 0 then 0
    else retreatCut t body fuel retreated

def straddleFixpointCutBack (t : RedactionTable) (body : Bytes) (start : Nat) : Nat :=
  let cut := floorCharBoundary body (min start body.length)
  if t.maxMatchLen ≤ 1 ∨ t.entries = [] then cut else t.retreatCut body (body.length + 1) cut

/-- An occurrence of a literal has the cut strictly inside. -/
def Straddled (t : RedactionTable) (body : Bytes) (cut : Nat) : Prop :=
  ∃ e ∈ t.entries, ∃ s, e.value <+: body.drop s ∧ s < cut ∧ cut < s + e.value.length

end RedactionTable

/-! ## Searching -/

variable {needle haystack : Bytes}

theorem find_eq_none (h : find needle haystack = none) (i : Nat) : ¬needle <+: haystack.drop i := by
  induction haystack generalizing i with
  | nil =>
    intro hstarts
    rw [drop_nil, prefix_nil] at hstarts
    rw [find, if_pos hstarts] at h
    cases h
  | cons b haystack ih =>
    rw [find] at h
    split_ifs at h with hnot
    rw [List.isPrefixOf_iff_prefix] at hnot
    cases i with
    | zero => exact hnot
    | succ i => exact ih (Option.map_eq_none_iff.1 h) i

theorem find_eq_some {n : Nat} (h : find needle haystack = some n) :
    ∀ i, needle <+: haystack.drop i → n ≤ i := by
  induction haystack generalizing n with
  | nil =>
    rw [find] at h
    split at h <;> cases h
    exact fun i _ => Nat.zero_le i
  | cons b haystack ih =>
    rw [find] at h
    split at h
    next =>
      cases h
      exact fun i _ => Nat.zero_le i
    next hnot =>
      rw [List.isPrefixOf_iff_prefix] at hnot
      obtain ⟨m, hm, rfl⟩ := Option.map_eq_some_iff.1 h
      intro i hi
      cases i with
      | zero => exact absurd hi hnot
      | succ i => exact Nat.succ_le_succ (ih hm i hi)

/-- A literal starts at a character boundary. -/
theorem isCharBoundary_of_occurs {value body : Bytes} (hvalid : Utf8.Valid value) (hne : value ≠ [])
    {i : Nat} (h : value <+: body.drop i) : isCharBoundary body i = true := by
  obtain ⟨b, rest, rfl⟩ := exists_cons_of_ne_nil hne
  obtain ⟨r, hr⟩ := h
  have hget : body[i]? = some b := by
    have hzero := congrArg (·[0]?) hr
    simpa using hzero.symm
  exact Utf8.isCharBoundary_of_getElem? hget hvalid.head_not_continuation

/-- The moved cut lies at least as far. -/
def Direction.Beyond (a b : Nat) : Direction → Prop
  | .forward => b ≤ a
  | .backward => a ≤ b

/-- The end of an occurrence the cut is moved to. -/
def Direction.target (s e : Nat) : Direction → Nat
  | .forward => e
  | .backward => s

namespace Direction

variable {direction : Direction}

theorem Beyond.refl (a : Nat) : direction.Beyond a a := by
  cases direction <;> exact Nat.le_refl a

theorem Beyond.trans {a b c : Nat} (h : direction.Beyond a b) (h' : direction.Beyond b c) :
    direction.Beyond a c := by
  cases direction
  · exact Nat.le_trans h' h
  · exact Nat.le_trans h h'

theorem move_beyond (moved s e : Nat) : direction.Beyond (direction.move moved s e) moved ∧
      direction.Beyond (direction.move moved s e) (direction.target s e) := by
  cases direction
  · exact ⟨Nat.le_max_left .., Nat.le_max_right ..⟩
  · exact ⟨Nat.min_le_left .., Nat.min_le_right ..⟩

end Direction

section Scan

variable {window value : Bytes} {lo cut : Nat}

/-- A scan never moves the cut back the other way. -/
theorem scanEntry_beyond (direction : Direction) (window value : Bytes) (lo cut fuel i moved : Nat) :
    direction.Beyond (scanEntry direction window value lo cut fuel i moved) moved := by
  induction fuel generalizing i moved with
  | zero => exact .refl moved
  | succ fuel ih =>
    rw [scanEntry]
    cases find value (window.drop i) with
    | none => exact .refl moved
    | some rel =>
      dsimp only
      have hstep : direction.Beyond
          (if lo + (i + rel) < cut ∧ lo + (i + rel) + value.length > cut then
            direction.move moved (lo + (i + rel)) (lo + (i + rel) + value.length) else moved) moved := by
        split
        · exact (Direction.move_beyond ..).1
        · exact .refl moved
      split
      · exact hstep
      · exact (ih ..).trans hstep

/-- A scan moves the cut beyond every straddling occurrence of the literal. -/
theorem scanEntry_straddling (direction : Direction) (hvalid : Utf8.Valid value) (hne : value ≠ [])
    {fuel i : Nat} (moved : Nat) (hfuel : window.length < fuel + i) {p : Nat} (hp : i ≤ p) (hocc : value <+: window.drop p)
    (hs : lo + p < cut) (he : cut < lo + p + value.length) :
    direction.Beyond (scanEntry direction window value lo cut fuel i moved)
      (direction.target (lo + p) (lo + p + value.length)) := by
  have hplt : p < window.length := by
    have hle := hocc.length_le
    have hpos := length_pos_iff.2 hne
    rw [length_drop] at hle
    omega
  induction fuel generalizing i moved with
  | zero => omega
  | succ fuel ih =>
    have hshift : value <+: (window.drop i).drop (p - i) := by
      rwa [drop_drop, Nat.add_sub_cancel' hp]
    rw [scanEntry]
    cases hfind : find value (window.drop i) with
    | none => exact absurd hshift (find_eq_none hfind _)
    | some rel =>
      have hle := find_eq_some hfind _ hshift
      dsimp only
      rcases Nat.eq_or_lt_of_le (show i + rel ≤ p by omega) with heq | hlt
      · -- The occurrence itself.
        rw [heq, if_pos (show lo + p < cut ∧ lo + p + value.length > cut from ⟨hs, he⟩)]
        split
        · exact (Direction.move_beyond ..).2
        · exact (scanEntry_beyond ..).trans (Direction.move_beyond ..).2
      · -- A later one, which the rounding of the next position does not skip.
        have hnext : ceilCharBoundary window (i + rel + 1) ≤ p := by
          by_contra hskip
          have hnot := Utf8.not_boundary_of_lt_ceil hlt (Nat.not_le.1 hskip)
          rw [isCharBoundary_of_occurs hvalid hne hocc] at hnot
          cases hnot
        have hfrom : i + rel + 1 ≤ ceilCharBoundary window (i + rel + 1) :=
          Utf8.le_ceilCharBoundary (by omega)
        rw [if_neg (by omega)]
        exact ih _ (by omega) hnext

end Scan

namespace RedactionTable

variable {t : RedactionTable} {body : Bytes} {cut : Nat} {e : RedactionEntry} {s : Nat}

theorem length_le_maxMatchLen (h : e ∈ t.entries) : e.value.length ≤ t.maxMatchLen := by
  rw [maxMatchLen]
  revert h
  induction t.entries with
  | nil => exact fun h => absurd h not_mem_nil
  | cons a l ih =>
    intro h
    rw [map_cons, foldr_cons]
    rcases mem_cons.1 h with rfl | h
    · exact Nat.le_max_left ..
    · exact (ih h).trans (Nat.le_max_right ..)

/-- A straddling occurrence lies in the window around the cut. -/
theorem prefix_window (he : e ∈ t.entries) {lo hi : Nat}
    (hlo : lo = floorCharBoundary body (cut - (t.maxMatchLen - 1)))
    (hhi : hi = ceilCharBoundary body (min (cut + t.maxMatchLen - 1) body.length))
    (hocc : e.value <+: body.drop s) (hs : s < cut) (hcut : cut < s + e.value.length) :
    lo ≤ s ∧ e.value <+: ((body.take hi).drop lo).drop (s - lo) := by
  have hmax := length_le_maxMatchLen he
  have hend : s + e.value.length ≤ body.length := by
    have hle := hocc.length_le
    rw [length_drop] at hle
    omega
  have hlo' : lo ≤ s := by
    have hfloor := Utf8.floorCharBoundary_le body (cut - (t.maxMatchLen - 1))
    omega
  have hhi' : s + e.value.length ≤ hi := by
    have hceil := Utf8.le_ceilCharBoundary (Nat.min_le_right (cut + t.maxMatchLen - 1) body.length)
    omega
  refine ⟨hlo', ?_⟩
  rw [drop_drop, Nat.add_sub_cancel' hlo', drop_take]
  exact prefix_take_iff.2 ⟨hocc, by omega⟩

theorem scanStep_beyond (direction : Direction) (window : Bytes) (lo cut moved : Nat) (e : RedactionEntry) :
    direction.Beyond (scanStep direction window lo cut moved e) moved := by
  unfold scanStep
  split
  · exact .refl moved
  · exact scanEntry_beyond ..

theorem foldl_scanStep_beyond (direction : Direction) (window : Bytes) (lo cut moved : Nat)
    (entries : List RedactionEntry) :
    direction.Beyond (entries.foldl (scanStep direction window lo cut) moved) moved := by
  induction entries generalizing moved with
  | nil => exact .refl moved
  | cons e entries ih => exact (ih _).trans (scanStep_beyond ..)

/-- A whole round: every occurrence that straddles the cut moves it. -/
theorem scanWindow_straddling (direction : Direction) (he : e ∈ t.entries)
    (hocc : e.value <+: body.drop s) (hs : s < cut) (hcut : cut < s + e.value.length) :
    direction.Beyond (t.scanWindow direction body cut)
      (direction.target s (s + e.value.length)) := by
  obtain ⟨hlo, hwindow⟩ := prefix_window he rfl rfl hocc hs hcut
  have hstart := Nat.add_sub_cancel' hlo
  have hscan : ∀ moved, direction.Beyond
      (scanStep direction ((body.take (ceilCharBoundary body (min (cut + t.maxMatchLen - 1) body.length))).drop
          (floorCharBoundary body (cut - (t.maxMatchLen - 1))))
        (floorCharBoundary body (cut - (t.maxMatchLen - 1))) cut moved e)
      (direction.target s (s + e.value.length)) := by
    intro moved
    have hstraddling := scanEntry_straddling direction e.valid (t.value_ne_nil he) moved
      (Nat.lt_succ_self _) (Nat.zero_le _) hwindow (by rwa [hstart]) (by rwa [hstart])
    rw [hstart] at hstraddling
    rw [scanStep, if_neg (t.value_ne_nil he)]
    exact hstraddling
  obtain ⟨before, after, hsplit⟩ := append_of_mem he
  change direction.Beyond (t.entries.foldl (scanStep direction _ _ cut) cut) _
  rw [hsplit, foldl_append, foldl_cons]
  exact (foldl_scanStep_beyond ..).trans (hscan _)

/-- A cut that a forward round does not move, or moves to the end, is straddled by nothing. -/
theorem not_straddled_of_forward (h : t.scanWindow .forward body cut ≤ cut) : ¬t.Straddled body cut := by
  rintro ⟨e, he, s, hocc, hs, hcut⟩
  have hbeyond : s + e.value.length ≤ t.scanWindow .forward body cut :=
    scanWindow_straddling .forward he hocc hs hcut
  omega

theorem not_straddled_of_backward (h : t.scanWindow .backward body cut ≥ cut) :
    ¬t.Straddled body cut := by
  rintro ⟨e, he, s, hocc, hs, hcut⟩
  have hbeyond : t.scanWindow .backward body cut ≤ s :=
    scanWindow_straddling .backward he hocc hs hcut
  omega

theorem not_straddled_of_length_le (h : body.length ≤ cut) : ¬t.Straddled body cut := by
  rintro ⟨e, -, s, hocc, hs, hcut⟩
  have hle := hocc.length_le
  rw [length_drop] at hle
  omega

theorem not_straddled_zero : ¬t.Straddled body 0 := by
  rintro ⟨e, -, s, -, hs, -⟩
  exact absurd hs (Nat.not_lt_zero s)

/-- The rounds end, and the cut they end with is straddled by nothing. -/
theorem advanceCut_spec (t : RedactionTable) (body : Bytes) (fuel cut : Nat) (hfuel : body.length < fuel + cut) :
    cut ≤ t.advanceCut body fuel cut ∧ ¬t.Straddled body (t.advanceCut body fuel cut) := by
  induction fuel generalizing cut with
  | zero => exact ⟨Nat.le_refl cut, not_straddled_of_length_le (by rw [advanceCut]; omega)⟩
  | succ fuel ih =>
    rw [advanceCut]
    split_ifs with hle hend
    · exact ⟨Nat.le_refl cut, not_straddled_of_forward hle⟩
    · exact ⟨Nat.le_of_not_le hle, not_straddled_of_length_le hend⟩
    · obtain ⟨hnext, hnot⟩ := ih (t.scanWindow .forward body cut) (by omega)
      exact ⟨by omega, hnot⟩

theorem retreatCut_spec (t : RedactionTable) (body : Bytes) (fuel cut : Nat) (hfuel : cut < fuel) :
    t.retreatCut body fuel cut ≤ cut ∧ ¬t.Straddled body (t.retreatCut body fuel cut) := by
  induction fuel generalizing cut with
  | zero => omega
  | succ fuel ih =>
    rw [retreatCut]
    split_ifs with hge
    · exact ⟨Nat.le_refl cut, not_straddled_of_backward hge⟩
    · exact ⟨Nat.zero_le cut, not_straddled_zero⟩
    · obtain ⟨hle, hnot⟩ := ih (t.scanWindow .backward body cut) (by omega)
      exact ⟨by omega, hnot⟩

theorem not_straddled_of_maxMatchLen (h : t.maxMatchLen ≤ 1 ∨ t.entries = []) : ¬t.Straddled body cut := by
  rintro ⟨e, he, s, -, hs, hcut⟩
  rcases h with h | h
  · have := length_le_maxMatchLen he
    omega
  · rw [h] at he
    cases he

/-- The forward cut lies at the start or behind it and is straddled by nothing. -/
theorem straddleFixpointCut_spec (t : RedactionTable) (body : Bytes) {start : Nat}
    (hstart : start ≤ body.length) :
    start ≤ t.straddleFixpointCut body start ∧ ¬t.Straddled body (t.straddleFixpointCut body start) := by
  have hceil := Utf8.le_ceilCharBoundary hstart
  rw [straddleFixpointCut]
  split_ifs with h
  · exact ⟨hceil, not_straddled_of_maxMatchLen h⟩
  · obtain ⟨hle, hnot⟩ := advanceCut_spec t body (body.length + 1)
      (ceilCharBoundary body start) (by omega)
    exact ⟨hceil.trans hle, hnot⟩

theorem straddleFixpointCutBack_spec (t : RedactionTable) (body : Bytes) (start : Nat) :
    t.straddleFixpointCutBack body start ≤ start ∧
      ¬t.Straddled body (t.straddleFixpointCutBack body start) := by
  have hfloor := Utf8.floorCharBoundary_le body (min start body.length)
  rw [straddleFixpointCutBack]
  split_ifs with h
  · exact ⟨by omega, not_straddled_of_maxMatchLen h⟩
  · obtain ⟨hle, hnot⟩ := retreatCut_spec t body (body.length + 1)
      (floorCharBoundary body (min start body.length)) (by omega)
    exact ⟨by omega, hnot⟩

end RedactionTable

end FlyCockpit.Redact
