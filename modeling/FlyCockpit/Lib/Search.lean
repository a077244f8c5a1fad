-- SUMMARY: Occurrences of a pattern in a sequence whose elements have sizes, and their enumeration from the left.
import Mathlib.Data.List.Infix
import Mathlib.Algebra.Order.BigOperators.Group.List
import Mathlib.Algebra.Order.Ring.Nat

/-!
# Searching

The elements of a sequence have sizes, and a position is the size of what stands before it.
`matchIndices` enumerates occurrences of a pattern from the left, each search going on behind the
last match. `Tiles` says what this enumeration is: the chosen occurrences do not overlap, and every
occurrence begins inside a chosen one.
-/

universe u

/-! ## Tilings -/

/-- The chosen regions are occurrences that do not overlap, and every occurrence begins inside one
    of them. -/
structure Tiles {α : Type u} (start stop : α → Nat) (occ : α → Prop) (chosen : List α) : Prop where
  occurs : ∀ a ∈ chosen, occ a
  apart : chosen.Pairwise fun a b => stop a ≤ start b
  covers : ∀ b, occ b → ∃ a ∈ chosen, start a ≤ start b ∧ start b < stop a

namespace Tiles

variable {α : Type u} {start stop : α → Nat} {occ : α → Prop} {a : α} {l l' : List α}

/-- The first chosen occurrence is the first of all. -/
theorem head_le (h : Tiles start stop occ (a :: l)) (hle : start a ≤ stop a) {b : α} (hb : occ b) :
    start a ≤ start b := by
  obtain ⟨c, hc, hcb, -⟩ := h.covers b hb
  obtain rfl | hc := List.mem_cons.1 hc
  · exact hcb
  · have hapart := List.rel_of_pairwise_cons h.apart hc
    omega

/-- Two chosen occurrences stand one behind the other. -/
theorem apart_of_ne (h : Tiles start stop occ l) {b : α} (ha : a ∈ l) (hb : b ∈ l) (hne : a ≠ b) :
    stop a ≤ start b ∨ stop b ≤ start a := by
  obtain ⟨l₁, l₂, rfl⟩ := List.append_of_mem ha
  obtain ⟨-, hbehind, hbefore⟩ := List.pairwise_append.1 h.apart
  rcases List.mem_append.1 hb with hb | hb
  · exact .inr (hbefore b hb a List.mem_cons_self)
  · exact .inl (List.rel_of_pairwise_cons hbehind ((List.mem_cons.1 hb).resolve_left (Ne.symm hne)))

theorem tail (h : Tiles start stop occ (a :: l)) :
    Tiles start stop (fun b => occ b ∧ stop a ≤ start b) l := by
  obtain ⟨ha, hl⟩ := List.pairwise_cons.1 h.apart
  refine ⟨fun b hb => ⟨h.occurs b (List.mem_cons_of_mem a hb), ha b hb⟩, hl, ?_⟩
  rintro b ⟨hb, hle⟩
  obtain ⟨c, hc, hcb, hbc⟩ := h.covers b hb
  obtain rfl | hc := List.mem_cons.1 hc
  · omega
  · exact ⟨c, hc, hcb, hbc⟩

/-- There is only one tiling if no two occurrences begin at the same place. -/
theorem unique (h : Tiles start stop occ l) (h' : Tiles start stop occ l')
    (hle : ∀ a, occ a → start a ≤ stop a)
    (hinj : ∀ a b, occ a → occ b → start a = start b → a = b) : l = l' := by
  induction l generalizing occ l' with
  | nil =>
    cases l' with
    | nil => rfl
    | cons a l' =>
      obtain ⟨c, hc, -⟩ := h.covers a (h'.occurs a List.mem_cons_self)
      cases hc
  | cons a l ih =>
    cases l' with
    | nil =>
      obtain ⟨c, hc, -⟩ := h'.covers a (h.occurs a List.mem_cons_self)
      cases hc
    | cons a' l' =>
      have ha := h.occurs a List.mem_cons_self
      have ha' := h'.occurs a' List.mem_cons_self
      obtain rfl : a = a' := hinj a a' ha ha'
        (Nat.le_antisymm (h.head_le (hle a ha) ha') (h'.head_le (hle a' ha') ha))
      rw [ih h.tail h'.tail (fun b hb => hle b hb.1) fun b c hb hc => hinj b c hb.1 hc.1]

end Tiles

namespace Search

variable {α : Type u} (w : α → Nat)

/-! ## Sizes and cuts -/

def size (s : List α) : Nat := (s.map w).sum

@[simp] theorem size_nil : size w [] = 0 := rfl

@[simp] theorem size_cons (a : α) (s : List α) : size w (a :: s) = w a + size w s := by
  simp [size]

@[simp] theorem size_append (s t : List α) : size w (s ++ t) = size w s + size w t := by
  simp [size]

/-- The sequence cut at a position, if the position lies between two elements. -/
def splitAt : Nat → List α → Option (List α × List α)
  | 0, s => some ([], s)
  | _ + 1, [] => none
  | n + 1, a :: s =>
    if w a ≤ n + 1 then (splitAt (n + 1 - w a) s).map fun p => (a :: p.1, p.2) else none

/-- What stands between two positions. -/
def slice (s : List α) (start stop : Nat) : Option (List α) :=
  if start ≤ stop then
    (splitAt w start s).bind fun p => (splitAt w (stop - start) p.2).map (·.1)
  else none

/-- The pattern stands at the position. -/
def Occurs (pat s : List α) (pos : Nat) : Prop :=
  ∃ before after, s = before ++ (pat ++ after) ∧ pos = size w before

variable {w}

theorem splitAt_size (hw : ∀ a, 0 < w a) (l r : List α) : splitAt w (size w l) (l ++ r) = some (l, r) := by
  induction l with
  | nil =>
    rw [size_nil, List.nil_append]
    unfold splitAt
    rfl
  | cons a l ih =>
    obtain ⟨n, hn⟩ : ∃ n, size w (a :: l) = n + 1 := Nat.exists_eq_succ_of_ne_zero (by
      have := hw a
      rw [size_cons]
      omega)
    have hrest : n + 1 - w a = size w l := by
      rw [← hn, size_cons]
      omega
    rw [hn, List.cons_append, splitAt, if_pos (by rw [← hn, size_cons]; omega), hrest, ih]
    rfl

theorem slice_size (hw : ∀ a, 0 < w a) (l m r : List α) :
    slice w (l ++ (m ++ r)) (size w l) (size w l + size w m) = some m := by
  rw [slice, if_pos (Nat.le_add_right _ _), splitAt_size hw, Option.bind_some, Nat.add_sub_cancel_left,
    splitAt_size hw]
  rfl

/-- A part at least as large as the front contains the front. -/
theorem prefix_of_size_le (hw : ∀ a, 0 < w a) {l r l' r' : List α} (h : l ++ r = l' ++ r')
    (hsize : size w l ≤ size w l') : l <+: l' := by
  obtain hle | hlt := Nat.lt_or_ge l'.length l.length |>.symm
  · exact List.prefix_of_prefix_length_le (List.prefix_append l r) (h ▸ List.prefix_append l' r') hle
  · obtain ⟨m, rfl⟩ := List.prefix_of_prefix_length_le (List.prefix_append l' r')
      (h ▸ List.prefix_append l r) (Nat.le_of_lt hlt)
    cases m with
    | nil => simp
    | cons a m =>
      have := hw a
      rw [size_append, size_cons] at hsize
      omega

theorem splitAt_eq_some {n : Nat} {s : List α} {p : List α × List α} (h : splitAt w n s = some p) :
    s = p.1 ++ p.2 ∧ n = size w p.1 := by
  induction s generalizing n p with
  | nil =>
    cases n with
    | zero =>
      cases h
      exact ⟨rfl, rfl⟩
    | succ n => cases h
  | cons a s ih =>
    cases n with
    | zero =>
      cases h
      exact ⟨rfl, rfl⟩
    | succ n =>
      rw [splitAt] at h
      split_ifs at h with hle
      obtain ⟨q, hq, rfl⟩ := Option.map_eq_some_iff.1 h
      obtain ⟨hs, hn⟩ := ih hq
      refine ⟨congrArg (a :: ·) hs, ?_⟩
      rw [size_cons, ← hn]
      omega

/-- Between two cuts there is a part. -/
theorem exists_slice (hw : ∀ a, 0 < w a) {s : List α} {i j : Nat} (hi : (splitAt w i s).isSome = true)
    (hj : (splitAt w j s).isSome = true) (hij : i ≤ j) : ∃ m, slice w s i j = some m := by
  obtain ⟨p, hp⟩ := Option.isSome_iff_exists.1 hi
  obtain ⟨q, hq⟩ := Option.isSome_iff_exists.1 hj
  obtain ⟨hs, rfl⟩ := splitAt_eq_some hp
  obtain ⟨hs', rfl⟩ := splitAt_eq_some hq
  obtain ⟨m, hm⟩ := prefix_of_size_le hw (hs.symm.trans hs') hij
  rw [← hm, List.append_assoc] at hs'
  refine ⟨m, ?_⟩
  rw [hs', ← hm, size_append]
  exact slice_size hw p.1 m q.2

/-! ## Occurrences -/

variable {pat s : List α} {a : α} {pos : Nat}

theorem occurs_cons_iff : Occurs w pat (a :: s) pos ↔
    pat <+: a :: s ∧ pos = 0 ∨ ∃ pos', Occurs w pat s pos' ∧ pos = w a + pos' := by
  constructor
  · rintro ⟨before, after, hs, rfl⟩
    cases before with
    | nil => exact .inl ⟨⟨after, hs.symm⟩, rfl⟩
    | cons b before =>
      rw [List.cons_append] at hs
      obtain ⟨rfl, rfl⟩ := List.cons.inj hs
      exact .inr ⟨_, ⟨before, after, rfl, rfl⟩, size_cons w a before⟩
  · rintro (⟨⟨after, h⟩, rfl⟩ | ⟨_, ⟨before, after, rfl, rfl⟩, rfl⟩)
    · exact ⟨[], after, h.symm, rfl⟩
    · exact ⟨a :: before, after, rfl, (size_cons w a before).symm⟩

/-- Behind a first part. -/
theorem occurs_append_iff (hw : ∀ a, 0 < w a) {front : List α} (hpos : size w front ≤ pos) :
    Occurs w pat (front ++ s) pos ↔ Occurs w pat s (pos - size w front) := by
  constructor
  · rintro ⟨before, after, hs, rfl⟩
    obtain ⟨before', rfl⟩ := prefix_of_size_le hw hs hpos
    rw [List.append_assoc, List.append_cancel_left_eq] at hs
    exact ⟨before', after, hs, by rw [size_append]; omega⟩
  · rintro ⟨before, after, rfl, hsize⟩
    exact ⟨front ++ before, after, by rw [List.append_assoc], by rw [size_append]; omega⟩

theorem not_occurs_nil (hpat : pat ≠ []) : ¬Occurs w pat [] pos := by
  rintro ⟨before, after, hs, -⟩
  have hnil := List.append_eq_nil_iff.1 (List.append_eq_nil_iff.1 hs.symm).2
  exact hpat hnil.1

variable [DecidableEq α]

/-- The occurrences, searched from the left behind `skip` further elements; each search goes on
    behind the last match. -/
def matchesFrom (w : α → Nat) (pat : List α) : Nat → Nat → List α → List Nat
  | _, _, [] => []
  | skip + 1, pos, a :: s => matchesFrom w pat skip (pos + w a) s
  | 0, pos, a :: s =>
    if pat.isPrefixOf (a :: s) then pos :: matchesFrom w pat (pat.length - 1) (pos + w a) s
    else matchesFrom w pat 0 (pos + w a) s

/-- The positions of the matches of a pattern. -/
def matchIndices (w : α → Nat) (pat s : List α) : List Nat := matchesFrom w pat 0 0 s

/-- The first position of a pattern. -/
def find (w : α → Nat) (pat s : List α) : Option Nat := (matchIndices w pat s).head?

theorem matchesFrom_skip (skip pos : Nat) (s : List α) : matchesFrom w pat skip pos s =
    matchesFrom w pat 0 (pos + size w (s.take skip)) (s.drop skip) := by
  induction s generalizing skip pos with
  | nil =>
    rw [List.drop_nil, matchesFrom, matchesFrom]
  | cons a s ih =>
    cases skip with
    | zero => simp
    | succ skip =>
      rw [matchesFrom, ih, List.take_succ_cons, List.drop_succ_cons, size_cons, Nat.add_assoc]

theorem matchesFrom_shift (pos : Nat) (s : List α) :
    ∀ skip, matchesFrom w pat skip pos s = (matchesFrom w pat skip 0 s).map (pos + ·) := by
  induction s generalizing pos with
  | nil => exact fun skip => rfl
  | cons a s ih =>
    have hstep : ∀ skip, matchesFrom w pat skip (pos + w a) s =
        (matchesFrom w pat skip (0 + w a) s).map (pos + ·) := by
      intro skip
      rw [ih (pos + w a) skip, ih (0 + w a) skip, List.map_map]
      congr 1
      funext x
      simp only [Function.comp_apply]
      omega
    intro skip
    cases skip with
    | succ skip =>
      rw [matchesFrom, matchesFrom]
      exact hstep skip
    | zero =>
      rw [matchesFrom, matchesFrom]
      split_ifs
      · rw [hstep, List.map_cons, Nat.add_zero]
      · exact hstep 0

theorem matchIndices_append (hpat : pat ≠ []) (rest : List α) :
    matchIndices w pat (pat ++ rest) = 0 :: (matchIndices w pat rest).map (size w pat + ·) := by
  obtain ⟨b, pat', rfl⟩ := List.exists_cons_of_ne_nil hpat
  have hstarts : (b :: pat').isPrefixOf (b :: (pat' ++ rest)) = true :=
    List.isPrefixOf_iff_prefix.2 (List.prefix_append (b :: pat') rest)
  rw [List.cons_append, matchIndices, matchesFrom, if_pos hstarts, matchesFrom_skip]
  simp only [List.length_cons, Nat.add_sub_cancel, List.take_left, List.drop_left, Nat.zero_add]
  rw [matchesFrom_shift, ← size_cons]
  rfl

theorem matchIndices_cons (hpat : ¬pat <+: a :: s) :
    matchIndices w pat (a :: s) = (matchIndices w pat s).map (w a + ·) := by
  have hfalse : ¬pat.isPrefixOf (a :: s) = true := fun h => hpat (List.isPrefixOf_iff_prefix.1 h)
  rw [matchIndices, matchesFrom, if_neg hfalse, Nat.zero_add, matchesFrom_shift]
  rfl

/-- The enumeration is the tiling of the occurrences. -/
theorem tiles_matchIndices (hw : ∀ a, 0 < w a) (hpat : pat ≠ []) (s : List α) :
    Tiles (fun p => p) (· + size w pat) (Occurs w pat s) (matchIndices w pat s) := by
  induction hn : s.length using Nat.strong_induction_on generalizing s with
  | _ n ih =>
  cases s with
  | nil =>
    exact ⟨fun p hp => absurd hp List.not_mem_nil, List.Pairwise.nil,
      fun q hq => absurd hq (not_occurs_nil hpat)⟩
  | cons a s =>
    by_cases hstarts : pat <+: a :: s
    · obtain ⟨rest, hrest⟩ := hstarts
      have hlen : 0 < pat.length := List.length_pos_iff.2 hpat
      have hrestLen : rest.length < n := by
        have hlength := congrArg List.length hrest
        rw [List.length_append, hn] at hlength
        omega
      have htiles := ih rest.length hrestLen rest rfl
      rw [← hrest, matchIndices_append hpat]
      refine ⟨?_, ?_, ?_⟩
      · refine List.forall_mem_cons.2 ⟨⟨[], rest, rfl, rfl⟩, List.forall_mem_map.2 fun p hp => ?_⟩
        rw [occurs_append_iff hw (Nat.le_add_right _ _), Nat.add_sub_cancel_left]
        exact htiles.occurs p hp
      · refine List.pairwise_cons.2 ⟨List.forall_mem_map.2 fun p _ => by omega, ?_⟩
        exact List.Pairwise.map _ (fun p q hpq => by omega) htiles.apart
      · intro q hq
        obtain hlt | hle := Nat.lt_or_ge q (size w pat)
        · exact ⟨0, List.mem_cons_self, Nat.zero_le q, by omega⟩
        · obtain ⟨p, hp, hpq, hqp⟩ := htiles.covers _ ((occurs_append_iff hw hle).1 hq)
          exact ⟨size w pat + p, List.mem_cons_of_mem _ (List.mem_map_of_mem hp), by omega, by omega⟩
    · have htiles := ih s.length (by rw [← hn]; exact Nat.lt_succ_self _) s rfl
      have hoccurs : ∀ q, Occurs w pat (a :: s) q ↔ ∃ q', Occurs w pat s q' ∧ q = w a + q' := by
        intro q
        rw [occurs_cons_iff]
        exact ⟨fun h => h.resolve_left fun hq => hstarts hq.1, .inr⟩
      rw [matchIndices_cons hstarts]
      refine ⟨List.forall_mem_map.2 fun p hp => (hoccurs _).2 ⟨p, htiles.occurs p hp, rfl⟩, ?_, ?_⟩
      · exact List.Pairwise.map _ (fun p q hpq => by omega) htiles.apart
      · intro q hq
        obtain ⟨q', hq', rfl⟩ := (hoccurs q).1 hq
        obtain ⟨p, hp, hpq, hqp⟩ := htiles.covers q' hq'
        exact ⟨w a + p, List.mem_map_of_mem hp, by omega, by omega⟩

theorem find_eq_some (hw : ∀ a, 0 < w a) (hpat : pat ≠ []) {p : Nat} (h : find w pat s = some p) :
    Occurs w pat s p ∧ ∀ q, Occurs w pat s q → p ≤ q := by
  have htiles := tiles_matchIndices hw hpat s
  obtain ⟨l, hl⟩ := List.head?_eq_some_iff.1 h
  rw [hl] at htiles
  exact ⟨htiles.occurs p List.mem_cons_self, fun q hq => htiles.head_le (Nat.le_add_right _ _) hq⟩

theorem find_eq_none_iff (hw : ∀ a, 0 < w a) (hpat : pat ≠ []) :
    find w pat s = none ↔ ∀ q, ¬Occurs w pat s q := by
  have htiles := tiles_matchIndices hw hpat s
  rw [find, List.head?_eq_none_iff]
  constructor
  · intro hnil q hq
    rw [hnil] at htiles
    obtain ⟨p, hp, -⟩ := htiles.covers q hq
    cases hp
  · intro hnone
    exact List.eq_nil_iff_forall_not_mem.2 fun p hp => hnone p (htiles.occurs p hp)

end Search
