-- SUMMARY: The lines of a sequence, cut behind newlines.
import Mathlib.Algebra.Ring.Nat
import Mathlib.Data.List.Basic

/-!
# Lines

A sequence is cut behind its newlines. A line is a piece without its newline and without a carriage
return in front of the newline; the last piece need not end with a newline, and is then a line as it
is.
-/

namespace Lines

open List

universe u

variable {α : Type u} (newline ret : α → Bool)

/-- The sequence cut behind each newline. -/
def pieces : List α → List (List α)
  | [] => []
  | a :: rest =>
    if newline a then [a] :: pieces rest
    else
      match pieces rest with
      | [] => [[a]]
      | p :: ps => (a :: p) :: ps

/-- A line without a carriage return at its end. -/
def stripReturn (line : List α) : List α :=
  if line.getLast?.any ret then line.dropLast else line

def stripLineEnd (piece : List α) : List α :=
  if piece.getLast?.any newline then stripReturn ret piece.dropLast else piece

def lines (s : List α) : List (List α) := (pieces newline s).map (stripLineEnd newline ret)

theorem flatten_pieces (s : List α) : (pieces newline s).flatten = s := by
  induction s with
  | nil => rfl
  | cons a s ih =>
    unfold pieces
    split_ifs
    · rw [flatten_cons, ih]
      rfl
    · cases hpieces : pieces newline s with
      | nil =>
        rw [hpieces] at ih
        rw [← ih]
        rfl
      | cons p ps =>
        rw [hpieces] at ih
        rw [← ih]
        rfl

variable {newline ret}

/-- No piece has a newline but at its end. -/
theorem not_newline_of_mem_dropLast {s piece : List α} (h : piece ∈ pieces newline s) :
    (∀ a ∈ piece.dropLast, newline a = false) ∧ piece ≠ [] := by
  induction s generalizing piece with
  | nil => cases h
  | cons a s ih =>
    unfold pieces at h
    split_ifs at h with ha
    · obtain rfl | h := mem_cons.1 h
      · exact ⟨fun _ hmem => absurd hmem not_mem_nil, cons_ne_nil _ _⟩
      · exact ih h
    · cases hpieces : pieces newline s with
      | nil =>
        rw [hpieces] at h
        obtain rfl := mem_singleton.1 h
        exact ⟨fun _ hmem => absurd hmem not_mem_nil, cons_ne_nil _ _⟩
      | cons p ps =>
        rw [hpieces] at h ih
        obtain rfl | h := mem_cons.1 h
        · obtain ⟨hp, hne⟩ := ih mem_cons_self
          refine ⟨?_, cons_ne_nil _ _⟩
          rw [dropLast_cons_of_ne_nil hne, forall_mem_cons]
          exact ⟨Bool.eq_false_iff.2 ha, hp⟩
        · exact ih (mem_cons_of_mem _ h)

theorem stripReturn_sublist (line : List α) : (stripReturn ret line).Sublist line := by
  unfold stripReturn
  split_ifs
  · exact dropLast_sublist line
  · exact List.Sublist.refl line

theorem not_newline_of_mem_lines {s line : List α} (h : line ∈ lines newline ret s) :
    ∀ a ∈ line, newline a = false := by
  obtain ⟨piece, hpiece, rfl⟩ := mem_map.1 h
  obtain ⟨hnot, hne⟩ := not_newline_of_mem_dropLast hpiece
  intro a ha
  unfold stripLineEnd at ha
  split_ifs at ha with hend
  · exact hnot a ((stripReturn_sublist _).subset ha)
  · rw [← dropLast_append_getLast hne, mem_append, mem_singleton] at ha
    obtain ha | rfl := ha
    · exact hnot a ha
    · rwa [List.getLast?_eq_getLast_of_ne_nil hne, Option.any_some, Bool.not_eq_true] at hend

/-- A sequence has no newline, or there is a first one. -/
theorem exists_first_newline (newline : α → Bool) (s : List α) : (∀ a ∈ s, newline a = false) ∨
      ∃ u a v, s = u ++ a :: v ∧ newline a = true ∧ ∀ b ∈ u, newline b = false := by
  induction s with
  | nil => exact .inl (forall_mem_nil _)
  | cons b s ih =>
    cases hb : newline b with
    | true => exact .inr ⟨[], b, s, rfl, hb, forall_mem_nil _⟩
    | false =>
      obtain hnone | ⟨u, a, v, rfl, ha, hu⟩ := ih
      · exact .inl (forall_mem_cons.2 ⟨hb, hnone⟩)
      · exact .inr ⟨b :: u, a, v, rfl, ha, forall_mem_cons.2 ⟨hb, hu⟩⟩

theorem pieces_of_not_newline {s : List α} (hs : ∀ a ∈ s, newline a = false) (hne : s ≠ []) :
    pieces newline s = [s] := by
  induction s with
  | nil => exact absurd rfl hne
  | cons a s ih =>
    obtain ⟨ha, hs⟩ := forall_mem_cons.1 hs
    rw [pieces, if_neg (by simp [ha])]
    obtain rfl | hne := eq_or_ne s []
    · rfl
    · rw [ih hs hne]

theorem pieces_append_cons {u v : List α} {a : α} (hu : ∀ b ∈ u, newline b = false)
    (ha : newline a = true) : pieces newline (u ++ a :: v) = (u ++ [a]) :: pieces newline v := by
  induction u with
  | nil => rw [nil_append, pieces, if_pos ha, nil_append]
  | cons b u ih =>
    obtain ⟨hb, hu⟩ := forall_mem_cons.1 hu
    rw [cons_append, pieces, if_neg (by simp [hb]), ih hu, cons_append]

/-! ## Splitting at newlines -/

theorem not_newline_of_mem_splitOnP {s piece : List α} (h : piece ∈ s.splitOnP newline) :
    ∀ a ∈ piece, newline a = false := by
  induction s generalizing piece with
  | nil =>
    obtain rfl := mem_singleton.1 h
    exact forall_mem_nil _
  | cons b s ih =>
    rw [splitOnP_cons_eq_if_modifyHead] at h
    split_ifs at h with hb
    · obtain rfl | h := mem_cons.1 h
      · exact forall_mem_nil _
      · exact ih h
    · cases hsplit : s.splitOnP newline with
      | nil => exact absurd hsplit (splitOnP_ne_nil newline s)
      | cons first pieces =>
        rw [hsplit] at h ih
        obtain rfl | h := mem_cons.1 h
        · exact forall_mem_cons.2 ⟨Bool.eq_false_iff.2 hb, ih mem_cons_self⟩
        · exact ih (mem_cons_of_mem _ h)

/-! ## Cuts of joined lines -/

section Joined

variable {nl : α} {ls : List (List α)}

theorem intercalate_cons_of_ne_nil (nl : α) (l : List α) (hne : ls ≠ []) :
    [nl].intercalate (l :: ls) = l ++ nl :: [nl].intercalate ls := by
  obtain ⟨l', ls, rfl⟩ := exists_cons_of_ne_nil hne
  rw [intercalate_cons_cons, append_assoc]
  rfl

theorem splitOnP_intercalate (hnl : newline nl = true) (hls : ∀ l ∈ ls, ∀ a ∈ l, newline a = false)
    (hne : ls ≠ []) : ([nl].intercalate ls).splitOnP newline = ls := by
  induction ls with
  | nil => exact absurd rfl hne
  | cons l ls ih =>
    obtain ⟨hl, hls⟩ := forall_mem_cons.1 hls
    obtain rfl | hne := eq_or_ne ls []
    · simpa only [intercalate_singleton] using splitOnP_eq_singleton hl
    · rw [intercalate_cons_of_ne_nil nl l hne,
        splitOnP_append_cons_of_forall_mem hl nl hnl _, ih hls hne]

theorem countP_intercalate (hnl : newline nl = true) (hls : ∀ l ∈ ls, ∀ a ∈ l, newline a = false)
    (hne : ls ≠ []) : ([nl].intercalate ls).countP newline + 1 = ls.length := by
  induction ls with
  | nil => exact absurd rfl hne
  | cons l ls ih =>
    obtain ⟨hl, hls⟩ := forall_mem_cons.1 hls
    have hnone : l.countP newline = 0 := countP_eq_zero.2 fun a ha => by simp [hl a ha]
    obtain rfl | hne := eq_or_ne ls []
    · rw [intercalate_singleton, hnone, length_singleton]
    · rw [intercalate_cons_of_ne_nil nl l hne, countP_append, hnone, countP_cons_of_pos hnl,
        ih hls hne, Nat.zero_add, length_cons]

/-- A cut falls in a line: before it stand the lines before that one and the start of it, behind it
    the rest of it and the lines after it. -/
theorem cut_intercalate (hne : ls ≠ []) {c : Nat} (hc : c ≤ ([nl].intercalate ls).length) :
    ∃ m line r, ls[m]? = some line ∧
      (∃ before after, [nl].intercalate ls = before ++ line ++ after ∧ before.length + r = c) ∧
      ([nl].intercalate ls).take c = [nl].intercalate (ls.take m ++ [line.take r]) ∧
      ([nl].intercalate ls).drop c = [nl].intercalate (line.drop r :: ls.drop (m + 1)) := by
  induction ls generalizing c with
  | nil => exact absurd rfl hne
  | cons l ls ih =>
    obtain rfl | hne := eq_or_ne ls []
    · rw [intercalate_singleton] at hc ⊢
      refine ⟨0, l, c, rfl, ⟨[], [], (append_nil l).symm, Nat.zero_add c⟩, ?_, ?_⟩
      · rw [take_zero, nil_append, intercalate_singleton]
      · rw [drop_succ_cons, drop_zero, intercalate_singleton]
    · rw [intercalate_cons_of_ne_nil nl l hne] at hc ⊢
      obtain hle | hlt := Nat.lt_or_ge c (l.length + 1)
      · have hle := Nat.le_of_lt_succ hle
        refine ⟨0, l, c, rfl, ⟨[], _, rfl, Nat.zero_add c⟩, ?_, ?_⟩
        · rw [take_append_of_le_length hle, take_zero, nil_append, intercalate_singleton]
        · rw [drop_append_of_le_length hle, drop_succ_cons, drop_zero,
            intercalate_cons_of_ne_nil nl _ hne]
      · -- The cut lies behind the newline of the first line.
        obtain ⟨k, rfl⟩ := Nat.exists_eq_add_of_le hlt
        rw [length_append, length_cons] at hc
        obtain ⟨m, line, r, hline, ⟨before, after, hjoined, hk⟩, htake, hdrop⟩ :=
          ih hne (c := k) (by omega)
        refine ⟨m + 1, line, r, hline, ⟨l ++ nl :: before, after, ?_, ?_⟩, ?_, ?_⟩
        · rw [hjoined, append_assoc, append_assoc, append_assoc, cons_append]
        · rw [length_append, length_cons]
          omega
        · rw [Nat.add_assoc, take_length_add_append, Nat.add_comm 1 k, take_succ_cons, htake,
            take_succ_cons, cons_append, intercalate_cons_of_ne_nil nl l (by simp)]
        · rw [Nat.add_assoc, drop_length_add_append, Nat.add_comm 1 k, drop_succ_cons, hdrop,
            drop_succ_cons]

/-- There are as many newlines before a place as there are lines before its own. -/
theorem countP_upTo (hnl : newline nl = true) (hls : ∀ l ∈ ls, ∀ a ∈ l, newline a = false) {m : Nat}
    {line : List α} (hline : ls[m]? = some line) (r : Nat) :
    ([nl].intercalate (ls.take m ++ [line.take r])).countP newline = m := by
  have hm := (List.getElem?_eq_some_iff.1 hline).1
  have hlines := @countP_intercalate _ newline nl (ls.take m ++ [line.take r]) hnl
    (forall_mem_append.2 ⟨fun l hl => hls l (mem_of_mem_take hl),
      forall_mem_singleton.2 fun a ha => hls line (mem_of_getElem? hline) a
        (mem_of_mem_take ha)⟩) (by simp)
  rw [length_append, length_take_of_le (Nat.le_of_lt hm), length_singleton] at hlines
  exact Nat.succ.inj hlines

/-- What stands on the two sides of a cut, and where the line is that it falls in. -/
theorem splitOnP_cut (hnl : newline nl = true) (hls : ∀ l ∈ ls, ∀ a ∈ l, newline a = false)
    (hne : ls ≠ []) {c : Nat} (hc : c ≤ ([nl].intercalate ls).length) :
    ∃ m line r, ls[m]? = some line ∧ (([nl].intercalate ls).take c).countP newline = m ∧
      (([nl].intercalate ls).take c).splitOnP newline = ls.take m ++ [line.take r] ∧
      (([nl].intercalate ls).drop c).splitOnP newline = line.drop r :: ls.drop (m + 1) ∧
      ∃ before after, [nl].intercalate ls = before ++ line ++ after ∧ before.length + r = c := by
  obtain ⟨m, line, r, hline, hplace, htake, hdrop⟩ := cut_intercalate hne hc
  have hcut := hls line (mem_of_getElem? hline)
  refine ⟨m, line, r, hline, ?_, ?_, ?_, hplace⟩
  · rw [htake, countP_upTo hnl hls hline]
  · rw [htake]
    exact splitOnP_intercalate hnl (forall_mem_append.2 ⟨fun l hl => hls l (mem_of_mem_take hl),
      forall_mem_singleton.2 fun a ha => hcut a (mem_of_mem_take ha)⟩) (by simp)
  · rw [hdrop]
    exact splitOnP_intercalate hnl (forall_mem_cons.2 ⟨fun a ha => hcut a (mem_of_mem_drop ha),
      fun l hl => hls l (mem_of_mem_drop hl)⟩) (cons_ne_nil _ _)

end Joined

end Lines
