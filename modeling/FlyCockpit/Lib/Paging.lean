-- SUMMARY: Reading in pages, each of which says where the next one starts.
import Mathlib.Data.List.Basic
import Mathlib.Logic.Function.Iterate

/-!
# Paging

A page is asked for at a place and says where to go on as long as there is more. The last page is
reached if no page that is asked for on the way sends the reader back to where it is. A reader of an
ordered sequence may say where to go on by the last element it got.
-/

namespace Paging

universe u

variable {σ : Type u} {next : σ → σ} {more moves valid : σ → Prop} {rest : σ → Nat}

theorem valid_iterate (hvalid : ∀ s, valid s → more s → valid (next s)) {s : σ} (hs : valid s) {n : Nat}
    (hmore : ∀ j < n, more (next^[j] s)) : valid (next^[n] s) := by
  induction n with
  | zero => exact hs
  | succ n ih =>
    rw [Function.iterate_succ_apply']
    exact hvalid _ (ih fun j hj => hmore j (Nat.lt_succ_of_lt hj)) (hmore n (Nat.lt_succ_self n))

/-- Whoever reaches the last page was never sent back to where they were. -/
theorem moves_of_ends (hvalid : ∀ s, valid s → more s → valid (next s))
    (hstays : ∀ s, valid s → more s → ¬moves s → next s = s) {s : σ} (hs : valid s) {n : Nat}
    (hend : ¬more (next^[n] s)) {m : Nat} (hmore : ∀ j ≤ m, more (next^[j] s)) : moves (next^[m] s) := by
  by_contra hnot
  have hvalid' := valid_iterate hvalid hs fun j hj => hmore j (Nat.le_of_lt hj)
  have hfixed := hstays _ hvalid' (hmore m (Nat.le_refl m)) hnot
  obtain hlt | hle := Nat.lt_or_ge m n
  · obtain ⟨k, rfl⟩ := Nat.exists_eq_add_of_le (Nat.le_of_lt hlt)
    rw [Nat.add_comm, Function.iterate_add_apply, Function.iterate_fixed hfixed] at hend
    exact hend (hmore m (Nat.le_refl m))
  · exact hend (hmore n hle)

/-- If every page moves on, the last one is reached before what is left is used up. -/
theorem ends_of_moves (hvalid : ∀ s, valid s → more s → valid (next s))
    (hrest : ∀ s, valid s → more s → moves s → rest (next s) < rest s) {s : σ} (hs : valid s)
    (hmoves : ∀ m, (∀ j ≤ m, more (next^[j] s)) → moves (next^[m] s)) :
    ∃ n ≤ rest s, ¬more (next^[n] s) := by
  by_contra hnone
  have hmore : ∀ n ≤ rest s, more (next^[n] s) := fun n hn => by_contra fun h => hnone ⟨n, hn, h⟩
  have hused : ∀ n ≤ rest s + 1, rest (next^[n] s) + n ≤ rest s := by
    intro n hn
    induction n with
    | zero => exact Nat.le_refl _
    | succ n ih =>
      have hbefore : ∀ j ≤ n, more (next^[j] s) := fun j hj => hmore j (by omega)
      have hlt := hrest _ (valid_iterate hvalid hs fun j hj => hbefore j (Nat.le_of_lt hj))
        (hbefore n (Nat.le_refl n)) (hmoves n hbefore)
      rw [Function.iterate_succ_apply']
      have hle := ih (Nat.le_of_succ_le hn)
      omega
  have hover := hused (rest s + 1) (Nat.le_refl _)
  omega

/-- Behind an element of an ordered sequence lies what comes after it. -/
theorem filter_behind {α : Type u} {r : α → α → Prop} [DecidableRel r] (hasymm : ∀ a b, r a b → ¬r b a)
    {front back : List α} {a : α} (h : (front ++ a :: back).Pairwise r) :
    (front ++ a :: back).filter (r a ·) = back := by
  obtain ⟨-, hback, hcross⟩ := List.pairwise_append.1 h
  have hfront : front.filter (r a ·) = [] := by
    refine List.filter_eq_nil_iff.2 fun b hb hr => ?_
    exact hasymm b a (hcross b hb a List.mem_cons_self) (of_decide_eq_true hr)
  have hself : ¬r a a := fun hr => hasymm a a hr hr
  have hrest : back.filter (r a ·) = back :=
    List.filter_eq_self.2 fun b hb => decide_eq_true (List.rel_of_pairwise_cons hback hb)
  rw [List.filter_append, hfront, List.filter_cons_of_neg (by simpa using hself), hrest, List.nil_append]

end Paging
