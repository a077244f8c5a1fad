-- SUMMARY: Tables keyed by numbers: smallest key, ascending keys, sizes and totals over a set of keys.
import Mathlib.Algebra.Order.BigOperators.Group.Finset
import Mathlib.Order.Interval.Finset.Nat
import FlyCockpit.Lib.Table

/-!
# Windows

A window is a table whose keys are numbers, most often all numbers of an interval. The keys have an
order, in which programs walk a window and from whose lower end they drop entries. Sizes and totals
are those of the set of keys, which bounds them by the interval the keys lie in.
-/

namespace Table

variable {ν : Type}

/-- The smallest key. -/
def firstKey? (t : Table Nat ν) : Option Nat := t.keys.min?

/-- The keys in ascending order. -/
def ascending (t : Table Nat ν) : List Nat := t.keys.insertionSort (· ≤ ·)

def keySet (t : Table Nat ν) : Finset Nat := t.keys.toFinset

theorem mem_keySet {t : Table Nat ν} {k : Nat} : k ∈ t.keySet ↔ ∃ v, t.lookup k = some v := by
  rw [keySet, List.mem_toFinset, ← AList.mem_keys, ← AList.lookup_isSome, Option.isSome_iff_exists]

theorem mem_ascending {t : Table Nat ν} {k : Nat} : k ∈ t.ascending ↔ ∃ v, t.lookup k = some v := by
  rw [ascending, (List.perm_insertionSort _ _).mem_iff, ← mem_keySet, keySet, List.mem_toFinset]

theorem firstKey?_eq_some {t : Table Nat ν} {k : Nat} :
    t.firstKey? = some k ↔ k ∈ t.keySet ∧ ∀ other ∈ t.keySet, k ≤ other := by
  rw [firstKey?, List.min?_eq_some_iff]
  simp [keySet]

/-! ## Sizes and totals -/

theorem size_eq_card (t : Table Nat ν) : t.size = t.keySet.card := by
  rw [size_eq_keys, keySet, List.toFinset_card_of_nodup t.keys_nodup]

theorem total_eq_sum {t : Table Nat ν} {f : ν → Nat} {g : Nat → Nat}
    (h : ∀ k v, t.lookup k = some v → f v = g k) : t.total f = ∑ k ∈ t.keySet, g k := by
  have hentries : (t.entries.map fun e => f e.2) = t.keys.map g := by
    rw [AList.keys, List.keys, List.map_map]
    refine List.map_congr_left fun e he => ?_
    exact h e.1 e.2 (mem_entries_iff.1 he)
  rw [total, hentries, keySet, List.sum_toFinset g t.keys_nodup]

theorem keySet_insert (t : Table Nat ν) (k : Nat) (v : ν) :
    keySet (t.insert k v) = insert k t.keySet := by
  ext other
  rw [mem_keySet, Finset.mem_insert, mem_keySet]
  by_cases hother : other = k
  · simp [lookup_insert_eq, hother]
  · simp [hother]

theorem keySet_erase (t : Table Nat ν) (k : Nat) : keySet (t.erase k) = t.keySet.erase k := by
  ext other
  rw [mem_keySet, Finset.mem_erase, mem_keySet]
  by_cases hother : other = k
  · simp [lookup_erase_eq, hother]
  · simp [hother]

/-- Tables that agree on what counts have the same keys and the same totals. -/
theorem keySet_congr {μ : Type} {t t' : Table Nat ν} {f : ν → μ}
    (h : ∀ k, (t.lookup k).map f = (t'.lookup k).map f) : t.keySet = t'.keySet := by
  ext k
  have hsome := congrArg Option.isSome (h k)
  rw [Option.isSome_map, Option.isSome_map] at hsome
  rw [mem_keySet, mem_keySet, ← Option.isSome_iff_exists, ← Option.isSome_iff_exists, hsome]

theorem total_congr {t t' : Table Nat ν} {f : ν → Nat}
    (h : ∀ k, (t.lookup k).map f = (t'.lookup k).map f) : t.total f = t'.total f := by
  have hleft : ∀ k v, t.lookup k = some v → f v = ((t.lookup k).map f).getD 0 := by
    intro k v hlookup
    rw [hlookup, Option.map_some, Option.getD_some]
  have hright : ∀ k v, t'.lookup k = some v → f v = ((t.lookup k).map f).getD 0 := by
    intro k v hlookup
    rw [h k, hlookup, Option.map_some, Option.getD_some]
  rw [total_eq_sum hleft, total_eq_sum hright, keySet_congr h]

end Table
