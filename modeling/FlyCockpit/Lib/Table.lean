-- SUMMARY: Finite maps with a size, a sum over their entries and removal by a predicate.
import Mathlib.Data.List.AList
import Mathlib.Algebra.Order.BigOperators.Group.List
import Mathlib.Algebra.Order.Ring.Nat

/-!
# Tables

A table is an association list without repeated keys. Beside lookup, insertion and removal of one
key, programs ask for the number of entries, add up a measure of the entries and drop all entries
that fail a test; the lemmas below say how these react to a change of one entry.
-/

/-- A finite map. -/
abbrev Table (κ ν : Type) := AList fun _ : κ => ν

namespace Table

open List

variable {κ ν : Type}

/-- The number of entries. -/
def size (t : Table κ ν) : Nat := t.entries.length

/-- The sum of a measure over the entries. -/
def total (f : ν → Nat) (t : Table κ ν) : Nat := (t.entries.map fun e => f e.2).sum

/-- The entries that pass a test. -/
def retain (p : κ → ν → Bool) (t : Table κ ν) : Table κ ν where
  entries := t.entries.filter fun e => p e.1 e.2
  nodupKeys := t.nodupKeys.sublist filter_sublist

/-- The table with every value changed. -/
def mapValues (f : κ → ν → ν) (t : Table κ ν) : Table κ ν where
  entries := t.entries.map fun e => ⟨e.1, f e.1 e.2⟩
  nodupKeys := by
    have hkeys : (t.entries.map fun e => (⟨e.1, f e.1 e.2⟩ : Sigma fun _ => ν)).keys =
        t.entries.keys := by
      simp [List.keys, map_map, Function.comp_def]
    rw [List.NodupKeys, hkeys]
    exact t.nodupKeys

theorem size_eq_keys (t : Table κ ν) : t.size = t.keys.length := by
  simp [size, AList.keys, List.keys]

/-- The sum splits into the entries that pass a test and those that fail it. -/
theorem total_retain_add (f : ν → Nat) (p : κ → ν → Bool) (t : Table κ ν) :
    total f (t.retain p) + total f (t.retain fun a v => !p a v) = total f t := by
  have hentries : ∀ l : List (Sigma fun _ : κ => ν),
      ((l.filter fun e => p e.1 e.2).map fun e => f e.2).sum +
        ((l.filter fun e => !p e.1 e.2).map fun e => f e.2).sum = (l.map fun e => f e.2).sum := by
    intro l
    induction l with
    | nil => rfl
    | cons e l ih =>
      rw [filter_cons, filter_cons, map_cons, sum_cons, ← ih]
      cases p e.1 e.2 with
      | true =>
        simp only [Bool.not_true, Bool.false_eq_true, if_true, if_false, map_cons, sum_cons]
        omega
      | false =>
        simp only [Bool.not_false, Bool.false_eq_true, if_true, if_false, map_cons, sum_cons]
        omega
  exact hentries t.entries

theorem size_retain_le (p : κ → ν → Bool) (t : Table κ ν) : size (t.retain p) ≤ size t :=
  length_filter_le _ _

variable [DecidableEq κ]

theorem lookup_insert_eq (a b : κ) (v : ν) (t : Table κ ν) :
    (t.insert b v).lookup a = if a = b then some v else t.lookup a := by
  by_cases h : a = b
  · subst h
    rw [AList.lookup_insert, if_pos rfl]
  · rw [AList.lookup_insert_ne h, if_neg h]

theorem lookup_erase_eq (a b : κ) (t : Table κ ν) :
    (t.erase b).lookup a = if a = b then none else t.lookup a := by
  by_cases h : a = b
  · subst h
    rw [AList.lookup_erase, if_pos rfl]
  · rw [AList.lookup_erase_ne h, if_neg h]

theorem mem_entries_iff {a : κ} {v : ν} {t : Table κ ν} :
    ⟨a, v⟩ ∈ t.entries ↔ t.lookup a = some v :=
  AList.mem_lookup_iff.symm

theorem lookup_retain (p : κ → ν → Bool) (t : Table κ ν) (a : κ) :
    (retain p t).lookup a = (t.lookup a).filter (p a) := by
  ext v
  rw [← mem_entries_iff, Option.filter_eq_some_iff, ← mem_entries_iff]
  simp [retain]

theorem lookup_mapValues (f : κ → ν → ν) (t : Table κ ν) (a : κ) :
    (mapValues f t).lookup a = (t.lookup a).map (f a) := by
  ext v
  rw [← mem_entries_iff, Option.map_eq_some_iff]
  simp only [← mem_entries_iff, mapValues, mem_map, Sigma.mk.injEq, heq_eq_eq]
  constructor
  · rintro ⟨⟨b, w⟩, hmem, rfl, rfl⟩
    exact ⟨w, hmem, rfl⟩
  · rintro ⟨w, hmem, rfl⟩
    exact ⟨⟨a, w⟩, hmem, rfl, rfl⟩

/-! ## One entry less, one entry more -/

/-- Inserting the entries of a table one by one, each with its value changed. -/
theorem lookup_foldl_insert {μ : Type} (f : ν → μ) (t : Table κ ν) (a : κ) :
    (t.entries.foldl (fun acc e => acc.insert e.1 (f e.2)) (∅ : Table κ μ)).lookup a =
      (t.lookup a).map f := by
  have hentries : ∀ (l : List (Sigma fun _ : κ => ν)) (acc : Table κ μ), l.NodupKeys →
      (l.foldl (fun acc e => acc.insert e.1 (f e.2)) acc).lookup a =
        ((l.dlookup a).map f).or (acc.lookup a) := by
    intro l
    induction l with
    | nil => exact fun acc _ => rfl
    | cons e l ih =>
      intro acc hnodup
      obtain ⟨hfresh, hnodup⟩ := nodupKeys_cons.1 hnodup
      rw [foldl_cons, ih _ hnodup, lookup_insert_eq]
      by_cases ha : a = e.1
      · subst ha
        rw [dlookup_eq_none.2 hfresh, dlookup_cons_eq, if_pos rfl]
        rfl
      · rw [if_neg ha, dlookup_cons_ne l _ ha]
  rw [hentries t.entries ∅ t.nodupKeys, AList.lookup_empty, Option.or_none]
  rfl

theorem erase_insert_self (a : κ) (v : ν) (t : Table κ ν) : (t.insert a v).erase a = t.erase a :=
  AList.ext (kerase_cons_eq rfl)

theorem erase_of_none {a : κ} {t : Table κ ν} (h : t.lookup a = none) : t.erase a = t :=
  AList.ext (kerase_of_notMem_keys (AList.lookup_eq_none.1 h))

/-- A table with an entry for `a` is the table without it, with the entry put between two parts. -/
theorem entries_erase {a : κ} {v : ν} {t : Table κ ν} (h : t.lookup a = some v) :
    ∃ front back, t.entries = front ++ ⟨a, v⟩ :: back ∧ (t.erase a).entries = front ++ back := by
  have hmem : a ∈ t.entries.keys := AList.lookup_isSome.1 (h ▸ rfl)
  obtain ⟨w, front, back, -, hentries, hrest⟩ := exists_of_kerase hmem
  have hlookup : t.lookup a = some w := by
    rw [← mem_entries_iff, hentries]
    simp
  obtain rfl : v = w := Option.some.inj (h.symm.trans hlookup)
  exact ⟨front, back, hentries, hrest⟩

theorem size_erase {a : κ} {v : ν} {t : Table κ ν} (h : t.lookup a = some v) :
    size (t.erase a) + 1 = size t := by
  obtain ⟨front, back, hentries, hrest⟩ := entries_erase h
  simp only [size, hentries, hrest, length_append, length_cons]
  omega

theorem total_erase {a : κ} {v : ν} {t : Table κ ν} (f : ν → Nat) (h : t.lookup a = some v) :
    total f (t.erase a) + f v = total f t := by
  obtain ⟨front, back, hentries, hrest⟩ := entries_erase h
  simp only [total, hentries, hrest, map_append, map_cons, sum_append, sum_cons]
  omega

theorem size_insert (a : κ) (v : ν) (t : Table κ ν) :
    size (t.insert a v) = size (t.erase a) + 1 := by
  rw [size, AList.entries_insert, length_cons]
  rfl

theorem total_insert (f : ν → Nat) (a : κ) (v : ν) (t : Table κ ν) :
    total f (t.insert a v) = f v + total f (t.erase a) := by
  rw [total, AList.entries_insert, map_cons, sum_cons]
  rfl

theorem le_total {a : κ} {v : ν} {t : Table κ ν} (f : ν → Nat) (h : t.lookup a = some v) :
    f v ≤ total f t := by
  rw [← total_erase f h]
  exact Nat.le_add_left _ _

/-- Taking a new key out again leaves the table as it was. -/
theorem erase_insert {a : κ} {t : Table κ ν} (h : t.lookup a = none) (v : ν) :
    (t.insert a v).erase a = t := by
  rw [erase_insert_self, erase_of_none h]

/-- Every entry bounded, the sum is bounded by the number of entries. -/
theorem total_le {f : ν → Nat} {bound : Nat} {t : Table κ ν}
    (h : ∀ a v, t.lookup a = some v → f v ≤ bound) : total f t ≤ size t * bound := by
  have hle : ∀ x ∈ t.entries.map fun e => f e.2, x ≤ bound := by
    intro x hx
    obtain ⟨⟨a, v⟩, hmem, rfl⟩ := mem_map.1 hx
    exact h a v (mem_entries_iff.1 hmem)
  simpa [total, size] using sum_le_card_nsmul _ _ hle

end Table
