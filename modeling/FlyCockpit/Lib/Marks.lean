-- SUMMARY: Sequences whose elements say where they were copied from.
import FlyCockpit.Lib.Lines
import FlyCockpit.Lib.Spans

/-!
# Marks

To follow elements from a source into an output, each carries the position it was copied from, or
none if it was not copied.
-/

universe u

structure Mark (α : Type u) where
  value : α
  origin : Option Nat
  deriving DecidableEq

namespace Mark

open List

variable {α : Type u}

def values (s : List (Mark α)) : List α := s.map value

def origins (s : List (Mark α)) : List Nat := s.filterMap origin

/-- Elements that were not copied. -/
def fresh (s : List α) : List (Mark α) := s.map (⟨·, none⟩)

/-- A source, each element marked with its own position. -/
def ofSource (s : List α) : List (Mark α) := s.zipIdx.map fun (a, i) => ⟨a, some i⟩

@[simp] theorem length_values (s : List (Mark α)) : (values s).length = s.length := length_map ..

@[simp] theorem values_append (s s' : List (Mark α)) : values (s ++ s') = values s ++ values s' :=
  map_append

@[simp] theorem values_ofSource (s : List α) : values (ofSource s) = s := by
  rw [values, ofSource, map_map]
  exact zipIdx_map_fst 0 s

@[simp] theorem origins_fresh (s : List α) : origins (fresh s) = [] := by
  rw [origins, fresh, filterMap_map]
  exact filterMap_eq_nil_iff.2 fun _ _ => rfl

theorem mem_origins {s : List (Mark α)} {p : Nat} : p ∈ origins s ↔ ∃ m ∈ s, m.origin = some p :=
  mem_filterMap

theorem getElem?_ofSource (s : List α) (i : Nat) :
    (ofSource s)[i]? = s[i]?.map fun a => ⟨a, some i⟩ := by
  rw [ofSource, List.getElem?_map, List.getElem?_zipIdx, Option.map_map, Nat.zero_add]
  rfl

end Mark
