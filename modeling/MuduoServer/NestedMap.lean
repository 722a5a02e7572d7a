import Mathlib.Tactic.Common

/-!
A map from keys to maps from keys, as `std::map` of `std::map`. Assigning at a pair of
keys makes the inner map when it is not there yet, and the entries are what is found.
-/
namespace MuduoServer.NestedMap

open Std

universe u v

variable {κ : Type u} {ν : Type v} [Ord κ]

abbrev Nested (κ : Type u) (ν : Type v) [Ord κ] := TreeMap κ (TreeMap κ ν compare) compare

/-- `m[a][b] = v` -/
def assign (m : Nested κ ν) (a b : κ) (v : ν) : Nested κ ν :=
  m.insert a ((m[a]?.getD ∅).insert b v)

def lookup (m : Nested κ ν) (a b : κ) : Option ν := m[a]?.bind fun inner => inner[b]?

/-- The entries in the order of the keys. -/
def entries (m : Nested κ ν) : List (κ × κ × ν) :=
  m.toList.flatMap fun outer => outer.2.toList.map fun inner => (outer.1, inner.1, inner.2)

variable [TransOrd κ]

@[simp] theorem lookup_empty (a b : κ) : lookup (∅ : Nested κ ν) a b = none := by
  simp [lookup]

variable [LawfulEqOrd κ]

theorem lookup_assign [DecidableEq κ] (m : Nested κ ν) (a b c d : κ) (v : ν) :
    lookup (assign m a b v) c d = if a = c ∧ b = d then some v else lookup m c d := by
  simp only [lookup, assign, TreeMap.getElem?_insert]
  by_cases hac : a = c
  · subst hac
    by_cases hbd : b = d
    · simp [hbd]
    · cases m[a]? <;> simp [TreeMap.getElem?_insert, hbd]
  · simp [hac]

theorem mem_entries {m : Nested κ ν} {a b : κ} {v : ν} :
    (a, b, v) ∈ entries m ↔ lookup m a b = some v := by
  simp only [entries, lookup, List.mem_flatMap, List.mem_map, Option.bind_eq_some_iff]
  constructor
  · rintro ⟨⟨a', inner⟩, hinner, ⟨b', v'⟩, hv, heq⟩
    obtain ⟨rfl, rfl, rfl⟩ : a' = a ∧ b' = b ∧ v' = v := by simpa using heq
    exact ⟨inner, TreeMap.mem_toList_iff_getElem?_eq_some.mp hinner,
      TreeMap.mem_toList_iff_getElem?_eq_some.mp hv⟩
  · rintro ⟨inner, hinner, hv⟩
    exact ⟨(a, inner), TreeMap.mem_toList_iff_getElem?_eq_some.mpr hinner, (b, v),
      TreeMap.mem_toList_iff_getElem?_eq_some.mpr hv, rfl⟩

end MuduoServer.NestedMap
