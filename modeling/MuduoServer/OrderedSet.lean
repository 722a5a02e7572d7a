import Mathlib.Data.List.Sort
import Mathlib.Order.Lattice

/-!
Ordered sets with the operations of the C++ `std::set`: an insertion that
reports whether it took place, an erasure that reports how many elements went,
and the split of the elements at `lower_bound`. The strictly increasing order
of the elements is a field, so the first element is the least one.
-/
namespace MuduoServer

structure OrderedSet (α : Type*) [LinearOrder α] where
  toList : List α
  sorted : toList.Pairwise (· < ·)

variable {α : Type*} [LinearOrder α]

private theorem pairwise_lt_orderedInsert {l : List α} (hl : l.Pairwise (· < ·)) {x : α} (hx : x ∉ l) :
    (l.orderedInsert (· ≤ ·) x).Pairwise (· < ·) := by
  have hle : (l.orderedInsert (· ≤ ·) x).Pairwise (· ≤ ·) :=
    List.Pairwise.orderedInsert x l (hl.imp le_of_lt)
  have hne : (l.orderedInsert (· ≤ ·) x).Pairwise (· ≠ ·) := by
    apply (List.perm_orderedInsert (· ≤ ·) x l).nodup_iff.mpr
    exact List.nodup_cons.mpr ⟨hx, hl.imp ne_of_lt⟩
  exact (hle.and hne).imp (fun h => lt_of_le_of_ne h.1 h.2)

namespace OrderedSet

instance : Membership α (OrderedSet α) := ⟨fun s a => a ∈ s.toList⟩

instance (a : α) (s : OrderedSet α) : Decidable (a ∈ s) :=
  inferInstanceAs (Decidable (a ∈ s.toList))

theorem mem_def {a : α} {s : OrderedSet α} : a ∈ s ↔ a ∈ s.toList := Iff.rfl

def empty : OrderedSet α := ⟨[], List.Pairwise.nil⟩

def size (s : OrderedSet α) : ℕ := s.toList.length

/-- `*begin()`, or `none` when `begin() == end()`. -/
def begin? (s : OrderedSet α) : Option α := s.toList.head?

/-- `set::insert`; the flag is `result.second`. -/
def insert (s : OrderedSet α) (x : α) : OrderedSet α × Bool :=
  if h : x ∈ s.toList then (s, false)
  else (⟨s.toList.orderedInsert (· ≤ ·) x, pairwise_lt_orderedInsert s.sorted h⟩, true)

/-- `set::erase` by key, with the number of elements erased. -/
def erase (s : OrderedSet α) (x : α) : OrderedSet α × ℕ :=
  (⟨s.toList.erase x, s.sorted.erase x⟩, if x ∈ s then 1 else 0)

/-- The elements of `[begin(), lower_bound(x))`, in order. -/
def below (s : OrderedSet α) (x : α) : List α := s.toList.takeWhile (fun a => decide (a < x))

/-- The set after `erase(begin(), lower_bound(x))`. -/
def eraseBelow (s : OrderedSet α) (x : α) : OrderedSet α :=
  ⟨s.toList.dropWhile (fun a => decide (a < x)),
    s.sorted.sublist (List.dropWhile_sublist _)⟩

@[simp] theorem not_mem_empty (a : α) : a ∉ (empty : OrderedSet α) := List.not_mem_nil

theorem nodup (s : OrderedSet α) : s.toList.Nodup := s.sorted.imp ne_of_lt

theorem insert_of_not_mem {s : OrderedSet α} {x : α} (h : x ∉ s) : (s.insert x).2 = true := by
  have h' : x ∉ s.toList := h
  simp [insert, h']

theorem mem_insert {s : OrderedSet α} {x a : α} : a ∈ (s.insert x).1 ↔ a = x ∨ a ∈ s := by
  unfold insert
  split
  · rename_i h
    constructor
    · exact Or.inr
    · rintro (rfl | ha)
      · exact h
      · exact ha
  · exact List.mem_orderedInsert _

theorem size_insert {s : OrderedSet α} {x : α} (h : x ∉ s) : (s.insert x).1.size = s.size + 1 := by
  have h' : x ∉ s.toList := h
  simp only [insert, h', dite_false, size]
  exact List.orderedInsert_length _ _ _

theorem mem_erase {s : OrderedSet α} {x a : α} : a ∈ (s.erase x).1 ↔ a ≠ x ∧ a ∈ s :=
  s.nodup.mem_erase_iff

theorem erase_of_mem {s : OrderedSet α} {x : α} (h : x ∈ s) : (s.erase x).2 = 1 := by
  simp [erase, h]

theorem size_erase {s : OrderedSet α} {x : α} (h : x ∈ s) : (s.erase x).1.size + 1 = s.size := by
  have hlen := List.length_erase_of_mem (mem_def.mp h)
  have hpos := List.length_pos_of_mem (mem_def.mp h)
  simp only [erase, size]
  omega

theorem below_append_eraseBelow (s : OrderedSet α) (x : α) :
    s.below x ++ (s.eraseBelow x).toList = s.toList :=
  List.takeWhile_append_dropWhile

theorem below_sorted (s : OrderedSet α) (x : α) : (s.below x).Pairwise (· < ·) :=
  s.sorted.sublist (List.takeWhile_sublist _)

theorem size_eraseBelow (s : OrderedSet α) (x : α) :
    (s.below x).length + (s.eraseBelow x).size = s.size := by
  have h := congrArg List.length (s.below_append_eraseBelow x)
  rw [List.length_append] at h
  exact h

theorem lt_of_mem_below {s : OrderedSet α} {x a : α} (h : a ∈ s.below x) : a < x := by
  have hall := List.all_takeWhile (p := fun b => decide (b < x)) (l := s.toList)
  have h' := List.all_eq_true.mp hall a h
  simpa using h'

/-- Everything from `lower_bound(x)` on is at least `x`. -/
theorem le_of_mem_eraseBelow {s : OrderedSet α} {x a : α} (h : a ∈ s.eraseBelow x) : x ≤ a := by
  have hs : (s.eraseBelow x).toList.Pairwise (· < ·) := (s.eraseBelow x).sorted
  have hm : a ∈ s.toList.dropWhile (fun b => decide (b < x)) := h
  cases hd : s.toList.dropWhile (fun b => decide (b < x)) with
  | nil =>
    rw [hd] at hm
    simp at hm
  | cons b rest =>
    have hb : x ≤ b := by
      have hn := List.head_dropWhile_not (fun b => decide (b < x)) (l := s.toList) (by simp [hd])
      simp only [hd, List.head_cons, decide_eq_false_iff_not, not_lt] at hn
      exact hn
    simp only [eraseBelow, hd, List.pairwise_cons] at hs
    rw [hd] at hm
    rcases List.mem_cons.mp hm with rfl | hrest
    · exact hb
    · exact le_trans hb (le_of_lt (hs.1 a hrest))

theorem mem_split {s : OrderedSet α} {x a : α} :
    a ∈ s ↔ a ∈ s.below x ∨ a ∈ s.eraseBelow x := by
  rw [mem_def, ← s.below_append_eraseBelow x, List.mem_append]
  rfl

theorem mem_below {s : OrderedSet α} {x a : α} : a ∈ s.below x ↔ a ∈ s ∧ a < x := by
  constructor
  · intro h
    exact ⟨mem_split.mpr (Or.inl h), lt_of_mem_below h⟩
  · rintro ⟨hs, hlt⟩
    rcases mem_split (x := x).mp hs with h | h
    · exact h
    · exact absurd hlt (not_lt.mpr (le_of_mem_eraseBelow h))

theorem mem_eraseBelow {s : OrderedSet α} {x a : α} : a ∈ s.eraseBelow x ↔ a ∈ s ∧ x ≤ a := by
  constructor
  · intro h
    exact ⟨mem_split.mpr (Or.inr h), le_of_mem_eraseBelow h⟩
  · rintro ⟨hs, hle⟩
    rcases mem_split (x := x).mp hs with h | h
    · exact absurd (lt_of_mem_below h) (not_lt.mpr hle)
    · exact h

theorem mem_of_begin? {s : OrderedSet α} {a : α} (h : s.begin? = some a) : a ∈ s :=
  List.mem_of_mem_head? (by simpa [begin?] using h)

/-- The first element is the least one. -/
theorem begin?_le {s : OrderedSet α} {a b : α} (h : s.begin? = some a) (hb : b ∈ s) : a ≤ b := by
  have hs := s.sorted
  simp only [begin?] at h
  obtain ⟨rest, hl⟩ := List.head?_eq_some_iff.mp h
  rw [mem_def, hl] at hb
  rw [hl, List.pairwise_cons] at hs
  rcases List.mem_cons.mp hb with rfl | hr
  · exact le_refl _
  · exact le_of_lt (hs.1 b hr)

theorem begin?_eq_none {s : OrderedSet α} : s.begin? = none ↔ ∀ a, a ∉ s := by
  simp only [begin?, List.head?_eq_none_iff]
  exact List.eq_nil_iff_forall_not_mem

theorem begin?_isSome_of_mem {s : OrderedSet α} {a : α} (h : a ∈ s) : ∃ b, s.begin? = some b := by
  cases hb : s.begin? with
  | none => exact absurd h (begin?_eq_none.mp hb a)
  | some b => exact ⟨b, rfl⟩

end OrderedSet

end MuduoServer
