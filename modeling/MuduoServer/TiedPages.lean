import Mathlib.Data.List.Sort
import Mathlib.Tactic.Common

/-!
Pages of a result that is sorted by a key which need not tell its rows apart. Every page is
cut out of an order of its own, so what the pages hold together is the result only if no
group of equal keys lies across the end of a page: then the rows in front of that end are
the same in every order, and otherwise one row may be the last of a page and the first of
the next one.
-/
namespace MuduoServer.TiedPages

variable {α κ : Type*} [LinearOrder κ] (key : α → κ)

/-- `o` is an order of the rows in which the keys do not decrease. -/
structure Ordered (rows o : List α) : Prop where
  perm : o.Perm rows
  sorted : o.Pairwise fun a b => key a ≤ key b

/-- Rows with the key `d` stand in front of the place `i` and behind it. -/
def Straddles (rows : List α) (d : κ) (i : ℕ) : Prop :=
  rows.countP (key · < d) < i ∧ i < rows.countP (key · ≤ d)

/-- The page with the number `p`, of `m` rows. -/
def page (m : ℕ) (o : List α) (p : ℕ) : List α := (o.drop (m * p)).take m

variable {key} {rows o o' : List α} {d : κ} {i m : ℕ}

/-- The rows up to a key are at the front. -/
theorem filter_le_eq_take (h : o.Pairwise fun a b => key a ≤ key b) (d : κ) :
    o.filter (key · ≤ d) = o.take (o.countP (key · ≤ d)) := by
  induction o with
  | nil => rfl
  | cons a o ih =>
    rw [List.pairwise_cons] at h
    by_cases ha : key a ≤ d
    · rw [List.filter_cons_of_pos (by simpa using ha), List.countP_cons_of_pos (by simpa using ha),
        List.take_succ_cons, ih h.2]
    · have hnone : ∀ b ∈ a :: o, ¬ key b ≤ d := by
        intro b hb hle
        rcases List.mem_cons.mp hb with rfl | hmem
        · exact ha hle
        · exact ha ((h.1 b hmem).trans hle)
      rw [List.filter_eq_nil_iff.mpr (by simpa using hnone),
        List.countP_eq_zero.mpr (by simpa using hnone), List.take_zero]

/-- The key of a row bounds the number of smaller ones. -/
theorem countP_lt_le (h : o.Pairwise fun a b => key a ≤ key b) (hi : i < o.length) :
    o.countP (key · < key o[i]) ≤ i := by
  have hsplit : o.countP (key · < key o[i]) =
      (o.take i).countP (key · < key o[i]) + (o.drop i).countP (key · < key o[i]) := by
    rw [← List.countP_append, List.take_append_drop]
  have hnone : (o.drop i).countP (key · < key o[i]) = 0 := by
    rw [List.countP_eq_zero]
    intro b hb
    rw [List.drop_eq_getElem_cons hi] at hb
    have hdrop := h.sublist (List.drop_sublist i o)
    rw [List.drop_eq_getElem_cons hi, List.pairwise_cons] at hdrop
    rcases List.mem_cons.mp hb with rfl | hmem
    · simp
    · simpa using hdrop.1 b hmem
  have hfront := List.countP_le_length (p := fun b => decide (key b < key o[i])) (l := o.take i)
  rw [List.length_take] at hfront
  omega

/-- A row and the rows in front of it have keys up to its own. -/
theorem lt_countP_le (h : o.Pairwise fun a b => key a ≤ key b) (hi : i < o.length) :
    i < o.countP (key · ≤ key o[i]) := by
  have hsplit : o = o.take i ++ o[i] :: o.drop (i + 1) := by
    rw [← List.drop_eq_getElem_cons hi, List.take_append_drop]
  have hfront : ∀ b ∈ o.take i, key b ≤ key o[i] := by
    rw [hsplit, List.pairwise_append] at h
    intro b hb
    exact h.2.2 b hb o[i] (List.mem_cons_self ..)
  have hcount : (o.take i).countP (key · ≤ key o[i]) = i := by
    rw [List.countP_eq_length.mpr (by simpa using hfront), List.length_take]
    omega
  calc i < (o.take i).countP (key · ≤ key o[i]) + (o.drop i).countP (key · ≤ key o[i]) := by
        rw [hcount, List.drop_eq_getElem_cons hi, List.countP_cons_of_pos (by simp)]
        omega
    _ = o.countP (key · ≤ key o[i]) := by
        rw [← List.countP_append, List.take_append_drop]

/-- Where no group of equal keys is cut, the rows in front of the place are the same in every
order. -/
theorem take_perm (h : Ordered key rows o) (h' : Ordered key rows o')
    (hi : ∀ d, ¬ Straddles key rows d i) : (o.take i).Perm (o'.take i) := by
  by_cases hlen : i < o.length
  swap
  · have hsame : o'.length = o.length := (h'.perm.trans h.perm.symm).length_eq
    rw [List.take_of_length_le (by omega), List.take_of_length_le (by omega)]
    exact h.perm.trans h'.perm.symm
  by_cases hzero : i = 0
  · subst hzero
    rw [List.take_zero, List.take_zero]
  have hprev : i - 1 < o.length := by omega
  let d := key o[i - 1]
  have hsmaller : rows.countP (key · < d) ≤ i - 1 := by
    rw [← h.perm.countP_eq]
    exact countP_lt_le h.sorted hprev
  have hupto : i - 1 < rows.countP (key · ≤ d) := by
    rw [← h.perm.countP_eq]
    exact lt_countP_le h.sorted hprev
  have hcount : rows.countP (key · ≤ d) = i := by
    have hcut := hi d
    rw [Straddles, not_and] at hcut
    have hle := hcut (by omega)
    omega
  have htake : o.filter (key · ≤ d) = o.take i := by
    rw [filter_le_eq_take h.sorted, h.perm.countP_eq, hcount]
  have htake' : o'.filter (key · ≤ d) = o'.take i := by
    rw [filter_le_eq_take h'.sorted, h'.perm.countP_eq, hcount]
  rw [← htake, ← htake']
  exact (h.perm.trans h'.perm.symm).filter _

/-- Pages of which none cuts a group hold together what stands in front of their end. -/
theorem pages_perm {os : ℕ → List α} (hos : ∀ p, Ordered key rows (os p))
    (hcut : ∀ p d, ¬ Straddles key rows d (m * p)) (n : ℕ) :
    ∀ o, Ordered key rows o →
      ((List.range n).flatMap fun p => page m (os p) p).Perm (o.take (m * n)) := by
  induction n with
  | zero =>
    intro o _
    rw [Nat.mul_zero, List.take_zero]
    exact List.Perm.refl []
  | succ n ih =>
    intro o ho
    rw [List.range_succ, List.flatMap_append, List.flatMap_singleton]
    refine ((ih (os n) (hos n)).append_right _).trans ?_
    rw [page, ← List.take_add]
    exact take_perm (hos n) ho (hcut (n + 1))

section Orders

variable (key) (rows)

/-- Some order of the rows. -/
theorem exists_ordered : ∃ o, Ordered key rows o := by
  classical
  let r := fun a b : α => key a ≤ key b
  have htotal : Std.Total r := ⟨fun a b => le_total (key a) (key b)⟩
  have htrans : IsTrans α r := ⟨fun a b c => le_trans⟩
  exact ⟨rows.insertionSort r, List.perm_insertionSort r rows, List.pairwise_insertionSort r rows⟩

end Orders

/-- Where a group of equal keys is cut, a row stands on both sides of the place in some orders. -/
theorem exists_twice (h : Straddles key rows d (i + 1)) :
    ∃ o o' x, Ordered key rows o ∧ Ordered key rows o' ∧ o[i]? = some x ∧ o'[i + 1]? = some x := by
  obtain ⟨o, ho⟩ := exists_ordered key rows
  obtain ⟨hless, hmore⟩ := h
  rw [← ho.perm.countP_eq] at hless hmore
  have hlen : i + 1 < o.length := Nat.lt_of_lt_of_le hmore List.countP_le_length
  have hupto : ∀ j, (hj : j < o.length) → j ≤ i + 1 → key o[j] ≤ d := by
    intro j hj hle
    have hmem : o[j] ∈ o.filter (key · ≤ d) := by
      rw [filter_le_eq_take ho.sorted, List.mem_take_iff_getElem]
      exact ⟨j, by omega, rfl⟩
    simpa using (List.mem_filter.mp hmem).2
  have hfrom : ∀ j, (hj : j < o.length) → i ≤ j → d ≤ key o[j] := by
    intro j hj hle
    by_contra hlt
    have hmono : o.countP (key · ≤ key o[j]) ≤ o.countP (key · < d) := by
      refine List.countP_mono_left fun b _ hb => ?_
      simp only [decide_eq_true_eq] at hb ⊢
      exact hb.trans_lt (not_le.mp hlt)
    have hcount := lt_countP_le ho.sorted hj
    omega
  have hsame : key o[i] = key o[i + 1] :=
    le_antisymm ((hupto i (by omega) (by omega)).trans (hfrom (i + 1) hlen (by omega)))
      ((hupto (i + 1) hlen (by omega)).trans (hfrom i (by omega) (by omega)))
  have hsplit : o = o.take i ++ o[i] :: o[i + 1] :: o.drop (i + 2) := by
    rw [← List.drop_eq_getElem_cons hlen, ← List.drop_eq_getElem_cons (by omega),
      List.take_append_drop]
  have hfront : (o.take i).length = i := by
    rw [List.length_take]
    omega
  -- the two rows change places
  refine ⟨o, o.take i ++ o[i + 1] :: o[i] :: o.drop (i + 2), o[i], ho, ⟨?_, ?_⟩,
    List.getElem?_eq_getElem (by omega), ?_⟩
  · refine List.Perm.trans ?_ ho.perm
    conv_rhs => rw [hsplit]
    exact (List.Perm.swap _ _ _).append_left _
  · have hkeys : (o.take i ++ o[i + 1] :: o[i] :: o.drop (i + 2)).map key = o.map key := by
      conv_rhs => rw [hsplit]
      simp only [List.map_append, List.map_cons, hsame]
    have hsorted := List.pairwise_map.mpr ho.sorted
    rw [← hkeys] at hsorted
    exact List.pairwise_map.mp hsorted
  · rw [List.getElem?_append_right (by omega), hfront, Nat.add_sub_cancel_left]
    rfl

end MuduoServer.TiedPages
