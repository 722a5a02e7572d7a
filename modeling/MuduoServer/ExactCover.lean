import Mathlib.Data.Finset.Disjoint
import Mathlib.Data.Finset.SDiff
import Mathlib.Data.List.Pairwise
import Mathlib.Data.List.Perm.Basic
import Mathlib.Tactic.Common

/-!
Exact covers: rows that contain each element of a set just once. A cover can be looked for by
its elements: some row of it contains a given element, and the others cover what this row
leaves. No order of the rows and no choice of the element matters.
-/
namespace MuduoServer.ExactCovers

universe u v

variable {R : Type u} {C : Type v} {rows : R → Prop} {cells : R → Finset C}
  {A : Finset C} {T T' : List R} {r r' : R} {c : C}

/-- Rows that are pairwise disjoint and that together make up `A`. -/
structure ExactCover (rows : R → Prop) (cells : R → Finset C) (A : Finset C) (T : List R) :
    Prop where
  rows : ∀ r ∈ T, rows r
  disjoint : T.Pairwise fun r r' => Disjoint (cells r) (cells r')
  union : ∀ c, c ∈ A ↔ ∃ r ∈ T, c ∈ cells r

theorem exactCover_nil : ExactCover rows cells A [] ↔ A = ∅ := by
  constructor
  · intro h
    rw [Finset.eq_empty_iff_forall_notMem]
    intro c hc
    obtain ⟨r, hr, -⟩ := (h.union c).1 hc
    exact absurd hr List.not_mem_nil
  · rintro rfl
    exact ⟨by simp, List.Pairwise.nil, by simp⟩

theorem ExactCover.perm (h : ExactCover rows cells A T) (hperm : T.Perm T') :
    ExactCover rows cells A T' := by
  refine ⟨fun r hr => h.rows r (hperm.mem_iff.2 hr), ?_, fun c => ?_⟩
  · exact (hperm.pairwise_iff fun hd => hd.symm).1 h.disjoint
  · rw [h.union c]
    simp only [hperm.mem_iff]

/-- An element belongs to one row only. -/
theorem ExactCover.unique (h : ExactCover rows cells A T) (hr : r ∈ T) (hr' : r' ∈ T)
    (hc : c ∈ cells r) (hc' : c ∈ cells r') : r = r' := by
  by_contra hne
  have hsymm : Std.Symm fun r r' => Disjoint (cells r) (cells r') := ⟨fun _ _ hd => hd.symm⟩
  have hdisj := h.disjoint.forall hr hr' hne
  exact Finset.disjoint_left.1 hdisj hc hc'

variable [DecidableEq C]

theorem exactCover_cons :
    ExactCover rows cells A (r :: T) ↔
      rows r ∧ cells r ⊆ A ∧ ExactCover rows cells (A \ cells r) T := by
  constructor
  · intro h
    obtain ⟨hdisj, hrest⟩ := List.pairwise_cons.1 h.disjoint
    refine ⟨h.rows r List.mem_cons_self, fun c hc => (h.union c).2 ⟨r, List.mem_cons_self, hc⟩,
      fun r' hr' => h.rows r' (List.mem_cons_of_mem r hr'), hrest, fun c => ?_⟩
    rw [Finset.mem_sdiff, h.union c]
    constructor
    · rintro ⟨⟨r', hr', hc⟩, hnot⟩
      rcases List.mem_cons.1 hr' with rfl | hin
      · exact absurd hc hnot
      · exact ⟨r', hin, hc⟩
    · rintro ⟨r', hr', hc⟩
      exact ⟨⟨r', List.mem_cons_of_mem r hr', hc⟩, fun hin =>
        Finset.disjoint_left.1 (hdisj r' hr') hin hc⟩
  · rintro ⟨hr, hsub, h⟩
    refine ⟨fun r' hr' => ?_, List.pairwise_cons.2 ⟨fun r' hr' => ?_, h.disjoint⟩, fun c => ?_⟩
    · rcases List.mem_cons.1 hr' with rfl | hin
      · exact hr
      · exact h.rows r' hin
    · rw [Finset.disjoint_right]
      exact fun c hc => (Finset.mem_sdiff.1 ((h.union c).2 ⟨r', hr', hc⟩)).2
    · have hrest := h.union c
      rw [Finset.mem_sdiff] at hrest
      by_cases hc : c ∈ cells r
      · exact iff_of_true (hsub hc) ⟨r, List.mem_cons_self, hc⟩
      · rw [← and_iff_left hc (a := c ∈ A), hrest]
        simp [hc]

/-- There is a cover just when some row with `c` leaves what can be covered. -/
theorem exists_exactCover_iff (hc : c ∈ A) :
    (∃ T, ExactCover rows cells A T) ↔
      ∃ r, rows r ∧ c ∈ cells r ∧ cells r ⊆ A ∧ ∃ T, ExactCover rows cells (A \ cells r) T := by
  constructor
  · rintro ⟨T, h⟩
    obtain ⟨r, hr, hcr⟩ := (h.union c).1 hc
    obtain ⟨T₁, T₂, rfl⟩ := List.append_of_mem hr
    have hfirst := h.perm List.perm_middle
    obtain ⟨hrow, hsub, hrest⟩ := exactCover_cons.1 hfirst
    exact ⟨r, hrow, hcr, hsub, _, hrest⟩
  · rintro ⟨r, hrow, -, hsub, T, hrest⟩
    exact ⟨r :: T, exactCover_cons.2 ⟨hrow, hsub, hrest⟩⟩

end MuduoServer.ExactCovers
