import Mathlib.Algebra.BigOperators.Intervals
import Mathlib.Order.Interval.Finset.Basic

/-!
Sums of a step function. Each item of a finite set has a time and a value that holds from
then on until the time of the next item, the last one until an end. The values, each
counted as often as it holds, have the same sum as the values that hold at each time.
-/
namespace MuduoServer.StepSums

open Finset

variable {ι α M : Type*} [DecidableEq ι] [LinearOrder α] [LocallyFiniteOrder α] [AddCommMonoid M]

variable {R : Finset ι} {time : ι → α} {a e : α}

/-- `cover x` is the latest item that is not after the time `x`. -/
structure Covers (R : Finset ι) (time : ι → α) (a : α) (cover : α → ι) : Prop where
  mem : ∀ x, a ≤ x → cover x ∈ R
  le : ∀ x, a ≤ x → time (cover x) ≤ x
  greatest : ∀ x, a ≤ x → ∀ r ∈ R, time r ≤ x → time r ≤ time (cover x)

/-- `next r` is the time of the item after `r`, or the end. -/
structure Follows (R : Finset ι) (time : ι → α) (e : α) (next : ι → α) : Prop where
  mem : ∀ r ∈ R, next r = e ∨ ∃ r' ∈ R, time r < time r' ∧ next r = time r'
  le_end : ∀ r ∈ R, next r ≤ e
  le : ∀ r ∈ R, ∀ r' ∈ R, time r < time r' → next r ≤ time r'

/-- The times at which the value of `r` holds. -/
theorem filter_cover_eq {cover : α → ι} {next : ι → α} (hinj : Set.InjOn time R)
    (hstart : ∀ r ∈ R, a ≤ time r) (hcover : Covers R time a cover)
    (hnext : Follows R time e next) {r : ι} (hr : r ∈ R) :
    (Ico a e).filter (fun x => cover x = r) = Ico (time r) (next r) := by
  ext x
  simp only [mem_filter, mem_Ico]
  constructor
  · rintro ⟨⟨hax, hxe⟩, rfl⟩
    refine ⟨hcover.le x hax, ?_⟩
    rcases hnext.mem (cover x) hr with hend | ⟨r', hr', hlt, heq⟩
    · rwa [hend]
    · rw [heq]
      by_contra hle
      exact absurd (hcover.greatest x hax r' hr' (not_lt.mp hle)) (not_le.mpr hlt)
  · rintro ⟨hrx, hxn⟩
    have hax : a ≤ x := (hstart r hr).trans hrx
    refine ⟨⟨hax, hxn.trans_le (hnext.le_end r hr)⟩, ?_⟩
    have hle := hcover.greatest x hax r hr hrx
    rcases hle.lt_or_eq with hlt | heq
    · have hcontra := hnext.le r hr (cover x) (hcover.mem x hax) hlt
      exact absurd (hxn.trans_le (hcontra.trans (hcover.le x hax))) (lt_irrefl x)
    · exact (hinj hr (hcover.mem x hax) heq).symm

theorem sum_steps {cover : α → ι} {next : ι → α} (hinj : Set.InjOn time R)
    (hstart : ∀ r ∈ R, a ≤ time r) (hcover : Covers R time a cover)
    (hnext : Follows R time e next) (f : ι → M) :
    ∑ r ∈ R, (Ico (time r) (next r)).card • f r = ∑ x ∈ Ico a e, f (cover x) := by
  have hmaps : ∀ x ∈ Ico a e, cover x ∈ R := fun x hx => hcover.mem x (mem_Ico.mp hx).1
  rw [← sum_fiberwise_of_maps_to hmaps]
  refine sum_congr rfl ?_
  intro r hr
  rw [← filter_cover_eq hinj hstart hcover hnext hr, ← sum_const]
  refine sum_congr rfl ?_
  intro x hx
  rw [(mem_filter.mp hx).2]

end MuduoServer.StepSums
