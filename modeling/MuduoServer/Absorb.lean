import Mathlib.Data.List.Basic

/-!
A function that takes blocks of one size, folded over a stream. All whole blocks of the
stream are taken and what is left of it waits; the stream may come in any pieces, because
the rest of one piece stands in front of the next.
-/
namespace MuduoServer.Absorb

variable {σ α : Type*} (n : ℕ) (compress : σ → List α → σ)

/-- The state after the whole blocks of `l`, and the elements that are left. -/
def absorb (s : σ) (l : List α) : σ × List α :=
  if 0 < n ∧ n ≤ l.length then absorb (compress s (l.take n)) (l.drop n) else (s, l)
termination_by l.length
decreasing_by
  rw [List.length_drop]
  omega

variable {n} {compress}

theorem absorb_short {l : List α} (h : l.length < n) (s : σ) :
    absorb n compress s l = (s, l) := by
  rw [absorb, if_neg (by omega)]

theorem absorb_block (hn : 0 < n) {l : List α} (h : n ≤ l.length) (s : σ) :
    absorb n compress s l = absorb n compress (compress s (l.take n)) (l.drop n) := by
  rw [absorb, if_pos ⟨hn, h⟩]

/-- One block in front of a stream. -/
theorem absorb_block_append (hn : 0 < n) {block : List α} (h : block.length = n) (s : σ)
    (l : List α) :
    absorb n compress s (block ++ l) = absorb n compress (compress s block) l := by
  rw [absorb_block hn (by rw [List.length_append]; omega), List.take_left' h, List.drop_left' h]

theorem length_absorb (hn : 0 < n) (s : σ) (l : List α) :
    (absorb n compress s l).2.length = l.length % n := by
  fun_induction absorb n compress s l with
  | case1 s l h ih =>
    rw [ih, List.length_drop]
    exact (Nat.mod_eq_sub_mod h.2).symm
  | case2 s l h =>
    have hlt : l.length < n := by omega
    exact (Nat.mod_eq_of_lt hlt).symm

/-- The rest of the first piece goes in front of the second one. -/
theorem absorb_append (hn : 0 < n) (s : σ) (l l' : List α) :
    absorb n compress s (l ++ l') =
      absorb n compress (absorb n compress s l).1 ((absorb n compress s l).2 ++ l') := by
  fun_induction absorb n compress s l with
  | case1 s l h ih =>
    rw [← ih]
    conv_lhs => rw [← List.take_append_drop n l, List.append_assoc]
    exact absorb_block_append hn (List.length_take_of_le h.2) s _
  | case2 s l h => rfl

end MuduoServer.Absorb
