import Mathlib.Data.List.Basic

/-!
Blocks of consecutive elements of a list, as a flat array is read and written:
the block between two indexes, overwriting in place, `vector::resize`, and the
element-by-element forward copy of `std::copy`. The forward copy equals the
block move when the destination does not lie after the source, also when the
two blocks overlap.
-/
namespace MuduoServer.Block

variable {α : Type*}

/-- The elements at the indexes `i, ..., j - 1`. -/
def slice (l : List α) (i j : ℕ) : List α := (l.take j).drop i

def overwrite (l : List α) (i : ℕ) (xs : List α) : List α :=
  l.take i ++ xs ++ l.drop (i + xs.length)

/-- `vector::resize(n)`: new elements are `fill`. -/
def resize (fill : α) (l : List α) (n : ℕ) : List α :=
  l.take n ++ List.replicate (n - l.length) fill

/-- `std::copy` of `n` elements from index `src` to index `dst`, one at a time
and in increasing order. -/
def copyForward (l : List α) (src dst : ℕ) : ℕ → List α
  | 0 => l
  | n + 1 =>
      match l[src]? with
      | some a => copyForward (l.set dst a) (src + 1) (dst + 1) n
      | none => l

theorem length_slice (l : List α) (i j : ℕ) (hj : j ≤ l.length) :
    (slice l i j).length = j - i := by
  simp only [slice, List.length_drop, List.length_take]
  omega

theorem slice_self (l : List α) (i : ℕ) : slice l i i = [] := by
  simp [slice]

theorem drop_slice (l : List α) (i j k : ℕ) : (slice l i j).drop k = slice l (i + k) j := by
  simp [slice]

theorem length_overwrite (l xs : List α) (i : ℕ) (h : i + xs.length ≤ l.length) :
    (overwrite l i xs).length = l.length := by
  simp only [overwrite, List.length_append, List.length_take, List.length_drop]
  omega

theorem take_overwrite (l xs : List α) {i : ℕ} (hi : i ≤ l.length) :
    (overwrite l i xs).take (i + xs.length) = l.take i ++ xs := by
  apply List.take_left'
  rw [List.length_append, List.length_take_of_le hi]

/-- Elements in the middle are replaced by as many others. -/
theorem overwrite_middle {front old xs rest : List α} (h : xs.length = old.length) :
    overwrite (front ++ old ++ rest) front.length xs = front ++ xs ++ rest := by
  rw [overwrite, h, ← List.length_append, List.drop_left, List.append_assoc front old,
    List.take_left]

/-- Writing where the last block ends writes one longer block. -/
theorem overwrite_append {l xs ys : List α} {i : ℕ} (h : i ≤ l.length) :
    overwrite (overwrite l i xs) (i + xs.length) ys = overwrite l i (xs ++ ys) := by
  have hlen : (l.take i ++ xs).length = i + xs.length := by
    rw [List.length_append, List.length_take, Nat.min_eq_left h]
  have hdrop : (l.take i ++ xs ++ l.drop (i + xs.length)).drop (i + xs.length + ys.length) =
      l.drop (i + (xs ++ ys).length) := by
    rw [← List.drop_drop, List.drop_left' hlen, List.drop_drop, List.length_append, Nat.add_assoc]
  rw [overwrite, overwrite, List.take_left' hlen, hdrop, overwrite, List.append_assoc,
    List.append_assoc, List.append_assoc, List.append_assoc]

/-- Writing again over the first part of a block. -/
theorem overwrite_again {l xs ys zs : List α} {i : ℕ} (h : i ≤ l.length)
    (hlen : zs.length = xs.length) :
    overwrite (overwrite l i (xs ++ ys)) i zs = overwrite l i (zs ++ ys) := by
  have htake : (l.take i).length = i := List.length_take_of_le h
  have hmiddle : overwrite (l.take i ++ xs ++ (ys ++ l.drop (i + (xs ++ ys).length)))
      (l.take i).length zs = l.take i ++ zs ++ (ys ++ l.drop (i + (xs ++ ys).length)) :=
    overwrite_middle hlen
  rw [htake] at hmiddle
  simp only [overwrite, List.append_assoc, List.length_append, hlen] at hmiddle ⊢
  exact hmiddle

theorem slice_overwrite {l xs ys : List α} {i : ℕ} (h : i ≤ l.length) :
    slice (overwrite l i (xs ++ ys)) i (i + xs.length) = xs := by
  have hlen : (l.take i ++ xs).length = i + xs.length := by
    rw [List.length_append, List.length_take, Nat.min_eq_left h]
  rw [slice, overwrite, ← List.append_assoc, List.append_assoc (l.take i ++ xs),
    List.take_left' hlen, List.drop_left' (List.length_take_of_le h)]

theorem length_resize (fill : α) (l : List α) (n : ℕ) : (resize fill l n).length = n := by
  simp only [resize, List.length_append, List.length_take, List.length_replicate]
  omega

/-- Writing at the end of a block appends to it, up to any place in what is written. -/
theorem slice_overwrite_prefix (l xs ys : List α) (i j : ℕ) (hij : i ≤ j) (hj : j ≤ l.length) :
    slice (overwrite l j (xs ++ ys)) i (j + xs.length) = slice l i j ++ xs := by
  have hlen : (l.take j).length = j := by simp only [List.length_take, Nat.min_eq_left hj]
  have htake : (l.take j ++ (xs ++ ys) ++ l.drop (j + (xs ++ ys).length)).take (j + xs.length) =
      l.take j ++ xs := by
    rw [← List.append_assoc, List.append_assoc (l.take j ++ xs)]
    apply List.take_left'
    rw [List.length_append, hlen]
  rw [slice, overwrite, htake, List.drop_append_of_le_length (by omega), slice]

theorem slice_overwrite_end (l xs : List α) (i j : ℕ) (hij : i ≤ j) (hj : j ≤ l.length) :
    slice (overwrite l j xs) i (j + xs.length) = slice l i j ++ xs := by
  have hprefix := slice_overwrite_prefix l xs [] i j hij hj
  rwa [List.append_nil] at hprefix

/-- Writing just before a block prepends to it. -/
theorem slice_overwrite_start (l xs : List α) (i j : ℕ) (hi : i + xs.length ≤ j)
    (hj : j ≤ l.length) :
    slice (overwrite l i xs) i j = xs ++ slice l (i + xs.length) j := by
  have hlen : (l.take i).length = i := by
    simp only [List.length_take]
    omega
  have hrest : (l.drop (i + xs.length)).take (j - (i + xs.length)) =
      slice l (i + xs.length) j := by
    rw [slice, List.drop_take]
  have htake : (l.take i ++ (xs ++ l.drop (i + xs.length))).take j =
      l.take i ++ (xs ++ slice l (i + xs.length) j) := by
    rw [List.take_append, List.take_append, hlen,
      List.take_of_length_le (l := l.take i) (by omega),
      List.take_of_length_le (l := xs) (by omega), Nat.sub_sub, hrest]
  rw [slice, overwrite, List.append_assoc, htake, List.drop_left' hlen]

theorem slice_resize (fill : α) (l : List α) (i j n : ℕ) (hj : j ≤ l.length) (hn : j ≤ n) :
    slice (resize fill l n) i j = slice l i j := by
  have hle : j ≤ (l.take n).length := by
    simp only [List.length_take]
    omega
  rw [slice, resize, List.take_append_of_le_length hle, List.take_take, Nat.min_eq_left hn, slice]

private theorem getElem?_copyForward (n : ℕ) (l : List α) (src dst : ℕ) (hle : dst ≤ src)
    (hsrc : src + n ≤ l.length) (k : ℕ) :
    (copyForward l src dst n)[k]? =
      if dst ≤ k ∧ k < dst + n then l[src + (k - dst)]? else l[k]? := by
  induction n generalizing l src dst with
  | zero =>
    simp only [copyForward]
    rw [if_neg (by omega)]
  | succ n ih =>
    have hlt : src < l.length := by omega
    simp only [copyForward, List.getElem?_eq_getElem hlt]
    rw [ih (l.set dst l[src]) (src + 1) (dst + 1) (by omega) (by rw [List.length_set]; omega)]
    by_cases hk : k = dst
    · subst hk
      rw [if_neg (by omega), if_pos (by omega), List.getElem?_set_self (by omega)]
      simp [List.getElem?_eq_getElem hlt]
    · by_cases hin : dst + 1 ≤ k ∧ k < dst + 1 + n
      · rw [if_pos hin, if_pos (by omega), List.getElem?_set_ne (by omega)]
        congr 1
        omega
      · rw [if_neg hin, if_neg (by omega), List.getElem?_set_ne (fun h => hk h.symm)]

private theorem getElem?_overwrite (l xs : List α) (i k : ℕ) (h : i + xs.length ≤ l.length) :
    (overwrite l i xs)[k]? =
      if i ≤ k ∧ k < i + xs.length then xs[k - i]? else l[k]? := by
  have hlen : (l.take i).length = i := by
    simp only [List.length_take]
    omega
  rw [overwrite, List.append_assoc]
  by_cases h1 : k < i
  · rw [if_neg (by omega), List.getElem?_append_left (by omega), List.getElem?_take_of_lt h1]
  · rw [List.getElem?_append_right (by omega), hlen]
    by_cases h2 : k < i + xs.length
    · rw [if_pos ⟨by omega, h2⟩, List.getElem?_append_left (by omega)]
    · rw [if_neg (by omega), List.getElem?_append_right (by omega), List.getElem?_drop]
      congr 1
      omega

/-- The forward copy moves the source block as it was before the copy. -/
theorem copyForward_eq (l : List α) (src dst n : ℕ) (hle : dst ≤ src)
    (hsrc : src + n ≤ l.length) :
    copyForward l src dst n = overwrite l dst (slice l src (src + n)) := by
  have hlen : (slice l src (src + n)).length = n := by
    rw [length_slice l src (src + n) hsrc]
    omega
  apply List.ext_getElem?
  intro k
  rw [getElem?_copyForward n l src dst hle hsrc,
    getElem?_overwrite l _ dst k (by omega), hlen]
  by_cases hk : dst ≤ k ∧ k < dst + n
  · rw [if_pos hk, if_pos hk, slice, List.getElem?_drop, List.getElem?_take_of_lt (by omega)]
  · rw [if_neg hk, if_neg hk]

end MuduoServer.Block
