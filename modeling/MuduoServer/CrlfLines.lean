import Mathlib.Data.List.Basic
import Mathlib.Tactic.Common

/-!
Byte streams in lines that end with CR LF. Searching for the first CR LF and cutting
there is the same for a stream and for any longer one once the line is complete, so the
lines of a stream do not depend on how it arrives.
-/
namespace MuduoServer.CrlfLines

def cr : UInt8 := 13

def lf : UInt8 := 10

/-- The position of the first CR LF. -/
def search : List UInt8 → Option ℕ
  | a :: b :: rest => if a = cr ∧ b = lf then some 0 else (search (b :: rest)).map (· + 1)
  | _ => none

/-- The end of a line. -/
def crlf : List UInt8 := [cr, lf]

@[simp] theorem length_crlf : crlf.length = 2 := rfl

/-- The complete lines, without their ends. -/
def lines : List UInt8 → List (List UInt8)
  | a :: b :: rest =>
      if a = cr ∧ b = lf then [] :: lines rest
      else
        match lines (b :: rest) with
        | [] => []
        | l :: ls => (a :: l) :: ls
  | _ => []

/-- The number of places with a CR LF. -/
def crlfs (q : List UInt8) : ℕ := (q.zip q.tail).countP fun p => p.1 = cr ∧ p.2 = lf

-- The two functions' principles, made here once for the inductions below.
attribute [elab_as_elim] search.induct_unfolding lines.induct_unfolding

theorem search_bound {q : List UInt8} {k : ℕ} (h : search q = some k) : k + 2 ≤ q.length := by
  fun_induction search q generalizing k with
  | case1 a b rest hend =>
    obtain rfl := Option.some.inj h
    simp
  | case2 a b rest hend ih =>
    obtain ⟨j, hj, rfl⟩ := Option.map_eq_some_iff.mp h
    have hlen := ih hj
    simp only [List.length_cons] at hlen ⊢
    omega
  | case3 q hshort => cases h

theorem search_of_notMem {q : List UInt8} (h : cr ∉ q) : search q = none := by
  fun_induction search q with
  | case1 a b rest hend => exact absurd hend.1.symm (List.ne_of_not_mem_cons h)
  | case2 a b rest hend ih => rw [ih (List.not_mem_of_not_mem_cons h), Option.map_none]
  | case3 q hshort => rfl

theorem search_append {q : List UInt8} {k : ℕ} (h : search q = some k) (d : List UInt8) :
    search (q ++ d) = some k := by
  fun_induction search q generalizing k with
  | case1 a b rest hend =>
    obtain rfl := Option.some.inj h
    simp [search, hend]
  | case2 a b rest hend ih =>
    obtain ⟨j, hj, rfl⟩ := Option.map_eq_some_iff.mp h
    have hrest := ih hj
    rw [List.cons_append] at hrest
    simp [search, hend, hrest]
  | case3 q hshort => cases h

/-- A line without CR LF inside is found up to its end. -/
theorem search_line {l : List UInt8} (h : search l = none) (q : List UInt8) :
    search (l ++ crlf ++ q) = some l.length := by
  fun_induction search l with
  | case1 a b rest hend => cases h
  | case2 a b rest hend ih =>
    have hrest := ih (Option.map_eq_none_iff.mp h)
    simp only [List.cons_append] at hrest ⊢
    rw [search, if_neg hend, hrest]
    rfl
  | case3 l hshort =>
    match l, hshort with
    | [], _ => rfl
    | [a], _ => simp [crlf, search, cr, lf]
    | a :: b :: rest, hshort => exact absurd rfl (hshort a b rest)

/-- A stream with a complete line is that line, its end and the rest. -/
theorem eq_of_search {q : List UInt8} {k : ℕ} (h : search q = some k) :
    search (q.take k) = none ∧ q = q.take k ++ crlf ++ q.drop (k + 2) := by
  fun_induction search q generalizing k with
  | case1 a b rest hend =>
    obtain rfl := Option.some.inj h
    obtain ⟨rfl, rfl⟩ := hend
    exact ⟨rfl, rfl⟩
  | case2 a b rest hend ih =>
    obtain ⟨j, hj, rfl⟩ := Option.map_eq_some_iff.mp h
    obtain ⟨hnone, hsplit⟩ := ih hj
    refine ⟨?_, by simpa using congrArg (List.cons a) hsplit⟩
    cases j with
    | zero => rfl
    | succ j =>
      rw [List.take_succ_cons] at hnone ⊢
      rw [List.take_succ_cons]
      simp [search, hend, hnone]
  | case3 q hshort => cases h

/-- The first line and the lines of what follows it. -/
theorem lines_of_search {q : List UInt8} {k : ℕ} (h : search q = some k) :
    lines q = q.take k :: lines (q.drop (k + 2)) := by
  fun_induction search q generalizing k with
  | case1 a b rest hend =>
    obtain rfl := Option.some.inj h
    simp [lines, hend]
  | case2 a b rest hend ih =>
    obtain ⟨j, hj, rfl⟩ := Option.map_eq_some_iff.mp h
    simp [lines, hend, ih hj]
  | case3 q hshort => cases h

theorem lines_of_none {q : List UInt8} (h : search q = none) : lines q = [] := by
  fun_induction search q with
  | case1 a b rest hend => cases h
  | case2 a b rest hend ih =>
    simp [lines, hend, ih (Option.map_eq_none_iff.mp h)]
  | case3 q hshort =>
    unfold lines
    split
    · rename_i a b rest
      exact absurd rfl (hshort a b rest)
    · rfl

theorem lines_append {q : List UInt8} {k : ℕ} (h : search q = some k) (d : List UInt8) :
    lines (q ++ d) = q.take k :: lines (q.drop (k + 2) ++ d) := by
  have hlen := search_bound h
  rw [lines_of_search (search_append h d), List.take_append_of_le_length (by omega),
    List.drop_append_of_le_length hlen]

/-- A longer stream has the lines of the shorter one first. -/
theorem lines_prefix (q d : List UInt8) : ∃ ls, lines (q ++ d) = lines q ++ ls := by
  induction hn : q.length using Nat.strongRecOn generalizing q with
  | _ n ih =>
    cases hk : search q with
    | none => exact ⟨lines (q ++ d), by rw [lines_of_none hk, List.nil_append]⟩
    | some k =>
      have hlen := search_bound hk
      obtain ⟨ls, hls⟩ := ih (q.drop (k + 2)).length (by rw [List.length_drop]; omega) _ rfl
      exact ⟨ls, by rw [lines_append hk, lines_of_search hk, hls, List.cons_append]⟩

theorem crlfs_cons (a b : UInt8) (rest : List UInt8) :
    crlfs (a :: b :: rest) = crlfs (b :: rest) + if a = cr ∧ b = lf then 1 else 0 := by
  simp [crlfs, List.countP_cons]

/-- Two of them do not overlap, so each ends a line of its own. -/
theorem length_lines (q : List UInt8) : (lines q).length = crlfs q := by
  fun_induction lines q with
  | case1 a b rest hend ih =>
    have hlf : crlfs (lf :: rest) = crlfs rest := by
      cases rest with
      | nil => rfl
      | cons c rest => simp [crlfs_cons, cr, lf]
    rw [List.length_cons, ih, crlfs_cons, if_pos hend, hend.2, hlf]
  | case2 a b rest hend hnil ih =>
    rw [crlfs_cons, if_neg hend, ← ih, hnil]
    rfl
  | case3 a b rest hend l ls hlines ih =>
    rw [crlfs_cons, if_neg hend, ← ih, hlines]
    rfl
  | case4 q hshort =>
    match q, hshort with
    | [], _ => rfl
    | [a], _ => rfl
    | a :: b :: rest, hshort => exact absurd rfl (hshort a b rest)

theorem crlfs_of_search {q : List UInt8} {k : ℕ} (h : search q = some k) :
    crlfs q = crlfs (q.drop (k + 2)) + 1 := by
  rw [← length_lines, ← length_lines, lines_of_search h, List.length_cons]

theorem crlfs_le_length (q : List UInt8) : crlfs q ≤ q.length := by
  refine Nat.le_trans List.countP_le_length ?_
  rw [List.length_zip]
  exact Nat.min_le_left _ _

end MuduoServer.CrlfLines
