import Mathlib.Tactic.IntervalCases
import MuduoServer.ByteText
import MuduoServer.SudokuMatrix

/-!
`solveSudoku`: the matrix that the constructor lays out is that of the candidates, and so the
exact covers that `solve` looks for are the solutions of the puzzle.
-/
namespace MuduoServer

open Rings DancingLinks ExactCovers Sudoku

namespace SudokuSolver

variable {board g : ℕ → ℕ} {s : SudokuSolver} {e : ℕ × ℕ} {c j k m n r t : ℕ}

/-- The other nodes of the row of `n`, when the rows of four nodes begin at `1 + m`. -/
def others (m n : ℕ) : List ℕ :=
  let t := (n - (1 + m)) % 4
  let k := n - t
  ([k, k + 1, k + 2, k + 3].rotate t).tail

theorem row_eq_rotate (hk : k = 1 + m + 4 * j) (ht : t < 4) :
    (k + t) :: others m (k + t) = [k, k + 1, k + 2, k + 3].rotate t := by
  have hmod : (k + t - (1 + m)) % 4 = t := by omega
  have hsub : k + t - t = k := by omega
  unfold others
  simp only [hmod, hsub]
  interval_cases t <;> rfl

theorem exists_row (hn : n ∈ List.range' (1 + m) (4 * r)) :
    ∃ j t, j < r ∧ t < 4 ∧ n = 1 + m + 4 * j + t := by
  rw [List.mem_range'_1] at hn
  exact ⟨(n - (1 + m)) / 4, (n - (1 + m)) % 4, by omega, by omega, by omega⟩

/-- The ring of a row, named by any of its nodes. -/
theorem RowAt.ring_others (h : RowAt s k e) (hk : k = 1 + m + 4 * j) (ht : t < 4) :
    Ring s.nodes_.right s.nodes_.left (k + t) (others m (k + t)) := by
  have hrow := row_eq_rotate hk ht
  have hring₁ : Ring s.nodes_.right s.nodes_.left k ([] ++ (k + 1) :: [k + 2, k + 3]) := h.ring
  have hring₂ : Ring s.nodes_.right s.nodes_.left k ([k + 1] ++ (k + 2) :: [k + 3]) := h.ring
  have hring₃ : Ring s.nodes_.right s.nodes_.left k ([k + 1, k + 2] ++ (k + 3) :: []) := h.ring
  interval_cases t
  · rw [(List.cons.inj hrow).2]
    exact h.ring
  · rw [(List.cons.inj hrow).2]
    exact hring₁.rotate
  · rw [(List.cons.inj hrow).2]
    exact hring₂.rotate
  · rw [(List.cons.inj hrow).2]
    exact hring₃.rotate

/-- The candidate of a node. -/
def entryOf (board : ℕ → ℕ) (n : ℕ) : ℕ × ℕ :=
  (candidates board)[(n - (1 + (columnNames board).length)) / 4]?.getD (0, 0)

/-- What is known of a node and of its row. -/
theorem exists_rowAt (hb : Built board (columnNames board) (candidates board) s)
    (hn : n ∈ List.range' (1 + (columnNames board).length) (4 * (candidates board).length)) :
    ∃ k j t, n = k + t ∧ k = 1 + (columnNames board).length + 4 * j ∧ t < 4 ∧
      entryOf board n ∈ candidates board ∧ RowAt s k (entryOf board n) := by
  obtain ⟨j, t, hj, ht, hnt⟩ := exists_row hn
  have hget : (candidates board)[j]? = some (candidates board)[j] := List.getElem?_eq_getElem hj
  have hentry : entryOf board n = (candidates board)[j] := by
    have hdiv : (n - (1 + (columnNames board).length)) / 4 = j := by omega
    rw [entryOf, hdiv, hget, Option.getD_some]
  refine ⟨_, j, t, hnt, rfl, ht, ?_, ?_⟩
  · rw [hentry]
    exact List.getElem_mem hj
  · rw [hentry]
    exact hb.rows j _ hget

/-- The names of a row are the names of its candidate. -/
theorem names_row (hb : Built board (columnNames board) (candidates board) s)
    (hn : n ∈ List.range' (1 + (columnNames board).length) (4 * (candidates board).length)) :
    ((n :: others (columnNames board).length n).map s.name).Perm (rowNames (entryOf board n)) := by
  obtain ⟨k, j, t, rfl, hk, ht, -, hrow⟩ := exists_rowAt hb hn
  rw [row_eq_rotate hk ht, ← hrow.names]
  exact (List.rotate_perm _ t).map s.name

theorem nodup_rowNames (he : e ∈ candidates board) : (rowNames e).Nodup := by
  obtain ⟨⟨hcell, -⟩, hval, -⟩ := mem_candidates.1 he
  have hrow := of_lt .row hcell
  have hcol := of_lt .col hcell
  have hbox := of_lt .box hcell
  unfold kCells at hcell
  simp only [rowNames, getRowCol, getColCol, getBoxCol, kRow, kCol, kBox, List.nodup_cons,
    List.mem_cons, List.not_mem_nil, or_false, not_or, List.nodup_nil, and_true, not_false_eq_true]
  omega

theorem others_mem (hn : n ∈ List.range' (1 + (columnNames board).length)
      (4 * (candidates board).length)) :
    ∀ x ∈ others (columnNames board).length n,
      x ∈ List.range' (1 + (columnNames board).length) (4 * (candidates board).length) := by
  intro x hx
  obtain ⟨j, t, hj, ht, rfl⟩ := exists_row hn
  have hin := List.mem_cons_of_mem (1 + (columnNames board).length + 4 * j + t) hx
  rw [row_eq_rotate rfl ht, List.mem_rotate] at hin
  simp only [List.mem_cons, List.not_mem_nil, or_false] at hin
  rw [List.mem_range'_1]
  omega

theorem nodup_nodes (board : ℕ → ℕ) : (0 :: (List.range' 1 (columnNames board).length ++
    List.range' (1 + (columnNames board).length) (4 * (candidates board).length))).Nodup := by
  rw [List.range'_append_1, List.nodup_cons, List.mem_range'_1]
  exact ⟨by omega, List.nodup_range' ..⟩

/-- The nodes of a row have the same row. -/
theorem row_perm {x : ℕ} (hn : n ∈ List.range' (1 + (columnNames board).length)
      (4 * (candidates board).length)) (hx : x ∈ others (columnNames board).length n) :
    (x :: others (columnNames board).length x).Perm (n :: others (columnNames board).length n) := by
  obtain ⟨j, t, hj, ht, rfl⟩ := exists_row hn
  have hin := List.mem_cons_of_mem (1 + (columnNames board).length + 4 * j + t) hx
  rw [row_eq_rotate rfl ht, List.mem_rotate] at hin
  obtain ⟨t', ht', rfl⟩ : ∃ t' < 4, x = 1 + (columnNames board).length + 4 * j + t' := by
    simp only [List.mem_cons, List.not_mem_nil, or_false] at hin
    exact ⟨x - (1 + (columnNames board).length + 4 * j), by omega, by omega⟩
  rw [row_eq_rotate rfl ht, row_eq_rotate rfl ht']
  exact (List.rotate_perm _ t').trans (List.rotate_perm _ t).symm

section Matrix

variable (hb : Built board (columnNames board) (candidates board) s)
include hb

/-- A name of a row is that of the column in which the node is. -/
theorem name_col (hn : n ∈ List.range' (1 + (columnNames board).length)
      (4 * (candidates board).length)) :
    (1 ≤ s.nodes_.col n ∧ s.nodes_.col n ≤ (columnNames board).length) ∧
      s.name (s.nodes_.col n) = s.name n :=
  (hb.laid.column _ _).1 (hb.laid.col n hn)

theorem nodup_cols (hn : n ∈ List.range' (1 + (columnNames board).length)
      (4 * (candidates board).length)) :
    ((n :: others (columnNames board).length n).map s.nodes_.col).Nodup := by
  obtain ⟨-, -, -, -, -, -, he, -⟩ := exists_rowAt hb hn
  have hnames := (names_row hb hn).nodup_iff.2 (nodup_rowNames he)
  have hmap : (n :: others (columnNames board).length n).map s.name =
      ((n :: others (columnNames board).length n).map s.nodes_.col).map s.name := by
    rw [List.map_map]
    apply List.map_congr_left
    intro x hx
    rcases List.mem_cons.1 hx with rfl | hx
    · exact (name_col hb hn).2.symm
    · exact (name_col hb (others_mem hn x hx)).2.symm
  rw [hmap] at hnames
  exact List.Nodup.of_map s.name hnames

theorem col_mem_heads (hn : n ∈ List.range' (1 + (columnNames board).length)
      (4 * (candidates board).length)) :
    s.nodes_.col n ∈ List.range' 1 (columnNames board).length := by
  have hle := (name_col hb hn).1
  rw [List.mem_range'_1]
  omega

/-- The matrix that the constructor lays out. -/
def matrix : Matrix ℕ where
  root := 0
  heads := List.range' 1 (columnNames board).length
  nodes := List.range' (1 + (columnNames board).length) (4 * (candidates board).length)
  col := s.nodes_.col
  others := others (columnNames board).length
  nodup := nodup_nodes board
  col_mem := fun _ hn => col_mem_heads hb hn
  others_mem := fun _ hn => others_mem hn
  row := fun _ hn _ hx => row_perm hn hx
  cols := fun _ hn => nodup_cols hb hn

/-- The columns that a row meets are those with the names of its candidate. -/
theorem mem_cells_matrix (hn : n ∈ (matrix hb).nodes) :
    c ∈ (matrix hb).cells n ↔ c ∈ (matrix hb).heads ∧ s.name c ∈ rowNames (entryOf board n) := by
  have hnames := names_row hb hn
  have hnode : ∀ x ∈ n :: (matrix hb).others n, x ∈ (matrix hb).nodes := by
    intro x hx
    rcases List.mem_cons.1 hx with rfl | hx
    · exact hn
    · exact (matrix hb).others_mem n hn x hx
  rw [Matrix.mem_cells, ← hnames.mem_iff, List.mem_map]
  constructor
  · rintro ⟨x, hx, rfl⟩
    exact ⟨(matrix hb).col_mem x (hnode x hx), x, hx, (name_col hb (hnode x hx)).2.symm⟩
  · rintro ⟨hc, x, hx, heq⟩
    refine ⟨x, hx, ?_⟩
    have hcol := hb.laid.col x (hnode x hx)
    have hhead : s.columns_ (s.name x) = some c := by
      rw [hb.laid.column]
      have hrange := List.mem_range'_1.1 hc
      exact ⟨by omega, heq.symm⟩
    rw [hcol] at hhead
    exact Option.some.inj hhead

theorem matrix_represents : Represents (matrix hb) (matrix hb).heads.toFinset s.nodes_ := by
  refine ⟨fun d hd => List.mem_toFinset.1 hd, ?_, fun n hn => ?_, fun d hd => ?_, fun n _ => rfl⟩
  · rw [List.filter_eq_self.2 fun d hd => by simpa using hd]
    exact hb.laid.heads
  · obtain ⟨k, j, t, rfl, hk, ht, -, hrow⟩ := exists_rowAt hb hn
    exact hrow.ring_others hk ht
  · have hrange := List.mem_range'_1.1 (List.mem_toFinset.1 hd)
    have hall : (matrix hb).active (matrix hb).heads.toFinset [] d = (matrix hb).column d := by
      apply List.filter_eq_self.2
      intro n hn
      have hcells : (matrix hb).cells n ⊆ (matrix hb).heads.toFinset := fun c hc =>
        List.mem_toFinset.2 ((mem_cells_matrix hb (Matrix.mem_column.1 hn).1).1 hc).1
      simpa using hcells
    rw [hall]
    exact hb.laid.columns d (by omega) (by omega)

theorem matrix_entries : Entries (matrix hb) s.name (entryOf board) := by
  have hmem : ∀ n ∈ (matrix hb).nodes, ∀ x ∈ n :: (matrix hb).others n,
      s.name x ∈ rowNames (entryOf board n) := fun n hn x hx =>
    (names_row hb hn).mem_iff.1 (List.mem_map_of_mem hx)
  have hex : ∀ n ∈ (matrix hb).nodes, ∀ y ∈ rowNames (entryOf board n),
      ∃ x ∈ n :: (matrix hb).others n, s.name x = y := fun n hn y hy =>
    List.mem_map.1 ((names_row hb hn).mem_iff.2 hy)
  have hcand : ∀ n ∈ (matrix hb).nodes, entryOf board n ∈ candidates board := fun n hn => by
    obtain ⟨-, -, -, -, -, -, he, -⟩ := exists_rowAt hb hn
    exact he
  refine ⟨fun n hn x hx hlt => ?_, fun n hn x hx hge => ?_, fun n hn => ?_, fun n hn => ?_⟩
  · rcases mem_rowNames.1 (hmem n hn x hx) with heq | ⟨h, heq⟩
    · exact heq
    · have hle := le_name h (h.of (entryOf board n).1) (entryOf board n).2
      omega
  · obtain ⟨⟨hcell, -⟩, hval, -⟩ := mem_candidates.1 (hcand n hn)
    unfold kCells at hcell
    rcases mem_rowNames.1 (hmem n hn x hx) with heq | ⟨h, heq⟩
    · omega
    · rw [heq, name_eq]
      cases h <;> simp only <;> omega
  · obtain ⟨⟨hcell, -⟩, -, -⟩ := mem_candidates.1 (hcand n hn)
    obtain ⟨x, hx, hname⟩ := hex n hn _ (mem_rowNames.2 (Or.inl rfl))
    unfold kCells at hcell
    exact ⟨x, hx, by omega⟩
  · obtain ⟨x, hx, hname⟩ := hex n hn _ (mem_rowNames.2 (Or.inr ⟨.row, rfl⟩))
    have hle := le_name .row (House.row.of (entryOf board n).1) (entryOf board n).2
    exact ⟨x, hx, by omega⟩

/-- The column of a name. -/
theorem exists_head (hn : n ∈ columnNames board) :
    ∃ c ∈ (matrix hb).heads, s.name c = n := by
  obtain ⟨c, hc⟩ := Option.ne_none_iff_exists'.1 ((hb.laid.listed n).1 hn)
  obtain ⟨hrange, hname⟩ := (hb.laid.column n c).1 hc
  exact ⟨c, List.mem_range'_1.2 (by omega), hname⟩

theorem solution_of_exactCover {T : List ℕ} (hboard : ∀ i < kCells, board i ≤ 9)
    (hT : ExactCover (· ∈ (matrix hb).nodes) (matrix hb).cells (matrix hb).heads.toFinset T) :
    Solution board (T.foldl (put (entryOf board)) board) := by
  have hfold : T.foldl (put (entryOf board)) board =
      (T.map (entryOf board)).foldl Sudoku.write board := by
    rw [List.foldl_map]
    rfl
  have hcand : ∀ e ∈ T.map (entryOf board), e ∈ candidates board := by
    intro e he
    obtain ⟨n, hn, rfl⟩ := List.mem_map.1 he
    obtain ⟨-, -, -, -, -, -, he, -⟩ := exists_rowAt hb (hT.rows n hn)
    exact he
  rw [hfold]
  apply solution_of_cover hboard hcand
  · intro n hn
    obtain ⟨c, hc, rfl⟩ := exists_head hb hn
    obtain ⟨r, hr, hcr⟩ := (hT.union c).1 (List.mem_toFinset.2 hc)
    exact ⟨_, List.mem_map_of_mem hr, ((mem_cells_matrix hb (hT.rows r hr)).1 hcr).2⟩
  · intro e he e' he' n hn hn'
    obtain ⟨r, hr, rfl⟩ := List.mem_map.1 he
    obtain ⟨r', hr', rfl⟩ := List.mem_map.1 he'
    obtain ⟨c, hc, rfl⟩ := exists_head hb (rowNames_columnNames (hcand _ he) hn)
    have hcr := (mem_cells_matrix hb (hT.rows r hr)).2 ⟨hc, hn⟩
    have hcr' := (mem_cells_matrix hb (hT.rows r' hr')).2 ⟨hc, hn'⟩
    rw [hT.unique hr hr' hcr hcr']

/-- The first node of the row of a candidate. -/
theorem exists_node (he : e ∈ candidates board) : ∃ n ∈ (matrix hb).nodes, entryOf board n = e := by
  obtain ⟨j, hj, rfl⟩ := List.getElem_of_mem he
  refine ⟨1 + (columnNames board).length + 4 * j, List.mem_range'_1.2 (by omega), ?_⟩
  have hdiv : (1 + (columnNames board).length + 4 * j - (1 + (columnNames board).length)) / 4 = j := by
    omega
  rw [entryOf, hdiv, List.getElem?_eq_getElem hj, Option.getD_some]

theorem exactCover_of_solution (hg : Solution board g) :
    ∃ T, ExactCover (· ∈ (matrix hb).nodes) (matrix hb).cells (matrix hb).heads.toFinset T := by
  obtain ⟨hcand, hcover, hunique⟩ := cover_of_solution hg
  have hex : ∀ i, ∃ n, i ∈ cellColumns board → n ∈ (matrix hb).nodes ∧ entryOf board n = (i, g i) := by
    intro i
    by_cases hi : i ∈ cellColumns board
    · obtain ⟨n, hn, hentry⟩ := exists_node hb (hcand i hi)
      exact ⟨n, fun _ => ⟨hn, hentry⟩⟩
    · exact ⟨0, fun h => absurd h hi⟩
  choose node hnode using hex
  have hcells : ∀ i ∈ cellColumns board, ∀ c, c ∈ (matrix hb).cells (node i) ↔
      c ∈ (matrix hb).heads ∧ s.name c ∈ rowNames (i, g i) := by
    intro i hi c
    obtain ⟨hn, hentry⟩ := hnode i hi
    rw [mem_cells_matrix hb hn, hentry]
  refine ⟨(cellColumns board).map node, fun n hn => ?_, ?_, fun c => ?_⟩
  · obtain ⟨i, hi, rfl⟩ := List.mem_map.1 hn
    exact (hnode i hi).1
  · rw [List.pairwise_map]
    have hnodup : (cellColumns board).Nodup := List.nodup_range.filter _
    apply hnodup.imp_of_mem
    intro i j hi hj hne
    rw [Finset.disjoint_left]
    intro c hci hcj
    exact hne (hunique i hi j hj _ ((hcells i hi c).1 hci).2 ((hcells j hj c).1 hcj).2)
  · rw [List.mem_toFinset]
    constructor
    · intro hc
      have hname : s.name c ∈ columnNames board := by
        rw [hb.laid.listed, Option.ne_none_iff_exists']
        have hrange := List.mem_range'_1.1 hc
        exact ⟨c, (hb.laid.column _ c).2 ⟨by omega, rfl⟩⟩
      obtain ⟨i, hi, hn⟩ := hcover _ hname
      exact ⟨node i, List.mem_map_of_mem hi, (hcells i hi c).2 ⟨hc, hn⟩⟩
    · rintro ⟨n, hn, hc⟩
      obtain ⟨i, hi, rfl⟩ := List.mem_map.1 hn
      exact ((hcells i hi c).1 hc).1

/-- `solve` finds a solution if the puzzle has one. -/
theorem solve_built (hboard : ∀ i < kCells, board i ≤ 9) :
    (∃ s', solve kMaxColumns s = some (true, s') ∧ Solution board s'.inout_) ∨
      solve kMaxColumns s = some (false, s) ∧ ¬ ∃ g, Solution board g := by
  have hcols := length_columnNames_le board
  have hrows := length_candidates_le board
  have hheads : (matrix hb).heads.length = (columnNames board).length := List.length_range' ..
  have hnodes : (matrix hb).nodes.length = 4 * (candidates board).length := List.length_range' ..
  have hfuelM : (matrix hb).nodes.length < kMaxNodes := by
    unfold kMaxNodes
    omega
  have hfuelH : (matrix hb).heads.length < kMaxNodes := by
    unfold kMaxNodes
    omega
  have hdepth : (matrix hb).heads.toFinset.card < kMaxColumns := by
    have hle := List.toFinset_card_le (matrix hb).heads
    unfold kMaxColumns
    omega
  have hsearch : Searches (matrix hb) (entryOf board) (matrix hb).heads.toFinset s := by
    refine ⟨matrix_represents hb, hb.laid.root, matrix_entries hb, ?_⟩
    rw [hb.laid.stack]
    simp
  rcases solve_solves hfuelM hfuelH hsearch hdepth with ⟨T, s', hT, hfound, hinout⟩ | ⟨hnone, hfail⟩
  · refine Or.inl ⟨s', hfound, ?_⟩
    rw [hinout, hb.laid.stack, hb.laid.inout, List.nil_append]
    exact solution_of_exactCover hb hboard hT
  · exact Or.inr ⟨hfail, fun ⟨g, hg⟩ => hnone (exactCover_of_solution hb hg)⟩

end Matrix

end SudokuSolver

/-- `puzzle[i] - '0'`, for puzzles with digits only. -/
def boardOf (puzzle : Bytes) (i : ℕ) : ℕ := (puzzle.getD i 48).toNat - 48

def isDigit (c : UInt8) : Bool := 48 ≤ c.toNat ∧ c.toNat ≤ 57

/-- The result, or `none` when an assertion fails. -/
def solveSudoku (puzzle : Bytes) : Option Bytes :=
  if puzzle.length = kCells then
    if puzzle.all isDigit then do
      let s ← SudokuSolver.construct (boardOf puzzle)
      let (found, s) ← s.solve kMaxColumns
      if found then some ((List.range kCells).map fun i => UInt8.ofNat (s.inout_ i + 48))
      else some (bytes "NoSolution")
    else some (bytes "NoSolution")
  else none

/-- For every text of 81 characters no assertion fails, and the result is a full board that
agrees with the puzzle and repeats no value in a row, a column or a box, or `NoSolution` when the
puzzle has other characters than digits or there is no such board. -/
theorem solveSudoku_spec {puzzle : Bytes} (hlen : puzzle.length = kCells) :
    (∃ g, puzzle.all isDigit ∧ Solution (boardOf puzzle) g ∧
      solveSudoku puzzle = some ((List.range kCells).map fun i => UInt8.ofNat (g i + 48))) ∨
    (¬ (puzzle.all isDigit ∧ ∃ g, Solution (boardOf puzzle) g)) ∧
      solveSudoku puzzle = some (bytes "NoSolution") := by
  unfold solveSudoku
  rw [if_pos hlen]
  by_cases hdigits : puzzle.all isDigit = true
  · have hboard : ∀ i < kCells, boardOf puzzle i ≤ 9 := by
      intro i hi
      have hi' : i < puzzle.length := hlen ▸ hi
      have hdigit := List.all_eq_true.1 hdigits _ (List.getElem_mem hi')
      rw [boardOf, List.getD_eq_getElem?_getD, List.getElem?_eq_getElem hi', Option.getD_some]
      simp only [isDigit, decide_eq_true_eq] at hdigit
      omega
    obtain ⟨s, hs, hb⟩ := SudokuSolver.construct_built (boardOf puzzle)
    rw [if_pos hdigits, hs]
    rcases SudokuSolver.solve_built hb hboard with ⟨s', hfound, hsolution⟩ | ⟨hfail, hnone⟩
    · refine Or.inl ⟨s'.inout_, hdigits, hsolution, ?_⟩
      change (SudokuSolver.solve kMaxColumns s >>= fun _ => _) = _
      rw [hfound]
      rfl
    · refine Or.inr ⟨fun h => hnone h.2, ?_⟩
      change (SudokuSolver.solve kMaxColumns s >>= fun _ => _) = _
      rw [hfail]
      rfl
  · exact Or.inr ⟨fun h => hdigits h.1, if_neg hdigits⟩

theorem solveSudoku_dots :
    solveSudoku (List.replicate kCells (byte '.')) = some (bytes "NoSolution") := by
  rcases solveSudoku_spec (List.length_replicate (n := kCells) (a := byte '.')) with h | h
  · obtain ⟨g, hdigits, -⟩ := h
    exact absurd hdigits (by decide)
  · exact h.2

end MuduoServer
