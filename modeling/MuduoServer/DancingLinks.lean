import Mathlib.Data.Finset.Dedup
import Mathlib.Data.Finset.Erase
import Mathlib.Data.Finset.SDiff
import MuduoServer.Rings

/-!
Dancing links: a sparse matrix whose nodes are linked within their row and within their column,
and whose columns are linked with each other. To cover a column takes it and every row that
meets it out of the other columns; to uncover it puts them back. The links determine the set of
the columns that are left, and each operation is exactly undone by the one that goes back.
-/
namespace MuduoServer.DancingLinks

open Rings

universe u

@[ext] structure Links (N : Type u) where
  left : N → N
  right : N → N
  up : N → N
  down : N → N
  col : N → N
  size : N → ℤ

variable {N : Type u}

/-- The nodes of a matrix. `others n` are the other nodes in the row of `n`, from `n` to the
right, and no row has two nodes in one column. -/
structure Matrix (N : Type u) where
  root : N
  heads : List N
  nodes : List N
  col : N → N
  others : N → List N
  nodup : (root :: (heads ++ nodes)).Nodup
  col_mem : ∀ n ∈ nodes, col n ∈ heads
  others_mem : ∀ n ∈ nodes, ∀ m ∈ others n, m ∈ nodes
  row : ∀ n ∈ nodes, ∀ m ∈ others n, (m :: others m).Perm (n :: others n)
  cols : ∀ n ∈ nodes, ((n :: others n).map col).Nodup

namespace Matrix

variable {M : Matrix N} {A : Finset N} {J : List N} {c d j m n : N}

theorem nodup_nodes (M : Matrix N) : M.nodes.Nodup :=
  (List.nodup_cons.1 M.nodup).2.of_append_right

theorem nodup_heads (M : Matrix N) : M.heads.Nodup :=
  (List.nodup_cons.1 M.nodup).2.of_append_left

theorem head_ne_node (hd : d ∈ M.root :: M.heads) (hn : n ∈ M.nodes) : d ≠ n := by
  rintro rfl
  have hnodup : ((M.root :: M.heads) ++ M.nodes).Nodup := M.nodup
  exact List.disjoint_of_nodup_append hnodup hd hn

theorem nodup_row (hn : n ∈ M.nodes) : (n :: M.others n).Nodup :=
  List.Nodup.of_map M.col (M.cols n hn)

/-- The columns of the nodes of one row are different. -/
theorem eq_of_col_eq (hn : n ∈ M.nodes) (hm : m ∈ n :: M.others n) (hj : j ∈ n :: M.others n)
    (hcol : M.col m = M.col j) : m = j :=
  List.inj_on_of_nodup_map (M.cols n hn) hm hj hcol

theorem mem_others_symm (hn : n ∈ M.nodes) (hm : m ∈ M.others n) : n ∈ M.others m := by
  have hrow : n ∈ m :: M.others m := (M.row n hn m hm).mem_iff.2 List.mem_cons_self
  rcases List.mem_cons.1 hrow with heq | hin
  · exact absurd (heq ▸ hm) (List.nodup_cons.1 (nodup_row hn)).1
  · exact hin

theorem length_others_le (hn : n ∈ M.nodes) : (M.others n).length ≤ M.nodes.length := by
  apply (List.nodup_cons.1 (nodup_row hn)).2.length_le_of_subset
  exact M.others_mem n hn

variable [DecidableEq N]

/-- The columns that the row of `n` meets. -/
def cells (M : Matrix N) (n : N) : Finset N := ((n :: M.others n).map M.col).toFinset

def column (M : Matrix N) (d : N) : List N := M.nodes.filter fun n => M.col n = d

/-- What is left of the column `d`: the rows that meet columns of `A` only, but for the nodes
in `J`. -/
def active (M : Matrix N) (A : Finset N) (J : List N) (d : N) : List N :=
  (M.column d).filter fun n => M.cells n ⊆ A ∧ n ∉ J

theorem mem_cells : d ∈ M.cells n ↔ ∃ m ∈ n :: M.others n, M.col m = d := by
  simp only [cells, List.mem_toFinset, List.mem_map]

theorem col_mem_cells (M : Matrix N) (n : N) : M.col n ∈ M.cells n :=
  mem_cells.2 ⟨n, List.mem_cons_self, rfl⟩

theorem mem_column : n ∈ M.column d ↔ n ∈ M.nodes ∧ M.col n = d := by
  simp only [column, List.mem_filter, decide_eq_true_eq]

theorem mem_active : n ∈ M.active A J d ↔ n ∈ M.column d ∧ M.cells n ⊆ A ∧ n ∉ J := by
  simp only [active, List.mem_filter, decide_eq_true_eq]

theorem nodup_active (M : Matrix N) (A : Finset N) (J : List N) (d : N) :
    (M.active A J d).Nodup :=
  List.Nodup.filter _ (List.Nodup.filter _ M.nodup_nodes)

theorem length_active_le (M : Matrix N) (A : Finset N) (J : List N) (d : N) :
    (M.active A J d).length ≤ M.nodes.length :=
  (List.length_filter_le _ _).trans (List.length_filter_le _ _)

theorem cells_others (hn : n ∈ M.nodes) (hm : m ∈ M.others n) : M.cells m = M.cells n := by
  ext d
  simp only [mem_cells, (M.row n hn m hm).mem_iff]

/-- Two columns have nothing in common. -/
theorem column_disjoint {y : N} (hd : d ∈ M.heads) (hc : c ∈ M.heads)
    (hyd : y ∈ d :: M.active A J d) (hyc : y ∈ c :: M.active A J c) : d = c := by
  have hnode : ∀ e, y ∈ M.active A J e → y ∈ M.nodes ∧ M.col y = e := fun e he =>
    mem_column.1 (mem_active.1 he).1
  rcases List.mem_cons.1 hyd with rfl | hyd
  · rcases List.mem_cons.1 hyc with rfl | hyc
    · rfl
    · exact absurd rfl (head_ne_node (List.mem_cons_of_mem _ hd) (hnode c hyc).1)
  · rcases List.mem_cons.1 hyc with rfl | hyc
    · exact absurd rfl (head_ne_node (List.mem_cons_of_mem _ hc) (hnode d hyd).1)
    · exact (hnode d hyd).2.symm.trans (hnode c hyc).2

theorem active_concat (M : Matrix N) (A : Finset N) (J : List N) (j d : N) :
    M.active A (J ++ [j]) d = (M.active A J d).erase j := by
  rw [(M.nodup_active A J d).erase_eq_filter, active, active, List.filter_filter]
  apply List.filter_congr
  intro n _
  simp only [List.mem_append, List.mem_singleton, not_or, decide_not, Bool.decide_and]
  grind

end Matrix

/-- The links within the rows are the same. -/
structure SameRows (s t : Links N) : Prop where
  right : t.right = s.right
  left : t.left = s.left
  col : t.col = s.col

theorem SameRows.trans {s t u : Links N} (h : SameRows s t) (h' : SameRows t u) : SameRows s u :=
  ⟨h'.right.trans h.right, h'.left.trans h.left, h'.col.trans h.col⟩

variable [DecidableEq N]

/-- A node leaves its column. -/
def unlinkNode (j : N) (s : Links N) : Links N :=
  let up := Function.update s.up (s.down j) (s.up j)
  let down := Function.update s.down (up j) (s.down j)
  { s with up := up, down := down
           size := Function.update s.size (s.col j) (s.size (s.col j) - 1) }

def relinkNode (j : N) (s : Links N) : Links N :=
  let up := Function.update s.up (s.down j) j
  let down := Function.update s.down (up j) j
  { s with up := up, down := down
           size := Function.update s.size (s.col j) (s.size (s.col j) + 1) }

/-- A column leaves the list of the columns. -/
def unlinkColumn (c : N) (s : Links N) : Links N :=
  let left := Function.update s.left (s.right c) (s.left c)
  let right := Function.update s.right (left c) (s.right c)
  { s with left := left, right := right }

def relinkColumn (c : N) (s : Links N) : Links N :=
  let left := Function.update s.left (s.right c) c
  let right := Function.update s.right (left c) c
  { s with left := left, right := right }

def cover (fuel : ℕ) (c : N) (s : Links N) : Option (Links N) :=
  let s := unlinkColumn c s
  walk Links.down c
    (fun row s => walk Links.right row (fun j s => some (unlinkNode j s)) fuel (s.right row) s)
    fuel (s.down c) s

def uncover (fuel : ℕ) (c : N) (s : Links N) : Option (Links N) := do
  let s ← walk Links.up c
    (fun row s => walk Links.left row (fun j s => some (relinkNode j s)) fuel (s.left row) s)
    fuel (s.up c) s
  some (relinkColumn c s)

/-- Cover the columns of the other nodes of a row. -/
def coverRow (fuel : ℕ) (row : N) (s : Links N) : Option (Links N) :=
  walk Links.right row (fun j s => cover fuel (s.col j) s) fuel (s.right row) s

def uncoverRow (fuel : ℕ) (row : N) (s : Links N) : Option (Links N) :=
  walk Links.left row (fun j s => uncover fuel (s.col j) s) fuel (s.left row) s

/-- The vertical rings of the columns in `A`, without the nodes in `J`. -/
def Columns (M : Matrix N) (A : Finset N) (J : List N) (s : Links N) : Prop :=
  ∀ d ∈ A, Ring s.down s.up d (M.active A J d)

/-- The links of the matrix in which just the columns in `A` are left. -/
structure Represents (M : Matrix N) (A : Finset N) (s : Links N) : Prop where
  sub : ∀ d ∈ A, d ∈ M.heads
  heads : Ring s.right s.left M.root (M.heads.filter (· ∈ A))
  rows : ∀ n ∈ M.nodes, Ring s.right s.left n (M.others n)
  columns : Columns M A [] s
  col : ∀ n ∈ M.nodes, s.col n = M.col n

variable {M : Matrix N} {A : Finset N} {J : List N} {c d j n : N} {s t : Links N} {fuel : ℕ}

theorem unlinkNode_down (j : N) (s : Links N) :
    (unlinkNode j s).down = Function.update s.down (s.up j) (s.down j) := by
  simp only [unlinkNode, update_keeps]

theorem unlinkColumn_right (c : N) (s : Links N) :
    (unlinkColumn c s).right = Function.update s.right (s.left c) (s.right c) := by
  simp only [unlinkColumn, update_keeps]

/-- A node goes back to its place. -/
theorem relinkNode_unlinkNode (hup : s.up (s.down j) = j) (hdown : s.down (s.up j) = j) :
    relinkNode j (unlinkNode j s) = s := by
  have hkeep : (unlinkNode j s).down j = s.down j := by
    rw [unlinkNode_down, update_keeps]
  have hupeq : (relinkNode j (unlinkNode j s)).up = s.up := by
    have hread : (relinkNode j (unlinkNode j s)).up =
        Function.update (unlinkNode j s).up ((unlinkNode j s).down j) j := rfl
    rw [hread, hkeep]
    exact update_erased hup
  have hdowneq : (relinkNode j (unlinkNode j s)).down = s.down := by
    have hread : (relinkNode j (unlinkNode j s)).down =
        Function.update (unlinkNode j s).down ((relinkNode j (unlinkNode j s)).up j) j := rfl
    rw [hread, hupeq, unlinkNode_down]
    exact update_erased hdown
  have hsize : (relinkNode j (unlinkNode j s)).size = s.size := by
    simp only [relinkNode, unlinkNode, Function.update_self, Function.update_idem,
      Int.sub_add_cancel, Function.update_eq_self]
  exact Links.ext rfl rfl hupeq hdowneq rfl hsize

/-- A column goes back to its place. -/
theorem relinkColumn_unlinkColumn (hleft : s.left (s.right c) = c)
    (hright : s.right (s.left c) = c) : relinkColumn c (unlinkColumn c s) = s := by
  have hkeep : (unlinkColumn c s).right c = s.right c := by
    rw [unlinkColumn_right, update_keeps]
  have hlefteq : (relinkColumn c (unlinkColumn c s)).left = s.left := by
    have hread : (relinkColumn c (unlinkColumn c s)).left =
        Function.update (unlinkColumn c s).left ((unlinkColumn c s).right c) c := rfl
    rw [hread, hkeep]
    exact update_erased hleft
  have hrighteq : (relinkColumn c (unlinkColumn c s)).right = s.right := by
    have hread : (relinkColumn c (unlinkColumn c s)).right =
        Function.update (unlinkColumn c s).right ((relinkColumn c (unlinkColumn c s)).left c) c := rfl
    rw [hread, hlefteq, unlinkColumn_right]
    exact update_erased hright
  exact Links.ext hlefteq hrighteq rfl rfl rfl rfl

theorem unlinkNode_sameRows (j : N) (s : Links N) : SameRows s (unlinkNode j s) := ⟨rfl, rfl, rfl⟩

/-- One node leaves its column, and the other columns keep their rings. -/
theorem columns_unlinkNode (hsub : ∀ d ∈ A, d ∈ M.heads) (hs : Columns M A J s)
    (hj : j ∈ M.active A J (M.col j)) :
    Columns M A (J ++ [j]) (unlinkNode j s) ∧ relinkNode j (unlinkNode j s) = s := by
  have hcol : M.col j ∈ A := (Matrix.mem_active.1 hj).2.1 (M.col_mem_cells j)
  have hring := hs (M.col j) hcol
  refine ⟨fun d hd => ?_, relinkNode_unlinkNode (hring.prev_next hj) (hring.next_prev hj)⟩
  rw [M.active_concat, unlinkNode_down]
  by_cases hdj : d = M.col j
  · subst hdj
    exact hring.erase hj
  · have hother : ∀ y ∈ d :: M.active A J d, ∀ z ∈ M.col j :: M.active A J (M.col j), y ≠ z := by
      intro y hy z hz heq
      exact hdj (Matrix.column_disjoint (hsub d hd) (hsub _ hcol) hy (heq ▸ hz))
    have hnot : j ∉ M.active A J d := fun hmem =>
      hother j (List.mem_cons_of_mem d hmem) j (List.mem_cons_of_mem _ hj) rfl
    rw [List.erase_of_not_mem hnot]
    apply (hs d hd).congr
    · intro y hy
      exact Function.update_of_ne (hother y hy _ (hring.prev_mem hj)) ..
    · intro y hy
      exact Function.update_of_ne (hother y hy _ (hring.next_mem hj)) ..

/-- A row leaves the columns of its other nodes. -/
theorem row_spec (hsub : ∀ d ∈ A, d ∈ M.heads) (hs : Columns M A J s) (hn : n ∈ M.nodes)
    (hlive : M.cells n ⊆ A) (hgone : ∀ m ∈ M.others n, m ∉ J)
    (hring : Ring s.right s.left n (M.others n)) (hfuel : M.nodes.length < fuel) :
    ∃ t, walk Links.right n (fun j s => some (unlinkNode j s)) fuel (s.right n) s = some t ∧
      (Columns M A (J ++ M.others n) t ∧ SameRows s t) ∧
      walk Links.left n (fun j s => some (relinkNode j s)) fuel (t.left n) t = some s := by
  apply walk_undo (S := fun done t => Columns M A (J ++ done) t ∧ SameRows s t)
  · intro done t ht
    rw [ht.2.right, ht.2.left]
    exact hring
  · intro done x rest t hl ht
    have hx : x ∈ M.others n := hl ▸ List.mem_append_right done List.mem_cons_self
    have hnodup := (List.nodup_cons.1 (Matrix.nodup_row hn)).2
    rw [hl] at hnodup
    have hdone : x ∉ done := fun hmem =>
      List.disjoint_of_nodup_append hnodup hmem List.mem_cons_self
    have hactive : x ∈ M.active A (J ++ done) (M.col x) := by
      rw [Matrix.mem_active, Matrix.mem_column, Matrix.cells_others hn hx, List.mem_append]
      exact ⟨⟨M.others_mem n hn x hx, rfl⟩, hlive, fun hmem => hmem.elim (hgone x hx) hdone⟩
    obtain ⟨hcolumns, hback⟩ := columns_unlinkNode hsub ht.1 hactive
    rw [List.append_assoc] at hcolumns
    exact ⟨_, rfl, congrArg some hback, hcolumns, ht.2.trans (unlinkNode_sameRows x t)⟩
  · rw [List.append_nil]
    exact ⟨hs, rfl, rfl, rfl⟩
  · exact (Matrix.length_others_le hn).trans_lt hfuel

/-- Rows that meet the same column have no node in common. -/
theorem Matrix.others_disjoint {m x : N} (hm : m ∈ M.active A J c) (hx : x ∈ M.active A J c)
    (hnm : n ∈ M.others m) (hnx : n ∈ M.others x) : m = x := by
  obtain ⟨hmnode, hmcol⟩ := Matrix.mem_column.1 (Matrix.mem_active.1 hm).1
  obtain ⟨hxnode, hxcol⟩ := Matrix.mem_column.1 (Matrix.mem_active.1 hx).1
  have hmrow : m ∈ n :: M.others n := (M.row m hmnode n hnm).mem_iff.2 List.mem_cons_self
  have hmx : m ∈ x :: M.others x := (M.row x hxnode n hnx).mem_iff.1 hmrow
  exact Matrix.eq_of_col_eq hxnode hmx List.mem_cons_self (hmcol.trans hxcol.symm)

/-- The rows of one column have no other node in it. -/
theorem Matrix.active_flatMap {L : List N} (hL : ∀ m ∈ L, m ∈ M.active A [] c) :
    M.active A (L.flatMap M.others) c = M.active A [] c := by
  apply List.filter_congr
  intro n hn
  have hnot : n ∉ L.flatMap M.others := by
    rw [List.mem_flatMap]
    rintro ⟨m, hm, hnm⟩
    obtain ⟨hmnode, hmcol⟩ := Matrix.mem_column.1 (Matrix.mem_active.1 (hL m hm)).1
    have heq := Matrix.eq_of_col_eq hmnode (List.mem_cons_of_mem m hnm) List.mem_cons_self
      ((Matrix.mem_column.1 hn).2.trans hmcol.symm)
    exact (List.nodup_cons.1 (Matrix.nodup_row hmnode)).1 (heq ▸ hnm)
  simp only [hnot, List.not_mem_nil]

/-- What is left of another column when the rows of the column `c` are gone. -/
theorem Matrix.active_erase (hdc : d ≠ c) :
    M.active A ((M.active A [] c).flatMap M.others) d = M.active (A.erase c) [] d := by
  apply List.filter_congr
  intro n hn
  obtain ⟨hnode, hcol⟩ := Matrix.mem_column.1 hn
  have hnil : n ∉ ([] : List N) := List.not_mem_nil
  rw [decide_eq_decide, Finset.subset_erase, List.mem_flatMap, and_iff_left hnil]
  apply and_congr_right
  intro hlive
  constructor
  · intro hnot hc
    obtain ⟨m, hm, hmcol⟩ := Matrix.mem_cells.1 hc
    rcases List.mem_cons.1 hm with rfl | hm
    · exact hdc (hcol.symm.trans hmcol)
    · apply hnot
      refine ⟨m, Matrix.mem_active.2 ⟨?_, ?_, List.not_mem_nil⟩, Matrix.mem_others_symm hnode hm⟩
      · exact Matrix.mem_column.2 ⟨M.others_mem n hnode m hm, hmcol⟩
      · rw [Matrix.cells_others hnode hm]
        exact hlive
  · rintro hc ⟨m, hm, hnm⟩
    obtain ⟨hmnode, hmcol⟩ := Matrix.mem_column.1 (Matrix.mem_active.1 hm).1
    apply hc
    rw [Matrix.cells_others hmnode hnm, ← hmcol]
    exact M.col_mem_cells m

theorem unlinkColumn_rows (hs : Represents M A s) (hc : c ∈ A) (hn : n ∈ M.nodes) :
    (unlinkColumn c s).right n = s.right n ∧ (unlinkColumn c s).left n = s.left n := by
  have hmem : c ∈ M.heads.filter (· ∈ A) := by
    rw [List.mem_filter]
    exact ⟨hs.sub c hc, by simpa using hc⟩
  have hhead : ∀ y ∈ M.root :: M.heads.filter (· ∈ A), n ≠ y := by
    intro y hy
    apply (Matrix.head_ne_node _ hn).symm
    rw [List.mem_cons] at hy ⊢
    exact hy.imp_right fun hin => List.mem_of_mem_filter hin
  rw [unlinkColumn_right]
  exact ⟨Function.update_of_ne (hhead _ (hs.heads.prev_mem hmem)) ..,
    Function.update_of_ne (hhead _ (hs.heads.next_mem hmem)) ..⟩

/-- Without the column `c`, before its rows are taken out. -/
theorem unlinkColumn_heads (hs : Represents M A s) (hc : c ∈ A) :
    Ring (unlinkColumn c s).right (unlinkColumn c s).left M.root
        (M.heads.filter (· ∈ A.erase c)) ∧
      relinkColumn c (unlinkColumn c s) = s := by
  have hmem : c ∈ M.heads.filter (· ∈ A) := by
    rw [List.mem_filter]
    exact ⟨hs.sub c hc, by simpa using hc⟩
  constructor
  · have hfilter : M.heads.filter (· ∈ A.erase c) = (M.heads.filter (· ∈ A)).erase c := by
      rw [(M.nodup_heads.filter _).erase_eq_filter, List.filter_filter]
      apply List.filter_congr
      intro d _
      rw [← Bool.coe_iff_coe]
      simp
    rw [unlinkColumn_right, hfilter]
    exact hs.heads.erase hmem
  · exact relinkColumn_unlinkColumn (hs.heads.prev_next hmem) (hs.heads.next_prev hmem)

/-- To cover a column leaves the others without the rows that meet it, and to uncover it brings
every link back. -/
theorem cover_spec (hs : Represents M A s) (hc : c ∈ A) (hfuel : M.nodes.length < fuel) :
    ∃ t, cover fuel c s = some t ∧ uncover fuel c t = some s ∧ Represents M (A.erase c) t ∧
      Ring t.down t.up c (M.active A [] c) := by
  have hrows : ∀ n ∈ M.nodes,
      Ring (unlinkColumn c s).right (unlinkColumn c s).left n (M.others n) := by
    intro n hn
    apply (hs.rows n hn).congr
    · intro y hy
      rcases List.mem_cons.1 hy with rfl | hin
      · exact (unlinkColumn_rows hs hc hn).1
      · exact (unlinkColumn_rows hs hc (M.others_mem n hn y hin)).1
    · intro y hy
      rcases List.mem_cons.1 hy with rfl | hin
      · exact (unlinkColumn_rows hs hc hn).2
      · exact (unlinkColumn_rows hs hc (M.others_mem n hn y hin)).2
  obtain ⟨hheads, hback⟩ := unlinkColumn_heads hs hc
  obtain ⟨t, hwalk, ⟨-, hcolumns, hsame⟩, hundo⟩ :
      ∃ t, walk Links.down c
          (fun row s => walk Links.right row (fun j s => some (unlinkNode j s)) fuel
            (s.right row) s)
          fuel ((unlinkColumn c s).down c) (unlinkColumn c s) = some t ∧
        ((∀ m ∈ M.active A [] c, m ∈ M.active A [] c) ∧
          Columns M A ((M.active A [] c).flatMap M.others) t ∧ SameRows (unlinkColumn c s) t) ∧
        walk Links.up c
          (fun row s => walk Links.left row (fun j s => some (relinkNode j s)) fuel
            (s.left row) s)
          fuel (t.up c) t = some (unlinkColumn c s) := by
    apply walk_undo (S := fun done t => (∀ m ∈ done, m ∈ M.active A [] c) ∧
      Columns M A (done.flatMap M.others) t ∧ SameRows (unlinkColumn c s) t)
    · intro done t ht
      have hring := ht.2.1 c hc
      rw [Matrix.active_flatMap ht.1] at hring
      exact hring
    · intro done x rest t hl ht
      have hx : x ∈ M.active A [] c := hl ▸ List.mem_append_right done List.mem_cons_self
      obtain ⟨hcolumn, hlive, -⟩ := Matrix.mem_active.1 hx
      have hnode := (Matrix.mem_column.1 hcolumn).1
      have hdone : x ∉ done := by
        have hnodup := M.nodup_active A [] c
        rw [hl] at hnodup
        exact fun hmem => List.disjoint_of_nodup_append hnodup hmem List.mem_cons_self
      have hgone : ∀ m ∈ M.others x, m ∉ done.flatMap M.others := by
        intro m hm hgone
        obtain ⟨y, hy, hmy⟩ := List.mem_flatMap.1 hgone
        exact hdone (Matrix.others_disjoint hx (ht.1 y hy) hm hmy ▸ hy)
      have hring : Ring t.right t.left x (M.others x) := by
        rw [ht.2.2.right, ht.2.2.left]
        exact hrows x hnode
      obtain ⟨u, hbody, ⟨hcolumns, hsame⟩, hundo⟩ :=
        row_spec hs.sub ht.2.1 hnode hlive hgone hring hfuel
      refine ⟨u, hbody, hundo, ?_, ?_, ht.2.2.trans hsame⟩
      · intro m hm
        rcases List.mem_append.1 hm with hin | hin
        · exact ht.1 m hin
        · exact List.mem_singleton.1 hin ▸ hx
      · rw [List.flatMap_append, List.flatMap_singleton]
        exact hcolumns
    · exact ⟨by simp, hs.columns, rfl, rfl, rfl⟩
    · exact (M.length_active_le A [] c).trans_lt hfuel
  have hring := hcolumns c hc
  rw [Matrix.active_flatMap fun m hm => hm] at hring
  refine ⟨t, hwalk, ?_, ⟨fun d hd => hs.sub d (Finset.mem_of_mem_erase hd), ?_, ?_, ?_, ?_⟩,
    hring⟩
  · rw [uncover, hundo]
    exact congrArg some hback
  · rw [hsame.right, hsame.left]
    exact hheads
  · intro n hn
    rw [hsame.right, hsame.left]
    exact hrows n hn
  · intro d hd
    rw [← Matrix.active_erase (Finset.ne_of_mem_erase hd)]
    exact hcolumns d (Finset.mem_of_mem_erase hd)
  · intro n hn
    rw [hsame.col]
    exact hs.col n hn

/-- The columns that are left when those of some other nodes of the row are covered as well. -/
theorem erase_sdiff_concat (A : Finset N) (c x : N) (l : List N) (col : N → N) :
    A.erase c \ ((l ++ [x]).map col).toFinset =
      (A.erase c \ (l.map col).toFinset).erase (col x) := by
  ext d
  simp only [Finset.mem_sdiff, Finset.mem_erase, List.mem_toFinset, List.map_append,
    List.mem_append, List.map_cons, List.map_nil, List.mem_singleton, not_or]
  tauto

/-- To choose a row of a covered column covers its other columns, and to give it up again brings
every link back. -/
theorem coverRow_spec (hs : Represents M (A.erase c) s) (hn : n ∈ M.active A [] c)
    (hfuel : M.nodes.length < fuel) :
    ∃ t, coverRow fuel n s = some t ∧ Represents M (A \ M.cells n) t ∧
      uncoverRow fuel n t = some s := by
  obtain ⟨hcolumn, hlive, -⟩ := Matrix.mem_active.1 hn
  obtain ⟨hnode, hcol⟩ := Matrix.mem_column.1 hcolumn
  have hcells : A \ M.cells n = A.erase c \ ((M.others n).map M.col).toFinset := by
    ext d
    simp only [Matrix.cells, List.map_cons, List.toFinset_cons, Finset.mem_sdiff,
      Finset.mem_insert, Finset.mem_erase, hcol, not_or]
    tauto
  rw [hcells]
  apply walk_undo (S := fun done t => Represents M (A.erase c \ (done.map M.col).toFinset) t)
  · intro done t ht
    exact ht.rows n hnode
  · intro done x rest t hl ht
    have hx : x ∈ M.others n := hl ▸ List.mem_append_right done List.mem_cons_self
    have hxnode := M.others_mem n hnode x hx
    have hnodup := M.cols n hnode
    rw [hl, List.map_cons, List.map_append, List.map_cons, List.nodup_cons, hcol] at hnodup
    have hxcol : M.col x ∈ A.erase c \ (done.map M.col).toFinset := by
      rw [Finset.mem_sdiff, Finset.mem_erase, List.mem_toFinset]
      refine ⟨⟨fun heq => ?_, ?_⟩, fun hin => ?_⟩
      · exact hnodup.1 (heq ▸ List.mem_append_right _ List.mem_cons_self)
      · apply hlive
        rw [← Matrix.cells_others hnode hx]
        exact M.col_mem_cells x
      · exact List.disjoint_of_nodup_append hnodup.2 hin List.mem_cons_self
    obtain ⟨u, hcover, huncover, hu, -⟩ := cover_spec ht hxcol hfuel
    rw [← ht.col x hxnode] at hcover
    rw [← hu.col x hxnode] at huncover
    refine ⟨u, hcover, huncover, ?_⟩
    rw [erase_sdiff_concat]
    exact hu
  · simpa using hs
  · exact (Matrix.length_others_le hnode).trans_lt hfuel

end MuduoServer.DancingLinks
