import MuduoServer.SudokuBoard
import MuduoServer.SudokuSolver

/-!
The constructor of `SudokuSolver`: the columns for what is to be covered, and a row of four nodes
for each candidate. None of its assertions fails, and the links that it leaves are those of the
matrix of the candidates.
-/
namespace MuduoServer

open Rings DancingLinks ExactCovers Sudoku

namespace SudokuSolver

/-- A node that is linked with itself only. -/
def freshNode (r c : ℕ) (l : Links ℕ) : Links ℕ :=
  { left := Function.update l.left r r
    right := Function.update l.right r r
    up := Function.update l.up r r
    down := Function.update l.down r r
    col := Function.update l.col r c
    size := Function.update l.size r 0 }

def putLeft (old nnew : ℕ) (l : Links ℕ) : Links ℕ :=
  let left := Function.update l.left nnew (l.left old)
  let right := Function.update (Function.update l.right nnew old) (left old) nnew
  { l with left := Function.update left old nnew, right := right }

def putUp (old nnew : ℕ) (l : Links ℕ) : Links ℕ :=
  let up := Function.update l.up nnew (l.up old)
  let down := Function.update (Function.update l.down nnew old) (up old) nnew
  { l with up := Function.update up old nnew, down := down
           size := Function.update l.size old (l.size old + 1)
           col := Function.update l.col nnew old }

/-- The new column is `cur_node_`; `none` is a failed assertion. -/
def newColumn (s : SudokuSolver) (n : ℕ) : Option SudokuSolver :=
  if s.cur_node_ < kMaxNodes then
    some { s with nodes_ := freshNode s.cur_node_ s.cur_node_ s.nodes_
                  name := Function.update s.name s.cur_node_ n
                  cur_node_ := s.cur_node_ + 1 }
  else none

def appendColumn (s : SudokuSolver) (n : ℕ) : Option SudokuSolver :=
  match s.columns_ n with
  | some _ => none
  | none => do
      let c := s.cur_node_
      let s ← s.newColumn n
      some { s with nodes_ := putLeft s.root_ c s.nodes_
                    columns_ := Function.update s.columns_ n (some c) }

def newRow (s : SudokuSolver) (col : ℕ) : Option SudokuSolver :=
  match s.columns_ col with
  | none => none
  | some c =>
      if s.cur_node_ < kMaxNodes then
        some { s with nodes_ := putUp c s.cur_node_ (freshNode s.cur_node_ c s.nodes_)
                      name := Function.update s.name s.cur_node_ col
                      cur_node_ := s.cur_node_ + 1 }
      else none

/-- The four nodes of a candidate. -/
def addRow (s : SudokuSolver) (e : ℕ × ℕ) : Option SudokuSolver := do
  let n0 := s.cur_node_
  let s ← s.newRow e.1
  let nr := s.cur_node_
  let s ← s.newRow (getRowCol (House.row.of e.1) e.2)
  let nc := s.cur_node_
  let s ← s.newRow (getColCol (House.col.of e.1) e.2)
  let nb := s.cur_node_
  let s ← s.newRow (getBoxCol (House.box.of e.1) e.2)
  some { s with nodes_ := putLeft n0 nb (putLeft n0 nc (putLeft n0 nr s.nodes_)) }

def blank (board : ℕ → ℕ) : SudokuSolver :=
  { root_ := 0
    inout_ := board
    columns_ := fun _ => none
    stack_ := []
    nodes_ := ⟨fun _ => 0, fun _ => 0, fun _ => 0, fun _ => 0, fun _ => 0, fun _ => 0⟩
    name := fun _ => 0
    cur_node_ := 0 }

/-- The constructor; `root_` is the first node. -/
def construct (board : ℕ → ℕ) : Option SudokuSolver := do
  let s ← (blank board).newColumn 0
  let s ← (columnNames board).foldlM appendColumn s
  (candidates board).foldlM addRow s

/-- The solver with the columns `names` and `q` nodes in their rows. The columns are the nodes
from 1 on, and the other nodes follow. -/
structure Laid (board : ℕ → ℕ) (names : List ℕ) (q : ℕ) (s : SudokuSolver) : Prop where
  root : s.root_ = 0
  inout : s.inout_ = board
  stack : s.stack_ = []
  cur : s.cur_node_ = 1 + names.length + q
  heads : Ring s.nodes_.right s.nodes_.left 0 (List.range' 1 names.length)
  column : ∀ n c, s.columns_ n = some c ↔ (1 ≤ c ∧ c ≤ names.length) ∧ s.name c = n
  listed : ∀ n, n ∈ names ↔ s.columns_ n ≠ none
  columns : ∀ d, 1 ≤ d → d ≤ names.length → Ring s.nodes_.down s.nodes_.up d
    ((List.range' (1 + names.length) q).filter fun x => s.nodes_.col x = d)
  col : ∀ x ∈ List.range' (1 + names.length) q, s.columns_ (s.name x) = some (s.nodes_.col x)

variable {board : ℕ → ℕ} {names lst : List ℕ} {q n old nnew x : ℕ} {s : SudokuSolver} {l : Links ℕ}
  {e : ℕ × ℕ}

theorem putLeft_right (old nnew : ℕ) (l : Links ℕ) :
    (putLeft old nnew l).right =
      Function.update (Function.update l.right nnew old) (l.left old) nnew := by
  simp only [putLeft, update_keeps]

theorem putUp_down (old nnew : ℕ) (l : Links ℕ) :
    (putUp old nnew l).down =
      Function.update (Function.update l.down nnew old) (l.up old) nnew := by
  simp only [putUp, update_keeps]

theorem putLeft_ring (hr : Ring l.right l.left old lst) (hn : nnew ∉ old :: lst) :
    Ring (putLeft old nnew l).right (putLeft old nnew l).left old (lst ++ [nnew]) := by
  rw [putLeft_right]
  exact hr.insert hn

theorem putUp_ring (hr : Ring l.down l.up old lst) (hn : nnew ∉ old :: lst) :
    Ring (putUp old nnew l).down (putUp old nnew l).up old (lst ++ [nnew]) := by
  rw [putUp_down]
  exact hr.insert hn

/-- Only the new node and the ring that it enters change. -/
theorem putLeft_of_ne (hr : Ring l.right l.left old lst) (hx : x ≠ nnew) (hlst : x ∉ old :: lst) :
    (putLeft old nnew l).right x = l.right x ∧ (putLeft old nnew l).left x = l.left x := by
  have hlast : x ≠ l.left old := by
    rw [hr.prev_head]
    exact fun heq => hlst (heq ▸ getLastD_mem lst old)
  have hold : x ≠ old := fun heq => hlst (heq ▸ List.mem_cons_self)
  rw [putLeft_right, Function.update_of_ne hlast, Function.update_of_ne hx]
  refine ⟨rfl, ?_⟩
  simp only [putLeft]
  rw [Function.update_of_ne hold, Function.update_of_ne hx]

theorem putUp_of_ne (hr : Ring l.down l.up old lst) (hx : x ≠ nnew) (hlst : x ∉ old :: lst) :
    (putUp old nnew l).down x = l.down x ∧ (putUp old nnew l).up x = l.up x := by
  have hlast : x ≠ l.up old := by
    rw [hr.prev_head]
    exact fun heq => hlst (heq ▸ getLastD_mem lst old)
  have hold : x ≠ old := fun heq => hlst (heq ▸ List.mem_cons_self)
  rw [putUp_down, Function.update_of_ne hlast, Function.update_of_ne hx]
  refine ⟨rfl, ?_⟩
  simp only [putUp]
  rw [Function.update_of_ne hold, Function.update_of_ne hx]

theorem blank_laid (board : ℕ → ℕ) : ∃ s, (blank board).newColumn 0 = some s ∧ Laid board [] 0 s := by
  refine ⟨_, if_pos (show 0 < kMaxNodes by decide), rfl, rfl, rfl, rfl, ⟨rfl, rfl, ?_⟩, ?_, ?_, ?_,
    ?_⟩
  · exact List.nodup_singleton 0
  · intro n c
    refine iff_of_false (fun hc : none = some c => by cases hc) fun hc => ?_
    have hle := hc.1.2
    rw [List.length_nil] at hle
    omega
  · intro n
    exact iff_of_false List.not_mem_nil fun hne => hne rfl
  · intro d hd hle
    rw [List.length_nil] at hle
    omega
  · simp

theorem appendColumn_eq (hroot : s.root_ = 0) (hnone : s.columns_ n = none)
    (hmax : s.cur_node_ < kMaxNodes) :
    s.appendColumn n = some { s with
      nodes_ := putLeft 0 s.cur_node_ (freshNode s.cur_node_ s.cur_node_ s.nodes_)
      name := Function.update s.name s.cur_node_ n
      cur_node_ := s.cur_node_ + 1
      columns_ := Function.update s.columns_ n (some s.cur_node_) } := by
  rw [appendColumn, hnone, newColumn, if_pos hmax, ← hroot]
  rfl

/-- A new name gets the next node. -/
theorem appendColumn_laid (h : Laid board names 0 s) (hn : n ∉ names)
    (hmax : s.cur_node_ < kMaxNodes) :
    ∃ t, s.appendColumn n = some t ∧ Laid board (names ++ [n]) 0 t := by
  have hnone : s.columns_ n = none := by
    by_contra hne
    exact hn ((h.listed n).2 hne)
  have hcur := h.cur
  have hold : ∀ d, d ≤ names.length → d ≠ s.cur_node_ := fun d hd => by omega
  have hmem : ∀ y ∈ 0 :: List.range' 1 names.length, y ≠ s.cur_node_ := by
    intro y hy
    apply hold
    rw [List.mem_cons, List.mem_range'_1] at hy
    omega
  have hlen : (names ++ [n]).length = names.length + 1 := by
    rw [List.length_append, List.length_singleton]
  refine ⟨_, appendColumn_eq h.root hnone hmax, h.root, h.inout, h.stack, ?_, ?_, ?_, ?_, ?_, ?_⟩
  · rw [hlen]
    change s.cur_node_ + 1 = _
    omega
  · rw [hlen, List.range'_1_concat]
    have hring : Ring (freshNode s.cur_node_ s.cur_node_ s.nodes_).right
        (freshNode s.cur_node_ s.cur_node_ s.nodes_).left 0 (List.range' 1 names.length) := by
      apply h.heads.congr
      · exact fun y hy => Function.update_of_ne (hmem y hy) ..
      · exact fun y hy => Function.update_of_ne (hmem y hy) ..
    have hnext := putLeft_ring hring fun hin => hmem _ hin rfl
    rw [show 1 + names.length = s.cur_node_ by omega]
    exact hnext
  · intro n' c
    rw [hlen]
    change Function.update s.columns_ n (some s.cur_node_) n' = some c ↔
      _ ∧ Function.update s.name s.cur_node_ n c = n'
    by_cases hn' : n' = n
    · subst hn'
      rw [Function.update_self, Option.some.injEq]
      constructor
      · rintro rfl
        exact ⟨by omega, Function.update_self ..⟩
      · rintro ⟨hle, hname⟩
        by_contra hne
        rw [Function.update_of_ne (Ne.symm hne)] at hname
        have hlisted := (h.column n' c).2 ⟨by omega, hname⟩
        rw [hnone] at hlisted
        cases hlisted
    · rw [Function.update_of_ne hn', h.column n' c]
      constructor
      · rintro ⟨hle, hname⟩
        rw [Function.update_of_ne (hold c hle.2)]
        exact ⟨by omega, hname⟩
      · rintro ⟨hle, hname⟩
        by_cases hc : c = s.cur_node_
        · rw [hc, Function.update_self] at hname
          exact absurd hname.symm hn'
        · rw [Function.update_of_ne hc] at hname
          exact ⟨by omega, hname⟩
  · intro n'
    change _ ↔ Function.update s.columns_ n (some s.cur_node_) n' ≠ none
    rw [List.mem_append, List.mem_singleton]
    by_cases hn' : n' = n
    · subst hn'
      rw [Function.update_self]
      exact iff_of_true (Or.inr rfl) (by simp)
    · rw [Function.update_of_ne hn', ← h.listed n']
      exact or_iff_left hn'
  · intro d hd hle
    rw [hlen] at hle
    change Ring (Function.update s.nodes_.down s.cur_node_ s.cur_node_)
      (Function.update s.nodes_.up s.cur_node_ s.cur_node_) d []
    by_cases hdc : d = s.cur_node_
    · rw [hdc]
      exact ⟨Function.update_self .., Function.update_self .., List.nodup_singleton _⟩
    · apply (h.columns d hd (by omega)).congr
      · intro y hy
        rw [List.mem_singleton.1 hy]
        exact Function.update_of_ne hdc ..
      · intro y hy
        rw [List.mem_singleton.1 hy]
        exact Function.update_of_ne hdc ..
  · simp

/-- All the columns are appended. -/
theorem appendColumns_laid {more : List ℕ} (h : Laid board names 0 s)
    (hnodup : (names ++ more).Nodup) (hmax : 1 + (names ++ more).length ≤ kMaxNodes) :
    ∃ t, more.foldlM appendColumn s = some t ∧ Laid board (names ++ more) 0 t := by
  induction more generalizing names s with
  | nil =>
    rw [List.append_nil]
    exact ⟨s, rfl, h⟩
  | cons n more ih =>
    have hsplit : names ++ n :: more = (names ++ [n]) ++ more := by
      rw [List.append_assoc, List.singleton_append]
    have hn : n ∉ names := fun hin =>
      List.disjoint_of_nodup_append hnodup hin List.mem_cons_self
    have hcur := h.cur
    rw [List.length_append, List.length_cons] at hmax
    obtain ⟨t, ht, hlaid⟩ := appendColumn_laid h hn (by omega)
    rw [hsplit] at hnodup ⊢
    obtain ⟨u, hu, hall⟩ := ih hlaid hnodup (by simp; omega)
    refine ⟨u, ?_, hall⟩
    rw [List.foldlM_cons, ht]
    exact hu

/-- What a new node changes but for its column. -/
structure Extends (s t : SudokuSolver) (n : ℕ) : Prop where
  cur : t.cur_node_ = s.cur_node_ + 1
  right : t.nodes_.right = Function.update s.nodes_.right s.cur_node_ s.cur_node_
  left : t.nodes_.left = Function.update s.nodes_.left s.cur_node_ s.cur_node_
  name : t.name = Function.update s.name s.cur_node_ n

theorem freshNode_ring (hr : Ring l.down l.up old lst) (hn : nnew ∉ old :: lst) (c : ℕ) :
    Ring (freshNode nnew c l).down (freshNode nnew c l).up old lst := by
  have hne : ∀ y ∈ old :: lst, y ≠ nnew := fun y hy heq => hn (heq ▸ hy)
  apply hr.congr
  · exact fun y hy => Function.update_of_ne (hne y hy) ..
  · exact fun y hy => Function.update_of_ne (hne y hy) ..

theorem putUp_col_of_ne (l : Links ℕ) (c : ℕ) (hx : x ≠ nnew) :
    (putUp c nnew (freshNode nnew c l)).col x = l.col x :=
  (Function.update_of_ne hx ..).trans (Function.update_of_ne hx ..)

theorem Laid.lt_cur (h : Laid board names q s) (hx : x ∈ List.range' (1 + names.length) q) :
    x < s.cur_node_ := by
  have hcur := h.cur
  rw [List.mem_range'_1] at hx
  omega

/-- The next node is in no column. -/
theorem Laid.cur_notMem (h : Laid board names q s) {d : ℕ} (hd : d ≤ names.length) :
    s.cur_node_ ∉ d :: (List.range' (1 + names.length) q).filter fun x => s.nodes_.col x = d := by
  have hcur := h.cur
  intro hin
  rcases List.mem_cons.1 hin with heq | hin
  · omega
  · exact Nat.lt_irrefl _ (h.lt_cur (List.mem_of_mem_filter hin))

/-- Two columns have no node in common. -/
theorem disjoint_columns {c d : ℕ} (hdc : d ≠ c) (hc : c ≤ names.length) (hd : d ≤ names.length)
    (hx : x ∈ d :: (List.range' (1 + names.length) q).filter fun x => s.nodes_.col x = d) :
    x ∉ c :: (List.range' (1 + names.length) q).filter fun x => s.nodes_.col x = c := by
  intro hin
  rcases List.mem_cons.1 hx with rfl | hx
  · rcases List.mem_cons.1 hin with heq | hin
    · exact hdc heq
    · have hrange := List.mem_range'_1.1 (List.mem_of_mem_filter hin)
      omega
  · have hrange := List.mem_range'_1.1 (List.mem_of_mem_filter hx)
    rcases List.mem_cons.1 hin with heq | hin
    · omega
    · have hxd : s.nodes_.col x = d := by simpa using (List.mem_filter.1 hx).2
      have hxc : s.nodes_.col x = c := by simpa using (List.mem_filter.1 hin).2
      exact hdc (hxd.symm.trans hxc)

/-- A new node comes last in its column, and the other columns stay as they are. -/
theorem Laid.columns_push (h : Laid board names q s) {c d : ℕ} (hc1 : 1 ≤ c)
    (hc : c ≤ names.length) (hd1 : 1 ≤ d) (hd : d ≤ names.length) :
    Ring (putUp c s.cur_node_ (freshNode s.cur_node_ c s.nodes_)).down
      (putUp c s.cur_node_ (freshNode s.cur_node_ c s.nodes_)).up d
      ((List.range' (1 + names.length) (q + 1)).filter fun x =>
        (putUp c s.cur_node_ (freshNode s.cur_node_ c s.nodes_)).col x = d) := by
  have hcolnew : (putUp c s.cur_node_ (freshNode s.cur_node_ c s.nodes_)).col s.cur_node_ = c :=
    Function.update_self ..
  have hfilter : (List.range' (1 + names.length) q).filter (fun x =>
      (putUp c s.cur_node_ (freshNode s.cur_node_ c s.nodes_)).col x = d) =
      (List.range' (1 + names.length) q).filter fun x => s.nodes_.col x = d := by
    apply List.filter_congr
    intro y hy
    rw [putUp_col_of_ne s.nodes_ c (Nat.ne_of_lt (h.lt_cur hy))]
  have hfresh := freshNode_ring (h.columns d hd1 hd) (h.cur_notMem hd) c
  rw [List.range'_1_concat, List.filter_append, hfilter, ← h.cur]
  by_cases hdc : d = c
  · subst hdc
    rw [List.filter_singleton, hcolnew, decide_eq_true rfl, cond_true]
    exact putUp_ring hfresh (h.cur_notMem hd)
  · have hring := freshNode_ring (h.columns c hc1 hc) (h.cur_notMem hc) c
    have hne : ∀ y ∈ d :: (List.range' (1 + names.length) q).filter fun x => s.nodes_.col x = d,
        y ≠ s.cur_node_ := fun y hy (heq : y = s.cur_node_) => h.cur_notMem hd (heq ▸ hy)
    have hkeep := fun y hy => putUp_of_ne hring (hne y hy) (disjoint_columns hdc hc hd hy)
    rw [List.filter_singleton, hcolnew, decide_eq_false (Ne.symm hdc), cond_false, List.append_nil]
    apply hfresh.congr
    · exact fun y hy => (hkeep y hy).1
    · exact fun y hy => (hkeep y hy).2

/-- A new node is the last one in the column of its name. -/
theorem newRow_laid (h : Laid board names q s) (hn : n ∈ names) (hmax : s.cur_node_ < kMaxNodes) :
    ∃ t, s.newRow n = some t ∧ Laid board names (q + 1) t ∧ Extends s t n := by
  obtain ⟨c, hc⟩ := Option.ne_none_iff_exists'.1 ((h.listed n).1 hn)
  obtain ⟨⟨hc1, hclen⟩, hcname⟩ := (h.column n c).1 hc
  have hcur := h.cur
  have heq : s.newRow n = some { s with
      nodes_ := putUp c s.cur_node_ (freshNode s.cur_node_ c s.nodes_)
      name := Function.update s.name s.cur_node_ n
      cur_node_ := s.cur_node_ + 1 } := by
    rw [newRow, hc]
    exact if_pos hmax
  have hlow : ∀ y, y < s.cur_node_ → y ≠ s.cur_node_ := fun y hy => Nat.ne_of_lt hy
  refine ⟨_, heq, ⟨h.root, h.inout, h.stack, ?_, ?_, ?_, h.listed, ?_, ?_⟩, rfl, rfl, rfl, rfl⟩
  · change s.cur_node_ + 1 = _
    omega
  · apply h.heads.congr
    · intro y hy
      rw [List.mem_cons, List.mem_range'_1] at hy
      exact Function.update_of_ne (hlow y (by omega)) ..
    · intro y hy
      rw [List.mem_cons, List.mem_range'_1] at hy
      exact Function.update_of_ne (hlow y (by omega)) ..
  · intro n' c'
    rw [h.column n' c']
    apply and_congr_right
    intro hle
    change _ ↔ Function.update s.name s.cur_node_ n c' = n'
    rw [Function.update_of_ne (hlow c' (by omega))]
  · exact fun d hd hle => h.columns_push hc1 hclen hd hle
  · intro y hy
    rw [List.range'_1_concat, ← hcur, List.mem_append, List.mem_singleton] at hy
    change s.columns_ (Function.update s.name s.cur_node_ n y) =
      some ((putUp c s.cur_node_ (freshNode s.cur_node_ c s.nodes_)).col y)
    rcases hy with hy | rfl
    · have hne := hlow y (h.lt_cur hy)
      rw [Function.update_of_ne hne, putUp_col_of_ne s.nodes_ c hne]
      exact h.col y hy
    · have hcolnew : (putUp c s.cur_node_ (freshNode s.cur_node_ c s.nodes_)).col s.cur_node_ = c :=
        Function.update_self ..
      rw [Function.update_self, hcolnew]
      exact hc

/-- The row of a candidate, from its node `k` on. -/
structure RowAt (s : SudokuSolver) (k : ℕ) (e : ℕ × ℕ) : Prop where
  ring : Ring s.nodes_.right s.nodes_.left k [k + 1, k + 2, k + 3]
  names : [s.name k, s.name (k + 1), s.name (k + 2), s.name (k + 3)] = rowNames e

/-- The nodes before `k` keep their neighbours and their names. -/
def SameBelow (s t : SudokuSolver) (k : ℕ) : Prop :=
  ∀ y < k, t.nodes_.right y = s.nodes_.right y ∧ t.nodes_.left y = s.nodes_.left y ∧
    t.name y = s.name y

theorem RowAt.congr {t : SudokuSolver} {j k : ℕ} (h : RowAt s j e) (hsame : SameBelow s t k)
    (hj : j + 3 < k) : RowAt t j e := by
  have hmem : ∀ y ∈ [j, j + 1, j + 2, j + 3], y < k := by
    intro y hy
    simp only [List.mem_cons, List.not_mem_nil, or_false] at hy
    omega
  refine ⟨h.ring.congr (fun y hy => (hsame y (hmem y hy)).1) fun y hy => (hsame y (hmem y hy)).2.1,
    ?_⟩
  rw [(hsame j (by omega)).2.2, (hsame (j + 1) (by omega)).2.2, (hsame (j + 2) (by omega)).2.2,
    (hsame (j + 3) (by omega)).2.2]
  exact h.names

theorem Extends.sameBelow {t : SudokuSolver} (h : Extends s t n) :
    SameBelow s t s.cur_node_ := by
  intro y hy
  have hne := Nat.ne_of_lt hy
  rw [h.right, h.left, h.name, Function.update_of_ne hne, Function.update_of_ne hne,
    Function.update_of_ne hne]
  exact ⟨rfl, rfl, rfl⟩

theorem SameBelow.trans {t u : SudokuSolver} {j k : ℕ} (h : SameBelow s t j) (h' : SameBelow t u k)
    (hle : j ≤ k) : SameBelow s u j := by
  intro y hy
  obtain ⟨hright, hleft, hname⟩ := h y hy
  obtain ⟨hright', hleft', hname'⟩ := h' y (by omega)
  exact ⟨hright'.trans hright, hleft'.trans hleft, hname'.trans hname⟩

/-- The four nodes are joined to a row, and the others are not touched. -/
theorem putLefts_ring {k : ℕ} (hr : Ring l.right l.left k []) :
    Ring (putLeft k (k + 3) (putLeft k (k + 2) (putLeft k (k + 1) l))).right
        (putLeft k (k + 3) (putLeft k (k + 2) (putLeft k (k + 1) l))).left k
        [k + 1, k + 2, k + 3] ∧
      ∀ y < k, (putLeft k (k + 3) (putLeft k (k + 2) (putLeft k (k + 1) l))).right y = l.right y ∧
        (putLeft k (k + 3) (putLeft k (k + 2) (putLeft k (k + 1) l))).left y = l.left y := by
  have hr₁ := putLeft_ring hr (show k + 1 ∉ [k] by simp)
  have hr₂ := putLeft_ring hr₁ (show k + 2 ∉ [k, k + 1] by simp)
  refine ⟨putLeft_ring hr₂ (by simp), fun y hy => ?_⟩
  have h₁ := putLeft_of_ne hr (show y ≠ k + 1 by omega) (by simp; omega)
  have h₂ := putLeft_of_ne hr₁ (show y ≠ k + 2 by omega) (by simp; omega)
  have h₃ := putLeft_of_ne hr₂ (show y ≠ k + 3 by omega) (by simp; omega)
  exact ⟨h₃.1.trans (h₂.1.trans h₁.1), h₃.2.trans (h₂.2.trans h₁.2)⟩

theorem addRow_laid (h : Laid board names q s) (hnames : ∀ n ∈ rowNames e, n ∈ names)
    (hmax : s.cur_node_ + 4 ≤ kMaxNodes) :
    ∃ t, s.addRow e = some t ∧ Laid board names (q + 4) t ∧ RowAt t s.cur_node_ e ∧
      SameBelow s t s.cur_node_ := by
  obtain ⟨s₁, h₁, hlaid₁, he₁⟩ := newRow_laid h (hnames e.1 (by simp [rowNames]))
    (show s.cur_node_ < kMaxNodes by omega)
  have hc₁ := he₁.cur
  obtain ⟨s₂, h₂, hlaid₂, he₂⟩ := newRow_laid hlaid₁
    (hnames (getRowCol (House.row.of e.1) e.2) (by simp [rowNames]))
    (show s₁.cur_node_ < kMaxNodes by omega)
  have hc₂ := he₂.cur
  obtain ⟨s₃, h₃, hlaid₃, he₃⟩ := newRow_laid hlaid₂
    (hnames (getColCol (House.col.of e.1) e.2) (by simp [rowNames]))
    (show s₂.cur_node_ < kMaxNodes by omega)
  have hc₃ := he₃.cur
  obtain ⟨s₄, h₄, hlaid₄, he₄⟩ := newRow_laid hlaid₃
    (hnames (getBoxCol (House.box.of e.1) e.2) (by simp [rowNames]))
    (show s₃.cur_node_ < kMaxNodes by omega)
  have heq : s.addRow e = some { s₄ with
      nodes_ := putLeft s.cur_node_ s₃.cur_node_
        (putLeft s.cur_node_ s₂.cur_node_ (putLeft s.cur_node_ s₁.cur_node_ s₄.nodes_)) } := by
    simp only [addRow, h₁, h₂, h₃, h₄, Option.bind_eq_bind, Option.bind_some]
  have hk₁ : s₁.cur_node_ = s.cur_node_ + 1 := hc₁
  have hk₂ : s₂.cur_node_ = s.cur_node_ + 2 := by omega
  have hk₃ : s₃.cur_node_ = s.cur_node_ + 3 := by omega
  rw [hk₁, hk₂, hk₃] at heq
  generalize hk : s.cur_node_ = k at *
  have hself : Ring s₄.nodes_.right s₄.nodes_.left k [] := by
    refine ⟨?_, ?_, List.nodup_singleton k⟩
    · change s₄.nodes_.right k = k
      rw [he₄.right, he₃.right, he₂.right, he₁.right, hk₁, hk₂, hk₃, hk]
      simp
    · change s₄.nodes_.left k = k
      rw [he₄.left, he₃.left, he₂.left, he₁.left, hk₁, hk₂, hk₃, hk]
      simp
  have hbelow : SameBelow s s₄ k := by
    have hall := ((he₁.sameBelow.trans he₂.sameBelow (by omega)).trans he₃.sameBelow
      (by omega)).trans he₄.sameBelow (by omega)
    exact hk ▸ hall
  obtain ⟨hring, hframe⟩ := putLefts_ring hself
  have hcur₄ := hlaid₄.cur
  have hcur := h.cur
  refine ⟨_, heq, ⟨hlaid₄.root, hlaid₄.inout, hlaid₄.stack, hlaid₄.cur, ?_, hlaid₄.column,
    hlaid₄.listed, hlaid₄.columns, hlaid₄.col⟩, ⟨hring, ?_⟩, fun y hy => ?_⟩
  · have hmem : ∀ y ∈ 0 :: List.range' 1 names.length, y < k := by
      intro y hy
      rw [List.mem_cons, List.mem_range'_1] at hy
      omega
    exact hlaid₄.heads.congr (fun y hy => (hframe y (hmem y hy)).1)
      fun y hy => (hframe y (hmem y hy)).2
  · change [s₄.name k, s₄.name (k + 1), s₄.name (k + 2), s₄.name (k + 3)] = _
    rw [he₄.name, he₃.name, he₂.name, he₁.name, hk₁, hk₂, hk₃, hk]
    simp [rowNames]
  · obtain ⟨hright, hleft, hname⟩ := hbelow y hy
    obtain ⟨hright', hleft'⟩ := hframe y hy
    exact ⟨hright'.trans hright, hleft'.trans hleft, hname⟩

/-- The solver with the rows of the candidates, which begin every four nodes. -/
structure Built (board : ℕ → ℕ) (names : List ℕ) (cands : List (ℕ × ℕ)) (s : SudokuSolver) :
    Prop where
  laid : Laid board names (4 * cands.length) s
  rows : ∀ j e, cands[j]? = some e → RowAt s (1 + names.length + 4 * j) e

theorem addRows_built {cands more : List (ℕ × ℕ)} (h : Built board names cands s)
    (hnames : ∀ e ∈ more, ∀ n ∈ rowNames e, n ∈ names)
    (hmax : 1 + names.length + 4 * (cands ++ more).length ≤ kMaxNodes) :
    ∃ t, more.foldlM addRow s = some t ∧ Built board names (cands ++ more) t := by
  induction more generalizing cands s with
  | nil =>
    rw [List.append_nil]
    exact ⟨s, rfl, h⟩
  | cons e more ih =>
    have hcur := h.laid.cur
    rw [List.length_append, List.length_cons] at hmax
    obtain ⟨t, ht, hlaid, hrow, hsame⟩ := addRow_laid h.laid (hnames e List.mem_cons_self)
      (by omega)
    have hlen : (cands ++ [e]).length = cands.length + 1 := by
      rw [List.length_append, List.length_singleton]
    have hbuilt : Built board names (cands ++ [e]) t := by
      refine ⟨by rw [hlen]; exact hlaid, fun j e' hj => ?_⟩
      by_cases hlt : j < cands.length
      · rw [List.getElem?_append_left hlt] at hj
        exact (h.rows j e' hj).congr hsame (by omega)
      · rw [List.getElem?_append_right (by omega)] at hj
        have hj0 : j = cands.length := by
          have hbound := (List.getElem?_eq_some_iff.1 hj).1
          rw [List.length_singleton] at hbound
          omega
        subst hj0
        rw [Nat.sub_self, List.getElem?_cons_zero, Option.some.injEq] at hj
        rw [← hj, ← hcur]
        exact hrow
    obtain ⟨u, hu, hall⟩ := ih hbuilt (fun e' he' => hnames e' (List.mem_cons_of_mem e he'))
      (by simp; omega)
    refine ⟨u, ?_, ?_⟩
    · rw [List.foldlM_cons, ht]
      exact hu
    · rw [List.append_assoc, List.singleton_append] at hall
      exact hall

/-- The names of a candidate's row are those of columns. -/
theorem rowNames_columnNames (he : e ∈ candidates board) (hn : n ∈ rowNames e) :
    n ∈ columnNames board := by
  obtain ⟨hcell, hval, hmarks⟩ := mem_candidates.1 he
  rw [mem_columnNames]
  rcases mem_rowNames.1 hn with rfl | ⟨h, rfl⟩
  · exact Or.inl hcell
  · exact Or.inr ⟨h, _, _, of_lt h hcell.1, hval, hmarks h, rfl⟩

/-- No assertion of the constructor fails. -/
theorem construct_built (board : ℕ → ℕ) :
    ∃ s, construct board = some s ∧ Built board (columnNames board) (candidates board) s := by
  have hcols := length_columnNames_le board
  have hrows := length_candidates_le board
  have hmax : 1 + (columnNames board).length + 4 * (candidates board).length ≤ kMaxNodes := by
    unfold kMaxNodes
    omega
  obtain ⟨s₀, h₀, hlaid₀⟩ := blank_laid board
  obtain ⟨s₁, h₁, hlaid₁⟩ := appendColumns_laid hlaid₀
    (show ([] ++ columnNames board).Nodup by rw [List.nil_append]; exact nodup_columnNames board)
    (by rw [List.nil_append]; omega)
  rw [List.nil_append] at hlaid₁
  have hbuilt₁ : Built board (columnNames board) [] s₁ := ⟨hlaid₁, by simp⟩
  obtain ⟨s₂, h₂, hbuilt₂⟩ := addRows_built hbuilt₁ (fun e he n hn => rowNames_columnNames he hn)
    (by rw [List.nil_append]; exact hmax)
  rw [List.nil_append] at hbuilt₂
  refine ⟨s₂, ?_, hbuilt₂⟩
  rw [construct, h₀]
  change (columnNames board).foldlM appendColumn s₀ >>= (fun s =>
    (candidates board).foldlM addRow s) = some s₂
  rw [h₁]
  exact h₂

end SudokuSolver

end MuduoServer
