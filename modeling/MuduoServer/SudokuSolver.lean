import Mathlib.Data.Finset.Card
import MuduoServer.DancingLinks
import MuduoServer.ExactCover

/-!
`SudokuSolver::solve`: the search for an exact cover with dancing links. Its loops are given the
number of the nodes as fuel, and the recursion the number of the columns. A search that fails
leaves every link as it was; one that succeeds has filled in the rows of an exact cover.
-/
namespace MuduoServer

open Rings DancingLinks ExactCovers

def kMaxNodes : ℕ := 1 + 81 * 4 + 9 * 9 * 9 * 4
def kMaxColumns : ℕ := 400

/-- The fields of the nodes are functions of their indexes in `nodes_`; `name` is never changed
after a node is made. -/
structure SudokuSolver where
  root_ : ℕ
  inout_ : ℕ → ℕ
  columns_ : ℕ → Option ℕ
  stack_ : List ℕ
  nodes_ : Links ℕ
  name : ℕ → ℕ
  cur_node_ : ℕ

namespace SudokuSolver

/-- The loop over `n->right` that looks for the cell and the value of a row; -1 is `none`. -/
def readRow (s : SudokuSolver) : ℕ → ℕ → Option ℕ → Option ℕ → Option (ℕ × ℕ)
  | fuel, n, cell, val =>
      match cell, val, fuel with
      | some cell, some val, _ => some (cell, val)
      | _, _, 0 => none
      | cell, val, fuel + 1 =>
          if s.name n < 100 then readRow s fuel (s.nodes_.right n) (some (s.name n)) val
          else readRow s fuel (s.nodes_.right n) cell (some (s.name n % 10))

/-- `inout_[cell] = val` for every row on the stack. -/
def fill (s : SudokuSolver) : Option SudokuSolver := do
  let board ← s.stack_.foldlM (fun board n => do
    let (cell, val) ← s.readRow kMaxNodes n none none
    some (Function.update board cell val)) s.inout_
  some { s with inout_ := board }

/-- The loop of `get_min_column`. -/
def minColumn (s : SudokuSolver) : ℕ → ℕ → ℕ → ℤ → Option ℕ
  | 0, _, _, _ => none
  | fuel + 1, cc, c, minSize =>
      if cc = s.root_ then some c
      else if minSize > s.nodes_.size cc then
        if s.nodes_.size cc ≤ 1 then some cc
        else minColumn s fuel (s.nodes_.right cc) cc (s.nodes_.size cc)
      else minColumn s fuel (s.nodes_.right cc) c minSize

def getMinColumn (s : SudokuSolver) : Option ℕ :=
  let c := s.nodes_.right s.root_
  let minSize := s.nodes_.size c
  if minSize > 1 then s.minColumn kMaxNodes (s.nodes_.right c) c minSize else some c

/-- The loop over the rows of a covered column. -/
def tryRows (solve : SudokuSolver → Option (Bool × SudokuSolver)) (col : ℕ) :
    ℕ → ℕ → SudokuSolver → Option (Bool × SudokuSolver)
  | 0, _, _ => none
  | fuel + 1, row, s =>
      if row = col then do
        let nodes_ ← uncover kMaxNodes col s.nodes_
        some (false, { s with nodes_ := nodes_ })
      else do
        let nodes_ ← coverRow kMaxNodes row s.nodes_
        let (found, s) ← solve { s with nodes_ := nodes_, stack_ := s.stack_ ++ [row] }
        if found then some (true, s)
        else
          let nodes_ ← uncoverRow kMaxNodes row s.nodes_
          tryRows solve col fuel (nodes_.down row)
            { s with nodes_ := nodes_, stack_ := s.stack_.dropLast }

def solve : ℕ → SudokuSolver → Option (Bool × SudokuSolver)
  | 0, _ => none
  | depth + 1, s =>
      if s.nodes_.left s.root_ = s.root_ then do
        let s ← s.fill
        some (true, s)
      else do
        let col ← s.getMinColumn
        let nodes_ ← cover kMaxNodes col s.nodes_
        tryRows (solve depth) col kMaxNodes (nodes_.down col) { s with nodes_ := nodes_ }

/-- What the rows of a matrix say: the names below 100 in a row are its cell, and the others end
with its value. -/
structure Entries (M : Matrix ℕ) (name : ℕ → ℕ) (entry : ℕ → ℕ × ℕ) : Prop where
  cell : ∀ n ∈ M.nodes, ∀ m ∈ n :: M.others n, name m < 100 → name m = (entry n).1
  val : ∀ n ∈ M.nodes, ∀ m ∈ n :: M.others n, ¬ name m < 100 → name m % 10 = (entry n).2
  has_cell : ∀ n ∈ M.nodes, ∃ m ∈ n :: M.others n, name m < 100
  has_val : ∀ n ∈ M.nodes, ∃ m ∈ n :: M.others n, ¬ name m < 100

/-- A board with one more entry. -/
def put (entry : ℕ → ℕ × ℕ) (board : ℕ → ℕ) (n : ℕ) : ℕ → ℕ :=
  Function.update board (entry n).1 (entry n).2

variable {M : Matrix ℕ} {A : Finset ℕ} {entry : ℕ → ℕ × ℕ} {s t : SudokuSolver} {c n : ℕ}
  {fuel depth : ℕ}

/-- What the loop knows after a part of a row: it is known, or it is still to come. -/
def Known (e : ℕ) (p : ℕ → Prop) (found : Option ℕ) (rest : List ℕ) : Prop :=
  found = some e ∨ found = none ∧ ∃ m ∈ rest, p m

theorem Known.tail {e x : ℕ} {p : ℕ → Prop} {found : Option ℕ} {rest : List ℕ}
    (h : Known e p found (x :: rest)) (hx : ¬ p x) : Known e p found rest := by
  rcases h with h | ⟨hnone, m, hm, hp⟩
  · exact Or.inl h
  · rcases List.mem_cons.1 hm with rfl | hm
    · exact absurd hp hx
    · exact Or.inr ⟨hnone, m, hm, hp⟩

theorem Known.eq_some {e : ℕ} {p : ℕ → Prop} {found : Option ℕ} (h : Known e p found []) :
    found = some e := by
  rcases h with h | ⟨-, m, hm, -⟩
  · exact h
  · exact absurd hm List.not_mem_nil

theorem readRow_found (s : SudokuSolver) (fuel x cell val : ℕ) :
    s.readRow fuel x (some cell) (some val) = some (cell, val) := by
  unfold readRow
  rfl

/-- One round of the loop. -/
theorem readRow_next {e : ℕ × ℕ} {x : ℕ} {l : List ℕ} {cell val : Option ℕ}
    (hcells : s.name x < 100 → s.name x = e.1) (hvals : ¬ s.name x < 100 → s.name x % 10 = e.2)
    (hcell : Known e.1 (s.name · < 100) cell (x :: l))
    (hval : Known e.2 (¬ s.name · < 100) val (x :: l))
    (hnext : ∀ cell val, Known e.1 (s.name · < 100) cell l → Known e.2 (¬ s.name · < 100) val l →
      s.readRow fuel (s.nodes_.right x) cell val = some e) :
    s.readRow (fuel + 1) x cell val = some e := by
  have hstep : (if s.name x < 100 then
      s.readRow fuel (s.nodes_.right x) (some (s.name x)) val
      else s.readRow fuel (s.nodes_.right x) cell (some (s.name x % 10))) = some e := by
    split
    · rename_i hx
      exact hnext _ _ (Or.inl (congrArg some (hcells hx))) (hval.tail (not_not.2 hx))
    · rename_i hx
      exact hnext _ _ (hcell.tail hx) (Or.inl (congrArg some (hvals hx)))
  rcases hcell with rfl | ⟨rfl, -⟩
  · rcases hval with rfl | ⟨rfl, -⟩
    · exact readRow_found s _ _ _ _
    · rw [readRow]
      · exact hstep
      · simp
  · rw [readRow]
    · exact hstep
    · simp

theorem readRow_eq {e : ℕ × ℕ} {x h : ℕ} {l : List ℕ} {cell val : Option ℕ}
    (hpath : Path s.nodes_.right x l h)
    (hcells : ∀ m ∈ x :: l, s.name m < 100 → s.name m = e.1)
    (hvals : ∀ m ∈ x :: l, ¬ s.name m < 100 → s.name m % 10 = e.2)
    (hcell : Known e.1 (s.name · < 100) cell (x :: l))
    (hval : Known e.2 (¬ s.name · < 100) val (x :: l)) (hfuel : l.length < fuel) :
    s.readRow fuel x cell val = some e := by
  induction l generalizing x fuel cell val with
  | nil =>
    obtain ⟨fuel, rfl⟩ : ∃ m, fuel = m + 1 := ⟨fuel - 1, by omega⟩
    apply readRow_next (hcells x List.mem_cons_self) (hvals x List.mem_cons_self) hcell hval
    intro cell val hcell hval
    rw [hcell.eq_some, hval.eq_some, readRow_found]
  | cons y l ih =>
    obtain ⟨fuel, rfl⟩ : ∃ m, fuel = m + 1 := ⟨fuel - 1, by omega⟩
    apply readRow_next (hcells x List.mem_cons_self) (hvals x List.mem_cons_self) hcell hval
    intro cell val hcell hval
    rw [hpath.1]
    apply ih hpath.2 (fun m hm => hcells m (List.mem_cons_of_mem x hm))
      (fun m hm => hvals m (List.mem_cons_of_mem x hm)) hcell hval
    rw [List.length_cons] at hfuel
    omega

/-- The rows on the stack are put on the board in their order. -/
theorem fill_eq (hs : Represents M A s.nodes_) (hent : Entries M s.name entry)
    (hstack : ∀ n ∈ s.stack_, n ∈ M.nodes) (hfuel : M.nodes.length < kMaxNodes) :
    s.fill = some { s with inout_ := s.stack_.foldl (put entry) s.inout_ } := by
  have hread : ∀ n ∈ s.stack_, s.readRow kMaxNodes n none none = some (entry n) := by
    intro n hn
    have hnode := hstack n hn
    exact readRow_eq (hs.rows n hnode).next (hent.cell n hnode) (hent.val n hnode)
      (Or.inr ⟨rfl, hent.has_cell n hnode⟩) (Or.inr ⟨rfl, hent.has_val n hnode⟩)
      ((Matrix.length_others_le hnode).trans_lt hfuel)
  have hfold : ∀ (stack : List ℕ) (board : ℕ → ℕ), (∀ n ∈ stack, n ∈ s.stack_) →
      (stack.foldlM (fun board n => do
        let (cell, val) ← s.readRow kMaxNodes n none none
        some (Function.update board cell val)) board) = some (stack.foldl (put entry) board) := by
    intro stack
    induction stack with
    | nil => exact fun _ _ => rfl
    | cons n stack ih =>
      intro board hmem
      rw [List.foldlM_cons, hread n (hmem n List.mem_cons_self)]
      exact ih _ fun m hm => hmem m (List.mem_cons_of_mem n hm)
  rw [fill, hfold s.stack_ s.inout_ fun n hn => hn]
  rfl

theorem minColumn_mem {p : ℕ} {rest heads : List ℕ} {minSize : ℤ}
    (hpath : Path s.nodes_.right p rest s.root_) (hmem : ∀ m ∈ rest, m ∈ heads)
    (hroot : s.root_ ∉ rest) (hc : c ∈ heads) (hfuel : rest.length < fuel) :
    ∃ col, s.minColumn fuel (s.nodes_.right p) c minSize = some col ∧ col ∈ heads := by
  induction rest generalizing p c minSize fuel with
  | nil =>
    obtain ⟨fuel, rfl⟩ : ∃ m, fuel = m + 1 := ⟨fuel - 1, by omega⟩
    exact ⟨c, if_pos hpath, hc⟩
  | cons x rest ih =>
    obtain ⟨fuel, rfl⟩ : ∃ m, fuel = m + 1 := ⟨fuel - 1, by omega⟩
    have hx := hmem x List.mem_cons_self
    have hne : x ≠ s.root_ := fun heq => hroot (heq ▸ List.mem_cons_self)
    have hfuel' : rest.length < fuel := by
      rw [List.length_cons] at hfuel
      omega
    have hnext : ∀ {c : ℕ} {minSize : ℤ}, c ∈ heads →
        ∃ col, s.minColumn fuel (s.nodes_.right x) c minSize = some col ∧ col ∈ heads := fun hc =>
      ih hpath.2 (fun m hm => hmem m (List.mem_cons_of_mem x hm))
        (fun hin => hroot (List.mem_cons_of_mem x hin)) hc hfuel'
    rw [hpath.1, minColumn, if_neg hne]
    split
    · split
      · exact ⟨x, rfl, hx⟩
      · exact hnext hx
    · exact hnext hc

/-- Whatever the sizes are, the column that is chosen is one of those that are left. -/
theorem getMinColumn_mem (hs : Represents M A s.nodes_) (hroot : s.root_ = M.root)
    (hne : M.heads.filter (· ∈ A) ≠ []) (hfuel : M.heads.length < kMaxNodes) :
    ∃ c, s.getMinColumn = some c ∧ c ∈ A := by
  obtain ⟨c, rest, hl⟩ := List.exists_cons_of_ne_nil hne
  have hring := hs.heads
  rw [hl, ← hroot] at hring
  have hlen : (M.heads.filter (· ∈ A)).length ≤ M.heads.length := List.length_filter_le ..
  rw [hl, List.length_cons] at hlen
  have hmem : ∀ m ∈ M.heads.filter (· ∈ A), m ∈ A := fun m hm => by
    simpa using (List.mem_filter.1 hm).2
  rw [hl] at hmem
  rw [getMinColumn, hring.next.1]
  split
  · obtain ⟨col, hcol, hin⟩ := minColumn_mem hring.next.2
      (fun m hm => List.mem_cons_of_mem c hm)
      (fun hin => (List.nodup_cons.1 hring.nodup).1 (List.mem_cons_of_mem c hin))
      List.mem_cons_self (show rest.length < kMaxNodes by omega)
    exact ⟨col, hcol, hmem col hin⟩
  · exact ⟨c, rfl, hmem c List.mem_cons_self⟩

/-- What `solve` returns: an exact cover is on the board, or there is none and nothing has
changed. -/
def Solves (M : Matrix ℕ) (A : Finset ℕ) (entry : ℕ → ℕ × ℕ) (s : SudokuSolver)
    (result : Option (Bool × SudokuSolver)) : Prop :=
  (∃ T s', ExactCover (· ∈ M.nodes) M.cells A T ∧ result = some (true, s') ∧
    s'.inout_ = (s.stack_ ++ T).foldl (put entry) s.inout_) ∨
  (¬ ∃ T, ExactCover (· ∈ M.nodes) M.cells A T) ∧ result = some (false, s)

/-- What holds of the solver when `solve` is called. -/
structure Searches (M : Matrix ℕ) (entry : ℕ → ℕ × ℕ) (A : Finset ℕ) (s : SudokuSolver) :
    Prop where
  links : Represents M A s.nodes_
  root : s.root_ = M.root
  entries : Entries M s.name entry
  stack : ∀ n ∈ s.stack_, n ∈ M.nodes

theorem Searches.push (h : Searches M entry A s) {nodes_ : Links ℕ} {B : Finset ℕ}
    (hlinks : Represents M B nodes_) (hn : n ∈ M.nodes) :
    Searches M entry B { s with nodes_ := nodes_, stack_ := s.stack_ ++ [n] } := by
  refine ⟨hlinks, h.root, h.entries, fun m hm => ?_⟩
  rcases List.mem_append.1 hm with hin | hin
  · exact h.stack m hin
  · exact List.mem_singleton.1 hin ▸ hn

/-- The rows of a covered column are tried one after the other. -/
theorem tryRows_solves {search : SudokuSolver → Option (Bool × SudokuSolver)} {L rest : List ℕ}
    {covered : Links ℕ} (hs : Searches M entry A s) (hfuelM : M.nodes.length < kMaxNodes)
    (hcov : Represents M (A.erase c) covered)
    (hring : Ring covered.down covered.up c (M.active A [] c))
    (huncover : uncover kMaxNodes c covered = some s.nodes_)
    (hsearch : ∀ n ∈ M.active A [] c, ∀ t, Searches M entry (A \ M.cells n) t →
      Solves M (A \ M.cells n) entry t (search t))
    (hl : M.active A [] c = L ++ rest) (hfuel : rest.length < fuel) :
    (∃ n ∈ rest, ∃ T s', ExactCover (· ∈ M.nodes) M.cells (A \ M.cells n) T ∧
      tryRows search c fuel (rest.headD c) { s with nodes_ := covered } = some (true, s') ∧
      s'.inout_ = (s.stack_ ++ n :: T).foldl (put entry) s.inout_) ∨
    (∀ n ∈ rest, ¬ ∃ T, ExactCover (· ∈ M.nodes) M.cells (A \ M.cells n) T) ∧
      tryRows search c fuel (rest.headD c) { s with nodes_ := covered } = some (false, s) := by
  induction rest generalizing L fuel with
  | nil =>
    obtain ⟨fuel, rfl⟩ : ∃ m, fuel = m + 1 := ⟨fuel - 1, by omega⟩
    refine Or.inr ⟨by simp, ?_⟩
    rw [List.headD_nil, tryRows, if_pos rfl, huncover]
    rfl
  | cons n rest ih =>
    obtain ⟨fuel, rfl⟩ : ∃ m, fuel = m + 1 := ⟨fuel - 1, by omega⟩
    have hn : n ∈ M.active A [] c := hl ▸ List.mem_append_right L List.mem_cons_self
    have hnode := (Matrix.mem_column.1 (Matrix.mem_active.1 hn).1).1
    have hne : n ≠ c := fun heq => (List.nodup_cons.1 hring.nodup).1 (heq ▸ hn)
    obtain ⟨chosen, hchoose, hrep, hgiveup⟩ := coverRow_spec hcov hn hfuelM
    have hstep : tryRows search c (fuel + 1) n { s with nodes_ := covered } =
        (search { s with nodes_ := chosen, stack_ := s.stack_ ++ [n] } >>= fun r =>
          if r.1 then some (true, r.2)
          else uncoverRow kMaxNodes n r.2.nodes_ >>= fun nodes_ =>
            tryRows search c fuel (nodes_.down n)
              { r.2 with nodes_ := nodes_, stack_ := r.2.stack_.dropLast }) := by
      rw [tryRows, if_neg hne, hchoose]
      rfl
    rw [List.headD_cons]
    rcases hsearch n hn _ (hs.push hrep hnode) with ⟨T, s', hT, hfound, hboard⟩ | ⟨hnone, hfail⟩
    · refine Or.inl ⟨n, List.mem_cons_self, T, s', hT, ?_, ?_⟩
      · rw [hstep, hfound]
        rfl
      · rw [hboard, List.append_assoc, List.singleton_append]
    · have hl' : M.active A [] c = (L ++ [n]) ++ rest := by
        rw [hl, List.append_assoc, List.singleton_append]
      have hfuel' : rest.length < fuel := by
        rw [List.length_cons] at hfuel
        omega
      have hdown : covered.down n = rest.headD c := (hl ▸ hring).next_eq
      have hnext : tryRows search c (fuel + 1) n { s with nodes_ := covered } =
          tryRows search c fuel (rest.headD c) { s with nodes_ := covered } := by
        rw [hstep, hfail]
        change (uncoverRow kMaxNodes n chosen >>= fun nodes_ =>
          tryRows search c fuel (nodes_.down n)
            { s with nodes_ := nodes_, stack_ := (s.stack_ ++ [n]).dropLast }) = _
        rw [hgiveup, List.dropLast_concat]
        exact congrArg (fun row => tryRows search c fuel row { s with nodes_ := covered }) hdown
      rw [hnext]
      rcases ih hl' hfuel' with ⟨m, hm, hfound⟩ | ⟨hall, hfail'⟩
      · exact Or.inl ⟨m, List.mem_cons_of_mem n hm, hfound⟩
      · refine Or.inr ⟨fun m hm => ?_, hfail'⟩
        rcases List.mem_cons.1 hm with rfl | hm
        · exact hnone
        · exact hall m hm

/-- `solve` returns, with an exact cover if there is one. -/
theorem solve_solves (hfuelM : M.nodes.length < kMaxNodes) (hfuelH : M.heads.length < kMaxNodes)
    (hs : Searches M entry A s) (hdepth : A.card < depth) : Solves M A entry s (solve depth s) := by
  induction depth generalizing A s with
  | zero => exact absurd hdepth (Nat.not_lt_zero _)
  | succ depth ih =>
    rw [solve]
    by_cases hempty : M.heads.filter (· ∈ A) = []
    · have hroot : s.nodes_.left s.root_ = s.root_ := by
        rw [hs.root, hs.links.heads.prev_head, hempty]
        rfl
      have hA : A = ∅ := by
        rw [Finset.eq_empty_iff_forall_notMem]
        intro d hd
        have hin : d ∈ M.heads.filter (· ∈ A) := by
          rw [List.mem_filter]
          exact ⟨hs.links.sub d hd, by simpa using hd⟩
        rw [hempty] at hin
        exact absurd hin List.not_mem_nil
      rw [if_pos hroot, fill_eq hs.links hs.entries hs.stack hfuelM]
      exact Or.inl ⟨[], _, exactCover_nil.2 hA, rfl, by rw [List.append_nil]⟩
    · have hroot : s.nodes_.left s.root_ ≠ s.root_ := by
        obtain ⟨l, x, hl⟩ : ∃ l x, M.heads.filter (· ∈ A) = l ++ [x] :=
          ⟨_, _, (List.dropLast_append_getLast hempty).symm⟩
        have hring := hs.links.heads
        rw [hs.root, hring.prev_head]
        rw [hl] at hring ⊢
        rw [List.getLastD_concat]
        rintro rfl
        exact (List.nodup_cons.1 hring.nodup).1 (List.mem_append_right l List.mem_cons_self)
      obtain ⟨c, hcol, hc⟩ := getMinColumn_mem hs.links hs.root hempty hfuelH
      obtain ⟨covered, hcover, huncover, hcov, hring⟩ := cover_spec hs.links hc hfuelM
      have hsearch : ∀ n ∈ M.active A [] c, ∀ t, Searches M entry (A \ M.cells n) t →
          Solves M (A \ M.cells n) entry t (solve depth t) := by
        intro n hn t ht
        apply ih ht
        have hmem : c ∈ M.cells n := by
          rw [← (Matrix.mem_column.1 (Matrix.mem_active.1 hn).1).2]
          exact M.col_mem_cells n
        have hlt : (A \ M.cells n).card < A.card := by
          apply Finset.card_lt_card
          rw [Finset.ssubset_iff_of_subset Finset.sdiff_subset]
          exact ⟨c, hc, fun hin => (Finset.mem_sdiff.1 hin).2 hmem⟩
        omega
      have hfuel : (M.active A [] c).length < kMaxNodes :=
        (M.length_active_le A [] c).trans_lt hfuelM
      have hstart : covered.down c = (M.active A [] c).headD c := hring.next.head
      have hresult : (do
          let col ← s.getMinColumn
          let nodes_ ← cover kMaxNodes col s.nodes_
          tryRows (solve depth) col kMaxNodes (nodes_.down col) { s with nodes_ := nodes_ }) =
          tryRows (solve depth) c kMaxNodes ((M.active A [] c).headD c)
            { s with nodes_ := covered } := by
        rw [hcol]
        change (cover kMaxNodes c s.nodes_ >>= fun nodes_ =>
          tryRows (solve depth) c kMaxNodes (nodes_.down c) { s with nodes_ := nodes_ }) = _
        rw [hcover, ← hstart]
        rfl
      rw [if_neg hroot, hresult]
      rcases tryRows_solves hs hfuelM hcov hring huncover hsearch (List.nil_append _).symm hfuel
        with ⟨n, hn, T, s', hT, hfound, hboard⟩ | ⟨hnone, hfail⟩
      · obtain ⟨hcolumn, hlive, -⟩ := Matrix.mem_active.1 hn
        have hnode := (Matrix.mem_column.1 hcolumn).1
        exact Or.inl ⟨n :: T, s', exactCover_cons.2 ⟨hnode, hlive, hT⟩, hfound, hboard⟩
      · refine Or.inr ⟨fun hex => ?_, hfail⟩
        obtain ⟨r, hr, hcr, hsub, T, hT⟩ := (exists_exactCover_iff hc).1 hex
        obtain ⟨m, hm, hmcol⟩ := Matrix.mem_cells.1 hcr
        have hcells : M.cells m = M.cells r := by
          rcases List.mem_cons.1 hm with rfl | hm
          · rfl
          · exact Matrix.cells_others hr hm
        have hmnode : m ∈ M.nodes := by
          rcases List.mem_cons.1 hm with rfl | hm
          · exact hr
          · exact M.others_mem r hr m hm
        have hmem : m ∈ M.active A [] c := Matrix.mem_active.2
          ⟨Matrix.mem_column.2 ⟨hmnode, hmcol⟩, hcells ▸ hsub, List.not_mem_nil⟩
        exact hnone m hmem ⟨T, hcells ▸ hT⟩

end SudokuSolver

end MuduoServer
