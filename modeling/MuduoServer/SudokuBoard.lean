import Mathlib.Data.Finset.Card
import Mathlib.Data.List.Nodup
import Mathlib.Order.Interval.Finset.Nat
import Mathlib.Tactic.Common

/-!
The board of a sudoku and what is to be covered: each empty cell, and each value that a row, a
column or a box lacks. A candidate is a value in an empty cell. The candidates that cover every
name just once are those of a solution.
-/
namespace MuduoServer

def kCells : ℕ := 81
def kRow : ℕ := 100
def kCol : ℕ := 200
def kBox : ℕ := 300

def getRowCol (row val : ℕ) : ℕ := kRow + row * 10 + val
def getColCol (col val : ℕ) : ℕ := kCol + col * 10 + val
def getBoxCol (box val : ℕ) : ℕ := kBox + box * 10 + val

inductive House
  | row
  | col
  | box
  deriving DecidableEq

namespace House

/-- The house of this kind in which the cell `i` is. -/
def of : House → ℕ → ℕ
  | .row, i => i / 9
  | .col, i => i % 9
  | .box, i => i / 9 / 3 * 3 + i % 9 / 3

def name : House → ℕ → ℕ → ℕ
  | .row => getRowCol
  | .col => getColCol
  | .box => getBoxCol

end House

namespace Sudoku

/-- `rows[u][v]`, `cols[u][v]` and `boxes[u][v]`, after the loop over the cells. -/
def marks (h : House) (board : ℕ → ℕ) (u v : ℕ) : Bool :=
  (List.range kCells).any fun i => h.of i = u ∧ board i = v

/-- The names of the columns, in the order in which they are appended. -/
def cellColumns (board : ℕ → ℕ) : List ℕ := (List.range kCells).filter fun i => board i = 0

def houseColumns (board : ℕ → ℕ) : List ℕ :=
  (List.range 9).flatMap fun u => (List.range' 1 9).flatMap fun v =>
    [House.row, House.col, House.box].flatMap fun h =>
      if marks h board u v then [] else [h.name u v]

def columnNames (board : ℕ → ℕ) : List ℕ := cellColumns board ++ houseColumns board

/-- The values that an empty cell may have, in the order in which their rows are made. -/
def candidates (board : ℕ → ℕ) : List (ℕ × ℕ) :=
  (cellColumns board).flatMap fun i =>
    ((List.range' 1 9).filter fun v =>
      !(marks .row board (House.row.of i) v || marks .col board (House.col.of i) v ||
        marks .box board (House.box.of i) v)).map fun v => (i, v)

/-- The columns that the row of a candidate meets. -/
def rowNames (e : ℕ × ℕ) : List ℕ :=
  [e.1, getRowCol (House.row.of e.1) e.2, getColCol (House.col.of e.1) e.2,
    getBoxCol (House.box.of e.1) e.2]

def write (board : ℕ → ℕ) (e : ℕ × ℕ) : ℕ → ℕ := Function.update board e.1 e.2

/-- A full board that agrees with the given one and repeats no value in a house. -/
structure Solution (board g : ℕ → ℕ) : Prop where
  range : ∀ i < kCells, 1 ≤ g i ∧ g i ≤ 9
  given : ∀ i < kCells, board i ≠ 0 → g i = board i
  houses : ∀ (h : House) i j, i < kCells → j < kCells → i ≠ j → h.of i = h.of j → g i ≠ g j

variable {board g : ℕ → ℕ} {h h' : House} {e e' : ℕ × ℕ} {T : List (ℕ × ℕ)} {i n u u' v v' : ℕ}

theorem marks_eq_true : marks h board u v = true ↔ ∃ i < kCells, h.of i = u ∧ board i = v := by
  simp [marks]

theorem marks_eq_false :
    marks h board u v = false ↔ ∀ i < kCells, h.of i = u → board i ≠ v := by
  simp [marks]

theorem of_lt (h : House) (hi : i < kCells) : h.of i < 9 := by
  unfold kCells at hi
  cases h <;> simp only [House.of] <;> omega

theorem name_eq (h : House) (u v : ℕ) :
    h.name u v = (match h with | .row => 100 | .col => 200 | .box => 300) + u * 10 + v := by
  cases h <;> rfl

theorem name_injective (hu : u < 9) (hu' : u' < 9) (hv : 1 ≤ v ∧ v ≤ 9) (hv' : 1 ≤ v' ∧ v' ≤ 9)
    (heq : h.name u v = h'.name u' v') : h = h' ∧ u = u' ∧ v = v' := by
  rw [name_eq, name_eq] at heq
  cases h <;> cases h' <;> simp only [reduceCtorEq, false_and, true_and] at heq ⊢ <;> omega

theorem le_name (h : House) (u v : ℕ) : 100 ≤ h.name u v := by
  rw [name_eq]
  cases h <;> simp only <;> omega

theorem mem_cellColumns : i ∈ cellColumns board ↔ i < kCells ∧ board i = 0 := by
  simp [cellColumns]

theorem mem_houseColumns :
    n ∈ houseColumns board ↔
      ∃ h u v, u < 9 ∧ (1 ≤ v ∧ v ≤ 9) ∧ marks h board u v = false ∧ n = h.name u v := by
  have hrange : ∀ v, v ∈ List.range' 1 9 ↔ 1 ≤ v ∧ v ≤ 9 := by
    intro v
    rw [List.mem_range'_1]
    omega
  have hone : ∀ h u v, n ∈ (if marks h board u v then [] else [h.name u v]) ↔
      marks h board u v = false ∧ n = h.name u v := by
    intro h u v
    cases marks h board u v <;> simp
  simp only [houseColumns, List.mem_flatMap, List.mem_range, hrange, hone]
  constructor
  · rintro ⟨u, hu, v, hv, h, -, hm⟩
    exact ⟨h, u, v, hu, hv, hm⟩
  · rintro ⟨h, u, v, hu, hv, hm⟩
    exact ⟨u, hu, v, hv, h, by cases h <;> simp, hm⟩

theorem mem_columnNames :
    n ∈ columnNames board ↔ (n < kCells ∧ board n = 0) ∨
      ∃ h u v, u < 9 ∧ (1 ≤ v ∧ v ≤ 9) ∧ marks h board u v = false ∧ n = h.name u v := by
  rw [columnNames, List.mem_append, mem_cellColumns, mem_houseColumns]

theorem mem_candidates :
    e ∈ candidates board ↔ (e.1 < kCells ∧ board e.1 = 0) ∧ (1 ≤ e.2 ∧ e.2 ≤ 9) ∧
      ∀ h : House, marks h board (h.of e.1) e.2 = false := by
  obtain ⟨i, v⟩ := e
  have hall : (∀ h : House, marks h board (h.of i) v = false) ↔
      marks .row board (House.row.of i) v = false ∧ marks .col board (House.col.of i) v = false ∧
        marks .box board (House.box.of i) v = false := by
    refine ⟨fun h => ⟨h _, h _, h _⟩, fun hrcb h => ?_⟩
    cases h
    · exact hrcb.1
    · exact hrcb.2.1
    · exact hrcb.2.2
  simp only [candidates, List.mem_flatMap, mem_cellColumns, List.mem_map, List.mem_filter,
    List.mem_range'_1, Prod.mk.injEq, hall, Bool.not_eq_true', Bool.or_eq_false_iff]
  constructor
  · rintro ⟨i', hi, v', ⟨hv, hmarks⟩, rfl, rfl⟩
    exact ⟨hi, by omega, by tauto⟩
  · rintro ⟨hi, hv, hmarks⟩
    exact ⟨i, hi, v, ⟨by omega, by tauto⟩, rfl, rfl⟩

theorem mem_rowNames : n ∈ rowNames e ↔ n = e.1 ∨ ∃ h : House, n = h.name (h.of e.1) e.2 := by
  simp only [rowNames, List.mem_cons, List.not_mem_nil, or_false]
  constructor
  · rintro (heq | heq | heq | heq)
    · exact Or.inl heq
    · exact Or.inr ⟨.row, heq⟩
    · exact Or.inr ⟨.col, heq⟩
    · exact Or.inr ⟨.box, heq⟩
  · rintro (heq | ⟨h, heq⟩)
    · exact Or.inl heq
    · cases h
      · exact Or.inr (Or.inl heq)
      · exact Or.inr (Or.inr (Or.inl heq))
      · exact Or.inr (Or.inr (Or.inr heq))

/-- The nine cells of a house. -/
def members (h : House) (u : ℕ) : Finset ℕ := (Finset.range kCells).filter fun i => h.of i = u

theorem mem_members : i ∈ members h u ↔ i < kCells ∧ h.of i = u := by
  rw [members, Finset.mem_filter, Finset.mem_range]

theorem card_members (h : House) (hu : u < 9) : (members h u).card = 9 := by
  have hall : ∀ u < 9, ((Finset.range 81).filter fun i => h.of i = u).card = 9 := by
    cases h <;> decide
  exact hall u hu

/-- Nine values from one to nine are different just when none is missing. -/
theorem injOn_members_iff (hrange : ∀ i < kCells, 1 ≤ g i ∧ g i ≤ 9) (hu : u < 9) :
    Set.InjOn g (members h u) ↔ ∀ v, 1 ≤ v ∧ v ≤ 9 → ∃ i ∈ members h u, g i = v := by
  have hsub : (members h u).image g ⊆ Finset.Icc 1 9 := by
    intro v hv
    obtain ⟨i, hi, rfl⟩ := Finset.mem_image.1 hv
    exact Finset.mem_Icc.2 (hrange i (mem_members.1 hi).1)
  have hcard : (Finset.Icc 1 9).card = 9 := Nat.card_Icc 1 9
  constructor
  · intro hinj v hv
    have himage := Finset.card_image_of_injOn hinj
    have hle : (Finset.Icc 1 9).card ≤ ((members h u).image g).card := by
      rw [himage, card_members h hu, hcard]
    have heq := Finset.eq_of_subset_of_card_le hsub hle
    exact Finset.mem_image.1 (heq ▸ Finset.mem_Icc.2 hv)
  · intro hall
    apply Finset.injOn_of_card_image_eq
    apply le_antisymm Finset.card_image_le
    rw [card_members h hu, ← hcard]
    apply Finset.card_le_card
    intro v hv
    exact Finset.mem_image.2 (hall v (Finset.mem_Icc.1 hv))

theorem foldl_write_of_ne (hne : ∀ e ∈ T, e.1 ≠ i) : T.foldl write board i = board i := by
  induction T using List.reverseRecOn with
  | nil => rfl
  | append_singleton T e ih =>
    rw [List.foldl_append, List.foldl_cons, List.foldl_nil, write, Function.update_of_ne]
    · exact ih fun e' he' => hne e' (List.mem_append_left _ he')
    · exact (hne e (List.mem_append_right _ (List.mem_singleton_self e))).symm

theorem foldl_write_of_mem (he : e ∈ T) (hval : ∀ e' ∈ T, e'.1 = e.1 → e'.2 = e.2) :
    T.foldl write board e.1 = e.2 := by
  induction T using List.reverseRecOn with
  | nil => exact absurd he List.not_mem_nil
  | append_singleton T e' ih =>
    rw [List.foldl_append, List.foldl_cons, List.foldl_nil, write]
    have hlast : e' ∈ T ++ [e'] := List.mem_append_right _ (List.mem_singleton_self e')
    by_cases heq : e.1 = e'.1
    · rw [heq, Function.update_self]
      exact hval e' hlast heq.symm
    · rw [Function.update_of_ne heq]
      apply ih
      · rcases List.mem_append.1 he with hin | hin
        · exact hin
        · exact absurd (congrArg Prod.fst (List.mem_singleton.1 hin)) heq
      · exact fun e'' he'' => hval e'' (List.mem_append_left _ he'')

/-- The candidates of a cover are a solution: a value that a house lacks is in one of them, so
that no value can be there twice, not even among the given ones. -/
theorem solution_of_cover (hboard : ∀ i < kCells, board i ≤ 9) (hT : ∀ e ∈ T, e ∈ candidates board)
    (hcover : ∀ n ∈ columnNames board, ∃ e ∈ T, n ∈ rowNames e)
    (hunique : ∀ e ∈ T, ∀ e' ∈ T, ∀ n, n ∈ rowNames e → n ∈ rowNames e' → e = e') :
    Solution board (T.foldl write board) := by
  have hsame : ∀ e ∈ T, T.foldl write board e.1 = e.2 := by
    intro e he
    apply foldl_write_of_mem he
    intro e' he' heq
    have hn : e'.1 ∈ rowNames e := mem_rowNames.2 (Or.inl heq)
    rw [hunique e' he' e he e'.1 (mem_rowNames.2 (Or.inl rfl)) hn]
  have hgiven : ∀ i < kCells, board i ≠ 0 → T.foldl write board i = board i := by
    intro i _ hne
    apply foldl_write_of_ne
    rintro e he rfl
    exact hne (mem_candidates.1 (hT e he)).1.2
  have hrange : ∀ i < kCells, 1 ≤ T.foldl write board i ∧ T.foldl write board i ≤ 9 := by
    intro i hi
    by_cases hempty : board i = 0
    · obtain ⟨e, he, hn⟩ := hcover i (mem_columnNames.2 (Or.inl ⟨hi, hempty⟩))
      rcases mem_rowNames.1 hn with rfl | ⟨h, heq⟩
      · rw [hsame e he]
        exact (mem_candidates.1 (hT e he)).2.1
      · have hle := le_name h (h.of e.1) e.2
        unfold kCells at hi
        omega
    · rw [hgiven i hi hempty]
      exact ⟨Nat.pos_of_ne_zero hempty, hboard i hi⟩
  refine ⟨hrange, hgiven, fun h i j hi hj hne hof heq => ?_⟩
  have hinj : Set.InjOn (T.foldl write board) (members h (h.of i)) := by
    rw [injOn_members_iff hrange (of_lt h hi)]
    intro v hv
    cases hmark : marks h board (h.of i) v with
    | true =>
      obtain ⟨k, hk, hof, hval⟩ := marks_eq_true.1 hmark
      refine ⟨k, mem_members.2 ⟨hk, hof⟩, ?_⟩
      rw [hgiven k hk (by omega), hval]
    | false =>
      obtain ⟨e, he, hn⟩ := hcover _
        (mem_columnNames.2 (Or.inr ⟨h, _, v, of_lt h hi, hv, hmark, rfl⟩))
      obtain ⟨⟨hcell, -⟩, hrangee, -⟩ := mem_candidates.1 (hT e he)
      rcases mem_rowNames.1 hn with heq | ⟨h', heq⟩
      · have hle := le_name h (h.of i) v
        unfold kCells at hcell
        omega
      · obtain ⟨rfl, hof, rfl⟩ := name_injective (of_lt h hi) (of_lt h' hcell) hv hrangee heq
        exact ⟨e.1, mem_members.2 ⟨hcell, hof.symm⟩, hsame e he⟩
  exact hne (hinj (mem_members.2 ⟨hi, rfl⟩) (mem_members.2 ⟨hj, hof.symm⟩) heq)

/-- The values of a solution in the empty cells are candidates, no two of them share a name, and
none is left. -/
theorem cover_of_solution (hg : Solution board g) :
    (∀ i ∈ cellColumns board, (i, g i) ∈ candidates board) ∧
      (∀ n ∈ columnNames board, ∃ i ∈ cellColumns board, n ∈ rowNames (i, g i)) ∧
      ∀ i ∈ cellColumns board, ∀ j ∈ cellColumns board, ∀ n, n ∈ rowNames (i, g i) →
        n ∈ rowNames (j, g j) → i = j := by
  refine ⟨fun i hi => ?_, fun n hn => ?_, fun i hi j hj n hni hnj => ?_⟩
  · have hcell := mem_cellColumns.1 hi
    refine mem_candidates.2 ⟨hcell, hg.range i hcell.1, fun h => ?_⟩
    rw [marks_eq_false]
    intro k hk hof hval
    have hrange := hg.range i hcell.1
    have hne : k ≠ i := by
      rintro rfl
      omega
    apply hg.houses h k i hk hcell.1 hne hof
    rw [hg.given k hk (by omega), hval]
  · rcases mem_columnNames.1 hn with hcell | ⟨h, u, v, hu, hv, hmark, rfl⟩
    · exact ⟨n, mem_cellColumns.2 hcell, mem_rowNames.2 (Or.inl rfl)⟩
    · have hinj : Set.InjOn g (members h u) := by
        intro i hi j hj heq
        obtain ⟨hi, hofi⟩ := mem_members.1 hi
        obtain ⟨hj, hofj⟩ := mem_members.1 hj
        by_contra hne
        exact hg.houses h i j hi hj hne (hofi.trans hofj.symm) heq
      obtain ⟨i, hmem, rfl⟩ := (injOn_members_iff hg.range hu).1 hinj v hv
      obtain ⟨hi, rfl⟩ := mem_members.1 hmem
      have hempty : board i = 0 := by
        by_contra hne
        exact marks_eq_false.1 hmark i hi rfl (hg.given i hi hne).symm
      exact ⟨i, mem_cellColumns.2 ⟨hi, hempty⟩, mem_rowNames.2 (Or.inr ⟨h, rfl⟩)⟩
  · have hi := (mem_cellColumns.1 hi).1
    have hj := (mem_cellColumns.1 hj).1
    have hlt : ∀ (h : House) (u v k : ℕ), k < kCells → k ≠ h.name u v := by
      intro h u v k hk heq
      have hle := le_name h u v
      unfold kCells at hk
      omega
    rcases mem_rowNames.1 hni with heqi | ⟨h, rfl⟩
    · rcases mem_rowNames.1 hnj with heq | ⟨h, heq⟩
      · exact heqi.symm.trans heq
      · exact absurd (heqi.symm.trans heq) (hlt h _ _ i hi)
    · rcases mem_rowNames.1 hnj with heq | ⟨h', heq⟩
      · exact absurd heq.symm (hlt h _ _ j hj)
      · obtain ⟨rfl, hof, hval⟩ := name_injective (of_lt h hi) (of_lt h' hj) (hg.range i hi)
          (hg.range j hj) heq
        by_contra hne
        exact hg.houses h i j hi hj hne hof hval

theorem nodup_flatMap_of_inj {α β : Type} {l : List α} {f : α → List β} (hl : l.Nodup)
    (hf : ∀ x ∈ l, (f x).Nodup) (hinj : ∀ x ∈ l, ∀ y ∈ l, ∀ a, a ∈ f x → a ∈ f y → x = y) :
    (l.flatMap f).Nodup := by
  rw [List.nodup_flatMap]
  refine ⟨hf, hl.imp_of_mem fun hx hy hne a hax hay => hne (hinj _ hx _ hy a hax hay)⟩

theorem nodup_columnNames (board : ℕ → ℕ) : (columnNames board).Nodup := by
  have hrange : ∀ v ∈ List.range' 1 9, 1 ≤ v ∧ v ≤ 9 := by
    intro v hv
    rw [List.mem_range'_1] at hv
    omega
  have hone : ∀ h u v n, n ∈ (if marks h board u v then [] else [h.name u v]) →
      n = h.name u v := by
    intro h u v n
    cases marks h board u v <;> simp
  have hcell : ∀ u v n, n ∈ ([House.row, .col, .box].flatMap fun h =>
      if marks h board u v then [] else [h.name u v]) → ∃ h, n = House.name h u v := by
    intro u v n hn
    obtain ⟨h, -, hn⟩ := List.mem_flatMap.1 hn
    exact ⟨h, hone h u v n hn⟩
  rw [columnNames, List.nodup_append]
  refine ⟨List.nodup_range.filter _, ?_, ?_⟩
  · apply nodup_flatMap_of_inj List.nodup_range
    · intro u hu
      have hu := List.mem_range.1 hu
      apply nodup_flatMap_of_inj (List.nodup_range' ..)
      · intro v hv
        apply nodup_flatMap_of_inj (by decide)
        · intro h _
          cases marks h board u v <;> simp
        · intro h _ h' _ n hn hn'
          have heq := (hone h u v n hn).symm.trans (hone h' u v n hn')
          exact (name_injective hu hu (hrange v hv) (hrange v hv) heq).1
      · intro v hv v' hv' n hn hn'
        obtain ⟨h, rfl⟩ := hcell u v n hn
        obtain ⟨h', heq⟩ := hcell u v' _ hn'
        exact (name_injective hu hu (hrange v hv) (hrange v' hv') heq).2.2
    · intro u hu u' hu' n hn hn'
      obtain ⟨v, hv, hn⟩ := List.mem_flatMap.1 hn
      obtain ⟨v', hv', hn'⟩ := List.mem_flatMap.1 hn'
      obtain ⟨h, rfl⟩ := hcell u v n hn
      obtain ⟨h', heq⟩ := hcell u' v' _ hn'
      exact (name_injective (List.mem_range.1 hu) (List.mem_range.1 hu') (hrange v hv)
        (hrange v' hv') heq).2.1
  · intro i hi n hn heq
    obtain ⟨h, u, v, -, -, -, rfl⟩ := mem_houseColumns.1 hn
    have hle := le_name h u v
    have hlt := (mem_cellColumns.1 hi).1
    unfold kCells at hlt
    omega

theorem length_flatMap_le {α β : Type} {l : List α} {f : α → List β} {k : ℕ}
    (hf : ∀ x ∈ l, (f x).length ≤ k) : (l.flatMap f).length ≤ l.length * k := by
  induction l with
  | nil => simp
  | cons x l ih =>
    have hx := hf x List.mem_cons_self
    have hl := ih fun y hy => hf y (List.mem_cons_of_mem x hy)
    rw [List.flatMap_cons, List.length_append, List.length_cons, Nat.add_one_mul]
    omega

theorem length_cellColumns_le (board : ℕ → ℕ) : (cellColumns board).length ≤ 81 :=
  (List.length_filter_le ..).trans_eq List.length_range

theorem length_columnNames_le (board : ℕ → ℕ) : (columnNames board).length ≤ 81 * 4 := by
  have hcells := length_cellColumns_le board
  have hhouses : (houseColumns board).length ≤ (List.range 9).length * 27 := by
    apply length_flatMap_le
    intro u _
    have hvalues : ((List.range' 1 9).flatMap fun v => [House.row, .col, .box].flatMap fun h =>
        if marks h board u v then [] else [h.name u v]).length ≤ (List.range' 1 9).length * 3 := by
      apply length_flatMap_le
      intro v _
      have hone : ([House.row, .col, .box].flatMap fun h =>
          if marks h board u v then [] else [h.name u v]).length ≤ 3 * 1 := by
        apply length_flatMap_le
        intro h _
        cases marks h board u v <;> simp
      exact hone
    rw [List.length_range'] at hvalues
    exact hvalues
  rw [List.length_range] at hhouses
  rw [columnNames, List.length_append]
  omega

theorem length_candidates_le (board : ℕ → ℕ) : (candidates board).length ≤ 9 * 9 * 9 := by
  have hle : (candidates board).length ≤ (cellColumns board).length * 9 := by
    apply length_flatMap_le
    intro i _
    rw [List.length_map]
    exact (List.length_filter_le ..).trans_eq (List.length_range' ..)
  have hcells := length_cellColumns_le board
  omega

end Sudoku

end MuduoServer
