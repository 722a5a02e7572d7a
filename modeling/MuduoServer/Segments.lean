import MuduoServer.Block
import Mathlib.Tactic.Common

/-!
The pieces of a text between separators, empty ones left out. They are the maximal
segments of the text without a separator, in their order; a piece in front of a separator
and the text behind it are independent of each other.
-/
namespace MuduoServer.Segments

open Block

variable {α : Type*} {sep : α} {text front back : List α} {i j pos start : ℕ}

section Pieces

variable [DecidableEq α]

theorem idxOf?_split (h : sep ∉ front) :
    (front ++ sep :: back).idxOf? sep = some front.length := by
  induction front with
  | nil => simp [List.idxOf?_cons]
  | cons c front ih =>
    obtain ⟨hc, hrest⟩ := not_or.mp (List.mem_cons.not.mp h)
    rw [List.cons_append, List.idxOf?_cons, ih hrest]
    simp [Ne.symm hc]

theorem exists_split_of_idxOf? (h : text.idxOf? sep = some i) :
    ∃ front back, text = front ++ sep :: back ∧ front.length = i ∧ sep ∉ front := by
  induction text generalizing i with
  | nil => simp at h
  | cons c text ih =>
    rw [List.idxOf?_cons] at h
    split at h
    · rename_i hc
      obtain rfl := Option.some_inj.mp h
      exact ⟨[], text, by rw [eq_of_beq hc]; rfl, rfl, List.not_mem_nil⟩
    · rename_i hc
      obtain ⟨k, hk, rfl⟩ := Option.map_eq_some_iff.mp h
      obtain ⟨front, back, rfl, rfl, hfree⟩ := ih hk
      refine ⟨c :: front, back, rfl, rfl, fun hmem => ?_⟩
      rcases List.mem_cons.mp hmem with rfl | hmem
      · exact hc (beq_self_eq_true sep)
      · exact hfree hmem

/-- The first place from `start` on where `sep` stands. -/
def find (sep : α) (text : List α) (start : ℕ) : Option ℕ :=
  ((text.drop start).idxOf? sep).map (start + ·)

/-- What is found ends a piece, and the text goes on behind it. -/
theorem exists_piece_of_find (h : find sep text start = some pos) :
    ∃ piece, text.drop start = piece ++ sep :: text.drop (pos + 1) ∧ sep ∉ piece ∧
      pos = start + piece.length ∧ slice text start pos = piece := by
  obtain ⟨k, hk, rfl⟩ := Option.map_eq_some_iff.mp h
  obtain ⟨piece, rest, heq, rfl, hfree⟩ := exists_split_of_idxOf? hk
  have hrest : text.drop (start + piece.length + 1) = rest := by
    rw [Nat.add_assoc, ← List.drop_drop, heq]
    simp
  refine ⟨piece, by rw [hrest, heq], hfree, rfl, ?_⟩
  rw [slice, List.drop_take, heq, List.take_left' (by omega)]

theorem find_eq_none (h : find sep text start = none) : sep ∉ text.drop start := by
  simpa [find] using h

theorem find_bounds (h : find sep text start = some pos) : start ≤ pos ∧ pos < text.length := by
  obtain ⟨piece, heq, -, rfl, -⟩ := exists_piece_of_find h
  have hlen := congrArg List.length heq
  rw [List.length_drop, List.length_append, List.length_cons] at hlen
  omega

/-- The pieces between separators that are not empty. -/
def pieces (sep : α) (text : List α) : List (List α) :=
  (text.splitOn sep).filter fun piece => !piece.isEmpty

theorem pieces_of_notMem (h : sep ∉ text) : pieces sep text = [text].filter (!·.isEmpty) := by
  rw [pieces, List.splitOn_eq_singleton h]

/-- A separator keeps what stands before it from what stands behind. -/
theorem pieces_split (front back : List α) :
    pieces sep (front ++ sep :: back) = pieces sep front ++ pieces sep back := by
  rw [pieces, List.splitOn_append_cons_self, List.filter_append]
  rfl

theorem pieces_sep (back : List α) : pieces sep (sep :: back) = pieces sep back :=
  pieces_split [] back

/-- A piece ends where the text does, and where a separator follows. -/
theorem pieces_front (hne : front ≠ []) (h : sep ∉ front)
    (hback : back = [] ∨ back.head? = some sep) :
    pieces sep (front ++ back) = front :: pieces sep back := by
  have hfront : pieces sep front = [front] := by rw [pieces_of_notMem h]; simp [hne]
  rcases hback with rfl | hback
  · rw [List.append_nil, hfront]
    rfl
  · obtain ⟨rest, rfl⟩ := List.head?_eq_some_iff.mp hback
    rw [pieces_split, hfront, pieces_sep]
    rfl

/-- Pieces behind a separator each are found as they are. -/
theorem pieces_flatMap {segments : List (List α)} (hne : ∀ piece ∈ segments, piece ≠ [])
    (hfree : ∀ piece ∈ segments, sep ∉ piece) :
    pieces sep (segments.flatMap (sep :: ·)) = segments := by
  induction segments with
  | nil => rfl
  | cons piece segments ih =>
    rw [List.forall_mem_cons] at hne hfree
    rw [List.flatMap_cons, List.cons_append, pieces_sep, pieces_front hne.1 hfree.1,
      ih hne.2 hfree.2]
    cases segments with
    | nil => exact Or.inl rfl
    | cons => exact Or.inr rfl

/-- What stands before each separator, as the lines of a text. -/
def ended (sep : α) (text : List α) : List (List α) := (text.splitOn sep).dropLast

theorem ended_flatMap {lines : List (List α)} (hfree : ∀ line ∈ lines, sep ∉ line) :
    ended sep (lines.flatMap (· ++ [sep])) = lines := by
  induction lines with
  | nil => rfl
  | cons line lines ih =>
    rw [List.forall_mem_cons] at hfree
    rw [ended] at ih ⊢
    rw [List.flatMap_cons, List.append_assoc, List.singleton_append,
      List.splitOn_append_cons_self_of_not_mem hfree.1,
      List.dropLast_cons_of_ne_nil (by simp), ih hfree.2]

end Pieces

section Spans

/-- A segment from the place `i` to the place `j` without a separator, which goes on to the
left and to the right as far as it can. -/
structure Maximal (sep : α) (text : List α) (i j : ℕ) : Prop where
  lt : i < j
  le : j ≤ text.length
  free : ∀ k, i ≤ k → k < j → text[k]? ≠ some sep
  left : ∀ k, k + 1 = i → text[k]? = some sep
  right : j < text.length → text[j]? = some sep

/-- The maximal segments of the text that begin at the place `start` or behind it, in order. -/
structure Spans (sep : α) (text : List α) (start : ℕ) (spans : List (ℕ × ℕ)) : Prop where
  sorted : spans.Pairwise fun a b => a.2 < b.1
  mem_iff : ∀ i j, (i, j) ∈ spans ↔ Maximal sep text i j ∧ start ≤ i

theorem Spans.of_free (h : ∀ k, start ≤ k → text[k]? ≠ some sep)
    (hstart : start < text.length) (hleft : ∀ k, k + 1 = start → text[k]? = some sep) :
    Spans sep text start [(start, text.length)] := by
  refine ⟨List.pairwise_singleton .., fun i j => ?_⟩
  rw [List.mem_singleton, Prod.mk.injEq]
  constructor
  · rintro ⟨rfl, rfl⟩
    exact ⟨⟨hstart, Nat.le_refl _, fun k hk _ => h k hk, hleft,
      fun hlt => absurd hlt (Nat.lt_irrefl _)⟩, Nat.le_refl _⟩
  · rintro ⟨hmax, hle⟩
    have hi : i = start := by
      by_contra hne
      exact h (i - 1) (by omega) (hmax.left (i - 1) (by omega))
    have hj : j = text.length := by
      by_contra hne
      have hlt := hmax.lt
      have hjlen := hmax.le
      exact h j (by omega) (hmax.right (by omega))
    exact ⟨hi, hj⟩

/-- At the end of the text nothing begins. -/
theorem Spans.of_end (hstart : text.length ≤ start) : Spans sep text start [] := by
  refine ⟨List.Pairwise.nil, fun i j => iff_of_false List.not_mem_nil ?_⟩
  rintro ⟨hmax, hle⟩
  have hlt := hmax.lt
  have hjlen := hmax.le
  omega

/-- No segment begins at a separator. -/
theorem Spans.skip {spans : List (ℕ × ℕ)} (h : Spans sep text (pos + 1) spans)
    (hsep : text[pos]? = some sep) : Spans sep text pos spans := by
  refine ⟨h.sorted, fun i j => (h.mem_iff i j).trans ⟨fun hmax => ⟨hmax.1, by omega⟩, ?_⟩⟩
  rintro ⟨hmax, hle⟩
  refine ⟨hmax, Nat.lt_of_le_of_ne hle ?_⟩
  rintro rfl
  exact hmax.free pos (Nat.le_refl _) hmax.lt hsep

theorem Spans.cons {spans : List (ℕ × ℕ)} (h : Spans sep text (pos + 1) spans)
    (hsep : text[pos]? = some sep) (hlt : start < pos)
    (hfree : ∀ k, start ≤ k → k < pos → text[k]? ≠ some sep)
    (hleft : ∀ k, k + 1 = start → text[k]? = some sep) :
    Spans sep text start ((start, pos) :: spans) := by
  have hpos : pos < text.length := (List.getElem?_eq_some_iff.mp hsep).1
  refine ⟨List.pairwise_cons.mpr ⟨?_, h.sorted⟩, fun i j => ?_⟩
  · rintro ⟨i, j⟩ hmem
    exact ((h.mem_iff i j).mp hmem).2
  rw [List.mem_cons, Prod.mk.injEq, h.mem_iff]
  constructor
  · rintro (⟨rfl, rfl⟩ | ⟨hmax, hle⟩)
    · exact ⟨⟨hlt, Nat.le_of_lt hpos, hfree, hleft, fun _ => hsep⟩, Nat.le_refl _⟩
    · exact ⟨hmax, by omega⟩
  · rintro ⟨hmax, hle⟩
    by_cases hbehind : pos + 1 ≤ i
    · exact Or.inr ⟨hmax, hbehind⟩
    have hilt := hmax.lt
    have hi : i ≤ pos := by omega
    have hstart : i = start := by
      by_contra hne
      exact hfree (i - 1) (by omega) (by omega) (hmax.left (i - 1) (by omega))
    refine Or.inl ⟨hstart, ?_⟩
    rcases Nat.lt_trichotomy j pos with hj | hj | hj
    · exact absurd (hmax.right (by omega)) (hfree j (by omega) hj)
    · exact hj
    · exact absurd hsep (hmax.free pos hi hj)

end Spans

variable [DecidableEq α]

/-- The pieces of a text are its maximal segments. -/
theorem exists_spans_from (text : List α) (start : ℕ)
    (hleft : ∀ k, k + 1 = start → text[k]? = some sep) :
    ∃ spans, Spans sep text start spans ∧
      pieces sep (text.drop start) = spans.map fun s => slice text s.1 s.2 := by
  induction hn : text.length - start using Nat.strongRecOn generalizing start with
  | _ n ih =>
    by_cases hend : text.length ≤ start
    · rw [List.drop_eq_nil_of_le hend]
      exact ⟨[], Spans.of_end hend, rfl⟩
    cases hfind : find sep text start with
    | none =>
      have hfree := find_eq_none hfind
      refine ⟨[(start, text.length)], Spans.of_free ?_ (by omega) hleft, ?_⟩
      · intro k hk hsep
        refine hfree (List.mem_of_getElem? (i := k - start) ?_)
        rwa [List.getElem?_drop, Nat.add_sub_cancel' hk]
      · rw [pieces_of_notMem hfree, List.map_singleton, slice, List.take_length]
        simp [Nat.lt_of_not_le hend]
    | some pos =>
      have hbounds := find_bounds hfind
      obtain ⟨piece, heq, hfree, hpos, hpiece⟩ := exists_piece_of_find hfind
      have hsep : text[pos]? = some sep := by
        rw [hpos, ← List.getElem?_drop, heq]
        simp
      have hsegment : ∀ k, start ≤ k → k < pos → text[k]? ≠ some sep := by
        intro k hk hlt hmem
        rw [← Nat.add_sub_cancel' hk, ← List.getElem?_drop, heq,
          List.getElem?_append_left (by omega)] at hmem
        exact hfree (List.mem_of_getElem? hmem)
      obtain ⟨spans, hspans, hpieces⟩ :=
        ih _ (by omega) (pos + 1) (fun k hk => by rwa [Nat.succ.inj hk]) rfl
      rw [heq, pieces_split, hpieces, pieces_of_notMem hfree]
      by_cases hempty : pos = start
      · have hnil : piece = [] := List.length_eq_zero_iff.mp (by omega)
        exact ⟨spans, hempty ▸ hspans.skip hsep, by simp [hnil]⟩
      · have hne : piece ≠ [] := fun hnil => hempty (by simpa [hnil] using hpos)
        exact ⟨(start, pos) :: spans, hspans.cons hsep (by omega) hsegment hleft,
          by simp [hne, hpiece]⟩

theorem exists_spans (text : List α) :
    ∃ spans, Spans sep text 0 spans ∧ pieces sep text = spans.map fun s => slice text s.1 s.2 :=
  exists_spans_from text 0 fun _ hk => absurd hk (Nat.succ_ne_zero _)

end MuduoServer.Segments
