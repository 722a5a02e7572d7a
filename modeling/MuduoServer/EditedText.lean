import Mathlib.Data.List.InsertIdx
import Mathlib.Tactic.Common

/-!
Texts that are edited one character at a time, at any place. A check admits a
character by the old text and the character alone, so a format need not survive
the edit: it comes with the conditions under which it does, exact for an insertion
that the check admits and for every deletion.
-/
namespace MuduoServer.EditedText

variable {α : Type*}

theorem exists_split {text : List α} {i : ℕ} (h : i ≤ text.length) :
    ∃ front back, text = front ++ back ∧ front.length = i :=
  ⟨text.take i, text.drop i, (List.take_append_drop i text).symm, List.length_take_of_le h⟩

/-- Behind a place in the text there is a character. -/
theorem exists_split_cons {text : List α} {i : ℕ} (h : i < text.length) :
    ∃ front c back, text = front ++ c :: back ∧ front.length = i := by
  refine ⟨text.take i, text.get ⟨i, h⟩, text.drop (i + 1), ?_,
    List.length_take_of_le (Nat.le_of_lt h)⟩
  rw [List.get_eq_getElem, ← List.drop_eq_getElem_cons h, List.take_append_drop]

theorem insertIdx_split (front back : List α) (c : α) :
    (front ++ back).insertIdx front.length c = front ++ c :: back := by
  induction front with
  | nil => rfl
  | cons d front ih => simpa using ih

theorem eraseIdx_split (front back : List α) (c : α) :
    (front ++ c :: back).eraseIdx front.length = front ++ back := by
  induction front with
  | nil => rfl
  | cons d front ih => simpa using ih

/-- A format with the check that admits characters, and the conditions on the old text and on
the place under which an admitted character and a deletion keep the format. -/
structure Format (α : Type*) where
  Text : List α → Prop
  admits : List α → α → Bool
  insertOk : List α → ℕ → α → Prop
  eraseOk : List α → ℕ → Prop
  insert_iff : ∀ {front back : List α} {c : α}, Text (front ++ back) →
    admits (front ++ back) c = true →
    (Text (front ++ c :: back) ↔ insertOk (front ++ back) front.length c)
  erase_iff : ∀ {front back : List α} {c : α}, Text (front ++ c :: back) →
    (Text (front ++ back) ↔ eraseOk (front ++ c :: back) front.length)

namespace Format

variable (F : Format α) {text : List α} {i : ℕ}

theorem text_insertIdx_iff {c : α} (h : F.Text text) (hi : i ≤ text.length)
    (hc : F.admits text c = true) : F.Text (text.insertIdx i c) ↔ F.insertOk text i c := by
  obtain ⟨front, back, rfl, rfl⟩ := exists_split hi
  rw [insertIdx_split]
  exact F.insert_iff h hc

theorem text_eraseIdx_iff (h : F.Text text) (hi : i < text.length) :
    F.Text (text.eraseIdx i) ↔ F.eraseOk text i := by
  obtain ⟨front, c, back, rfl, rfl⟩ := exists_split_cons hi
  rw [eraseIdx_split]
  exact F.erase_iff h

/-- No format at all, under any check. -/
def any (admits : List α → α → Bool) : Format α where
  Text _ := True
  admits := admits
  insertOk _ _ _ := True
  eraseOk _ _ := True
  insert_iff _ _ := Iff.rfl
  erase_iff _ := Iff.rfl

/-- At most `n` characters, all of one class: such texts survive every edit. -/
def bounded (p : α → Bool) (n : ℕ) : Format α where
  Text text := text.length ≤ n ∧ ∀ c ∈ text, p c
  admits text c := text.length < n && p c
  insertOk _ _ _ := True
  eraseOk _ _ := True
  insert_iff := by
    rintro front back c ⟨hlen, hall⟩ hadmits
    simp only [Bool.and_eq_true, decide_eq_true_eq, List.length_append] at hadmits
    simp only [List.mem_append, List.length_append] at hall hlen
    simp only [List.length_append, List.length_cons, List.mem_append, List.mem_cons, iff_true]
    refine ⟨by omega, ?_⟩
    rintro d (hd | rfl | hd)
    · exact hall d (Or.inl hd)
    · exact hadmits.2
    · exact hall d (Or.inr hd)
  erase_iff := by
    rintro front back c ⟨hlen, hall⟩
    simp only [List.length_append, List.length_cons] at hlen
    simp only [List.length_append, iff_true]
    refine ⟨by omega, fun d hd => hall d ?_⟩
    rcases List.mem_append.mp hd with hd | hd
    · exact List.mem_append.mpr (Or.inl hd)
    · exact List.mem_append.mpr (Or.inr (List.mem_cons_of_mem c hd))

end Format

end MuduoServer.EditedText
