import Mathlib.Data.List.Induction
import Mathlib.Data.List.Flatten
import Mathlib.Tactic.Common

/-!
A row of bounded length that takes pieces whole or not at all. A piece asks for more room
than it fills, so one place stays free whatever is put in, and the row is the pieces that
were taken one behind the other.
-/
namespace MuduoServer.WholePieces

variable {α : Type*}

/-- What is put in, and the room without which it is refused. -/
structure Piece (α : Type*) where
  text : List α
  need : ℕ
  lt_need : text.length < need

/-- A piece that asks for one place more than it fills. -/
def Piece.whole (text : List α) : Piece α := ⟨text, text.length + 1, Nat.lt_succ_self _⟩

def Fits (size : ℕ) (row : List α) (p : Piece α) : Prop := p.need ≤ size - row.length

instance (size : ℕ) (row : List α) (p : Piece α) : Decidable (Fits size row p) :=
  inferInstanceAs (Decidable (_ ≤ _))

def put (size : ℕ) (row : List α) (p : Piece α) : List α :=
  if Fits size row p then row ++ p.text else row

def putAll (size : ℕ) (row : List α) (ps : List (Piece α)) : List α := ps.foldl (put size) row

/-- The pieces that are taken. -/
def taken (size : ℕ) (row : List α) : List (Piece α) → List (Piece α)
  | [] => []
  | p :: ps => if Fits size row p then p :: taken size (row ++ p.text) ps else taken size row ps

variable {size : ℕ} {row : List α} {p : Piece α} {ps : List (Piece α)}

theorem put_of_fits (h : Fits size row p) : put size row p = row ++ p.text := if_pos h

theorem put_of_not (h : ¬ Fits size row p) : put size row p = row := if_neg h

theorem put_eq (size : ℕ) (row : List α) (p : Piece α) :
    put size row p = row ++ if Fits size row p then p.text else [] := by
  unfold put
  split
  · rfl
  · exact (List.append_nil row).symm

theorem fits_whole {text : List α} : Fits size row (.whole text) ↔ text.length < size - row.length :=
  Nat.succ_le_iff

theorem put_nil (size : ℕ) (row : List α) : put size row (.whole []) = row := by
  unfold put
  split
  · exact List.append_nil row
  · rfl

/-- What is left behind a text. -/
theorem room_put_whole (size : ℕ) (row text : List α) :
    size - (put size row (.whole text)).length =
      if text.length < size - row.length then size - row.length - text.length
      else size - row.length := by
  by_cases hlt : text.length < size - row.length
  · rw [put_of_fits (fits_whole.mpr hlt), if_pos hlt, Nat.sub_sub, List.length_append]
    rfl
  · rw [put_of_not fun hfits => hlt (fits_whole.mp hfits), if_neg hlt]

theorem putAll_eq (size : ℕ) (row : List α) (ps : List (Piece α)) :
    putAll size row ps = row ++ (taken size row ps).flatMap Piece.text := by
  induction ps generalizing row with
  | nil => exact (List.append_nil row).symm
  | cons p ps ih =>
    rw [taken]
    by_cases hfits : Fits size row p
    · rw [if_pos hfits, List.flatMap_cons, ← List.append_assoc, ← ih, putAll, List.foldl_cons,
        put_of_fits hfits]
      rfl
    · rw [if_neg hfits, ← ih, putAll, List.foldl_cons, put_of_not hfits]
      rfl

/-- Texts that fit together are all taken. -/
theorem putAll_whole (size : ℕ) (row : List α) (texts : List (List α))
    (h : row.length + texts.flatten.length < size) :
    putAll size row (texts.map Piece.whole) = row ++ texts.flatten := by
  induction texts generalizing row with
  | nil => exact (List.append_nil row).symm
  | cons text texts ih =>
    rw [List.flatten_cons, List.length_append] at h
    have hfits : Fits size row (.whole text) := fits_whole.mpr (by omega)
    have hrest := ih (row ++ text) (by rw [List.length_append]; omega)
    rw [List.map_cons, putAll, List.foldl_cons, put_of_fits hfits, List.flatten_cons,
      ← List.append_assoc]
    exact hrest

theorem taken_sublist (size : ℕ) (row : List α) (ps : List (Piece α)) :
    (taken size row ps).Sublist ps := by
  induction ps generalizing row with
  | nil => exact List.Sublist.slnil
  | cons p ps ih =>
    rw [taken]
    split
    · exact (ih _).cons_cons p
    · exact (ih _).cons p

end MuduoServer.WholePieces
