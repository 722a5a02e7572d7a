import Mathlib.Data.List.Basic
import Mathlib.Tactic.Common

/-!
Transducers that put out one letter for each letter they read. The state after a
word and its output do not depend on how the word is cut into pieces, so a
procedure that is called piece by piece is a transducer as soon as each call is.
-/
namespace MuduoServer.Transducer

variable {σ α β : Type*}

/-- The state after a word, and the output. -/
def run (step : σ → α → σ × β) : σ → List α → σ × List β
  | s, [] => (s, [])
  | s, a :: as =>
      let r := step s a
      let m := run step r.1 as
      (m.1, r.2 :: m.2)

/-- Calls with the pieces of a word, one after the other. -/
def calls (f : σ → List α → σ × List β) : σ → List (List α) → σ × List β
  | s, [] => (s, [])
  | s, piece :: pieces =>
      let r := f s piece
      let m := calls f r.1 pieces
      (m.1, r.2 ++ m.2)

variable {step : σ → α → σ × β} {s : σ}

theorem run_append (as bs : List α) :
    run step s (as ++ bs) = ((run step (run step s as).1 bs).1,
      (run step s as).2 ++ (run step (run step s as).1 bs).2) := by
  induction as generalizing s with
  | nil => rfl
  | cons a as ih => simp only [List.cons_append, run, ih]

/-- Calls that run the transducer, from the states of an invariant that they keep. -/
theorem calls_eq_run {f : σ → List α → σ × List β} {I : σ → Prop}
    (hf : ∀ s as, I s → f s as = run step s as ∧ I (f s as).1) (hs : I s)
    (pieces : List (List α)) : calls f s pieces = run step s pieces.flatten := by
  induction pieces generalizing s with
  | nil => rfl
  | cons piece pieces ih =>
    obtain ⟨hcall, hkept⟩ := hf s piece hs
    rw [List.flatten_cons, run_append, ← hcall, ← ih hkept]
    rfl

end MuduoServer.Transducer
