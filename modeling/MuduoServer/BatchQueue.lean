import Mathlib.Data.List.Basic
import Mathlib.Tactic.Common

/-!
A queue that is drained in batches. Producers append to `pending`; the consumer
swaps the whole of `pending` out into `batch`, takes the batch element by
element and drops the empty batch at its end. Elements therefore leave in the
order in which they entered, whatever the producers do in between.
-/
namespace MuduoServer

structure BatchQueue (α : Type*) where
  pending : List α
  batch : Option (List α)

variable {α : Type*}

namespace BatchQueue

def empty : BatchQueue α := ⟨[], none⟩

def push (q : BatchQueue α) (a : α) : BatchQueue α := { q with pending := q.pending ++ [a] }

def swap (q : BatchQueue α) : BatchQueue α := ⟨[], some q.pending⟩

/-- The next element of the batch and the queue without it. -/
def pop? (q : BatchQueue α) : Option (α × BatchQueue α) :=
  match q.batch with
  | some (a :: rest) => some (a, { q with batch := some rest })
  | _ => none

def finish (q : BatchQueue α) : BatchQueue α := { q with batch := none }

/-- Everything that has entered and has not left, in the order of leaving. -/
def contents (q : BatchQueue α) : List α := q.batch.getD [] ++ q.pending

/-- The moves of the producers and the consumer, with the element that enters
and the element that leaves. -/
inductive Move : BatchQueue α → List α → List α → BatchQueue α → Prop
  | push (q : BatchQueue α) (a : α) : Move q [a] [] (q.push a)
  | swap (q : BatchQueue α) (h : q.batch = none) : Move q [] [] q.swap
  | pop {q q' : BatchQueue α} {a : α} (h : q.pop? = some (a, q')) : Move q [] [a] q'
  | finish (q : BatchQueue α) (h : q.batch = some []) : Move q [] [] q.finish

@[simp] theorem contents_empty : (empty : BatchQueue α).contents = [] := rfl

@[simp] theorem contents_push (q : BatchQueue α) (a : α) :
    (q.push a).contents = q.contents ++ [a] := by
  simp [contents, push]

theorem contents_swap {q : BatchQueue α} (h : q.batch = none) : q.swap.contents = q.contents := by
  simp [contents, swap, h]

theorem pop?_eq_some {q q' : BatchQueue α} {a : α} (h : q.pop? = some (a, q')) :
    ∃ rest, q.batch = some (a :: rest) ∧ q' = { q with batch := some rest } := by
  unfold pop? at h
  split at h
  · rename_i b rest hb
    obtain ⟨rfl, rfl⟩ : b = a ∧ _ = q' := by simpa using h
    exact ⟨rest, hb, rfl⟩
  · simp at h

theorem contents_pop {q q' : BatchQueue α} {a : α} (h : q.pop? = some (a, q')) :
    q.contents = a :: q'.contents := by
  obtain ⟨rest, hb, rfl⟩ := pop?_eq_some h
  simp [contents, hb]

theorem contents_finish {q : BatchQueue α} (h : q.batch = some []) :
    q.finish.contents = q.contents := by
  simp [contents, finish, h]

/-- First in, first out: what has left followed by what is still inside is what
has entered. -/
theorem Move.fifo {q q' : BatchQueue α} {ins outs entered left : List α}
    (h : Move q ins outs q') (hq : entered = left ++ q.contents) :
    entered ++ ins = (left ++ outs) ++ q'.contents := by
  subst hq
  cases h with
  | push a => simp
  | swap hb => simp [contents_swap hb]
  | pop hp => simp [contents_pop hp]
  | finish hb => simp [contents_finish hb]

end BatchQueue

end MuduoServer
