import Mathlib.Data.Finset.Card
import Mathlib.Tactic.Common

/-!
Condition variables. A thread inside `while (!p) cond.wait()` is either ready to test
`p`, having entered, been notified or woken up by itself, or it waits. When every
change that makes `p` true once more notifies one thread, as many ready threads as `p`
can serve are there whenever one waits, so that no wakeup is lost.
-/
namespace MuduoServer.Monitor

structure Condition (T : Type*) where
  ready : Finset T
  waiting : Finset T
  disjoint : Disjoint ready waiting

namespace Condition
variable {T : Type*} {c : Condition T} {t u : T} {w : Option T} {m n : ℕ}

def new : Condition T :=
  { ready := ∅
    waiting := ∅
    disjoint := Finset.disjoint_empty_left ∅ }

def Inside (c : Condition T) (t : T) : Prop :=
  t ∈ c.ready ∨ t ∈ c.waiting

/-- `notify()` may wake up `w`: any waiting thread, and none only when none waits. -/
def Notifies (c : Condition T) : Option T → Prop
  | none => c.waiting = ∅
  | some t => t ∈ c.waiting

/-- `n` threads can be served, and at least so many are ready while one waits. -/
def Covers (c : Condition T) (n : ℕ) : Prop :=
  c.waiting.Nonempty → n ≤ c.ready.card

@[simp] theorem not_inside_new : ¬ (new : Condition T).Inside t := by
  simp [Inside, new]

theorem ready_of_inside (h : c.Inside t) (hw : c.waiting = ∅) : t ∈ c.ready := by
  rcases h with h | h
  · exact h
  · simp [hw] at h

theorem exists_notifies (c : Condition T) : ∃ w, c.Notifies w := by
  rcases c.waiting.eq_empty_or_nonempty with h | ⟨t, h⟩
  · exact ⟨none, h⟩
  · exact ⟨some t, h⟩

/-- The threads inside the loop are those whose call meets `P`. -/
def Tracks {C : Type*} (c : Condition T) (call : T → C) (P : C → Prop) : Prop :=
  ∀ t, c.Inside t ↔ P (call t)

theorem covers_zero : c.Covers 0 := fun _ => Nat.zero_le _

theorem covers_new : (new : Condition T).Covers n := by
  intro h
  simp [new] at h

theorem Covers.mono (h : c.Covers n) (hmn : m ≤ n) : c.Covers m :=
  fun hw => hmn.trans (h hw)

/-- No wakeup is lost. -/
theorem Covers.exists_ready (h : c.Covers n) (hw : c.waiting.Nonempty) (hn : 0 < n) :
    ∃ t, t ∈ c.ready :=
  Finset.card_pos.mp (hn.trans_le (h hw))

variable [DecidableEq T]

instance : Decidable (c.Inside t) :=
  inferInstanceAs (Decidable (_ ∨ _))

instance : Decidable (c.Notifies w) :=
  match w with
  | none => inferInstanceAs (Decidable (c.waiting = ∅))
  | some t => inferInstanceAs (Decidable (t ∈ c.waiting))

/-- The thread is to test `p`: it enters the loop, is notified, or wakes up by itself. -/
def resume (c : Condition T) (t : T) : Condition T where
  ready := insert t c.ready
  waiting := c.waiting.erase t
  disjoint := by
    have h := c.disjoint
    rw [Finset.disjoint_left] at h ⊢
    intro x hx hw
    obtain ⟨hne, hw⟩ := Finset.mem_erase.mp hw
    exact h ((Finset.mem_insert.mp hx).resolve_left hne) hw

/-- The test fails and the thread blocks in `wait()`. -/
def wait (c : Condition T) (t : T) : Condition T where
  ready := c.ready.erase t
  waiting := insert t c.waiting
  disjoint := by
    have h := c.disjoint
    rw [Finset.disjoint_left] at h ⊢
    intro x hx hw
    obtain ⟨hne, hx⟩ := Finset.mem_erase.mp hx
    exact h hx ((Finset.mem_insert.mp hw).resolve_left hne)

/-- The test succeeds and the thread goes on behind the loop. -/
def leave (c : Condition T) (t : T) : Condition T where
  ready := c.ready.erase t
  waiting := c.waiting
  disjoint := c.disjoint.mono_left (Finset.erase_subset t c.ready)

/-- `notify()` wakes up `w`. -/
def notify (c : Condition T) : Option T → Condition T
  | none => c
  | some t => c.resume t

def notifyAll (c : Condition T) : Condition T where
  ready := c.ready ∪ c.waiting
  waiting := ∅
  disjoint := Finset.disjoint_empty_right _

@[simp] theorem inside_resume : (c.resume t).Inside u ↔ u = t ∨ c.Inside u := by
  simp only [Inside, resume, Finset.mem_insert, Finset.mem_erase]
  tauto

@[simp] theorem inside_wait : (c.wait t).Inside u ↔ u = t ∨ c.Inside u := by
  simp only [Inside, wait, Finset.mem_insert, Finset.mem_erase]
  tauto

theorem inside_leave (ht : t ∈ c.ready) : (c.leave t).Inside u ↔ u ≠ t ∧ c.Inside u := by
  have hw : t ∉ c.waiting := Finset.disjoint_left.mp c.disjoint ht
  simp only [Inside, leave, Finset.mem_erase]
  constructor
  · rintro (⟨hne, hu⟩ | hu)
    · exact ⟨hne, Or.inl hu⟩
    · exact ⟨fun h => hw (h ▸ hu), Or.inr hu⟩
  · rintro ⟨hne, hu | hu⟩
    · exact Or.inl ⟨hne, hu⟩
    · exact Or.inr hu

theorem inside_notify (hw : c.Notifies w) : (c.notify w).Inside u ↔ c.Inside u := by
  cases w with
  | none => exact Iff.rfl
  | some t =>
    simp only [notify, inside_resume, or_iff_right_iff_imp]
    rintro rfl
    exact Or.inr hw

@[simp] theorem inside_notifyAll : c.notifyAll.Inside u ↔ c.Inside u := by
  simp [Inside, notifyAll]

section Tracks
variable {C : Type*} {call : T → C} {P : C → Prop} {x : C}

theorem Tracks.enter (h : c.Tracks call P) (hx : P x) :
    (c.resume t).Tracks (Function.update call t x) P := by
  intro u
  by_cases hu : u = t
  · subst hu
    simp [hx]
  · simp [hu, h u]

theorem Tracks.leave (h : c.Tracks call P) (ht : t ∈ c.ready) (hx : ¬ P x) :
    (c.leave t).Tracks (Function.update call t x) P := by
  intro u
  rw [inside_leave ht]
  by_cases hu : u = t
  · subst hu
    simp [hx]
  · simp [hu, h u]

/-- A call that is not inside the loop goes on outside it. -/
theorem Tracks.frame (h : c.Tracks call P) (ht : ¬ P (call t)) (hx : ¬ P x) :
    c.Tracks (Function.update call t x) P := by
  intro u
  by_cases hu : u = t
  · subst hu
    simp [hx, h u, ht]
  · simp [hu, h u]

theorem Tracks.wait (h : c.Tracks call P) (ht : P (call t)) : (c.wait t).Tracks call P := by
  intro u
  rw [inside_wait, ← h u, or_iff_right_iff_imp]
  rintro rfl
  exact (h u).mpr ht

theorem Tracks.resume (h : c.Tracks call P) (ht : P (call t)) : (c.resume t).Tracks call P := by
  intro u
  rw [inside_resume, ← h u, or_iff_right_iff_imp]
  rintro rfl
  exact (h u).mpr ht

theorem Tracks.notify (h : c.Tracks call P) (hw : c.Notifies w) :
    (c.notify w).Tracks call P := fun u => (inside_notify hw).trans (h u)

end Tracks

theorem covers_notifyAll : c.notifyAll.Covers n := by
  intro h
  simp [notifyAll] at h

theorem Covers.resume (h : c.Covers n) : (c.resume t).Covers n := by
  intro hw
  have hwaiting : c.waiting.Nonempty := hw.mono (Finset.erase_subset t c.waiting)
  exact (h hwaiting).trans (Finset.card_le_card (Finset.subset_insert t c.ready))

/-- One more can be served and one thread is notified. -/
theorem Covers.notify (h : c.Covers n) (hw : c.Notifies w) : (c.notify w).Covers (n + 1) := by
  cases w with
  | none =>
    intro hwaiting
    rw [show (c.notify none).waiting = ∅ from hw] at hwaiting
    simp at hwaiting
  | some t =>
    intro _
    have ht : t ∉ c.ready := fun hr => Finset.disjoint_left.mp c.disjoint hr hw
    have hcard : (c.notify (some t)).ready.card = c.ready.card + 1 :=
      Finset.card_insert_of_notMem ht
    have hn := h ⟨t, hw⟩
    omega

/-- One is served and leaves. -/
theorem Covers.leave (h : c.Covers (n + 1)) (ht : t ∈ c.ready) : (c.leave t).Covers n := by
  intro hw
  have hn := h hw
  have hcard : (c.leave t).ready.card = c.ready.card - 1 := Finset.card_erase_of_mem ht
  omega

end Condition

end MuduoServer.Monitor
