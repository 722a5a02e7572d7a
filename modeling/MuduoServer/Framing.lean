import Mathlib.Data.List.Basic
import Mathlib.Tactic.Common

/-!
Streams of frames. A format says what stands in front of a stream: a whole frame, the beginning
of one, or something that is not a frame. Taking the frames from the front gives the same ones
however the stream comes in, and an encoder that the format reads back is undone.
-/
namespace MuduoServer.Framing

variable {α β : Type*}

/-- What stands in front of a stream; `n` is the length of a frame. -/
inductive Front (α : Type*)
  | more
  | bad
  | frame (a : α) (n : ℕ)
  deriving DecidableEq

/-- What comes later does not change what is in front. -/
structure Format (β α : Type*) where
  front : List β → Front α
  length_pos : ∀ q a n, front q = .frame a n → 0 < n
  length_le : ∀ q a n, front q = .frame a n → n ≤ q.length
  frame_append : ∀ q d a n, front q = .frame a n → front (q ++ d) = .frame a n
  bad_append : ∀ q d, front q = .bad → front (q ++ d) = .bad

namespace Format

variable {F : Format β α} {q d : List β} {a : α} {n m k : ℕ}

/-- At most `fuel` frames from the front, and what is left. -/
def take (F : Format β α) : ℕ → List β → List α × List β
  | 0, q => ([], q)
  | fuel + 1, q =>
      match F.front q with
      | .frame a n =>
          let r := F.take fuel (q.drop n)
          (a :: r.1, r.2)
      | .more | .bad => ([], q)

/-- All frames from the front, and what is left. -/
def frames (F : Format β α) (q : List β) : List α × List β := F.take q.length q

/-- No frame is in front. -/
def Stuck (F : Format β α) (q : List β) : Prop := ∀ a n, F.front q ≠ .frame a n

theorem exists_frame (h : ¬ F.Stuck q) : ∃ a n, F.front q = .frame a n := by
  unfold Stuck at h
  push Not at h
  exact h

theorem take_stuck (h : F.Stuck q) (fuel : ℕ) : F.take fuel q = ([], q) := by
  cases fuel with
  | zero => rfl
  | succ fuel =>
    cases hfront : F.front q with
    | frame a n => exact absurd hfront (h a n)
    | more => rw [take, hfront]
    | bad => rw [take, hfront]

theorem take_frame (h : F.front q = .frame a n) (fuel : ℕ) :
    F.take (fuel + 1) q = (a :: (F.take fuel (q.drop n)).1, (F.take fuel (q.drop n)).2) := by
  rw [take, h]

theorem stuck_nil : F.Stuck [] := by
  intro a n h
  have hpos := F.length_pos _ _ _ h
  have hle := F.length_le _ _ _ h
  rw [List.length_nil] at hle
  omega

/-- As many steps as there are letters are enough. -/
theorem take_eq_frames {fuel : ℕ} (hfuel : q.length ≤ fuel) : F.take fuel q = F.frames q := by
  unfold frames
  induction hlen : q.length using Nat.strongRecOn generalizing q fuel with
  | _ k ih =>
    by_cases hstuck : F.Stuck q
    · rw [take_stuck hstuck, take_stuck hstuck]
    · obtain ⟨a, n, hfront⟩ := exists_frame hstuck
      have hpos := F.length_pos _ _ _ hfront
      have hle := F.length_le _ _ _ hfront
      have hdrop : (q.drop n).length = q.length - n := List.length_drop
      obtain ⟨fuel, rfl⟩ : ∃ f, fuel = f + 1 := ⟨fuel - 1, by omega⟩
      obtain ⟨k, rfl⟩ : ∃ j, k = j + 1 := ⟨k - 1, by omega⟩
      rw [take_frame hfront, take_frame hfront]
      have hfuel' : (q.drop n).length ≤ fuel := by omega
      have hk : (q.drop n).length ≤ k := by omega
      have hrest : F.take fuel (q.drop n) = F.take k (q.drop n) := by
        rw [ih _ (by omega) hfuel' rfl, ih _ (by omega) hk rfl]
      rw [hrest]

theorem frames_stuck (h : F.Stuck q) : F.frames q = ([], q) := take_stuck h _

theorem frames_frame (h : F.front q = .frame a n) :
    F.frames q = (a :: (F.frames (q.drop n)).1, (F.frames (q.drop n)).2) := by
  have hdrop : (q.drop n).length ≤ q.length := by
    rw [List.length_drop]
    omega
  rw [← take_eq_frames hdrop, ← take_frame h]
  exact (take_eq_frames (Nat.le_succ _)).symm

theorem stuck_frames (q : List β) : F.Stuck (F.frames q).2 := by
  induction hlen : q.length using Nat.strongRecOn generalizing q with
  | _ k ih =>
    by_cases hstuck : F.Stuck q
    · rw [frames_stuck hstuck]
      exact hstuck
    · obtain ⟨a, n, hfront⟩ := exists_frame hstuck
      have hpos := F.length_pos _ _ _ hfront
      have hle := F.length_le _ _ _ hfront
      rw [frames_frame hfront]
      exact ih _ (by rw [List.length_drop]; omega) _ rfl

/-- The frames of a longer stream are those of the shorter one, and then those of what is left
with the rest behind it. -/
theorem frames_append (q d : List β) :
    F.frames (q ++ d) = ((F.frames q).1 ++ (F.frames ((F.frames q).2 ++ d)).1,
      (F.frames ((F.frames q).2 ++ d)).2) := by
  induction hlen : q.length using Nat.strongRecOn generalizing q with
  | _ k ih =>
    by_cases hstuck : F.Stuck q
    · rw [frames_stuck hstuck]
      rfl
    · obtain ⟨a, n, hfront⟩ := exists_frame hstuck
      have hpos := F.length_pos _ _ _ hfront
      have hle := F.length_le _ _ _ hfront
      rw [frames_frame (F.frame_append q d a n hfront), frames_frame hfront,
        List.drop_append_of_le_length hle, ih _ (by rw [List.length_drop]; omega) _ rfl]
      rfl

/-- What is not a frame stays in front. -/
theorem front_frames_append (h : F.front (F.frames q).2 = .bad) (d : List β) :
    F.front (F.frames (q ++ d)).2 = .bad := by
  have hbad := F.bad_append _ d h
  have hstuck : F.Stuck ((F.frames q).2 ++ d) := by
    intro a n hfront
    rw [hbad] at hfront
    cases hfront
  rw [frames_append, frames_stuck hstuck]
  exact hbad

/-- What is true of every frame in front of a stream is true of all that are taken. -/
theorem forall_frames {P : α → Prop} (hP : ∀ q a n, F.front q = .frame a n → P a) (q : List β) :
    ∀ a ∈ (F.frames q).1, P a := by
  induction hlen : q.length using Nat.strongRecOn generalizing q with
  | _ k ih =>
    by_cases hstuck : F.Stuck q
    · rw [frames_stuck hstuck]
      intro a ha
      cases ha
    · obtain ⟨a, n, hfront⟩ := exists_frame hstuck
      have hpos := F.length_pos _ _ _ hfront
      have hle := F.length_le _ _ _ hfront
      rw [frames_frame hfront]
      intro x hx
      rcases List.mem_cons.1 hx with rfl | hx
      · exact hP _ _ _ hfront
      · exact ih _ (by rw [List.length_drop]; omega) _ rfl x hx

/-- Frames behind one another are read back. -/
theorem frames_flatMap {enc : α → List β} {as : List α}
    (henc : ∀ a ∈ as, ∀ q, F.front (enc a ++ q) = .frame a (enc a).length) (q : List β) :
    F.frames (as.flatMap enc ++ q) = (as ++ (F.frames q).1, (F.frames q).2) := by
  induction as with
  | nil => rfl
  | cons a as ih =>
    rw [List.flatMap_cons, List.append_assoc, frames_frame (henc a List.mem_cons_self _),
      List.drop_left, ih fun b hb => henc b (List.mem_cons_of_mem a hb)]
    rfl

end Format

end MuduoServer.Framing
