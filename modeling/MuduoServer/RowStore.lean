import Mathlib.Logic.Function.Basic
import Mathlib.Data.Option.Basic
import Mathlib.Tactic.Common

/-!
Rows under exclusive locks that are held until the transaction ends. A transaction reads
the committed rows through its own changes, and a change shows to the others at the commit.
The rows that a transaction has locked stay as they are for it (`Spares`), whatever the
others lock, write, commit or give up.
-/
namespace MuduoServer

structure RowStore (T K V : Type) where
  committed : K → Option V
  owner : K → Option T
  written : T → K → Option V

namespace RowStore
variable {T K V : Type} {s s' s'' : RowStore T K V} {t u : T} {k : K} {v : V} {ks : List K}

def empty : RowStore T K V where
  committed _ := none
  owner _ := none
  written _ _ := none

/-- What the transaction `t` reads. -/
def view (s : RowStore T K V) (t : T) (k : K) : Option V := (s.written t k).or (s.committed k)

/-- No other transaction holds the lock of `k`. -/
def Free (s : RowStore T K V) (t : T) (k : K) : Prop := s.owner k = none ∨ s.owner k = some t

instance [DecidableEq T] (s : RowStore T K V) (t : T) (k : K) : Decidable (s.Free t k) :=
  inferInstanceAs (Decidable (s.owner k = none ∨ s.owner k = some t))

/-- A transaction changes only rows that it has locked. -/
def Locked (s : RowStore T K V) : Prop := ∀ t k v, s.written t k = some v → s.owner k = some t

theorem locked_empty : (empty : RowStore T K V).Locked := by
  intro t k v h
  cases h

/-- A row that is not locked by `t` is read as it is committed. -/
theorem Locked.view_eq (h : s.Locked) (hk : s.owner k ≠ some t) : s.view t k = s.committed k := by
  have hnone : s.written t k = none := by
    cases hw : s.written t k with
    | none => rfl
    | some v => exact absurd (h t k v hw) hk
  rw [view, hnone, Option.none_or]

/-- The rows that `t` has locked, and what it has made of them, are the same. -/
structure Spares (t : T) (s s' : RowStore T K V) : Prop where
  written : s'.written t = s.written t
  owner : ∀ k, s'.owner k = some t ↔ s.owner k = some t
  committed : ∀ k, s.owner k = some t → s'.committed k = s.committed k

theorem Spares.refl (t : T) (s : RowStore T K V) : Spares t s s where
  written := rfl
  owner _ := Iff.rfl
  committed _ _ := rfl

theorem Spares.trans (h : Spares t s s') (h' : Spares t s' s'') : Spares t s s'' where
  written := h'.written.trans h.written
  owner k := (h'.owner k).trans (h.owner k)
  committed k hk := (h'.committed k ((h.owner k).mpr hk)).trans (h.committed k hk)

theorem Spares.view_eq (h : Spares t s s') (hk : s.owner k = some t) :
    s'.view t k = s.view t k := by
  rw [view, view, h.written, h.committed k hk]

section Lock
variable [DecidableEq K]

def lock (s : RowStore T K V) (t : T) (ks : List K) : RowStore T K V :=
  { s with owner := fun k => if k ∈ ks then some t else s.owner k }

theorem lock_owner : (s.lock t ks).owner k = if k ∈ ks then some t else s.owner k := rfl

theorem Locked.lock (h : s.Locked) (hfree : ∀ k ∈ ks, s.Free t k) : (s.lock t ks).Locked := by
  intro u k v hwritten
  have hu := h u k v hwritten
  rw [lock_owner]
  split
  · rename_i hk
    rcases hfree k hk with hnone | hown
    · rw [hnone] at hu
      cases hu
    · rwa [hown] at hu
  · exact hu

theorem spares_lock (hu : u ≠ t) (hfree : ∀ k ∈ ks, s.Free u k) : Spares t s (s.lock u ks) where
  written := rfl
  owner k := by
    rw [lock_owner]
    split
    · rename_i hk
      rcases hfree k hk with hnone | hown
      · simp [hnone, hu]
      · simp [hown, hu]
    · exact Iff.rfl
  committed _ _ := rfl

end Lock

section Release
variable [DecidableEq T]

/-- The end of the transaction `t`: its locks are free and its changes forgotten. -/
def release (s : RowStore T K V) (t : T) : RowStore T K V :=
  { s with
    owner := fun k => if s.owner k = some t then none else s.owner k
    written := Function.update s.written t fun _ => none }

def commit (s : RowStore T K V) (t : T) : RowStore T K V :=
  { s.release t with committed := s.view t }

@[simp] theorem commit_committed : (s.commit t).committed = s.view t := rfl

theorem release_owner : (s.release t).owner k = if s.owner k = some t then none else s.owner k :=
  rfl

@[simp] theorem release_written : (s.release t).written t k = none := by simp [release]

@[simp] theorem commit_written : (s.commit t).written t k = none := by simp [commit]

theorem release_written_of_ne (hu : u ≠ t) : (s.release t).written u = s.written u := by
  simp [release, hu]

theorem commit_view_self : (s.commit t).view t k = s.view t k := by
  rw [view, commit_written, Option.none_or, commit_committed]

theorem commit_view_of_ne (hu : u ≠ t) :
    (s.commit t).view u k = (s.written u k).or (s.view t k) := by
  rw [view, commit_committed]
  exact congrArg (fun w => Option.or (w k) _) (release_written_of_ne hu)

theorem Locked.release (h : s.Locked) : (s.release t).Locked := by
  intro u j w hwritten
  by_cases hu : u = t
  · subst hu
    rw [release_written] at hwritten
    cases hwritten
  · rw [release_written_of_ne hu] at hwritten
    have howner := h u j w hwritten
    have hne : s.owner j ≠ some t := by
      rw [howner]
      exact fun heq => hu (Option.some.inj heq)
    rw [release_owner, if_neg hne]
    exact howner

theorem Locked.commit (h : s.Locked) : (s.commit t).Locked :=
  h.release (t := t)

theorem spares_release (hu : u ≠ t) : Spares t s (s.release u) where
  written := release_written_of_ne hu.symm
  owner j := by
    rw [release_owner]
    split
    · rename_i hj
      simp [hj, hu]
    · exact Iff.rfl
  committed _ _ := rfl

theorem spares_commit (h : s.Locked) (hu : u ≠ t) : Spares t s (s.commit u) where
  written := release_written_of_ne hu.symm
  owner := (spares_release hu).owner
  committed k hk := by
    rw [commit_committed]
    refine h.view_eq ?_
    rw [hk]
    exact fun heq => hu (Option.some.inj heq).symm

end Release

section Write
variable [DecidableEq T] [DecidableEq K] {rows : List (K × V)}

/-- Change a row, which locks it. -/
def write (s : RowStore T K V) (t : T) (k : K) (v : V) : RowStore T K V :=
  { s with
    owner := Function.update s.owner k (some t)
    written := Function.update s.written t (Function.update (s.written t) k (some v)) }

def writeAll (s : RowStore T K V) (t : T) (rows : List (K × V)) : RowStore T K V :=
  rows.foldl (fun s r => s.write t r.1 r.2) s

theorem write_view (j : K) : (s.write t k v).view t j = if j = k then some v else s.view t j := by
  by_cases hj : j = k
  · subst hj
    simp [view, write]
  · simp [view, write, hj]

theorem write_owner (j : K) :
    (s.write t k v).owner j = if j = k then some t else s.owner j := by
  simp [write, Function.update_apply]

theorem write_written (j : K) :
    (s.write t k v).written t j = if j = k then some v else s.written t j := by
  simp [write, Function.update_apply]

theorem write_written_of_ne (hu : u ≠ t) : (s.write t k v).written u = s.written u := by
  simp [write, hu]

theorem free_write (h : s.Free t k) (j : K) (w : V) : (s.write t j w).Free t k := by
  rw [Free, write_owner]
  split
  · exact Or.inr rfl
  · exact h

theorem Locked.write (h : s.Locked) (hfree : s.Free t k) : (s.write t k v).Locked := by
  intro u j w hwritten
  rw [write_owner]
  by_cases hu : u = t
  · subst hu
    rw [write_written] at hwritten
    split at hwritten
    · rename_i hj
      rw [if_pos hj]
    · rename_i hj
      rw [if_neg hj]
      exact h u j w hwritten
  · rw [write_written_of_ne hu] at hwritten
    have howner := h u j w hwritten
    split
    · rename_i hj
      subst hj
      rcases hfree with hnone | hown
      · rw [hnone] at howner
        cases howner
      · rw [hown] at howner
        exact absurd (Option.some.inj howner).symm hu
    · exact howner

theorem spares_write (hu : u ≠ t) (hfree : s.Free u k) : Spares t s (s.write u k v) where
  written := write_written_of_ne hu.symm
  owner j := by
    rw [write_owner]
    split
    · rename_i hj
      subst hj
      rcases hfree with hnone | hown
      · simp [hnone, hu]
      · simp [hown, hu]
    · exact Iff.rfl
  committed _ _ := rfl

theorem Locked.writeAll (h : s.Locked) (hfree : ∀ r ∈ rows, s.Free t r.1) :
    (s.writeAll t rows).Locked := by
  induction rows generalizing s with
  | nil => exact h
  | cons r rows ih =>
    refine ih (h.write (hfree r (List.mem_cons_self ..))) fun r' hr' => ?_
    exact free_write (hfree r' (List.mem_cons_of_mem _ hr')) r.1 r.2

theorem spares_writeAll (hu : u ≠ t) (hfree : ∀ r ∈ rows, s.Free u r.1) :
    Spares t s (s.writeAll u rows) := by
  induction rows generalizing s with
  | nil => exact Spares.refl t s
  | cons r rows ih =>
    refine (spares_write hu (hfree r (List.mem_cons_self ..))).trans (ih fun r' hr' => ?_)
    exact free_write (hfree r' (List.mem_cons_of_mem _ hr')) r.1 r.2

@[simp] theorem writeAll_committed : (s.writeAll t rows).committed = s.committed := by
  induction rows generalizing s with
  | nil => rfl
  | cons r rows ih => exact ih

/-- What is read after the changes is a row written or what was read before. -/
theorem writeAll_view (k : K) :
    (∃ v, (k, v) ∈ rows ∧ (s.writeAll t rows).view t k = some v) ∨
      (k ∉ rows.map Prod.fst ∧ (s.writeAll t rows).view t k = s.view t k) := by
  induction rows generalizing s with
  | nil => exact Or.inr ⟨List.not_mem_nil, rfl⟩
  | cons r rows ih =>
    rcases ih (s := s.write t r.1 r.2) with ⟨v, hv, hview⟩ | ⟨hk, hview⟩
    · exact Or.inl ⟨v, List.mem_cons_of_mem _ hv, hview⟩
    · rw [write_view] at hview
      by_cases hkr : k = r.1
      · rw [if_pos hkr] at hview
        exact Or.inl ⟨r.2, hkr ▸ List.mem_cons_self .., hview⟩
      · rw [if_neg hkr] at hview
        refine Or.inr ⟨?_, hview⟩
        simpa [hkr] using hk

theorem writeAll_written_of_not_mem (hk : k ∉ rows.map Prod.fst) :
    (s.writeAll t rows).written t k = s.written t k := by
  induction rows generalizing s with
  | nil => rfl
  | cons r rows ih =>
    rw [List.map_cons, List.mem_cons, not_or] at hk
    have hfold : s.writeAll t (r :: rows) = (s.write t r.1 r.2).writeAll t rows := rfl
    rw [hfold, ih hk.2, write_written, if_neg hk.1]

theorem writeAll_owner (k : K) :
    (s.writeAll t rows).owner k = if k ∈ rows.map Prod.fst then some t else s.owner k := by
  induction rows generalizing s with
  | nil => rfl
  | cons r rows ih =>
    have hfold : s.writeAll t (r :: rows) = (s.write t r.1 r.2).writeAll t rows := rfl
    rw [hfold, ih, write_owner]
    by_cases hkr : k = r.1
    · simp [hkr]
    · have hmem : k ∈ (r :: rows).map Prod.fst ↔ k ∈ rows.map Prod.fst := by
        rw [List.map_cons, List.mem_cons, or_iff_right hkr]
      rw [if_neg hkr, if_congr hmem rfl rfl]

end Write

end RowStore

end MuduoServer
