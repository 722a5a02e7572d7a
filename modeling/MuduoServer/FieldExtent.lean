import Mathlib.Data.List.Basic
import Mathlib.Tactic.Common

/-!
How many elements the fields of a record take at the front of a text. A field has
a fixed width, or is preceded by its length; a text that ends too early has no
extent. A field is determined by its own elements, so what stands behind it does
not matter. A reader takes an extent when it takes just as many elements and
fails where there is none.
-/
namespace MuduoServer.FieldExtent

universe u v

variable {β : Type*}

/-- The field lies within the text, and is the same in every text that it starts. -/
def Local (size : List β → Option ℕ) : Prop :=
  ∀ l n, size l = some n → n ≤ l.length ∧ ∀ l', l.take n <+: l' → size l' = some n

/-- The number of elements that a field takes, if it is there as a whole. -/
structure Extent (β : Type*) where
  size : List β → Option ℕ
  isLocal : Local size

def fixedSize (n : ℕ) (l : List β) : Option ℕ := if n ≤ l.length then some n else none

def sizedSize (k : ℕ) (width : List β → ℕ) (l : List β) : Option ℕ :=
  if k ≤ l.length ∧ k + width (l.take k) ≤ l.length then some (k + width (l.take k)) else none

def seqSize (e f : List β → Option ℕ) (l : List β) : Option ℕ :=
  match e l with
  | none => none
  | some n => (f (l.drop n)).map (n + ·)

theorem seqSize_eq_some {e f : List β → Option ℕ} {l : List β} {n : ℕ} :
    seqSize e f l = some n ↔ ∃ i j, e l = some i ∧ f (l.drop i) = some j ∧ i + j = n := by
  unfold seqSize
  cases e l with
  | none => simp
  | some i => simp

theorem local_fixedSize (n : ℕ) : Local (fixedSize (β := β) n) := by
  intro l m h
  unfold fixedSize at h
  split at h
  · rename_i hle
    obtain rfl := Option.some.inj h
    refine ⟨hle, ?_⟩
    intro l' hstart
    have hlen := hstart.length_le
    rw [List.length_take, Nat.min_eq_left hle] at hlen
    rw [fixedSize, if_pos hlen]
  · exact absurd h (by simp)

theorem local_sizedSize (k : ℕ) (width : List β → ℕ) : Local (sizedSize k width) := by
  intro l m h
  unfold sizedSize at h
  split at h
  · rename_i hle
    obtain rfl := Option.some.inj h
    refine ⟨hle.2, ?_⟩
    intro l' hstart
    have hlen := hstart.length_le
    rw [List.length_take, Nat.min_eq_left hle.2] at hlen
    -- the length field is the same one in the other text
    have htake : l'.take k = l.take k := by
      obtain ⟨rest, rfl⟩ := hstart
      rw [List.take_append_of_le_length (by rw [List.length_take]; omega), List.take_take,
        Nat.min_eq_left (Nat.le_add_right _ _)]
    rw [sizedSize, htake, if_pos ⟨by omega, hlen⟩]
  · exact absurd h (by simp)

theorem Local.seqSize {e f : List β → Option ℕ} (he : Local e) (hf : Local f) :
    Local (seqSize e f) := by
  intro l n h
  obtain ⟨i, j, hi, hj, rfl⟩ := seqSize_eq_some.mp h
  obtain ⟨hile, hilocal⟩ := he l i hi
  obtain ⟨hjle, hjlocal⟩ := hf _ j hj
  rw [List.length_drop] at hjle
  refine ⟨by omega, ?_⟩
  intro l' hstart
  have hsplit : l.take (i + j) = l.take i ++ (l.drop i).take j := List.take_add
  rw [hsplit] at hstart
  obtain ⟨rest, rfl⟩ := hstart
  have hfirst := hilocal (l.take i ++ (l.drop i).take j ++ rest) (by
    rw [List.append_assoc]
    exact List.prefix_append _ _)
  have hsecond := hjlocal ((l.take i ++ (l.drop i).take j ++ rest).drop i) (by
    rw [List.append_assoc, List.drop_left' (by rw [List.length_take, Nat.min_eq_left hile])]
    exact List.prefix_append _ _)
  exact seqSize_eq_some.mpr ⟨i, j, hfirst, hsecond, rfl⟩

namespace Extent

def fixed (n : ℕ) : Extent β := ⟨fixedSize n, local_fixedSize n⟩

/-- A length field of `k` elements and as many elements as it says. -/
def sized (k : ℕ) (width : List β → ℕ) : Extent β := ⟨sizedSize k width, local_sizedSize k width⟩

/-- Two fields, one behind the other. -/
def seq (e f : Extent β) : Extent β := ⟨seqSize e.size f.size, e.isLocal.seqSize f.isLocal⟩

/-- Fields of a text with more behind it lie in the text just when they are fields of it. -/
theorem append_iff (e : Extent β) (l more : List β) (n : ℕ) :
    e.size (l ++ more) = some n ∧ n ≤ l.length ↔ e.size l = some n := by
  constructor
  · rintro ⟨h, hle⟩
    refine (e.isLocal _ _ h).2 l ?_
    rw [List.take_append_of_le_length hle]
    exact List.take_prefix n l
  · intro h
    obtain ⟨hle, hlocal⟩ := e.isLocal l n h
    exact ⟨hlocal _ ((List.take_prefix n l).trans (List.prefix_append l more)), hle⟩

end Extent

open Extent

section Readers

variable {σ α γ : Type u} {ε : Type v} {left : σ → List β} {index : σ → ℕ} {e f : Extent β}

/-- `p` takes the elements of `e` where they are there, and fails where they are not. -/
def Takes (left : σ → List β) (index : σ → ℕ) (p : StateT σ (Except ε) α) (e : Extent β) : Prop :=
  ∀ s, match e.size (left s) with
    | some n => ∃ x s', p s = .ok (x, s') ∧ left s' = (left s).drop n ∧ index s' = index s + n
    | none => ∃ fault, p s = .error fault

/-- The result of a reader in the state `s` when `m` elements are there for it, if they are. -/
def Taken (left : σ → List β) (index : σ → ℕ) (s : σ) (m : Option ℕ)
    (r : Except ε (α × σ)) : Prop :=
  match m with
  | some n => ∃ x s', r = .ok (x, s') ∧ left s' = (left s).drop n ∧ index s' = index s + n
  | none => ∃ fault, r = .error fault

/-- What the second reader takes may depend on what the first one has read. -/
theorem Taken.bind {p : StateT σ (Except ε) α} {q : α → StateT σ (Except ε) γ} {s : σ}
    {m : Option ℕ} {next : ℕ → Option ℕ} (hp : Taken left index s m (p s))
    (hq : ∀ n x s', p s = .ok (x, s') → left s' = (left s).drop n →
      Taken left index s' (next n) (q x s')) :
    Taken left index s (m.bind fun n => (next n).map (n + ·)) ((p >>= q) s) := by
  have hbind : (p >>= q) s = p s >>= fun r => q r.1 r.2 := rfl
  cases m with
  | none =>
    obtain ⟨fault, hfault⟩ := hp
    exact ⟨fault, by rw [hbind, hfault]; rfl⟩
  | some n =>
    obtain ⟨x, s₁, hrun, hleft, hindex⟩ := hp
    have hrest : (p >>= q) s = q x s₁ := by
      rw [hbind, hrun]
      rfl
    have hs₁ := hq n x s₁ hrun hleft
    rw [hrest, Option.bind_some]
    cases hj : next n with
    | none =>
      rw [hj] at hs₁
      exact hs₁
    | some j =>
      rw [hj] at hs₁
      obtain ⟨y, s₂, hrun₂, hleft₂, hindex₂⟩ := hs₁
      refine ⟨y, s₂, hrun₂, ?_, ?_⟩
      · rw [hleft₂, hleft, List.drop_drop]
      · rw [hindex₂, hindex, Nat.add_assoc]

theorem Takes.bind {p : StateT σ (Except ε) α} {q : α → StateT σ (Except ε) γ}
    (hp : Takes left index p e) (hq : ∀ x, Takes left index (q x) f) :
    Takes left index (p >>= q) (seq e f) := by
  intro s
  have hsize : (seq e f).size (left s) =
      (e.size (left s)).bind fun n => (f.size ((left s).drop n)).map (n + ·) := by
    simp only [seq, seqSize]
    cases e.size (left s) <;> rfl
  rw [hsize]
  refine Taken.bind (hp s) fun n x s' _ hleft => ?_
  rw [← hleft]
  exact hq x s'

/-- A field whose width has been read just before it. -/
theorem Takes.bind_sized {p : StateT σ (Except ε) α} {q : α → StateT σ (Except ε) γ} {k : ℕ}
    {width : List β → ℕ} (hp : Takes left index p (fixed k))
    (hq : ∀ s x s', p s = .ok (x, s') →
      Takes left index (q x) (fixed (width ((left s).take k)))) :
    Takes left index (p >>= q) (sized k width) := by
  intro s
  have hsize : (sized k width).size (left s) = (fixedSize k (left s)).bind fun n =>
      (fixedSize (width ((left s).take k)) ((left s).drop n)).map (n + ·) := by
    simp only [sized, sizedSize, fixedSize]
    by_cases hk : k ≤ (left s).length
    · rw [if_pos hk, Option.bind_some, List.length_drop]
      by_cases hfits : k + width ((left s).take k) ≤ (left s).length
      · rw [if_pos ⟨hk, hfits⟩, if_pos (by omega), Option.map_some]
      · rw [if_neg fun h => hfits h.2, if_neg (by omega), Option.map_none]
    · rw [if_neg fun h => hk h.1, if_neg hk, Option.bind_none]
  rw [hsize]
  refine Taken.bind (hp s) fun n x s' hrun hleft => ?_
  rw [← hleft]
  exact hq s x s' hrun s'

/-- The value is put together from what has been read. -/
theorem Takes.bind_pure {p : StateT σ (Except ε) α} (g : α → γ) (hp : Takes left index p e) :
    Takes left index (p >>= fun x => pure (g x)) e := by
  intro s
  have hsize : e.size (left s) = (e.size (left s)).bind fun n => (some 0).map (n + ·) := by
    cases e.size (left s) <;> rfl
  rw [hsize]
  exact Taken.bind (hp s) fun n x s' _ _ => ⟨g x, s', rfl, rfl, rfl⟩

/-- A reader stays within the front of what is there just when its elements are in the front. -/
theorem Takes.within_iff {p : StateT σ (Except ε) α} (hp : Takes left index p e) {s : σ}
    {l more : List β} (hs : left s = l ++ more) :
    (∃ x s', p s = .ok (x, s') ∧ index s' ≤ index s + l.length) ↔ ∃ n, e.size l = some n := by
  have hresult := hp s
  rw [hs] at hresult
  constructor
  · rintro ⟨x, s', hrun, hle⟩
    cases hsize : e.size (l ++ more) with
    | none =>
      rw [hsize] at hresult
      obtain ⟨fault, hfault⟩ := hresult
      exact absurd (hfault.symm.trans hrun) (by simp)
    | some n =>
      rw [hsize] at hresult
      obtain ⟨y, s₁, hrun₁, -, hindex⟩ := hresult
      obtain ⟨-, rfl⟩ := Prod.mk.inj (Except.ok.inj (hrun.symm.trans hrun₁))
      exact ⟨n, (e.append_iff l more n).mp ⟨hsize, by omega⟩⟩
  · rintro ⟨n, hn⟩
    obtain ⟨hsize, hle⟩ := (e.append_iff l more n).mpr hn
    rw [hsize] at hresult
    obtain ⟨x, s', hrun, -, hindex⟩ := hresult
    exact ⟨x, s', hrun, by omega⟩

end Readers

end MuduoServer.FieldExtent
