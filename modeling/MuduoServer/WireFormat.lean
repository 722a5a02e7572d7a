import Mathlib.Data.List.Basic
import Mathlib.Tactic.Common

/-!
Readers and writers of formats that are put together field by field. A reader
is a state monad with faults; it reads `x` from `q` when, whatever stands behind
`q`, it returns `x` and leaves just that behind. A writer adds a text at the end.
Both compose, so a format is read back when its fields are, one after the other.
-/
namespace MuduoServer.WireFormat

universe u v

/-- Fields of a fixed width. -/
abbrev Sized (β : Type*) (n : ℕ) := {l : List β // l.length = n}

section Readers

variable {σ α γ : Type u} {β : Type*} {ε : Type v} {left : σ → List β}

/-- `p` reads `x` from the elements `q` at the front of what is left, and leaves the rest. -/
def Reads (left : σ → List β) (p : StateT σ (Except ε) α) (q : List β) (x : α) : Prop :=
  ∀ s rest, left s = q ++ rest → ∃ s', p s = .ok (x, s') ∧ left s' = rest

theorem Reads.pure (x : α) : Reads left (Pure.pure x : StateT σ (Except ε) α) [] x :=
  fun s _ h => ⟨s, rfl, h⟩

theorem Reads.bind {p : StateT σ (Except ε) α} {f : α → StateT σ (Except ε) γ} {q q' : List β}
    {x : α} {y : γ} (hp : Reads left p q x) (hf : Reads left (f x) q' y) :
    Reads left (p >>= f) (q ++ q') y := by
  intro s rest h
  rw [List.append_assoc] at h
  obtain ⟨s₁, hs₁, h₁⟩ := hp s _ h
  obtain ⟨s₂, hs₂, h₂⟩ := hf s₁ rest h₁
  refine ⟨s₂, ?_, h₂⟩
  have hbind : (p >>= f) s = p s >>= fun r => f r.1 r.2 := rfl
  rw [hbind, hs₁]
  exact hs₂

/-- The last field of a format, whose value is put together with the earlier ones. -/
theorem Reads.bind_pure {p : StateT σ (Except ε) α} {q : List β} {x : α} {g : α → γ} {y : γ}
    (hp : Reads left p q x) (hy : g x = y) :
    Reads left (p >>= fun a => Pure.pure (g a)) q y := by
  have h := hp.bind (f := fun a => Pure.pure (g a)) (Reads.pure (g x))
  rwa [List.append_nil, hy] at h

end Readers

section Writers

variable {τ : Type*} {β : Type*} {inv : τ → Prop} {text : τ → List β} {f g : τ → τ} {q q' : List β}

/-- `f` adds the elements `q` at the end of the text, and keeps the invariant. -/
def Writes (inv : τ → Prop) (text : τ → List β) (f : τ → τ) (q : List β) : Prop :=
  ∀ t, inv t → inv (f t) ∧ text (f t) = text t ++ q

theorem Writes.id : Writes inv text (fun t => t) [] :=
  fun t h => ⟨h, (List.append_nil (text t)).symm⟩

theorem Writes.comp (hf : Writes inv text f q) (hg : Writes inv text g q') :
    Writes inv text (fun t => g (f t)) (q ++ q') := by
  intro t ht
  obtain ⟨hinv, htext⟩ := hf t ht
  obtain ⟨hinv', htext'⟩ := hg (f t) hinv
  exact ⟨hinv', by rw [htext', htext, List.append_assoc]⟩

end Writers

end MuduoServer.WireFormat
