import Mathlib.Data.List.Induction
import Mathlib.Logic.Function.Basic
import Mathlib.Tactic.Common

/-!
Labelled machines whose steps may fault. A label carries every choice of the
environment, so a step is a function; the result `error e` is a failed
assertion or a memory fault and ends the run. The rules reduce a property of
all runs to one about a single step. Restricting a machine keeps just the steps
that meet a condition on the state before them.
-/
namespace MuduoServer.FaultMachine

universe u v

/-- `assert(p)`: a false `p` ends the program with the fault `e`. -/
def check {ε : Type*} (p : Prop) [Decidable p] (e : ε) : Except ε Unit :=
  if p then .ok () else .error e

section Except
variable {α β : Type u} {ε ε' : Type v}

@[simp] theorem check_eq_ok {p : Prop} [Decidable p] {e : ε} {u : Unit} :
    check p e = .ok u ↔ p := by
  unfold check
  split <;> simp_all

theorem check_of {p : Prop} [Decidable p] {e : ε} (h : p) : check p e = .ok () :=
  check_eq_ok.mpr h

@[simp] theorem bind_eq_ok {x : Except ε α} {f : α → Except ε β} {b : β} :
    (x >>= f) = .ok b ↔ ∃ a, x = .ok a ∧ f a = .ok b := by
  cases x <;> simp [bind, Except.bind]

@[simp] theorem pure_eq_ok {a b : α} : (pure a : Except ε α) = .ok b ↔ a = b := by
  simp [pure, Except.pure]

@[simp] theorem ok_bind (a : α) (f : α → Except ε β) : (Except.ok a >>= f) = f a := rfl

@[simp] theorem mapError_ok (f : ε → ε') (a : α) :
    (Except.ok a : Except ε α).mapError f = .ok a := rfl

@[simp] theorem map_eq_ok {x : Except ε α} {g : α → β} {b : β} :
    (g <$> x) = .ok b ↔ ∃ a, x = .ok a ∧ g a = b := by
  cases x <;> simp [Functor.map, Except.map]

@[simp] theorem mapError_ok_iff {x : Except ε α} {f : ε → ε'} {a : α} :
    x.mapError f = .ok a ↔ x = .ok a := by
  cases x <;> simp [Except.mapError]

/-- The fault that `x` ends with. -/
def fault? : Except ε α → Option ε
  | .ok _ => none
  | .error e => some e

theorem fault?_eq_some {x : Except ε α} {e : ε} : fault? x = some e ↔ x = .error e := by
  cases x <;> simp [fault?]

/-- `x` ends with a result that meets `P`, or with a fault that `E` allows. -/
def Yields (E : ε → Prop) (P : α → Prop) : Except ε α → Prop
  | .ok a => P a
  | .error e => E e

variable {E E' : ε → Prop} {P P' : α → Prop} {Q : β → Prop} {x : Except ε α}

theorem Yields.of_ok {a : α} (h : Yields E P x) (hx : x = .ok a) : P a := by
  subst hx
  exact h

theorem Yields.of_error {e : ε} (h : Yields E P x) (hx : x = .error e) : E e := by
  subst hx
  exact h

theorem yields_ok {a : α} (h : P a) : Yields E P (.ok a) := h

theorem yields_pure {a : α} (h : P a) : Yields E P (pure a) := h

theorem Yields.mono (h : Yields E P x) (hE : ∀ e, E e → E' e) (hP : ∀ a, P a → P' a) :
    Yields E' P' x := by
  cases x with
  | ok a => exact hP a h
  | error e => exact hE e h

theorem Yields.bind {f : α → Except ε β} (h : Yields E P x) (hf : ∀ a, P a → Yields E Q (f a)) :
    Yields E Q (x >>= f) := by
  cases x with
  | ok a => exact hf a h
  | error e => exact h

theorem Yields.mapError {D : ε' → Prop} {f : ε → ε'} (h : Yields E P x) (hE : ∀ e, E e → D (f e)) :
    Yields D P (x.mapError f) := by
  cases x with
  | ok a => exact h
  | error e => exact hE e h

theorem Yields.and (h : Yields E P x) (h' : Yields E' P' x) :
    Yields (fun e => E e ∧ E' e) (fun a => P a ∧ P' a) x := by
  cases x with
  | ok a => exact ⟨h, h'⟩
  | error e => exact ⟨h, h'⟩

theorem yields_check {p : Prop} [Decidable p] {e : ε} {R : Unit → Prop} (he : ¬ p → E e)
    (hp : p → R ()) : Yields E R (check p e) := by
  unfold check
  split
  · rename_i h
    exact hp h
  · rename_i h
    exact he h

end Except

structure Machine (σ α ε : Type*) where
  init : σ → Prop
  enabled : σ → α → Prop
  step : σ → α → Except ε σ

variable {σ α ε : Type*}

namespace Machine

/-- `M.Run s as s'` holds when the labels `as` lead from `s` to `s'`, each
enabled where it is taken and none faulting. -/
inductive Run (M : Machine σ α ε) : σ → List α → σ → Prop
  | nil (s : σ) : Run M s [] s
  | snoc {s s' s'' : σ} {as : List α} {a : α} :
      Run M s as s' → M.enabled s' a → M.step s' a = .ok s'' → Run M s (as ++ [a]) s''

def Reachable (M : Machine σ α ε) (s : σ) : Prop :=
  ∃ s₀ as, M.init s₀ ∧ M.Run s₀ as s

/-- The runs of `M` all of whose steps meet `C` before they are taken. -/
def restrict (M : Machine σ α ε) (C : σ → α → Prop) : Machine σ α ε :=
  { M with enabled := fun s a => M.enabled s a ∧ C s a }

theorem Run.cons {M : Machine σ α ε} {s s' s'' : σ} {a : α} {as : List α}
    (he : M.enabled s a) (hs : M.step s a = .ok s') (hr : M.Run s' as s'') :
    M.Run s (a :: as) s'' := by
  induction hr with
  | nil => exact Run.snoc (Run.nil s) he hs
  | snoc _ hb ht ih => exact Run.snoc ih hb ht

theorem Run.append {M : Machine σ α ε} {s s' s'' : σ} {as bs : List α}
    (h₁ : M.Run s as s') (h₂ : M.Run s' bs s'') : M.Run s (as ++ bs) s'' := by
  induction h₂ with
  | nil => simpa using h₁
  | snoc _ he hs ih =>
    rw [← List.append_assoc]
    exact Run.snoc ih he hs

theorem Run.eq_of_nil {M : Machine σ α ε} {s s' : σ} (h : M.Run s [] s') : s = s' := by
  generalize hl : ([] : List α) = l at h
  cases h with
  | nil => rfl
  | snoc => simp at hl

/-- The last step of a run that is not empty. -/
theorem Run.unsnoc {M : Machine σ α ε} {s s' : σ} {as : List α} {a : α}
    (h : M.Run s (as ++ [a]) s') :
    ∃ m, M.Run s as m ∧ M.enabled m a ∧ M.step m a = .ok s' := by
  generalize hl : as ++ [a] = l at h
  cases h with
  | nil => simp at hl
  | snoc hr he hs =>
    obtain ⟨has, ha⟩ := List.append_inj' hl rfl
    obtain rfl := List.singleton_inj.mp ha
    subst has
    exact ⟨_, hr, he, hs⟩

theorem Run.split {M : Machine σ α ε} {s s' : σ} {as bs : List α}
    (h : M.Run s (as ++ bs) s') : ∃ m, M.Run s as m ∧ M.Run m bs s' := by
  induction bs using List.reverseRecOn generalizing s' with
  | nil =>
    rw [List.append_nil] at h
    exact ⟨s', h, Run.nil s'⟩
  | append_singleton bs b ih =>
    rw [← List.append_assoc] at h
    obtain ⟨t, ht, he, hs⟩ := h.unsnoc
    obtain ⟨m, hm, hb⟩ := ih ht
    exact ⟨m, hm, Run.snoc hb he hs⟩

theorem Run.uncons {M : Machine σ α ε} {s s' : σ} {a : α} {as : List α}
    (h : M.Run s (a :: as) s') : ∃ m, M.enabled s a ∧ M.step s a = .ok m ∧ M.Run m as s' := by
  obtain ⟨m, hm, hrest⟩ := Run.split (show M.Run s ([a] ++ as) s' from h)
  obtain ⟨t, ht, he, hs⟩ := Run.unsnoc (show M.Run s ([] ++ [a]) m from hm)
  obtain rfl := ht.eq_of_nil
  exact ⟨m, he, hs, hrest⟩

theorem Run.invariant {M : Machine σ α ε} {I : σ → Prop}
    (hstep : ∀ s a s', I s → M.enabled s a → M.step s a = .ok s' → I s')
    {s s' : σ} {as : List α} (hr : M.Run s as s') (hs : I s) : I s' := by
  induction hr with
  | nil => exact hs
  | snoc _ he ht ih => exact hstep _ _ _ ih he ht

/-- A reflexive and transitive relation that every step satisfies under an
invariant relates the two ends of every run. -/
theorem Run.relates {M : Machine σ α ε} {I : σ → Prop} {R : σ → σ → Prop}
    (hinv : ∀ s a s', I s → M.enabled s a → M.step s a = .ok s' → I s')
    (hrefl : ∀ s, R s s) (htrans : ∀ s t u, R s t → R t u → R s u)
    (hstep : ∀ s a s', I s → M.enabled s a → M.step s a = .ok s' → R s s')
    {s s' : σ} {as : List α} (hr : M.Run s as s') (hs : I s) : R s s' := by
  induction hr with
  | nil => exact hrefl s
  | snoc hr he ht ih =>
    exact htrans _ _ _ ih (hstep _ _ _ (hr.invariant hinv hs) he ht)

theorem Run.of_restrict {M : Machine σ α ε} {C : σ → α → Prop} {s s' : σ} {as : List α}
    (h : (M.restrict C).Run s as s') : M.Run s as s' := by
  induction h with
  | nil => exact Run.nil _
  | snoc _ he hs ih => exact Run.snoc ih he.1 hs

theorem Reachable.invariant {M : Machine σ α ε} {I : σ → Prop}
    (hinit : ∀ s, M.init s → I s)
    (hstep : ∀ s a s', I s → M.enabled s a → M.step s a = .ok s' → I s')
    {s : σ} (hr : M.Reachable s) : I s := by
  obtain ⟨s₀, as, h₀, hrun⟩ := hr
  exact hrun.invariant hstep (hinit s₀ h₀)

theorem Reachable.run {M : Machine σ α ε} {s s' : σ} {as : List α}
    (h : M.Reachable s) (hr : M.Run s as s') : M.Reachable s' := by
  obtain ⟨s₀, bs, h₀, hrun⟩ := h
  exact ⟨s₀, bs ++ as, h₀, hrun.append hr⟩

/-- A measure that falls with every step bounds the number of steps. -/
theorem Run.length_add_le {M : Machine σ α ε} {I : σ → Prop} {μ : σ → ℕ}
    (hstep : ∀ s a s', I s → M.enabled s a → M.step s a = .ok s' → I s' ∧ μ s' < μ s)
    {s s' : σ} {as : List α} (hr : M.Run s as s') (hs : I s) : I s' ∧ as.length + μ s' ≤ μ s := by
  induction hr with
  | nil => exact ⟨hs, by simp⟩
  | snoc _ he ht ih =>
    obtain ⟨hm, hle⟩ := ih
    obtain ⟨hs', hlt⟩ := hstep _ _ _ hm he ht
    refine ⟨hs', ?_⟩
    rw [List.length_append, List.length_singleton]
    omega

/-- Under such a measure steps with the label `a` come to an end. -/
theorem exists_run_to_end {M : Machine σ α ε} {I : σ → Prop} {μ : σ → ℕ}
    (hstep : ∀ s a s', I s → M.enabled s a → M.step s a = .ok s' → I s' ∧ μ s' < μ s)
    (a : α) {s : σ} (hs : I s) :
    ∃ as s', M.Run s as s' ∧ (M.enabled s' a → ∃ e, M.step s' a = .error e) := by
  induction hμ : μ s using Nat.strongRecOn generalizing s with
  | _ n ih =>
    by_cases he : M.enabled s a
    · cases ht : M.step s a with
      | error e => exact ⟨[], s, Run.nil s, fun _ => ⟨e, ht⟩⟩
      | ok t =>
        obtain ⟨hI, hlt⟩ := hstep _ _ _ hs he ht
        obtain ⟨as, s', hrun, hend⟩ := ih (μ t) (hμ ▸ hlt) hI rfl
        exact ⟨a :: as, s', Run.cons he ht hrun, hend⟩
    · exact ⟨[], s, Run.nil s, fun h => absurd h he⟩

/-- What one party sees of a run under the condition `C` it sees of the run with just its own
steps as well: they depend on its view alone, and the others leave its view as it is. -/
theorem Run.project {T : Type*} [DecidableEq T] {M : Machine σ α ε} {C : σ → α → Prop}
    {I : σ → Prop} {party : α → T} {t : T} {Alike : σ → σ → Prop}
    (hinv : ∀ s a s', I s → M.enabled s a → C s a → M.step s a = .ok s' → I s')
    (hown : ∀ s a s₁ s', I s → Alike s s' → party a = t → M.enabled s a → C s a →
      M.step s a = .ok s₁ → M.enabled s' a ∧ ∃ s₁', M.step s' a = .ok s₁' ∧ Alike s₁ s₁')
    (hother : ∀ s a s₁ s', I s → Alike s s' → party a ≠ t → M.enabled s a → C s a →
      M.step s a = .ok s₁ → Alike s₁ s')
    {s s₁ : σ} {as : List α} (hr : (M.restrict C).Run s as s₁) (hs : I s) (halike : Alike s s) :
    I s₁ ∧ ∃ s', M.Run s (as.filter fun a => party a = t) s' ∧ Alike s₁ s' := by
  induction hr with
  | nil => exact ⟨hs, s, Run.nil s, halike⟩
  | @snoc m m₁ as a hr he ht ih =>
    obtain ⟨hm, s', hrun, hsame⟩ := ih
    refine ⟨hinv _ _ _ hm he.1 he.2 ht, ?_⟩
    rw [List.filter_append]
    by_cases ha : party a = t
    · obtain ⟨he', s₁', hs₁', hnext⟩ := hown _ _ _ _ hm hsame ha he.1 he.2 ht
      rw [List.filter_cons_of_pos (by simpa using ha), List.filter_nil]
      exact ⟨s₁', Run.snoc hrun he' hs₁', hnext⟩
    · rw [List.filter_cons_of_neg (by simpa using ha), List.filter_nil, List.append_nil]
      exact ⟨s', hrun, hother _ _ _ _ hm hsame ha he.1 he.2 ht⟩

/-- Take the labels in order; `none` when one is not enabled or faults. -/
def execute (M : Machine σ α ε) [∀ s a, Decidable (M.enabled s a)] :
    σ → List α → Option σ
  | s, [] => some s
  | s, a :: as =>
      if M.enabled s a then
        match M.step s a with
        | .ok s' => execute M s' as
        | .error _ => none
      else none

theorem run_of_execute (M : Machine σ α ε) [∀ s a, Decidable (M.enabled s a)]
    {s s' : σ} {as : List α} (h : M.execute s as = some s') : M.Run s as s' := by
  induction as generalizing s with
  | nil =>
    simp only [execute, Option.some.injEq] at h
    subst h
    exact Run.nil s
  | cons a as ih =>
    simp only [execute] at h
    split at h
    · rename_i he
      split at h
      · rename_i t ht
        exact Run.cons he ht (ih h)
      · simp at h
    · simp at h

theorem execute_of_run (M : Machine σ α ε) [∀ s a, Decidable (M.enabled s a)]
    {s s' : σ} {as : List α} (h : M.Run s as s') : M.execute s as = some s' := by
  induction as generalizing s with
  | nil =>
    obtain rfl := h.eq_of_nil
    rfl
  | cons a as ih =>
    obtain ⟨m, he, hs, hrest⟩ := h.uncons
    simp only [execute, if_pos he, hs, ih hrest]

/-- An infinite execution: at each time a step is taken or none. -/
def Executes (M : Machine σ α ε) (states : ℕ → σ) (labels : ℕ → Option α) : Prop :=
  ∀ n, match labels n with
    | none => states (n + 1) = states n
    | some a => M.enabled (states n) a ∧ M.step (states n) a = .ok (states (n + 1))

section Executes

variable {M : Machine σ α ε} {states : ℕ → σ} {labels : ℕ → Option α} {I G : σ → Prop}

theorem Executes.invariant (h : M.Executes states labels)
    (hstep : ∀ s a s', I s → M.enabled s a → M.step s a = .ok s' → I s') {m n : ℕ} (hmn : m ≤ n)
    (hm : I (states m)) : I (states n) := by
  induction hmn with
  | refl => exact hm
  | @step n hmn ih =>
    have hn := h n
    cases hlabel : labels n with
    | none =>
      rw [hlabel] at hn
      exact hn ▸ ih
    | some a =>
      rw [hlabel] at hn
      exact hstep _ a _ ih hn.1 hn.2

/-- A goal is met when steps of one kind are taken again and again, each of them brings it
nearer and the others do not take it away. -/
theorem Executes.eventually {W : Type*} {r : W → W → Prop} (hwf : WellFounded r) {μ : σ → W}
    {near : α → Prop} (h : M.Executes states labels)
    (hinv : ∀ s a s', I s → M.enabled s a → M.step s a = .ok s' → I s')
    (hnear : ∀ s a s', I s → ¬ G s → M.enabled s a → M.step s a = .ok s' → near a →
      r (μ s') (μ s))
    (hkeep : ∀ s a s', I s → ¬ G s → M.enabled s a → M.step s a = .ok s' → ¬ near a →
      μ s' = μ s)
    (hI : I (states 0))
    (hfair : ∀ n, ∃ m, n ≤ m ∧ (G (states m) ∨ ∃ a ∈ labels m, near a)) :
    ∃ n, G (states n) := by
  by_contra hnever
  have hgoal : ∀ n, ¬ G (states n) := fun n hn => hnever ⟨n, hn⟩
  have hall : ∀ n, I (states n) := fun n => h.invariant hinv (Nat.zero_le n) hI
  -- the first step of the kind from time `n` on brings the goal nearer than it was at `n`
  have hdrop : ∀ d n, (∃ a ∈ labels (n + d), near a) →
      ∃ m, r (μ (states m)) (μ (states n)) := by
    intro d
    induction d with
    | zero =>
      intro n
      rintro ⟨a, ha, hna⟩
      have hn := h n
      rw [show labels n = some a from ha] at hn
      exact ⟨n + 1, hnear _ a _ (hall n) (hgoal n) hn.1 hn.2 hna⟩
    | succ d ih =>
      intro n hlater
      have hn := h n
      cases hlabel : labels n with
      | none =>
        rw [hlabel] at hn
        obtain ⟨m, hm⟩ := ih (n + 1) (by rwa [Nat.add_right_comm, Nat.add_assoc])
        exact ⟨m, by rwa [hn] at hm⟩
      | some a =>
        rw [hlabel] at hn
        by_cases hna : near a
        · exact ⟨n + 1, hnear _ a _ (hall n) (hgoal n) hn.1 hn.2 hna⟩
        · obtain ⟨m, hm⟩ := ih (n + 1) (by rwa [Nat.add_right_comm, Nat.add_assoc])
          rw [hkeep _ a _ (hall n) (hgoal n) hn.1 hn.2 hna] at hm
          exact ⟨m, hm⟩
  have hnone : ∀ w n, μ (states n) = w → False := by
    intro w
    induction w using hwf.induction with
    | _ w ih =>
      intro n hn
      obtain ⟨m, hm, hnext⟩ := hfair n
      have hlabel := hnext.resolve_left (hgoal m)
      obtain ⟨k, hk⟩ := hdrop (m - n) n (by rwa [Nat.add_sub_of_le hm])
      exact ih _ (hn ▸ hk) k rfl
  exact hnone _ 0 rfl

end Executes

/-- A machine that takes every label everywhere and never faults. -/
def total (init : σ → Prop) (f : σ → α → σ) : Machine σ α ε where
  init := init
  enabled _ _ := True
  step s a := .ok (f s a)

theorem run_total {init : σ → Prop} {f : σ → α → σ} {s s' : σ} {as : List α}
    (h : (total init f : Machine σ α ε).Run s as s') : as.foldl f s = s' := by
  induction h with
  | nil => rfl
  | snoc _ _ hs ih =>
    simp only [total, Except.ok.injEq] at hs
    rw [List.foldl_append, ih, List.foldl_cons, List.foldl_nil, hs]

/-- A functional refinement: under the invariant, every step of `M` is the step
of `N` with the same label between the abstract states. -/
structure Refines {τ ε' : Type*} (M : Machine σ α ε) (N : Machine τ α ε')
    (I : σ → Prop) (abs : σ → τ) : Prop where
  init : ∀ s, M.init s → I s ∧ N.init (abs s)
  keeps : ∀ s a s', I s → M.enabled s a → M.step s a = .ok s' → I s'
  simulates : ∀ s a s', I s → M.enabled s a → M.step s a = .ok s' →
    N.enabled (abs s) a ∧ N.step (abs s) a = .ok (abs s')

theorem Refines.run {τ ε' : Type*} {M : Machine σ α ε} {N : Machine τ α ε'}
    {I : σ → Prop} {abs : σ → τ} (hR : M.Refines N I abs) {s s' : σ} {as : List α}
    (hr : M.Run s as s') (hs : I s) : N.Run (abs s) as (abs s') := by
  induction hr with
  | nil => exact Run.nil _
  | snoc hr he ht ih =>
    obtain ⟨he', ht'⟩ := hR.simulates _ _ _ (hr.invariant hR.keeps hs) he ht
    exact Run.snoc ih he' ht'

end Machine

end MuduoServer.FaultMachine
