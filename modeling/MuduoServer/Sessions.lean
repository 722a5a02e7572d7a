import MuduoServer.FaultMachine

/-!
Sessions that run programs against one shared state. A program is a tree of calls, each
answered by the shared state or refused, and the calls of the sessions interleave. What a
program does is proved for one session at a time, against all that the others may do
between two of its calls (`rely`), and each call in turn keeps what the others rely on.
-/
namespace MuduoServer.Sessions

open FaultMachine

/-- Programs that make calls `q`, each answered with a value of `A q` or refused. -/
inductive Program (Q : Type) (A : Q → Type) (X : Type)
  | ret (x : X)
  | call (q : Q) (next : Option (A q) → Program Q A X)

variable {T S R Q X Y E ε : Type} {A : Q → Type}

def Program.bind : Program Q A X → (X → Program Q A Y) → Program Q A Y
  | .ret x, f => f x
  | .call q next, f => .call q fun a => (next a).bind f

instance : Monad (Program Q A) where
  pure := .ret
  bind := Program.bind

/-- The call `q` in code that throws `e` when it is refused. -/
def invoke (e : E) (q : Q) : ExceptT E (Program Q A) (A q) :=
  ExceptT.mk (.call q fun a =>
    match a with
    | some x => .ret (.ok x)
    | none => .ret (.error e))

/-- The shared state: when a call need not wait, and what it answers. The last argument
tells whether the call goes through or is refused for a reason outside the state. -/
structure System (T S Q : Type) (A : Q → Type) (ε : Type) where
  ready : S → T → Q → Prop
  perform : S → T → (q : Q) → Bool → Except ε (Option (A q) × S)

structure State (T S R Q : Type) (A : Q → Type) (X : Type) where
  shared : S
  session : T → Option (R × Program Q A X)

inductive Label (T R : Type)
  | request (t : T) (r : R)
  | answer (t : T) (ok : Bool)

namespace State

def Enabled (M : System T S Q A ε) (s : State T S R Q A X) : Label T R → Prop
  | .request t _ =>
    match s.session t with
    | some (_, .call _ _) => False
    | some (_, .ret _) | none => True
  | .answer t ok =>
    match s.session t with
    | some (_, .call q _) => ok = true → M.ready s.shared t q
    | some (_, .ret _) | none => False

instance (M : System T S Q A ε) [∀ s t q, Decidable (M.ready s t q)] (s : State T S R Q A X)
    (a : Label T R) : Decidable (s.Enabled M a) := by
  cases a <;> (simp only [Enabled]; split <;> infer_instance)

variable [DecidableEq T]

def step (M : System T S Q A ε) (code : R → Program Q A X) (s : State T S R Q A X) :
    Label T R → Except ε (State T S R Q A X)
  | .request t r => .ok { s with session := Function.update s.session t (some (r, code r)) }
  | .answer t ok =>
    match s.session t with
    | some (r, .call q next) => do
      let (a, shared) ← M.perform s.shared t q ok
      pure { shared, session := Function.update s.session t (some (r, next a)) }
    | some (_, .ret _) | none => .ok s

def machine (M : System T S Q A ε) (init : S → Prop) (code : R → Program Q A X) :
    Machine (State T S R Q A X) (Label T R) ε where
  init s := init s.shared ∧ ∀ t, s.session t = none
  enabled := Enabled M
  step := step M code

end State

/-- What holds between any two calls, what a session may rely on while it waits, and what
holds of it when it runs no program. -/
structure Rules (T S : Type) where
  inv : S → Prop
  rely : T → S → S → Prop
  idle : T → S → Prop
  refl : ∀ t s, rely t s s
  trans : ∀ t s s' s'', rely t s s' → rely t s' s'' → rely t s s''
  idle_rely : ∀ t s s', idle t s → rely t s s' → idle t s'

variable (M : System T S Q A ε) (D : Rules T S) (C : S → Q → Prop) (G : S → S → Prop) (t : T)

/-- A call of `t` from `s` to `s'` keeps the invariant and what the others rely on, and does
only what `t` has leave to do. -/
structure Keeps (s s' : S) : Prop where
  inv : D.inv s'
  leave : G s s'
  others : ∀ u, u ≠ t → D.rely u s s'

/-- Every call that the program makes under the condition `C` is a good one, and `post` holds
when it returns. -/
def Runs : Program Q A X → (X → S → Prop) → S → Prop
  | .ret x, post, s => post x s
  | .call q next, post, s => ∀ s' ok a s'', D.inv s' → D.rely t s s' →
      (ok = true → M.ready s' t q) → C s' q → M.perform s' t q ok = .ok (a, s'') →
      Keeps D G t s' s'' ∧ Runs (next a) post s''

variable {M D C G t}

theorem Runs.mono {p : Program Q A X} {P P' : X → S → Prop} {s : S} (h : Runs M D C G t p P s)
    (hP : ∀ x s, P x s → P' x s) : Runs M D C G t p P' s := by
  induction p generalizing s with
  | ret x => exact hP x s h
  | call q next ih =>
    intro s' ok a s'' hinv hrely hready hC hperform
    obtain ⟨hkeeps, hnext⟩ := h s' ok a s'' hinv hrely hready hC hperform
    exact ⟨hkeeps, ih a hnext⟩

theorem Runs.bind {p : Program Q A X} {f : X → Program Q A Y} {post : Y → S → Prop} {s : S}
    (h : Runs M D C G t p (fun x => Runs M D C G t (f x) post) s) :
    Runs M D C G t (p >>= f) post s := by
  induction p generalizing s with
  | ret x => exact h
  | call q next ih =>
    intro s' ok a s'' hinv hrely hready hC hperform
    obtain ⟨hkeeps, hnext⟩ := h s' ok a s'' hinv hrely hready hC hperform
    exact ⟨hkeeps, ih a hnext⟩

/-- A program may still be run after what the others do between two calls. -/
theorem Runs.rely {p : Program Q A X} {s s' : S} (h : Runs M D C G t p (fun _ s => D.idle t s) s)
    (hs : D.rely t s s') : Runs M D C G t p (fun _ s => D.idle t s) s' := by
  cases p with
  | ret => exact D.idle_rely t s s' h hs
  | call q next =>
    intro u ok a u' hinv hrely
    exact h u ok a u' hinv (D.trans t s s' u hs hrely)

/-- `Runs` for code that may throw: `post` is for a return. -/
def Does (M : System T S Q A ε) (D : Rules T S) (C : S → Q → Prop) (G : S → S → Prop) (t : T)
    (p : ExceptT E (Program Q A) X) (post : X → S → Prop) (s : S) : Prop :=
  Runs M D C G t p.run (fun r s => ∀ x, r = .ok x → post x s) s

theorem Does.pure {x : X} {post : X → S → Prop} {s : S} (h : post x s) :
    Does M D C G t (Pure.pure x : ExceptT E (Program Q A) X) post s := by
  intro y hy
  obtain rfl := Except.ok.inj hy
  exact h

theorem Does.bind {p : ExceptT E (Program Q A) X} {f : X → ExceptT E (Program Q A) Y}
    {P : X → S → Prop} {post : Y → S → Prop} {s : S} (h : Does M D C G t p P s)
    (hf : ∀ x s, P x s → Does M D C G t (f x) post s) : Does M D C G t (p >>= f) post s := by
  refine Runs.bind (p := p.run) (h.mono fun r s hr => ?_)
  cases r with
  | ok x => exact hf x s (hr x rfl)
  | error e =>
    intro y hy
    cases hy

theorem Does.invoke {e : E} {q : Q} {post : A q → S → Prop} {s : S}
    (h : ∀ s' ok a s'', D.inv s' → D.rely t s s' → (ok = true → M.ready s' t q) → C s' q →
      M.perform s' t q ok = .ok (a, s'') →
      Keeps D G t s' s'' ∧ ∀ x, a = some x → post x s'') :
    Does M D C G t (invoke e q) post s := by
  intro s' ok a s'' hinv hrely hready hC hperform
  obtain ⟨hkeeps, hpost⟩ := h s' ok a s'' hinv hrely hready hC hperform
  refine ⟨hkeeps, ?_⟩
  cases a with
  | some x =>
    intro y hy
    obtain rfl := Except.ok.inj hy
    exact hpost x rfl
  | none =>
    intro y hy
    cases hy

section Sound
variable (M D)

/-- What the requests and the calls of a run are held to. -/
structure Contract (T S R Q : Type) where
  admits : R → Prop
  allows : R → S → T → Q → Prop
  leave : R → S → S → Prop

variable (K : Contract T S R Q)

def Allowed (s : State T S R Q A X) : Label T R → Prop
  | .request _ r => K.admits r
  | .answer t _ =>
    match s.session t with
    | some (r, .call q _) => K.allows r s.shared t q
    | some (_, .ret _) | none => True

instance [∀ r, Decidable (K.admits r)] [∀ r s t q, Decidable (K.allows r s t q)]
    (s : State T S R Q A X) (a : Label T R) : Decidable (Allowed K s a) := by
  cases a <;> (simp only [Allowed]; first | infer_instance | (split <;> infer_instance))

/-- A program that runs well under the contract for its request and ends idle. -/
def Fulfils (r : R) (t : T) (p : Program Q A X) (s : S) : Prop :=
  Runs M D (fun s q => K.allows r s t q) (K.leave r) t p (fun _ s => D.idle t s) s

/-- The code runs well from every state of the rules. -/
def Correct (code : R → Program Q A X) : Prop :=
  ∀ r t s, K.admits r → D.inv s → D.idle t s → Fulfils M D K r t (code r) s

structure Sound (s : State T S R Q A X) : Prop where
  inv : D.inv s.shared
  idle : ∀ t, s.session t = none → D.idle t s.shared
  runs : ∀ t r p, s.session t = some (r, p) → Fulfils M D K r t p s.shared

variable {M D K} [DecidableEq T] {code : R → Program Q A X} {s s' : State T S R Q A X}

/-- The call that an `answer` is for. -/
theorem State.step_answer {t : T} {ok : Bool} (he : s.Enabled M (.answer t ok))
    (hs : s.step M code (.answer t ok) = .ok s') :
    ∃ r q next a, s.session t = some (r, .call q next) ∧ (ok = true → M.ready s.shared t q) ∧
      M.perform s.shared t q ok = .ok (a, s'.shared) ∧
      s' = { shared := s'.shared, session := Function.update s.session t (some (r, next a)) } := by
  simp only [State.Enabled] at he
  simp only [State.step] at hs
  split at he
  · rename_i r q next hsession
    rw [hsession] at hs
    obtain ⟨⟨a, shared⟩, hperform, hs⟩ := bind_eq_ok.mp hs
    obtain rfl := pure_eq_ok.mp hs
    exact ⟨r, q, next, a, hsession, he, hperform, rfl⟩
  · exact absurd he id
  · exact absurd he id

/-- What holds of the sessions that run nothing and of those that run a program, after the
session `t` has gone on with `y`. -/
theorem forall_update {session : T → Option (R × Y)} {I : T → Prop} {W : T → R → Y → Prop} {t : T}
    {r : R} {y : Y} (hidle : ∀ u, u ≠ t → session u = none → I u)
    (hruns : ∀ u r' y', u ≠ t → session u = some (r', y') → W u r' y') (hy : W t r y) :
    (∀ u, Function.update session t (some (r, y)) u = none → I u) ∧
      ∀ u r' y', Function.update session t (some (r, y)) u = some (r', y') → W u r' y' := by
  refine ⟨fun u hu => ?_, fun u r' y' hu => ?_⟩
  · by_cases hut : u = t
    · subst hut
      simp at hu
    · rw [Function.update_of_ne hut] at hu
      exact hidle u hut hu
  · by_cases hut : u = t
    · subst hut
      simp only [Function.update_self, Option.some.injEq, Prod.mk.injEq] at hu
      obtain ⟨rfl, rfl⟩ := hu
      exact hy
    · rw [Function.update_of_ne hut] at hu
      exact hruns u r' y' hut hu

/-- One session goes on with another program, and the others are let alone. -/
theorem Sound.update (h : Sound M D K s) {t : T} {r : R} {p : Program Q A X} {shared : S}
    (hinv : D.inv shared) (hothers : ∀ u, u ≠ t → D.rely u s.shared shared)
    (hp : Fulfils M D K r t p shared) :
    Sound M D K
      { shared := shared, session := Function.update s.session t (some (r, p)) } := by
  have hall := forall_update (W := fun u r p => Fulfils M D K r u p shared)
    (fun u hut hu => D.idle_rely u _ _ (h.idle u hu) (hothers u hut))
    (fun u r' p' hut hu => (h.runs u r' p' hu).rely (hothers u hut)) hp
  exact ⟨hinv, hall.1, hall.2⟩

theorem Sound.request (h : Sound M D K s) (hcode : Correct M D K code) {t : T} {r : R}
    (he : s.Enabled M (.request t r)) (hr : K.admits r)
    (hs : s.step M code (.request t r) = .ok s') : Sound M D K s' := by
  simp only [State.step, Except.ok.injEq] at hs
  subst hs
  have hidle : D.idle t s.shared := by
    simp only [State.Enabled] at he
    split at he
    · exact absurd he id
    · rename_i r' x hsession
      exact h.runs t r' _ hsession
    · rename_i hsession
      exact h.idle t hsession
  exact h.update h.inv (fun u _ => D.refl u s.shared) (hcode r t s.shared hr h.inv hidle)

/-- A call does what its session has leave to do, and the programs go on running well. -/
theorem Sound.answer (h : Sound M D K s) {t : T} {ok : Bool} (he : s.Enabled M (.answer t ok))
    (hK : Allowed K s (.answer t ok)) (hs : s.step M code (.answer t ok) = .ok s') :
    Sound M D K s' ∧ ∃ r p, s.session t = some (r, p) ∧ K.leave r s.shared s'.shared := by
  obtain ⟨r, q, next, a, hsession, hready, hperform, hs'⟩ := State.step_answer he hs
  simp only [Allowed, hsession] at hK
  obtain ⟨hkeeps, hnext⟩ := h.runs t r _ hsession s.shared ok a s'.shared h.inv
    (D.refl t s.shared) hready hK hperform
  refine ⟨?_, r, _, hsession, hkeeps.leave⟩
  rw [hs']
  exact h.update hkeeps.inv hkeeps.others hnext

theorem Sound.step (h : Sound M D K s) (hcode : Correct M D K code) {a : Label T R}
    (he : s.Enabled M a) (hK : Allowed K s a) (hs : s.step M code a = .ok s') :
    Sound M D K s' := by
  cases a with
  | request t r => exact h.request hcode he hK hs
  | answer t ok => exact (h.answer he hK hs).1

/-- Every state of a run under the contract is sound. -/
theorem sound_of_reachable {init : S → Prop} (hinit : ∀ s, init s → D.inv s ∧ ∀ t, D.idle t s)
    (hcode : Correct M D K code)
    (hs : ((State.machine M init code).restrict (Allowed K)).Reachable s) : Sound M D K s := by
  refine hs.invariant ?_ ?_
  · intro s h
    obtain ⟨hinv, hidle⟩ := hinit _ h.1
    refine ⟨hinv, fun t _ => hidle t, fun t r p hp => ?_⟩
    rw [h.2 t] at hp
    cases hp
  · intro s a s' h he hstep
    exact h.step hcode he.1 he.2 hstep

end Sound

end MuduoServer.Sessions
