import MuduoServer.Sessions

/-!
Sessions that rely on more while they wait at some of their calls. What a session may rely on
between two calls then depends on the call that it waits at (`calm`), and it is for the steps
of the others to leave that alone (`Calm`). A step that does not is what such a session can be
hurt by; in a run without one, what is proved for each program alone holds of all of them.
-/
namespace MuduoServer.Sessions

open FaultMachine

variable {T S R Q X Y E ε : Type} {A : Q → Type}

/-- What a call is not disturbed by while it waits. -/
structure Calmness (S Q : Type) where
  calm : Q → S → S → Prop
  refl : ∀ q s, calm q s s
  trans : ∀ q s s' s'', calm q s s' → calm q s' s'' → calm q s s''

variable (M : System T S Q A ε) (D : Rules T S) (W : Calmness S Q) (C : S → Q → Prop)
  (G : S → S → Prop) (t : T)

/-- `Runs`, where each call has also waited undisturbed. -/
def Waits : Program Q A X → (X → S → Prop) → S → Prop
  | .ret x, post, s => post x s
  | .call q next, post, s => ∀ s' ok a s'', D.inv s' → D.rely t s s' → W.calm q s s' →
      (ok = true → M.ready s' t q) → C s' q → M.perform s' t q ok = .ok (a, s'') →
      Keeps D G t s' s'' ∧ Waits (next a) post s''

variable {M D W C G t}

theorem Waits.mono {p : Program Q A X} {P P' : X → S → Prop} {s : S}
    (h : Waits M D W C G t p P s) (hP : ∀ x s, P x s → P' x s) : Waits M D W C G t p P' s := by
  induction p generalizing s with
  | ret x => exact hP x s h
  | call q next ih =>
    intro s' ok a s'' hinv hrely hcalm hready hC hperform
    obtain ⟨hkeeps, hnext⟩ := h s' ok a s'' hinv hrely hcalm hready hC hperform
    exact ⟨hkeeps, ih a hnext⟩

theorem Waits.bind {p : Program Q A X} {f : X → Program Q A Y} {post : Y → S → Prop} {s : S}
    (h : Waits M D W C G t p (fun x => Waits M D W C G t (f x) post) s) :
    Waits M D W C G t (p >>= f) post s := by
  induction p generalizing s with
  | ret x => exact h
  | call q next ih =>
    intro s' ok a s'' hinv hrely hcalm hready hC hperform
    obtain ⟨hkeeps, hnext⟩ := h s' ok a s'' hinv hrely hcalm hready hC hperform
    exact ⟨hkeeps, ih a hnext⟩

/-- Programs that need no calm. -/
theorem Runs.waits {p : Program Q A X} {post : X → S → Prop} {s : S}
    (h : Runs M D C G t p post s) : Waits M D W C G t p post s := by
  induction p generalizing s with
  | ret x => exact h
  | call q next ih =>
    intro s' ok a s'' hinv hrely _ hready hC hperform
    obtain ⟨hkeeps, hnext⟩ := h s' ok a s'' hinv hrely hready hC hperform
    exact ⟨hkeeps, ih a hnext⟩

/-- A program may still be run after what the others do, if they leave it calm. -/
theorem Waits.rely {p : Program Q A X} {s s' : S}
    (h : Waits M D W C G t p (fun _ s => D.idle t s) s) (hs : D.rely t s s')
    (hcalm : ∀ q next, p = .call q next → W.calm q s s') :
    Waits M D W C G t p (fun _ s => D.idle t s) s' := by
  cases p with
  | ret => exact D.idle_rely t s s' h hs
  | call q next =>
    intro u ok a u' hinv hrely hwait
    exact h u ok a u' hinv (D.trans t s s' u hs hrely)
      (W.trans q s s' u (hcalm q next rfl) hwait)

/-- `Waits` for code that may throw: `post` is for a return. -/
def Awaits (M : System T S Q A ε) (D : Rules T S) (W : Calmness S Q) (C : S → Q → Prop)
    (G : S → S → Prop) (t : T) (p : ExceptT E (Program Q A) X) (post : X → S → Prop) (s : S) :
    Prop :=
  Waits M D W C G t p.run (fun r s => ∀ x, r = .ok x → post x s) s

theorem Does.awaits {p : ExceptT E (Program Q A) X} {post : X → S → Prop} {s : S}
    (h : Does M D C G t p post s) : Awaits M D W C G t p post s :=
  Runs.waits h

theorem Awaits.bind {p : ExceptT E (Program Q A) X} {f : X → ExceptT E (Program Q A) Y}
    {P : X → S → Prop} {post : Y → S → Prop} {s : S} (h : Awaits M D W C G t p P s)
    (hf : ∀ x s, P x s → Awaits M D W C G t (f x) post s) :
    Awaits M D W C G t (p >>= f) post s := by
  refine Waits.bind (p := p.run) (h.mono fun r s hr => ?_)
  cases r with
  | ok x => exact hf x s (hr x rfl)
  | error e =>
    intro y hy
    cases hy

theorem Awaits.invoke {e : E} {q : Q} {post : A q → S → Prop} {s : S}
    (h : ∀ s' ok a s'', D.inv s' → D.rely t s s' → W.calm q s s' →
      (ok = true → M.ready s' t q) → C s' q → M.perform s' t q ok = .ok (a, s'') →
      Keeps D G t s' s'' ∧ ∀ x, a = some x → post x s'') :
    Awaits M D W C G t (invoke e q) post s := by
  intro s' ok a s'' hinv hrely hcalm hready hC hperform
  obtain ⟨hkeeps, hpost⟩ := h s' ok a s'' hinv hrely hcalm hready hC hperform
  refine ⟨hkeeps, ?_⟩
  cases a with
  | some x =>
    intro y hy
    obtain rfl := Except.ok.inj hy
    exact hpost x rfl
  | none =>
    intro y hy
    cases hy

section Sound
variable (M D W) (K : Contract T S R Q)

/-- A program that runs well under the contract for its request, if the others leave it calm,
and ends idle. -/
def Attains (r : R) (t : T) (p : Program Q A X) (s : S) : Prop :=
  Waits M D W (fun s q => K.allows r s t q) (K.leave r) t p (fun _ s => D.idle t s) s

def Sure (code : R → Program Q A X) : Prop :=
  ∀ r t s, K.admits r → D.inv s → D.idle t s → Attains M D W K r t (code r) s

structure Steady (s : State T S R Q A X) : Prop where
  inv : D.inv s.shared
  idle : ∀ t, s.session t = none → D.idle t s.shared
  waits : ∀ t r p, s.session t = some (r, p) → Attains M D W K r t p s.shared

variable [DecidableEq T] {code : R → Program Q A X} {s s' : State T S R Q A X}

/-- The step disturbs no other session at the call that it waits at. -/
def Calm (code : R → Program Q A X) (s : State T S R Q A X) : Label T R → Prop
  | .request _ _ => True
  | .answer t ok => ∀ s', s.step M code (.answer t ok) = .ok s' →
      ∀ u r q next, u ≠ t → s.session u = some (r, .call q next) → W.calm q s.shared s'.shared

variable {M D W K}

theorem Steady.request (h : Steady M D W K s) (hcode : Sure M D W K code) {t : T} {r : R}
    (he : s.Enabled M (.request t r)) (hr : K.admits r)
    (hs : s.step M code (.request t r) = .ok s') : Steady M D W K s' := by
  simp only [State.step, Except.ok.injEq] at hs
  subst hs
  have hidle : D.idle t s.shared := by
    simp only [State.Enabled] at he
    split at he
    · exact absurd he id
    · rename_i r' x hsession
      exact h.waits t r' _ hsession
    · rename_i hsession
      exact h.idle t hsession
  have hall := forall_update (W := fun u r p => Attains M D W K r u p s.shared)
    (fun u _ hu => h.idle u hu) (fun u r' p _ hu => h.waits u r' p hu)
    (hcode r t s.shared hr h.inv hidle)
  exact ⟨h.inv, hall.1, hall.2⟩

/-- A call does what its session has leave to do, and the programs go on running well. -/
theorem Steady.answer (h : Steady M D W K s) {t : T} {ok : Bool}
    (he : s.Enabled M (.answer t ok)) (hK : Allowed K s (.answer t ok))
    (hcalm : Calm M W code s (.answer t ok))
    (hs : s.step M code (.answer t ok) = .ok s') :
    Steady M D W K s' ∧ ∃ r p, s.session t = some (r, p) ∧ K.leave r s.shared s'.shared := by
  have hdisturb := hcalm s' hs
  obtain ⟨r, q, next, a, hsession, hready, hperform, hs'⟩ := State.step_answer he hs
  simp only [Allowed, hsession] at hK
  obtain ⟨hkeeps, hnext⟩ := h.waits t r _ hsession s.shared ok a s'.shared h.inv
    (D.refl t s.shared) (W.refl q s.shared) hready hK hperform
  refine ⟨?_, r, _, hsession, hkeeps.leave⟩
  rw [hs']
  have hall := forall_update (W := fun u r p => Attains M D W K r u p s'.shared)
    (fun u hut hu => D.idle_rely u _ _ (h.idle u hu) (hkeeps.others u hut))
    (fun u r' p hut hu => (h.waits u r' p hu).rely (hkeeps.others u hut) fun q next hq =>
      hdisturb u r' q next hut (hq ▸ hu)) hnext
  exact ⟨hkeeps.inv, hall.1, hall.2⟩

/-- Every state of an undisturbed run under the contract is steady. -/
theorem steady_of_reachable {init : S → Prop} (hinit : ∀ s, init s → D.inv s ∧ ∀ t, D.idle t s)
    (hcode : Sure M D W K code)
    (hs : ((State.machine M init code).restrict fun s a =>
      Allowed K s a ∧ Calm M W code s a).Reachable s) : Steady M D W K s := by
  refine hs.invariant ?_ ?_
  · intro s h
    obtain ⟨hinv, hidle⟩ := hinit _ h.1
    refine ⟨hinv, fun t _ => hidle t, fun t r p hp => ?_⟩
    rw [h.2 t] at hp
    cases hp
  · intro s a s' h he hstep
    cases a with
    | request t r => exact h.request hcode he.1 he.2.1 hstep
    | answer t ok => exact (h.answer he.1 he.2.1 he.2.2 hstep).1

end Sound

end MuduoServer.Sessions
