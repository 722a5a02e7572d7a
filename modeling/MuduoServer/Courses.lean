import MuduoServer.Sessions

/-!
The course of a program that runs alone: the calls that it makes, each with what became of it,
what the program returns and the state that it leaves. The environment chooses which calls are
refused, and a call that would have to wait is refused as well. What holds of every course is
proved call by call (`Ends`).
-/
namespace MuduoServer.Sessions

inductive Verdict
  | answered
  | refused
  | crashed
  deriving DecidableEq

/-- `outcome` is `none` when the last call crashed. -/
structure Course (S Q X : Type) where
  log : List (Q × Verdict)
  outcome : Option X
  shared : S

namespace Course
variable {S Q X : Type}

/-- The course with the calls of `log` before it. -/
def after (log : List (Q × Verdict)) (c : Course S Q X) : Course S Q X :=
  { c with log := log ++ c.log }

@[simp] theorem after_log (log : List (Q × Verdict)) (c : Course S Q X) :
    (c.after log).log = log ++ c.log := rfl

@[simp] theorem after_outcome (log : List (Q × Verdict)) (c : Course S Q X) :
    (c.after log).outcome = c.outcome := rfl

@[simp] theorem after_shared (log : List (Q × Verdict)) (c : Course S Q X) :
    (c.after log).shared = c.shared := rfl

theorem after_after (log log' : List (Q × Verdict)) (c : Course S Q X) :
    (c.after log').after log = c.after (log ++ log') := by
  simp [after]

end Course

variable {T S Q X Y E ε : Type} {A : Q → Type}

def verdict {α : Type} (a : Option α) : Verdict := if a.isSome then .answered else .refused

@[simp] theorem verdict_some {α : Type} (x : α) : verdict (some x) = .answered := rfl

@[simp] theorem verdict_none {α : Type} : verdict (none : Option α) = .refused := rfl

section Alone
variable (M : System T S Q A ε) [∀ s t q, Decidable (M.ready s t q)] (t : T)

/-- The call number `n` is refused when `fails n`. -/
def Program.alone : Program Q A X → (ℕ → Bool) → S → Course S Q X
  | .ret x, _, s => ⟨[], some x, s⟩
  | .call q next, fails, s =>
    match M.perform s t q (!fails 0 && decide (M.ready s t q)) with
    | .ok (a, s') => (alone (next a) (fun n => fails (n + 1)) s').after [(q, verdict a)]
    | .error _ => ⟨[(q, .crashed)], none, s⟩

/-- Every course of the program from `s` meets `post`. -/
def Ends (p : Program Q A X) (post : Course S Q X → Prop) (s : S) : Prop :=
  ∀ fails, post (p.alone M t fails s)

end Alone

variable {M : System T S Q A ε} [∀ s t q, Decidable (M.ready s t q)] {t : T} {s : S}

theorem Ends.mono {p : Program Q A X} {post post' : Course S Q X → Prop} (h : Ends M t p post s)
    (hpost : ∀ c, post c → post' c) : Ends M t p post' s :=
  fun fails => hpost _ (h fails)

theorem ends_ret {x : X} {post : Course S Q X → Prop} (h : post ⟨[], some x, s⟩) :
    Ends M t (.ret x) post s :=
  fun _ => h

theorem ends_call {q : Q} {next : Option (A q) → Program Q A X} {post : Course S Q X → Prop}
    (hok : ∀ ok a s', M.perform s t q ok = .ok (a, s') →
      Ends M t (next a) (fun c => post (c.after [(q, verdict a)])) s')
    (hcrash : post ⟨[(q, .crashed)], none, s⟩) : Ends M t (.call q next) post s := by
  intro fails
  simp only [Program.alone]
  split
  · rename_i a s' hperform
    exact hok _ a s' hperform _
  · exact hcrash

theorem alone_bind (p : Program Q A X) (f : X → Program Q A Y) (fails : ℕ → Bool) :
    (p >>= f).alone M t fails s =
      match (p.alone M t fails s).outcome with
      | some x =>
        ((f x).alone M t (fun n => fails (n + (p.alone M t fails s).log.length))
          (p.alone M t fails s).shared).after (p.alone M t fails s).log
      | none => ⟨(p.alone M t fails s).log, none, (p.alone M t fails s).shared⟩ := by
  induction p generalizing fails s with
  | ret x => rfl
  | call q next ih =>
    change (Program.call q fun a => next a >>= f).alone M t fails s = _
    simp only [Program.alone]
    split
    · rename_i a s' hperform
      rw [ih]
      simp only [Course.after_outcome, Course.after_log, Course.after_shared]
      split
      · rw [Course.after_after]
        simp only [List.singleton_append, List.length_cons, Nat.add_assoc]
      · rfl
    · rfl

/-- What comes after `p` goes on with the calls of `p` before it. -/
theorem Ends.bind {p : Program Q A X} {f : X → Program Q A Y} {P : Course S Q X → Prop}
    {post : Course S Q Y → Prop} (h : Ends M t p P s)
    (hret : ∀ c x, P c → c.outcome = some x →
      Ends M t (f x) (fun c' => post (c'.after c.log)) c.shared)
    (hcrash : ∀ c, P c → c.outcome = none → post ⟨c.log, none, c.shared⟩) :
    Ends M t (p >>= f) post s := by
  intro fails
  rw [alone_bind]
  have hc := h fails
  split
  · rename_i x hx
    exact hret _ x hc hx _
  · rename_i hx
    exact hcrash _ hc hx

end MuduoServer.Sessions
