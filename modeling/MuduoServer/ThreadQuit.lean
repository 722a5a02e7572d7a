import MuduoServer.EventLoopThread

/-!
A call of `quit` takes effect exactly when the thread has entered `loop()` before it: then
no further iteration begins, and the thread returns and can be joined. The entry sets
`quit_` to false, so that a call before it is lost.
-/
namespace MuduoServer

open FaultMachine FaultMachine.Machine

namespace EventLoopThread

variable {T F : Type} [DecidableEq T] {threadId_ owner : T} {s s' : EventLoopThread T F}
  {a : ThreadStep T F}

/-- What is promised of a call of `quit` that leads to `s`: no further iteration begins, the
thread is never stuck, and once its callbacks and functors return it leaves `loop()` for
good. -/
structure TakesEffect (threadId_ owner : T) (s : EventLoopThread T F) : Prop where
  leaves : ∀ as s' s'', (machine threadId_ owner).Run s as s' →
    (machine threadId_ owner).enabled s' (.run .whileTest) →
    (machine threadId_ owner).step s' (.run .whileTest) = .ok s'' → s''.loop.pc = .outside
  goesOn : ∀ as s', (machine threadId_ owner).Run s as s' → s'.thread_ ≠ .exited →
    (machine threadId_ owner).enabled s' (advance threadId_ s') ∧
      ∃ s'', (machine threadId_ owner).step s' (advance threadId_ s') = .ok s''
  returns : ∀ states labels, (machine threadId_ owner).Executes states labels → states 0 = s →
    (∀ n, ∃ m, n ≤ m ∧ ((states m).thread_ = .exited ∨ ∃ a ∈ labels m, Moves a)) →
    ∃ n, ∀ m, n ≤ m → (states m).thread_ = .exited
  joins : ∀ as s', (machine threadId_ owner).Run s as s' → s'.thread_ = .exited →
    s'.owner_ = .destroying →
    ∃ bs s'', (machine threadId_ owner).Run s' bs s'' ∧ s''.owner_ = .joined

/-- A call in progress can always be brought to its end. -/
theorem finish_call (threadId_ owner : T) (s : EventLoopThread T F) (t : T) :
    ∃ as s', (machine threadId_ owner).Run s as s' ∧ s'.loop.calls t = .idle ∧
      s'.thread_ = s.thread_ ∧ s'.owner_ = s.owner_ := by
  have hwakeup : ∀ s : EventLoopThread T F, s.loop.calls t = .waking ∨ s.loop.calls t = .quitting →
      ∃ s', (machine threadId_ owner).Run s [.run (.wakeup t)] s' ∧ s'.loop.calls t = .idle ∧
        s'.thread_ = s.thread_ ∧ s'.owner_ = s.owner_ := by
    intro s hcall
    refine ⟨_, Run.cons ⟨hcall, trivial⟩ rfl (Run.nil _), ?_, rfl, rfl⟩
    simp [EventLoop.setCall]
  cases hcall : s.loop.calls t with
  | idle => exact ⟨[], s, Run.nil s, hcall, rfl, rfl⟩
  | waking =>
    obtain ⟨s', hrun, hrest⟩ := hwakeup s (Or.inl hcall)
    exact ⟨_, s', hrun, hrest⟩
  | quitting =>
    obtain ⟨s', hrun, hrest⟩ := hwakeup s (Or.inr hcall)
    exact ⟨_, s', hrun, hrest⟩
  | pushed =>
    let s₁ : EventLoopThread T F := { s with
      loop := s.loop.setCall t
        (if t ≠ threadId_ ∨ s.loop.callingPendingFunctors_ then .waking else .idle) }
    have htest : (machine threadId_ owner).enabled s (.run (.test t)) ∧
        (machine threadId_ owner).step s (.run (.test t)) = .ok s₁ := ⟨⟨hcall, trivial⟩, rfl⟩
    by_cases hneeds : t ≠ threadId_ ∨ s.loop.callingPendingFunctors_
    · obtain ⟨s', hrun, hidle, hthread, howner⟩ :=
        hwakeup s₁ (Or.inl (by simp [s₁, EventLoop.setCall, hneeds]))
      exact ⟨_, s', Run.cons htest.1 htest.2 hrun, hidle, hthread, howner⟩
    · refine ⟨_, s₁, Run.cons htest.1 htest.2 (Run.nil s₁), ?_, rfl, rfl⟩
      simp [s₁, EventLoop.setCall, hneeds]

theorem Quits.good_step (h : s.Good ∧ s.Quits) (he : (machine threadId_ owner).enabled s a)
    (hs : (machine threadId_ owner).step s a = .ok s') : s'.Good ∧ s'.Quits :=
  ⟨h.1.step he hs, h.2.step h.1 he hs⟩

theorem exited_step (h : s.thread_ = .exited) (he : (machine threadId_ owner).enabled s a)
    (hs : (machine threadId_ owner).step s a = .ok s') : s'.thread_ = .exited := by
  change s.step threadId_ owner a = .ok s' at hs
  cases a with
  | startLoop =>
    simp only [step, bind_eq_ok, check_eq_ok] at hs
    obtain ⟨-, hpc, -⟩ := hs
    simp [h] at hpc
  | publish => exact absurd he.1 (by simp [h])
  | startLoopReturn | join =>
    obtain rfl := pure_eq_ok.mp hs
    exact h
  | exit =>
    obtain rfl := pure_eq_ok.mp hs
    rfl
  | destroy =>
    simp only [step, bind_eq_ok, mapError_ok_iff, pure_eq_ok] at hs
    obtain ⟨-, -, loop, -, rfl⟩ := hs
    exact h
  | run a =>
    simp only [step, bind_eq_ok, mapError_ok_iff, pure_eq_ok] at hs
    obtain ⟨loop, -, rfl⟩ := hs
    have hl : a ≠ .loop := by
      rintro rfl
      have hpub : s.thread_ = .published := he.2
      cases h.symm.trans hpub
    rw [enter_of_ne hl]
    exact h

theorem Quits.takesEffect (h : s.Quits) (hgood : s.Good) : TakesEffect threadId_ owner s := by
  refine ⟨?_, ?_, ?_, ?_⟩
  · intro as s' s'' hrun he hs
    obtain ⟨hgood', hquits⟩ := hrun.invariant (fun _ _ _ ht => Quits.good_step ht) ⟨hgood, h⟩
    change s'.step threadId_ owner (.run .whileTest) = .ok s'' at hs
    simp only [EventLoopThread.step, bind_eq_ok, mapError_ok_iff, pure_eq_ok] at hs
    obtain ⟨loop, hloop, rfl⟩ := hs
    have hin : s'.loop.pc = .whileTest := LoopPc.eq_whileTest he.1.2
    rcases hquits with hexit | ⟨-, hout | hset⟩
    · have hout := hgood'.outside (by simp [hexit])
      cases hin.symm.trans hout
    · cases hin.symm.trans hout
    · exact EventLoop.whileTest_leaves hset hloop
  · intro as s' hrun hne
    obtain ⟨hgood', hquits⟩ := hrun.invariant (fun _ _ _ ht => Quits.good_step ht) ⟨hgood, h⟩
    exact advance_ok hgood' (Or.inr (Or.inr (hquits.resolve_left hne).1))
  · rintro states labels hexec rfl hfair
    obtain ⟨n, hn⟩ := hexec.eventually (G := fun s => s.thread_ = .exited)
      (wellFounded_lt.prod_lex wellFounded_lt) (fun _ _ _ ht => Quits.good_step ht)
      (fun _ _ _ ht hne he hs => Quits.toGo_lt ht.2 ht.1 hne he hs)
      (fun _ _ _ ht _ he hs => Quits.toGo_eq ht.2 ht.1 he hs) ⟨hgood, h⟩ hfair
    exact ⟨n, fun m hm => hexec.invariant (fun _ _ _ => exited_step) hm hn⟩
  · intro as s' _ hexit hdestroy
    obtain ⟨bs, t, hrun, hidle, hthread, howner⟩ := finish_call threadId_ owner s' owner
    have hjoin : (machine threadId_ owner).enabled t .join :=
      ⟨howner.trans hdestroy, hidle, hthread.trans hexit⟩
    exact ⟨_, _, Run.snoc hrun hjoin rfl, rfl⟩

section Lost

omit [DecidableEq T] in
/-- `loop()` is yet to be entered, or it has been and has not seen a call of `quit` since. -/
def Lost (s : EventLoopThread T F) : Prop :=
  s.thread_ = .callback ∨ s.thread_ = .published ∨
    s.thread_ = .looping ∧ s.loop.pc ≠ .outside ∧ s.loop.quit_ = false

omit [DecidableEq T] in
theorem Lost.alive (h : s.Lost) : s.Alive := h.imp id (Or.imp id And.left)

omit [DecidableEq T] in
theorem Lost.not_exited (h : s.Lost) : s.thread_ ≠ .exited := by
  rcases h with hpc | hpc | ⟨hpc, -⟩ <;> simp [hpc]

/-- The thread alone, calling nothing, goes round and round. -/
theorem Lost.advance (h : s.Lost) (hs : s.step threadId_ owner (advance threadId_ s) = .ok s') :
    s'.Lost := by
  unfold EventLoopThread.advance at hs
  cases hcall : s.loop.calls threadId_ with
  | pushed | waking | quitting =>
    simp only [hcall, step, EventLoop.step, pure, Except.pure, mapError_ok, ok_bind,
      Except.ok.injEq] at hs
    subst hs
    exact h
  | idle =>
    simp only [hcall] at hs
    rcases h with hpc | hpc | ⟨hpc, hin, hquit⟩
    · simp only [hpc] at hs
      obtain rfl := pure_eq_ok.mp hs
      exact Or.inr (Or.inl rfl)
    · simp only [hpc, step, EventLoop.step, bind_eq_ok, mapError_ok_iff, check_eq_ok,
        pure_eq_ok] at hs
      obtain ⟨loop, ⟨-, -, rfl⟩, rfl⟩ := hs
      exact Or.inr (Or.inr ⟨rfl, (by simp), rfl⟩)
    · simp only [hpc] at hs
      cases hplace : s.loop.pc with
      | outside => exact absurd hplace hin
      | whileTest | polling | handling | pending =>
        simp only [hplace, loopStep, step, EventLoop.step, hquit, pure, Except.pure, mapError_ok,
          ok_bind, Except.ok.injEq] at hs
        subst hs
        exact Or.inr (Or.inr ⟨hpc, (by simp), rfl⟩)
      | running rest =>
        cases rest with
        | nil | cons =>
          simp only [hplace, loopStep, step, EventLoop.step, pure, Except.pure, mapError_ok,
            ok_bind, Except.ok.injEq] at hs
          subst hs
          exact Or.inr (Or.inr ⟨hpc, (by simp), hquit⟩)

def next (threadId_ owner : T) (s : EventLoopThread T F) : EventLoopThread T F :=
  match s.step threadId_ owner (EventLoopThread.advance threadId_ s) with
  | .ok s' => s'
  | .error _ => s

theorem next_step (hgood : s.Good) (h : s.Alive) :
    (machine threadId_ owner).step s (EventLoopThread.advance threadId_ s) =
      .ok (next threadId_ owner s) := by
  obtain ⟨-, s', hs'⟩ : _ ∧ ∃ s', (machine threadId_ owner).step s _ = .ok s' :=
    advance_ok hgood h
  have hnext : next threadId_ owner s = s' := by
    unfold next
    rw [show s.step threadId_ owner _ = .ok s' from hs']
  rw [hnext]
  exact hs'

/-- The states through which the thread goes from `s` on its own. -/
def alone (threadId_ owner : T) (s : EventLoopThread T F) : ℕ → EventLoopThread T F
  | 0 => s
  | n + 1 => next threadId_ owner (alone threadId_ owner s n)

/-- The steps that a call in progress still takes. -/
def callToGo : QueueCall → ℕ
  | .idle => 0
  | .waking | .quitting => 1
  | .pushed => 2

omit [DecidableEq T] in
theorem moves_of_idle (hidle : s.loop.calls threadId_ = .idle) :
    Moves (EventLoopThread.advance threadId_ s) := by
  unfold EventLoopThread.advance
  rw [hidle]
  cases s.thread_ with
  | looping =>
    cases s.loop.pc with
    | running rest => cases rest <;> rfl
    | outside | whileTest | polling | handling | pending => rfl
  | notStarted | callback | published | exited => rfl

theorem callToGo_next (hbusy : s.loop.calls threadId_ ≠ .idle) :
    callToGo ((next threadId_ owner s).loop.calls threadId_) <
      callToGo (s.loop.calls threadId_) := by
  unfold next EventLoopThread.advance
  cases hcall : s.loop.calls threadId_ with
  | idle => exact absurd hcall hbusy
  | pushed =>
    simp only [step, EventLoop.step, EventLoop.setCall, pure, Except.pure, mapError_ok, ok_bind,
      Function.update_self]
    split <;> decide
  | waking | quitting =>
    simp [step, EventLoop.step, EventLoop.setCall, pure, Except.pure, callToGo]

theorem Lost.not_takesEffect (h : s.Lost) (hgood : s.Good) : ¬ TakesEffect threadId_ owner s := by
  intro heffect
  have hall : ∀ n, (alone threadId_ owner s n).Good ∧ (alone threadId_ owner s n).Lost := by
    intro n
    induction n with
    | zero => exact ⟨hgood, h⟩
    | succ n ih =>
      have hnext : (machine threadId_ owner).step (alone threadId_ owner s n) _ = _ :=
        next_step ih.1 ih.2.alive
      exact ⟨ih.1.step (advance_ok ih.1 ih.2.alive).1 hnext, ih.2.advance hnext⟩
  have hexec : (machine threadId_ owner).Executes (alone threadId_ owner s)
      (fun n => some (EventLoopThread.advance threadId_ (alone threadId_ owner s n))) := by
    intro n
    obtain ⟨hg, hl⟩ := hall n
    exact ⟨(advance_ok hg hl.alive).1, next_step hg hl.alive⟩
  have hfair : ∀ k n, callToGo ((alone threadId_ owner s n).loop.calls threadId_) ≤ k →
      ∃ m, n ≤ m ∧ Moves (EventLoopThread.advance threadId_ (alone threadId_ owner s m)) := by
    intro k
    induction k with
    | zero =>
      intro n hn
      refine ⟨n, Nat.le_refl n, moves_of_idle ?_⟩
      revert hn
      cases (alone threadId_ owner s n).loop.calls threadId_ <;> simp [callToGo]
    | succ k ih =>
      intro n hn
      by_cases hidle : (alone threadId_ owner s n).loop.calls threadId_ = .idle
      · exact ⟨n, Nat.le_refl n, moves_of_idle hidle⟩
      · have hlt : callToGo ((alone threadId_ owner s (n + 1)).loop.calls threadId_) < _ :=
          callToGo_next hidle
        obtain ⟨m, hm, hmoves⟩ := ih (n + 1) (by omega)
        exact ⟨m, by omega, hmoves⟩
  obtain ⟨n, hn⟩ := heffect.returns _ _ hexec rfl fun n => by
    obtain ⟨m, hm, hmoves⟩ := hfair _ n (Nat.le_refl _)
    exact ⟨m, hm, Or.inr ⟨_, rfl, hmoves⟩⟩
  exact (hall n).2.not_exited (hn n (Nat.le_refl _))

end Lost

/-- A call of `quit` takes effect if and only if `loop()` has been entered. -/
theorem quit_takesEffect_iff (h : (machine threadId_ owner).Reachable s) (hquit : IsQuit a)
    (he : (machine threadId_ owner).enabled s a)
    (hs : (machine threadId_ owner).step s a = .ok s') :
    TakesEffect threadId_ owner s' ↔ s.Entered := by
  have hgood : s.Good := by
    apply h.invariant
    · rintro s₀ rfl
      exact new_good
    · exact fun _ _ _ ht => ht.step
  have hgood' := hgood.step he hs
  have hthread : s'.thread_ = s.thread_ ∧ s'.loop.pc = s.loop.pc ∧ s'.loop.quit_ = true ∧
      s.thread_ ≠ .notStarted := by
    change s.step threadId_ owner a = .ok s' at hs
    cases a with
    | startLoop | publish | startLoopReturn | exit | join => cases hquit
    | run a =>
      cases a with
      | quit t =>
        obtain rfl := pure_eq_ok.mp hs
        obtain ⟨-, hlive, -⟩ := he
        refine ⟨rfl, rfl, rfl, ?_⟩
        rcases hlive with hpc | hpc | hpc <;> simp [hpc]
      | push | test | wakeup | loop | whileTest | pollReturn | handleRead | doPendingFunctors
      | swap | runFunctor | done => cases hquit
    | destroy =>
      simp only [step, bind_eq_ok, check_eq_ok, mapError_ok_iff, pure_eq_ok] at hs
      obtain ⟨-, hpub, loop, hloop, rfl⟩ := hs
      obtain rfl := pure_eq_ok.mp hloop
      refine ⟨rfl, rfl, rfl, ?_⟩
      intro hnot
      cases hpub.symm.trans (hgood.unpublished hnot)
  obtain ⟨hsame, hpc, hset, hstarted⟩ := hthread
  constructor
  · intro heffect
    by_contra hnot
    have hlost : s'.Lost := by
      unfold Entered at hnot
      unfold Lost
      rw [hsame]
      cases hcase : s.thread_ <;> simp_all
    exact hlost.not_takesEffect hgood' heffect
  · rintro (hin | hexit)
    · exact Quits.takesEffect (Or.inr ⟨hsame.trans hin, Or.inr hset⟩) hgood'
    · exact Quits.takesEffect (Or.inl (hsame.trans hexit)) hgood'

section Sample

instance (s : EventLoopThread T F) (t : T) : Decidable (s.Calls threadId_ owner t) :=
  inferInstanceAs (Decidable ((_ ∨ _ ∨ _) ∧ (_ → _ ∨ _ ∧ _) ∧ (_ → _)))

instance (s : EventLoopThread T F) (a : LoopStep T F) :
    Decidable (s.Allowed threadId_ owner a) :=
  match a with
  | .push t _ => inferInstanceAs (Decidable (s.Calls threadId_ owner t))
  | .quit t => inferInstanceAs (Decidable (s.Calls threadId_ owner t))
  | .loop => inferInstanceAs (Decidable (_ = _))
  | .test _ | .wakeup _ | .whileTest | .pollReturn | .handleRead | .doPendingFunctors | .swap
  | .runFunctor | .done => instDecidableTrue

instance (s : EventLoopThread T F) (a : ThreadStep T F) :
    Decidable ((machine threadId_ owner).enabled s a) :=
  match a with
  | .startLoop => inferInstanceAs (Decidable (_ = _))
  | .publish => inferInstanceAs (Decidable (_ ∧ _))
  | .startLoopReturn => inferInstanceAs (Decidable (_ ∧ _))
  | .run a =>
    inferInstanceAs (Decidable (s.loop.Enabled threadId_ a ∧ s.Allowed threadId_ owner a))
  | .exit => inferInstanceAs (Decidable (_ ∧ _ ∧ _))
  | .destroy => inferInstanceAs (Decidable (_ ∧ _))
  | .join => inferInstanceAs (Decidable (_ ∧ _ ∧ _))

/-- The loop waits in `poll` when its owner destroys the `EventLoopThread`. -/
theorem quit_takesEffect_sample :
    ∃ s s' : EventLoopThread Bool ℕ, (machine true false).Reachable s ∧
      (machine true false).step s .destroy = .ok s' ∧ s.loop.pc = .polling ∧
      TakesEffect true false s' := by
  have h : ((machine true false).execute (new : EventLoopThread Bool ℕ)
      [.startLoop, .publish, .startLoopReturn, .run .loop, .run .whileTest]).map
      (fun s => (s.loop.pc.isPolling, s.thread_, s.owner_, s.loop_, s.loop.calls false)) =
        some (true, .looping, .started, true, .idle) := by
    decide +kernel
  obtain ⟨s, hs, hview⟩ := Option.map_eq_some_iff.mp h
  simp only [Prod.mk.injEq] at hview
  obtain ⟨hpc, hthread, howner, hpub, hidle⟩ := hview
  have hreach : (machine true false).Reachable s := ⟨new, _, rfl, run_of_execute _ hs⟩
  have hstep : ∃ s', (machine true false).step s .destroy = .ok s' := by
    simp [machine, step, EventLoop.step, hpub, check_of, pure, Except.pure]
  obtain ⟨s', hs'⟩ := hstep
  have hdestroy : (machine true false).enabled s .destroy := ⟨Or.inr howner, hidle⟩
  have heffect := (quit_takesEffect_iff hreach rfl hdestroy hs').mpr (Or.inl hthread)
  exact ⟨s, s', hreach, hs', LoopPc.eq_polling hpc, heffect⟩

/-- The destructor runs right after `startLoop` has returned: the loop is then entered and
goes on for ever. -/
theorem quit_before_entry :
    ¬ ∀ (s s' : EventLoopThread Bool ℕ) (a : ThreadStep Bool ℕ),
      (machine true false).Reachable s → IsQuit a → (machine true false).enabled s a →
      (machine true false).step s a = .ok s' → TakesEffect true false s' := by
  intro hall
  have h : ((machine true false).execute (new : EventLoopThread Bool ℕ)
      [.startLoop, .publish, .startLoopReturn]).map
      (fun s => (s.thread_, s.owner_, s.loop_, s.loop.calls false)) =
        some (.published, .started, true, .idle) := by
    decide +kernel
  obtain ⟨s, hs, hview⟩ := Option.map_eq_some_iff.mp h
  simp only [Prod.mk.injEq] at hview
  obtain ⟨hthread, howner, hpub, hidle⟩ := hview
  have hrun := run_of_execute _ hs
  have hdestroy : (machine true false).enabled s .destroy := ⟨Or.inr howner, hidle⟩
  have hstep : ∃ s', (machine true false).step s .destroy = .ok s' ∧ s'.thread_ = .published := by
    simp [machine, step, EventLoop.step, hpub, check_of, pure, Except.pure, hthread]
  obtain ⟨s', hs', hthread'⟩ := hstep
  have hgood : s'.Good := by
    apply (Run.snoc hrun hdestroy hs').invariant (fun _ _ _ ht => ht.step) new_good
  have hlost : s'.Lost := Or.inr (Or.inl hthread')
  exact hlost.not_takesEffect hgood (hall s s' .destroy ⟨new, _, rfl, hrun⟩ rfl hdestroy hs')

end Sample

end EventLoopThread

end MuduoServer
