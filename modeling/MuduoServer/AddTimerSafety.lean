import MuduoServer.AddTimerCalls
import Mathlib.Data.Fintype.Basic

/-!
`addTimer` from another thread reads its Timer after the loop has got it. It finds the Timer
that it created as long as the loop does not finish the batch of a Timer that runs once
before the call has read it. Nothing in the code makes the loop wait.
-/
namespace MuduoServer.SharedTimers

open FaultMachine TimerQueue TimerLoop

variable {T : Type} {threadId_ : T} {s s' : SharedTimers T}

theorem Sound.not_returned (h : s.Sound threadId_) {id : ActiveTimer}
    (hid : id ∈ s.returned.map Prod.snd ∨ id = activeTimer 0 0) :
    id.sequence ≤ s.timers.s_numCreated_ ∧ ∀ t, (s.calls t).id? ≠ some id := by
  rcases hid with hin | rfl
  · refine ⟨?_, fun t ht => (h.secret t id ht).2.2 hin⟩
    obtain ⟨r, hr, rfl⟩ := List.mem_map.mp hin
    exact (h.own r hr).2
  · exact ⟨Nat.zero_le _, fun t ht => absurd (h.secret t _ ht).1 (Nat.lt_irrefl 0)⟩

theorem Sound.inTime_reset (h : s.Sound threadId_) (hc : InTime s (.loop .reset)) {t : T}
    {j : ActiveTimer} (hj : (s.calls t).id? = some j) {tm : Timer} {ran cancelled : Bool}
    (hst : s.timers.status j = .expired tm ran cancelled) : tm.repeat_ := by
  have hlives := hc t
  cases hcall : s.calls t with
  | idle =>
    rw [hcall] at hj
    cases hj
  | created id =>
    rw [hcall] at hj
    obtain rfl := Option.some.inj hj
    have hflight := h.awaited id.timer (Or.inl ⟨t, id, hcall, rfl⟩)
    rcases s.timers.placed id with ⟨-, h'⟩ | ⟨-, -, -, h'⟩ | ⟨-, -, hout, -, -⟩ | ⟨-, -, -, -, h'⟩
    · cases hst.symm.trans h'
    · cases hst.symm.trans h'
    · exact absurd hflight hout
    · cases hst.symm.trans h'
  | queued id =>
    rw [hcall] at hj hlives
    obtain rfl := Option.some.inj hj
    simpa only [Outlives, Lasts, hst] using hlives

variable [DecidableEq T]

/-- `EventLoop::runInLoop` of a functor that the queue is ready for. -/
theorem Sound.runInLoop (h : s.Sound threadId_) {t : T} {f : TimerFunctor}
    (huser : t = threadId_ → s.timers.phase.inUserCode)
    (hadd : ∀ addr, f = .addTimerInLoop addr → addr ∈ s.timers.inFlight ∧ ¬ s.Awaits addr)
    (hcancel : ∀ id, f = .cancelInLoop id → id.sequence ≤ s.timers.s_numCreated_ ∧
      ∀ t, (s.calls t).id? ≠ some id) :
    ∃ s', s.runInLoop threadId_ t f = .ok s' ∧ Sound threadId_ s' := by
  unfold SharedTimers.runInLoop
  by_cases ht : t = threadId_
  · obtain ⟨timers, hs, hsound⟩ := h.runs (huser ht) hadd hcancel
    simp only [if_pos ht, hs, ok_bind]
    exact ⟨_, rfl, hsound⟩
  · rw [if_neg ht]
    exact ⟨_, rfl, h.push hadd hcancel⟩

theorem setCall_runInLoop (s : SharedTimers T) (t t' : T) (c : AddCall) (f : TimerFunctor) :
    (s.setCall t' c).runInLoop threadId_ t f =
      (do let s ← s.runInLoop threadId_ t f; pure (s.setCall t' c)) := by
  unfold SharedTimers.runInLoop
  split
  · simp only [setCall]
    cases s.timers.step f.step with
    | ok timers => rfl
    | error e => rfl
  · rfl

omit [DecidableEq T] in
/-- The first functor finds its timer, or a TimerId that was returned. -/
theorem Sound.first (h : s.Sound threadId_) {f : TimerFunctor} {rest : List TimerFunctor}
    (hp : s.pendingFunctors_ = f :: rest) :
    (∀ addr, f = .addTimerInLoop addr →
      addr ∈ s.timers.inFlight ∧ ¬ Awaits { s with pendingFunctors_ := rest } addr) ∧
      ∀ id, f = .cancelInLoop id → id.sequence ≤ s.timers.s_numCreated_ ∧
        ∀ t, (s.calls t).id? ≠ some id := by
  have hdistinct := h.distinct
  rw [hp, List.pairwise_cons] at hdistinct
  have hin : f ∈ s.pendingFunctors_ := by
    rw [hp]
    exact List.mem_cons_self
  refine ⟨?_, ?_⟩
  · intro addr hf
    subst hf
    refine ⟨h.awaited addr (Or.inr hin), ?_⟩
    intro haddr
    rcases haddr with ⟨t, id, hcall, ha⟩ | hrest
    · exact h.waiting t id hcall (ha ▸ hin)
    · exact hdistinct.1 _ hrest addr rfl rfl
  · intro id hf
    subst hf
    exact ⟨h.cancels id hin, fun t ht => (h.secret t id ht).2.1 hin⟩

/-- No step that is enabled and in time faults, and the invariant survives it. -/
theorem Sound.step {a : TimerCallStep T} (h : s.Sound threadId_) (he : Enabled threadId_ s a)
    (hc : InTime s a) : ∃ s', s.step threadId_ a = .ok s' ∧ Sound threadId_ s' := by
  cases a with
  | addTimer t addr when interval =>
    have henabled : s.timers.Enabled (.newTimer addr when interval) := ⟨he.2.1, he.2.2.1⟩
    obtain ⟨timers, hs, -⟩ := h.good.step henabled
    simp only [SharedTimers.step, hs, ok_bind]
    exact ⟨_, rfl, h.create he hs⟩
  | runInLoop t =>
    obtain ⟨id, hcall⟩ := he
    have hqueued := h.queued hcall
    obtain ⟨s', hs, hsound⟩ := hqueued.runInLoop (t := t) (f := .addTimerInLoop id.timer)
      (by
        intro ht
        apply h.user
        rw [← ht, hcall]
        simp)
      (by
        intro addr hf
        obtain rfl := TimerFunctor.addTimerInLoop.inj hf
        exact ⟨h.awaited id.timer (Or.inl ⟨t, id, hcall, rfl⟩), h.not_awaits_queued hcall⟩)
      (fun id' heq => by cases heq)
    rw [setCall_runInLoop] at hs
    refine ⟨s', ?_, hsound⟩
    simp only [SharedTimers.step, hcall]
    exact hs
  | sequence t =>
    obtain ⟨id, hcall⟩ := he
    have hkept := h.kept t id (by rw [hcall]; rfl)
    obtain ⟨tm, htm, hseq⟩ := names_iff.mp (names_of_kept hkept)
    have hderef : s.timers.queue.deref id.timer = .ok tm :=
      deref_eq_ok.mpr htm
    have hid : activeTimer id.timer tm.sequence_ = id := by
      rw [hseq]
      rfl
    simp only [SharedTimers.step, hcall, hderef, ok_bind, hid]
    exact ⟨_, rfl, h.returns hcall⟩
  | cancel t id =>
    obtain ⟨-, hid, huser⟩ := he
    obtain ⟨hseq, hother⟩ := h.not_returned hid
    exact h.runInLoop (t := t) (f := .cancelInLoop id) huser
      (fun addr heq => by cases heq)
      (fun id' heq => by
        obtain rfl := TimerFunctor.cancelInLoop.inj heq
        exact ⟨hseq, hother⟩)
  | runFunctor =>
    obtain ⟨hne, -, hidle⟩ := he
    obtain ⟨f, rest, hp⟩ := List.exists_cons_of_ne_nil hne
    have huser : s.timers.phase.inUserCode := by
      rw [Phase.eq_idle hidle]
      trivial
    obtain ⟨hadd, hcancel⟩ := h.first hp
    obtain ⟨timers, hs, hsound⟩ := (h.pop hp).runs (f := f) huser hadd hcancel
    simp only [SharedTimers.step, hp, hs, ok_bind]
    exact ⟨_, rfl, hsound⟩
  | tick d =>
    obtain ⟨timers, hs, -⟩ := h.good.step (a := .tick d) trivial
    simp only [SharedTimers.step, hs, ok_bind]
    exact ⟨_, rfl, h.move (a := .tick d) trivial hs (by simp) (by simp) h.awaited
      (by simp [movesPhase])⟩
  | loop b =>
    obtain ⟨hown, henabled, hidle⟩ := he
    obtain ⟨timers, hs, -⟩ := h.good.step henabled
    simp only [SharedTimers.step, hs, ok_bind]
    refine ⟨_, rfl, h.move henabled hs ?_ ?_ ?_ (fun _ => hidle)⟩
    · intro t j _ heq
      rw [heq] at hown
      exact hown
    · intro heq t j hj tm ran cancelled hst
      subst heq
      exact h.inTime_reset hc hj hst
    · intro addr haddr
      have hin := h.awaited addr haddr
      cases b with
      | newTimer | addTimerInLoop => exact hown.elim
      | tick | cancelInLoop | handleRead | getExpired | runTimer | reset => exact hin

theorem reachable_sound (h : ((machine threadId_).restrict InTime).Reachable s) :
    s.Sound threadId_ := by
  apply h.invariant
  · intro s hinit
    obtain ⟨clock, -, rfl⟩ := hinit
    exact start_sound clock
  · intro s a s' hsound he hs
    obtain ⟨s₁, hs₁, hnext⟩ := hsound.step he.1 he.2
    obtain rfl := Except.ok.inj (hs₁.symm.trans hs)
    exact hnext

/-- Every call that is about to read its Timer finds it, under the number that it was created
with, and what the calls have returned is what they created. -/
def ReadsOwn (threadId_ : T) (s : SharedTimers T) : Prop :=
  (∀ t, Enabled threadId_ s (.sequence t) → ∃ s', s.step threadId_ (.sequence t) = .ok s') ∧
    ∀ r ∈ s.returned, r.2 = r.1

/-- In a run in which no batch ends too early for a call, every call of `addTimer` reads the
Timer that it created, and no step faults. -/
theorem addTimer_reads_own (h : ((machine threadId_).restrict InTime).Reachable s) :
    ReadsOwn threadId_ s ∧
      (∀ t id, s.calls t = .queued id → ∃ timer, s.timers.queue.heap id.timer = some timer ∧
        timer.sequence_ = id.sequence) ∧
      ∀ a, Enabled threadId_ s a → InTime s a → ∃ s', s.step threadId_ a = .ok s' := by
  have hsound := reachable_sound h
  refine ⟨⟨?_, fun r hr => (hsound.own r hr).1⟩, ?_, ?_⟩
  · intro t he
    obtain ⟨s', hs, -⟩ := hsound.step he trivial
    exact ⟨s', hs⟩
  · intro t id hcall
    exact names_iff.mp (names_of_kept (hsound.kept t id (by rw [hcall]; rfl)))
  · intro a he hc
    obtain ⟨s', hs, -⟩ := hsound.step he hc
    exact ⟨s', hs⟩

instance (c : AddCall) : Decidable (∃ id, c = .created id) :=
  match c with
  | .created id => isTrue ⟨id, rfl⟩
  | .idle | .queued _ => isFalse (by simp)

instance (c : AddCall) : Decidable (∃ id, c = .queued id) :=
  match c with
  | .queued id => isTrue ⟨id, rfl⟩
  | .idle | .created _ => isFalse (by simp)

instance (s : SharedTimers T) (a : TimerCallStep T) : Decidable (Enabled threadId_ s a) := by
  cases a <;> (simp only [Enabled]; infer_instance)

instance (s : SharedTimers T) (a : TimerCallStep T) : Decidable ((machine threadId_).enabled s a) :=
  inferInstanceAs (Decidable (Enabled threadId_ s a))

instance (st : TimerStatus) : Decidable (Lasts st) :=
  match st with
  | .expired t _ _ => inferInstanceAs (Decidable (t.repeat_ = true))
  | .absent | .created _ | .pending _ => instDecidableTrue

instance (timers : TimerLoop) (c : AddCall) : Decidable (Outlives timers c) :=
  match c with
  | .queued id => inferInstanceAs (Decidable (Lasts (timers.status id)))
  | .idle | .created _ => instDecidableTrue

instance [Fintype T] (s : SharedTimers T) (a : TimerCallStep T) : Decidable (InTime s a) :=
  match a with
  | .loop .reset => inferInstanceAs (Decidable (∀ t, Outlives s.timers (s.calls t)))
  | .addTimer _ _ _ _ | .runInLoop _ | .sequence _ | .cancel _ _ | .runFunctor | .tick _
  | .loop (.tick _) | .loop (.newTimer _ _ _) | .loop (.addTimerInLoop _)
  | .loop (.cancelInLoop _) | .loop .handleRead | .loop .getExpired | .loop .runTimer =>
    instDecidableTrue

instance [Fintype T] (s : SharedTimers T) (a : TimerCallStep T) :
    Decidable (((machine threadId_).restrict InTime).enabled s a) :=
  inferInstanceAs (Decidable (Enabled threadId_ s a ∧ InTime s a))

/-- Thread 1 calls `runAt`, and the loop takes the timer, runs it and deletes it, in part
after the call has returned. -/
def readFirst : List (TimerCallStep Bool) :=
  [.runAt true 16 5, .runInLoop true, .runFunctor, .tick 200, .loop .handleRead, .loop .getExpired,
    .loop .runTimer, .sequence true, .loop .reset, .runEvery true 16 201 40, .runInLoop true, .runFunctor]

theorem addTimer_reads_own_sample :
    ∃ s, ((machine false).restrict InTime).Reachable s ∧
      s.returned = [(activeTimer 16 1, activeTimer 16 1)] ∧
      s.calls true = .queued (activeTimer 16 2) ∧
      ∃ timer, s.timers.queue.heap 16 = some timer ∧ timer.sequence_ = 2 := by
  have h : ((((machine false).restrict InTime).execute (start 1) readFirst).map fun s =>
      (s.returned, s.calls true)) =
      some ([(activeTimer 16 1, activeTimer 16 1)], .queued (activeTimer 16 2)) := by
    decide +kernel
  obtain ⟨s, hs, hview⟩ := Option.map_eq_some_iff.mp h
  simp only [Prod.mk.injEq] at hview
  obtain ⟨hreturned, hcall⟩ := hview
  have hreach : ((machine false).restrict InTime).Reachable s :=
    ⟨start 1, readFirst, ⟨1, by decide, rfl⟩, Machine.run_of_execute _ hs⟩
  exact ⟨s, hreach, hreturned, hcall, (addTimer_reads_own hreach).2.1 true _ hcall⟩

/-- The loop deletes the timer before thread 1 reads it. -/
def deleteFirst : List (TimerCallStep Bool) :=
  [.runAt true 16 5, .runInLoop true, .runFunctor, .tick 200, .loop .handleRead, .loop .getExpired,
    .loop .runTimer, .loop .reset]

theorem addTimer_reads_deleted :
    ¬ ∀ s : SharedTimers Bool, (machine false).Reachable s → ReadsOwn false s := by
  intro hall
  have h : ((machine false).execute (start 1) deleteFirst).map (fun s =>
      (decide (Enabled false s (.sequence true)), fault? (s.step false (.sequence true)))) =
      some (true, some .useAfterFree) := by
    decide +kernel
  obtain ⟨s, hs, hview⟩ := Option.map_eq_some_iff.mp h
  simp only [Prod.mk.injEq, decide_eq_true_eq] at hview
  obtain ⟨he, hfault⟩ := hview
  have hreach : (machine false).Reachable s :=
    ⟨start 1, deleteFirst, ⟨1, by decide, rfl⟩, Machine.run_of_execute _ hs⟩
  obtain ⟨s', hs'⟩ := (hall s hreach).1 true he
  rw [fault?_eq_some.mp hfault] at hs'
  cases hs'

end MuduoServer.SharedTimers
