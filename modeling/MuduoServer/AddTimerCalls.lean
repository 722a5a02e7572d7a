import MuduoServer.SharedTimers

/-!
The calls of `addTimer` that are still under way. Each has a Timer of its own, which nobody
can cancel because its TimerId is not known yet. So the Timer lives until the end of a batch
deletes it, and when no batch does so too early, every call reads the Timer that it created.
-/
namespace MuduoServer.SharedTimers

open FaultMachine TimerQueue TimerLoop

variable {T : Type}

/-- `addTimerInLoop` of the timer at `addr` is still to come. -/
def Awaits (s : SharedTimers T) (addr : ℕ) : Prop :=
  (∃ t id, s.calls t = .created id ∧ id.timer = addr) ∨
    .addTimerInLoop addr ∈ s.pendingFunctors_

structure Sound (threadId_ : T) (s : SharedTimers T) : Prop where
  good : s.timers.Good
  numbered : s.timers.Numbered
  kept : ∀ t j, (s.calls t).id? = some j → (s.timers.status j).Kept
  apart : ∀ t t' j, (s.calls t).id? = some j → (s.calls t').id? = some j → t = t'
  secret : ∀ t j, (s.calls t).id? = some j → 0 < j.sequence ∧
    .cancelInLoop j ∉ s.pendingFunctors_ ∧ j ∉ s.returned.map Prod.snd
  waiting : ∀ t id, s.calls t = .created id → .addTimerInLoop id.timer ∉ s.pendingFunctors_
  distinct : s.pendingFunctors_.Pairwise fun f g =>
    ∀ addr, f = .addTimerInLoop addr → g ≠ .addTimerInLoop addr
  awaited : ∀ addr, s.Awaits addr → addr ∈ s.timers.inFlight
  cancels : ∀ id, .cancelInLoop id ∈ s.pendingFunctors_ → id.sequence ≤ s.timers.s_numCreated_
  own : ∀ r ∈ s.returned, r.2 = r.1 ∧ r.2.sequence ≤ s.timers.s_numCreated_
  user : s.calls threadId_ ≠ .idle → s.timers.phase.inUserCode

variable {threadId_ : T} {s s' : SharedTimers T} {timers : TimerLoop}

theorem start_sound (clock : ℤ) : (start clock : SharedTimers T).Sound threadId_ where
  good := start_good clock
  numbered := start_numbered clock
  kept t j h := by cases h
  apart t t' j h := by cases h
  secret t j h := by cases h
  waiting t id h := by cases h
  distinct := List.Pairwise.nil
  awaited addr h := by
    rcases h with ⟨t, id, hcall, -⟩ | hin
    · cases hcall
    · cases hin
  cancels id h := by cases h
  own r h := by cases h
  user h := absurd rfl h

/-- Two calls under way have created timers at two addresses. -/
theorem Sound.eq_of_timer_eq (h : s.Sound threadId_) {t t' : T} {j j' : ActiveTimer}
    (hj : (s.calls t).id? = some j) (hj' : (s.calls t').id? = some j')
    (ha : j.timer = j'.timer) : t = t' := by
  by_contra hne
  have hdiff : j ≠ j' := by
    intro heq
    subst heq
    exact hne (h.apart t t' j hj hj')
  have hkept := h.kept t j hj
  rw [status_absent_of_ne (names_of_kept (h.kept t' j' hj')) ha hdiff] at hkept
  exact hkept

/-- A step of the timers that leaves the calls under way their timers. -/
theorem Sound.move (h : s.Sound threadId_) {a : TimerStep} (he : s.timers.Enabled a)
    (hs : s.timers.step a = .ok timers)
    (hcancel : ∀ t j, (s.calls t).id? = some j → a ≠ .cancelInLoop j)
    (hreset : a = .reset → ∀ t j, (s.calls t).id? = some j →
      ∀ tm ran cancelled, s.timers.status j = .expired tm ran cancelled → tm.repeat_)
    (hawaited : ∀ addr, s.Awaits addr → addr ∈ s.timers.flying a)
    (hphase : movesPhase a = true → s.calls threadId_ = .idle) :
    Sound threadId_ { s with timers := timers } := by
  have hframe := step_frame hs
  refine { h with
    good := h.good.of_step he hs
    numbered := h.numbered.step h.good he hs
    kept := ?_
    awaited := ?_
    cancels := fun id hid => (h.cancels id hid).trans hframe.numCreated
    own := fun r hr => ⟨(h.own r hr).1, (h.own r hr).2.trans hframe.numCreated⟩
    user := ?_ }
  · intro t j hj
    exact h.good.keeps he hs (h.kept t j hj) (hcancel t j hj) (fun ha => hreset ha t j hj)
  · intro addr haddr
    simp only [hframe.inFlight]
    exact hawaited addr haddr
  · intro hcall
    cases hmoves : movesPhase a with
    | false =>
      simp only [hframe.phase hmoves]
      exact h.user hcall
    | true => exact absurd (hphase hmoves) hcall

/-- The first functor is taken out of the queue. -/
theorem Sound.pop (h : s.Sound threadId_) {f : TimerFunctor} {rest : List TimerFunctor}
    (hp : s.pendingFunctors_ = f :: rest) :
    Sound threadId_ { s with pendingFunctors_ := rest } := by
  have hsub : ∀ g, g ∈ rest → g ∈ s.pendingFunctors_ := by
    intro g hg
    rw [hp]
    exact List.mem_cons_of_mem _ hg
  have hdistinct := h.distinct
  rw [hp, List.pairwise_cons] at hdistinct
  refine { h with
    secret := ?_
    waiting := fun t id hcall hin => h.waiting t id hcall (hsub _ hin)
    distinct := hdistinct.2
    awaited := ?_
    cancels := fun id hid => h.cancels id (hsub _ hid) }
  · intro t j hj
    obtain ⟨hpos, hout, hret⟩ := h.secret t j hj
    exact ⟨hpos, fun hin => hout (hsub _ hin), hret⟩
  · intro addr haddr
    exact h.awaited addr (haddr.imp_right (hsub _))

/-- A functor enters the queue. -/
theorem Sound.push (h : s.Sound threadId_) {f : TimerFunctor}
    (hadd : ∀ addr, f = .addTimerInLoop addr → addr ∈ s.timers.inFlight ∧ ¬ s.Awaits addr)
    (hcancel : ∀ id, f = .cancelInLoop id → id.sequence ≤ s.timers.s_numCreated_ ∧
      ∀ t, (s.calls t).id? ≠ some id) :
    Sound threadId_ { s with pendingFunctors_ := s.pendingFunctors_ ++ [f] } := by
  have hmem : ∀ g, g ∈ s.pendingFunctors_ ++ [f] → g ∈ s.pendingFunctors_ ∨ f = g := by
    intro g hg
    rcases List.mem_append.mp hg with hold | hnew
    · exact Or.inl hold
    · exact Or.inr (List.mem_singleton.mp hnew).symm
  refine { h with
    secret := ?_
    waiting := ?_
    distinct := ?_
    awaited := ?_
    cancels := ?_ }
  · intro t j hj
    obtain ⟨hpos, hout, hret⟩ := h.secret t j hj
    refine ⟨hpos, ?_, hret⟩
    intro hin
    rcases hmem _ hin with hold | hnew
    · exact hout hold
    · exact (hcancel j hnew).2 t hj
  · intro t id hcall hin
    rcases hmem _ hin with hold | hnew
    · exact h.waiting t id hcall hold
    · exact (hadd id.timer hnew).2 (Or.inl ⟨t, id, hcall, rfl⟩)
  · rw [List.pairwise_append]
    refine ⟨h.distinct, List.pairwise_singleton _ _, ?_⟩
    intro g hg f' hf' addr hgadd
    rw [List.mem_singleton.mp hf']
    intro hf
    exact (hadd addr hf).2 (Or.inr (hgadd ▸ hg))
  · intro addr haddr
    rcases haddr with hcall | hin
    · exact h.awaited addr (Or.inl hcall)
    · rcases hmem _ hin with hold | hnew
      · exact h.awaited addr (Or.inr hold)
      · exact (hadd addr hnew).1
  · intro id hid
    rcases hmem _ hid with hold | hnew
    · exact h.cancels id hold
    · exact (hcancel id hnew).1

/-- The functors of the loop: they find their timers, or a TimerId that was returned. -/
theorem Sound.runs (h : s.Sound threadId_) {f : TimerFunctor} (huser : s.timers.phase.inUserCode)
    (hadd : ∀ addr, f = .addTimerInLoop addr → addr ∈ s.timers.inFlight ∧ ¬ s.Awaits addr)
    (hcancel : ∀ id, f = .cancelInLoop id → id.sequence ≤ s.timers.s_numCreated_ ∧
      ∀ t, (s.calls t).id? ≠ some id) :
    ∃ timers, s.timers.step f.step = .ok timers ∧
      Sound threadId_ { s with timers := timers } := by
  have henabled : s.timers.Enabled f.step := by
    cases f with
    | addTimerInLoop addr => exact ⟨(hadd addr rfl).1, huser⟩
    | cancelInLoop id => exact ⟨(hcancel id rfl).1, huser⟩
  obtain ⟨timers, hs, -⟩ := h.good.step henabled
  refine ⟨timers, hs, h.move henabled hs ?_ ?_ ?_ ?_⟩
  · intro t j hj heq
    cases f with
    | addTimerInLoop addr => cases heq
    | cancelInLoop id =>
      obtain rfl := TimerStep.cancelInLoop.inj heq
      exact (hcancel id rfl).2 t hj
  · intro heq
    cases f <;> cases heq
  · intro a ha
    cases f with
    | addTimerInLoop addr =>
      have hne : a ≠ addr := fun heq => (hadd addr rfl).2 (heq ▸ ha)
      exact (List.mem_erase_of_ne hne).mpr (h.awaited a ha)
    | cancelInLoop id => exact h.awaited a ha
  · intro hmoves
    cases f <;> cases hmoves

variable [DecidableEq T]

@[simp] theorem setCall_self (s : SharedTimers T) (t : T) (c : AddCall) :
    (s.setCall t c).calls t = c := Function.update_self _ _ _

theorem setCall_of_ne (s : SharedTimers T) {t t' : T} (c : AddCall) (hne : t' ≠ t) :
    (s.setCall t c).calls t' = s.calls t' := Function.update_of_ne hne _ _

/-- A call goes on with a Timer that no other call has and that nobody knows. -/
theorem Sound.setCall (h : s.Sound threadId_) {t : T} {c : AddCall}
    (hid : ∀ j, c.id? = some j → (s.timers.status j).Kept ∧
      (0 < j.sequence ∧ .cancelInLoop j ∉ s.pendingFunctors_ ∧ j ∉ s.returned.map Prod.snd) ∧
      ∀ t', t' ≠ t → (s.calls t').id? ≠ some j)
    (hcreated : ∀ id, c = .created id → .addTimerInLoop id.timer ∉ s.pendingFunctors_ ∧
      id.timer ∈ s.timers.inFlight)
    (huser : t = threadId_ → c ≠ .idle → s.timers.phase.inUserCode) :
    Sound threadId_ (s.setCall t c) := by
  refine ⟨h.good, h.numbered, ?_, ?_, ?_, ?_, h.distinct, ?_, h.cancels, h.own, ?_⟩
  · intro t' j hj
    by_cases ht : t' = t
    · rw [ht, setCall_self] at hj
      exact (hid j hj).1
    · rw [setCall_of_ne s c ht] at hj
      exact h.kept t' j hj
  · intro t₁ t₂ j h₁ h₂
    by_cases ht₁ : t₁ = t
    · by_cases ht₂ : t₂ = t
      · rw [ht₁, ht₂]
      · rw [ht₁, setCall_self] at h₁
        rw [setCall_of_ne s c ht₂] at h₂
        exact absurd h₂ ((hid j h₁).2.2 t₂ ht₂)
    · rw [setCall_of_ne s c ht₁] at h₁
      by_cases ht₂ : t₂ = t
      · rw [ht₂, setCall_self] at h₂
        exact absurd h₁ ((hid j h₂).2.2 t₁ ht₁)
      · rw [setCall_of_ne s c ht₂] at h₂
        exact h.apart t₁ t₂ j h₁ h₂
  · intro t' j hj
    by_cases ht : t' = t
    · rw [ht, setCall_self] at hj
      exact (hid j hj).2.1
    · rw [setCall_of_ne s c ht] at hj
      exact h.secret t' j hj
  · intro t' id hc
    by_cases ht : t' = t
    · rw [ht, setCall_self] at hc
      exact (hcreated id hc).1
    · rw [setCall_of_ne s c ht] at hc
      exact h.waiting t' id hc
  · intro addr haddr
    rcases haddr with ⟨t', id, hc, ha⟩ | hin
    · by_cases ht : t' = t
      · rw [ht, setCall_self] at hc
        rw [← ha]
        exact (hcreated id hc).2
      · rw [setCall_of_ne s c ht] at hc
        exact h.awaited addr (Or.inl ⟨t', id, hc, ha⟩)
    · exact h.awaited addr (Or.inr hin)
  · intro hne
    by_cases ht : threadId_ = t
    · rw [ht, setCall_self] at hne
      exact huser ht.symm hne
    · rw [setCall_of_ne s c ht] at hne
      exact h.user hne

/-- The functor of a call has been handed to the loop. -/
theorem Sound.queued (h : s.Sound threadId_) {t : T} {id : ActiveTimer}
    (hcall : s.calls t = .created id) : Sound threadId_ (s.setCall t (.queued id)) := by
  have hid : (s.calls t).id? = some id := by
    rw [hcall]
    rfl
  refine h.setCall ?_ ?_ ?_
  · intro j hj
    obtain rfl := Option.some.inj hj
    exact ⟨h.kept t id hid, h.secret t id hid, fun t' ht hj' => ht (h.apart t' t id hj' hid)⟩
  · intro id' heq
    cases heq
  · intro ht _
    apply h.user
    rw [← ht, hcall]
    simp

/-- After that nothing else brings the timer to `addTimerInLoop`. -/
theorem Sound.not_awaits_queued (h : s.Sound threadId_) {t : T} {id : ActiveTimer}
    (hcall : s.calls t = .created id) : ¬ (s.setCall t (.queued id)).Awaits id.timer := by
  intro haddr
  rcases haddr with ⟨t', id', hc, ha⟩ | hin
  · by_cases ht : t' = t
    · subst ht
      rw [setCall_self] at hc
      cases hc
    · rw [setCall_of_ne s _ ht] at hc
      exact ht (h.eq_of_timer_eq (by rw [hc]; rfl) (by rw [hcall]; rfl) ha)
  · exact h.waiting t id hcall hin

/-- The call returns the TimerId of the Timer that it created. -/
theorem Sound.returns (h : s.Sound threadId_) {t : T} {id : ActiveTimer}
    (hcall : s.calls t = .queued id) :
    Sound threadId_ ({ s with returned := (id, id) :: s.returned }.setCall t .idle) := by
  have hid : (s.calls t).id? = some id := by
    rw [hcall]
    rfl
  have hidle : Sound threadId_ (s.setCall t .idle) :=
    h.setCall (fun j hj => by cases hj) (fun id' heq => by cases heq)
      fun _ hne => absurd rfl hne
  refine { hidle with
    secret := ?_
    own := ?_ }
  · intro t' j hj
    obtain ⟨hpos, hout, hret⟩ := hidle.secret t' j hj
    refine ⟨hpos, hout, ?_⟩
    intro hin
    rcases List.mem_cons.mp hin with heq | hin
    · by_cases ht : t' = t
      · rw [ht, setCall_self] at hj
        cases hj
      · rw [setCall_of_ne _ _ ht] at hj
        exact ht (h.apart t' t j hj (by rw [hid, heq]))
    · exact hret hin
  · intro r hr
    rcases List.mem_cons.mp hr with heq | hin
    · rw [heq]
      exact ⟨rfl, h.numbered.issued (h.kept t id hid)⟩
    · exact h.own r hin

/-- `addTimer` creates a Timer that nobody knows yet. -/
theorem Sound.create (h : s.Sound threadId_) {t : T} {addr : ℕ} {when : ℤ} {interval : Option ℕ}
    (he : Enabled threadId_ s (.addTimer t addr when interval))
    (hs : s.timers.step (.newTimer addr when interval) = .ok timers) :
    Sound threadId_ ({ s with timers := timers }.setCall t
      (.created (activeTimer addr (s.timers.s_numCreated_ + 1)))) := by
  obtain ⟨-, hfree, hlt, huser⟩ := he
  have henabled : s.timers.Enabled (.newTimer addr when interval) := ⟨hfree, hlt⟩
  have hadds := h.good.adds h.numbered henabled hs
  have hframe := step_frame hs
  have hmoved : Sound threadId_ { s with timers := timers } := by
    refine h.move henabled hs (fun _ _ _ => by simp) (by simp) ?_ (by simp [movesPhase])
    intro a ha
    exact List.mem_cons_of_mem _ (h.awaited a ha)
  refine hmoved.setCall ?_ ?_ ?_
  · -- the number is larger than all that a call, a functor or a TimerId has
    intro j hj
    obtain rfl := Option.some.inj hj
    refine ⟨?_, ⟨Nat.succ_pos _, ?_, ?_⟩, ?_⟩
    · simp only [hadds.created.1]
      trivial
    · intro hin
      exact Nat.not_succ_le_self _ (h.cancels _ hin)
    · intro hin
      obtain ⟨r, hr, heq⟩ := List.mem_map.mp hin
      have hle := (h.own r hr).2
      rw [heq] at hle
      exact Nat.not_succ_le_self _ hle
    · intro t' _ hj
      exact Nat.not_succ_le_self _ (h.numbered.issued (h.kept t' _ hj))
  · intro id heq
    obtain rfl := AddCall.created.inj heq
    refine ⟨fun hin => h.good.heap_ne_none (h.awaited addr (Or.inr hin)) hfree, ?_⟩
    simp only [hframe.inFlight]
    exact List.mem_cons_self
  · intro ht _
    simp only [hframe.phase rfl]
    exact huser ht

end MuduoServer.SharedTimers
