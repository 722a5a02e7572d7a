import MuduoServer.EventLoop
import Mathlib.Data.Fintype.Basic

/-!
The wakeup of `queueInLoop` is skipped when the loop's own thread calls it and no
functor is running. That is right in an event callback, which the swap follows
before the next poll, but not before `loop()`, where a poll comes first. Between
`handleRead` and the swap functors may wait without a wakeup; everywhere else a
waiting functor has one, on its way or in the eventfd.
-/
namespace MuduoServer

open FaultMachine FaultMachine.Machine

namespace EventLoop
variable {T F : Type}

/-- Thread `t` is in a call of `queueInLoop` that will write the eventfd. -/
def WillWrite (threadId_ : T) (s : EventLoop T F) (t : T) : Prop :=
  s.calls t = .waking ∨ (s.calls t = .pushed ∧ (t ≠ threadId_ ∨ s.callingPendingFunctors_))

def Awake (threadId_ : T) (s : EventLoop T F) : Prop :=
  0 < s.wakeupFd_ ∨ ∃ t, s.WillWrite threadId_ t

/-- Outside `loop()` the loop's own thread queues just when the loop is awake. -/
def QueuesAwake (threadId_ : T) (s : EventLoop T F) : LoopStep T F → Prop
  | .push t _ => t = threadId_ → s.pc.isOutside → s.Awake threadId_
  | _ => True

/-- From the swap on to the next `handleRead` a pending functor keeps the loop awake. -/
def Wakes (threadId_ : T) (s : EventLoop T F) : Prop :=
  s.pc.isHandling = false → s.pc.isPending = false → s.pendingFunctors_ ≠ [] →
    s.Awake threadId_

variable {threadId_ : T} {s s' : EventLoop T F}

theorem Awake.mono (h : s.Awake threadId_) (hfd : 0 < s.wakeupFd_ → 0 < s'.wakeupFd_)
    (hcalls : ∀ t, s.WillWrite threadId_ t → s'.Awake threadId_) : s'.Awake threadId_ := by
  rcases h with hpos | ⟨t, ht⟩
  · exact Or.inl (hfd hpos)
  · exact hcalls t ht

/-- A move of the loop itself, made while its thread is in no call. -/
theorem Awake.frame (h : s.Awake threadId_) (hidle : s.calls threadId_ = .idle)
    (hfd : s'.wakeupFd_ = s.wakeupFd_) (hcalls : s'.calls = s.calls) : s'.Awake threadId_ := by
  apply h.mono
  · intro hpos
    rwa [hfd]
  · intro t ht
    refine Or.inr ⟨t, ?_⟩
    rcases ht with hwaking | ⟨hpushed, -⟩
    · exact Or.inl (by rwa [hcalls])
    · refine Or.inr ⟨by rwa [hcalls], Or.inl ?_⟩
      intro heq
      rw [heq, hidle] at hpushed
      exact QueueCall.noConfusion hpushed

theorem writeEventfd_pos (n : ℕ) : 0 < writeEventfd n := by
  unfold writeEventfd
  split <;> omega

variable [DecidableEq T]

/-- A call of one thread leaves what the other threads will write. -/
theorem WillWrite.setCall {t u : T} (h : s.WillWrite threadId_ u) (hne : u ≠ t)
    (c : QueueCall) : (s.setCall t c).WillWrite threadId_ u := by
  unfold WillWrite EventLoop.setCall at *
  simpa [Function.update_of_ne hne] using h

/-- Beginning a call while no other call of the thread is in progress. -/
theorem Awake.setCall {t : T} (h : s.Awake threadId_) (hidle : ¬ s.WillWrite threadId_ t)
    (c : QueueCall) : (s.setCall t c).Awake threadId_ := by
  apply h.mono
  · intro hpos
    exact hpos
  · intro u hu
    refine Or.inr ⟨u, hu.setCall ?_ c⟩
    rintro rfl
    exact hidle hu

omit [DecidableEq T] in
theorem not_willWrite_of_idle {t : T} (h : s.calls t = .idle) : ¬ s.WillWrite threadId_ t := by
  simp [WillWrite, h]

theorem Awake.test {t : T} (h : s.Awake threadId_) (hcall : s.calls t = .pushed) :
    (s.setCall t (if t ≠ threadId_ ∨ s.callingPendingFunctors_ then .waking
      else .idle)).Awake threadId_ := by
  by_cases hneeds : t ≠ threadId_ ∨ s.callingPendingFunctors_
  · refine Or.inr ⟨t, Or.inl ?_⟩
    rw [if_pos hneeds]
    simp [EventLoop.setCall]
  · apply h.setCall
    simp [WillWrite, hcall, hneeds]

/-- A call of `queueInLoop` leaves the loop awake, except from an event callback of
the loop's own thread. -/
theorem Sound.wakes_push (hsound : s.Sound) {t : T} {f : F}
    (hcall : s.calls t = .idle) (huser : t = threadId_ → s.pc.inUserCode)
    (hawake : t = threadId_ → s.pc.isOutside → s.Awake threadId_) :
    ({ s with
        pendingFunctors_ := s.pendingFunctors_ ++ [f]
        entered := s.entered ++ [f] }.setCall t .pushed).Wakes threadId_ := by
  intro hhandling hpending _
  by_cases ht : t = threadId_
  · have hplace : s.pc.isOutside ∨ s.pc.isRunning := by
      have hin := huser ht
      revert hin hhandling
      cases s.pc <;>
        simp [LoopPc.inUserCode, LoopPc.isOutside, LoopPc.isRunning, LoopPc.isHandling,
          EventLoop.setCall]
    rcases hplace with hout | hrun
    · have hidle : ¬ s.WillWrite threadId_ t := not_willWrite_of_idle hcall
      exact Awake.setCall (s := { s with
        pendingFunctors_ := s.pendingFunctors_ ++ [f]
        entered := s.entered ++ [f] }) (hawake ht hout) hidle .pushed
    · refine Or.inr ⟨t, Or.inr ⟨?_, Or.inr ?_⟩⟩
      · simp [EventLoop.setCall]
      · simp [EventLoop.setCall, hsound.calling, hrun]
  · refine Or.inr ⟨t, Or.inr ⟨?_, Or.inl ht⟩⟩
    simp [EventLoop.setCall]

theorem Wakes.step {a : LoopStep T F} (h : s.Wakes threadId_) (hsound : s.Sound)
    (hs : Steps threadId_ s a s') (hc : s.QueuesAwake threadId_ a) : s'.Wakes threadId_ := by
  cases hs with
  | push hcall huser => exact hsound.wakes_push hcall huser hc
  | test hcall =>
    intro hhandling hpending hne
    exact (h hhandling hpending hne).test hcall
  | wakeup hcall => exact fun _ _ _ => Or.inl (writeEventfd_pos _)
  | quit hcall c =>
    intro hhandling hpending hne
    have hawake := h hhandling hpending hne
    exact Awake.setCall (s := { s with quit_ := true }) hawake (not_willWrite_of_idle hcall) c
  | loop hcall hpc | leave hcall hpc | poll hcall hpc =>
    intro _ _ hne
    have hawake := h (by simp [hpc, LoopPc.isHandling]) (by simp [hpc, LoopPc.isPending]) hne
    exact hawake.frame hcall rfl rfl
  | pollReturn hcall hpc => exact fun hhandling _ _ => by simp [LoopPc.isHandling] at hhandling
  | handleRead hcall hpc =>
    exact fun hhandling _ _ => by simp [LoopPc.isHandling, hpc] at hhandling
  | doPendingFunctors hcall hpc =>
    exact fun _ hpending _ => by simp [LoopPc.isPending] at hpending
  | swap hcall hpc => exact fun _ _ hne => absurd rfl hne
  | runFunctor hcall hpc | done hcall hpc =>
    intro _ _ hne
    have hawake := h (by simp [hpc, LoopPc.isHandling]) (by simp [hpc, LoopPc.isPending]) hne
    exact hawake.frame hcall rfl rfl

theorem wakes_of_reachable
    (h : ((machine threadId_).restrict (QueuesAwake threadId_)).Reachable s) :
    s.Sound ∧ s.Wakes threadId_ := by
  refine h.invariant (I := fun s => s.Sound ∧ s.Wakes threadId_) ?_ ?_
  · intro s₀ h₀
    obtain rfl : s₀ = new := h₀
    exact ⟨sound_new, fun _ _ hne => absurd rfl hne⟩
  · intro s a s' ⟨hsound, hwakes⟩ ⟨he, hc⟩ hs
    have hstep := hsound.steps he hs
    exact ⟨hsound.step hstep, hwakes.step hsound hstep hc⟩

/-- A loop about to block in `poll` with functors pending is awake. -/
theorem awake_of_polling
    (h : ((machine threadId_).restrict (QueuesAwake threadId_)).Reachable s)
    (hpc : s.pc = .polling) (hpending : s.pendingFunctors_ ≠ []) : s.Awake threadId_ := by
  obtain ⟨-, hwakes⟩ := wakes_of_reachable h
  apply hwakes
  · simp [hpc, LoopPc.isHandling]
  · simp [hpc, LoopPc.isPending]
  · exact hpending

/-- A call of the loop's own thread before `loop()` that finds the loop not awake
leaves it so until the first poll. -/
theorem sleeps_after_push (hsound : s.Sound) (hidle : s.calls threadId_ = .idle)
    (hpc : s.pc = .outside) (hnot : ¬ s.Awake threadId_) (f : F) :
    ∃ s', (machine threadId_).Run s [.push threadId_ f, .test threadId_, .loop, .whileTest] s' ∧
      s'.pc = .polling ∧ s'.pendingFunctors_ ≠ [] ∧ ¬ s'.Awake threadId_ := by
  have hlooping : s.looping_ = false := by simp [hsound.looping, hpc, LoopPc.isOutside]
  have hcalling : s.callingPendingFunctors_ = false := by
    simp [hsound.calling, hpc, LoopPc.isPending, LoopPc.isRunning]
  refine ⟨{ s with
    looping_ := true
    quit_ := false
    pc := .polling
    pendingFunctors_ := s.pendingFunctors_ ++ [f]
    entered := s.entered ++ [f] }, ?_, rfl, by simp, ?_⟩
  · have hsame : Function.update s.calls threadId_ QueueCall.idle = s.calls := by
      rw [← hidle, Function.update_eq_self]
    apply Run.cons
    · exact ⟨hidle, fun _ => by simp [hpc, LoopPc.inUserCode]⟩
    · rfl
    apply Run.cons
    · simp [machine, Enabled, EventLoop.setCall]
    · rfl
    apply Run.cons
    · simp [machine, Enabled, EventLoop.setCall, hcalling, hpc, LoopPc.inUserCode]
    · simp [machine, EventLoop.step, EventLoop.setCall, hlooping]
      rfl
    apply Run.cons
    · simp [machine, Enabled, hcalling, LoopPc.isWhileTest]
    · simp [machine, EventLoop.step, hcalling, hsame]
      rfl
    rw [hcalling]
    exact Run.nil _
  · intro hawake
    exact hnot (hawake.frame hidle rfl rfl)

instance [Fintype T] (s : EventLoop T F) : Decidable (s.Awake threadId_) := by
  unfold Awake WillWrite
  infer_instance

instance [Fintype T] (s : EventLoop T F) (a : LoopStep T F) :
    Decidable (s.QueuesAwake threadId_ a) :=
  match a with
  | .push _ _ => inferInstanceAs (Decidable (_ → _ → _))
  | .test _ | .wakeup _ | .quit _ | .loop | .whileTest | .pollReturn | .handleRead
  | .doPendingFunctors | .swap | .runFunctor | .done => instDecidableTrue

instance [Fintype T] (s : EventLoop T F) (a : LoopStep T F) :
    Decidable (((machine threadId_).restrict (QueuesAwake threadId_)).enabled s a) :=
  inferInstanceAs (Decidable (s.Enabled threadId_ a ∧ s.QueuesAwake threadId_ a))

/-- Another thread queues before `loop()`, and the functor queues one more. -/
def queuesTwice : List (LoopStep Bool ℕ) :=
  [.push false 1, .test false, .wakeup false, .loop, .whileTest, .pollReturn, .handleRead,
    .doPendingFunctors, .swap, .runFunctor, .push true 2, .test true, .wakeup true, .done,
    .whileTest]

theorem awake_of_polling_sample :
    ∃ s : EventLoop Bool ℕ,
      ((machine true).restrict (QueuesAwake true)).Run new queuesTwice s ∧
      s.pendingFunctors_ = [2] ∧ s.Awake true := by
  have hview : (((machine true).restrict (QueuesAwake true)).execute new queuesTwice).map
      (fun s => (s.pc.isPolling, s.pendingFunctors_)) = some (true, [2]) := by
    decide +kernel
  obtain ⟨s, hs, hdata⟩ := Option.map_eq_some_iff.mp hview
  obtain ⟨hpc, hpending⟩ := Prod.mk.inj hdata
  have hrun := run_of_execute _ hs
  refine ⟨s, hrun, hpending, ?_⟩
  apply awake_of_polling ⟨new, queuesTwice, rfl, hrun⟩ (LoopPc.eq_polling hpc)
  simp [hpending]

/-- Without the condition the loop may sleep on a functor. -/
theorem sleeps_on_pending :
    ¬ ∀ s : EventLoop Bool ℕ, (machine true).Reachable s → s.pc = .polling →
      s.pendingFunctors_ ≠ [] → s.Awake true := by
  intro h
  have hnot : ¬ (new : EventLoop Bool ℕ).Awake true := by decide
  obtain ⟨s, hrun, hpc, hpending, hasleep⟩ := sleeps_after_push sound_new rfl rfl hnot 1
  exact hasleep (h s ⟨new, _, rfl, hrun⟩ hpc hpending)

end EventLoop

end MuduoServer
