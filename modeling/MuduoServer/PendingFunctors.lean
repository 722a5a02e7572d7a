import MuduoServer.BatchQueue
import MuduoServer.EventLoop

/-!
The functors of a loop leave `pendingFunctors_` in the order in which they
entered. The vector with the part of it that was swapped out is a batch queue,
and each step of the loop is a move of that queue. What enters after the swap of
a call of `doPendingFunctors` waits for the next call, and what entered before a
call has been executed at its end.
-/
namespace MuduoServer

open FaultMachine FaultMachine.Machine

namespace EventLoop
variable {T F : Type}

/-- The pending functors as a batch queue. -/
def queue (s : EventLoop T F) : BatchQueue F := ⟨s.pendingFunctors_, s.pc.batch⟩

def enters : LoopStep T F → List F
  | .push _ f => [f]
  | _ => []

def executes (s : EventLoop T F) : LoopStep T F → List F
  | .runFunctor => (s.pc.batch.getD []).take 1
  | _ => []

/-- What was executed and what waits is what has entered, in this order. -/
def InOrder (s : EventLoop T F) : Prop := s.entered = s.executed ++ s.queue.contents

variable {s s' : EventLoop T F}

theorem InOrder.length (h : s.InOrder) :
    s.executed.length + (s.pc.batch.getD []).length + s.pendingFunctors_.length =
      s.entered.length := by
  rw [h]
  simp [queue, BatchQueue.contents, Nat.add_assoc]

variable [DecidableEq T] {threadId_ : T} {a : LoopStep T F}

theorem Steps.entered (h : Steps threadId_ s a s') : s'.entered = s.entered ++ enters a := by
  cases h <;> simp [enters, EventLoop.setCall]

theorem Steps.executed (h : Steps threadId_ s a s') :
    s'.executed = s.executed ++ s.executes a := by
  cases h with
  | runFunctor hcall hpc => simp [executes, hpc, LoopPc.batch]
  | _ => simp [executes, EventLoop.setCall]

/-- Every step of the loop is a move of the queue or leaves the queue alone. -/
theorem Steps.move (h : Steps threadId_ s a s') :
    BatchQueue.Move s.queue (enters a) (s.executes a) s'.queue ∨
      (enters a = [] ∧ s.executes a = [] ∧ s'.queue = s.queue) := by
  cases h with
  | push hcall huser => exact Or.inl (BatchQueue.Move.push s.queue _)
  | swap hcall hpc =>
    left
    exact BatchQueue.Move.swap s.queue (by simp [queue, hpc, LoopPc.batch])
  | @runFunctor f rest hcall hpc =>
    left
    have hbatch : s.executes .runFunctor = [f] := by simp [executes, hpc, LoopPc.batch]
    rw [hbatch]
    apply BatchQueue.Move.pop
    simp [queue, hpc, LoopPc.batch, BatchQueue.pop?]
  | done hcall hpc =>
    left
    exact BatchQueue.Move.finish s.queue (by simp [queue, hpc, LoopPc.batch])
  | test | wakeup | quit | handleRead => exact Or.inr ⟨rfl, rfl, rfl⟩
  | loop hcall hpc | leave hcall hpc | poll hcall hpc | pollReturn hcall hpc
  | doPendingFunctors hcall hpc =>
    refine Or.inr ⟨rfl, rfl, ?_⟩
    simp [queue, hpc, LoopPc.batch]

theorem InOrder.step (h : s.InOrder) (hs : Steps threadId_ s a s') : s'.InOrder := by
  unfold InOrder
  rw [hs.entered, hs.executed]
  rcases hs.move with hmove | ⟨hin, hout, hsame⟩
  · exact hmove.fifo h
  · rw [hin, hout, hsame, List.append_nil, List.append_nil]
    exact h

/-- Sound states in which the functors are in order. -/
structure Ordered (s : EventLoop T F) : Prop where
  sound : s.Sound
  inOrder : s.InOrder

theorem ordered_step (h : s.Ordered) (he : (machine threadId_).enabled s a)
    (hs : (machine threadId_).step s a = .ok s') : s'.Ordered := by
  have hstep := h.sound.steps he hs
  exact ⟨h.sound.step hstep, h.inOrder.step hstep⟩

theorem ordered_of_reachable (h : (machine threadId_).Reachable s) : s.Ordered := by
  refine h.invariant ?_ (fun _ _ _ => ordered_step)
  intro s₀ h₀
  obtain rfl : s₀ = new := h₀
  exact ⟨sound_new, rfl⟩

omit [DecidableEq T] in
theorem Ordered.executed_le_entered (h : s.Ordered) : s.executed <+: s.entered := by
  rw [h.inOrder]
  exact List.prefix_append _ _

theorem ordered_of_run {as : List (LoopStep T F)} (h : s.Ordered)
    (hr : (machine threadId_).Run s as s') : s'.Ordered :=
  hr.invariant (fun _ _ _ => ordered_step) h

/-- Along a run functors only enter and are only executed. -/
theorem prefix_of_run {as : List (LoopStep T F)} (h : s.Ordered)
    (hr : (machine threadId_).Run s as s') :
    s.entered <+: s'.entered ∧ s.executed <+: s'.executed := by
  refine hr.relates (R := fun s s' => s.entered <+: s'.entered ∧ s.executed <+: s'.executed)
    (fun _ _ _ => ordered_step) ?_ ?_ ?_ h
  · intro t
    exact ⟨List.prefix_refl _, List.prefix_refl _⟩
  · intro t u v htu huv
    exact ⟨htu.1.trans huv.1, htu.2.trans huv.2⟩
  · intro t b t' ht he hs
    have hstep := ht.sound.steps he hs
    rw [hstep.entered, hstep.executed]
    exact ⟨List.prefix_append _ _, List.prefix_append _ _⟩

/-- The steps up to the end of the current call of `doPendingFunctors`. -/
def withinCall (threadId_ : T) : Machine (EventLoop T F) (LoopStep T F) Fault :=
  (machine threadId_).restrict fun _ a => a ≠ .done

/-- The call that is running executes at most the first `n` functors. -/
def AtMost (n : ℕ) (s : EventLoop T F) : Prop :=
  ∃ rest, s.pc = .running rest ∧ s.executed.length + rest.length ≤ n

theorem AtMost.step {n : ℕ} (h : s.AtMost n) (hs : Steps threadId_ s a s') (hne : a ≠ .done) :
    s'.AtMost n := by
  obtain ⟨rest, hpc, hle⟩ := h
  cases hs with
  | push | test | wakeup | quit | handleRead => exact ⟨rest, hpc, hle⟩
  | runFunctor hcall hrun =>
    obtain rfl : rest = _ := LoopPc.running.inj (hpc.symm.trans hrun)
    refine ⟨_, rfl, ?_⟩
    simp only [List.length_append, List.length_cons, List.length_nil] at hle ⊢
    omega
  | done => exact absurd rfl hne
  | loop _ hother | leave _ hother | poll _ hother | pollReturn _ hother
  | doPendingFunctors _ hother | swap _ hother =>
    rw [hpc] at hother
    cases hother

theorem executed_le_of_withinCall {as : List (LoopStep T F)} (h : s.Ordered)
    (hrun : s.pc.isRunning) (hr : (withinCall threadId_).Run s as s') :
    s'.executed.length ≤ s.entered.length := by
  obtain ⟨rest, hpc⟩ := LoopPc.eq_running hrun
  have hlen := h.inOrder.length
  have hstart : s.AtMost s.entered.length := by
    refine ⟨rest, hpc, ?_⟩
    simp only [hpc, LoopPc.batch, Option.getD_some] at hlen
    omega
  have hend : s'.Ordered ∧ s'.AtMost s.entered.length := by
    refine hr.invariant (I := fun t => t.Ordered ∧ t.AtMost s.entered.length) ?_ ⟨h, hstart⟩
    rintro t a t' ⟨hord, hmost⟩ ⟨he, hne⟩ hs
    exact ⟨ordered_step hord he hs, hmost.step (hord.sound.steps he hs) hne⟩
  obtain ⟨-, rest', -, hle⟩ := hend
  omega

/-- The first `n` functors have been executed or will be in the running call. -/
def AtLeast (n : ℕ) (s : EventLoop T F) : Prop :=
  n ≤ s.executed.length ∨ s.pc = .pending ∨
    ∃ rest, s.pc = .running rest ∧ n ≤ s.executed.length + rest.length

theorem AtLeast.step {n : ℕ} (h : s.AtLeast n) (hin : s.InOrder) (hn : n ≤ s.entered.length)
    (hs : Steps threadId_ s a s') : s'.AtLeast n := by
  have hlen := hin.length
  rcases h with hdone | hpend | ⟨rest, hpc, hle⟩
  · left
    rw [hs.executed, List.length_append]
    omega
  · -- the swap takes everything that has entered and was not executed
    cases hs with
    | push | test | wakeup | quit | handleRead => exact Or.inr (Or.inl hpend)
    | swap hcall hpc =>
      refine Or.inr (Or.inr ⟨_, rfl, ?_⟩)
      simp only [hpc, LoopPc.batch, Option.getD_none, List.length_nil] at hlen
      simp only
      omega
    | loop _ hother | leave _ hother | poll _ hother | pollReturn _ hother
    | doPendingFunctors _ hother | runFunctor _ hother | done _ hother =>
      rw [hpend] at hother
      cases hother
  · cases hs with
    | push | test | wakeup | quit | handleRead => exact Or.inr (Or.inr ⟨rest, hpc, hle⟩)
    | runFunctor hcall hrun =>
      obtain rfl : rest = _ := LoopPc.running.inj (hpc.symm.trans hrun)
      refine Or.inr (Or.inr ⟨_, rfl, ?_⟩)
      simp only [List.length_append, List.length_cons, List.length_nil] at hle ⊢
      omega
    | done hcall hrun =>
      left
      obtain rfl : rest = [] := LoopPc.running.inj (hpc.symm.trans hrun)
      simpa using hle
    | loop _ hother | leave _ hother | poll _ hother | pollReturn _ hother
    | doPendingFunctors _ hother | swap _ hother =>
      rw [hpc] at hother
      cases hother

theorem atLeast_of_run {n : ℕ} {as : List (LoopStep T F)} (h : s.Ordered)
    (hn : n ≤ s.entered.length) (hs : s.AtLeast n) (hr : (machine threadId_).Run s as s') :
    s'.AtLeast n := by
  have hend : s'.Ordered ∧ n ≤ s'.entered.length ∧ s'.AtLeast n := by
    refine hr.invariant (I := fun t => t.Ordered ∧ n ≤ t.entered.length ∧ t.AtLeast n) ?_
      ⟨h, hn, hs⟩
    intro t a t' ⟨hord, hnt, hleast⟩ he hstep
    have hmove := hord.sound.steps he hstep
    refine ⟨ordered_step hord he hstep, ?_, hleast.step hord.inOrder hnt hmove⟩
    rw [hmove.entered, List.length_append]
    omega
  exact hend.2.2

/-- A whole call of `doPendingFunctors` executes what had entered before it. -/
theorem entered_prefix_executed {as bs cs : List (LoopStep T F)} (h : s.Ordered)
    (hr : (machine threadId_).Run s (as ++ .doPendingFunctors :: bs ++ .done :: cs) s') :
    s.entered <+: s'.executed := by
  obtain ⟨v, hcall, hrest⟩ := hr.split
  obtain ⟨t, has, hbody⟩ := hcall.split
  obtain ⟨u, hce, hcs, hbs⟩ := hbody.uncons
  obtain ⟨w, hde, hds, hafter⟩ := hrest.uncons
  have ht : t.Ordered := ordered_of_run h has
  have hu : u.Ordered := ordered_step ht hce hcs
  have hv : v.Ordered := ordered_of_run hu hbs
  have hentered : s.entered <+: u.entered :=
    (prefix_of_run h (has.append (Run.cons hce hcs (Run.nil u)))).1
  have hstart : u.AtLeast s.entered.length := by
    cases ht.sound.steps hce hcs
    exact Or.inr (Or.inl rfl)
  have hleast : w.AtLeast s.entered.length :=
    atLeast_of_run hu hentered.length_le hstart (hbs.append (Run.cons hde hds (Run.nil w)))
  have hdone : s.entered.length ≤ w.executed.length := by
    cases hv.sound.steps hde hds
    simpa [AtLeast] using hleast
  have hs' := prefix_of_run (ordered_step hv hde hds) hafter
  apply List.prefix_of_prefix_length_le (prefix_of_run h hr).1 (ordered_of_run h hr).executed_le_entered
  exact Nat.le_trans hdone hs'.2.length_le

/-- Every functor is executed at most once and in the order of entering; what is
queued after the swap of a call waits for a later one; and what was queued before
a call has been executed when the call has ended. -/
theorem functors_in_order (h : (machine threadId_).Reachable s) :
    s.executed <+: s.entered ∧
    (s.pc.isRunning → ∀ as s', (withinCall threadId_).Run s as s' →
      s'.executed.length ≤ s.entered.length) ∧
    ∀ as bs cs s', (machine threadId_).Run s (as ++ .doPendingFunctors :: bs ++ .done :: cs) s' →
      s.entered <+: s'.executed := by
  have hord := ordered_of_reachable h
  refine ⟨hord.executed_le_entered, ?_, ?_⟩
  · intro hrun as s' hr
    exact executed_le_of_withinCall hord hrun hr
  · intro as bs cs s' hr
    exact entered_prefix_executed hord hr

/-- Another thread queues 1 before `loop()`; the functor 1 queues 2 while it runs. -/
def beforeNested : List (LoopStep Bool ℕ) :=
  [.push false 1, .test false, .wakeup false, .loop, .whileTest, .pollReturn, .handleRead,
    .doPendingFunctors, .swap, .runFunctor, .push true 2, .test true, .wakeup true]

/-- The rest of the call and one more round of the loop. -/
def nextRound : List (LoopStep Bool ℕ) :=
  [.done, .whileTest, .pollReturn, .handleRead] ++
    .doPendingFunctors :: [.swap, .runFunctor] ++ .done :: []

theorem functors_in_order_sample :
    ∃ s s' : EventLoop Bool ℕ,
      (machine true).Run new beforeNested s ∧ (machine true).Run s nextRound s' ∧
      s.entered = [1, 2] ∧ s.executed = [1] ∧ s.entered <+: s'.executed := by
  have hview : ((machine true).execute new beforeNested).bind (fun s =>
      ((machine true).execute s nextRound).map fun _ => (s.entered, s.executed)) =
        some ([1, 2], [1]) := by
    decide +kernel
  obtain ⟨s, hs, hnext⟩ := Option.bind_eq_some_iff.mp hview
  obtain ⟨s', hs', hdata⟩ := Option.map_eq_some_iff.mp hnext
  obtain ⟨hentered, hexecuted⟩ := Prod.mk.inj hdata
  have hrun := run_of_execute _ hs
  have hround := run_of_execute _ hs'
  have hall := functors_in_order ⟨new, beforeNested, rfl, hrun⟩
  exact ⟨s, s', hrun, hround, hentered, hexecuted, hall.2.2 _ _ _ _ hround⟩

instance (a : LoopStep T F) : Decidable (a ≠ .done) :=
  match a with
  | .done => isFalse (fun h => h rfl)
  | .push .. | .test _ | .wakeup _ | .quit _ | .loop | .whileTest | .pollReturn | .handleRead
  | .doPendingFunctors | .swap | .runFunctor => isTrue (by simp)

instance (s : EventLoop T F) (a : LoopStep T F) :
    Decidable ((withinCall threadId_).enabled s a) :=
  inferInstanceAs (Decidable (s.Enabled threadId_ a ∧ a ≠ .done))

/-- Another thread queues between the start of a call and its swap. -/
def queuesBeforeSwap : List (LoopStep Bool ℕ) := [.push false 1, .swap, .runFunctor]

/-- What is queued after the start of a call may be executed in the same call. -/
theorem executed_in_same_call :
    ¬ ∀ s : EventLoop Bool ℕ, (machine true).Reachable s → s.callingPendingFunctors_ →
      ∀ as s', (withinCall true).Run s as s' → s'.executed.length ≤ s.entered.length := by
  intro h
  have hview : ((machine true).execute new
      [.loop, .whileTest, .pollReturn, .doPendingFunctors]).bind (fun s =>
      ((withinCall true).execute s queuesBeforeSwap).map fun s' =>
        (s.callingPendingFunctors_, s.entered, s'.executed)) = some (true, [], [1]) := by
    decide +kernel
  obtain ⟨s, hs, hnext⟩ := Option.bind_eq_some_iff.mp hview
  obtain ⟨s', hs', hdata⟩ := Option.map_eq_some_iff.mp hnext
  simp only [Prod.mk.injEq] at hdata
  obtain ⟨hcalling, hentered, hexecuted⟩ := hdata
  have hle := h s ⟨new, _, rfl, run_of_execute _ hs⟩ hcalling _ s' (run_of_execute _ hs')
  simp [hentered, hexecuted] at hle

end EventLoop

end MuduoServer
