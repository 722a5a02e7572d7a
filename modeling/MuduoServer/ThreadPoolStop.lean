import MuduoServer.ThreadPool

/-!
What a stopped pool does. Once `running_` is false no worker begins to wait, so each one
takes and begins at most one more task; with every step of a worker or of `stop` the pool
gets nearer to the return of `stop`, and until then such a step is there to be taken.
-/
namespace MuduoServer

open FaultMachine FaultMachine.Machine Monitor

namespace WorkerPc
variable {F : Type}

/-- How many tasks the worker may still take when it does not enter `take()` again. -/
def toTake : WorkerPc F → ℕ
  | .taking => 1
  | .whileTest | .took _ _ | .executing _ _ | .exited => 0

def toBegin : WorkerPc F → ℕ
  | .taking | .took _ _ => 1
  | .whileTest | .executing _ _ | .exited => 0

/-- The steps to the end of the loop. -/
def toGo : WorkerPc F → ℕ
  | .taking => 4
  | .took _ _ => 3
  | .executing _ _ => 2
  | .whileTest => 1
  | .exited => 0

end WorkerPc

namespace ThreadPool
variable {F : Type} {n : ℕ} {s s' t : ThreadPool F n} {a : PoolStep F n} {i : Fin (n + 1)}
  {pc : WorkerPc F}

def takes (s : ThreadPool F n) (i : Fin (n + 1)) : ℕ :=
  s.taken.countP (·.1 = i)

def begun (s : ThreadPool F n) (i : Fin (n + 1)) : ℕ :=
  s.executed.countP (·.1 = i)

/-- What a pool that was told to stop does not do. -/
structure Winds (s s' : ThreadPool F n) : Prop where
  waiting : s'.cond_.waiting ⊆ s.cond_.waiting
  takes : ∀ i, s'.takes i + (s'.worker i).toTake ≤ s.takes i + (s.worker i).toTake
  begun : ∀ i, s'.begun i + (s'.worker i).toBegin ≤ s.begun i + (s.worker i).toBegin

theorem Winds.refl (s : ThreadPool F n) : s.Winds s :=
  ⟨Finset.Subset.refl _, fun _ => le_refl _, fun _ => le_refl _⟩

theorem Winds.trans (h : s.Winds s') (h' : s'.Winds t) : s.Winds t :=
  ⟨h'.waiting.trans h.waiting, fun i => (h'.takes i).trans (h.takes i),
    fun i => (h'.begun i).trans (h.begun i)⟩

theorem winds_setWorker (htake : pc.toTake ≤ (s.worker i).toTake)
    (hbegin : pc.toBegin ≤ (s.worker i).toBegin) : s.Winds (s.setWorker i pc) := by
  refine ⟨Finset.Subset.refl _, fun j => ?_, fun j => ?_⟩
  · by_cases hj : j = i
    · subst hj
      simpa [setWorker, ThreadPool.takes] using htake
    · simp [setWorker, ThreadPool.takes, hj]
  · by_cases hj : j = i
    · subst hj
      simpa [setWorker, ThreadPool.begun] using hbegin
    · simp [setWorker, ThreadPool.begun, hj]

theorem winds_popTask (hpc : s.worker i = .taking) : s.Winds (s.popTask i) := by
  cases hqueue : s.queue_ with
  | nil =>
    simp only [popTask, hqueue]
    let t : ThreadPool F n := { s with cond_ := s.cond_.leave i, queue_ := [] }
    have h : t.Winds (t.setWorker i (.took none s.taken.length)) :=
      winds_setWorker (by simp [WorkerPc.toTake]) (by simp [t, hpc, WorkerPc.toBegin])
    exact ⟨h.waiting, h.takes, h.begun⟩
  | cons task rest =>
    simp only [popTask, hqueue]
    refine ⟨Finset.Subset.refl _, fun j => ?_, fun j => ?_⟩
    · by_cases hj : j = i
      · subst hj
        simp [setWorker, ThreadPool.takes, hpc, WorkerPc.toTake]
      · have hne : ¬ i = j := fun h => hj h.symm
        simp [setWorker, ThreadPool.takes, hj, hne]
    · by_cases hj : j = i
      · subst hj
        simp [setWorker, ThreadPool.begun, hpc, WorkerPc.toBegin]
      · simp [setWorker, ThreadPool.begun, hj]

theorem winds_step (hrunning : s.running_ = false) (he : s.enabled a) : s.Winds (s.next a) := by
  cases a with
  | run task w =>
    refine ⟨?_, fun _ => le_refl _, fun _ => le_refl _⟩
    cases w with
    | none => exact Finset.Subset.refl _
    | some i => exact Finset.erase_subset i _
  | whileTest i =>
    simp only [next, hrunning]
    exact winds_setWorker (Nat.zero_le _) (Nat.zero_le _)
  | take i =>
    simp only [next, hrunning, Bool.and_false]
    exact winds_popTask he.2.1
  | wake i => exact ⟨Finset.erase_subset i _, fun _ => le_refl _, fun _ => le_refl _⟩
  | execute i =>
    obtain ⟨task, place, hpc⟩ := he
    cases task with
    | none =>
      simp only [next, hpc]
      exact winds_setWorker (Nat.zero_le _) (Nat.zero_le _)
    | some task =>
      simp only [next, hpc]
      refine ⟨Finset.Subset.refl _, fun j => ?_, fun j => ?_⟩
      · by_cases hj : j = i
        · subst hj
          simp [setWorker, ThreadPool.takes, hpc, WorkerPc.toTake]
        · simp [setWorker, ThreadPool.takes, hj]
      · by_cases hj : j = i
        · subst hj
          simp [setWorker, ThreadPool.begun, hpc, WorkerPc.toBegin]
        · have hne : ¬ i = j := fun h => hj h.symm
          simp [setWorker, ThreadPool.begun, hj, hne]
  | finish i => exact winds_setWorker (Nat.zero_le _) (Nat.zero_le _)
  | stop => exact ⟨Finset.Subset.refl _, fun _ => le_refl _, fun _ => le_refl _⟩
  | notifyAll => exact ⟨Finset.empty_subset _, fun _ => le_refl _, fun _ => le_refl _⟩
  | join =>
    obtain ⟨i, hstop, -⟩ := he
    simp only [next, hstop]
    exact ⟨Finset.Subset.refl _, fun _ => le_refl _, fun _ => le_refl _⟩

/-- `running_` is never set again. -/
theorem running_step (hrunning : s.running_ = false) : (s.next a).running_ = false := by
  cases a with
  | run | wake | finish | notifyAll => exact hrunning
  | whileTest i => simp [next, hrunning, setWorker]
  | take i =>
    simp only [next, hrunning, Bool.and_false]
    cases hqueue : s.queue_ <;> simp [popTask, hqueue, setWorker, hrunning]
  | execute i =>
    simp only [next]
    split <;> exact hrunning
  | stop => rfl
  | join =>
    simp only [next]
    split <;> exact hrunning

theorem winds_run (hrunning : s.running_ = false) {as : List (PoolStep F n)}
    (hr : machine.Run s as s') : s.Winds s' := by
  refine hr.relates (I := fun s => s.running_ = false) ?_ Winds.refl (fun _ _ _ => Winds.trans) ?_
    hrunning
  · intro s a s' h _ hs
    rw [← step_eq hs]
    exact running_step h
  · intro s a s' h he hs
    rw [← step_eq hs]
    exact winds_step h he

/-- The steps of the workers and of `stop`, as opposed to calls of `run` and wakeups. -/
def Moves : PoolStep F n → Bool
  | .whileTest _ | .take _ | .execute _ | .finish _ | .stop | .notifyAll | .join => true
  | .run _ _ | .wake _ => false

/-- `stop()` has joined all threads. -/
def Returned (s : ThreadPool F n) : Prop :=
  s.stopper = .joining (n + 1)

def stopToGo (n : ℕ) : StopPc → ℕ
  | .notCalled => n + 3
  | .flagSet => n + 2
  | .joining i => n + 1 - i

def toGo (s : ThreadPool F n) : ℕ :=
  ∑ i, (s.worker i).toGo + stopToGo n s.stopper

theorem toGo_update_lt (hlt : pc.toGo < (s.worker i).toGo) :
    ∑ j, (Function.update s.worker i pc j).toGo < ∑ j, (s.worker j).toGo := by
  refine Finset.sum_lt_sum (fun j _ => ?_) ⟨i, Finset.mem_univ i, by simpa using hlt⟩
  by_cases hj : j = i
  · subst hj
    simpa using hlt.le
  · simp [hj]

theorem toGo_setWorker_lt (hlt : pc.toGo < (s.worker i).toGo) :
    (s.setWorker i pc).toGo < s.toGo :=
  Nat.add_lt_add_right (toGo_update_lt hlt) _

theorem toGo_popTask_lt (hpc : s.worker i = .taking) : (s.popTask i).toGo < s.toGo := by
  have hlt : ∀ task place, (WorkerPc.took (F := F) task place).toGo < (s.worker i).toGo := by
    simp [hpc, WorkerPc.toGo]
  cases hqueue : s.queue_ with
  | nil =>
    simp only [popTask, hqueue]
    exact Nat.add_lt_add_right (toGo_update_lt (hlt _ _)) _
  | cons task rest =>
    simp only [popTask, hqueue]
    exact Nat.add_lt_add_right (toGo_update_lt (hlt _ _)) _

/-- A stopped pool gets nearer to its end with each step of a worker or of `stop`. -/
theorem toGo_lt (hrunning : s.running_ = false) (hflag : s.stopper ≠ .notCalled)
    (he : s.enabled a) (ha : Moves a) : (s.next a).toGo < s.toGo := by
  cases a with
  | run | wake => cases ha
  | whileTest i =>
    have hpc : s.worker i = .whileTest := he
    simp only [next, hrunning]
    exact toGo_setWorker_lt (by simp [hpc, WorkerPc.toGo])
  | take i =>
    simp only [next, hrunning, Bool.and_false]
    exact toGo_popTask_lt he.2.1
  | execute i =>
    obtain ⟨task, place, hpc⟩ := he
    cases task with
    | none =>
      simp only [next, hpc]
      exact toGo_setWorker_lt (by simp [hpc, WorkerPc.toGo])
    | some task =>
      simp only [next, hpc]
      exact Nat.add_lt_add_right (toGo_update_lt (by simp [hpc, WorkerPc.toGo])) _
  | finish i =>
    obtain ⟨task, place, hpc⟩ := he
    exact toGo_setWorker_lt (by simp [hpc, WorkerPc.toGo])
  | stop => exact absurd he hflag
  | notifyAll =>
    have hstop : s.stopper = .flagSet := he
    have hlt : stopToGo n (.joining 0) < stopToGo n s.stopper := by simp [stopToGo, hstop]
    exact Nat.add_lt_add_left hlt _
  | join =>
    obtain ⟨i, hstop, -⟩ := he
    simp only [next, hstop]
    have hlt : stopToGo n (.joining (i.val + 1)) < stopToGo n s.stopper := by
      have hi := i.isLt
      simp only [stopToGo, hstop]
      omega
    exact Nat.add_lt_add_left hlt _

theorem toGo_eq (ha : ¬ Moves a) : (s.next a).toGo = s.toGo := by
  cases a with
  | run | wake => rfl
  | whileTest | take | execute | finish | stop | notifyAll | join => exact absurd rfl ha

/-- Until `stop` has returned a worker or `stop` itself can take a step. -/
theorem Good.exists_moves (h : s.Good) (hflag : s.stopper ≠ .notCalled) (hnot : ¬ s.Returned) :
    ∃ a, Moves a ∧ s.enabled a := by
  cases hstop : s.stopper with
  | notCalled => exact absurd hstop hflag
  | flagSet => exact ⟨.notifyAll, rfl, hstop⟩
  | joining k =>
    have hk : k < n + 1 := by
      have hle := h.joining_le k hstop
      have hne : k ≠ n + 1 := fun heq => hnot (by rw [Returned, hstop, heq])
      omega
    cases hworker : s.worker ⟨k, hk⟩ with
    | whileTest => exact ⟨.whileTest ⟨k, hk⟩, rfl, hworker⟩
    | taking =>
      have hready := Condition.ready_of_inside ((h.inTake ⟨k, hk⟩).mpr hworker) (h.notified k hstop)
      exact ⟨.take ⟨k, hk⟩, rfl, by simp [hstop], hworker, hready⟩
    | took task place => exact ⟨.execute ⟨k, hk⟩, rfl, task, place, hworker⟩
    | executing task place => exact ⟨.finish ⟨k, hk⟩, rfl, task, place, hworker⟩
    | exited => exact ⟨.join, rfl, ⟨k, hk⟩, hstop, hworker⟩

/-- What is promised once the flag is set: no worker begins to wait, each takes and begins
at most one more task, the pool is never stuck, and `stop` returns, with all workers out
of their loops, if the workers and `stop` go on as long as they can. -/
structure Stops (s : ThreadPool F n) : Prop where
  waits : ∀ as s', machine.Run s as s' → s'.cond_.waiting ⊆ s.cond_.waiting
  takes : ∀ as s', machine.Run s as s' → ∀ i, s'.takes i ≤ s.takes i + 1
  begun : ∀ as s', machine.Run s as s' → ∀ i, s'.begun i ≤ s.begun i + 1
  goesOn : ∀ as s', machine.Run s as s' → ¬ s'.Returned → ∃ a, Moves a ∧ s'.enabled a
  returns : ∀ states labels, machine.Executes states labels → states 0 = s →
    (∀ m, ∃ m', m ≤ m' ∧ ((states m').Returned ∨ ∃ a ∈ labels m', Moves a)) →
    ∃ m, (states m).Returned ∧ ∀ i, (states m).worker i = .exited

/-- What holds in every state: no task is executed twice, the tasks are taken in the order of
the calls of `run`, and while the pool runs a queued task finds a worker that does not wait. -/
structure Safe (s : ThreadPool F n) : Prop where
  once : (s.executed.map Prod.snd).Nodup
  executed : ∀ x ∈ s.executed, ∃ task, s.queued[x.2]? = some (some task)
  fifo : s.queued = s.taken.map Prod.snd ++ s.queue_
  wakeup : s.running_ = true → s.queue_ ≠ [] → ∃ i, i ∉ s.cond_.waiting

theorem Good.safe (h : s.Good) : s.Safe where
  once := h.once
  executed x hx := by
    obtain ⟨task, hplace⟩ := h.executed x hx
    obtain ⟨hlt, heq⟩ := List.getElem?_eq_some_iff.mp hplace
    refine ⟨task, ?_⟩
    rw [h.fifo, List.getElem?_append_left (by simpa using hlt)]
    simp [heq, hlt]
  fifo := h.fifo
  wakeup _ hqueue := by
    rcases s.cond_.waiting.eq_empty_or_nonempty with hnone | hsome
    · exact ⟨0, by simp [hnone]⟩
    · obtain ⟨i, hi⟩ := h.covers.exists_ready hsome (List.length_pos_iff.mpr hqueue)
      exact ⟨i, Finset.disjoint_left.mp s.cond_.disjoint hi⟩

/-- The pool was told to stop. -/
def Stopped (s : ThreadPool F n) : Prop :=
  s.Good ∧ s.running_ = false

theorem Stopped.flag (h : s.Stopped) : s.stopper ≠ .notCalled := by
  intro hstop
  have hrunning := h.1.flag.mpr hstop
  simp [h.2] at hrunning

theorem Stopped.step (h : s.Stopped) (he : machine.enabled s a)
    (hs : machine.step s a = .ok s') : s'.Stopped := by
  rw [← step_eq hs]
  exact ⟨h.1.step he, running_step h.2⟩

theorem Stopped.stops (h : s.Stopped) : s.Stops where
  waits _ _ hr := (winds_run h.2 hr).waiting
  takes _ s' hr i := by
    have htakes := (winds_run h.2 hr).takes i
    have hone : (s.worker i).toTake ≤ 1 := by
      cases s.worker i <;> simp [WorkerPc.toTake]
    omega
  begun _ s' hr i := by
    have hbegun := (winds_run h.2 hr).begun i
    have hone : (s.worker i).toBegin ≤ 1 := by
      cases s.worker i <;> simp [WorkerPc.toBegin]
    omega
  goesOn _ _ hr hnot := by
    have hstopped := hr.invariant (fun _ _ _ => Stopped.step) h
    exact hstopped.1.exists_moves hstopped.flag hnot
  returns states labels hexec h0 hfair := by
    have hall : ∀ m, (states m).Stopped := fun m =>
      hexec.invariant (fun _ _ _ => Stopped.step) (Nat.zero_le m) (h0 ▸ h)
    obtain ⟨m, hm⟩ := hexec.eventually (G := Returned) (μ := toGo)
      Nat.lt_wfRel.wf (fun _ _ _ => Stopped.step)
      (fun s a s' hI _ he hs ha => step_eq hs ▸ toGo_lt hI.2 hI.flag he ha)
      (fun s a s' _ _ _ hs ha => step_eq hs ▸ toGo_eq ha) (hall 0) hfair
    exact ⟨m, hm, fun i => (hall m).1.joined _ hm i i.isLt⟩

/-- In every reachable state of a pool, with any number of workers and any calls of `run`
and `stop`. -/
theorem thread_pool_safe (hs : machine.Reachable s) :
    s.Safe ∧ (s.running_ = false → s.Stops) := by
  have hgood := Good.of_reachable hs
  exact ⟨hgood.safe, fun hrunning => Stopped.stops ⟨hgood, hrunning⟩⟩

/-- Two workers, one of which has taken a task when `stop` sets the flag. -/
def stopWhileTaken : List (PoolStep Unit 1) :=
  [.run (some ()) none, .whileTest 0, .take 0, .stop]

theorem thread_pool_safe_stopWhileTaken :
    (stopWhileTaken.foldl next start).queue_ = [] ∧ (stopWhileTaken.foldl next start).Stops := by
  have hr : machine.Run start stopWhileTaken (stopWhileTaken.foldl next start) := by
    refine Run.cons ⟨by decide, rfl⟩ rfl (Run.cons rfl rfl (Run.cons ⟨by decide, rfl, ?_⟩ rfl
      (Run.cons rfl rfl (Run.nil _))))
    decide
  exact ⟨rfl, (thread_pool_safe ⟨start, _, rfl, hr⟩).2 rfl⟩

end ThreadPool

end MuduoServer
