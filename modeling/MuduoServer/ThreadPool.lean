import MuduoServer.FaultMachine
import MuduoServer.Monitor
import Mathlib.Algebra.Order.BigOperators.Group.Finset

/-!
`muduo/base/ThreadPool.cc`: workers that take tasks from a queue and execute them until
`stop` clears `running_`. `take` and `run` are one step each, since they hold `mutex_`;
`stop` holds it from the assignment to `notifyAll`, and `runInThread` reads `running_`
without it in between. Tasks are known by their place in the order of the calls of `run`.
-/
namespace MuduoServer

open FaultMachine FaultMachine.Machine Monitor

/-- `boost::function<void ()>`, which may be empty. -/
abbrev Task (F : Type) := Option F

/-- Where a worker is in `runInThread`; `place` counts the tasks taken before. -/
inductive WorkerPc (F : Type)
  | whileTest
  | taking
  | took (task : Task F) (place : ℕ)
  | executing (task : F) (place : ℕ)
  | exited

/-- Where `stop()` is: `flagSet` is before `notifyAll`, `joining i` waits for thread `i`. -/
inductive StopPc
  | notCalled
  | flagSet
  | joining (i : ℕ)
  deriving DecidableEq

/-- A started pool of `n + 1` threads. -/
structure ThreadPool (F : Type) (n : ℕ) where
  queue_ : List (Task F)
  running_ : Bool
  cond_ : Condition (Fin (n + 1))
  worker : Fin (n + 1) → WorkerPc F
  stopper : StopPc
  queued : List (Task F)
  taken : List (Fin (n + 1) × Task F)
  executed : List (Fin (n + 1) × ℕ)

inductive PoolStep (F : Type) (n : ℕ)
  | run (task : Task F) (notified : Option (Fin (n + 1)))
  | whileTest (i : Fin (n + 1))
  | take (i : Fin (n + 1))
  | wake (i : Fin (n + 1))
  | execute (i : Fin (n + 1))
  | finish (i : Fin (n + 1))
  | stop
  | notifyAll
  | join

namespace ThreadPool
variable {F : Type} {n : ℕ}

def start : ThreadPool F n :=
  { queue_ := []
    running_ := true
    cond_ := .new
    worker := fun _ => .whileTest
    stopper := .notCalled
    queued := []
    taken := []
    executed := [] }

/-- `mutex_` is held between the steps of `stop` only. -/
def enabled (s : ThreadPool F n) : PoolStep F n → Prop
  | .run _ w => s.stopper ≠ .flagSet ∧ s.cond_.Notifies w
  | .whileTest i => s.worker i = .whileTest
  | .take i => s.stopper ≠ .flagSet ∧ s.worker i = .taking ∧ i ∈ s.cond_.ready
  | .wake i => i ∈ s.cond_.waiting
  | .execute i => ∃ task place, s.worker i = .took task place
  | .finish i => ∃ task place, s.worker i = .executing task place
  | .stop => s.stopper = .notCalled
  | .notifyAll => s.stopper = .flagSet
  | .join => ∃ i : Fin (n + 1), s.stopper = .joining i ∧ s.worker i = .exited

def setWorker (s : ThreadPool F n) (i : Fin (n + 1)) (pc : WorkerPc F) : ThreadPool F n :=
  { s with worker := Function.update s.worker i pc }

/-- `take()` behind its loop. -/
def popTask (s : ThreadPool F n) (i : Fin (n + 1)) : ThreadPool F n :=
  let s := { s with cond_ := s.cond_.leave i }
  match s.queue_ with
  | [] => s.setWorker i (.took none s.taken.length)
  | task :: rest =>
      { s.setWorker i (.took task s.taken.length) with
        queue_ := rest
        taken := s.taken ++ [(i, task)] }

def next (s : ThreadPool F n) : PoolStep F n → ThreadPool F n
  | .run task w => { s with
      queue_ := s.queue_ ++ [task]
      cond_ := s.cond_.notify w
      queued := s.queued ++ [task] }
  | .whileTest i =>
      if s.running_ then { s.setWorker i .taking with cond_ := s.cond_.resume i }
      else s.setWorker i .exited
  | .take i =>
      if s.queue_.isEmpty && s.running_ then { s with cond_ := s.cond_.wait i }
      else s.popTask i
  | .wake i => { s with cond_ := s.cond_.resume i }
  | .execute i =>
      match s.worker i with
      | .took (some task) place =>
          { s.setWorker i (.executing task place) with executed := s.executed ++ [(i, place)] }
      | _ => s.setWorker i .whileTest
  | .finish i => s.setWorker i .whileTest
  | .stop => { s with running_ := false, stopper := .flagSet }
  | .notifyAll => { s with cond_ := s.cond_.notifyAll, stopper := .joining 0 }
  | .join =>
      match s.stopper with
      | .joining i => { s with stopper := .joining (i + 1) }
      | _ => s

/-- Calls of `run` from any threads, the workers, and one call of `stop`. -/
def machine : Machine (ThreadPool F n) (PoolStep F n) Empty where
  init s := s = start
  enabled := enabled
  step s a := .ok (s.next a)

variable {s s' : ThreadPool F n} {a : PoolStep F n}

theorem step_eq (hs : (machine (F := F) (n := n)).step s a = .ok s') : s.next a = s' := by
  simpa [machine] using hs

/-- A task that a worker holds is the one at its place and is not executed yet. -/
def Holds (s : ThreadPool F n) (i : Fin (n + 1)) : WorkerPc F → Prop
  | .took (some task) place =>
      s.taken[place]? = some (i, some task) ∧ ∀ x ∈ s.executed, x.2 ≠ place
  | _ => True

structure Good (s : ThreadPool F n) : Prop where
  inTake : s.cond_.Tracks s.worker (· = .taking)
  covers : s.cond_.Covers s.queue_.length
  fifo : s.queued = s.taken.map Prod.snd ++ s.queue_
  holds : ∀ i, s.Holds i (s.worker i)
  executed : ∀ x ∈ s.executed, ∃ task, s.taken[x.2]? = some (x.1, some task)
  once : (s.executed.map Prod.snd).Nodup
  flag : s.running_ = true ↔ s.stopper = .notCalled
  notified : ∀ k, s.stopper = .joining k → s.cond_.waiting = ∅
  joined : ∀ k, s.stopper = .joining k → ∀ i : Fin (n + 1), i.val < k → s.worker i = .exited
  joining_le : ∀ k, s.stopper = .joining k → k ≤ n + 1

theorem good_start : (start : ThreadPool F n).Good where
  inTake _ := by simp [start]
  covers := Condition.covers_new
  fifo := rfl
  holds _ := trivial
  executed := by simp [start]
  once := List.nodup_nil
  flag := by simp [start]
  notified := by simp [start]
  joined := by simp [start]
  joining_le := by simp [start]

theorem Good.joined_update {i : Fin (n + 1)} {pc : WorkerPc F} (h : s.Good)
    (hi : s.worker i ≠ .exited) {k : ℕ} (hk : s.stopper = .joining k) (j : Fin (n + 1))
    (hj : j.val < k) : Function.update s.worker i pc j = .exited := by
  have hexited := h.joined k hk j hj
  have hne : j ≠ i := fun hji => hi (hji ▸ hexited)
  simpa [hne] using hexited

theorem Good.holds_update {i : Fin (n + 1)} {pc : WorkerPc F} (h : s.Good)
    (hpc : s.Holds i pc) (j : Fin (n + 1)) : s.Holds j (Function.update s.worker i pc j) := by
  by_cases hj : j = i
  · subst hj
    simpa using hpc
  · simpa [hj] using h.holds j

/-- A worker outside `take()` that holds no task moves on. -/
theorem Good.setWorker {i : Fin (n + 1)} {pc : WorkerPc F} (h : s.Good)
    (hi : s.worker i ≠ .taking) (hexited : s.worker i ≠ .exited) (hpc : pc ≠ .taking)
    (hholds : s.Holds i pc) : (s.setWorker i pc).Good :=
  { h with
    inTake := h.inTake.frame hi hpc
    holds := h.holds_update hholds
    joined := fun _ hk => h.joined_update hexited hk }

theorem Holds.append {i : Fin (n + 1)} {pc : WorkerPc F} (h : s.Holds i pc) (queue : List (Task F))
    (x : Fin (n + 1) × Task F) :
    Holds { s with queue_ := queue, taken := s.taken ++ [x] } i pc := by
  cases pc with
  | took task place =>
    cases task with
    | none => trivial
    | some task =>
      obtain ⟨hplace, hnot⟩ := h
      obtain ⟨hlt, -⟩ := List.getElem?_eq_some_iff.mp hplace
      refine ⟨?_, hnot⟩
      change (s.taken ++ [x])[place]? = _
      rwa [List.getElem?_append_left hlt]
  | whileTest | taking | executing | exited => trivial

theorem Good.popTask {i : Fin (n + 1)} (h : s.Good) (htaking : s.worker i = .taking)
    (hready : i ∈ s.cond_.ready) : (s.popTask i).Good := by
  have hexited : s.worker i ≠ .exited := by simp [htaking]
  have hwaiting : ∀ k, s.stopper = .joining k → (s.cond_.leave i).waiting = ∅ := h.notified
  cases hqueue : s.queue_ with
  | nil =>
    simp only [ThreadPool.popTask, hqueue]
    refine { h with
      inTake := h.inTake.leave hready (by simp)
      covers := Condition.covers_zero
      fifo := by simp [ThreadPool.setWorker, h.fifo, hqueue]
      holds := h.holds_update trivial
      notified := hwaiting
      joined := fun _ hk => h.joined_update hexited hk }
  | cons task rest =>
    have hcovers := h.covers
    rw [hqueue] at hcovers
    simp only [ThreadPool.popTask, hqueue]
    refine { h with
      inTake := h.inTake.leave hready (by simp)
      covers := hcovers.leave hready
      fifo := by simp [ThreadPool.setWorker, h.fifo, hqueue]
      holds := ?_
      executed := ?_
      notified := hwaiting
      joined := fun _ hk => h.joined_update hexited hk }
    · intro j
      by_cases hj : j = i
      · subst hj
        simp only [ThreadPool.setWorker, Function.update_self]
        cases task with
        | none => trivial
        | some task =>
          refine ⟨List.getElem?_concat_length, fun x hx => ?_⟩
          obtain ⟨f, hf⟩ := h.executed x hx
          exact Nat.ne_of_lt (List.getElem?_eq_some_iff.mp hf).1
      · simp only [ThreadPool.setWorker, Function.update_of_ne hj]
        exact (h.holds j).append rest (i, task)
    · intro x hx
      obtain ⟨f, hf⟩ := h.executed x hx
      obtain ⟨hlt, -⟩ := List.getElem?_eq_some_iff.mp hf
      exact ⟨f, (List.getElem?_append_left hlt).trans hf⟩

/-- A worker begins to execute the task it holds. -/
theorem Good.execute {i : Fin (n + 1)} {task : F} {place : ℕ} (h : s.Good)
    (hpc : s.worker i = .took (some task) place) :
    ({ s.setWorker i (.executing task place) with
        executed := s.executed ++ [(i, place)] } : ThreadPool F n).Good := by
  have hi : s.Holds i (s.worker i) := h.holds i
  rw [hpc] at hi
  obtain ⟨hplace, hnot⟩ := hi
  refine { h with
    inTake := h.inTake.frame (by simp [hpc]) (by simp)
    holds := fun j => ?_
    executed := ?_
    once := ?_
    joined := fun _ hk => h.joined_update (by simp [hpc]) hk }
  · by_cases hj : j = i
    · subst hj
      simp [ThreadPool.setWorker, Holds]
    · simp only [ThreadPool.setWorker, Function.update_of_ne hj]
      have hold := h.holds j
      cases hworker : s.worker j with
      | took task' place' =>
        cases task' with
        | none => trivial
        | some task' =>
          rw [hworker] at hold
          obtain ⟨hplace', hnot'⟩ := hold
          refine ⟨hplace', fun x hx => ?_⟩
          rcases List.mem_append.mp hx with hx | hx
          · exact hnot' x hx
          · obtain rfl := List.mem_singleton.mp hx
            rintro rfl
            rw [hplace] at hplace'
            simp only [Option.some.injEq, Prod.mk.injEq] at hplace'
            exact hj hplace'.1.symm
      | whileTest | taking | executing | exited => trivial
  · intro x hx
    rcases List.mem_append.mp hx with hx | hx
    · exact h.executed x hx
    · obtain rfl := List.mem_singleton.mp hx
      exact ⟨task, hplace⟩
  · rw [List.map_append, List.nodup_append]
    refine ⟨h.once, List.nodup_singleton _, ?_⟩
    intro p hp q hq
    obtain ⟨x, hx, rfl⟩ := List.mem_map.mp hp
    obtain rfl := List.mem_singleton.mp hq
    exact hnot x hx

theorem Good.step (h : s.Good) (he : s.enabled a) : (s.next a).Good := by
  cases a with
  | run task w =>
    obtain ⟨-, hw⟩ := he
    refine { h with
      inTake := h.inTake.notify hw
      covers := ?_
      fifo := by simp [next, h.fifo]
      notified := ?_ }
    · change (s.cond_.notify w).Covers (s.queue_ ++ [task]).length
      rw [List.length_append]
      exact h.covers.notify hw
    · intro k hk
      have hnone := h.notified k hk
      cases w with
      | none => exact hnone
      | some i => simp [Condition.Notifies, hnone] at hw
  | whileTest i =>
    have hpc : s.worker i = .whileTest := he
    simp only [next]
    split
    · rename_i hrunning
      refine { h with
        inTake := h.inTake.enter rfl
        covers := h.covers.resume
        holds := h.holds_update trivial
        notified := fun k hk => ?_
        joined := fun _ hk => h.joined_update (by simp [hpc]) hk }
      have hstop := h.flag.mp hrunning
      cases hstop.symm.trans hk
    · exact h.setWorker (by simp [hpc]) (by simp [hpc]) (by simp) trivial
  | take i =>
    obtain ⟨-, hpc, hready⟩ := he
    simp only [next]
    split
    · rename_i hempty
      simp only [Bool.and_eq_true, List.isEmpty_iff] at hempty
      refine { h with
        inTake := h.inTake.wait hpc
        covers := ?_
        notified := fun k hk => ?_ }
      · change (s.cond_.wait i).Covers s.queue_.length
        rw [hempty.1]
        exact Condition.covers_zero
      · have hstop := h.flag.mp hempty.2
        cases hstop.symm.trans hk
    · exact h.popTask hpc hready
  | wake i =>
    have hwaiting : i ∈ s.cond_.waiting := he
    refine { h with
      inTake := h.inTake.resume ((h.inTake i).mp (Or.inr he))
      covers := h.covers.resume
      notified := fun k hk => ?_ }
    simp [h.notified k hk] at hwaiting
  | execute i =>
    obtain ⟨task, place, hpc⟩ := he
    cases task with
    | none =>
      simp only [next, hpc]
      exact h.setWorker (by simp [hpc]) (by simp [hpc]) (by simp) trivial
    | some task =>
      simp only [next, hpc]
      exact h.execute hpc
  | finish i =>
    obtain ⟨task, place, hpc⟩ := he
    exact h.setWorker (by simp [hpc]) (by simp [hpc]) (by simp) trivial
  | stop =>
    exact { h with
      flag := by simp [next]
      notified := by simp [next]
      joined := by simp [next]
      joining_le := by simp [next] }
  | notifyAll =>
    have hstop : s.stopper = .flagSet := he
    exact { h with
      inTake := fun i => Condition.inside_notifyAll.trans (h.inTake i)
      covers := Condition.covers_notifyAll
      flag := by simp [next, h.flag, hstop]
      notified := fun _ _ => rfl
      joined := by simp [next]
      joining_le := by simp [next] }
  | join =>
    obtain ⟨i, hstop, hexited⟩ := he
    simp only [next, hstop]
    refine { h with
      flag := by simp [h.flag, hstop]
      notified := fun _ _ => h.notified i hstop
      joined := ?_
      joining_le := ?_ }
    · intro k hk j hj
      simp only [StopPc.joining.injEq] at hk
      rcases Nat.lt_succ_iff_lt_or_eq.mp (hk ▸ hj) with hlt | heq
      · exact h.joined i hstop j hlt
      · rw [Fin.ext heq]
        exact hexited
    · intro k hk
      simp only [StopPc.joining.injEq] at hk
      omega

theorem Good.of_reachable (hs : (machine (F := F) (n := n)).Reachable s) : s.Good := by
  refine hs.invariant ?_ fun s a s' h he hs => ?_
  · rintro _ rfl
    exact good_start
  · rw [← step_eq hs]
    exact h.step he

end ThreadPool

end MuduoServer
