import MuduoServer.TimerLedger

/-!
`TimerQueue::addTimer` from any thread. The call creates its Timer, hands it to the loop with
`runInLoop`, and then reads the Timer once more for the TimerId. In the loop thread
`addTimerInLoop` runs at once; from another thread it is queued, and the loop may have
expired the Timer and deleted it before the caller reads it.
-/
namespace MuduoServer

open FaultMachine TimerQueue

/-- Where a thread is in `addTimer`, with the Timer that it has created. -/
inductive AddCall
  | idle
  | created (id : ActiveTimer)
  | queued (id : ActiveTimer)
  deriving DecidableEq

namespace AddCall

def id? : AddCall → Option ActiveTimer
  | .idle => none
  | .created id | .queued id => some id

end AddCall

inductive TimerFunctor
  | addTimerInLoop (addr : ℕ)
  | cancelInLoop (id : ActiveTimer)
  deriving DecidableEq

namespace TimerFunctor

def step : TimerFunctor → TimerStep
  | .addTimerInLoop addr => .addTimerInLoop addr
  | .cancelInLoop id => .cancelInLoop id

end TimerFunctor

/-- `returned` has, for each finished call, the Timer that it created and the TimerId that it
returned. -/
structure SharedTimers (T : Type) where
  timers : TimerLoop
  pendingFunctors_ : List TimerFunctor
  calls : T → AddCall
  returned : List (ActiveTimer × ActiveTimer)

inductive TimerCallStep (T : Type)
  | addTimer (t : T) (addr : ℕ) (when : ℤ) (interval : Option ℕ)
  | runInLoop (t : T)
  | sequence (t : T)
  | cancel (t : T) (id : ActiveTimer)
  | runFunctor
  | tick (d : ℕ)
  | loop (a : TimerStep)

namespace TimerCallStep
variable {T : Type}

def runAt (t : T) (addr : ℕ) (time : ℤ) : TimerCallStep T := .addTimer t addr time none

def runAfter (t : T) (addr : ℕ) (now : ℤ) (delay : ℕ) : TimerCallStep T :=
  runAt t addr (now + delay)

def runEvery (t : T) (addr : ℕ) (now : ℤ) (interval : ℕ) : TimerCallStep T :=
  .addTimer t addr (now + interval) (if 0 < interval then some interval else none)

end TimerCallStep

namespace SharedTimers
variable {T : Type}

def start (clock : ℤ) : SharedTimers T :=
  { timers := TimerLoop.start clock
    pendingFunctors_ := []
    calls := fun _ => .idle
    returned := [] }

/-- The steps of `handleRead`. -/
def Own : TimerStep → Prop
  | .handleRead | .getExpired | .runTimer | .reset => True
  | .tick _ | .newTimer _ _ _ | .addTimerInLoop _ | .cancelInLoop _ => False

instance (a : TimerStep) : Decidable (Own a) :=
  match a with
  | .handleRead | .getExpired | .runTimer | .reset => instDecidableTrue
  | .tick _ | .newTimer _ _ _ | .addTimerInLoop _ | .cancelInLoop _ => instDecidableFalse

variable [DecidableEq T] (threadId_ : T)

/-- The loop thread calls `addTimer` and `cancel` from user code and does nothing else during
a call. A TimerId comes from `addTimer` or is the default one. -/
def Enabled (s : SharedTimers T) : TimerCallStep T → Prop
  | .addTimer t addr _ _ => s.calls t = .idle ∧ s.timers.queue.heap addr = none ∧
      addr < UINTPTR_MAX ∧ (t = threadId_ → s.timers.phase.inUserCode)
  | .runInLoop t => ∃ id, s.calls t = .created id
  | .sequence t => ∃ id, s.calls t = .queued id
  | .cancel t id => s.calls t = .idle ∧ (id ∈ s.returned.map Prod.snd ∨ id = activeTimer 0 0) ∧
      (t = threadId_ → s.timers.phase.inUserCode)
  | .runFunctor => s.pendingFunctors_ ≠ [] ∧ s.calls threadId_ = .idle ∧ s.timers.phase.isIdle
  | .tick _ => True
  | .loop a => Own a ∧ s.timers.Enabled a ∧ s.calls threadId_ = .idle

def setCall (s : SharedTimers T) (t : T) (c : AddCall) : SharedTimers T :=
  { s with calls := Function.update s.calls t c }

/-- `TimerQueue::addTimerInLoop` or `cancelInLoop` through `EventLoop::runInLoop`. -/
def runInLoop (s : SharedTimers T) (t : T) (f : TimerFunctor) : Except Fault (SharedTimers T) :=
  if t = threadId_ then do
    let timers ← s.timers.step f.step
    pure { s with timers := timers }
  else pure { s with pendingFunctors_ := s.pendingFunctors_ ++ [f] }

def step (s : SharedTimers T) : TimerCallStep T → Except Fault (SharedTimers T)
  | .addTimer t addr when interval => do
      let timers ← s.timers.step (.newTimer addr when interval)
      pure ({ s with timers := timers }.setCall t
        (.created (activeTimer addr (s.timers.s_numCreated_ + 1))))
  | .runInLoop t =>
      match s.calls t with
      | .created id => do
          let s ← s.runInLoop threadId_ t (.addTimerInLoop id.timer)
          pure (s.setCall t (.queued id))
      | .idle | .queued _ => pure s
  | .sequence t =>
      match s.calls t with
      | .queued id => do
          let timer ← s.timers.queue.deref id.timer
          pure ({ s with
            returned := (id, activeTimer id.timer timer.sequence_) :: s.returned }.setCall t .idle)
      | .idle | .created _ => pure s
  | .cancel t id => s.runInLoop threadId_ t (.cancelInLoop id)
  | .runFunctor =>
      match s.pendingFunctors_ with
      | [] => pure s
      | f :: rest => do
          let timers ← s.timers.step f.step
          pure { s with timers := timers, pendingFunctors_ := rest }
  | .tick d => do
      let timers ← s.timers.step (.tick d)
      pure { s with timers := timers }
  | .loop a => do
      let timers ← s.timers.step a
      pure { s with timers := timers }

def machine : Machine (SharedTimers T) (TimerCallStep T) Fault where
  init s := ∃ clock, 0 < clock ∧ s = start clock
  enabled := Enabled threadId_
  step := step threadId_

/-- The end of the batch does not delete the timer. -/
def Lasts : TimerStatus → Prop
  | .expired t _ _ => t.repeat_
  | .absent | .created _ | .pending _ => True

/-- The call has read its timer, or the end of the batch does not delete it. -/
def Outlives (timers : TimerLoop) : AddCall → Prop
  | .queued id => Lasts (timers.status id)
  | .idle | .created _ => True

def InTime (s : SharedTimers T) : TimerCallStep T → Prop
  | .loop .reset => ∀ t, Outlives s.timers (s.calls t)
  | _ => True

end SharedTimers

namespace TimerStatus

/-- The timer lives, and nobody has asked for its end. -/
def Kept : TimerStatus → Prop
  | .absent | .expired _ _ true => False
  | .created _ | .pending _ | .expired _ _ false => True

theorem Kept.next {st : TimerStatus} {n : TimerNotice} (h : st.Kept) (hcancel : n ≠ .cancel)
    (hfinish : ∀ now t ran cancelled, n = .finish now → st = .expired t ran cancelled →
      t.repeat_) : (st.next n).Kept := by
  cases st with
  | absent => exact h.elim
  | created t => cases n <;> trivial
  | pending t =>
    cases n with
    | cancel => exact absurd rfl hcancel
    | expire now =>
      simp only [TimerStatus.next]
      split
      · trivial
      · trivial
    | nothing | create | add | run | finish => trivial
  | expired t ran cancelled =>
    cases cancelled with
    | true => exact h.elim
    | false =>
      cases n with
      | cancel => exact absurd rfl hcancel
      | finish now =>
        have hrepeat := hfinish now t ran false rfl rfl
        simp only [TimerStatus.next, hrepeat, Bool.false_eq_true, not_false_eq_true, and_self,
          if_true]
        trivial
      | nothing | create | add | expire | run => trivial

end TimerStatus

namespace TimerLoop
variable {s s' : TimerLoop} {j : ActiveTimer}

theorem Good.keeps {a : TimerStep} (h : s.Good) (he : s.Enabled a) (hs : s.step a = .ok s')
    (hkept : (s.status j).Kept) (hcancel : a ≠ .cancelInLoop j)
    (hreset : a = .reset → ∀ t ran cancelled, s.status j = .expired t ran cancelled → t.repeat_) :
    (s'.status j).Kept := by
  have hmeans := s.means j a
  rw [(h.heeds he hs j).status]
  generalize s.notice j a = n at hmeans
  apply hkept.next
  · intro hn
    subst hn
    cases hmeans
    exact hcancel rfl
  · intro now t ran cancelled hn hst
    subst hn
    cases hmeans
    exact hreset rfl t ran cancelled hst

theorem names_of_kept (h : (s.status j).Kept) : Names s.queue j := by
  by_contra hout
  rw [status_absent hout] at h
  exact h

theorem Numbered.issued (hn : s.Numbered) (h : (s.status j).Kept) :
    j.sequence ≤ s.s_numCreated_ := by
  by_contra hlt
  rw [(hn j (not_le.mp hlt)).1] at h
  exact h

theorem Good.heap_ne_none (h : s.Good) {addr : ℕ} (ha : addr ∈ s.inFlight) :
    s.queue.heap addr ≠ none := by
  obtain ⟨t, ht, -⟩ := h.owned.alive addr (List.mem_append_right _ ha)
  simp [ht]

end TimerLoop

end MuduoServer
