import MuduoServer.FaultMachine
import MuduoServer.OrderedSet
import Mathlib.Data.Prod.Lex
import Mathlib.Algebra.Order.Ring.Int

/-!
The timers of `muduo/net/TimerQueue.cc` and `Timer.cc`. Timer objects live in a
heap by address; every access is checked, so a use after `delete` is a fault.
`handleRead` is taken apart where callbacks run and where the clock may move. A
timestamp is its number of microseconds, without the bounds of `int64_t`, and
one clock serves `Timestamp::now` and the timerfd.
-/
namespace MuduoServer

open FaultMachine

/-- `interval_` is `none` when the interval is not positive, and otherwise the
microseconds that `addTime` adds for it. -/
structure Timer where
  expiration_ : ℤ
  interval_ : Option ℕ
  sequence_ : ℕ
  deriving DecidableEq

namespace Timer

def repeat_ (t : Timer) : Bool := t.interval_.isSome

def restart (t : Timer) (now : ℤ) : Timer :=
  match t.interval_ with
  | some delta => { t with expiration_ := now + delta }
  | none => { t with expiration_ := 0 }

end Timer

abbrev Entry := ℤ ×ₗ ℕ

def entry (w : ℤ) (a : ℕ) : Entry := toLex (w, a)

namespace Entry

def when (e : Entry) : ℤ := (ofLex e).1

def timer (e : Entry) : ℕ := (ofLex e).2

end Entry

/-- Also a `TimerId`: an address and a sequence number. -/
abbrev ActiveTimer := ℕ ×ₗ ℕ

def activeTimer (a n : ℕ) : ActiveTimer := toLex (a, n)

namespace ActiveTimer

def timer (i : ActiveTimer) : ℕ := (ofLex i).1

def sequence (i : ActiveTimer) : ℕ := (ofLex i).2

end ActiveTimer

/-- `timerfd` is the time at which the timerfd expires, or `none` when it is not
armed; `lastArmed` is the time of the last `resetTimerfd`. -/
structure TimerQueue where
  timers_ : OrderedSet Entry
  activeTimers_ : OrderedSet ActiveTimer
  callingExpiredTimers_ : Bool
  cancelingTimers_ : OrderedSet ActiveTimer
  heap : ℕ → Option Timer
  timerfd : Option ℤ
  lastArmed : ℤ

namespace TimerQueue

inductive Fault
  | sizesDiffer
  | entryPresent
  | activePresent
  | notErased
  | endNotLater
  | notActive
  | useAfterFree
  | doubleFree
  deriving DecidableEq

def UINTPTR_MAX : ℕ := 2 ^ 64 - 1

def kMicroSecondsPerSecond : ℤ := 1000 * 1000

def empty : TimerQueue :=
  { timers_ := OrderedSet.empty
    activeTimers_ := OrderedSet.empty
    callingExpiredTimers_ := false
    cancelingTimers_ := OrderedSet.empty
    heap := fun _ => none
    timerfd := none
    lastArmed := 0 }

def deref (q : TimerQueue) (a : ℕ) : Except Fault Timer :=
  match q.heap a with
  | some t => .ok t
  | none => .error .useAfterFree

theorem deref_eq_ok {q : TimerQueue} {a : ℕ} {t : Timer} :
    q.deref a = .ok t ↔ q.heap a = some t := by
  unfold deref
  cases q.heap a with
  | none => simp
  | some t' => simp

def store (q : TimerQueue) (a : ℕ) (t : Option Timer) : TimerQueue :=
  { q with heap := Function.update q.heap a t }

def delete (q : TimerQueue) (a : ℕ) : Except Fault TimerQueue := do
  check (q.heap a ≠ none) .doubleFree
  pure (q.store a none)

structure TimeSpec where
  tv_sec : ℤ
  tv_nsec : ℤ

def howMuchTimeFromNow (when now : ℤ) : TimeSpec :=
  let microseconds := if when - now < 100 then 100 else when - now
  { tv_sec := microseconds / kMicroSecondsPerSecond
    tv_nsec := (microseconds % kMicroSecondsPerSecond) * 1000 }

/-- One reading of the clock serves `howMuchTimeFromNow` and `timerfd_settime`. -/
def resetTimerfd (q : TimerQueue) (expiration clock : ℤ) : TimerQueue :=
  let ts := howMuchTimeFromNow expiration clock
  { q with
    timerfd := some (clock + ts.tv_sec * kMicroSecondsPerSecond + ts.tv_nsec / 1000)
    lastArmed := clock }

def readable (q : TimerQueue) (clock : ℤ) : Prop := ∃ d ∈ q.timerfd, d ≤ clock

instance (q : TimerQueue) (clock : ℤ) : Decidable (q.readable clock) :=
  inferInstanceAs (Decidable (∃ d ∈ q.timerfd, d ≤ clock))

def readTimerfd (q : TimerQueue) (clock : ℤ) : TimerQueue :=
  if q.readable clock then { q with timerfd := none } else q

def insert (q : TimerQueue) (timer : ℕ) : Except Fault (Bool × TimerQueue) := do
  check (q.timers_.size = q.activeTimers_.size) .sizesDiffer
  let t ← q.deref timer
  let when := t.expiration_
  let earliestChanged :=
    match q.timers_.begin? with
    | none => true
    | some it => decide (when < it.when)
  let result := q.timers_.insert (entry when timer)
  check result.2 .entryPresent
  let active := q.activeTimers_.insert (activeTimer timer t.sequence_)
  check active.2 .activePresent
  let q := { q with timers_ := result.1, activeTimers_ := active.1 }
  check (q.timers_.size = q.activeTimers_.size) .sizesDiffer
  pure (earliestChanged, q)

def addTimerInLoop (q : TimerQueue) (timer : ℕ) (clock : ℤ) : Except Fault TimerQueue := do
  let (earliestChanged, q) ← q.insert timer
  if earliestChanged then
    let t ← q.deref timer
    pure (q.resetTimerfd t.expiration_ clock)
  else
    pure q

/-- The branch of `cancelInLoop` for a timer that is found. -/
def cancelActive (q : TimerQueue) (timer : ActiveTimer) : Except Fault TimerQueue := do
  let t ← q.deref timer.timer
  let erased := q.timers_.erase (entry t.expiration_ timer.timer)
  check (erased.2 = 1) .notErased
  let q ← { q with timers_ := erased.1 }.delete timer.timer
  pure { q with activeTimers_ := (q.activeTimers_.erase timer).1 }

/-- `cancelInLoop` between its two assertions. -/
def cancelFound (q : TimerQueue) (timer : ActiveTimer) : Except Fault TimerQueue :=
  if timer ∈ q.activeTimers_ then q.cancelActive timer
  else if q.callingExpiredTimers_ then
    pure { q with cancelingTimers_ := (q.cancelingTimers_.insert timer).1 }
  else pure q

def cancelInLoop (q : TimerQueue) (timer : ActiveTimer) : Except Fault TimerQueue := do
  check (q.timers_.size = q.activeTimers_.size) .sizesDiffer
  let q ← q.cancelFound timer
  check (q.timers_.size = q.activeTimers_.size) .sizesDiffer
  pure q

/-- The loop of `getExpired` over `activeTimers_`. -/
def eraseActive (q : TimerQueue) : List Entry → Except Fault TimerQueue
  | [] => pure q
  | it :: expired => do
      let t ← q.deref it.timer
      let erased := q.activeTimers_.erase (activeTimer it.timer t.sequence_)
      check (erased.2 = 1) .notActive
      eraseActive { q with activeTimers_ := erased.1 } expired

def sentry (now : ℤ) : Entry := entry now UINTPTR_MAX

def getExpired (q : TimerQueue) (now : ℤ) : Except Fault (List Entry × TimerQueue) := do
  check (q.timers_.size = q.activeTimers_.size) .sizesDiffer
  let later := q.timers_.eraseBelow (sentry now)
  check (∀ it ∈ later.begin?, now < it.when) .endNotLater
  let expired := q.timers_.below (sentry now)
  let q ← { q with timers_ := later }.eraseActive expired
  check (q.timers_.size = q.activeTimers_.size) .sizesDiffer
  pure (expired, q)

/-- A repeating timer that was not cancelled is restarted, every other one is
deleted. -/
def restartOne (q : TimerQueue) (now : ℤ) (it : Entry) : Except Fault TimerQueue := do
  let t ← q.deref it.timer
  if t.repeat_ ∧ activeTimer it.timer t.sequence_ ∉ q.cancelingTimers_ then
    let r ← (q.store it.timer (t.restart now)).insert it.timer
    pure r.2
  else
    q.delete it.timer

/-- The loop of `reset`. -/
def restartExpired (q : TimerQueue) (now : ℤ) : List Entry → Except Fault TimerQueue
  | [] => pure q
  | it :: expired => do
      let q ← q.restartOne now it
      restartExpired q now expired

/-- `nextExpire` is invalid, that is zero, when no timer is left. -/
def nextExpire (q : TimerQueue) : Except Fault ℤ :=
  match q.timers_.begin? with
  | some it => do
      let t ← q.deref it.timer
      pure t.expiration_
  | none => pure 0

def reset (q : TimerQueue) (expired : List Entry) (now clock : ℤ) : Except Fault TimerQueue := do
  let q ← q.restartExpired now expired
  let next ← q.nextExpire
  pure (if 0 < next then q.resetTimerfd next clock else q)

end TimerQueue

/-- Where the loop is in `handleRead`: `reading` has taken `now`, and `calling`
runs the callbacks, those of `rest` being still to come. -/
inductive Phase
  | idle
  | reading (now : ℤ)
  | calling (now : ℤ) (expired rest : List Entry)

namespace Phase

/-- The loop thread runs user code, outside `handleRead` or in a callback. -/
def inUserCode : Phase → Prop
  | .idle => True
  | .reading _ => False
  | .calling _ expired rest => rest.length < expired.length

def expired : Phase → List Entry
  | .calling _ expired _ => expired
  | _ => []

def rest : Phase → List Entry
  | .calling _ _ rest => rest
  | _ => []

def isIdle : Phase → Bool
  | .idle => true
  | _ => false

def isReading : Phase → Bool
  | .reading _ => true
  | _ => false

def isCalling : Phase → Bool
  | .calling _ _ _ => true
  | _ => false

instance (p : Phase) : Decidable p.inUserCode := by
  cases p <;> (simp only [inUserCode]; infer_instance)

end Phase

inductive TimerEvent
  | ran (id : ActiveTimer)
  | cancelled (id : ActiveTimer)
  deriving DecidableEq

/-- A timer queue in its loop. `inFlight` are the timers that `addTimer` has
created and `addTimerInLoop` has not seen yet. -/
structure TimerLoop where
  queue : TimerQueue
  s_numCreated_ : ℕ
  inFlight : List ℕ
  clock : ℤ
  phase : Phase
  events : List TimerEvent

inductive TimerStep
  | tick (d : ℕ)
  | newTimer (addr : ℕ) (when : ℤ) (interval : Option ℕ)
  | addTimerInLoop (addr : ℕ)
  | cancelInLoop (id : ActiveTimer)
  | handleRead
  | getExpired
  | runTimer
  | reset

namespace TimerLoop

open TimerQueue

def start (clock : ℤ) : TimerLoop :=
  { queue := TimerQueue.empty
    s_numCreated_ := 0
    inFlight := []
    clock := clock
    phase := .idle
    events := [] }

/-- `getExpired` and what surrounds it in `handleRead`. -/
def beginCalling (s : TimerLoop) (now : ℤ) : Except Fault TimerLoop := do
  let (expired, q) ← (s.queue.readTimerfd s.clock).getExpired now
  pure { s with
    queue := { q with callingExpiredTimers_ := true, cancelingTimers_ := OrderedSet.empty }
    phase := .calling now expired expired }

/-- The callback of the next timer is entered. -/
def runNext (s : TimerLoop) (now : ℤ) (expired : List Entry) (it : Entry) (rest : List Entry) :
    Except Fault TimerLoop := do
  let t ← s.queue.deref it.timer
  pure { s with
    phase := .calling now expired rest
    events := s.events ++ [.ran (activeTimer it.timer t.sequence_)] }

def endCalling (s : TimerLoop) (now : ℤ) (expired : List Entry) : Except Fault TimerLoop := do
  let q ← { s.queue with callingExpiredTimers_ := false }.reset expired now s.clock
  pure { s with queue := q, phase := .idle }

def step (s : TimerLoop) : TimerStep → Except Fault TimerLoop
  | .tick d => pure { s with clock := s.clock + d }
  | .newTimer addr when interval =>
      let t : Timer := ⟨when, interval, s.s_numCreated_ + 1⟩
      pure { s with
        queue := s.queue.store addr t
        s_numCreated_ := s.s_numCreated_ + 1
        inFlight := addr :: s.inFlight }
  | .addTimerInLoop addr => do
      let q ← s.queue.addTimerInLoop addr s.clock
      pure { s with queue := q, inFlight := s.inFlight.erase addr }
  | .cancelInLoop id => do
      let q ← s.queue.cancelInLoop id
      pure { s with queue := q, events := s.events ++ [.cancelled id] }
  | .handleRead => pure { s with phase := .reading s.clock }
  | .getExpired =>
      match s.phase with
      | .reading now => s.beginCalling now
      | _ => pure s
  | .runTimer =>
      match s.phase with
      | .calling now expired (it :: rest) => s.runNext now expired it rest
      | _ => pure s
  | .reset =>
      match s.phase with
      | .calling now expired [] => s.endCalling now expired
      | _ => pure s

/-- `new` returns a free address below `UINTPTR_MAX`; identifiers come from
`addTimer`. -/
def Enabled (s : TimerLoop) : TimerStep → Prop
  | .tick _ => True
  | .newTimer addr _ _ => s.queue.heap addr = none ∧ addr < UINTPTR_MAX
  | .addTimerInLoop addr => addr ∈ s.inFlight ∧ s.phase.inUserCode
  | .cancelInLoop id => id.sequence ≤ s.s_numCreated_ ∧ s.phase.inUserCode
  | .handleRead => s.phase.isIdle
  | .getExpired => s.phase.isReading
  | .runTimer => s.phase.rest ≠ []
  | .reset => s.phase.isCalling ∧ s.phase.rest = []

instance (s : TimerLoop) (a : TimerStep) : Decidable (s.Enabled a) := by
  cases a <;> (simp only [Enabled]; infer_instance)

def machine : Machine TimerLoop TimerStep Fault where
  init s := ∃ clock, 0 < clock ∧ s = start clock
  enabled := Enabled
  step := step

instance (s : TimerLoop) (a : TimerStep) : Decidable (machine.enabled s a) :=
  inferInstanceAs (Decidable (s.Enabled a))

end TimerLoop

end MuduoServer
