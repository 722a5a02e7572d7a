import MuduoServer.FaultMachine
import Mathlib.Algebra.Group.Nat.Defs
import Mathlib.Logic.Function.Basic

/-!
The loop of `muduo/net/EventLoop.cc` with calls of `queueInLoop` and `quit` from
any set of threads. A call of `queueInLoop` is three steps: the `push_back`
under the lock, the test whether a wakeup is needed, and the write to the
eventfd. In `doPendingFunctors` the vector is swapped out in one step and each
functor is called in another, so calls of `queueInLoop` fall between them.
-/
namespace MuduoServer

open FaultMachine

/-- Where a thread is in `queueInLoop` or `quit`; both end in `wakeup`, the first
in `waking`, the second in `quitting`. -/
inductive QueueCall
  | idle
  | pushed
  | waking
  | quitting
  deriving DecidableEq

/-- Where the loop's own thread is in `loop()`; `running` has swapped the functors
out and `rest` are those to run. -/
inductive LoopPc (F : Type)
  | outside
  | whileTest
  | polling
  | handling
  | pending
  | running (rest : List F)

/-- `entered` and `executed` record the functors in the order in which they
entered `pendingFunctors_` and were called. -/
structure EventLoop (T F : Type) where
  looping_ : Bool
  quit_ : Bool
  eventHandling_ : Bool
  callingPendingFunctors_ : Bool
  wakeupFd_ : ℕ
  pendingFunctors_ : List F
  pc : LoopPc F
  calls : T → QueueCall
  entered : List F
  executed : List F

inductive LoopStep (T F : Type)
  | push (t : T) (f : F)
  | test (t : T)
  | wakeup (t : T)
  | quit (t : T)
  | loop
  | whileTest
  | pollReturn
  | handleRead
  | doPendingFunctors
  | swap
  | runFunctor
  | done

namespace LoopPc
variable {F : Type}

/-- The loop's thread runs code of the user: before or after `loop()`, in an
event callback or in a functor. -/
def inUserCode : LoopPc F → Bool
  | .outside => true
  | .handling => true
  | .running _ => true
  | _ => false

def isOutside : LoopPc F → Bool
  | .outside => true
  | _ => false

def isWhileTest : LoopPc F → Bool
  | .whileTest => true
  | _ => false

def isPolling : LoopPc F → Bool
  | .polling => true
  | _ => false

def isHandling : LoopPc F → Bool
  | .handling => true
  | _ => false

def isPending : LoopPc F → Bool
  | .pending => true
  | _ => false

def isRunning : LoopPc F → Bool
  | .running _ => true
  | _ => false

/-- The functors that were swapped out and not called yet. -/
def batch : LoopPc F → Option (List F)
  | .running rest => some rest
  | _ => none

end LoopPc

namespace EventLoop

inductive Fault
  | alreadyLooping
  deriving DecidableEq

variable {T F : Type}

def new : EventLoop T F :=
  { looping_ := false
    quit_ := false
    eventHandling_ := false
    callingPendingFunctors_ := false
    wakeupFd_ := 0
    pendingFunctors_ := []
    pc := .outside
    calls := fun _ => .idle
    entered := []
    executed := [] }

/-- Writing 1 to an eventfd; a full counter refuses it. -/
def writeEventfd (counter : ℕ) : ℕ := if counter < 2 ^ 64 - 2 then counter + 1 else counter

variable [DecidableEq T] (threadId_ : T)

def setCall (s : EventLoop T F) (t : T) (c : QueueCall) : EventLoop T F :=
  { s with calls := Function.update s.calls t c }

def step (s : EventLoop T F) : LoopStep T F → Except Fault (EventLoop T F)
  | .push t f =>
      pure ({ s with
        pendingFunctors_ := s.pendingFunctors_ ++ [f]
        entered := s.entered ++ [f] }.setCall t .pushed)
  | .test t =>
      pure (s.setCall t (if t ≠ threadId_ ∨ s.callingPendingFunctors_ then .waking else .idle))
  | .wakeup t => pure ({ s with wakeupFd_ := writeEventfd s.wakeupFd_ }.setCall t .idle)
  | .quit t =>
      pure ({ s with quit_ := true }.setCall t (if t ≠ threadId_ then .quitting else .idle))
  | .loop => do
      check (s.looping_ = false) .alreadyLooping
      pure { s with looping_ := true, quit_ := false, pc := .whileTest }
  | .whileTest =>
      pure (if s.quit_ then { s with looping_ := false, pc := .outside }
        else { s with pc := .polling })
  | .pollReturn => pure { s with eventHandling_ := true, pc := .handling }
  | .handleRead => pure { s with wakeupFd_ := 0 }
  | .doPendingFunctors =>
      pure { s with eventHandling_ := false, callingPendingFunctors_ := true, pc := .pending }
  | .swap => pure { s with pendingFunctors_ := [], pc := .running s.pendingFunctors_ }
  | .runFunctor =>
      match s.pc with
      | .running (f :: rest) => pure { s with executed := s.executed ++ [f], pc := .running rest }
      | _ => pure s
  | .done => pure { s with callingPendingFunctors_ := false, pc := .whileTest }

/-- The loop moves on only when its own thread is in no call. -/
def Enabled (s : EventLoop T F) : LoopStep T F → Prop
  | .push t _ => s.calls t = .idle ∧ (t = threadId_ → s.pc.inUserCode)
  | .test t => s.calls t = .pushed
  | .wakeup t => s.calls t = .waking ∨ s.calls t = .quitting
  | .quit t => s.calls t = .idle ∧ (t = threadId_ → s.pc.inUserCode)
  | .loop => s.calls threadId_ = .idle ∧ s.pc.inUserCode
  | .whileTest => s.calls threadId_ = .idle ∧ s.pc.isWhileTest
  | .pollReturn => s.calls threadId_ = .idle ∧ s.pc.isPolling
  | .handleRead => s.calls threadId_ = .idle ∧ s.pc.isHandling ∧ 0 < s.wakeupFd_
  | .doPendingFunctors => s.calls threadId_ = .idle ∧ s.pc.isHandling
  | .swap => s.calls threadId_ = .idle ∧ s.pc.isPending
  | .runFunctor =>
      s.calls threadId_ = .idle ∧ s.pc.isRunning ∧ s.pc.batch.map List.isEmpty = some false
  | .done =>
      s.calls threadId_ = .idle ∧ s.pc.isRunning ∧ s.pc.batch.map List.isEmpty = some true

instance (s : EventLoop T F) (a : LoopStep T F) : Decidable (s.Enabled threadId_ a) := by
  cases a <;> (simp only [Enabled]; infer_instance)

def machine : Machine (EventLoop T F) (LoopStep T F) Fault where
  init s := s = new
  enabled s a := s.Enabled threadId_ a
  step s a := s.step threadId_ a

instance (s : EventLoop T F) (a : LoopStep T F) : Decidable ((machine threadId_).enabled s a) :=
  inferInstanceAs (Decidable (s.Enabled threadId_ a))

/-- `looping_` is set just inside `loop()` and `callingPendingFunctors_` just inside
`doPendingFunctors`. -/
structure Sound (s : EventLoop T F) : Prop where
  looping : s.looping_ = !s.pc.isOutside
  calling : s.callingPendingFunctors_ = (s.pc.isPending || s.pc.isRunning)

/-- What a step does in a sound state, with the place of the loop it starts from. -/
inductive Steps (s : EventLoop T F) : LoopStep T F → EventLoop T F → Prop
  | push {t : T} {f : F} (hcall : s.calls t = .idle) (huser : t = threadId_ → s.pc.inUserCode) :
      Steps s (.push t f) ({ s with
        pendingFunctors_ := s.pendingFunctors_ ++ [f]
        entered := s.entered ++ [f] }.setCall t .pushed)
  | test {t : T} (hcall : s.calls t = .pushed) :
      Steps s (.test t)
        (s.setCall t (if t ≠ threadId_ ∨ s.callingPendingFunctors_ then .waking else .idle))
  | wakeup {t : T} (hcall : s.calls t = .waking ∨ s.calls t = .quitting) :
      Steps s (.wakeup t) ({ s with wakeupFd_ := writeEventfd s.wakeupFd_ }.setCall t .idle)
  | quit {t : T} (hcall : s.calls t = .idle) (c : QueueCall) :
      Steps s (.quit t) ({ s with quit_ := true }.setCall t c)
  | loop (hcall : s.calls threadId_ = .idle) (hpc : s.pc = .outside) :
      Steps s .loop { s with looping_ := true, quit_ := false, pc := .whileTest }
  | leave (hcall : s.calls threadId_ = .idle) (hpc : s.pc = .whileTest) :
      Steps s .whileTest { s with looping_ := false, pc := .outside }
  | poll (hcall : s.calls threadId_ = .idle) (hpc : s.pc = .whileTest) :
      Steps s .whileTest { s with pc := .polling }
  | pollReturn (hcall : s.calls threadId_ = .idle) (hpc : s.pc = .polling) :
      Steps s .pollReturn { s with eventHandling_ := true, pc := .handling }
  | handleRead (hcall : s.calls threadId_ = .idle) (hpc : s.pc = .handling) :
      Steps s .handleRead { s with wakeupFd_ := 0 }
  | doPendingFunctors (hcall : s.calls threadId_ = .idle) (hpc : s.pc = .handling) :
      Steps s .doPendingFunctors
        { s with eventHandling_ := false, callingPendingFunctors_ := true, pc := .pending }
  | swap (hcall : s.calls threadId_ = .idle) (hpc : s.pc = .pending) :
      Steps s .swap { s with pendingFunctors_ := [], pc := .running s.pendingFunctors_ }
  | runFunctor {f : F} {rest : List F} (hcall : s.calls threadId_ = .idle)
      (hpc : s.pc = .running (f :: rest)) :
      Steps s .runFunctor { s with executed := s.executed ++ [f], pc := .running rest }
  | done (hcall : s.calls threadId_ = .idle) (hpc : s.pc = .running []) :
      Steps s .done { s with callingPendingFunctors_ := false, pc := .whileTest }

end EventLoop

namespace LoopPc
variable {F : Type} {pc : LoopPc F}

theorem eq_whileTest (h : pc.isWhileTest) : pc = .whileTest := by
  cases pc <;> simp [isWhileTest] at h ⊢

theorem eq_polling (h : pc.isPolling) : pc = .polling := by
  cases pc <;> simp [isPolling] at h ⊢

theorem eq_handling (h : pc.isHandling) : pc = .handling := by
  cases pc <;> simp [isHandling] at h ⊢

theorem eq_pending (h : pc.isPending) : pc = .pending := by
  cases pc <;> simp [isPending] at h ⊢

theorem eq_running (h : pc.isRunning) : ∃ rest, pc = .running rest := by
  cases pc <;> simp [isRunning] at h ⊢

theorem eq_outside (h : pc.isOutside) : pc = .outside := by
  cases pc <;> simp [isOutside] at h ⊢

end LoopPc

namespace EventLoop
variable {T F : Type} [DecidableEq T] {threadId_ : T} {s s' : EventLoop T F} {a : LoopStep T F}

omit [DecidableEq T] in
/-- Only a loop that is not running is entered: `assert(!looping_)`. -/
theorem Sound.pc_of_not_looping (h : s.Sound) (hlooping : s.looping_ = false) :
    s.pc = .outside := by
  apply LoopPc.eq_outside
  have hset := h.looping
  rw [hlooping] at hset
  simpa using hset.symm

theorem Sound.steps (h : s.Sound) (he : (machine threadId_).enabled s a)
    (hs : (machine threadId_).step s a = .ok s') : Steps threadId_ s a s' := by
  change s.Enabled threadId_ a at he
  change s.step threadId_ a = .ok s' at hs
  cases a with
  | push t f =>
    obtain rfl := pure_eq_ok.mp hs
    exact .push he.1 he.2
  | test t =>
    obtain rfl := pure_eq_ok.mp hs
    exact .test he
  | wakeup t =>
    obtain rfl := pure_eq_ok.mp hs
    exact .wakeup he
  | quit t =>
    obtain rfl := pure_eq_ok.mp hs
    exact .quit he.1 _
  | loop =>
    simp only [EventLoop.step, bind_eq_ok, check_eq_ok, pure_eq_ok] at hs
    obtain ⟨-, hlooping, rfl⟩ := hs
    exact .loop he.1 (h.pc_of_not_looping hlooping)
  | whileTest =>
    obtain rfl := pure_eq_ok.mp hs
    have hpc := LoopPc.eq_whileTest he.2
    split
    · exact .leave he.1 hpc
    · exact .poll he.1 hpc
  | pollReturn =>
    obtain rfl := pure_eq_ok.mp hs
    exact .pollReturn he.1 (LoopPc.eq_polling he.2)
  | handleRead =>
    obtain rfl := pure_eq_ok.mp hs
    exact .handleRead he.1 (LoopPc.eq_handling he.2.1)
  | doPendingFunctors =>
    obtain rfl := pure_eq_ok.mp hs
    exact .doPendingFunctors he.1 (LoopPc.eq_handling he.2)
  | swap =>
    obtain rfl := pure_eq_ok.mp hs
    exact .swap he.1 (LoopPc.eq_pending he.2)
  | runFunctor =>
    obtain ⟨hcall, hrun, hbatch⟩ := he
    obtain ⟨rest, hpc⟩ := LoopPc.eq_running hrun
    cases rest with
    | nil => simp [hpc, LoopPc.batch] at hbatch
    | cons f rest =>
      simp only [EventLoop.step, hpc, pure_eq_ok] at hs
      subst hs
      exact .runFunctor hcall hpc
  | done =>
    obtain ⟨hcall, hrun, hbatch⟩ := he
    obtain ⟨rest, hpc⟩ := LoopPc.eq_running hrun
    cases rest with
    | nil =>
      obtain rfl := pure_eq_ok.mp hs
      exact .done hcall hpc
    | cons f rest => simp [hpc, LoopPc.batch] at hbatch

omit [DecidableEq T] in
theorem sound_new : (new : EventLoop T F).Sound where
  looping := rfl
  calling := rfl

theorem Sound.step (h : s.Sound) (hs : Steps threadId_ s a s') : s'.Sound := by
  have hloop := h.looping
  have hcalling := h.calling
  cases hs with
  | push | test | wakeup | quit | handleRead => exact ⟨hloop, hcalling⟩
  | loop hcall hpc | leave hcall hpc =>
    rw [hpc] at hcalling
    exact ⟨rfl, hcalling⟩
  | poll hcall hpc | pollReturn hcall hpc =>
    rw [hpc] at hloop hcalling
    exact ⟨hloop, hcalling⟩
  | doPendingFunctors hcall hpc =>
    rw [hpc] at hloop
    exact ⟨hloop, rfl⟩
  | swap hcall hpc | runFunctor hcall hpc =>
    rw [hpc] at hloop hcalling
    exact ⟨hloop, hcalling⟩
  | done hcall hpc =>
    rw [hpc] at hloop
    exact ⟨hloop, rfl⟩

end EventLoop

end MuduoServer
