import MuduoServer.EventLoop
import Mathlib.Order.RelClasses

/-!
`muduo/net/EventLoopThread.cc`: a thread that constructs a loop, runs the user's
callback, publishes `loop_` and enters `loop()`; its owner waits for `loop_`, and the
destructor quits the loop and joins the thread. `loop()` begins with `quit_ = false`,
so what matters for a call of `quit` is whether the loop has been entered. The record
of the loop is kept after its thread has returned.
-/
namespace MuduoServer

open FaultMachine FaultMachine.Machine

/-- Where `threadFunc` is: `looping` is in `loop()` or just after it. -/
inductive ThreadPc
  | notStarted
  | callback
  | published
  | looping
  | exited
  deriving DecidableEq

/-- Where the owner is: `waiting` is in `startLoop`, `destroying` in the destructor. -/
inductive OwnerPc
  | constructed
  | waiting
  | started
  | destroying
  | joined
  deriving DecidableEq

structure EventLoopThread (T F : Type) where
  loop : EventLoop T F
  loop_ : Bool
  exiting_ : Bool
  thread_ : ThreadPc
  owner_ : OwnerPc

inductive ThreadStep (T F : Type)
  | startLoop
  | publish
  | startLoopReturn
  | run (a : LoopStep T F)
  | exit
  | destroy
  | join

namespace EventLoop
variable {T F : Type} [DecidableEq T] {threadId_ : T} {s s' : EventLoop T F} {a : LoopStep T F}

/-- Only `loop()` itself is entered from outside. -/
theorem Steps.pc_of_outside (hs : Steps threadId_ s a s') (hpc : s.pc = .outside)
    (ha : a ≠ .loop) : s'.pc = .outside := by
  cases hs with
  | push | test | wakeup | quit => exact hpc
  | loop => exact absurd rfl ha
  | leave | poll | pollReturn | handleRead | doPendingFunctors | swap | runFunctor | done =>
    rename_i hin
    simp [hin] at hpc

theorem Steps.quit_of_ne_loop (hs : Steps threadId_ s a s') (hquit : s.quit_ = true)
    (ha : a ≠ .loop) : s'.quit_ = true := by
  cases hs with
  | loop => exact absurd rfl ha
  | quit => rfl
  | push | test | wakeup | leave | poll | pollReturn | handleRead | doPendingFunctors | swap
  | runFunctor | done => exact hquit

/-- The steps of `loop()` itself, as opposed to what the callbacks and other threads call. -/
def Moves : LoopStep T F → Bool
  | .loop | .whileTest | .pollReturn | .doPendingFunctors | .swap | .runFunctor | .done => true
  | .push _ _ | .test _ | .wakeup _ | .quit _ | .handleRead => false

theorem Steps.pc_of_not_moves (hs : Steps threadId_ s a s') (ha : ¬ Moves a) : s'.pc = s.pc := by
  cases hs with
  | push | test | wakeup | quit | handleRead => rfl
  | loop | leave | poll | pollReturn | doPendingFunctors | swap | runFunctor | done =>
    exact absurd rfl ha

/-- With `quit_` set the test of `while (!quit_)` leaves the loop. -/
theorem whileTest_leaves (hquit : s.quit_ = true) (hs : s.step threadId_ .whileTest = .ok s') :
    s'.pc = .outside := by
  obtain rfl := pure_eq_ok.mp hs
  rw [if_pos hquit]

end EventLoop

namespace LoopPc

/-- What is left of the iteration: the places ahead, and the functors to run. -/
def toGo {F : Type} : LoopPc F → ℕ × ℕ
  | .outside => (1, 0)
  | .whileTest => (2, 0)
  | .running rest => (3, rest.length)
  | .pending => (4, 0)
  | .handling => (5, 0)
  | .polling => (6, 0)

end LoopPc

namespace EventLoop
variable {T F : Type} [DecidableEq T] {threadId_ : T} {s s' : EventLoop T F} {a : LoopStep T F}

/-- A loop that has been told to quit gets nearer to its end with each of its steps. -/
theorem Steps.toGo_lt (hsteps : Steps threadId_ s a s') (hs : s.step threadId_ a = .ok s')
    (hquit : s.pc = .outside ∨ s.quit_ = true) (hmoves : Moves a) (ha : a ≠ .loop) :
    Prod.Lex (· < ·) (· < ·) s'.pc.toGo s.pc.toGo := by
  cases hsteps with
  | push | test | wakeup | quit | handleRead => cases hmoves
  | loop => exact absurd rfl ha
  | leave hcall hpc => simp [hpc, LoopPc.toGo, Prod.lex_def]
  | poll hcall hpc =>
    have hset := hquit.resolve_left (by simp [hpc])
    cases whileTest_leaves hset hs
  | pollReturn hcall hpc | doPendingFunctors hcall hpc | swap hcall hpc | runFunctor hcall hpc
  | done hcall hpc => simp [hpc, LoopPc.toGo, Prod.lex_def]

end EventLoop

namespace EventLoopThread

inductive Fault
  | alreadyStarted
  | nullLoop
  | loop (f : EventLoop.Fault)
  deriving DecidableEq

variable {T F : Type}

def new : EventLoopThread T F :=
  { loop := EventLoop.new
    loop_ := false
    exiting_ := false
    thread_ := .notStarted
    owner_ := .constructed }

/-- `threadFunc` goes on to `loop()`. -/
def enter (pc : ThreadPc) : LoopStep T F → ThreadPc
  | .loop => .looping
  | _ => pc

variable [DecidableEq T] (threadId_ owner : T)

def step (s : EventLoopThread T F) : ThreadStep T F → Except Fault (EventLoopThread T F)
  | .startLoop => do
      check (s.thread_ = .notStarted) .alreadyStarted
      pure { s with thread_ := .callback, owner_ := .waiting }
  | .publish => pure { s with loop_ := true, thread_ := .published }
  | .startLoopReturn => pure { s with owner_ := .started }
  | .run a => do
      let loop ← (s.loop.step threadId_ a).mapError .loop
      pure { s with loop := loop, thread_ := enter s.thread_ a }
  | .exit => pure { s with thread_ := .exited }
  | .destroy => do
      check (s.loop_ = true) .nullLoop
      let loop ← (s.loop.step threadId_ (.quit owner)).mapError .loop
      pure { s with loop := loop, exiting_ := true, owner_ := .destroying }
  | .join => pure { s with owner_ := .joined }

/-- Thread `t` may call the loop: it runs user code and the loop lives. -/
def Calls (s : EventLoopThread T F) (t : T) : Prop :=
  (s.thread_ = .callback ∨ s.thread_ = .published ∨ s.thread_ = .looping) ∧
    (t = threadId_ → s.thread_ = .callback ∨ s.thread_ = .looping ∧ ¬ s.loop.pc.isOutside) ∧
    (t = owner → s.owner_ = .started)

/-- `loop()` is called by `threadFunc`, once. -/
def Allowed (s : EventLoopThread T F) : LoopStep T F → Prop
  | .push t _ => s.Calls threadId_ owner t
  | .quit t => s.Calls threadId_ owner t
  | .loop => s.thread_ = .published
  | _ => True

def Enabled (s : EventLoopThread T F) : ThreadStep T F → Prop
  | .startLoop => s.owner_ = .constructed
  | .publish => s.thread_ = .callback ∧ s.loop.calls threadId_ = .idle
  | .startLoopReturn => s.owner_ = .waiting ∧ s.loop_ = true
  | .run a => s.loop.Enabled threadId_ a ∧ s.Allowed threadId_ owner a
  | .exit => s.thread_ = .looping ∧ s.loop.pc.isOutside ∧ s.loop.calls threadId_ = .idle
  | .destroy =>
      (s.owner_ = .constructed ∨ s.owner_ = .started) ∧ s.loop.calls owner = .idle
  | .join => s.owner_ = .destroying ∧ s.loop.calls owner = .idle ∧ s.thread_ = .exited

def machine : Machine (EventLoopThread T F) (ThreadStep T F) Fault where
  init s := s = new
  enabled s a := s.Enabled threadId_ owner a
  step s a := s.step threadId_ owner a

variable {threadId_ owner : T} {s s' : EventLoopThread T F} {a : ThreadStep T F}

/-- The moves of `threadFunc` itself, as opposed to calls of `quit` and `queueInLoop`. -/
def Moves : ThreadStep T F → Bool
  | .publish | .exit => true
  | .run a => EventLoop.Moves a
  | .startLoop | .startLoopReturn | .destroy | .join => false

def IsQuit : ThreadStep T F → Bool
  | .run (.quit _) | .destroy => true
  | _ => false

/-- `loop()` has been entered. -/
def Entered (s : EventLoopThread T F) : Prop := s.thread_ = .looping ∨ s.thread_ = .exited

structure Good (s : EventLoopThread T F) : Prop where
  sound : s.loop.Sound
  outside : s.thread_ ≠ .looping → s.loop.pc = .outside
  fresh : s.owner_ = .constructed → s.thread_ = .notStarted
  unpublished : s.thread_ = .notStarted → s.loop_ = false

omit [DecidableEq T] in
theorem new_good : (new : EventLoopThread T F).Good where
  sound := EventLoop.sound_new
  outside _ := rfl
  fresh _ := rfl
  unpublished _ := rfl

omit [DecidableEq T] in
theorem enter_of_ne {pc : ThreadPc} {a : LoopStep T F} (h : a ≠ .loop) : enter pc a = pc := by
  cases a <;> first | rfl | exact absurd rfl h

/-- The loop of a thread that is not in `loop()` stays where it is. -/
theorem Good.run (h : s.Good) {a : LoopStep T F} (he : s.Enabled threadId_ owner (.run a))
    {loop : EventLoop T F} (hs : s.loop.step threadId_ a = .ok loop) :
    EventLoop.Steps threadId_ s.loop a loop := h.sound.steps he.1 hs

theorem Good.step (h : s.Good) (he : (machine threadId_ owner).enabled s a)
    (hs : (machine threadId_ owner).step s a = .ok s') : s'.Good := by
  change s.step threadId_ owner a = .ok s' at hs
  cases a with
  | startLoop =>
    simp only [step, bind_eq_ok, check_eq_ok, pure_eq_ok] at hs
    obtain ⟨-, hpc, rfl⟩ := hs
    exact ⟨h.sound, fun _ => h.outside (by simp [hpc]), (by simp), (by simp)⟩
  | publish =>
    obtain rfl := pure_eq_ok.mp hs
    exact ⟨h.sound, fun _ => h.outside (by simp [he.1]), fun ho => absurd (h.fresh ho) (by simp [he.1]),
      (by simp)⟩
  | startLoopReturn =>
    obtain rfl := pure_eq_ok.mp hs
    exact ⟨h.sound, h.outside, (by simp), h.unpublished⟩
  | run a =>
    simp only [step, bind_eq_ok, mapError_ok_iff, pure_eq_ok] at hs
    obtain ⟨loop, hloop, rfl⟩ := hs
    have hsteps := h.run he hloop
    by_cases hl : a = .loop
    · subst hl
      have hpub : s.thread_ = .published := he.2
      refine ⟨h.sound.step hsteps, fun hne => absurd rfl hne, ?_, (by simp [enter])⟩
      exact fun ho => absurd (h.fresh ho) (by simp [hpub])
    · rw [enter_of_ne hl]
      exact ⟨h.sound.step hsteps, fun hne => hsteps.pc_of_outside (h.outside hne) hl, h.fresh,
        h.unpublished⟩
  | exit =>
    obtain rfl := pure_eq_ok.mp hs
    exact ⟨h.sound, fun _ => LoopPc.eq_outside he.2.1,
      fun ho => absurd (h.fresh ho) (by simp [he.1]), (by simp)⟩
  | destroy =>
    simp only [step, bind_eq_ok, check_eq_ok, mapError_ok_iff, pure_eq_ok] at hs
    obtain ⟨-, hpub, loop, hloop, rfl⟩ := hs
    obtain rfl := pure_eq_ok.mp hloop
    exact ⟨⟨h.sound.looping, h.sound.calling⟩, h.outside, (by simp), h.unpublished⟩
  | join =>
    obtain rfl := pure_eq_ok.mp hs
    exact ⟨h.sound, h.outside, (by simp), h.unpublished⟩

/-- The thread has left `loop()` or will at the next test of `quit_`. -/
def Quits (s : EventLoopThread T F) : Prop :=
  s.thread_ = .exited ∨ s.thread_ = .looping ∧ (s.loop.pc = .outside ∨ s.loop.quit_ = true)

omit [DecidableEq T] in
theorem Quits.not_before (h : s.Quits) :
    s.thread_ ≠ .notStarted ∧ s.thread_ ≠ .callback ∧ s.thread_ ≠ .published := by
  rcases h with hpc | ⟨hpc, -⟩ <;> simp [hpc]

theorem Quits.step (h : s.Quits) (hgood : s.Good) (he : (machine threadId_ owner).enabled s a)
    (hs : (machine threadId_ owner).step s a = .ok s') : s'.Quits := by
  obtain ⟨hnot, hcallback, hpub⟩ := h.not_before
  change s.step threadId_ owner a = .ok s' at hs
  cases a with
  | startLoop =>
    simp only [EventLoopThread.step, bind_eq_ok, check_eq_ok] at hs
    obtain ⟨-, hpc, -⟩ := hs
    exact absurd hpc hnot
  | publish => exact absurd he.1 hcallback
  | startLoopReturn | join =>
    obtain rfl := pure_eq_ok.mp hs
    exact h
  | exit =>
    obtain rfl := pure_eq_ok.mp hs
    exact Or.inl rfl
  | destroy =>
    simp only [EventLoopThread.step, bind_eq_ok, mapError_ok_iff, pure_eq_ok] at hs
    obtain ⟨-, -, loop, hloop, rfl⟩ := hs
    obtain rfl := pure_eq_ok.mp hloop
    exact h.imp id fun hin => ⟨hin.1, Or.inr rfl⟩
  | run a =>
    simp only [EventLoopThread.step, bind_eq_ok, mapError_ok_iff, pure_eq_ok] at hs
    obtain ⟨loop, hloop, rfl⟩ := hs
    have hsteps := hgood.run he hloop
    have hl : a ≠ .loop := by
      rintro rfl
      exact hpub he.2
    rw [enter_of_ne hl]
    exact h.imp id fun hin => ⟨hin.1, hin.2.imp (hsteps.pc_of_outside · hl)
      (hsteps.quit_of_ne_loop · hl)⟩

omit [DecidableEq T] in
def toGo (s : EventLoopThread T F) : ℕ × ℕ :=
  if s.thread_ = .exited then (0, 0) else s.loop.pc.toGo

theorem Quits.toGo_lt (h : s.Quits) (hgood : s.Good) (hne : s.thread_ ≠ .exited)
    (he : (machine threadId_ owner).enabled s a)
    (hs : (machine threadId_ owner).step s a = .ok s') (hm : Moves a) :
    Prod.Lex (· < ·) (· < ·) s'.toGo s.toGo := by
  obtain ⟨hnot, hcallback, hpub⟩ := h.not_before
  change s.step threadId_ owner a = .ok s' at hs
  cases a with
  | startLoop | startLoopReturn | join | destroy => cases hm
  | publish => exact absurd he.1 hcallback
  | exit =>
    obtain rfl := pure_eq_ok.mp hs
    simp [toGo, hne, LoopPc.eq_outside he.2.1, LoopPc.toGo, Prod.lex_def]
  | run a =>
    simp only [EventLoopThread.step, bind_eq_ok, mapError_ok_iff, pure_eq_ok] at hs
    obtain ⟨loop, hloop, rfl⟩ := hs
    have hl : a ≠ .loop := by
      rintro rfl
      exact hpub he.2
    have hquit := (h.resolve_left hne).2
    have hlt := (hgood.run he hloop).toGo_lt hloop hquit hm hl
    simpa [toGo, enter_of_ne hl, hne] using hlt

theorem Quits.toGo_eq (h : s.Quits) (hgood : s.Good) (he : (machine threadId_ owner).enabled s a)
    (hs : (machine threadId_ owner).step s a = .ok s') (hm : ¬ Moves a) : s'.toGo = s.toGo := by
  obtain ⟨hnot, hcallback, hpub⟩ := h.not_before
  change s.step threadId_ owner a = .ok s' at hs
  cases a with
  | publish | exit => exact absurd rfl hm
  | startLoop =>
    simp only [EventLoopThread.step, bind_eq_ok, check_eq_ok] at hs
    obtain ⟨-, hpc, -⟩ := hs
    exact absurd hpc hnot
  | startLoopReturn | join =>
    obtain rfl := pure_eq_ok.mp hs
    rfl
  | destroy =>
    simp only [EventLoopThread.step, bind_eq_ok, mapError_ok_iff, pure_eq_ok] at hs
    obtain ⟨-, -, loop, hloop, rfl⟩ := hs
    obtain rfl := pure_eq_ok.mp hloop
    rfl
  | run a =>
    simp only [EventLoopThread.step, bind_eq_ok, mapError_ok_iff, pure_eq_ok] at hs
    obtain ⟨loop, hloop, rfl⟩ := hs
    have hl : a ≠ .loop := by
      rintro rfl
      exact hpub he.2
    simp only [toGo, enter_of_ne hl, (hgood.run he hloop).pc_of_not_moves hm]

section Progress

omit [DecidableEq T] in
/-- The thread has been started and has not returned. -/
def Alive (s : EventLoopThread T F) : Prop :=
  s.thread_ = .callback ∨ s.thread_ = .published ∨ s.thread_ = .looping

/-- What `loop()` does next, from place `pc`. -/
def loopStep (pc : LoopPc F) : ThreadStep T F :=
  match pc with
  | .outside => .exit
  | .whileTest => .run .whileTest
  | .polling => .run .pollReturn
  | .handling => .run .doPendingFunctors
  | .pending => .run .swap
  | .running [] => .run .done
  | .running (_ :: _) => .run .runFunctor

/-- What the thread does next when it calls nothing more: it ends its call, or
`threadFunc` goes on. -/
def advance (threadId_ : T) (s : EventLoopThread T F) : ThreadStep T F :=
  match s.loop.calls threadId_ with
  | .pushed => .run (.test threadId_)
  | .waking | .quitting => .run (.wakeup threadId_)
  | .idle =>
      match s.thread_ with
      | .published => .run .loop
      | .looping => loopStep s.loop.pc
      | _ => .publish

theorem advance_ok (hgood : s.Good) (h : s.Alive) :
    (machine threadId_ owner).enabled s (advance threadId_ s) ∧
      ∃ s', (machine threadId_ owner).step s (advance threadId_ s) = .ok s' := by
  have hlooping : s.loop.pc = .outside → s.loop.looping_ = false := by
    intro hpc
    simp [hgood.sound.looping, hpc, LoopPc.isOutside]
  unfold advance
  cases hcall : s.loop.calls threadId_ with
  | pushed => exact ⟨⟨hcall, trivial⟩, _, rfl⟩
  | waking => exact ⟨⟨Or.inl hcall, trivial⟩, _, rfl⟩
  | quitting => exact ⟨⟨Or.inr hcall, trivial⟩, _, rfl⟩
  | idle =>
    rcases h with hpc | hpc | hpc
    · simp only [hpc]
      exact ⟨⟨hpc, hcall⟩, _, rfl⟩
    · have hout := hgood.outside (by simp [hpc])
      simp only [hpc]
      refine ⟨⟨⟨hcall, by simp [hout, LoopPc.inUserCode]⟩, hpc⟩, ?_⟩
      simp [machine, step, EventLoop.step, hlooping hout, check_of]
    · simp only [hpc]
      cases hplace : s.loop.pc with
      | outside => exact ⟨⟨hpc, by simp [hplace, LoopPc.isOutside], hcall⟩, _, rfl⟩
      | whileTest =>
        exact ⟨⟨⟨hcall, by simp [hplace, LoopPc.isWhileTest]⟩, trivial⟩, _, rfl⟩
      | polling => exact ⟨⟨⟨hcall, by simp [hplace, LoopPc.isPolling]⟩, trivial⟩, _, rfl⟩
      | handling => exact ⟨⟨⟨hcall, by simp [hplace, LoopPc.isHandling]⟩, trivial⟩, _, rfl⟩
      | pending => exact ⟨⟨⟨hcall, by simp [hplace, LoopPc.isPending]⟩, trivial⟩, _, rfl⟩
      | running rest =>
        have hrun : s.loop.pc.isRunning := by simp [hplace, LoopPc.isRunning]
        cases rest with
        | nil => exact ⟨⟨⟨hcall, hrun, by simp [hplace, LoopPc.batch]⟩, trivial⟩, _, rfl⟩
        | cons f rest =>
          refine ⟨⟨⟨hcall, hrun, by simp [hplace, LoopPc.batch]⟩, trivial⟩, ?_⟩
          simp [machine, step, loopStep, EventLoop.step, hplace, pure, Except.pure]

end Progress

end EventLoopThread

end MuduoServer
