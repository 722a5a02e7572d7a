import MuduoServer.FaultMachine
import Mathlib.Data.List.Flatten

/-!
`muduo/base/AsyncLogging.cc`: a front end that copies log lines into buffers and a thread
that swaps the buffers out and writes them to a `LogFile`. `append` and the section of
`threadFunc` that swaps are one step each, since they hold `mutex_`; the timed wait ends
by a notification, by the timeout or by itself. A buffer has a number besides its bytes,
as what matters is which pointers own it.
-/
namespace MuduoServer

open FaultMachine FaultMachine.Machine

def kLargeBuffer : ℕ := 4000 * 1000

abbrev LogLine := List UInt8

/-- `FixedBuffer<kLargeBuffer>`. -/
structure LogBuffer where
  id : ℕ
  data : List UInt8

namespace LogBuffer

def avail (b : LogBuffer) : ℕ :=
  kLargeBuffer - b.data.length

def append (b : LogBuffer) (line : LogLine) : LogBuffer :=
  if b.avail > line.length then { b with data := b.data ++ line } else b

def reset (b : LogBuffer) : LogBuffer :=
  { b with data := [] }

end LogBuffer

abbrev BufferPtr := Option LogBuffer

/-- What was appended to the `LogFile`: the bytes of a buffer, or the line that reports
how many buffers were dropped. -/
inductive LogChunk
  | dropped (buffers : ℕ)
  | data (bytes : List UInt8)

def LogChunk.bytes : LogChunk → List UInt8
  | .dropped _ => []
  | .data bytes => bytes

/-- Where the logging thread is in `threadFunc`: `locking` is before the critical section
and `writing i` before the buffer number `i`. -/
inductive LoggingPc
  | notStarted
  | starting
  | whileTest
  | locking
  | waiting
  | swapped
  | writing (i : ℕ)
  | refill
  | exited
  deriving DecidableEq

def LoggingPc.isWriting : LoggingPc → Bool
  | .writing _ => true
  | .notStarted | .starting | .whileTest | .locking | .waiting | .swapped | .refill | .exited => false

theorem LoggingPc.exists_writing {pc : LoggingPc} (h : pc.isWriting) : ∃ i, pc = .writing i := by
  cases pc with
  | writing i => exact ⟨i, rfl⟩
  | notStarted | starting | whileTest | locking | waiting | swapped | refill | exited => cases h

/-- Where `stop()` is: `flagSet` has cleared `running_` and waits for the thread. -/
inductive StopCall
  | notCalled
  | called
  | flagSet
  | returned
  deriving DecidableEq

structure AsyncLogging where
  running_ : Bool
  currentBuffer_ : BufferPtr
  nextBuffer_ : BufferPtr
  buffers_ : List LogBuffer
  newBuffer1 : BufferPtr
  newBuffer2 : BufferPtr
  buffersToWrite : List LogBuffer
  output : List LogChunk
  thread_ : LoggingPc
  stopper : StopCall
  allocated : ℕ
  /-- The lines of all calls of `append`, and of those that returned before `stop()`. -/
  lines : List LogLine
  before : List LogLine
  /-- For each iteration the contents of the buffers it swapped out. -/
  batches : List (List (List UInt8))

inductive LoggingStep
  | append (line : LogLine)
  | start
  | threadFunc
  | whileTest
  | lock
  | wake
  | drop
  | write
  | refill
  | callStop
  | stop
  | join

namespace AsyncLogging

inductive Fault
  | nullBuffer
  | notRunning
  | newBuffer1
  | newBuffer2
  | buffersToWrite
  | nothingSwapped
  | popBack
  deriving DecidableEq

def new : AsyncLogging :=
  { running_ := false
    currentBuffer_ := some ⟨0, []⟩
    nextBuffer_ := some ⟨1, []⟩
    buffers_ := []
    newBuffer1 := none
    newBuffer2 := none
    buffersToWrite := []
    output := []
    thread_ := .notStarted
    stopper := .notCalled
    allocated := 2
    lines := []
    before := []
    batches := [] }

/-- `start` returns, and `stop` may be called, when the thread has passed its latch. -/
def enabled (s : AsyncLogging) : LoggingStep → Prop
  | .append _ => True
  | .start => s.thread_ = .notStarted
  | .threadFunc => s.thread_ = .starting
  | .whileTest => s.thread_ = .whileTest
  | .lock => s.thread_ = .locking
  | .wake => s.thread_ = .waiting
  | .drop => s.thread_ = .swapped
  | .write => s.thread_.isWriting
  | .refill => s.thread_ = .refill
  | .callStop => s.stopper = .notCalled ∧ s.thread_ ≠ .notStarted ∧ s.thread_ ≠ .starting
  | .stop => s.stopper = .called
  | .join => s.stopper = .flagSet ∧ s.thread_ = .exited

instance (s : AsyncLogging) (a : LoggingStep) : Decidable (s.enabled a) := by
  cases a <;> (simp only [enabled]; infer_instance)

def append (s : AsyncLogging) (line : LogLine) : Except Fault AsyncLogging :=
  match s.currentBuffer_ with
  | none => .error .nullBuffer
  | some current =>
    let s := { s with lines := s.lines ++ [line] }
    if current.avail > line.length then
      pure { s with currentBuffer_ := some (current.append line) }
    else
      let s := { s with buffers_ := s.buffers_ ++ [current] }
      match s.nextBuffer_ with
      | some next => pure { s with currentBuffer_ := some (next.append line), nextBuffer_ := none }
      | none => pure { s with
          currentBuffer_ := some (LogBuffer.append ⟨s.allocated, []⟩ line)
          allocated := s.allocated + 1 }

/-- The critical section behind the wait, where `currentBuffer_` is `current`. -/
def swapped (s : AsyncLogging) (current : LogBuffer) : AsyncLogging :=
  { s with
    currentBuffer_ := s.newBuffer1
    newBuffer1 := none
    buffersToWrite := s.buffers_ ++ [current]
    buffers_ := s.buffersToWrite
    nextBuffer_ := if s.nextBuffer_.isNone then s.newBuffer2 else s.nextBuffer_
    newBuffer2 := if s.nextBuffer_.isNone then none else s.newBuffer2
    thread_ := .swapped
    batches := s.batches ++ [(s.buffers_ ++ [current]).map (·.data)] }

def swap (s : AsyncLogging) : Except Fault AsyncLogging :=
  match s.currentBuffer_ with
  | none => .error .nullBuffer
  | some current => pure (s.swapped current)

/-- `if (!newBuffer) { newBuffer = buffersToWrite.pop_back(); newBuffer->reset(); }` -/
def popBack (p : BufferPtr) (buffersToWrite : List LogBuffer) :
    Except Fault (BufferPtr × List LogBuffer) :=
  match p with
  | some b => pure (some b, buffersToWrite)
  | none => do
    check (buffersToWrite ≠ []) .popBack
    pure (buffersToWrite.getLast?.map (·.reset), buffersToWrite.dropLast)

def step (s : AsyncLogging) : LoggingStep → Except Fault AsyncLogging
  | .append line => s.append line
  | .start => pure { s with running_ := true, thread_ := .starting }
  | .threadFunc => do
      check (s.running_ = true) .notRunning
      pure { s with
        newBuffer1 := some ⟨s.allocated, []⟩
        newBuffer2 := some ⟨s.allocated + 1, []⟩
        buffersToWrite := []
        allocated := s.allocated + 2
        thread_ := .whileTest }
  | .whileTest =>
      if s.running_ then do
        check (s.newBuffer1.any (·.data.isEmpty)) .newBuffer1
        check (s.newBuffer2.any (·.data.isEmpty)) .newBuffer2
        check (s.buffersToWrite = []) .buffersToWrite
        pure { s with thread_ := .locking }
      else pure { s with thread_ := .exited }
  | .lock => if s.buffers_.isEmpty then pure { s with thread_ := .waiting } else s.swap
  | .wake => s.swap
  | .drop => do
      check (s.buffersToWrite ≠ []) .nothingSwapped
      if s.buffersToWrite.length > 25 then
        pure { s with
          output := s.output ++ [.dropped (s.buffersToWrite.length - 2)]
          buffersToWrite := s.buffersToWrite.take 2
          thread_ := .writing 0 }
      else pure { s with thread_ := .writing 0 }
  | .write =>
      match s.thread_ with
      | .writing i =>
        match s.buffersToWrite[i]? with
        | some b => pure { s with
            output := s.output ++ [.data b.data]
            thread_ := .writing (i + 1) }
        | none => pure { s with thread_ := .refill }
      | _ => pure s
  | .refill => do
      let toWrite := s.buffersToWrite.take 2
      let (newBuffer1, toWrite) ← popBack s.newBuffer1 toWrite
      let (newBuffer2, _) ← popBack s.newBuffer2 toWrite
      pure { s with
        newBuffer1 := newBuffer1
        newBuffer2 := newBuffer2
        buffersToWrite := []
        thread_ := .whileTest }
  | .callStop => pure { s with stopper := .called, before := s.lines }
  | .stop => pure { s with stopper := .flagSet, running_ := false }
  | .join => pure { s with stopper := .returned }

/-- Calls of `append` from any threads, the logging thread, and one call of `stop`. -/
def machine : Machine AsyncLogging LoggingStep Fault where
  init s := s = new
  enabled := enabled
  step := step

instance (s : AsyncLogging) (a : LoggingStep) : Decidable (machine.enabled s a) :=
  inferInstanceAs (Decidable (s.enabled a))

variable {s s' : AsyncLogging} {a : LoggingStep} {line : LogLine}

/-- Everything that a step can do, with the tests it has passed. -/
inductive Steps (s : AsyncLogging) : LoggingStep → AsyncLogging → Prop
  | fits {line : LogLine} {current : LogBuffer} :
      s.currentBuffer_ = some current → current.avail > line.length →
      Steps s (.append line) { s with
        lines := s.lines ++ [line], currentBuffer_ := some (current.append line) }
  | next {line : LogLine} {current next : LogBuffer} :
      s.currentBuffer_ = some current → ¬ current.avail > line.length →
      s.nextBuffer_ = some next →
      Steps s (.append line) { s with
        lines := s.lines ++ [line], buffers_ := s.buffers_ ++ [current],
        currentBuffer_ := some (next.append line), nextBuffer_ := none }
  | fresh {line : LogLine} {current : LogBuffer} :
      s.currentBuffer_ = some current → ¬ current.avail > line.length →
      s.nextBuffer_ = none →
      Steps s (.append line) { s with
        lines := s.lines ++ [line], buffers_ := s.buffers_ ++ [current],
        currentBuffer_ := some (LogBuffer.append ⟨s.allocated, []⟩ line),
        allocated := s.allocated + 1 }
  | start : s.thread_ = .notStarted →
      Steps s .start { s with running_ := true, thread_ := .starting }
  | threadFunc : s.thread_ = .starting →
      Steps s .threadFunc { s with
        newBuffer1 := some ⟨s.allocated, []⟩, newBuffer2 := some ⟨s.allocated + 1, []⟩,
        buffersToWrite := [], allocated := s.allocated + 2, thread_ := .whileTest }
  | enter : s.thread_ = .whileTest → s.running_ = true →
      Steps s .whileTest { s with thread_ := .locking }
  | leave : s.thread_ = .whileTest → s.running_ = false →
      Steps s .whileTest { s with thread_ := .exited }
  | wait : s.thread_ = .locking → s.buffers_ = [] →
      Steps s .lock { s with thread_ := .waiting }
  | swap {a : LoggingStep} {current : LogBuffer} :
      s.thread_ = .locking ∨ s.thread_ = .waiting → s.currentBuffer_ = some current →
      a = .lock ∨ a = .wake → Steps s a (s.swapped current)
  | drop : s.thread_ = .swapped → s.buffersToWrite.length > 25 →
      Steps s .drop { s with
        output := s.output ++ [.dropped (s.buffersToWrite.length - 2)],
        buffersToWrite := s.buffersToWrite.take 2, thread_ := .writing 0 }
  | keep : s.thread_ = .swapped → ¬ s.buffersToWrite.length > 25 →
      Steps s .drop { s with thread_ := .writing 0 }
  | write {i : ℕ} {b : LogBuffer} : s.thread_ = .writing i → s.buffersToWrite[i]? = some b →
      Steps s .write { s with
        output := s.output ++ [.data b.data], thread_ := .writing (i + 1) }
  | written {i : ℕ} : s.thread_ = .writing i → s.buffersToWrite[i]? = none →
      Steps s .write { s with thread_ := .refill }
  | refill {p q : BufferPtr} {rest rest' : List LogBuffer} : s.thread_ = .refill →
      popBack s.newBuffer1 (s.buffersToWrite.take 2) = .ok (p, rest) →
      popBack s.newBuffer2 rest = .ok (q, rest') →
      Steps s .refill { s with
        newBuffer1 := p, newBuffer2 := q, buffersToWrite := [], thread_ := .whileTest }
  | callStop : s.stopper = .notCalled → s.thread_ ≠ .notStarted → s.thread_ ≠ .starting →
      Steps s .callStop { s with stopper := .called, before := s.lines }
  | stop : s.stopper = .called → Steps s .stop { s with stopper := .flagSet, running_ := false }
  | join : s.stopper = .flagSet → s.thread_ = .exited →
      Steps s .join { s with stopper := .returned }

theorem append_data_eq {b : LogBuffer} (hb : b.data = []) :
    (b.append line).data = if line.length < kLargeBuffer then line else [] := by
  simp only [LogBuffer.append, LogBuffer.avail, hb, List.length_nil, Nat.sub_zero, gt_iff_lt]
  split
  · simp
  · exact hb

theorem popBack_none {buffers rest : List LogBuffer} {p : BufferPtr}
    (h : popBack none buffers = .ok (p, rest)) :
    ∃ b, buffers = rest ++ [b] ∧ p = some b.reset := by
  simp only [popBack, bind_eq_ok, check_eq_ok, pure_eq_ok, Prod.mk.injEq] at h
  obtain ⟨-, hne, rfl, rfl⟩ := h
  refine ⟨buffers.getLast hne, (List.dropLast_concat_getLast hne).symm, ?_⟩
  rw [List.getLast?_eq_some_getLast hne]
  rfl

theorem popBack_some {buffers rest : List LogBuffer} {b : LogBuffer} {p : BufferPtr}
    (h : popBack (some b) buffers = .ok (p, rest)) : p = some b ∧ rest = buffers := by
  simp only [popBack, pure_eq_ok, Prod.mk.injEq] at h
  exact ⟨h.1.symm, h.2.symm⟩

theorem swap_eq_ok : s.swap = .ok s' ↔ ∃ b, s.currentBuffer_ = some b ∧ s.swapped b = s' := by
  unfold swap
  cases s.currentBuffer_ with
  | none => simp
  | some current => simp

theorem Steps.of_step (he : s.enabled a) (hs : s.step a = .ok s') : s.Steps a s' := by
  cases a with
  | append line =>
    simp only [step, append] at hs
    cases hcurrent : s.currentBuffer_ with
    | none => simp [hcurrent] at hs
    | some current =>
      simp only [hcurrent] at hs
      split at hs
      · rename_i hfits
        obtain rfl := pure_eq_ok.mp hs
        exact .fits hcurrent hfits
      · rename_i hfull
        cases hnext : s.nextBuffer_ with
        | none =>
          simp only [hnext, pure_eq_ok] at hs
          subst hs
          exact hnext ▸ .fresh hcurrent hfull hnext
        | some next =>
          simp only [hnext, pure_eq_ok] at hs
          subst hs
          exact .next hcurrent hfull hnext
  | start =>
    obtain rfl := pure_eq_ok.mp hs
    exact .start he
  | threadFunc =>
    simp only [step, bind_eq_ok, pure_eq_ok] at hs
    obtain ⟨-, -, rfl⟩ := hs
    exact .threadFunc he
  | whileTest =>
    simp only [step] at hs
    split at hs
    · rename_i hrunning
      simp only [bind_eq_ok, pure_eq_ok] at hs
      obtain ⟨-, -, -, -, -, -, rfl⟩ := hs
      exact .enter he hrunning
    · rename_i hrunning
      obtain rfl := pure_eq_ok.mp hs
      exact .leave he (Bool.not_eq_true _ ▸ hrunning)
  | lock =>
    simp only [step] at hs
    split at hs
    · rename_i hempty
      obtain rfl := pure_eq_ok.mp hs
      exact .wait he (List.isEmpty_iff.mp hempty)
    · obtain ⟨current, hcurrent, rfl⟩ := swap_eq_ok.mp hs
      exact .swap (Or.inl he) hcurrent (Or.inl rfl)
  | wake =>
    obtain ⟨current, hcurrent, rfl⟩ := swap_eq_ok.mp hs
    exact .swap (Or.inr he) hcurrent (Or.inr rfl)
  | drop =>
    simp only [step, bind_eq_ok] at hs
    obtain ⟨-, -, hs⟩ := hs
    split at hs
    · rename_i hmany
      obtain rfl := pure_eq_ok.mp hs
      exact .drop he hmany
    · rename_i hfew
      obtain rfl := pure_eq_ok.mp hs
      exact .keep he hfew
  | write =>
    obtain ⟨i, hi⟩ := LoggingPc.exists_writing he
    simp only [step, hi] at hs
    cases hb : s.buffersToWrite[i]? with
    | none =>
      simp only [hb, pure_eq_ok] at hs
      subst hs
      exact .written hi hb
    | some b =>
      simp only [hb, pure_eq_ok] at hs
      subst hs
      exact .write hi hb
  | refill =>
    simp only [step, bind_eq_ok, pure_eq_ok] at hs
    obtain ⟨⟨p, rest⟩, hp, ⟨q, rest'⟩, hq, rfl⟩ := hs
    exact .refill he hp hq
  | callStop =>
    obtain ⟨hstop, hnot, hstarting⟩ := he
    obtain rfl := pure_eq_ok.mp hs
    exact .callStop hstop hnot hstarting
  | stop =>
    obtain rfl := pure_eq_ok.mp hs
    exact .stop he
  | join =>
    obtain rfl := pure_eq_ok.mp hs
    exact .join he.1 he.2

end AsyncLogging

end MuduoServer
