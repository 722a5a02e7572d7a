import MuduoServer.FaultMachine
import MuduoServer.Monitor

/-!
`muduo/base/BoundedBlockingQueue.h` and `BlockingQueue.h`: queues between threads. A step
is what a thread does while it holds `mutex_`: it tests the condition of its loop and
waits, or moves its item and notifies. The label says which waiting thread the
notification reaches; threads may also wake up by themselves.
-/
namespace MuduoServer

open FaultMachine FaultMachine.Machine Monitor

/-- `boost::circular_buffer<T>`. A `push_back` to a full one overwrites the front. -/
structure CircularBuffer (α : Type) where
  capacity : ℕ
  items : List α

namespace CircularBuffer
variable {α : Type}

def full (b : CircularBuffer α) : Bool :=
  b.items.length == b.capacity

def push_back (b : CircularBuffer α) (x : α) : CircularBuffer α :=
  { b with items := if b.full then (b.items ++ [x]).tail else b.items ++ [x] }

end CircularBuffer

/-- The call that a thread executes. -/
inductive BlockingCall (α : Type)
  | idle
  | putting (x : α)
  | taking

structure BoundedBlockingQueue (T α : Type) where
  notEmpty_ : Condition T
  notFull_ : Condition T
  queue_ : CircularBuffer α
  call : T → BlockingCall α
  /-- The items in the order in which they were put, and in which they were taken. -/
  put : List α
  taken : List α

inductive QueueStep (T α : Type)
  | callPut (t : T) (x : α)
  | callTake (t : T)
  | put (t : T) (x : α) (notified : Option T)
  | take (t : T) (notified : Option T)
  | wakePut (t : T)
  | wakeTake (t : T)

namespace BoundedBlockingQueue

inductive Fault
  | full
  | empty
  deriving DecidableEq

variable {T α : Type}

def new (maxSize : ℕ) : BoundedBlockingQueue T α :=
  { notEmpty_ := .new
    notFull_ := .new
    queue_ := { capacity := maxSize, items := [] }
    call := fun _ => .idle
    put := []
    taken := [] }

def enabled (s : BoundedBlockingQueue T α) : QueueStep T α → Prop
  | .callPut t _ | .callTake t => s.call t = .idle
  | .put t x w => s.call t = .putting x ∧ t ∈ s.notFull_.ready ∧ s.notEmpty_.Notifies w
  | .take t w => s.call t = .taking ∧ t ∈ s.notEmpty_.ready ∧ s.notFull_.Notifies w
  | .wakePut t => t ∈ s.notFull_.waiting
  | .wakeTake t => t ∈ s.notEmpty_.waiting

variable [DecidableEq T]

def step (s : BoundedBlockingQueue T α) : QueueStep T α → Except Fault (BoundedBlockingQueue T α)
  | .callPut t x =>
      pure { s with
        call := Function.update s.call t (.putting x)
        notFull_ := s.notFull_.resume t }
  | .callTake t =>
      pure { s with
        call := Function.update s.call t .taking
        notEmpty_ := s.notEmpty_.resume t }
  | .put t x w =>
      if s.queue_.full then
        pure { s with notFull_ := s.notFull_.wait t }
      else do
        check (¬ s.queue_.full) .full
        pure { s with
          call := Function.update s.call t .idle
          notFull_ := s.notFull_.leave t
          queue_ := s.queue_.push_back x
          notEmpty_ := s.notEmpty_.notify w
          put := s.put ++ [x] }
  | .take t w =>
      match s.queue_.items with
      | [] => pure { s with notEmpty_ := s.notEmpty_.wait t }
      | front :: rest => do
        check (s.queue_.items.length ≠ 0) .empty
        pure { s with
          call := Function.update s.call t .idle
          notEmpty_ := s.notEmpty_.leave t
          queue_ := { s.queue_ with items := rest }
          notFull_ := s.notFull_.notify w
          taken := s.taken ++ [front] }
  | .wakePut t => pure { s with notFull_ := s.notFull_.resume t }
  | .wakeTake t => pure { s with notEmpty_ := s.notEmpty_.resume t }

/-- Any number of threads that call `put` and `take` at any time. -/
def machine (maxSize : ℕ) : Machine (BoundedBlockingQueue T α) (QueueStep T α) Fault where
  init s := s = new maxSize
  enabled := enabled
  step := step

structure Good (maxSize : ℕ) (s : BoundedBlockingQueue T α) : Prop where
  capacity : s.queue_.capacity = maxSize
  size_le : s.queue_.items.length ≤ maxSize
  fifo : s.put = s.taken ++ s.queue_.items
  takers : s.notEmpty_.Covers s.queue_.items.length
  putters : s.notFull_.Covers (maxSize - s.queue_.items.length)
  inTake : s.notEmpty_.Tracks s.call (· = .taking)
  inPut : s.notFull_.Tracks s.call fun c => ∃ x, c = .putting x

variable {maxSize : ℕ} {s s' : BoundedBlockingQueue T α} {a : QueueStep T α}

omit [DecidableEq T] in
theorem good_new : (new maxSize : BoundedBlockingQueue T α).Good maxSize where
  capacity := rfl
  size_le := Nat.zero_le maxSize
  fifo := rfl
  takers := Condition.covers_new
  putters := Condition.covers_new
  inTake t := by simp [new]
  inPut t := by simp [new]

/-- A put item is appended, as the queue is not full. -/
theorem push_back_items {b : CircularBuffer α} {x : α} (h : ¬ b.full) :
    (b.push_back x).items = b.items ++ [x] := if_neg h

omit [DecidableEq T] in
theorem Good.not_full_iff (h : s.Good maxSize) :
    ¬ s.queue_.full ↔ s.queue_.items.length < maxSize := by
  have hle := h.size_le
  simp only [CircularBuffer.full, h.capacity, beq_iff_eq]
  omega

theorem Good.step (h : s.Good maxSize) (he : s.enabled a) (hs : s.step a = .ok s') :
    s'.Good maxSize := by
  cases a with
  | callPut t x =>
    have hidle : s.call t = .idle := he
    obtain rfl := pure_eq_ok.mp hs
    exact { h with
      putters := h.putters.resume
      inTake := h.inTake.frame (by simp [hidle]) (by simp)
      inPut := h.inPut.enter ⟨x, rfl⟩ }
  | callTake t =>
    have hidle : s.call t = .idle := he
    obtain rfl := pure_eq_ok.mp hs
    exact { h with
      takers := h.takers.resume
      inTake := h.inTake.enter rfl
      inPut := h.inPut.frame (by simp [hidle]) (by simp) }
  | put t x w =>
    obtain ⟨hcall, hready, hw⟩ := he
    simp only [BoundedBlockingQueue.step] at hs
    split at hs
    · rename_i hfull
      obtain rfl := pure_eq_ok.mp hs
      refine { h with putters := ?_, inPut := h.inPut.wait ⟨x, hcall⟩ }
      have hlen := mt h.not_full_iff.mpr (not_not.mpr hfull)
      have hnone : maxSize - s.queue_.items.length = 0 := by omega
      change (s.notFull_.wait t).Covers (maxSize - s.queue_.items.length)
      rw [hnone]
      exact Condition.covers_zero
    · rename_i hfull
      simp only [bind_eq_ok, check_eq_ok, pure_eq_ok] at hs
      obtain ⟨-, -, rfl⟩ := hs
      have hlt := h.not_full_iff.mp hfull
      have hitems := push_back_items (x := x) hfull
      have hlen : (s.queue_.push_back x).items.length = s.queue_.items.length + 1 := by
        simp [hitems]
      refine ⟨h.capacity, ?_, ?_, ?_, ?_, ?_, h.inPut.leave hready (by simp)⟩
      · change (s.queue_.push_back x).items.length ≤ maxSize
        omega
      · simp [hitems, h.fifo]
      · change (s.notEmpty_.notify w).Covers (s.queue_.push_back x).items.length
        rw [hlen]
        exact h.takers.notify hw
      · change (s.notFull_.leave t).Covers (maxSize - (s.queue_.push_back x).items.length)
        rw [hlen]
        exact (h.putters.mono (by omega)).leave hready
      · exact (h.inTake.notify hw).frame (by simp [hcall]) (by simp)
  | take t w =>
    obtain ⟨hcall, hready, hw⟩ := he
    simp only [BoundedBlockingQueue.step] at hs
    split at hs
    · rename_i hempty
      obtain rfl := pure_eq_ok.mp hs
      refine { h with takers := ?_, inTake := h.inTake.wait hcall }
      change (s.notEmpty_.wait t).Covers s.queue_.items.length
      rw [hempty]
      exact Condition.covers_zero
    · rename_i front rest hcons
      simp only [bind_eq_ok, check_eq_ok, pure_eq_ok] at hs
      obtain ⟨-, -, rfl⟩ := hs
      have hlen : s.queue_.items.length = rest.length + 1 := by simp [hcons]
      have hle := h.size_le
      have htakers := h.takers
      have hputters := h.putters
      rw [hlen] at hle htakers hputters
      refine ⟨h.capacity, ?_, ?_, htakers.leave hready, ?_, h.inTake.leave hready (by simp), ?_⟩
      · change rest.length ≤ maxSize
        omega
      · simp [h.fifo, hcons]
      · change (s.notFull_.notify w).Covers (maxSize - rest.length)
        exact (hputters.notify hw).mono (by omega)
      · exact (h.inPut.notify hw).frame (by simp [hcall]) (by simp)
  | wakePut t =>
    obtain rfl := pure_eq_ok.mp hs
    exact { h with
      putters := h.putters.resume
      inPut := h.inPut.resume ((h.inPut t).mp (Or.inr he)) }
  | wakeTake t =>
    obtain rfl := pure_eq_ok.mp hs
    exact { h with
      takers := h.takers.resume
      inTake := h.inTake.resume ((h.inTake t).mp (Or.inr he)) }

/-- What users of the queue rely on. A thread that waits is not notified yet; a ready one
has entered the call, been notified or woken up by itself. -/
structure Safe (maxSize : ℕ) (s : BoundedBlockingQueue T α) : Prop where
  size_le : s.queue_.items.length ≤ maxSize
  fifo : s.put = s.taken ++ s.queue_.items
  assertions : ∀ a f, s.enabled a → s.step a ≠ .error f
  takers : s.notEmpty_.waiting.Nonempty →
    s.queue_.items = [] ∨ ∃ t w, s.enabled (.take t w)
  putters : s.notFull_.waiting.Nonempty →
    s.queue_.items.length = maxSize ∨ ∃ t x w, s.enabled (.put t x w)

theorem step_ne_error (f : Fault) : s.step a ≠ .error f := by
  cases a with
  | callPut | callTake | wakePut | wakeTake => simp [step, pure, Except.pure]
  | put t x w =>
    simp only [step]
    split
    · simp [pure, Except.pure]
    · rename_i hfull
      rw [check_of hfull]
      simp [pure, Except.pure]
  | take t w =>
    simp only [step]
    split
    · simp [pure, Except.pure]
    · rename_i front rest hcons
      rw [check_of (by simp [hcons])]
      simp [pure, Except.pure]

theorem Good.safe (h : s.Good maxSize) : s.Safe maxSize where
  size_le := h.size_le
  fifo := h.fifo
  assertions _ f _ := step_ne_error f
  takers hwaiting := by
    rw [or_iff_not_imp_left]
    intro hne
    obtain ⟨t, ht⟩ := h.takers.exists_ready hwaiting (List.length_pos_iff.mpr hne)
    obtain ⟨w, hw⟩ := s.notFull_.exists_notifies
    exact ⟨t, w, (h.inTake t).mp (Or.inl ht), ht, hw⟩
  putters hwaiting := by
    have hle := h.size_le
    rw [or_iff_not_imp_left]
    intro hne
    obtain ⟨t, ht⟩ := h.putters.exists_ready hwaiting (by omega)
    obtain ⟨w, hw⟩ := s.notEmpty_.exists_notifies
    obtain ⟨x, hx⟩ := (h.inPut t).mp (Or.inl ht)
    exact ⟨t, x, w, hx, ht, hw⟩

theorem Good.of_reachable (hs : (machine maxSize).Reachable s) : s.Good maxSize := by
  refine hs.invariant ?_ fun _ _ _ => Good.step
  rintro _ rfl
  exact good_new

end BoundedBlockingQueue

/-- `put` never waits here. -/
structure BlockingQueue (T α : Type) where
  notEmpty_ : Condition T
  queue_ : List α
  put : List α
  taken : List α

inductive BlockingStep (T α : Type)
  | put (t : T) (x : α) (notified : Option T)
  | callTake (t : T)
  | take (t : T)
  | wakeTake (t : T)

namespace BlockingQueue

inductive Fault
  | empty
  deriving DecidableEq

variable {T α : Type}

def new : BlockingQueue T α :=
  { notEmpty_ := .new
    queue_ := []
    put := []
    taken := [] }

/-- A thread inside `take` makes no other call. -/
def enabled (s : BlockingQueue T α) : BlockingStep T α → Prop
  | .put t _ w => ¬ s.notEmpty_.Inside t ∧ s.notEmpty_.Notifies w
  | .callTake t => ¬ s.notEmpty_.Inside t
  | .take t => t ∈ s.notEmpty_.ready
  | .wakeTake t => t ∈ s.notEmpty_.waiting

variable [DecidableEq T]

def step (s : BlockingQueue T α) : BlockingStep T α → Except Fault (BlockingQueue T α)
  | .put _ x w =>
      pure { s with
        queue_ := s.queue_ ++ [x]
        notEmpty_ := s.notEmpty_.notify w
        put := s.put ++ [x] }
  | .callTake t => pure { s with notEmpty_ := s.notEmpty_.resume t }
  | .take t =>
      match s.queue_ with
      | [] => pure { s with notEmpty_ := s.notEmpty_.wait t }
      | front :: rest => do
        check (s.queue_.length ≠ 0) .empty
        pure { s with
          notEmpty_ := s.notEmpty_.leave t
          queue_ := rest
          taken := s.taken ++ [front] }
  | .wakeTake t => pure { s with notEmpty_ := s.notEmpty_.resume t }

def machine : Machine (BlockingQueue T α) (BlockingStep T α) Fault where
  init s := s = new
  enabled := enabled
  step := step

structure Good (s : BlockingQueue T α) : Prop where
  fifo : s.put = s.taken ++ s.queue_
  takers : s.notEmpty_.Covers s.queue_.length

structure Safe (s : BlockingQueue T α) : Prop where
  fifo : s.put = s.taken ++ s.queue_
  assertions : ∀ a f, s.enabled a → s.step a ≠ .error f
  takers : s.notEmpty_.waiting.Nonempty → s.queue_ = [] ∨ ∃ t, s.enabled (.take t)

variable {s s' : BlockingQueue T α} {a : BlockingStep T α}

theorem Good.step (h : s.Good) (he : s.enabled a) (hs : s.step a = .ok s') : s'.Good := by
  cases a with
  | put t x w =>
    obtain ⟨-, hw⟩ := he
    obtain rfl := pure_eq_ok.mp hs
    refine ⟨by simp [h.fifo], ?_⟩
    change (s.notEmpty_.notify w).Covers (s.queue_ ++ [x]).length
    rw [List.length_append]
    exact h.takers.notify hw
  | callTake t | wakeTake t =>
    obtain rfl := pure_eq_ok.mp hs
    exact ⟨h.fifo, h.takers.resume⟩
  | take t =>
    simp only [BlockingQueue.step] at hs
    split at hs
    · rename_i hempty
      obtain rfl := pure_eq_ok.mp hs
      refine ⟨h.fifo, ?_⟩
      change (s.notEmpty_.wait t).Covers s.queue_.length
      rw [hempty]
      exact Condition.covers_zero
    · rename_i front rest hcons
      simp only [bind_eq_ok, check_eq_ok, pure_eq_ok] at hs
      obtain ⟨-, -, rfl⟩ := hs
      have htakers := h.takers
      rw [hcons] at htakers
      exact ⟨by simp [h.fifo, hcons], htakers.leave he⟩

theorem step_ne_error (f : Fault) : s.step a ≠ .error f := by
  cases a with
  | put | callTake | wakeTake => simp [step, pure, Except.pure]
  | take t =>
    simp only [step]
    split
    · simp [pure, Except.pure]
    · rename_i front rest hcons
      rw [check_of (by simp [hcons])]
      simp [pure, Except.pure]

theorem Good.safe (h : s.Good) : s.Safe where
  fifo := h.fifo
  assertions _ f _ := step_ne_error f
  takers hwaiting := by
    rw [or_iff_not_imp_left]
    intro hne
    obtain ⟨t, ht⟩ := h.takers.exists_ready hwaiting (List.length_pos_iff.mpr hne)
    exact ⟨t, ht⟩

theorem Good.of_reachable (hs : machine.Reachable s) : s.Good := by
  refine hs.invariant ?_ fun _ _ _ => Good.step
  rintro _ rfl
  exact ⟨rfl, Condition.covers_new⟩

end BlockingQueue

end MuduoServer
