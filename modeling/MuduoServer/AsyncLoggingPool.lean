import MuduoServer.AsyncLogging

/-!
The buffers of `AsyncLogging`. Between the swap and the refill the back end is short of the
buffers it gave to the front end; it gave two only when the front end had used its spare
one, and then at least two full ones came back. So no pointer is null where it is used, no
buffer is owned twice, and the bytes of the lines go through the buffers in order.
-/
namespace MuduoServer

open FaultMachine FaultMachine.Machine

namespace AsyncLogging
variable {s s' : AsyncLogging} {a : LoggingStep} {line : LogLine}

/-- What the back end holds: fresh buffers at the head of an iteration, and from the swap to
the refill enough buffers to replace those given to the front end. -/
def BackEnd (s : AsyncLogging) : LoggingPc → Prop
  | .whileTest | .locking | .waiting =>
      (∃ b, s.newBuffer1 = some b ∧ b.data = []) ∧ (∃ b, s.newBuffer2 = some b ∧ b.data = []) ∧
        s.buffersToWrite = []
  | .swapped | .writing _ | .refill =>
      s.newBuffer1 = none ∧ s.buffersToWrite ≠ [] ∧
        (s.newBuffer2 = none → 2 ≤ s.buffersToWrite.length) ∧
        ∀ b, s.newBuffer2 = some b → b.data = []
  | .notStarted | .starting | .exited => True

structure Pool (s : AsyncLogging) : Prop where
  current : ∃ b, s.currentBuffer_ = some b
  next : s.nextBuffer_ = none → s.buffers_ ≠ []
  spare : ∀ b, s.nextBuffer_ = some b → b.data = []
  backEnd : s.BackEnd s.thread_
  started : s.thread_ = .notStarted ∨ s.thread_ = .starting → s.stopper = .notCalled
  running : s.thread_ = .starting → s.running_ = true

theorem pool_new : new.Pool where
  current := ⟨_, rfl⟩
  next := by simp [new]
  spare b hb := by
    obtain rfl := Option.some.inj hb
    rfl
  backEnd := trivial
  started _ := rfl
  running := by simp [new]

theorem Pool.atSwap (h : s.Pool) (hpc : s.thread_ = .locking ∨ s.thread_ = .waiting) :
    s.BackEnd .locking := by
  have hback := h.backEnd
  rcases hpc with hpc | hpc
  · rw [hpc] at hback
    exact hback
  · rw [hpc] at hback
    exact hback

theorem Pool.swapped {b : LogBuffer} (h : s.Pool)
    (hthread : s.thread_ = .locking ∨ s.thread_ = .waiting) : (s.swapped b).Pool := by
  obtain ⟨⟨b₁, hb₁, hempty₁⟩, ⟨b₂, hb₂, hempty₂⟩, hwrite⟩ := h.atSwap hthread
  refine ⟨⟨b₁, hb₁⟩, ?_, ?_, ⟨rfl, by simp [AsyncLogging.swapped], ?_, ?_⟩,
    by simp [AsyncLogging.swapped], by simp [AsyncLogging.swapped]⟩
  · simp only [AsyncLogging.swapped, hb₂]
    cases s.nextBuffer_ <;> simp
  · intro c hc
    simp only [AsyncLogging.swapped, hb₂] at hc
    cases hnext : s.nextBuffer_ with
    | none =>
      simp only [hnext, Option.isNone_none, if_true, Option.some.injEq] at hc
      exact hc ▸ hempty₂
    | some next =>
      simp only [hnext, Option.isNone_some, Bool.false_eq_true, if_false, Option.some.injEq] at hc
      exact h.spare c (hc ▸ hnext)
  · -- `newBuffer2` went to the front end because a second buffer had come from there
    intro hnone
    have hnext : s.nextBuffer_ = none := by
      cases hnext : s.nextBuffer_ with
      | none => rfl
      | some next => simp [AsyncLogging.swapped, hnext, hb₂] at hnone
    have hpos := List.length_pos_iff.mpr (h.next hnext)
    simp only [AsyncLogging.swapped, List.length_append, List.length_singleton]
    omega
  · intro c hc
    simp only [AsyncLogging.swapped, hb₂] at hc
    split at hc
    · simp at hc
    · obtain rfl := Option.some.inj hc
      exact hempty₂

theorem Pool.refill {p q : BufferPtr} {rest rest' : List LogBuffer}
    (h : s.BackEnd .refill) (hp : popBack s.newBuffer1 (s.buffersToWrite.take 2) = .ok (p, rest))
    (hq : popBack s.newBuffer2 rest = .ok (q, rest')) :
    (∃ b, p = some b ∧ b.data = []) ∧ ∃ b, q = some b ∧ b.data = [] := by
  obtain ⟨h₁, -, -, h₂⟩ := h
  rw [h₁] at hp
  obtain ⟨b₁, -, rfl⟩ := popBack_none hp
  refine ⟨⟨_, rfl, rfl⟩, ?_⟩
  cases hb₂ : s.newBuffer2 with
  | none =>
    rw [hb₂] at hq
    obtain ⟨b, -, rfl⟩ := popBack_none hq
    exact ⟨_, rfl, rfl⟩
  | some b =>
    rw [hb₂] at hq
    obtain ⟨rfl, -⟩ := popBack_some hq
    exact ⟨b, rfl, h₂ b hb₂⟩

/-- What a step of the front end leaves to the back end. -/
theorem BackEnd.congr {pc : LoggingPc} (h : s.BackEnd pc) (h₁ : s'.newBuffer1 = s.newBuffer1)
    (h₂ : s'.newBuffer2 = s.newBuffer2) (hw : s'.buffersToWrite = s.buffersToWrite) :
    s'.BackEnd pc := by
  cases pc <;> simp only [BackEnd, h₁, h₂, hw] at h ⊢ <;> exact h

theorem Pool.step (h : s.Pool) (hs : s.Steps a s') : s'.Pool := by
  have hback := h.backEnd
  cases hs with
  | fits => exact { h with current := ⟨_, rfl⟩, backEnd := hback.congr rfl rfl rfl }
  | next =>
    exact ⟨⟨_, rfl⟩, by simp, by simp, hback.congr rfl rfl rfl, h.started, h.running⟩
  | fresh =>
    exact ⟨⟨_, rfl⟩, by simp, h.spare, hback.congr rfl rfl rfl, h.started, h.running⟩
  | start hpc =>
    exact { h with
      backEnd := trivial
      started := fun _ => h.started (Or.inl hpc)
      running := fun _ => rfl }
  | leave => exact { h with backEnd := trivial, started := by simp, running := by simp }
  | threadFunc =>
    exact { h with
      backEnd := ⟨⟨_, rfl, rfl⟩, ⟨_, rfl, rfl⟩, rfl⟩
      started := by simp
      running := by simp }
  | enter hpc | wait hpc | keep hpc | write hpc | written hpc =>
    rw [hpc] at hback
    exact { h with backEnd := hback, started := by simp, running := by simp }
  | swap hpc => exact h.swapped hpc
  | drop hpc hmany =>
    rw [hpc] at hback
    obtain ⟨h₁, hne, -, h₂⟩ := hback
    refine { h with
      backEnd := ⟨h₁, ?_, fun _ => ?_, h₂⟩, started := by simp, running := by simp }
    · simpa using hne
    · change 2 ≤ (s.buffersToWrite.take 2).length
      rw [List.length_take]
      omega
  | refill hpc hp hq =>
    rw [hpc] at hback
    obtain ⟨hp', hq'⟩ := Pool.refill hback hp hq
    exact { h with backEnd := ⟨hp', hq', rfl⟩, started := by simp, running := by simp }
  | callStop hstop hnot hstarting =>
    exact { h with
      backEnd := hback.congr rfl rfl rfl
      started := fun hpc => absurd hpc (by simp [hnot, hstarting]) }
  | stop hstop =>
    have hpc : ¬ (s.thread_ = .notStarted ∨ s.thread_ = .starting) := by
      intro hpc
      cases (h.started hpc).symm.trans hstop
    exact { h with
      backEnd := hback.congr rfl rfl rfl
      started := fun h => absurd h hpc
      running := fun h => absurd (Or.inr h) hpc }
  | join hstop hpc =>
    exact { h with
      backEnd := hback.congr rfl rfl rfl
      started := fun h => absurd h (by simp [hpc]) }

/-- No pointer that is used is null and no assertion fails. -/
theorem Pool.step_ne_error (h : s.Pool) (he : s.enabled a) (f : Fault) :
    s.step a ≠ .error f := by
  obtain ⟨b, hb⟩ := h.current
  have hback := h.backEnd
  cases a with
  | append line =>
    simp only [AsyncLogging.step, append, hb]
    split
    · simp [pure, Except.pure]
    · split <;> simp [pure, Except.pure]
  | start | callStop | stop | join => simp [AsyncLogging.step, pure, Except.pure]
  | threadFunc =>
    have hrunning := h.running he
    simp [AsyncLogging.step, check_of hrunning, pure, Except.pure]
  | whileTest =>
    rw [show s.thread_ = .whileTest from he] at hback
    obtain ⟨⟨b₁, hb₁, h₁⟩, ⟨b₂, hb₂, h₂⟩, hw⟩ := hback
    simp only [AsyncLogging.step]
    split
    · rw [check_of (by simp [hb₁, h₁]), check_of (by simp [hb₂, h₂]), check_of hw]
      simp [pure, Except.pure]
    · simp [pure, Except.pure]
  | lock =>
    simp only [AsyncLogging.step, swap, hb]
    split <;> simp [pure, Except.pure]
  | wake => simp [AsyncLogging.step, swap, hb, pure, Except.pure]
  | drop =>
    rw [show s.thread_ = .swapped from he] at hback
    simp only [AsyncLogging.step, check_of hback.2.1, ok_bind]
    split <;> simp [pure, Except.pure]
  | write =>
    obtain ⟨i, hi⟩ := LoggingPc.exists_writing he
    simp only [AsyncLogging.step, hi]
    split <;> simp [pure, Except.pure]
  | refill =>
    rw [show s.thread_ = .refill from he] at hback
    obtain ⟨h₁, hne, hlen, -⟩ := hback
    have hne' : s.buffersToWrite.take 2 ≠ [] := by simpa using hne
    have hfirst : popBack none (s.buffersToWrite.take 2) =
        .ok ((s.buffersToWrite.take 2).getLast?.map (·.reset), (s.buffersToWrite.take 2).dropLast) := by
      simp only [popBack, check_of hne', ok_bind]
      rfl
    simp only [AsyncLogging.step, h₁, hfirst, ok_bind]
    cases hb₂ : s.newBuffer2 with
    | some b₂ => simp [popBack, pure, Except.pure]
    | none =>
      have htwo : (s.buffersToWrite.take 2).dropLast ≠ [] := by
        rw [← List.length_pos_iff, List.length_dropLast, List.length_take]
        have h2 := hlen hb₂
        omega
      simp [popBack, check_of htwo, pure, Except.pure]

def ownerCount (buffers : List LogBuffer) (i : ℕ) : ℕ :=
  buffers.countP (·.id = i)

/-- The number of pointers that own the buffer `i`. -/
def owners (s : AsyncLogging) (i : ℕ) : ℕ :=
  ownerCount s.currentBuffer_.toList i + ownerCount s.nextBuffer_.toList i +
    ownerCount s.newBuffer1.toList i + ownerCount s.newBuffer2.toList i +
    ownerCount s.buffers_ i + ownerCount s.buffersToWrite i

structure Owned (s : AsyncLogging) : Prop where
  unique : ∀ i, s.owners i ≤ 1
  allocated : ∀ i, s.allocated ≤ i → s.owners i = 0

section ownerCount
variable {b : LogBuffer} {l l' : List LogBuffer} {i : ℕ}

@[simp] theorem ownerCount_nil : ownerCount [] i = 0 := rfl

@[simp] theorem ownerCount_append :
    ownerCount (l ++ l') i = ownerCount l i + ownerCount l' i := List.countP_append

theorem ownerCount_singleton : ownerCount [b] i = if b.id = i then 1 else 0 := by
  simp [ownerCount, List.countP_cons]

theorem ownerCount_fresh {n : ℕ} : ownerCount [⟨n, []⟩] i = if n = i then 1 else 0 :=
  ownerCount_singleton

theorem ownerCount_take (n : ℕ) : ownerCount (l.take n) i ≤ ownerCount l i :=
  (List.take_sublist n l).countP_le

@[simp] theorem ownerCount_append_line :
    ownerCount [b.append line] i = ownerCount [b] i := by
  have hid : (b.append line).id = b.id := by
    unfold LogBuffer.append
    split <;> rfl
  rw [ownerCount_singleton, ownerCount_singleton, hid]

@[simp] theorem ownerCount_reset : ownerCount [b.reset] i = ownerCount [b] i := by
  rw [ownerCount_singleton, ownerCount_singleton]
  rfl

end ownerCount

theorem owned_new : new.Owned := by
  have hcount : ∀ i, new.owners i = (if 0 = i then 1 else 0) + if 1 = i then 1 else 0 := by
    intro i
    simp [owners, new, ownerCount_singleton]
  refine ⟨fun i => ?_, fun i hi => ?_⟩
  · rw [hcount]
    split <;> split <;> omega
  · have htwo : 2 ≤ i := hi
    rw [hcount, if_neg (by omega), if_neg (by omega)]

/-- Buffers only move between pointers, apart from those that are allocated or deleted. -/
theorem Owned.of_le (h : s.Owned) (hle : s.allocated ≤ s'.allocated)
    (howners : ∀ i, s'.owners i ≤
      s.owners i + if s.allocated ≤ i ∧ i < s'.allocated then 1 else 0) : s'.Owned := by
  refine ⟨fun i => ?_, fun i hi => ?_⟩
  · have hone := h.unique i
    have hzero := h.allocated i
    have hi := howners i
    split at hi <;> omega
  · have hzero := h.allocated i (Nat.le_trans hle hi)
    have hi' := howners i
    rw [if_neg (by omega)] at hi'
    omega

theorem Owned.moves (h : s.Owned) (ha : s'.allocated = s.allocated)
    (howners : ∀ i, s'.owners i ≤ s.owners i) : s'.Owned :=
  h.of_le (Nat.le_of_eq ha.symm) fun i => Nat.le_trans (howners i) (Nat.le_add_right _ _)

theorem popBack_owners {p q : BufferPtr} {l rest : List LogBuffer} (h : popBack p l = .ok (q, rest))
    (i : ℕ) :
    ownerCount q.toList i + ownerCount rest i = ownerCount p.toList i + ownerCount l i := by
  cases p with
  | none =>
    obtain ⟨b, rfl, rfl⟩ := popBack_none h
    simp only [Option.toList_some, Option.toList_none, ownerCount_reset, ownerCount_append,
      ownerCount_nil]
    omega
  | some b =>
    obtain ⟨rfl, rfl⟩ := popBack_some h
    rfl

theorem Owned.step (h : s.Owned) (hs : s.Steps a s') : s'.Owned := by
  cases hs with
  | fits hcurrent =>
    refine h.moves rfl fun i => ?_
    simp [owners, hcurrent]
  | next hcurrent _ hnext =>
    refine h.moves rfl fun i => ?_
    simp only [owners, hcurrent, hnext, Option.toList_some, Option.toList_none,
      ownerCount_append_line, ownerCount_append, ownerCount_nil]
    omega
  | fresh hcurrent _ hnext =>
    refine h.of_le (Nat.le_succ _) fun i => ?_
    simp only [owners, hcurrent, hnext, Option.toList_some, Option.toList_none,
      ownerCount_append_line, ownerCount_append, ownerCount_nil, ownerCount_fresh]
    split <;> split <;> omega
  | threadFunc =>
    refine h.of_le (Nat.le_add_right _ 2) fun i => ?_
    simp only [owners, Option.toList_some, ownerCount_nil, ownerCount_fresh]
    split <;> split <;> split <;> omega
  | swap _ hcurrent =>
    refine h.moves rfl fun i => ?_
    simp only [owners, AsyncLogging.swapped, hcurrent, Option.toList_some, ownerCount_append]
    cases hnext : s.nextBuffer_ with
    | none =>
      simp only [Option.isNone_none, if_true, Option.toList_none, ownerCount_nil]
      omega
    | some next =>
      simp only [Option.isNone_some, Bool.false_eq_true, if_false, Option.toList_none,
        ownerCount_nil]
      omega
  | drop =>
    refine h.moves rfl fun i => ?_
    have htake := ownerCount_take (l := s.buffersToWrite) (i := i) 2
    simp only [owners]
    omega
  | refill _ hp hq =>
    refine h.moves rfl fun i => ?_
    have htake := ownerCount_take (l := s.buffersToWrite) (i := i) 2
    have hfirst := popBack_owners hp i
    have hsecond := popBack_owners hq i
    simp only [owners, ownerCount_nil]
    omega
  | start | enter | leave | wait | keep | write | written | callStop | stop | join =>
    exact ⟨h.unique, h.allocated⟩

/-- The bytes of the lines that fit into a buffer. -/
def stored (lines : List LogLine) : List UInt8 :=
  (lines.filter (·.length < kLargeBuffer)).flatten

def contents (buffers : List LogBuffer) : List UInt8 :=
  (buffers.map (·.data)).flatten

/-- What an iteration keeps of the buffers it swapped out. -/
def kept (batch : List (List UInt8)) : List (List UInt8) :=
  if batch.length > 25 then batch.take 2 else batch

/-- What the iteration still has to write. -/
def unwritten (s : AsyncLogging) : LoggingPc → List UInt8
  | .swapped => (kept (s.buffersToWrite.map (·.data))).flatten
  | .writing i => contents (s.buffersToWrite.drop i)
  | .notStarted | .starting | .whileTest | .locking | .waiting | .refill | .exited => []

def written (s : AsyncLogging) : List UInt8 :=
  s.output.flatMap LogChunk.bytes

def swappedOut (s : AsyncLogging) : List UInt8 :=
  s.batches.flatten.flatten

structure Contents (s : AsyncLogging) : Prop where
  front : s.swappedOut ++ contents s.buffers_ ++ contents s.currentBuffer_.toList =
    stored s.lines
  back : s.written ++ s.unwritten s.thread_ = (s.batches.map kept).flatten.flatten

theorem contents_new : new.Contents := ⟨rfl, rfl⟩

@[simp] theorem contents_append {l l' : List LogBuffer} :
    contents (l ++ l') = contents l ++ contents l' := by
  simp [contents]

@[simp] theorem contents_singleton {b : LogBuffer} : contents [b] = b.data := by
  simp [contents]

theorem stored_append (lines : List LogLine) (line : LogLine) :
    stored (lines ++ [line]) = stored lines ++ if line.length < kLargeBuffer then line else [] := by
  simp only [stored, List.filter_append, List.flatten_append]
  split <;> simp_all

theorem append_data_fits {b : LogBuffer} (h : b.avail > line.length) :
    (b.append line).data = b.data ++ if line.length < kLargeBuffer then line else [] := by
  have hlt : line.length < kLargeBuffer := by
    simp only [LogBuffer.avail] at h
    omega
  rw [LogBuffer.append, if_pos h, if_pos hlt]

theorem Contents.step (h : s.Contents) (hp : s.Pool) (hs : s.Steps a s') : s'.Contents := by
  have hfront := h.front
  have hback := h.back
  cases hs with
  | fits hcurrent hfits =>
    refine ⟨?_, hback⟩
    rw [hcurrent, Option.toList_some, contents_singleton] at hfront
    simp only [stored_append, ← hfront, Option.toList_some, contents_singleton,
      append_data_fits hfits, List.append_assoc]
    rfl
  | next hcurrent _ hnext =>
    refine ⟨?_, hback⟩
    rw [hcurrent, Option.toList_some, contents_singleton] at hfront
    simp only [stored_append, ← hfront, Option.toList_some, contents_singleton, contents_append,
      append_data_eq (hp.spare _ hnext), List.append_assoc]
    rfl
  | fresh hcurrent =>
    refine ⟨?_, hback⟩
    rw [hcurrent, Option.toList_some, contents_singleton] at hfront
    simp only [stored_append, ← hfront, Option.toList_some, contents_singleton, contents_append,
      append_data_eq (b := ⟨s.allocated, []⟩) rfl, List.append_assoc]
    rfl
  | start hpc | threadFunc hpc | enter hpc | leave hpc | wait hpc =>
    rw [hpc] at hback
    exact ⟨hfront, hback⟩
  | @swap _ current hpc hcurrent =>
    have hnone : s.unwritten s.thread_ = [] := by
      rcases hpc with hpc | hpc <;> rw [hpc] <;> rfl
    obtain ⟨⟨b, hb, hdata⟩, -, hwrite⟩ := hp.atSwap hpc
    rw [hnone, List.append_nil] at hback
    rw [hcurrent, Option.toList_some, contents_singleton] at hfront
    refine ⟨?_, ?_⟩
    · simp only [AsyncLogging.swapped, swappedOut, hb, hwrite, Option.toList_some,
        contents_singleton, hdata, List.append_nil, List.flatten_append, List.flatten_cons,
        List.flatten_nil, List.map_append, List.map_cons, List.map_nil]
      rw [← hfront]
      simp [swappedOut, contents]
    · simp only [AsyncLogging.swapped, List.map_append, List.map_cons, List.map_nil,
        List.flatten_append, List.flatten_cons, List.flatten_nil, List.append_nil, unwritten,
        written] at hback ⊢
      rw [← hback]
  | drop hpc hmany =>
    rw [hpc] at hback
    refine ⟨hfront, ?_⟩
    simp only [unwritten, kept, List.length_map, if_pos hmany, ← List.map_take] at hback
    simpa [unwritten, contents, written, LogChunk.bytes] using hback
  | keep hpc hfew =>
    rw [hpc] at hback
    refine ⟨hfront, ?_⟩
    simp only [unwritten, kept, List.length_map, if_neg hfew] at hback
    simpa [unwritten, contents, written] using hback
  | @write i b hpc hb =>
    rw [hpc] at hback
    refine ⟨hfront, ?_⟩
    obtain ⟨hlt, hget⟩ := List.getElem?_eq_some_iff.mp hb
    have hdrop : s.buffersToWrite.drop i = b :: s.buffersToWrite.drop (i + 1) := by
      rw [List.drop_eq_getElem_cons hlt, hget]
    simp only [unwritten, hdrop] at hback
    simpa [unwritten, contents, written, LogChunk.bytes] using hback
  | @written i hpc hb =>
    rw [hpc] at hback
    refine ⟨hfront, ?_⟩
    have hdrop : s.buffersToWrite.drop i = [] := by
      rw [List.drop_eq_nil_iff]
      exact List.getElem?_eq_none_iff.mp hb
    simpa [unwritten, hdrop, contents, written] using hback
  | refill hpc =>
    rw [hpc] at hback
    exact ⟨hfront, hback⟩
  | callStop | stop | join =>
    exact ⟨hfront, hback⟩

structure Good (s : AsyncLogging) : Prop where
  pool : s.Pool
  owned : s.Owned
  contents : s.Contents

theorem good_new : new.Good := ⟨pool_new, owned_new, contents_new⟩

theorem Good.step (h : s.Good) (he : s.enabled a) (hs : s.step a = .ok s') : s'.Good := by
  have hsteps := Steps.of_step he hs
  exact ⟨h.pool.step hsteps, h.owned.step hsteps, h.contents.step h.pool hsteps⟩

/-- What holds of the buffers. The bytes of the lines are those that iterations swapped out,
those in `buffers_` and those in `currentBuffer_`; of what it swapped out an iteration has
written what it does not still have to write, all of it or the first two buffers. -/
structure PoolSafe (s : AsyncLogging) : Prop where
  currentBuffer : s.currentBuffer_ ≠ none
  nextBuffer : s.nextBuffer_ = none → s.buffers_ ≠ []
  head : s.thread_ = .whileTest →
    (∃ b, s.newBuffer1 = some b ∧ b.data = []) ∧ (∃ b, s.newBuffer2 = some b ∧ b.data = []) ∧
      s.buffersToWrite = []
  assertions : ∀ a f, s.enabled a → s.step a ≠ .error f
  owners : ∀ i, s.owners i ≤ 1
  front : s.swappedOut ++ contents s.buffers_ ++ contents s.currentBuffer_.toList =
    s.lines.flatten
  back : s.written ++ s.unwritten s.thread_ = (s.batches.map kept).flatten.flatten
  whole : (∀ batch ∈ s.batches, batch.length ≤ 25) →
    s.written ++ s.unwritten s.thread_ ++ contents s.buffers_ ++
      contents s.currentBuffer_.toList = s.lines.flatten

theorem map_kept {batches : List (List (List UInt8))}
    (h : ∀ batch ∈ batches, batch.length ≤ 25) : batches.map kept = batches := by
  rw [List.map_congr_left (g := id), List.map_id]
  intro batch hb
  exact if_neg (Nat.not_lt.mpr (h batch hb))

theorem Good.poolSafe (h : s.Good) (hlines : ∀ line ∈ s.lines, line.length < kLargeBuffer) :
    s.PoolSafe := by
  have hstored : stored s.lines = s.lines.flatten := by
    rw [stored, List.filter_eq_self.mpr (by simpa using hlines)]
  have hfront := hstored ▸ h.contents.front
  refine ⟨?_, h.pool.next, ?_, fun _ f he => h.pool.step_ne_error he f, h.owned.unique, hfront,
    h.contents.back, ?_⟩
  · obtain ⟨b, hb⟩ := h.pool.current
    simp [hb]
  · intro hpc
    have hback := h.pool.backEnd
    rw [hpc] at hback
    exact hback
  · intro hbatches
    rw [h.contents.back, map_kept hbatches]
    exact hfront

/-- Each line is shorter than a fresh buffer. -/
def Shorter (_ : AsyncLogging) : LoggingStep → Prop
  | .append line => line.length < kLargeBuffer
  | _ => True

instance (s : AsyncLogging) (a : LoggingStep) : Decidable (Shorter s a) :=
  match a with
  | .append line => inferInstanceAs (Decidable (line.length < kLargeBuffer))
  | .start | .threadFunc | .whileTest | .lock | .wake | .drop | .write | .refill | .callStop
  | .stop | .join => instDecidableTrue

instance (s : AsyncLogging) (a : LoggingStep) :
    Decidable ((machine.restrict Shorter).enabled s a) :=
  inferInstanceAs (Decidable (s.enabled a ∧ Shorter s a))

theorem Steps.shorter (hs : s.Steps a s') (ha : Shorter s a)
    (h : ∀ line ∈ s.lines, line.length < kLargeBuffer) :
    ∀ line ∈ s'.lines, line.length < kLargeBuffer := by
  cases hs with
  | fits | next | fresh =>
    intro x hx
    rcases List.mem_append.mp hx with hx | hx
    · exact h x hx
    · exact List.mem_singleton.mp hx ▸ ha
  | start | threadFunc | enter | leave | wait | swap | drop | keep | write | written | refill
  | callStop | stop | join => exact h

end AsyncLogging

end MuduoServer
