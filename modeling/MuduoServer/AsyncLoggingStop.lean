import MuduoServer.AsyncLoggingPool

/-!
What is in the file when `AsyncLogging::stop` returns. The thread leaves its loop at the
next test of `running_` without another swap, so the lines are written exactly when the
flag finds the thread between that test and the swap, or finds them swapped out already.
A line of the size of a buffer is never stored, as `FixedBuffer` keeps one byte free.
-/
namespace MuduoServer

open FaultMachine FaultMachine.Machine

namespace AsyncLogging
variable {s s' : AsyncLogging} {a : LoggingStep} {line : LogLine}

/-- The lines of at most the size of a buffer that were appended before `stop()` was called
are in the file, and the file has the bytes of the lines in order and nothing else. -/
def Delivered (s : AsyncLogging) : Prop :=
  (s.before.filter (·.length ≤ kLargeBuffer)).flatten <+: s.written ∧ s.written <+: stored s.lines

/-- No line has exactly the size of a buffer, and `running_` is cleared before the swap of an
iteration that has begun or when all lines are swapped out. -/
def InTime (s : AsyncLogging) : LoggingStep → Prop
  | .append line => s.stopper = .notCalled → line.length ≠ kLargeBuffer
  | .stop => s.thread_ = .locking ∨ s.thread_ = .waiting ∨ stored s.before <+: s.swappedOut
  | .start | .threadFunc | .whileTest | .lock | .wake | .drop | .write | .refill | .callStop
  | .join => True

instance (s : AsyncLogging) (a : LoggingStep) : Decidable (InTime s a) :=
  match a with
  | .append line =>
    inferInstanceAs (Decidable (s.stopper = .notCalled → line.length ≠ kLargeBuffer))
  | .stop =>
    inferInstanceAs (Decidable
      (s.thread_ = .locking ∨ s.thread_ = .waiting ∨ stored s.before <+: s.swappedOut))
  | .start | .threadFunc | .whileTest | .lock | .wake | .drop | .write | .refill | .callStop
  | .join => instDecidableTrue

instance (s : AsyncLogging) (a : LoggingStep) :
    Decidable ((machine.restrict InTime).enabled s a) :=
  inferInstanceAs (Decidable (s.enabled a ∧ InTime s a))

/-- The lines appended before the call are swapped out, or will be by this iteration. -/
def Covered (s : AsyncLogging) : Prop :=
  s.thread_ = .locking ∨ s.thread_ = .waiting ∨ stored s.before <+: s.swappedOut

structure Stopping (s : AsyncLogging) : Prop where
  before : s.before <+: s.lines
  sizes : s.stopper = .notCalled → ∀ line ∈ s.lines, line.length ≠ kLargeBuffer
  beforeSizes : ∀ line ∈ s.before, line.length ≠ kLargeBuffer
  flagSet : s.stopper = .flagSet ∨ s.stopper = .returned → s.running_ = false ∧ s.Covered
  returned : s.stopper = .returned → s.thread_ = .exited

theorem stopping_new : new.Stopping where
  before := List.prefix_refl _
  sizes _ := by simp [new]
  beforeSizes := by simp [new]
  flagSet := by simp [new]
  returned := by simp [new]

theorem stored_prefix {lines lines' : List LogLine} (h : lines <+: lines') :
    stored lines <+: stored lines' := by
  obtain ⟨rest, rfl⟩ := h
  simp only [stored, List.filter_append, List.flatten_append]
  exact List.prefix_append _ _

theorem Contents.swappedOut_prefix (h : s.Contents) : s.swappedOut <+: stored s.lines := by
  rw [← h.front, List.append_assoc]
  exact List.prefix_append _ _

/-- The swap takes all lines. -/
theorem swappedOut_swapped {b : LogBuffer} (h : s.Contents) (hb : s.currentBuffer_ = some b) :
    (s.swapped b).swappedOut = stored s.lines := by
  rw [← h.front, hb]
  simp [swappedOut, swapped, contents]

/-- The thread has not begun or is past the swap, and does what leaves that so. -/
theorem Covered.past (h : s.Covered) (hlock : s.thread_ ≠ .locking) (hwait : s.thread_ ≠ .waiting)
    (hbefore : s'.before = s.before) (hbatches : s'.batches = s.batches) : s'.Covered := by
  obtain hpc | hpc | hstored := h
  · exact absurd hpc hlock
  · exact absurd hpc hwait
  · refine Or.inr (Or.inr ?_)
    simpa only [swappedOut, hbefore, hbatches] using hstored

/-- A line appended later does not count. -/
theorem Stopping.append {buffers : List LogBuffer} {current next : BufferPtr} {n : ℕ}
    (h : s.Stopping) (hcond : s.stopper = .notCalled → line.length ≠ kLargeBuffer) :
    Stopping { s with
      lines := s.lines ++ [line], buffers_ := buffers, currentBuffer_ := current,
      nextBuffer_ := next, allocated := n } := by
  refine { h with before := h.before.trans (List.prefix_append _ _), sizes := ?_ }
  intro hstop x hx
  rcases List.mem_append.mp hx with hx | hx
  · exact h.sizes hstop x hx
  · exact List.mem_singleton.mp hx ▸ hcond hstop

theorem Stopping.step (h : s.Stopping) (hgood : s.Good) (hs : s.Steps a s') (ha : InTime s a) :
    s'.Stopping := by
  have hexited := h.returned
  cases hs with
  | fits | next | fresh => exact h.append ha
  | start hpc =>
    have hnot := hgood.pool.started (Or.inl hpc)
    exact { h with flagSet := by simp [hnot], returned := by simp [hnot] }
  | threadFunc hpc =>
    have hnot := hgood.pool.started (Or.inr hpc)
    exact { h with flagSet := by simp [hnot], returned := by simp [hnot] }
  | enter hpc hrunning =>
    refine { h with flagSet := fun hstop => ?_, returned := fun hstop => ?_ }
    · cases hrunning.symm.trans (h.flagSet hstop).1
    · cases hpc.symm.trans (hexited hstop)
  | leave hpc =>
    refine { h with flagSet := fun hstop => ?_, returned := fun _ => rfl }
    exact ⟨(h.flagSet hstop).1, (h.flagSet hstop).2.past (by simp [hpc]) (by simp [hpc]) rfl rfl⟩
  | wait hpc =>
    refine { h with flagSet := fun hstop => ?_, returned := fun hstop => ?_ }
    · exact ⟨(h.flagSet hstop).1, Or.inr (Or.inl rfl)⟩
    · cases hpc.symm.trans (hexited hstop)
  | swap hpc hcurrent =>
    refine { h with flagSet := fun hstop => ?_, returned := fun hstop => ?_ }
    · refine ⟨(h.flagSet hstop).1, Or.inr (Or.inr ?_)⟩
      rw [swappedOut_swapped hgood.contents hcurrent]
      exact stored_prefix h.before
    · rcases hpc with hpc | hpc <;> cases hpc.symm.trans (hexited hstop)
  | drop hpc | keep hpc | write hpc | written hpc | refill hpc =>
    refine { h with flagSet := fun hstop => ?_, returned := fun hstop => ?_ }
    · exact ⟨(h.flagSet hstop).1, (h.flagSet hstop).2.past (by simp [hpc]) (by simp [hpc]) rfl rfl⟩
    · cases hpc.symm.trans (hexited hstop)
  | callStop hstop =>
    exact ⟨List.prefix_refl _, by simp, h.sizes hstop, by simp, by simp⟩
  | stop =>
    exact ⟨h.before, by simp, h.beforeSizes, fun _ => ⟨rfl, ha⟩, by simp⟩
  | join hstop hpc =>
    exact ⟨h.before, by simp, h.beforeSizes, fun _ => h.flagSet (Or.inl hstop), fun _ => hpc⟩

theorem Stopping.delivered (h : s.Stopping) (hgood : s.Good) (hstop : s.stopper = .returned)
    (hbatches : ∀ batch ∈ s.batches, batch.length ≤ 25) : s.Delivered := by
  have hpc := h.returned hstop
  have hwritten : s.written = s.swappedOut := by
    have hback := hgood.contents.back
    rw [hpc, map_kept hbatches] at hback
    simpa [unwritten, swappedOut] using hback
  have hsizes : s.before.filter (·.length ≤ kLargeBuffer) =
      s.before.filter (·.length < kLargeBuffer) := by
    refine List.filter_congr fun line hline => ?_
    have hne := h.beforeSizes line hline
    rw [decide_eq_decide]
    omega
  have hcovered : stored s.before <+: s.swappedOut := by
    rcases (h.flagSet (Or.inr hstop)).2 with hlock | hwait | hstored
    · cases hpc.symm.trans hlock
    · cases hpc.symm.trans hwait
    · exact hstored
  rw [Delivered, hwritten, hsizes]
  exact ⟨hcovered, hgood.contents.swappedOut_prefix⟩

/-- In a run whose steps are all in time and which drops no buffers, everything is in the
file when `stop()` returns. -/
theorem stop_loses_nothing (hs : (machine.restrict InTime).Reachable s)
    (hstop : s.stopper = .returned) (hbatches : ∀ batch ∈ s.batches, batch.length ≤ 25) :
    s.Delivered := by
  have hgood : s.Good ∧ s.Stopping := by
    refine hs.invariant (I := fun s => s.Good ∧ s.Stopping) ?_ ?_
    · rintro _ rfl
      exact ⟨good_new, stopping_new⟩
    · intro s a s' h he hstep
      exact ⟨h.1.step he.1 hstep, h.2.step h.1 (Steps.of_step he.1 hstep) he.2⟩
  exact hgood.2.delivered hgood.1 hstop hbatches

/-- The flag finds the thread in its wait: the line is written. -/
theorem stop_loses_nothing_waiting :
    ∃ s : AsyncLogging, s.before = [[65, 10]] ∧ s.written = [65, 10] ∧ s.Delivered := by
  have h : ((machine.restrict InTime).execute new
      [.start, .threadFunc, .append [65, 10], .whileTest, .lock, .callStop, .stop, .wake, .drop,
        .write, .write, .refill, .whileTest, .join]).map
      (fun s => (s.before, s.written, s.stopper, s.batches)) =
        some ([[65, 10]], [65, 10], .returned, [[[65, 10]]]) := by
    decide +kernel
  obtain ⟨s, hs, hview⟩ := Option.map_eq_some_iff.mp h
  simp only [Prod.mk.injEq] at hview
  obtain ⟨hbefore, hwritten, hstop, hbatches⟩ := hview
  refine ⟨s, hbefore, hwritten, stop_loses_nothing ⟨new, _, rfl, run_of_execute _ hs⟩ hstop ?_⟩
  simp [hbatches]

/-- The flag finds the thread before its test: the line is lost. -/
theorem stop_loses_line :
    ∃ s : AsyncLogging, machine.Reachable s ∧ s.stopper = .returned ∧ s.batches = [] ∧
      ¬ s.Delivered := by
  have h : (machine.execute new
      [.start, .threadFunc, .append [65, 10], .callStop, .stop, .whileTest, .join]).map
      (fun s => (s.before, s.written, s.stopper, s.batches)) =
        some ([[65, 10]], [], .returned, []) := by
    decide +kernel
  obtain ⟨s, hs, hview⟩ := Option.map_eq_some_iff.mp h
  simp only [Prod.mk.injEq] at hview
  obtain ⟨hbefore, hwritten, hstop, hbatches⟩ := hview
  refine ⟨s, ⟨new, _, rfl, run_of_execute _ hs⟩, hstop, hbatches, ?_⟩
  rw [Delivered, hbefore, hwritten]
  exact fun hdelivered => absurd hdelivered.1 (by decide)

end AsyncLogging

end MuduoServer
