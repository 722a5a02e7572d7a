import MuduoServer.TimerLife

/-!
What a timer hears. Each kind of notice comes from one kind of step, and a sequence number
is given out once, so that a timer that is gone stays gone. What has become of a timer at the
end of a run is settled by the calls for it and by the times at which `handleRead` looks at
the clock; the turns within a batch add nothing to that.
-/
namespace MuduoServer

open FaultMachine

namespace TimerStatus

/-- The status with no regard to whether the callback was entered in this batch. -/
def settled : TimerStatus → TimerStatus
  | .expired t _ cancelled => .expired t true cancelled
  | st => st

/-- The calls of the callback that the batch still owes to the timer. -/
def owed : TimerStatus → ℕ
  | .expired _ false _ => 1
  | _ => 0

/-- The calls of the callback that a notice brings with it. -/
def gains : TimerStatus → TimerNotice → ℕ
  | .pending t, .expire now => if t.expiration_ ≤ now then 1 else 0
  | _, _ => 0

theorem settled_next (st : TimerStatus) {n : TimerNotice} (hn : n ≠ .run) :
    (st.next n).settled = (st.settled.next n).settled := by
  cases st with
  | absent => rfl
  | created t => rfl
  | pending t => rfl
  | expired t ran cancelled =>
    cases n with
    | run => exact absurd rfl hn
    | nothing | create | add | cancel | expire | finish => rfl

theorem settled_next_run (st : TimerStatus) : (st.next .run).settled = st.settled := by
  cases st <;> rfl

theorem runs_add_owed (st : TimerStatus) {n : TimerNotice}
    (hfinish : ∀ now, n = .finish now → st.owed = 0) :
    st.runs n + (st.next n).owed = st.owed + st.settled.gains n := by
  cases st with
  | absent => cases n <;> rfl
  | created t => cases n <;> rfl
  | pending t =>
    cases n with
    | expire now =>
      simp only [next, gains, settled]
      split
      · rfl
      · rfl
    | nothing | create | add | cancel | run | finish => rfl
  | expired t ran cancelled =>
    cases n with
    | finish now =>
      cases ran with
      | false => exact absurd (hfinish now rfl) one_ne_zero
      | true =>
        simp only [next]
        split
        · rfl
        · rfl
    | nothing | create | add | cancel | expire | run => cases ran <;> rfl

end TimerStatus

namespace TimerNotice

/-- What the user and the clock bring about, as against the turns within a batch. -/
def heard : TimerNotice → List TimerNotice
  | .nothing | .run => []
  | n => [n]

end TimerNotice

namespace TimerLoop

open TimerQueue

variable {s s' : TimerLoop} {j : ActiveTimer} {t : Timer}

/-- The steps that bring each notice to `j`. -/
inductive Means (s : TimerLoop) (j : ActiveTimer) : TimerStep → TimerNotice → Prop
  | nothing (a : TimerStep) : Means s j a .nothing
  | create {addr : ℕ} {when : ℤ} {interval : Option ℕ}
      (hj : j = activeTimer addr (s.s_numCreated_ + 1)) :
      Means s j (.newTimer addr when interval) (.create ⟨when, interval, s.s_numCreated_ + 1⟩)
  | add : Means s j (.addTimerInLoop j.timer) .add
  | cancel : Means s j (.cancelInLoop j) .cancel
  | expire {now : ℤ} (hp : s.phase = .reading now) : Means s j .getExpired (.expire now)
  | run : Means s j .runTimer .run
  | finish {now : ℤ} {expired rest : List Entry} (hp : s.phase = .calling now expired rest) :
      Means s j .reset (.finish now)

theorem means (s : TimerLoop) (j : ActiveTimer) (a : TimerStep) : s.Means j a (s.notice j a) := by
  cases a with
  | tick | handleRead => exact .nothing _
  | newTimer addr when interval =>
    simp only [notice]
    split
    · rename_i hj
      exact .create hj
    · exact .nothing _
  | addTimerInLoop addr =>
    simp only [notice]
    split
    · rename_i ha
      exact ha ▸ .add
    · exact .nothing _
  | cancelInLoop id =>
    simp only [notice]
    split
    · rename_i hid
      exact hid ▸ .cancel
    · exact .nothing _
  | getExpired =>
    cases hp : s.phase with
    | reading now =>
      simp only [notice, hp]
      exact .expire hp
    | idle | calling =>
      simp only [notice, hp]
      exact .nothing _
  | runTimer =>
    simp only [notice]
    split
    · split
      · exact .run
      · exact .nothing _
    · exact .nothing _
  | reset =>
    cases hp : s.phase with
    | calling now expired rest =>
      simp only [notice, hp]
      exact .finish hp
    | idle | reading =>
      simp only [notice, hp]
      exact .nothing _

/-- No live timer and no callback has a number that was not given out. -/
def Numbered (s : TimerLoop) : Prop :=
  ∀ j : ActiveTimer, s.s_numCreated_ < j.sequence → s.status j = .absent ∧ s.runs j = 0

/-- The timers in flight after a step. -/
def flying (s : TimerLoop) : TimerStep → List ℕ
  | .newTimer addr _ _ => addr :: s.inFlight
  | .addTimerInLoop addr => s.inFlight.erase addr
  | .tick _ | .cancelInLoop _ | .handleRead | .getExpired | .runTimer | .reset => s.inFlight

def movesPhase : TimerStep → Bool
  | .handleRead | .getExpired | .runTimer | .reset => true
  | .tick _ | .newTimer _ _ _ | .addTimerInLoop _ | .cancelInLoop _ => false

/-- What a step does outside the queue. -/
structure Frame (s : TimerLoop) (a : TimerStep) (s' : TimerLoop) : Prop where
  inFlight : s'.inFlight = s.flying a
  numCreated : s.s_numCreated_ ≤ s'.s_numCreated_
  phase : movesPhase a = false → s'.phase = s.phase

theorem step_frame {a : TimerStep} (hs : s.step a = .ok s') : Frame s a s' := by
  cases a with
  | tick =>
    rw [← pure_eq_ok.mp hs]
    exact ⟨rfl, le_refl _, fun _ => rfl⟩
  | newTimer =>
    rw [← pure_eq_ok.mp hs]
    exact ⟨rfl, Nat.le_succ _, fun _ => rfl⟩
  | addTimerInLoop | cancelInLoop =>
    simp only [TimerLoop.step, bind_eq_ok, pure_eq_ok] at hs
    obtain ⟨q, -, rfl⟩ := hs
    exact ⟨rfl, le_refl _, fun _ => rfl⟩
  | handleRead =>
    rw [← pure_eq_ok.mp hs]
    exact ⟨rfl, le_refl _, by simp [movesPhase]⟩
  | getExpired =>
    simp only [TimerLoop.step] at hs
    split at hs
    · simp only [beginCalling, bind_eq_ok, pure_eq_ok] at hs
      obtain ⟨r, -, rfl⟩ := hs
      exact ⟨rfl, le_refl _, by simp [movesPhase]⟩
    · rw [← pure_eq_ok.mp hs]
      exact ⟨rfl, le_refl _, fun _ => rfl⟩
  | runTimer =>
    simp only [TimerLoop.step] at hs
    split at hs
    · simp only [runNext, bind_eq_ok, pure_eq_ok] at hs
      obtain ⟨t, -, rfl⟩ := hs
      exact ⟨rfl, le_refl _, by simp [movesPhase]⟩
    · rw [← pure_eq_ok.mp hs]
      exact ⟨rfl, le_refl _, fun _ => rfl⟩
  | reset =>
    simp only [TimerLoop.step] at hs
    split at hs
    · simp only [endCalling, bind_eq_ok, pure_eq_ok] at hs
      obtain ⟨q, -, rfl⟩ := hs
      exact ⟨rfl, le_refl _, by simp [movesPhase]⟩
    · rw [← pure_eq_ok.mp hs]
      exact ⟨rfl, le_refl _, fun _ => rfl⟩

theorem start_numbered (clock : ℤ) : (start clock).Numbered := by
  intro j _
  exact ⟨rfl, rfl⟩

/-- A timer that is gone, and whose number was given out, never comes back. -/
theorem Good.stays_gone {a : TimerStep} (h : s.Good) (hj : j.sequence ≤ s.s_numCreated_)
    (hst : s.status j = .absent) (he : s.Enabled a) (hs : s.step a = .ok s') :
    s'.status j = .absent ∧ s'.runs j = s.runs j := by
  obtain ⟨hstatus, hruns⟩ := h.heeds he hs j
  have hmeans := s.means j a
  rw [hst] at hstatus hruns
  refine ⟨?_, hruns⟩
  rw [hstatus]
  generalize s.notice j a = n at hmeans
  cases hmeans with
  | create hj' =>
    rw [hj'] at hj
    exact absurd hj (Nat.not_succ_le_self _)
  | nothing | add | cancel | expire | run | finish => rfl

theorem Numbered.step {a : TimerStep} (h : s.Numbered) (hg : s.Good) (he : s.Enabled a)
    (hs : s.step a = .ok s') : s'.Numbered := by
  intro j hj
  have hmono := (step_frame hs).numCreated
  obtain ⟨hst, hzero⟩ := h j (by omega)
  obtain ⟨hstatus, hruns⟩ := hg.heeds he hs j
  have hmeans := s.means j a
  rw [hst] at hstatus hruns
  refine ⟨?_, hruns.trans hzero⟩
  rw [hstatus]
  generalize s.notice j a = n at hmeans
  cases hmeans with
  | create hj' =>
    rw [← pure_eq_ok.mp hs, hj'] at hj
    exact absurd hj (Nat.lt_irrefl _)
  | nothing | add | cancel | expire | run | finish => rfl

theorem reachable_numbered (h : machine.Reachable s) : s.Good ∧ s.Numbered := by
  apply h.invariant
  · intro s hinit
    obtain ⟨clock, -, rfl⟩ := hinit
    exact ⟨start_good clock, start_numbered clock⟩
  · intro s a s' hinv he hs
    exact ⟨hinv.1.of_step he hs, hinv.2.step hinv.1 he hs⟩

/-- `addTimer` gives out a number that no timer has had, and schedules its timer. -/
structure Adds (s : TimerLoop) (addr : ℕ) (when : ℤ) (interval : Option ℕ) (s' : TimerLoop)
    (id : ActiveTimer) : Prop where
  unused : s.status id = .absent ∧ s.runs id = 0
  created : s'.status id = .created ⟨when, interval, id.sequence⟩ ∧ s'.runs id = 0
  others : ∀ j ≠ id, s'.status j = s.status j ∧ s'.runs j = s.runs j

theorem Good.adds {addr : ℕ} {when : ℤ} {interval : Option ℕ} (h : s.Good) (hn : s.Numbered)
    (he : s.Enabled (.newTimer addr when interval))
    (hs : s.step (.newTimer addr when interval) = .ok s') :
    Adds s addr when interval s' (activeTimer addr (s.s_numCreated_ + 1)) := by
  have hheeds := h.heeds he hs
  have hunused := hn (activeTimer addr (s.s_numCreated_ + 1)) (Nat.lt_succ_self _)
  refine ⟨hunused, ?_, ?_⟩
  · obtain ⟨hst, hrun⟩ := hheeds (activeTimer addr (s.s_numCreated_ + 1))
    have hnotice : s.notice (activeTimer addr (s.s_numCreated_ + 1))
        (.newTimer addr when interval) = .create ⟨when, interval, s.s_numCreated_ + 1⟩ := if_pos rfl
    rw [hnotice, hunused.1] at hst hrun
    exact ⟨hst, hrun.trans hunused.2⟩
  · intro j hj
    obtain ⟨hst, hrun⟩ := hheeds j
    have hnotice : s.notice j (.newTimer addr when interval) = .nothing := if_neg hj
    rw [hnotice, TimerStatus.next_nothing] at hst
    rw [hnotice, TimerStatus.runs_eq_zero _ (by simp), Nat.add_zero] at hrun
    exact ⟨hst, hrun⟩

/-- The calls for `j` and the times of `handleRead` along the labels. -/
def heard (j : ActiveTimer) : TimerLoop → List TimerStep → List TimerNotice
  | _, [] => []
  | s, a :: as =>
    match s.step a with
    | .ok s' => (s.notice j a).heard ++ heard j s' as
    | .error _ => []

/-- A status, and the calls of the callback so far with those still owed, after a notice. -/
def account (p : TimerStatus × ℕ) (n : TimerNotice) : TimerStatus × ℕ :=
  ((p.1.next n).settled, p.2 + p.1.gains n)

def ledger (s : TimerLoop) (j : ActiveTimer) : TimerStatus × ℕ :=
  ((s.status j).settled, s.runs j + (s.status j).owed)

theorem Good.ledger_step {a : TimerStep} (h : s.Good) (he : s.Enabled a)
    (hs : s.step a = .ok s') (j : ActiveTimer) :
    s'.ledger j = (s.notice j a).heard.foldl account (s.ledger j) := by
  obtain ⟨hstatus, hruns⟩ := h.heeds he hs j
  have hmeans := s.means j a
  -- `reset` comes after the last callback of the batch
  have hfinish : ∀ now, s.notice j a = .finish now → (s.status j).owed = 0 := by
    intro now hn
    rw [hn] at hmeans
    cases hmeans
    have hrest := he.2
    rcases s.placed j with ⟨-, hst⟩ | ⟨-, -, -, hst⟩ | ⟨-, -, -, -, hst⟩ | ⟨-, -, -, -, hst⟩
    · rw [hst]
      rfl
    · rw [hst]
      rfl
    · rw [hst, hrest]
      rfl
    · rw [hst]
      rfl
  have howed := (s.status j).runs_add_owed hfinish
  have htotal : s'.runs j + (s'.status j).owed =
      s.runs j + (s.status j).owed + (s.status j).settled.gains (s.notice j a) := by
    rw [hruns, hstatus]
    omega
  unfold ledger
  rw [htotal, hstatus]
  generalize s.notice j a = n
  cases n with
  | nothing =>
    rw [TimerStatus.next_nothing]
    simp [TimerNotice.heard, TimerStatus.gains]
  | run =>
    rw [TimerStatus.settled_next_run]
    simp [TimerNotice.heard, TimerStatus.gains]
  | create | add | cancel | expire | finish =>
    rw [TimerStatus.settled_next _ (by simp)]
    rfl

/-- What becomes of a timer over a run is settled by what it hears. -/
theorem Good.ledger_run {as : List TimerStep} (h : s.Good) (hr : machine.Run s as s')
    (j : ActiveTimer) : s'.ledger j = (heard j s as).foldl account (s.ledger j) := by
  induction as generalizing s with
  | nil =>
    rw [hr.eq_of_nil]
    rfl
  | cons a as ih =>
    obtain ⟨m, he, hs, hrest⟩ := hr.uncons
    have hs' : s.step a = .ok m := hs
    rw [ih (h.of_step he hs) hrest, h.ledger_step he hs' j]
    simp only [heard, hs', List.foldl_append]

/-- Outside a batch nothing is owed. -/
theorem ledger_idle (hidle : s.phase.isIdle) : s.ledger j = (s.status j, s.runs j) := by
  have hphase := Phase.eq_idle hidle
  unfold ledger
  rcases s.placed j with ⟨-, hst⟩ | ⟨-, -, -, hst⟩ | ⟨-, -, -, hexp, -⟩ | ⟨-, -, -, -, hst⟩
  · rw [hst]
    rfl
  · rw [hst]
    rfl
  · rw [hphase] at hexp
    cases hexp
  · rw [hst]
    rfl

end TimerLoop

end MuduoServer
