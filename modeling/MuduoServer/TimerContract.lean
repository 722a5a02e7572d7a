import MuduoServer.TimerLedger

/-!
What the users of `TimerId` rely on. A cancellation reaches the timer that it names and no
other, even one that has come to live at the same address. A timer that does not repeat runs
in the first batch that finds its time come, and one that repeats is scheduled again at the
end of each batch.
-/
namespace MuduoServer

open FaultMachine

namespace TimerLoop

open TimerQueue

variable {s s' : TimerLoop} {j : ActiveTimer} {t : Timer}

/-- `cancelInLoop` takes away the timer of `id` if it is pending. One that has expired it
keeps from coming back, and every other timer stays as it is, now and later: when it hears
the same in two runs, one from before the cancellation and one from after it, then it is in
the same status at their ends and has been called as often. -/
structure CancelsOnly (s : TimerLoop) (id : ActiveTimer) (s' : TimerLoop) : Prop where
  pending : ∀ t, s.status id = .pending t → s'.status id = .absent
  expired : ∀ t ran cancelled, s.status id = .expired t ran cancelled →
    s'.status id = .expired t ran true
  created : ∀ t, s.status id = .created t → s'.status id = .created t
  absent : s.status id = .absent → s'.status id = .absent
  runs : s'.runs id = s.runs id
  others : ∀ j ≠ id, s'.status j = s.status j ∧ s'.runs j = s.runs j
  later : ∀ j ≠ id, ∀ as bs u v, machine.Run s as u → machine.Run s' bs v →
    u.phase.isIdle → v.phase.isIdle → heard j s as = heard j s' bs →
    u.status j = v.status j ∧ u.runs j = v.runs j

theorem Good.cancelsOnly {id : ActiveTimer} (h : s.Good) (he : s.Enabled (.cancelInLoop id))
    (hs : s.step (.cancelInLoop id) = .ok s') : CancelsOnly s id s' := by
  obtain ⟨hstatus, hruns⟩ := h.heeds he hs id
  have hnotice : s.notice id (.cancelInLoop id) = .cancel := if_pos rfl
  rw [hnotice] at hstatus hruns
  have hothers : ∀ j ≠ id, s.notice j (.cancelInLoop id) = .nothing :=
    fun j hj => if_neg (Ne.symm hj)
  constructor
  · intro t ht
    rw [hstatus, ht]
    rfl
  · intro t ran cancelled ht
    rw [hstatus, ht]
    rfl
  · intro t ht
    rw [hstatus, ht]
    rfl
  · intro ht
    rw [hstatus, ht]
    rfl
  · rw [hruns, TimerStatus.runs_eq_zero _ (by simp), Nat.add_zero]
  · intro j hj
    obtain ⟨hst, hrun⟩ := h.heeds he hs j
    rw [hothers j hj, TimerStatus.next_nothing] at hst
    rw [hothers j hj, TimerStatus.runs_eq_zero _ (by simp), Nat.add_zero] at hrun
    exact ⟨hst, hrun⟩
  · intro j hj as bs u v hu hv hidleu hidlev hsame
    have hledger : s'.ledger j = s.ledger j := by
      rw [h.ledger_step he hs j, hothers j hj]
      rfl
    have hend : u.ledger j = v.ledger j := by
      rw [h.ledger_run hu j, (h.of_step (a := .cancelInLoop id) he hs).ledger_run hv j, hledger, hsame]
    rw [ledger_idle hidleu, ledger_idle hidlev] at hend
    exact Prod.mk.inj hend

/-- `j` is not cancelled, and every `handleRead` looks at the clock before `w`. -/
def Before (j : ActiveTimer) (w : ℤ) (s : TimerLoop) (a : TimerStep) : Prop :=
  a ≠ .cancelInLoop j ∧ (a = .getExpired → ∀ now, s.phase = .reading now → now < w)

/-- `j` is not cancelled, and the batch goes on. -/
def During (j : ActiveTimer) (_ : TimerLoop) (a : TimerStep) : Prop :=
  a ≠ .cancelInLoop j ∧ a ≠ .reset

theorem Good.stays_pending {a : TimerStep} (h : s.Good) (hst : s.status j = .pending t)
    (hc : Before j t.expiration_ s a) (he : s.Enabled a) (hs : s.step a = .ok s') :
    s'.status j = .pending t ∧ s'.runs j = s.runs j := by
  obtain ⟨hstatus, hruns⟩ := h.heeds he hs j
  have hmeans := s.means j a
  rw [hst] at hstatus hruns
  refine ⟨?_, hruns⟩
  rw [hstatus]
  generalize s.notice j a = n at hmeans
  cases hmeans with
  | cancel => exact absurd rfl hc.1
  | expire hp =>
    have hlt := hc.2 rfl _ hp
    simp only [TimerStatus.next, if_neg (not_le.mpr hlt)]
  | nothing | create | add | run | finish => rfl

/-- In a batch the timer stays in it, and its callback is entered once. -/
theorem Good.stays_expired {a : TimerStep} {ran : Bool} (h : s.Good)
    (hst : s.status j = .expired t ran false) (hc : During j s a) (he : s.Enabled a)
    (hs : s.step a = .ok s') :
    ∃ ran', s'.status j = .expired t ran' false ∧
      s'.runs j + (s'.status j).owed = s.runs j + (s.status j).owed := by
  obtain ⟨hstatus, hruns⟩ := h.heeds he hs j
  have hmeans := s.means j a
  rw [hruns, hstatus, hst]
  generalize s.notice j a = n at hmeans
  cases hmeans with
  | cancel => exact absurd rfl hc.1
  | finish => exact absurd rfl hc.2
  | run =>
    refine ⟨true, rfl, ?_⟩
    cases ran with
    | false => rfl
    | true => rfl
  | nothing | create | add | expire =>
    refine ⟨ran, rfl, ?_⟩
    rw [TimerStatus.runs_eq_zero _ (by simp)]
    rfl

/-- Until `reset` the loop is in the batch that it took out at `now`. -/
theorem stays_calling {a : TimerStep} {now : ℤ}
    (hp : ∃ expired rest, s.phase = .calling now expired rest) (hc : During j s a)
    (he : s.Enabled a) (hs : s.step a = .ok s') :
    ∃ expired rest, s'.phase = .calling now expired rest := by
  obtain ⟨expired, rest, hp⟩ := hp
  cases a with
  | tick | newTimer | addTimerInLoop | cancelInLoop =>
    rw [(step_frame hs).phase rfl]
    exact ⟨expired, rest, hp⟩
  | handleRead =>
    have hidle := Phase.eq_idle he
    rw [hp] at hidle
    cases hidle
  | getExpired =>
    obtain ⟨now', hreading⟩ := Phase.exists_reading he
    rw [hp] at hreading
    cases hreading
  | runTimer =>
    obtain ⟨now', expired', it, rest', hp'⟩ := Phase.exists_calling_of_rest he
    simp only [TimerLoop.step, hp', runNext, bind_eq_ok, pure_eq_ok] at hs
    obtain ⟨t, -, rfl⟩ := hs
    rw [hp] at hp'
    obtain ⟨rfl, -, -⟩ := Phase.calling.inj hp'
    exact ⟨expired', rest', rfl⟩
  | reset => exact absurd rfl hc.2

/-- The rest of a `handleRead` that has read the clock, without a cancellation of `j`. -/
structure Batch (s : TimerLoop) (j : ActiveTimer) (now : ℤ) (s₁ s₂ s₃ : TimerLoop) : Prop where
  reading : s.phase = .reading now
  expires : s.step .getExpired = .ok s₁
  callbacks : ∃ as, (machine.restrict (During j)).Run s₁ as s₂
  done : s₂.Enabled .reset
  resets : s₂.step .reset = .ok s₃

theorem Batch.enabled {now : ℤ} {s₁ s₂ s₃ : TimerLoop} (hb : Batch s j now s₁ s₂ s₃) :
    s.Enabled .getExpired := by
  simp only [Enabled, hb.reading]
  rfl

/-- The batch of a timer whose time has come begins with the timer in it. -/
theorem Batch.begins {now : ℤ} {s₁ s₂ s₃ : TimerLoop} (hb : Batch s j now s₁ s₂ s₃) (h : s.Good)
    (hst : s.status j = .pending t) (hdue : t.expiration_ ≤ now) :
    s₁.status j = .expired t false false ∧ s₁.runs j = s.runs j ∧
      ∃ expired rest, s₁.phase = .calling now expired rest := by
  have hnotice : s.notice j .getExpired = .expire now := by simp only [notice, hb.reading]
  obtain ⟨hst₁, hruns₁⟩ := h.heeds hb.enabled hb.expires j
  rw [hnotice, hst] at hst₁ hruns₁
  simp only [TimerStatus.next, hdue, if_true] at hst₁
  obtain ⟨A, fd, hok, -, -⟩ := h.beginCalling (by rw [hb.reading]; rfl) now
  have hs := hb.expires
  simp only [TimerLoop.step, hb.reading, hok] at hs
  obtain rfl := Except.ok.inj hs
  exact ⟨hst₁, hruns₁, _, _, rfl⟩

/-- It stays there until `reset`, and its callback is entered once. -/
theorem Batch.goesOn {now : ℤ} {s₁ s₂ s₃ : TimerLoop} (hb : Batch s j now s₁ s₂ s₃) (h : s.Good)
    (hst : s.status j = .pending t) (hdue : t.expiration_ ≤ now) :
    s₂.Good ∧ (∃ expired rest, s₂.phase = .calling now expired rest) ∧
      ∃ ran, s₂.status j = .expired t ran false ∧
        s₂.runs j + (s₂.status j).owed = s.runs j + 1 := by
  obtain ⟨hst₁, hruns₁, hcalling⟩ := hb.begins h hst hdue
  obtain ⟨as, hrun⟩ := hb.callbacks
  refine hrun.invariant (I := fun u => u.Good ∧
    (∃ expired rest, u.phase = .calling now expired rest) ∧
    ∃ ran, u.status j = .expired t ran false ∧
      u.runs j + (u.status j).owed = s.runs j + 1) ?_ ?_
  · intro u a u' hinv he hs
    obtain ⟨hg, hp, ran, hu, howed⟩ := hinv
    obtain ⟨ran', hu', howed'⟩ := hg.stays_expired hu he.2 he.1 hs
    exact ⟨hg.of_step he.1 hs, stays_calling hp he.2 he.1 hs, ran', hu', howed'.trans howed⟩
  · refine ⟨h.of_step (a := .getExpired) hb.enabled hb.expires, hcalling, false, hst₁, ?_⟩
    rw [hst₁, hruns₁]
    rfl

/-- When no callback is left, every timer of the batch has run. -/
theorem ran_of_reset {ran cancelled : Bool} (he : s.Enabled .reset)
    (hst : s.status j = .expired t ran cancelled) : ran = true := by
  rcases s.placed j with ⟨-, hst'⟩ | ⟨-, -, -, hst'⟩ | ⟨-, -, -, -, hst'⟩ | ⟨-, -, -, -, hst'⟩
  · cases hst.symm.trans hst'
  · cases hst.symm.trans hst'
  · have heq := hst.symm.trans hst'
    rw [he.2] at heq
    simp only [List.map_nil, List.not_mem_nil, not_false_eq_true, decide_true,
      TimerStatus.expired.injEq] at heq
    exact heq.2.1
  · cases hst.symm.trans hst'

/-- What a batch does with a timer whose time has come. -/
theorem Batch.spec {now : ℤ} {s₁ s₂ s₃ : TimerLoop} (hb : Batch s j now s₁ s₂ s₃) (h : s.Good)
    (hst : s.status j = .pending t) (hdue : t.expiration_ ≤ now) :
    s₁.status j = .expired t false false ∧ s₃.Good ∧ s₃.runs j = s.runs j + 1 ∧
      s₃.status j = if t.repeat_ then .pending (t.restart now) else .absent := by
  obtain ⟨hst₁, -, -⟩ := hb.begins h hst hdue
  obtain ⟨hg₂, ⟨expired, rest, hp₂⟩, ran, hst₂, howed₂⟩ := hb.goesOn h hst hdue
  have hran : ran = true := ran_of_reset hb.done hst₂
  obtain ⟨hst₃, hruns₃⟩ := hg₂.heeds hb.done hb.resets j
  have hfinish : s₂.notice j .reset = .finish now := by simp only [notice, hp₂]
  rw [hfinish, hst₂] at hst₃
  rw [hst₂, hran] at howed₂
  refine ⟨hst₁, hg₂.of_step (a := .reset) hb.done hb.resets, ?_, ?_⟩
  · rw [hruns₃, TimerStatus.runs_eq_zero _ (by simp [hfinish])]
    exact howed₂
  · rw [hst₃]
    simp [TimerStatus.next]

/-- A timer that does not repeat and is not cancelled runs in the first `handleRead` that
finds its time come, and not again. -/
structure RunsOnce (s : TimerLoop) (j : ActiveTimer) (t : Timer) : Prop where
  waits : ∀ as s', (machine.restrict (Before j t.expiration_)).Run s as s' →
    s'.status j = .pending t ∧ s'.runs j = s.runs j
  runs : ∀ as s' now s₁ s₂ s₃, (machine.restrict (Before j t.expiration_)).Run s as s' →
    Batch s' j now s₁ s₂ s₃ → t.expiration_ ≤ now →
    s₁.status j = .expired t false false ∧ s₃.status j = .absent ∧ s₃.runs j = s.runs j + 1
  never : ∀ as s' now s₁ s₂ s₃, (machine.restrict (Before j t.expiration_)).Run s as s' →
    Batch s' j now s₁ s₂ s₃ → t.expiration_ ≤ now →
    ∀ bs u, machine.Run s₃ bs u → u.status j = .absent ∧ u.runs j = s.runs j + 1

/-- A repeating timer that expires in a batch is scheduled again at its end, counted from
the time of the batch. -/
def ComesBack (s : TimerLoop) (j : ActiveTimer) (t : Timer) (delta : ℕ) : Prop :=
  ∀ now s₁ s₂ s₃, Batch s j now s₁ s₂ s₃ → t.expiration_ ≤ now →
    s₃.status j = .pending { t with expiration_ := now + delta } ∧ s₃.runs j = s.runs j + 1

theorem Batch.reachable {now : ℤ} {s₁ s₂ s₃ : TimerLoop} (hb : Batch s j now s₁ s₂ s₃)
    (h : machine.Reachable s) : machine.Reachable s₃ := by
  obtain ⟨as, hrun⟩ := hb.callbacks
  have hbatch : machine.Run s (.getExpired :: (as ++ [.reset])) s₃ :=
    Machine.Run.cons hb.enabled hb.expires
      (Machine.Run.snoc hrun.of_restrict hb.done hb.resets)
  exact h.run hbatch

theorem pending_until {as : List TimerStep} (h : machine.Reachable s)
    (hst : s.status j = .pending t)
    (hr : (machine.restrict (Before j t.expiration_)).Run s as s') :
    s'.status j = .pending t ∧ s'.runs j = s.runs j := by
  have hinv : s'.Good ∧ s'.status j = .pending t ∧ s'.runs j = s.runs j := by
    refine hr.invariant (I := fun u => u.Good ∧ u.status j = .pending t ∧
      u.runs j = s.runs j) ?_ ⟨reachable_good h, hst, rfl⟩
    intro u a u' hu he hs
    obtain ⟨hg, hpending, hruns⟩ := hu
    obtain ⟨hpending', hruns'⟩ := hg.stays_pending hpending he.2 he.1 hs
    exact ⟨hg.of_step he.1 hs, hpending', hruns'.trans hruns⟩
  exact hinv.2

theorem gone_for_good {as : List TimerStep} (h : machine.Reachable s)
    (hst : s.status j = .absent) (hran : 0 < s.runs j) (hr : machine.Run s as s') :
    s'.status j = .absent ∧ s'.runs j = s.runs j := by
  obtain ⟨hg, hnumbered⟩ := reachable_numbered h
  have hissued : j.sequence ≤ s.s_numCreated_ := by
    by_contra hlt
    have hzero := (hnumbered j (not_le.mp hlt)).2
    omega
  have hinv : s'.Good ∧ j.sequence ≤ s'.s_numCreated_ ∧ s'.status j = .absent ∧
      s'.runs j = s.runs j := by
    refine hr.invariant (I := fun u => u.Good ∧ j.sequence ≤ u.s_numCreated_ ∧
      u.status j = .absent ∧ u.runs j = s.runs j) ?_ ⟨hg, hissued, hst, rfl⟩
    intro u a u' hu he hs
    obtain ⟨hgu, hj, habsent, hruns⟩ := hu
    obtain ⟨habsent', hruns'⟩ := hgu.stays_gone hj habsent he hs
    exact ⟨hgu.of_step he hs, hj.trans (step_frame hs).numCreated, habsent', hruns'.trans hruns⟩
  exact hinv.2.2

theorem runsOnce (h : machine.Reachable s) (hst : s.status j = .pending t)
    (honce : t.interval_ = none) : RunsOnce s j t := by
  have hrepeat : t.repeat_ = false := by
    simp only [Timer.repeat_, honce, Option.isSome_none]
  have hbatch : ∀ as s' now s₁ s₂ s₃, (machine.restrict (Before j t.expiration_)).Run s as s' →
      Batch s' j now s₁ s₂ s₃ → t.expiration_ ≤ now →
      s₁.status j = .expired t false false ∧ s₃.status j = .absent ∧
        s₃.runs j = s.runs j + 1 := by
    intro as s' now s₁ s₂ s₃ hr hb hdue
    obtain ⟨hpending, hruns⟩ := pending_until h hst hr
    have hgood := reachable_good (h.run hr.of_restrict)
    obtain ⟨hfirst, -, hcount, hlast⟩ := hb.spec hgood hpending hdue
    rw [hrepeat] at hlast
    exact ⟨hfirst, hlast, by rw [hcount, hruns]⟩
  refine ⟨fun as s' hr => pending_until h hst hr, hbatch, ?_⟩
  intro as s' now s₁ s₂ s₃ hr hb hdue bs u hu
  obtain ⟨-, habsent, hcount⟩ := hbatch as s' now s₁ s₂ s₃ hr hb hdue
  have hreach := hb.reachable (h.run hr.of_restrict)
  obtain ⟨hend, hruns⟩ := gone_for_good hreach habsent (by omega) hu
  exact ⟨hend, hruns.trans hcount⟩

theorem comesBack (h : machine.Reachable s) (hst : s.status j = .pending t) {delta : ℕ}
    (hrepeat : t.interval_ = some delta) : ComesBack s j t delta := by
  intro now s₁ s₂ s₃ hb hdue
  obtain ⟨-, -, hcount, hlast⟩ := hb.spec (reachable_good h) hst hdue
  have hagain : t.repeat_ = true := by simp only [Timer.repeat_, hrepeat, Option.isSome_some]
  have hrestart : t.restart now = { t with expiration_ := now + delta } := by
    simp only [Timer.restart, hrepeat]
  rw [hagain, if_pos rfl, hrestart] at hlast
  exact ⟨hlast, hcount⟩

/-- A timer is pending when it is in the two sets. `addTimer` makes it so, under a new
identifier; a cancellation reaches only the timer it names; a timer that does not repeat runs
once, as soon as a `handleRead` finds its time come; and one that repeats comes back. -/
theorem timer_id_contract (h : machine.Reachable s) :
    (∀ j t, s.status j = .pending t ↔ s.queue.heap j.timer = some t ∧ t.sequence_ = j.sequence ∧
      entry t.expiration_ j.timer ∈ s.queue.timers_ ∧ j ∈ s.queue.activeTimers_) ∧
    (∀ addr when interval s', s.Enabled (.newTimer addr when interval) →
      s.step (.newTimer addr when interval) = .ok s' →
      Adds s addr when interval s' (activeTimer addr (s.s_numCreated_ + 1))) ∧
    (∀ j t s', s.status j = .created t → s.Enabled (.addTimerInLoop j.timer) →
      s.step (.addTimerInLoop j.timer) = .ok s' →
      s'.status j = .pending t ∧ ∀ k ≠ j, s'.status k = s.status k) ∧
    (∀ id s', s.Enabled (.cancelInLoop id) → s.step (.cancelInLoop id) = .ok s' →
      CancelsOnly s id s') ∧
    (∀ j t, s.status j = .pending t → t.interval_ = none → RunsOnce s j t) ∧
    ∀ j t delta, s.status j = .pending t → t.interval_ = some delta → ComesBack s j t delta := by
  obtain ⟨hg, hnumbered⟩ := reachable_numbered h
  refine ⟨fun j t => hg.pending_iff, ?_, ?_, fun id s' he hs => hg.cancelsOnly he hs,
    fun j t hst honce => runsOnce h hst honce, fun j t delta hst hrep => comesBack h hst hrep⟩
  · intro addr when interval s' he hs
    exact hg.adds hnumbered he hs
  · intro j t s' hst he hs
    have hadd : s.notice j (.addTimerInLoop j.timer) = .add := if_pos rfl
    refine ⟨?_, ?_⟩
    · rw [(hg.heeds he hs j).status, hadd, hst]
      rfl
    · intro k hk
      have hnames : Names s.queue j := by
        by_contra hout
        rw [status_absent hout] at hst
        cases hst
      rw [(hg.heeds he hs k).status]
      by_cases ha : k.timer = j.timer
      · rw [status_absent_of_ne hnames ha hk]
        have hnotice : s.notice k (.addTimerInLoop j.timer) = .add := if_pos ha.symm
        rw [hnotice]
        rfl
      · have hnothing : s.notice k (.addTimerInLoop j.timer) = .nothing := if_neg (Ne.symm ha)
        rw [hnothing, TimerStatus.next_nothing]

/-- A timer runs and is deleted, and the next one gets its address. -/
def reusedAddress : List TimerStep :=
  [.newTimer 16 5 none, .addTimerInLoop 16, .tick 200, .handleRead, .getExpired, .runTimer, .reset,
    .newTimer 16 300 none, .addTimerInLoop 16]

theorem timer_id_contract_sample :
    ∃ s, machine.Reachable s ∧ s.status (activeTimer 16 1) = .absent ∧
      s.runs (activeTimer 16 1) = 1 ∧ s.status (activeTimer 16 2) = .pending ⟨300, none, 2⟩ ∧
      RunsOnce s (activeTimer 16 2) ⟨300, none, 2⟩ ∧
      ∃ s', s.step (.cancelInLoop (activeTimer 16 1)) = .ok s' ∧
        CancelsOnly s (activeTimer 16 1) s' ∧
        s'.status (activeTimer 16 2) = .pending ⟨300, none, 2⟩ := by
  have h : ((machine.execute (start 1) reusedAddress).map fun s =>
      (s.status (activeTimer 16 1), s.runs (activeTimer 16 1), s.status (activeTimer 16 2),
        decide (s.Enabled (.cancelInLoop (activeTimer 16 1))))) =
      some (.absent, 1, .pending ⟨300, none, 2⟩, true) := by
    decide +kernel
  obtain ⟨s, hs, hview⟩ := Option.map_eq_some_iff.mp h
  simp only [Prod.mk.injEq, decide_eq_true_eq] at hview
  obtain ⟨habsent, hruns, hpending, he⟩ := hview
  have hreach : machine.Reachable s :=
    ⟨start 1, reusedAddress, ⟨1, by decide, rfl⟩, Machine.run_of_execute _ hs⟩
  obtain ⟨-, -, -, hcancel, honce, -⟩ := timer_id_contract hreach
  obtain ⟨s', hs', -⟩ := (reachable_good hreach).step he
  have hcancels := hcancel _ s' he hs'
  have hother : activeTimer 16 2 ≠ activeTimer 16 1 := by decide
  exact ⟨s, hreach, habsent, hruns, hpending, honce _ _ hpending rfl, s', hs', hcancels,
    (hcancels.others _ hother).1.trans hpending⟩

end TimerLoop

end MuduoServer
