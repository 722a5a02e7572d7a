import MuduoServer.TimerStatus

/-!
Every step of the loop moves a timer's status by what the step means to that timer. One
lemma for each operation says so, from the operation's effect on the heap and on the batch.
The number of a timer is never used twice, so a timer that is gone stays gone.
-/
namespace MuduoServer

open FaultMachine

namespace TimerStatus

@[simp] theorem next_nothing (st : TimerStatus) : st.next .nothing = st := by
  cases st <;> rfl

theorem runs_eq_zero (st : TimerStatus) {n : TimerNotice} (hn : n ≠ .run) : st.runs n = 0 := by
  unfold TimerStatus.runs
  split
  · exact absurd rfl hn
  · rfl

end TimerStatus

namespace TimerLoop

open TimerQueue

variable {s s' : TimerLoop} {j : ActiveTimer}

/-- From `s` to `s'` the timer `j` does what the notice `n` asks. -/
structure Heeds (s s' : TimerLoop) (j : ActiveTimer) (n : TimerNotice) : Prop where
  status : s'.status j = (s.status j).next n
  runs : s'.runs j = s.runs j + (s.status j).runs n

/-- A step that enters no callback. -/
theorem Heeds.quiet {n : TimerNotice} (hn : n ≠ .run)
    (hevents : s'.events.count (.ran j) = s.events.count (.ran j))
    (hstatus : s'.status j = (s.status j).next n) : Heeds s s' j n := by
  refine ⟨hstatus, ?_⟩
  rw [TimerStatus.runs_eq_zero _ hn]
  exact hevents

/-- A step that does not concern `j`. -/
theorem Heeds.unconcerned (hevents : s'.events.count (.ran j) = s.events.count (.ran j))
    (hstatus : s'.status j = s.status j) : Heeds s s' j .nothing := by
  apply Heeds.quiet
  · intro h
    cases h
  · exact hevents
  · rw [hstatus, TimerStatus.next_nothing]

theorem Good.not_both (h : s.Good) {a : ℕ} (hexp : a ∈ s.phase.expired.map Entry.timer) :
    a ∉ s.inFlight :=
  fun hflight => (List.nodup_append.mp h.owned.nodup).2.2 _ hexp _ hflight rfl

theorem newTimer_heeds (haddr : s.queue.heap addr = none) {when : ℤ} {interval : Option ℕ} :
    Heeds s { s with
      queue := s.queue.store addr (some ⟨when, interval, s.s_numCreated_ + 1⟩)
      s_numCreated_ := s.s_numCreated_ + 1
      inFlight := addr :: s.inFlight } j (s.notice j (.newTimer addr when interval)) := by
  by_cases hj : j = activeTimer addr (s.s_numCreated_ + 1)
  · have hnotice : s.notice j (.newTimer addr when interval) =
        .create ⟨when, interval, s.s_numCreated_ + 1⟩ := if_pos hj
    have habsent : s.status j = .absent := by
      apply status_absent
      rw [names_iff]
      intro hnames
      obtain ⟨t, ht, -⟩ := hnames
      rw [hj] at ht
      cases haddr.symm.trans ht
    rw [hnotice]
    apply Heeds.quiet
    · intro h
      cases h
    · rfl
    · rw [habsent]
      apply status_created
      · rw [hj]
        exact Function.update_self _ _ _
      · rw [hj]
        rfl
      · rw [hj]
        exact List.mem_cons_self
  · have hnotice : s.notice j (.newTimer addr when interval) = .nothing := if_neg hj
    rw [hnotice]
    refine Heeds.unconcerned rfl ?_
    by_cases ha : j.timer = addr
    · have hbefore : ¬ Names s.queue j := by
        rw [names_iff, ha, haddr]
        intro hnames
        obtain ⟨t, ht, -⟩ := hnames
        cases ht
      rw [status_absent hbefore]
      apply status_absent
      intro hnames
      rcases hnames.store_some with heq | ⟨hne, -⟩
      · exact hj heq
      · exact hne ha
    · apply status_congr
      · exact Function.update_of_ne ha _ _
      · simp [ha]
      · exact ⟨rfl, rfl⟩
      · exact Iff.rfl

theorem Good.addTimerInLoop_heeds (h : s.Good) {addr : ℕ} (haddr : addr ∈ s.inFlight)
    {q' : TimerQueue} (hheap : q'.heap = s.queue.heap)
    (hcancel : q'.cancelingTimers_ = s.queue.cancelingTimers_) :
    Heeds s { s with queue := q', inFlight := s.inFlight.erase addr } j
      (s.notice j (.addTimerInLoop addr)) := by
  have hnodup : s.inFlight.Nodup := (List.nodup_append.mp h.owned.nodup).2.1
  by_cases ha : addr = j.timer
  · have hnotice : s.notice j (.addTimerInLoop addr) = .add := if_pos ha
    have hexp : j.timer ∉ s.phase.expired.map Entry.timer :=
      fun hexp => h.not_both hexp (ha ▸ haddr)
    rw [hnotice]
    apply Heeds.quiet
    · intro h
      cases h
    · rfl
    · rcases s.placed j with ⟨hnames, hst⟩ | ⟨ht, hseq, -, hst⟩ | ⟨-, -, -, hin, -⟩ |
        ⟨-, -, hflight, -, -⟩
      · rw [hst]
        apply status_absent
        simpa only [Names, hheap] using hnames
      · rw [hst]
        apply status_pending
        · rw [hheap]
          exact ht
        · exact hseq
        · rw [← ha]
          exact hnodup.not_mem_erase
        · exact hexp
      · exact absurd hin hexp
      · exact absurd (ha ▸ haddr) hflight
  · have hnotice : s.notice j (.addTimerInLoop addr) = .nothing := if_neg ha
    rw [hnotice]
    refine Heeds.unconcerned rfl ?_
    apply status_congr
    · rw [hheap]
    · exact List.mem_erase_of_ne (Ne.symm ha)
    · exact ⟨rfl, rfl⟩
    · rw [hcancel]

theorem count_ran_cancelled (events : List TimerEvent) (id : ActiveTimer) :
    (events ++ [TimerEvent.cancelled id]).count (TimerEvent.ran j) =
      events.count (TimerEvent.ran j) := by
  simp [List.count_append]

theorem Good.cancelInLoop_heeds (h : s.Good) {id : ActiveTimer} {q' : TimerQueue}
    (hs : s.queue.cancelInLoop id = .ok q') :
    Heeds s { s with queue := q', events := s.events ++ [.cancelled id] } j
      (s.notice j (.cancelInLoop id)) := by
  obtain ⟨q₁, hok, -, hshape⟩ := h.owned.cancelInLoop id
  obtain rfl := Except.ok.inj (hs.symm.trans hok)
  by_cases hid : id = j
  · subst hid
    have hnotice : s.notice id (.cancelInLoop id) = .cancel := if_pos rfl
    rw [hnotice]
    refine Heeds.quiet (by simp) (count_ran_cancelled _ _) ?_
    rcases hshape with ⟨t, hact, ht, hseq, rfl⟩ | ⟨hout, hcalling, rfl⟩ | ⟨hout, hcalling, rfl⟩
    · obtain ⟨t', ht', -, hentry⟩ := h.owned.active id.timer id.sequence hact
      obtain rfl := Option.some.inj (ht.symm.trans ht')
      have hpending := h.pending_iff.mpr ⟨ht, hseq, hentry, hact⟩
      rw [hpending]
      apply status_absent
      rw [names_iff]
      intro hnames
      obtain ⟨t', ht', -⟩ := hnames
      simp [cancelled, TimerQueue.store] at ht'
    · rcases s.placed id with ⟨hnames, hst⟩ | ⟨ht, hseq, hflight, hst⟩ |
        ⟨ht, hseq, hflight, hexp, hst⟩ | ⟨-, -, -, -, hst⟩
      · rw [hst]
        exact status_absent hnames
      · rw [hst]
        exact status_created ht hseq hflight
      · rw [hst]
        have hin : id ∈ (s.queue.cancelingTimers_.insert id).1 :=
          OrderedSet.mem_insert.mpr (Or.inl rfl)
        have hafter := status_expired (s := { s with
          queue := { s.queue with cancelingTimers_ := (s.queue.cancelingTimers_.insert id).1 }
          events := s.events ++ [.cancelled id] }) ht hseq hflight hexp
        rw [hafter]
        simp [TimerStatus.next, hin]
      · exact absurd (h.pending_iff.mp hst).2.2.2 hout
    · rcases s.placed id with ⟨hnames, hst⟩ | ⟨ht, hseq, hflight, hst⟩ |
        ⟨-, -, -, hexp, -⟩ | ⟨-, -, -, -, hst⟩
      · rw [hst]
        exact status_absent hnames
      · rw [hst]
        exact status_created ht hseq hflight
      · have hflag := h.calling_of_expired hexp
        rw [hcalling] at hflag
        cases hflag
      · exact absurd (h.pending_iff.mp hst).2.2.2 hout
  · have hnotice : s.notice j (.cancelInLoop id) = .nothing := if_neg hid
    rw [hnotice]
    refine Heeds.unconcerned (count_ran_cancelled _ _) ?_
    rcases hshape with ⟨t, hact, ht, hseq, rfl⟩ | ⟨-, -, rfl⟩ | ⟨-, -, rfl⟩
    · by_cases ha : j.timer = id.timer
      · -- a later or an earlier timer at the same address
        rw [status_absent_of_ne (names_iff.mpr ⟨t, ht, hseq⟩) ha (Ne.symm hid)]
        apply status_absent
        intro hnames
        have hstore : Names (s.queue.store id.timer none) j := hnames
        exact hstore.store_none.1 ha
      · refine status_congr ?_ Iff.rfl ⟨rfl, rfl⟩ Iff.rfl
        exact Function.update_of_ne ha _ _
    · refine status_congr rfl Iff.rfl ⟨rfl, rfl⟩ ?_
      rw [OrderedSet.mem_insert]
      simp [Ne.symm hid]
    · exact status_congr rfl Iff.rfl ⟨rfl, rfl⟩ Iff.rfl

/-- `getExpired` takes out the pending timers whose time has come by `now`. -/
theorem Good.getExpired_heeds (h : s.Good) {now : ℤ} (hp : s.phase = .reading now)
    {A : OrderedSet ActiveTimer} {fd : Option ℤ} :
    Heeds s { s with
      queue := { s.queue with
        timers_ := s.queue.timers_.eraseBelow (sentry now)
        activeTimers_ := A
        callingExpiredTimers_ := true
        cancelingTimers_ := OrderedSet.empty
        timerfd := fd }
      phase := .calling now (s.queue.timers_.below (sentry now))
        (s.queue.timers_.below (sentry now)) } j (s.notice j .getExpired) := by
  have hnotice : s.notice j .getExpired = .expire now := by simp only [notice, hp]
  have hexp : s.phase.expired = [] := by
    rw [hp]
    rfl
  have hbelow : ∀ a, a ∈ (s.queue.timers_.below (sentry now)).map Entry.timer ↔
      ∃ w, entry w a ∈ s.queue.timers_ ∧ w ≤ now := by
    intro a
    rw [List.mem_map]
    constructor
    · intro hin
      obtain ⟨e, he, rfl⟩ := hin
      exact ⟨e.when, h.owned.mem_expired.mp he⟩
    · intro hin
      obtain ⟨w, hw⟩ := hin
      exact ⟨entry w a, h.owned.mem_expired.mpr hw, rfl⟩
  rw [hnotice]
  refine Heeds.quiet (by simp) rfl ?_
  rcases s.placed j with ⟨hnames, hst⟩ | ⟨ht, hseq, hflight, hst⟩ |
    ⟨-, -, -, hin, -⟩ | @⟨t, ht, hseq, hflight, -, hst⟩
  · rw [hst]
    exact status_absent hnames
  · rw [hst]
    exact status_created ht hseq hflight
  · rw [hexp] at hin
    cases hin
  · have hentry := (h.pending_iff.mp hst).2.2.1
    rw [hst]
    by_cases hdue : t.expiration_ ≤ now
    · have hin := (hbelow j.timer).mpr ⟨_, hentry, hdue⟩
      simp only [TimerStatus.next, hdue, if_true]
      have hafter := status_expired (s := { s with
        queue := { s.queue with
          timers_ := s.queue.timers_.eraseBelow (sentry now)
          activeTimers_ := A
          callingExpiredTimers_ := true
          cancelingTimers_ := OrderedSet.empty
          timerfd := fd }
        phase := .calling now (s.queue.timers_.below (sentry now))
          (s.queue.timers_.below (sentry now)) }) ht hseq hflight hin
      rw [hafter]
      simp only [Phase.rest, hin, not_true_eq_false, decide_false, OrderedSet.not_mem_empty]
    · have hout : j.timer ∉ (s.queue.timers_.below (sentry now)).map Entry.timer := by
        rw [hbelow]
        intro hin
        obtain ⟨w, hw, hle⟩ := hin
        have heq := h.owned.eq_of_timer_eq hw hentry rfl
        rw [(entry_inj.mp heq).1] at hle
        exact hdue hle
      simp only [TimerStatus.next, hdue, if_false]
      exact status_pending ht hseq hflight hout

/-- The callback at the head of the batch is entered. -/
theorem Good.runNext_heeds (h : s.Good) {now : ℤ} {expired rest : List Entry} {it : Entry}
    (hp : s.phase = .calling now expired (it :: rest)) (hs : s.runNext now expired it rest = .ok s') :
    Heeds s s' j (s.notice j .runTimer) := by
  simp only [runNext, bind_eq_ok, pure_eq_ok] at hs
  obtain ⟨t, hderef, rfl⟩ := hs
  have ht : s.queue.heap it.timer = some t := deref_eq_ok.mp hderef
  have hsuffix := h.suffix
  have hnodup : (s.phase.expired.map Entry.timer).Nodup := (List.nodup_append.mp h.owned.nodup).1
  rw [hp] at hsuffix hnodup
  have hrest : it.timer ∉ rest.map Entry.timer := by
    have hsub : ((it :: rest).map Entry.timer).Nodup := hnodup.sublist (hsuffix.sublist.map _)
    rw [List.map_cons, List.nodup_cons] at hsub
    exact hsub.1
  have hmem : it.timer ∈ expired.map Entry.timer :=
    List.mem_map_of_mem (hsuffix.subset List.mem_cons_self)
  by_cases ha : it.timer = j.timer
  · have hnotice : s.notice j .runTimer = .run := by simp [notice, hp, Phase.rest, ha]
    rw [hnotice]
    rcases s.placed j with ⟨hnames, hst⟩ | ⟨-, -, hflight, -⟩ |
      @⟨t', ht', hseq, hflight, hexp, hst⟩ | ⟨-, -, -, hexp, -⟩
    · have hne : t.sequence_ ≠ j.sequence :=
        fun hseq => hnames (names_iff.mpr ⟨t, ha ▸ ht, hseq⟩)
      have hevent : activeTimer it.timer t.sequence_ ≠ j := fun heq => hne (heq ▸ rfl)
      constructor
      · rw [hst]
        exact status_absent hnames
      · rw [hst]
        simp [runs, List.count_append, hevent, TimerStatus.runs]
    · have hout := h.not_both (a := j.timer) (by rw [hp, ← ha]; exact hmem)
      exact absurd hflight hout
    · rw [← ha, ht] at ht'
      obtain rfl := Option.some.inj ht'
      have hin : j.timer ∈ s.phase.rest.map Entry.timer := by
        rw [hp, ← ha]
        exact List.mem_map_of_mem List.mem_cons_self
      have hevent : activeTimer it.timer t.sequence_ = j := by
        rw [ha, hseq]
        rfl
      have hexp' : j.timer ∈ expired.map Entry.timer := ha ▸ hmem
      have hrest' : j.timer ∉ rest.map Entry.timer := ha ▸ hrest
      constructor
      · have hafter := status_expired (s := { s with
          phase := .calling now expired rest
          events := s.events ++ [.ran (activeTimer it.timer t.sequence_)] })
          (ha ▸ ht) hseq hflight hexp'
        rw [hafter, hst]
        simp only [TimerStatus.next, Phase.rest, hrest', not_false_eq_true, decide_true]
      · rw [hst]
        simp [runs, List.count_append, hevent, TimerStatus.runs, hin]
    · rw [hp] at hexp
      exact absurd (ha ▸ hmem) hexp
  · have hnotice : s.notice j .runTimer = .nothing := by simp [notice, hp, Phase.rest, ha]
    have hevent : activeTimer it.timer t.sequence_ ≠ j := fun heq => ha (heq ▸ rfl)
    rw [hnotice]
    refine Heeds.unconcerned ?_ ?_
    · simp [List.count_append, hevent]
    · have hkeep : j.timer ∉ rest.map Entry.timer ↔ j.timer ∉ (it :: rest).map Entry.timer := by
        simp [Ne.symm ha]
      simp only [status, hp, Phase.expired, Phase.rest, hkeep]

theorem restarted_sequence {q : TimerQueue} {now : ℤ} {a : ℕ} {t : Timer}
    (h : q.restarted now a = some t) :
    ∃ t₀, q.heap a = some t₀ ∧ t₀.sequence_ = t.sequence_ := by
  unfold restarted at h
  cases hheap : q.heap a with
  | none => simp [hheap] at h
  | some t₀ =>
    simp only [hheap] at h
    split at h
    · obtain rfl := Option.some.inj h
      exact ⟨t₀, rfl, (sequence_restart t₀ now).symm⟩
    · cases h

/-- `reset` restarts the repeating timers of the batch that were not cancelled and deletes
the others. -/
theorem Good.endCalling_heeds (h : s.Good) {now : ℤ} {expired : List Entry}
    (hp : s.phase = .calling now expired []) (hs : s.endCalling now expired = .ok s') :
    Heeds s s' j (s.notice j .reset) := by
  have hnotice : s.notice j .reset = .finish now := by simp only [notice, hp]
  have howned := h.owned
  rw [hp] at howned
  have hstart : ({ s.queue with callingExpiredTimers_ := false } : TimerQueue).Owned
      (expired.map Entry.timer ++ s.inFlight) := howned.congr rfl rfl rfl
  simp only [endCalling, TimerQueue.reset, bind_eq_ok, pure_eq_ok] at hs
  obtain ⟨q', ⟨q₁, hok, next, -, rfl⟩, rfl⟩ := hs
  have hheap : ∀ a, (if 0 < next then q₁.resetTimerfd next s.clock else q₁).heap a =
      if a ∈ expired.map Entry.timer then s.queue.restarted now a else s.queue.heap a := by
    intro a
    have hsame : (if 0 < next then q₁.resetTimerfd next s.clock else q₁).heap = q₁.heap := by
      split
      · rfl
      · rfl
    rw [hsame]
    exact hstart.restartExpired_heap hok a
  have hexpired : s.phase.expired = expired := by
    rw [hp]
    rfl
  rw [hnotice]
  refine Heeds.quiet (by simp) rfl ?_
  rcases s.placed j with ⟨hnames, hst⟩ | ⟨ht, hseq, hflight, hst⟩ |
    @⟨t, ht, hseq, hflight, hexp, hst⟩ | ⟨ht, hseq, hflight, hexp, hst⟩
  · rw [hst]
    apply status_absent
    rw [names_iff, hheap]
    intro hafter
    obtain ⟨t, ht, hseq⟩ := hafter
    split at ht
    · obtain ⟨t₀, ht₀, hseq₀⟩ := restarted_sequence ht
      exact hnames (names_iff.mpr ⟨t₀, ht₀, hseq₀.trans hseq⟩)
    · exact hnames (names_iff.mpr ⟨t, ht, hseq⟩)
  · have hout : j.timer ∉ expired.map Entry.timer := by
      intro hin
      exact h.not_both (hexpired ▸ hin) hflight
    rw [hst]
    refine status_created ?_ hseq hflight
    rw [hheap, if_neg hout]
    exact ht
  · rw [hexpired] at hexp
    have hj : activeTimer j.timer t.sequence_ = j := by
      rw [hseq]
      rfl
    rw [hst]
    by_cases hcond : t.repeat_ ∧ j ∉ s.queue.cancelingTimers_
    · have hback : s.queue.restarted now j.timer = some (t.restart now) := by
        simp only [restarted, ht, hj, if_pos hcond]
      simp only [TimerStatus.next, hcond.1, hcond.2, decide_false, Bool.false_eq_true,
        not_false_eq_true, and_self, if_true]
      refine status_pending ?_ ?_ hflight List.not_mem_nil
      · rw [hheap, if_pos hexp]
        exact hback
      · rw [sequence_restart]
        exact hseq
    · have hgone : s.queue.restarted now j.timer = none := by
        simp only [restarted, ht, hj, if_neg hcond]
      have hnext : ¬ (t.repeat_ ∧ ¬ decide (j ∈ s.queue.cancelingTimers_) = true) := by
        simpa using hcond
      simp only [TimerStatus.next, hnext, if_false]
      apply status_absent
      rw [names_iff, hheap, if_pos hexp, hgone]
      intro hafter
      obtain ⟨t', ht', -⟩ := hafter
      cases ht'
  · rw [hexpired] at hexp
    rw [hst]
    refine status_pending ?_ hseq hflight List.not_mem_nil
    rw [hheap, if_neg hexp]
    exact ht

/-- A timer's next status depends on its status and on what the step means to it. -/
theorem Good.heeds {a : TimerStep} (h : s.Good) (he : s.Enabled a) (hs : s.step a = .ok s')
    (j : ActiveTimer) : Heeds s s' j (s.notice j a) := by
  cases a with
  | tick d =>
    rw [← pure_eq_ok.mp hs]
    exact Heeds.unconcerned rfl rfl
  | newTimer addr when interval =>
    rw [← pure_eq_ok.mp hs]
    exact newTimer_heeds he.1
  | addTimerInLoop addr =>
    obtain ⟨t, q', -, hok, -, hshape⟩ :=
      h.owned.addTimerInLoop (List.mem_append_right _ he.1) s.clock
    simp only [TimerLoop.step, hok, ok_bind, pure_eq_ok] at hs
    subst hs
    rcases hshape with ⟨rfl, -⟩ | ⟨rfl, -⟩
    · exact h.addTimerInLoop_heeds he.1 rfl rfl
    · exact h.addTimerInLoop_heeds he.1 rfl rfl
  | cancelInLoop id =>
    simp only [TimerLoop.step, bind_eq_ok, pure_eq_ok] at hs
    obtain ⟨q, hok, rfl⟩ := hs
    exact h.cancelInLoop_heeds hok
  | handleRead =>
    have hidle := Phase.eq_idle he
    rw [← pure_eq_ok.mp hs]
    refine Heeds.unconcerned rfl ?_
    refine status_congr rfl Iff.rfl ?_ Iff.rfl
    rw [hidle]
    exact ⟨rfl, rfl⟩
  | getExpired =>
    obtain ⟨now, hp⟩ := Phase.exists_reading he
    obtain ⟨A, fd, hok, -, -⟩ := h.beginCalling (by rw [hp]; rfl) now
    simp only [TimerLoop.step, hp, hok] at hs
    obtain rfl := Except.ok.inj hs
    exact h.getExpired_heeds hp
  | runTimer =>
    obtain ⟨now, expired, it, rest, hp⟩ := Phase.exists_calling_of_rest he
    simp only [TimerLoop.step, hp] at hs
    exact h.runNext_heeds hp hs
  | reset =>
    obtain ⟨now, expired, hp⟩ := Phase.exists_calling_end he.1 he.2
    simp only [TimerLoop.step, hp] at hs
    exact h.endCalling_heeds hp hs

end TimerLoop

end MuduoServer
