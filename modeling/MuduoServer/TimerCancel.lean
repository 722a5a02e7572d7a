import MuduoServer.TimerInvariant

/-!
What `cancelInLoop` achieves. A timer that is scheduled is deleted, and one whose
callback has run in the current batch is noted in `cancelingTimers_`, so that
`reset` deletes it. A timer that is further on in the batch, or that was created
and not yet added, is reached by neither.
-/
namespace MuduoServer.TimerLoop

open FaultMachine TimerQueue

/-- The identifier belongs to a live timer. -/
def Names (q : TimerQueue) (id : ActiveTimer) : Prop :=
  (q.heap id.timer).map Timer.sequence_ = some id.sequence

instance (q : TimerQueue) (id : ActiveTimer) : Decidable (Names q id) :=
  inferInstanceAs (Decidable (_ = _))

/-- No timer is cancelled while it waits for its turn in the batch, or before
`addTimerInLoop` has seen it. -/
def Settled (s : TimerLoop) : TimerStep → Prop
  | .cancelInLoop id => Names s.queue id →
      id.timer ∉ s.phase.rest.map Entry.timer ∧ id.timer ∉ s.inFlight
  | _ => True

instance (s : TimerLoop) (a : TimerStep) : Decidable (s.Settled a) :=
  match a with
  | .cancelInLoop _ => inferInstanceAs (Decidable (_ → _ ∧ _))
  | .tick _ | .newTimer _ _ _ | .addTimerInLoop _ | .handleRead | .getExpired | .runTimer
  | .reset => instDecidableTrue

/-- No callback of a timer comes after the end of a `cancelInLoop` of it. -/
def NeverAfterCancel (events : List TimerEvent) : Prop :=
  events.Pairwise fun e f => ∀ id, e = .cancelled id → f ≠ .ran id

theorem names_iff {q : TimerQueue} {id : ActiveTimer} :
    Names q id ↔ ∃ t, q.heap id.timer = some t ∧ t.sequence_ = id.sequence := by
  unfold Names
  rw [Option.map_eq_some_iff]

theorem Names.store_none {q : TimerQueue} {id : ActiveTimer} {a : ℕ}
    (h : Names (q.store a none) id) : id.timer ≠ a ∧ Names q id := by
  obtain ⟨t, ht, hseq⟩ := names_iff.mp h
  by_cases ha : id.timer = a
  · simp [TimerQueue.store, ha] at ht
  · refine ⟨ha, names_iff.mpr ⟨t, ?_, hseq⟩⟩
    simpa [TimerQueue.store, ha] using ht

theorem Names.store_some {q : TimerQueue} {id : ActiveTimer} {a : ℕ} {t : Timer}
    (h : Names (q.store a (some t)) id) : id = activeTimer a t.sequence_ ∨ id.timer ≠ a ∧ Names q id := by
  obtain ⟨t', ht', hseq⟩ := names_iff.mp h
  by_cases ha : id.timer = a
  · left
    simp only [TimerQueue.store, ha, Function.update_self, Option.some.injEq] at ht'
    rw [ht', ← ha, hseq]
    rfl
  · refine Or.inr ⟨ha, names_iff.mpr ⟨t', ?_, hseq⟩⟩
    simpa [TimerQueue.store, ha] using ht'

@[simp] theorem sequence_restart (t : Timer) (now : ℤ) :
    (t.restart now).sequence_ = t.sequence_ := by
  unfold Timer.restart
  split <;> rfl

/-- A cancelled timer that is still alive has run in the current batch and is
noted in `cancelingTimers_`. -/
structure Cancels (s : TimerLoop) : Prop where
  numbered : ∀ a t, s.queue.heap a = some t → t.sequence_ ≤ s.s_numCreated_
  issued : ∀ id, .cancelled id ∈ s.events → id.sequence ≤ s.s_numCreated_
  gone : ∀ id, .cancelled id ∈ s.events → Names s.queue id →
    id.timer ∈ s.phase.expired.map Entry.timer ∧ id.timer ∉ s.phase.rest.map Entry.timer ∧
      id ∈ s.queue.cancelingTimers_
  order : NeverAfterCancel s.events

variable {s s' : TimerLoop}

theorem Cancels.newTimer (h : s.Cancels) (addr : ℕ) (when : ℤ) (interval : Option ℕ) :
    Cancels { s with
      queue := s.queue.store addr (some ⟨when, interval, s.s_numCreated_ + 1⟩)
      s_numCreated_ := s.s_numCreated_ + 1
      inFlight := addr :: s.inFlight } := by
  refine ⟨?_, ?_, ?_, h.order⟩
  · intro a t ht
    by_cases ha : a = addr
    · subst ha
      simp only [TimerQueue.store, Function.update_self, Option.some.injEq] at ht
      rw [← ht]
    · have hold := h.numbered a t (by simpa [TimerQueue.store, ha] using ht)
      simp only
      omega
  · intro id hid
    have hold := h.issued id hid
    simp only
    omega
  · intro id hid hnames
    rcases hnames.store_some with heq | ⟨-, hold⟩
    · have hlt := h.issued id hid
      rw [heq] at hlt
      simp only [ActiveTimer.sequence, activeTimer, ofLex_toLex] at hlt
      omega
    · exact h.gone id hid hold

/-- Steps that neither change the heap nor the batch nor the cancellations. -/
theorem Cancels.congr (h : s.Cancels) {q : TimerQueue} (hheap : q.heap = s.queue.heap)
    (hcancel : q.cancelingTimers_ = s.queue.cancelingTimers_) {inFlight : List ℕ} :
    Cancels { s with queue := q, inFlight := inFlight } := by
  refine ⟨?_, h.issued, ?_, h.order⟩
  · simp only [hheap]
    exact h.numbered
  · intro id hid hnames
    simp only [hcancel]
    apply h.gone id hid
    simpa only [Names, hheap] using hnames

theorem NeverAfterCancel.snoc_cancelled {events : List TimerEvent} (h : NeverAfterCancel events)
    (id : ActiveTimer) : NeverAfterCancel (events ++ [.cancelled id]) := by
  unfold NeverAfterCancel
  rw [List.pairwise_append]
  refine ⟨h, List.pairwise_singleton _ _, ?_⟩
  intro e _ f hf id' _ hran
  rw [List.mem_singleton.mp hf] at hran
  cases hran

theorem NeverAfterCancel.snoc_ran {events : List TimerEvent} (h : NeverAfterCancel events)
    {id : ActiveTimer} (hid : .cancelled id ∉ events) :
    NeverAfterCancel (events ++ [.ran id]) := by
  unfold NeverAfterCancel
  rw [List.pairwise_append]
  refine ⟨h, List.pairwise_singleton _ _, ?_⟩
  intro e he f hf id' hcancel hran
  rw [List.mem_singleton.mp hf] at hran
  obtain rfl := TimerEvent.ran.inj hran
  exact hid (hcancel ▸ he)

/-- The three outcomes of `cancelInLoop` on a timer that does not wait. -/
theorem Cancels.cancelInLoop (h : s.Cancels) (hg : s.Good) {id : ActiveTimer}
    (hissued : id.sequence ≤ s.s_numCreated_) (hsettled : s.Settled (.cancelInLoop id))
    {q : TimerQueue} (hs : s.queue.cancelInLoop id = .ok q) :
    Cancels { s with queue := q, events := s.events ++ [.cancelled id] } := by
  have hevents : ∀ id', TimerEvent.cancelled id' ∈ s.events ++ [.cancelled id] →
      .cancelled id' ∈ s.events ∨ id' = id := by
    intro id' hid'
    rcases List.mem_append.mp hid' with hold | hnew
    · exact Or.inl hold
    · exact Or.inr (TimerEvent.cancelled.inj (List.mem_singleton.mp hnew))
  have hnumbers : ∀ id', TimerEvent.cancelled id' ∈ s.events ++ [.cancelled id] →
      id'.sequence ≤ s.s_numCreated_ := by
    intro id' hid'
    rcases hevents id' hid' with hold | rfl
    · exact h.issued id' hold
    · exact hissued
  obtain ⟨q', hok, -, hshape⟩ := hg.owned.cancelInLoop id
  obtain rfl := Except.ok.inj (hs.symm.trans hok)
  -- a live timer that is not found was taken out by `getExpired`
  have hloose : id ∉ s.queue.activeTimers_ → Names s.queue id →
      id.timer ∈ s.phase.expired.map Entry.timer ∧ id.timer ∉ s.phase.rest.map Entry.timer := by
    intro hout hnames
    obtain ⟨t, ht, hseq⟩ := names_iff.mp hnames
    obtain ⟨hrest, hflight⟩ := hsettled hnames
    refine ⟨?_, hrest⟩
    rcases hg.owned.noLeak _ _ ht with hin | hin
    · obtain ⟨t', ht', -, hact⟩ := hg.owned.keyed _ _ hin
      obtain rfl := Option.some.inj (ht.symm.trans ht')
      rw [hseq, activeTimer_eta] at hact
      exact absurd hact hout
    · rcases List.mem_append.mp hin with hin | hin
      · exact hin
      · exact absurd hin hflight
  rcases hshape with ⟨t, -, ht, hseq, rfl⟩ | ⟨hout, -, rfl⟩ | ⟨hout, hcalling, rfl⟩
  · refine ⟨?_, hnumbers, ?_, h.order.snoc_cancelled id⟩
    · intro a t' ht'
      by_cases ha : a = id.timer
      · subst ha
        simp [cancelled, TimerQueue.store] at ht'
      · exact h.numbered a t' (by simpa [cancelled, TimerQueue.store, ha] using ht')
    · intro id' hid' hnames
      have hstore : Names (s.queue.store id.timer none) id' := hnames
      obtain ⟨hne, hold⟩ := hstore.store_none
      rcases hevents id' hid' with hid' | rfl
      · exact h.gone id' hid' hold
      · exact absurd rfl hne
  · refine ⟨h.numbered, hnumbers, ?_, h.order.snoc_cancelled id⟩
    intro id' hid' hnames
    have hold : Names s.queue id' := hnames
    rcases hevents id' hid' with hid' | rfl
    · obtain ⟨h₁, h₂, h₃⟩ := h.gone id' hid' hold
      exact ⟨h₁, h₂, OrderedSet.mem_insert.mpr (Or.inr h₃)⟩
    · obtain ⟨h₁, h₂⟩ := hloose hout hold
      exact ⟨h₁, h₂, OrderedSet.mem_insert.mpr (Or.inl rfl)⟩
  · refine ⟨h.numbered, hnumbers, ?_, h.order.snoc_cancelled id⟩
    intro id' hid' hnames
    rcases hevents id' hid' with hid' | rfl
    · exact h.gone id' hid' hnames
    · have hexp := (hloose hout hnames).1
      have hflag := hg.calling_of_expired hexp
      rw [hcalling] at hflag
      cases hflag

/-- Inside the loop of `reset`: a cancelled timer that is still alive is one of
the batch and is not scheduled. -/
structure Condemned (s : TimerLoop) (expired : List Entry) (q : TimerQueue) : Prop where
  canceling : q.cancelingTimers_ = s.queue.cancelingTimers_
  numbered : ∀ a t, q.heap a = some t → t.sequence_ ≤ s.s_numCreated_
  live : ∀ id, .cancelled id ∈ s.events → Names q id →
    id.timer ∈ expired.map Entry.timer ∧ id ∈ s.queue.cancelingTimers_ ∧ id ∉ q.activeTimers_

theorem Condemned.restarts {expired : List Entry} {now : ℤ} {it : Entry} {q q' : TimerQueue}
    (h : Condemned s expired q) (hr : Restarts now it q q') : Condemned s expired q' := by
  cases hr with
  | @restart t ht hrepeat hkeep =>
    refine ⟨h.canceling, ?_, ?_⟩
    · intro a t' ht'
      by_cases ha : a = it.timer
      · subst ha
        simp only [inserted, TimerQueue.store, Function.update_self, Option.some.injEq] at ht'
        rw [← ht', sequence_restart]
        exact h.numbered _ t ht
      · exact h.numbered a t' (by simpa [inserted, TimerQueue.store, ha] using ht')
    · intro id hid hnames
      have hstore : Names (q.store it.timer (some (t.restart now))) id := hnames
      rcases hstore.store_some with heq | ⟨hne, hold⟩
      · -- the timer was restarted, so it is not among the cancelled ones
        rw [sequence_restart] at heq
        have hbefore : Names q id := by
          rw [heq]
          exact names_iff.mpr ⟨t, ht, rfl⟩
        rw [h.canceling, ← heq] at hkeep
        exact absurd (h.live id hid hbefore).2.1 hkeep
      · obtain ⟨h₁, h₂, h₃⟩ := h.live id hid hold
        refine ⟨h₁, h₂, ?_⟩
        intro hin
        rcases OrderedSet.mem_insert.mp hin with heq | hin
        · exact hne (by rw [heq]; rfl)
        · exact h₃ hin
  | delete ht =>
    refine ⟨h.canceling, ?_, ?_⟩
    · intro a t' ht'
      by_cases ha : a = it.timer
      · subst ha
        simp [TimerQueue.store] at ht'
      · exact h.numbered a t' (by simpa [TimerQueue.store, ha] using ht')
    · intro id hid hnames
      exact h.live id hid hnames.store_none.2

/-- `reset` deletes every cancelled timer of the batch. -/
theorem Cancels.reset (h : s.Cancels) (hg : s.Good) {now : ℤ} {expired : List Entry}
    (hp : s.phase = .calling now expired []) (hs : s.endCalling now expired = .ok s') :
    Cancels s' := by
  have howned := hg.owned
  have hgone := h.gone
  rw [hp] at howned hgone
  have hstart : ({ s.queue with callingExpiredTimers_ := false } : TimerQueue).Owned
      (expired.map Entry.timer ++ s.inFlight) := howned.congr rfl rfl rfl
  have hcond : Condemned s expired { s.queue with callingExpiredTimers_ := false } := by
    refine ⟨rfl, h.numbered, ?_⟩
    intro id hid hnames
    obtain ⟨h₁, -, h₂⟩ := hgone id hid hnames
    exact ⟨h₁, h₂, howned.activeTimer_not_mem (List.mem_append_left _ h₁) id.sequence⟩
  obtain ⟨q₁, q', hok, howned', hend, hq'⟩ := hstart.reset (P := Condemned s expired) now s.clock
    hcond (fun q it q' _ hq hr => hq.restarts hr)
  simp only [TimerLoop.endCalling, hok, ok_bind, pure_eq_ok] at hs
  subst hs
  have hsame : q'.heap = q₁.heap ∧ q'.activeTimers_ = q₁.activeTimers_ := by
    rw [hq']
    split
    · exact ⟨rfl, rfl⟩
    · exact ⟨rfl, rfl⟩
  refine ⟨?_, h.issued, ?_, h.order⟩
  · simp only [hsame.1]
    exact hend.numbered
  · intro id hid hnames
    have hnames' : Names q₁ id := by simpa only [Names, hsame.1] using hnames
    obtain ⟨hexp, -, hout⟩ := hend.live id hid hnames'
    obtain ⟨t, ht, hseq⟩ := names_iff.mp hnames
    rcases howned'.noLeak _ _ ht with hin | hin
    · obtain ⟨t', ht', -, hact⟩ := howned'.keyed _ _ hin
      obtain rfl := Option.some.inj (ht.symm.trans ht')
      rw [hseq, activeTimer_eta, hsame.2] at hact
      exact absurd hact hout
    · exact absurd rfl ((List.nodup_append.mp howned.nodup).2.2 _ hexp _ hin)

theorem Cancels.step {a : TimerStep} (h : s.Cancels) (hg : s.Good) (he : s.Enabled a)
    (hsettled : s.Settled a) (hs : s.step a = .ok s') : s'.Cancels := by
  cases a with
  | tick d =>
    rw [← pure_eq_ok.mp hs]
    exact ⟨h.numbered, h.issued, h.gone, h.order⟩
  | newTimer addr when interval =>
    rw [← pure_eq_ok.mp hs]
    exact h.newTimer addr when interval
  | addTimerInLoop addr =>
    obtain ⟨t, q', -, hok, -, hshape⟩ :=
      hg.owned.addTimerInLoop (List.mem_append_right _ he.1) s.clock
    simp only [TimerLoop.step, hok, ok_bind, pure_eq_ok] at hs
    subst hs
    have hsame : q'.heap = s.queue.heap ∧ q'.cancelingTimers_ = s.queue.cancelingTimers_ := by
      rcases hshape with ⟨rfl, -⟩ | ⟨rfl, -⟩
      · exact ⟨rfl, rfl⟩
      · exact ⟨rfl, rfl⟩
    exact h.congr hsame.1 hsame.2
  | cancelInLoop id =>
    simp only [TimerLoop.step, bind_eq_ok, pure_eq_ok] at hs
    obtain ⟨q, hok, rfl⟩ := hs
    exact h.cancelInLoop hg he.1 hsettled hok
  | handleRead =>
    have hidle := Phase.eq_idle he
    have hgone := h.gone
    rw [hidle] at hgone
    rw [← pure_eq_ok.mp hs]
    exact ⟨h.numbered, h.issued, hgone, h.order⟩
  | getExpired =>
    obtain ⟨now, hp⟩ := Phase.exists_reading he
    obtain ⟨A, fd, hok, -, -⟩ := hg.beginCalling (by rw [hp]; rfl) now
    simp only [TimerLoop.step, hp, hok] at hs
    obtain rfl := Except.ok.inj hs
    refine ⟨h.numbered, h.issued, ?_, h.order⟩
    intro id hid hnames
    -- outside a batch no cancelled timer is alive
    have hold := (h.gone id hid hnames).1
    rw [hp] at hold
    cases hold
  | runTimer =>
    obtain ⟨now, expired, it, rest, hp⟩ := Phase.exists_calling_of_rest he
    simp only [TimerLoop.step, hp, TimerLoop.runNext, bind_eq_ok, pure_eq_ok] at hs
    obtain ⟨t, hderef, rfl⟩ := hs
    have ht : s.queue.heap it.timer = some t := deref_eq_ok.mp hderef
    have hgone := h.gone
    rw [hp] at hgone
    refine ⟨h.numbered, ?_, ?_, ?_⟩
    · intro id hid
      simpa using h.issued id (by simpa using hid)
    · intro id hid hnames
      obtain ⟨h₁, h₂, h₃⟩ := hgone id (by simpa using hid) hnames
      exact ⟨h₁, fun hin => h₂ (List.mem_cons_of_mem _ hin), h₃⟩
    · apply h.order.snoc_ran
      intro hid
      have hnames : Names s.queue (activeTimer it.timer t.sequence_) :=
        names_iff.mpr ⟨t, ht, rfl⟩
      exact (hgone _ hid hnames).2.1 (List.mem_map_of_mem List.mem_cons_self)
  | reset =>
    obtain ⟨now, expired, hp⟩ := Phase.exists_calling_end he.1 he.2
    simp only [TimerLoop.step, hp] at hs
    exact h.reset hg hp hs

theorem start_cancels (clock : ℤ) : (start clock).Cancels := by
  refine ⟨?_, ?_, ?_, List.Pairwise.nil⟩
  · intro a t ht
    cases ht
  · intro id hid
    cases hid
  · intro id hid
    cases hid

/-- In a run whose cancellations find no waiting timer, a cancelled timer never
runs again. -/
theorem cancelled_never_runs (h : (machine.restrict Settled).Reachable s) :
    NeverAfterCancel s.events := by
  have hinv : s.Good ∧ s.Cancels := by
    apply h.invariant
    · intro s hinit
      obtain ⟨clock, -, rfl⟩ := hinit
      exact ⟨start_good clock, start_cancels clock⟩
    · intro s a s' hinv he hs
      exact ⟨hinv.1.of_step he.1 hs, hinv.2.step hinv.1 he.1 he.2 hs⟩
  exact hinv.2.order

instance (s : TimerLoop) (a : TimerStep) : Decidable ((machine.restrict Settled).enabled s a) :=
  inferInstanceAs (Decidable (s.Enabled a ∧ s.Settled a))

/-- A repeating timer cancels itself from its callback, and so does not come back. -/
def selfCancel : List TimerStep :=
  [.newTimer 16 5 (some 40), .addTimerInLoop 16, .tick 200, .handleRead, .getExpired, .runTimer,
    .cancelInLoop (activeTimer 16 1), .reset]

theorem cancelled_never_runs_sample :
    ∃ s, (machine.restrict Settled).Reachable s ∧
      s.events = [.ran (activeTimer 16 1), .cancelled (activeTimer 16 1)] ∧
      s.queue.heap 16 = none ∧ NeverAfterCancel s.events := by
  have h : (((machine.restrict Settled).execute (start 1) selfCancel).map fun s =>
      (s.events, s.queue.heap 16)) =
        some ([.ran (activeTimer 16 1), .cancelled (activeTimer 16 1)], none) := by
    decide +kernel
  obtain ⟨s, hs, hview⟩ := Option.map_eq_some_iff.mp h
  simp only [Prod.mk.injEq] at hview
  obtain ⟨hevents, hheap⟩ := hview
  have hreach : (machine.restrict Settled).Reachable s :=
    ⟨start 1, selfCancel, ⟨1, by decide, rfl⟩, Machine.run_of_execute _ hs⟩
  exact ⟨s, hreach, hevents, hheap, cancelled_never_runs hreach⟩

/-- Two timers expire together, and the callback of the first cancels the second. -/
def cancelNext : List TimerStep :=
  [.newTimer 16 5 none, .addTimerInLoop 16, .newTimer 32 6 none, .addTimerInLoop 32, .tick 200,
    .handleRead, .getExpired, .runTimer, .cancelInLoop (activeTimer 32 2), .runTimer]

theorem cancelled_timer_runs : ¬ ∀ s, machine.Reachable s → NeverAfterCancel s.events := by
  intro hall
  have h : ((machine.execute (start 1) cancelNext).map fun s => s.events) =
      some [.ran (activeTimer 16 1), .cancelled (activeTimer 32 2), .ran (activeTimer 32 2)] := by
    decide +kernel
  obtain ⟨s, hs, hevents⟩ := Option.map_eq_some_iff.mp h
  have hreach : machine.Reachable s :=
    ⟨start 1, cancelNext, ⟨1, by decide, rfl⟩, Machine.run_of_execute _ hs⟩
  have horder := hall s hreach
  rw [hevents] at horder
  have hlast := (List.pairwise_cons.mp (List.pairwise_cons.mp horder).2).1
  exact hlast _ List.mem_cons_self _ rfl rfl

end MuduoServer.TimerLoop
