import MuduoServer.TimerOwnership

/-!
The ownership of the timers through `getExpired`, the calls of a client and `reset`, and
from these through every step of the loop: no assertion fails, no deleted object is touched
and no timer is lost.
-/
namespace MuduoServer

open FaultMachine

namespace TimerQueue

variable {q : TimerQueue} {loose : List ℕ}

/-- `getExpired` takes what expires up to `now`, -/
theorem Owned.mem_expired (h : q.Owned loose) {now : ℤ} {e : Entry} :
    e ∈ q.timers_.below (sentry now) ↔ e ∈ q.timers_ ∧ e.when ≤ now := by
  rw [OrderedSet.mem_below]
  constructor
  · intro he
    exact ⟨he.1, (lt_sentry (h.timer_lt he.1)).mp he.2⟩
  · intro he
    exact ⟨he.1, (lt_sentry (h.timer_lt he.1)).mpr he.2⟩

/-- and leaves what expires later. -/
theorem Owned.mem_later (h : q.Owned loose) {now : ℤ} {e : Entry} :
    e ∈ q.timers_.eraseBelow (sentry now) ↔ e ∈ q.timers_ ∧ now < e.when := by
  rw [OrderedSet.mem_eraseBelow]
  constructor
  · intro he
    refine ⟨he.1, ?_⟩
    by_contra hle
    exact absurd ((lt_sentry (h.timer_lt he.1)).mpr (not_lt.mp hle)) (not_lt.mpr he.2)
  · intro he
    refine ⟨he.1, ?_⟩
    by_contra hlt
    exact absurd ((lt_sentry (h.timer_lt he.1)).mp (not_le.mp hlt)) (not_le.mpr he.2)

theorem Owned.expired_nodup (h : q.Owned loose) (now : ℤ) :
    ((q.timers_.below (sentry now)).map Entry.timer).Nodup := by
  apply List.Nodup.map_on
  · intro e he f hf heq
    exact h.eq_of_timer_eq (h.mem_expired.mp he).1 (h.mem_expired.mp hf).1 heq
  · exact (q.timers_.below_sorted _).imp ne_of_lt

/-- The timers that have expired by `now` become loose. -/
theorem Owned.expire (h : q.Owned loose) {now : ℤ} {A : OrderedSet ActiveTimer}
    (hmem : ∀ i, i ∈ A ↔ i ∈ q.activeTimers_ ∧
      i.timer ∉ (q.timers_.below (sentry now)).map Entry.timer)
    (hsizes : (q.timers_.eraseBelow (sentry now)).size = A.size) :
    ({ q with timers_ := q.timers_.eraseBelow (sentry now), activeTimers_ := A } :
      TimerQueue).Owned ((q.timers_.below (sentry now)).map Entry.timer ++ loose) := by
  constructor
  · intro w b hin
    obtain ⟨hold, hlt⟩ := h.mem_later.mp hin
    obtain ⟨t, ht, hw, hact⟩ := h.keyed w b hold
    refine ⟨t, ht, hw, (hmem _).mpr ⟨hact, ?_⟩⟩
    intro hexp
    obtain ⟨e, he, heb⟩ := List.mem_map.mp hexp
    obtain ⟨heold, hle⟩ := h.mem_expired.mp he
    rw [h.eq_of_timer_eq heold hold heb] at hle
    exact absurd hlt (not_lt.mpr hle)
  · intro b n hin
    obtain ⟨hold, hout⟩ := (hmem _).mp hin
    obtain ⟨t, ht, hn, hent⟩ := h.active b n hold
    refine ⟨t, ht, hn, h.mem_later.mpr ⟨hent, ?_⟩⟩
    by_contra hle
    have hexp := h.mem_expired.mpr ⟨hent, not_lt.mp hle⟩
    exact hout (List.mem_map.mpr ⟨entry t.expiration_ b, hexp, rfl⟩)
  · exact hsizes
  · rw [List.nodup_append]
    refine ⟨h.expired_nodup now, h.nodup, ?_⟩
    intro b hb c hc heq
    obtain ⟨e, he, rfl⟩ := List.mem_map.mp hb
    subst heq
    exact h.entry_not_mem hc e.when (h.mem_expired.mp he).1
  · intro b hb
    rcases List.mem_append.mp hb with hb | hb
    · obtain ⟨e, he, rfl⟩ := List.mem_map.mp hb
      obtain ⟨heold, hle⟩ := h.mem_expired.mp he
      obtain ⟨t, ht, hw, -⟩ := h.keyed e.when e.timer heold
      refine ⟨t, ht, fun hin => ?_⟩
      rw [hw] at hin
      exact absurd (h.mem_later.mp hin).2 (not_lt.mpr hle)
    · obtain ⟨t, ht, hout⟩ := h.alive b hb
      exact ⟨t, ht, fun hin => hout (h.mem_later.mp hin).1⟩
  · intro b t hb
    rcases h.noLeak b t hb with hent | hloose
    · by_cases hle : t.expiration_ ≤ now
      · have hexp := h.mem_expired.mpr ⟨hent, hle⟩
        exact Or.inr (List.mem_append_left _
          (List.mem_map.mpr ⟨entry t.expiration_ b, hexp, rfl⟩))
      · exact Or.inl (h.mem_later.mpr ⟨hent, not_le.mp hle⟩)
    · exact Or.inr (List.mem_append_right _ hloose)
  · exact h.bounded

theorem Owned.getExpired (h : q.Owned loose) (now : ℤ) :
    ∃ A, q.getExpired now = .ok (q.timers_.below (sentry now),
        { q with timers_ := q.timers_.eraseBelow (sentry now), activeTimers_ := A }) ∧
      ({ q with timers_ := q.timers_.eraseBelow (sentry now), activeTimers_ := A } :
        TimerQueue).Owned ((q.timers_.below (sentry now)).map Entry.timer ++ loose) ∧
      ∀ i, i ∈ A ↔ i ∈ q.activeTimers_ ∧
        i.timer ∉ (q.timers_.below (sentry now)).map Entry.timer := by
  obtain ⟨A, hok, hmem, hsize⟩ := eraseActive_spec
    (q := { q with timers_ := q.timers_.eraseBelow (sentry now) }) (h.expired_nodup now)
    (by
      intro e he
      obtain ⟨t, ht, -, hact⟩ := h.keyed e.when e.timer (h.mem_expired.mp he).1
      exact ⟨t, ht, hact⟩)
    (by
      intro a n n' h₁ h₂
      obtain ⟨t, ht, hn, -⟩ := h.active a n h₁
      obtain ⟨t', ht', hn', -⟩ := h.active a n' h₂
      obtain rfl := Option.some.inj (ht.symm.trans ht')
      exact hn.symm.trans hn')
  have hsizes : (q.timers_.eraseBelow (sentry now)).size = A.size := by
    have hsplit := q.timers_.size_eraseBelow (sentry now)
    have hold := h.sizes
    simp only at hsize
    omega
  have hlater : ∀ it ∈ (q.timers_.eraseBelow (sentry now)).begin?, now < it.when := by
    intro it hit
    exact (h.mem_later.mp (OrderedSet.mem_of_begin? hit)).2
  refine ⟨A, ?_, h.expire hmem hsizes, hmem⟩
  unfold TimerQueue.getExpired
  simp only [check_of h.sizes, ok_bind, check_of hlater, hok, check_of hsizes]
  rfl

theorem Owned.addTimerInLoop (h : q.Owned loose) {a : ℕ} (ha : a ∈ loose) (clock : ℤ) :
    ∃ t q', q.heap a = some t ∧ q.addTimerInLoop a clock = .ok q' ∧
      q'.Owned (loose.erase a) ∧
      (q' = (q.inserted a t).resetTimerfd t.expiration_ clock ∧
          (∀ e ∈ q.timers_, t.expiration_ < e.when) ∨
        q' = q.inserted a t ∧ ∃ e ∈ q.timers_, e.when ≤ t.expiration_) := by
  obtain ⟨t, ht, -⟩ := h.alive a ha
  obtain ⟨earliest, hok, howned, hfirst, hlate⟩ := h.insert ha ht
  have hderef : (q.inserted a t).deref a = .ok t := deref_eq_ok.mpr (by simp [inserted, ht])
  cases earliest with
  | true =>
    refine ⟨t, (q.inserted a t).resetTimerfd t.expiration_ clock, ht, ?_,
      howned.congr rfl rfl rfl, Or.inl ⟨rfl, hfirst rfl⟩⟩
    simp only [TimerQueue.addTimerInLoop, hok, ok_bind, hderef]
    rfl
  | false =>
    refine ⟨t, _, ht, ?_, howned, Or.inr ⟨rfl, hlate rfl⟩⟩
    simp only [TimerQueue.addTimerInLoop, hok, ok_bind]
    rfl

theorem Owned.cancelInLoop (h : q.Owned loose) (i : ActiveTimer) :
    ∃ q', q.cancelInLoop i = .ok q' ∧ q'.Owned loose ∧
      ((∃ t, i ∈ q.activeTimers_ ∧ q.heap i.timer = some t ∧ t.sequence_ = i.sequence ∧
          q' = q.cancelled i t) ∨
        (i ∉ q.activeTimers_ ∧ q.callingExpiredTimers_ = true ∧
          q' = { q with cancelingTimers_ := (q.cancelingTimers_.insert i).1 }) ∨
        i ∉ q.activeTimers_ ∧ q.callingExpiredTimers_ = false ∧ q' = q) := by
  have hfinish : ∀ q', q.cancelFound i = .ok q' → q'.Owned loose → q.cancelInLoop i = .ok q' := by
    intro q' hok howned
    simp only [TimerQueue.cancelInLoop, check_of h.sizes, ok_bind, hok, check_of howned.sizes]
    rfl
  by_cases hi : i ∈ q.activeTimers_
  · obtain ⟨t, ht, hseq, hok, howned⟩ := h.cancelActive hi
    refine ⟨_, hfinish _ ?_ howned, howned, Or.inl ⟨t, hi, ht, hseq, rfl⟩⟩
    rw [TimerQueue.cancelFound, if_pos hi, hok]
  · by_cases hcalling : q.callingExpiredTimers_ = true
    · have howned : ({ q with cancelingTimers_ := (q.cancelingTimers_.insert i).1 } :
          TimerQueue).Owned loose := h.congr rfl rfl rfl
      refine ⟨_, hfinish _ ?_ howned, howned, Or.inr (Or.inl ⟨hi, hcalling, rfl⟩)⟩
      rw [TimerQueue.cancelFound, if_neg hi, if_pos hcalling]
      rfl
    · refine ⟨q, hfinish q ?_ h, h, Or.inr (Or.inr ⟨hi, by simpa using hcalling, rfl⟩)⟩
      rw [TimerQueue.cancelFound, if_neg hi, if_neg hcalling]
      rfl

/-- What `reset` does with one expired timer. -/
inductive Restarts (now : ℤ) (it : Entry) (q : TimerQueue) : TimerQueue → Prop
  | restart {t : Timer} (ht : q.heap it.timer = some t) (hrepeat : t.repeat_)
      (hkeep : activeTimer it.timer t.sequence_ ∉ q.cancelingTimers_) :
      Restarts now it q
        ((q.store it.timer (some (t.restart now))).inserted it.timer (t.restart now))
  | delete {t : Timer} (ht : q.heap it.timer = some t) :
      Restarts now it q (q.store it.timer none)

theorem Owned.restartOne (h : q.Owned loose) (now : ℤ) (it : Entry) (ha : it.timer ∈ loose) :
    ∃ q', q.restartOne now it = .ok q' ∧ q'.Owned (loose.erase it.timer) ∧
      Restarts now it q q' := by
  obtain ⟨t, ht, -⟩ := h.alive _ ha
  have hderef : q.deref it.timer = .ok t := deref_eq_ok.mpr ht
  by_cases hcond : t.repeat_ ∧ activeTimer it.timer t.sequence_ ∉ q.cancelingTimers_
  · have hstored : (q.store it.timer (some (t.restart now))).heap it.timer =
        some (t.restart now) := by simp [TimerQueue.store]
    obtain ⟨earliest, hok, howned, -⟩ := (h.store ha (t.restart now)).insert ha hstored
    refine ⟨_, ?_, howned, Restarts.restart ht hcond.1 hcond.2⟩
    simp only [TimerQueue.restartOne, hderef, ok_bind, if_pos hcond, hok]
    rfl
  · obtain ⟨hok, howned⟩ := h.delete ha
    refine ⟨_, ?_, howned, Restarts.delete ht⟩
    simp only [TimerQueue.restartOne, hderef, ok_bind, if_neg hcond, hok]

/-- The loop of `reset` gets rid of the loose timers of its list. A property
that each turn keeps holds after it. -/
theorem Owned.restartExpired {expired : List Entry} {now : ℤ} {P : TimerQueue → Prop}
    (h : q.Owned (expired.map Entry.timer ++ loose)) (hP : P q)
    (hstep : ∀ q it q', it ∈ expired → P q → Restarts now it q q' → P q') :
    ∃ q', q.restartExpired now expired = .ok q' ∧ q'.Owned loose ∧ P q' := by
  induction expired generalizing q with
  | nil => exact ⟨q, rfl, h, hP⟩
  | cons it expired ih =>
    obtain ⟨q₁, hok, howned, hrestart⟩ := h.restartOne now it List.mem_cons_self
    rw [List.map_cons, List.cons_append, List.erase_cons_head] at howned
    obtain ⟨q', hok', howned', hP'⟩ :=
      ih howned (hstep q it q₁ List.mem_cons_self hP hrestart)
        (fun q it q' hit => hstep q it q' (List.mem_cons_of_mem _ hit))
    refine ⟨q', ?_, howned', hP'⟩
    simp only [TimerQueue.restartExpired, hok, ok_bind, hok']

theorem Owned.nextExpire (h : q.Owned loose) :
    q.nextExpire = .ok (q.timers_.begin?.elim 0 Entry.when) := by
  unfold TimerQueue.nextExpire
  cases hit : q.timers_.begin? with
  | none => rfl
  | some it =>
    obtain ⟨t, ht, hw, -⟩ := h.keyed it.when it.timer (OrderedSet.mem_of_begin? hit)
    simp [TimerQueue.deref, ht, hw]

theorem Owned.reset {expired : List Entry} {P : TimerQueue → Prop}
    (h : q.Owned (expired.map Entry.timer ++ loose)) (now clock : ℤ) (hP : P q)
    (hstep : ∀ q it q', it ∈ expired → P q → Restarts now it q q' → P q') :
    ∃ q₁ q', q.reset expired now clock = .ok q' ∧ q'.Owned loose ∧ P q₁ ∧
      q' = (if 0 < q₁.timers_.begin?.elim 0 Entry.when then
        q₁.resetTimerfd (q₁.timers_.begin?.elim 0 Entry.when) clock else q₁) := by
  obtain ⟨q₁, hok, howned, hP₁⟩ := h.restartExpired hP hstep
  refine ⟨q₁, _, ?_, ?_, hP₁, rfl⟩
  · simp only [TimerQueue.reset, hok, ok_bind, howned.nextExpire]
    rfl
  · split
    · exact howned.congr rfl rfl rfl
    · exact howned

end TimerQueue

namespace Phase

theorem exists_reading {p : Phase} (h : p.isReading) : ∃ now, p = .reading now := by
  cases p with
  | reading now => exact ⟨now, rfl⟩
  | idle => cases h
  | calling now expired rest => cases h

theorem exists_calling_of_rest {p : Phase} (h : p.rest ≠ []) :
    ∃ now expired it rest, p = .calling now expired (it :: rest) := by
  cases p with
  | idle => exact absurd rfl h
  | reading now => exact absurd rfl h
  | calling now expired rest =>
    cases rest with
    | nil => exact absurd rfl h
    | cons it rest => exact ⟨now, expired, it, rest, rfl⟩

theorem exists_calling_end {p : Phase} (h : p.isCalling) (hr : p.rest = []) :
    ∃ now expired, p = .calling now expired [] := by
  cases p with
  | idle => cases h
  | reading now => cases h
  | calling now expired rest =>
    have hnil : rest = [] := hr
    exact ⟨now, expired, by rw [hnil]⟩

theorem eq_idle {p : Phase} (h : p.isIdle) : p = .idle := by
  cases p with
  | idle => rfl
  | reading now => cases h
  | calling now expired rest => cases h

end Phase

namespace TimerLoop

open TimerQueue

variable {s s' : TimerLoop}

theorem readTimerfd_eq (q : TimerQueue) (clock : ℤ) :
    ∃ fd, q.readTimerfd clock = { q with timerfd := fd } := by
  unfold TimerQueue.readTimerfd
  split
  · exact ⟨none, rfl⟩
  · exact ⟨q.timerfd, rfl⟩

/-- The loose timers are those of the batch being run and those in flight. -/
structure Good (s : TimerLoop) : Prop where
  owned : s.queue.Owned (s.phase.expired.map Entry.timer ++ s.inFlight)
  flag : s.queue.callingExpiredTimers_ = s.phase.isCalling
  suffix : s.phase.rest <:+ s.phase.expired

theorem Good.erase_inFlight (h : s.Good) {a : ℕ} (ha : a ∈ s.inFlight) :
    (s.phase.expired.map Entry.timer ++ s.inFlight).erase a =
      s.phase.expired.map Entry.timer ++ s.inFlight.erase a := by
  apply List.erase_append_right
  intro hmem
  exact (List.nodup_append.mp h.owned.nodup).2.2 a hmem a ha rfl

/-- What `getExpired` and the code around it do at the start of a batch. -/
theorem Good.beginCalling (h : s.Good) (hidle : s.phase.expired = []) (now : ℤ) :
    ∃ A fd, s.beginCalling now = .ok { s with
        queue := { s.queue with
          timers_ := s.queue.timers_.eraseBelow (sentry now)
          activeTimers_ := A
          callingExpiredTimers_ := true
          cancelingTimers_ := OrderedSet.empty
          timerfd := fd }
        phase := .calling now (s.queue.timers_.below (sentry now))
          (s.queue.timers_.below (sentry now)) } ∧
      ({ s.queue with
          timers_ := s.queue.timers_.eraseBelow (sentry now)
          activeTimers_ := A
          callingExpiredTimers_ := true
          cancelingTimers_ := OrderedSet.empty
          timerfd := fd } : TimerQueue).Owned
        ((s.queue.timers_.below (sentry now)).map Entry.timer ++ s.inFlight) ∧
      ∀ i, i ∈ A ↔ i ∈ s.queue.activeTimers_ ∧
        i.timer ∉ (s.queue.timers_.below (sentry now)).map Entry.timer := by
  obtain ⟨fd, hfd⟩ := readTimerfd_eq s.queue s.clock
  have howned : ({ s.queue with timerfd := fd } : TimerQueue).Owned s.inFlight := by
    have hall := h.owned
    rw [hidle] at hall
    exact hall.congr rfl rfl rfl
  obtain ⟨A, hok, hexp, hmem⟩ := howned.getExpired now
  refine ⟨A, fd, ?_, hexp.congr rfl rfl rfl, hmem⟩
  simp only [TimerLoop.beginCalling, hfd, hok, ok_bind]
  rfl

theorem Good.deref_expired (h : s.Good) (it : Entry) (hit : it ∈ s.phase.expired) :
    ∃ t, s.queue.heap it.timer = some t := by
  obtain ⟨t, ht, -⟩ := h.owned.alive it.timer
    (List.mem_append_left _ (List.mem_map_of_mem hit))
  exact ⟨t, ht⟩

theorem Good.calling_of_expired (h : s.Good) {a : ℕ}
    (ha : a ∈ s.phase.expired.map Entry.timer) : s.queue.callingExpiredTimers_ = true := by
  rw [h.flag]
  cases hp : s.phase with
  | idle => simp [hp, Phase.expired] at ha
  | reading now => simp [hp, Phase.expired] at ha
  | calling now expired rest => rfl

/-- No step that is enabled faults, and the invariant survives it. -/
theorem Good.step {a : TimerStep} (h : s.Good) (he : s.Enabled a) :
    ∃ s', s.step a = .ok s' ∧ s'.Good := by
  cases a with
  | tick d => exact ⟨_, rfl, h.owned, h.flag, h.suffix⟩
  | newTimer addr when interval =>
    refine ⟨_, rfl, ?_, h.flag, h.suffix⟩
    exact (h.owned.create he.1 he.2 _).perm List.perm_middle.symm
  | addTimerInLoop addr =>
    obtain ⟨t, q', -, hok, howned, hshape⟩ :=
      h.owned.addTimerInLoop (List.mem_append_right _ he.1) s.clock
    rw [h.erase_inFlight he.1] at howned
    refine ⟨{ s with queue := q', inFlight := s.inFlight.erase addr }, ?_, howned, ?_, h.suffix⟩
    · simp only [TimerLoop.step, hok, ok_bind]
      rfl
    · rcases hshape with ⟨rfl, -⟩ | ⟨rfl, -⟩
      · exact h.flag
      · exact h.flag
  | cancelInLoop id =>
    obtain ⟨q', hok, howned, hshape⟩ := h.owned.cancelInLoop id
    refine ⟨{ s with queue := q', events := s.events ++ [.cancelled id] }, ?_, howned, ?_,
      h.suffix⟩
    · simp only [TimerLoop.step, hok, ok_bind]
      rfl
    · rcases hshape with ⟨t, -, -, -, rfl⟩ | ⟨-, -, rfl⟩ | ⟨-, -, rfl⟩
      · exact h.flag
      · exact h.flag
      · exact h.flag
  | handleRead =>
    have hidle := Phase.eq_idle he
    have howned := h.owned
    have hflag := h.flag
    rw [hidle] at howned hflag
    exact ⟨_, rfl, howned, hflag, List.suffix_refl _⟩
  | getExpired =>
    obtain ⟨now, hp⟩ := Phase.exists_reading he
    obtain ⟨A, fd, hok, howned, -⟩ := h.beginCalling (by rw [hp]; rfl) now
    have hstep : s.step .getExpired = s.beginCalling now := by simp only [TimerLoop.step, hp]
    rw [hstep, hok]
    exact ⟨_, rfl, howned, rfl, List.suffix_refl _⟩
  | runTimer =>
    obtain ⟨now, expired, it, rest, hp⟩ := Phase.exists_calling_of_rest he
    have hsuffix := h.suffix
    have howned := h.owned
    have hflag := h.flag
    rw [hp] at hsuffix howned hflag
    have hit : it ∈ expired := hsuffix.subset List.mem_cons_self
    obtain ⟨t, ht⟩ := h.deref_expired it (by rw [hp]; exact hit)
    have hstep : s.step .runTimer = s.runNext now expired it rest := by
      simp only [TimerLoop.step, hp]
    have hderef : s.queue.deref it.timer = .ok t := deref_eq_ok.mpr ht
    rw [hstep, TimerLoop.runNext, hderef]
    exact ⟨_, rfl, howned, hflag, (List.suffix_cons it rest).trans hsuffix⟩
  | reset =>
    obtain ⟨now, expired, hp⟩ := Phase.exists_calling_end he.1 he.2
    have howned := h.owned
    rw [hp] at howned
    have hstart : ({ s.queue with callingExpiredTimers_ := false } : TimerQueue).Owned
        (expired.map Entry.timer ++ s.inFlight) := howned.congr rfl rfl rfl
    obtain ⟨q₁, q', hok, howned', hflag, hq'⟩ :=
      hstart.reset (P := fun q => q.callingExpiredTimers_ = false) now s.clock rfl
        (by
          intro q it q' _ hflag hrestart
          cases hrestart with
          | restart => exact hflag
          | delete => exact hflag)
    refine ⟨{ s with queue := q', phase := .idle }, ?_, howned', ?_, List.suffix_refl _⟩
    · simp only [TimerLoop.step, hp, TimerLoop.endCalling, hok, ok_bind]
      rfl
    · rw [hq']
      split
      · exact hflag
      · exact hflag

theorem start_good (clock : ℤ) : (start clock).Good :=
  ⟨empty_owned, rfl, List.suffix_refl _⟩

theorem Good.of_step {a : TimerStep} (h : s.Good) (he : machine.enabled s a)
    (hs : machine.step s a = .ok s') : s'.Good := by
  obtain ⟨s₁, hs₁, hg⟩ := h.step he
  obtain rfl := Except.ok.inj (hs.symm.trans hs₁)
  exact hg

theorem reachable_good (h : machine.Reachable s) : s.Good := by
  apply h.invariant
  · intro s hinit
    obtain ⟨clock, -, rfl⟩ := hinit
    exact start_good clock
  · intro s a s' hg he hs
    exact hg.of_step he hs

/-- The two sets hold the same timers under their current keys; `getExpired`
splits at `now`, in order; outside `handleRead` every timer that was added and
is in no set has been deleted; and no step faults. -/
theorem timer_queue_invariant (h : machine.Reachable s) :
    (∀ w a, entry w a ∈ s.queue.timers_ → ∃ t, s.queue.heap a = some t ∧ t.expiration_ = w ∧
      activeTimer a t.sequence_ ∈ s.queue.activeTimers_) ∧
    (∀ a n, activeTimer a n ∈ s.queue.activeTimers_ → ∃ t, s.queue.heap a = some t ∧
      t.sequence_ = n ∧ entry t.expiration_ a ∈ s.queue.timers_) ∧
    (∀ now, ∃ expired q', s.queue.getExpired now = .ok (expired, q') ∧
      expired.Pairwise (fun e f => e.when ≤ f.when) ∧ expired.Nodup ∧
      (∀ e, e ∈ expired ↔ e ∈ s.queue.timers_ ∧ e.when ≤ now) ∧
      ∀ e, e ∈ q'.timers_ ↔ e ∈ s.queue.timers_ ∧ now < e.when) ∧
    (s.phase = .idle → ∀ a t, s.queue.heap a = some t →
      a ∈ s.inFlight ∨ entry t.expiration_ a ∈ s.queue.timers_) ∧
    ∀ a, s.Enabled a → ∃ s', s.step a = .ok s' := by
  have hg := reachable_good h
  refine ⟨hg.owned.keyed, hg.owned.active, ?_, ?_, ?_⟩
  · intro now
    obtain ⟨A, hok, -, -⟩ := hg.owned.getExpired now
    have hsorted := s.queue.timers_.below_sorted (sentry now)
    exact ⟨_, _, hok, hsorted.imp when_le_of_lt, hsorted.imp ne_of_lt,
      fun e => hg.owned.mem_expired, fun e => hg.owned.mem_later⟩
  · intro hidle a t ht
    have hleak := hg.owned.noLeak a t ht
    rw [hidle] at hleak
    exact hleak.symm
  · intro a he
    obtain ⟨s', hs, -⟩ := hg.step he
    exact ⟨s', hs⟩

/-- Two timers expire together. The first one, which repeats, cancels the second
and adds a third from its callback. -/
def sampleSteps : List TimerStep :=
  [.newTimer 16 5 (some 40), .addTimerInLoop 16, .newTimer 32 6 none, .addTimerInLoop 32,
    .tick 200, .handleRead, .tick 1, .getExpired, .runTimer, .cancelInLoop (activeTimer 32 2),
    .newTimer 48 7 none, .addTimerInLoop 48, .runTimer, .reset]

theorem timer_queue_invariant_sample :
    ∃ s, machine.Reachable s ∧ s.phase.isIdle ∧
      s.queue.timers_.toList = [entry 7 48, entry 241 16] ∧
      s.queue.heap 32 = none ∧ ∀ now, ∃ r, s.queue.getExpired now = .ok r := by
  have h : ((machine.execute (start 1) sampleSteps).map fun s =>
      (s.phase.isIdle, s.queue.timers_.toList, s.queue.heap 32)) =
        some (true, [entry 7 48, entry 241 16], none) := by
    decide +kernel
  obtain ⟨s, hs, hview⟩ := Option.map_eq_some_iff.mp h
  simp only [Prod.mk.injEq] at hview
  obtain ⟨hidle, htimers, hheap⟩ := hview
  have hreach : machine.Reachable s :=
    ⟨start 1, sampleSteps, ⟨1, by decide, rfl⟩, Machine.run_of_execute _ hs⟩
  refine ⟨s, hreach, hidle, htimers, hheap, ?_⟩
  intro now
  obtain ⟨expired, q', hok, -⟩ := (timer_queue_invariant hreach).2.2.1 now
  exact ⟨_, hok⟩

end TimerLoop

end MuduoServer
