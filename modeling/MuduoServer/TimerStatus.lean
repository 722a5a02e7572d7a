import MuduoServer.TimerCancel

/-!
What the queue does with one timer. A timer, known by its address and its sequence number,
is created, pending in the two sets, or in the batch of expired timers, until it is
deleted. A step of the loop means something to a timer or nothing, and the timer's next
status depends on that and on its own status, whatever the other timers are.
-/
namespace MuduoServer

open FaultMachine

inductive TimerStatus
  | absent
  | created (t : Timer)
  | pending (t : Timer)
  | expired (t : Timer) (ran cancelled : Bool)
  deriving DecidableEq

/-- What a step means to one timer. -/
inductive TimerNotice
  | nothing
  | create (t : Timer)
  | add
  | cancel
  | expire (now : ℤ)
  | run
  | finish (now : ℤ)

namespace TimerStatus

def next : TimerStatus → TimerNotice → TimerStatus
  | .absent, .create t => .created t
  | .created t, .add => .pending t
  | .pending _, .cancel => .absent
  | .pending t, .expire now => if t.expiration_ ≤ now then .expired t false false else .pending t
  | .expired t ran _, .cancel => .expired t ran true
  | .expired t _ cancelled, .run => .expired t true cancelled
  | .expired t _ cancelled, .finish now =>
      if t.repeat_ ∧ ¬ cancelled then .pending (t.restart now) else .absent
  | st, _ => st

/-- How often the timer's callback is entered. -/
def runs : TimerStatus → TimerNotice → ℕ
  | .expired _ false _, .run => 1
  | _, _ => 0

end TimerStatus

namespace TimerQueue
variable {q q' : TimerQueue} {loose : List ℕ} {now : ℤ}

/-- What `reset` makes of the timer at `a`, if there is one. -/
def restarted (q : TimerQueue) (now : ℤ) (a : ℕ) : Option Timer :=
  match q.heap a with
  | none => none
  | some t =>
    if t.repeat_ ∧ activeTimer a t.sequence_ ∉ q.cancelingTimers_ then some (t.restart now)
    else none

theorem Owned.restartOne_heap (h : q.Owned loose) {it : Entry} (ha : it.timer ∈ loose)
    (hs : q.restartOne now it = .ok q') :
    q'.heap = Function.update q.heap it.timer (q.restarted now it.timer) ∧
      q'.cancelingTimers_ = q.cancelingTimers_ := by
  obtain ⟨t, ht, -⟩ := h.alive _ ha
  have hderef : q.deref it.timer = .ok t := deref_eq_ok.mpr ht
  simp only [TimerQueue.restartOne, hderef, ok_bind] at hs
  simp only [restarted, ht]
  split at hs
  · rename_i hcond
    have hstored : (q.store it.timer (some (t.restart now))).heap it.timer =
        some (t.restart now) := by simp [TimerQueue.store]
    obtain ⟨earliest, hok, -⟩ := (h.store ha (t.restart now)).insert ha hstored
    simp only [hok, ok_bind, pure_eq_ok] at hs
    subst hs
    rw [if_pos hcond]
    exact ⟨rfl, rfl⟩
  · rename_i hcond
    rw [(h.delete ha).1] at hs
    obtain rfl := Except.ok.inj hs
    rw [if_neg hcond]
    exact ⟨rfl, rfl⟩

/-- The loop of `reset` restarts or deletes the timers of its list and leaves the others. -/
theorem Owned.restartExpired_heap {expired : List Entry}
    (h : q.Owned (expired.map Entry.timer ++ loose))
    (hs : q.restartExpired now expired = .ok q') (a : ℕ) :
    q'.heap a = if a ∈ expired.map Entry.timer then q.restarted now a else q.heap a := by
  induction expired generalizing q with
  | nil =>
    obtain rfl := pure_eq_ok.mp hs
    simp
  | cons it expired ih =>
    obtain ⟨q₁, hok, howned, -⟩ := h.restartOne now it List.mem_cons_self
    obtain ⟨hheap, hcancel⟩ := h.restartOne_heap List.mem_cons_self hok
    rw [List.map_cons, List.cons_append, List.erase_cons_head] at howned
    simp only [TimerQueue.restartExpired, hok, ok_bind] at hs
    have hnodup := h.nodup
    rw [List.map_cons, List.cons_append, List.nodup_cons] at hnodup
    rw [ih howned hs]
    by_cases ha : a = it.timer
    · subst ha
      have hout : it.timer ∉ expired.map Entry.timer :=
        fun hin => hnodup.1 (List.mem_append_left _ hin)
      rw [if_neg hout, if_pos (by simp), hheap, Function.update_self]
    · have hrest : q₁.heap a = q.heap a := by rw [hheap, Function.update_of_ne ha]
      have hrestarted : q₁.restarted now a = q.restarted now a := by
        simp only [restarted, hrest, hcancel]
      simp only [List.map_cons, List.mem_cons, ha, false_or, hrest, hrestarted]

end TimerQueue

namespace TimerLoop

open TimerQueue

/-- The timer `j` in the queue: the batch has the expired ones, and what is neither there nor
in flight is pending. -/
def status (s : TimerLoop) (j : ActiveTimer) : TimerStatus :=
  match s.queue.heap j.timer with
  | none => .absent
  | some t =>
    if t.sequence_ ≠ j.sequence then .absent
    else if j.timer ∈ s.inFlight then .created t
    else if j.timer ∈ s.phase.expired.map Entry.timer then
      .expired t (j.timer ∉ s.phase.rest.map Entry.timer) (j ∈ s.queue.cancelingTimers_)
    else .pending t

def notice (s : TimerLoop) (j : ActiveTimer) : TimerStep → TimerNotice
  | .tick _ | .handleRead => .nothing
  | .newTimer addr when interval =>
      if j = activeTimer addr (s.s_numCreated_ + 1) then
        .create ⟨when, interval, s.s_numCreated_ + 1⟩
      else .nothing
  | .addTimerInLoop addr => if addr = j.timer then .add else .nothing
  | .cancelInLoop id => if id = j then .cancel else .nothing
  | .getExpired =>
      match s.phase with
      | .reading now => .expire now
      | .idle | .calling _ _ _ => .nothing
  | .runTimer =>
      match s.phase.rest with
      | it :: _ => if it.timer = j.timer then .run else .nothing
      | [] => .nothing
  | .reset =>
      match s.phase with
      | .calling now _ _ => .finish now
      | .idle | .reading _ => .nothing

/-- How often the callback of `j` was entered. -/
def runs (s : TimerLoop) (j : ActiveTimer) : ℕ :=
  s.events.count (.ran j)

variable {s s' : TimerLoop} {j : ActiveTimer} {t : Timer}

theorem status_absent (h : ¬ Names s.queue j) : s.status j = .absent := by
  unfold status
  cases hheap : s.queue.heap j.timer with
  | none => rfl
  | some t =>
    have hseq : t.sequence_ ≠ j.sequence := fun hseq => h (names_iff.mpr ⟨t, hheap, hseq⟩)
    simp only [hseq, ne_eq, not_false_eq_true, if_true]

/-- No two timers live at one address. -/
theorem status_absent_of_ne {k : ActiveTimer} (hj : Names s.queue j) (ha : k.timer = j.timer)
    (hne : k ≠ j) : s.status k = .absent := by
  apply status_absent
  rw [names_iff, ha]
  intro hk
  obtain ⟨t, ht, hseq⟩ := names_iff.mp hj
  obtain ⟨t', ht', hseq'⟩ := hk
  obtain rfl := Option.some.inj (ht.symm.trans ht')
  apply hne
  rw [← activeTimer_eta k, ← activeTimer_eta j, ha, ← hseq, hseq']

theorem status_created (ht : s.queue.heap j.timer = some t) (hseq : t.sequence_ = j.sequence)
    (hflight : j.timer ∈ s.inFlight) : s.status j = .created t := by
  simp only [status, ht, hseq, ne_eq, not_true_eq_false, if_false, hflight, if_true]

theorem status_expired (ht : s.queue.heap j.timer = some t) (hseq : t.sequence_ = j.sequence)
    (hflight : j.timer ∉ s.inFlight) (hexp : j.timer ∈ s.phase.expired.map Entry.timer) :
    s.status j =
      .expired t (j.timer ∉ s.phase.rest.map Entry.timer) (j ∈ s.queue.cancelingTimers_) := by
  simp only [status, ht, hseq, ne_eq, not_true_eq_false, if_false, hflight, hexp, if_true]

theorem status_pending (ht : s.queue.heap j.timer = some t) (hseq : t.sequence_ = j.sequence)
    (hflight : j.timer ∉ s.inFlight) (hexp : j.timer ∉ s.phase.expired.map Entry.timer) :
    s.status j = .pending t := by
  simp only [status, ht, hseq, ne_eq, not_true_eq_false, if_false, hflight, hexp]

/-- The four cases of a status, with the facts that each rests on. -/
inductive Placed (s : TimerLoop) (j : ActiveTimer) : Prop
  | absent (h : ¬ Names s.queue j) (hst : s.status j = .absent)
  | created {t : Timer} (ht : s.queue.heap j.timer = some t) (hseq : t.sequence_ = j.sequence)
      (hflight : j.timer ∈ s.inFlight) (hst : s.status j = .created t)
  | expired {t : Timer} (ht : s.queue.heap j.timer = some t) (hseq : t.sequence_ = j.sequence)
      (hflight : j.timer ∉ s.inFlight) (hexp : j.timer ∈ s.phase.expired.map Entry.timer)
      (hst : s.status j =
        .expired t (j.timer ∉ s.phase.rest.map Entry.timer) (j ∈ s.queue.cancelingTimers_))
  | pending {t : Timer} (ht : s.queue.heap j.timer = some t) (hseq : t.sequence_ = j.sequence)
      (hflight : j.timer ∉ s.inFlight) (hexp : j.timer ∉ s.phase.expired.map Entry.timer)
      (hst : s.status j = .pending t)

theorem placed (s : TimerLoop) (j : ActiveTimer) : s.Placed j := by
  by_cases hnames : Names s.queue j
  · obtain ⟨t, ht, hseq⟩ := names_iff.mp hnames
    by_cases hflight : j.timer ∈ s.inFlight
    · exact .created ht hseq hflight (status_created ht hseq hflight)
    · by_cases hexp : j.timer ∈ s.phase.expired.map Entry.timer
      · exact .expired ht hseq hflight hexp (status_expired ht hseq hflight hexp)
      · exact .pending ht hseq hflight hexp (status_pending ht hseq hflight hexp)
  · exact .absent hnames (status_absent hnames)

/-- A timer is pending when it is in the two sets, under its expiration and its number. -/
theorem Good.pending_iff (h : s.Good) :
    s.status j = .pending t ↔ s.queue.heap j.timer = some t ∧ t.sequence_ = j.sequence ∧
      entry t.expiration_ j.timer ∈ s.queue.timers_ ∧ j ∈ s.queue.activeTimers_ := by
  constructor
  · intro hst
    rcases s.placed j with ⟨-, h'⟩ | ⟨-, -, -, h'⟩ | ⟨-, -, -, -, h'⟩ | ⟨ht, hseq, hflight, hexp, h'⟩
    · cases hst.symm.trans h'
    · cases hst.symm.trans h'
    · cases hst.symm.trans h'
    · obtain rfl := TimerStatus.pending.inj (h'.symm.trans hst)
      have hloose : j.timer ∉ s.phase.expired.map Entry.timer ++ s.inFlight := by
        simp [hexp, hflight]
      have hentry := (h.owned.noLeak _ _ ht).resolve_right hloose
      obtain ⟨t', ht', -, hact⟩ := h.owned.keyed _ _ hentry
      obtain rfl := Option.some.inj (ht.symm.trans ht')
      rw [hseq, activeTimer_eta] at hact
      exact ⟨ht, hseq, hentry, hact⟩
  · rintro ⟨ht, hseq, hentry, -⟩
    have hloose : j.timer ∉ s.phase.expired.map Entry.timer ++ s.inFlight :=
      fun hin => h.owned.entry_not_mem hin _ hentry
    rw [List.mem_append, not_or] at hloose
    exact status_pending ht hseq hloose.2 hloose.1

/-- Nothing that the status of `j` rests on has changed. -/
theorem status_congr (hheap : s'.queue.heap j.timer = s.queue.heap j.timer)
    (hflight : j.timer ∈ s'.inFlight ↔ j.timer ∈ s.inFlight)
    (hphase : s'.phase.expired = s.phase.expired ∧ s'.phase.rest = s.phase.rest)
    (hcancel : j ∈ s'.queue.cancelingTimers_ ↔ j ∈ s.queue.cancelingTimers_) :
    s'.status j = s.status j := by
  simp only [status, hheap, hflight, hphase.1, hphase.2, hcancel]

end TimerLoop

end MuduoServer
