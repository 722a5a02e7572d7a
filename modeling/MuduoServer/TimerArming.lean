import MuduoServer.TimerInvariant

/-!
The timerfd is set only when a new earliest timer is added and at the end of
`reset`. While the callbacks of a batch run, the read timerfd is idle although
later timers are scheduled; what they still need is that a timer which `reset`
takes for invalid, because its expiration is not positive, has set the timerfd
itself when it was added.
-/
namespace MuduoServer

open FaultMachine

namespace TimerQueue

/-- The timerfd expires by `w`, or within 100 microseconds of its last setting. -/
def ArmedBy (q : TimerQueue) (w : ℤ) : Prop :=
  ∃ d, q.timerfd = some d ∧ d ≤ max w (q.lastArmed + 100)

variable {q : TimerQueue}

theorem ArmedBy.mono {w w' : ℤ} (h : q.ArmedBy w) (hle : w ≤ w') : q.ArmedBy w' := by
  obtain ⟨d, hd, hbound⟩ := h
  refine ⟨d, hd, le_trans hbound ?_⟩
  omega

theorem timerfd_resetTimerfd (q : TimerQueue) (when clock : ℤ) :
    (q.resetTimerfd when clock).timerfd = some (max when (clock + 100)) := by
  simp only [resetTimerfd, howMuchTimeFromNow, kMicroSecondsPerSecond, Option.some.injEq]
  split <;> omega

theorem resetTimerfd_armedBy (q : TimerQueue) (when clock : ℤ) {w : ℤ} (hle : when ≤ w) :
    (q.resetTimerfd when clock).ArmedBy w := by
  refine ⟨_, q.timerfd_resetTimerfd when clock, ?_⟩
  simp only [resetTimerfd]
  omega

/-- Every timer that meets `p` is covered by the timerfd. -/
def Covers (q : TimerQueue) (p : ℤ → Prop) : Prop :=
  ∀ e ∈ q.timers_, p e.when → q.ArmedBy e.when

theorem Covers.congr {p : ℤ → Prop} (h : q.Covers p) {q' : TimerQueue}
    (hfd : q'.timerfd = q.timerfd) (hlast : q'.lastArmed = q.lastArmed)
    (hsub : ∀ e ∈ q'.timers_, e ∈ q.timers_ ∨ ¬ p e.when) : q'.Covers p := by
  intro e he hp
  rcases hsub e he with hold | hnot
  · obtain ⟨d, hd, hbound⟩ := h e hold hp
    exact ⟨d, hfd.trans hd, by rwa [hlast]⟩
  · exact absurd hp hnot

/-- Adding a timer keeps the cover of every downward closed kind of timers. -/
theorem Covers.addTimerInLoop {p : ℤ → Prop} {loose : List ℕ} (h : q.Covers p)
    (hown : q.Owned loose) (hp : ∀ w w', w ≤ w' → p w' → p w) {a : ℕ} (ha : a ∈ loose)
    {clock : ℤ} {q' : TimerQueue} (hs : q.addTimerInLoop a clock = .ok q') : q'.Covers p := by
  obtain ⟨t, q₁, -, hok, -, hshape⟩ := hown.addTimerInLoop ha clock
  obtain rfl := Except.ok.inj (hs.symm.trans hok)
  rcases hshape with ⟨rfl, hfirst⟩ | ⟨rfl, e₀, he₀, hlate⟩
  · intro e he _
    apply resetTimerfd_armedBy
    rcases OrderedSet.mem_insert.mp he with rfl | hold
    · exact le_refl _
    · exact le_of_lt (hfirst e hold)
  · intro e he hpe
    rcases OrderedSet.mem_insert.mp he with rfl | hold
    · exact (h e₀ he₀ (hp _ _ hlate hpe)).mono hlate
    · exact h e hold hpe

theorem Covers.restarts {now : ℤ} (hnow : 0 < now) {it : Entry} {q' : TimerQueue}
    (h : q.Covers (· ≤ 0)) (hr : Restarts now it q q') : q'.Covers (· ≤ 0) := by
  cases hr with
  | @restart t ht hrepeat hkeep =>
    refine h.congr ?_ ?_ ?_
    · rfl
    · rfl
    intro e he
    rcases OrderedSet.mem_insert.mp he with rfl | hold
    · -- a restarted timer expires after `now`
      right
      obtain ⟨delta, hdelta⟩ := Option.isSome_iff_exists.mp hrepeat
      simp only [entry_when, Timer.restart, hdelta]
      omega
    · exact Or.inl hold
  | delete ht => exact h.congr rfl rfl (fun e he => Or.inl he)

/-- The end of `reset` covers every timer again. -/
theorem Covers.nextExpire {q₁ q' : TimerQueue} {clock : ℤ} (h : q₁.Covers (· ≤ 0))
    (hq : q' = if 0 < q₁.timers_.begin?.elim 0 Entry.when then
      q₁.resetTimerfd (q₁.timers_.begin?.elim 0 Entry.when) clock else q₁) :
    q'.Covers (fun _ => True) := by
  intro e he _
  have hsame : e ∈ q₁.timers_ := by
    rw [hq] at he
    split at he
    · exact he
    · exact he
  obtain ⟨first, hfirst⟩ := OrderedSet.begin?_isSome_of_mem hsame
  have hle : first.when ≤ e.when := by
    rcases eq_or_lt_of_le (OrderedSet.begin?_le hfirst hsame) with heq | hlt
    · rw [heq]
    · exact when_le_of_lt hlt
  rw [hq]
  simp only [hfirst, Option.elim_some]
  by_cases hpos : 0 < first.when
  · rw [if_pos hpos]
    exact resetTimerfd_armedBy _ _ _ hle
  · rw [if_neg hpos]
    exact (h first (OrderedSet.mem_of_begin? hfirst) (by omega)).mono hle

end TimerQueue

namespace TimerLoop

open TimerQueue

def Phase.now? : Phase → Option ℤ
  | .idle => none
  | .reading now => some now
  | .calling now _ _ => some now

/-- Outside the callbacks the timerfd covers every timer, and inside them those
that `reset` would not see. -/
structure Arms (s : TimerLoop) : Prop where
  clock_pos : 0 < s.clock
  now_pos : ∀ now ∈ Phase.now? s.phase, 0 < now
  covers : s.queue.Covers (fun w => s.phase.isCalling → w ≤ 0)

variable {s s' : TimerLoop}

theorem Arms.step {a : TimerStep} (h : s.Arms) (hg : s.Good) (he : s.Enabled a)
    (hs : s.step a = .ok s') : s'.Arms := by
  cases a with
  | tick d =>
    rw [← pure_eq_ok.mp hs]
    refine ⟨?_, h.now_pos, h.covers⟩
    have hpos := h.clock_pos
    simp only
    omega
  | newTimer addr when interval =>
    rw [← pure_eq_ok.mp hs]
    exact ⟨h.clock_pos, h.now_pos, h.covers⟩
  | addTimerInLoop addr =>
    simp only [TimerLoop.step, bind_eq_ok, pure_eq_ok] at hs
    obtain ⟨q, hok, rfl⟩ := hs
    refine ⟨h.clock_pos, h.now_pos, ?_⟩
    apply h.covers.addTimerInLoop hg.owned _ (List.mem_append_right _ he.1) hok
    intro w w' hle hw hcalling
    exact le_trans hle (hw hcalling)
  | cancelInLoop id =>
    obtain ⟨q, hok, -, hshape⟩ := hg.owned.cancelInLoop id
    simp only [TimerLoop.step, hok, ok_bind, pure_eq_ok] at hs
    subst hs
    refine ⟨h.clock_pos, h.now_pos, ?_⟩
    rcases hshape with ⟨t, -, -, -, rfl⟩ | ⟨-, -, rfl⟩ | ⟨-, -, rfl⟩
    · refine h.covers.congr ?_ ?_ ?_
      · rfl
      · rfl
      · intro e he
        exact Or.inl (OrderedSet.mem_erase.mp he).2
    · exact h.covers.congr rfl rfl (fun e he => Or.inl he)
    · exact h.covers
  | handleRead =>
    have hidle := Phase.eq_idle he
    have hcovers := h.covers
    rw [hidle] at hcovers
    rw [← pure_eq_ok.mp hs]
    refine ⟨h.clock_pos, ?_, hcovers⟩
    intro now hnow
    obtain rfl := Option.some.inj hnow
    exact h.clock_pos
  | getExpired =>
    obtain ⟨now, hp⟩ := Phase.exists_reading he
    have hpos : 0 < now := h.now_pos now (by rw [hp]; rfl)
    obtain ⟨A, fd, hok, -, -⟩ := hg.beginCalling (by rw [hp]; rfl) now
    simp only [TimerLoop.step, hp, hok] at hs
    obtain rfl := Except.ok.inj hs
    refine ⟨h.clock_pos, ?_, ?_⟩
    · intro now' hnow
      obtain rfl := Option.some.inj hnow
      exact hpos
    · intro e hmem hle
      have hlater := (hg.owned.mem_later.mp hmem).2
      have hneg := hle rfl
      omega
  | runTimer =>
    obtain ⟨now, expired, it, rest, hp⟩ := Phase.exists_calling_of_rest he
    have hnow := h.now_pos
    have hcovers := h.covers
    rw [hp] at hnow hcovers
    simp only [TimerLoop.step, hp, TimerLoop.runNext, bind_eq_ok, pure_eq_ok] at hs
    obtain ⟨t, -, rfl⟩ := hs
    exact ⟨h.clock_pos, hnow, hcovers⟩
  | reset =>
    obtain ⟨now, expired, hp⟩ := Phase.exists_calling_end he.1 he.2
    have hpos : 0 < now := h.now_pos now (by rw [hp]; rfl)
    have howned := hg.owned
    rw [hp] at howned
    have hstart : ({ s.queue with callingExpiredTimers_ := false } : TimerQueue).Owned
        (expired.map Entry.timer ++ s.inFlight) := howned.congr rfl rfl rfl
    have hcovers : ({ s.queue with callingExpiredTimers_ := false } : TimerQueue).Covers
        (· ≤ 0) := by
      intro e hmem hle
      exact h.covers e hmem (fun _ => hle)
    obtain ⟨q₁, q', hok, -, hend, hq'⟩ := hstart.reset (P := fun q => q.Covers (· ≤ 0)) now s.clock
      hcovers (fun q it q' _ hq hr => hq.restarts hpos hr)
    simp only [TimerLoop.step, hp, TimerLoop.endCalling, hok, ok_bind, pure_eq_ok] at hs
    subst hs
    refine ⟨h.clock_pos, ?_, ?_⟩
    · intro now' hnow
      cases hnow
    · intro e hmem _
      exact hend.nextExpire hq' e hmem trivial

theorem start_arms {clock : ℤ} (h : 0 < clock) : (start clock).Arms := by
  refine ⟨h, ?_, ?_⟩
  · intro now hnow
    cases hnow
  · intro e he
    exact absurd he (OrderedSet.not_mem_empty e)

/-- A callback adds a timer with an invalid expiration, so `reset` does not set
the timerfd. -/
def addInvalid : List TimerStep :=
  [.newTimer 16 5 none, .addTimerInLoop 16, .newTimer 32 900 none, .addTimerInLoop 32, .tick 200,
    .handleRead, .getExpired, .runTimer, .newTimer 48 (-3) none, .addTimerInLoop 48, .tick 9,
    .reset]

end TimerLoop

end MuduoServer
