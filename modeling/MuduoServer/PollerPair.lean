import MuduoServer.EPollBookkeeping
import MuduoServer.PollPoller

/-!
The two pollers under the same calls. They agree as long as no channel that has been
taken out of the kernel's set is enabled again, and only such channels are removed,
for good: `PollPoller` does not restore the descriptor of an ignored entry, does not
reset the index of a removed channel, and refuses to remove an entry that is not ignored.
-/
namespace MuduoServer

open FaultMachine

namespace PollPoller

variable {C : Type} [DecidableEq C] {fd : C ↪ ℕ} {s : PollPoller C} {c : C} {k : ℕ} {pfd : PollFd}

omit [DecidableEq C] in
theorem ignored_neg (n : ℕ) : ignored n < 0 := by
  unfold ignored
  omega

omit [DecidableEq C] in
theorem ignored_ignored (n : ℤ) : ignored (ignored n) = n := by
  unfold ignored
  omega

theorem checkKnown_of (h : s.channels_ (fd c) = some c) : s.checkKnown fd c = .ok () := by
  simp [checkKnown, check_of, h]

omit [DecidableEq C] in
theorem pollfdAt_of (h : s.pollfds_[k]? = some pfd) : s.pollfdAt k = .ok pfd := by
  simp [pollfdAt, h]

/-- The first update of a channel appends its entry. -/
theorem updateChannel_add (ev : Finset Poll) (hindex : (s.channels c).index_ < 0)
    (hnone : s.channels_ (fd c) = none) :
    (s.setEvents c ev).updateChannel fd c = .ok
      { channels := Function.update s.channels c { s.channels c with
          events_ := ev, index_ := s.pollfds_.length }
        channels_ := Function.update s.channels_ (fd c) (some c)
        pollfds_ := s.pollfds_ ++ [{ fd := fd c, events := ev, revents := ∅ }] } := by
  simp [updateChannel, setEvents, setIndex, hindex, hnone, check_of, pure, Except.pure]

/-- A later one writes the entry, and negates its descriptor if nothing is of interest. -/
theorem updateChannel_set (ev : Finset Poll) (hindex : (s.channels c).index_ = k)
    (hknown : s.channels_ (fd c) = some c) (hget : s.pollfds_[k]? = some pfd)
    (hfd : pfd.fd = fd c ∨ pfd.fd = ignored (fd c)) :
    (s.setEvents c ev).updateChannel fd c = .ok { s with
      channels := Function.update s.channels c { s.channels c with events_ := ev }
      pollfds_ := s.pollfds_.set k
        { fd := if ev = Channel.kNoneEvent then ignored (fd c) else pfd.fd
          events := ev
          revents := ∅ } } := by
  have hself : ((s.setEvents c ev).channels c).index_ = k := by simpa [setEvents] using hindex
  have hevents : ((s.setEvents c ev).channels c).events_ = ev := by simp [setEvents]
  have hcheck : (s.setEvents c ev).checkKnown fd c = .ok () := checkKnown_of hknown
  have hat : (s.setEvents c ev).pollfdAt k = .ok pfd := pollfdAt_of hget
  simp only [updateChannel, hself, hevents, hcheck, hat, ok_bind]
  rw [if_neg (by omega), check_of hfd]
  by_cases hnone : ev = Channel.kNoneEvent
  · have hidle : ((s.setEvents c ev).channels c).isNoneEvent := hevents.trans hnone
    rw [if_pos hidle]
    simp [hnone, pure, Except.pure, setEvents]
  · have hidle : ¬ ((s.setEvents c ev).channels c).isNoneEvent := by
      rw [PolledChannel.isNoneEvent, hevents]
      exact hnone
    rw [if_neg hidle]
    simp [hnone, pure, Except.pure, setEvents]

/-- The last entry takes the place of the one that is removed, and its channel learns the
position. -/
theorem removeChannel_eq {other : C} {back : PollFd} (hnone : (s.channels c).isNoneEvent)
    (hindex : (s.channels c).index_ = k) (hknown : s.channels_ (fd c) = some c)
    (hget : s.pollfds_[k]? = some pfd) (hfd : pfd.fd = ignored (fd c))
    (hevents : pfd.events = (s.channels c).events_)
    (hback : s.pollfds_[s.pollfds_.length - 1]? = some back)
    (hother : back.fd = fd other ∨ back.fd = ignored (fd other))
    (hin : s.channels_ (fd other) = some other) (hlast : other = c ↔ k = s.pollfds_.length - 1) :
    s.removeChannel fd c = .ok
      { channels := Function.update s.channels other { s.channels other with index_ := k }
        channels_ := Function.update s.channels_ (fd c) none
        pollfds_ := swapPop s.pollfds_ k } := by
  simp only [removeChannel, checkKnown_of hknown, check_of hnone, hindex, pollfdAt_of hget,
    check_of (And.intro hfd hevents), ok_bind]
  rw [check_of (by simp [hknown])]
  by_cases hend : k = s.pollfds_.length - 1
  · have hself : { s.channels c with index_ := (k : ℤ) } = s.channels c := by rw [← hindex]
    obtain rfl := hlast.mpr hend
    have hk : k < s.pollfds_.length := (List.getElem?_eq_some_iff.mp hget).1
    rw [hself, Function.update_eq_self, swapPop_last hk hend]
    simp [hend, pure, Except.pure]
  · have hfdend : (if back.fd < 0 then ignored back.fd else back.fd) = fd other := by
      rcases hother with heq | heq
      · rw [heq, if_neg (by omega)]
      · rw [heq, if_pos (ignored_neg _), ignored_ignored]
    have hfdne : (fd other : ℤ) ≠ fd c := by
      intro heq
      exact hend (hlast.mp (fd.injective (Int.ofNat_inj.mp heq)))
    rw [← List.getLast?_eq_getElem?] at hback
    simp [hend, hback, hfdend, Function.update_of_ne hfdne, hin, setIndex, pure, Except.pure]

theorem step_remove (hnone : (s.channels c).isNoneEvent) :
    s.step fd (.remove c) = s.removeChannel fd c := by
  rw [step, check_of hnone, ok_bind]

omit [DecidableEq C] in
/-- The channels with something to report, in the order of their entries. -/
def pairs (channels_ : ℤ → Option C) (pfds : List PollFd) : List (C × Finset Poll) :=
  (pfds.filter fun pfd => pfd.revents ≠ ∅).filterMap fun pfd =>
    (channels_ pfd.fd).map fun c => (c, pfd.revents)

omit [DecidableEq C] in
theorem map_fd_pairs {channels_ : ℤ → Option C} {pfds : List PollFd}
    (hknown : ∀ pfd ∈ pfds, pfd.revents ≠ ∅ →
      ∃ c, channels_ pfd.fd = some c ∧ (fd c : ℤ) = pfd.fd) :
    ((pairs channels_ pfds).map Prod.fst).map (fun c => (fd c : ℤ)) =
      (pfds.filter fun pfd => pfd.revents ≠ ∅).map PollFd.fd := by
  induction pfds with
  | nil => rfl
  | cons pfd pfds ih =>
    have hrest := ih fun x hx => hknown x (List.mem_cons_of_mem _ hx)
    by_cases hne : pfd.revents = ∅
    · simpa [pairs, hne] using hrest
    · obtain ⟨c, hc, hfd⟩ := hknown pfd List.mem_cons_self hne
      simpa [pairs, hne, hc, hfd] using hrest

theorem fillActiveChannels_zero {pfds : List PollFd} :
    s.fillActiveChannels fd pfds 0 = .ok (s, []) := by
  cases pfds <;> rfl

/-- The count of the entries with something to report ends the loop after the last of
them. -/
theorem fillActiveChannels_eq {pfds : List PollFd} (hknown : ∀ pfd ∈ pfds, pfd.revents ≠ ∅ →
      ∃ c, s.channels_ pfd.fd = some c ∧ (fd c : ℤ) = pfd.fd) :
    s.fillActiveChannels fd pfds (pfds.countP fun pfd => pfd.revents ≠ ∅) = .ok
      ({ s with channels := EPollPoller.assign s.channels (pairs s.channels_ pfds) },
        (pairs s.channels_ pfds).map Prod.fst) := by
  induction pfds generalizing s with
  | nil => rfl
  | cons pfd pfds ih =>
    have hrest : ∀ x ∈ pfds, x.revents ≠ ∅ → _ :=
      fun x hx => hknown x (List.mem_cons_of_mem _ hx)
    by_cases hne : pfd.revents = ∅
    · have hpairs : pairs s.channels_ (pfd :: pfds) = pairs s.channels_ pfds := by
        simp [pairs, hne]
      rw [hpairs, ← ih hrest, List.countP_cons_of_neg (by simpa using hne)]
      cases pfds.countP fun pfd => pfd.revents ≠ ∅ with
      | zero => rw [fillActiveChannels_zero, fillActiveChannels_zero]
      | succ n => simp [fillActiveChannels, hne]
    · obtain ⟨c, hc, hfd⟩ := hknown pfd List.mem_cons_self hne
      have hpairs : pairs s.channels_ (pfd :: pfds) =
          (c, pfd.revents) :: pairs s.channels_ pfds := by
        simp [pairs, hne, hc]
      have hfill := ih (s := s.setRevents c pfd.revents) hrest
      rw [hpairs, List.countP_cons_of_pos (by simpa using hne)]
      simp only [fillActiveChannels, if_pos hne, hc, check_of hfd, ok_bind, hfill]
      rfl

end PollPoller

/-- Both pollers, told about every change. -/
structure Pollers (C : Type) where
  epoll : EPollPoller C
  poll : PollPoller C

namespace Pollers

open EPollPoller (kNew kAdded kDeleted)

inductive Fault
  | epoll (f : EPollPoller.Fault)
  | poll (f : PollPoller.Fault)
  deriving DecidableEq

variable {C : Type} {fd : C ↪ ℕ} {s s' : Pollers C} {c : C}

def step [DecidableEq C] (fd : C ↪ ℕ) (s : Pollers C) (a : PollerCall C) : Except Fault (Pollers C) := do
  let epoll ← (s.epoll.step fd a).mapError .epoll
  let poll ← (s.poll.step fd a).mapError .poll
  pure { epoll := epoll, poll := poll }

def machine [DecidableEq C] (fd : C ↪ ℕ) : Machine (Pollers C) (PollerCall C) Fault where
  init s := s = { epoll := EPollPoller.new, poll := PollPoller.new }
  enabled s a := s.epoll.Enabled a
  step s a := s.step fd a

/-- A call that updates a channel finds it in the kernel's set or never added, and
`remove` finds it out of the set. -/
def Lasting (s : Pollers C) : PollerCall C → Prop
  | .update _ c => (s.poll.channels c).index_ < 0 ∨ (s.epoll.channels c).index_ = kAdded
  | .remove c => (s.epoll.channels c).index_ ≠ kAdded

def position (s : Pollers C) (c : C) : Option ℕ :=
  if (s.epoll.channels c).index_ = kNew then none else some (s.poll.channels c).index_.toNat

/-- What `PollPoller` keeps for a channel that it knows. -/
def entry (fd : C ↪ ℕ) (s : Pollers C) (c : C) : PollFd :=
  { fd := if (s.epoll.channels c).index_ = kAdded then fd c else PollPoller.ignored (fd c)
    events := (s.epoll.channels c).events_
    revents := ∅ }

structure Agree (fd : C ↪ ℕ) (s : Pollers C) : Prop where
  tracks : s.epoll.Tracks fd
  events : ∀ c, (s.poll.channels c).events_ = (s.epoll.channels c).events_
  fresh : ∀ c, (s.poll.channels c).index_ < 0 → (s.epoll.channels c).index_ = kNew
  known : Records (fun c => (fd c : ℤ)) s.poll.channels_
    fun c => (s.epoll.channels c).index_ ≠ kNew
  listed : IndexedList s.poll.pollfds_ s.position (s.entry fd)

theorem new_agree (fd : C ↪ ℕ) :
    Agree fd { epoll := EPollPoller.new, poll := PollPoller.new } where
  tracks := EPollPoller.new_tracks fd
  events _ := rfl
  fresh _ _ := rfl
  known := Records.empty fun _ hne => hne rfl
  listed := IndexedList.nil _

theorem cast_injective (fd : C ↪ ℕ) : Function.Injective fun c => (fd c : ℤ) := by
  intro c d heq
  exact fd.injective (Int.ofNat_inj.mp heq)

theorem position_of_ne (hne : (s.epoll.channels c).index_ ≠ kNew) :
    s.position c = some (s.poll.channels c).index_.toNat := if_neg hne

theorem position_of_new (hnew : (s.epoll.channels c).index_ = kNew) : s.position c = none :=
  if_pos hnew

theorem position_congr (he : s'.epoll.channels c = s.epoll.channels c)
    (hp : (s'.poll.channels c).index_ = (s.poll.channels c).index_) :
    s'.position c = s.position c := by
  unfold position
  rw [he, hp]

theorem entry_congr (he : s'.epoll.channels c = s.epoll.channels c) :
    s'.entry fd c = s.entry fd c := by
  unfold entry
  rw [he]

theorem Agree.unknown (h : Agree fd s) (hnew : (s.epoll.channels c).index_ = kNew) :
    s.poll.channels_ (fd c) = none :=
  h.known.of_not (cast_injective fd) (fun hne => hne hnew)

theorem Agree.index (h : Agree fd s) (hne : (s.epoll.channels c).index_ ≠ kNew) :
    (s.poll.channels c).index_ = (s.poll.channels c).index_.toNat := by
  have hpos : 0 ≤ (s.poll.channels c).index_ := by
    by_contra hneg
    exact hne (h.fresh c (by omega))
  omega

theorem Agree.get (h : Agree fd s) (hne : (s.epoll.channels c).index_ ≠ kNew) :
    s.poll.pollfds_[(s.poll.channels c).index_.toNat]? = some (s.entry fd c) :=
  h.listed.get c _ (position_of_ne hne)

section Steps

variable [DecidableEq C]

/-- A channel gets the same events in both pollers. -/
theorem Agree.events_update (h : Agree fd s) {p e : PolledChannel} (hpe : p.events_ = e.events_)
    (d : C) : (Function.update s.poll.channels c p d).events_ =
      (Function.update s.epoll.channels c e d).events_ := by
  by_cases hd : d = c
  · subst hd
    simpa using hpe
  · simpa [Function.update_of_ne hd] using h.events d

/-- The first update enters a channel into both pollers. -/
theorem Agree.add (h : Agree fd s) (i : Interest) (hfresh : (s.poll.channels c).index_ < 0) :
    ∃ s', s.step fd (.update i c) = .ok s' ∧ Agree fd s' := by
  have hnew := h.fresh c hfresh
  have hepoll := h.tracks.step_update i c
  have hunknown : s.poll.channels_ (fd c) = none := h.unknown hnew
  have hpoll : s.poll.step fd (.update i c) = _ :=
    PollPoller.updateChannel_add (i.events (s.poll.channels c).events_) hfresh hunknown
  have hindex : (EPollPoller.updated (s.epoll.channels c)
      (i.events (s.epoll.channels c).events_)).index_ = kAdded := by
    simp [EPollPoller.updated, hnew, kNew, kAdded]
  rw [h.events c] at hpoll
  have htracks := h.tracks.step (a := .update i c) trivial hepoll
  refine ⟨{ epoll := _, poll := _ }, by rw [step, hepoll, hpoll]; rfl, htracks, ?_, ?_, ?_, ?_⟩
  · exact h.events_update (by simp [EPollPoller.updated])
  · intro d hneg
    by_cases hd : d = c
    · subst hd
      simp at hneg
      omega
    · simp only [Function.update_of_ne hd] at hneg ⊢
      exact h.fresh d hneg
  · apply h.known.update (cast_injective fd)
    · intro d
      by_cases hd : d = c
      · subst hd
        simp [hindex, kNew, kAdded]
      · simp [hd, eq_comm (a := c)]
    · intro d hd
      simp [Function.update_of_ne hd]
  · apply h.listed.push (position_of_new hnew)
    · rw [position_of_ne] <;> simp [hindex, kNew, kAdded]
    · simp [entry, EPollPoller.updated, hnew, kNew, kAdded]
    · intro d hd
      constructor
      · apply position_congr <;> simp [Function.update_of_ne hd]
      · apply entry_congr
        simp [Function.update_of_ne hd]

/-- A channel of the kernel's set stays there or is taken out, and its entry is kept or
ignored. -/
theorem Agree.set (h : Agree fd s) (i : Interest)
    (hadded : (s.epoll.channels c).index_ = kAdded) :
    ∃ s', s.step fd (.update i c) = .ok s' ∧ Agree fd s' := by
  have hne : (s.epoll.channels c).index_ ≠ kNew := by simp [hadded, kNew, kAdded]
  have hepoll := h.tracks.step_update i c
  have hfd : (s.entry fd c).fd = fd c := if_pos hadded
  have hpoll : s.poll.step fd (.update i c) = _ :=
    PollPoller.updateChannel_set (i.events (s.poll.channels c).events_) (h.index hne)
      (h.known.of_mem hne) (h.get hne) (Or.inl hfd)
  have hindex : (EPollPoller.updated (s.epoll.channels c)
      (i.events (s.epoll.channels c).events_)).index_ ≠ kNew := by
    unfold EPollPoller.updated
    split <;> simp [kNew, kAdded, kDeleted]
  rw [h.events c, hfd] at hpoll
  have htracks := h.tracks.step (a := .update i c) trivial hepoll
  refine ⟨{ epoll := _, poll := _ }, by rw [step, hepoll, hpoll]; rfl, htracks, ?_, ?_, ?_, ?_⟩
  · exact h.events_update (by simp [EPollPoller.updated])
  · intro d hneg
    by_cases hd : d = c
    · subst hd
      simp only [Function.update_self] at hneg
      exact absurd (h.fresh d hneg) hne
    · simp only [Function.update_of_ne hd] at hneg ⊢
      exact h.fresh d hneg
  · apply h.known.congr
    intro d
    by_cases hd : d = c
    · subst hd
      simp [hindex, hne]
    · simp [Function.update_of_ne hd]
  · apply h.listed.set (position_of_ne hne)
    · by_cases hnone : i.events (s.epoll.channels c).events_ = Channel.kNoneEvent
      · simp [entry, EPollPoller.updated, hadded, hnone, kAdded, kDeleted]
      · simp [entry, EPollPoller.updated, hadded, hnone]
    · intro d
      by_cases hd : d = c
      · subst hd
        rw [position_of_ne hne, position_of_ne] <;> simp [hindex]
      · apply position_congr <;> simp [Function.update_of_ne hd]
    · intro d hd
      apply entry_congr
      simp [Function.update_of_ne hd]

/-- A channel that is out of the kernel's set leaves both pollers. -/
theorem Agree.remove (h : Agree fd s) (hnone : (s.epoll.channels c).isNoneEvent)
    (hdeleted : (s.epoll.channels c).index_ = kDeleted) :
    ∃ s', s.step fd (.remove c) = .ok s' ∧ Agree fd s' := by
  have hne : (s.epoll.channels c).index_ ≠ kNew := by simp [hdeleted, kNew, kDeleted]
  have hadded : (s.epoll.channels c).index_ ≠ kAdded := by simp [hdeleted, kAdded, kDeleted]
  have hpos := position_of_ne hne
  have hlt := h.listed.lt_length hpos
  obtain ⟨other, hother⟩ := h.listed.owner (s.poll.pollfds_.length - 1) (by omega)
  have hothernew : (s.epoll.channels other).index_ ≠ kNew := by
    intro hnew
    rw [position_of_new hnew] at hother
    cases hother
  have hback : (s.entry fd other).fd = fd other ∨
      (s.entry fd other).fd = PollPoller.ignored (fd other) := ite_eq_or_eq _ _ _
  have hlast : other = c ↔ (s.poll.channels c).index_.toNat = s.poll.pollfds_.length - 1 := by
    constructor
    · rintro rfl
      exact Option.some.inj (hpos.symm.trans hother)
    · intro hend
      exact h.listed.inj other c _ hother (hend ▸ hpos)
  have hepoll := h.tracks.step_remove hnone hne
  have htracks := h.tracks.step (a := .remove c) hnone hepoll
  have hidle : (s.poll.channels c).isNoneEvent := (h.events c).trans hnone
  have hpoll := (PollPoller.step_remove hidle).trans (PollPoller.removeChannel_eq hidle
    (h.index hne) (h.known.of_mem hne) (h.get hne) (if_neg hadded) (h.events c).symm
    (h.listed.get other _ hother) hback (h.known.of_mem hothernew) hlast)
  refine ⟨{ epoll := _, poll := _ }, by rw [step, hepoll, hpoll]; rfl, htracks, ?_, ?_, ?_, ?_⟩
  · intro d
    have hevents := h.events d
    by_cases hd : d = c <;> by_cases hdo : d = other <;> simp_all
  · intro d hneg
    by_cases hd : d = c
    · subst hd
      simp
    · by_cases hdo : d = other
      · subst hdo
        simp at hneg
      · simp only [Function.update_of_ne hd, Function.update_of_ne hdo] at hneg ⊢
        exact h.fresh d hneg
  · apply h.known.update (cast_injective fd)
    · intro d
      by_cases hd : d = c
      · subst hd
        simp
      · simp [hd]
    · intro d hd
      simp [Function.update_of_ne hd]
  · apply h.listed.swapPop hpos
    · exact position_of_new (by simp)
    · intro d hd hend
      obtain rfl := h.listed.inj d other _ hend hother
      rw [position_of_ne]
      · simp only [Function.update_self, Int.toNat_natCast]
      · simpa [Function.update_of_ne hd] using hothernew
    · intro d hd hend
      have hdo : d ≠ other := by
        rintro rfl
        exact hend hother
      apply position_congr <;> simp [Function.update_of_ne hd, Function.update_of_ne hdo]
    · intro d hd
      apply entry_congr
      simp [Function.update_of_ne hd]

/-- What runs on `EPollPoller` runs on `PollPoller`. -/
theorem Agree.step (h : Agree fd s) {a : PollerCall C} (he : s.epoll.Enabled a)
    (hl : s.Lasting a) :
    (∃ f, s.step fd a = .error (.epoll f)) ∨ ∃ s', s.step fd a = .ok s' ∧ Agree fd s' := by
  cases a with
  | update i c =>
    right
    rcases hl with hfresh | hadded
    · exact h.add i hfresh
    · exact h.set i hadded
  | remove c =>
    rcases h.tracks.index c with hnew | hadded | hdeleted
    · left
      cases hs : s.epoll.step fd (.remove c) with
      | ok e => exact absurd hnew (h.tracks.known_of_removed hs)
      | error f => exact ⟨f, by rw [Pollers.step, hs]; rfl⟩
    · exact absurd hadded hl
    · right
      exact h.remove he hdeleted

end Steps

end Pollers

end MuduoServer
