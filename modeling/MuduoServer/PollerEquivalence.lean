import MuduoServer.PollerPair

/-!
What two pollers that agree report. With the same descriptors ready, each returns the
channels of the kernel's set that have something to report, in an order of its own.
-/
namespace MuduoServer

open FaultMachine

namespace Pollers

open EPollPoller (kNew kAdded kDeleted)

variable {C : Type} {fd : C ↪ ℕ} {s s' : Pollers C} {c : C}

section Ready

variable {n : ℕ} {events : Finset Poll} {pfd : PollFd}

/-- An entry whose descriptor is not negated belongs to a channel of the kernel's set. -/
theorem Agree.owner (h : Agree fd s) (hin : pfd ∈ s.poll.pollfds_) (hpos : 0 ≤ pfd.fd) :
    ∃ c, (s.epoll.channels c).index_ = kAdded ∧ pfd.fd = fd c ∧
      pfd.events = (s.epoll.channels c).events_ := by
  obtain ⟨k, hk, hget⟩ := List.mem_iff_getElem.mp hin
  obtain ⟨c, hc⟩ := h.listed.owner k hk
  have hentry := h.listed.get c k hc
  rw [List.getElem?_eq_getElem hk, hget, Option.some.injEq] at hentry
  subst hentry
  have hadded : (s.epoll.channels c).index_ = kAdded := by
    by_contra hne
    rw [entry, if_neg hne] at hpos
    exact not_lt.mpr hpos (PollPoller.ignored_neg (fd c))
  exact ⟨c, hadded, if_pos hadded, rfl⟩

theorem Agree.mem (h : Agree fd s) (hadded : (s.epoll.channels c).index_ = kAdded) :
    s.entry fd c ∈ s.poll.pollfds_ :=
  List.mem_of_getElem? (h.get (c := c) (by simp [hadded, kNew, kAdded]))

/-- Both pollers watch the same descriptors for the same events. -/
theorem Agree.watches (h : Agree fd s) :
    s.epoll.Watches n events ↔ s.poll.Watches n events := by
  constructor
  · rintro ⟨e, he, rfl⟩
    obtain ⟨rfl, hadded, hevents⟩ := (h.tracks.watched n e).mp he
    exact ⟨_, h.mem hadded, if_pos hadded, hevents.symm⟩
  · rintro ⟨pfd, hin, hn, rfl⟩
    obtain ⟨c, hadded, hfd, hevents⟩ := h.owner hin (by omega)
    obtain rfl : fd c = n := Int.ofNat_inj.mp (hfd.symm.trans hn)
    exact ⟨_, h.tracks.epoll_of_added hadded, hevents.symm⟩

/-- What there is to report for a channel of the kernel's set. -/
def Pending (s : Pollers C) (fd : C ↪ ℕ) (ready : ℕ → Finset Poll)
    (pair : C × Finset Poll) : Prop :=
  (s.epoll.channels pair.1).index_ = kAdded ∧ pair.2 ≠ ∅ ∧
    pair.2 = ready (fd pair.1) ∩ ((s.epoll.channels pair.1).events_ ∪ {.POLLERR, .POLLHUP})

variable {ready : ℕ → Finset Poll} {maxevents : ℕ} {reported : List (EpollEvent C)}

/-- The pairs that `EPollPoller::fillActiveChannels` assigns. -/
def epollPairs (reported : List (EpollEvent C)) : List (C × Finset Poll) :=
  reported.map fun e => (e.ptr, e.events)

theorem Agree.epollPairs_pending (h : Agree fd s) (hw : s.epoll.Waits ready maxevents reported)
    {pair : C × Finset Poll} (hin : pair ∈ epollPairs reported) : s.Pending fd ready pair := by
  obtain ⟨e, he, rfl⟩ := List.mem_map.mp hin
  obtain ⟨n, w, hn, rfl, hne⟩ := hw.pending e he
  obtain ⟨rfl, hadded, hevents⟩ := (h.tracks.watched n w).mp hn
  exact ⟨hadded, hne, by simp [EPollPoller.pending, hevents]⟩

theorem Agree.mem_epollPairs (h : Agree fd s) (hw : s.epoll.Waits ready maxevents reported)
    (hroom : reported.length < maxevents) {pair : C × Finset Poll}
    (hp : s.Pending fd ready pair) : pair ∈ epollPairs reported := by
  obtain ⟨c, revents⟩ := pair
  obtain ⟨hadded, hne, hrev⟩ := hp
  have hin := hw.all hroom (fd c) _ (h.tracks.epoll_of_added hadded)
    (by simpa only [EPollPoller.pending, ← hrev] using hne)
  exact List.mem_map.mpr ⟨_, hin, by simpa [EPollPoller.pending] using hrev.symm⟩

theorem Agree.channel_of_revents (h : Agree fd s) (hin : pfd ∈ s.poll.pollfds_.map (PollPoller.polled ready))
    (hne : pfd.revents ≠ ∅) : ∃ c, s.poll.channels_ pfd.fd = some c ∧ (fd c : ℤ) = pfd.fd ∧
      s.Pending fd ready (c, pfd.revents) := by
  obtain ⟨old, hold, rfl⟩ := List.mem_map.mp hin
  have hpos : 0 ≤ old.fd := by
    by_contra hneg
    exact hne (if_pos (not_le.mp hneg))
  obtain ⟨c, hadded, hfd, hevents⟩ := h.owner hold hpos
  have hknown := h.known.of_mem (c := c) (by simp [hadded, kNew, kAdded])
  refine ⟨c, by rw [← hknown, ← hfd]; rfl, hfd.symm, hadded, hne, ?_⟩
  simp [PollPoller.polled, hevents, hfd]

theorem Agree.mem_pollPairs (h : Agree fd s) {pair : C × Finset Poll} :
    pair ∈ PollPoller.pairs s.poll.channels_ (s.poll.pollfds_.map (PollPoller.polled ready)) ↔
      s.Pending fd ready pair := by
  simp only [PollPoller.pairs, List.mem_filterMap, List.mem_filter, decide_eq_true_eq]
  constructor
  · rintro ⟨pfd, ⟨hin, hne⟩, hpair⟩
    obtain ⟨c, hc, -, hp⟩ := h.channel_of_revents hin hne
    rw [hc, Option.map_some, Option.some.injEq] at hpair
    exact hpair ▸ hp
  · obtain ⟨c, revents⟩ := pair
    rintro ⟨hadded, hne, hrev⟩
    have hrevents : (PollPoller.polled ready (s.entry fd c)).revents = revents := by
      have hpos : ¬ (fd c : ℤ) < 0 := by omega
      simpa [PollPoller.polled, entry, hadded, hpos] using hrev.symm
    have hfd : (PollPoller.polled ready (s.entry fd c)).fd = fd c := if_pos hadded
    have hknown := h.known.of_mem (c := c) (by simp [hadded, kNew, kAdded])
    refine ⟨_, ⟨List.mem_map_of_mem (h.mem hadded), by rwa [hrevents]⟩, ?_⟩
    rw [hfd, hrevents, hknown]
    rfl

theorem entry_fd_injective {c d : C} (h : (s.entry fd c).fd = (s.entry fd d).fd) : c = d := by
  have hc := PollPoller.ignored_neg (fd c)
  have hd := PollPoller.ignored_neg (fd d)
  apply fd.injective
  unfold entry PollPoller.ignored at h
  unfold PollPoller.ignored at hc hd
  dsimp only at h
  split at h <;> split at h <;> omega

theorem Agree.known_of_revents (h : Agree fd s) :
    ∀ pfd ∈ s.poll.pollfds_.map (PollPoller.polled ready), pfd.revents ≠ ∅ →
      ∃ c, s.poll.channels_ pfd.fd = some c ∧ (fd c : ℤ) = pfd.fd := by
  intro pfd hin hne
  obtain ⟨c, hc, hfd, -⟩ := h.channel_of_revents hin hne
  exact ⟨c, hc, hfd⟩

theorem Agree.pollPairs_nodup (h : Agree fd s) :
    ((PollPoller.pairs s.poll.channels_
      (s.poll.pollfds_.map (PollPoller.polled ready))).map Prod.fst).Nodup := by
  have hfds : ((s.poll.pollfds_.map (PollPoller.polled ready)).map PollFd.fd).Nodup := by
    rw [List.map_map]
    exact h.listed.nodup_map fun c d heq => entry_fd_injective heq
  apply List.Nodup.of_map fun c => (fd c : ℤ)
  rw [PollPoller.map_fd_pairs h.known_of_revents]
  exact hfds.sublist (List.filter_sublist.map _)

theorem pairs_length {channels_ : ℤ → Option C} {pfds : List PollFd}
    (hknown : ∀ pfd ∈ pfds, pfd.revents ≠ ∅ →
      ∃ c, channels_ pfd.fd = some c ∧ (fd c : ℤ) = pfd.fd) :
    (PollPoller.pairs channels_ pfds).length = pfds.countP fun pfd => pfd.revents ≠ ∅ := by
  have hlen := congrArg List.length (PollPoller.map_fd_pairs hknown)
  simpa only [List.length_map, ← List.countP_eq_length_filter] using hlen

/-- Unless `epoll_wait` has no room for all of them, both pollers assign the same pairs. -/
theorem Agree.perm (h : Agree fd s) (hw : s.epoll.Waits ready maxevents reported)
    (hroom : (s.poll.poll ready).2 ≤ maxevents) :
    (epollPairs reported).Perm
      (PollPoller.pairs s.poll.channels_ (s.poll.pollfds_.map (PollPoller.polled ready))) := by
  have hnodup : (epollPairs reported).Nodup := by
    apply List.Nodup.of_map Prod.fst
    simpa [epollPairs, Function.comp_def] using hw.nodup
  have hsub : (epollPairs reported).Subperm
      (PollPoller.pairs s.poll.channels_ (s.poll.pollfds_.map (PollPoller.polled ready))) :=
    hnodup.subperm fun pair hin => h.mem_pollPairs.mpr (h.epollPairs_pending hw hin)
  apply hsub.perm_of_length_le
  by_cases hfull : reported.length < maxevents
  · have hall := (List.Nodup.of_map _ h.pollPairs_nodup).subperm fun pair hin =>
      h.mem_epollPairs hw hfull (h.mem_pollPairs.mp hin)
    exact hall.length_le
  · rw [epollPairs, List.length_map, pairs_length h.known_of_revents]
    exact hroom.trans (not_lt.mp hfull)

variable [DecidableEq C]

/-- Both pollers make the same channels active with the same `revents_`. -/
theorem Agree.fill (h : Agree fd s) (hw : s.epoll.Waits ready maxevents reported)
    (hroom : (s.poll.poll ready).2 ≤ maxevents) :
    ∃ e active p active', s.epoll.fillActiveChannels fd reported = .ok (e, active) ∧
      (s.poll.poll ready).1.fillActiveChannels fd (s.poll.poll ready).1.pollfds_
        (s.poll.poll ready).2 = .ok (p, active') ∧
      ∀ c r, (c ∈ active ∧ (e.channels c).revents_ = r) ↔
        (c ∈ active' ∧ (p.channels c).revents_ = r) := by
  have hepoll : ∀ e ∈ reported, s.epoll.channels_ (fd e.ptr) = some e.ptr := by
    intro e he
    have hp := h.epollPairs_pending hw (List.mem_map_of_mem he)
    exact h.tracks.channels_of_ne (by simp [hp.1, kNew, kAdded])
  have hptrs : reported.map EpollEvent.ptr = (epollPairs reported).map Prod.fst := by
    simp [epollPairs, Function.comp_def]
  refine ⟨_, _, _, _, EPollPoller.fillActiveChannels_eq hepoll,
    PollPoller.fillActiveChannels_eq h.known_of_revents, ?_⟩
  intro c r
  rw [hptrs]
  exact (EPollPoller.mem_assigned (hptrs ▸ hw.nodup)).trans
    ((h.perm hw hroom).mem_iff.trans (EPollPoller.mem_assigned h.pollPairs_nodup).symm)

end Ready

section Runs

variable [DecidableEq C]

theorem agree_of_reachable (h : ((machine fd).restrict Lasting).Reachable s) : Agree fd s := by
  apply h.invariant
  · rintro s₀ rfl
    exact new_agree fd
  · rintro s a s' hagree ⟨he, hl⟩ hs
    rcases hagree.step he hl with ⟨f, hf⟩ | ⟨t, ht, hnext⟩
    · exact absurd (hf.symm.trans hs) (by simp)
    · rw [Except.ok.inj (hs.symm.trans ht)]
      exact hnext

/-- The pollers are interchangeable in every run that enables no channel which was taken
out of the kernel's set and removes only such channels: what runs on `EPollPoller` runs on
`PollPoller`, both watch the same descriptors for the same events, and both report the same
unless `epoll_wait` has no room for all. -/
theorem pollers_agree (h : ((machine fd).restrict Lasting).Reachable s) :
    (∀ a, ((machine fd).restrict Lasting).enabled s a → ∀ e, s.epoll.step fd a = .ok e →
      ∃ p, s.poll.step fd a = .ok p) ∧
    (∀ n events, s.epoll.Watches n events ↔ s.poll.Watches n events) ∧
    ∀ ready maxevents reported, s.epoll.Waits ready maxevents reported →
      (s.poll.poll ready).2 ≤ maxevents →
      ∃ e active p active', s.epoll.fillActiveChannels fd reported = .ok (e, active) ∧
        (s.poll.poll ready).1.fillActiveChannels fd (s.poll.poll ready).1.pollfds_
          (s.poll.poll ready).2 = .ok (p, active') ∧
        ∀ c r, (c ∈ active ∧ (e.channels c).revents_ = r) ↔
          (c ∈ active' ∧ (p.channels c).revents_ = r) := by
  have hagree := agree_of_reachable h
  refine ⟨?_, fun n events => hagree.watches, fun ready maxevents reported => hagree.fill⟩
  rintro a ⟨he, hl⟩ e hepoll
  rcases hagree.step he hl with ⟨f, hf⟩ | ⟨t, ht, -⟩
  · rw [step, hepoll] at hf
    cases hpoll : s.poll.step fd a with
    | ok p => exact ⟨p, rfl⟩
    | error f' =>
      rw [hpoll] at hf
      cases hf
  · simp only [step, bind_eq_ok, mapError_ok_iff] at ht
    obtain ⟨-, -, p, hp, -⟩ := ht
    exact ⟨p, hp⟩

end Runs

section Sample

variable [DecidableEq C]

instance (s : Pollers C) (a : PollerCall C) : Decidable ((machine fd).enabled s a) :=
  inferInstanceAs (Decidable ((EPollPoller.machine fd).enabled s.epoll a))

instance (s : Pollers C) (a : PollerCall C) : Decidable (s.Lasting a) :=
  match a with
  | .update _ c => inferInstanceAs
      (Decidable ((s.poll.channels c).index_ < 0 ∨ (s.epoll.channels c).index_ = kAdded))
  | .remove c => inferInstanceAs (Decidable ((s.epoll.channels c).index_ ≠ kAdded))

instance (s : Pollers C) (a : PollerCall C) :
    Decidable (((machine fd).restrict Lasting).enabled s a) :=
  inferInstanceAs (Decidable ((machine fd).enabled s a ∧ s.Lasting a))

def sampleFd : Fin 3 ↪ ℕ := ⟨Fin.val, fun _ _ => Fin.ext⟩

def sampleStart : Pollers (Fin 3) := { epoll := EPollPoller.new, poll := PollPoller.new }

/-- Three channels; the first is disabled and removed, and the last takes its place. -/
def sampleCalls : List (PollerCall (Fin 3)) :=
  [.update .enableReading 0, .update .enableReading 1, .update .enableWriting 2,
    .update .enableReading 2, .update .disableAll 0, .remove 0, .update .disableWriting 2]

def sampleReady (n : ℕ) : Finset Poll := if n = 2 then {.POLLIN, .POLLOUT} else ∅

theorem pollers_agree_sample :
    ∃ s reported, ((machine sampleFd).restrict Lasting).Reachable s ∧
      s.epoll.Waits sampleReady EPollPoller.kInitEventListSize reported ∧
      ∃ e active, s.epoll.fillActiveChannels sampleFd reported = .ok (e, active) ∧
        2 ∈ active ∧ (e.channels 2).revents_ = {.POLLIN} := by
  have h : (((machine sampleFd).restrict Lasting).execute sampleStart sampleCalls).bind
      (fun s => (s.epoll.epoll 2).bind fun w =>
        (((s.poll.poll sampleReady).1.fillActiveChannels sampleFd
          (s.poll.poll sampleReady).1.pollfds_ (s.poll.poll sampleReady).2).toOption.map
            fun r => (w.events, (s.poll.poll sampleReady).2, r.2, (r.1.channels 2).revents_))) =
        some (Channel.kReadEvent, 1, [2], {.POLLIN}) := by
    decide +kernel
  obtain ⟨s, hs, hview⟩ := Option.bind_eq_some_iff.mp h
  obtain ⟨w, hw, hview⟩ := Option.bind_eq_some_iff.mp hview
  obtain ⟨r, hr, hview⟩ := Option.map_eq_some_iff.mp hview
  simp only [Prod.mk.injEq] at hview
  obtain ⟨hevents, hcount, hactive, hrevents⟩ := hview
  have hreach : ((machine sampleFd).restrict Lasting).Reachable s :=
    ⟨sampleStart, sampleCalls, rfl, Machine.run_of_execute _ hs⟩
  have hne : (EPollPoller.pending sampleReady 2 w).events ≠ ∅ := by
    simp only [EPollPoller.pending, hevents]
    decide
  have hwaits : s.epoll.Waits sampleReady EPollPoller.kInitEventListSize
      [EPollPoller.pending sampleReady 2 w] := by
    refine ⟨?_, List.nodup_singleton _, by simp [EPollPoller.kInitEventListSize], ?_⟩
    · intro e he
      obtain rfl := List.mem_singleton.mp he
      exact ⟨2, w, hw, rfl, hne⟩
    · intro _ n v hv hready
      have hn : n = 2 := by
        by_contra hn
        simp [EPollPoller.pending, sampleReady, hn] at hready
      subst hn
      rw [Option.some.inj (hv.symm.trans hw)]
      exact List.mem_singleton_self _
  obtain ⟨e, active, p, active', hepoll, hpoll, hsame⟩ :=
    (pollers_agree hreach).2.2 _ _ _ hwaits (by rw [hcount]; decide)
  rw [hpoll] at hr
  obtain rfl := Option.some.inj hr
  dsimp only at hactive hrevents
  have hmem := (hsame 2 {.POLLIN}).mpr ⟨by simp [hactive], hrevents⟩
  exact ⟨s, _, hreach, hwaits, e, active, hepoll, hmem.1, hmem.2⟩

/-- A channel is disabled and enabled again: `PollPoller` keeps ignoring it. -/
theorem reenabled_channel_ignored :
    ¬ ∀ s, (machine sampleFd).Reachable s →
      (∀ a, (machine sampleFd).enabled s a →
        ∀ e, s.epoll.step sampleFd a = .ok e →
          ∃ p, s.poll.step sampleFd a = .ok p) ∧
      ∀ n events, s.epoll.Watches n events ↔ s.poll.Watches n events := by
  intro hall
  have h : ((machine sampleFd).execute sampleStart
      [.update .enableReading 2, .update .disableAll 2, .update .enableReading 2]).map
      (fun s => ((s.epoll.epoll 2).map EpollEvent.events, s.poll.pollfds_.map PollFd.fd)) =
        some (some Channel.kReadEvent, [-3]) := by
    decide +kernel
  obtain ⟨s, hs, hview⟩ := Option.map_eq_some_iff.mp h
  obtain ⟨hset, hfds⟩ := Prod.mk.inj hview
  have hreach : (machine sampleFd).Reachable s :=
    ⟨_, _, rfl, Machine.run_of_execute _ hs⟩
  obtain ⟨e, he, hevents⟩ := Option.map_eq_some_iff.mp hset
  obtain ⟨pfd, hin, hfd, -⟩ := ((hall s hreach).2 2 _).mp ⟨e, he, hevents⟩
  have hmem := List.mem_map_of_mem (f := PollFd.fd) hin
  rw [hfds, hfd] at hmem
  simp at hmem

end Sample

end Pollers

end MuduoServer
