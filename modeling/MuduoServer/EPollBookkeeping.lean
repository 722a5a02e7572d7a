import MuduoServer.EPollPoller
import MuduoServer.Registry

/-!
The three records of `EPollPoller` agree: the index of a channel, `channels_` and the
kernel's set. This holds whatever is called. What may go wrong is that a channel
without interest enters the set, by a call that leaves no interest on a channel
which is not in it.
-/
namespace MuduoServer.EPollPoller

open FaultMachine

variable {C : Type} {fd : C ↪ ℕ} {s s' : EPollPoller C} {c c' : C}

/-- `channels_` has the channels that are not new, and the kernel's set has those that
are added, with their events. -/
structure Tracks (fd : C ↪ ℕ) (s : EPollPoller C) : Prop where
  known : Records fd s.channels_ fun c => (s.channels c).index_ ≠ kNew
  watched : ∀ n e, s.epoll n = some e ↔ fd e.ptr = n ∧
    (s.channels e.ptr).index_ = kAdded ∧ e.events = (s.channels e.ptr).events_
  index : ∀ c, (s.channels c).index_ = kNew ∨ (s.channels c).index_ = kAdded ∨
    (s.channels c).index_ = kDeleted
  idle : ∀ c, (s.channels c).index_ ≠ kAdded → (s.channels c).isNoneEvent
  clean : s.syserrs = []

theorem new_tracks (fd : C ↪ ℕ) : Tracks fd new where
  known := Records.empty fun _ hne => hne rfl
  watched := by simp [new, PolledChannel.new, kAdded]
  index _ := Or.inl rfl
  idle _ _ := rfl
  clean := rfl

theorem Tracks.channels_of_new (h : Tracks fd s) (hindex : (s.channels c).index_ = kNew) :
    s.channels_ (fd c) = none :=
  h.known.of_not fd.injective (fun hne => hne hindex)

theorem Tracks.channels_of_ne (h : Tracks fd s) (hindex : (s.channels c).index_ ≠ kNew) :
    s.channels_ (fd c) = some c :=
  h.known.of_mem hindex

theorem Tracks.epoll_of_added (h : Tracks fd s) (hindex : (s.channels c).index_ = kAdded) :
    s.epoll (fd c) = some { events := (s.channels c).events_, ptr := c } :=
  (h.watched _ _).mpr ⟨rfl, hindex, rfl⟩

theorem Tracks.epoll_of_ne (h : Tracks fd s) (hindex : (s.channels c).index_ ≠ kAdded) :
    s.epoll (fd c) = none := by
  by_contra hne
  obtain ⟨e, he⟩ := Option.ne_none_iff_exists'.mp hne
  obtain ⟨hfd, hold, -⟩ := (h.watched _ _).mp he
  exact hindex (fd.injective hfd ▸ hold)

variable [DecidableEq C]

/-- The poller with another record of channel `c`, and everything else as that record
says. -/
def put (fd : C ↪ ℕ) (s : EPollPoller C) (c : C) (channel : PolledChannel) : EPollPoller C :=
  { channels := Function.update s.channels c channel
    channels_ := Function.update s.channels_ (fd c)
      (if channel.index_ = kNew then none else some c)
    epoll := Function.update s.epoll (fd c)
      (if channel.index_ = kAdded then some { events := channel.events_, ptr := c } else none)
    syserrs := s.syserrs }

/-- A channel that is added and left without interest becomes deleted, any other one is
added. -/
def updated (channel : PolledChannel) (events : Finset Poll) : PolledChannel :=
  { channel with
    events_ := events
    index_ := if channel.index_ = kAdded ∧ events = Channel.kNoneEvent then kDeleted
      else kAdded }

theorem checkKnown_of (h : s.channels_ (fd c) = some c) : s.checkKnown fd c = .ok () := by
  simp [checkKnown, check_of, h]

omit [DecidableEq C] in
theorem update_of_add (h : s.epoll (fd c) = none) :
    s.update fd .EPOLL_CTL_ADD c = .ok { s with
      epoll := Function.update s.epoll (fd c) (some { events := (s.channels c).events_, ptr := c }) } := by
  simp [update, epollCtl, h]

omit [DecidableEq C] in
theorem update_of_mod {e : EpollEvent C} (h : s.epoll (fd c) = some e) :
    s.update fd .EPOLL_CTL_MOD c = .ok { s with
      epoll := Function.update s.epoll (fd c) (some { events := (s.channels c).events_, ptr := c }) } := by
  simp [update, epollCtl, h]

omit [DecidableEq C] in
theorem update_of_del {e : EpollEvent C} (h : s.epoll (fd c) = some e) :
    s.update fd .EPOLL_CTL_DEL c = .ok { s with
      epoll := Function.update s.epoll (fd c) none } := by
  simp [update, epollCtl, h]

/-- No assertion of `updateChannel` fails, and `epoll_ctl` takes what it is given. -/
theorem Tracks.step_update (h : Tracks fd s) (i : Interest) (c : C) :
    s.step fd (.update i c) = .ok (put fd s c
      (updated (s.channels c) (i.events (s.channels c).events_))) := by
  generalize hev : i.events (s.channels c).events_ = ev
  have hself : ((s.setEvents c ev).channels c).index_ = (s.channels c).index_ := by
    simp [setEvents]
  have hevents : ((s.setEvents c ev).channels c).events_ = ev := by
    simp [setEvents]
  simp only [step, hev, updateChannel, hself]
  rcases h.index c with hnew | hadded | hdeleted
  · have hreg : (s.setEvents c ev).register fd c = .ok { s.setEvents c ev with
        channels_ := Function.update s.channels_ (fd c) (some c) } := by
      simp [register, setEvents, hnew, h.channels_of_new hnew, check_of]
    have hadd : s.epoll (fd c) = none := h.epoll_of_ne (by simp [hnew, kNew, kAdded])
    rw [if_pos (Or.inl hnew), hreg]
    simp only [ok_bind]
    rw [update_of_add (by exact hadd)]
    simp [put, updated, setIndex, setEvents, hnew, kNew, kAdded]
  · have hknown : (s.setEvents c ev).checkKnown fd c = .ok () :=
      checkKnown_of (h.channels_of_ne (by simp [hadded, kNew, kAdded]))
    have hin : (s.setEvents c ev).epoll (fd c) = some _ := h.epoll_of_added hadded
    have hchannels : s.channels_ = Function.update s.channels_ (fd c) (some c) := by
      rw [← h.channels_of_ne (c := c) (by simp [hadded, kNew, kAdded]), Function.update_eq_self]
    rw [if_neg (by simp [hadded, kNew, kAdded, kDeleted]), hknown, hadded]
    simp only [ok_bind, check_of]
    by_cases hnone : ev = Channel.kNoneEvent
    · rw [if_pos (by exact hevents.trans hnone), update_of_del hin]
      simp [put, updated, setIndex, setEvents, hadded, hnone, pure, Except.pure, kNew, kAdded,
        kDeleted, ← hchannels]
    · rw [if_neg (by rw [PolledChannel.isNoneEvent, hevents]; exact hnone), update_of_mod hin]
      simp [put, updated, setEvents, hadded, hnone, kNew, kAdded, ← hchannels]
  · have hne : (s.channels c).index_ ≠ kNew := by simp [hdeleted, kNew, kDeleted]
    have hknown : (s.setEvents c ev).checkKnown fd c = .ok () :=
      checkKnown_of (h.channels_of_ne hne)
    have hreg : (s.setEvents c ev).register fd c = .ok (s.setEvents c ev) := by
      rw [register, hself, if_neg hne, hknown]
      rfl
    have hadd : s.epoll (fd c) = none := h.epoll_of_ne (by simp [hdeleted, kAdded, kDeleted])
    have hchannels : s.channels_ = Function.update s.channels_ (fd c) (some c) := by
      rw [← h.channels_of_ne hne, Function.update_eq_self]
    rw [if_pos (Or.inr hdeleted), hreg]
    simp only [ok_bind]
    rw [update_of_add (by exact hadd)]
    simp [put, updated, setIndex, setEvents, hdeleted, kNew, kAdded, kDeleted, ← hchannels]

/-- `remove` of a known channel without interest meets no failing assertion either. -/
theorem Tracks.step_remove (h : Tracks fd s) (hnone : (s.channels c).isNoneEvent)
    (hne : (s.channels c).index_ ≠ kNew) :
    s.step fd (.remove c) = .ok (put fd s c { s.channels c with index_ := kNew }) := by
  have hin := h.channels_of_ne hne
  have hindex : (s.channels c).index_ = kAdded ∨ (s.channels c).index_ = kDeleted :=
    (h.index c).resolve_left hne
  simp only [step, removeChannel, check_of hnone, checkKnown_of hin, ok_bind, check_of hindex]
  rw [check_of (by simp [hin])]
  simp only [ok_bind]
  by_cases hadded : (s.channels c).index_ = kAdded
  · rw [if_pos hadded, update_of_del (by exact h.epoll_of_added hadded)]
    simp [put, setIndex, pure, Except.pure, kNew, kAdded]
  · have hout : s.epoll = Function.update s.epoll (fd c) none := by
      rw [← h.epoll_of_ne hadded, Function.update_eq_self]
    rw [if_neg hadded]
    simp [put, setIndex, pure, Except.pure, kNew, kAdded, ← hout]

theorem Tracks.put (h : Tracks fd s) (c : C) {channel : PolledChannel}
    (hindex : channel.index_ = kNew ∨ channel.index_ = kAdded ∨ channel.index_ = kDeleted)
    (hidle : channel.index_ ≠ kAdded → channel.isNoneEvent) : Tracks fd (put fd s c channel) := by
  refine ⟨?_, ?_, ?_, ?_, h.clean⟩
  · apply h.known.update fd.injective
    · intro d
      by_cases hd : d = c
      · subst hd
        simp [EPollPoller.put]
      · simp [hd, eq_comm (a := c)]
    · intro d hd
      simp [EPollPoller.put, Function.update_of_ne hd]
  · intro n e
    by_cases hn : n = fd c
    · subst hn
      by_cases hp : e.ptr = c
      · subst hp
        by_cases hadded : channel.index_ = kAdded
        · cases e
          simp [EPollPoller.put, hadded, eq_comm]
        · simp [EPollPoller.put, hadded]
      · have hne : some { events := channel.events_, ptr := c } ≠ some e := by
          rintro heq
          exact hp (congrArg EpollEvent.ptr (Option.some.inj heq)).symm
        simp only [EPollPoller.put, Function.update_self, fd.injective.eq_iff, hp, false_and,
          iff_false]
        split
        · exact hne
        · simp
    · have hold := h.watched n e
      by_cases hp : e.ptr = c
      · have hne : fd e.ptr ≠ n := fun heq => hn (hp ▸ heq.symm)
        simp only [EPollPoller.put, Function.update_of_ne hn, hne, false_and, iff_false] at hold ⊢
        exact hold
      · simpa [EPollPoller.put, Function.update_of_ne hn, Function.update_of_ne hp] using hold
  · intro d
    by_cases hd : d = c
    · subst hd
      simpa [EPollPoller.put] using hindex
    · simpa [EPollPoller.put, Function.update_of_ne hd] using h.index d
  · intro d
    by_cases hd : d = c
    · subst hd
      simpa [EPollPoller.put] using hidle
    · simpa [EPollPoller.put, Function.update_of_ne hd] using h.idle d

/-- `remove` fails on an unknown channel. -/
theorem Tracks.known_of_removed (h : Tracks fd s) (hs : s.step fd (.remove c) = .ok s') :
    (s.channels c).index_ ≠ kNew := by
  intro hnew
  simp [EPollPoller.step, removeChannel, checkKnown, h.channels_of_new hnew, check] at hs

theorem Tracks.step (h : Tracks fd s) {a : PollerCall C} (he : s.Enabled a)
    (hs : s.step fd a = .ok s') : Tracks fd s' := by
  cases a with
  | update i c =>
    rw [h.step_update i c] at hs
    obtain rfl := Except.ok.inj hs
    apply h.put
    · unfold updated
      split
      · exact Or.inr (Or.inr rfl)
      · exact Or.inr (Or.inl rfl)
    · unfold updated
      split
      · rename_i hdeleted
        exact fun _ => hdeleted.2
      · exact fun hne => absurd rfl hne
  | remove c =>
    rw [h.step_remove he (h.known_of_removed hs)] at hs
    obtain rfl := Except.ok.inj hs
    exact h.put c (Or.inl rfl) (fun _ => he)

theorem tracks_of_reachable (h : (machine fd).Reachable s) : Tracks fd s := by
  refine h.invariant ?_ (fun s a s' hinv he hs => hinv.step he hs)
  rintro s₀ rfl
  exact new_tracks fd

section Refinement

omit [DecidableEq C] in
/-- The channel as its owner sees it: the poller knows it or not. -/
def channel (s : EPollPoller C) (c : C) : Channel :=
  { events_ := (s.channels c).events_, added := (s.channels c).index_ ≠ kNew }

theorem Tracks.channel_update (h : Tracks fd s) {i : Interest}
    (hs : s.step fd (.update i c) = .ok s') : s'.channel c = i.run (s.channel c) := by
  rw [h.step_update i c] at hs
  obtain rfl := Except.ok.inj hs
  rw [Interest.run_eq]
  simp only [channel, EPollPoller.put, updated, Function.update_self]
  split <;> simp [kNew, kAdded, kDeleted]

theorem Tracks.channel_remove (h : Tracks fd s) (he : (s.channels c).isNoneEvent)
    (hs : s.step fd (.remove c) = .ok s') : (s.channel c).remove = .ok (s'.channel c) := by
  have hne : (s.channels c).index_ ≠ kNew := h.known_of_removed hs
  rw [h.step_remove he hne] at hs
  obtain rfl := Except.ok.inj hs
  apply (Channel.remove_eq_ok _).mpr
  refine ⟨he, by simpa [channel] using hne, ?_⟩
  simp [channel, EPollPoller.put]

end Refinement

/-- A call that leaves no interest is made on a channel of the kernel's set, and
`remove` on a known channel. -/
def Watched (s : EPollPoller C) : PollerCall C → Prop
  | .update i c => i.events (s.channels c).events_ = Channel.kNoneEvent →
      (s.channels c).index_ = kAdded
  | .remove c => (s.channels c).index_ ≠ kNew

/-- The channels of the kernel's set have interest. -/
def Interested (s : EPollPoller C) : Prop :=
  ∀ c, (s.channels c).index_ = kAdded → ¬ (s.channels c).isNoneEvent

omit [DecidableEq C] in
theorem new_interested : (new : EPollPoller C).Interested := by
  intro c hadded
  cases hadded

theorem Interested.put (h : s.Interested) {channel : PolledChannel}
    (hnew : channel.index_ = kAdded → ¬ channel.isNoneEvent) :
    (put fd s c channel).Interested := by
  intro d
  by_cases hd : d = c
  · subst hd
    simpa [EPollPoller.put] using hnew
  · simpa [EPollPoller.put, Function.update_of_ne hd] using h d

theorem Interested.step (hint : s.Interested) (h : Tracks fd s) {a : PollerCall C}
    (he : s.Enabled a) (hw : s.Watched a) (hs : s.step fd a = .ok s') : s'.Interested := by
  cases a with
  | update i c =>
    rw [h.step_update i c] at hs
    obtain rfl := Except.ok.inj hs
    apply hint.put
    intro hadded hnone
    have hold : (s.channels c).index_ = kAdded := hw hnone
    have hdeleted : (s.channels c).index_ = kAdded ∧
        i.events (s.channels c).events_ = Channel.kNoneEvent := ⟨hold, hnone⟩
    simp only [updated, if_pos hdeleted] at hadded
    cases hadded
  | remove c =>
    rw [h.step_remove he hw] at hs
    obtain rfl := Except.ok.inj hs
    apply hint.put
    intro hadded
    cases hadded

/-- A call that breaks the condition puts a channel without interest into the set. -/
theorem Tracks.interested_iff (h : Tracks fd s) (hint : s.Interested) (i : Interest) (c : C)
    (hs : s.step fd (.update i c) = .ok s') : s'.Interested ↔ s.Watched (.update i c) := by
  refine ⟨?_, fun hw => hint.step h (a := .update i c) trivial hw hs⟩
  intro hnew hnone
  by_contra hout
  rw [h.step_update i c] at hs
  obtain rfl := Except.ok.inj hs
  have hadded : (updated (s.channels c) (i.events (s.channels c).events_)).index_ = kAdded := by
    simp [updated, hout]
  exact hnew c (by simpa [EPollPoller.put] using hadded)
    (by simpa [EPollPoller.put, updated, PolledChannel.isNoneEvent] using hnone)

section Fill

/-- The channels of `pairs` get their `revents_`. -/
def assign (channels : C → PolledChannel) : List (C × Finset Poll) → C → PolledChannel
  | [] => channels
  | (c, revents) :: pairs =>
      assign (Function.update channels c { channels c with revents_ := revents }) pairs

theorem assign_of_not_mem {channels : C → PolledChannel} {pairs : List (C × Finset Poll)}
    (hc : c ∉ pairs.map Prod.fst) : assign channels pairs c = channels c := by
  induction pairs generalizing channels with
  | nil => rfl
  | cons pair pairs ih =>
    rw [List.map_cons, List.mem_cons, not_or] at hc
    rw [assign, ih hc.2, Function.update_of_ne hc.1]

theorem revents_assign {channels : C → PolledChannel} {pairs : List (C × Finset Poll)}
    (hnodup : (pairs.map Prod.fst).Nodup) {revents : Finset Poll} (hc : (c, revents) ∈ pairs) :
    (assign channels pairs c).revents_ = revents := by
  induction pairs generalizing channels with
  | nil => cases hc
  | cons pair pairs ih =>
    obtain ⟨hnot, hrest⟩ := List.nodup_cons.mp hnodup
    rcases List.mem_cons.mp hc with rfl | hc
    · rw [assign, assign_of_not_mem hnot, Function.update_self]
    · exact ih hrest hc

theorem mem_assigned {channels : C → PolledChannel} {pairs : List (C × Finset Poll)}
    (hnodup : (pairs.map Prod.fst).Nodup) {revents : Finset Poll} :
    (c ∈ pairs.map Prod.fst ∧ (assign channels pairs c).revents_ = revents) ↔
      (c, revents) ∈ pairs := by
  constructor
  · rintro ⟨hc, hrev⟩
    obtain ⟨pair, hin, rfl⟩ := List.mem_map.mp hc
    rw [revents_assign hnodup hin] at hrev
    exact hrev ▸ hin
  · intro hin
    exact ⟨List.mem_map_of_mem hin, revents_assign hnodup hin⟩

/-- The channels that are known become active. -/
theorem fillActiveChannels_eq {events : List (EpollEvent C)}
    (hknown : ∀ e ∈ events, s.channels_ (fd e.ptr) = some e.ptr) :
    s.fillActiveChannels fd events = .ok
      ({ s with channels := assign s.channels (events.map fun e => (e.ptr, e.events)) },
        events.map EpollEvent.ptr) := by
  induction events generalizing s with
  | nil => rfl
  | cons e events ih =>
    have hrest := ih (s := s.setRevents e.ptr e.events)
      (fun x hx => hknown x (List.mem_cons_of_mem _ hx))
    simp only [EPollPoller.fillActiveChannels, checkKnown_of (hknown e List.mem_cons_self),
      ok_bind, hrest]
    rfl

omit [DecidableEq C] in
theorem Tracks.reports_known (h : Tracks fd s) {e : EpollEvent C} (hrep : s.Reports fd e) :
    s.channels_ (fd e.ptr) = some e.ptr := by
  obtain ⟨w, hw, hptr, -⟩ := hrep
  obtain ⟨-, hadded, -⟩ := (h.watched _ _).mp hw
  rw [hptr] at hadded
  exact h.channels_of_ne (by simp [hadded, kNew, kAdded])

omit [DecidableEq C] in
theorem Interested.reports (hint : s.Interested) (h : Tracks fd s) {e : EpollEvent C}
    (hrep : s.Reports fd e) : ¬ (s.channels e.ptr).isNoneEvent := by
  obtain ⟨w, hw, hptr, -⟩ := hrep
  obtain ⟨-, hadded, -⟩ := (h.watched _ _).mp hw
  rw [hptr] at hadded
  exact hint e.ptr hadded

end Fill

section Runs

theorem watched_step (hinv : Tracks fd s ∧ s.Interested) {a : PollerCall C}
    (he : ((machine fd).restrict Watched).enabled s a) (hs : s.step fd a = .ok s') :
    Tracks fd s' ∧ s'.Interested :=
  ⟨hinv.1.step he.1 hs, hinv.2.step hinv.1 he.1 he.2 hs⟩

theorem watched_of_reachable (h : ((machine fd).restrict Watched).Reachable s) :
    Tracks fd s ∧ s.Interested := by
  refine h.invariant (I := fun s => Tracks fd s ∧ s.Interested) ?_
    (fun s a s' hinv he hs => watched_step hinv he hs)
  rintro s₀ rfl
  exact ⟨new_tracks fd, new_interested⟩

/-- The poller's records agree with the kernel's set in every run in which channels are
left without interest just while they are in the set: no assertion fails, no
`epoll_ctl` fails, and the set has just the channels with interest. -/
theorem epoll_bookkeeping (h : ((machine fd).restrict Watched).Reachable s) :
    (∀ a, ((machine fd).restrict Watched).enabled s a → ∃ s', s.step fd a = .ok s') ∧
    s.syserrs = [] ∧
    (∀ n c, s.channels_ n = some c ↔ fd c = n ∧
      ((s.channels c).index_ = kAdded ∨ (s.channels c).index_ = kDeleted)) ∧
    (∀ n e, s.epoll n = some e ↔ fd e.ptr = n ∧ ¬ (s.channels e.ptr).isNoneEvent ∧
      e.events = (s.channels e.ptr).events_) ∧
    ∀ events, (∀ e ∈ events, s.Reports fd e) →
      ∃ s', s.fillActiveChannels fd events = .ok (s', events.map EpollEvent.ptr) ∧
        ∀ c ∈ events.map EpollEvent.ptr, ¬ (s.channels c).isNoneEvent := by
  obtain ⟨htracks, hint⟩ := watched_of_reachable h
  refine ⟨?_, htracks.clean, ?_, ?_, ?_⟩
  · rintro a ⟨he, hw⟩
    cases a with
    | update i c => exact ⟨_, htracks.step_update i c⟩
    | remove c => exact ⟨_, htracks.step_remove he hw⟩
  · intro n c
    have hindex := htracks.index c
    rw [htracks.known n c]
    constructor
    · exact fun ⟨hn, hne⟩ => ⟨hn, hindex.resolve_left hne⟩
    · rintro ⟨hn, hin⟩
      refine ⟨hn, ?_⟩
      rcases hin with hin | hin <;> simp [hin, kNew, kAdded, kDeleted]
  · intro n e
    rw [htracks.watched n e]
    constructor
    · exact fun ⟨hn, hadded, hev⟩ => ⟨hn, hint _ hadded, hev⟩
    · rintro ⟨hn, hsome, hev⟩
      refine ⟨hn, ?_, hev⟩
      by_contra hout
      exact hsome (htracks.idle _ hout)
  · intro events hrep
    refine ⟨_, fillActiveChannels_eq fun e he => htracks.reports_known (hrep e he), ?_⟩
    intro c hc
    obtain ⟨e, he, rfl⟩ := List.mem_map.mp hc
    exact hint.reports htracks (hrep e he)

end Runs

section Sample

instance (s : EPollPoller C) (a : PollerCall C) : Decidable ((machine fd).enabled s a) :=
  match a with
  | .update _ _ => instDecidableTrue
  | .remove channel => inferInstanceAs (Decidable (s.channels channel).isNoneEvent)

instance (s : EPollPoller C) (a : PollerCall C) : Decidable (s.Watched a) :=
  match a with
  | .update i c => inferInstanceAs (Decidable (i.events (s.channels c).events_ = _ → _))
  | .remove c => inferInstanceAs (Decidable ((s.channels c).index_ ≠ kNew))

instance (s : EPollPoller C) (a : PollerCall C) :
    Decidable (((machine fd).restrict Watched).enabled s a) :=
  inferInstanceAs (Decidable ((machine fd).enabled s a ∧ s.Watched a))

def sampleFd : Bool ↪ ℕ := ⟨fun c => if c then 5 else 6, by unfold Function.Injective; decide⟩

/-- A channel is disabled, enabled again, removed and added once more beside another. -/
def sampleCalls : List (PollerCall Bool) :=
  [.update .enableReading true, .update .enableWriting false, .update .disableAll true,
    .update .enableWriting true, .update .disableWriting true, .remove true,
    .update .enableReading true]

theorem epoll_bookkeeping_sample :
    ∃ s, ((machine sampleFd).restrict Watched).Reachable s ∧ s.syserrs = [] ∧
      s.channels_ 5 = some true ∧ (s.epoll 5).isSome ∧ (s.epoll 6).isSome := by
  have h : (((machine sampleFd).restrict Watched).execute new sampleCalls).map
      (fun s => (s.channels_ 5, decide (s.channels true).isNoneEvent,
        decide (s.channels false).isNoneEvent)) = some (some true, false, false) := by
    decide +kernel
  obtain ⟨s, hs, hview⟩ := Option.map_eq_some_iff.mp h
  simp only [Prod.mk.injEq, decide_eq_false_iff_not] at hview
  obtain ⟨hknown, htrue, hfalse⟩ := hview
  have hreach : ((machine sampleFd).restrict Watched).Reachable s :=
    ⟨new, sampleCalls, rfl, Machine.run_of_execute _ hs⟩
  obtain ⟨-, hclean, -, hset, -⟩ := epoll_bookkeeping hreach
  have hfive := (hset 5 { events := (s.channels true).events_, ptr := true }).mpr ⟨rfl, htrue, rfl⟩
  have hsix := (hset 6 { events := (s.channels false).events_, ptr := false }).mpr
    ⟨rfl, hfalse, rfl⟩
  exact ⟨s, hreach, hclean, hknown, by simp [hfive], by simp [hsix]⟩

/-- `disableAll` on a channel that is already disabled takes it into the set again. -/
theorem disabled_channel_watched :
    ¬ ∀ s, (machine sampleFd).Reachable s → ∀ c,
      (s.epoll (sampleFd c)).isSome ↔ ¬ (s.channels c).isNoneEvent := by
  intro hall
  have h : ((machine sampleFd).execute new [.update .enableReading true,
      .update .disableAll true, .update .disableAll true]).map
      (fun s => ((s.epoll 5).isSome, decide (s.channels true).isNoneEvent)) =
        some (true, true) := by
    decide +kernel
  obtain ⟨s, hs, hview⟩ := Option.map_eq_some_iff.mp h
  obtain ⟨hset, hnone⟩ := Prod.mk.inj hview
  have hreach : (machine sampleFd).Reachable s := ⟨new, _, rfl, Machine.run_of_execute _ hs⟩
  exact (hall s hreach true).mp hset (of_decide_eq_true hnone)

end Sample

end MuduoServer.EPollPoller
