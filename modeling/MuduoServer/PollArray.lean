import MuduoServer.PollerPair
import Mathlib.Data.Set.Function

/-!
The array of `PollPoller` under calls that keep its contract: the first update of a channel
has an interest, only a channel without one is removed, and a removed channel does not come
back. Its index is then its position in the array whatever has been removed before, and the
entry there is its own, with its descriptor as it is or negated.
-/
namespace MuduoServer.PollPoller

open FaultMachine

/-- A call for a channel whose `events_` have become `events`, and the removal of one. -/
inductive Call (C : Type)
  | updateChannel (channel : C) (events : Finset Poll)
  | removeChannel (channel : C)

inductive Stage
  | fresh
  | watched
  | removed
  deriving DecidableEq

/-- A poller and how far each channel has come. -/
structure Staged (C : Type) where
  poller : PollPoller C
  stage : C → Stage

namespace Staged

variable {C : Type}

/-- The contract of the two calls. -/
def Allowed (t : Staged C) : Call C → Prop
  | .updateChannel c events =>
      t.stage c ≠ .removed ∧ (t.stage c = .fresh → events ≠ Channel.kNoneEvent)
  | .removeChannel c => t.stage c = .watched ∧ (t.poller.channels c).isNoneEvent

def step [DecidableEq C] (fd : C ↪ ℕ) (t : Staged C) : Call C → Except Fault (Staged C)
  | .updateChannel c events => do
      let poller ← (t.poller.setEvents c events).updateChannel fd c
      pure { poller := poller, stage := Function.update t.stage c .watched }
  | .removeChannel c => do
      let poller ← t.poller.removeChannel fd c
      pure { poller := poller, stage := Function.update t.stage c .removed }

def machine [DecidableEq C] (fd : C ↪ ℕ) : Machine (Staged C) (Call C) Fault where
  init t := t = { poller := new, stage := fun _ => .fresh }
  enabled := Allowed
  step := step fd

def position (t : Staged C) (c : C) : Option ℕ :=
  if t.stage c = .watched then some (t.poller.channels c).index_.toNat else none

/-- The entry of a channel; `off` tells whose descriptors are negated. -/
def entry (fd : C ↪ ℕ) (off : C → Bool) (t : Staged C) (c : C) : PollFd :=
  { fd := if off c then ignored (fd c) else fd c
    events := (t.poller.channels c).events_
    revents := ∅ }

/-- The channels know their positions, and those without interest are negated. -/
structure Arranged (fd : C ↪ ℕ) (off : C → Bool) (t : Staged C) : Prop where
  known : Records (fun c => (fd c : ℤ)) t.poller.channels_ fun c => t.stage c = .watched
  fresh : ∀ c, t.stage c = .fresh → (t.poller.channels c).index_ < 0
  index : ∀ c, t.stage c = .watched → 0 ≤ (t.poller.channels c).index_
  listed : IndexedList t.poller.pollfds_ t.position (t.entry fd off)
  idle : ∀ c, t.stage c = .watched → (t.poller.channels c).isNoneEvent → off c = true

variable {fd : C ↪ ℕ} {off off' : C → Bool} {t t' : Staged C} {c : C}

theorem position_of_watched (hc : t.stage c = .watched) :
    t.position c = some (t.poller.channels c).index_.toNat := if_pos hc

theorem position_of_ne (hc : t.stage c ≠ .watched) : t.position c = none := if_neg hc

theorem position_congr (hstage : t'.stage c = t.stage c)
    (hindex : (t'.poller.channels c).index_ = (t.poller.channels c).index_) :
    t'.position c = t.position c := by
  unfold position
  rw [hstage, hindex]

theorem entry_congr (hoff : off' c = off c)
    (hevents : (t'.poller.channels c).events_ = (t.poller.channels c).events_) :
    t'.entry fd off' c = t.entry fd off c := by
  unfold entry
  rw [hoff, hevents]

theorem entry_fd (t : Staged C) (fd : C ↪ ℕ) (off : C → Bool) (c : C) :
    (t.entry fd off c).fd = fd c ∨ (t.entry fd off c).fd = ignored (fd c) :=
  (ite_eq_or_eq _ _ _).symm

theorem entry_fd_injective {d : C} (h : (t.entry fd off c).fd = (t.entry fd off d).fd) : c = d := by
  have hc : ignored (fd c) = -(fd c) - 1 := rfl
  have hd : ignored (fd d) = -(fd d) - 1 := rfl
  apply fd.injective
  rcases t.entry_fd fd off c with heq | heq <;> rcases t.entry_fd fd off d with heq' | heq' <;>
    omega

theorem Arranged.index_eq (h : Arranged fd off t) (hc : t.stage c = .watched) :
    (t.poller.channels c).index_ = (t.poller.channels c).index_.toNat := by
  have hpos := h.index c hc
  omega

theorem Arranged.get (h : Arranged fd off t) (hc : t.stage c = .watched) :
    t.poller.pollfds_[(t.poller.channels c).index_.toNat]? = some (t.entry fd off c) :=
  h.listed.get c _ (position_of_watched hc)

theorem watched_of_position {k : ℕ} (hc : t.position c = some k) : t.stage c = .watched := by
  by_contra hne
  rw [position_of_ne hne] at hc
  cases hc

theorem new_arranged (fd : C ↪ ℕ) :
    Arranged fd (fun _ => false) { poller := new, stage := fun _ => .fresh } where
  known := Records.empty fun _ hne => by cases hne
  fresh _ _ := (by decide : (-1 : ℤ) < 0)
  index _ hc := by cases hc
  listed := IndexedList.nil _
  idle _ hc := by cases hc

section Steps

variable [DecidableEq C]

/-- The first update gives the channel the next position. -/
theorem Arranged.add (h : Arranged fd off t) (hfresh : t.stage c = .fresh) {events : Finset Poll}
    (hevents : events ≠ Channel.kNoneEvent) :
    ∃ t', t.step fd (.updateChannel c events) = .ok t' ∧
      Arranged fd (Function.update off c false) t' := by
  have hwatched : t.stage c ≠ .watched := by simp [hfresh]
  have hunknown : t.poller.channels_ (fd c) = none :=
    h.known.of_not (Pollers.cast_injective fd) hwatched
  have hstep := updateChannel_add events (h.fresh c hfresh) hunknown
  refine ⟨_, by rw [step, hstep, ok_bind]; rfl, ?_, ?_, ?_, ?_, ?_⟩
  · apply h.known.update (Pollers.cast_injective fd)
    · intro d
      by_cases hd : d = c
      · simp [hd]
      · simp [hd, eq_comm (a := c)]
    · intro d hd
      simp [Function.update_of_ne hd]
  · intro d hd
    by_cases hdc : d = c
    · simp [hdc] at hd
    · simp only [Function.update_of_ne hdc] at hd ⊢
      exact h.fresh d hd
  · intro d hd
    by_cases hdc : d = c
    · simp [hdc]
    · simp only [Function.update_of_ne hdc] at hd ⊢
      exact h.index d hd
  · apply h.listed.push (position_of_ne hwatched)
    · simp [position]
    · simp [entry]
    · intro d hd
      constructor
      · apply position_congr <;> simp [Function.update_of_ne hd]
      · apply entry_congr <;> simp [Function.update_of_ne hd]
  · intro d hd hidle
    by_cases hdc : d = c
    · simp only [hdc, PolledChannel.isNoneEvent, Function.update_self] at hidle
      exact absurd hidle hevents
    · simp only [Function.update_of_ne hdc] at hd hidle ⊢
      exact h.idle d hd hidle

/-- A later update writes the entry where it is. -/
theorem Arranged.set (h : Arranged fd off t) (hc : t.stage c = .watched) (events : Finset Poll) :
    ∃ t', t.step fd (.updateChannel c events) = .ok t' ∧
      Arranged fd (Function.update off c (off c || decide (events = Channel.kNoneEvent))) t' := by
  have hstep := updateChannel_set events (h.index_eq hc) (h.known.of_mem hc) (h.get hc)
    (t.entry_fd fd off c)
  refine ⟨_, by rw [step, hstep, ok_bind]; rfl, ?_, ?_, ?_, ?_, ?_⟩
  · apply h.known.congr
    intro d
    by_cases hd : d = c
    · simp [hd, hc]
    · simp [Function.update_of_ne hd]
  · intro d hd
    by_cases hdc : d = c
    · simp [hdc] at hd
    · simp only [Function.update_of_ne hdc] at hd ⊢
      exact h.fresh d hd
  · intro d hd
    by_cases hdc : d = c
    · subst hdc
      simpa using h.index d hc
    · simp only [Function.update_of_ne hdc] at hd ⊢
      exact h.index d hd
  · apply h.listed.set (position_of_watched hc)
    · by_cases hnone : events = Channel.kNoneEvent
      · simp [entry, hnone]
      · simp [entry, hnone]
    · intro d
      by_cases hd : d = c
      · subst hd
        rw [position_of_watched hc, position_of_watched] <;> simp
      · apply position_congr <;> simp [Function.update_of_ne hd]
    · intro d hd
      apply entry_congr <;> simp [Function.update_of_ne hd]
  · intro d hd hidle
    by_cases hdc : d = c
    · subst hdc
      simp only [PolledChannel.isNoneEvent, Function.update_self] at hidle
      simp [hidle]
    · simp only [Function.update_of_ne hdc] at hd hidle ⊢
      exact h.idle d hd hidle

/-- The last entry moves to the place of the removed one. -/
theorem Arranged.remove (h : Arranged fd off t) (hc : t.stage c = .watched)
    (hidle : (t.poller.channels c).isNoneEvent) :
    ∃ t', t.step fd (.removeChannel c) = .ok t' ∧ Arranged fd off t' := by
  have hpos := position_of_watched hc
  have hlt := h.listed.lt_length hpos
  obtain ⟨other, hother⟩ := h.listed.owner (t.poller.pollfds_.length - 1) (by omega)
  have hwatched := watched_of_position hother
  have hlast : other = c ↔
      (t.poller.channels c).index_.toNat = t.poller.pollfds_.length - 1 := by
    constructor
    · rintro rfl
      exact Option.some.inj (hpos.symm.trans hother)
    · intro hend
      exact h.listed.inj other c _ hother (hend ▸ hpos)
  have hstep := removeChannel_eq hidle (h.index_eq hc) (h.known.of_mem hc) (h.get hc)
    (if_pos (h.idle c hc hidle)) rfl (h.listed.get other _ hother) (t.entry_fd fd off other)
    (h.known.of_mem hwatched) hlast
  refine ⟨_, by rw [step, hstep, ok_bind]; rfl, ?_, ?_, ?_, ?_, ?_⟩
  · apply h.known.update (Pollers.cast_injective fd)
    · intro d
      by_cases hd : d = c
      · simp [hd]
      · simp [hd]
    · intro d hd
      simp [Function.update_of_ne hd]
  · intro d hd
    have hdc : d ≠ c := by
      rintro rfl
      simp at hd
    have hdo : d ≠ other := by
      rintro rfl
      simp [Function.update_of_ne hdc, hwatched] at hd
    simp only [Function.update_of_ne hdc, Function.update_of_ne hdo] at hd ⊢
    exact h.fresh d hd
  · intro d hd
    by_cases hdo : d = other
    · simp [hdo]
    · have hdc : d ≠ c := by
        rintro rfl
        simp at hd
      simp only [Function.update_of_ne hdc, Function.update_of_ne hdo] at hd ⊢
      exact h.index d hd
  · apply h.listed.swapPop hpos
    · exact position_of_ne (by simp)
    · intro d hd hend
      obtain rfl := h.listed.inj d other _ hend hother
      rw [position_of_watched]
      · simp only [Function.update_self, Int.toNat_natCast]
      · simpa [Function.update_of_ne hd] using hwatched
    · intro d hd hend
      have hdo : d ≠ other := by
        rintro rfl
        exact hend hother
      apply position_congr <;> simp [Function.update_of_ne hd, Function.update_of_ne hdo]
    · intro d hd
      apply entry_congr rfl
      by_cases hdo : d = other
      · simp [hdo]
      · simp [Function.update_of_ne hdo]
  · intro d hd hnone
    have hdc : d ≠ c := by
      rintro rfl
      simp at hd
    simp only [Function.update_of_ne hdc] at hd
    refine h.idle d hd ?_
    by_cases hdo : d = other
    · subst hdo
      simpa [PolledChannel.isNoneEvent] using hnone
    · simpa [Function.update_of_ne hdo] using hnone

theorem Arranged.step (h : Arranged fd off t) {a : Call C} (ha : t.Allowed a) :
    ∃ off' t', t.step fd a = .ok t' ∧ Arranged fd off' t' := by
  cases a with
  | updateChannel c events =>
    obtain ⟨hremoved, hfirst⟩ := ha
    cases hstage : t.stage c with
    | fresh =>
      obtain ⟨t', ht, hnext⟩ := h.add hstage (hfirst hstage)
      exact ⟨_, t', ht, hnext⟩
    | watched =>
      obtain ⟨t', ht, hnext⟩ := h.set hstage events
      exact ⟨_, t', ht, hnext⟩
    | removed => exact absurd hstage hremoved
  | removeChannel c =>
    obtain ⟨t', ht, hnext⟩ := h.remove ha.1 ha.2
    exact ⟨_, t', ht, hnext⟩

theorem arranged_of_reachable (h : (machine fd).Reachable t) : ∃ off, Arranged fd off t := by
  apply h.invariant
  · rintro t₀ rfl
    exact ⟨_, new_arranged fd⟩
  · rintro t a t' ⟨off, harranged⟩ ha hs
    obtain ⟨off', t₁, ht₁, hnext⟩ := harranged.step ha
    rw [Except.ok.inj (hs.symm.trans ht₁)]
    exact ⟨off', hnext⟩

end Steps

section Report

variable {revents : ℕ → Finset Poll} {pfd : PollFd}

/-- An entry after `::poll`, which reports nothing for a negative descriptor. -/
def reported (revents : ℕ → Finset Poll) (pfd : PollFd) : PollFd :=
  { pfd with revents := if pfd.fd < 0 then ∅ else revents pfd.fd.toNat }

/-- The poller after `::poll`. -/
def report (revents : ℕ → Finset Poll) (s : PollPoller C) : PollPoller C :=
  { s with pollfds_ := s.pollfds_.map (reported revents) }

/-- The number that `::poll` returns. -/
def numEvents (s : PollPoller C) : ℕ := s.pollfds_.countP fun pfd => pfd.revents ≠ ∅

theorem fd_of_reported (hne : (reported revents (t.entry fd off c)).revents ≠ ∅) :
    (t.entry fd off c).fd = fd c := by
  have hpos : ¬ (t.entry fd off c).fd < 0 := by
    intro hneg
    exact hne (if_pos hneg)
  rcases t.entry_fd fd off c with heq | heq
  · exact heq
  · exact absurd (heq ▸ ignored_neg (fd c)) hpos

/-- An entry with something to report is that of a watched channel. -/
theorem Arranged.owner (h : Arranged fd off t) (hin : pfd ∈ (report revents t.poller).pollfds_)
    (hne : pfd.revents ≠ ∅) : ∃ c, t.poller.channels_ pfd.fd = some c ∧ (fd c : ℤ) = pfd.fd ∧
      (report revents t.poller).pollfds_[(t.poller.channels c).index_.toNat]? = some pfd := by
  obtain ⟨k, hk⟩ := List.mem_iff_getElem?.mp hin
  have hmap := hk
  rw [report, List.getElem?_map] at hmap
  obtain ⟨old, hold, rfl⟩ := Option.map_eq_some_iff.mp hmap
  obtain ⟨c, hc⟩ := h.listed.owner k (List.getElem?_eq_some_iff.mp hold).1
  have hwatched := watched_of_position hc
  rw [position_of_watched hwatched, Option.some.injEq] at hc
  rw [← hc, h.get hwatched, Option.some.injEq] at hold
  subst hold
  have hfd := fd_of_reported hne
  exact ⟨c, by rw [reported, hfd]; exact h.known.of_mem hwatched, hfd.symm, hc ▸ hk⟩

theorem Arranged.known_of_revents (h : Arranged fd off t) (revents : ℕ → Finset Poll) :
    ∀ pfd ∈ (report revents t.poller).pollfds_, pfd.revents ≠ ∅ →
      ∃ c, (report revents t.poller).channels_ pfd.fd = some c ∧ (fd c : ℤ) = pfd.fd := by
  intro pfd hin hne
  obtain ⟨c, hc, hfd, -⟩ := h.owner hin hne
  exact ⟨c, hc, hfd⟩

/-- The channels that `fillActiveChannels` pushes, in the order of their entries. -/
def active (s : PollPoller C) : List C := (pairs s.channels_ s.pollfds_).map Prod.fst

theorem Arranged.active_nodup (h : Arranged fd off t) (revents : ℕ → Finset Poll) :
    (active (report revents t.poller)).Nodup := by
  have hfds : ((report revents t.poller).pollfds_.map PollFd.fd).Nodup := by
    rw [report, List.map_map]
    exact h.listed.nodup_map fun c d heq => entry_fd_injective (t := t) heq
  apply List.Nodup.of_map fun c => (fd c : ℤ)
  rw [active, map_fd_pairs (h.known_of_revents revents)]
  exact hfds.sublist (List.filter_sublist.map _)

theorem Arranged.mem_active (h : Arranged fd off t) (revents : ℕ → Finset Poll) (c : C) :
    c ∈ active (report revents t.poller) ↔ t.poller.channels_ (fd c) = some c ∧
      ∃ pfd, (report revents t.poller).pollfds_[(t.poller.channels c).index_.toNat]? = some pfd ∧
        pfd.revents ≠ ∅ := by
  simp only [active, pairs, List.mem_map, List.mem_filterMap, List.mem_filter,
    decide_eq_true_eq]
  constructor
  · rintro ⟨pair, ⟨pfd, ⟨hin, hne⟩, hpair⟩, rfl⟩
    obtain ⟨d, hd, hfd, hget⟩ := h.owner hin hne
    have hfound : (report revents t.poller).channels_ pfd.fd = some d := hd
    rw [hfound, Option.map_some, Option.some.injEq] at hpair
    subst hpair
    exact ⟨hfd ▸ hd, pfd, hget, hne⟩
  · rintro ⟨hknown, pfd, hget, hne⟩
    have hin := List.mem_of_getElem? hget
    have hwatched := ((h.known _ _).mp hknown).2
    rw [report, List.getElem?_map, h.get hwatched, Option.map_some, Option.some.injEq] at hget
    subst hget
    have hfd := fd_of_reported hne
    have hfound : (report revents t.poller).channels_ (fd c) = some c := hknown
    refine ⟨(c, (reported revents (t.entry fd off c)).revents), ⟨_, ⟨hin, hne⟩, ?_⟩, rfl⟩
    rw [show (reported revents (t.entry fd off c)).fd = fd c from hfd, hfound, Option.map_some]

variable [DecidableEq C]

/-- The loop pushes the channels that have something to report. -/
theorem Arranged.fill (h : Arranged fd off t) (revents : ℕ → Finset Poll) :
    ∃ s', (report revents t.poller).fillActiveChannels fd (report revents t.poller).pollfds_
      (numEvents (report revents t.poller)) =
        .ok (s', active (report revents t.poller)) :=
  ⟨_, fillActiveChannels_eq (h.known_of_revents revents)⟩

end Report

section Array

variable [DecidableEq C]

/-- The indexes of the channels are the positions of the array, each entry is that of its
channel, no assertion fails, and whatever `::poll` reports every channel with something to
report is pushed once. -/
theorem poll_array (h : (machine fd).Reachable t) :
    Set.BijOn (fun c => (t.poller.channels c).index_)
      {c | t.poller.channels_ (fd c) = some c} {k | 0 ≤ k ∧ k < t.poller.pollfds_.length} ∧
    (∀ n c, t.poller.channels_ n = some c → n = fd c) ∧
    (∀ c, t.poller.channels_ (fd c) = some c →
      ∃ pfd, t.poller.pollfds_[(t.poller.channels c).index_.toNat]? = some pfd ∧
        (pfd.fd = fd c ∨ pfd.fd = -fd c - 1) ∧ pfd.events = (t.poller.channels c).events_) ∧
    (∀ a, t.Allowed a → ∃ t', t.step fd a = .ok t') ∧
    ∀ revents : ℕ → Finset Poll, ∃ s' pushed,
      (report revents t.poller).fillActiveChannels fd (report revents t.poller).pollfds_
        (numEvents (report revents t.poller)) = .ok (s', pushed) ∧
      pushed.Nodup ∧ ∀ c, c ∈ pushed ↔ t.poller.channels_ (fd c) = some c ∧
        ∃ pfd, (report revents t.poller).pollfds_[(t.poller.channels c).index_.toNat]? =
          some pfd ∧ pfd.revents ≠ ∅ := by
  obtain ⟨off, harranged⟩ := arranged_of_reachable h
  have hwatched : ∀ {c}, t.poller.channels_ (fd c) = some c → t.stage c = .watched :=
    fun hc => ((harranged.known _ _).mp hc).2
  refine ⟨⟨?_, ?_, ?_⟩, ?_, ?_, ?_, ?_⟩
  · intro c hc
    have hpos := harranged.index c (hwatched hc)
    have hlt := harranged.listed.lt_length (position_of_watched (hwatched hc))
    exact ⟨hpos, (Int.toNat_lt hpos).mp hlt⟩
  · intro c hc d hd hsame
    have hposc := position_of_watched (hwatched hc)
    have hposd := position_of_watched (hwatched hd)
    dsimp only at hsame
    rw [hsame] at hposc
    exact harranged.listed.inj c d _ hposc hposd
  · intro k hk
    obtain ⟨hpos, hlt⟩ := hk
    obtain ⟨c, hc⟩ := harranged.listed.owner k.toNat (by omega)
    have hstage := watched_of_position hc
    refine ⟨c, harranged.known.of_mem hstage, ?_⟩
    have hindex := harranged.index c hstage
    rw [position_of_watched hstage, Option.some.injEq] at hc
    change (t.poller.channels c).index_ = k
    omega
  · intro n c hc
    exact ((harranged.known _ _).mp hc).1.symm
  · intro c hc
    exact ⟨_, harranged.get (hwatched hc), t.entry_fd fd off c, rfl⟩
  · intro a ha
    obtain ⟨-, t', ht, -⟩ := harranged.step ha
    exact ⟨t', ht⟩
  · intro revents
    obtain ⟨s', hfill⟩ := harranged.fill revents
    exact ⟨s', _, hfill, harranged.active_nodup revents, harranged.mem_active revents⟩

end Array

section Sample

variable [DecidableEq C]

instance (t : Staged C) (a : Call C) : Decidable ((machine fd).enabled t a) :=
  match a with
  | .updateChannel c events => inferInstanceAs
      (Decidable (t.stage c ≠ .removed ∧ (t.stage c = .fresh → events ≠ Channel.kNoneEvent)))
  | .removeChannel c => inferInstanceAs
      (Decidable (t.stage c = .watched ∧ (t.poller.channels c).isNoneEvent))

def sampleFd : Bool ↪ ℕ := ⟨fun c => if c then 0 else 7, by unfold Function.Injective; decide⟩

/-- The first channel is ignored and removed, and the second takes its place. -/
def sampleCalls : List (Call Bool) :=
  [.updateChannel true {.POLLIN}, .updateChannel false {.POLLOUT}, .updateChannel true ∅,
    .removeChannel true]

theorem poll_array_sample : ∃ t, (machine sampleFd).Reachable t ∧
    t.poller.channels_ 7 = some false ∧
    (∃ pfd, t.poller.pollfds_[0]? = some pfd ∧ (pfd.fd = 7 ∨ pfd.fd = -7 - 1) ∧
      pfd.events = {.POLLOUT}) ∧
    ∃ s' pushed, (report (fun _ => {.POLLOUT}) t.poller).fillActiveChannels sampleFd
      (report (fun _ => {.POLLOUT}) t.poller).pollfds_
      (numEvents (report (fun _ => {.POLLOUT}) t.poller)) = .ok (s', pushed) ∧ pushed.Nodup := by
  have h : ((machine sampleFd).execute { poller := new, stage := fun _ => .fresh }
      sampleCalls).map (fun t => (t.poller.channels_ 7, (t.poller.channels false).index_,
        (t.poller.channels false).events_)) = some (some false, 0, {.POLLOUT}) := by
    decide +kernel
  obtain ⟨t, ht, hview⟩ := Option.map_eq_some_iff.mp h
  simp only [Prod.mk.injEq] at hview
  obtain ⟨hknown, hindex, hevents⟩ := hview
  have hreach : (machine sampleFd).Reachable t := ⟨_, _, rfl, Machine.run_of_execute _ ht⟩
  obtain ⟨-, -, hentries, -, hreports⟩ := poll_array hreach
  obtain ⟨pfd, hget, hfd, hpfd⟩ := hentries false hknown
  obtain ⟨s', pushed, hfill, hnodup, -⟩ := hreports fun _ => {.POLLOUT}
  rw [hindex] at hget
  exact ⟨t, hreach, hknown, ⟨pfd, hget, hfd, hpfd.trans hevents⟩, s', pushed, hfill, hnodup⟩

end Sample

end Staged

end MuduoServer.PollPoller
