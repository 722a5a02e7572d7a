import MuduoServer.Connector
import Mathlib.Data.List.Count

/-!
The invariant of a connector over its runs: the channel, the poller and the queued
`resetChannel` agree, and every socket that has been created is in one place. A socket
that has left the poller or has just been created is in hand until it is closed, given to
the callback or given a channel.
-/
namespace MuduoServer

open FaultMachine FaultMachine.Machine

namespace Connector

/-- How `channel_`, the poller and the number of queued `resetChannel` go together. -/
inductive Place : Option ℕ → List ℕ → ℕ → Prop
  | empty : Place none [] 0
  | registered (sockfd : ℕ) : Place (some sockfd) [sockfd] 0
  | removed (sockfd : ℕ) : Place (some sockfd) [] 1

/-- How often the socket `k` is registered, has been closed or has been handed over. -/
def places (s : Connector) (k : ℕ) : ℕ :=
  s.poller.count k + s.closed.count k + s.handed.count k

def Settled (s : Connector) : Prop := ∀ k, s.places k = if k < s.sockets then 1 else 0

/-- The socket `sockfd` is in hand, and all others have their place. -/
structure InHand (s : Connector) (sockfd : ℕ) : Prop where
  place : Place s.channel_ s.poller s.resets
  waiting : s.activity = .waiting → s.poller ≠ []
  holding : ∀ k, s.places k + (if k = sockfd then 1 else 0) = if k < s.sockets then 1 else 0

structure Inv (s : Connector) : Prop where
  place : Place s.channel_ s.poller s.resets
  connecting : s.state_ = .kConnecting → s.poller ≠ []
  connected : s.state_ = .kConnected → s.poller = []
  waiting : s.activity = .waiting → s.poller ≠ []
  settled : s.Settled

variable {s s' : Connector} {sockfd : ℕ} {result : ConnectResult}

theorem new_inv : Inv new where
  place := .empty
  connecting h := by cases h
  connected _ := rfl
  waiting h := by cases h
  settled k := by simp [places, new]

theorem Inv.length_le (h : Inv s) : s.poller.length ≤ 1 := by
  obtain ⟨hplace, -, -, -, -⟩ := h
  generalize s.channel_ = channel, s.poller = poller, s.resets = resets at hplace
  cases hplace <;> simp

/-- A registered channel is the connector's, and no reset is queued. -/
theorem Inv.registered (h : Inv s) (hne : s.poller ≠ []) :
    ∃ sockfd, s.channel_ = some sockfd ∧ s.poller = [sockfd] ∧ s.resets = 0 := by
  obtain ⟨hplace, -, -, -, -⟩ := h
  generalize s.channel_ = channel, s.poller = poller, s.resets = resets at hplace hne ⊢
  cases hplace with
  | registered sockfd => exact ⟨sockfd, rfl, rfl, rfl⟩
  | empty | removed => exact absurd rfl hne

/-- The queued `resetChannel` empties `channel_`. -/
theorem Inv.reset (h : Inv s) (hresets : 0 < s.resets) :
    s.poller = [] ∧ s.resets = 1 ∧ Inv s.resetChannel := by
  have hplace : s.poller = [] ∧ s.resets = 1 := by
    have hp := h.place
    generalize s.channel_ = channel, s.poller = poller, s.resets = resets at hp hresets ⊢
    cases hp with
    | removed sockfd => exact ⟨rfl, rfl⟩
    | empty | registered => omega
  obtain ⟨hpoller, hone⟩ := hplace
  refine ⟨hpoller, hone, ⟨?_, h.connecting, h.connected, h.waiting, h.settled⟩⟩
  simp only [resetChannel, hpoller, hone]
  exact .empty

/-- Nothing but the end of the event hides what has become of the channel. -/
theorem Inv.with_activity (h : Inv s) {activity : Activity}
    (hw : activity = .waiting → s.poller ≠ []) : Inv { s with activity := activity } :=
  { h with waiting := hw }

/-- What `restart` sets before it calls `startInLoop`. -/
theorem Inv.restarted (h : Inv s) : Inv { s.setState .kDisconnected with
    retryDelayMs_ := kInitRetryDelayMs, connect_ := true } := by
  refine { h with connecting := ?_, connected := ?_ }
  · intro hc
    cases hc
  · intro hc
    cases hc

section InHand

theorem count_one (j k : ℕ) : [j].count k = if k = j then 1 else 0 := by
  by_cases h : k = j
  · simp [h]
  · simp [h, Ne.symm h]

theorem close_places (k : ℕ) :
    (s.close sockfd).places k = s.places k + if k = sockfd then 1 else 0 := by
  simp only [places, close, List.count_append, count_one]
  omega

/-- `retry` but for the timer closes the socket and is disconnected. -/
theorem retry_eq : s.retry sockfd =
    { s with
      closed := s.closed ++ [sockfd]
      state_ := .kDisconnected
      timers := if s.connect_ then s.timers ++ [s.retryDelayMs_] else s.timers
      retryDelayMs_ :=
        if s.connect_ then min (s.retryDelayMs_ * 2) kMaxRetryDelayMs else s.retryDelayMs_ } := by
  unfold retry close setState
  dsimp only
  split <;> simp_all

theorem InHand.close (h : InHand s sockfd) (hconnecting : s.state_ ≠ .kConnecting)
    (hconnected : s.state_ = .kConnected → s.poller = []) : Inv (s.close sockfd) where
  place := h.place
  connecting hc := absurd hc hconnecting
  connected := hconnected
  waiting := h.waiting
  settled k := (close_places k).trans (h.holding k)

theorem InHand.retry (h : InHand s sockfd) : Inv (s.retry sockfd) := by
  rw [retry_eq]
  constructor
  · exact h.place
  · intro hc
    cases hc
  · intro hc
    cases hc
  · exact h.waiting
  · intro k
    exact (close_places k).trans (h.holding k)

theorem InHand.hand (h : InHand s sockfd) (hconnecting : s.state_ ≠ .kConnecting)
    (hconnected : s.state_ = .kConnected → s.poller = []) :
    Inv { s with handed := s.handed ++ [sockfd] } where
  place := h.place
  connecting hc := absurd hc hconnecting
  connected := hconnected
  waiting := h.waiting
  settled k := by
    have hhold := h.holding k
    simp only [places, List.count_append, count_one] at hhold ⊢
    omega

end InHand

/-- `socket()` puts the new socket in hand. -/
theorem Inv.create (h : Inv s) : InHand { s with sockets := s.sockets + 1 } s.sockets where
  place := h.place
  waiting := h.waiting
  holding k := by
    have hk := h.settled k
    simp only [places] at hk ⊢
    rw [hk]
    by_cases heq : k = s.sockets
    · simp [heq]
    · have hiff : k < s.sockets + 1 ↔ k < s.sockets := by omega
      simp [heq, hiff]

/-- Taking the channel out of the poller puts its socket in hand. -/
theorem removeAndResetChannel_of (hchannel : s.channel_ = some sockfd)
    (hpoller : s.poller = [sockfd]) (hresets : s.resets = 0)
    (hact : s.activity = .idle ∨ s.activity = .handling) :
    s.removeAndResetChannel = .ok (sockfd, { s with poller := [], resets := 1 }) := by
  simp [removeAndResetChannel, hchannel, hpoller, hresets, hact, check_of, pure, Except.pure]

theorem Settled.remove (h : s.Settled) (hchannel : s.channel_ = some sockfd)
    (hpoller : s.poller = [sockfd]) (hact : s.activity = .idle ∨ s.activity = .handling)
    (state : ConnectorState) :
    InHand { s with state_ := state, poller := [], resets := 1 } sockfd where
  place := by
    rw [hchannel]
    exact .removed sockfd
  waiting hw := by
    rcases hact with hact | hact <;> cases hact.symm.trans hw
  holding k := by
    have hk := h k
    simp only [places, hpoller, count_one, List.count_nil] at hk ⊢
    omega

section Calls

/-- The results on which `connect` waits for the socket to become writable. -/
def connects : ConnectResult → Bool
  | .none | .EINPROGRESS | .EINTR | .EISCONN => true
  | _ => false

/-- What a call does: the channel is out of the poller, has just been registered, or is as it
was; and only under `p` has a socket been handed over. -/
structure After (p : Prop) (s s' : Connector) : Prop where
  inv : Inv s'
  channel : s'.poller = [] ∨ s'.state_ = .kConnecting ∨
    s'.poller = s.poller ∧ s'.state_ = s.state_
  handed : s'.handed = s.handed ∨ p ∧ s'.state_ = .kConnected
  connect : s'.connect_ = s.connect_
  activity : s'.activity = s.activity
  owned : s'.owned = s.owned
  alive : s'.alive = s.alive
  resets : s'.resets = s.resets ∨ s'.resets = s.resets + 1

variable {p : Prop} {t : Connector}

theorem After.refl (h : Inv s) : After p s s where
  inv := h
  channel := Or.inr (Or.inr ⟨rfl, rfl⟩)
  handed := Or.inl rfl
  connect := rfl
  activity := rfl
  owned := rfl
  alive := rfl
  resets := Or.inl rfl

theorem InHand.after_retry (h : InHand t sockfd)
    (hfrom : t = { s with
      state_ := t.state_, poller := t.poller, resets := t.resets, sockets := t.sockets })
    (hchannel : t.poller = [] ∨ t.poller = s.poller ∧ s.state_ = .kDisconnected)
    (hresets : t.resets = s.resets ∨ t.resets = s.resets + 1) :
    After p s (t.retry sockfd) := by
  have hinv := h.retry
  have hhanded : t.handed = s.handed := by rw [hfrom]
  have hconnect : t.connect_ = s.connect_ := by rw [hfrom]
  have hactivity : t.activity = s.activity := by rw [hfrom]
  have howned : t.owned = s.owned := by rw [hfrom]
  have halive : t.alive = s.alive := by rw [hfrom]
  rw [retry_eq] at hinv ⊢
  refine ⟨hinv, ?_, Or.inl hhanded, hconnect, hactivity, howned, halive, hresets⟩
  rcases hchannel with hnil | ⟨hsame, hstate⟩
  · exact Or.inl hnil
  · exact Or.inr (Or.inr ⟨hsame, hstate.symm⟩)

theorem connecting_spec (h : InHand s sockfd) :
    Yields (fun _ => s.channel_ ≠ none) (After p s) (s.connecting sockfd) := by
  refine Yields.bind (yields_check (R := fun _ => s.channel_ = none) ?_ ?_) ?_
  · exact id
  · exact id
  · intro _ hnone
    obtain ⟨hplace, hwaiting, hholding⟩ := h
    have hempty : s.poller = [] ∧ s.resets = 0 := by
      rw [hnone] at hplace
      generalize s.poller = poller, s.resets = resets at hplace ⊢
      cases hplace
      exact ⟨rfl, rfl⟩
    obtain ⟨hpoller, hresets⟩ := hempty
    refine yields_pure ⟨⟨?_, ?_, ?_, ?_, ?_⟩, Or.inr (Or.inl rfl), Or.inl rfl, rfl, rfl, rfl, rfl,
      Or.inl rfl⟩
    · simp only [setState, hpoller, hresets, List.nil_append]
      exact .registered sockfd
    · simp
    · simp [setState]
    · simp
    · intro k
      have hk := hholding k
      simp only [places, setState, hpoller, List.nil_append, count_one, List.count_nil] at hk ⊢
      omega

theorem connect_spec (h : Inv s) (hstate : s.state_ = .kDisconnected) :
    Yields (fun _ => connects result = true ∧ s.channel_ ≠ none)
      (After p s) (s.connect result) := by
  have hcreate := h.create
  have hretry : After p s ({ s with sockets := s.sockets + 1 }.retry s.sockets) :=
    hcreate.after_retry rfl (Or.inr ⟨rfl, hstate⟩) (Or.inl rfl)
  have hclose : After p s ({ s with sockets := s.sockets + 1 }.close s.sockets) := by
    refine ⟨hcreate.close ?_ ?_, Or.inr (Or.inr ⟨rfl, rfl⟩), Or.inl rfl, rfl, rfl, rfl, rfl,
      Or.inl rfl⟩
    · simp [hstate]
    · simp [hstate]
  have hconnecting := connecting_spec (p := p) hcreate
  cases result with
  | none | EINPROGRESS | EINTR | EISCONN =>
    refine hconnecting.mono ?_ ?_
    · intro _ hset
      exact ⟨rfl, hset⟩
    · intro s' h'
      exact ⟨h'.inv, h'.channel, h'.handed, h'.connect, h'.activity, h'.owned, h'.alive,
        h'.resets⟩
  | EAGAIN | EADDRINUSE | EADDRNOTAVAIL | ECONNREFUSED | ENETUNREACH => exact yields_pure hretry
  | EACCES | EPERM | EAFNOSUPPORT | EALREADY | EBADF | EFAULT | ENOTSOCK | other =>
    exact yields_pure hclose

theorem startInLoop_spec (h : Inv s) :
    Yields (fun _ => s.state_ ≠ .kDisconnected ∨
        s.connect_ = true ∧ connects result = true ∧ s.channel_ ≠ none)
      (After p s) (s.startInLoop result) := by
  refine Yields.bind (yields_check (R := fun _ => s.state_ = .kDisconnected) ?_ ?_) ?_
  · exact Or.inl
  · exact id
  · intro _ hstate
    by_cases hconnect : s.connect_ = true
    · rw [if_pos hconnect]
      refine (connect_spec (p := p) h hstate).mono ?_ ?_
      · intro _ hset
        exact Or.inr ⟨hconnect, hset⟩
      · exact fun _ => id
    · rw [if_neg hconnect]
      exact yields_pure (.refl h)

/-- Taking out a registered channel, whatever the state is set to first. -/
theorem Inv.remove (h : Inv s) (hne : s.poller ≠ [])
    (hact : s.activity = .idle ∨ s.activity = .handling) :
    ∃ sockfd, 1 = s.resets + 1 ∧ ∀ state, (s.setState state).removeAndResetChannel =
        .ok (sockfd, { s with state_ := state, poller := [], resets := 1 }) ∧
      InHand { s with state_ := state, poller := [], resets := 1 } sockfd := by
  obtain ⟨sockfd, hchannel, hpoller, hresets⟩ := h.registered hne
  refine ⟨sockfd, by rw [hresets], fun state =>
    ⟨?_, h.settled.remove hchannel hpoller hact state⟩⟩
  exact removeAndResetChannel_of (s := s.setState state) hchannel hpoller hresets hact

theorem stopInLoop_spec (h : Inv s) :
    Yields (fun f => f = .activeChannel) (After p s) s.stopInLoop := by
  unfold stopInLoop
  by_cases hstate : s.state_ = .kConnecting
  · rw [if_pos hstate]
    have hne := h.connecting hstate
    by_cases hact : s.activity = .idle ∨ s.activity = .handling
    · obtain ⟨sockfd, hone, hremove⟩ := h.remove hne hact
      obtain ⟨hremoved, hhand⟩ := hremove .kDisconnected
      rw [hremoved]
      exact yields_pure (hhand.after_retry rfl (Or.inl rfl) (Or.inr hone))
    · obtain ⟨sockfd, hchannel, -⟩ := h.registered hne
      simp [removeAndResetChannel, setState, hchannel, hact, check, bind, Except.bind, Yields]
  · rw [if_neg hstate]
    exact yields_pure (.refl h)

theorem handleError_spec (h : Inv s) (hact : s.activity = .handling) :
    Yields (fun _ => s.state_ ≠ .kConnecting)
      (fun t => After p s t ∧ t.state_ = .kDisconnected) s.handleError := by
  refine Yields.bind (yields_check (R := fun _ => s.state_ = .kConnecting) ?_ ?_) ?_
  · exact id
  · exact id
  · intro _ hstate
    obtain ⟨sockfd, hone, hremove⟩ := h.remove (h.connecting hstate) (Or.inr hact)
    obtain ⟨hremoved, hhand⟩ := hremove s.state_
    rw [show s.removeAndResetChannel = _ from hremoved]
    refine yields_pure ⟨hhand.after_retry rfl (Or.inl rfl) (Or.inr hone), ?_⟩
    rw [retry_eq]

theorem handleWrite_spec (h : Inv s) (hact : s.activity = .handling) (soError : ℕ)
    (selfConnect : Bool) (hstate : s.state_ ≠ .kConnected) :
    Yields (fun _ => False)
      (After (soError = 0 ∧ selfConnect = false ∧ s.connect_ = true) s)
      (s.handleWrite soError selfConnect) := by
  unfold handleWrite
  by_cases hconnecting : s.state_ = .kConnecting
  · rw [if_pos hconnecting]
    obtain ⟨sockfd, hone, hremove⟩ := h.remove (h.connecting hconnecting) (Or.inr hact)
    obtain ⟨hremoved, hhand⟩ := hremove s.state_
    obtain ⟨-, hconnected⟩ := hremove .kConnected
    rw [show s.removeAndResetChannel = _ from hremoved]
    simp only [ok_bind]
    by_cases herror : soError = 0
    · rw [if_neg (not_not_intro herror)]
      by_cases hself : selfConnect = true
      · rw [if_pos hself]
        exact yields_pure (hhand.after_retry rfl (Or.inl rfl) (Or.inr hone))
      · rw [if_neg hself]
        show Yields _ _ (if s.connect_ = true then _ else _)
        by_cases hconnect : s.connect_ = true
        · rw [if_pos hconnect]
          refine yields_pure ⟨hconnected.hand (by simp) (fun _ => rfl), Or.inl rfl, ?_, rfl, rfl,
            rfl, rfl, Or.inr hone⟩
          exact Or.inr ⟨⟨herror, by simpa using hself, hconnect⟩, rfl⟩
        · rw [if_neg hconnect]
          exact yields_pure ⟨hconnected.close (by simp) (fun _ => rfl), Or.inl rfl, Or.inl rfl,
            rfl, rfl, rfl, rfl, Or.inr hone⟩
    · rw [if_pos herror]
      exact yields_pure (hhand.after_retry rfl (Or.inl rfl) (Or.inr hone))
  · rw [if_neg hconnecting]
    refine Yields.bind (yields_check (R := fun _ => True) ?_ ?_) ?_
    · intro hdisconnected
      cases hs : s.state_ with
      | kDisconnected => exact hdisconnected hs
      | kConnecting => exact hconnecting hs
      | kConnected => exact hstate hs
    · intro _
      trivial
    · intro _ _
      exact yields_pure (.refl h)

/-- A callback that is not set. -/
theorem callIf_pure (q : Prop) [Decidable q] (t : Connector) :
    Channel.callIf q (ε := Fault) pure t = .ok t := by
  unfold Channel.callIf
  split <;> rfl

theorem handleEventWithGuard_spec (h : Inv s) (hact : s.activity = .handling)
    (hconnected : s.state_ ≠ .kConnected) (revents : Finset Poll) (soError : ℕ)
    (selfConnect : Bool) :
    Yields (fun _ => s.state_ ≠ .kConnecting)
      (After (soError = 0 ∧ selfConnect = false ∧ s.connect_ = true) s)
      (Channel.handleEventWithGuard (callbacks soError selfConnect) revents s) := by
  unfold Channel.handleEventWithGuard
  simp only [callbacks, callIf_pure, ok_bind]
  unfold Channel.callIf
  by_cases herror : .POLLERR ∈ revents ∨ .POLLNVAL ∈ revents
  · rw [if_pos herror]
    refine Yields.bind (handleError_spec
      (p := soError = 0 ∧ selfConnect = false ∧ s.connect_ = true) h hact) ?_
    intro t ht
    -- after the error callback the write callback finds the connector disconnected
    have hsame : handleWrite soError selfConnect t = .ok t := by
      simp [handleWrite, ht.2, check_of, pure, Except.pure]
    rw [hsame, show (pure t : Except Fault Connector) = .ok t from rfl, ite_self]
    exact yields_ok ht.1
  · rw [if_neg herror]
    show Yields _ _ (if .POLLOUT ∈ revents then handleWrite soError selfConnect s else pure s)
    by_cases hout : .POLLOUT ∈ revents
    · rw [if_pos hout]
      refine (handleWrite_spec h hact soError selfConnect hconnected).mono ?_ (fun _ => id)
      intro _ hfalse
      exact hfalse.elim
    · rw [if_neg hout]
      exact yields_pure (.refl h)

theorem handleEvent_spec (h : Inv s) (hact : s.activity = .waiting) (revents : Finset Poll)
    (soError : ℕ) (selfConnect : Bool) :
    Yields (fun _ => s.state_ ≠ .kConnecting)
      (fun t => ∃ u, t = { u with activity := .handled } ∧
        After (soError = 0 ∧ selfConnect = false ∧ s.connect_ = true)
          { s with activity := .handling } u)
      (s.handleEvent revents soError selfConnect) := by
  have hinv : Inv { s with activity := .handling } := h.with_activity (by simp)
  have hconnected : s.state_ ≠ .kConnected := fun hc => h.waiting hact (h.connected hc)
  refine Yields.bind (handleEventWithGuard_spec hinv rfl hconnected revents soError selfConnect) ?_
  intro u hu
  exact yields_pure ⟨u, rfl, hu⟩

end Calls

section Steps

/-- A channel that is registered belongs to a connector in `kConnecting`. -/
def Sound (s : Connector) : Prop := s.poller ≠ [] → s.state_ = .kConnecting

/-- `start`, `restart` and the retry timers come when the connector is disconnected and, if
they wait for a socket, without a channel; so does the end of the last `shared_ptr`. -/
def Meets (s : Connector) : ConnectorStep → Prop
  | .start result => s.state_ = .kDisconnected ∧ (connects result = true → s.channel_ = none)
  | .restart result => s.state_ ≠ .kConnecting ∧ (connects result = true → s.channel_ = none)
  | .startInLoop _ result => s.state_ = .kDisconnected ∧
      (s.connect_ = true → connects result = true → s.channel_ = none)
  | .destroy => s.channel_ = none
  | .stop | .resetChannel | .poll | .handleEvent _ _ _ | .endOfEvents | .release => True

instance (s : Connector) (a : ConnectorStep) : Decidable (s.Meets a) :=
  match a with
  | .start _ | .restart _ | .startInLoop _ _ => inferInstanceAs (Decidable (_ ∧ _))
  | .destroy => inferInstanceAs (Decidable (_ = _))
  | .stop | .resetChannel | .poll | .handleEvent _ _ _ | .endOfEvents | .release =>
      inferInstanceAs (Decidable True)

instance (s : Connector) (a : ConnectorStep) :
    Decidable ((machine.restrict Meets).enabled s a) :=
  inferInstanceAs (Decidable (s.Enabled a ∧ s.Meets a))

theorem After.sound {p : Prop} (h : After p s s') (hs : s.Sound) : s'.Sound := by
  intro hne
  rcases h.channel with hnil | hconnecting | ⟨hpoller, hstate⟩
  · exact absurd hnil hne
  · exact hconnecting
  · rw [hstate]
    exact hs (hpoller ▸ hne)

/-- What every step does to a connector. -/
structure Stepped (s : Connector) (a : ConnectorStep) (s' : Connector) : Prop where
  inv : Inv s'
  outside : s'.activity ≠ .handling
  sound : s.Sound → (∀ result, a = .restart result → s.state_ ≠ .kConnecting) → s'.Sound
  handed : s'.handed = s.handed ∨ s'.state_ = .kConnected ∧
    s.connect_ = true ∧ ∃ revents, a = .handleEvent revents 0 false
  owned : a ≠ .release → s'.owned = s.owned
  alive : a ≠ .destroy → s'.alive = s.alive
  resets : a ≠ .resetChannel → s'.resets = s.resets ∨ s'.resets = s.resets + 1

theorem After.stepped {t : Connector} {a : ConnectorStep} (h : After False t s')
    (hactivity : t.activity ≠ .handling)
    (hsound : s.Sound → (∀ result, a = .restart result → s.state_ ≠ .kConnecting) → t.Sound)
    (hfrom : t = { s with
      connect_ := t.connect_, state_ := t.state_, retryDelayMs_ := t.retryDelayMs_,
      timers := t.timers }) : Stepped s a s' where
  inv := h.inv
  outside := h.activity ▸ hactivity
  sound hs hrestart := h.sound (hsound hs hrestart)
  handed := by
    have hhanded : t.handed = s.handed := by rw [hfrom]
    exact Or.inl ((h.handed.resolve_right And.left).trans hhanded)
  owned _ := by
    have howned : t.owned = s.owned := by rw [hfrom]
    exact h.owned.trans howned
  alive _ := by
    have halive : t.alive = s.alive := by rw [hfrom]
    exact h.alive.trans halive
  resets _ := by
    have hresets : t.resets = s.resets := by rw [hfrom]
    rw [← hresets]
    exact h.resets

theorem Meets.restart {a : ConnectorStep} (h : s.Meets a) :
    ∀ result, a = .restart result → s.state_ ≠ .kConnecting := by
  rintro result rfl
  exact h.1

/-- A step of a sound connector that meets the condition only fails the assertion of the
loop. -/
theorem Inv.step {a : ConnectorStep} (h : Inv s) (hout : s.activity ≠ .handling)
    (he : s.Enabled a) :
    Yields (fun f => f = .activeChannel ∨ ¬ (s.Sound ∧ s.Meets a)) (Stepped s a) (s.step a) := by
  cases a with
  | start result =>
    have hinv : Inv { s with connect_ := true } := { h with }
    refine (startInLoop_spec (p := False) hinv).mono ?_ ?_
    · intro f hf
      refine Or.inr fun hmeets => ?_
      rcases hf with hstate | ⟨-, hconnects, hset⟩
      · exact hstate hmeets.2.1
      · exact hset (hmeets.2.2 hconnects)
    · intro t ht
      exact ht.stepped hout (fun hs _ => hs) rfl
  | startInLoop delay result =>
    have hinv : Inv { s with timers := s.timers.erase delay } := { h with }
    refine (startInLoop_spec (p := False) hinv).mono ?_ ?_
    · intro f hf
      refine Or.inr fun hmeets => ?_
      rcases hf with hstate | ⟨hconnect, hconnects, hset⟩
      · exact hstate hmeets.2.1
      · exact hset (hmeets.2.2 hconnect hconnects)
    · intro t ht
      exact ht.stepped hout (fun hs _ => hs) rfl
  | restart result =>
    refine (startInLoop_spec (p := False) h.restarted).mono ?_ ?_
    · intro f hf
      refine Or.inr fun hmeets => ?_
      rcases hf with hstate | ⟨-, hconnects, hset⟩
      · exact hstate rfl
      · exact hset (hmeets.2.2 hconnects)
    · intro t ht
      refine ht.stepped hout (fun hs hrestart hne => ?_) rfl
      exact absurd (hs hne) (hrestart result rfl)
  | stop =>
    have hinv : Inv { s with connect_ := false } := { h with }
    refine (stopInLoop_spec (p := False) hinv).mono ?_ ?_
    · exact fun f => Or.inl
    · intro t ht
      exact ht.stepped hout (fun hs _ => hs) rfl
  | resetChannel =>
    obtain ⟨-, -, hresets, -⟩ := he
    obtain ⟨hpoller, hone, hinv⟩ := h.reset hresets
    exact yields_pure ⟨hinv, hout, fun hs _ => hs, Or.inl rfl, fun _ => rfl, fun _ => rfl, by simp⟩
  | poll =>
    obtain ⟨-, -, -, hne⟩ := he
    exact yields_pure ⟨h.with_activity fun _ => hne, by simp, fun hs _ => hs, Or.inl rfl,
      fun _ => rfl, fun _ => rfl, fun _ => Or.inl rfl⟩
  | handleEvent revents soError selfConnect =>
    obtain ⟨-, -, hwait, -⟩ := he
    refine (handleEvent_spec h hwait revents soError selfConnect).mono ?_ ?_
    · intro f hstate
      exact Or.inr fun hmeets => hstate (hmeets.1 (h.waiting hwait))
    · rintro t ⟨u, rfl, hu⟩
      refine ⟨hu.inv.with_activity (by simp), by simp, ?_, ?_, fun _ => hu.owned,
        fun _ => hu.alive, fun _ => hu.resets⟩
      · intro hs _
        have hsound : u.Sound := hu.sound hs
        exact hsound
      · rcases hu.handed with hsame | ⟨⟨rfl, rfl, hconnect⟩, hstate⟩
        · exact Or.inl hsame
        · exact Or.inr ⟨hstate, hconnect, revents, rfl⟩
  | endOfEvents =>
    exact yields_pure ⟨h.with_activity (by simp), by simp, fun hs _ => hs, Or.inl rfl,
      fun _ => rfl, fun _ => rfl, fun _ => Or.inl rfl⟩
  | release =>
    exact yields_pure ⟨{ h with }, hout, fun hs _ => hs, Or.inl rfl, by simp, fun _ => rfl,
      fun _ => Or.inl rfl⟩
  | destroy =>
    refine Yields.bind (yields_check (R := fun _ => True) ?_ (fun _ => trivial)) ?_
    · intro hset
      exact Or.inr fun hmeets => hset hmeets.2
    · intro _ _
      exact yields_pure ⟨{ h with }, hout, fun hs _ => hs, Or.inl rfl, fun _ => rfl, by simp,
        fun _ => Or.inl rfl⟩

theorem inv_of_reachable (h : machine.Reachable s) : Inv s ∧ s.activity ≠ .handling := by
  refine h.invariant (I := fun t => Inv t ∧ t.activity ≠ .handling) ?_ ?_
  · rintro _ rfl
    exact ⟨new_inv, by simp [new]⟩
  · intro t a t' ht he hs
    have hstep := (ht.1.step ht.2 he).of_ok hs
    exact ⟨hstep.inv, hstep.outside⟩

end Steps

section Ownership

end Ownership

end Connector

end MuduoServer
