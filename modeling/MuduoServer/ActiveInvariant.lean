import MuduoServer.ActiveChannels

/-!
Where a connector's channel is while the loop handles events. A start registers a channel
that is not in the active list, since the list was made before; only a stop and the
connector's own handlers take a channel out. As long as none of them takes out a channel
that is still to be handled, every channel whose callbacks are to come is registered.
-/
namespace MuduoServer

open FaultMachine

namespace Connector

variable {c c' : Connector} {result : ConnectResult}

/-- What a start does to the channel and to the poller. -/
inductive Starts (c c' : Connector) : Prop
  | same (hchannel : c'.channel_ = c.channel_) (hpoller : c'.poller = c.poller)
      (hsockets : c.sockets ≤ c'.sockets)
  | registers (hnone : c.channel_ = none) (hchannel : c'.channel_ = some c.sockets)
      (hpoller : c'.poller = c.poller ++ [c.sockets]) (hsockets : c'.sockets = c.sockets + 1)

/-- What a stop or a handler does to them. -/
inductive Removes (c c' : Connector) : Prop
  | same (hchannel : c'.channel_ = c.channel_) (hpoller : c'.poller = c.poller)
      (hsockets : c'.sockets = c.sockets)
  | removes {sockfd : ℕ} (hstate : c.state_ = .kConnecting) (hchannel : c.channel_ = some sockfd)
      (hsame : c'.channel_ = some sockfd) (hpoller : c'.poller = c.poller.erase sockfd)
      (hsockets : c'.sockets = c.sockets)

theorem Starts.congr {d : Connector} (h : Starts d c') (hchannel : d.channel_ = c.channel_)
    (hpoller : d.poller = c.poller) (hsockets : d.sockets = c.sockets) : Starts c c' := by
  cases h with
  | same h₁ h₂ h₃ => exact .same (h₁.trans hchannel) (h₂.trans hpoller) (hsockets ▸ h₃)
  | registers h₁ h₂ h₃ h₄ =>
    rw [hsockets] at h₂ h₃ h₄
    rw [hpoller] at h₃
    exact .registers (hchannel ▸ h₁) h₂ h₃ h₄

theorem Removes.congr {d : Connector} (h : Removes d c') (hstate : d.state_ = c.state_)
    (hchannel : d.channel_ = c.channel_) (hpoller : d.poller = c.poller)
    (hsockets : d.sockets = c.sockets) : Removes c c' := by
  cases h with
  | same h₁ h₂ h₃ => exact .same (h₁.trans hchannel) (h₂.trans hpoller) (h₃.trans hsockets)
  | removes h₁ h₂ h₃ h₄ h₅ =>
    rw [hpoller] at h₄
    exact .removes (hstate ▸ h₁) (hchannel ▸ h₂) h₃ h₄ (h₅.trans hsockets)

theorem connecting_starts : Yields (· ≠ Fault.activeChannel) (Starts c)
    ({ c with sockets := c.sockets + 1 }.connecting c.sockets) := by
  refine Yields.bind (yields_check (R := fun _ => c.channel_ = none) ?_ ?_) ?_
  · simp
  · exact id
  · intro _ hnone
    exact yields_pure (.registers hnone rfl rfl rfl)

/-- A start does not look at the active channels. -/
theorem startInLoop_starts :
    Yields (· ≠ Fault.activeChannel) (Starts c) (c.startInLoop result) := by
  refine Yields.bind (yields_check (R := fun _ => True) (by simp) (fun _ => trivial)) ?_
  intro _ _
  split
  · have hretry : Starts c ({ c with sockets := c.sockets + 1 }.retry c.sockets) := by
      rw [retry_eq]
      exact .same rfl rfl (Nat.le_succ _)
    have hclose : Starts c ({ c with sockets := c.sockets + 1 }.close c.sockets) :=
      .same rfl rfl (Nat.le_succ _)
    cases result with
    | none | EINPROGRESS | EINTR | EISCONN => exact connecting_starts
    | EAGAIN | EADDRINUSE | EADDRNOTAVAIL | ECONNREFUSED | ENETUNREACH => exact yields_pure hretry
    | EACCES | EPERM | EAFNOSUPPORT | EALREADY | EBADF | EFAULT | ENOTSOCK | other =>
      exact yields_pure hclose
  · exact yields_pure (.same rfl rfl (le_refl _))

/-- The assertion of `EventLoop::removeChannel` holds for the connector's channel. -/
def Free (c : Connector) : Prop := c.activity = .idle ∨ c.activity = .handling

instance (c : Connector) : Decidable c.Free := inferInstanceAs (Decidable (_ ∨ _))

theorem removeAndResetChannel_removes :
    Yields (fun f => f = .activeChannel → ¬ c.Free)
      (fun r => c.channel_ = some r.1 ∧ r.2 = { c with
        poller := c.poller.erase r.1
        resets := c.resets + 1 }) c.removeAndResetChannel := by
  unfold removeAndResetChannel
  cases hchannel : c.channel_ with
  | none =>
    intro h
    cases h
  | some sockfd =>
    refine Yields.bind (yields_check (R := fun _ => True) ?_ (fun _ => trivial)) ?_
    · intro hnot _
      exact hnot
    · intro _ _
      refine Yields.bind (yields_check (R := fun _ => True) ?_ (fun _ => trivial)) ?_
      · intro _ h
        cases h
      · intro _ _
        exact yields_pure ⟨rfl, rfl⟩

/-- Closing the socket and perhaps arming the retry timer. -/
theorem removes_retry {sockfd : ℕ} (state : ConnectorState) (hstate : c.state_ = .kConnecting)
    (hchannel : c.channel_ = some sockfd) :
    Removes c ({ c with
      state_ := state
      poller := c.poller.erase sockfd
      resets := c.resets + 1 }.retry sockfd) := by
  rw [retry_eq]
  exact .removes hstate hchannel hchannel rfl rfl

theorem stopInLoop_removes :
    Yields (fun f => f = .activeChannel → ¬ c.Free) (Removes c) c.stopInLoop := by
  unfold stopInLoop
  split
  · rename_i hstate
    refine Yields.bind (removeAndResetChannel_removes (c := c.setState .kDisconnected)) ?_
    intro r hr
    obtain ⟨hchannel, hr⟩ := hr
    rw [hr]
    exact yields_pure (removes_retry .kDisconnected hstate hchannel)
  · exact yields_pure (.same rfl rfl rfl)

theorem handleError_removes :
    Yields (fun f => f = .activeChannel → ¬ c.Free) (Removes c) c.handleError := by
  refine Yields.bind (yields_check (R := fun _ => c.state_ = .kConnecting) ?_ id) ?_
  · intro _ h
    cases h
  · intro _ hstate
    refine Yields.bind removeAndResetChannel_removes ?_
    intro r hr
    obtain ⟨hchannel, hr⟩ := hr
    rw [hr]
    exact yields_pure (removes_retry c.state_ hstate hchannel)

theorem handleWrite_removes (soError : ℕ) (selfConnect : Bool) :
    Yields (fun f => f = .activeChannel → ¬ c.Free) (Removes c)
      (c.handleWrite soError selfConnect) := by
  unfold handleWrite
  split
  · rename_i hstate
    refine Yields.bind removeAndResetChannel_removes ?_
    intro r hr
    obtain ⟨hchannel, hr⟩ := hr
    rw [hr]
    have hretry := removes_retry c.state_ hstate hchannel
    have hother : ∀ c' : Connector, c'.channel_ = c.channel_ →
        c'.poller = c.poller.erase r.1 → c'.sockets = c.sockets → Removes c c' :=
      fun c' h₁ h₂ h₃ => .removes hstate hchannel (h₁.trans hchannel) h₂ h₃
    dsimp only
    split
    · exact yields_pure hretry
    · split
      · exact yields_pure hretry
      · split
        · exact yields_pure (hother _ rfl rfl rfl)
        · exact yields_pure (hother _ rfl rfl rfl)
  · refine Yields.bind (yields_check (R := fun _ => True) ?_ (fun _ => trivial)) ?_
    · intro _ h
      cases h
    · intro _ _
      exact yields_pure (.same rfl rfl rfl)

end Connector

namespace ActiveLoop

open Connector (Starts Removes)

/-- While events are handled the channels that are still to be handled, or whose callbacks
are not all done, are registered, and those that were removed are not. -/
structure Sound (s : ActiveLoop) : Prop where
  inv : ∀ k, Connector.Inv { s.connectors k with activity := .idle }
  active : s.eventHandling_ = true → ∀ k sockfd, .connector k sockfd ∈ s.activeChannels_ →
    (s.connectors k).channel_ = some sockfd
  listed : ∀ p ∈ s.rest, p.1 ∈ s.activeChannels_
  current : ∀ ch, s.currentActiveChannel_ = some ch →
    ch ∈ s.activeChannels_ ∧ ch ∉ s.rest.map Prod.fst
  distinct : (s.rest.map Prod.fst).Nodup
  waiting : ∀ k sockfd, .connector k sockfd ∈ s.rest.map Prod.fst →
    sockfd ∈ (s.connectors k).poller
  calling : s.calls ≠ [] → ∀ k sockfd, s.currentActiveChannel_ = some (.connector k sockfd) →
    sockfd ∈ (s.connectors k).poller
  order : ∀ k sockfd, s.currentActiveChannel_ = some (.connector k sockfd) →
    s.calls.Sublist [.errorCallback_, .writeCallback_]
  gone : ∀ k sockfd, .connector k sockfd ∈ s.removed →
    sockfd < (s.connectors k).sockets ∧ sockfd ∉ (s.connectors k).poller
  destroyed : ∀ n, .connection n ∈ s.removed → s.eventHandling_ = false
  fixed : ∀ n, .other n ∉ s.removed
  idle : s.eventHandling_ = false →
    s.rest = [] ∧ s.calls = [] ∧ s.currentActiveChannel_ = none

variable {s s' : ActiveLoop} {k sockfd : ℕ} {c' : Connector}

theorem new_sound : new.Sound where
  inv _ := Connector.new_inv
  active h := by cases h
  listed p h := by cases h
  current ch h := by cases h
  distinct := List.nodup_nil
  waiting k sockfd h := by cases h
  calling h := absurd rfl h
  order k sockfd h := by cases h
  gone k sockfd h := by cases h
  destroyed n h := by cases h
  fixed n h := by cases h
  idle _ := ⟨rfl, rfl, rfl⟩

theorem activity_of_active (hchannel : (s.connectors k).channel_ = some sockfd)
    (hevents : s.eventHandling_ = true) (hactive : .connector k sockfd ∈ s.activeChannels_) :
    s.activity k = if s.currentActiveChannel_ = some (.connector k sockfd) then .handling
      else if .connector k sockfd ∈ s.rest.map Prod.fst then .waiting else .handled := by
  have hnot : ¬ (s.eventHandling_ = false ∨ .connector k sockfd ∉ s.activeChannels_) := by
    rw [hevents]
    simp [hactive]
  simp only [activity, hchannel, hnot, if_false]

/-- The activity says what `EventLoop::removeChannel` asserts. -/
theorem free_iff (hchannel : (s.connectors k).channel_ = some sockfd) :
    (s.view k).Free ↔ s.MayRemove (.connector k sockfd) := by
  unfold Connector.Free view MayRemove
  by_cases hout : s.eventHandling_ = false ∨ .connector k sockfd ∉ s.activeChannels_
  · have hidle : s.activity k = .idle := by simp only [activity, hchannel, hout, if_true]
    simp only [hidle, true_or, true_iff]
    intro hevents
    rcases hout with hoff | hnot
    · rw [hoff] at hevents
      cases hevents
    · exact Or.inr hnot
  · rw [not_or, Bool.not_eq_false, not_not] at hout
    obtain ⟨hevents, hactive⟩ := hout
    have hactivity := activity_of_active hchannel hevents hactive
    by_cases hcurrent : s.currentActiveChannel_ = some (.connector k sockfd)
    · rw [if_pos hcurrent] at hactivity
      simp [hactivity, hcurrent]
    · rw [if_neg hcurrent] at hactivity
      have hbusy : ¬ (s.activity k = .idle ∨ s.activity k = .handling) := by
        rw [hactivity]
        split
        · simp
        · simp
      simp [hbusy, hevents, hcurrent, hactive]

theorem Sound.view_inv (h : s.Sound) (k : ℕ) : Connector.Inv (s.view k) := by
  have hwaits : s.activity k = .waiting → (s.connectors k).poller ≠ [] := by
    intro hwait
    cases hchannel : (s.connectors k).channel_ with
    | none => simp [activity, hchannel] at hwait
    | some sockfd =>
      by_cases hin : .connector k sockfd ∈ s.rest.map Prod.fst
      · exact List.ne_nil_of_mem (h.waiting k sockfd hin)
      · simp only [activity, hchannel, hin, if_false] at hwait
        split at hwait
        · cases hwait
        · split at hwait
          · cases hwait
          · cases hwait
  exact (h.inv k).with_activity hwaits

/-- What a call may do to the connector `k` without harm to the iteration. -/
theorem Sound.update (h : s.Sound) (hinv : Connector.Inv { c' with activity := .idle })
    (hactive : s.eventHandling_ = true → ∀ sockfd, .connector k sockfd ∈ s.activeChannels_ →
      c'.channel_ = some sockfd)
    (hwaiting : ∀ sockfd, .connector k sockfd ∈ s.rest.map Prod.fst → sockfd ∈ c'.poller)
    (hcalling : s.calls ≠ [] → ∀ sockfd,
      s.currentActiveChannel_ = some (.connector k sockfd) → sockfd ∈ c'.poller)
    (hsockets : (s.connectors k).sockets ≤ c'.sockets)
    (hgone : ∀ sockfd < (s.connectors k).sockets, sockfd ∉ (s.connectors k).poller →
      sockfd ∉ c'.poller) :
    Sound { s with
      connectors := Function.update s.connectors k c'
      removed := s.removed ++ (left (s.connectors k) c').map (.connector k) } := by
  have hremoved : ∀ ch, ch ∈ s.removed ++ (left (s.connectors k) c').map (.connector k) →
      ch ∈ s.removed ∨ ∃ sockfd, ch = .connector k sockfd ∧
        sockfd ∈ (s.connectors k).poller ∧ sockfd ∉ c'.poller := by
    intro ch hch
    rcases List.mem_append.mp hch with hold | hnew
    · exact Or.inl hold
    · obtain ⟨sockfd, hleft, rfl⟩ := List.mem_map.mp hnew
      simp only [left, List.mem_filter, decide_eq_true_eq] at hleft
      exact Or.inr ⟨sockfd, rfl, hleft⟩
  refine { h with
    inv := ?_
    active := ?_
    waiting := ?_
    calling := ?_
    gone := ?_
    destroyed := ?_
    fixed := ?_ }
  · exact (Function.forall_update_iff _ (p := fun _ (c : Connector) =>
      Connector.Inv { c with activity := .idle })).mpr ⟨hinv, fun j _ => h.inv j⟩
  · intro hevents
    exact (Function.forall_update_iff _ (p := fun j (c : Connector) => ∀ sockfd,
      .connector j sockfd ∈ s.activeChannels_ → c.channel_ = some sockfd)).mpr
        ⟨hactive hevents, fun j _ => h.active hevents j⟩
  · exact (Function.forall_update_iff _ (p := fun j (c : Connector) => ∀ sockfd,
      .connector j sockfd ∈ s.rest.map Prod.fst → sockfd ∈ c.poller)).mpr
        ⟨hwaiting, fun j _ => h.waiting j⟩
  · intro hne
    exact (Function.forall_update_iff _ (p := fun j (c : Connector) => ∀ sockfd,
      s.currentActiveChannel_ = some (.connector j sockfd) → sockfd ∈ c.poller)).mpr
        ⟨hcalling hne, fun j _ => h.calling hne j⟩
  · intro j sockfd hin
    by_cases hj : j = k
    · subst hj
      simp only [Function.update_self]
      rcases hremoved _ hin with hold | ⟨fd, heq, hpoller, hout⟩
      · obtain ⟨hlt, hnot⟩ := h.gone j sockfd hold
        exact ⟨hlt.trans_le hsockets, hgone sockfd hlt hnot⟩
      · obtain ⟨-, rfl⟩ := ChannelId.connector.inj heq
        refine ⟨?_, hout⟩
        have hsettled := (h.inv j).settled sockfd
        by_contra hge
        have hcount := List.count_pos_iff.mpr hpoller
        simp only [Connector.places] at hsettled
        split at hsettled
        · omega
        · omega
    · simp only [Function.update_of_ne hj]
      rcases hremoved _ hin with hold | ⟨fd, heq, -, -⟩
      · exact h.gone j sockfd hold
      · exact absurd (ChannelId.connector.inj heq).1 hj
  · intro n hin
    rcases hremoved _ hin with hold | ⟨fd, heq, -, -⟩
    · exact h.destroyed n hold
    · cases heq
  · intro n hin
    rcases hremoved _ hin with hold | ⟨fd, heq, -, -⟩
    · exact h.fixed n hold
    · cases heq

theorem Sound.starts (h : s.Sound) (hidle : Connector.Inv { c' with activity := .idle })
    (hs : Starts (s.connectors k) c') :
    Sound { s with
      connectors := Function.update s.connectors k c'
      removed := s.removed ++ (left (s.connectors k) c').map (.connector k) } := by
  rcases hs with ⟨hchannel, hpoller, hsockets⟩ | ⟨hnone, hchannel, hpoller, hsockets⟩
  · refine h.update hidle ?_ ?_ ?_ hsockets ?_
    · rw [hchannel]
      exact fun hevents => h.active hevents k
    · rw [hpoller]
      exact h.waiting k
    · rw [hpoller]
      exact fun hne => h.calling hne k
    · intro sockfd _ hout
      rwa [hpoller]
  · refine h.update hidle ?_ ?_ ?_ ?_ ?_
    · intro hevents sockfd hin
      rw [h.active hevents k sockfd hin] at hnone
      cases hnone
    · intro sockfd hin
      rw [hpoller]
      exact List.mem_append_left _ (h.waiting k sockfd hin)
    · intro hne sockfd hcurrent
      rw [hpoller]
      exact List.mem_append_left _ (h.calling hne k sockfd hcurrent)
    · omega
    · intro sockfd hlt hout hin
      rw [hpoller, List.mem_append, List.mem_singleton] at hin
      rcases hin with hin | rfl
      · exact hout hin
      · exact Nat.lt_irrefl _ hlt

theorem Sound.eventHandling (h : s.Sound) (hne : s.rest ≠ [] ∨ s.calls ≠ []) :
    s.eventHandling_ = true := by
  by_contra hoff
  obtain ⟨hrest, hcalls, -⟩ := h.idle (by simpa using hoff)
  rcases hne with hne | hne
  · exact hne hrest
  · exact hne hcalls

/-- A channel may be taken out when the iteration has nothing more to do with it. -/
theorem Sound.removes (h : s.Sound) (hidle : Connector.Inv { c' with activity := .idle })
    (hr : Removes (s.connectors k) c')
    (hover : s.eventHandling_ = true → (s.connectors k).state_ = .kConnecting →
      ∀ sockfd, (s.connectors k).channel_ = some sockfd →
        .connector k sockfd ∉ s.rest.map Prod.fst ∧
          (s.calls ≠ [] → s.currentActiveChannel_ ≠ some (.connector k sockfd))) :
    Sound { s with
      connectors := Function.update s.connectors k c'
      removed := s.removed ++ (left (s.connectors k) c').map (.connector k) } := by
  rcases hr with ⟨hchannel, hpoller, hsockets⟩ |
    @⟨sockfd, hstate, hchannel, hsame, hpoller, hsockets⟩
  · exact h.starts hidle (.same hchannel hpoller (le_of_eq hsockets.symm))
  · refine h.update hidle ?_ ?_ ?_ (le_of_eq hsockets.symm) ?_
    · intro hevents fd hin
      rw [hsame, ← hchannel]
      exact h.active hevents k fd hin
    · intro fd hin
      have hrest : s.rest ≠ [] := by
        intro hnil
        rw [hnil] at hin
        cases hin
      have hevents := h.eventHandling (Or.inl hrest)
      obtain ⟨p, hp, hfst⟩ := List.mem_map.mp hin
      have hfd := h.active hevents k fd (hfst ▸ h.listed p hp)
      obtain rfl := Option.some.inj (hfd.symm.trans hchannel)
      exact absurd hin (hover hevents hstate fd hchannel).1
    · intro hne fd hcurrent
      have hevents := h.eventHandling (Or.inr hne)
      have hfd := h.active hevents k fd (h.current _ hcurrent).1
      obtain rfl := Option.some.inj (hfd.symm.trans hchannel)
      exact absurd hcurrent ((hover hevents hstate fd hchannel).2 hne)
    · intro fd _ hout hin
      rw [hpoller] at hin
      exact hout (List.mem_of_mem_erase hin)

/-- A call of a connector that yields something sound. -/
theorem call_yields {f : Connector → Except Connector.Fault Connector}
    {E : Connector.Fault → Prop} {P : Connector → Prop} {Q : ActiveLoop → Prop}
    (hf : Yields E P (f (s.view k)))
    (hq : ∀ c', P c' → Q { s with
      connectors := Function.update s.connectors k c'
      removed := s.removed ++ (left (s.connectors k) c').map (.connector k) }) :
    Yields E Q (s.call k f) := by
  refine Yields.bind hf ?_
  intro c' hc'
  exact yields_pure (hq c' hc')

end ActiveLoop

end MuduoServer
