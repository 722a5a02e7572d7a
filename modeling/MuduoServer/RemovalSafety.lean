import MuduoServer.ActiveInvariant

/-!
Removing a channel while events are handled. A stop from another channel's callback may
take out a connector's channel that is in the active list, which the loop asserts never
happens; and an event that reports an error together with POLLOUT brings a connector's
channel its write callback after the error callback has taken it out. With neither of these
the assertion holds and no callback comes after a removal.
-/
namespace MuduoServer.ActiveLoop

open FaultMachine
open Connector (Starts Removes)

variable {s s' : ActiveLoop} {k sockfd : ℕ}

def Connecting (s : ActiveLoop) : ChannelId → Prop
  | .connector k _ => (s.connectors k).state_ = .kConnecting
  | .connection _ | .other _ => False

/-- No stop, while events are handled, of a connector that is connecting and whose channel is
active; and the error callback of a connecting connector's channel is the last one. -/
def Clear (s : ActiveLoop) : ActiveStep → Prop
  | .stop k => s.eventHandling_ = true → (s.connectors k).state_ = .kConnecting →
      ∀ sockfd ∈ (s.connectors k).channel_, .connector k sockfd ∉ s.activeChannels_
  | .callback _ _ => ∀ ch ∈ s.currentActiveChannel_, s.Connecting ch →
      s.calls.head? = some .errorCallback_ → s.calls.tail = []
  | _ => True

section Calls

variable {f : Connector → Except Connector.Fault Connector}

theorem Sound.call_starts (h : s.Sound)
    (hf : Yields (· ≠ Connector.Fault.activeChannel) (Starts (s.connectors k)) (f (s.view k)))
    (hinv : Yields (fun _ => True) Connector.Inv (f (s.view k))) :
    Yields (· ≠ .activeChannel) Sound (s.call k f) := by
  refine (call_yields (hf.and hinv) ?_).mono ?_ (fun _ => id)
  · intro c' hc'
    exact h.starts (hc'.2.with_activity (by simp)) hc'.1
  · intro _ he
    exact he.1

theorem Sound.call_removes (h : s.Sound)
    (hf : Yields (fun e => e = Connector.Fault.activeChannel → ¬ (s.view k).Free)
      (Removes (s.connectors k)) (f (s.view k)))
    (hinv : Yields (fun _ => True) Connector.Inv (f (s.view k)))
    (hfree : (s.view k).Free)
    (hover : s.eventHandling_ = true → (s.connectors k).state_ = .kConnecting →
      ∀ sockfd, (s.connectors k).channel_ = some sockfd →
        .connector k sockfd ∉ s.rest.map Prod.fst ∧
          (s.calls ≠ [] → s.currentActiveChannel_ ≠ some (.connector k sockfd))) :
    Yields (· ≠ .activeChannel) Sound (s.call k f) := by
  refine (call_yields (hf.and hinv) ?_).mono ?_ (fun _ => id)
  · intro c' hc'
    exact h.removes (hc'.2.with_activity (by simp)) hc'.1 hover
  · intro _ he heq
    exact he.1 heq hfree

variable {result : ConnectResult}

/-- `startInLoop`, after what its callers set first. -/
theorem Sound.call_startInLoop (h : s.Sound) {g : Connector → Connector}
    (hg : ∀ c, Connector.Inv c → Connector.Inv (g c))
    (hsame : ∀ c, (g c).channel_ = c.channel_ ∧ (g c).poller = c.poller ∧
      (g c).sockets = c.sockets) :
    Yields (· ≠ .activeChannel) Sound (s.call k fun c => (g c).startInLoop result) := by
  obtain ⟨hchannel, hpoller, hsockets⟩ := hsame (s.view k)
  apply h.call_starts
  · refine Connector.startInLoop_starts.mono (fun _ => id) ?_
    intro c' hc'
    exact hc'.congr hchannel hpoller hsockets
  · refine (Connector.startInLoop_spec (p := False) (hg _ (h.view_inv k))).mono
      (fun _ _ => trivial) ?_
    intro c' hc'
    exact hc'.inv

/-- `stopInLoop`, when the connector's channel is not active. -/
theorem Sound.call_stopInLoop (h : s.Sound) {g : Connector → Connector}
    (hg : ∀ c, Connector.Inv c → Connector.Inv (g c))
    (hsame : ∀ c, (g c).state_ = c.state_ ∧ (g c).channel_ = c.channel_ ∧
      (g c).poller = c.poller ∧ (g c).sockets = c.sockets ∧ (g c).activity = c.activity)
    (hclear : s.eventHandling_ = true → (s.connectors k).state_ = .kConnecting →
      ∀ sockfd ∈ (s.connectors k).channel_, .connector k sockfd ∉ s.activeChannels_) :
    Yields (· ≠ .activeChannel) Sound (s.call k fun c => (g c).stopInLoop) := by
  obtain ⟨hstate, hchannel, hpoller, hsockets, hactivity⟩ := hsame (s.view k)
  have hinv := hg _ (h.view_inv k)
  have hspec : Yields (fun _ => True) Connector.Inv (g (s.view k)).stopInLoop := by
    refine (Connector.stopInLoop_spec (p := False) hinv).mono (fun _ _ => trivial) ?_
    intro c' hc'
    exact hc'.inv
  by_cases hconnecting : (s.connectors k).state_ = .kConnecting
  · obtain ⟨fd, hfd, -, -⟩ := (h.inv k).registered ((h.inv k).connecting hconnecting)
    have hout : s.eventHandling_ = true → .connector k fd ∉ s.activeChannels_ :=
      fun hevents => hclear hevents hconnecting fd hfd
    have hfree : (s.view k).Free := (free_iff hfd).mpr fun hevents => Or.inr (hout hevents)
    refine h.call_removes ?_ hspec hfree ?_
    · refine Connector.stopInLoop_removes.mono ?_ ?_
      · intro e he heq
        have hbusy := he heq
        simp only [Connector.Free, hactivity] at hbusy
        exact hbusy
      · intro c' hc'
        exact hc'.congr hstate hchannel hpoller hsockets
    · intro hevents _ fd' hfd'
      obtain rfl := Option.some.inj (hfd.symm.trans hfd')
      refine ⟨?_, fun _ hcurrent => hout hevents (h.current _ hcurrent).1⟩
      intro hin
      obtain ⟨p, hp, hfst⟩ := List.mem_map.mp hin
      exact hout hevents (hfst ▸ h.listed p hp)
  · have hnot : ¬ (g (s.view k)).state_ = .kConnecting := by
      rw [hstate]
      exact hconnecting
    have hnothing : (g (s.view k)).stopInLoop = .ok (g (s.view k)) := by
      simp only [Connector.stopInLoop, if_neg hnot]
      rfl
    apply h.call_starts
    · rw [hnothing]
      exact yields_ok (.same hchannel hpoller (le_of_eq hsockets.symm))
    · exact hspec

end Calls

section Iteration

theorem Sound.polled (h : s.Sound) {active : List (ChannelId × Finset Poll)}
    (hnodup : (active.map Prod.fst).Nodup) (hreg : ∀ p ∈ active, s.Registered p.1) :
    Sound { s with
      activeChannels_ := active.map Prod.fst
      rest := active
      currentActiveChannel_ := none
      calls := []
      inCallback := false
      eventHandling_ := true
      removed := [] } := by
  have hpoller : ∀ k fd, .connector k fd ∈ active.map Prod.fst →
      fd ∈ (s.connectors k).poller := by
    intro k fd hin
    obtain ⟨p, hp, hfst⟩ := List.mem_map.mp hin
    have hp' := hreg p hp
    rwa [hfst] at hp'
  refine ⟨h.inv, ?_, fun p hp => List.mem_map_of_mem hp, by simp, hnodup, hpoller, by simp,
    by simp, by simp, by simp, by simp, by simp⟩
  intro _ k fd hin
  have hmem := hpoller k fd hin
  obtain ⟨fd', hchannel, hp, -⟩ := (h.inv k).registered (List.ne_nil_of_mem hmem)
  have heq : fd = fd' := by
    have hp' : (s.connectors k).poller = [fd'] := hp
    simpa [hp'] using hmem
  exact heq ▸ hchannel

theorem select_sublist {p : Prop} [Decidable p] (cb : ChannelCallback) :
    (ChannelId.select p cb).Sublist [cb] := by
  unfold ChannelId.select
  split
  · exact List.Sublist.refl _
  · exact List.nil_sublist _

theorem Sound.advanced (h : s.Sound) {ch : ChannelId} {revents : Finset Poll}
    {rest : List (ChannelId × Finset Poll)} (hrest : s.rest = (ch, revents) :: rest) :
    Sound { s with
      rest := rest
      currentActiveChannel_ := some ch
      calls := ch.callbacks revents
      inCallback := false } := by
  have hdistinct := h.distinct
  rw [hrest, List.map_cons, List.nodup_cons] at hdistinct
  have hlisted : ∀ p ∈ rest, p ∈ s.rest := by
    intro p hp
    rw [hrest]
    exact List.mem_cons_of_mem _ hp
  have hfirst : (ch, revents) ∈ s.rest := by
    rw [hrest]
    exact List.mem_cons_self
  refine { h with
    listed := fun p hp => h.listed p (hlisted p hp)
    current := ?_
    distinct := hdistinct.2
    waiting := ?_
    calling := ?_
    order := ?_
    idle := ?_ }
  · intro ch' hch'
    obtain rfl := Option.some.inj hch'
    exact ⟨h.listed _ hfirst, hdistinct.1⟩
  · intro k fd hin
    obtain ⟨p, hp, hfst⟩ := List.mem_map.mp hin
    exact h.waiting k fd (List.mem_map.mpr ⟨p, hlisted p hp, hfst⟩)
  · intro _ k fd hch
    obtain rfl := Option.some.inj hch
    exact h.waiting k fd (List.mem_map_of_mem hfirst)
  · intro k fd hch
    obtain rfl := Option.some.inj hch
    simp only [ChannelId.callbacks_connector]
    exact (select_sublist _).append (select_sublist _)
  · intro hoff
    obtain ⟨hnil, -⟩ := h.idle hoff
    rw [hnil] at hrest
    cases hrest

theorem Sound.dropped (h : s.Sound) {cb : ChannelCallback} {calls : List ChannelCallback}
    (hcalls : s.calls = cb :: calls) : Sound { s with calls := calls } := by
  have hne : s.calls ≠ [] := by
    rw [hcalls]
    exact List.cons_ne_nil _ _
  refine { h with
    calling := fun _ => h.calling hne
    order := ?_
    idle := ?_ }
  · intro k fd hcurrent
    have horder := h.order k fd hcurrent
    rw [hcalls] at horder
    exact (List.sublist_cons_self cb calls).trans horder
  · intro hoff
    exact absurd (h.idle hoff).2.1 hne

/-- A callback of a connector's channel takes the channel out, and then it is the last one. -/
theorem Sound.handled (h : s.Sound) {cb : ChannelCallback} {calls : List ChannelCallback}
    (hcalls : s.calls = cb :: calls)
    (hcurrent : s.currentActiveChannel_ = some (.connector k sockfd))
    (hclear : (s.connectors k).state_ = .kConnecting → cb = .errorCallback_ → calls = [])
    (soError : ℕ) (selfConnect : Bool) :
    Yields (· ≠ .activeChannel) Sound
      (({ s with calls := calls } : ActiveLoop).call k (handle soError selfConnect cb)) := by
  have hne : s.calls ≠ [] := by
    rw [hcalls]
    exact List.cons_ne_nil _ _
  have hevents := h.eventHandling (Or.inr hne)
  obtain ⟨hactive, hout⟩ := h.current _ hcurrent
  have hchannel := h.active hevents k sockfd hactive
  have hpoller := h.calling hne k sockfd hcurrent
  have hdropped := h.dropped hcalls
  have hhandling : (({ s with calls := calls } : ActiveLoop).view k).activity = .handling := by
    have hactivity := activity_of_active (s := { s with calls := calls }) hchannel hevents hactive
    rw [if_pos hcurrent] at hactivity
    exact hactivity
  have hinv := hdropped.view_inv k
  have hconnected : (s.connectors k).state_ ≠ .kConnected := by
    intro hstate
    have hnil : (s.connectors k).poller = [] := (h.inv k).connected hstate
    rw [hnil] at hpoller
    cases hpoller
  have hlast : cb = .writeCallback_ → calls = [] := by
    intro hcb
    have horder := h.order k sockfd hcurrent
    rw [hcalls, hcb] at horder
    cases horder with
    | cons _ hrest =>
      have hlength := hrest.length_le
      exact List.length_eq_zero_iff.mp (by simpa using hlength)
  have hover : cb = .errorCallback_ ∨ cb = .writeCallback_ → s.eventHandling_ = true →
      (s.connectors k).state_ = .kConnecting → ∀ fd, (s.connectors k).channel_ = some fd →
        .connector k fd ∉ s.rest.map Prod.fst ∧
          (calls ≠ [] → s.currentActiveChannel_ ≠ some (.connector k fd)) := by
    intro hcb _ hstate fd hfd
    obtain rfl := Option.some.inj (hchannel.symm.trans hfd)
    refine ⟨hout, fun hmore => absurd ?_ hmore⟩
    rcases hcb with hcb | hcb
    · exact hclear hstate hcb
    · exact hlast hcb
  have hsame : Yields (· ≠ .activeChannel) Sound
      (({ s with calls := calls } : ActiveLoop).call k pure) :=
    hdropped.call_starts (yields_pure (.same rfl rfl (le_refl _))) (yields_pure hinv)
  cases cb with
  | closeCallback_ | readCallback_ => exact hsame
  | errorCallback_ =>
    refine hdropped.call_removes ?_ ?_ (Or.inr hhandling) (hover (Or.inl rfl))
    · refine Connector.handleError_removes.mono (fun _ => id) ?_
      intro c' hc'
      exact hc'.congr rfl rfl rfl rfl
    · refine (Connector.handleError_spec (p := False) hinv hhandling).mono (fun _ _ => trivial) ?_
      intro c' hc'
      exact hc'.1.inv
  | writeCallback_ =>
    refine hdropped.call_removes ?_ ?_ (Or.inr hhandling) (hover (Or.inr rfl))
    · refine (Connector.handleWrite_removes soError selfConnect).mono (fun _ => id) ?_
      intro c' hc'
      exact hc'.congr rfl rfl rfl rfl
    · refine (Connector.handleWrite_spec hinv hhandling soError selfConnect hconnected).mono
        (fun _ _ => trivial) ?_
      intro c' hc'
      exact hc'.inv

theorem left_same {c c' : Connector} (hpoller : c'.poller = c.poller) : left c c' = [] := by
  simp [left, hpoller]

/-- What `start` and `stop` set in another thread does not touch the channels. -/
theorem Sound.announced (h : s.Sound) (f : LoopFunctor) : (s.announce f).Sound := by
  have hflag : ∀ k b, Sound { s with
      connectors := Function.update s.connectors k { s.connectors k with connect_ := b } } := by
    intro k b
    let c' : Connector := { s.connectors k with connect_ := b }
    have hstarts := h.starts (show Connector.Inv { c' with activity := .idle } from
      { h.inv k with }) (.same rfl rfl (le_refl _))
    have hleft : left (s.connectors k) c' = [] := left_same rfl
    rw [hleft, List.map_nil, List.append_nil] at hstarts
    exact hstarts
  cases f with
  | startInLoop k => exact hflag k true
  | stopInLoop k => exact hflag k false
  | connectDestroyed n => exact h

/-- Outside the iteration the assertion asks nothing. -/
theorem Sound.destroyed_connection (h : s.Sound) (hoff : s.eventHandling_ = false) (n : ℕ) :
    Yields (· ≠ .activeChannel) Sound (s.connectDestroyed n) := by
  refine Yields.bind (yields_check (R := fun _ => True) ?_ (fun _ => trivial)) ?_
  · intro hnot
    refine absurd ?_ hnot
    intro hon
    rw [hoff] at hon
    cases hon
  · intro _ _
    refine Yields.bind (yields_check (R := fun _ => True) (by simp) (fun _ => trivial)) ?_
    intro _ _
    refine yields_pure { h with gone := ?_, destroyed := fun _ _ => hoff, fixed := ?_ }
    · intro k fd hin
      rcases List.mem_append.mp hin with hold | hnew
      · exact h.gone k fd hold
      · simp at hnew
    · intro m hin
      rcases List.mem_append.mp hin with hold | hnew
      · exact h.fixed m hold
      · simp at hnew

theorem Sound.reset (h : s.Sound) (hoff : s.eventHandling_ = false)
    (hresets : 0 < (s.connectors k).resets) :
    Yields (· ≠ .activeChannel) Sound (s.call k fun c => pure c.resetChannel) := by
  obtain ⟨hrest, hcalls, -⟩ := h.idle hoff
  obtain ⟨hpoller, -, hinv⟩ := (h.view_inv k).reset hresets
  have hnil : (s.connectors k).poller = [] := hpoller
  refine call_yields (P := fun c' => c' = (s.view k).resetChannel) (yields_pure rfl) ?_
  intro c' hc'
  subst hc'
  refine h.update (hinv.with_activity (by simp)) ?_ ?_ ?_ (le_refl _) ?_
  · intro hon
    rw [hoff] at hon
    cases hon
  · intro fd hin
    rw [hrest] at hin
    cases hin
  · exact fun hne => absurd hcalls hne
  · intro fd _ hout
    exact hout

theorem step_callback {ch : ChannelId} {cb : ChannelCallback} {calls : List ChannelCallback}
    (hch : s.currentActiveChannel_ = some ch) (hcalls : s.calls = cb :: calls) (soError : ℕ)
    (selfConnect : Bool) : s.step (.callback soError selfConnect) =
      ({ s with calls := calls } : ActiveLoop).runCallback ch cb soError selfConnect := by
  simp only [ActiveLoop.step, hch, hcalls]

/-- A clear step does not fail the assertion of `EventLoop::removeChannel`. -/
theorem Sound.step {a : ActiveStep} (h : s.Sound) (he : s.Enabled a) (hc : s.Clear a) :
    Yields (· ≠ .activeChannel) Sound (s.step a) := by
  cases a with
  | poll active => exact yields_pure (h.polled he.2.1 he.2.2)
  | next =>
    obtain ⟨-, -, hne⟩ := he
    cases hrest : s.rest with
    | nil => exact absurd hrest hne
    | cons p rest =>
      obtain ⟨ch, revents⟩ := p
      simp only [ActiveLoop.step, hrest]
      exact yields_pure (h.advanced hrest)
  | callback soError selfConnect =>
    obtain ⟨-, hcurrent, hne⟩ := he
    obtain ⟨ch, hch⟩ := Option.ne_none_iff_exists'.mp hcurrent
    obtain ⟨cb, calls, hcalls⟩ := List.exists_cons_of_ne_nil hne
    rw [step_callback hch hcalls]
    cases ch with
    | connector k fd =>
      have hlast : (s.connectors k).state_ = .kConnecting → cb = .errorCallback_ →
          calls = [] := by
        intro hstate hcb
        have htail := hc (.connector k fd) hch hstate
        rw [hcalls, hcb] at htail
        exact htail rfl
      refine Yields.bind (h.handled hcalls hch hlast soError selfConnect) ?_
      intro t ht
      exact yields_pure { ht with }
    | connection n | other n =>
      have hdropped := h.dropped hcalls
      exact yields_pure { hdropped with }
  | endOfEvents =>
    obtain ⟨-, hcalls, hrest⟩ := he
    refine yields_pure { h with
      active := by simp
      current := by simp
      calling := fun hne => absurd hcalls hne
      order := by simp
      destroyed := fun _ _ => rfl
      idle := fun _ => ⟨hrest, hcalls, rfl⟩ }
  | start k result =>
    exact h.call_startInLoop (g := fun c => { c with connect_ := true })
      (fun c hinv => { hinv with }) (fun c => ⟨rfl, rfl, rfl⟩)
  | stop k =>
    exact h.call_stopInLoop (g := fun c => { c with connect_ := false })
      (fun c hinv => { hinv with }) (fun c => ⟨rfl, rfl, rfl, rfl, rfl⟩) hc
  | restart k result =>
    exact h.call_startInLoop (fun c hinv => hinv.restarted) (fun c => ⟨rfl, rfl, rfl⟩)
  | startInLoop k delay result =>
    exact h.call_startInLoop (g := fun c => { c with timers := c.timers.erase delay })
      (fun c hinv => { hinv with }) (fun c => ⟨rfl, rfl, rfl⟩)
  | newConnection n => exact yields_pure { h with }
  | queueInLoop f =>
    have hannounced := h.announced f
    exact yields_pure { hannounced with }
  | runFunctor f result =>
    obtain ⟨hoff, -⟩ := he
    have htaken : Sound { s with pendingFunctors_ := s.pendingFunctors_.erase f } := { h with }
    cases f with
    | startInLoop k => exact htaken.call_startInLoop (g := id) (fun _ => id) (fun c => ⟨rfl, rfl, rfl⟩)
    | stopInLoop k =>
      refine htaken.call_stopInLoop (g := id) (fun _ => id) (fun c => ⟨rfl, rfl, rfl, rfl, rfl⟩) ?_
      intro hon
      have hoff' : s.eventHandling_ = false := hoff
      rw [show s.eventHandling_ = true from hon] at hoff'
      cases hoff'
    | connectDestroyed n => exact htaken.destroyed_connection hoff n
  | resetChannel k => exact h.reset he.1 he.2

end Iteration

theorem reachable_sound (h : (machine.restrict Clear).Reachable s) : s.Sound := by
  apply h.invariant
  · intro s hinit
    obtain rfl : s = new := hinit
    exact new_sound
  · intro s a s' hs he ht
    exact (hs.step he.1 he.2).of_ok ht

/-- A channel some of whose callbacks are to come has not been removed in this iteration. -/
theorem Sound.not_removed (h : s.Sound) (hne : s.calls ≠ []) {ch : ChannelId}
    (hcurrent : s.currentActiveChannel_ = some ch) : ch ∉ s.removed := by
  intro hin
  cases ch with
  | connector k fd => exact (h.gone k fd hin).2 (h.calling hne k fd hcurrent)
  | connection n =>
    have hevents := h.eventHandling (Or.inr hne)
    rw [h.destroyed n hin] at hevents
    cases hevents
  | other n => exact h.fixed n hin

/-- A stop whose connector's channel is in the active list, and is not the current one. -/
theorem stop_active (hevents : s.eventHandling_ = true)
    (hstate : (s.connectors k).state_ = .kConnecting)
    (hchannel : (s.connectors k).channel_ = some sockfd)
    (hactive : .connector k sockfd ∈ s.activeChannels_)
    (hother : s.currentActiveChannel_ ≠ some (.connector k sockfd)) :
    s.step (.stop k) = .error .activeChannel := by
  have hbusy : ¬ (s.view k).Free := by
    rw [free_iff hchannel]
    intro hmay
    rcases hmay hevents with hcurrent | hout
    · exact hother hcurrent
    · exact hout hactive
  have hview : (s.view k).state_ = .kConnecting ∧ (s.view k).channel_ = some sockfd :=
    ⟨hstate, hchannel⟩
  have hactivity : ¬ ((s.view k).activity = .idle ∨ (s.view k).activity = .handling) := hbusy
  simp [ActiveLoop.step, call, Connector.stop, Connector.stopInLoop, Connector.setState,
    Connector.removeAndResetChannel, hview, hactivity, check, bind, Except.bind]

/-- In a run whose steps are clear the assertion of `EventLoop::removeChannel` holds, and no
callback of a channel is invoked after the channel was removed in the iteration. A stop that
is not clear fails the assertion. -/
theorem removal_safe (h : (machine.restrict Clear).Reachable s) :
    (∀ a, s.Enabled a → s.Clear a → s.step a ≠ .error .activeChannel) ∧
    (∀ soError selfConnect, s.Enabled (.callback soError selfConnect) →
      ∀ ch, s.currentActiveChannel_ = some ch → ch ∉ s.removed) ∧
    ∀ k sockfd, s.eventHandling_ = true → (s.connectors k).state_ = .kConnecting →
      (s.connectors k).channel_ = some sockfd → .connector k sockfd ∈ s.activeChannels_ →
      s.currentActiveChannel_ ≠ some (.connector k sockfd) →
      s.step (.stop k) = .error .activeChannel := by
  have hsound := reachable_sound h
  refine ⟨?_, ?_, ?_⟩
  · intro a he hc herror
    exact (hsound.step he hc).of_error herror rfl
  · intro soError selfConnect he ch hcurrent
    exact hsound.not_removed he.2.2 hcurrent
  · intro k fd hevents hstate hchannel hactive hother
    exact stop_active hevents hstate hchannel hactive hother

instance (s : ActiveLoop) (ch : ChannelId) : Decidable (s.Connecting ch) :=
  match ch with
  | .connector k _ => inferInstanceAs (Decidable ((s.connectors k).state_ = .kConnecting))
  | .connection _ | .other _ => instDecidableFalse

instance (s : ActiveLoop) (a : ActiveStep) : Decidable (s.Clear a) :=
  match a with
  | .stop k => inferInstanceAs (Decidable (s.eventHandling_ = true →
      (s.connectors k).state_ = .kConnecting →
        ∀ sockfd ∈ (s.connectors k).channel_, .connector k sockfd ∉ s.activeChannels_))
  | .callback _ _ => inferInstanceAs (Decidable (∀ ch ∈ s.currentActiveChannel_,
      s.Connecting ch → s.calls.head? = some .errorCallback_ → s.calls.tail = []))
  | .poll _ | .next | .endOfEvents | .start _ _ | .restart _ _ | .startInLoop _ _ _
  | .newConnection _ | .queueInLoop _ | .runFunctor _ _ | .resetChannel _ => instDecidableTrue

instance (s : ActiveLoop) (a : ActiveStep) : Decidable ((machine.restrict Clear).enabled s a) :=
  inferInstanceAs (Decidable (s.Enabled a ∧ s.Clear a))

/-- A connection that is to be destroyed and a connector that becomes writable are active
together. The connector's channel is handled last. -/
def destroyAndConnect : List ActiveStep :=
  [.start 0 .EINPROGRESS, .newConnection 5,
    .poll [(.connection 5, {.POLLIN}), (.connector 0 0, {.POLLOUT})], .next, .callback 0 false,
    .queueInLoop (.connectDestroyed 5), .next]

theorem removal_safe_sample : ∃ s, (machine.restrict Clear).Reachable s ∧
    s.currentActiveChannel_ = some (.connector 0 0) ∧ s.Enabled (.callback 0 false) ∧
    ChannelId.connector 0 0 ∉ s.removed ∧
    s.step (.callback 0 false) ≠ .error .activeChannel := by
  have hrun : ((machine.restrict Clear).execute new destroyAndConnect).map (fun s =>
      (s.currentActiveChannel_, decide (s.Enabled (.callback 0 false)),
        decide (s.Clear (.callback 0 false)))) =
      some (some (.connector 0 0), true, true) := by
    decide +kernel
  obtain ⟨s, hs, hview⟩ := Option.map_eq_some_iff.mp hrun
  simp only [Prod.mk.injEq, decide_eq_true_eq] at hview
  obtain ⟨hcurrent, he, hclear⟩ := hview
  have hreach : (machine.restrict Clear).Reachable s :=
    ⟨new, destroyAndConnect, rfl, Machine.run_of_execute _ hs⟩
  obtain ⟨hasserts, hcalls, -⟩ := removal_safe hreach
  exact ⟨s, hreach, hcurrent, he, hcalls 0 false he _ hcurrent, hasserts _ he hclear⟩

/-- A timer callback is about to stop a connector whose channel is active too. -/
def stopFromTimer : List ActiveStep :=
  [.start 0 .EINPROGRESS, .poll [(.other 0, {.POLLIN}), (.connector 0 0, {.POLLOUT})], .next,
    .callback 0 false]

/-- The connection is refused: the connector's channel reports the error and POLLOUT. -/
def connectionRefused : List ActiveStep :=
  [.start 0 .EINPROGRESS, .poll [(.connector 0 0, {.POLLOUT, .POLLERR, .POLLHUP})], .next,
    .callback 111 false]

theorem removal_unsafe :
    (¬ ∀ s, machine.Reachable s → ∀ a, s.Enabled a → s.step a ≠ .error .activeChannel) ∧
    ¬ ∀ s, machine.Reachable s → ∀ soError selfConnect,
      s.Enabled (.callback soError selfConnect) →
        ∀ ch, s.currentActiveChannel_ = some ch → ch ∉ s.removed := by
  constructor
  · intro hall
    have hrun : (machine.execute new stopFromTimer).map (fun s =>
        (decide (s.Enabled (.stop 0)), fault? (s.step (.stop 0)))) =
        some (true, some .activeChannel) := by
      decide +kernel
    obtain ⟨s, hs, hview⟩ := Option.map_eq_some_iff.mp hrun
    simp only [Prod.mk.injEq, decide_eq_true_eq] at hview
    obtain ⟨he, hfault⟩ := hview
    exact hall s ⟨new, stopFromTimer, rfl, Machine.run_of_execute _ hs⟩ _ he
      (fault?_eq_some.mp hfault)
  · intro hall
    have hrun : (machine.execute new connectionRefused).map (fun s =>
        (decide (s.Enabled (.callback 111 false)), s.currentActiveChannel_, s.removed)) =
        some (true, some (.connector 0 0), [.connector 0 0]) := by
      decide +kernel
    obtain ⟨s, hs, hview⟩ := Option.map_eq_some_iff.mp hrun
    simp only [Prod.mk.injEq, decide_eq_true_eq] at hview
    obtain ⟨he, hcurrent, hremoved⟩ := hview
    have hout := hall s ⟨new, connectionRefused, rfl, Machine.run_of_execute _ hs⟩ 111 false he _
      hcurrent
    rw [hremoved] at hout
    exact hout List.mem_cons_self

end MuduoServer.ActiveLoop
