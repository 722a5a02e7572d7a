import MuduoServer.ConnectorSockets

/-!
Which calls a connector survives. `start`, `restart` and the retry timers do not look at
`state_` and `channel_` before they assert what they need, and a stop leaves the timers
armed. A restart while the connector is connecting may pass, but then the channel it has
left in the poller fails the assertion of `handleError` at its next error event.
-/
namespace MuduoServer

open FaultMachine FaultMachine.Machine

/-- What the loop does by itself: it polls and handles the events. -/
def ConnectorStep.ofLoop : ConnectorStep → Bool
  | .poll | .handleEvent _ _ _ | .endOfEvents => true
  | _ => false

namespace Connector

variable {s s' : Connector} {a b : ConnectorStep} {result : ConnectResult}

/-- An assertion of the connector fails, as opposed to the one of the loop. -/
def Fails (s : Connector) (a : ConnectorStep) : Prop :=
  ∃ f, s.step a = .error f ∧ f ≠ .activeChannel

/-- The step fails, or the loop by itself fails after it. -/
def Doomed (s : Connector) (a : ConnectorStep) : Prop :=
  ∃ as s' b, machine.Run s as s' ∧ s'.Enabled b ∧ s'.Fails b ∧
    ∃ cs, as ++ [b] = a :: cs ∧ ∀ c ∈ cs, c.ofLoop = true

theorem meets_of_ofLoop (h : a.ofLoop = true) : s.Meets a := by
  cases a with
  | poll | handleEvent | endOfEvents => trivial
  | start | stop | restart | startInLoop | resetChannel | release | destroy => cases h

theorem not_fails (h : Inv s) (hout : s.activity ≠ .handling) (hsound : s.Sound)
    (he : s.Enabled a) (hmeets : s.Meets a) : ¬ s.Fails a := by
  rintro ⟨f, hf, hne⟩
  rcases (h.step hout he).of_error hf with hactive | hnot
  · exact hne hactive
  · exact hnot ⟨hsound, hmeets⟩

theorem sound_of_run {as : List ConnectorStep} (hr : machine.Run s as s')
    (has : ∀ c ∈ as, c.ofLoop = true) (h : Inv s) (hout : s.activity ≠ .handling)
    (hsound : s.Sound) : Inv s' ∧ s'.activity ≠ .handling ∧ s'.Sound := by
  induction hr with
  | nil => exact ⟨h, hout, hsound⟩
  | @snoc t u as c hr he hs ih =>
    obtain ⟨hinv, houtside, ht⟩ := ih fun c hc => has c (List.mem_append_left _ hc)
    have hstep := (hinv.step houtside he).of_ok hs
    have hmeets : t.Meets c := meets_of_ofLoop (has c (by simp))
    exact ⟨hstep.inv, hstep.outside, hstep.sound ht hmeets.restart⟩

theorem not_doomed (h : Inv s) (hout : s.activity ≠ .handling) (hsound : s.Sound)
    (he : s.Enabled a) (hmeets : s.Meets a) : ¬ s.Doomed a := by
  rintro ⟨as, s', b, hr, hb, hfails, cs, heq, hcs⟩
  cases as with
  | nil =>
    obtain rfl := hr.eq_of_nil
    obtain ⟨rfl, -⟩ : b = a ∧ [] = cs := by simpa using heq
    exact not_fails h hout hsound he hmeets hfails
  | cons c as =>
    obtain ⟨rfl, rfl⟩ : c = a ∧ as ++ [b] = cs := by simpa using heq
    obtain ⟨t, -, hs, hrest⟩ := hr.uncons
    have hstep := (h.step hout he).of_ok hs
    obtain ⟨hinv', hout', hsound'⟩ := sound_of_run hrest
      (fun d hd => hcs d (List.mem_append_left _ hd)) hstep.inv hstep.outside
      (hstep.sound hsound hmeets.restart)
    exact not_fails hinv' hout' hsound' hb (meets_of_ofLoop (hcs b (by simp))) hfails

theorem Fails.doomed (h : s.Fails a) (he : s.Enabled a) : s.Doomed a :=
  ⟨[], s, a, Run.nil s, he, h, [], rfl, by simp⟩

theorem startInLoop_not_disconnected (h : s.state_ ≠ .kDisconnected) :
    s.startInLoop result = .error .notDisconnected := by
  simp [startInLoop, check, h, bind, Except.bind]

/-- `connecting` finds the channel of an earlier attempt. -/
theorem startInLoop_channel (hstate : s.state_ = .kDisconnected) (hconnect : s.connect_ = true)
    (hconnects : connects result = true) (hset : s.channel_ ≠ none) :
    s.startInLoop result = .error .channelInConnecting := by
  cases result with
  | none | EINPROGRESS | EINTR | EISCONN =>
    simp [startInLoop, check, hstate, hconnect, connect, connecting, setState, hset, bind,
      Except.bind]
  | EAGAIN | EADDRINUSE | EADDRNOTAVAIL | ECONNREFUSED | ENETUNREACH | EACCES | EPERM
  | EAFNOSUPPORT | EALREADY | EBADF | EFAULT | ENOTSOCK | other => cases hconnects

/-- An attempt that fails at once leaves the poller as it is. -/
theorem startInLoop_not_connects (hstate : s.state_ = .kDisconnected)
    (hconnect : s.connect_ = true) (hconnects : connects result = false) :
    ∃ t, s.startInLoop result = .ok t ∧ t.state_ = .kDisconnected ∧ t.poller = s.poller := by
  have hcall : s.startInLoop result = s.connect result := by
    simp [startInLoop, hstate, hconnect, check_of]
  rw [hcall]
  cases result with
  | none | EINPROGRESS | EINTR | EISCONN => cases hconnects
  | EAGAIN | EADDRINUSE | EADDRNOTAVAIL | ECONNREFUSED | ENETUNREACH =>
    refine ⟨_, rfl, ?_, ?_⟩ <;> rw [retry_eq]
  | EACCES | EPERM | EAFNOSUPPORT | EALREADY | EBADF | EFAULT | ENOTSOCK | other =>
    exact ⟨_, rfl, hstate, rfl⟩

theorem handleError_fails (hstate : s.state_ ≠ .kConnecting) :
    s.Fails (.handleEvent {.POLLERR} 0 false) := by
  refine ⟨.errorNotConnecting, ?_, by simp⟩
  simp [step, handleEvent, Channel.handleEventWithGuard, Channel.callIf, callbacks, handleError,
    check, hstate, bind, Except.bind, pure, Except.pure]

/-- The loop polls and handles an error event of a channel that has stayed registered. -/
theorem loop_fails (halive : s.alive = true) (hheld : s.Held) (hout : s.activity ≠ .handling)
    (hstate : s.state_ ≠ .kConnecting) (hne : s.poller ≠ []) :
    ∃ as s' b, machine.Run s as s' ∧ s'.Enabled b ∧ s'.Fails b ∧
      ∀ c ∈ as ++ [b], c.ofLoop = true := by
  have hrevents : ({.POLLERR} : Finset Poll) ⊆
      Channel.kWriteEvent ∪ {.POLLERR, .POLLHUP, .POLLNVAL} := by decide
  have hpolled : Enabled { s with activity := .waiting } (.handleEvent {.POLLERR} 0 false) :=
    ⟨halive, hheld, rfl, hrevents⟩
  have hfails : Fails { s with activity := .waiting } (.handleEvent {.POLLERR} 0 false) :=
    handleError_fails hstate
  cases hactivity : s.activity with
  | handling => exact absurd hactivity hout
  | waiting =>
    have he : s.Enabled (.handleEvent {.POLLERR} 0 false) :=
      ⟨halive, hheld, hactivity, hrevents⟩
    exact ⟨[], s, _, Run.nil s, he, handleError_fails hstate, by simp [ConnectorStep.ofLoop]⟩
  | idle =>
    have he : machine.enabled s .poll := ⟨halive, hheld, hactivity, hne⟩
    exact ⟨[.poll], _, _, (Run.nil s).snoc he rfl, hpolled, hfails, by
      simp [ConnectorStep.ofLoop]⟩
  | handled =>
    have he : machine.enabled s .endOfEvents := ⟨halive, hheld, hactivity⟩
    have hpoll : machine.enabled { s with activity := .idle } .poll := ⟨halive, hheld, rfl, hne⟩
    exact ⟨[.endOfEvents, .poll], _, _, ((Run.nil s).snoc he rfl).snoc hpoll rfl, hpolled, hfails,
      by simp [ConnectorStep.ofLoop]⟩

theorem doomed_of_not_meets (h : Inv s) (hout : s.activity ≠ .handling) (he : s.Enabled a)
    (hnot : ¬ s.Meets a) : s.Doomed a := by
  cases a with
  | stop | resetChannel | poll | handleEvent | endOfEvents | release => exact absurd trivial hnot
  | start result =>
    refine Fails.doomed ?_ he
    by_cases hstate : s.state_ = .kDisconnected
    · have hset : connects result = true ∧ s.channel_ ≠ none := by simpa [Meets, hstate] using hnot
      exact ⟨_, startInLoop_channel hstate rfl hset.1 hset.2, by simp⟩
    · exact ⟨_, startInLoop_not_disconnected hstate, by simp⟩
  | startInLoop delay result =>
    refine Fails.doomed ?_ he
    by_cases hstate : s.state_ = .kDisconnected
    · have hset : s.connect_ = true ∧ connects result = true ∧ s.channel_ ≠ none := by
        simpa [Meets, hstate] using hnot
      exact ⟨_, startInLoop_channel hstate hset.1 hset.2.1 hset.2.2, by simp⟩
    · exact ⟨_, startInLoop_not_disconnected hstate, by simp⟩
  | destroy =>
    refine Fails.doomed ?_ he
    have hset : s.channel_ ≠ none := hnot
    exact ⟨.channelInDestructor, by simp [step, destroy, check, hset, bind, Except.bind], by simp⟩
  | restart result =>
    by_cases hset : connects result = true ∧ s.channel_ ≠ none
    · refine Fails.doomed ?_ he
      exact ⟨_, startInLoop_channel rfl rfl hset.1 hset.2, by simp⟩
    · have hconnecting : s.state_ = .kConnecting := by
        by_contra hstate
        refine hnot ⟨hstate, fun hconnects => ?_⟩
        by_contra hchannel
        exact hset ⟨hconnects, hchannel⟩
      have hne := h.connecting hconnecting
      have hconnects : connects result = false := by
        obtain ⟨sockfd, hchannel, -⟩ := h.registered hne
        simpa [hchannel] using hset
      -- the channel stays in the poller while the state is `kDisconnected`
      obtain ⟨t, ht, hstate, hpoller⟩ := startInLoop_not_connects
        (s := { s.setState .kDisconnected with
          retryDelayMs_ := kInitRetryDelayMs, connect_ := true }) rfl rfl hconnects
      have hafter := (startInLoop_spec (p := False) h.restarted).of_ok ht
      obtain ⟨halive, howned⟩ := he
      obtain ⟨as, s', b, hr, hb, hfails, hloop⟩ := loop_fails (s := t)
        (hafter.alive.trans halive) (Or.inl (hafter.owned.trans howned))
        (hafter.activity ▸ hout) (by simp [hstate]) (hpoller ▸ hne)
      refine ⟨.restart result :: as, s', b, hr.cons ⟨halive, howned⟩ ht, hb, hfails, as ++ [b],
        rfl, hloop⟩

section Calls

/-- In runs in which every step meets the condition, a step and what the loop does after it
fail no assertion of the connector if and only if the step meets the condition too. In
every run at most one channel is registered. -/
theorem connector_assertions (h : (machine.restrict Meets).Reachable s) (he : s.Enabled a) :
    (s.Meets a ↔ ¬ s.Doomed a) ∧ ∀ t, machine.Reachable t → t.poller.length ≤ 1 := by
  have hall : Inv s ∧ s.activity ≠ .handling ∧ s.Sound := by
    refine h.invariant (I := fun t => Inv t ∧ t.activity ≠ .handling ∧ t.Sound) ?_ ?_
    · rintro _ rfl
      exact ⟨new_inv, by simp [new], by simp [Sound, new]⟩
    · intro t c t' ht hc hs
      obtain ⟨hinv, hout, hsound⟩ := ht
      have hstep := (hinv.step hout hc.1).of_ok hs
      exact ⟨hstep.inv, hstep.outside, hstep.sound hsound hc.2.restart⟩
  obtain ⟨hinv, hout, hsound⟩ := hall
  refine ⟨⟨not_doomed hinv hout hsound he, ?_⟩, fun t ht => (inv_of_reachable ht).1.length_le⟩
  intro hnot
  by_contra hmeets
  exact hnot (doomed_of_not_meets hinv hout he hmeets)

theorem connector_assertions_sample : ∃ s : Connector, s.timers = [500] ∧
    ¬ s.Doomed (.startInLoop 500 .EINPROGRESS) := by
  have hrun : ((machine.restrict Meets).execute new [.start .ECONNREFUSED]).map
      (fun s => (s.timers, decide (s.Enabled (.startInLoop 500 .EINPROGRESS)),
        decide (s.Meets (.startInLoop 500 .EINPROGRESS)))) = some ([500], true, true) := by
    decide +kernel
  obtain ⟨s, hs, hview⟩ := Option.map_eq_some_iff.mp hrun
  simp only [Prod.mk.injEq, decide_eq_true_eq] at hview
  obtain ⟨htimers, he, hmeets⟩ := hview
  refine ⟨s, htimers, ?_⟩
  exact (connector_assertions ⟨new, _, rfl, run_of_execute _ hs⟩ he).1.mp hmeets

/-- The retry timer that `stop` has left armed expires while a later `start` is connecting. -/
theorem retry_timer_after_stop : ∃ s : Connector, machine.Reachable s ∧
    s.Enabled (.startInLoop 500 .EINPROGRESS) ∧
    s.step (.startInLoop 500 .EINPROGRESS) = .error .notDisconnected := by
  have hrun : (machine.execute new [.start .ECONNREFUSED, .stop, .start .EINPROGRESS]).map
      (fun s => (decide (s.Enabled (.startInLoop 500 .EINPROGRESS)),
        fault? (s.step (.startInLoop 500 .EINPROGRESS)))) =
      some (true, some .notDisconnected) := by decide +kernel
  obtain ⟨s, hs, hview⟩ := Option.map_eq_some_iff.mp hrun
  simp only [Prod.mk.injEq, decide_eq_true_eq] at hview
  exact ⟨s, ⟨new, _, rfl, run_of_execute _ hs⟩, hview.1, fault?_eq_some.mp hview.2⟩

end Calls

end Connector

end MuduoServer
