import MuduoServer.ClientSteps

/-!
What is destroyed in the loop of the clients. A connection is held by the handler that runs
on its channel, and a connector's channel is destroyed by a functor, when no handler runs.
So the only object that can go too early is a connector, with the client whose connection
it has just made or with a timer that expires before the functor has run.
-/
namespace MuduoServer

open FaultMachine FaultMachine.Machine

namespace ClientLoop

variable {s s' : ClientLoop} {c k : ℕ} {client : TcpClient} {a : ClientStep}

theorem Fault.ofLifetime_conn {f : Fault} (h : f = .noObject ∨ ∃ e, f = .conn e) :
    f.ofLifetime = false := by
  rcases h with rfl | ⟨e, rfl⟩ <;> rfl

/-- A step on one connection. -/
theorem onConn_ok (h : s.Ok) (g : TcpConnection → Except TcpConnection.Fault TcpConnection) :
    Yields (fun f => f.ofLifetime = false) Ok (s.onConn k g) :=
  onConn_yields.mono (fun _ => Fault.ofLifetime_conn) fun _ hq => h.quiet hq

theorem callback_ok (h : s.Ok) (r : Buffer.ReadResult) (w : WriteResult) :
    Yields (fun f => f.ofLifetime = false) Ok (s.callback r w) := by
  have hrun : ∀ running, Ok { s with running := running } := fun running =>
    h.quiet (quiet_running running)
  unfold callback
  split
  · exact onConn_ok (hrun _) _
  · exact onConn_ok (hrun _) _
  · exact onConn_ok (hrun _) _
  · exact onConn_ok (hrun _) _
  · rfl

theorem event_ok (h : s.Ok) (k : ℕ) (revents : Finset Poll) :
    Yields (fun f => f.ofLifetime = false) Ok (s.event k revents) := by
  unfold event
  split
  · rfl
  · refine Yields.bind (yields_check (R := fun _ => True) (fun _ => rfl) fun _ => trivial) ?_
    intro _ _
    exact yields_pure (h.quiet (quiet_running _))

theorem callbackReturn_ok (h : s.Ok) : s.callbackReturn.Ok := by
  unfold callbackReturn
  split <;> exact h.quiet (quiet_running _)

theorem removeConnection_ok (h : s.Ok) (c k : ℕ) (result : ConnectResult) :
    Yields (fun f => f.ofLifetime = false) Ok (s.removeConnection c k result) := by
  unfold removeConnection
  split
  · rfl
  · rename_i client hc
    refine Yields.bind (yields_check (R := fun _ => client.alive = true) (fun _ => rfl) id) ?_
    intro _ halive
    refine Yields.bind
      (yields_check (R := fun _ => client.connection_ = some k) (fun _ => rfl) id) ?_
    intro _ hconn
    have hok := h.clients c client hc
    have hstate := hok.connected halive (by simp [hconn])
    have hclient : ClientOk { client with connection_ := none } (s.resetsOf c) s.nextConn := by
      refine { hok with connected := fun _ hne => absurd rfl hne, stored := fun j hj => ?_ }
      cases hj
    have hremoved : Ok ((s.setClient c { client with connection_ := none }).push
        (.connectDestroyed k)) := by
      refine (h.setClient hclient).quiet (quiet_push fun d => ?_)
      simp
    dsimp only
    split
    · have hc' : ((s.setClient c { client with connection_ := none }).push
          (.connectDestroyed k)).clients c = some { client with connection_ := none } :=
        Function.update_self ..
      refine onConnector_alive hremoved hc' halive (hclient.enabled halive) (by simp) ?_
      intro _ _
      refine ⟨rfl, ?_⟩
      rw [hstate]
      simp
    · exact yields_pure hremoved

theorem closeCallback_ok (h : s.Ok) (result : ConnectResult) :
    Yields (fun f => f.ofLifetime = false) Ok (s.closeCallback result) := by
  have hrun : ∀ running, Ok { s with running := running } := fun running =>
    h.quiet (quiet_running running)
  have hpush : ∀ {s' : ClientLoop}, s'.Ok → ∀ k, Ok (s'.push (.connectDestroyed k)) := by
    intro s' h' k
    exact h'.quiet (quiet_push fun d => by simp)
  unfold closeCallback
  split
  · rename_i k todo hk
    split
    · rfl
    · dsimp only
      split
      · exact removeConnection_ok (hrun _) _ _ _
      · refine yields_pure (hpush ?_ k)
        exact (hrun (.event k todo)).quiet ⟨rfl, fun _ => rfl, rfl, fun _ => rfl⟩
      · exact yields_pure (hpush (hrun _) k)
  · rfl

/-- A queued reset finds its connector, and no handler running. -/
theorem resetChannel_ok (h : s.Ok) {functors : BatchQueue ClientFunctor}
    (hpop : s.functors.pop? = some (.resetChannel c, functors)) (hidle : s.running = .idle)
    (ran : List ClientFunctor) :
    Yields (fun f => f.ofLifetime = false) Ok
      (ClientLoop.resetChannel { s with functors := functors, ran := ran } c) := by
  have hcontents := BatchQueue.contents_pop hpop
  have hcount : s.resetsOf c = functors.contents.count (.resetChannel c) + 1 := by
    simp [resetsOf, hcontents]
  have hother : ∀ d, d ≠ c → functors.contents.count (.resetChannel d) = s.resetsOf d := by
    intro d hd
    simp [resetsOf, hcontents, Ne.symm hd]
  cases hc : s.clients c with
  | none =>
    have habsent := h.absent c hc
    omega
  | some client =>
    have hok := h.clients c client hc
    have hresets : 0 < client.connector_.resets := by
      rw [hok.resets]
      omega
    obtain ⟨hpoller, hone, hinv⟩ := hok.inv.reset hresets
    have hset : client.connector_.channel_ ≠ none := by
      intro hnone
      have hplace := hok.inv.place
      rw [hnone, hpoller, hone] at hplace
      cases hplace
    have hlive : client.connector_.alive = true := by
      by_contra hdead
      exact hset (hok.empty (by simpa using hdead))
    unfold ClientLoop.resetChannel
    simp only [hc, check_of hlive, hidle, Running.conn?, check_of, ok_bind]
    refine yields_pure (h.update (c := c) rfl hother rfl (fun _ => rfl) ?_)
    have hless : functors.contents.count (.resetChannel c) = 0 := by
      have hsame := hok.resets
      omega
    show ClientOk _ (functors.contents.count (.resetChannel c)) _
    rw [hless]
    refine { hok with inv := hinv, sound := ?_, resets := ?_, empty := fun _ => rfl }
    · intro hne
      exact absurd hpoller hne
    · show client.connector_.resets - 1 = 0
      omega

theorem runFunctor_ok (h : s.Ok) (hidle : s.running = .idle) :
    Yields (fun f => f.ofLifetime = false) Ok s.runFunctor := by
  unfold runFunctor
  cases hpop : s.functors.pop? with
  | none => exact yields_pure h
  | some p =>
    obtain ⟨f, functors⟩ := p
    have hquiet : (∀ d, f ≠ .resetChannel d) →
        Ok { s with functors := functors, ran := f :: s.ran } := by
      intro hf
      refine h.quiet ⟨rfl, fun d => ?_, rfl, fun _ => rfl⟩
      simp [resetsOf, BatchQueue.contents_pop hpop, hf d]
    cases f with
    | resetChannel c => exact resetChannel_ok h hpop hidle _
    | connectDestroyed k => exact onConn_ok (hquiet (by simp)) _
    | userCallback k =>
      exact yields_pure ((hquiet (by simp)).quiet (quiet_running _))

theorem newClient_ok (h : s.Ok) (hc : s.clients c = none) (writeComplete : Bool) :
    (s.setClient c (TcpClient.new writeComplete)).Ok := by
  refine h.setClient ?_
  rw [h.absent c hc]
  refine ⟨Connector.new_inv, ?_, ?_, rfl, ?_, ?_, ?_, ?_, ?_, ?_, ?_⟩
  · simp [TcpClient.new, Connector.new]
  · intro hne
    exact absurd rfl hne
  · simp [TcpClient.new, Connector.new]
  · simp [TcpClient.new]
  · simp [TcpClient.new, Connector.new, Connector.Held]
  · intro _
    rfl
  · intro _ hconn
    exact absurd rfl hconn
  · intro hgone
    cases hgone
  · intro k hk
    cases hk

/-- What a client that is alive sets in itself before it calls its connector. -/
theorem onClient_alive (h : s.Ok) (hc : s.clients c = some client) (halive : client.alive = true)
    (retry connect : Bool) {b : ConnectorStep}
    (hb : b = .stop ∨ ∃ result, b = .start result) :
    Yields (fun f => f.ofLifetime = false) Ok
      ((s.setClient c { client with retry_ := retry, connect_ := connect }).onConnector c b) := by
  have hok : ClientOk { client with retry_ := retry, connect_ := connect } (s.resetsOf c)
      s.nextConn := { h.clients c client hc with }
  have he : client.connector_.Enabled b := by
    rcases hb with rfl | ⟨result, rfl⟩
    · exact hok.enabled halive
    · exact hok.enabled halive
  refine onConnector_alive (h.setClient hok) (Function.update_self ..) halive he ?_ ?_
  · rcases hb with rfl | ⟨result, rfl⟩ <;> simp
  · rintro result rfl
    rcases hb with hstop | ⟨_, hstart⟩
    · cases hstop
    · cases hstart

theorem act_ok (h : s.Ok) (he : s.Enabled a) :
    Yields (fun f => f.ofLifetime = true → ¬ s.Resets a) Ok (s.act a) := by
  have hweak : ∀ {x : Except Fault ClientLoop}, Yields (fun f => f.ofLifetime = false) Ok x →
      Yields (fun f => f.ofLifetime = true → ¬ s.Resets a) Ok x := by
    intro x hx
    refine hx.mono (fun f hf hlife => ?_) fun _ => id
    cases hf.symm.trans hlife
  cases a with
  | newClient c writeComplete => exact yields_pure (newClient_ok h he.2 writeComplete)
  | enableRetry c =>
    obtain ⟨-, client, hc, -⟩ := he
    have hok : ClientOk { client with retry_ := true } (s.resetsOf c) s.nextConn :=
      { h.clients c client hc with }
    simp only [act, onClient, show s.clients c = some client from hc]
    exact yields_pure (h.setClient hok)
  | connect c result =>
    obtain ⟨-, client, hc, halive⟩ := he
    simp only [act, onClient, show s.clients c = some client from hc]
    exact hweak (onClient_alive h hc halive client.retry_ true (Or.inr ⟨result, rfl⟩))
  | stop c =>
    obtain ⟨-, client, hc, halive⟩ := he
    simp only [act, onClient, show s.clients c = some client from hc]
    exact hweak (onClient_alive h hc halive client.retry_ false (Or.inl rfl))
  | disconnect c =>
    obtain ⟨-, client, hc, -⟩ := he
    have hok : ClientOk { client with connect_ := false } (s.resetsOf c) s.nextConn :=
      { h.clients c client hc with }
    simp only [act, disconnect, show s.clients c = some client from hc]
    split
    · exact yields_pure (h.setClient hok)
    · exact hweak (onConn_ok (h.setClient hok) _)
  | destroyClient c =>
    obtain ⟨-, client, hc, halive⟩ := he
    exact destroyClient_spec h hc halive
  | hold k =>
    obtain ⟨-, conn, hk, -⟩ := he
    simp only [act, show s.conns k = some conn from hk]
    exact yields_pure (h.quiet (quiet_setConn hk))
  | drop k =>
    obtain ⟨-, conn, hk, -⟩ := he
    simp only [act, show s.conns k = some conn from hk]
    exact yields_pure (h.quiet (quiet_setConn hk))
  | send k data w =>
    simp only [act]
    exact hweak (onConn_ok h _)
  | shutdown k =>
    simp only [act, shutdown]
    exact hweak (onConn_ok h _)
  | accept writeComplete => exact hweak (accept_spec h writeComplete)
  | retryTimer c delay result =>
    obtain ⟨-, client, hc, htimer⟩ := he
    exact retryTimer_spec h hc htimer
  | removeConnector c =>
    obtain ⟨-, client, hc, htimer⟩ := he
    exact removeConnector_spec h hc htimer
  | poll c =>
    obtain ⟨-, client, hc, hpoll⟩ := he
    obtain ⟨halive, -⟩ := (h.clients c client hc).of_poller hpoll.2.2.2
    exact hweak (onConnector_alive h hc halive hpoll (by simp) (by simp))
  | connectorEvent c revents soError selfConnect =>
    obtain ⟨-, client, hc, hevent⟩ := he
    exact hweak (connectorEvent_spec h hc revents soError selfConnect hevent)
  | endOfEvents c =>
    obtain ⟨-, client, hc, hend⟩ := he
    have hok := h.clients c client hc
    refine hweak ((onConnector_spec hc hok hend (by simp)).mono ?_ ?_)
    · rintro f ⟨e, rfl⟩
      rfl
    · rintro s' ⟨t, ht, hstep, hm⟩
      obtain rfl := pure_eq_ok.mp ht
      have hclient : ClientOk
          { client with connector_ := { client.connector_ with activity := .idle } }
          client.connector_.resets s.nextConn :=
        { hok with
          inv := hstep.inv
          outside := hstep.outside
          resets := rfl }
      exact h.moves hm hclient
  | event k revents => exact hweak (event_ok h k revents)
  | callback r w => exact hweak (callback_ok h r w)
  | closeCallback result => exact hweak (closeCallback_ok h result)
  | callbackReturn => exact yields_pure (callbackReturn_ok h)
  | endEvent => exact yields_pure (h.quiet (quiet_running _))
  | swap =>
    refine yields_pure (h.quiet ⟨rfl, fun c => ?_, rfl, fun _ => rfl⟩)
    simp [resetsOf, BatchQueue.contents_swap he.2]
  | runFunctor => exact hweak (runFunctor_ok h he.1)
  | finish =>
    refine yields_pure (h.quiet ⟨rfl, fun c => ?_, rfl, fun _ => rfl⟩)
    simp [resetsOf, BatchQueue.contents_finish he.2]

/-- The connection whose channel is in `handleEvent` is held by its handler. -/
theorem held_of_handling {conn : ClientConnection} (hk : k ∈ s.running.handling?) :
    s.Held k conn := by
  refine Or.inr (Or.inr (Or.inl ?_))
  cases hrunning : s.running <;> simp_all [Running.handling?, Running.conn?]

theorem collect_eq : s.collect = .ok { s with
    conns := fun k => (s.conns k).map fun conn =>
      if s.Held k conn then conn else { conn with destroyed := true } } := by
  have hall : ∀ k ∈ s.running.handling?, ∀ conn ∈ s.conns k, s.Held k conn :=
    fun k hk conn _ => held_of_handling hk
  rw [collect, check_of hall, ok_bind]
  rfl

theorem collect_quiet : Quiet s { s with
    conns := fun k => (s.conns k).map fun conn =>
      if s.Held k conn then conn else { conn with destroyed := true } } :=
  ⟨rfl, fun _ => rfl, rfl, fun k => by simp⟩

theorem step_ok (h : s.Ok) (he : s.Enabled a) :
    Yields (fun f => f.ofLifetime = true → ¬ s.Resets a) Ok (s.step a) := by
  refine Yields.bind (act_ok h he) ?_
  intro s' h'
  rw [collect_eq]
  exact yields_ok (h'.quiet collect_quiet)

theorem ok_of_reachable (h : machine.Reachable s) : s.Ok := by
  refine h.invariant (I := Ok) ?_ ?_
  · rintro _ rfl
    exact start_ok
  · intro t b t' ht hb hs
    exact (step_ok ht hb).of_ok hs

section Lifetimes

theorem dropConnector_error (hc : s.clients c = some client) (hheld : ¬ client.connector_.Held)
    (hset : client.connector_.channel_ ≠ none) :
    s.dropConnector c = .error .connectorChannel := by
  simp [dropConnector, hc, hheld, Connector.destroy, check, hset, bind, Except.bind,
    Except.mapError]

theorem step_error {f : Fault} (h : s.act a = .error f) : s.step a = .error f := by
  simp [step, h, bind, Except.bind]

/-- The destructor of the connector fails where the channel has not been reset. -/
theorem act_of_not_resets (h : s.Ok) (he : s.Enabled a) (hnot : ¬ s.Resets a) :
    s.act a = .error .connectorChannel := by
  cases a with
  | destroyClient c =>
    obtain ⟨-, client, hc, halive⟩ := he
    have hset : client.connection_ ≠ none ∧ client.connector_.timers = [] ∧
        client.connector_.channel_ ≠ none := by
      by_contra hno
      refine hnot fun client' hc' hconn htimers => ?_
      obtain rfl := Option.some.inj (hc.symm.trans hc')
      by_contra hset
      exact hno ⟨hconn, htimers, hset⟩
    obtain ⟨hconn, htimers, hset⟩ := hset
    obtain ⟨k, hk⟩ := Option.ne_none_iff_exists'.mp hconn
    obtain ⟨conn, hstored⟩ := Option.isSome_iff_exists.mp
      ((h.numbered k).mpr ((h.clients c client hc).stored k hk))
    simp only [act, destroyClient, show s.clients c = some client from hc, hk, hstored]
    refine dropConnector_error (Function.update_self ..) ?_ hset
    simp [Connector.Held, htimers]
  | removeConnector c =>
    obtain ⟨-, client, hc, -⟩ := he
    have hset : client.connector_.timers = [] ∧ client.connector_.channel_ ≠ none := by
      by_contra hno
      refine hnot fun client' hc' htimers => ?_
      obtain rfl := Option.some.inj (hc.symm.trans hc')
      by_contra hset
      exact hno ⟨htimers, hset⟩
    obtain ⟨htimers, hset⟩ := hset
    simp only [act, onClient, show s.clients c = some client from hc]
    refine dropConnector_error (s := s.setClient c _) (Function.update_self ..) ?_ hset
    simp [Connector.Held, htimers]
  | retryTimer c delay result =>
    obtain ⟨-, client, hc, hlive, -⟩ := he
    have hset : client.connector_.owned = false ∧ client.connector_.timers.erase delay = [] ∧
        client.connector_.state_ = .kDisconnected ∧ client.connector_.channel_ ≠ none := by
      by_contra hno
      refine hnot fun client' hc' howned htimers hstate => ?_
      obtain rfl := Option.some.inj (hc.symm.trans hc')
      by_contra hset
      exact hno ⟨howned, htimers, hstate, hset⟩
    obtain ⟨howned, htimers, hstate, hset⟩ := hset
    have hok := h.clients c client hc
    have hgone : client.alive = false := by
      by_contra halive
      cases howned.symm.trans (hok.owned.mpr (Or.inl (by simpa using halive)))
    have hoff : client.connector_.connect_ = false := by
      refine (hok.dead hgone).2.resolve_right ?_
      simp [hstate]
    have hcall : client.connector_.step (.startInLoop delay result) =
        .ok { client.connector_ with timers := client.connector_.timers.erase delay } := by
      simp [Connector.step, Connector.startInLoop, hstate, hoff, check_of, pure, Except.pure]
    simp only [act, onConnector_ok hc hcall, Nat.lt_irrefl, if_false, ok_bind]
    refine dropConnector_error (Function.update_self ..) ?_ hset
    simp [Connector.Held, howned, htimers]
  | _ => exact absurd trivial hnot

end Lifetimes

end ClientLoop

end MuduoServer
