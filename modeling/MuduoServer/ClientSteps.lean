import MuduoServer.ClientConnectors

/-!
Every step of the loop of clients keeps what its connectors promise: connections are
created, connectors are released, and the functors that reset channels run.
-/
namespace MuduoServer

open FaultMachine

namespace ClientLoop

variable {s s' : ClientLoop} {c n next : ℕ} {client : TcpClient} {t : Connector}
  {a : ConnectorStep}

section Creation

/-- The connection that `newConnection` makes, established. -/
def established (writeComplete : Bool) : TcpConnection :=
  { TcpConnection.new writeComplete false (64 * 1024 * 1024) with
    state_ := .kConnected
    channel_ := Channel.new.enableReading
    notices := [.connectionCallback true] }

theorem newConnection_eq (client : Option ℕ) (closeCallback_ : CloseCallback)
    (writeComplete : Bool) :
    s.newConnection client closeCallback_ writeComplete = .ok { s with
      conns := Function.update s.conns s.nextConn (some
        { tcp := established writeComplete, client := client,
          closeCallback_ := closeCallback_, users := 0, destroyed := false })
      nextConn := s.nextConn + 1
      running := .connecting client s.nextConn } := rfl

theorem Ok.newConnection (h : s.Ok) (conn : ClientConnection) (running : Running) :
    Ok { s with
      conns := Function.update s.conns s.nextConn (some conn)
      nextConn := s.nextConn + 1
      running := running } where
  clients c client hc := by
    have hok := h.clients c client hc
    refine { hok with stored := fun k hk => ?_ }
    have hlt := hok.stored k hk
    show k < s.nextConn + 1
    omega
  absent := h.absent
  numbered k := by
    show (Function.update s.conns s.nextConn (some conn) k).isSome = true ↔ k < s.nextConn + 1
    by_cases hk : k = s.nextConn
    · subst hk
      simp
    · rw [Function.update_of_ne hk, h.numbered]
      omega

theorem accept_spec (h : s.Ok) (writeComplete : Bool) :
    Yields (fun f => f.ofLifetime = false) Ok (s.accept writeComplete) := by
  unfold accept
  rw [newConnection_eq]
  have hserver : Ok { s with server := s.nextConn :: s.server } :=
    h.quiet ⟨rfl, fun _ => rfl, rfl, fun _ => rfl⟩
  exact yields_ok (hserver.newConnection _ _)

theorem connectorEvent_spec (h : s.Ok) (hc : s.clients c = some client) (revents : Finset Poll)
    (soError : ℕ) (selfConnect : Bool)
    (he : client.connector_.Enabled (.handleEvent revents soError selfConnect)) :
    Yields (fun f => f.ofLifetime = false) Ok
      (s.connectorEvent c revents soError selfConnect) := by
  have hok := h.clients c client hc
  have hwait : client.connector_.activity = .waiting := he.2.2.1
  obtain ⟨halive, hnone⟩ := hok.of_poller (hok.inv.waiting hwait)
  unfold connectorEvent
  rw [hc]
  refine Yields.bind ((onConnector_spec hc hok he (by simp)).mono ?_ (fun _ => id)) ?_
  · rintro f ⟨e, rfl⟩
    rfl
  · rintro s₁ ⟨t, ht, hstep, hm⟩
    have hmoved : ClientOk { client with connector_ := t } t.resets s.nextConn :=
      hok.moved halive hstep (by simp) (by simp) (fun hconn => absurd hnone hconn)
    have hok₁ := h.moves hm hmoved
    have hc₁ : s₁.clients c = some { client with connector_ := t } := by
      rw [hm.clients, Function.update_self]
    rw [hc₁]
    dsimp only
    by_cases hhanded : t.handed = client.connector_.handed
    · rw [if_pos hhanded]
      exact yields_pure hok₁
    · rw [if_neg hhanded]
      have hstate := (hstep.handed.resolve_left hhanded).1
      rw [check_of halive, ok_bind, newConnection_eq]
      have hnext := hok₁.newConnection
        { tcp := established client.writeCompleteCallback_, client := some c,
          closeCallback_ := .client c, users := 0, destroyed := false }
        (.connecting (some c) s₁.nextConn)
      refine yields_ok (hnext.setClient (c := c) ?_)
      have hnew := hnext.clients c _ hc₁
      refine { hnew with connected := fun _ _ => hstate, stored := fun k hk => ?_ }
      obtain rfl : s₁.nextConn = k := by simpa using hk
      exact Nat.lt_succ_self _

end Creation

section Release

variable {client' : TcpClient}

/-- A client that is not alive any more, with a connector that has other owners now. -/
theorem ClientOk.left (h : ClientOk client n next) {timers : List ℕ} {owned alive : Bool}
    (hconnector : client'.connector_ =
      { client.connector_ with timers := timers, owned := owned, alive := alive })
    (hgone : client'.alive = false) (htimer : client'.timer = owned)
    (hconnection : client'.connection_ = client.connection_)
    (hpoller : client.connector_.poller = [])
    (hconnect : client.connector_.connect_ = false ∨ client.connector_.state_ = .kConnected)
    (halive : alive = true ↔ owned = true ∨ timers ≠ [])
    (hempty : alive = false → client.connector_.channel_ = none) :
    ClientOk client' n next where
  inv := by
    rw [hconnector]
    exact { h.inv with }
  outside := by
    rw [hconnector]
    exact h.outside
  sound := by
    rw [hconnector]
    exact h.sound
  resets := by
    rw [hconnector]
    exact h.resets
  owned := by simp [hconnector, hgone, htimer]
  timed _ := hgone
  alive := by
    rw [hconnector]
    exact halive
  empty := by
    rw [hconnector]
    exact hempty
  connected hlive := by cases hgone.symm.trans hlive
  dead _ := by
    rw [hconnector]
    exact ⟨hpoller, hconnect⟩
  stored := by
    rw [hconnection]
    exact h.stored

/-- The destructor of a connector whose last owner has gone. -/
theorem dropConnector_spec (h : s.Ok)
    (hclients : s'.clients = Function.update s.clients c (some client'))
    (hresets : ∀ d, s'.resetsOf d = s.resetsOf d) (hnext : s'.nextConn = s.nextConn)
    (hconns : ∀ k, (s'.conns k).isSome = (s.conns k).isSome)
    (hlive : client'.connector_.alive = true)
    (hok : ∀ b, (b = true ↔ client'.connector_.Held) →
      (b = false → client'.connector_.channel_ = none) →
      ClientOk { client' with connector_ := { client'.connector_ with alive := b } }
        (s.resetsOf c) s.nextConn) :
    Yields (fun f => f.ofLifetime = true →
      ¬ client'.connector_.Held ∧ client'.connector_.channel_ ≠ none) Ok (s'.dropConnector c) := by
  have hc : s'.clients c = some client' := by rw [hclients, Function.update_self]
  unfold dropConnector
  rw [hc]
  dsimp only
  by_cases hheld : client'.connector_.Held
  · rw [if_pos hheld]
    have hsame : { client' with connector_ := { client'.connector_ with alive := true } } =
        client' := by rw [← hlive]
    have hclient := hok true (iff_of_true rfl hheld) (by simp)
    rw [hsame, ← hresets] at hclient
    exact yields_pure (h.update hclients (fun d _ => hresets d) hnext hconns hclient)
  · rw [if_neg hheld]
    by_cases hnone : client'.connector_.channel_ = none
    · simp only [Connector.destroy, check_of hnone, ok_bind]
      have hclient := hok false (iff_of_false (by simp) hheld) (fun _ => hnone)
      rw [← hresets] at hclient
      refine yields_pure (h.update ?_ (fun d _ => hresets d) hnext hconns hclient)
      show Function.update s'.clients c _ = _
      rw [hclients, Function.update_idem]
    · simp only [Connector.destroy, check, if_neg hnone]
      exact fun _ => ⟨hheld, hnone⟩

/-- The step that gives up the last `shared_ptr` of a connector finds its channel reset. -/
def Resets (s : ClientLoop) : ClientStep → Prop
  | .destroyClient c => ∀ client ∈ s.clients c, client.connection_ ≠ none →
      client.connector_.timers = [] → client.connector_.channel_ = none
  | .removeConnector c => ∀ client ∈ s.clients c,
      client.connector_.timers = [] → client.connector_.channel_ = none
  | .retryTimer c delay _ => ∀ client ∈ s.clients c, client.connector_.owned = false →
      client.connector_.timers.erase delay = [] → client.connector_.state_ = .kDisconnected →
      client.connector_.channel_ = none
  | _ => True

/-- A client whose connector was stopped leaves it to the timer of `removeConnector`. -/
theorem ClientOk.stopped (h : ClientOk client n next) (halive : client.alive = true)
    (hs : client.connector_.Stepped .stop t) (ht : client.connector_.step .stop = .ok t) :
    ClientOk { client with connector_ := t, alive := false, timer := true } t.resets next := by
  obtain ⟨hlive, howned⟩ := h.enabled halive
  have howned' : t.owned = true := (hs.owned (by simp)).trans howned
  have hlive' : t.alive = true := (hs.alive (by simp)).trans hlive
  obtain ⟨hconnect, hpoller⟩ := h.inv.stopped h.sound ht
  constructor
  · exact hs.inv
  · exact hs.outside
  · exact hs.sound h.sound (by simp)
  · rfl
  · simp [howned']
  · exact fun _ => rfl
  · exact iff_of_true hlive' (Or.inl howned')
  · intro hdead
    cases hlive'.symm.trans hdead
  · intro hdead
    cases hdead
  · exact fun _ => ⟨hpoller, Or.inl hconnect⟩
  · exact h.stored

theorem destroyClient_spec (h : s.Ok) (hc : s.clients c = some client)
    (halive : client.alive = true) :
    Yields (fun f => f.ofLifetime = true → ¬ s.Resets (.destroyClient c)) Ok
      (s.destroyClient c) := by
  have hok := h.clients c client hc
  obtain ⟨hlive, howned⟩ := hok.enabled halive
  unfold destroyClient
  rw [hc]
  dsimp only
  cases hconn : client.connection_ with
  | none =>
    have he : client.connector_.Enabled .stop := ⟨hlive, howned⟩
    refine Yields.bind ((onConnector_spec hc hok he (by simp)).mono ?_ (fun _ => id)) ?_
    · rintro f ⟨e, rfl⟩ hf
      cases hf
    · rintro s₁ ⟨t, ht, hstep, hm⟩
      have hc₁ : s₁.clients c = some { client with connector_ := t } := by
        rw [hm.clients, Function.update_self]
      unfold onClient
      rw [hc₁]
      have hclients : (s₁.setClient c
          { client with connector_ := t, alive := false, timer := true }).clients =
          Function.update s.clients c (some
            { client with connector_ := t, alive := false, timer := true }) := by
        show Function.update s₁.clients c _ = _
        rw [hm.clients, Function.update_idem]
      refine yields_pure (h.update hclients hm.others hm.next (fun k => ?_) ?_)
      · show (s₁.conns k).isSome = _
        rw [hm.conns]
      · have hresets : (s₁.setClient c
            { client with connector_ := t, alive := false, timer := true }).resetsOf c = t.resets :=
          hm.resets
        rw [hresets]
        exact hok.stopped halive hstep ht
  | some k =>
    have hk : (s.conns k).isSome = true := (h.numbered k).mpr (hok.stored k (by simp [hconn]))
    obtain ⟨conn, hk⟩ := Option.isSome_iff_exists.mp hk
    dsimp only
    rw [hk]
    dsimp only
    have hstate := hok.connected halive (by simp [hconn])
    have htimer : client.timer = false := by
      by_contra htimed
      cases halive.symm.trans (hok.timed (by simpa using htimed))
    have hquiet : Quiet s (s.setConn k { conn with closeCallback_ := .detail }) :=
      quiet_setConn hk
    have hclients : ((s.setConn k { conn with closeCallback_ := .detail }).setClient c
        { client with
          connection_ := some k
          alive := false
          connector_ := { client.connector_ with owned := false } }).clients =
        Function.update s.clients c (some { client with
          connection_ := some k
          alive := false
          connector_ := { client.connector_ with owned := false } }) := rfl
    refine (dropConnector_spec h hclients (fun _ => rfl) rfl hquiet.conns hlive
      fun b hb hempty => ?_).mono ?_ (fun _ => id)
    · refine hok.left rfl rfl htimer hconn.symm (hok.inv.connected hstate) (Or.inr hstate) ?_ hempty
      rw [hb]
      rfl
    · intro f hf hlife hresets
      obtain ⟨hheld, hset⟩ := hf hlife
      have htimers : client.connector_.timers = [] := by
        simpa [Connector.Held] using hheld
      exact hset (hresets client hc (by simp [hconn]) htimers)

theorem removeConnector_spec (h : s.Ok) (hc : s.clients c = some client)
    (htimer : client.timer = true) :
    Yields (fun f => f.ofLifetime = true → ¬ s.Resets (.removeConnector c)) Ok
      (s.act (.removeConnector c)) := by
  have hok := h.clients c client hc
  have hgone : client.alive = false := hok.timed htimer
  have hlive : client.connector_.alive = true :=
    hok.alive.mpr (Or.inl (hok.owned.mpr (Or.inr htimer)))
  obtain ⟨hpoller, hconnect⟩ := hok.dead hgone
  show Yields _ _ (s.onClient c _ >>= fun s => s.dropConnector c)
  unfold onClient
  rw [hc]
  show Yields _ _ (ClientLoop.dropConnector (s.setClient c _) c)
  have hclients : (s.setClient c { client with
      timer := false
      connector_ := { client.connector_ with owned := false } }).clients =
      Function.update s.clients c (some { client with
        timer := false
        connector_ := { client.connector_ with owned := false } }) := rfl
  refine (dropConnector_spec h hclients (fun _ => rfl) rfl (fun _ => rfl) hlive
    fun b hb hempty => ?_).mono ?_ (fun _ => id)
  · refine hok.left rfl hgone rfl rfl hpoller hconnect ?_ hempty
    rw [hb]
    rfl
  · intro f hf hlife hresets
    obtain ⟨hheld, hset⟩ := hf hlife
    have htimers : client.connector_.timers = [] := by
      simpa [Connector.Held] using hheld
    exact hset (hresets client hc htimers)

/-- A retry timer of a client that has gone does nothing but end. -/
theorem startInLoop_dead {delay : ℕ} {result : ConnectResult}
    (hconnect : client.connector_.connect_ = false ∨ client.connector_.state_ = .kConnected)
    (hs : client.connector_.step (.startInLoop delay result) = .ok t) :
    t = { client.connector_ with timers := client.connector_.timers.erase delay } ∧
      client.connector_.state_ = .kDisconnected := by
  have hstate : client.connector_.state_ = .kDisconnected := Connector.startInLoop_state
    (s := { client.connector_ with timers := client.connector_.timers.erase delay }) hs
  have hoff : client.connector_.connect_ = false := by
    refine hconnect.resolve_right ?_
    intro hconnected
    cases hstate.symm.trans hconnected
  have hcall : client.connector_.step (.startInLoop delay result) =
      .ok { client.connector_ with timers := client.connector_.timers.erase delay } := by
    simp [Connector.step, Connector.startInLoop, hstate, hoff, check_of, pure, Except.pure]
  exact ⟨Except.ok.inj (hs.symm.trans hcall), hstate⟩

theorem retryTimer_spec (h : s.Ok) (hc : s.clients c = some client) {delay : ℕ}
    {result : ConnectResult} (he : client.connector_.Enabled (.startInLoop delay result)) :
    Yields (fun f => f.ofLifetime = true → ¬ s.Resets (.retryTimer c delay result)) Ok
      (s.act (.retryTimer c delay result)) := by
  have hok := h.clients c client hc
  show Yields _ _ (s.onConnector c _ >>= fun s => s.dropConnector c)
  refine Yields.bind ((onConnector_spec hc hok he (by simp)).mono ?_ (fun _ => id)) ?_
  · rintro f ⟨e, rfl⟩ hf
    cases hf
  · rintro s₁ ⟨t, ht, hstep, hm⟩
    have hlive : t.alive = true := (hstep.alive (by simp)).trans he.1
    have hconns : ∀ k, (s₁.conns k).isSome = (s.conns k).isSome := fun k => by rw [hm.conns]
    by_cases halive : client.alive = true
    · have hheld : t.Held :=
        Or.inl ((hstep.owned (by simp)).trans (hok.owned.mpr (Or.inl halive)))
      have hdrop : s₁.dropConnector c = .ok s₁ := by
        simp [dropConnector, hm.clients, hheld, pure, Except.pure]
      rw [hdrop]
      refine yields_ok (h.moves hm (hok.moved halive hstep (by simp) (by simp) fun hconn => ?_))
      exact hok.inv.stays_connected he ht (by simp) (hok.connected halive hconn)
    · have hgone : client.alive = false := by simpa using halive
      obtain ⟨hpoller, hconnect⟩ := hok.dead hgone
      obtain ⟨rfl, hstate⟩ := startInLoop_dead hconnect ht
      have hresets : ∀ d, s₁.resetsOf d = s.resetsOf d := by
        intro d
        by_cases hd : d = c
        · rw [hd, hm.resets]
          exact hok.resets
        · exact hm.others d hd
      have htimer : client.timer = client.connector_.owned := by
        have hiff := hok.owned
        rw [hgone] at hiff
        cases howned : client.connector_.owned <;> simp_all
      refine (dropConnector_spec h hm.clients hresets hm.next hconns hlive
        fun b hb hempty => ?_).mono ?_ (fun _ => id)
      · refine hok.left rfl hgone htimer rfl hpoller hconnect ?_ hempty
        rw [hb]
        rfl
      · intro f hf hlife hmeets
        obtain ⟨hheld, hset⟩ := hf hlife
        obtain ⟨howned, htimers⟩ := not_or.mp hheld
        exact hset (hmeets client hc (by simpa using howned) (not_not.mp htimers) hstate)

end Release

end ClientLoop

end MuduoServer
