import MuduoServer.ConnectorSockets
import MuduoServer.TcpClient

/-!
The connectors of the clients of one loop. What is queued to reset a channel agrees with
the connector it is for, so no such functor outlives its connector as long as no connector
is destroyed with its channel. That happens only where the last `shared_ptr` is given up:
in the destructor of a client that has a connection, and when a timer has expired.
-/
namespace MuduoServer

open FaultMachine

namespace ClientLoop

variable {s s' s'' : ClientLoop} {c : ℕ} {client : TcpClient}

/-- How many times `resetChannel` is queued for the connector of client `c`. -/
def resetsOf (s : ClientLoop) (c : ℕ) : ℕ := s.functors.contents.count (.resetChannel c)

/-- A client, of whose connector `n` resets are queued when there are `next` connections. -/
structure ClientOk (client : TcpClient) (n next : ℕ) : Prop where
  inv : client.connector_.Inv
  outside : client.connector_.activity ≠ .handling
  sound : client.connector_.Sound
  resets : client.connector_.resets = n
  owned : client.connector_.owned = true ↔ client.alive = true ∨ client.timer = true
  timed : client.timer = true → client.alive = false
  alive : client.connector_.alive = true ↔ client.connector_.Held
  empty : client.connector_.alive = false → client.connector_.channel_ = none
  connected : client.alive = true → client.connection_ ≠ none →
    client.connector_.state_ = .kConnected
  dead : client.alive = false → client.connector_.poller = [] ∧
    (client.connector_.connect_ = false ∨ client.connector_.state_ = .kConnected)
  stored : ∀ k ∈ client.connection_, k < next

structure Ok (s : ClientLoop) : Prop where
  clients : ∀ c client, s.clients c = some client → ClientOk client (s.resetsOf c) s.nextConn
  absent : ∀ c, s.clients c = none → s.resetsOf c = 0
  numbered : ∀ k, (s.conns k).isSome = true ↔ k < s.nextConn

/-- Neither the clients nor the queued resets are touched, and no connection is new. -/
structure Quiet (s s' : ClientLoop) : Prop where
  clients : s'.clients = s.clients
  resets : ∀ c, s'.resetsOf c = s.resetsOf c
  next : s'.nextConn = s.nextConn
  conns : ∀ k, (s'.conns k).isSome = (s.conns k).isSome

theorem start_ok : Ok start where
  clients c client h := by cases h
  absent c _ := rfl
  numbered k := by simp [start]

theorem Quiet.refl (s : ClientLoop) : Quiet s s := ⟨rfl, fun _ => rfl, rfl, fun _ => rfl⟩

theorem Quiet.trans (h : Quiet s s') (h' : Quiet s' s'') : Quiet s s'' where
  clients := h'.clients.trans h.clients
  resets c := (h'.resets c).trans (h.resets c)
  next := h'.next.trans h.next
  conns k := (h'.conns k).trans (h.conns k)

theorem Ok.quiet (h : s.Ok) (hq : Quiet s s') : s'.Ok where
  clients c client hc := by
    rw [hq.clients] at hc
    rw [hq.resets, hq.next]
    exact h.clients c client hc
  absent c hc := by
    rw [hq.clients] at hc
    rw [hq.resets]
    exact h.absent c hc
  numbered k := by
    rw [hq.conns, hq.next]
    exact h.numbered k

/-- One client is changed, and only its resets. -/
theorem Ok.update (h : s.Ok) {client' : TcpClient}
    (hclients : s'.clients = Function.update s.clients c (some client'))
    (hresets : ∀ d, d ≠ c → s'.resetsOf d = s.resetsOf d) (hnext : s'.nextConn = s.nextConn)
    (hconns : ∀ k, (s'.conns k).isSome = (s.conns k).isSome)
    (hok : ClientOk client' (s'.resetsOf c) s.nextConn) : s'.Ok where
  clients d client hd := by
    rw [hclients] at hd
    by_cases hdc : d = c
    · subst hdc
      rw [Function.update_self, Option.some.injEq] at hd
      rw [hnext, ← hd]
      exact hok
    · rw [Function.update_of_ne hdc] at hd
      rw [hnext, hresets d hdc]
      exact h.clients d client hd
  absent d hd := by
    rw [hclients] at hd
    by_cases hdc : d = c
    · subst hdc
      simp at hd
    · rw [Function.update_of_ne hdc] at hd
      rw [hresets d hdc]
      exact h.absent d hd
  numbered k := by
    rw [hconns, hnext]
    exact h.numbered k

theorem Ok.fresh (h : s.Ok) : s.conns s.nextConn = none := by
  by_contra hsome
  have hlt := (h.numbered s.nextConn).mp (Option.isSome_iff_ne_none.mpr hsome)
  omega

theorem Ok.setClient (h : s.Ok) {client' : TcpClient}
    (hok : ClientOk client' (s.resetsOf c) s.nextConn) : (s.setClient c client').Ok :=
  h.update rfl (fun _ _ => rfl) rfl (fun _ => rfl) hok

section Quiet

theorem resetsOf_push (f : ClientFunctor) :
    (s.push f).resetsOf c = s.resetsOf c + if f = .resetChannel c then 1 else 0 := by
  simp [resetsOf, push, List.count_singleton]

theorem quiet_push {f : ClientFunctor} (hf : ∀ c, f ≠ .resetChannel c) : Quiet s (s.push f) where
  clients := rfl
  resets c := by rw [resetsOf_push, if_neg (hf c), Nat.add_zero]
  next := rfl
  conns _ := rfl

theorem quiet_setConn {k : ℕ} {conn conn' : ClientConnection} (hk : s.conns k = some conn) :
    Quiet s (s.setConn k conn') where
  clients := rfl
  resets _ := rfl
  next := rfl
  conns j := by
    by_cases hj : j = k
    · subst hj
      simp [setConn, hk]
    · simp [setConn, Function.update_of_ne hj]

theorem quiet_running (running : Running) : Quiet s { s with running := running } :=
  ⟨rfl, fun _ => rfl, rfl, fun _ => rfl⟩

/-- Queued callbacks of the user are no resets. -/
theorem count_foldl_push (fs : List ClientFunctor) (q : BatchQueue ClientFunctor)
    (hfs : ∀ f ∈ fs, ∀ c, f ≠ .resetChannel c) (c : ℕ) :
    (fs.foldl BatchQueue.push q).contents.count (.resetChannel c) =
      q.contents.count (.resetChannel c) := by
  induction fs generalizing q with
  | nil => rfl
  | cons f fs ih =>
    have hf : f ≠ .resetChannel c := hfs f List.mem_cons_self c
    rw [List.foldl_cons, ih _ fun g hg => hfs g (List.mem_cons_of_mem _ hg)]
    simp [hf]

theorem userCallbacks_ne {k : ℕ} {t t' : TcpConnection} {f : ClientFunctor}
    (hf : f ∈ userCallbacks k t t') : f = .userCallback k := by
  obtain ⟨n, -, hn⟩ := List.mem_filterMap.mp hf
  cases n <;> simp_all

theorem onConn_quiet {k : ℕ} {g : TcpConnection → Except TcpConnection.Fault TcpConnection}
    (h : s.onConn k g = .ok s') : Quiet s s' := by
  unfold onConn at h
  split at h
  · cases h
  · rename_i conn hk
    simp only [bind_eq_ok, mapError_ok_iff, pure_eq_ok] at h
    obtain ⟨t, -, rfl⟩ := h
    refine ⟨rfl, fun c => ?_, rfl, (quiet_setConn hk).conns⟩
    refine count_foldl_push _ _ (fun f hf c => ?_) c
    rw [userCallbacks_ne hf]
    simp

theorem onConn_yields {k : ℕ} {g : TcpConnection → Except TcpConnection.Fault TcpConnection} :
    Yields (fun f => f = .noObject ∨ ∃ e, f = .conn e) (Quiet s) (s.onConn k g) := by
  cases h : s.onConn k g with
  | ok s' => exact onConn_quiet h
  | error f =>
    unfold onConn at h
    split at h
    · cases h
      exact Or.inl rfl
    · rename_i conn hk
      cases hg : g conn.tcp with
      | ok t =>
        rw [hg] at h
        cases h
      | error e =>
        rw [hg] at h
        cases h
        exact Or.inr ⟨e, rfl⟩

end Quiet

end ClientLoop

namespace Connector

variable {s t : Connector} {a : ConnectorStep}

theorem startInLoop_state {result : ConnectResult} (h : s.startInLoop result = .ok t) :
    s.state_ = .kDisconnected := by
  simp only [startInLoop, bind_eq_ok, check_eq_ok] at h
  obtain ⟨-, hstate, -⟩ := h
  exact hstate

/-- Only a restart leaves `kConnected`. -/
theorem Inv.stays_connected (h : Inv s) (he : s.Enabled a) (hs : s.step a = .ok t)
    (ha : ∀ result, a ≠ .restart result) (hstate : s.state_ = .kConnected) :
    t.state_ = .kConnected := by
  cases a with
  | restart result => exact absurd rfl (ha result)
  | start result =>
    have hdisconnected := startInLoop_state (s := { s with connect_ := true }) hs
    cases hstate.symm.trans hdisconnected
  | startInLoop delay result =>
    have hdisconnected :=
      startInLoop_state (s := { s with timers := s.timers.erase delay }) hs
    cases hstate.symm.trans hdisconnected
  | stop =>
    simp only [Connector.step, stop, stopInLoop, hstate, reduceCtorEq, if_false, pure_eq_ok] at hs
    rw [← hs]
  | handleEvent revents soError selfConnect =>
    obtain ⟨-, -, hwait, -⟩ := he
    exact absurd (h.connected hstate) (h.waiting hwait)
  | resetChannel | poll | endOfEvents | release =>
    obtain rfl := pure_eq_ok.mp hs
    exact hstate
  | destroy =>
    simp only [Connector.step, destroy, bind_eq_ok, check_eq_ok, pure_eq_ok] at hs
    obtain ⟨-, -, rfl⟩ := hs
    exact hstate

/-- After `stop` a sound connector has nothing in the poller and does not connect. -/
theorem Inv.stopped (h : Inv s) (hsound : s.Sound) (hs : s.step .stop = .ok t) :
    t.connect_ = false ∧ t.poller = [] := by
  have hinv : Inv { s with connect_ := false } := { h with }
  have hafter := (stopInLoop_spec (p := False) hinv).of_ok hs
  refine ⟨hafter.connect, ?_⟩
  rcases hafter.channel with hnil | hconnecting | ⟨hpoller, hstate⟩
  · exact hnil
  · -- a connector that was connecting is disconnected now
    by_cases hstate : s.state_ = .kConnecting
    · simp only [Connector.step, stop, stopInLoop, hstate, if_true, bind_eq_ok, pure_eq_ok] at hs
      obtain ⟨removed, -, rfl⟩ := hs
      rw [retry_eq] at hconnecting
      cases hconnecting
    · simp only [Connector.step, stop, stopInLoop, hstate, if_false, pure_eq_ok] at hs
      rw [← hs] at hconnecting
      exact absurd hconnecting hstate
  · by_contra hne
    rw [hpoller] at hne
    have hconnecting : s.state_ = .kConnecting := hsound hne
    simp only [Connector.step, stop, stopInLoop, hconnecting, if_true, bind_eq_ok, pure_eq_ok] at hs
    obtain ⟨removed, -, rfl⟩ := hs
    rw [retry_eq] at hstate
    cases hstate.trans hconnecting

end Connector

namespace ClientLoop

variable {s s' : ClientLoop} {c n next : ℕ} {client : TcpClient} {t : Connector}
  {a : ConnectorStep}

/-- The connector of client `c` has become `t`, and a reset may have been queued. -/
structure Moves (s : ClientLoop) (c : ℕ) (client : TcpClient) (t : Connector) (s' : ClientLoop) :
    Prop where
  clients : s'.clients = Function.update s.clients c (some { client with connector_ := t })
  resets : s'.resetsOf c = t.resets
  others : ∀ d, d ≠ c → s'.resetsOf d = s.resetsOf d
  conns : s'.conns = s.conns
  next : s'.nextConn = s.nextConn
  server : s'.server = s.server
  running : s'.running = s.running
  functors : ∀ f, (∀ d, f ≠ .resetChannel d) →
    (f ∈ s'.functors.contents ↔ f ∈ s.functors.contents)

theorem onConnector_ok (hc : s.clients c = some client) (hs : client.connector_.step a = .ok t) :
    s.onConnector c a = .ok
      (if client.connector_.resets < t.resets then
        (s.setClient c { client with connector_ := t }).push (.resetChannel c)
      else s.setClient c { client with connector_ := t }) := by
  simp [onConnector, hc, hs, pure, Except.pure]

theorem onConnector_spec (hc : s.clients c = some client) (hok : ClientOk client (s.resetsOf c) next)
    (he : client.connector_.Enabled a) (ha : a ≠ .resetChannel) :
    Yields (fun f => ∃ e, f = .connector e)
      (fun s' => ∃ t, client.connector_.step a = .ok t ∧ client.connector_.Stepped a t ∧
        Moves s c client t s') (s.onConnector c a) := by
  cases hs : client.connector_.step a with
  | error e =>
    have herror : s.onConnector c a = .error (.connector e) := by
      simp [onConnector, hc, hs, Except.mapError, bind, Except.bind]
    rw [herror]
    exact ⟨e, rfl⟩
  | ok t =>
    have hstep := (hok.inv.step hok.outside he).of_ok hs
    have hresets := hok.resets
    rw [onConnector_ok hc hs]
    refine yields_ok ⟨t, rfl, hstep, ?_⟩
    rcases hstep.resets ha with hsame | hmore
    · rw [if_neg (by omega)]
      exact ⟨rfl, hresets.symm.trans hsame.symm, fun _ _ => rfl, rfl, rfl, rfl, rfl,
        fun _ _ => Iff.rfl⟩
    · rw [if_pos (by omega)]
      refine ⟨rfl, ?_, fun d hd => ?_, rfl, rfl, rfl, rfl, fun f hf => ?_⟩
      · rw [resetsOf_push, if_pos rfl, hmore, hresets]
        rfl
      · rw [resetsOf_push, if_neg (by simpa using Ne.symm hd)]
        rfl
      · simp [push, setClient, hf c]

theorem Ok.moves (h : s.Ok) (hm : Moves s c client t s')
    (hok : ClientOk { client with connector_ := t } t.resets s.nextConn) : s'.Ok := by
  refine h.update hm.clients hm.others hm.next (fun k => by rw [hm.conns]) ?_
  rw [hm.resets]
  exact hok

/-- The assertions of `~Channel` and `~Connector`, and a reset of a connector that is gone. -/
def Fault.ofLifetime : Fault → Bool
  | .channelHandling | .connectorChannel | .resetAfterDestroy => true
  | .connector _ | .conn _ | .channelGone | .clientGone | .notConnection | .noObject => false

/-- A client that is alive keeps its invariant in a step of its connector. -/
theorem ClientOk.moved (h : ClientOk client n next) (halive : client.alive = true)
    (hs : client.connector_.Stepped a t) (ha : a ≠ .release ∧ a ≠ .destroy)
    (hrestart : ∀ result, a = .restart result → client.connector_.state_ ≠ .kConnecting)
    (hconnected : client.connection_ ≠ none → t.state_ = .kConnected) :
    ClientOk { client with connector_ := t } t.resets next := by
  have howned : client.connector_.owned = true := h.owned.mpr (Or.inl halive)
  have hheld : t.Held := Or.inl ((hs.owned ha.1).trans howned)
  have hlive : t.alive = true := (hs.alive ha.2).trans (h.alive.mpr (Or.inl howned))
  constructor
  · exact hs.inv
  · exact hs.outside
  · exact hs.sound h.sound hrestart
  · rfl
  · rw [show t.owned = _ from hs.owned ha.1]
    exact h.owned
  · exact h.timed
  · exact iff_of_true hlive hheld
  · intro hdead
    cases hlive.symm.trans hdead
  · intro _ hconn
    exact hconnected hconn
  · intro hdead
    cases halive.symm.trans hdead
  · exact h.stored

theorem ClientOk.enabled (h : ClientOk client n next) (halive : client.alive = true) :
    client.connector_.alive = true ∧ client.connector_.owned = true := by
  have howned : client.connector_.owned = true := h.owned.mpr (Or.inl halive)
  exact ⟨h.alive.mpr (Or.inl howned), howned⟩

/-- Something registered means that the client is there and has no connection. -/
theorem ClientOk.of_poller (h : ClientOk client n next) (hne : client.connector_.poller ≠ []) :
    client.alive = true ∧ client.connection_ = none := by
  have halive : client.alive = true := by
    by_contra hdead
    exact hne (h.dead (by simpa using hdead)).1
  refine ⟨halive, ?_⟩
  by_contra hconn
  exact hne (h.inv.connected (h.connected halive hconn))

/-- A call of a client that is alive on its connector. -/
theorem onConnector_alive (h : s.Ok) (hc : s.clients c = some client)
    (halive : client.alive = true) (he : client.connector_.Enabled a)
    (ha : a ≠ .resetChannel ∧ a ≠ .release ∧ a ≠ .destroy)
    (hrestart : ∀ result, a = .restart result → client.connection_ = none ∧
      client.connector_.state_ ≠ .kConnecting) :
    Yields (fun f => f.ofLifetime = false) Ok (s.onConnector c a) := by
  have hok := h.clients c client hc
  refine (onConnector_spec hc hok he ha.1).mono ?_ ?_
  · rintro f ⟨e, rfl⟩
    rfl
  · rintro s' ⟨t, ht, hstep, hm⟩
    refine h.moves hm (hok.moved halive hstep ha.2 (fun r hr => (hrestart r hr).2) ?_)
    intro hconn
    refine hok.inv.stays_connected he ht ?_ (hok.connected halive hconn)
    intro r hr
    exact hconn (hrestart r hr).1

end ClientLoop

end MuduoServer
