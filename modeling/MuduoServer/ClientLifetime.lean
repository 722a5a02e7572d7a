import MuduoServer.ClientHandlers

/-!
The user's calls, the functors and the creation of connections of clients, and with the
handlers every step. A channel of a destroyed connection is out of the poller in the runs of
which no step gives up the last pointer to a connection that is not closed.
-/
namespace MuduoServer

open FaultMachine FaultMachine.Machine

namespace ClientLoop

variable {s s' : ClientLoop} {c k : ℕ} {client : TcpClient} {conn : ClientConnection}
  {a : ClientStep}

/-- The user has more or fewer pointers, or the close callback is another one. -/
theorem ConnsOk.setConn (h : s.ConnsOk) (hk : s.conns k = some conn) {conn' : ClientConnection}
    (htcp : conn'.tcp = conn.tcp) (hdestroyed : conn'.destroyed = conn.destroyed)
    (hkept : conn.tcp.state_ ≠ .kDisconnected → s.Kept k conn') : (s.setConn k conn').ConnsOk := by
  refine h.update rfl (fun j _ => sees_of_eq rfl id id Iff.rfl Iff.rfl id) ?_
  exact (h.conns k conn hk).keep htcp hdestroyed hkept Iff.rfl Iff.rfl id

theorem hold_connsOk (h : s.ConnsOk) (hs : s.act (.hold k) = .ok s') : s'.ConnsOk := by
  simp only [act] at hs
  split at hs
  · cases hs
  · rename_i conn hk
    obtain rfl := pure_eq_ok.mp hs
    exact h.setConn hk rfl rfl fun _ => Or.inl (Nat.succ_pos _)

theorem drop_connsOk (h : s.ConnsOk) (hkeep : s.Retains (.drop k))
    (hs : s.act (.drop k) = .ok s') : s'.ConnsOk := by
  simp only [act] at hs
  split at hs
  · cases hs
  · rename_i conn hk
    obtain rfl := pure_eq_ok.mp hs
    refine h.setConn hk rfl rfl fun hup => ?_
    rcases (hkeep conn hk).resolve_left hup with husers | hkept | hused
    · exact Or.inl (Nat.sub_pos_of_lt husers)
    · exact Or.inr (Or.inl hkept)
    · exact Or.inr (Or.inr hused)

theorem destroyClient_connsOk (h : s.ConnsOk) (hkeep : s.Retains (.destroyClient c))
    (hs : s.destroyClient c = .ok s') : s'.ConnsOk := by
  unfold destroyClient at hs
  split at hs
  · cases hs
  · rename_i client hc
    cases hconn : client.connection_ with
    | none =>
      simp only [hconn, bind_eq_ok] at hs
      obtain ⟨s₁, hstop, hs⟩ := hs
      obtain ⟨client₁, t, hc₁, hc', -, -, hframe⟩ := onConnector_cases hstop
      refine h.frame (hframe.trans (frame_onClient hs ?_))
      intro other hother _ hstored
      obtain rfl := Option.some.inj (hc.symm.trans hc₁)
      obtain rfl := Option.some.inj (hc'.symm.trans hother)
      exact absurd hconn hstored
    | some k =>
      simp only [hconn] at hs
      split at hs
      · cases hs
      · rename_i conn hk
        have hdetail : (s.setConn k { conn with closeCallback_ := .detail }).ConnsOk :=
          h.setConn hk rfl rfl fun hup => ((h.conns k conn hk).up hup).2
        refine ConnsOk.frame ?_ (frame_dropConnector hs)
        refine hdetail.focus (k := k) rfl (fun j hj => ?_) (fun conn' hk' => ?_) (hdetail.known k)
        · refine sees_client rfl rfl rfl rfl rfl fun other hother _ hstored => ?_
          obtain rfl := Option.some.inj (hc.symm.trans hother)
          exact absurd (Option.some.inj (hstored.symm.trans hconn)) hj
        · have hconn' : { conn with closeCallback_ := .detail } = conn' := by
            simpa [ClientLoop.setConn] using hk'
          subst hconn'
          refine (hdetail.conns k _ hk').keep rfl rfl (fun hup => ?_) Iff.rfl Iff.rfl id
          rcases (hkeep client hc k hconn conn hk).resolve_left hup with husers | hused
          · exact Or.inl husers
          · exact Or.inr (Or.inr hused)

theorem newConnection_connsOk (h : s.ConnsOk) {client? : Option ℕ} {callback : CloseCallback}
    {writeComplete : Bool} (hidle : s.running = .idle) (hfresh : s.conns s.nextConn = none)
    (howned : ∀ conn : ClientConnection, conn.client = client? → s.Owned s.nextConn conn)
    (hs : s.newConnection client? callback writeComplete = .ok s') : s'.ConnsOk := by
  rw [newConnection_eq, Except.ok.injEq] at hs
  subst hs
  have hfunctor : .connectDestroyed s.nextConn ∉ s.functors.contents := by
    intro hmem
    have hsome := h.known _ hmem
    rw [hfresh] at hsome
    cases hsome
  refine h.update (k := s.nextConn) rfl (fun j hj => ?_) ?_
  · refine sees_of_eq rfl id ?_ Iff.rfl ?_ ?_
    · refine Or.imp (fun hrunning => ?_) id
      rw [hidle] at hrunning
      cases hrunning
    · simp [hidle]
    · simp [Running.handling?]
  · constructor
    · intro hgone
      cases hgone
    · intro _
      exact ⟨rfl, Or.inr (Or.inl (howned _ rfl))⟩
    · intro hdown
      cases hdown
    · intro hh
      cases hh
    · intro hclosing
      obtain ⟨todo, htodo⟩ := hclosing
      cases htodo
    · intro hmem
      exact absurd hmem hfunctor

theorem accept_connsOk (h : s.ConnsOk) (hok : s.Ok) {writeComplete : Bool}
    (hidle : s.running = .idle) (hs : s.accept writeComplete = .ok s') : s'.ConnsOk := by
  unfold accept at hs
  have hserver : ConnsOk { s with server := s.nextConn :: s.server } := by
    refine h.same rfl fun j => ?_
    exact sees_of_eq rfl (List.mem_cons_of_mem _) id Iff.rfl Iff.rfl id
  refine newConnection_connsOk hserver hidle hok.fresh (fun _ _ => Or.inl ?_) hs
  exact List.mem_cons_self

theorem connectorEvent_connsOk (h : s.ConnsOk) (hok : s.Ok) {revents : Finset Poll} {soError : ℕ}
    {selfConnect : Bool} (hidle : s.running = .idle) (hc : s.clients c = some client)
    (he : client.connector_.Enabled (.handleEvent revents soError selfConnect))
    (hs : s.connectorEvent c revents soError selfConnect = .ok s') : s'.ConnsOk := by
  have hclient := hok.clients c client hc
  obtain ⟨halive, hnone⟩ := hclient.of_poller (hclient.inv.waiting he.2.2.1)
  unfold connectorEvent at hs
  rw [hc] at hs
  simp only [bind_eq_ok] at hs
  obtain ⟨s₁, hs₁, hs⟩ := hs
  obtain ⟨client₁, t, hc₁, hc', hrunning, hnext, hframe⟩ := onConnector_cases hs₁
  obtain rfl := Option.some.inj (hc.symm.trans hc₁)
  have h₁ := h.frame hframe
  rw [hc'] at hs
  dsimp only at hs
  split at hs
  · obtain rfl := pure_eq_ok.mp hs
    exact h₁
  · simp only [bind_eq_ok, check_eq_ok] at hs
    obtain ⟨-, -, hs⟩ := hs
    have hset : Frame s₁ (s₁.setClient c
        { client with connector_ := t, connection_ := some s₁.nextConn }) := by
      refine frame_setClient fun other hother _ hstored => ?_
      obtain rfl := Option.some.inj (hc'.symm.trans hother)
      exact absurd hnone hstored
    refine newConnection_connsOk (h₁.frame hset) (hrunning.trans hidle) ?_ ?_ hs
    · show s₁.conns s₁.nextConn = none
      rw [hframe.conns, hnext]
      exact hok.fresh
    · intro conn hmade
      exact Or.inr ⟨c, hmade, _, Function.update_self .., halive, rfl⟩

/-- A functor leaves the queue, and exists until the batch ends. -/
theorem sees_pop {f : ClientFunctor} {functors : BatchQueue ClientFunctor}
    (hpop : s.functors.pop? = some (f, functors)) (hclose : f ≠ .connectDestroyed k) :
    Sees s { s with functors := functors, ran := f :: s.ran } k := by
  have hcontents := BatchQueue.contents_pop hpop
  refine sees_of_eq rfl id ?_ ?_ Iff.rfl id
  · refine Or.imp id fun hmem => ?_
    rw [bound, hcontents] at hmem
    refine List.Perm.mem_iff ?_ |>.mp hmem
    exact List.perm_middle
  · rw [hcontents, List.mem_cons]
    exact (or_iff_right (Ne.symm hclose)).symm

theorem resetChannel_frame (h : s.resetChannel c = .ok s') : Frame s s' := by
  unfold ClientLoop.resetChannel at h
  split at h
  · cases h
  · rename_i client hc
    simp only [bind_eq_ok, check_eq_ok, pure_eq_ok] at h
    obtain ⟨-, -, -, -, rfl⟩ := h
    refine frame_setClient fun other hother halive _ => ?_
    obtain rfl := Option.some.inj (hc.symm.trans hother)
    exact ⟨halive, rfl⟩

theorem runFunctor_connsOk (h : s.ConnsOk) (hidle : s.running = .idle)
    (hs : s.runFunctor = .ok s') : s'.ConnsOk := by
  unfold runFunctor at hs
  split at hs
  · obtain rfl := pure_eq_ok.mp hs
    exact h
  · rename_i f functors hpop
    have hcontents := BatchQueue.contents_pop hpop
    cases f with
    | connectDestroyed k =>
      refine h.onConn hs rfl (fun j hj => ?_) fun conn t hk ht => ?_
      · exact sees_pop hpop (by simp [hj.symm])
      · have hdown := (h.conns k conn hk).functor (by simp [hcontents])
        obtain ⟨-, -, rfl⟩ := (TcpConnection.connectDestroyed_of_ne (by simp [hdown])).mp ht
        refine ⟨fun _ => rfl, fun hup => absurd hdown hup, ?_, ?_, fun _ => hdown, fun _ => hdown⟩
        · intro _ hadded
          cases hadded
        · intro hh
          simp [hidle, Running.handling?] at hh
    | resetChannel c =>
      have hpopped : ConnsOk { s with functors := functors, ran := .resetChannel c :: s.ran } :=
        h.same rfl fun j => sees_pop hpop (by simp)
      exact hpopped.frame (resetChannel_frame hs)
    | userCallback k =>
      obtain rfl := pure_eq_ok.mp hs
      have hpopped : ConnsOk { s with functors := functors, ran := .userCallback k :: s.ran } :=
        h.same rfl fun j => sees_pop hpop (by simp)
      refine hpopped.same rfl fun j => ?_
      refine sees_running ?_ ?_ ?_ <;> simp [hidle, Running.conn?, Running.handling?]

theorem swap_connsOk (h : s.ConnsOk) (hbatch : s.functors.batch = none) :
    ConnsOk { s with functors := s.functors.swap } := by
  have hcontents := BatchQueue.contents_swap hbatch
  refine h.same rfl fun j => sees_of_eq rfl id ?_ ?_ Iff.rfl id
  · unfold Used bound
    rw [hcontents]
    exact id
  · rw [hcontents]

/-- The functors of the batch are destroyed, and give up their pointers. -/
theorem finish_connsOk (h : s.ConnsOk) (hidle : s.running = .idle)
    (hbatch : s.functors.batch = some []) (hkeep : s.Retains .finish) :
    ConnsOk { s with functors := s.functors.finish, ran := [] } := by
  have hcontents := BatchQueue.contents_finish hbatch
  constructor
  · intro k conn hk
    refine (h.conns k conn hk).keep rfl rfl (fun hup => ?_) (by rw [hcontents]) Iff.rfl id
    have hqueue : .userCallback k ∈ s.functors.contents →
        Kept { s with functors := s.functors.finish, ran := [] } k conn := by
      intro hqueued
      refine Or.inr (Or.inr (Or.inr ?_))
      rw [bound, hcontents]
      exact hqueued
    rcases ((h.conns k conn hk).up hup).2 with hkept | hkept | hrunning | hbound
    · exact Or.inl hkept
    · exact Or.inr (Or.inl hkept)
    · rw [hidle] at hrunning
      cases hrunning
    · rcases List.mem_append.mp hbound with hran | hqueued
      · rcases (hkeep _ hran k rfl conn hk).resolve_left hup with hkept | hkept | hqueued
        · exact Or.inl hkept
        · exact Or.inr (Or.inl hkept)
        · exact hqueue hqueued
      · exact hqueue hqueued
  · intro k hk
    rw [hcontents] at hk
    exact h.known k hk

theorem act_connsOk (h : s.ConnsOk) (hok : s.Ok) (he : s.Enabled a) (hkeep : s.Retains a)
    (hs : s.act a = .ok s') : s'.ConnsOk := by
  cases a with
  | newClient c writeComplete =>
    obtain rfl := pure_eq_ok.mp hs
    refine h.frame (frame_setClient fun client hc _ _ => ?_)
    cases he.2.symm.trans hc
  | enableRetry c => exact h.frame (frame_onClient hs fun _ _ halive _ => ⟨halive, rfl⟩)
  | connect c result =>
    simp only [act, bind_eq_ok] at hs
    obtain ⟨s₁, hset, hs⟩ := hs
    have hframe := frame_onClient hset fun _ _ halive _ => ⟨halive, rfl⟩
    exact h.frame (hframe.trans (frame_onConnector hs))
  | stop c =>
    simp only [act, bind_eq_ok] at hs
    obtain ⟨s₁, hset, hs⟩ := hs
    have hframe := frame_onClient hset fun _ _ halive _ => ⟨halive, rfl⟩
    exact h.frame (hframe.trans (frame_onConnector hs))
  | disconnect c =>
    obtain ⟨-, client, hc, -⟩ := he
    have hset : Frame s (s.setClient c { client with connect_ := false }) := by
      refine frame_setClient fun other hother halive _ => ?_
      obtain rfl := Option.some.inj (hother.symm.trans hc)
      exact ⟨halive, rfl⟩
    simp only [act, disconnect, show s.clients c = some client from hc] at hs
    split at hs
    · obtain rfl := pure_eq_ok.mp hs
      exact h.frame hset
    · exact shutdown_connsOk (h.frame hset) hs
  | destroyClient c => exact destroyClient_connsOk h hkeep hs
  | hold k => exact hold_connsOk h hs
  | drop k => exact drop_connsOk h hkeep hs
  | send k data w => exact send_connsOk h hs
  | shutdown k => exact shutdown_connsOk h hs
  | accept writeComplete => exact accept_connsOk h hok he hs
  | retryTimer c delay result =>
    simp only [act, bind_eq_ok] at hs
    obtain ⟨s₁, hstart, hs⟩ := hs
    exact h.frame ((frame_onConnector hstart).trans (frame_dropConnector hs))
  | removeConnector c =>
    simp only [act, bind_eq_ok] at hs
    obtain ⟨s₁, hset, hs⟩ := hs
    have hframe := frame_onClient hset fun _ _ halive _ => ⟨halive, rfl⟩
    exact h.frame (hframe.trans (frame_dropConnector hs))
  | poll c => exact h.frame (frame_onConnector hs)
  | connectorEvent c revents soError selfConnect =>
    obtain ⟨hidle, client, hc, hevent⟩ := he
    exact connectorEvent_connsOk h hok hidle hc hevent hs
  | endOfEvents c => exact h.frame (frame_onConnector hs)
  | event k revents =>
    obtain ⟨hidle, conn, hk, hreports, -⟩ := he
    refine event_connsOk h hidle (fun conn' hk' => ?_) hs
    obtain rfl := Option.some.inj (hk.symm.trans hk')
    exact hreports
  | callback r w => exact callback_connsOk h hs
  | closeCallback result => exact closeCallback_connsOk h hs
  | callbackReturn =>
    obtain rfl := pure_eq_ok.mp hs
    exact callbackReturn_connsOk h he hkeep
  | endEvent =>
    obtain rfl := pure_eq_ok.mp hs
    exact endEvent_connsOk h he hkeep
  | swap =>
    obtain rfl := pure_eq_ok.mp hs
    exact swap_connsOk h he.2
  | runFunctor => exact runFunctor_connsOk h he.1 hs
  | finish =>
    obtain rfl := pure_eq_ok.mp hs
    exact finish_connsOk h he.1 he.2 hkeep

/-- A connection that nothing holds has left the poller. -/
theorem ConnOk.unheld (h : ConnOk s k conn) (hheld : ¬ s.Held k conn) :
    conn.tcp.channel_.added = false := by
  by_contra hadded
  have hadded : conn.tcp.channel_.added = true := by simpa using hadded
  apply hheld
  by_cases hstate : conn.tcp.state_ = .kDisconnected
  · rcases h.down hstate hadded with ⟨todo, hclosing⟩ | hqueued
    · exact Or.inr (Or.inr (Or.inl (by rw [hclosing]; rfl)))
    · exact Or.inr (Or.inr (Or.inr (Or.inl (List.mem_append_right _ hqueued))))
  · rcases (h.up hstate).2 with husers | howned | hrunning | hqueued
    · exact Or.inl husers
    · exact Or.inr (Or.inl howned)
    · exact Or.inr (Or.inr (Or.inl hrunning))
    · exact Or.inr (Or.inr (Or.inr (Or.inr hqueued)))

theorem collect_connsOk (h : s.ConnsOk) (hs : s.collect = .ok s') : s'.ConnsOk := by
  rw [collect_eq, Except.ok.injEq] at hs
  subst hs
  constructor
  · intro k conn hk
    obtain ⟨conn₀, hk₀, rfl⟩ := Option.map_eq_some_iff.mp hk
    have hconn := h.conns k conn₀ hk₀
    by_cases hheld : s.Held k conn₀
    · rw [if_pos hheld]
      exact { hconn with }
    · rw [if_neg hheld]
      exact { hconn with gone := fun _ => hconn.unheld hheld }
  · intro k hk
    show ((s.conns k).map _).isSome = true
    rw [Option.isSome_map]
    exact h.known k hk

theorem step_connsOk (h : s.ConnsOk) (hok : s.Ok) (he : s.Enabled a) (hkeep : s.Retains a)
    (hs : s.step a = .ok s') : s'.ConnsOk := by
  simp only [step, bind_eq_ok] at hs
  obtain ⟨s₁, hact, hs⟩ := hs
  exact collect_connsOk (act_connsOk h hok he hkeep hact) hs

section Lifetimes

instance (s : ClientLoop) (a : ClientStep) : Decidable (s.Retains a) :=
  match a with
  | .destroyClient c => inferInstanceAs (Decidable
      (∀ client ∈ s.clients c, ∀ k ∈ client.connection_, ∀ conn ∈ s.conns k, _ ∨ _))
  | .drop k => inferInstanceAs (Decidable (∀ conn ∈ s.conns k, _ ∨ _))
  | .finish => inferInstanceAs (Decidable
      (∀ f ∈ s.ran, ∀ k ∈ f.user?, ∀ conn ∈ s.conns k, _ ∨ _))
  | .callbackReturn | .endEvent =>
      inferInstanceAs (Decidable (∀ k ∈ s.running.conn?, ∀ conn ∈ s.conns k, _ ∨ _))
  | .newClient .. | .enableRetry _ | .connect .. | .stop _ | .disconnect _ | .hold _ | .send ..
  | .shutdown _ | .accept _ | .retryTimer .. | .removeConnector _ | .poll _ | .connectorEvent ..
  | .endOfEvents _ | .event .. | .callback .. | .closeCallback _ | .swap | .runFunctor =>
      inferInstanceAs (Decidable True)

instance (s : ClientLoop) (a : ClientStep) : Decidable ((machine.restrict Retains).enabled s a) :=
  inferInstanceAs (Decidable (_ ∧ _))

/-- In the runs of which no step gives up the last pointer to a connection that is not closed,
the channel of a destroyed connection is out of the poller. -/
theorem channel_removed (h : (machine.restrict Retains).Reachable s) (k : ℕ)
    (conn : ClientConnection) (hk : s.conns k = some conn) (hgone : conn.destroyed = true) :
    conn.tcp.channel_.added = false := by
  have hboth : s.Ok ∧ s.ConnsOk := by
    refine h.invariant (I := fun s => s.Ok ∧ s.ConnsOk) ?_ ?_
    · rintro _ rfl
      exact ⟨start_ok, start_connsOk⟩
    · rintro t b t' ⟨hok, hconns⟩ ⟨he, hkeep⟩ hs
      exact ⟨(step_ok hok he).of_ok hs, step_connsOk hconns hok he hkeep hs⟩
  exact (hboth.2.conns k conn hk).gone hgone

/-- The client is destroyed while its connection is up and the user holds it; the peer
closes, and then the user lets go of it. -/
theorem channel_removed_sample : ∃ s conn, (machine.restrict Retains).Reachable s ∧
    s.conns 0 = some conn ∧ conn.destroyed = true ∧ conn.tcp.channel_.added = false := by
  have hrun : ((machine.restrict Retains).execute start [.newClient 0 false,
      .connect 0 .EINPROGRESS, .poll 0, .connectorEvent 0 {.POLLOUT} 0 false, .hold 0,
      .callbackReturn, .endOfEvents 0, .swap, .runFunctor, .finish, .destroyClient 0,
      .event 0 {.POLLIN}, .callback (.bytes []) (.wrote 0), .closeCallback .EINPROGRESS, .endEvent,
      .drop 0, .swap, .runFunctor, .finish]).map (fun s =>
        (s.conns 0).map fun conn => conn.destroyed) = some (some true) := by decide +kernel
  obtain ⟨s, hs, hview⟩ := Option.map_eq_some_iff.mp hrun
  obtain ⟨conn, hk, hgone⟩ := Option.map_eq_some_iff.mp hview
  have hreach : (machine.restrict Retains).Reachable s := ⟨start, _, rfl, run_of_execute _ hs⟩
  exact ⟨s, conn, hreach, hk, hgone, channel_removed hreach 0 conn hk hgone⟩

/-- The client is destroyed while its connection is up and no one else holds it. -/
theorem channel_left_in_poller : ∃ s conn, machine.Reachable s ∧ s.conns 0 = some conn ∧
    conn.destroyed = true ∧ conn.tcp.channel_.added = true := by
  have hrun : (machine.execute start [.newClient 0 false, .connect 0 .EINPROGRESS, .poll 0,
      .connectorEvent 0 {.POLLOUT} 0 false, .callbackReturn, .endOfEvents 0, .swap, .runFunctor,
      .finish, .destroyClient 0]).map (fun s => (s.conns 0).map fun conn =>
        (conn.destroyed, conn.tcp.channel_.added)) = some (some (true, true)) := by decide +kernel
  obtain ⟨s, hs, hview⟩ := Option.map_eq_some_iff.mp hrun
  obtain ⟨conn, hk, hgone⟩ := Option.map_eq_some_iff.mp hview
  simp only [Prod.mk.injEq] at hgone
  exact ⟨s, conn, ⟨start, _, rfl, run_of_execute _ hs⟩, hk, hgone.1, hgone.2⟩

end Lifetimes

end ClientLoop

end MuduoServer
