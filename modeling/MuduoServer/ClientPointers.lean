import MuduoServer.ClientDestruction
import MuduoServer.ConnectionPhases

/-!
The connections of the clients of one loop. A channel leaves the poller in
`connectDestroyed` only, which the close of a connection queues; so until it is closed a
connection must be kept by its client, by the server, by the user, or by a handler or a
callback that will pass it on. Nothing that gives up a pointer looks whether it is the last.
-/
namespace MuduoServer

open FaultMachine

/-- The connection of a callback of the user. -/
def ClientFunctor.user? : ClientFunctor → Option ℕ
  | .userCallback k => some k
  | .connectDestroyed _ | .resetChannel _ => none

namespace ClientLoop

variable {s s' s'' : ClientLoop} {c k j : ℕ} {client : TcpClient} {conn : ClientConnection}

/-- The handler that runs or a queued callback of the user has a pointer to `k`. -/
def Used (s : ClientLoop) (k : ℕ) : Prop :=
  s.running.conn? = some k ∨ .userCallback k ∈ s.bound

/-- A pointer is left other than the one of a queued `connectDestroyed`. -/
def Kept (s : ClientLoop) (k : ℕ) (conn : ClientConnection) : Prop :=
  0 < conn.users ∨ s.Owned k conn ∨ s.Used k

instance (s : ClientLoop) (k : ℕ) : Decidable (s.Used k) := inferInstanceAs (Decidable (_ ∨ _))

/-- The step does not give up the last pointer to a connection that is not closed. -/
def Retains (s : ClientLoop) : ClientStep → Prop
  | .destroyClient c => ∀ client ∈ s.clients c, ∀ k ∈ client.connection_, ∀ conn ∈ s.conns k,
      conn.tcp.state_ = .kDisconnected ∨ 0 < conn.users ∨ s.Used k
  | .drop k => ∀ conn ∈ s.conns k,
      conn.tcp.state_ = .kDisconnected ∨ 1 < conn.users ∨ s.Owned k conn ∨ s.Used k
  | .callbackReturn => ∀ k ∈ s.running.conn?, ∀ conn ∈ s.conns k,
      conn.tcp.state_ = .kDisconnected ∨ 0 < conn.users ∨ s.Owned k conn ∨
        s.running.handling? = some k ∨ .userCallback k ∈ s.bound
  | .endEvent => ∀ k ∈ s.running.conn?, ∀ conn ∈ s.conns k,
      conn.tcp.state_ = .kDisconnected ∨ 0 < conn.users ∨ s.Owned k conn ∨
        .userCallback k ∈ s.bound
  | .finish => ∀ f ∈ s.ran, ∀ k ∈ f.user?, ∀ conn ∈ s.conns k,
      conn.tcp.state_ = .kDisconnected ∨ 0 < conn.users ∨ s.Owned k conn ∨
        .userCallback k ∈ s.functors.contents
  | _ => True

/-- What holds of connection `k`: open, it is registered and kept; closed, its channel is
registered until `connectDestroyed`, which will be or has been queued. -/
structure ConnOk (s : ClientLoop) (k : ℕ) (conn : ClientConnection) : Prop where
  gone : conn.destroyed = true → conn.tcp.channel_.added = false
  up : conn.tcp.state_ ≠ .kDisconnected → conn.tcp.channel_.added = true ∧ s.Kept k conn
  down : conn.tcp.state_ = .kDisconnected → conn.tcp.channel_.added = true →
    (∃ todo, s.running = .closing k todo) ∨ .connectDestroyed k ∈ s.functors.contents
  handling : s.running.handling? = some k → conn.tcp.channel_.added = true
  closing : (∃ todo, s.running = .closing k todo) → conn.tcp.state_ = .kDisconnected
  functor : .connectDestroyed k ∈ s.functors.contents → conn.tcp.state_ = .kDisconnected

structure ConnsOk (s : ClientLoop) : Prop where
  conns : ∀ k conn, s.conns k = some conn → ConnOk s k conn
  known : ∀ k, .connectDestroyed k ∈ s.functors.contents → (s.conns k).isSome = true

/-- Seen from connection `k` nothing has changed but for more pointers. -/
structure Sees (s s' : ClientLoop) (k : ℕ) : Prop where
  kept : ∀ conn, s.Kept k conn → s'.Kept k conn
  functors : .connectDestroyed k ∈ s'.functors.contents ↔
    .connectDestroyed k ∈ s.functors.contents
  closing : (∃ todo, s'.running = .closing k todo) ↔ ∃ todo, s.running = .closing k todo
  handling : s'.running.handling? = some k → s.running.handling? = some k

theorem start_connsOk : ConnsOk start where
  conns k conn h := by cases h
  known k h := by cases h

theorem Sees.refl (s : ClientLoop) (k : ℕ) : Sees s s k :=
  ⟨fun _ => id, Iff.rfl, Iff.rfl, id⟩

theorem Sees.trans (h : Sees s s' k) (h' : Sees s' s'' k) : Sees s s'' k where
  kept conn hk := h'.kept conn (h.kept conn hk)
  functors := h'.functors.trans h.functors
  closing := h'.closing.trans h.closing
  handling hh := h.handling (h'.handling hh)

/-- The connection itself is as it was, and it is kept if it must be. -/
theorem ConnOk.keep (h : ConnOk s k conn) {conn' : ClientConnection}
    (htcp : conn'.tcp = conn.tcp) (hdestroyed : conn'.destroyed = conn.destroyed)
    (hkept : conn.tcp.state_ ≠ .kDisconnected → s'.Kept k conn')
    (hfunctors : .connectDestroyed k ∈ s'.functors.contents ↔
      .connectDestroyed k ∈ s.functors.contents)
    (hclosing : (∃ todo, s'.running = .closing k todo) ↔ ∃ todo, s.running = .closing k todo)
    (hhandling : s'.running.handling? = some k → s.running.handling? = some k) :
    ConnOk s' k conn' where
  gone hgone := by
    rw [htcp]
    exact h.gone (hdestroyed ▸ hgone)
  up hup := by
    rw [htcp] at hup ⊢
    exact ⟨(h.up hup).1, hkept hup⟩
  down hdown hadded := by
    rw [htcp] at hdown hadded
    exact (h.down hdown hadded).imp hclosing.mpr hfunctors.mpr
  handling hh := by
    rw [htcp]
    exact h.handling (hhandling hh)
  closing hc := by
    rw [htcp]
    exact h.closing (hclosing.mp hc)
  functor hf := by
    rw [htcp]
    exact h.functor (hfunctors.mp hf)

theorem ConnOk.sees (h : ConnOk s k conn) (hs : Sees s s' k) : ConnOk s' k conn :=
  h.keep rfl rfl (fun hup => hs.kept conn (h.up hup).2) hs.functors hs.closing hs.handling

/-- A registered connection that is as open or closed as before. -/
theorem ConnOk.change (h : ConnOk s k conn) {t : TcpConnection}
    (hadded : conn.tcp.channel_.added = true)
    (hstate : t.state_ = .kDisconnected ↔ conn.tcp.state_ = .kDisconnected)
    (ht : t.channel_.added = true) : ConnOk s k { conn with tcp := t } where
  gone hgone := by cases hadded.symm.trans (h.gone hgone)
  up hup := ⟨ht, (h.up fun hdown => hup (hstate.mpr hdown)).2⟩
  down hdown _ := h.down (hstate.mp hdown) hadded
  handling _ := ht
  closing hc := hstate.mpr (h.closing hc)
  functor hf := hstate.mpr (h.functor hf)

/-- Connection `k` is changed, and the others see nothing of it. -/
theorem ConnsOk.update (h : s.ConnsOk) {conn' : ClientConnection}
    (hconns : s'.conns = Function.update s.conns k (some conn'))
    (hsees : ∀ j, j ≠ k → Sees s s' j) (hk : ConnOk s' k conn') : s'.ConnsOk where
  conns j conn hj := by
    rw [hconns] at hj
    by_cases hjk : j = k
    · subst hjk
      rw [Function.update_self, Option.some.injEq] at hj
      exact hj ▸ hk
    · rw [Function.update_of_ne hjk] at hj
      exact (h.conns j conn hj).sees (hsees j hjk)
  known j hj := by
    rw [hconns]
    by_cases hjk : j = k
    · subst hjk
      simp
    · rw [Function.update_of_ne hjk]
      exact h.known j ((hsees j hjk).functors.mp hj)

theorem ConnsOk.same (h : s.ConnsOk) (hconns : s'.conns = s.conns) (hsees : ∀ j, Sees s s' j) :
    s'.ConnsOk where
  conns j conn hj := by
    rw [hconns] at hj
    exact (h.conns j conn hj).sees (hsees j)
  known j hj := by
    rw [hconns]
    exact h.known j ((hsees j).functors.mp hj)

/-- Only connection `k` sees what has happened. -/
theorem ConnsOk.focus (h : s.ConnsOk) (hconns : s'.conns = s.conns)
    (hsees : ∀ j, j ≠ k → Sees s s' j)
    (hk : ∀ conn, s.conns k = some conn → ConnOk s' k conn)
    (hknown : .connectDestroyed k ∈ s'.functors.contents → (s.conns k).isSome = true) :
    s'.ConnsOk where
  conns j conn hj := by
    rw [hconns] at hj
    by_cases hjk : j = k
    · subst hjk
      exact hk conn hj
    · exact (h.conns j conn hj).sees (hsees j hjk)
  known j hj := by
    rw [hconns]
    by_cases hjk : j = k
    · subst hjk
      exact hknown hj
    · exact h.known j ((hsees j hjk).functors.mp hj)

section Sees

theorem Owned.mono (h : s.Owned k conn) (hserver : k ∈ s.server → k ∈ s'.server)
    (hclients : ∀ c client, s.clients c = some client → client.alive = true →
      client.connection_ = some k →
      ∃ client', s'.clients c = some client' ∧ client'.alive = true ∧
        client'.connection_ = some k) : s'.Owned k conn := by
  rcases h with hmem | ⟨c, hc, client, hclient, halive, hconn⟩
  · exact Or.inl (hserver hmem)
  · obtain ⟨client', hclient', halive', hconn'⟩ := hclients c client hclient halive hconn
    exact Or.inr ⟨c, hc, client', hclient', halive', hconn'⟩

theorem Kept.mono (h : s.Kept k conn) {conn' : ClientConnection} (hclient : conn'.client = conn.client)
    (husers : 0 < conn.users → s'.Kept k conn') (howned : s.Owned k conn → s'.Owned k conn)
    (hused : s.Used k → s'.Kept k conn') : s'.Kept k conn' := by
  rcases h with h | h | h
  · exact husers h
  · refine Or.inr (Or.inl ?_)
    have ho := howned h
    unfold Owned at ho ⊢
    rwa [hclient]
  · exact hused h

/-- A client has changed, but not what it holds of `k`. -/
theorem sees_client {client' : TcpClient}
    (hclients : s'.clients = Function.update s.clients c (some client'))
    (hserver : s'.server = s.server) (hrunning : s'.running = s.running)
    (hfunctors : s'.functors = s.functors) (hran : s'.ran = s.ran)
    (hkeep : ∀ client, s.clients c = some client → client.alive = true →
      client.connection_ = some k → client'.alive = true ∧ client'.connection_ = some k) :
    Sees s s' k where
  kept conn hkept := by
    refine hkept.mono rfl Or.inl (fun ho => ?_) fun hused => Or.inr (Or.inr ?_)
    · refine ho.mono (fun hk => hserver ▸ hk) fun d other hd halive hconn => ?_
      rw [hclients]
      by_cases hdc : d = c
      · subst hdc
        exact ⟨client', Function.update_self .., hkeep other hd halive hconn⟩
      · exact ⟨other, by rw [Function.update_of_ne hdc, hd], halive, hconn⟩
    · unfold Used bound
      rw [hrunning, hfunctors, hran]
      exact hused
  functors := by rw [hfunctors]
  closing := by rw [hrunning]
  handling := by rw [hrunning]; exact id

/-- The loop has changed in `running` and in the queue at most. -/
theorem sees_of_eq (hclients : s'.clients = s.clients) (hserver : k ∈ s.server → k ∈ s'.server)
    (hused : s.Used k → s'.Used k)
    (hfunctors : .connectDestroyed k ∈ s'.functors.contents ↔
      .connectDestroyed k ∈ s.functors.contents)
    (hclosing : (∃ todo, s'.running = .closing k todo) ↔ ∃ todo, s.running = .closing k todo)
    (hhandling : s'.running.handling? = some k → s.running.handling? = some k) : Sees s s' k where
  kept conn hkept := by
    refine hkept.mono rfl Or.inl (fun ho => ?_) fun hk => Or.inr (Or.inr (hused hk))
    exact ho.mono hserver fun c client hc halive hconn =>
      ⟨client, by rw [hclients, hc], halive, hconn⟩
  functors := hfunctors
  closing := hclosing
  handling := hhandling

theorem mem_foldl_push {f : ClientFunctor} (fs : List ClientFunctor)
    (q : BatchQueue ClientFunctor) :
    f ∈ (fs.foldl BatchQueue.push q).contents ↔ f ∈ q.contents ∨ f ∈ fs := by
  induction fs generalizing q with
  | nil => simp
  | cons g fs ih =>
    rw [List.foldl_cons, ih, BatchQueue.contents_push]
    simp [or_assoc]

/-- What an operation on connection `k` does to the loop. -/
theorem onConn_cases {g : TcpConnection → Except TcpConnection.Fault TcpConnection}
    (h : s.onConn k g = .ok s') :
    ∃ conn t, s.conns k = some conn ∧ g conn.tcp = .ok t ∧
      s'.conns = Function.update s.conns k (some { conn with tcp := t }) ∧
      ∀ j, Sees s s' j := by
  unfold onConn at h
  split at h
  · cases h
  · rename_i conn hk
    simp only [bind_eq_ok, mapError_ok_iff, pure_eq_ok] at h
    obtain ⟨t, ht, rfl⟩ := h
    refine ⟨conn, t, hk, ht, rfl, fun j => sees_of_eq rfl id ?_ ?_ Iff.rfl id⟩
    · refine Or.imp id fun hmem => ?_
      rcases List.mem_append.mp hmem with hran | hqueued
      · exact List.mem_append.mpr (Or.inl hran)
      · exact List.mem_append.mpr (Or.inr ((mem_foldl_push _ _).mpr (Or.inl hqueued)))
    · refine (mem_foldl_push _ _).trans (or_iff_left ?_)
      intro hmem
      cases userCallbacks_ne hmem

/-- An operation on `k` from `s₁`, which differs from `s` for `k` only. -/
theorem ConnsOk.onConn {s₁ : ClientLoop}
    {g : TcpConnection → Except TcpConnection.Fault TcpConnection} (h : s.ConnsOk)
    (hs : s₁.onConn k g = .ok s') (hconns : s₁.conns = s.conns)
    (hsees : ∀ j, j ≠ k → Sees s s₁ j)
    (hg : ∀ conn t, s.conns k = some conn → g conn.tcp = .ok t →
      ConnOk s₁ k { conn with tcp := t }) : s'.ConnsOk := by
  obtain ⟨conn, t, hk, ht, hconns', hall⟩ := onConn_cases hs
  rw [hconns] at hk hconns'
  exact h.update hconns' (fun j hj => (hsees j hj).trans (hall j)) ((hg conn t hk ht).sees (hall k))

end Sees

section Frame

/-- No connection is changed, and none sees anything. -/
structure Frame (s s' : ClientLoop) : Prop where
  conns : s'.conns = s.conns
  sees : ∀ k, Sees s s' k

theorem Frame.trans (h : Frame s s') (h' : Frame s' s'') : Frame s s'' where
  conns := h'.conns.trans h.conns
  sees k := (h.sees k).trans (h'.sees k)

theorem ConnsOk.frame (h : s.ConnsOk) (hf : Frame s s') : s'.ConnsOk := h.same hf.conns hf.sees

theorem frame_setClient {client' : TcpClient}
    (hkeep : ∀ client, s.clients c = some client → client.alive = true →
      client.connection_ ≠ none → client'.alive = true ∧ client'.connection_ = client.connection_) :
    Frame s (s.setClient c client') where
  conns := rfl
  sees k := by
    refine sees_client rfl rfl rfl rfl rfl fun client hc halive hk => ?_
    obtain ⟨halive', hconn'⟩ := hkeep client hc halive (by simp [hk])
    exact ⟨halive', hconn'.trans hk⟩

theorem frame_onClient {g : TcpClient → TcpClient} (h : s.onClient c g = .ok s')
    (hg : ∀ client, s.clients c = some client → client.alive = true → client.connection_ ≠ none →
      (g client).alive = true ∧ (g client).connection_ = client.connection_) : Frame s s' := by
  unfold onClient at h
  split at h
  · cases h
  · rename_i client hc
    obtain rfl := pure_eq_ok.mp h
    refine frame_setClient fun other hother => ?_
    obtain rfl := Option.some.inj (hc.symm.trans hother)
    exact hg client hc

theorem frame_push {f : ClientFunctor} (hf : ∀ k, f ≠ .connectDestroyed k) :
    Frame s (s.push f) where
  conns := rfl
  sees k := by
    refine sees_of_eq rfl id (Or.imp id fun h => ?_) ?_ Iff.rfl id
    · simp only [bound, push, BatchQueue.contents_push, ← List.append_assoc]
      exact List.mem_append.mpr (Or.inl h)
    · simp only [push, BatchQueue.contents_push, List.mem_append, List.mem_singleton]
      exact or_iff_left (hf k).symm

/-- What a step of the connector of client `c` does to the loop. -/
theorem onConnector_cases {b : ConnectorStep} (h : s.onConnector c b = .ok s') :
    ∃ client t, s.clients c = some client ∧
      s'.clients c = some { client with connector_ := t } ∧ s'.running = s.running ∧
      s'.nextConn = s.nextConn ∧ Frame s s' := by
  unfold onConnector at h
  split at h
  · cases h
  · rename_i client hc
    simp only [bind_eq_ok, mapError_ok_iff, pure_eq_ok] at h
    obtain ⟨t, -, rfl⟩ := h
    have hset : Frame s (s.setClient c { client with connector_ := t }) := by
      refine frame_setClient fun other hother halive _ => ?_
      obtain rfl := Option.some.inj (hc.symm.trans hother)
      exact ⟨halive, rfl⟩
    refine ⟨client, t, hc, ?_⟩
    split
    · exact ⟨Function.update_self .., rfl, rfl, hset.trans (frame_push (by simp))⟩
    · exact ⟨Function.update_self .., rfl, rfl, hset⟩

theorem frame_onConnector {b : ConnectorStep} (h : s.onConnector c b = .ok s') : Frame s s' := by
  obtain ⟨_, _, _, _, _, _, hframe⟩ := onConnector_cases h
  exact hframe

theorem frame_dropConnector (h : s.dropConnector c = .ok s') : Frame s s' := by
  unfold dropConnector at h
  split at h
  · cases h
  · rename_i client hc
    split at h
    · obtain rfl := pure_eq_ok.mp h
      exact ⟨rfl, Sees.refl s⟩
    · simp only [bind_eq_ok, mapError_ok_iff, pure_eq_ok] at h
      obtain ⟨connector, -, rfl⟩ := h
      refine frame_setClient fun other hother halive _ => ?_
      obtain rfl := Option.some.inj (hc.symm.trans hother)
      exact ⟨halive, rfl⟩

end Frame

end ClientLoop

end MuduoServer
