import MuduoServer.ClientPointers

/-!
The handlers of connections of clients, and the callbacks that run inside them. The handler
has a pointer of its own to the connection; it gives it up when it ends, and a close has been
queued or handed on by then.
-/
namespace MuduoServer

open FaultMachine

namespace ClientLoop

variable {s s' : ClientLoop} {c k j : ℕ} {conn : ClientConnection}

/-- Sending and shutting down leave a registered connection registered. -/
theorem ConnOk.of_keeps (h : ConnOk s k conn) {t : TcpConnection}
    (hadded : conn.tcp.channel_.added = true) (hk : TcpConnection.Keeps conn.tcp t) :
    ConnOk s k { conn with tcp := t } :=
  h.change hadded (by rw [hk.state]) (hk.added hadded)

theorem send_connsOk (h : s.ConnsOk) {data : List UInt8} {w : WriteResult}
    (hs : s.act (.send k data w) = .ok s') : s'.ConnsOk := by
  simp only [act] at hs
  refine h.onConn hs rfl (fun j _ => Sees.refl s j) fun conn t hk ht => ?_
  have hconn := h.conns k conn hk
  split at ht
  · rename_i hstate
    have hadded := (hconn.up (by simp [hstate])).1
    exact hconn.of_keeps hadded ((TcpConnection.keeps_sendInLoop conn.tcp data w).of_ok ht)
  · obtain rfl := pure_eq_ok.mp ht
    exact hconn

theorem shutdown_connsOk (h : s.ConnsOk) (hs : s.shutdown k = .ok s') : s'.ConnsOk := by
  refine h.onConn hs rfl (fun j _ => Sees.refl s j) fun conn t hk ht => ?_
  have hconn := h.conns k conn hk
  obtain rfl := pure_eq_ok.mp ht
  by_cases hstate : conn.tcp.state_ = .kConnected
  · have hadded := (hconn.up (by simp [hstate])).1
    have hkeeps := TcpConnection.keeps_shutdownInLoop (conn.tcp.setState .kDisconnecting)
    simp only [TcpConnection.shutdown, if_pos hstate]
    refine hconn.change hadded ?_ (hkeeps.added hadded)
    rw [hkeeps.state, hstate]
    simp [TcpConnection.setState]
  · simp only [TcpConnection.shutdown, if_neg hstate]
    exact hconn

/-- What runs is the same for connection `j` when it is about another one. -/
theorem sees_running {running : Running}
    (hused : s.running.conn? = some j → running.conn? = some j)
    (hclosing : (∃ todo, running = .closing j todo) ↔ ∃ todo, s.running = .closing j todo)
    (hhandling : running.handling? = some j → s.running.handling? = some j) :
    Sees s { s with running := running } j :=
  sees_of_eq rfl id (Or.imp hused id) Iff.rfl hclosing hhandling

/-- `handleClose` of the connection whose event is handled. -/
theorem closed_connOk {todo : List EventCallback} {t : TcpConnection} (h : ConnOk s k conn)
    (hrunning : s.running.handling? = some k) (ht : conn.tcp.channel_.added = true →
      t.state_ = .kDisconnected ∧ t.channel_.added = true) :
    ConnOk { s with running := .closing k todo } k { conn with tcp := t } := by
  have hadded := h.handling hrunning
  obtain ⟨hstate, hadded'⟩ := ht hadded
  constructor
  · intro hgone
    cases hadded.symm.trans (h.gone hgone)
  · intro hup
    exact absurd hstate hup
  · intro _ _
    exact Or.inl ⟨todo, rfl⟩
  · intro _
    exact hadded'
  · intro _
    exact hstate
  · intro _
    exact hstate

/-- The handler of `k` goes on without a close. -/
theorem sees_handled {running : Running} {todo todo' : List EventCallback}
    (hrunning : s.running = .event k todo)
    (hr : running = .event k todo' ∨ running = .message k todo') (j : ℕ) :
    Sees s { s with running := running } j := by
  rcases hr with rfl | rfl
  · refine sees_running ?_ ?_ ?_ <;> simp [hrunning, Running.conn?, Running.handling?]
  · refine sees_running ?_ ?_ ?_ <;> simp [hrunning, Running.conn?, Running.handling?]

theorem sees_closing {todo todo' : List EventCallback} (hrunning : s.running = .event k todo)
    (hj : j ≠ k) : Sees s { s with running := .closing k todo' } j := by
  refine sees_running ?_ ?_ ?_ <;> simp [hrunning, Running.conn?, Running.handling?, hj.symm]

theorem handleRead_connsOk {todo todo' : List EventCallback} {r : Buffer.ReadResult}
    (h : s.ConnsOk) (hrunning : s.running = .event k todo)
    (hs : ClientLoop.onConn { s with
        running := if 0 < r.n then .message k todo' else
          if r.n = 0 then .closing k todo' else .event k todo' } k
      (fun t => t.handleRead r) = .ok s') : s'.ConnsOk := by
  have hhandling : s.running.handling? = some k := by rw [hrunning]; rfl
  by_cases hmessage : 0 < r.n
  · rw [if_pos hmessage] at hs
    have hsees : ∀ j, Sees s { s with running := .message k todo' } j :=
      sees_handled hrunning (Or.inr rfl)
    refine h.onConn hs rfl (fun j _ => hsees j) fun conn t hk ht => ?_
    have hconn := h.conns k conn hk
    have hadded := hconn.handling hhandling
    obtain ⟨b, -, hcases⟩ := TcpConnection.handleRead_cases ht
    rcases hcases with ⟨-, rfl⟩ | ⟨hn, -⟩ | ⟨hn, -⟩
    · refine ConnOk.sees ?_ (hsees k)
      exact hconn.change hadded Iff.rfl hadded
    · omega
    · omega
  · rw [if_neg hmessage] at hs
    by_cases hzero : r.n = 0
    · rw [if_pos hzero] at hs
      refine h.onConn hs rfl (fun j hj => sees_closing hrunning hj) fun conn t hk ht => ?_
      obtain ⟨b, -, hcases⟩ := TcpConnection.handleRead_cases ht
      rcases hcases with ⟨hn, -⟩ | ⟨-, hclose⟩ | ⟨hn, -⟩
      · omega
      · refine closed_connOk (h.conns k conn hk) hhandling fun _ => ?_
        obtain ⟨-, rfl⟩ := TcpConnection.handleClose_eq_ok.mp hclose
        exact ⟨rfl, rfl⟩
      · omega
    · rw [if_neg hzero] at hs
      have hsees : ∀ j, Sees s { s with running := .event k todo' } j :=
        sees_handled hrunning (Or.inl rfl)
      refine h.onConn hs rfl (fun j _ => hsees j) fun conn t hk ht => ?_
      have hconn := h.conns k conn hk
      have hadded := hconn.handling hhandling
      obtain ⟨b, -, hcases⟩ := TcpConnection.handleRead_cases ht
      rcases hcases with ⟨hn, -⟩ | ⟨hn, -⟩ | ⟨-, rfl⟩
      · omega
      · omega
      · refine ConnOk.sees ?_ (hsees k)
        exact hconn.change hadded Iff.rfl hadded

theorem callback_connsOk (h : s.ConnsOk) {r : Buffer.ReadResult} {w : WriteResult}
    (hs : s.callback r w = .ok s') : s'.ConnsOk := by
  unfold callback at hs
  split at hs
  · rename_i k todo hrunning
    refine h.onConn hs rfl (fun j hj => sees_closing hrunning hj) fun conn t hk ht => ?_
    refine closed_connOk (h.conns k conn hk) (by rw [hrunning]; rfl) fun _ => ?_
    obtain ⟨-, rfl⟩ := TcpConnection.handleClose_eq_ok.mp ht
    exact ⟨rfl, rfl⟩
  · rename_i k todo hrunning
    have hsees : ∀ j, Sees s { s with running := .event k todo } j :=
      sees_handled hrunning (Or.inl rfl)
    refine h.onConn hs rfl (fun j _ => hsees j) fun conn t hk ht => ?_
    obtain rfl := pure_eq_ok.mp ht
    exact (h.conns k conn hk).sees (hsees k)
  · rename_i k todo hrunning
    exact handleRead_connsOk h hrunning hs
  · rename_i k todo hrunning
    have hsees : ∀ j, Sees s { s with running := .event k todo } j :=
      sees_handled hrunning (Or.inl rfl)
    refine h.onConn hs rfl (fun j _ => hsees j) fun conn t hk ht => ?_
    have hconn := h.conns k conn hk
    have hadded := hconn.handling (by rw [hrunning]; rfl)
    have hkeeps := (TcpConnection.keeps_handleWrite conn.tcp w).of_ok ht
    exact (hconn.of_keeps hadded hkeeps).sees (hsees k)
  · cases hs

theorem event_connsOk (h : s.ConnsOk) {revents : Finset Poll} (hidle : s.running = .idle)
    (hreports : ∀ conn ∈ s.conns k, conn.tcp.channel_.Reports revents)
    (hs : s.event k revents = .ok s') : s'.ConnsOk := by
  unfold event at hs
  split at hs
  · cases hs
  · rename_i conn hk
    simp only [bind_eq_ok, check_eq_ok, pure_eq_ok] at hs
    obtain ⟨-, -, rfl⟩ := hs
    refine h.focus (k := k) rfl (fun j hj => ?_) (fun conn' hk' => ?_) (h.known k)
    · refine sees_running ?_ ?_ ?_ <;> simp [hidle, Running.conn?, Running.handling?, hj.symm]
    · have hadded := (hreports conn' hk').1
      have hconn := h.conns k conn' hk'
      refine { hconn with
        up := fun hup => ⟨hadded, Or.inr (Or.inr (Or.inl rfl))⟩
        down := fun hdown _ => ?_
        handling := fun _ => hadded
        closing := ?_ }
      · refine Or.inr ((hconn.down hdown hadded).resolve_left ?_)
        simp [hidle]
      · intro hclosing
        obtain ⟨todo, htodo⟩ := hclosing
        cases htodo

theorem removeConnection_cases {result : ConnectResult}
    (h : s.removeConnection c k result = .ok s') :
    ∃ client, s.clients c = some client ∧ client.connection_ = some k ∧
      Frame ((s.setClient c { client with connection_ := none }).push (.connectDestroyed k)) s' := by
  unfold removeConnection at h
  split at h
  · cases h
  · rename_i client hc
    simp only [bind_eq_ok, check_eq_ok] at h
    obtain ⟨-, -, -, hconn, h⟩ := h
    refine ⟨client, hc, hconn, ?_⟩
    split at h
    · exact frame_onConnector h
    · obtain rfl := pure_eq_ok.mp h
      exact ⟨rfl, Sees.refl _⟩

/-- The close of `k` is queued, and whoever kept the connection for it does so no more. -/
theorem ConnsOk.queueClose (h : s.ConnsOk) {todo : List EventCallback}
    (hrunning : s.running = .closing k todo) (hk : s.conns k = some conn)
    (hconns : s'.conns = s.conns) (hrunning' : s'.running = .event k todo)
    (hfunctors : s'.functors = s.functors.push (.connectDestroyed k)) (hran : s'.ran = s.ran)
    (howned : ∀ j conn, j ≠ k → s.Owned j conn → s'.Owned j conn) : s'.ConnsOk := by
  have hmem : ∀ f, f ∈ s'.functors.contents ↔ f ∈ s.functors.contents ∨ f = .connectDestroyed k := by
    intro f
    rw [hfunctors, BatchQueue.contents_push]
    simp
  refine h.focus (k := k) hconns (fun j hj => ?_) (fun conn' hk' => ?_) fun _ => by simp [hk]
  · refine ⟨fun conn hkept => ?_, ?_, ?_, ?_⟩
    · refine hkept.mono rfl Or.inl (howned j conn hj) fun hused => Or.inr (Or.inr ?_)
      refine hused.imp ?_ fun hf => ?_
      · rw [hrunning, hrunning']
        exact id
      · rw [bound, hran, hfunctors, BatchQueue.contents_push, ← List.append_assoc]
        exact List.mem_append.mpr (Or.inl hf)
    · rw [hmem]
      simp [hj]
    · simp [hrunning, hrunning', hj.symm]
    · simp [hrunning, hrunning', Running.handling?]
  · have hconn := h.conns k conn' hk'
    have hdown := hconn.closing ⟨todo, hrunning⟩
    have hadded := hconn.handling (by rw [hrunning]; rfl)
    refine ⟨hconn.gone, fun hup => absurd hdown hup, fun _ _ => Or.inr ?_, fun _ => hadded,
      fun _ => hdown, fun _ => hdown⟩
    exact (hmem _).mpr (Or.inr rfl)

theorem closeCallback_connsOk (h : s.ConnsOk) {result : ConnectResult}
    (hs : s.closeCallback result = .ok s') : s'.ConnsOk := by
  unfold closeCallback at hs
  split at hs
  · rename_i k todo hrunning
    split at hs
    · cases hs
    · rename_i conn hk
      dsimp only at hs
      split at hs
      · rename_i c hclose
        obtain ⟨client, hc, hconn, hframe⟩ := removeConnection_cases hs
        refine ConnsOk.frame ?_ hframe
        refine h.queueClose hrunning hk rfl rfl rfl rfl fun j other hj ho => ?_
        refine ho.mono id fun d other hd halive hother => ?_
        have hdc : d ≠ c := by
          rintro rfl
          obtain rfl := Option.some.inj (hc.symm.trans hd)
          exact hj (Option.some.inj (hother.symm.trans hconn))
        exact ⟨other, (Function.update_of_ne hdc _ _).trans hd, halive, hother⟩
      · obtain rfl := pure_eq_ok.mp hs
        refine h.queueClose hrunning hk rfl rfl rfl rfl fun j other hj ho => ?_
        refine ho.mono (fun hmem => ?_) fun d other hd halive hother => ⟨other, hd, halive, hother⟩
        exact (List.mem_erase_of_ne hj).mpr hmem
      · obtain rfl := pure_eq_ok.mp hs
        exact h.queueClose hrunning hk rfl rfl rfl rfl fun _ _ _ ho => ho
  · cases hs

/-- The handler ends, and gives up its pointer. -/
theorem finished_connsOk (h : s.ConnsOk) (hclosing : s.running.inClose = false)
    (hkeep : ∀ k ∈ s.running.conn?, ∀ conn ∈ s.conns k, conn.tcp.state_ = .kDisconnected ∨
      0 < conn.users ∨ s.Owned k conn ∨ .userCallback k ∈ s.bound) :
    ConnsOk { s with running := .idle } := by
  have hnot : ∀ j, ¬ ∃ todo, s.running = .closing j todo := by
    rintro j ⟨todo, htodo⟩
    rw [htodo] at hclosing
    cases hclosing
  have hclose : ∀ j, (∃ todo, Running.idle = .closing j todo) ↔
      ∃ todo, s.running = .closing j todo := by
    intro j
    simp [hnot j]
  constructor
  · intro k conn hk
    refine (h.conns k conn hk).keep rfl rfl (fun hup => ?_) Iff.rfl (hclose k) (by simp [Running.handling?])
    rcases ((h.conns k conn hk).up hup).2 with hkept | hkept | hrunning | hqueued
    · exact Or.inl hkept
    · exact Or.inr (Or.inl hkept)
    · rcases (hkeep k hrunning conn hk).resolve_left hup with hkept | hkept | hqueued
      · exact Or.inl hkept
      · exact Or.inr (Or.inl hkept)
      · exact Or.inr (Or.inr (Or.inr hqueued))
    · exact Or.inr (Or.inr (Or.inr hqueued))
  · exact h.known

theorem callbackReturn_connsOk (h : s.ConnsOk) (he : s.running.inCallback = true)
    (hkeep : s.Retains .callbackReturn) : s.callbackReturn.ConnsOk := by
  have hclosing : s.running.inClose = false := by
    cases hrunning : s.running <;> simp_all [Running.inCallback, Running.inClose]
  unfold callbackReturn
  split
  · rename_i k todo hrunning
    refine h.same rfl fun j => ?_
    refine sees_running ?_ ?_ ?_ <;> simp [hrunning, Running.conn?, Running.handling?]
  · rename_i hmessage
    refine finished_connsOk h hclosing fun k hk conn hconn => ?_
    have hhandling : s.running.handling? ≠ some k := by
      intro hh
      cases hrunning : s.running <;> simp_all [Running.inCallback, Running.handling?]
    have hkept := hkeep k hk conn hconn
    simp only [hhandling, false_or] at hkept
    exact hkept

theorem endEvent_connsOk (h : s.ConnsOk) (he : s.running.ended = true)
    (hkeep : s.Retains .endEvent) : ConnsOk { s with running := .idle } := by
  refine finished_connsOk h ?_ hkeep
  cases hrunning : s.running <;> simp_all [Running.ended, Running.inClose]

end ClientLoop

end MuduoServer
