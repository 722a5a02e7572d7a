import MuduoServer.ShutdownCalls

/-!
The three phases of a session: open, closed before any `shutdown`, and done, when all
accepted messages were written. What was handed over or written is never taken back.
-/
namespace MuduoServer.GracefulShutdown

open FaultMachine TcpConnection

section Growth
variable {T : Type} {s s' : Session T}

theorem Complete.mono {tag : ℕ} (h : Complete s tag) (hh : s.handed <+: s'.handed)
    (hw : s.conn.socket_.written <+: s'.conn.socket_.written) : Complete s' tag := by
  obtain ⟨before, data, after, hsplit, hout⟩ := h
  obtain ⟨more, hmore⟩ := hh
  refine ⟨before, data, after ++ more, ?_, hout.trans hw⟩
  rw [← hmore, hsplit, List.append_assoc, List.cons_append]

theorem Session.hand_cases {tag : ℕ} {data : List UInt8} {w : WriteResult}
    (h : s.hand tag data w = .ok s') :
    ∃ c taken, s.conn.sendInLoop data w = .ok c ∧
      s' = { s with conn := c, handed := s.handed ++ taken } := by
  simp only [Session.hand, bind_eq_ok, pure_eq_ok] at h
  obtain ⟨c, hc, rfl⟩ := h
  exact ⟨c, _, hc, rfl⟩

theorem sendInLoop_written {c c' : TcpConnection} {data : List UInt8} {w : WriteResult}
    (h : c.sendInLoop data w = .ok c') : c.socket_.written <+: c'.socket_.written := by
  obtain ⟨-, hsock | hsock⟩ := sendInLoop_frame h
  · rw [hsock]
  · rw [hsock]
    exact Socket.written_prefix_write _ _ _

/-- Nothing that went out or was handed over is taken back, and once `shutdown`
was called no more messages are accepted. -/
structure Grows (s s' : Session T) : Prop where
  handed : s.handed <+: s'.handed
  written : s.conn.socket_.written <+: s'.conn.socket_.written
  called : s.shutdownCalled → s'.shutdownCalled ∧ s'.accepted = s.accepted

theorem Grows.hand {tag : ℕ} {data : List UInt8} {w : WriteResult}
    (h : s.hand tag data w = .ok s') : Grows s s' := by
  obtain ⟨c, taken, hc, rfl⟩ := Session.hand_cases h
  exact ⟨List.prefix_append _ _, sendInLoop_written hc, fun hcalled => ⟨hcalled, rfl⟩⟩

theorem Grows.onConn {f : TcpConnection → Except Fault TcpConnection}
    (hf : ∀ c', f s.conn = .ok c' → s.conn.socket_.written <+: c'.socket_.written)
    (h : s.onConn f = .ok s') : Grows s s' := by
  simp only [Session.onConn, bind_eq_ok, pure_eq_ok] at h
  obtain ⟨c, hc, rfl⟩ := h
  exact ⟨List.prefix_refl _, hf c hc, fun hcalled => ⟨hcalled, rfl⟩⟩

theorem Done.grows (h : Done s) (hg : Grows s s') : Done s' := by
  obtain ⟨hcalled, hsame⟩ := hg.called h.called
  refine ⟨hcalled, ?_⟩
  intro tag htag
  rw [hsame] at htag
  exact (h.complete tag htag).mono hg.handed hg.written

variable [DecidableEq T] {loopThread : T}

theorem Grows.sendReturns {t : T} (h : Grows s s') : Grows s (s'.sendReturns t) := by
  refine ⟨h.handed, h.written, ?_⟩
  intro hcalled
  obtain ⟨hcalled', hsame⟩ := h.called hcalled
  exact ⟨hcalled', by simp [Session.sendReturns, hcalled', hsame]⟩

theorem grows_of_step {a : Act T} (h : s.step loopThread a = .ok s') : Grows s s' := by
  cases a with
  | sendCheck t data =>
    rw [← pure_eq_ok.mp h]
    split
    · exact ⟨List.prefix_refl _, List.prefix_refl _, fun hc => ⟨hc, rfl⟩⟩
    · exact ⟨List.prefix_refl _, List.prefix_refl _, fun hc => ⟨hc, rfl⟩⟩
  | sendHand t data w =>
    simp only [Session.step, bind_eq_ok, pure_eq_ok] at h
    obtain ⟨s₁, hs₁, rfl⟩ := h
    apply Grows.sendReturns
    unfold Session.handOver at hs₁
    split at hs₁
    · exact Grows.hand hs₁
    · rw [← pure_eq_ok.mp hs₁]
      exact ⟨List.prefix_refl _, List.prefix_refl _, fun hc => ⟨hc, rfl⟩⟩
  | shutdownCheck t =>
    rw [← pure_eq_ok.mp h]
    split
    · exact ⟨List.prefix_refl _, List.prefix_refl _, fun _ => ⟨rfl, rfl⟩⟩
    · exact ⟨List.prefix_refl _, List.prefix_refl _, fun _ => ⟨rfl, rfl⟩⟩
  | shutdownSet t =>
    rw [← pure_eq_ok.mp h]
    exact ⟨List.prefix_refl _, List.prefix_refl _, fun hc => ⟨hc, rfl⟩⟩
  | shutdownHand t =>
    simp only [Session.step, pure_eq_ok] at h
    subst h
    split
    · refine ⟨List.prefix_refl _, ?_, fun hc => ⟨hc, rfl⟩⟩
      simp only [Session.setCall, (shutdownInLoop_frame s.conn).2.1]
      exact List.prefix_refl _
    · exact ⟨List.prefix_refl _, List.prefix_refl _, fun hc => ⟨hc, rfl⟩⟩
  | swap =>
    rw [← pure_eq_ok.mp h]
    exact ⟨List.prefix_refl _, List.prefix_refl _, fun hc => ⟨hc, rfl⟩⟩
  | runFunctor w =>
    simp only [Session.step] at h
    split at h
    · rename_i f queue hpop
      cases f with
      | sendInLoop tag data =>
        have hg := Grows.hand h
        exact ⟨hg.handed, hg.written, hg.called⟩
      | shutdownInLoop =>
        rw [← pure_eq_ok.mp h]
        refine ⟨List.prefix_refl _, ?_, fun hc => ⟨hc, rfl⟩⟩
        simp only [(shutdownInLoop_frame s.conn).2.1]
        exact List.prefix_refl _
    · rw [← pure_eq_ok.mp h]
      exact ⟨List.prefix_refl _, List.prefix_refl _, fun hc => ⟨hc, rfl⟩⟩
  | finish =>
    rw [← pure_eq_ok.mp h]
    exact ⟨List.prefix_refl _, List.prefix_refl _, fun hc => ⟨hc, rfl⟩⟩
  | handleWrite w =>
    have hconn : s.onConn (fun c => c.handleWrite w) = .ok s' := h
    apply Grows.onConn _ hconn
    intro c' hc
    exact (handleWrite_frame hc).2.1
  | handleRead r =>
    have hconn : s.onConn (fun c => c.handleRead r) = .ok s' := h
    apply Grows.onConn _ hconn
    intro c' hc
    rw [(handleRead_frame hc).1]
  | handleClose =>
    apply Grows.onConn _ h
    intro c' hc
    obtain ⟨-, rfl⟩ := handleClose_eq_ok.mp hc
    exact List.prefix_refl _
  | connectDestroyed =>
    apply Grows.onConn _ h
    intro c' hc
    rw [(connectDestroyed_frame hc).1]

end Growth

section Closed
variable {T : Type} {s s' : Session T}

theorem sendInLoop_writeShut {c c' : TcpConnection} {data : List UInt8} {w : WriteResult}
    (h : c.sendInLoop data w = .ok c') : c'.socket_.writeShut = c.socket_.writeShut := by
  obtain ⟨-, hsock | hsock⟩ := sendInLoop_frame h
  · rw [hsock]
  · rw [hsock]
    exact Socket.writeShut_write _ _ _

theorem Dead.hand (h : Dead s) {tag : ℕ} {data : List UInt8} {w : WriteResult}
    (hs : s.hand tag data w = .ok s') : Dead s' := by
  obtain ⟨c, taken, hc, rfl⟩ := Session.hand_cases hs
  refine ⟨(sendInLoop_frame hc).1.trans h.closed, ?_, h.noneQueued, h.noneCalling⟩
  exact (sendInLoop_writeShut hc).trans h.notShut

theorem Dead.onConn (h : Dead s) {f : TcpConnection → Except Fault TcpConnection}
    (hf : ∀ c', f s.conn = .ok c' → c'.state_ = s.conn.state_ ∧
      c'.socket_.writeShut = s.conn.socket_.writeShut)
    (hs : s.onConn f = .ok s') : Dead s' := by
  simp only [Session.onConn, bind_eq_ok, pure_eq_ok] at hs
  obtain ⟨c, hc, rfl⟩ := hs
  obtain ⟨hstate, hshut⟩ := hf c hc
  exact ⟨hstate.trans h.closed, hshut.trans h.notShut, h.noneQueued, h.noneCalling⟩

variable [DecidableEq T] {loopThread : T}

theorem Dead.setCall (h : Dead s) (t : T) (call : Call) (h₁ : call ≠ .shutdownSaw)
    (h₂ : call ≠ .shutdownSet) : Dead (s.setCall t call) := by
  refine ⟨h.closed, h.notShut, h.noneQueued, ?_⟩
  intro u
  by_cases hu : u = t
  · subst hu
    simpa [Session.setCall] using ⟨h₁, h₂⟩
  · simpa [Session.setCall, hu] using h.noneCalling u

/-- Nothing that happens after such a close shuts the write side down. -/
theorem Dead.step {a : Act T} (h : Dead s) (he : s.Enabled loopThread a)
    (hs : s.step loopThread a = .ok s') : Dead s' := by
  have hne : s.conn.state_ ≠ .kDisconnecting := by simp [h.closed]
  have hclosed : ¬ (s.conn.state_ = .kConnected ∨ s.conn.state_ = .kDisconnecting) := by
    simp [h.closed]
  cases a with
  | sendCheck t data =>
    rw [← pure_eq_ok.mp hs]
    split
    · exact h.setCall t _ (by simp) (by simp)
    · exact h
  | sendHand t data w =>
    simp only [Session.step, bind_eq_ok, pure_eq_ok] at hs
    obtain ⟨s₁, hs₁, rfl⟩ := hs
    have hdead : Dead s₁ := by
      unfold Session.handOver at hs₁
      split at hs₁
      · exact h.hand hs₁
      · rw [← pure_eq_ok.mp hs₁]
        exact ⟨h.closed, h.notShut, by simpa using h.noneQueued, h.noneCalling⟩
    have hidle := hdead.setCall t .idle (by simp) (by simp)
    exact ⟨hidle.closed, hidle.notShut, hidle.noneQueued, hidle.noneCalling⟩
  | shutdownCheck t =>
    have hno : ¬ s.conn.connected := by simp [TcpConnection.connected, h.closed]
    simp only [Session.step, if_neg hno, pure_eq_ok] at hs
    rw [← hs]
    exact ⟨h.closed, h.notShut, h.noneQueued, h.noneCalling⟩
  | shutdownSet t => exact absurd he (h.noneCalling t).1
  | shutdownHand t => exact absurd he (h.noneCalling t).2
  | swap =>
    rw [← pure_eq_ok.mp hs]
    refine ⟨h.closed, h.notShut, ?_, h.noneCalling⟩
    simpa [BatchQueue.contents_swap he.2] using h.noneQueued
  | runFunctor w =>
    simp only [Session.step] at hs
    split at hs
    · rename_i f queue hpop
      have hcontents := BatchQueue.contents_pop hpop
      have hrest : Dead { s with queue := queue } := by
        refine ⟨h.closed, h.notShut, ?_, h.noneCalling⟩
        have hq := h.noneQueued
        rw [hcontents] at hq
        exact fun hmem => hq (List.mem_cons_of_mem _ hmem)
      cases f with
      | sendInLoop tag data => exact hrest.hand hs
      | shutdownInLoop =>
        have hq := h.noneQueued
        rw [hcontents] at hq
        exact absurd List.mem_cons_self hq
    · rw [← pure_eq_ok.mp hs]
      exact h
  | finish =>
    rw [← pure_eq_ok.mp hs]
    refine ⟨h.closed, h.notShut, ?_, h.noneCalling⟩
    simpa [BatchQueue.contents_finish he.2] using h.noneQueued
  | handleWrite w =>
    have hconn : s.onConn (fun c => c.handleWrite w) = .ok s' := hs
    apply h.onConn _ hconn
    intro c' hc
    obtain ⟨hstate, -, -, hshut⟩ := handleWrite_frame hc
    exact ⟨hstate, hshut hne⟩
  | handleRead r =>
    have hconn : s.onConn (fun c => c.handleRead r) = .ok s' := hs
    apply h.onConn _ hconn
    intro c' hc
    obtain ⟨hsock, -, hstate | ⟨-, -, halive⟩⟩ := handleRead_frame hc
    · exact ⟨hstate, by rw [hsock]⟩
    · exact absurd halive hclosed
  | handleClose =>
    apply h.onConn _ hs
    intro c' hc
    exact absurd (handleClose_eq_ok.mp hc).1 hclosed
  | connectDestroyed =>
    apply h.onConn _ hs
    intro c' hc
    obtain ⟨hsock, -, ⟨-, hstate⟩ | ⟨hcon, -⟩⟩ := connectDestroyed_frame hc
    · exact ⟨hstate, by rw [hsock]⟩
    · exact absurd (Or.inl hcon) hclosed

end Closed

section Opened
variable {T : Type} {s s' : Session T}

/-- With no accepted message queued and the output drained, all are written. -/
theorem complete_of_drained (hi : s.conn.Integrity (s.handed.flatMap Prod.snd))
    (hbroken : s.conn.socket_.broken = false)
    (hknown : ∀ tag ∈ s.accepted,
      (∃ data, (tag, data) ∈ s.handed) ∨ ∃ data, .sendInLoop tag data ∈ s.queue.contents)
    (hqueue : NoneQueued s) (hdrained : s.conn.outputBuffer_.readable = []) :
    ∀ tag ∈ s.accepted, Complete s tag := by
  intro tag htag
  have hall := hi.stream hbroken
  rw [hdrained, List.append_nil] at hall
  rcases hknown tag htag with ⟨data, hmem⟩ | ⟨data, hmem⟩
  · obtain ⟨before, after, hsplit⟩ := List.append_of_mem hmem
    refine ⟨before, data, after, hsplit, ?_⟩
    rw [hall, hsplit, List.flatMap_append, List.flatMap_cons, ← List.append_assoc]
    exact List.prefix_append _ _
  · exact absurd htag (hqueue _ hmem)

theorem Open.complete (h : Open s) (hqueue : NoneQueued s)
    (hdrained : s.conn.outputBuffer_.readable = []) : ∀ tag ∈ s.accepted, Complete s tag :=
  complete_of_drained h.integrity h.notBroken h.known hqueue hdrained

theorem Open.accepts (h : Open s) {len : ℕ} {w : WriteResult}
    (hw : Session.Answers s.conn.socket_ len w) :
    s.conn.socket_.Accepts len w ∧ w ≠ .failed .EPIPE := by
  rcases w with n | errno
  · exact ⟨⟨hw.2.1, h.notBroken⟩, by simp⟩
  · have hshut := hw.1
    rw [h.notShut] at hshut
    cases hshut

/-- Taking up one message keeps the session open and appends it to the stream. -/
theorem Open.hand (h : Open s) (tag : ℕ) {data : List UInt8} {w : WriteResult}
    (hw : Session.Answers s.conn.socket_ data.length w) (hs : s.hand tag data w = .ok s') :
    Open s' ∧ ∃ c, s' = { s with conn := c, handed := s.handed ++ [(tag, data)] } := by
  obtain ⟨haccept, hne⟩ := h.accepts hw
  have hstate : s.conn.state_ ≠ .kDisconnected := by
    rcases h.alive with hs | hs <;> simp [hs]
  obtain ⟨c, hc, hi⟩ := h.integrity.sendInLoop haccept
  have hoffers : s.conn.offers data = data := by
    rw [offers, if_pos ⟨hstate, h.notBroken⟩]
  simp only [Session.hand, hc, ok_bind, if_pos (And.intro hstate h.notBroken), pure_eq_ok] at hs
  subst hs
  refine ⟨?_, c, rfl⟩
  obtain ⟨hsame, hsock⟩ := sendInLoop_frame hc
  have hshut := sendInLoop_writeShut hc
  have hbroken : c.socket_.broken = false := by
    rcases hsock with hsock | hsock
    · rw [hsock]
      exact h.notBroken
    · rw [hsock, Socket.broken_write, h.notBroken]
      simp [hne]
  refine ⟨?_, ?_, hshut.trans h.notShut, hbroken, h.numbered, ?_, h.ordered, ?_⟩
  · simpa [hoffers] using hi
  · rw [hsame]
    exact h.alive
  · intro tag' htag
    rcases h.known tag' htag with ⟨data', hmem⟩ | hmem
    · exact Or.inl ⟨data', List.mem_append_left _ hmem⟩
    · exact Or.inr hmem
  · intro hcalled
    apply h.called
    simpa [hsame] using hcalled

/-- A step of the connection that keeps it open. -/
theorem Open.onConn (h : Open s) {c : TcpConnection}
    (hi : c.Integrity (s.handed.flatMap Prod.snd)) (hstate : c.state_ = s.conn.state_)
    (hshut : c.socket_.writeShut = false) (hbroken : c.socket_.broken = false) :
    Open { s with conn := c } := by
  refine ⟨hi, ?_, hshut, hbroken, h.numbered, h.known, h.ordered, ?_⟩
  · rw [hstate]
    exact h.alive
  · intro hcalled
    apply h.called
    simpa [hstate] using hcalled

/-- A step that closes the connection in time. -/
theorem Open.close (h : Open s) (hmay : MayClose s) {c : TcpConnection}
    (hstate : c.state_ = .kDisconnected) (hsock : c.socket_ = s.conn.socket_) :
    Dead { s with conn := c } ∨ Done { s with conn := c } := by
  by_cases hcalled : s.shutdownCalled
  · right
    refine ⟨hcalled, ?_⟩
    intro tag htag
    rcases hmay hcalled with hshut | ⟨hqueue, hbytes⟩
    · rw [h.notShut] at hshut
      cases hshut
    · have hdrained := h.integrity.readableBytes_eq_zero.mp hbytes
      refine (h.complete hqueue hdrained tag htag).mono (List.prefix_refl _) ?_
      simp only [hsock]
      exact List.prefix_refl _
  · left
    refine ⟨hstate, by simpa only [hsock] using h.notShut, ?_, ?_⟩
    · exact fun hmem => hcalled (h.called (Or.inr (Or.inl hmem)))
    · intro t
      refine ⟨?_, ?_⟩
      · exact fun ht => hcalled (h.called (Or.inr (Or.inr ⟨t, Or.inl ht⟩)))
      · exact fun ht => hcalled (h.called (Or.inr (Or.inr ⟨t, Or.inr ht⟩)))

/-- `shutdownInLoop` with no accepted message queued. -/
theorem Open.shutdownInLoop (h : Open s) (hcalled : s.shutdownCalled)
    (hqueue : ¬ s.conn.channel_.isWriting → NoneQueued s) :
    Open { s with conn := s.conn.shutdownInLoop } ∨
      Done { s with conn := s.conn.shutdownInLoop } := by
  by_cases hwr : s.conn.channel_.isWriting
  · left
    have hsame : s.conn.shutdownInLoop = s.conn := by
      rw [TcpConnection.shutdownInLoop, if_pos hwr]
    rw [hsame]
    exact h
  · right
    have hdrained : s.conn.outputBuffer_.readable = [] := by
      by_contra hne
      apply hwr
      rw [h.integrity.writing]
      refine ⟨?_, hne⟩
      rcases h.alive with hs | hs <;> simp [hs]
    refine ⟨hcalled, ?_⟩
    intro tag htag
    refine (h.complete (hqueue hwr) hdrained tag htag).mono (List.prefix_refl _) ?_
    simp only [(shutdownInLoop_frame s.conn).2.1]
    exact List.prefix_refl _

theorem Open.handleWrite (h : Open s) {w : WriteResult} {c : TcpConnection}
    (hw : Session.Answers s.conn.socket_ s.conn.outputBuffer_.readableBytes w)
    (hqueue : s.conn.state_ = .kDisconnecting → s.conn.Drains w → NoneQueued s)
    (hc : s.conn.handleWrite w = .ok c) :
    Open { s with conn := c } ∨ Done { s with conn := c } := by
  obtain ⟨haccept, hne⟩ := h.accepts hw
  obtain ⟨c', hc', hi, hstate, hshut⟩ := h.integrity.handleWrite haccept
  obtain rfl := Except.ok.inj (hc.symm.trans hc')
  have hbroken : c.socket_.broken = false :=
    ((handleWrite_frame hc).2.2.1 hne).trans h.notBroken
  rcases hshut with hshut | ⟨hdis, hdrains, hdrained⟩
  · exact Or.inl (h.onConn hi hstate (hshut.trans h.notShut) hbroken)
  · right
    refine ⟨h.called (Or.inl hdis), ?_⟩
    exact complete_of_drained (s := { s with conn := c }) hi hbroken h.known
      (hqueue hdis hdrains) hdrained

theorem Open.push (h : Open s) (f : Functor)
    (hf : f = .shutdownInLoop → s.shutdownCalled)
    (hacc : .shutdownInLoop ∈ s.queue.contents → ¬ Accepted s.accepted f) :
    Open { s with queue := s.queue.push f } := by
  refine ⟨h.integrity, h.alive, h.notShut, h.notBroken, h.numbered, ?_, ?_, ?_⟩
  · intro tag htag
    rcases h.known tag htag with hmem | ⟨data, hmem⟩
    · exact Or.inl hmem
    · refine Or.inr ⟨data, ?_⟩
      rw [BatchQueue.contents_push]
      exact List.mem_append_left _ hmem
  · simp only [BatchQueue.contents_push]
    rw [List.pairwise_append]
    refine ⟨h.ordered, List.pairwise_singleton _ _, ?_⟩
    intro g hg f' hf' heq
    rw [List.mem_singleton.mp hf']
    exact hacc (heq ▸ hg)
  · intro hcalled
    rcases hcalled with hdis | hmem | hcall
    · exact h.called (Or.inl hdis)
    · simp only [BatchQueue.contents_push] at hmem
      rcases List.mem_append.mp hmem with hmem | hnew
      · exact h.called (Or.inr (Or.inl hmem))
      · exact hf (List.mem_singleton.mp hnew).symm
    · exact h.called (Or.inr (Or.inr hcall))

theorem Open.requeue (h : Open s) {queue : BatchQueue Functor}
    (hq : queue.contents = s.queue.contents) : Open { s with queue := queue } := by
  refine ⟨h.integrity, h.alive, h.notShut, h.notBroken, h.numbered, ?_, ?_, ?_⟩
  · simpa only [hq] using h.known
  · simpa only [hq] using h.ordered
  · simpa only [hq] using h.called

/-- The queue without its first functor, whose message was taken up. -/
theorem Open.pop (h : Open s) {f : Functor} {queue : BatchQueue Functor}
    (hpop : s.queue.pop? = some (f, queue))
    (hf : ∀ tag data, f = .sendInLoop tag data → (tag, data) ∈ s.handed) :
    Open { s with queue := queue } := by
  have hcontents := BatchQueue.contents_pop hpop
  refine ⟨h.integrity, h.alive, h.notShut, h.notBroken, h.numbered, ?_, ?_, ?_⟩
  · intro tag htag
    rcases h.known tag htag with hmem | ⟨data, hmem⟩
    · exact Or.inl hmem
    · rw [hcontents] at hmem
      rcases List.mem_cons.mp hmem with heq | hmem
      · exact Or.inl ⟨data, hf tag data heq.symm⟩
      · exact Or.inr ⟨data, hmem⟩
  · have hordered := h.ordered
    rw [hcontents] at hordered
    exact hordered.of_cons
  · intro hcalled
    apply h.called
    rw [hcontents]
    rcases hcalled with hdis | hmem | hcall
    · exact Or.inl hdis
    · exact Or.inr (Or.inl (List.mem_cons_of_mem _ hmem))
    · exact Or.inr (Or.inr hcall)

/-- The next functor of the batch. A `shutdownInLoop` has no accepted message
behind it. -/
theorem Open.runFunctor (h : Open s) {w : WriteResult} {f : Functor} {queue : BatchQueue Functor}
    (hpop : s.queue.pop? = some (f, queue))
    (hw : Session.Answers s.conn.socket_ f.data.length w)
    (hs : Session.runOne { s with queue := queue } w f = .ok s') : Open s' ∨ Done s' := by
  cases f with
  | sendInLoop tag data =>
    simp only [Session.runOne, Session.hand, bind_eq_ok, pure_eq_ok] at hs
    obtain ⟨c, hc, rfl⟩ := hs
    have hhand : s.hand tag data w = .ok { s with
        conn := c
        handed := s.handed ++ (if s.conn.state_ ≠ .kDisconnected ∧ s.conn.socket_.broken = false
          then [(tag, data)] else []) } := by
      simp [Session.hand, hc]
    obtain ⟨hopen, c', heq⟩ := h.hand tag hw hhand
    have htaken := congrArg Session.handed heq
    left
    apply hopen.pop hpop
    intro tag' data' hf
    obtain ⟨rfl, rfl⟩ := Functor.sendInLoop.inj hf
    simp only at htaken
    simp only [htaken]
    exact List.mem_append_right _ List.mem_cons_self
  | shutdownInLoop =>
    obtain rfl := pure_eq_ok.mp hs
    have hcontents := BatchQueue.contents_pop hpop
    have hopen := h.pop hpop (by simp)
    apply hopen.shutdownInLoop
    · apply h.called
      rw [hcontents]
      exact Or.inr (Or.inl List.mem_cons_self)
    · intro _ g hg hacc
      have hordered := h.ordered
      rw [hcontents, List.pairwise_cons] at hordered
      exact hordered.1 g hg rfl hacc

theorem start_open {writeComplete highWater : Bool} {highWaterMark : ℕ} {c : TcpConnection}
    (hc : (TcpConnection.new writeComplete highWater highWaterMark).connectEstablished = .ok c) :
    Open (Session.start c : Session T) := by
  have hi := (new_integrity writeComplete highWater highWaterMark).connectEstablished hc
  obtain ⟨-, rfl⟩ := connectEstablished_eq_ok.mp hc
  refine ⟨hi, Or.inl rfl, rfl, rfl, ?_, ?_, ?_, ?_⟩
  · simp [Session.start]
  · simp [Session.start]
  · simp [Session.start]
  · simp [Session.start]

end Opened

end MuduoServer.GracefulShutdown
