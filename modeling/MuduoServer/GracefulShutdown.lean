import MuduoServer.ShutdownPhases

/-!
The write side is shut down only after all accepted messages were written, as
long as no step lets it overtake a message that is still queued.
-/
namespace MuduoServer.GracefulShutdown

open FaultMachine TcpConnection

section Runs
variable {T : Type} [DecidableEq T] {loopThread : T} {s s' : Session T}

theorem Open.setCall (h : Open s) (t : T) (call : Call)
    (hc : call = .shutdownSaw ∨ call = .shutdownSet → s.shutdownCalled) :
    Open (s.setCall t call) := by
  refine ⟨h.integrity, h.alive, h.notShut, h.notBroken, h.numbered, h.known, h.ordered, ?_⟩
  intro hcalled
  rcases hcalled with hdis | hmem | ⟨u, hu⟩
  · exact h.called (Or.inl hdis)
  · exact h.called (Or.inr (Or.inl hmem))
  · by_cases hut : u = t
    · subst hut
      exact hc (by simpa [Session.setCall] using hu)
    · exact h.called (Or.inr (Or.inr ⟨u, by simpa [Session.setCall, hut] using hu⟩))

/-- The message that was handed over with the next number may be accepted. -/
theorem Open.sendReturns (h : Open s) (t : T)
    (hknown : (∃ data, (s.nextTag, data) ∈ s.handed) ∨
      ∃ data, .sendInLoop s.nextTag data ∈ s.queue.contents) : Open (s.sendReturns t) := by
  have hi := h.setCall t .idle (by simp)
  refine ⟨hi.integrity, hi.alive, hi.notShut, hi.notBroken, ?_, ?_, ?_, hi.called⟩
  · intro tag htag
    have hlt : tag ∈ s.accepted ∨ tag = s.nextTag := by
      simp only [Session.sendReturns] at htag
      split at htag
      · exact Or.inl htag
      · simpa using htag
    simp only [Session.sendReturns]
    rcases hlt with hmem | heq
    · have := h.numbered tag hmem
      omega
    · omega
  · intro tag htag
    simp only [Session.sendReturns] at htag
    split at htag
    · exact h.known tag htag
    · rcases List.mem_append.mp htag with hmem | hnew
      · exact h.known tag hmem
      · rw [List.mem_singleton.mp hnew]
        exact hknown
  · -- a queued `shutdownInLoop` means that nothing new is accepted
    have hq : (s.sendReturns t).queue.contents = s.queue.contents := rfl
    rw [hq]
    apply h.ordered.imp_of_mem
    intro f g hf _ hfg heq
    have hcalled : s.shutdownCalled := h.called (Or.inr (Or.inl (heq ▸ hf)))
    have hsame : (s.sendReturns t).accepted = s.accepted := by
      simp [Session.sendReturns, hcalled]
    rw [hsame]
    exact hfg heq

theorem Open.sendHand (h : Open s) {t : T} {data : List UInt8} {w : WriteResult} {s₁ : Session T}
    (hw : t = loopThread → Session.Answers s.conn.socket_ data.length w)
    (hs : s.handOver loopThread t data w = .ok s₁) : Open (s₁.sendReturns t) := by
  unfold Session.handOver at hs
  split at hs
  · rename_i ht
    obtain ⟨hopen, c, rfl⟩ := h.hand s.nextTag (hw ht) hs
    apply hopen.sendReturns
    exact Or.inl ⟨data, List.mem_append_right _ List.mem_cons_self⟩
  · rw [← pure_eq_ok.mp hs]
    have hopen := h.push (.sendInLoop s.nextTag data) (by simp) (by
      intro _ hacc
      exact Nat.lt_irrefl _ (h.numbered _ hacc))
    apply hopen.sendReturns
    refine Or.inr ⟨data, ?_⟩
    simp

theorem Open.step {a : Act T} (h : Open s) (he : s.Enabled loopThread a)
    (ho : Orderly loopThread s a) (hs : s.step loopThread a = .ok s') :
    Open s' ∨ Dead s' ∨ Done s' := by
  cases a with
  | sendCheck t data =>
    left
    rw [← pure_eq_ok.mp hs]
    split
    · exact h.setCall t _ (by simp)
    · exact h
  | sendHand t data w =>
    left
    simp only [Session.step, bind_eq_ok, pure_eq_ok] at hs
    obtain ⟨s₁, hs₁, rfl⟩ := hs
    exact h.sendHand he.2 hs₁
  | shutdownCheck t =>
    left
    have hcalled : Open { s with shutdownCalled := true } :=
      ⟨h.integrity, h.alive, h.notShut, h.notBroken, h.numbered, h.known,
        h.ordered, fun _ => rfl⟩
    rw [← pure_eq_ok.mp hs]
    split
    · exact hcalled.setCall t _ (fun _ => rfl)
    · exact hcalled
  | shutdownSet t =>
    left
    have hcalled : s.shutdownCalled := h.called (Or.inr (Or.inr ⟨t, Or.inl he⟩))
    have hset : Open { s with conn := s.conn.setState .kDisconnecting } := by
      refine ⟨⟨h.integrity.input, h.integrity.output, h.integrity.stream, h.integrity.sent, ?_⟩,
        Or.inr rfl, h.notShut, h.notBroken, h.numbered, h.known, h.ordered, fun _ => hcalled⟩
      have hwriting := h.integrity.writing
      rcases h.alive with hstate | hstate <;> simpa [setState, hstate] using hwriting
    rw [← pure_eq_ok.mp hs]
    exact hset.setCall t _ (fun _ => hcalled)
  | shutdownHand t =>
    have hcalled : s.shutdownCalled := h.called (Or.inr (Or.inr ⟨t, Or.inr he⟩))
    simp only [Session.step, pure_eq_ok] at hs
    subst hs
    split
    · rename_i ht
      rcases h.shutdownInLoop hcalled (ho ht) with hopen | hdone
      · exact Or.inl (hopen.setCall t _ (by simp))
      · exact Or.inr (Or.inr ⟨hdone.called, hdone.complete⟩)
    · left
      have hopen := h.push .shutdownInLoop (fun _ => hcalled) (fun _ hacc => hacc)
      exact hopen.setCall t _ (by simp)
  | swap =>
    left
    rw [← pure_eq_ok.mp hs]
    exact h.requeue (BatchQueue.contents_swap he.2)
  | runFunctor w =>
    obtain ⟨-, ⟨f, queue⟩, hpop, hw⟩ := he
    have hpop' : s.queue.pop? = some (f, queue) := hpop
    simp only [Session.step, hpop'] at hs
    rcases h.runFunctor hpop' hw hs with hopen | hdone
    · exact Or.inl hopen
    · exact Or.inr (Or.inr hdone)
  | finish =>
    left
    rw [← pure_eq_ok.mp hs]
    exact h.requeue (BatchQueue.contents_finish he.2)
  | handleWrite w =>
    simp only [Session.step, Session.onConn, bind_eq_ok, pure_eq_ok] at hs
    obtain ⟨c, hc, rfl⟩ := hs
    rcases h.handleWrite he.2.2 ho hc with hopen | hdone
    · exact Or.inl hopen
    · exact Or.inr (Or.inr hdone)
  | handleRead r =>
    simp only [Session.step, Session.onConn, bind_eq_ok, pure_eq_ok] at hs
    obtain ⟨c, hc, rfl⟩ := hs
    obtain ⟨hsock, -, hstate | ⟨hn, hstate, -⟩⟩ := handleRead_frame hc
    · refine Or.inl (h.onConn (h.integrity.handleRead hc) hstate ?_ ?_)
      · rw [hsock]
        exact h.notShut
      · rw [hsock]
        exact h.notBroken
    · exact Or.inr (h.close (ho hn) hstate hsock)
  | handleClose =>
    simp only [Session.step, Session.onConn, bind_eq_ok, pure_eq_ok] at hs
    obtain ⟨c, hc, rfl⟩ := hs
    obtain ⟨-, rfl⟩ := handleClose_eq_ok.mp hc
    exact Or.inr (h.close ho rfl rfl)
  | connectDestroyed =>
    simp only [Session.step, Session.onConn, bind_eq_ok, pure_eq_ok] at hs
    obtain ⟨c, hc, rfl⟩ := hs
    obtain ⟨hsock, hout, ⟨hne, hstate⟩ | ⟨hcon, hstate⟩⟩ := connectDestroyed_frame hc
    · refine Or.inl (h.onConn (h.integrity.connectDestroyed hc) hstate ?_ ?_)
      · rw [hsock]
        exact h.notShut
      · rw [hsock]
        exact h.notBroken
    · exact Or.inr (h.close (ho hcon) hstate hsock)

/-- In a run without overtaking, every message whose `send` saw `kConnected` and
returned before `shutdown` was called is written when the write side is shut. -/
theorem shutdown_after_accepted
    (h : ((machine loopThread).restrict (Orderly loopThread)).Reachable s)
    (hshut : s.conn.socket_.writeShut) : ∀ tag ∈ s.accepted, Complete s tag := by
  have hinv : Open s ∨ Dead s ∨ Done s := by
    apply h.invariant
    · intro s hinit
      obtain ⟨writeComplete, highWater, highWaterMark, c, hc, rfl⟩ := hinit
      exact Or.inl (start_open hc)
    · intro s a s' hinv he hs
      rcases hinv with hopen | hdead | hdone
      · exact hopen.step he.1 he.2 hs
      · exact Or.inr (Or.inl (hdead.step he.1 hs))
      · exact Or.inr (Or.inr (hdone.grows (grows_of_step hs)))
  rcases hinv with hopen | hdead | hdone
  · rw [hopen.notShut] at hshut
    cases hshut
  · rw [hdead.notShut] at hshut
    cases hshut
  · exact hdone.complete

end Runs

def sampleConn : TcpConnection :=
  { TcpConnection.new true true 2 with
    state_ := .kConnected
    channel_ := Channel.new.enableReading
    notices := [.connectionCallback true] }

theorem sampleConn_init (loopThread : Bool) :
    (machine loopThread).init (Session.start sampleConn) :=
  ⟨true, true, 2, sampleConn, connectEstablished_eq_ok.mpr ⟨rfl, rfl⟩, rfl⟩

/-- Another thread sends, the message goes out in two writes, and the loop's
thread calls `shutdown` between them. -/
def sampleActs : List (Act Bool) :=
  [.sendCheck false [1, 2], .sendHand false [1, 2] (.wrote 0), .swap, .runFunctor (.wrote 1),
    .finish, .shutdownCheck true, .shutdownSet true, .shutdownHand true, .handleWrite (.wrote 1)]

instance (s : Session Bool) (a : Act Bool) :
    Decidable (((machine true).restrict (Orderly true)).enabled s a) :=
  inferInstanceAs (Decidable (s.Enabled true a ∧ Orderly true s a))

instance (s : Session Bool) (a : Act Bool) : Decidable ((machine true).enabled s a) :=
  inferInstanceAs (Decidable (s.Enabled true a))

theorem shutdown_after_accepted_sample :
    ∃ s : Session Bool, s.conn.socket_.writeShut ∧ 0 ∈ s.accepted ∧ Complete s 0 := by
  have h : ((((machine true).restrict (Orderly true)).execute
      (Session.start sampleConn) sampleActs).map
      fun s => (s.conn.socket_.writeShut, s.accepted)) = some (true, [0]) := by
    decide +kernel
  obtain ⟨s, hs, hview⟩ := Option.map_eq_some_iff.mp h
  obtain ⟨hshut, hacc⟩ := Prod.mk.inj hview
  have hmem : 0 ∈ s.accepted := by simp [hacc]
  refine ⟨s, hshut, hmem, ?_⟩
  exact shutdown_after_accepted
    ⟨_, sampleActs, sampleConn_init true, Machine.run_of_execute _ hs⟩ hshut 0 hmem

/-- The loop's thread calls `shutdown` while the message of another thread, whose
`send` has returned, is still queued. -/
def overtakingActs : List (Act Bool) :=
  [.sendCheck false [7], .sendHand false [7] (.wrote 0), .shutdownCheck true, .shutdownSet true,
    .shutdownHand true]

theorem shutdown_overtakes_send :
    ¬ ∀ s : Session Bool, (machine true).Reachable s → s.conn.socket_.writeShut →
      ∀ tag ∈ s.accepted, Complete s tag := by
  intro hall
  have h : (((machine true).execute (Session.start sampleConn) overtakingActs).map
      fun s => (s.conn.socket_.writeShut, s.accepted, s.handed)) = some (true, [0], []) := by
    decide +kernel
  obtain ⟨s, hs, hview⟩ := Option.map_eq_some_iff.mp h
  simp only [Prod.mk.injEq] at hview
  obtain ⟨hshut, hacc, hhanded⟩ := hview
  have hreach : (machine true).Reachable s :=
    ⟨_, overtakingActs, sampleConn_init true, Machine.run_of_execute _ hs⟩
  obtain ⟨before, data, after, hsplit, -⟩ := hall s hreach hshut 0 (by simp [hacc])
  simp [hhanded] at hsplit

end MuduoServer.GracefulShutdown
