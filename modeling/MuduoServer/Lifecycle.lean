import MuduoServer.ServerInvariant

/-!
The life of a connection from `newConnection` on, whatever the order of events,
calls of the user and the destruction of the server. `connectDestroyed` disables
the channel just in `kConnected`; a connection that is closing when it is called
still watches its channel, and `Channel::remove` fails. Apart from that a
connection can only miss its last callback when nobody destroys it: when another
connection takes its name, or when its loop returns with its functor.
-/
namespace MuduoServer

open FaultMachine FaultMachine.Machine Relation

namespace ServerSystem
variable {L : Type} [DecidableEq L]

/-- The loop does not return with the `connectDestroyed` of a connection that is not
disconnected. -/
def EndsDrained (s : ServerSystem L) : ServerStep L → Prop
  | .finish l => (s.loops l).quit_ = true → ∀ f ∈ s.contents l, ∀ c ∈ s.conns f.conn,
      f = .connectDestroyed f.conn → c.tcp.state_ = .kDisconnected
  | _ => True

/-- The new name is not in the table, no closing connection is destroyed, and no loop
returns with an open connection to destroy. -/
def Orderly (s : ServerSystem L) (a : ServerStep L) : Prop :=
  s.FreshName a ∧ ¬ s.ClosesAbruptly a ∧ s.EndsDrained a

/-- The last pointer to connection `i` that the server has is gone: it is not in the
table, and no functor that holds it waits in a running loop. -/
def Released (s : ServerSystem L) (i : ℕ) (c : Connection L) : Prop :=
  s.server.connections_.lookup c.name_ ≠ some i ∧
    ∀ l, (s.loops l).returned = false → .connectEstablished i ∉ s.contents l ∧
      .removeConnectionInLoop i ∉ s.contents l ∧ .connectDestroyed i ∉ s.contents l

/-- What a loop has left behind is about disconnected connections. -/
def LeavesClosed (s : ServerSystem L) : Prop :=
  ∀ l, (s.loops l).returned = true → ∀ i c, s.conns i = some c →
    .connectDestroyed i ∈ s.contents l → c.tcp.state_ = .kDisconnected

variable {s s' : ServerSystem L} {a : ServerStep L}

theorem LeavesClosed.step (h : s.LeavesClosed) (hgood : s.Good) (he : s.Enabled a)
    (hdrained : s.EndsDrained a) (hs : s.step a = .ok s') (ha : s.Advances a s') :
    s'.LeavesClosed := by
  intro l hret i c' hc' hin
  have hold : .connectDestroyed i ∈ s.contents l ∧
      ((s.loops l).returned = true ∨ a = .finish l ∧ (s.loops l).quit_ = true) := by
    rcases ha.returned l with hsame | ⟨rfl, -, hquit⟩
    · rw [hsame] at hret
      refine ⟨?_, Or.inl hret⟩
      rcases ha.queues l _ hin with hin | hnew
      · exact hin
      · have hrun : (s.loops l).returned = false := hnew
        rw [hret] at hrun
        cases hrun
    · rw [contents_finish he hs] at hin
      exact ⟨hin, Or.inr ⟨rfl, hquit.symm.trans hret⟩⟩
  obtain ⟨hin, hwhen⟩ := hold
  obtain ⟨c, hc, -⟩ := hgood.tracked.placed l _ hin
  obtain ⟨t, ht, hedge⟩ := ha.conns i c hc
  obtain rfl := Option.some.inj (ht.symm.trans hc')
  apply edge_disconnected hedge
  rcases hwhen with hret | ⟨rfl, hquit⟩
  · exact h l hret i c hc hin
  · exact hdrained hquit _ hin c hc rfl

omit [DecidableEq L] in
/-- A connection without pointers has been told of its end. -/
theorem callbacks_of_released (hgood : s.Good) (hleaves : s.LeavesClosed) {i : ℕ}
    {c : Connection L} (hc : s.conns i = some c) (hrel : s.Released i c) :
    c.tcp.connectionCallbacks = [true, false] := by
  have hv := hgood.tracked.tracks i c hc
  have hstate : c.tcp.state_ = .kDisconnected := by
    by_cases hzero : (s.ledger s.contents i c).destroyed ≠ 0
    · exact hv.standing.ended hzero
    · have hin : .connectDestroyed i ∈ s.contents c.loop_ :=
        hgood.tracked.waiting hc hrel.1 (not_not.mp hzero)
      cases hret : (s.loops c.loop_).returned with
      | true => exact hleaves c.loop_ hret i c hc hin
      | false => exact absurd hin (hrel.2 c.loop_ hret).2.2
  rw [hv.standing.callbacks, hstate]
  rfl

theorem orderly_step (hinv : s.Good ∧ s.LeavesClosed)
    (he : ((machine : Machine (ServerSystem L) _ _).restrict Orderly).enabled s a)
    (hs : s.step a = .ok s') : (s'.Good ∧ s'.LeavesClosed) ∧ s.Advances a s' := by
  obtain ⟨hgood, hleaves⟩ := hinv
  obtain ⟨he, hfresh, -, hdrained⟩ := he
  obtain ⟨hgood', hadv⟩ := (hgood.step he hfresh).of_ok hs
  exact ⟨⟨hgood', hleaves.step hgood he hdrained hs hadv⟩, hadv⟩

theorem orderly_of_reachable
    (h : ((machine : Machine (ServerSystem L) _ _).restrict Orderly).Reachable s) :
    s.Good ∧ s.LeavesClosed := by
  refine h.invariant (I := fun s => s.Good ∧ s.LeavesClosed) ?_ ?_
  · rintro s₀ ⟨hostport_, name_, writeComplete, baseLoop_, loops_, rfl⟩
    refine ⟨start_good .., ?_⟩
    intro l hret
    cases hret
  · intro s a s' hinv he hs
    exact (orderly_step hinv he hs).1

/-- Along a run the states only move forward. -/
theorem edges_of_run {as : List (ServerStep L)} (hinv : s.Good ∧ s.LeavesClosed)
    (hr : ((machine : Machine (ServerSystem L) _ _).restrict Orderly).Run s as s') {i : ℕ}
    {c : Connection L} (hc : s.conns i = some c) :
    ∃ t, s'.conns i = some { c with tcp := t } ∧
      ReflTransGen StateE.Edge c.tcp.state_ t.state_ := by
  refine hr.relates (I := fun s => s.Good ∧ s.LeavesClosed)
    (R := fun s s' => ∀ c, s.conns i = some c → ∃ t, s'.conns i = some { c with tcp := t } ∧
      ReflTransGen StateE.Edge c.tcp.state_ t.state_) ?_ ?_ ?_ ?_ hinv c hc
  · exact fun s a s' hinv he hs => (orderly_step hinv he hs).1
  · exact fun s c hc => ⟨c.tcp, hc, .refl⟩
  · intro s t u hst htu c hc
    obtain ⟨x, hx, hedge⟩ := hst c hc
    obtain ⟨y, hy, hedge'⟩ := htu _ hx
    exact ⟨y, hy, hedge.trans hedge'⟩
  · exact fun s a s' hinv he hs c hc => (orderly_step hinv he hs).2.conns i c hc

/-- In an orderly run every connection is told of its start and then of its end, each
once and the latter before it is released; its state moves along the edges; the
close callback is called once at most; and none of the assertions about the state
and the channel fails. -/
theorem connection_lifecycle
    (h : ((machine : Machine (ServerSystem L) _ _).restrict Orderly).Reachable s) :
    (∀ i c, s.conns i = some c →
      c.tcp.connectionCallbacks = c.tcp.state_.callbacks ∧ c.tcp.closeCallbacks ≤ 1 ∧
      (s.Released i c → c.tcp.connectionCallbacks = [true, false]) ∧
      ∀ as s', ((machine : Machine (ServerSystem L) _ _).restrict Orderly).Run s as s' →
        ∃ t, s'.conns i = some { c with tcp := t } ∧
          ReflTransGen StateE.Edge c.tcp.state_ t.state_) ∧
    ∀ a f, ((machine : Machine (ServerSystem L) _ _).restrict Orderly).enabled s a →
      s.step a = .error (.conn f) → f.asserted = false := by
  have hinv := orderly_of_reachable h
  constructor
  · intro i c hc
    have hv := (hinv.1.tracked.tracks i c hc).standing
    refine ⟨hv.callbacks, le_trans hv.closes ?_, ?_, ?_⟩
    · split <;> omega
    · exact callbacks_of_released hinv.1 hinv.2 hc
    · exact fun as s' hr => edges_of_run hinv hr hc
  · intro a f he hs
    obtain ⟨he, hfresh, hnot, -⟩ := he
    rcases (hinv.1.step he hfresh).of_error hs with hother | ⟨hclosing, -⟩ | ⟨-, hgone⟩
    · exact hother
    · exact absurd hclosing hnot
    · cases hgone

section Sample

instance (s : ServerSystem L) (f : ServerFunctor) : Decidable (s.EndsClosing f) :=
  match f with
  | .connectDestroyed _ => inferInstanceAs (Decidable (∃ c ∈ _, _ = _))
  | .connectEstablished _ | .removeConnectionInLoop _ | .sendInLoop _ _
  | .shutdownInLoop _ => instDecidableFalse

instance (s : ServerSystem L) (e : Σ _ : Name, ℕ) : Decidable (s.ClosingEntry e) :=
  inferInstanceAs (Decidable (∃ c ∈ _, _ ∧ _))

instance (s : ServerSystem L) (a : ServerStep L) : Decidable (s.ClosesAbruptly a) :=
  match a with
  | .runFunctor _ _ => inferInstanceAs (Decidable (∃ f ∈ _, s.EndsClosing f))
  | .destroy => inferInstanceAs (Decidable (∃ e ∈ _, s.ClosingEntry e))
  | .newConnection | .handleEvent _ _ _ _ | .send _ _ _ _ | .shutdown _ _
  | .setHighWaterMarkCallback _ _ | .swap _ | .finish _ | .quit _ | .joined =>
    instDecidableFalse

instance (s : ServerSystem L) (a : ServerStep L) : Decidable (s.EndsDrained a) :=
  match a with
  | .finish l => inferInstanceAs (Decidable (_ → ∀ f ∈ s.contents l, ∀ c ∈ _, _ → _))
  | .newConnection | .handleEvent _ _ _ _ | .send _ _ _ _ | .shutdown _ _
  | .setHighWaterMarkCallback _ _ | .swap _ | .runFunctor _ _ | .quit _ | .destroy
  | .joined => instDecidableTrue

instance (s : ServerSystem L) (a : ServerStep L) :
    Decidable (((machine : Machine (ServerSystem L) _ _).restrict Orderly).enabled s a) :=
  inferInstanceAs (Decidable (s.Enabled a ∧ s.FreshName a ∧ ¬ s.ClosesAbruptly a ∧
    s.EndsDrained a))

/-- An acceptor in the loop `true`, with a pool that has the loop `false`. -/
def sampleStart : ServerSystem Bool :=
  start "0.0.0.0:9981".toList "TestServer".toList false true [false]

/-- A connection from its acceptance to `connectDestroyed`, after the peer has closed it. -/
def sampleSteps : List (ServerStep Bool) :=
  [.newConnection, .swap false, .runFunctor false (.wrote 0), .finish false,
    .handleEvent 1 {.POLLIN} (.bytes []) (.wrote 0), .swap true, .runFunctor true (.wrote 0),
    .finish true, .swap false, .runFunctor false (.wrote 0), .finish false]

theorem connection_lifecycle_sample :
    ∃ (s : ServerSystem Bool) (c : Connection Bool), s.conns 1 = some c ∧
      c.tcp.state_ = .kDisconnected ∧ c.tcp.connectionCallbacks = [true, false] ∧
      c.tcp.closeCallbacks ≤ 1 := by
  have h : (((machine.restrict Orderly).execute sampleStart sampleSteps).bind fun s =>
      (s.conns 1).map fun c => c.tcp.state_) = some .kDisconnected := by
    decide +kernel
  obtain ⟨s, hs, hview⟩ := Option.bind_eq_some_iff.mp h
  obtain ⟨c, hc, hstate⟩ := Option.map_eq_some_iff.mp hview
  obtain ⟨hcallbacks, hclose, -, -⟩ := (connection_lifecycle
    ⟨_, sampleSteps, ⟨_, _, _, _, _, rfl⟩, run_of_execute _ hs⟩).1 1 c hc
  rw [hstate] at hcallbacks
  exact ⟨s, c, hc, hstate, hcallbacks, hclose⟩

/-- The server is destroyed while a connection waits for its peer to close. -/
theorem destroy_disconnecting :
    ¬ ∀ s : ServerSystem Unit, machine.Reachable s → ∀ a f, machine.enabled s a →
      s.step a = .error (.conn f) → f.asserted = false := by
  intro hall
  have h : ((machine.execute
      (start "0.0.0.0:9981".toList "TestServer".toList false () [])
      [.newConnection, .shutdown 1 true]).map fun s =>
        (decide (s.life = .serving), fault? (s.step .destroy))) = some (true, some (.conn (.channel .notNoneEvent))) := by
    decide +kernel
  obtain ⟨s, hs, hview⟩ := Option.map_eq_some_iff.mp h
  obtain ⟨hlife, hfault⟩ := Prod.mk.inj hview
  have hreach : machine.Reachable s := ⟨_, _, ⟨_, _, _, _, _, rfl⟩, run_of_execute _ hs⟩
  have hfalse := hall s hreach .destroy _ (of_decide_eq_true hlife) (fault?_eq_some.mp hfault)
  cases hfalse

end Sample

end ServerSystem

end MuduoServer
