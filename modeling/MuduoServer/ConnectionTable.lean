import MuduoServer.ServerInvariant

/-!
The table of the server across its loops. A removal goes from the loop of the
connection to the acceptor's loop with a raw pointer to the server, and the
destructor empties the table by itself; so a removal that still waits when the
destructor begins, or that is queued while it joins its threads, is called on a
destroyed server. Where this does not happen, and loops return with nothing left
to destroy, the table and `connectDestroyed` are right in any interleaving.
-/
namespace MuduoServer

open FaultMachine FaultMachine.Machine

namespace ServerSystem
variable {L : Type}

/-- The acceptor's loop has no removal left to call. -/
def RemovalsDone (s : ServerSystem L) : Prop :=
  (s.loops s.server.loop_).returned = true ∨
    ∀ f ∈ s.contents s.server.loop_, f ≠ .removeConnectionInLoop f.conn

/-- No removal waits when the destructor begins, and none is queued afterwards. -/
def RemovesFirst (s : ServerSystem L) : ServerStep L → Prop
  | .destroy => s.RemovalsDone
  | .handleEvent _ revents r _ => TcpConnection.Ends revents r →
      s.life = .serving ∨ (s.loops s.server.loop_).returned = true
  | _ => True

/-- A pool loop returns after `connectDestroyed` of all its connections, and the
acceptor's loop with none of them waiting. -/
def ReturnsLast (s : ServerSystem L) : ServerStep L → Prop
  | .finish l => (s.loops l).quit_ = true → ∀ i < s.server.nextConnId_, ∀ c ∈ s.conns i,
      c.loop_ = l → i ∈ s.destroyed ∨
        (l = s.server.loop_ ∧ .connectDestroyed i ∉ s.contents l)
  | _ => True

def Timely (s : ServerSystem L) (a : ServerStep L) : Prop :=
  s.FreshName a ∧ s.RemovesFirst a ∧ s.ReturnsLast a

/-- `connectDestroyed` of the connection is still to come: the table has it and its
loop will take the functor, or the functor waits in a running loop. -/
def Awaits (s : ServerSystem L) (i : ℕ) (c : Connection L) : Prop :=
  (s.server.connections_.lookup c.name_ = some i ∧
    ((s.loops c.loop_).returned = true → c.loop_ = s.server.loop_)) ∨
  (.connectDestroyed i ∈ s.contents c.loop_ ∧ (s.loops c.loop_).returned = false)

/-- What a timely run keeps besides the ledgers. -/
structure Kept (s : ServerSystem L) : Prop where
  removals : s.life ≠ .serving → s.RemovalsDone
  returned : ∀ l, (s.loops l).returned = true → ∀ i c, s.conns i = some c → c.loop_ = l →
    i ∈ s.destroyed ∨ (l = s.server.loop_ ∧ .connectDestroyed i ∉ s.contents l)

variable {s s' : ServerSystem L} {a : ServerStep L}

/-- New removals come from poll results that end a connection. -/
theorem RemovalsDone.step (h : s.RemovalsDone) (ha : s.Advances a s')
    (hnone : ∀ i revents r w, a = .handleEvent i revents r w → TcpConnection.Ends revents r →
      (s.loops s.server.loop_).returned = true) : s'.RemovalsDone := by
  have hstays : (s.loops s.server.loop_).returned = true → s'.RemovalsDone := by
    intro hret
    left
    rw [ha.loop_]
    rcases ha.returned s.server.loop_ with hsame | ⟨-, hrun, -⟩
    · rw [hsame, hret]
    · rw [hret] at hrun
      cases hrun
  rcases h with hret | hold
  · exact hstays hret
  · by_cases hret : (s.loops s.server.loop_).returned = true
    · exact hstays hret
    · right
      intro f hf hremoval
      rw [ha.loop_] at hf
      rcases ha.queues _ f hf with hin | hnew
      · exact hold f hin hremoval
      · rw [hremoval] at hnew
        obtain ⟨i, revents, r, w, rfl, hends⟩ := hnew
        exact hret (hnone i revents r w rfl hends)

theorem Kept.removals_step (h : s.Kept) (ha : s.Advances a s') (he : s.Enabled a)
    (hfirst : s.RemovesFirst a) (hlife : s'.life ≠ .serving) : s'.RemovalsDone := by
  by_cases hserving : s.life = .serving
  · rcases ha.life with hsame | rfl | rfl
    · exact absurd (hsame.trans hserving) hlife
    · exact RemovalsDone.step hfirst ha fun _ _ _ _ heq => (by cases heq)
    · rw [he.1] at hserving
      cases hserving
  · apply (h.removals hserving).step ha
    rintro i revents r w rfl hends
    exact (hfirst hends).resolve_left hserving

/-- While the server is alive its table has the connections that were not removed,
each under its own name. -/
theorem Good.lookup_iff (h : s.Good) (hlife : s.life = .serving) (name : Name) (i : ℕ) :
    s.server.connections_.lookup name = some i ↔
      ∃ c, s.conns i = some c ∧ c.name_ = name ∧ i ∉ s.removed := by
  constructor
  · intro hlook
    obtain ⟨c, hc, rfl⟩ := h.tracked.entries name i hlook
    exact ⟨c, hc, rfl, (h.settled.serving hlife i c hc).mp hlook⟩
  · rintro ⟨c, hc, rfl, hnot⟩
    exact (h.settled.serving hlife i c hc).mpr hnot

/-- A connection that is not destroyed is in the table or has its functor waiting. -/
theorem Good.destroyed_or_awaits (h : s.Good) (hkept : s.Kept) {i : ℕ} {c : Connection L}
    (hc : s.conns i = some c) :
    s.destroyed.count i = 1 ∨ s.destroyed.count i = 0 ∧ s.Awaits i c := by
  have honce : s.destroyed.count i ≤ 1 := (h.tracked.tracks i c hc).once
  by_cases hzero : s.destroyed.count i = 0
  swap
  · left
    omega
  have hnot : i ∉ s.destroyed := List.count_eq_zero.mp hzero
  refine Or.inr ⟨hzero, ?_⟩
  by_cases hlook : s.server.connections_.lookup c.name_ = some i
  · refine Or.inl ⟨hlook, ?_⟩
    intro hret
    rcases hkept.returned c.loop_ hret i c hc rfl with hin | ⟨hbase, -⟩
    · exact absurd hin hnot
    · exact hbase
  · have hin : .connectDestroyed i ∈ s.contents c.loop_ := h.tracked.waiting hc hlook hzero
    refine Or.inr ⟨hin, ?_⟩
    by_contra hr
    have hret : (s.loops c.loop_).returned = true := by simpa using hr
    rcases hkept.returned c.loop_ hret i c hc rfl with hdone | ⟨-, hnone⟩
    · exact hnot hdone
    · exact hnone hin

/-- Nobody waits any more when the server is gone and its loop is empty. -/
theorem Good.not_awaits (h : s.Good) (hlife : s.life = .destroyed)
    (hempty : s.contents s.server.loop_ = []) {i : ℕ} {c : Connection L}
    (hc : s.conns i = some c) : ¬ s.Awaits i c := by
  rintro (⟨hlook, -⟩ | ⟨hin, hret⟩)
  · rw [h.settled.emptied (by simp [hlife])] at hlook
    cases hlook
  · rcases h.settled.pooled i c hc with hbase | hpool
    · rw [hbase, hempty] at hin
      cases hin
    · rw [h.settled.joined hlife c.loop_ hpool] at hret
      cases hret

/-- No removal is called on a destroyed server. -/
theorem Kept.not_runsGone (h : s.Kept) (hgood : s.Good) (he : s.Enabled a) : ¬ s.RunsGone a := by
  cases a with
  | runFunctor l w =>
    rintro ⟨f, hf, hgone⟩
    obtain ⟨⟨f', queue⟩, hpop, rfl⟩ := Option.map_eq_some_iff.mp hf
    have hin : f' ∈ s.contents l := by
      have hcontents : s.contents l = f' :: queue.contents := BatchQueue.contents_pop hpop
      rw [hcontents]
      exact List.mem_cons_self
    cases f' with
    | removeConnectionInLoop i =>
      have hlife : s.life = .destroyed := hgone
      obtain ⟨_, _, hl⟩ := hgood.tracked.placed l _ hin
      have hl : l = s.server.loop_ := hl
      subst hl
      rcases h.removals (by simp [hlife]) with hret | hnone
      · rw [he.1.1] at hret
        cases hret
      · exact hnone _ hin rfl
    | connectEstablished | connectDestroyed | sendInLoop | shutdownInLoop => exact hgone
  | _ => exact id

variable [DecidableEq L]

theorem Kept.returned_step (h : s.Kept) (hgood : s.Good) (ha : s.Advances a s')
    (he : s.Enabled a) (hs : s.step a = .ok s') (hlast : s.ReturnsLast a) {l : L}
    (hret : (s'.loops l).returned = true) {i : ℕ} {c' : Connection L}
    (hc' : s'.conns i = some c') (hl : c'.loop_ = l) :
    i ∈ s'.destroyed ∨ (l = s'.server.loop_ ∧ .connectDestroyed i ∉ s'.contents l) := by
  rw [ha.loop_]
  rcases ha.returned l with hsame | ⟨rfl, -, hquit⟩
  · rw [hsame] at hret
    cases hc : s.conns i with
    | none =>
      have hruns := ha.accepted i c' hc hc'
      rw [hl, hret] at hruns
      cases hruns
    | some c =>
      obtain ⟨t, ht, -⟩ := ha.conns i c hc
      obtain rfl := Option.some.inj (ht.symm.trans hc')
      rcases h.returned l hret i c hc hl with hin | ⟨hbase, hnot⟩
      · exact Or.inl (ha.destroyed hin)
      · refine Or.inr ⟨hbase, ?_⟩
        intro hin
        rcases ha.queues l _ hin with hold | hnew
        · exact hnot hold
        · have hrun : (s.loops l).returned = false := hnew
          rw [hret] at hrun
          cases hrun
  · -- the loop has just returned
    rw [contents_finish he hs]
    obtain rfl := Except.ok.inj hs
    have hnum : i < s.server.nextConnId_ := hgood.tracked.lt hc'
    exact hlast (hquit.symm.trans hret) i hnum c' hc' hl

theorem timely_step (hinv : s.Good ∧ s.Kept)
    (he : ((machine : Machine (ServerSystem L) _ _).restrict Timely).enabled s a)
    (hs : s.step a = .ok s') : s'.Good ∧ s'.Kept := by
  obtain ⟨hgood, hkept⟩ := hinv
  obtain ⟨he, hfresh, hfirst, hlast⟩ := he
  obtain ⟨hgood', hadv⟩ := (hgood.step he hfresh).of_ok hs
  refine ⟨hgood', ⟨hkept.removals_step hadv he hfirst, ?_⟩⟩
  intro l hret i c' hc' hl
  exact hkept.returned_step hgood hadv he hs hlast hret hc' hl

theorem timely_of_reachable
    (h : ((machine : Machine (ServerSystem L) _ _).restrict Timely).Reachable s) :
    s.Good ∧ s.Kept := by
  apply h.invariant (I := fun s => s.Good ∧ s.Kept)
  · rintro s₀ ⟨hostport_, name_, writeComplete, baseLoop_, loops_, rfl⟩
    refine ⟨start_good .., ⟨fun hlife => absurd rfl hlife, ?_⟩⟩
    intro l hret
    cases hret
  · intro s a s' hinv he hs
    exact timely_step hinv he hs

/-- In a timely run the table has just the accepted connections whose removal has not
run; `connectDestroyed` is called once for each connection, or still to come, and
not to come any more when all is over; the erase finds its entry; and nothing is
called on a destroyed server. -/
theorem connection_table
    (h : ((machine : Machine (ServerSystem L) _ _).restrict Timely).Reachable s) :
    (s.life = .serving → ∀ name i, s.server.connections_.lookup name = some i ↔
      ∃ c, s.conns i = some c ∧ c.name_ = name ∧ i ∉ s.removed) ∧
    (∀ i c, s.conns i = some c →
      (s.destroyed.count i = 1 ∨ s.destroyed.count i = 0 ∧ s.Awaits i c) ∧
      (s.life = .destroyed → s.contents s.server.loop_ = [] → s.destroyed.count i = 1)) ∧
    ∀ a, ((machine : Machine (ServerSystem L) _ _).restrict Timely).enabled s a →
      s.step a ≠ .error .eraseCount ∧ s.step a ≠ .error .serverGone := by
  obtain ⟨hgood, hkept⟩ := timely_of_reachable h
  refine ⟨hgood.lookup_iff, ?_, ?_⟩
  · intro i c hc
    have hdestroyed := hgood.destroyed_or_awaits hkept hc
    refine ⟨hdestroyed, ?_⟩
    intro hlife hempty
    exact hdestroyed.resolve_right fun hwait => hgood.not_awaits hlife hempty hc hwait.2
  · rintro a ⟨he, hfresh, -, -⟩
    have hyields := hgood.step he hfresh
    constructor
    · intro hs
      rcases hyields.of_error hs with hother | ⟨-, e, hconn⟩ | ⟨-, hgone⟩
      · exact hother
      · cases hconn
      · cases hgone
    · intro hs
      rcases hyields.of_error hs with hother | ⟨-, e, hconn⟩ | ⟨hruns, -⟩
      · exact hother
      · cases hconn
      · exact hkept.not_runsGone hgood he hruns

section Sample

instance (s : ServerSystem L) (a : ServerStep L) : Decidable (s.RemovesFirst a) :=
  match a with
  | .destroy => inferInstanceAs (Decidable (_ ∨ _))
  | .handleEvent _ _ _ _ => inferInstanceAs (Decidable (_ → _ ∨ _))
  | .newConnection | .send _ _ _ _ | .shutdown _ _ | .setHighWaterMarkCallback _ _
  | .swap _ | .runFunctor _ _ | .finish _ | .quit _ | .joined => instDecidableTrue

instance (s : ServerSystem L) (a : ServerStep L) : Decidable (s.ReturnsLast a) :=
  match a with
  | .finish _ => inferInstanceAs (Decidable (_ = true → ∀ i < _, ∀ c ∈ _, _ → _ ∨ _ ∧ _))
  | .newConnection | .handleEvent _ _ _ _ | .send _ _ _ _ | .shutdown _ _
  | .setHighWaterMarkCallback _ _ | .swap _ | .runFunctor _ _ | .quit _ | .destroy
  | .joined => instDecidableTrue

instance (s : ServerSystem L) (a : ServerStep L) :
    Decidable (((machine : Machine (ServerSystem L) _ _).restrict Timely).enabled s a) :=
  inferInstanceAs (Decidable (s.Enabled a ∧ s.FreshName a ∧ s.RemovesFirst a ∧ s.ReturnsLast a))

/-- An acceptor in the loop `true`, with a pool that has the loop `false`. -/
def pooled : ServerSystem Bool :=
  start "127.0.0.1:9981".toList "Server".toList true true [false]

/-- Two connections, of which the peer closes the first one; the destructor ends the
other one. -/
def timelySteps : List (ServerStep Bool) :=
  [.newConnection, .newConnection, .swap false, .runFunctor false (.wrote 0),
    .runFunctor false (.wrote 0), .finish false,
    .handleEvent 1 {.POLLIN} (.bytes []) (.wrote 0), .swap true, .runFunctor true (.wrote 0),
    .finish true, .destroy, .swap false, .runFunctor false (.wrote 0),
    .runFunctor false (.wrote 0), .quit false, .finish false, .joined]

theorem connection_table_sample :
    ∃ s : ServerSystem Bool, s.life = .destroyed ∧ s.destroyed.count 1 = 1 ∧
      s.destroyed.count 2 = 1 ∧ s.step (.swap true) ≠ .error .serverGone := by
  have h : (((machine.restrict Timely).execute pooled timelySteps).map fun s =>
      ((s.life, s.contents s.server.loop_, (s.conns 1).isSome, (s.conns 2).isSome),
        decide (((machine : Machine (ServerSystem Bool) _ _).restrict Timely).enabled s
          (.swap true)))) = some ((.destroyed, [], true, true), true) := by
    decide +kernel
  obtain ⟨s, hs, hview⟩ := Option.map_eq_some_iff.mp h
  simp only [Prod.mk.injEq, decide_eq_true_eq] at hview
  obtain ⟨⟨hlife, hempty, h₁, h₂⟩, hswap⟩ := hview
  obtain ⟨c₁, hc₁⟩ := Option.isSome_iff_exists.mp h₁
  obtain ⟨c₂, hc₂⟩ := Option.isSome_iff_exists.mp h₂
  obtain ⟨-, hdestroyed, hsafe⟩ := connection_table
    ⟨_, timelySteps, ⟨_, _, _, _, _, rfl⟩, run_of_execute _ hs⟩
  exact ⟨s, hlife, (hdestroyed 1 c₁ hc₁).2 hlife hempty, (hdestroyed 2 c₂ hc₂).2 hlife hempty,
    (hsafe _ hswap).2⟩

/-- The peer closes a connection of the pool just before the server is destroyed. -/
def staleSteps : List (ServerStep Bool) :=
  [.newConnection, .swap false, .runFunctor false (.wrote 0), .finish false,
    .handleEvent 1 {.POLLIN} (.bytes []) (.wrote 0), .destroy, .swap false,
    .runFunctor false (.wrote 0), .quit false, .finish false, .joined, .swap true]

/-- The removal is called after the end of the server. -/
theorem removal_after_destructor :
    ¬ ∀ s : ServerSystem Bool, machine.Reachable s → ∀ a, machine.enabled s a →
      s.step a ≠ .error .serverGone := by
  intro hall
  have h : ((machine.execute pooled staleSteps).map fun s =>
      (decide (s.Enabled (.runFunctor true (.wrote 0))),
        fault? (s.step (.runFunctor true (.wrote 0))))) = some (true, some .serverGone) := by
    decide +kernel
  obtain ⟨s, hs, hview⟩ := Option.map_eq_some_iff.mp h
  obtain ⟨he, hfault⟩ := Prod.mk.inj hview
  have hreach : machine.Reachable s := ⟨_, staleSteps, ⟨_, _, _, _, _, rfl⟩, run_of_execute _ hs⟩
  have hen : s.Enabled (.runFunctor true (.wrote 0)) := of_decide_eq_true he
  exact hall s hreach (.runFunctor true (.wrote 0)) hen (fault?_eq_some.mp hfault)

end Sample

end ServerSystem

end MuduoServer
