import MuduoServer.ServerLedger

/-!
What a step of the server system may fail with, how it moves the states of the connections
and which functors it adds to the queues is said here once, for the results about single
connections and about the table; then the acceptance of a connection.
-/
namespace MuduoServer

open FaultMachine Relation

namespace ServerSystem
variable {L : Type}

/-- The states of all connections move along the edges, and no connection is new. -/
structure Turns (s s' : ServerSystem L) : Prop where
  conns : ∀ i c, s.conns i = some c → ∃ t, s'.conns i = some { c with tcp := t } ∧
    ReflTransGen StateE.Edge c.tcp.state_ t.state_
  fresh : ∀ i, s.conns i = none → s'.conns i = none
  loop_ : s'.server.loop_ = s.server.loop_
  loops_ : s'.server.threadPool_.loops_ = s.server.threadPool_.loops_
  life : s'.life = s.life
  returned : ∀ l, (s'.loops l).returned = (s.loops l).returned
  destroyed : s.destroyed ⊆ s'.destroyed

variable {s s' s'' : ServerSystem L} {i : ℕ}

theorem Turns.refl (s : ServerSystem L) : s.Turns s :=
  ⟨fun _ c hc => ⟨c.tcp, hc, .refl⟩, fun _ h => h, rfl, rfl, rfl, fun _ => rfl,
    List.Subset.refl _⟩

theorem Turns.trans (h₁ : s.Turns s') (h₂ : s'.Turns s'') : s.Turns s'' where
  conns := by
    intro i c hc
    obtain ⟨t, ht, he⟩ := h₁.conns i c hc
    obtain ⟨u, hu, he'⟩ := h₂.conns i _ ht
    exact ⟨u, hu, he.trans he'⟩
  fresh i hi := h₂.fresh i (h₁.fresh i hi)
  loop_ := h₂.loop_.trans h₁.loop_
  loops_ := h₂.loops_.trans h₁.loops_
  life := h₂.life.trans h₁.life
  returned l := (h₂.returned l).trans (h₁.returned l)
  destroyed := List.Subset.trans h₁.destroyed h₂.destroyed

/-- Every connection afterwards was there before. -/
theorem Turns.before (h : s.Turns s') {c' : Connection L} (hc : s'.conns i = some c') :
    ∃ c, s.conns i = some c ∧ c'.loop_ = c.loop_ ∧ c'.name_ = c.name_ ∧
      ReflTransGen StateE.Edge c.tcp.state_ c'.tcp.state_ := by
  cases hs : s.conns i with
  | none =>
    rw [h.fresh i hs] at hc
    cases hc
  | some c =>
    obtain ⟨t, ht, he⟩ := h.conns i c hs
    obtain rfl := Option.some.inj (ht.symm.trans hc)
    exact ⟨c, rfl, rfl, rfl, he⟩

theorem Updates.turns (h : Updates i s s') : s.Turns s' where
  conns := by
    obtain ⟨c, t, hc, he, hconns⟩ := h.conn
    intro j d hd
    rw [hconns]
    by_cases hj : j = i
    · subst hj
      obtain rfl := Option.some.inj (hc.symm.trans hd)
      exact ⟨t, Function.update_self .., he⟩
    · exact ⟨d.tcp, by rw [Function.update_of_ne hj, hd], .refl⟩
  fresh := by
    obtain ⟨c, t, hc, -, hconns⟩ := h.conn
    intro j hj
    have hne : j ≠ i := by
      rintro rfl
      rw [hc] at hj
      cases hj
    rw [hconns, Function.update_of_ne hne, hj]
  loop_ := by rw [h.server]
  loops_ := by rw [h.server]
  life := h.life
  returned l := by rw [h.loops]
  destroyed := h.destroyed

theorem Updates.other (h : Updates i s s') {j : ℕ} (hj : j ≠ i) : s'.conns j = s.conns j := by
  obtain ⟨c, t, -, -, hconns⟩ := h.conn
  rw [hconns, Function.update_of_ne hj]

theorem Updates.contents (h : Updates i s s') : s'.contents = s.contents := by
  funext l
  unfold ServerSystem.contents
  rw [h.loops]

theorem TableFits.turns (h : s.TableFits) (ht : s.Turns s')
    (htable : s'.server.connections_ = s.server.connections_)
    (hremoved : s'.removed = s.removed) : s'.TableFits := by
  intro j c' hc'
  obtain ⟨c, hc, -, hname, -⟩ := ht.before hc'
  rw [hname, htable, hremoved]
  exact h j c hc

/-- The table fits while the server serves and is empty afterwards; after the join
the loops of the pool have returned; and a connection in the acceptor's own loop is
established and destroyed at once. -/
structure Settled (s : ServerSystem L) : Prop where
  serving : s.life = .serving → s.TableFits
  emptied : s.life ≠ .serving → s.server.connections_ = ∅
  joined : s.life = .destroyed → ∀ l ∈ s.server.threadPool_.loops_, (s.loops l).returned
  pooled : ∀ i c, s.conns i = some c →
    c.loop_ = s.server.loop_ ∨ c.loop_ ∈ s.server.threadPool_.loops_
  base : ∀ i c, s.conns i = some c → c.loop_ = s.server.loop_ →
    c.tcp.state_ ≠ .kConnecting ∧ (s.life ≠ .serving → c.tcp.state_ = .kDisconnected)

theorem Settled.turns (h : s.Settled) (ht : s.Turns s')
    (hserving : s.life = .serving → s'.TableFits)
    (hempty : s.life ≠ .serving → s'.server.connections_ = ∅) : s'.Settled where
  serving := by rwa [ht.life]
  emptied := by rwa [ht.life]
  joined := by
    intro hlife l hl
    rw [ht.life] at hlife
    rw [ht.loops_] at hl
    rw [ht.returned]
    exact h.joined hlife l hl
  pooled := by
    intro j c' hc'
    obtain ⟨c, hc, hloop, -, -⟩ := ht.before hc'
    rw [hloop, ht.loop_, ht.loops_]
    exact h.pooled j c hc
  base := by
    intro j c' hc' hbase
    obtain ⟨c, hc, hloop, -, he⟩ := ht.before hc'
    rw [hloop, ht.loop_] at hbase
    obtain ⟨hne, hdown⟩ := h.base j c hc hbase
    refine ⟨edge_connecting he hne, ?_⟩
    rw [ht.life]
    exact fun hlife => edge_disconnected he (hdown hlife)

theorem Settled.updates (h : s.Settled) (hu : Updates i s s') : s'.Settled := by
  apply h.turns hu.turns
  · intro hlife
    exact (h.serving hlife).turns hu.turns (by rw [hu.server]) hu.removed
  · intro hlife
    rw [hu.server]
    exact h.emptied hlife

theorem turns_unlist (s : ServerSystem L) (name : Name) (removed : List ℕ) :
    s.Turns (s.unlist name removed) :=
  ⟨fun _ c hc => ⟨c.tcp, hc, .refl⟩, fun _ h => h, rfl, rfl, rfl, fun _ => rfl,
    List.Subset.refl _⟩

/-- New functors in the queues meet `p`. -/
def Queues (s s' : ServerSystem L) (p : L → ServerFunctor → Prop) : Prop :=
  ∀ l, ∀ f ∈ s'.contents l, f ∈ s.contents l ∨ p l f

theorem queues_of_eq (h : s'.contents = s.contents) (p : L → ServerFunctor → Prop) :
    s.Queues s' p := by
  intro l f hf
  rw [h] at hf
  exact Or.inl hf

theorem Queues.mono {p p' : L → ServerFunctor → Prop} (h : s.Queues s' p)
    (hp : ∀ l f, p l f → p' l f) : s.Queues s' p' :=
  fun l f hf => (h l f hf).imp id (hp l f)

variable [DecidableEq L]

theorem turns_pushed (s : ServerSystem L) (l : L) (f : ServerFunctor) : s.Turns (s.pushed l f) :=
  ⟨fun _ c hc => ⟨c.tcp, hc, .refl⟩, fun _ h => h, rfl, rfl, rfl, returned_pushed l f,
    List.Subset.refl _⟩

theorem Settled.pushed (h : s.Settled) (l : L) (f : ServerFunctor) : (s.pushed l f).Settled :=
  h.turns (turns_pushed s l f) h.serving h.emptied

/-- `connectDestroyed` is called in `kDisconnecting`. -/
def EndsClosing (s : ServerSystem L) : ServerFunctor → Prop
  | .connectDestroyed i => ∃ c ∈ s.conns i, c.tcp.state_ = .kDisconnecting
  | _ => False

/-- A functor bound to the server is called after its end. -/
def ReachesGone (s : ServerSystem L) : ServerFunctor → Prop
  | .removeConnectionInLoop _ => s.life = .destroyed
  | _ => False

def CallFault (s : ServerSystem L) (f : ServerFunctor) (e : Fault) : Prop :=
  e.Other ∨ (s.EndsClosing f ∧ ∃ e', e = .conn e') ∨ (s.ReachesGone f ∧ e = .serverGone)

theorem queues_pushed (s : ServerSystem L) (l : L) (f : ServerFunctor) :
    s.Queues (s.pushed l f) fun l' f' => l' = l ∧ f' = f := by
  intro l' f' hf
  rw [contents_pushed] at hf
  exact Adds.last.mem.mp hf

/-- Ledgers and settled facts together, with the functors that wait in the queues. -/
structure Good (s : ServerSystem L) : Prop where
  tracked : s.Tracked s.contents
  settled : s.Settled

omit [DecidableEq L] in
theorem Settled.good_updates (h : s.Settled) (ht : s'.Tracked s.contents) (hu : Updates i s s')
    (p : L → ServerFunctor → Prop) : s'.Good ∧ s.Turns s' ∧ s.Queues s' p := by
  refine ⟨⟨?_, h.updates hu⟩, hu.turns, queues_of_eq hu.contents p⟩
  rw [hu.contents]
  exact ht

/-- A functor at the front of the queue of `l` is called. `connectDestroyed` is
queued to running loops only. -/
theorem call_good {l : L} {f : ServerFunctor} (h : s.Tracked (front s.contents l f))
    (hset : s.Settled) (hfree : s.Free l) (w : WriteResult) :
    Yields (s.CallFault f)
      (fun s' => s'.Good ∧ s.Turns s' ∧
        s.Queues s' fun l' f' => f' = .connectDestroyed f.conn ∧ (s.loops l').returned = false)
      (s.call w f) := by
  cases f with
  | connectEstablished i =>
    refine h.call_connectEstablished.mono (fun _ he => Or.inl he) ?_
    intro s' ⟨htracked, hu, _⟩
    exact hset.good_updates htracked hu _
  | connectDestroyed i =>
    obtain ⟨c, hc, hyields⟩ := h.call_connectDestroyed
    refine hyields.mono ?_ ?_
    · intro e he
      rcases he with hother | ⟨hstate, he⟩
      · exact Or.inl hother
      · exact Or.inr (Or.inl ⟨⟨c, hc, hstate⟩, he⟩)
    · intro s' ⟨htracked, hu, _⟩
      exact hset.good_updates htracked hu _
  | sendInLoop i message =>
    exact (h.call_established (Or.inl ⟨message, rfl⟩)).mono (fun _ he => Or.inl he)
      fun _ hs => hset.good_updates hs.1 hs.2 _
  | shutdownInLoop i =>
    exact (h.call_established (Or.inr rfl)).mono (fun _ he => Or.inl he)
      fun _ hs => hset.good_updates hs.1 hs.2 _
  | removeConnectionInLoop i =>
    have hl : l = s.server.loop_ := by
      obtain ⟨_, _, hl⟩ := h.placed l _ (Adds.first.mem.mpr (Or.inr ⟨rfl, rfl⟩))
      exact hl
    by_cases hlife : s.life = .destroyed
    · simp only [call, removeConnectionInLoop]
      refine Yields.bind (P := fun _ => False) (yields_check ?_ ?_) (fun _ => False.elim)
      · exact fun _ => Or.inr (Or.inr ⟨hlife, rfl⟩)
      · exact fun hn => absurd hlife hn
    have hserving : s.life = .serving := by
      have hjoin := hfree.2 hl
      cases hs : s.life <;> simp [hs] at hlife hjoin ⊢
    refine (h.call_removeConnectionInLoop (hset.serving hserving) hlife).mono
      (fun _ he => Or.inl he) ?_
    rintro s' ⟨htracked, hfits, c, hc, rfl, hloop⟩
    have hturns : s.Turns ((s.unlist c.name_ (s.removed ++ [i])).pushed c.loop_
        (.connectDestroyed i)) :=
      (turns_unlist s c.name_ _).trans (turns_pushed _ _ _)
    refine ⟨⟨htracked, ?_⟩, hturns, ?_⟩
    · exact hset.turns hturns (fun _ => hfits) (fun hne => absurd hserving hne)
    · refine (queues_pushed (s.unlist c.name_ (s.removed ++ [i])) _ _).mono ?_
      rintro l' f' ⟨rfl, rfl⟩
      refine ⟨rfl, ?_⟩
      -- a loop of the pool that has returned is gone, and the acceptor's loop runs
      by_contra hret
      have hbase := hloop (by simpa using hret)
      rw [hbase, ← hl, hfree.1] at hret
      exact hret rfl

/-- The functors that a step may add: removals come from poll results that end a
connection, and `connectDestroyed` only goes to running loops. -/
def Brings (s : ServerSystem L) (a : ServerStep L) (l : L) : ServerFunctor → Prop
  | .connectDestroyed _ => (s.loops l).returned = false
  | .removeConnectionInLoop _ =>
      ∃ i revents r w, a = .handleEvent i revents r w ∧ TcpConnection.Ends revents r
  | _ => True

/-- What a step does outside the ledgers. -/
structure Advances (s : ServerSystem L) (a : ServerStep L) (s' : ServerSystem L) : Prop where
  conns : ∀ i c, s.conns i = some c → ∃ t, s'.conns i = some { c with tcp := t } ∧
    ReflTransGen StateE.Edge c.tcp.state_ t.state_
  loop_ : s'.server.loop_ = s.server.loop_
  life : s'.life = s.life ∨ a = .destroy ∨ a = .joined
  returned : ∀ l, (s'.loops l).returned = (s.loops l).returned ∨
    a = .finish l ∧ (s.loops l).returned = false ∧ (s'.loops l).returned = (s.loops l).quit_
  accepted : ∀ i c, s.conns i = none → s'.conns i = some c → (s.loops c.loop_).returned = false
  destroyed : s.destroyed ⊆ s'.destroyed
  queues : s.Queues s' (s.Brings a)

omit [DecidableEq L] in
theorem Turns.advances (h : s.Turns s') {a : ServerStep L} (hq : s.Queues s' (s.Brings a)) :
    s.Advances a s' := by
  refine ⟨h.conns, h.loop_, Or.inl h.life, fun l => Or.inl (h.returned l), ?_, h.destroyed, hq⟩
  intro i c hnone hc
  rw [h.fresh i hnone] at hc
  cases hc

omit [DecidableEq L] in
theorem getNextLoop_spec (p : EventLoopThreadPool L) :
    p.getNextLoop.2.baseLoop_ = p.baseLoop_ ∧ p.getNextLoop.2.loops_ = p.loops_ ∧
      (p.getNextLoop.1 = p.baseLoop_ ∨ p.getNextLoop.1 ∈ p.loops_) := by
  unfold EventLoopThreadPool.getNextLoop
  split
  · exact ⟨rfl, rfl, Or.inl rfl⟩
  · exact ⟨rfl, rfl, Or.inr (List.get_mem _ _)⟩

section Accept
variable {t : EventLoopThreadPool L} {c : Connection L}

omit [DecidableEq L] in
/-- A new connection is in the table, and in the acceptor's own loop it is
established at once. -/
theorem Settled.accept (h : s.Settled) (ht : s.Tracked s.contents) (hlife : s.life = .serving)
    (hname : c.name_ ∉ s.server.connections_) (hloops : t.loops_ = s.server.threadPool_.loops_)
    (hbase : t.baseLoop_ = s.server.loop_)
    (hpooled : c.loop_ = s.server.loop_ ∨ c.loop_ ∈ s.server.threadPool_.loops_)
    (hserver : s'.server = (s.accepted t c).server) (hlife' : s'.life = s.life)
    (hremoved : s'.removed = s.removed)
    (hothers : ∀ j, j ≠ s.server.nextConnId_ → s'.conns j = s.conns j)
    (hnew : ∃ u, s'.conns s.server.nextConnId_ = some { c with tcp := u } ∧
      (c.loop_ = s.server.loop_ → u.state_ ≠ .kConnecting)) : s'.Settled := by
  have hloop' : s'.server.loop_ = s.server.loop_ := by rw [hserver]; exact hbase
  have hserving : s'.life = .serving := hlife'.trans hlife
  obtain ⟨u, hu, hstate⟩ := hnew
  refine ⟨?_, fun hn => absurd hserving hn, ?_, ?_, ?_⟩
  · intro _ j d hd
    rw [hserver, hremoved]
    by_cases hj : j = s.server.nextConnId_
    · subst hj
      obtain rfl := Option.some.inj (hu.symm.trans hd)
      have hfresh : s.server.nextConnId_ ∉ s.removed :=
        fun hin => absurd (ht.numbered _ (Or.inr (Or.inl hin))) (lt_irrefl _)
      simp [accepted, ServerSystem.setConn, hfresh]
    · rw [hothers j hj] at hd
      have hfits := h.serving hlife j d hd
      by_cases hsame : d.name_ = c.name_
      · have hnone : s.server.connections_.lookup d.name_ = none := by
          rw [hsame]
          exact AList.lookup_eq_none.mpr hname
        rw [hnone] at hfits
        rw [hsame]
        simp only [accepted, ServerSystem.setConn, AList.lookup_insert, Option.some.injEq]
        constructor
        · exact fun heq => absurd heq.symm hj
        · exact fun hin => absurd (hfits.mpr hin) (by simp)
      · simp only [accepted, ServerSystem.setConn, AList.lookup_insert_ne hsame]
        exact hfits
  · intro hdestroyed
    rw [hserving] at hdestroyed
    cases hdestroyed
  · intro j d hd
    rw [hloop']
    have hloops' : s'.server.threadPool_.loops_ = s.server.threadPool_.loops_ := by
      rw [hserver]
      exact hloops
    rw [hloops']
    by_cases hj : j = s.server.nextConnId_
    · subst hj
      obtain rfl := Option.some.inj (hu.symm.trans hd)
      exact hpooled
    · rw [hothers j hj] at hd
      exact h.pooled j d hd
  · intro j d hd hin
    rw [hloop'] at hin
    refine ⟨?_, fun hn => absurd hserving hn⟩
    by_cases hj : j = s.server.nextConnId_
    · subst hj
      obtain rfl := Option.some.inj (hu.symm.trans hd)
      exact hstate hin
    · rw [hothers j hj] at hd
      exact (h.base j d hd hin).1

omit [DecidableEq L] in
theorem advances_accepted (hbase : t.baseLoop_ = s.server.loop_)
    (hfresh : s.conns s.server.nextConnId_ = none)
    (hothers : ∀ j, j ≠ s.server.nextConnId_ → s'.conns j = s.conns j)
    (hnew : ∃ u, s'.conns s.server.nextConnId_ = some { c with tcp := u })
    (hruns : (s.loops c.loop_).returned = false)
    (hserver : s'.server = (s.accepted t c).server) (hlife : s'.life = s.life)
    (hdestroyed : s.destroyed ⊆ s'.destroyed)
    (hreturned : ∀ l, (s'.loops l).returned = (s.loops l).returned)
    (hqueues : s.Queues s' (s.Brings .newConnection)) : s.Advances .newConnection s' where
  conns := by
    intro j d hd
    have hj : j ≠ s.server.nextConnId_ := by
      rintro rfl
      rw [hfresh] at hd
      cases hd
    exact ⟨d.tcp, by rw [hothers j hj, hd], .refl⟩
  loop_ := by rw [hserver]; exact hbase
  life := Or.inl hlife
  returned l := Or.inl (hreturned l)
  accepted := by
    intro j d hnone hd
    by_cases hj : j = s.server.nextConnId_
    · subst hj
      obtain ⟨u, hu⟩ := hnew
      obtain rfl := Option.some.inj (hu.symm.trans hd)
      exact hruns
    · rw [hothers j hj, hnone] at hd
      cases hd
  destroyed := hdestroyed
  queues := hqueues

/-- The connection is established in its loop, at once or by a queued functor. -/
theorem Good.accept (h : s.Good) (hlife : s.life = .serving) (hfree : s.Free s.server.loop_)
    (hname : c.name_ ∉ s.server.connections_)
    (htcp : ∃ a b n, c.tcp = TcpConnection.new a b n)
    (hbase : t.baseLoop_ = s.server.loop_) (hloops : t.loops_ = s.server.threadPool_.loops_)
    (hpooled : c.loop_ = s.server.loop_ ∨ c.loop_ ∈ s.server.threadPool_.loops_) :
    Yields Fault.Other (fun s' => s'.Good ∧ s.Advances .newConnection s')
      ((s.accepted t c).runInLoop s.server.loop_ c.loop_
        (.connectEstablished s.server.nextConnId_)) := by
  have hfresh := h.tracked.fresh
  have hothers : ∀ j, j ≠ s.server.nextConnId_ → (s.accepted t c).conns j = s.conns j :=
    fun j hj => Function.update_of_ne hj _ _
  unfold runInLoop
  split
  · rename_i hloop
    have htracked := h.tracked.accept hbase hname htcp Adds.first
    refine Tracked.call_connectEstablished (s := s.accepted t c) htracked |>.mono
      (fun _ => id) ?_
    rintro s' ⟨htracked', hu, c', hc', hstate⟩
    obtain ⟨d, u, hd, -, hconns⟩ := hu.conn
    have hself : (s.accepted t c).conns s.server.nextConnId_ = some c := Function.update_self ..
    obtain rfl := Option.some.inj (hself.symm.trans hd)
    rw [hconns, Function.update_self] at hc'
    obtain rfl := Option.some.inj hc'
    have hothers' : ∀ j, j ≠ s.server.nextConnId_ → s'.conns j = s.conns j :=
      fun j hj => (hu.other hj).trans (hothers j hj)
    refine ⟨⟨?_, ?_⟩, ?_⟩
    · rw [hu.contents]
      exact htracked'
    · refine h.settled.accept h.tracked hlife hname hloops hbase hpooled hu.server hu.life
        hu.removed hothers' ⟨u, by rw [hconns, Function.update_self], ?_⟩
      intro _
      simp only at hstate
      simp [hstate]
    · refine advances_accepted hbase hfresh hothers' ⟨u, by rw [hconns, Function.update_self]⟩
        ?_ hu.server hu.life hu.destroyed ?_ ?_
      · rw [← hloop]
        exact hfree.1
      · intro l
        rw [hu.loops]
        rfl
      · exact queues_of_eq hu.contents _
  · rename_i hloop
    refine (yields_queueInLoop c.loop_ _).mono (fun _ => id) ?_
    rintro s' ⟨rfl, hret⟩
    refine ⟨⟨?_, ?_⟩, ?_⟩
    · rw [contents_pushed]
      exact (h.tracked.accept hbase hname htcp Adds.last).setLoop _ _
    · refine h.settled.accept h.tracked hlife hname hloops hbase hpooled rfl rfl rfl hothers
        ⟨c.tcp, Function.update_self .., ?_⟩
      exact fun heq => absurd heq.symm hloop
    · refine advances_accepted hbase hfresh hothers ⟨c.tcp, Function.update_self ..⟩ ?_ rfl rfl
        (List.Subset.refl _) (fun l => returned_pushed _ _ l) ?_
      · by_contra hr
        have hgone : (s.loops c.loop_).returned = true := by simpa using hr
        exact hloop ((hret hgone).trans hbase).symm
      refine (queues_pushed (s.accepted t c) _ _).mono ?_
      rintro l' f' ⟨-, rfl⟩
      trivial

theorem Good.newConnection (h : s.Good) (hlife : s.life = .serving)
    (hfree : s.Free s.server.loop_)
    (hname : s.server.connName ∉ s.server.connections_) :
    Yields Fault.Other (fun s' => s'.Good ∧ s.Advances .newConnection s') s.newConnection := by
  obtain ⟨hbase, hloops, hpooled⟩ := getNextLoop_spec s.server.threadPool_
  unfold ServerSystem.newConnection
  refine Yields.bind (P := fun _ => True) (yields_check (fun _ => trivial) (fun _ => trivial)) ?_
  intro _ _
  exact h.accept (t := s.server.threadPool_.getNextLoop.2) (c := {
    loop_ := s.server.threadPool_.getNextLoop.1
    name_ := s.server.connName
    tcp := TcpConnection.new s.server.writeCompleteCallback_ false (64 * 1024 * 1024) })
    hlife hfree hname ⟨_, _, _, rfl⟩ hbase hloops hpooled

end Accept

end ServerSystem

end MuduoServer
