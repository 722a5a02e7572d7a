import MuduoServer.ConnectionLedger

/-!
The ledgers of the server's connections under its steps: an event or a call of one
connection, a functor of a loop, and the loops' queues.
-/
namespace MuduoServer

open FaultMachine

namespace ServerSystem
variable {L : Type} {s s' : ServerSystem L} {q q' : L → List ServerFunctor} {i : ℕ}
  [DecidableEq L]

/-- A step that moves the state of connection `i` and leaves the server, its table
and the loops as they are. -/
structure Updates (i : ℕ) (s s' : ServerSystem L) : Prop where
  conn : ∃ c t, s.conns i = some c ∧
    Relation.ReflTransGen StateE.Edge c.tcp.state_ t.state_ ∧
    s'.conns = Function.update s.conns i (some { c with tcp := t })
  server : s'.server = s.server
  life : s'.life = s.life
  loops : s'.loops = s.loops
  removed : s'.removed = s.removed
  destroyed : s.destroyed ⊆ s'.destroyed

/-- The faults that are none of the assertions of the server, its connections and
their channels. -/
def Fault.Other : Fault → Prop
  | .conn e => e.Other
  | .overflow => True
  | .loopGone => True
  | _ => False

section Call
variable {l : L} {w : WriteResult}

/-- A functor of connection `i` is called and changes only the connection. -/
theorem Tracked.setConn_front {f : ServerFunctor} (h : s.Tracked (front q l f)) (hf : f.conn = i)
    {c : Connection L} (hc : s.conns i = some c) {t : TcpConnection}
    (hne : c.tcp.state_ ≠ .kConnecting → t.state_ ≠ .kConnecting)
    (htracks : (s.ledger q i c).Tracks i t) :
    (s.setConn i { c with tcp := t }).Tracked q := by
  apply h.setConn hc hne
  · exact fun l f hf => Or.inl (Adds.first.mem.mpr (Or.inl hf))
  · intro l j hj
    exact (Adds.first.others hf l j hj).symm
  · exact htracks

omit [DecidableEq L] in
theorem Updates.setConn {c : Connection L} (hc : s.conns i = some c) {t : TcpConnection}
    (he : Relation.ReflTransGen StateE.Edge c.tcp.state_ t.state_) :
    Updates i s (s.setConn i { c with tcp := t }) :=
  ⟨⟨c, t, hc, he, rfl⟩, rfl, rfl, rfl, rfl, List.Subset.refl _⟩

theorem Tracked.call_connectEstablished
    (h : s.Tracked (front q l (.connectEstablished i))) :
    Yields Fault.Other
      (fun s' => s'.Tracked q ∧ Updates i s s' ∧
        ∃ c', s'.conns i = some c' ∧ c'.tcp.state_ = .kConnected)
      (s.call w (.connectEstablished i)) := by
  obtain ⟨c, hc, rfl⟩ := h.placed l _ (Adds.first.mem.mpr (Or.inr ⟨rfl, rfl⟩))
  simp only [ServerFunctor.conn] at hc
  have hold := h.tracks i c hc
  rw [ledger_front (by simp [ServerFunctor.handles])] at hold
  have hstate := hold.connecting rfl
  refine (yields_onConn hc (hold.standing.connectEstablished hstate) (fun _ he => he)).mono
    (fun _ => id) ?_
  rintro s' ⟨t, ⟨hs, ht⟩, rfl⟩
  have hedge : Relation.ReflTransGen StateE.Edge c.tcp.state_ t.state_ := by
    rw [hstate, ht]
    exact Relation.ReflTransGen.single .established
  refine ⟨?_, Updates.setConn hc hedge, _, Function.update_self .., ht⟩
  exact h.setConn_front rfl hc (fun _ => by simp [ht]) (hold.established rfl hs ht)

/-- `connectDestroyed` fails just for a connection in `kDisconnecting`. -/
theorem Tracked.call_connectDestroyed (h : s.Tracked (front q l (.connectDestroyed i))) :
    ∃ c, s.conns i = some c ∧
      Yields (fun e => e.Other ∨ c.tcp.state_ = .kDisconnecting ∧ ∃ e', e = .conn e')
        (fun s' => s'.Tracked q ∧ Updates i s s' ∧
          ∃ c', s'.conns i = some c' ∧ c'.tcp.state_ = .kDisconnected)
        (s.call w (.connectDestroyed i)) := by
  obtain ⟨c, hc, rfl⟩ := h.placed l _ (Adds.first.mem.mpr (Or.inr ⟨rfl, rfl⟩))
  simp only [ServerFunctor.conn] at hc
  refine ⟨c, hc, ?_⟩
  have hold := h.tracks i c hc
  rw [ledger_front (by simp [ServerFunctor.handles])] at hold
  obtain ⟨hne, -, hzero, -⟩ := hold.next_destroyed rfl
  have hgone : ¬ (s.ledger q i c).destroyed ≠ 0 := by simpa using hzero
  refine Yields.bind (yields_onConn hc (hold.standing.connectDestroyed hgone hne) ?_) ?_
  · intro e he
    rcases he with hother | hstate
    · exact Or.inl hother
    · exact Or.inr ⟨hstate, e, rfl⟩
  rintro s₁ ⟨t, ⟨hs, ht⟩, rfl⟩
  have hedge : Relation.ReflTransGen StateE.Edge c.tcp.state_ t.state_ := by
    rw [ht]
    exact edge_to_disconnected hne
  refine yields_pure ⟨?_, ⟨⟨c, t, hc, hedge, rfl⟩, rfl, rfl, rfl, rfl,
    List.subset_append_left _ _⟩, _, Function.update_self .., ht⟩
  refine h.touch (i := i) { c with tcp := t } ?_ (Function.update_self ..) ?_ ?_ ?_
  · refine ⟨?_, rfl, ⟨h.lt hc, le_refl _⟩, fun _ _ _ => Iff.rfl, fun _ _ => Iff.rfl, ?_, ?_⟩
    · intro j hj
      simp [ServerSystem.setConn, Function.update_of_ne hj]
    · intro j hj
      simp [ServerSystem.setConn, List.count_append, hj.symm]
    · intro l j hj
      exact (Adds.first.others (i := i) rfl l j hj).symm
  · have hledger : ServerSystem.ledger
        { s.setConn i { c with tcp := t } with destroyed := s.destroyed ++ [i] } q i
        { c with tcp := t } =
        { s.ledger q i c with destroyed := (s.ledger q i c).destroyed + 1 } := by
      simp only [ServerSystem.ledger, ServerSystem.setConn, List.count_append,
        List.count_singleton_self]
      rfl
    have hnew := hold.destroyed rfl hs ht
    rw [← hledger] at hnew
    exact hnew
  · intro l f hf _
    have hin := h.placed l f (Adds.first.mem.mpr (Or.inl hf))
    exact hin.setConn hc (t := t) (fun _ => by simp [ht])
  · intro name hlook
    obtain ⟨d, hd, hname⟩ := h.entries name i hlook
    obtain rfl := Option.some.inj (hc.symm.trans hd)
    exact hname

/-- A functor that `send` or `shutdown` has queued. -/
theorem Tracked.call_established {f : ServerFunctor} (h : s.Tracked (front q l f))
    (hf : (∃ message, f = .sendInLoop i message) ∨ f = .shutdownInLoop i) :
    Yields Fault.Other (fun s' => s'.Tracked q ∧ Updates i s s') (s.call w f) := by
  have hconn : f.conn = i := by
    rcases hf with ⟨message, rfl⟩ | rfl <;> rfl
  obtain ⟨c, hc, hplace⟩ := h.placed l _ (Adds.first.mem.mpr (Or.inr ⟨rfl, rfl⟩))
  rw [hconn] at hc
  have hold := h.tracks i c hc
  rw [ledger_of_not Adds.first (by rcases hf with ⟨message, rfl⟩ | rfl <;> rfl)
    (by rcases hf with ⟨message, rfl⟩ | rfl <;> simp)] at hold
  have hdone : ∀ t : TcpConnection, t.Standing ((s.ledger q i c).destroyed ≠ 0) →
      t.state_ = c.tcp.state_ →
      (s.setConn i { c with tcp := t }).Tracked q ∧
        Updates i s (s.setConn i { c with tcp := t }) := by
    intro t hs ht
    have hnew := hold.update hs (by rw [ht]) (by rw [ht]; exact id)
    refine ⟨h.setConn_front hconn hc (by rw [ht]; exact id) hnew, Updates.setConn hc ?_⟩
    rw [ht]
  rcases hf with ⟨message, rfl⟩ | rfl
  · have hsend := hold.standing.sendInLoop hplace.2 message w
    refine (yields_onConn (D := Fault.Other) (g := fun c => c.sendInLoop message w) hc hsend
      (fun _ he => he)).mono (fun _ => id) ?_
    rintro s' ⟨t, ⟨hs, ht⟩, rfl⟩
    exact hdone t hs ht
  · have hrun := hold.standing.shutdownInLoop
    have hyields : Yields TcpConnection.Fault.Other (fun t => t = c.tcp.shutdownInLoop)
        (pure c.tcp.shutdownInLoop) := yields_pure rfl
    refine (yields_onConn (D := Fault.Other) (g := fun c => pure c.shutdownInLoop) hc hyields
      (fun _ he => he)).mono (fun _ => id) ?_
    rintro s' ⟨t, rfl, rfl⟩
    exact hdone _ hrun.1 hrun.2

def pushed (s : ServerSystem L) (l : L) (f : ServerFunctor) : ServerSystem L :=
  s.setLoop l { s.loops l with queue := (s.loops l).queue.push f }

theorem yields_queueInLoop (l : L) (f : ServerFunctor) :
    Yields Fault.Other
      (fun s' => s' = s.pushed l f ∧ ((s.loops l).returned → l = s.server.loop_))
      (s.queueInLoop l f) := by
  unfold queueInLoop
  refine Yields.bind (P := fun _ => (s.loops l).returned → l = s.server.loop_)
    (yields_check (fun _ => trivial) id) ?_
  intro _ hloop
  exact yields_pure ⟨rfl, hloop⟩

theorem contents_pushed (l : L) (f : ServerFunctor) :
    (s.pushed l f).contents = back s.contents l f := by
  funext l'
  by_cases hl : l' = l
  · subst hl
    simp [contents, pushed, setLoop, back]
  · simp [contents, pushed, setLoop, back, Function.update_of_ne hl]

theorem returned_pushed (l : L) (f : ServerFunctor) (l' : L) :
    ((s.pushed l f).loops l').returned = (s.loops l').returned := by
  by_cases hl : l' = l
  · subst hl
    simp [pushed, setLoop]
  · simp [pushed, setLoop, Function.update_of_ne hl]

theorem Tracked.setLoop (h : s.Tracked q) (l : L) (x : ServerLoop) : (s.setLoop l x).Tracked q :=
  ⟨h.tracks, h.placed, h.entries, h.numbered⟩

/-- While the server is alive the table has the connections that were not removed. -/
def TableFits (s : ServerSystem L) : Prop :=
  ∀ i c, s.conns i = some c →
    (s.server.connections_.lookup c.name_ = some i ↔ i ∉ s.removed)

omit [DecidableEq L] in
/-- Erasing an entry of connection `i` is seen just by `i`. -/
theorem lookup_erase_of_ne {t : AList fun _ : Name => ℕ} {name name' : Name} {j : ℕ}
    (h : t.lookup name = some i) (hne : j ≠ i) :
    (t.erase name).lookup name' = some j ↔ t.lookup name' = some j := by
  by_cases hname : name' = name
  · subst hname
    rw [AList.lookup_erase, h]
    simp [hne.symm]
  · rw [AList.lookup_erase_ne hname]

/-- The table without the entry `name`. -/
def unlist (s : ServerSystem L) (name : Name) (removed : List ℕ) : ServerSystem L :=
  { s with
    server := { s.server with connections_ := s.server.connections_.erase name }
    removed := removed }

omit [DecidableEq L] in
theorem TableFits.unlist (h : s.TableFits) {c : Connection L} (hc : s.conns i = some c)
    (hlook : s.server.connections_.lookup c.name_ = some i) :
    (s.unlist c.name_ (s.removed ++ [i])).TableFits := by
  intro j d hd
  by_cases hj : j = i
  · subst hj
    obtain rfl := Option.some.inj (hc.symm.trans hd)
    simp [ServerSystem.unlist]
  · have hold := h j d hd
    rw [← lookup_erase_of_ne hlook hj] at hold
    simpa [ServerSystem.unlist, hj] using hold

omit [DecidableEq L] in
theorem Tracked.unlist (h : s.Tracked q) {c : Connection L} (hc : s.conns i = some c)
    (hlook : s.server.connections_.lookup c.name_ = some i) {removed : List ℕ}
    (hremoved : ∀ j, j ≠ i → (j ∈ removed ↔ j ∈ s.removed))
    (hothers : ∀ l j, j ≠ i →
      (q' l).filter (fun f => f.conn = j) = (q l).filter (fun f => f.conn = j))
    (hmem : ∀ l, ∀ f ∈ q' l, f ∈ q l ∨ (l = c.loop_ ∧ f = .connectDestroyed i))
    (htracks : ((s.unlist c.name_ removed).ledger q' i c).Tracks i c.tcp) :
    (s.unlist c.name_ removed).Tracked q' := by
  refine h.touch (i := i) c ?_ hc htracks ?_ ?_
  · refine ⟨fun _ _ => rfl, rfl, ⟨h.lt hc, le_refl _⟩, ?_, hremoved, fun _ _ => rfl, hothers⟩
    intro name j hj
    exact lookup_erase_of_ne hlook hj
  · intro l f hf _
    rcases hmem l f hf with hin | ⟨rfl, rfl⟩
    · obtain ⟨d, hd, hplace⟩ := h.placed l f hin
      refine ⟨d, hd, ?_⟩
      cases f <;> exact hplace
    · exact ⟨c, hc, rfl⟩
  · intro name hname
    by_cases hsame : name = c.name_
    · exact hsame.symm
    · simp only [ServerSystem.unlist, AList.lookup_erase_ne hsame] at hname
      obtain ⟨d, hd, rfl⟩ := h.entries name i hname
      obtain rfl := Option.some.inj (hc.symm.trans hd)
      rfl

omit [DecidableEq L] in
theorem ledger_unlist (c : Connection L) (removed : List ℕ) :
    (s.unlist c.name_ removed).ledger q i c =
      { s.ledger q i c with inTable := false, removed := decide (i ∈ removed) } := by
  simp [ServerSystem.ledger, ServerSystem.unlist, TcpServer.loop_]
  rfl

theorem Tracked.removal (h : s.Tracked (front q s.server.loop_ (.removeConnectionInLoop i)))
    {c : Connection L} (hc : s.conns i = some c)
    (hlook : s.server.connections_.lookup c.name_ = some i) :
    (s.unlist c.name_ (s.removed ++ [i])).Tracked (back q c.loop_ (.connectDestroyed i)) := by
  have hold := h.tracks i c hc
  rw [ledger_removal Adds.first] at hold
  apply h.unlist hc hlook
  · intro j hj
    simp [hj]
  · intro l j hj
    rw [Adds.last.others (i := i) rfl l j hj, Adds.first.others (i := i) rfl l j hj]
  · intro l f hf
    exact (Adds.last.mem.mp hf).imp (fun hin => Adds.first.mem.mpr (Or.inl hin)) id
  · have hnew := hold.removal (by simpa [ServerSystem.ledger] using hlook) (Nat.succ_ne_zero _)
    have hin : decide (i ∈ s.removed ++ [i]) = true := by simp
    rw [ledger_back (by simp [ServerFunctor.handles]), ledger_unlist, hin]
    exact hnew

/-- The destructor hands `connectDestroyed` over, to be queued or to be called at once. -/
theorem Tracked.handOver (h : s.Tracked q) {c : Connection L} (hc : s.conns i = some c)
    (hlook : s.server.connections_.lookup c.name_ = some i)
    (hq : q' = back q c.loop_ (.connectDestroyed i) ∨
      c.tcp.state_ ≠ .kConnecting ∧ q' = front q c.loop_ (.connectDestroyed i)) :
    (s.unlist c.name_ s.removed).Tracked q' := by
  have hadds : Adds q c.loop_ (.connectDestroyed i) q' := by
    rcases hq with rfl | ⟨-, rfl⟩
    · exact Adds.last
    · exact Adds.first
  have hold := h.tracks i c hc
  have htable : (s.ledger q i c).inTable := by simpa [ServerSystem.ledger] using hlook
  apply h.unlist hc hlook (fun _ _ => Iff.rfl) (fun l j hj => hadds.others (i := i) rfl l j hj)
  · intro l f hf
    exact hadds.mem.mp hf
  · have hnew := hold.handOver htable
    rcases hq with rfl | ⟨hne, rfl⟩
    · rw [ledger_back (by simp [ServerFunctor.handles]), ledger_unlist]
      exact hnew
    · -- in its own loop nothing of the connection is waiting
      have hnil := hold.line_eq_nil htable hne
      rw [hnil, List.nil_append] at hnew
      rw [ledger_front (by simp [ServerFunctor.handles]), ledger_unlist, hnil]
      exact hnew

/-- The erase removes one entry, and `connectDestroyed` is queued. -/
theorem Tracked.call_removeConnectionInLoop
    (h : s.Tracked (front s.contents l (.removeConnectionInLoop i))) (hfits : s.TableFits)
    (hlife : s.life ≠ .destroyed) :
    Yields Fault.Other
      (fun s' => s'.Tracked s'.contents ∧ s'.TableFits ∧
        ∃ c, s.conns i = some c ∧
          s' = (s.unlist c.name_ (s.removed ++ [i])).pushed c.loop_ (.connectDestroyed i) ∧
          ((s.loops c.loop_).returned → c.loop_ = s.server.loop_))
      (s.call w (.removeConnectionInLoop i)) := by
  obtain ⟨c, hc, rfl⟩ := h.placed l _ (Adds.first.mem.mpr (Or.inr ⟨rfl, rfl⟩))
  simp only [ServerFunctor.conn] at hc
  have hold := h.tracks i c hc
  rw [ledger_removal Adds.first] at hold
  have hnot : i ∉ s.removed := by
    have hunrun := hold.unrun (Nat.succ_ne_zero _)
    simpa [ServerSystem.ledger] using hunrun
  have hlook : s.server.connections_.lookup c.name_ = some i := (hfits i c hc).mpr hnot
  have hmem : c.name_ ∈ s.server.connections_ := by
    rw [← AList.lookup_isSome, hlook]
    rfl
  simp only [call, removeConnectionInLoop]
  refine Yields.bind (P := fun _ => True)
    (yields_check (fun hn => absurd hlife hn) (fun _ => trivial)) ?_
  intro _ _
  simp only [hc]
  refine Yields.bind (P := fun _ => True)
    (yields_check (fun hn => absurd hmem hn) (fun _ => trivial)) ?_
  intro _ _
  refine (yields_queueInLoop c.loop_ (.connectDestroyed i)).mono (fun _ => id) ?_
  rintro s' ⟨rfl, hloop⟩
  change ((s.unlist c.name_ (s.removed ++ [i])).pushed _ _).Tracked _ ∧ _
  refine ⟨?_, ?_, c, rfl, rfl, hloop⟩
  · rw [contents_pushed]
    exact (h.removal hc hlook).setLoop _ _
  · exact hfits.unlist hc hlook

end Call

section Arrive

omit [DecidableEq L] in
/-- An operation on connection `i` that leaves it as established as it was. -/
theorem Tracked.keep (h : s.Tracked q) {c : Connection L} (hc : s.conns i = some c)
    {t : TcpConnection} (hs : t.Standing ((s.ledger q i c).destroyed ≠ 0))
    (hne : t.state_ = .kConnecting ↔ c.tcp.state_ = .kConnecting)
    (hend : c.tcp.state_ = .kDisconnected → t.state_ = .kDisconnected) :
    (s.setConn i { c with tcp := t }).Tracked q := by
  apply h.setConn hc (fun hn ht => hn (hne.mp ht))
  · exact fun l f hf => Or.inl hf
  · exact fun _ _ _ => rfl
  · exact (h.tracks i c hc).update hs hne hend

/-- The close callback, to be queued or to be called at once. -/
theorem Tracked.close (h : s.Tracked q) {c : Connection L} (hc : s.conns i = some c)
    (hopen : c.tcp.Open) {t : TcpConnection}
    (hs : t.Standing ((s.ledger q i c).destroyed ≠ 0)) (ht : t.state_ = .kDisconnected)
    (ha : Adds q s.server.loop_ (.removeConnectionInLoop i) q') :
    (s.setConn i { c with tcp := t }).Tracked q' := by
  apply h.setConn hc (fun _ => by simp [ht])
  · intro l f hf
    rcases ha.mem.mp hf with hold | ⟨rfl, rfl⟩
    · exact Or.inl hold
    · exact Or.inr ⟨_, Function.update_self .., rfl⟩
  · exact fun l j hj => ha.others (i := i) rfl l j hj
  · rw [ledger_removal ha]
    exact (h.tracks i c hc).close hopen hs ht

/-- `send` or `shutdown` on an established connection, queued or called at once. -/
theorem Tracked.arrive (h : s.Tracked q) {c : Connection L} (hc : s.conns i = some c)
    (hne : c.tcp.state_ ≠ .kConnecting) {f : ServerFunctor}
    (hf : (∃ message, f = .sendInLoop i message) ∨ f = .shutdownInLoop i)
    (ha : Adds q c.loop_ f q') : s.Tracked q' := by
  have hconn : f.conn = i := by
    rcases hf with ⟨message, rfl⟩ | rfl <;> rfl
  refine h.touch (i := i) c ?_ hc ?_ ?_ ?_
  · exact ⟨fun _ _ => rfl, rfl, ⟨h.lt hc, le_refl _⟩, fun _ _ _ => Iff.rfl, fun _ _ => Iff.rfl,
      fun _ _ => rfl, fun l j hj => ha.others hconn l j hj⟩
  · rw [ledger_of_not ha (by rcases hf with ⟨message, rfl⟩ | rfl <;> rfl)
      (by rcases hf with ⟨message, rfl⟩ | rfl <;> simp)]
    exact h.tracks i c hc
  · intro l g hg _
    rcases ha.mem.mp hg with hold | ⟨rfl, rfl⟩
    · exact h.placed l g hold
    · refine ⟨c, hconn ▸ hc, ?_⟩
      rcases hf with ⟨message, rfl⟩ | rfl
      · exact ⟨rfl, hne⟩
      · exact ⟨rfl, hne⟩
  · intro name hname
    obtain ⟨d, hd, hsame⟩ := h.entries name i hname
    obtain rfl := Option.some.inj (hc.symm.trans hd)
    exact hsame

/-- The system with a new connection, whose name is not in the table. -/
def accepted (s : ServerSystem L) (t : EventLoopThreadPool L) (c : Connection L) :
    ServerSystem L :=
  { s with server := { s.server with
      threadPool_ := t
      nextConnId_ := s.server.nextConnId_ + 1
      connections_ := s.server.connections_.insert c.name_ s.server.nextConnId_ } }.setConn
    s.server.nextConnId_ c

omit [DecidableEq L] in
theorem Tracked.fresh (h : s.Tracked q) : s.conns s.server.nextConnId_ = none := by
  by_contra hn
  obtain ⟨c, hc⟩ := Option.ne_none_iff_exists'.mp hn
  exact absurd (h.lt hc) (lt_irrefl _)

omit [DecidableEq L] in
theorem Tracked.not_mem (h : s.Tracked q) (l : L) (f : ServerFunctor)
    (hf : f.conn = s.server.nextConnId_) : f ∉ q l := by
  intro hmem
  obtain ⟨c, hc, -⟩ := h.placed l f hmem
  rw [hf, h.fresh] at hc
  cases hc

theorem Tracked.accept (h : s.Tracked q) {t : EventLoopThreadPool L} {c : Connection L}
    (hbase : t.baseLoop_ = s.server.loop_) (hname : c.name_ ∉ s.server.connections_)
    (htcp : ∃ a b n, c.tcp = TcpConnection.new a b n)
    (ha : Adds q c.loop_ (.connectEstablished s.server.nextConnId_) q') :
    (s.accepted t c).Tracked q' := by
  obtain ⟨a, b, n, htcp⟩ := htcp
  have hnumber : s.server.nextConnId_ ∉ s.removed ∧ s.server.nextConnId_ ∉ s.destroyed := by
    constructor
    · exact fun hin => absurd (h.numbered _ (Or.inr (Or.inl hin))) (lt_irrefl _)
    · exact fun hin => absurd (h.numbered _ (Or.inr (Or.inr hin))) (lt_irrefl _)
  have hnil : (q c.loop_).filter (ServerFunctor.handles s.server.nextConnId_) = [] := by
    apply List.filter_eq_nil_iff.mpr
    intro f hf hhandles
    refine h.not_mem c.loop_ f ?_ hf
    cases f <;> simp [ServerFunctor.handles, ServerFunctor.conn] at hhandles ⊢
    all_goals exact hhandles
  have hline : (q' c.loop_).filter (ServerFunctor.handles s.server.nextConnId_) =
      [.connectEstablished s.server.nextConnId_] := by
    cases ha <;> simp [front, back, hnil, ServerFunctor.handles]
  have hcount : (q' s.server.loop_).count (.removeConnectionInLoop s.server.nextConnId_) = 0 := by
    rw [ha.count_of_ne (by simp)]
    exact List.count_eq_zero_of_not_mem (h.not_mem _ _ rfl)
  refine h.touch (i := s.server.nextConnId_) c ?_ (Function.update_self ..) ?_ ?_ ?_
  · refine ⟨?_, hbase, ⟨Nat.lt_succ_self _, Nat.le_succ _⟩, ?_, fun _ _ => Iff.rfl,
      fun _ _ => rfl, fun l j hj => ha.others rfl l j hj⟩
    · intro j hj
      exact Function.update_of_ne hj _ _
    · intro name j hj
      by_cases hsame : name = c.name_
      · subst hsame
        have hnone := AList.lookup_eq_none.mpr hname
        simp [accepted, ServerSystem.setConn, hnone, hj.symm]
      · simp only [accepted, ServerSystem.setConn, AList.lookup_insert_ne hsame]
  · have hledger : (s.accepted t c).ledger q' s.server.nextConnId_ c =
        ⟨true, [.connectEstablished s.server.nextConnId_], 0, false, 0⟩ := by
      have hloop : (s.accepted t c).server.loop_ = s.server.loop_ := hbase
      unfold ServerSystem.ledger
      rw [hloop, hline, hcount]
      simp [accepted, ServerSystem.setConn, hnumber.1, List.count_eq_zero_of_not_mem hnumber.2]
    rw [hledger, htcp]
    exact Ledger.tracks_new a b n
  · intro l f hf hconn
    rcases ha.mem.mp hf with hold | ⟨rfl, rfl⟩
    · exact absurd hold (h.not_mem l f hconn)
    · exact ⟨c, Function.update_self .., rfl⟩
  · intro name hlook
    by_cases hsame : name = c.name_
    · exact hsame.symm
    · simp only [accepted, ServerSystem.setConn, AList.lookup_insert_ne hsame] at hlook
      obtain ⟨d, hd, -⟩ := h.entries name _ hlook
      rw [h.fresh] at hd
      cases hd

end Arrive

end ServerSystem

end MuduoServer
