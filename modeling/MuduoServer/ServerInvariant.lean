import MuduoServer.ServerDestructor

/-!
The steps of the server system keep the ledgers of all connections, as long as
every new connection gets a name that is not in the table.
-/
namespace MuduoServer

open FaultMachine Relation

namespace ServerSystem
variable {L : Type} {s s' : ServerSystem L} {i : ℕ} [DecidableEq L]

section Connection
variable {c : Connection L}

omit [DecidableEq L] in
/-- An open connection whose loop runs belongs to a server that is not destroyed. -/
theorem Good.not_destroyed (h : s.Good) (hc : s.conns i = some c) (hfree : s.Free c.loop_)
    (hopen : c.tcp.Open) : s.life ≠ .destroyed := by
  intro hlife
  rcases h.settled.pooled i c hc with hbase | hpool
  · have hdown := (h.settled.base i c hc hbase).2 (by simp [hlife])
    rcases hopen with ho | ho <;> simp [ho] at hdown
  · have hret := h.settled.joined hlife c.loop_ hpool
    rw [hfree.1] at hret
    cases hret

/-- The close callback: the removal is called at once or queued. -/
theorem Good.removeConnection (h : s.Good) (hc : s.conns i = some c) (hfree : s.Free c.loop_)
    (hopen : c.tcp.Open) {t : TcpConnection} (hs : t.Standing ((s.ledger s.contents i c).destroyed ≠ 0))
    (hstate : t.state_ = .kDisconnected) (hu : Updates i s (s.setConn i { c with tcp := t }))
    {revents : Finset Poll} {r : Buffer.ReadResult} (hends : TcpConnection.Ends revents r)
    (w : WriteResult) :
    Yields Fault.Other (fun s' => s'.Good ∧ s.Advances (.handleEvent i revents r w) s')
      ((s.setConn i { c with tcp := t }).removeConnection c.loop_ i) := by
  have hset := h.settled.updates hu
  have hlife := h.not_destroyed hc hfree hopen
  unfold ServerSystem.removeConnection
  refine Yields.bind (P := fun _ => True)
    (yields_check (fun hn => absurd hlife hn) (fun _ => trivial)) ?_
  intro _ _
  unfold runInLoop
  split
  · rename_i hloop
    have hbase : c.loop_ = s.server.loop_ := hloop
    have htracked := h.tracked.close hc hopen hs hstate Adds.first
    have hfree' : (s.setConn i { c with tcp := t }).Free s.server.loop_ := by
      rw [← hbase]
      exact hfree
    refine (call_good (s := s.setConn i { c with tcp := t }) htracked hset hfree' _).mono ?_ ?_
    · intro e he
      rcases he with hother | ⟨hfalse, -⟩ | ⟨hgone, -⟩
      · exact hother
      · exact hfalse.elim
      · exact absurd hgone hlife
    · intro s' ⟨hgood, hturns, hqueues⟩
      refine ⟨hgood, (hu.turns.trans hturns).advances ?_⟩
      refine Queues.mono hqueues ?_
      rintro l f ⟨rfl, hret⟩
      exact hret
  · refine (yields_queueInLoop s.server.loop_ _).mono (fun _ => id) ?_
    rintro s' ⟨rfl, -⟩
    refine ⟨⟨?_, hset.pushed _ _⟩, (hu.turns.trans (turns_pushed _ _ _)).advances ?_⟩
    · rw [contents_pushed]
      exact (h.tracked.close hc hopen hs hstate Adds.last).setLoop _ _
    · refine (queues_pushed (s.setConn i { c with tcp := t }) _ _).mono ?_
      rintro l f ⟨-, rfl⟩
      exact ⟨i, revents, r, w, rfl, hends⟩

theorem Good.handleEvent (h : s.Good) (hc : s.conns i = some c) (hfree : s.Free c.loop_)
    {revents : Finset Poll} (hrep : c.tcp.channel_.Reports revents) (hprio : Reported revents)
    (r : Buffer.ReadResult) (w : WriteResult) :
    Yields Fault.Other (fun s' => s'.Good ∧ s.Advances (.handleEvent i revents r w) s')
      (s.handleEvent i revents r w) := by
  have hv := h.tracked.tracks i c hc
  have hopen := hv.standing.open_of_reports hrep
  unfold ServerSystem.handleEvent
  simp only [hc]
  refine Yields.bind (Yields.mapError (D := Fault.Other) (f := Fault.conn)
    (hv.standing.handleEvent hrep hprio r w) fun _ he => he) ?_
  intro t ht
  obtain ⟨hs, ⟨hstate, hnot⟩ | ⟨hends, hstate, hin⟩⟩ := hv.standing.afterEvent hopen ht
  · rw [if_neg hnot]
    have hu : Updates i s (s.setConn i { c with tcp := t }) :=
      Updates.setConn hc (by rw [hstate])
    refine yields_pure ⟨⟨?_, h.settled.updates hu⟩, hu.turns.advances (queues_of_eq rfl _)⟩
    exact h.tracked.keep hc hs (by rw [hstate]) (by rw [hstate]; exact id)
  · rw [if_pos hin]
    have hu : Updates i s (s.setConn i { c with tcp := t }) := by
      refine Updates.setConn hc ?_
      rw [hstate]
      apply edge_to_disconnected
      rcases hopen with ho | ho <;> simp [ho]
    exact h.removeConnection hc hfree hopen hs hstate hu hends w

omit [DecidableEq L] in
theorem Good.refl_advances (h : s.Good) (a : ServerStep L) : s.Good ∧ s.Advances a s :=
  ⟨h, (Turns.refl s).advances (queues_of_eq rfl _)⟩

/-- `send` or `shutdown` hands its functor over, to be called at once or queued. -/
theorem Good.arrive (h : s.Good) (hc : s.conns i = some c) (hne : c.tcp.state_ ≠ .kConnecting)
    {f : ServerFunctor} (hf : (∃ message, f = .sendInLoop i message) ∨ f = .shutdownInLoop i)
    (inLoop : Bool) (w : WriteResult) :
    Yields Fault.Other (fun s' => s'.Good ∧ s.Turns s' ∧ s.Queues s' fun _ f' => f' = f)
      (if inLoop then s.call w f else s.queueInLoop c.loop_ f) := by
  split
  · have htracked := h.tracked.arrive hc hne hf Adds.first
    exact (htracked.call_established hf).mono (fun _ => id)
      fun _ hs => h.settled.good_updates hs.1 hs.2 _
  · refine (yields_queueInLoop c.loop_ f).mono (fun _ => id) ?_
    rintro s' ⟨rfl, -⟩
    refine ⟨⟨?_, h.settled.pushed _ _⟩, turns_pushed _ _ _, ?_⟩
    · rw [contents_pushed]
      exact (h.tracked.arrive hc hne hf Adds.last).setLoop _ _
    · exact (queues_pushed s _ _).mono fun _ _ hq => hq.2

theorem Good.send (h : s.Good) (hc : s.conns i = some c) (inLoop : Bool) (data : List UInt8)
    (w : WriteResult) :
    Yields Fault.Other (fun s' => s'.Good ∧ s.Advances (.send i inLoop data w) s')
      (s.send i inLoop data w) := by
  unfold ServerSystem.send
  simp only [hc]
  split
  · rename_i hstate
    refine (h.arrive hc (by simp [hstate]) (Or.inl ⟨data, rfl⟩) inLoop w).mono (fun _ => id) ?_
    intro s' ⟨hgood, hturns, hqueues⟩
    refine ⟨hgood, hturns.advances (hqueues.mono ?_)⟩
    rintro l f rfl
    trivial
  · exact yields_pure (h.refl_advances _)

theorem Good.shutdown (h : s.Good) (hc : s.conns i = some c) (inLoop : Bool) :
    Yields Fault.Other (fun s' => s'.Good ∧ s.Advances (.shutdown i inLoop) s')
      (s.shutdown i inLoop) := by
  unfold ServerSystem.shutdown
  simp only [hc]
  cases hshut : c.tcp.shutdown with
  | none => exact yields_pure (h.refl_advances _)
  | some t =>
    have hv := h.tracked.tracks i c hc
    obtain ⟨hs, hold, hnew⟩ := hv.standing.shutdown hshut
    have hu : Updates i s (s.setConn i { c with tcp := t }) := by
      refine Updates.setConn hc ?_
      rw [hold, hnew]
      exact .single .shutdown
    have hgood : (s.setConn i { c with tcp := t }).Good :=
      ⟨h.tracked.keep hc hs (by simp [hold, hnew]) (by simp [hold]), h.settled.updates hu⟩
    have hc' : (s.setConn i { c with tcp := t }).conns i = some { c with tcp := t } :=
      Function.update_self ..
    refine (hgood.arrive hc' (by simp [hnew]) (Or.inr rfl) inLoop (.wrote 0)).mono
      (fun _ => id) ?_
    intro s' ⟨hgood', hturns, hqueues⟩
    refine ⟨hgood', (hu.turns.trans hturns).advances ?_⟩
    refine Queues.mono hqueues ?_
    rintro l f rfl
    trivial

theorem Good.setHighWaterMarkCallback (h : s.Good) (hc : s.conns i = some c) (n : ℕ) :
    Yields Fault.Other (fun s' => s'.Good ∧ s.Advances (.setHighWaterMarkCallback i n) s')
      (s.step (.setHighWaterMarkCallback i n)) := by
  have hv := h.tracked.tracks i c hc
  have hyields : Yields TcpConnection.Fault.Other
      (fun t => t = { c.tcp with highWaterMarkCallback_ := true, highWaterMark_ := n })
      (pure { c.tcp with highWaterMarkCallback_ := true, highWaterMark_ := n }) := yields_pure rfl
  refine (yields_onConn (D := Fault.Other) (g := fun c =>
    pure { c with highWaterMarkCallback_ := true, highWaterMark_ := n }) hc hyields
    (fun _ he => he)).mono (fun _ => id) ?_
  rintro s' ⟨t, rfl, rfl⟩
  have hu : Updates i s (s.setConn i { c with
      tcp := { c.tcp with highWaterMarkCallback_ := true, highWaterMark_ := n } }) :=
    Updates.setConn hc .refl
  refine ⟨⟨?_, h.settled.updates hu⟩, hu.turns.advances (queues_of_eq rfl _)⟩
  exact h.tracked.keep hc (hv.standing.congr rfl rfl rfl) Iff.rfl id

end Connection

section Loop
variable {l : L}

theorem contents_setLoop (s : ServerSystem L) (l : L) (x : ServerLoop) :
    (s.setLoop l x).contents = Function.update s.contents l x.queue.contents := by
  funext l'
  by_cases hl : l' = l
  · subst hl
    simp [contents, setLoop]
  · simp [contents, setLoop, Function.update_of_ne hl]

/-- A loop never comes back after its return. -/
theorem Settled.setLoop (h : s.Settled) {x : ServerLoop}
    (hret : (s.loops l).returned → x.returned) : (s.setLoop l x).Settled where
  serving := h.serving
  emptied := h.emptied
  joined := by
    intro hlife l' hl'
    have hold := h.joined hlife l' hl'
    by_cases hl : l' = l
    · subst hl
      simpa [ServerSystem.setLoop] using hret hold
    · simpa [ServerSystem.setLoop, Function.update_of_ne hl] using hold
  pooled := h.pooled
  base := h.base

theorem Good.setLoop (h : s.Good) {x : ServerLoop}
    (hcontents : x.queue.contents = (s.loops l).queue.contents)
    (hret : (s.loops l).returned → x.returned) : (s.setLoop l x).Good := by
  refine ⟨?_, h.settled.setLoop hret⟩
  rw [contents_setLoop, hcontents]
  have hsame : Function.update s.contents l (s.loops l).queue.contents = s.contents :=
    Function.update_eq_self l s.contents
  rw [hsame]
  exact h.tracked.setLoop l x

theorem returned_setLoop (s : ServerSystem L) (l : L) (x : ServerLoop) (l' : L) :
    ((s.setLoop l x).loops l').returned = if l' = l then x.returned else (s.loops l').returned := by
  by_cases hl : l' = l
  · subst hl
    simp [setLoop]
  · simp [setLoop, hl]

theorem turns_setLoop {x : ServerLoop} (hret : x.returned = (s.loops l).returned) :
    s.Turns (s.setLoop l x) := by
  refine ⟨fun _ c hc => ⟨c.tcp, hc, .refl⟩, fun _ h => h, rfl, rfl, rfl, ?_,
    List.Subset.refl _⟩
  intro l'
  rw [returned_setLoop]
  split
  · rename_i hl
    rw [hl, hret]
  · rfl

/-- A change of the loop that keeps its functors and does not end it. -/
theorem Good.turnLoop (h : s.Good) {x : ServerLoop}
    (hcontents : x.queue.contents = (s.loops l).queue.contents)
    (hret : x.returned = (s.loops l).returned) (a : ServerStep L) :
    (s.setLoop l x).Good ∧ s.Advances a (s.setLoop l x) := by
  refine ⟨h.setLoop hcontents (by rw [hret]; exact id), (turns_setLoop hret).advances ?_⟩
  apply queues_of_eq
  rw [contents_setLoop, hcontents]
  exact Function.update_eq_self l s.contents

/-- The end of `doPendingFunctors`, and of the loop when `quit_` is set. -/
theorem Good.finish (h : s.Good) (hfree : s.Free l) (hbatch : (s.loops l).queue.batch = some []) :
    ∃ s', s.step (.finish l) = .ok s' ∧ s'.Good ∧ s.Advances (.finish l) s' := by
  have hcontents := BatchQueue.contents_finish hbatch
  refine ⟨_, rfl, h.setLoop hcontents (fun hret => ?_), ?_⟩
  · rw [hfree.1] at hret
    cases hret
  · refine ⟨fun _ c hc => ⟨c.tcp, hc, .refl⟩, rfl, Or.inl rfl, ?_, ?_, List.Subset.refl _,
      queues_of_eq ?_ _⟩
    · intro l'
      rw [returned_setLoop]
      split
      · rename_i hl
        subst hl
        exact Or.inr ⟨rfl, hfree.1, rfl⟩
      · exact Or.inl rfl
    · intro i c hnone hc
      exact absurd (hnone.symm.trans hc) (Option.some_ne_none c).symm
    · rw [contents_setLoop, hcontents]
      exact Function.update_eq_self l s.contents

theorem Good.runFunctor (h : s.Good) (hfree : s.Free l) {f : ServerFunctor}
    {queue : BatchQueue ServerFunctor} (hpop : (s.loops l).queue.pop? = some (f, queue))
    (w : WriteResult) :
    Yields (s.CallFault f) (fun s' => s'.Good ∧ s.Advances (.runFunctor l w) s')
      ((s.setLoop l { s.loops l with queue := queue }).call w f) := by
  have hturn : s.Turns (s.setLoop l { s.loops l with queue := queue }) := turns_setLoop rfl
  have hcontents : s.contents l = f :: queue.contents := BatchQueue.contents_pop hpop
  have hfront : front (s.setLoop l { s.loops l with queue := queue }).contents l f =
      s.contents := by
    rw [contents_setLoop, front, Function.update_idem, Function.update_self, ← hcontents]
    exact Function.update_eq_self l s.contents
  have htracked := h.tracked.setLoop l { s.loops l with queue := queue }
  rw [← hfront] at htracked
  have hset : (s.setLoop l { s.loops l with queue := queue }).Settled :=
    h.settled.setLoop (fun hret => hret)
  have hfree' : (s.setLoop l { s.loops l with queue := queue }).Free l :=
    ⟨(hturn.returned l).trans hfree.1, hfree.2⟩
  refine (call_good htracked hset hfree' w).mono (fun _ he => ?_) ?_
  · cases f <;> exact he
  rintro s' ⟨hgood, hturns, hqueues⟩
  refine ⟨hgood, (hturn.trans hturns).advances ?_⟩
  intro l' f' hf'
  rcases hqueues l' f' hf' with hin | ⟨rfl, hret⟩
  · left
    rw [← hfront]
    exact Adds.first.mem.mpr (Or.inl hin)
  · right
    rw [hturn.returned] at hret
    exact hret

end Loop

/-- The functor that `l` calls next. -/
def next? (s : ServerSystem L) (l : L) : Option ServerFunctor :=
  (s.loops l).queue.pop?.map Prod.fst

/-- The new connection gets a name that is not in the table. -/
def FreshName (s : ServerSystem L) : ServerStep L → Prop
  | .newConnection => s.server.connName ∉ s.server.connections_
  | _ => True

instance (s : ServerSystem L) (a : ServerStep L) : Decidable (s.FreshName a) :=
  match a with
  | .newConnection => inferInstanceAs (Decidable (¬ _))
  | .handleEvent _ _ _ _ | .send _ _ _ _ | .shutdown _ _ | .setHighWaterMarkCallback _ _
  | .swap _ | .runFunctor _ _ | .finish _ | .quit _ | .destroy | .joined => instDecidableTrue

/-- The step calls `connectDestroyed` of a connection in `kDisconnecting`. -/
def ClosesAbruptly (s : ServerSystem L) : ServerStep L → Prop
  | .runFunctor l _ => ∃ f ∈ s.next? l, s.EndsClosing f
  | .destroy => ∃ e ∈ s.server.connections_.entries, s.ClosingEntry e
  | _ => False

/-- The step calls a functor bound to the destroyed server. -/
def RunsGone (s : ServerSystem L) : ServerStep L → Prop
  | .runFunctor l _ => ∃ f ∈ s.next? l, s.ReachesGone f
  | _ => False

/-- The faults a step may end with. -/
def StepFault (s : ServerSystem L) (a : ServerStep L) (e : Fault) : Prop :=
  e.Other ∨ (s.ClosesAbruptly a ∧ ∃ e', e = .conn e') ∨ (s.RunsGone a ∧ e = .serverGone)

theorem Good.step (h : s.Good) {a : ServerStep L} (he : s.Enabled a) (hfresh : s.FreshName a) :
    Yields (s.StepFault a) (fun s' => s'.Good ∧ s.Advances a s') (s.step a) := by
  cases a with
  | newConnection =>
    exact (h.newConnection he.1 he.2.1 hfresh).mono (fun _ => Or.inl) fun _ => id
  | handleEvent i revents r w =>
    obtain ⟨c, hc, hfree, -, hrep, hprio⟩ := he
    exact (h.handleEvent hc hfree hrep hprio r w).mono (fun _ => Or.inl) fun _ => id
  | send i inLoop data w =>
    obtain ⟨c, hc⟩ := Option.isSome_iff_exists.mp he
    exact (h.send hc inLoop data w).mono (fun _ => Or.inl) fun _ => id
  | shutdown i inLoop =>
    obtain ⟨c, hc⟩ := Option.isSome_iff_exists.mp he
    exact (h.shutdown hc inLoop).mono (fun _ => Or.inl) fun _ => id
  | setHighWaterMarkCallback i n =>
    obtain ⟨c, hc⟩ := Option.isSome_iff_exists.mp he
    exact (h.setHighWaterMarkCallback hc n).mono (fun _ => Or.inl) fun _ => id
  | swap l =>
    exact yields_pure (h.turnLoop (x := { s.loops l with queue := (s.loops l).queue.swap })
      (BatchQueue.contents_swap he.2) rfl _)
  | runFunctor l w =>
    obtain ⟨hfree, hsome⟩ := he
    obtain ⟨⟨f, queue⟩, hpop⟩ := Option.isSome_iff_exists.mp hsome
    have hnext : f ∈ s.next? l := by simp [next?, hpop]
    simp only [ServerSystem.step, hpop]
    refine (h.runFunctor hfree hpop w).mono ?_ fun _ => id
    intro e hcall
    rcases hcall with hother | ⟨hclosing, hconn⟩ | ⟨hgone, hserver⟩
    · exact Or.inl hother
    · exact Or.inr (Or.inl ⟨⟨f, hnext, hclosing⟩, hconn⟩)
    · exact Or.inr (Or.inr ⟨⟨f, hnext, hgone⟩, hserver⟩)
  | finish l =>
    obtain ⟨s', hs, hgood⟩ := h.finish he.1 he.2
    rw [hs]
    exact yields_ok hgood
  | quit l => exact yields_pure (h.turnLoop (x := { s.loops l with quit_ := true }) rfl rfl _)
  | destroy =>
    refine (h.destroy he).mono ?_ fun _ => id
    intro e hfault
    exact hfault.imp id Or.inl
  | joined =>
    obtain ⟨hlife, hreturned⟩ := he
    have hdown : s.life ≠ .serving := by simp [hlife]
    obtain ⟨h₁, h₂, h₃, h₄⟩ := h.tracked
    refine yields_pure ⟨⟨⟨h₁, h₂, h₃, h₄⟩, ?_⟩, ?_⟩
    · refine ⟨fun hs => (by cases hs), fun _ => h.settled.emptied hdown, fun _ => hreturned,
        h.settled.pooled, ?_⟩
      intro i c hc hbase
      have hold := h.settled.base i c hc hbase
      exact ⟨hold.1, fun _ => hold.2 hdown⟩
    · refine ⟨fun _ c hc => ⟨c.tcp, hc, .refl⟩, rfl, Or.inr (Or.inr rfl), fun _ => Or.inl rfl,
        ?_, List.Subset.refl _, queues_of_eq rfl _⟩
      intro i c hnone hc
      exact absurd (hnone.symm.trans hc) (Option.some_ne_none c).symm

omit [DecidableEq L] in
theorem start_good (hostport_ : List Char) (name_ : Name) (writeComplete : Bool) (baseLoop_ : L)
    (loops_ : List L) : (start hostport_ name_ writeComplete baseLoop_ loops_).Good := by
  constructor
  · refine ⟨?_, ?_, ?_, ?_⟩
    · exact fun i c hc => by simp [start] at hc
    · exact fun l f hf => by simp [contents, start] at hf
    · exact fun name i hlook => by simp [start] at hlook
    · exact fun i hi => by simp [start] at hi
  · refine ⟨?_, fun hl => absurd rfl hl, fun hl => (by cases hl), ?_, ?_⟩
    · exact fun _ i c hc => by simp [start] at hc
    · exact fun i c hc => by simp [start] at hc
    · exact fun i c hc => by simp [start] at hc

theorem contents_finish {l : L} (he : s.Enabled (.finish l))
    (hs : s.step (.finish l) = .ok s') :
    s'.contents = s.contents := by
  obtain rfl := Except.ok.inj hs
  rw [contents_setLoop, BatchQueue.contents_finish he.2]
  exact Function.update_eq_self l s.contents

end ServerSystem

end MuduoServer
