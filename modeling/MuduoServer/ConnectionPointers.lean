import MuduoServer.SharedServer

/-!
How the steps of a server pass the pointers to its connections on. A connection leaves the
table only for a functor that is bound to it, except where `~TcpServer` calls
`connectDestroyed` at once or where two connections have one name. The steps of the loops queue
no functor that is bound to a plain `this`.
-/
namespace MuduoServer

open FaultMachine FaultMachine.Machine

namespace ServerSystem

variable {L : Type} {s s' s'' : ServerSystem L} {i : ℕ} {l : L} {f : ServerFunctor}
  {lost lost' : ℕ → Prop}

/-- The loop that a functor of connection `c` is queued in. -/
def home (s : ServerSystem L) (c : Connection L) : ServerFunctor → L
  | .removeConnectionInLoop _ => s.server.loop_
  | .connectEstablished _ | .connectDestroyed _ | .sendInLoop _ _ | .shutdownInLoop _ => c.loop_

def AtHome (s : ServerSystem L) (l : L) (f : ServerFunctor) : Prop :=
  ∃ c, s.conns f.conn = some c ∧ l = s.home c f

/-- A functor with a pointer to connection `i` is queued in a loop that is there. -/
def Queued (s : ServerSystem L) (i : ℕ) : Prop :=
  ∃ l, ((s.loops l).returned = false ∨ l = s.server.loop_) ∧ ∃ f ∈ s.contents l, f.pointer? = some i

/-- The connections that are not `lost` keep their pointers. -/
structure Passes (lost : ℕ → Prop) (s s' : ServerSystem L) : Prop where
  contents : ∀ l, ∃ fs, s'.contents l = s.contents l ++ fs ∧
    ∀ f ∈ fs, f.this? = none ∧ s'.AtHome l f
  returned : ∀ l, (s'.loops l).returned = (s.loops l).returned
  base : s'.server.loop_ = s.server.loop_
  conns : ∀ i c, s.conns i = some c → ∃ t, s'.conns i = some { c with tcp := t }
  numbered : (∀ i, (s.conns i).isSome → i < s.server.nextConnId_) →
    ∀ i, (s'.conns i).isSome → i < s'.server.nextConnId_
  table : ∀ name i, s.server.connections_.lookup name = some i → ¬ lost i →
    s'.server.connections_.lookup name = some i ∨ s'.Queued i

theorem AtHome.mono (h : s.AtHome l f) (hbase : s'.server.loop_ = s.server.loop_)
    (hconns : ∀ i c, s.conns i = some c → ∃ t, s'.conns i = some { c with tcp := t }) :
    s'.AtHome l f := by
  obtain ⟨c, hc, rfl⟩ := h
  obtain ⟨t, ht⟩ := hconns _ c hc
  refine ⟨_, ht, ?_⟩
  cases f <;> simp [home, hbase]

theorem Passes.mem (h : Passes lost s s') (hf : f ∈ s.contents l) : f ∈ s'.contents l := by
  obtain ⟨fs, hfs, -⟩ := h.contents l
  rw [hfs]
  exact List.mem_append_left _ hf

theorem Passes.queued (h : Passes lost s s') (hq : s.Queued i) : s'.Queued i := by
  obtain ⟨l, hl, f, hf, hi⟩ := hq
  refine ⟨l, ?_, f, h.mem hf, hi⟩
  rw [h.returned, h.base]
  exact hl

theorem Passes.refl (lost : ℕ → Prop) (s : ServerSystem L) : Passes lost s s where
  contents l := ⟨[], (List.append_nil _).symm, by simp⟩
  returned _ := rfl
  base := rfl
  conns i c hc := ⟨c.tcp, hc⟩
  numbered := id
  table name i hi _ := Or.inl hi

theorem Passes.trans (h : Passes lost s s') (h' : Passes lost s' s'') : Passes lost s s'' where
  contents l := by
    obtain ⟨fs, hfs, hnew⟩ := h.contents l
    obtain ⟨gs, hgs, hnew'⟩ := h'.contents l
    refine ⟨fs ++ gs, by rw [hgs, hfs, List.append_assoc], fun f hf => ?_⟩
    rcases List.mem_append.mp hf with hf | hf
    · exact ⟨(hnew f hf).1, (hnew f hf).2.mono h'.base h'.conns⟩
    · exact hnew' f hf
  returned l := (h'.returned l).trans (h.returned l)
  base := h'.base.trans h.base
  conns i c hc := by
    obtain ⟨t, ht⟩ := h.conns i c hc
    obtain ⟨u, hu⟩ := h'.conns i _ ht
    exact ⟨u, hu⟩
  numbered hn := h'.numbered (h.numbered hn)
  table name i hi hlost := by
    rcases h.table name i hi hlost with hi | hi
    · exact h'.table name i hi hlost
    · exact Or.inr (h'.queued hi)

theorem Passes.mono (h : Passes lost s s') (hlost : ∀ i, lost i → lost' i) : Passes lost' s s' :=
  { h with table := fun name i hi hnot => h.table name i hi fun hl => hnot (hlost i hl) }

section Operations

theorem Passes.setConn {c : Connection L} (hc : s.conns i = some c) (t : TcpConnection) :
    Passes lost s (s.setConn i { c with tcp := t }) where
  contents l := ⟨[], (List.append_nil _).symm, by simp⟩
  returned _ := rfl
  base := rfl
  conns j d hd := by
    by_cases hj : j = i
    · subst hj
      obtain rfl := Option.some.inj (hc.symm.trans hd)
      exact ⟨t, Function.update_self ..⟩
    · exact ⟨d.tcp, (Function.update_of_ne hj _ _).trans hd⟩
  numbered hn j hj := by
    by_cases hji : j = i
    · subst hji
      exact hn j (by simp [hc])
    · exact hn j (by simpa [ServerSystem.setConn, Function.update_of_ne hji] using hj)
  table name j hj _ := Or.inl hj

theorem onConn_cases {g : TcpConnection → Except TcpConnection.Fault TcpConnection}
    (h : s.onConn i g = .ok s') :
    ∃ c t, s.conns i = some c ∧ g c.tcp = .ok t ∧ s' = s.setConn i { c with tcp := t } := by
  unfold ServerSystem.onConn at h
  split at h
  · cases h
  · rename_i c hc
    simp only [bind_eq_ok, mapError_ok_iff, pure_eq_ok] at h
    obtain ⟨t, ht, rfl⟩ := h
    exact ⟨c, t, hc, ht, rfl⟩

theorem Passes.onConn {g : TcpConnection → Except TcpConnection.Fault TcpConnection}
    (h : s.onConn i g = .ok s') : Passes lost s s' := by
  obtain ⟨c, t, hc, -, rfl⟩ := onConn_cases h
  exact Passes.setConn hc t

/-- The table without the entry of a name: its connection is lost. -/
theorem Passes.unlist (name : Name) (removed : List ℕ) :
    Passes (fun j => s.server.connections_.lookup name = some j) s (s.unlist name removed) where
  contents l := ⟨[], (List.append_nil _).symm, by simp⟩
  returned _ := rfl
  base := rfl
  conns j c hc := ⟨c.tcp, hc⟩
  numbered := id
  table name' j hj hlost := by
    refine Or.inl ?_
    have hne : name' ≠ name := by
      rintro rfl
      exact hlost hj
    exact (AList.lookup_erase_ne hne).trans hj

variable [DecidableEq L]

theorem queueInLoop_cases (h : s.queueInLoop l f = .ok s') :
    s' = s.pushed l f ∧ ((s.loops l).returned = false ∨ l = s.server.loop_) := by
  have hspec := (yields_queueInLoop l f).of_ok h
  refine ⟨hspec.1, ?_⟩
  by_cases hreturned : (s.loops l).returned = true
  · exact Or.inr (hspec.2 hreturned)
  · exact Or.inl (by simpa using hreturned)

theorem mem_pushed {g : ServerFunctor} {l' : L} :
    g ∈ (s.pushed l f).contents l' ↔ g ∈ s.contents l' ∨ l' = l ∧ g = f := by
  rw [contents_pushed]
  by_cases hl : l' = l
  · subst hl
    simp [back]
  · simp [back, hl]

theorem Passes.pushed (hthis : f.this? = none) (hhome : s.AtHome l f) :
    Passes lost s (s.pushed l f) where
  contents l' := by
    rw [contents_pushed]
    by_cases hl : l' = l
    · subst hl
      refine ⟨[f], by simp [back], fun g hg => ?_⟩
      rw [List.mem_singleton.mp hg]
      exact ⟨hthis, hhome⟩
    · exact ⟨[], by simp [back, hl], by simp⟩
  returned := returned_pushed l f
  base := rfl
  conns j c hc := ⟨c.tcp, hc⟩
  numbered := id
  table name j hj _ := Or.inl hj

theorem queued_pushed (hl : (s.loops l).returned = false ∨ l = s.server.loop_)
    (hf : f.pointer? = some i) : (s.pushed l f).Queued i := by
  refine ⟨l, ?_, f, mem_pushed.mpr (Or.inr ⟨rfl, rfl⟩), hf⟩
  rw [returned_pushed]
  exact hl

/-- A turn of a loop that keeps its functors. -/
theorem Passes.setLoop {x : ServerLoop} (hcontents : x.queue.contents = s.contents l)
    (hreturned : x.returned = (s.loops l).returned) : Passes lost s (s.setLoop l x) where
  contents l' := by
    refine ⟨[], ?_, by simp⟩
    rw [contents_setLoop, hcontents, Function.update_eq_self, List.append_nil]
  returned l' := by
    rw [returned_setLoop]
    split
    · rename_i hl
      rw [hl, hreturned]
    · rfl
  base := rfl
  conns j c hc := ⟨c.tcp, hc⟩
  numbered := id
  table name j hj _ := Or.inl hj

/-- The entry under the name of connection `i` is of the other connection `j`. -/
def Displaced (s : ServerSystem L) (i j : ℕ) : Prop :=
  j ≠ i ∧ ∃ c ∈ s.conns i, s.server.connections_.lookup c.name_ = some j

theorem removeConnectionInLoop_passes (h : s.removeConnectionInLoop i = .ok s') :
    Passes (s.Displaced i) s s' := by
  unfold removeConnectionInLoop at h
  simp only [bind_eq_ok, check_eq_ok] at h
  obtain ⟨-, -, h⟩ := h
  split at h
  · cases h
  · rename_i c hc
    simp only [bind_eq_ok, check_eq_ok] at h
    obtain ⟨-, -, h⟩ := h
    obtain ⟨rfl, hl⟩ := queueInLoop_cases (s := s.unlist c.name_ (s.removed ++ [i])) h
    have hpush := (Passes.unlist c.name_ (s.removed ++ [i])).trans
      (Passes.pushed (f := .connectDestroyed i) rfl ⟨c, hc, rfl⟩)
    refine { hpush with table := fun name j hj hlost => ?_ }
    by_cases hname : s.server.connections_.lookup c.name_ = some j
    · have hji : j = i := by
        by_contra hne
        exact hlost ⟨hne, c, hc, hname⟩
      subst hji
      exact Or.inr (queued_pushed hl rfl)
    · exact hpush.table name j hj hname

theorem call_passes {w : WriteResult} (h : s.call w f = .ok s') :
    Passes (fun j => ∃ i, f = .removeConnectionInLoop i ∧ s.Displaced i j) s s' := by
  cases f with
  | connectEstablished i => exact Passes.onConn h
  | removeConnectionInLoop i =>
    exact (removeConnectionInLoop_passes h).mono fun j hj => ⟨i, rfl, hj⟩
  | connectDestroyed i =>
    simp only [call, bind_eq_ok, pure_eq_ok] at h
    obtain ⟨s₁, hs₁, rfl⟩ := h
    have hconn : Passes (fun j => ∃ k, ServerFunctor.connectDestroyed i =
        .removeConnectionInLoop k ∧ s.Displaced k j) s s₁ := Passes.onConn hs₁
    exact { hconn with }
  | sendInLoop i message =>
    simp only [call] at h
    exact Passes.onConn h
  | shutdownInLoop i =>
    simp only [call] at h
    exact Passes.onConn h

/-- `send` in the thread of the connection's loop. -/
theorem send_passes {data : List UInt8} {w : WriteResult} (h : s.send i true data w = .ok s') :
    Passes lost s s' := by
  unfold send at h
  split at h
  · cases h
  · split at h
    · simp only [if_true, call] at h
      exact Passes.onConn h
    · obtain rfl := pure_eq_ok.mp h
      exact Passes.refl lost s

theorem shutdown_passes (h : s.shutdown i true = .ok s') : Passes lost s s' := by
  unfold shutdown at h
  split at h
  · cases h
  · rename_i c hc
    split at h
    · obtain rfl := pure_eq_ok.mp h
      exact Passes.refl lost s
    · simp only [if_true, call] at h
      exact (Passes.setConn hc _).trans (Passes.onConn h)

/-- `runInLoop` calls the functor or queues it where it belongs. -/
theorem runInLoop_passes {thread : L} (hthis : f.this? = none) (hhome : s.AtHome l f)
    (h : s.runInLoop thread l f = .ok s') :
    Passes (fun j => thread = l ∧ ∃ i, f = .removeConnectionInLoop i ∧ s.Displaced i j) s s' ∧
      (thread = l ∨ ∀ i, f.pointer? = some i → s'.Queued i) := by
  unfold runInLoop at h
  split at h
  · rename_i hthread
    exact ⟨(call_passes h).mono fun j hj => ⟨hthread, hj⟩, Or.inl hthread⟩
  · obtain ⟨rfl, hl⟩ := queueInLoop_cases h
    exact ⟨Passes.pushed hthis hhome, Or.inr fun i hi => queued_pushed hl hi⟩

theorem removeConnection_passes {thread : L} {c : Connection L} (hc : s.conns i = some c)
    (h : s.removeConnection thread i = .ok s') :
    Passes (fun j => thread = s.server.loop_ ∧ s.Displaced i j) s s' := by
  unfold removeConnection at h
  simp only [bind_eq_ok, check_eq_ok] at h
  obtain ⟨-, -, h⟩ := h
  refine (runInLoop_passes (f := .removeConnectionInLoop i) rfl ⟨c, hc, rfl⟩ h).1.mono
    fun j hj => ?_
  obtain ⟨hthread, k, hk, hdisplaced⟩ := hj
  obtain rfl : i = k := by simpa using hk
  exact ⟨hthread, hdisplaced⟩

/-- The new connection takes the entry of a connection that has its name. -/
theorem newConnection_passes (hnumbered : ∀ i, (s.conns i).isSome → i < s.server.nextConnId_)
    (h : s.newConnection = .ok s') :
    Passes (fun j => s.server.connections_.lookup s.server.connName = some j) s s' := by
  unfold newConnection at h
  simp only [bind_eq_ok, check_eq_ok] at h
  obtain ⟨-, -, h⟩ := h
  obtain ⟨hbase, -, -⟩ := getNextLoop_spec s.server.threadPool_
  have hfresh : ∀ i, (s.conns i).isSome → i ≠ s.server.nextConnId_ := by
    intro i hi
    have hlt := hnumbered i hi
    omega
  have haccept : Passes (fun j => s.server.connections_.lookup s.server.connName = some j) s
      (s.accepted s.server.threadPool_.getNextLoop.2
        { loop_ := s.server.threadPool_.getNextLoop.1
          name_ := s.server.connName
          tcp := TcpConnection.new s.server.writeCompleteCallback_ false (64 * 1024 * 1024) }) := by
    constructor
    · exact fun l => ⟨[], (List.append_nil _).symm, by simp⟩
    · exact fun _ => rfl
    · exact hbase
    · intro i c hc
      have hne := hfresh i (by simp [hc])
      exact ⟨c.tcp, (Function.update_of_ne hne _ _).trans hc⟩
    · intro _ i hi
      by_cases hne : i = s.server.nextConnId_
      · show i < s.server.nextConnId_ + 1
        omega
      · have hlt := hnumbered i
          (by simpa [accepted, ServerSystem.setConn, Function.update_of_ne hne] using hi)
        show i < s.server.nextConnId_ + 1
        omega
    · intro name i hi hlost
      refine Or.inl ?_
      have hne : name ≠ s.server.connName := by
        rintro rfl
        exact hlost hi
      exact (AList.lookup_insert_ne hne).trans hi
  refine haccept.trans ((runInLoop_passes (f := .connectEstablished s.server.nextConnId_) rfl
    ⟨_, Function.update_self .., rfl⟩ h).1.mono fun j hj => ?_)
  obtain ⟨-, k, hk, -⟩ := hj
  cases hk

theorem connectDestroyed_server {thread : L}
    (h : s.runInLoop thread l (.connectDestroyed i) = .ok s') : s'.server = s.server := by
  unfold runInLoop at h
  split at h
  · simp only [call, bind_eq_ok, pure_eq_ok] at h
    obtain ⟨s₁, hs₁, rfl⟩ := h
    obtain ⟨c, t, -, -, rfl⟩ := onConn_cases hs₁
    rfl
  · obtain ⟨rfl, -⟩ := queueInLoop_cases h
    rfl

/-- The entries that the destructor goes through: the connections in the acceptor's own loop
are destroyed at once. -/
theorem destroyEntry_passes {e : Σ _ : Name, ℕ}
    (hown : ∀ v, s.server.connections_.lookup e.1 = some v → v = e.2)
    (h : s.destroyEntry e = .ok s') :
    Passes (fun j => e.2 = j ∧ ∀ c ∈ s.conns j, c.loop_ = s.server.loop_) s s' ∧
      s'.server.connections_ = s.server.connections_.erase e.1 := by
  unfold destroyEntry at h
  split at h
  · cases h
  · rename_i c hc
    have hcall := runInLoop_passes (s := s.unlist e.1 s.removed) (f := .connectDestroyed e.2) rfl
      ⟨c, hc, rfl⟩ h
    constructor
    · have hrun : Passes (fun j => s.server.connections_.lookup e.1 = some j)
          (s.unlist e.1 s.removed) s' := by
        refine hcall.1.mono fun j hj => ?_
        obtain ⟨-, k, hk, -⟩ := hj
        cases hk
      have hpass := (Passes.unlist e.1 s.removed).trans hrun
      refine { hpass with table := fun name j hj hlost => ?_ }
      by_cases hname : s.server.connections_.lookup e.1 = some j
      · obtain rfl := hown j hname
        refine Or.inr ?_
        rcases hcall.2 with hthread | hqueued
        · refine absurd ⟨rfl, fun c' hc' => ?_⟩ hlost
          obtain rfl := Option.some.inj (hc.symm.trans hc')
          exact hthread.symm
        · exact hqueued e.2 rfl
      · exact hpass.table name j hj hname
    · exact congrArg TcpServer.connections_ (connectDestroyed_server h)

/-- What the entries that follow are of is not changed by the ones before. -/
theorem destroyEntries_passes {es : List (Σ _ : Name, ℕ)}
    (hown : ∀ e ∈ es, ∀ v, s.server.connections_.lookup e.1 = some v → v = e.2)
    (h : destroyEntries es s = .ok s') :
    Passes (fun j => ∃ e ∈ es, e.2 = j ∧ ∀ c ∈ s.conns j, c.loop_ = s.server.loop_) s s' := by
  induction es generalizing s with
  | nil =>
    simp only [destroyEntries, Except.ok.injEq] at h
    subst h
    exact Passes.refl _ s
  | cons e es ih =>
    simp only [destroyEntries, bind_eq_ok] at h
    obtain ⟨s₁, hentry, hrest⟩ := h
    obtain ⟨hpass, htable⟩ := destroyEntry_passes (hown e List.mem_cons_self) hentry
    have hown' : ∀ e' ∈ es, ∀ v, s₁.server.connections_.lookup e'.1 = some v → v = e'.2 := by
      intro e' he' v hv
      rw [htable] at hv
      have hne : e'.1 ≠ e.1 := by
        intro hname
        rw [hname, AList.lookup_erase] at hv
        cases hv
      exact hown e' (List.mem_cons_of_mem _ he') v ((AList.lookup_erase_ne hne).symm.trans hv)
    refine (hpass.mono fun j hj => ⟨e, List.mem_cons_self, hj⟩).trans
      ((ih hown' hrest).mono fun j hj => ?_)
    obtain ⟨e', he', hj, hbase⟩ := hj
    refine ⟨e', List.mem_cons_of_mem _ he', hj, fun c hc => ?_⟩
    obtain ⟨t, ht⟩ := hpass.conns j c hc
    exact (hbase _ ht).trans hpass.base

theorem destroy_passes (h : s.destroy = .ok s') :
    Passes (fun j => ∃ e ∈ s.server.connections_.entries, e.2 = j ∧
      ∀ c ∈ s.conns j, c.loop_ = s.server.loop_) s s' := by
  simp only [destroy, bind_eq_ok, pure_eq_ok] at h
  obtain ⟨s₁, hs₁, rfl⟩ := h
  have hpass := destroyEntries_passes (fun e he v hv => ?_) hs₁
  · exact { hpass with }
  · have hlookup : s.server.connections_.lookup e.1 = some e.2 := AList.mem_lookup_iff.mpr he
    exact Option.some.inj (hv.symm.trans hlookup)

end Operations

section Event

/-- A connection that the peer does not end keeps quiet about its close. -/
theorem ends_of_close {t t' : TcpConnection} {revents : Finset Poll} {r : Buffer.ReadResult}
    {w : WriteResult} (h : t.handleEvent revents r w = .ok t')
    (hclose : .closeCallback ∈ t'.notices.drop t.notices.length) :
    TcpConnection.Ends revents r := by
  by_contra hends
  obtain ⟨hhup, hread⟩ := not_or.mp hends
  have hkeeps : TcpConnection.Keeps t t' := by
    unfold TcpConnection.handleEvent Channel.handleEventWithGuard at h
    simp only [bind_eq_ok] at h
    obtain ⟨t₁, h₁, t₂, h₂, t₃, h₃, h₄⟩ := h
    rw [Channel.callIf, if_neg hhup, pure_eq_ok] at h₁
    have h₁₂ : t₁ = t₂ := by
      unfold Channel.callIf at h₂
      split at h₂ <;> exact pure_eq_ok.mp h₂
    have h₂₃ : TcpConnection.Keeps t₂ t₃ := by
      unfold Channel.callIf at h₃
      split at h₃
      · rename_i hset
        obtain ⟨b, -, hcases⟩ := TcpConnection.handleRead_cases h₃
        rcases hcases with ⟨-, rfl⟩ | ⟨hzero, -⟩ | ⟨-, rfl⟩
        · refine TcpConnection.Keeps.of_eq rfl rfl rfl ?_
          simp [Notice.quiet]
        · exact absurd ⟨hset, hzero⟩ hread
        · exact TcpConnection.Keeps.of_eq rfl rfl (List.append_nil _).symm (by simp)
      · obtain rfl := pure_eq_ok.mp h₃
        exact TcpConnection.Keeps.refl t₂
    have h₃₄ : TcpConnection.Keeps t₃ t' := by
      unfold Channel.callIf at h₄
      split at h₄
      · exact (TcpConnection.keeps_handleWrite t₃ w).of_ok h₄
      · obtain rfl := pure_eq_ok.mp h₄
        exact TcpConnection.Keeps.refl t₃
    subst h₁ h₁₂
    exact h₂₃.trans h₃₄
  obtain ⟨ns, hnotices, hquiet⟩ := hkeeps.quiet
  rw [hnotices, List.drop_left] at hclose
  exact not_mem_of_quiet hquiet hclose

variable [DecidableEq L]

theorem handleEvent_passes {revents : Finset Poll} {r : Buffer.ReadResult} {w : WriteResult}
    (h : s.handleEvent i revents r w = .ok s') :
    Passes (fun j => ∃ c ∈ s.conns i, c.loop_ = s.server.loop_ ∧ TcpConnection.Ends revents r ∧
      s.Displaced i j) s s' := by
  unfold handleEvent at h
  split at h
  · cases h
  · rename_i c hc
    simp only [bind_eq_ok, mapError_ok_iff] at h
    obtain ⟨t, ht, h⟩ := h
    refine (Passes.setConn hc t).trans ?_
    split at h
    · rename_i hclose
      refine (removeConnection_passes (Function.update_self ..) h).mono fun j hj => ?_
      obtain ⟨hbase, hne, c', hc', hname⟩ := hj
      obtain rfl : { c with tcp := t } = c' := by simpa [ServerSystem.setConn] using hc'
      exact ⟨c, hc, hbase, ends_of_close ht hclose, hne, c, hc, hname⟩
    · obtain rfl := pure_eq_ok.mp h
      exact Passes.refl _ _

end Event

end ServerSystem

end MuduoServer
