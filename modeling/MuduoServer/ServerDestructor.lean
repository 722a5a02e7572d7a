import MuduoServer.ServerAdvance

/-!
The destructor of the server. It goes through the table and lets the loop of each
connection destroy it, at once where that is the acceptor's own loop.
-/
namespace MuduoServer

open FaultMachine Relation

namespace ServerSystem
variable {L : Type} {s s' s'' : ServerSystem L} {i : ℕ} [DecidableEq L]

/-- The destructor's loop has gone through the entries `es`. -/
structure Destroys (es : List (Σ _ : Name, ℕ)) (s s' : ServerSystem L) : Prop where
  tracked : s'.Tracked s'.contents
  turns : s.Turns s'
  kept : ∀ name j, s'.server.connections_.lookup name = some j →
    s.server.connections_.lookup name = some j ∧ ∀ e ∈ es, e.1 ≠ name
  others : ∀ j, (∀ e ∈ es, e.2 ≠ j) → s'.conns j = s.conns j
  done : ∀ e ∈ es, ∀ c, s'.conns e.2 = some c → c.loop_ = s.server.loop_ →
    c.tcp.state_ = .kDisconnected
  queues : s.Queues s' fun l f => (∃ i, f = .connectDestroyed i) ∧ (s.loops l).returned = false

/-- The connection of entry `e` is closing and in the acceptor's own loop. -/
def ClosingEntry (s : ServerSystem L) (e : Σ _ : Name, ℕ) : Prop :=
  ∃ c ∈ s.conns e.2, c.loop_ = s.server.loop_ ∧ c.tcp.state_ = .kDisconnecting

/-- Established connections in the acceptor's own loop. -/
def BaseEstablished (s : ServerSystem L) : Prop :=
  ∀ i c, s.conns i = some c → c.loop_ = s.server.loop_ → c.tcp.state_ ≠ .kConnecting

omit [DecidableEq L] in
theorem BaseEstablished.turns (h : s.BaseEstablished) (ht : s.Turns s') : s'.BaseEstablished := by
  intro i c' hc' hbase
  obtain ⟨c, hc, hloop, -, he⟩ := ht.before hc'
  rw [hloop, ht.loop_] at hbase
  exact edge_connecting he (h i c hc hbase)

theorem destroyEntry_spec {name : Name} (h : s.Tracked s.contents)
    (hbase : s.BaseEstablished) (hlook : s.server.connections_.lookup name = some i) :
    Yields (fun x => x.Other ∨ s.ClosingEntry ⟨name, i⟩ ∧ ∃ e', x = .conn e')
      (fun s' => Destroys [⟨name, i⟩] s s' ∧
        s'.server.connections_ = s.server.connections_.erase name)
      (s.destroyEntry ⟨name, i⟩) := by
  obtain ⟨c, hc, rfl⟩ := h.entries _ _ hlook
  have hkept : ∀ name' j, (s.server.connections_.erase c.name_).lookup name' = some j →
      s.server.connections_.lookup name' = some j ∧ ∀ e ∈ [(⟨c.name_, i⟩ : Σ _ : Name, ℕ)],
        e.1 ≠ name' := by
    intro name' j hj
    by_cases hsame : name' = c.name_
    · rw [hsame, AList.lookup_erase] at hj
      cases hj
    · rw [AList.lookup_erase_ne hsame] at hj
      exact ⟨hj, by simpa using fun heq => hsame heq.symm⟩
  unfold destroyEntry
  simp only [hc]
  change Yields _ _ ((s.unlist c.name_ s.removed).runInLoop s.server.loop_ c.loop_ _)
  unfold runInLoop
  split
  · rename_i hloop
    have htracked := h.handOver hc hlook (Or.inr ⟨hbase i c hc hloop.symm, rfl⟩)
    obtain ⟨d, hd, hyields⟩ := htracked.call_connectDestroyed (w := .wrote 0)
    obtain rfl : c = d := Option.some.inj (hc.symm.trans hd)
    refine hyields.mono ?_ ?_
    · intro x hx
      rcases hx with hother | ⟨hstate, hx⟩
      · exact Or.inl hother
      · exact Or.inr ⟨⟨c, hc, hloop.symm, hstate⟩, hx⟩
    · rintro s' ⟨htracked', hu, c', hc', hstate⟩
      have hturns : s.Turns s' := (turns_unlist s _ _).trans hu.turns
      refine ⟨⟨?_, hturns, ?_, ?_, ?_, ?_⟩, by rw [hu.server]; rfl⟩
      · rw [hu.contents]
        exact htracked'
      · rw [hu.server]
        exact hkept
      · intro j hj
        exact hu.other (hj _ (List.mem_singleton_self _)).symm
      · intro e he d hd' _
        obtain rfl := List.mem_singleton.mp he
        obtain rfl := Option.some.inj (hc'.symm.trans hd')
        exact hstate
      · exact queues_of_eq hu.contents _
  · rename_i hloop
    refine (yields_queueInLoop c.loop_ _).mono (fun _ he => Or.inl he) ?_
    rintro s' ⟨rfl, hret⟩
    refine ⟨⟨?_, ?_, hkept, fun _ _ => rfl, ?_, ?_⟩, rfl⟩
    · rw [contents_pushed]
      exact (h.handOver hc hlook (Or.inl rfl)).setLoop _ _
    · exact (turns_unlist s _ _).trans (turns_pushed _ _ _)
    · intro e he d hd hin
      obtain rfl := List.mem_singleton.mp he
      obtain rfl := Option.some.inj (hc.symm.trans hd)
      exact absurd hin.symm hloop
    · refine (queues_pushed (s.unlist c.name_ s.removed) _ _).mono ?_
      rintro l' f' ⟨rfl, rfl⟩
      refine ⟨⟨i, rfl⟩, ?_⟩
      by_contra hr
      have hgone : (s.loops c.loop_).returned = true := by simpa using hr
      exact hloop (hret hgone).symm

omit [DecidableEq L] in
/-- The rest of the entries, after the first one. -/
theorem Destroys.cons {e : Σ _ : Name, ℕ} {es : List (Σ _ : Name, ℕ)} (h₁ : Destroys [e] s s')
    (h₂ : Destroys es s' s'') : Destroys (e :: es) s s'' where
  tracked := h₂.tracked
  turns := h₁.turns.trans h₂.turns
  kept := by
    intro name j hj
    obtain ⟨hmid, hne⟩ := h₂.kept name j hj
    obtain ⟨hlook, hfirst⟩ := h₁.kept name j hmid
    refine ⟨hlook, ?_⟩
    intro x hx
    rcases List.mem_cons.mp hx with rfl | hin
    · exact hfirst _ (List.mem_singleton_self _)
    · exact hne x hin
  others := by
    intro j hj
    rw [h₂.others j fun x hx => hj x (List.mem_cons_of_mem _ hx)]
    apply h₁.others
    intro x hx
    obtain rfl := List.mem_singleton.mp hx
    exact hj _ List.mem_cons_self
  done := by
    intro x hx c'' hc'' hbase
    rcases List.mem_cons.mp hx with rfl | hin
    · obtain ⟨c', hc', hloop, -, he⟩ := h₂.turns.before hc''
      rw [hloop] at hbase
      exact edge_disconnected he (h₁.done _ (List.mem_singleton_self _) c' hc' hbase)
    · rw [← h₁.turns.loop_] at hbase
      exact h₂.done x hin c'' hc'' hbase
  queues := by
    intro l f hf
    rcases h₂.queues l f hf with hin | ⟨hdes, hret⟩
    · exact h₁.queues l f hin
    · rw [h₁.turns.returned] at hret
      exact Or.inr ⟨hdes, hret⟩

theorem destroyEntries_spec {es : List (Σ _ : Name, ℕ)} (h : s.Tracked s.contents)
    (hbase : s.BaseEstablished) (hnodup : (es.map Sigma.fst).Nodup)
    (hlook : ∀ e ∈ es, s.server.connections_.lookup e.1 = some e.2) :
    Yields (fun x => x.Other ∨ (∃ e ∈ es, s.ClosingEntry e) ∧ ∃ e', x = .conn e')
      (Destroys es s) (destroyEntries es s) := by
  induction es generalizing s with
  | nil =>
    exact yields_ok ⟨h, Turns.refl s, fun _ _ hj => ⟨hj, by simp⟩, fun _ _ => rfl, by simp,
      queues_of_eq rfl _⟩
  | cons e es ih =>
    obtain ⟨name, i⟩ := e
    obtain ⟨hnot, hrest⟩ := List.nodup_cons.mp hnodup
    have hfirst := hlook _ List.mem_cons_self
    -- the entries that follow are about other connections
    have hother : ∀ x ∈ es, x.1 ≠ name ∧ x.2 ≠ i := by
      intro x hx
      have hname : x.1 ≠ name := fun heq => hnot (List.mem_map.mpr ⟨x, hx, heq⟩)
      refine ⟨hname, ?_⟩
      intro heq
      obtain ⟨c, hc, hcname⟩ := h.entries _ _ hfirst
      obtain ⟨d, hd, hdname⟩ := h.entries _ _ (hlook x (List.mem_cons_of_mem _ hx))
      simp only at hc
      rw [heq, hc] at hd
      obtain rfl := Option.some.inj hd
      exact hname (hdname.symm.trans hcname)
    unfold destroyEntries
    refine Yields.bind ((destroyEntry_spec h hbase hfirst).mono ?_ fun _ => id) ?_
    · intro x hx
      exact hx.imp id (fun hc => ⟨⟨_, List.mem_cons_self, hc.1⟩, hc.2⟩)
    intro s₁ ⟨h₁, htable⟩
    refine (ih h₁.tracked (hbase.turns h₁.turns) hrest ?_).mono ?_ (fun s₂ h₂ => h₁.cons h₂)
    · intro x hx
      rw [htable, AList.lookup_erase_ne (hother x hx).1]
      exact hlook x (List.mem_cons_of_mem _ hx)
    · intro y hy
      refine hy.imp id ?_
      rintro ⟨⟨x, hx, c, hc, hloop, hstate⟩, hy⟩
      refine ⟨⟨x, List.mem_cons_of_mem _ hx, c, ?_, ?_, hstate⟩, hy⟩
      · rw [h₁.others x.2 fun z hz => ?_] at hc
        · exact hc
        · obtain rfl := List.mem_singleton.mp hz
          exact (hother x hx).2.symm
      · rw [hloop, h₁.turns.loop_]

omit [DecidableEq L] in
/-- A connection out of the table has been removed, so it is disconnected. -/
theorem Good.disconnected_of_not_mem (h : s.Good) (hlife : s.life = .serving) {c : Connection L}
    (hc : s.conns i = some c) (hnot : s.server.connections_.lookup c.name_ ≠ some i) :
    c.tcp.state_ = .kDisconnected := by
  have hin : i ∈ s.removed := by
    by_contra hn
    exact hnot ((h.settled.serving hlife i c hc).mpr hn)
  apply (h.tracked.tracks i c hc).closed
  right
  simpa [ledger] using hin

/-- After the destructor's loop the table is empty and the acceptor's own connections
are destroyed. -/
theorem Good.destroy (h : s.Good) (hlife : s.life = .serving) :
    Yields (fun x => x.Other ∨ (∃ e ∈ s.server.connections_.entries, s.ClosingEntry e) ∧
        ∃ e', x = .conn e')
      (fun s' => s'.Good ∧ s.Advances .destroy s') s.destroy := by
  have hentry : ∀ e ∈ s.server.connections_.entries,
      s.server.connections_.lookup e.1 = some e.2 :=
    fun e he => AList.mem_lookup_iff.mpr he
  have hbase : s.BaseEstablished := fun i c hc hin => (h.settled.base i c hc hin).1
  unfold ServerSystem.destroy
  refine (destroyEntries_spec h.tracked hbase s.server.connections_.keys_nodup hentry).bind ?_
  intro s₁ hd
  have hempty : s₁.server.connections_ = ∅ := by
    apply AList.ext
    apply List.eq_nil_iff_forall_not_mem.mpr
    intro e he
    obtain ⟨hold, hne⟩ := hd.kept e.1 e.2 (AList.mem_lookup_iff.mpr he)
    exact hne e (AList.mem_lookup_iff.mp hold) rfl
  refine yields_pure ⟨⟨?_, ?_⟩, ?_⟩
  · exact ⟨hd.tracked.tracks, hd.tracked.placed, hd.tracked.entries, hd.tracked.numbered⟩
  · refine ⟨fun hl => ?_, fun _ => hempty, fun hl => ?_, ?_, ?_⟩
    · cases hl
    · cases hl
    · intro j c' hc'
      obtain ⟨c, hc, hloop, -, -⟩ := hd.turns.before hc'
      have hold := h.settled.pooled j c hc
      rwa [← hloop, ← hd.turns.loop_, ← hd.turns.loops_] at hold
    · intro j c' hc' hin
      obtain ⟨c, hc, hloop, -, he⟩ := hd.turns.before hc'
      have hin' : c.loop_ = s.server.loop_ := by rw [← hloop, ← hd.turns.loop_]; exact hin
      refine ⟨edge_connecting he (h.settled.base j c hc hin').1, fun _ => ?_⟩
      by_cases hl : s.server.connections_.lookup c.name_ = some j
      · exact hd.done ⟨c.name_, j⟩ (AList.mem_lookup_iff.mp hl) c' hc' (hloop.trans hin')
      · exact edge_disconnected he (h.disconnected_of_not_mem hlife hc hl)
  · refine ⟨hd.turns.conns, hd.turns.loop_, Or.inr (Or.inl rfl),
      fun l => Or.inl (hd.turns.returned l), ?_, hd.turns.destroyed, ?_⟩
    · intro j c hnone hc
      rw [hd.turns.fresh j hnone] at hc
      cases hc
    refine Queues.mono hd.queues ?_
    rintro l f ⟨⟨j, rfl⟩, hret⟩
    exact hret

end ServerSystem

end MuduoServer
